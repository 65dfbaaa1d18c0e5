import Enumerant.Integer.Numeral
import Mathlib.Algebra.Group.Nat.Defs
import Mathlib.Data.List.Basic
import Mathlib.Order.Basic

/-!
# The order of padded numbers

Texts are compared character by character from the left. Numbers that fill the same width are in
the order of their values as texts too (`padded_lt_padded_iff`), whatever follows them
(`append_lt_append_iff`). The first digits of a number are those of a quotient
(`exists_padded_append`).
-/

namespace Enumerant.Numeral

/-! ### Texts of one length -/

/-- Of texts whose fronts have one length, the fronts decide first. -/
theorem append_lt_append_iff {as bs cs ds : List Char} (h : as.length = bs.length) :
    as ++ cs < bs ++ ds ↔ as < bs ∨ as = bs ∧ cs < ds := by
  induction as generalizing bs with
  | nil =>
    obtain rfl : bs = [] := List.length_eq_zero_iff.mp h.symm
    simp
  | cons a as ih =>
    cases bs with
    | nil => simp at h
    | cons b bs =>
      rw [List.cons_append, List.cons_append, List.cons_lt_cons_iff, List.cons_lt_cons_iff,
        ih (by simpa using h), List.cons.injEq]
      tauto

/-! ### Digits -/

theorem digitChar_lt_digitChar_iff {a b : Nat} (ha : a < 16) (hb : b < 16) :
    a.digitChar < b.digitChar ↔ a < b := by
  have all : ∀ a < 16, ∀ b < 16, (a.digitChar < b.digitChar ↔ a < b) := by decide
  exact all a ha b hb

variable {radix width n m : Nat}

theorem length_padded (hr : 1 < radix) (hn : n < radix ^ (width + 1)) :
    (padded radix (width + 1) n).length = width + 1 := by
  have hlen : (Nat.toDigits radix n).length ≤ width + 1 :=
    (Nat.length_toDigits_le_iff hr (Nat.succ_pos _)).mpr hn
  simp only [padded, List.length_append, List.length_replicate]
  omega

/-- The last digit stands behind the others, which are those of the quotient. -/
theorem padded_succ (hr : 1 < radix) :
    padded radix (width + 2) n =
      padded radix (width + 1) (n / radix) ++ [(n % radix).digitChar] := by
  unfold padded
  rw [Nat.toDigits_eq_if hr]
  split
  case isTrue hlt =>
    rw [Nat.div_eq_of_lt hlt, Nat.mod_eq_of_lt hlt, Nat.toDigits_zero]
    simp [← List.replicate_succ']
  case isFalse =>
    simp

/-- The digits of a number begin with those of its quotient by a power of the radix. -/
theorem exists_padded_append (hr : 1 < radix) (width n j : Nat) :
    ∃ ds, ds.length = j ∧
      padded radix (width + 1 + j) n = padded radix (width + 1) (n / radix ^ j) ++ ds := by
  induction j generalizing n with
  | zero => exact ⟨[], rfl, by simp⟩
  | succ j ih =>
    obtain ⟨ds, hlen, hds⟩ := ih (n / radix)
    refine ⟨ds ++ [(n % radix).digitChar], by simp [hlen], ?_⟩
    rw [show width + 1 + (j + 1) = width + j + 2 by omega, padded_succ hr,
      show width + j + 1 = width + 1 + j by omega, hds, Nat.div_div_eq_div_mul, ← Nat.pow_succ',
      List.append_assoc]

theorem padded_one (hn : n < radix) : padded radix 1 n = [n.digitChar] := by
  simp [padded, Nat.toDigits_of_lt_base hn]

/-- The quotient decides between two numbers, and then the remainder. -/
theorem lt_iff_div_lt_or_mod_lt (n m radix : Nat) :
    n < m ↔ n / radix < m / radix ∨ n / radix = m / radix ∧ n % radix < m % radix := by
  have hn := Nat.div_add_mod n radix
  have hm := Nat.div_add_mod m radix
  rcases Nat.lt_trichotomy (n / radix) (m / radix) with h | h | h
  · simp [h, Nat.lt_of_div_lt_div h]
  · rw [h] at hn ⊢
    omega
  · have hlt : m < n := Nat.lt_of_div_lt_div h
    omega

private theorem padded_inj_of_lt_iff (h : padded radix width n < padded radix width m ↔ n < m)
    (h' : padded radix width m < padded radix width n ↔ m < n) :
    padded radix width n = padded radix width m ↔ n = m := by
  refine ⟨fun he => ?_, fun he => by rw [he]⟩
  rw [he] at h h'
  have hirr := List.lt_irrefl (padded radix width m)
  exact Nat.le_antisymm (Nat.not_lt.mp fun hc => hirr (h'.mpr hc))
    (Nat.not_lt.mp fun hc => hirr (h.mpr hc))

/-- Numbers that fill one width are in the order of their values. -/
theorem padded_lt_padded_iff (hr : 1 < radix) (hr' : radix ≤ 16)
    (hn : n < radix ^ (width + 1)) (hm : m < radix ^ (width + 1)) :
    padded radix (width + 1) n < padded radix (width + 1) m ↔ n < m := by
  induction width generalizing n m with
  | zero =>
    rw [Nat.zero_add, Nat.pow_one] at hn hm
    rw [Nat.zero_add, padded_one hn, padded_one hm, List.cons_lt_cons_iff,
      digitChar_lt_digitChar_iff (by omega) (by omega)]
    simp
  | succ width ih =>
    have hmod : ∀ k, k % radix < 16 := fun k =>
      Nat.lt_of_lt_of_le (Nat.mod_lt k (by omega)) hr'
    have hdiv : ∀ {k}, k < radix ^ (width + 1 + 1) → k / radix < radix ^ (width + 1) :=
      fun {k} hk => Nat.div_lt_of_lt_mul (by rwa [Nat.mul_comm, ← Nat.pow_succ])
    have hlen : (padded radix (width + 1) (n / radix)).length =
        (padded radix (width + 1) (m / radix)).length := by
      rw [length_padded hr (hdiv hn), length_padded hr (hdiv hm)]
    rw [padded_succ hr, padded_succ hr, append_lt_append_iff hlen, ih (hdiv hn) (hdiv hm),
      padded_inj_of_lt_iff (ih (hdiv hn) (hdiv hm)) (ih (hdiv hm) (hdiv hn)),
      List.cons_lt_cons_iff, digitChar_lt_digitChar_iff (hmod n) (hmod m),
      lt_iff_div_lt_or_mod_lt n m radix]
    simp

theorem padded_inj (hr : 1 < radix) (hr' : radix ≤ 16)
    (hn : n < radix ^ (width + 1)) (hm : m < radix ^ (width + 1)) :
    padded radix (width + 1) n = padded radix (width + 1) m ↔ n = m :=
  padded_inj_of_lt_iff (padded_lt_padded_iff hr hr' hn hm) (padded_lt_padded_iff hr hr' hm hn)

end Enumerant.Numeral
