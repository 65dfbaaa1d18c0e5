import Mathlib.Algebra.Group.Nat.Defs
import Mathlib.Data.List.TakeWhile
import Mathlib.Tactic.SplitIfs
import Enumerant.Integer.Literal
import Enumerant.Proofs.Text.Code

/-!
# Reading numerals back

The digits of a number are read back as the number (`natural?_padded`), and so are the literals that
are written with them (`parse?_toDigits`, `parse?_hex`). The other way round, only digits, letters
and a sign are part of a literal that is read, and one without sign is not negative.
-/

namespace Enumerant

open Text

namespace Numeral

variable {radix width n before : Nat} {c : Char} {cs ds : List Char} {v : Int}

/-! ### Two's complement -/

theorem fits_natCast_iff : Fits n ↔ n < 2 ^ 127 := by
  constructor
  · rintro ⟨-, h⟩
    omega
  · exact fun h => ⟨by omega, by omega⟩

theorem bit_eq_two_pow (position : Nat) : bit position = 2 ^ position :=
  Nat.one_shiftLeft position

/-- A bit below that of the sign is a number that fits. -/
theorem fits_bit {position : Nat} (h : position < 127) : Fits (bit position) := by
  rw [fits_natCast_iff, bit_eq_two_pow]
  exact Nat.pow_lt_pow_right (by decide) h

/-! ### Digits -/

/-- Digits beyond nine are letters in either case. -/
theorem digit?_eq_some_iff {d : Nat} :
    digit? radix c = some d ↔ d < radix ∧
      (48 ≤ c.toNat ∧ c.toNat = 48 + d ∧ d ≤ 9 ∨ c.toNat = 87 + d ∧ 10 ≤ d ∧ d ≤ 35 ∨
        c.toNat = 55 + d ∧ 10 ≤ d ∧ d ≤ 35) := by
  unfold digit?
  simp only [Bool.and_eq_true, decide_eq_true_eq]
  split_ifs <;> simp only [Option.some_inj, false_iff] <;> omega

/-- The character of a digit is read as it. -/
theorem digit?_digitChar {d : Nat} (hd : d < radix) (hradix : radix ≤ 16) :
    digit? radix d.digitChar = some d := by
  have hcode : ∀ d < 16, digit? 16 d.digitChar = some d := by decide
  have hd' := hcode d (Nat.lt_of_lt_of_le hd hradix)
  rw [digit?_eq_some_iff] at hd' ⊢
  exact ⟨hd, hd'.2⟩

/-- Digits may be read in two parts. -/
theorem digits?_append (cs ds : List Char) (before : Nat) :
    digits? radix before (cs ++ ds) =
      (digits? radix before cs).bind fun n => digits? radix n ds := by
  induction cs generalizing before with
  | nil => rfl
  | cons c cs ih =>
    rw [List.cons_append, digits?, digits?]
    cases digit? radix c with
    | none => rfl
    | some d => exact ih _

/-- The digits of a number are read as it. -/
theorem digits?_toDigits (hr : 1 < radix) (hradix : radix ≤ 16) (n : Nat) :
    digits? radix 0 (Nat.toDigits radix n) = some n := by
  induction n using Nat.strongRecOn with
  | ind n ih =>
    rw [Nat.toDigits_eq_if hr]
    split
    case isTrue hlt => simp [digits?, digit?_digitChar hlt hradix]
    case isFalse hge =>
      have hmod : n % radix < radix := Nat.mod_lt n (by omega)
      rw [digits?_append, ih (n / radix) (Nat.div_lt_self (by omega) hr), Option.bind_some, digits?,
        digit?_digitChar hmod hradix]
      simp only [digits?, Nat.mul_comm _ radix, Nat.div_add_mod]

/-- Zeros in front count nothing. -/
theorem digits?_replicate_zero (hr : 0 < radix) (k : Nat) (ds : List Char) :
    digits? radix 0 (List.replicate k '0' ++ ds) = digits? radix 0 ds := by
  induction k with
  | zero => rfl
  | succ k ih =>
    have hzero : digit? radix '0' = some 0 := by simp [digit?, hr]
    rw [List.replicate_succ, List.cons_append, digits?, hzero]
    simpa using ih

theorem padded_zero (radix n : Nat) : padded radix 0 n = Nat.toDigits radix n := by
  rw [padded, Nat.zero_sub, List.replicate_zero, List.nil_append]

theorem padded_ne_nil : padded radix width n ≠ [] := by
  simp [padded, Nat.toDigits_ne_nil]

/-- A number is read back from its digits. -/
theorem natural?_padded (hr : 1 < radix) (hradix : radix ≤ 16) :
    natural? radix (padded radix width n) = some n := by
  obtain ⟨c, cs, hcs⟩ := List.exists_cons_of_ne_nil (@padded_ne_nil radix width n)
  rw [hcs, natural?, ← hcs, padded, digits?_replicate_zero (by omega), digits?_toDigits hr hradix]
  exact nofun

/-- Numbers with the same digits are the same. -/
theorem toDigits_inj {m : Nat} (hr : 1 < radix) (hradix : radix ≤ 16)
    (h : Nat.toDigits radix m = Nat.toDigits radix n) : m = n := by
  have hm : natural? radix (padded radix 0 m) = some m := natural?_padded hr hradix
  rw [padded_zero, h, ← padded_zero, natural?_padded hr hradix] at hm
  exact (Option.some.inj hm).symm

/-- Digits are decimal digits and letters. -/
theorem isAlphanum_of_digit? {d : Nat} (h : digit? radix c = some d) : c.isAlphanum := by
  rw [digit?_eq_some_iff] at h
  rw [isAlphanum_iff]
  omega

/-- What is read as digits is letters and digits. -/
theorem isAlphanum_of_digits? (h : digits? radix before cs = some n) :
    ∀ c ∈ cs, c.isAlphanum := by
  induction cs generalizing before with
  | nil => exact fun c hc => absurd hc List.not_mem_nil
  | cons c cs ih =>
    rw [digits?] at h
    cases hd : digit? radix c with
    | none => simp [hd] at h
    | some d =>
      simp only [hd] at h
      exact List.forall_mem_cons.mpr ⟨isAlphanum_of_digit? hd, ih h⟩

theorem isAlphanum_of_natural? (h : natural? radix cs = some n) :
    cs ≠ [] ∧ ∀ c ∈ cs, c.isAlphanum := by
  rcases cs with - | ⟨c, cs⟩
  · cases h
  · exact ⟨List.cons_ne_nil c cs, isAlphanum_of_digits? h⟩

/-- The sign in front of a numeral, if there is one, is no digit. -/
theorem integer?_of_alphanum (h : ∀ c ∈ cs, c.isAlphanum) :
    integer? radix cs = (natural? radix cs).bind fun n => checked n := by
  unfold integer?
  split
  · exact absurd (h _ List.mem_cons_self) (by decide)
  · exact absurd (h _ List.mem_cons_self) (by decide)
  · rfl

/-- Numbers are printed with letters and digits. -/
theorem isAlphanum_padded (hr : 1 < radix) (hradix : radix ≤ 16) :
    ∀ c ∈ padded radix width n, c.isAlphanum :=
  (isAlphanum_of_natural? (natural?_padded hr hradix)).2

/-- A number is read back if it fits. -/
theorem integer?_padded (hr : 1 < radix) (hradix : radix ≤ 16) :
    integer? radix (padded radix width n) = checked n := by
  rw [integer?_of_alphanum (isAlphanum_padded hr hradix), natural?_padded hr hradix,
    Option.bind_some]

/-- What is read as a number consists of digits and letters behind at most one sign. -/
theorem exists_of_integer? (h : integer? radix cs = some v) :
    ∃ sign ds, cs = sign ++ ds ∧ (sign = [] ∨ sign = ['-'] ∨ sign = ['+']) ∧ ds ≠ [] ∧
      ∀ c ∈ ds, c.isAlphanum := by
  unfold integer? at h
  split at h <;> obtain ⟨n, hn, -⟩ := Option.bind_eq_some_iff.mp h
  · exact ⟨['-'], _, rfl, .inr (.inl rfl), isAlphanum_of_natural? hn⟩
  · exact ⟨['+'], _, rfl, .inr (.inr rfl), isAlphanum_of_natural? hn⟩
  · exact ⟨[], _, rfl, .inl rfl, isAlphanum_of_natural? hn⟩

end Numeral

namespace Literal

variable {width n : Nat} {c : Char} {cs suffix : List Char} {v : Int}

/-! ### Literals -/

/-- The letters of a suffix are taken off as far as they go. -/
theorem withoutSuffix_append (hsuffix : ∀ c ∈ suffix, isSuffix c)
    (hcs : ∀ c ∈ cs.getLast?, isSuffix c = false) : withoutSuffix (cs ++ suffix) = cs := by
  rw [withoutSuffix, List.reverse_append,
    List.dropWhile_append_of_pos fun c hc => hsuffix c (List.mem_reverse.mp hc)]
  rcases List.eq_nil_or_concat cs with rfl | ⟨ds, d, rfl⟩
  · rfl
  · have hd : isSuffix d = false := hcs d (by simp)
    simp [hd]

/-- What is taken off is a suffix. -/
theorem exists_withoutSuffix (cs : List Char) :
    ∃ suffix, cs = withoutSuffix cs ++ suffix ∧ ∀ c ∈ suffix, isSuffix c := by
  refine ⟨(cs.reverse.takeWhile isSuffix).reverse, ?_, fun c hc => ?_⟩
  · rw [withoutSuffix, ← List.reverse_append, List.takeWhile_append_dropWhile, List.reverse_reverse]
  · exact List.mem_takeWhile_imp (List.mem_reverse.mp hc)

theorem isAlphanum_of_isSuffix (h : isSuffix c) : c.isAlphanum := by
  simp only [isSuffix, Bool.or_eq_true, decide_eq_true_eq] at h
  rcases h with ((rfl | rfl) | rfl) | rfl <;> decide

/-- The mark of a radix begins with a zero; without one the radix is ten. -/
theorem exists_radix (cs : List Char) :
    ∃ mark, cs = mark ++ (radix cs).2 ∧ (∀ c ∈ mark, c.isAlphanum) ∧
      (mark = [] ∧ (radix cs).1 = 10 ∨ mark.head? = some '0') := by
  unfold radix
  split
  · exact ⟨['0', 'x'], rfl, List.all_eq_true.mp rfl, .inr rfl⟩
  · exact ⟨['0', 'X'], rfl, List.all_eq_true.mp rfl, .inr rfl⟩
  · exact ⟨['0', 'b'], rfl, List.all_eq_true.mp rfl, .inr rfl⟩
  · exact ⟨['0', 'B'], rfl, List.all_eq_true.mp rfl, .inr rfl⟩
  · exact ⟨['0'], rfl, List.all_eq_true.mp rfl, .inr rfl⟩
  · exact ⟨[], rfl, by simp, .inl ⟨rfl, rfl⟩⟩

/-- The last digit of a number is no letter of a suffix. -/
theorem not_isSuffix_getLast?_padded {r : Nat} (hr : 1 < r) (hradix : r ≤ 16) (width n : Nat) :
    ∀ c ∈ (Numeral.padded r width n).getLast?, isSuffix c = false := by
  have hdigit : ∀ d < 16, isSuffix d.digitChar = false := by decide
  rw [Numeral.padded, Nat.toDigits_eq_if hr]
  split
  case isTrue hlt =>
    rw [List.getLast?_append, List.getLast?_singleton]
    rintro c ⟨⟩
    exact hdigit n (by omega)
  case isFalse =>
    rw [← List.append_assoc, List.getLast?_append, List.getLast?_singleton]
    rintro c ⟨⟩
    exact hdigit _ (Nat.lt_of_lt_of_le (Nat.mod_lt n (by omega)) hradix)

/-- A number other than zero does not begin with a zero. -/
theorem head?_toDigits_ne_zero (hn : n ≠ 0) : (Nat.toDigits 10 n).head? ≠ some '0' := by
  induction n using Nat.strongRecOn with
  | ind n ih =>
    rw [Nat.toDigits_eq_if (by decide)]
    split
    case isTrue hlt => simpa using hn
    case isFalse hge =>
      have hne : n / 10 ≠ 0 := by omega
      have hdigits := ih (n / 10) (by omega) hne
      obtain ⟨c, cs, hcs⟩ := List.exists_cons_of_ne_nil (@Nat.toDigits_ne_nil (n / 10) 10)
      rw [hcs] at hdigits ⊢
      exact hdigits

/-- The digits of a number mark no radix but ten. -/
theorem radix_toDigits (n : Nat) : radix (Nat.toDigits 10 n) = (10, Nat.toDigits 10 n) := by
  rcases Nat.eq_zero_or_pos n with rfl | hn
  · rfl
  · obtain ⟨mark, hmark, -, ⟨rfl, hr⟩ | hzero⟩ := exists_radix (Nat.toDigits 10 n)
    · exact Prod.ext hr hmark.symm
    · refine absurd ?_ (head?_toDigits_ne_zero (Nat.ne_of_gt hn))
      obtain ⟨ds, rfl⟩ := List.head?_eq_some_iff.mp hzero
      rw [hmark]
      rfl

/-- A decimal number is a literal of its value, and so it is with a suffix. -/
theorem parse?_toDigits_append (hsuffix : ∀ c ∈ suffix, isSuffix c) (n : Nat) :
    parse? (Nat.toDigits 10 n ++ suffix) = checked n := by
  have hlast := not_isSuffix_getLast?_padded (r := 10) (by decide) (by decide) 0 n
  have hinteger := @Numeral.integer?_padded 10 0 n (by decide) (by decide)
  rw [Numeral.padded_zero] at hlast hinteger
  rw [parse?, withoutSuffix_append hsuffix hlast, radix_toDigits]
  exact hinteger

/-- A decimal literal stands for its number. -/
theorem parse?_toDigits (n : Nat) : parse? (Nat.toDigits 10 n) = checked n := by
  have h := parse?_toDigits_append (List.forall_mem_nil fun c => isSuffix c) n
  rwa [List.append_nil] at h

/-- A hexadecimal number behind its mark is a literal of its value, and so it is with a suffix. -/
theorem parse?_hex (hsuffix : ∀ c ∈ suffix, isSuffix c) (width n : Nat) :
    parse? ('0' :: 'x' :: (Numeral.hex width n ++ suffix)) = checked n := by
  have hlast : ∀ c ∈ ('0' :: 'x' :: Numeral.hex width n).getLast?, isSuffix c = false := by
    have hne : Numeral.hex width n ≠ [] := Numeral.padded_ne_nil
    rw [List.getLast?_cons, List.getLast?_cons, List.getLast?_eq_some_getLast hne]
    have hdigits := not_isSuffix_getLast?_padded (r := 16) (by decide) (by decide) width n
    rw [← Numeral.hex, List.getLast?_eq_some_getLast hne] at hdigits
    exact hdigits
  rw [parse?, ← List.cons_append, ← List.cons_append, withoutSuffix_append hsuffix hlast, radix]
  exact Numeral.integer?_padded (by decide) (by decide)

/-- What may stand in a literal. -/
theorem forall_of_parse? (h : parse? cs = some v) :
    ∀ c ∈ cs, c.isAlphanum ∨ c = '-' ∨ c = '+' := by
  obtain ⟨suffix, hcs, hsuffix⟩ := exists_withoutSuffix cs
  obtain ⟨mark, hmark, halphanum, -⟩ := exists_radix (withoutSuffix cs)
  obtain ⟨sign, ds, hds, hsign, -, hdigits⟩ := Numeral.exists_of_integer? h
  change (radix (withoutSuffix cs)).2 = sign ++ ds at hds
  rw [hcs, hmark, hds]
  simp only [List.mem_append]
  rintro c ((hc | hc | hc) | hc)
  · exact .inl (halphanum c hc)
  · rcases hsign with rfl | rfl | rfl <;> simp at hc <;> simp [hc]
  · exact .inl (hdigits c hc)
  · exact .inl (isAlphanum_of_isSuffix (hsuffix c hc))

/-- A literal of digits and letters begins with a digit, and its value is not negative. -/
theorem exists_of_parse?_of_alphanum (hcs : ∀ c ∈ cs, c.isAlphanum) (h : parse? cs = some v) :
    (∃ c cs', cs = c :: cs' ∧ c.isDigit) ∧ 0 ≤ v ∧ Fits v := by
  obtain ⟨suffix, hwithout, -⟩ := exists_withoutSuffix cs
  obtain ⟨mark, hmark, -, hradix⟩ := exists_radix (withoutSuffix cs)
  have hinteger : Numeral.integer? (radix (withoutSuffix cs)).1 (radix (withoutSuffix cs)).2 =
      some v := h
  have hdigits : ∀ c ∈ (radix (withoutSuffix cs)).2, c.isAlphanum := by
    intro c hc
    refine hcs c ?_
    rw [hwithout, hmark]
    exact List.mem_append_left _ (List.mem_append_right _ hc)
  rw [Numeral.integer?_of_alphanum hdigits] at hinteger
  obtain ⟨n, hn, hv⟩ := Option.bind_eq_some_iff.mp hinteger
  obtain ⟨hfits, rfl⟩ := checked_eq_some_iff.mp hv
  refine ⟨?_, Int.natCast_nonneg n, hfits⟩
  -- Without a mark the first character is the first digit; a mark begins with a zero itself.
  rcases hradix with ⟨rfl, hten⟩ | hzero
  · rw [hten] at hn
    rcases hds : (radix (withoutSuffix cs)).2 with - | ⟨d, ds⟩
    · rw [hds] at hn
      cases hn
    · rw [hds, Numeral.natural?, Numeral.digits?] at hn
      · cases hd : Numeral.digit? 10 d with
        | none =>
          rw [hd] at hn
          cases hn
        | some e =>
          rw [Numeral.digit?_eq_some_iff] at hd
          refine ⟨d, ds ++ suffix, ?_, isDigit_iff.mpr (by omega)⟩
          rw [hds, List.nil_append] at hmark
          rw [← List.cons_append, ← hmark, ← hwithout]
      · exact nofun
  · obtain ⟨ds, rfl⟩ := List.head?_eq_some_iff.mp hzero
    refine ⟨'0', ds ++ (radix (withoutSuffix cs)).2 ++ suffix, ?_, by decide⟩
    rw [← List.cons_append, ← List.cons_append, ← hmark, ← hwithout]

end Literal

end Enumerant
