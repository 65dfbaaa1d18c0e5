import Enumerant.Proofs.Naming.Characters
import Enumerant.Proofs.Resolution.SortKey

/-!
# Keys of aliases and their depths

The key of an alias is the depth in four digits or more, and then the name. A name begins with no
digit, so of two depths that take differently many digits the smaller one is compared with as many
digits of the greater one (`aliasKey_lt_iff_of_lt`, `aliasKey_lt_iff_of_gt`). Where these make a
number that is no greater, the greater depth precedes. This is all that can go wrong: the keys are
in the order of depths and then of names exactly where it does not happen (`aliasKey_keeps_order`).
-/

namespace Enumerant.Resolution

open Header

variable {d d' : Nat} {name name' : String}

/-- A digit precedes all that a name begins with. -/
theorem digits_append_lt {ds cs cs' : List Char} (hne : ds ≠ []) (hds : ∀ c ∈ ds, c.isDigit)
    (hcs : IsWord cs) : ds ++ cs' < cs := by
  obtain ⟨d, ds, rfl⟩ := List.exists_cons_of_ne_nil hne
  obtain ⟨c, cs, rfl, hc, -⟩ := hcs.exists_cons
  have hd := hds d List.mem_cons_self
  rw [Text.isDigit_iff] at hd
  rw [isWordStart_iff] at hc
  refine List.cons_lt_cons_iff.mpr (.inl ?_)
  rw [Char.lt_def, UInt32.lt_iff_toNat_lt, Char.toNat_val, Char.toNat_val]
  omega

theorem depthWidth_mono (h : d ≤ d') : depthWidth d ≤ depthWidth d' :=
  (depthWidth_le_iff (depthWidth_pos d')).mpr (Nat.lt_of_le_of_lt h (lt_pow_depthWidth d'))

/-! ### Two depths -/

/-- A smaller depth precedes if it is less than what the first digits of the greater one make. -/
theorem aliasKey_lt_iff_of_lt (hname : IsWord name.toList) (h : d < d') :
    aliasKey d name < aliasKey d' name' ↔ d < leading (depthWidth d) d' := by
  have hpos := depthWidth_pos d
  have hle := depthWidth_mono h.le
  obtain ⟨ds, ds', ⟨hlen, -⟩, ⟨hlen', hdigit'⟩, hlt⟩ :=
    exists_aliasKey_lt_iff (by omega) le_rfl hle name name'
  obtain rfl : ds = [] := List.length_eq_zero_iff.mp (by omega)
  rw [hlt, leading_depthWidth, List.nil_append]
  refine or_iff_left fun hc => ?_
  rcases hle.eq_or_lt with heq | hwidth
  · rw [heq, leading_depthWidth] at hc
    omega
  · have hne' : ds' ≠ [] := List.ne_nil_of_length_pos (by omega)
    exact List.lt_asymm hc.2 (digits_append_lt hne' hdigit' hname)

/-- A greater depth precedes if its first digits make no number beyond the smaller one. -/
theorem aliasKey_lt_iff_of_gt (hname' : IsWord name'.toList) (h : d' < d) :
    aliasKey d name < aliasKey d' name' ↔ leading (depthWidth d') d ≤ d' := by
  have hpos := depthWidth_pos d'
  have hle := depthWidth_mono h.le
  obtain ⟨ds, ds', ⟨hlen, hdigit⟩, ⟨hlen', -⟩, hlt⟩ :=
    exists_aliasKey_lt_iff (by omega) hle le_rfl name name'
  obtain rfl : ds' = [] := List.length_eq_zero_iff.mp (by omega)
  rw [hlt, leading_depthWidth, Nat.le_iff_lt_or_eq]
  refine or_congr_right (and_iff_left_of_imp fun heq => ?_)
  rcases hle.eq_or_lt with hwidth | hwidth
  · rw [hwidth, leading_depthWidth] at heq
    omega
  · have hne : ds ≠ [] := List.ne_nil_of_length_pos (by omega)
    exact digits_append_lt hne hdigit hname'

/-! ### The order of depths -/

/-- **Keys of aliases are in the order of depths and then of names**, byte by byte, exactly if the
smaller of two depths is less than the number that the first digits of the greater one make, as many
of them as the smaller one takes. Of two successive depths the smaller one precedes exactly if the
greater one is no power of ten with more than four digits. -/
theorem aliasKey_keeps_order (hname : IsWord name.toList) (hname' : IsWord name'.toList) :
    ((Text.bytes (aliasKey d name) < Text.bytes (aliasKey d' name') ↔
        d < d' ∨ d = d' ∧ Text.bytes name < Text.bytes name') ↔
      (d < d' → d < leading (depthWidth d) d') ∧ (d' < d → d' < leading (depthWidth d') d)) ∧
    (Text.bytes (aliasKey d name) < Text.bytes (aliasKey (d + 1) name') ↔
      ∀ k, 4 ≤ k → d + 1 ≠ 10 ^ k) := by
  rw [Text.bytes_lt_bytes_iff, Text.bytes_lt_bytes_iff, Text.bytes_lt_bytes_iff]
  refine ⟨?_, aliasKey_succ_lt_iff⟩
  rcases Nat.lt_trichotomy d d' with hlt | rfl | hgt
  · have horder : d < d' ∨ d = d' ∧ name < name' := .inl hlt
    rw [aliasKey_lt_iff_of_lt hname hlt, iff_true_intro horder, iff_true]
    exact ⟨fun h => ⟨fun _ => h, fun hc => absurd hc hlt.not_gt⟩, fun h => h.1 hlt⟩
  · exact iff_of_true (aliasKey_lt_aliasKey_iff rfl)
      ⟨fun hc => absurd hc (Nat.lt_irrefl d), fun hc => absurd hc (Nat.lt_irrefl d)⟩
  · have horder : ¬ (d < d' ∨ d = d' ∧ name < name') := by omega
    rw [aliasKey_lt_iff_of_gt hname' hgt, iff_false_intro horder, iff_false, Nat.not_le]
    exact ⟨fun h => ⟨fun hc => absurd hc hgt.not_gt, fun _ => h⟩, fun h => h.2 hgt⟩

/-- Depths of four and of five digits that are compared as they should, names in reverse. -/
theorem aliasKey_keeps_order_twelveThousand :
    IsWord "B".toList ∧ IsWord "A".toList ∧
      (Text.bytes (aliasKey 1233 "B") < Text.bytes (aliasKey 12345 "A") ↔
        1233 < 12345 ∨ 1233 = 12345 ∧ Text.bytes "B" < Text.bytes "A") := by
  have hB : IsWord "B".toList := by decide
  have hA : IsWord "A".toList := by decide
  have hwidth : depthWidth 1233 = 4 := by decide +kernel
  have hwidth' : depthWidth 12345 = 5 := by decide +kernel
  refine ⟨hB, hA, (aliasKey_keeps_order hB hA).1.mpr ⟨fun _ => ?_, fun h => ?_⟩⟩
  · rw [leading, hwidth, hwidth']
    decide
  · omega

/-- The first depth that takes five digits precedes the last one of four. -/
theorem not_aliasKey_keeps_order_tenThousand :
    IsWord "A".toList ∧ IsWord "B".toList ∧
      ¬ (Text.bytes (aliasKey 9999 "A") < Text.bytes (aliasKey 10000 "B") ↔
        9999 < 10000 ∨ 9999 = 10000 ∧ Text.bytes "A" < Text.bytes "B") := by
  refine ⟨by decide, by decide, fun h => ?_⟩
  have hlt := Text.bytes_lt_bytes_iff.mp (h.mpr (.inl (by decide)))
  exact String.lt_asymm hlt (aliasKey_pow_lt (k := 4) le_rfl rfl)

end Enumerant.Resolution
