import Mathlib.Data.Char
import Enumerant.Proofs.Text.Code
import Enumerant.Text.Alphabetic
import Enumerant.Text.CaseMap
import Enumerant.Text.Lowercase

/-!
# Letters in both cases

The letters `A`–`Z` and `a`–`z` under the mappings of case. What holds of the first 128 characters
is checked one by one (`forall_of_ascii`); in upper case they stay one character each
(`upper_eq_map`).
-/

namespace Enumerant.Text

variable {c : Char} {cs : List Char}

/-- What holds of the first 128 characters, checked one by one. -/
theorem forall_of_ascii {P : Char → Prop} (h : ∀ n < 128, P (Char.ofNat n)) (hc : c.toNat < 128) :
    P c := by
  have hchar := h c.toNat hc
  rwa [Char.ofNat_toNat] at hchar

/-- Capitals are among the first 128 characters. -/
theorem lt_of_isUpper (hc : c.isUpper) : c.toNat < 128 := by
  rw [isUpper_iff] at hc
  omega

theorem lt_of_isLower (hc : c.isLower) : c.toNat < 128 := by
  rw [isLower_iff] at hc
  omega

theorem lt_of_isDigit (hc : c.isDigit) : c.toNat < 128 := by
  rw [isDigit_iff] at hc
  omega

/-! ### Kinds that exclude one another -/

/-- A capital is no small letter. -/
theorem isLower_eq_false_of_isUpper (hc : c.isUpper) : c.isLower = false := by
  rw [isUpper_iff] at hc
  rw [← Bool.not_eq_true, isLower_iff]
  omega

theorem isUpper_eq_false_of_isLower (hc : c.isLower) : c.isUpper = false := by
  rw [isLower_iff] at hc
  rw [← Bool.not_eq_true, isUpper_iff]
  omega

theorem isUpper_eq_false_of_isDigit (hc : c.isDigit) : c.isUpper = false := by
  rw [isDigit_iff] at hc
  rw [← Bool.not_eq_true, isUpper_iff]
  omega

theorem isLower_eq_false_of_isDigit (hc : c.isDigit) : c.isLower = false := by
  rw [isDigit_iff] at hc
  rw [← Bool.not_eq_true, isLower_iff]
  omega

/-- A capital is no digit. -/
theorem isDigit_eq_false_of_isUpper (hc : c.isUpper) : c.isDigit = false := by
  rw [isUpper_iff] at hc
  rw [← Bool.not_eq_true, isDigit_iff]
  omega

theorem isDigit_eq_false_of_isLower (hc : c.isLower) : c.isDigit = false := by
  rw [isLower_iff] at hc
  rw [← Bool.not_eq_true, isDigit_iff]
  omega

/-- Capitals are letters of the alphabet. -/
theorem isAlphabetic_of_isUpper (hc : c.isUpper) : isAlphabetic c := by
  rw [isAlphabetic, if_pos (lt_of_isUpper hc)]
  unfold Char.isAlpha
  rw [hc, Bool.true_or]

theorem isLowercase_eq_false_of_isUpper (hc : c.isUpper) : isLowercase c = false := by
  rw [isLowercase, if_pos (lt_of_isUpper hc), isLower_eq_false_of_isUpper hc]

/-! ### Change of case -/

/-- A small letter has a capital. -/
theorem isUpper_toUpper (hc : c.isLower) : c.toUpper.isUpper :=
  forall_of_ascii (P := fun c => c.isLower → c.toUpper.isUpper) (by decide +kernel)
    (lt_of_isLower hc) hc

/-- The capital of a small letter has it as its small letter. -/
theorem toLower_toUpper (hc : c.isLower) : c.toUpper.toLower = c :=
  forall_of_ascii (P := fun c => c.isLower → c.toUpper.toLower = c) (by decide +kernel)
    (lt_of_isLower hc) hc

/-- Only small letters change, of the first 128 characters. -/
theorem upperChar_eq_self (hascii : c.toNat < 128) (hc : c.isLower = false) :
    upperChar c = [c] := by
  have hupper : c.isLower = false → c.toUpper = c :=
    forall_of_ascii (P := fun c => c.isLower = false → c.toUpper = c) (by decide +kernel) hascii
  rw [upperChar, if_pos hascii, hupper hc]

/-- A capital stays. -/
theorem upperChar_of_isUpper (hc : c.isUpper) : upperChar c = [c] :=
  upperChar_eq_self (lt_of_isUpper hc) (isLower_eq_false_of_isUpper hc)

theorem upperChar_of_isDigit (hc : c.isDigit) : upperChar c = [c] :=
  upperChar_eq_self (lt_of_isDigit hc) (isLower_eq_false_of_isDigit hc)

theorem upperChar_underscore : upperChar '_' = ['_'] :=
  upperChar_eq_self (by decide) rfl

theorem upper_cons (c : Char) (cs : List Char) : upper (c :: cs) = upperChar c ++ upper cs :=
  List.flatMap_cons

/-- Two texts are capitalised each on its own. -/
theorem upper_append (cs ds : List Char) : upper (cs ++ ds) = upper cs ++ upper ds :=
  List.flatMap_append

/-- A text whose characters all stay does so. -/
theorem upper_eq_self (hcs : ∀ c ∈ cs, upperChar c = [c]) : upper cs = cs := by
  induction cs with
  | nil => rfl
  | cons c cs ih =>
    obtain ⟨hc, hcs⟩ := List.forall_mem_cons.mp hcs
    rw [upper_cons, hc, ih hcs, List.singleton_append]

/-- The first 128 characters have one character each in upper case. -/
theorem upper_eq_map (hcs : ∀ c ∈ cs, c.toNat < 128) : upper cs = cs.map Char.toUpper := by
  induction cs with
  | nil => rfl
  | cons c cs ih =>
    obtain ⟨hc, hcs⟩ := List.forall_mem_cons.mp hcs
    rw [upper_cons, upperChar, if_pos hc, ih hcs, List.singleton_append, List.map_cons]

/-- Small letters become their capitals one by one. -/
theorem upper_of_isLower (hcs : ∀ c ∈ cs, c.isLower) : upper cs = cs.map Char.toUpper :=
  upper_eq_map fun c hc => lt_of_isLower (hcs c hc)

theorem toNat_toUpper_lt (hc : c.toNat < 128) : c.toUpper.toNat < 128 := by
  rw [toNat_toUpper]
  split <;> omega

end Enumerant.Text
