import Enumerant.Header.Token

/-!
# Characters by their codes

Each kind of character is a range of codes. Put in these terms, how the kinds lie to one another is
a matter of comparing numbers.
-/

namespace Enumerant

variable {c d : Char}

namespace Text

theorem isDigit_iff : c.isDigit ↔ 48 ≤ c.toNat ∧ c.toNat ≤ 57 := by
  simp [Char.isDigit, UInt32.le_iff_toNat_le]

theorem isUpper_iff : c.isUpper ↔ 65 ≤ c.toNat ∧ c.toNat ≤ 90 := by
  unfold Char.isUpper
  simp [UInt32.le_iff_toNat_le]

theorem isLower_iff : c.isLower ↔ 97 ≤ c.toNat ∧ c.toNat ≤ 122 := by
  unfold Char.isLower
  simp [UInt32.le_iff_toNat_le]

theorem isAlpha_iff :
    c.isAlpha ↔ 65 ≤ c.toNat ∧ c.toNat ≤ 90 ∨ 97 ≤ c.toNat ∧ c.toNat ≤ 122 := by
  unfold Char.isAlpha
  simp [isUpper_iff, isLower_iff]

theorem isAlphanum_iff :
    c.isAlphanum ↔
      65 ≤ c.toNat ∧ c.toNat ≤ 90 ∨ 97 ≤ c.toNat ∧ c.toNat ≤ 122 ∨
        48 ≤ c.toNat ∧ c.toNat ≤ 57 := by
  simp [Char.isAlphanum, isAlpha_iff, isDigit_iff, or_assoc]

/-- White space of all scripts. -/
theorem isBlank_iff :
    isBlank c ↔
      9 ≤ c.toNat ∧ c.toNat ≤ 13 ∨ c.toNat = 0x20 ∨ c.toNat = 0x85 ∨ c.toNat = 0xa0 ∨
        c.toNat = 0x1680 ∨ 0x2000 ≤ c.toNat ∧ c.toNat ≤ 0x200a ∨ c.toNat = 0x2028 ∨
        c.toNat = 0x2029 ∨ c.toNat = 0x202f ∨ c.toNat = 0x205f ∨ c.toNat = 0x3000 := by
  simp [isBlank, or_assoc]

/-- Capitals and small letters are 32 places apart. -/
theorem toNat_toLower (c : Char) :
    c.toLower.toNat = if c.isUpper then c.toNat + 32 else c.toNat := by
  simp only [isUpper_iff]
  unfold Char.toLower
  split
  case isTrue h =>
    have hrange : 65 ≤ c.toNat ∧ c.toNat ≤ 90 := h
    rw [if_pos hrange]
    change (c.val + 32).toNat = _
    rw [UInt32.toNat_add, Char.toNat_val, show (32 : UInt32).toNat = 32 from rfl]
    omega
  case isFalse h => exact (if_neg h).symm

theorem toNat_toUpper (c : Char) :
    c.toUpper.toNat = if c.isLower then c.toNat - 32 else c.toNat := by
  simp only [isLower_iff]
  unfold Char.toUpper
  split
  case isTrue h =>
    have hrange : 97 ≤ c.toNat ∧ c.toNat ≤ 122 := h
    rw [if_pos hrange]
    change (c.val + 4294967264).toNat = _
    rw [UInt32.toNat_add, Char.toNat_val, show (4294967264 : UInt32).toNat = 4294967264 from rfl]
    omega
  case isFalse h => exact (if_neg h).symm

/-- Small letters stay. -/
theorem toLower_toLower (c : Char) : c.toLower.toLower = c.toLower := by
  rw [← Char.toNat_inj, toNat_toLower c.toLower, if_neg]
  rw [isUpper_iff, toNat_toLower]
  simp only [isUpper_iff]
  split <;> omega

/-- What a small letter stands for when case is ignored. -/
theorem toLower_eq_iff (h : d.isUpper = false) : c.toLower = d ↔ c = d ∨ c = d.toUpper := by
  rw [← Bool.not_eq_true, isUpper_iff] at h
  simp only [← Char.toNat_inj, toNat_toLower, toNat_toUpper, isUpper_iff, isLower_iff]
  split <;> split <;> omega

end Text

namespace Header

open Text

/-- White space in headers. -/
theorem isSpace_iff :
    isSpace c ↔ c.toNat = 9 ∨ c.toNat = 10 ∨ c.toNat = 12 ∨ c.toNat = 13 ∨ c.toNat = 32 := by
  simp [isSpace, ← Char.toNat_inj]
  omega

/-- White space in headers is white space. -/
theorem isBlank_of_isSpace (h : isSpace c) : isBlank c := by
  rw [isSpace_iff] at h
  rw [isBlank_iff]
  omega

/-- Letters and the underscore. -/
theorem isWordStart_iff :
    isWordStart c ↔
      65 ≤ c.toNat ∧ c.toNat ≤ 90 ∨ 97 ≤ c.toNat ∧ c.toNat ≤ 122 ∨ c.toNat = 95 := by
  simp [isWordStart, isAlpha_iff, ← Char.toNat_inj, or_assoc]

/-- Letters, digits and the underscore. -/
theorem isWordChar_iff :
    isWordChar c ↔
      65 ≤ c.toNat ∧ c.toNat ≤ 90 ∨ 97 ≤ c.toNat ∧ c.toNat ≤ 122 ∨
        48 ≤ c.toNat ∧ c.toNat ≤ 57 ∨ c.toNat = 95 := by
  simp [isWordChar, isAlphanum_iff, ← Char.toNat_inj, or_assoc]

theorem isWordChar_of_isAlphanum (h : c.isAlphanum) : isWordChar c := by
  simp [isWordChar, h]

theorem isWordChar_of_isWordStart (h : isWordStart c) : isWordChar c := by
  rw [isWordStart_iff] at h
  rw [isWordChar_iff]
  omega

/-- No word has a blank in it. -/
theorem not_isBlank_of_isWordChar (h : isWordChar c) : isBlank c = false := by
  rw [isWordChar_iff] at h
  rw [← Bool.not_eq_true, isBlank_iff]
  omega

theorem not_isBlank_of_isAlphanum (h : c.isAlphanum) : isBlank c = false :=
  not_isBlank_of_isWordChar (isWordChar_of_isAlphanum h)

theorem not_isWordChar_of_isSpace (h : isSpace c) : isWordChar c = false := by
  rw [Bool.eq_false_iff]
  intro hc
  exact absurd (isBlank_of_isSpace h) (by simp [not_isBlank_of_isWordChar hc])

end Header

end Enumerant
