import Enumerant.Text.Offset
import Mathlib.Data.Char
import Mathlib.Data.List.Basic

/-!
# Cutting at byte offsets

A text can be cut behind each of its fronts, at the length of the front (`splitAt?_byteLength`), and
at each offset in one place only (`append_inj_of_byteLength`). Of the first 128 characters each
takes one byte (`byteLength_eq_length`), which is its number (`utf8EncodeChar_of_lt`); the bytes of
all others are beyond these (`le_of_mem_utf8EncodeChar`). Bytes are read as a text exactly if they
are its UTF-8 form (`decode?_eq_some_iff`).
-/

namespace Enumerant.Text

variable {c : Char} {as bs cs ds : List Char}

theorem byteLength_append (as bs : List Char) :
    byteLength (as ++ bs) = byteLength as + byteLength bs := by
  induction as with
  | nil => simp [byteLength]
  | cons c as ih => simp [byteLength, ih, Nat.add_assoc]

/-- Each of the first 128 characters takes one byte. -/
theorem byteLength_eq_length (hcs : ∀ c ∈ cs, c.toNat < 128) : byteLength cs = cs.length := by
  induction cs with
  | nil => rfl
  | cons c cs ih =>
    obtain ⟨hc, hcs⟩ := List.forall_mem_cons.mp hcs
    have hval : c.val ≤ 0x7f := UInt32.le_iff_toNat_le.mpr (Nat.le_of_lt_succ hc)
    have hsize : c.utf8Size = 1 := if_pos hval
    rw [byteLength, hsize, ih hcs, List.length_cons, Nat.add_comm]

theorem length_flatMap_utf8EncodeChar (cs : List Char) :
    (cs.flatMap String.utf8EncodeChar).length = byteLength cs := by
  induction cs with
  | nil => rfl
  | cons c cs ih =>
    rw [List.flatMap_cons, List.length_append, ih, String.length_utf8EncodeChar]
    rfl

theorem byteLength_le_of_isPrefix (h : as <+: bs) : byteLength as ≤ byteLength bs := by
  obtain ⟨rest, rfl⟩ := h
  rw [byteLength_append]
  exact Nat.le_add_right _ _

theorem splitAt?_byteLength (cs rest : List Char) :
    splitAt? (byteLength cs) (cs ++ rest) = some (cs, rest) := by
  induction cs with
  | nil => simp [byteLength, splitAt?]
  | cons c cs ih =>
    obtain ⟨n, hn⟩ := Nat.exists_eq_succ_of_ne_zero (Nat.ne_of_gt c.utf8Size_pos)
    rw [byteLength, hn, Nat.succ_add, List.cons_append, splitAt?, if_pos (by omega), hn,
      show n + byteLength cs + 1 - n.succ = byteLength cs by omega, ih]
    rfl

/-- A text is cut in one place only at a byte offset. -/
theorem append_inj_of_byteLength (h : as ++ bs = cs ++ ds)
    (hlength : byteLength as = byteLength cs) : as = cs ∧ bs = ds := by
  have hcut := splitAt?_byteLength as bs
  rw [h, hlength, splitAt?_byteLength, Option.some_inj, Prod.mk.injEq] at hcut
  exact ⟨hcut.1.symm, hcut.2.symm⟩

/-! ### Bytes of characters -/

/-- A character among the first 128 is one byte, with the same number. -/
theorem utf8EncodeChar_of_lt (h : c.toNat < 128) : String.utf8EncodeChar c = [c.toUInt8] := by
  have hval : c.val.toNat ≤ 127 := Nat.le_of_lt_succ h
  simp only [String.utf8EncodeChar, hval, if_true]
  rfl

theorem ofUInt8_toUInt8 (h : c.toNat < 128) : Char.ofUInt8 c.toUInt8 = c := by
  refine Char.ext (UInt32.toNat_inj.mp ?_)
  have hval : c.val.toNat < 256 := Nat.lt_trans h (by decide)
  change c.val.toUInt8.toUInt32.toNat = c.val.toNat
  rw [UInt8.toNat_toUInt32, UInt32.toNat_toUInt8, Nat.mod_eq_of_lt hval]

/-- The bytes of a character beyond the first 128 are beyond them, too. -/
theorem le_of_mem_utf8EncodeChar (h : 128 ≤ c.toNat) {b : UInt8}
    (hb : b ∈ String.utf8EncodeChar c) : 128 ≤ b.toNat := by
  have hval : 128 ≤ c.val.toNat := h
  simp only [String.utf8EncodeChar] at hb
  split_ifs at hb
  · omega
  all_goals
    simp only [List.mem_cons, List.not_mem_nil, or_false] at hb
    rcases hb with rfl | rfl | rfl | rfl <;> simp only [UInt8.toNat_ofNat'] <;> omega

/-- Bytes are read as a text exactly if they are its UTF-8 form. -/
theorem decode?_eq_some_iff {bytes : List UInt8} :
    decode? bytes = some cs ↔ bytes = cs.flatMap String.utf8EncodeChar := by
  rw [decode?, Option.map_eq_some_iff]
  constructor
  · rintro ⟨as, has, rfl⟩
    have hform := ByteArray.utf8Encode_get_utf8Decode? (b := bytes.toByteArray)
      (h := Option.isSome_iff_exists.mpr ⟨as, has⟩)
    simp only [has, Option.get_some, List.utf8Encode] at hform
    exact (List.toByteArray_inj.mp hform).symm
  · rintro rfl
    exact ⟨cs.toArray, List.utf8Decode?_utf8Encode, rfl⟩

/-- Texts with the same bytes are the same. -/
theorem flatMap_utf8EncodeChar_inj :
    as.flatMap String.utf8EncodeChar = bs.flatMap String.utf8EncodeChar ↔ as = bs := by
  refine ⟨fun h => ?_, fun h => h ▸ rfl⟩
  exact Option.some_inj.mp ((decode?_eq_some_iff.mpr rfl).symm.trans (decode?_eq_some_iff.mpr h))

end Enumerant.Text
