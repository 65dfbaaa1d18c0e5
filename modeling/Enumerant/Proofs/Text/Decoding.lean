import Enumerant.Proofs.Text.Bytes
import Enumerant.Proofs.Text.Lines

/-!
# Decoding line by line

Bytes are divided into lines before they are decoded. For the bytes of a text this comes to the
lines of the text (`decodedLines_toUTF8`): the byte that ends a line is no part of another
character. The other way round, bytes are those of a text if all their lines are
(`exists_eq_toUTF8`).
-/

namespace Enumerant.Text

variable {α : Type} {closes : α → Bool} {as bs : List α} {c : Char} {bytes : ByteArray}
  {s text : String}

/-! ### Bytes of texts -/

/-- Bytes have a text exactly if they are those of the text. -/
theorem fromUTF8?_eq_some_iff : String.fromUTF8? bytes = some text ↔ bytes = text.toUTF8 := by
  constructor
  · intro h
    obtain ⟨hvalid, heq⟩ := Option.dite_none_right_eq_some.mp h
    obtain rfl : String.fromUTF8 bytes hvalid = text := by simpa using heq
    rfl
  · rintro rfl
    exact Option.dite_none_right_eq_some.mpr ⟨text.isValidUTF8, rfl⟩

theorem toList_loop (bytes : ByteArray) (i : Nat) (front : List UInt8) :
    ByteArray.toList.loop bytes i front = front.reverse ++ bytes.data.toList.drop i := by
  fun_induction ByteArray.toList.loop bytes i front with
  | case1 i front h ih =>
    have hi : i < bytes.data.toList.length := h
    have hget : bytes.get! i = bytes.data.toList[i] := by simp [ByteArray.get!, h]
    rw [ih, List.drop_eq_getElem_cons hi, hget]
    simp
  | case2 i front h =>
    have hi : bytes.data.toList.length ≤ i := Nat.le_of_not_lt h
    rw [List.drop_eq_nil_of_le hi, List.append_nil]

theorem toList_eq_toList_data (bytes : ByteArray) : bytes.toList = bytes.data.toList :=
  toList_loop bytes 0 []

theorem toList_toUTF8 (s : String) :
    s.toUTF8.toList = s.toList.flatMap String.utf8EncodeChar := by
  rw [toList_eq_toList_data, ← bytes_eq_flatMap, Text.bytes]

theorem toByteArray_toList (bytes : ByteArray) : bytes.toList.toByteArray = bytes := by
  rw [toList_eq_toList_data]
  exact ByteArray.ext (Array.toList_inj.mp List.toList_data_toByteArray)

theorem toByteArray_flatMap (cs : List Char) :
    (cs.flatMap String.utf8EncodeChar).toByteArray = (String.ofList cs).toUTF8 := by
  rw [← toByteArray_toList (String.ofList cs).toUTF8, toList_toUTF8, String.toList_ofList]

/-! ### Lines of bytes -/

/-- Elements that do not close go to the first piece of what follows. -/
theorem pieces_append_of_forall (hne : bs ≠ []) (h : ∀ b ∈ bs, closes b = false) :
    pieces closes (bs ++ as) = match pieces closes as with
      | [] => [bs]
      | p :: ps => (bs ++ p) :: ps := by
  induction bs with
  | nil => exact absurd rfl hne
  | cons b bs ih =>
    obtain ⟨hb, hbs⟩ := List.forall_mem_cons.mp h
    rw [List.cons_append, pieces, if_neg (by simp [hb])]
    rcases bs with - | ⟨b', bs⟩
    · rw [List.nil_append]
      cases pieces closes as <;> rfl
    · rw [ih (List.cons_ne_nil _ _) hbs]
      cases pieces closes as <;> rfl

/-- The byte that ends a line is part of no other character. -/
theorem newline_not_mem_utf8EncodeChar (h : c ≠ '\n') :
    ∀ b ∈ String.utf8EncodeChar c, (b == 10) = false := by
  have hcode : c.val.toNat ≠ 10 := fun hc => h (Char.ext (UInt32.toNat_inj.mp hc))
  simp only [String.utf8EncodeChar]
  generalize c.val.toNat = n at hcode
  intro b hb
  have hten : (10 : UInt8).toNat = 10 := rfl
  rw [beq_eq_false_iff_ne, ne_eq, ← UInt8.toNat_inj, hten]
  split_ifs at hb <;>
    simp only [List.mem_cons, List.not_mem_nil, or_false] at hb <;>
    rcases hb with rfl | rfl | rfl | rfl <;>
    simp only [UInt8.toNat_ofNat'] <;>
    omega

/-- A text has as many line breaks as its bytes have bytes that end a line. -/
theorem count_flatMap_utf8EncodeChar (cs : List Char) :
    (cs.flatMap String.utf8EncodeChar).count 10 = cs.count '\n' := by
  induction cs with
  | nil => rfl
  | cons c cs ih =>
    rw [List.flatMap_cons, List.count_append, ih, List.count_cons]
    by_cases hc : c = '\n'
    · subst hc
      have hone : (String.utf8EncodeChar '\n').count 10 = 1 := by decide
      simp only [hone, BEq.rfl, if_true]
      omega
    · have hzero : (String.utf8EncodeChar c).count 10 = 0 :=
        List.count_eq_zero.mpr fun h => by simpa using newline_not_mem_utf8EncodeChar hc 10 h
      simp [hzero, hc]

theorem contains_flatMap_utf8EncodeChar (cs : List Char) :
    (cs.flatMap String.utf8EncodeChar).contains 10 = cs.contains '\n' := by
  rw [Bool.eq_iff_iff, List.contains_iff_mem, List.contains_iff_mem, ← List.count_pos_iff,
    count_flatMap_utf8EncodeChar, List.count_pos_iff]

theorem pieces_flatMap_utf8EncodeChar (cs : List Char) :
    pieces (· == 10) (cs.flatMap String.utf8EncodeChar) =
      (pieces (· == '\n') cs).map (·.flatMap String.utf8EncodeChar) := by
  induction cs with
  | nil => rfl
  | cons c cs ih =>
    rw [List.flatMap_cons, pieces]
    split
    case isTrue hc =>
      obtain rfl : c = '\n' := by simpa using hc
      rw [List.map_cons, ← ih]
      rfl
    case isFalse hc =>
      rw [pieces_append_of_forall String.utf8EncodeChar_ne_nil
        (newline_not_mem_utf8EncodeChar (by simpa using hc)), ih]
      cases pieces (· == '\n') cs <;> simp

/-- **The lines of a text can be decoded one by one.** -/
theorem decodedLines_toUTF8 (text : String) : decodedLines text.toUTF8 = (lines text).map some := by
  rw [decodedLines, toList_toUTF8, pieces_flatMap_utf8EncodeChar, lines, List.map_map, List.map_map]
  refine List.map_congr_left fun cs _ => fromUTF8?_eq_some_iff.mpr ?_
  exact toByteArray_flatMap cs

/-- Bytes are those of a text if each of their lines can be decoded. -/
theorem exists_eq_toUTF8 (h : (decodedLines bytes).all Option.isSome) :
    ∃ text : String, bytes = text.toUTF8 := by
  have hpieces : ∀ ps : List (List UInt8),
      (∀ p ∈ ps, ∃ line, String.fromUTF8? p.toByteArray = some line) →
        ∃ cs : List Char, ps.flatten = cs.flatMap String.utf8EncodeChar := by
    intro ps hps
    induction ps with
    | nil => exact ⟨[], rfl⟩
    | cons p ps ih =>
      obtain ⟨⟨line, hline⟩, hps⟩ := List.forall_mem_cons.mp hps
      obtain ⟨cs, hcs⟩ := ih hps
      have hp : p = line.toList.flatMap String.utf8EncodeChar := by
        rw [← toList_toUTF8, ← fromUTF8?_eq_some_iff.mp hline, toList_eq_toList_data,
          List.toList_data_toByteArray]
      exact ⟨line.toList ++ cs, by rw [List.flatten_cons, hcs, List.flatMap_append, ← hp]⟩
  obtain ⟨cs, hcs⟩ := hpieces (pieces (· == 10) bytes.toList) fun p hp =>
    Option.isSome_iff_exists.mp (List.all_eq_true.mp h _ (List.mem_map_of_mem hp))
  refine ⟨String.ofList cs, ?_⟩
  rw [← toByteArray_flatMap, ← hcs, flatten_pieces, toByteArray_toList]

end Enumerant.Text
