import Mathlib.Data.List.DropRight
import Mathlib.Order.Bounds.Basic
import Enumerant.Proofs.Naming.Repetition
import Enumerant.Proofs.Text.Letters
import Enumerant.Proofs.Text.Offset
import Enumerant.Proofs.Text.Part

/-!
# What is taken off the names of members

A member repeats its group as far as the words of both agree. What they have in common is cut back
to the last underscore, which leaves the longest front of the member that ends a word and begins a
spelling of the group (`isGreatest_length_commonWords`); of the two spellings the one that is
repeated further counts (`redundantLength_isGreatest`). From the camel-case form a prefix is taken
as often as it stands in front, and then a suffix once, unless it is all that is left
(`friendly_takes_affixes`).
-/

namespace Enumerant.Naming

open Text

variable {candidate front group member name tail : List Char}

/-! ### Words in common -/

theorem commonWords_isPrefix_right (candidate name : List Char) :
    commonWords candidate name <+: name := by
  unfold commonWords
  dsimp only
  split
  · exact commonPrefix_isPrefix_right candidate name
  · exact (List.rdropWhile_prefix _ _).trans (commonPrefix_isPrefix_right candidate name)

theorem getLast?_commonWords (hcandidate : candidate.getLast? = some '_') :
    ∀ c ∈ (commonWords candidate name).getLast?, c = '_' := by
  unfold commonWords
  dsimp only
  split
  case isTrue hfull =>
    rw [(commonPrefix_isPrefix candidate name).eq_of_length hfull, hcandidate]
    simp
  case isFalse =>
    intro c hc
    simpa using getLast?_rdropWhile c hc

/-- A front of both texts that ends in an underscore is not cut back. -/
theorem isPrefix_commonWords {cs : List Char} (hcs : cs.getLast? = some '_')
    (hcandidate : cs <+: candidate) (hname : cs <+: name) : cs <+: commonWords candidate name := by
  have hcommon := isPrefix_commonPrefix hcandidate hname
  unfold commonWords
  dsimp only
  split
  · exact hcommon
  · exact isPrefix_rdropWhile hcommon (by simp [hcs])

/-- The first characters of a name, as many as given, end a word and stand in front of a
spelling. -/
def RepeatsWords (spelling name : List Char) (n : Nat) : Prop :=
  (name.take n).getLast? = some '_' ∧ name.take n <+: spelling

theorem isGreatest_length_commonWords (hcandidate : candidate.getLast? = some '_')
    (name : List Char) :
    IsGreatest {n | n ≤ name.length ∧ (n = 0 ∨ RepeatsWords candidate name n)}
      (commonWords candidate name).length := by
  have hname := commonWords_isPrefix_right candidate name
  refine ⟨⟨hname.length_le, ?_⟩, ?_⟩
  · rw [RepeatsWords, ← List.prefix_iff_eq_take.mp hname, List.length_eq_zero_iff]
    refine or_iff_not_imp_left.mpr fun hne => ⟨?_, commonWords_isPrefix candidate name⟩
    rw [List.getLast?_eq_some_getLast hne, Option.some_inj]
    exact getLast?_commonWords hcandidate _ (List.getLast?_eq_some_getLast hne)
  · rintro n ⟨hn, rfl | ⟨hlast, hprefix⟩⟩
    · exact Nat.zero_le _
    · have hle := (isPrefix_commonWords hlast hprefix (List.take_prefix n name)).length_le
      rwa [List.length_take_of_le hn] at hle

/-! ### The repeated part of a member -/

/-- The two spellings of a group in front of its members: the name in upper snake case, and the same
with a break before each number, both with the underscore that ends a word. -/
def spellings (group : List Char) : List (List Char) :=
  [upperSnake (valuePrefix group) ++ ['_'],
    breakBetween Char.isUpper Char.isDigit (upperSnake (valuePrefix group)) ++ ['_']]

/-- A member of the first 128 characters has one byte for each of them in upper case. -/
theorem byteLength_commonWords_upper (hmember : ∀ c ∈ member, c.toNat < 128)
    (candidate : List Char) :
    byteLength (commonWords candidate (upper member)) =
      (commonWords candidate (upper member)).length := by
  refine byteLength_eq_length fun c hc => ?_
  have hupper := (commonWords_isPrefix_right candidate (upper member)).mem hc
  rw [upper_eq_map hmember] at hupper
  obtain ⟨d, hd, rfl⟩ := List.mem_map.mp hupper
  exact toNat_toUpper_lt (hmember d hd)

/-- **The longest repetition counts.** What a member repeats of its group is the greatest number of
characters in front of it that are none or end a word and begin one of the spellings of the group,
case left aside. -/
theorem redundantLength_isGreatest (hmember : ∀ c ∈ member, c.toNat < 128) (group : List Char) :
    IsGreatest {n | n ≤ member.length ∧
        (n = 0 ∨ ∃ spelling ∈ spellings group, RepeatsWords spelling (upper member) n)}
      (redundantLength group member) := by
  have hlength : (upper member).length = member.length := by
    rw [upper_eq_map hmember, List.length_map]
  have hspelling : ∀ name,
      IsGreatest {n | n ≤ member.length ∧ (n = 0 ∨ RepeatsWords (name ++ ['_']) (upper member) n)}
        (byteLength (commonWords (name ++ ['_']) (upper member))) := by
    intro name
    rw [← hlength, byteLength_commonWords_upper hmember]
    exact isGreatest_length_commonWords List.getLast?_concat (upper member)
  have hgreatest := (hspelling (upperSnake (valuePrefix group))).union
    (hspelling (breakBetween Char.isUpper Char.isDigit (upperSnake (valuePrefix group))))
  refine ⟨?_, fun n hn => hgreatest.2 ?_⟩
  · rcases hgreatest.1 with ⟨hle, h⟩ | ⟨hle, h⟩
    · exact ⟨hle, h.imp_right fun h => ⟨_, List.mem_cons_self, h⟩⟩
    · exact ⟨hle, h.imp_right fun h => ⟨_, List.mem_cons_of_mem _ List.mem_cons_self, h⟩⟩
  · obtain ⟨hle, rfl | ⟨spelling, hmem, h⟩⟩ := hn
    · exact .inl ⟨hle, .inl rfl⟩
    · rcases List.mem_pair.mp hmem with rfl | rfl
      · exact .inl ⟨hle, .inr h⟩
      · exact .inr ⟨hle, .inr h⟩

/-- A member of the second generation, in small letters: no front beyond the number is repeated. -/
theorem redundantLength_isGreatest_secondAccess :
    (∀ c ∈ "vk_access_2_shader_".toList, c.toNat < 128) ∧
      redundantLength "VkAccessFlagBits2".toList "vk_access_2_shader_".toList = 12 ∧
      ¬ ∃ spelling ∈ spellings "VkAccessFlagBits2".toList,
        RepeatsWords spelling (upper "vk_access_2_shader_".toList) 19 := by
  have hascii : ∀ c ∈ "vk_access_2_shader_".toList, c.toNat < 128 := by simp
  have hlength : redundantLength "VkAccessFlagBits2".toList "vk_access_2_shader_".toList = 12 := by
    decide +kernel
  refine ⟨hascii, hlength, fun h => ?_⟩
  have hle := (redundantLength_isGreatest hascii "VkAccessFlagBits2".toList).2
    ⟨by decide +kernel, .inr h⟩
  omega

/-! ### Affixes -/

/-- **Affixes are taken off exactly.** In front of the camel-case form stand some repetitions of the
prefix, and what follows them does not begin with it. Off the end of this the suffix is taken once
if something is left in front of it, and otherwise nothing is. The name that results does not begin
with the prefix either. -/
theorem friendly_takes_affixes (hfront : front ≠ []) (name tail : List Char) :
    ∃ k rest, camel name = (List.replicate k front).flatten ++ rest ∧ ¬ front <+: rest ∧
      (∀ kept, kept ≠ [] → tail ≠ [] → rest = kept ++ tail → friendly name front tail = kept) ∧
      ((∀ kept, kept ≠ [] → tail ≠ [] → rest ≠ kept ++ tail) →
        friendly name front tail = rest) ∧
      ¬ front <+: friendly name front tail := by
  have hrest := not_isPrefix_withoutRepeated hfront (camel name)
  obtain ⟨k, hk⟩ := exists_append_withoutRepeated front (camel name)
  refine ⟨k, withoutRepeated front (camel name), hk, hrest, ?_, ?_, ?_⟩
  · intro kept hkept htail heq
    rw [friendly, heq, withoutSuffix_append htail hkept]
  · exact fun h => withoutSuffix_eq_self fun htail kept hkept => h kept hkept htail
  · exact fun h => hrest (h.trans (isPrefix_withoutSuffix tail _))

/-- A prefix that is the suffix too: it is taken off twice in front and once behind. -/
theorem friendly_takes_affixes_bits :
    "Bit".toList ≠ [] ∧ friendly "BIT_BIT_X_BIT_BIT".toList "Bit".toList "Bit".toList =
        "XBit".toList ∧
      ∃ k rest, "BitBitXBitBit".toList = (List.replicate k "Bit".toList).flatten ++ rest ∧
        ¬ "Bit".toList <+: rest ∧
        ¬ "Bit".toList <+: friendly "BIT_BIT_X_BIT_BIT".toList "Bit".toList "Bit".toList := by
  have hfront : "Bit".toList ≠ [] := by decide
  have hcamel : camel "BIT_BIT_X_BIT_BIT".toList = "BitBitXBitBit".toList := by decide +kernel
  obtain ⟨k, rest, hname, hrest, -, -, hfriendly⟩ :=
    friendly_takes_affixes hfront "BIT_BIT_X_BIT_BIT".toList "Bit".toList
  exact ⟨hfront, by decide +kernel, k, rest, hcamel.symm.trans hname, hrest, hfriendly⟩

end Enumerant.Naming
