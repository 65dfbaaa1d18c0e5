import Mathlib.Data.Nat.Digits.Defs
import Mathlib.Tactic.Ring
import Enumerant.Proofs.Integer.Numeral
import Enumerant.Proofs.Text.Part
import Enumerant.Registry.Entry

/-!
# What integer literals denote

A literal is made of four parts: the mark of its radix, digits, and letters of a suffix. Read from
the end, the parts cannot be taken for one another: no digit of a radix up to sixteen is a letter of
a suffix, and no mark but the lone zero of octal numbers is one of digits. So a literal denotes the
number that its digits have by their places (`parse?_append_eq_some_iff`), and every number that
fits is read back from each of the forms in which numbers are printed
(`parse?_denotes_and_reads_back`).
-/

namespace Enumerant

open Text

namespace Numeral

variable {radix width n before : Nat} {c : Char} {cs : List Char} {ds : List Nat}

/-! ### Digits -/

/-- A text shows digits of a radix, its letters in either case. -/
structure Shows (radix : Nat) (cs : List Char) (ds : List Nat) : Prop where
  lt : ∀ d ∈ ds, d < radix
  toLower : cs.map Char.toLower = ds.map Nat.digitChar

theorem toNat_digitChar {d : Nat} (hd : d < 16) :
    d.digitChar.toNat = if d ≤ 9 then 48 + d else 87 + d := by
  have hall : ∀ d < 16, d.digitChar.toNat = if d ≤ 9 then 48 + d else 87 + d := by decide
  exact hall d hd

theorem digit?_eq_some_iff_toLower {d : Nat} (hradix : radix ≤ 16) :
    digit? radix c = some d ↔ d < radix ∧ c.toLower = d.digitChar := by
  rw [digit?_eq_some_iff]
  refine and_congr_right fun hd => ?_
  rw [← Char.toNat_inj, toNat_toLower, toNat_digitChar (by omega)]
  simp only [isUpper_iff]
  split_ifs <;> omega

theorem shows_nil_iff : Shows radix [] ds ↔ ds = [] := by
  constructor
  · rintro ⟨-, h⟩
    exact List.map_eq_nil_iff.mp h.symm
  · rintro rfl
    exact ⟨List.forall_mem_nil _, rfl⟩

theorem shows_cons_iff : Shows radix (c :: cs) ds ↔
    ∃ d ds', ds = d :: ds' ∧ (d < radix ∧ c.toLower = d.digitChar) ∧ Shows radix cs ds' := by
  constructor
  · rintro ⟨hlt, hlower⟩
    obtain ⟨d, ds', rfl, hd, hds⟩ := List.map_eq_cons_iff.mp hlower.symm
    obtain ⟨hdlt, hlt⟩ := List.forall_mem_cons.mp hlt
    exact ⟨d, ds', rfl, ⟨hdlt, hd.symm⟩, hlt, hds.symm⟩
  · rintro ⟨d, ds', rfl, ⟨hdlt, hd⟩, hlt, hds⟩
    exact ⟨List.forall_mem_cons.mpr ⟨hdlt, hlt⟩, by rw [List.map_cons, List.map_cons, hd, hds]⟩

/-- The first digit counts with all places behind it, and the others as if they stood alone. -/
theorem ofDigits_reverse_cons (radix before d : Nat) (ds : List Nat) :
    before * radix ^ (d :: ds).length + Nat.ofDigits radix (d :: ds).reverse =
      (before * radix + d) * radix ^ ds.length + Nat.ofDigits radix ds.reverse := by
  rw [List.reverse_cons, Nat.ofDigits_append, Nat.ofDigits_singleton, List.length_reverse,
    List.length_cons]
  ring

/-- Digits that follow others put these as many places further. -/
theorem digits?_eq_some_iff (hradix : radix ≤ 16) :
    digits? radix before cs = some n ↔
      ∃ ds, Shows radix cs ds ∧ before * radix ^ ds.length + Nat.ofDigits radix ds.reverse = n := by
  induction cs generalizing before with
  | nil => simp [digits?, shows_nil_iff]
  | cons c cs ih =>
    simp only [shows_cons_iff, ← digit?_eq_some_iff_toLower hradix]
    rw [digits?]
    constructor
    · intro h
      cases hd : digit? radix c with
      | none => simp [hd] at h
      | some d =>
        simp only [hd] at h
        obtain ⟨ds, hds, hvalue⟩ := ih.mp h
        exact ⟨_, ⟨d, ds, rfl, rfl, hds⟩, (ofDigits_reverse_cons radix before d ds).trans hvalue⟩
    · rintro ⟨_, ⟨d, ds, rfl, hd, hds⟩, hvalue⟩
      rw [hd]
      exact ih.mpr ⟨ds, hds, (ofDigits_reverse_cons radix before d ds).symm.trans hvalue⟩

/-- A numeral shows digits, of which there is one at least, and its value is theirs. -/
theorem natural?_eq_some_iff (hradix : radix ≤ 16) :
    natural? radix cs = some n ↔
      cs ≠ [] ∧ ∃ ds, Shows radix cs ds ∧ Nat.ofDigits radix ds.reverse = n := by
  cases cs with
  | nil => simp [natural?]
  | cons c cs =>
    rw [natural?, digits?_eq_some_iff hradix]
    · simp
    · exact List.cons_ne_nil c cs

/-- The digits of a number are read back in either case. -/
theorem natural?_of_toLower (hr : 1 < radix) (hradix : radix ≤ 16)
    (h : cs.map Char.toLower = padded radix width n) : natural? radix cs = some n := by
  have hpadded : natural? radix (padded radix width n) = some n := natural?_padded hr hradix
  obtain ⟨hne, ds, hds, hvalue⟩ := (natural?_eq_some_iff hradix).mp hpadded
  refine (natural?_eq_some_iff hradix).mpr ⟨?_, ds, ⟨hds.lt, ?_⟩, hvalue⟩
  · rintro rfl
    exact hne h.symm
  · rw [← hds.toLower, ← h, List.map_map]
    exact List.map_congr_left fun c _ => (toLower_toLower c).symm

end Numeral

namespace Literal

variable {core body suffix mark text cs : List Char} {r n width : Nat} {v : Int}

/-! ### Literals without suffix -/

/-- What the front of a literal marks as its radix, and what stands behind the mark. A zero in front
of any other character marks octal digits, and a lone zero is a digit. -/
inductive Marked : List Char → Nat → List Char → Prop
  | hexadecimal {x : Char} (hx : x = 'x' ∨ x = 'X') (body : List Char) :
    Marked ('0' :: x :: body) 16 body
  | binary {b : Char} (hb : b = 'b' ∨ b = 'B') (body : List Char) :
    Marked ('0' :: b :: body) 2 body
  | octal {c : Char} (hc : c ∉ ['x', 'X', 'b', 'B']) (body : List Char) :
    Marked ('0' :: c :: body) 8 (c :: body)
  | decimal {body : List Char} (h : ∀ c cs, body ≠ '0' :: c :: cs) : Marked body 10 body

theorem marked_iff : Marked core r body ↔ radix core = (r, body) := by
  constructor
  · intro h
    cases h with
    | hexadecimal hx => rcases hx with rfl | rfl <;> rfl
    | binary hb => rcases hb with rfl | rfl <;> rfl
    | octal hc => simp_all [radix]
    | decimal h => simp_all [radix]
  · unfold radix
    split
    · rintro ⟨⟩
      exact .hexadecimal (.inl rfl) _
    · rintro ⟨⟩
      exact .hexadecimal (.inr rfl) _
    · rintro ⟨⟩
      exact .binary (.inl rfl) _
    · rintro ⟨⟩
      exact .binary (.inr rfl) _
    · rintro ⟨⟩
      exact .octal (by simp_all) _
    · rintro ⟨⟩
      exact .decimal (by simp_all)

theorem Marked.le_sixteen (h : Marked core r body) : r ≤ 16 := by
  cases h <;> decide

/-- The number that a literal without suffix stands for: that of its digits, by their places. -/
def Denotes (core : List Char) (n : Nat) : Prop :=
  ∃ r body ds, Marked core r body ∧ body ≠ [] ∧ Numeral.Shows r body ds ∧
    Nat.ofDigits r ds.reverse = n

theorem denotes_iff :
    Denotes core n ↔ Numeral.natural? (radix core).1 (radix core).2 = some n := by
  rcases hradix : radix core with ⟨r, body⟩
  have hmarked := marked_iff.mpr hradix
  rw [Numeral.natural?_eq_some_iff hmarked.le_sixteen]
  constructor
  · rintro ⟨r', body', ds, hmarked', hne, hds, hvalue⟩
    obtain ⟨rfl, rfl⟩ := Prod.mk.inj ((marked_iff.mp hmarked').symm.trans hradix)
    exact ⟨hne, ds, hds, hvalue⟩
  · rintro ⟨hne, ds, hds, hvalue⟩
    exact ⟨r, body, ds, hmarked, hne, hds, hvalue⟩

/-! ### Suffixes -/

theorem exists_eq_append_suffix (cs : List Char) :
    ∃ core suffix, cs = core ++ suffix ∧ (∀ c ∈ suffix, isSuffix c) ∧
      ∀ c ∈ core.getLast?, isSuffix c = false := by
  obtain ⟨suffix, hcs, hsuffix⟩ := exists_withoutSuffix cs
  exact ⟨withoutSuffix cs, suffix, hcs, hsuffix, getLast?_rdropWhile⟩

/-- In front of the letters of its suffix, a literal denotes its value. -/
theorem parse?_append_eq_some_iff (hcore : ∀ c ∈ core, c.isAlphanum)
    (hlast : ∀ c ∈ core.getLast?, isSuffix c = false) (hsuffix : ∀ c ∈ suffix, isSuffix c) :
    parse? (core ++ suffix) = some v ↔ ∃ n : Nat, v = n ∧ n < 2 ^ 127 ∧ Denotes core n := by
  have hbody : ∀ c ∈ (radix core).2, c.isAlphanum := by
    obtain ⟨mark, hmark, -⟩ := exists_radix core
    exact fun c hc => hcore c (hmark ▸ List.mem_append_right _ hc)
  rw [parse?, withoutSuffix_append hsuffix hlast]
  dsimp only
  rw [Numeral.integer?_of_alphanum hbody, Option.bind_eq_some_iff]
  refine exists_congr fun n => ?_
  rw [checked_eq_some_iff, Numeral.fits_natCast_iff, denotes_iff]
  tauto

theorem isSuffix_toLower {c : Char} (h : isSuffix c) : isSuffix c.toLower := by
  simp only [isSuffix, Bool.or_eq_true, decide_eq_true_eq] at h
  rcases h with ((rfl | rfl) | rfl) | rfl <;> decide

/-! ### Printed literals -/

/-- The marks that are written in front of digits, and their radixes. -/
def marks : List (List Char × Nat) :=
  [(['0', 'x'], 16), (['0', 'X'], 16), (['0', 'b'], 2), (['0', 'B'], 2), (['0'], 8)]

/-- Behind a mark the digits of a number are not taken for a part of it. -/
theorem radix_append_of_mem_marks (hmark : (mark, r) ∈ marks)
    (h : Numeral.natural? r text = some n) : radix (mark ++ text) = (r, text) := by
  simp only [marks, List.mem_cons, Prod.mk.injEq, List.not_mem_nil, or_false] at hmark
  rcases hmark with ⟨rfl, rfl⟩ | ⟨rfl, rfl⟩ | ⟨rfl, rfl⟩ | ⟨rfl, rfl⟩ | ⟨rfl, rfl⟩
  · rfl
  · rfl
  · rfl
  · rfl
  · -- A letter behind the zero would be a mark, but no letter is an octal digit.
    obtain ⟨hne, ds, hds, -⟩ := (Numeral.natural?_eq_some_iff (by decide)).mp h
    obtain ⟨c, cs, rfl⟩ := List.exists_cons_of_ne_nil hne
    obtain ⟨d, -, -, hd, -⟩ := Numeral.shows_cons_iff.mp hds
    have hcode := Numeral.digit?_eq_some_iff.mp
      ((Numeral.digit?_eq_some_iff_toLower (by decide)).mpr hd)
    refine marked_iff.mp (.octal (fun hc => ?_) cs)
    simp only [List.mem_cons, List.not_mem_nil, or_false] at hc
    rcases hc with rfl | rfl | rfl | rfl <;> simp at hcode <;> omega

/-- The digits of a number behind the mark of their radix are a literal of its value, in either case
and with any suffix. -/
theorem parse?_append_of_mem_marks (hmark : (mark, r) ∈ marks)
    (htext : text.map Char.toLower = Numeral.padded r width n)
    (hsuffix : ∀ c ∈ suffix, isSuffix c) : parse? (mark ++ text ++ suffix) = checked n := by
  have hradix : 1 < r ∧ r ≤ 16 := by
    have hall : ∀ p ∈ marks, 1 < p.2 ∧ p.2 ≤ 16 := by decide
    exact hall _ hmark
  have hnatural := Numeral.natural?_of_toLower hradix.1 hradix.2 htext
  obtain ⟨hne, halphanum⟩ := Numeral.isAlphanum_of_natural? hnatural
  have hlast : ∀ c ∈ (mark ++ text).getLast?, isSuffix c = false := by
    rw [List.getLast?_append_of_ne_nil mark hne]
    intro c hc
    have hdigit : c.toLower ∈ (Numeral.padded r width n).getLast? := by
      rw [← htext, List.getLast?_map]
      exact Option.mem_map_of_mem _ hc
    have hnot := not_isSuffix_getLast?_padded hradix.1 hradix.2 width n _ hdigit
    exact Bool.eq_false_iff.mpr fun h => Bool.eq_false_iff.mp hnot (isSuffix_toLower h)
  rw [parse?, withoutSuffix_append hsuffix hlast, radix_append_of_mem_marks hmark hnatural]
  dsimp only
  rw [Numeral.integer?_of_alphanum halphanum, hnatural, Option.bind_some]

theorem toList_toString_natCast (n : Nat) : (toString (n : Int)).toList = Nat.toDigits 10 n := by
  rw [Int.toString_eq_repr]
  simp [Int.repr]

/-- A single bit is written in hexadecimal digits behind their mark, with a suffix or none. -/
theorem exists_bitValue_eq (position width : Nat) :
    ∃ more suffix, (∀ c ∈ suffix, isSuffix c) ∧
      Registry.bitValue position width = .literal (wrapped (Numeral.bit (position % 128)))
        (String.ofList
          ('0' :: 'x' :: (Numeral.hex more (Numeral.bit (position % 128)) ++ suffix))) := by
  unfold Registry.bitValue
  dsimp only
  split
  · exact ⟨16, ['U', 'L', 'L'], List.all_eq_true.mp rfl, rfl⟩
  · exact ⟨8, [], List.forall_mem_nil _, by rw [List.append_nil]⟩

/-- **Integer literals of letters and digits.** Without the letters of suffixes at its end, a
literal denotes its value, which is below the bit of the sign; any other text of letters and digits
is none. Each number below that bit is read back from its digits, behind their mark and in front of
any suffix, as well as from the texts of literals that are given by their values or as single
bits. -/
theorem parse?_denotes_and_reads_back :
    (∀ cs : List Char, (∀ c ∈ cs, c.isAlphanum) →
      ∃ core suffix, cs = core ++ suffix ∧ (∀ c ∈ suffix, isSuffix c) ∧
        (∀ c ∈ core.getLast?, isSuffix c = false) ∧
        ∀ v, parse? cs = some v ↔ ∃ n : Nat, v = n ∧ n < 2 ^ 127 ∧ Denotes core n) ∧
    ∀ n : Nat, n < 2 ^ 127 →
      (∀ suffix, (∀ c ∈ suffix, isSuffix c) →
        parse? (Nat.toDigits 10 n ++ suffix) = some (n : Int) ∧
        ∀ mark r, (mark, r) ∈ marks → ∀ width text,
          text.map Char.toLower = Numeral.padded r width n →
            parse? (mark ++ text ++ suffix) = some (n : Int)) ∧
      (∃ text, Initializer.decimal n = .literal n text ∧ parse? text.toList = some (n : Int)) ∧
      ∀ position width, n = 2 ^ position →
        ∃ text, Registry.bitValue position width = .literal n text ∧
          parse? text.toList = some (n : Int) := by
  refine ⟨fun cs hcs => ?_, fun n hn => ?_⟩
  · obtain ⟨core, suffix, rfl, hsuffix, hlast⟩ := exists_eq_append_suffix cs
    have hcore := (List.forall_mem_append.mp hcs).1
    exact ⟨core, suffix, rfl, hsuffix, hlast, fun v =>
      parse?_append_eq_some_iff hcore hlast hsuffix⟩
  · have hchecked : checked n = some (n : Int) :=
      checked_eq_some_iff.mpr ⟨Numeral.fits_natCast_iff.mpr hn, rfl⟩
    refine ⟨fun suffix hsuffix => ⟨?_, fun mark r hmark width text htext => ?_⟩, ?_, ?_⟩
    · rw [parse?_toDigits_append hsuffix, hchecked]
    · rw [parse?_append_of_mem_marks hmark htext hsuffix, hchecked]
    · exact ⟨_, rfl, by rw [toList_toString_natCast, parse?_toDigits, hchecked]⟩
    · rintro position width rfl
      obtain ⟨more, suffix, hsuffix, hvalue⟩ := exists_bitValue_eq position width
      have hposition : position < 127 := (Nat.pow_lt_pow_iff_right (by decide)).mp hn
      rw [Nat.mod_eq_of_lt (by omega), Numeral.bit_eq_two_pow,
        wrapped_eq_self_iff.mpr (Numeral.fits_natCast_iff.mpr hn)] at hvalue
      exact ⟨_, hvalue, by rw [String.toList_ofList, parse?_hex hsuffix, hchecked]⟩

/-- A text with a digit that is not octal, and the greatest number that fits, in capital digits and
with a suffix. -/
theorem parse?_notOctal_and_greatest :
    ((∀ c ∈ "08uL".toList, c.isAlphanum) ∧
      ∃ core suffix, "08uL".toList = core ++ suffix ∧ (∀ c ∈ suffix, isSuffix c) ∧
        (∀ c ∈ core.getLast?, isSuffix c = false) ∧
        ∀ v, parse? "08uL".toList = some v ↔ ∃ n : Nat, v = n ∧ n < 2 ^ 127 ∧ Denotes core n) ∧
    0x7fffffffffffffffffffffffffffffff < 2 ^ 127 ∧
      parse? ("0X".toList ++ "7FFFFFFFFFFFFFFFFFFFFFFFFFFFFFFF".toList ++ "uLL".toList) =
        some 0x7fffffffffffffffffffffffffffffff := by
  have halphanum : ∀ c ∈ "08uL".toList, c.isAlphanum := List.all_eq_true.mp rfl
  have hsuffix : ∀ c ∈ "uLL".toList, isSuffix c := List.all_eq_true.mp rfl
  have hlt : 0x7fffffffffffffffffffffffffffffff < 2 ^ 127 := by decide
  have hread := ((parse?_denotes_and_reads_back.2 _ hlt).1 "uLL".toList hsuffix).2
  refine ⟨⟨halphanum, parse?_denotes_and_reads_back.1 _ halphanum⟩, hlt, ?_⟩
  exact hread ['0', 'X'] 16 (by decide) 0 _ (by decide +kernel)

end Literal

end Enumerant
