import Mathlib.Data.List.Infix
import Enumerant.Proofs.Header.ParseTree
import Enumerant.Proofs.Integer.Literal
import Enumerant.Proofs.Naming.Characters
import Enumerant.Proofs.Schema

/-!
# Abstract headers

What a header is, apart from its white space: a list of parts, each of which declares an
enumeration (`Declaration`), mentions one, or is anything else up to a semicolon (`Part`). A part
is given by what it says, and two things are made of it: the tokens that spell it (`Part.atoms`)
and the group that it declares (`Part.group?`). The groups of all parts, merged by name, are the
schema that the header stands for (`schema`).

Constant expressions are indexed by the level of the grammar, so that whatever can be written down
is spelled with all the parentheses that it needs. Their value is told by what their numbers denote
and what their operators give (`Constant.Evaluates`), of which `Constant.value?` is the calculation
(`Constant.value?_eq_some_iff`). `constant?_atoms` shows that their tokens have the same value. The
widths of base types are those of a table (`baseTypes`).
-/

namespace Enumerant.Header.Abstract

open Text

/-! ### Tokens -/

/-- A keyword or an identifier. -/
structure Word where
  text : String
  isWord : IsWord text.toList

/-- A number as it is written: a digit with digits and letters behind it. One that is no integer
literal, or stands for more than 128 bits hold, has no value. -/
structure Number where
  text : String
  startsWithDigit : text.toList.head?.any Char.isDigit
  isAlphanum : ∀ c ∈ text.toList, c.isAlphanum

/-- What a number stands for: what its digits denote, the letters of a suffix left aside, if this is
less than `2 ^ 127`. -/
def Number.StandsFor (n : Number) (v : Int) : Prop :=
  ∃ core suffix : List Char, n.text.toList = core ++ suffix ∧
    (∀ c ∈ suffix, Literal.isSuffix c) ∧ (∀ c ∈ core.getLast?, Literal.isSuffix c = false) ∧
    ∃ m : Nat, v = m ∧ m < 2 ^ 127 ∧ Literal.Denotes core m

theorem Number.parse?_eq_some_iff {n : Number} {v : Int} :
    Literal.parse? n.text.toList = some v ↔ n.StandsFor v := by
  -- A text is split into digits and suffix in one way only, so any such split has the same value.
  have hsplit : ∀ core suffix : List Char, n.text.toList = core ++ suffix →
      (∀ c ∈ suffix, Literal.isSuffix c) → (∀ c ∈ core.getLast?, Literal.isSuffix c = false) →
      (Literal.parse? n.text.toList = some v ↔
        ∃ m : Nat, v = m ∧ m < 2 ^ 127 ∧ Literal.Denotes core m) := by
    intro core suffix htext hsuffix hlast
    have hcore : ∀ c ∈ core, c.isAlphanum := fun c hc =>
      n.isAlphanum c (htext ▸ List.mem_append_left _ hc)
    rw [htext, Literal.parse?_append_eq_some_iff hcore hlast hsuffix]
  constructor
  · intro h
    obtain ⟨core, suffix, htext, hsuffix, hlast⟩ :=
      Literal.exists_eq_append_suffix n.text.toList
    exact ⟨core, suffix, htext, hsuffix, hlast, (hsplit core suffix htext hsuffix hlast).mp h⟩
  · rintro ⟨core, suffix, htext, hsuffix, hlast, hdenotes⟩
    exact (hsplit core suffix htext hsuffix hlast).mpr hdenotes

/-- A punctuation character of ASCII. -/
def isPunctuation (c : Char) : Bool :=
  let n := c.toNat
  (33 ≤ n && n ≤ 47) || (58 ≤ n && n ≤ 64) || (91 ≤ n && n ≤ 96) || (123 ≤ n && n ≤ 126)

/-- A punctuation character with no meaning in headers. A hash opens directives, quotes open texts,
and an underscore is a word. -/
def isOther (c : Char) : Bool :=
  isPunctuation c && (Punctuation.ofChar? c).isNone &&
    c ≠ '#' && c.toNat ≠ 0x22 && c.toNat ≠ 0x27 && c ≠ '_'

/-- A token as it is written. -/
inductive Atom where
  | word (w : Word)
  | number (n : Number)
  | mark (p : Punctuation)
  | other (c : Char) (h : isOther c)

namespace Atom

/-- The text of a token. -/
def text : Atom → String
  | word w => w.text
  | number n => n.text
  | mark p => String.ofList p.text
  | other c _ => String.singleton c

/-- What a token is. -/
def lexeme : Atom → Lexeme
  | word w => .word w.text
  | number n => numberLexeme n.text.toList
  | mark p => .mark p
  | other c _ => .stray (.ofNat c.toNat)

/-- Whether a token may stand in an initializer without ending it. -/
def isInner : Atom → Bool
  | number _ => true
  | mark p => p ∉ [.comma, .closeBrace, .semicolon, .openBrace]
  | _ => false

end Atom

/-- Tokens with single spaces between them. -/
def spaced (as : List Atom) : String :=
  " ".intercalate (as.map Atom.text)

/-! ### Constant expressions -/

/-- A constant expression of a level, with the parentheses in it. -/
inductive Constant : Nat → Type
  | number (n : Number) : Constant 6
  | parentheses (e : Constant 0) : Constant 6
  | signed (s : Sign) (e : Constant 6) : Constant 6
  | binary (op : Operator) (l : Constant op.level) (r : Constant (op.level + 1)) :
      Constant op.level
  | lower {n : Nat} (hn : n < 6) (e : Constant (n + 1)) : Constant n

namespace Constant

/-- The tokens of an expression. -/
def atoms {n : Nat} : Constant n → List Atom
  | number n => [.number n]
  | parentheses e => .mark .openParen :: (e.atoms ++ [.mark .closeParen])
  | signed s e => .mark s.mark :: e.atoms
  | binary op l r => l.atoms ++ .mark op.mark :: r.atoms
  | lower _ e => e.atoms

/-- What an expression evaluates to. -/
def Evaluates {n : Nat} : Constant n → Int → Prop
  | number n, v => n.StandsFor v
  | parentheses e, v => e.Evaluates v
  | signed s e, v => ∃ a, e.Evaluates a ∧ s.Gives a v
  | binary op l r, v => ∃ a, l.Evaluates a ∧ ∃ b, r.Evaluates b ∧ op.Gives a b v
  | lower _ e, v => e.Evaluates v

/-- The value of an expression, if every number and every operation in it has one. -/
def value? {n : Nat} : Constant n → Option Int
  | number n => Literal.parse? n.text.toList
  | parentheses e => e.value?
  | signed s e => e.value?.bind s.apply
  | binary op l r => l.value?.bind fun a => r.value?.bind fun b => op.apply a b
  | lower _ e => e.value?

/-- **The value of an expression is what it evaluates to.** -/
theorem value?_eq_some_iff {n : Nat} {e : Constant n} {v : Int} :
    e.value? = some v ↔ e.Evaluates v := by
  induction e generalizing v with
  | number n => exact Number.parse?_eq_some_iff
  | parentheses e ih => exact ih
  | signed s e ih =>
    simp only [value?, Evaluates, Option.bind_eq_some_iff, ih, Sign.apply_eq_some_iff]
  | binary op l r ihl ihr =>
    simp only [value?, Evaluates, Option.bind_eq_some_iff, ihl, ihr, Operator.apply_eq_some_iff]
  | lower hn e ih => exact ih

theorem atoms_ne_nil {n : Nat} (e : Constant n) : e.atoms ≠ [] := by
  induction e with
  | lower _ e ih => exact ih
  | _ => simp [atoms]

theorem isInner_of_mem {n : Nat} {e : Constant n} {a : Atom} (h : a ∈ e.atoms) : a.isInner := by
  induction e with
  | number n =>
    obtain rfl := List.mem_singleton.mp h
    rfl
  | parentheses e ih =>
    simp only [atoms, List.mem_cons, List.mem_append, List.not_mem_nil, or_false] at h
    rcases h with rfl | h | rfl
    · rfl
    · exact ih h
    · rfl
  | signed s e ih =>
    rcases List.mem_cons.mp h with rfl | h
    · cases s <;> rfl
    · exact ih h
  | binary op l r ihl ihr =>
    simp only [atoms, List.mem_append, List.mem_cons] at h
    rcases h with h | rfl | h
    · exact ihl h
    · cases op <;> rfl
    · exact ihr h
  | lower _ e ih => exact ih h

/-- An expression is derived by the grammar, unless a number in it has no value. -/
theorem derives_or_stray {n : Nat} (e : Constant n) :
    (∃ x, Derives n x (e.atoms.map Atom.lexeme) ∧ x.value? = e.value?) ∨
      (∃ b, .stray b ∈ e.atoms.map Atom.lexeme) ∧ e.value? = none := by
  -- Where a number has no value, its lexeme is a stray, and the grammar knows no strays.
  induction e with
  | number n =>
    simp only [atoms, value?, List.map_singleton, Atom.lexeme, numberLexeme]
    cases hv : Literal.parse? n.text.toList with
    | some v => exact .inl ⟨.number v, .number v, rfl⟩
    | none => exact .inr ⟨⟨48, List.mem_singleton_self _⟩, rfl⟩
  | parentheses e ih =>
    simp only [atoms, value?, List.map_cons, List.map_append, List.map_nil]
    rcases ih with ⟨x, hx, hv⟩ | ⟨⟨b, hb⟩, hv⟩
    · exact .inl ⟨x, .parentheses hx, hv⟩
    · exact .inr ⟨⟨b, by simp [hb]⟩, hv⟩
  | signed s e ih =>
    simp only [atoms, value?, List.map_cons]
    rcases ih with ⟨x, hx, hv⟩ | ⟨⟨b, hb⟩, hv⟩
    · exact .inl ⟨.signed s x, .signed s hx, by rw [Expression.value?, hv]⟩
    · exact .inr ⟨⟨b, by simp [hb]⟩, by rw [hv]; rfl⟩
  | binary op l r ihl ihr =>
    simp only [atoms, value?, List.map_append, List.map_cons]
    rcases ihl with ⟨x, hx, hxv⟩ | ⟨⟨b, hb⟩, hv⟩
    · rcases ihr with ⟨y, hy, hyv⟩ | ⟨⟨b, hb⟩, hv⟩
      · exact .inl ⟨.binary op x y, .binary op hx hy, by rw [Expression.value?, hxv, hyv]⟩
      · exact .inr ⟨⟨b, by simp [hb]⟩, by rw [hv]; cases l.value? <;> rfl⟩
    · exact .inr ⟨⟨b, by simp [hb]⟩, by rw [hv]; rfl⟩
  | lower hn e ih =>
    rcases ih with ⟨x, hx, hv⟩ | hno
    · exact .inl ⟨x, .lower hn hx, hv⟩
    · exact .inr hno

/-- **The tokens of an expression have its value.** -/
theorem constant?_atoms (e : Constant 0) : constant? (e.atoms.map Atom.lexeme) = e.value? := by
  rcases e.derives_or_stray with ⟨x, hx, hv⟩ | ⟨⟨b, hb⟩, hv⟩
  · rw [constant?, parse?_eq_some_iff.mpr hx, Option.bind_some, hv]
  · rw [hv, Option.eq_none_iff_forall_not_mem]
    intro v hconstant
    -- The grammar knows numbers with a value and punctuation, and nothing else.
    obtain ⟨x, hx, -⟩ := constant?_eq_some_iff.mp hconstant
    rcases hx.exists_of_mem hb with ⟨w, hw⟩ | ⟨p, hp⟩
    · cases hw
    · cases hp

end Constant

/-! ### Declarations -/

/-- What is written behind the name of an enumerator. -/
inductive Value where
  | implicit
  | reference (w : Word)
  | constant (e : Constant 0)

namespace Value

def atoms : Value → List Atom
  | implicit => []
  | reference w => [.mark .assign, .word w]
  | constant e => .mark .assign :: e.atoms

/-- The initializer that is written. -/
def initializer : Value → Initializer
  | implicit => .implicit
  | reference w => .reference w.text
  | constant e =>
    match e.value? with
    | some v => .literal v (spaced e.atoms)
    | none => .unevaluated (spaced e.atoms)

/-- Whether a literal is written that 32 bits hold neither with nor without sign. -/
def isWide : Value → Bool
  | constant e => e.value?.any fun v => v < -2 ^ 31 || 2 ^ 32 ≤ v
  | _ => false

end Value

/-- An enumerator with what is written behind its name. -/
structure Enumerator where
  name : Word
  value : Value

/-- The tokens of an enumerator. -/
def Enumerator.atoms (e : Enumerator) : List Atom :=
  .word e.name :: e.value.atoms

/-- The member that an enumerator declares. -/
def Enumerator.member (e : Enumerator) : Member :=
  ⟨e.name.text, e.value.initializer, none⟩

/-- A part of a base type. -/
inductive TypePart where
  | word (w : Word)
  | colon

/-- The token of a part of a base type. -/
def TypePart.atom : TypePart → Atom
  | word w => .word w
  | colon => .mark .colon

/-- The base types that are known, each with its width in bits. -/
def baseTypes : List (String × Nat) :=
  [("uint8_t", 8), ("int8_t", 8), ("char", 8), ("uint16_t", 16), ("int16_t", 16), ("short", 16),
    ("uint32_t", 32), ("int32_t", 32), ("int", 32), ("uint64_t", 64), ("int64_t", 64)]

theorem widthOfType?_eq_lookup (name : String) : widthOfType? name = baseTypes.lookup name := by
  simp only [widthOfType?, baseTypes, List.mem_cons, List.not_mem_nil, or_false, List.lookup_cons,
    List.lookup_nil, beq_eq_decide]
  split_ifs with h8 h16 h32 h64
  · rcases h8 with rfl | rfl | rfl <;> rfl
  · rcases h16 with rfl | rfl | rfl <;> rfl
  · rcases h32 with rfl | rfl | rfl <;> rfl
  · rcases h64 with rfl | rfl <;> rfl
  · simp_all

/-- The width that a part of a base type stands for, if it is a type that is known. -/
def TypePart.width? : TypePart → Option Nat
  | word w => baseTypes.lookup w.text
  | colon => none

/-- A word that makes an enumeration scoped. -/
def Word.isScope (w : Word) : Prop :=
  w.text = "class" ∨ w.text = "struct"

/-- The declaration of an enumeration: `behind` is the name behind its body. -/
structure Declaration where
  typedef : Bool
  scope : Option Word
  tag : Option Word
  base : Option (List TypePart)
  enumerators : List Enumerator
  trailingComma : Bool
  behind : Option Word
  isScope : ∀ w ∈ scope, w.isScope
  not_isScope : ∀ w ∈ tag, ¬ w.isScope

/-- The keyword in front of an enumeration. -/
def Word.enum : Word :=
  ⟨"enum", isWord_iff.mpr ⟨rfl, rfl⟩⟩

/-- The keyword in front of a declaration that gives a type a name. -/
def Word.typedef : Word :=
  ⟨"typedef", isWord_iff.mpr ⟨rfl, rfl⟩⟩

namespace Declaration

/-- The tokens of a base type, with the colon in front. -/
def baseAtoms (base : Option (List TypePart)) : List Atom :=
  match base with
  | some parts => .mark .colon :: parts.map TypePart.atom
  | none => []

/-- The tokens of a body without its braces. -/
def bodyAtoms (es : List Enumerator) (trailingComma : Bool) : List Atom :=
  [.mark .comma].intercalate (es.map Enumerator.atoms) ++
    if trailingComma then [.mark .comma] else []

/-- The tokens of a declaration from the keyword on. -/
def enumAtoms (d : Declaration) : List Atom :=
  .word .enum :: (d.scope.toList.map .word ++ (d.tag.toList.map .word ++
    (baseAtoms d.base ++ .mark .openBrace :: (bodyAtoms d.enumerators d.trailingComma ++
      .mark .closeBrace :: (d.behind.toList.map .word ++ [.mark .semicolon])))))

/-- The tokens of a declaration. -/
def atoms (d : Declaration) : List Atom :=
  (if d.typedef then [.word .typedef] else []) ++ d.enumAtoms

/-- The width that the base type of a declaration gives: that of its last known word. -/
def declaredWidth (d : Declaration) : Nat :=
  ((d.base.getD []).filterMap TypePart.width?).getLast?.getD 32

/-- The group that a declaration stands for, given its name. -/
def groupNamed (d : Declaration) (name : String) : Group where
  name := name
  kind := if "FlagBits".toList <:+: name.toList then .bitmask else .plain
  width := if d.enumerators.any (·.value.isWide) then 64 else d.declaredWidth
  members := d.enumerators.map Enumerator.member

/-- The group that a declaration stands for, if it has a name: its tag, or else the name behind its
body. -/
def group? (d : Declaration) : Option Group :=
  (d.tag <|> d.behind).map fun w => d.groupNamed w.text

end Declaration

/-! ### Headers -/

/-- The braces among some tokens are in balance: none closes that has not been opened, and in the
end all are closed. -/
structure Balanced (as : List Atom) : Prop where
  count_le : ∀ front, front <+: as.map Atom.lexeme →
    front.count (.mark .closeBrace) ≤ front.count (.mark .openBrace)
  count_eq : (as.map Atom.lexeme).count (.mark .closeBrace) =
    (as.map Atom.lexeme).count (.mark .openBrace)

/-- One part of a header. A mention has the keyword and words behind it, the first of which is the
tag; any other part is without the keyword. All parts end with a semicolon, which other parts may
also hold. -/
inductive Part where
  | declaration (d : Declaration)
  | mention (tag : Word) (more : List Word)
  | other (as : List Atom) (hword : ∀ a ∈ as, a.lexeme ≠ .word "enum") (hbraces : Balanced as)

/-- The tokens of a part. -/
def Part.atoms : Part → List Atom
  | declaration d => d.atoms
  | mention tag more => (.enum :: tag :: more).map .word ++ [.mark .semicolon]
  | other as _ _ => as ++ [.mark .semicolon]

/-- The group that a part declares, if it declares one. -/
def Part.group? : Part → Option Group
  | declaration d => d.group?
  | _ => none

/-- The schema that a header stands for: the groups of its parts, merged by name. -/
def schema (parts : List Part) : Schema :=
  .of (Schema.merged (parts.filterMap Part.group?))

end Enumerant.Header.Abstract
