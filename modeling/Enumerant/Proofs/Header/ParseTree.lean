import Mathlib.Data.Int.Bitwise
import Mathlib.Tactic.Lift
import Enumerant.Proofs.Header.Classification

/-!
# Parse trees of constant expressions

The grammar of C has one layer for each level of its operators, and a parse tree (`ParseTree`) keeps
the layers, the parentheses and the order of everything, so that its tokens can be read off it. What
a tree evaluates to is told operator by operator, by integers where an operation has an exact result
and by bits where it has not (`Operator.Gives`).

The grammar is unambiguous (`ParseTree.eq_of_lexemes_eq`), and a list of tokens has a value just if
it is spelled by a parse tree that evaluates to it (`constant?_iff_evaluates`). Expressions leave
their parentheses out, so reading one expression does not tell which tree was read. The proof puts a
pair of signs in front of every parenthesis, which the expression then shows (`outline`).
-/

namespace Enumerant.Header

variable {n : ℕ} {op : Operator} {a b v : ℤ} {e : Expression} {ls : List Lexeme}

/-! ### What operators give -/

/-- A value of 128 bits with the given bits, from the lowest one on. -/
def HasBits (v : ℤ) (bits : ℕ → Bool) : Prop :=
  Fits v ∧ ∀ i < 128, v.testBit i = bits i

/-- What an operator makes of two values. Results that do not fit are none, nor is there one for a
divisor of zero or for a shift by less than zero or more than 127 places. -/
inductive Operator.Gives : Operator → ℤ → ℤ → ℤ → Prop
  | mul {a b : ℤ} (h : Fits (a * b)) : Gives mul a b (a * b)
  | div {a b : ℤ} (hb : b ≠ 0) (h : Fits (a.tdiv b)) : Gives div a b (a.tdiv b)
  | rem {a b : ℤ} (hb : b ≠ 0) (h : Fits (a.tdiv b)) : Gives rem a b (a.tmod b)
  | add {a b : ℤ} (h : Fits (a + b)) : Gives add a b (a + b)
  | sub {a b : ℤ} (h : Fits (a - b)) : Gives sub a b (a - b)
  /-- The bits move up, and zeros follow them. -/
  | shiftLeft {a v : ℤ} {k : ℕ} (hk : k < 128)
      (h : HasBits v fun i => decide (k ≤ i) && a.testBit (i - k)) : Gives shiftLeft a k v
  /-- The bits move down, and the sign follows them. -/
  | shiftRight {a v : ℤ} {k : ℕ} (hk : k < 128)
      (h : HasBits v fun i => a.testBit (min (i + k) 127)) : Gives shiftRight a k v
  | and {a b v : ℤ} (h : HasBits v fun i => a.testBit i && b.testBit i) : Gives and a b v
  | xor {a b v : ℤ} (h : HasBits v fun i => a.testBit i ^^ b.testBit i) : Gives xor a b v
  | or {a b v : ℤ} (h : HasBits v fun i => a.testBit i || b.testBit i) : Gives or a b v

/-- What a sign makes of a value. -/
inductive Sign.Gives : Sign → ℤ → ℤ → Prop
  | plus {a : ℤ} : Gives plus a a
  | minus {a : ℤ} (h : Fits (-a)) : Gives minus a (-a)
  | complement {a : ℤ} : Gives complement a (~~~a)

/-- Bits of a value are those of its word. -/
theorem getLsbD_ofInt (v : ℤ) {w i : ℕ} (hi : i < w) :
    (BitVec.ofInt w v).getLsbD i = v.testBit i := by
  rcases v with m | m
  · rw [Int.ofNat_eq_natCast, BitVec.ofInt_natCast, BitVec.getLsbD_ofNat, decide_eq_true hi,
      Bool.true_and]
    rfl
  · rw [BitVec.ofInt_negSucc_eq_not_ofNat, BitVec.getLsbD_not, BitVec.getLsbD_ofNat,
      decide_eq_true hi, Bool.true_and, Bool.true_and]
    rfl

/-- A value is that of its bits. -/
theorem toInt_eq_iff {x : BitVec 128} : x.toInt = v ↔ HasBits v x.getLsbD := by
  constructor
  · rintro rfl
    refine ⟨⟨x.le_toInt, x.toInt_lt⟩, fun i hi => ?_⟩
    rw [← getLsbD_ofInt _ hi, BitVec.ofInt_toInt]
  · rintro ⟨⟨hle, hlt⟩, hbits⟩
    have hx : x = BitVec.ofInt 128 v :=
      BitVec.eq_of_getLsbD_eq fun i hi => by rw [getLsbD_ofInt _ hi, hbits i hi]
    rw [hx, BitVec.toInt_ofInt_eq_self (by decide) hle hlt]

/-- Only the bits of the word count. -/
theorem hasBits_congr {bits bits' : ℕ → Bool} (h : ∀ i < 128, bits i = bits' i) :
    HasBits v bits ↔ HasBits v bits' :=
  and_congr_right fun _ => forall₂_congr fun i hi => by rw [h i hi]

/-- The bits that an operator on bits makes. -/
theorem ofBits_eq_some_iff {x : BitVec 128} {bits : ℕ → Bool}
    (h : ∀ i < 128, x.getLsbD i = bits i) :
    some (Operator.ofBits x) = some v ↔ HasBits v bits := by
  rw [Option.some.injEq, Operator.ofBits, toInt_eq_iff, hasBits_congr h]

/-- A shift to the left moves bits up. -/
theorem getLsbD_toBits_shiftLeft {i : ℕ} (k : ℕ) (hi : i < 128) :
    (Operator.toBits a <<< k).getLsbD i = (decide (k ≤ i) && a.testBit (i - k)) := by
  rw [BitVec.getLsbD_shiftLeft, Operator.toBits, getLsbD_ofInt _ (by omega), decide_eq_true hi]
  simp [← decide_not]

/-- A shift to the right moves bits down and repeats the sign. -/
theorem getLsbD_toBits_sshiftRight {i : ℕ} (k : ℕ) (hi : i < 128) :
    ((Operator.toBits a).sshiftRight k).getLsbD i = a.testBit (min (i + k) 127) := by
  rw [BitVec.getLsbD_sshiftRight, decide_eq_false (by omega), Bool.not_false, Bool.true_and]
  split
  case isTrue h =>
    rw [Operator.toBits, getLsbD_ofInt _ h, Nat.min_eq_left (by omega), Nat.add_comm]
  case isFalse h =>
    rw [Operator.toBits, BitVec.msb_eq_getLsbD_last, getLsbD_ofInt _ (by decide),
      Nat.min_eq_right (by omega)]

theorem Operator.apply_shiftLeft_eq_some_iff :
    shiftLeft.apply a b = some v ↔ shiftLeft.Gives a b v := by
  rw [apply, Option.ite_none_right_eq_some]
  constructor
  · rintro ⟨⟨hb, hlt⟩, h⟩
    lift b to ℕ using hb
    exact .shiftLeft (by omega)
      ((ofBits_eq_some_iff fun _ => getLsbD_toBits_shiftLeft b).mp h)
  · intro h
    cases h with
    | shiftLeft hk h =>
      exact ⟨by omega, (ofBits_eq_some_iff fun _ => getLsbD_toBits_shiftLeft _).mpr h⟩

theorem Operator.apply_shiftRight_eq_some_iff :
    shiftRight.apply a b = some v ↔ shiftRight.Gives a b v := by
  rw [apply, Option.ite_none_right_eq_some]
  constructor
  · rintro ⟨⟨hb, hlt⟩, h⟩
    lift b to ℕ using hb
    exact .shiftRight (by omega)
      ((ofBits_eq_some_iff fun _ => getLsbD_toBits_sshiftRight b).mp h)
  · intro h
    cases h with
    | shiftRight hk h =>
      exact ⟨by omega, (ofBits_eq_some_iff fun _ => getLsbD_toBits_sshiftRight _).mpr h⟩

/-- **The operators calculate as they should.** -/
theorem Operator.apply_eq_some_iff : op.apply a b = some v ↔ op.Gives a b v := by
  cases op with
  | mul => exact checked_eq_some_iff.trans ⟨fun ⟨h, hv⟩ => hv ▸ .mul h, fun | .mul h => ⟨h, rfl⟩⟩
  | div =>
    rw [apply, Option.ite_none_left_eq_some, checked_eq_some_iff]
    exact ⟨fun ⟨hb, h, hv⟩ => hv ▸ .div hb h, fun | .div hb h => ⟨hb, h, rfl⟩⟩
  | rem =>
    simp only [apply, Option.ite_none_left_eq_some, Option.map_eq_some_iff, checked_eq_some_iff]
    constructor
    · rintro ⟨hb, q, ⟨h, rfl⟩, rfl⟩
      exact .rem hb h
    · intro h
      cases h with
      | rem hb h => exact ⟨hb, _, ⟨h, rfl⟩, rfl⟩
  | add => exact checked_eq_some_iff.trans ⟨fun ⟨h, hv⟩ => hv ▸ .add h, fun | .add h => ⟨h, rfl⟩⟩
  | sub => exact checked_eq_some_iff.trans ⟨fun ⟨h, hv⟩ => hv ▸ .sub h, fun | .sub h => ⟨h, rfl⟩⟩
  | shiftLeft => exact apply_shiftLeft_eq_some_iff
  | shiftRight => exact apply_shiftRight_eq_some_iff
  -- The bitwise operators work on two's complement, where each bit is decided on its own.
  | and =>
    refine (ofBits_eq_some_iff fun i hi => ?_).trans ⟨.and, fun | .and h => h⟩
    rw [BitVec.getLsbD_and, toBits, toBits, getLsbD_ofInt _ hi, getLsbD_ofInt _ hi]
  | xor =>
    refine (ofBits_eq_some_iff fun i hi => ?_).trans ⟨.xor, fun | .xor h => h⟩
    rw [BitVec.getLsbD_xor, toBits, toBits, getLsbD_ofInt _ hi, getLsbD_ofInt _ hi]
  | or =>
    refine (ofBits_eq_some_iff fun i hi => ?_).trans ⟨.or, fun | .or h => h⟩
    rw [BitVec.getLsbD_or, toBits, toBits, getLsbD_ofInt _ hi, getLsbD_ofInt _ hi]

/-- The signs calculate as they should. -/
theorem Sign.apply_eq_some_iff {s : Sign} : s.apply a = some v ↔ s.Gives a v := by
  cases s with
  | plus => exact Option.some_inj.trans ⟨fun hv => hv ▸ .plus, fun | .plus => rfl⟩
  | minus =>
    exact checked_eq_some_iff.trans ⟨fun ⟨h, hv⟩ => hv ▸ .minus h, fun | .minus h => ⟨h, rfl⟩⟩
  | complement =>
    have hnot : -a - 1 = ~~~a := by
      rcases a with m | m
      · change -(m : ℤ) - 1 = Int.negSucc m
        omega
      · change -Int.negSucc m - 1 = (m : ℤ)
        omega
    rw [apply, hnot]
    exact Option.some_inj.trans ⟨fun hv => hv ▸ .complement, fun | .complement => rfl⟩

/-! ### Trees -/

/-- The operators of each level, those that bind least tightly first. -/
def Operator.levels : List (List Operator) :=
  [[or], [xor], [and], [shiftLeft, shiftRight], [add, sub], [mul, div, rem]]

/-- Every operator is on its level. -/
theorem Operator.mem_levels_iff : op ∈ levels.getD n [] ↔ op.level = n := by
  rcases n with _ | _ | _ | _ | _ | _ | n
  case succ.succ.succ.succ.succ.succ =>
    have hlevel := op.level_le
    simp only [levels, List.getD_cons_succ, List.getD_nil, List.not_mem_nil, false_iff]
    omega
  all_goals cases op <;> decide

/-- The parse trees of a level. Level six is that of operands. -/
inductive ParseTree : ℕ → Type
  | number (v : ℤ) : ParseTree 6
  | parentheses (t : ParseTree 0) : ParseTree 6
  | signed (s : Sign) (t : ParseTree 6) : ParseTree 6
  | binary {n : ℕ} (op : Operator) (h : op ∈ Operator.levels.getD n []) (l : ParseTree n)
      (r : ParseTree (n + 1)) : ParseTree n
  | lower {n : ℕ} (hn : n < 6) (t : ParseTree (n + 1)) : ParseTree n

namespace ParseTree

/-- The tokens that a tree spells. -/
def lexemes {n : ℕ} : ParseTree n → List Lexeme
  | number v => [.integer v]
  | parentheses t => .mark .openParen :: (t.lexemes ++ [.mark .closeParen])
  | signed s t => .mark s.mark :: t.lexemes
  | binary op _ l r => l.lexemes ++ .mark op.mark :: r.lexemes
  | lower _ t => t.lexemes

/-- What a tree evaluates to. -/
inductive Evaluates : {n : ℕ} → ParseTree n → ℤ → Prop
  | number (v : ℤ) : Evaluates (.number v) v
  | parentheses {t : ParseTree 0} {v : ℤ} (h : Evaluates t v) : Evaluates (.parentheses t) v
  | signed {s : Sign} {t : ParseTree 6} {a v : ℤ} (ht : Evaluates t a) (h : s.Gives a v) :
      Evaluates (.signed s t) v
  | binary {n : ℕ} {op : Operator} {hop : op ∈ Operator.levels.getD n []} {l : ParseTree n}
      {r : ParseTree (n + 1)} {a b v : ℤ} (hl : Evaluates l a) (hr : Evaluates r b)
      (h : op.Gives a b v) : Evaluates (.binary op hop l r) v
  | lower {n : ℕ} {hn : n < 6} {t : ParseTree (n + 1)} {v : ℤ} (h : Evaluates t v) :
      Evaluates (.lower hn t) v

/-- The expression of a tree. -/
def expression {n : ℕ} : ParseTree n → Expression
  | number v => .number v
  | parentheses t => t.expression
  | signed s t => .signed s t.expression
  | binary op _ l r => .binary op l.expression r.expression
  | lower _ t => t.expression

/-- The tokens of a tree derive its expression. -/
theorem derives_expression (t : ParseTree n) : Derives n t.expression t.lexemes := by
  induction t with
  | number v => exact .number v
  | parentheses t ih => exact .parentheses ih
  | signed s t ih => exact .signed s ih
  | binary op h l r ihl ihr =>
    obtain rfl := Operator.mem_levels_iff.mp h
    exact .binary op ihl ihr
  | lower hn t ih => exact .lower hn ih

/-- Whatever is derived is spelled by a tree. -/
theorem exists_of_derives (h : Derives n e ls) :
    ∃ t : ParseTree n, t.lexemes = ls ∧ t.expression = e := by
  induction h with
  | number v => exact ⟨.number v, rfl, rfl⟩
  | parentheses _ ih =>
    obtain ⟨t, rfl, rfl⟩ := ih
    exact ⟨.parentheses t, rfl, rfl⟩
  | signed s _ ih =>
    obtain ⟨t, rfl, rfl⟩ := ih
    exact ⟨.signed s t, rfl, rfl⟩
  | binary op _ _ ihl ihr =>
    obtain ⟨l, rfl, rfl⟩ := ihl
    obtain ⟨r, rfl, rfl⟩ := ihr
    exact ⟨.binary op (Operator.mem_levels_iff.mpr rfl) l r, rfl, rfl⟩
  | lower hn _ ih =>
    obtain ⟨t, rfl, rfl⟩ := ih
    exact ⟨.lower hn t, rfl, rfl⟩

/-- A tree evaluates to the value of its expression. -/
theorem evaluates_iff {t : ParseTree n} : t.Evaluates v ↔ t.expression.value? = some v := by
  induction t generalizing v with
  | number w =>
    exact ⟨fun | .number _ => rfl, fun h => Option.some.inj h ▸ .number w⟩
  | parentheses t ih =>
    exact ⟨fun | .parentheses h => ih.mp h, fun h => .parentheses (ih.mpr h)⟩
  | signed s t ih =>
    simp only [expression, Expression.value?, Option.bind_eq_some_iff, ← ih,
      Sign.apply_eq_some_iff]
    exact ⟨fun | .signed ht h => ⟨_, ht, h⟩, fun ⟨_, ht, h⟩ => .signed ht h⟩
  | binary op hop l r ihl ihr =>
    simp only [expression, Expression.value?, Option.bind_eq_some_iff, ← ihl, ← ihr,
      Operator.apply_eq_some_iff]
    exact ⟨fun | .binary hl hr h => ⟨_, hl, _, hr, h⟩, fun ⟨_, hl, _, hr, h⟩ => .binary hl hr h⟩
  | lower hn t ih => exact ⟨fun | .lower h => ih.mp h, fun h => .lower (ih.mpr h)⟩

/-! ### Unambiguity -/

/-- The expression of a tree in which parentheses show as the signs `~` and `+`, and a complement
as two of its kind, so that neither is taken for the other. -/
def outline {n : ℕ} : ParseTree n → Expression
  | number v => .number v
  | parentheses t => .signed .complement (.signed .plus t.outline)
  | signed .plus t => .signed .plus t.outline
  | signed .minus t => .signed .minus t.outline
  | signed .complement t => .signed .complement (.signed .complement t.outline)
  | binary op _ l r => .binary op l.outline r.outline
  | lower _ t => t.outline

/-- The tokens that show in an outline where a token stands in a tree. -/
def outlined : Lexeme → List Lexeme
  | .mark .openParen => [.mark .tilde, .mark .plus, .mark .openParen]
  | .mark .tilde => [.mark .tilde, .mark .tilde]
  | t => [t]

/-- The outline of a tree is derived from its tokens with the signs put in. -/
theorem derives_outline (t : ParseTree n) : Derives n t.outline (t.lexemes.flatMap outlined) := by
  induction t with
  | number v => exact .number v
  | parentheses t ih =>
    have hlexemes : (parentheses t).lexemes.flatMap outlined = .mark .tilde :: .mark .plus ::
        .mark .openParen :: (t.lexemes.flatMap outlined ++ [.mark .closeParen]) := by
      simp [lexemes, outlined]
    rw [hlexemes]
    exact .signed .complement (.signed .plus (.parentheses ih))
  | signed s t ih =>
    cases s with
    | plus => exact .signed .plus ih
    | minus => exact .signed .minus ih
    | complement => exact .signed .complement (.signed .complement ih)
  | binary op h l r ihl ihr =>
    have hop : outlined (.mark op.mark) = [.mark op.mark] := by
      cases op <;> rfl
    obtain rfl := Operator.mem_levels_iff.mp h
    rw [lexemes, List.flatMap_append, List.flatMap_cons, hop]
    exact .binary op ihl ihr
  | lower hn t ih => exact .lower hn ih

/-- An operator at the root of an outline has at least the level of the tree. -/
theorem le_level_of_outline {t : ParseTree n} {l r : Expression} (h : t.outline = .binary op l r) :
    n ≤ op.level := by
  induction t with
  | number v => cases h
  | parentheses t _ => cases h
  | signed s t _ => cases s <;> cases h
  | binary op' hop l r _ _ =>
    cases h
    exact (Operator.mem_levels_iff.mp hop).ge
  | lower hn t ih => exact Nat.le_of_succ_le (ih h)

/-- An outline shows the whole tree. -/
theorem eq_of_outline_eq {t t' : ParseTree n} (h : t.outline = t'.outline) : t = t' := by
  -- Both trees have the same root: no operator of a level is the root of a tree of a higher one.
  induction t with
  | number v =>
    cases t' with
    | number w =>
      cases h
      rfl
    | parentheses t' => cases h
    | signed s t' => cases s <;> cases h
    | binary op hop l r => cases h
    | lower hn t' => exact absurd hn (Nat.lt_irrefl 6)
  | parentheses t ih =>
    cases t' with
    | number w => cases h
    | parentheses t' =>
      simp only [outline, Expression.signed.injEq, true_and] at h
      rw [ih h]
    | signed s t' => cases s <;> cases h
    | binary op hop l r => cases h
    | lower hn t' => exact absurd hn (Nat.lt_irrefl 6)
  | signed s t ih =>
    cases t' with
    | number w => cases s <;> cases h
    | parentheses t' => cases s <;> cases h
    | signed s' t' =>
      obtain ⟨rfl, hoperand⟩ : s = s' ∧ t.outline = t'.outline := by
        cases s <;> cases s' <;> simp [outline] at h <;> exact ⟨rfl, h⟩
      rw [ih hoperand]
    | binary op hop l r => cases s <;> cases h
    | lower hn t' => exact absurd hn (Nat.lt_irrefl 6)
  | binary op hop l r ihl ihr =>
    cases t' with
    | number w => cases h
    | parentheses t' => cases h
    | signed s t' => cases s <;> cases h
    | binary op' hop' l' r' =>
      simp only [outline, Expression.binary.injEq] at h
      obtain ⟨rfl, hl, hr⟩ := h
      rw [ihl hl, ihr hr]
    | lower hn t' =>
      have hle := le_level_of_outline (t := t') h.symm
      rw [Operator.mem_levels_iff.mp hop] at hle
      exact absurd hle (Nat.not_succ_le_self _)
  | lower hn t ih =>
    cases t' with
    | number w => exact absurd hn (Nat.lt_irrefl 6)
    | parentheses t' => exact absurd hn (Nat.lt_irrefl 6)
    | signed s t' => exact absurd hn (Nat.lt_irrefl 6)
    | binary op hop l r =>
      have hle := le_level_of_outline (t := t) h
      rw [Operator.mem_levels_iff.mp hop] at hle
      exact absurd hle (Nat.not_succ_le_self _)
    | lower hn' t' => rw [ih h]

/-- **The grammar is unambiguous.** -/
theorem eq_of_lexemes_eq {t t' : ParseTree 0} (h : t.lexemes = t'.lexemes) : t = t' := by
  have ht := parse?_eq_some_iff.mpr t.derives_outline
  rw [h, parse?_eq_some_iff.mpr t'.derives_outline] at ht
  exact (eq_of_outline_eq (Option.some.inj ht)).symm

end ParseTree

/-! ### Values of tokens -/

/-- **Constant expressions are those of C.** No list of tokens is spelled by more parse trees than
one, and it has the value to which its tree evaluates. A list that no tree spells has none, nor has
one whose tree does not evaluate to anything. -/
theorem constant?_iff_evaluates (ts : List Lexeme) :
    (∀ t t' : ParseTree 0, t.lexemes = ts → t'.lexemes = ts → t = t') ∧
    (∀ v, constant? ts = some v ↔ ∃ t : ParseTree 0, t.lexemes = ts ∧ t.Evaluates v) ∧
    (constant? ts = none ↔ ∀ t : ParseTree 0, t.lexemes = ts → ∀ v, ¬ t.Evaluates v) := by
  have hvalue : ∀ v, constant? ts = some v ↔ ∃ t : ParseTree 0, t.lexemes = ts ∧ t.Evaluates v := by
    intro v
    simp only [constant?_eq_some_iff, ParseTree.evaluates_iff]
    constructor
    · rintro ⟨e, he, hv⟩
      obtain ⟨t, hts, rfl⟩ := ParseTree.exists_of_derives he
      exact ⟨t, hts, hv⟩
    · rintro ⟨t, rfl, hv⟩
      exact ⟨t.expression, t.derives_expression, hv⟩
  refine ⟨fun t t' ht ht' => ParseTree.eq_of_lexemes_eq (ht.trans ht'.symm), hvalue, ?_⟩
  simp only [Option.eq_none_iff_forall_ne_some, ne_eq, hvalue]
  exact ⟨fun h t ht v hv => h v ⟨t, ht, hv⟩, fun h v ⟨t, ht, hv⟩ => h t ht v hv⟩

end Enumerant.Header
