import Mathlib.Data.Nat.Basic
import Enumerant.Header.Expression

/-!
# The grammar of constant expressions

`Derives` is the grammar of C in its layers: an expression of a level has operators of at least that
level outside parentheses, and what stands to the right of an operator binds tighter than what
stands to the left. Reading by climbing precedence finds just the expressions of the grammar
(`parse?_eq_some_iff`). Soundness follows the fuel of the reader, completeness the derivation; both
turn on the operator that comes next, which stops an expression if it binds less tightly (`Stops`).
-/

namespace Enumerant.Header

variable {n m lowest fuel : Nat} {e left : Expression} {ls ts pre rest : List Lexeme}

/-! ### The grammar -/

/-- The derivations of an expression of a level. Level six is that of operands, which have no
operator outside parentheses. -/
inductive Derives : Nat → Expression → List Lexeme → Prop
  | number (v : Int) : Derives 6 (.number v) [.integer v]
  | parentheses {e : Expression} {ls : List Lexeme} (h : Derives 0 e ls) :
      Derives 6 e (.mark .openParen :: (ls ++ [.mark .closeParen]))
  | signed (s : Sign) {e : Expression} {ls : List Lexeme} (h : Derives 6 e ls) :
      Derives 6 (.signed s e) (.mark s.mark :: ls)
  | binary (op : Operator) {l r : Expression} {ls rs : List Lexeme} (hl : Derives op.level l ls)
      (hr : Derives (op.level + 1) r rs) :
      Derives op.level (.binary op l r) (ls ++ .mark op.mark :: rs)
  | lower {n : Nat} {e : Expression} {ls : List Lexeme} (hn : n < 6) (h : Derives (n + 1) e ls) :
      Derives n e ls

/-- What is derived at a level is derived at every lower one. -/
theorem Derives.of_le (h : Derives m e ls) (hm : m ≤ 6) (hn : n ≤ m) : Derives n e ls := by
  induction m with
  | zero =>
    obtain rfl := Nat.le_zero.mp hn
    exact h
  | succ m ih =>
    rcases Nat.lt_or_eq_of_le hn with hlt | rfl
    · exact ih (.lower hm h) (Nat.le_of_succ_le hm) (Nat.le_of_lt_succ hlt)
    · exact h

/-- Expressions are spelled with numbers and punctuation alone. -/
theorem Derives.exists_of_mem {l : Lexeme} (h : Derives n e ls) (hl : l ∈ ls) :
    (∃ v, l = .integer v) ∨ ∃ p, l = .mark p := by
  induction h with
  | number v => exact .inl ⟨v, List.mem_singleton.mp hl⟩
  | parentheses _ ih =>
    rcases List.mem_cons.mp hl with rfl | hl
    · exact .inr ⟨_, rfl⟩
    · rcases List.mem_append.mp hl with hl | hl
      · exact ih hl
      · exact .inr ⟨_, List.mem_singleton.mp hl⟩
  | signed s _ ih =>
    rcases List.mem_cons.mp hl with rfl | hl
    · exact .inr ⟨_, rfl⟩
    · exact ih hl
  | binary op _ _ ihl ihr =>
    rcases List.mem_append.mp hl with hl | hl
    · exact ihl hl
    · rcases List.mem_cons.mp hl with rfl | hl
      · exact .inr ⟨_, rfl⟩
      · exact ihr hl
  | lower _ _ ih => exact ih hl

/-! ### Marks -/

theorem Operator.level_le (op : Operator) : op.level ≤ 5 := by
  cases op <;> decide

theorem Operator.ofLexeme?_mark (op : Operator) : ofLexeme? (.mark op.mark) = some op := by
  cases op <;> rfl

/-- Only its own mark is read as an operator. -/
theorem Operator.eq_mark_of_ofLexeme? {t : Lexeme} {op : Operator} (h : ofLexeme? t = some op) :
    t = .mark op.mark := by
  unfold ofLexeme? at h
  split at h <;> simp at h <;> subst h <;> rfl

theorem Sign.ofLexeme?_mark (s : Sign) : ofLexeme? (.mark s.mark) = some s := by
  cases s <;> rfl

/-- Only its own mark is read as a sign. -/
theorem Sign.eq_mark_of_ofLexeme? {t : Lexeme} {s : Sign} (h : ofLexeme? t = some s) :
    t = .mark s.mark := by
  unfold ofLexeme? at h
  split at h <;> simp at h <;> subst h <;> rfl

/-- No operator of a level or a higher one comes next. -/
def Stops (n : Nat) (ts : List Lexeme) : Prop :=
  ∀ t ∈ ts.head?, ∀ op, Operator.ofLexeme? t = some op → op.level < n

theorem stops_nil (n : Nat) : Stops n [] :=
  fun _ ht => absurd ht (Option.not_mem_none _)

/-- What stops a level stops all higher ones. -/
theorem Stops.mono (h : Stops n ts) (hn : n ≤ m) : Stops m ts :=
  fun t ht op hop => Nat.lt_of_lt_of_le (h t ht op hop) hn

/-! ### Soundness -/

/-- Operands that are read are derived. -/
def OperandSound (fuel : Nat) : Prop :=
  ∀ {ts e rest}, operand fuel ts = some (e, rest) → ∃ ls, ts = ls ++ rest ∧ Derives 6 e ls

/-- Expressions that are read are derived, and what is left does not go on with them. -/
def ClimbSound (fuel : Nat) : Prop :=
  ∀ {lowest ts e rest}, lowest ≤ 6 → climb fuel lowest ts = some (e, rest) →
    ∃ ls, ts = ls ++ rest ∧ Derives lowest e ls ∧ Stops lowest rest

/-- An expression that goes on behind a left operand is derived if the operand is, and if the next
operator does not bind tighter than those in the operand. -/
def ContinuedSound (fuel : Nat) : Prop :=
  ∀ {lowest m left pre ts e rest}, lowest ≤ m → m ≤ 6 → Derives m left pre → Stops (m + 1) ts →
    continued fuel lowest left ts = some (e, rest) →
    ∃ ls, ts = ls ++ rest ∧ Derives lowest e (pre ++ ls) ∧ Stops lowest rest

/-- An operand that is read is derived, if what is read with less fuel is. -/
theorem operandSound_succ (ho : OperandSound fuel) (hc : ClimbSound fuel) :
    OperandSound (fuel + 1) := by
  intro ts e rest h
  unfold operand at h
  split at h
  case h_1 => cases h
  case h_2 => cases h
  case h_3 v ts heq =>
    cases h
    exact ⟨[.integer v], rfl, .number v⟩
  case h_4 ts heq =>
    split at h
    case h_1 hclimb =>
      cases h
      cases heq
      obtain ⟨ls, rfl, hd, -⟩ := hc (Nat.zero_le 6) hclimb
      exact ⟨_, by simp, .parentheses hd⟩
    case h_2 => cases h
  -- What is neither a number nor a parenthesis must be a sign in front of an operand.
  case h_5 t ts hint hparen heq =>
    cases heq
    split at h
    case h_1 s hs =>
      obtain ⟨⟨e', rest'⟩, hop, heq⟩ := Option.map_eq_some_iff.mp h
      cases heq
      obtain ⟨ls, rfl, hd⟩ := ho hop
      rw [Sign.eq_mark_of_ofLexeme? hs]
      exact ⟨_, rfl, .signed s hd⟩
    case h_2 => cases h

/-- So is what is read from a level on. -/
theorem climbSound_succ (ho : OperandSound fuel) (hn : ContinuedSound fuel) :
    ClimbSound (fuel + 1) := by
  intro lowest ts e rest hl h
  unfold climb at h
  split at h
  case h_1 hop =>
    obtain ⟨pre, rfl, hpre⟩ := ho hop
    obtain ⟨ls, rfl, hd, hs⟩ := hn hl (Nat.le_refl 6) hpre
      (fun _ _ op _ => Nat.lt_of_le_of_lt op.level_le (by decide)) h
    exact ⟨pre ++ ls, (List.append_assoc _ _ _).symm, hd, hs⟩
  case h_2 => cases h

/-- So is what goes on behind an operand. -/
theorem continuedSound_succ (hc : ClimbSound fuel) (hn : ContinuedSound fuel) :
    ContinuedSound (fuel + 1) := by
  intro lowest m left pre ts e rest hl hm hleft hstop h
  -- Where the reader stops, the left operand is all that there is.
  have hdone : Derives lowest left (pre ++ []) := by
    rw [List.append_nil]
    exact hleft.of_le hm hl
  unfold continued at h
  split at h
  case h_1 => cases h
  case h_2 =>
    cases h
    exact ⟨[], rfl, hdone, stops_nil _⟩
  case h_3 t ts hfuel =>
    cases hfuel
    split at h
    case h_1 op hop =>
      split at h
      case isTrue hle =>
        split at h
        case h_1 right rest' hclimb =>
          -- The operator binds no tighter than those in the left operand, so that is one for it.
          have hlevel : op.level ≤ m := Nat.le_of_lt_succ (hstop t rfl op hop)
          obtain ⟨rs, rfl, hr, hs⟩ := hc (Nat.succ_le_succ op.level_le) hclimb
          obtain ⟨ls, rfl, hd, hs⟩ := hn hle (Nat.le_succ_of_le op.level_le)
            (.binary op (hleft.of_le hm hlevel) hr) hs h
          rw [Operator.eq_mark_of_ofLexeme? hop]
          exact ⟨.mark op.mark :: (rs ++ ls), by simp, by simpa using hd, hs⟩
        case h_2 => cases h
      case isFalse hlt =>
        cases h
        refine ⟨[], rfl, hdone, fun u hu op' hop' => ?_⟩
        cases hu
        rw [hop] at hop'
        cases hop'
        exact Nat.lt_of_not_le hlt
    case h_2 hnone =>
      cases h
      refine ⟨[], rfl, hdone, fun u hu op' hop' => ?_⟩
      cases hu
      rw [hnone] at hop'
      cases hop'

/-- What is read is derived, whatever the fuel. -/
theorem sound (fuel : Nat) : OperandSound fuel ∧ ClimbSound fuel ∧ ContinuedSound fuel := by
  induction fuel with
  | zero =>
    refine ⟨fun h => ?_, fun _ h => ?_, fun _ _ _ _ h => ?_⟩
    · simp [operand] at h
    · simp [climb] at h
    · simp [continued] at h
  | succ fuel ih =>
    obtain ⟨ho, hc, hn⟩ := ih
    exact ⟨operandSound_succ ho hc, climbSound_succ ho hn, continuedSound_succ hc hn⟩

/-! ### Completeness -/

/-- An expression is read to its end where it stops. -/
theorem continued_of_stops (hfuel : 0 < fuel) (hs : Stops lowest rest) (e : Expression) :
    continued fuel lowest e rest = some (e, rest) := by
  obtain ⟨fuel, rfl⟩ := Nat.exists_eq_succ_of_ne_zero (Nat.ne_of_gt hfuel)
  cases rest with
  | nil => rfl
  | cons t rest =>
    rw [continued]
    split
    case h_1 op hop => rw [if_neg (Nat.not_le_of_lt (hs t rfl op hop))]
    case h_2 => rfl

/-- A reader of operands gets through the tokens of an expression, whatever follows. It spends fuel
on a token and on each change to another reader, hence twice the tokens. -/
def OperandReads (e : Expression) (ls : List Lexeme) : Prop :=
  ∀ fuel rest, 2 * (ls ++ rest).length + 1 ≤ fuel → operand fuel (ls ++ rest) = some (e, rest)

/-- A reader of expressions gets through the tokens of an expression of a level, and goes on behind
it, where no operator of a higher level follows. -/
def ClimbReads (n : Nat) (e : Expression) (ls : List Lexeme) : Prop :=
  ∀ fuel lowest rest, lowest ≤ n → 2 * (ls ++ rest).length + 2 ≤ fuel → Stops (n + 1) rest →
    ∃ fuel', 2 * rest.length + 1 ≤ fuel' ∧
      climb fuel lowest (ls ++ rest) = continued fuel' lowest e rest

/-- Where an operand was read, an expression goes on behind it. -/
theorem OperandReads.climbReads (h : OperandReads e ls) (n : Nat) : ClimbReads n e ls := by
  intro fuel lowest rest _ hfuel _
  obtain ⟨fuel, rfl⟩ := Nat.exists_eq_add_of_le' (Nat.le_trans (Nat.le_add_left 1 _) hfuel)
  have hlength : rest.length ≤ (ls ++ rest).length := by simp
  exact ⟨fuel, by omega, by rw [climb, h fuel rest (by omega)]⟩

/-- An expression is read to its end where no operator of its level follows. -/
theorem ClimbReads.climb_eq (h : ClimbReads n e ls) (hs : Stops n rest)
    (hfuel : 2 * (ls ++ rest).length + 2 ≤ fuel) : climb fuel n (ls ++ rest) = some (e, rest) := by
  obtain ⟨fuel', hfuel', hclimb⟩ := h fuel n rest (Nat.le_refl n) hfuel (hs.mono (Nat.le_succ n))
  rw [hclimb, continued_of_stops (by omega) hs]

theorem operandReads_number (v : Int) : OperandReads (.number v) [.integer v] := by
  intro fuel rest hfuel
  obtain ⟨fuel, rfl⟩ := Nat.exists_eq_add_of_le' (Nat.le_trans (Nat.le_add_left 1 _) hfuel)
  rfl

/-- A closing parenthesis is no operator, so the expression in front of it stops there. -/
theorem stops_closeParen (n : Nat) (ts : List Lexeme) : Stops n (.mark .closeParen :: ts) := by
  rintro t ⟨⟩ op hop
  cases hop

/-- An expression in parentheses is read as an operand. -/
theorem ClimbReads.operandReads (h : ClimbReads 0 e ls) :
    OperandReads e (.mark .openParen :: (ls ++ [.mark .closeParen])) := by
  intro fuel rest hfuel
  obtain ⟨fuel, rfl⟩ := Nat.exists_eq_add_of_le' (Nat.le_trans (Nat.le_add_left 1 _) hfuel)
  have hclimb : climb fuel 0 (ls ++ .mark .closeParen :: rest) =
      some (e, .mark .closeParen :: rest) :=
    h.climb_eq (stops_closeParen 0 rest) (by simp at hfuel ⊢; omega)
  simp only [List.cons_append, List.append_assoc, List.nil_append]
  rw [operand, hclimb]

/-- A sign in front of an operand is read with it. -/
theorem OperandReads.signed (s : Sign) (h : OperandReads e ls) :
    OperandReads (.signed s e) (.mark s.mark :: ls) := by
  intro fuel rest hfuel
  obtain ⟨fuel, rfl⟩ := Nat.exists_eq_add_of_le' (Nat.le_trans (Nat.le_add_left 1 _) hfuel)
  have hoperand := h fuel rest (by simp at hfuel ⊢; omega)
  cases s <;> simp [operand, Sign.mark, Sign.ofLexeme?, hoperand]

/-- An operator does not bind tighter than its level. -/
theorem stops_mark (op : Operator) (ts : List Lexeme) :
    Stops (op.level + 1) (.mark op.mark :: ts) := by
  rintro t ⟨⟩ op' hop'
  rw [Operator.ofLexeme?_mark] at hop'
  cases hop'
  exact Nat.lt_succ_self _

/-- An operator is read with what stands on both of its sides. -/
theorem ClimbReads.binary {op : Operator} {l r : Expression} {rs : List Lexeme}
    (hl : ClimbReads op.level l ls) (hr : ClimbReads (op.level + 1) r rs) :
    ClimbReads op.level (.binary op l r) (ls ++ .mark op.mark :: rs) := by
  intro fuel lowest rest hlow hfuel hs
  -- The left operand is read up to the operator.
  obtain ⟨fuel₁, hfuel₁, hleft⟩ := hl fuel lowest (.mark op.mark :: (rs ++ rest)) hlow
    (by simpa using hfuel) (stops_mark op _)
  obtain ⟨fuel₁, rfl⟩ := Nat.exists_eq_add_of_le' (Nat.le_trans (Nat.le_add_left 1 _) hfuel₁)
  rw [List.length_cons] at hfuel₁
  -- The right operand has to bind tighter, and what stops the whole expression stops it.
  have hright : climb fuel₁ (op.level + 1) (rs ++ rest) = some (r, rest) :=
    hr.climb_eq hs (by omega)
  have hlength : rest.length ≤ (rs ++ rest).length := by simp
  refine ⟨fuel₁, by omega, ?_⟩
  rw [List.append_assoc, List.cons_append, hleft, continued, Operator.ofLexeme?_mark]
  simp only [hlow, if_true, hright]

/-- What is read at a level is read at the one below. -/
theorem ClimbReads.lower (h : ClimbReads (n + 1) e ls) : ClimbReads n e ls :=
  fun fuel lowest rest hlow hfuel hs =>
    h fuel lowest rest (Nat.le_succ_of_le hlow) hfuel (hs.mono (Nat.le_succ _))

/-- A derivation leads the readers through what it spells. -/
theorem Derives.reads (h : Derives n e ls) : (n = 6 → OperandReads e ls) ∧ ClimbReads n e ls := by
  induction h with
  | number v =>
    have hoperand := operandReads_number v
    exact ⟨fun _ => hoperand, hoperand.climbReads 6⟩
  | parentheses _ ih =>
    have hoperand := ih.2.operandReads
    exact ⟨fun _ => hoperand, hoperand.climbReads 6⟩
  | signed s _ ih =>
    have hoperand := (ih.1 rfl).signed s
    exact ⟨fun _ => hoperand, hoperand.climbReads 6⟩
  | binary op _ _ ihl ihr =>
    exact ⟨fun h => absurd h (Nat.ne_of_lt (Nat.lt_succ_of_le op.level_le)), ihl.2.binary ihr.2⟩
  | lower hn _ ih => exact ⟨fun h => absurd h (Nat.ne_of_lt hn), ih.2.lower⟩

/-- **Reading by precedence is the grammar.** -/
theorem parse?_eq_some_iff : Expression.parse? ls = some e ↔ Derives 0 e ls := by
  constructor
  · intro h
    unfold Expression.parse? at h
    split at h
    case h_1 hclimb =>
      cases h
      obtain ⟨ls', hls, hd, -⟩ := (sound _).2.1 (Nat.zero_le 6) hclimb
      rw [List.append_nil] at hls
      exact hls ▸ hd
    case h_2 => cases h
  · intro h
    have hclimb : climb (2 * ls.length + 2) 0 (ls ++ []) = some (e, []) :=
      h.reads.2.climb_eq (stops_nil 0) (by simp)
    rw [List.append_nil] at hclimb
    rw [Expression.parse?, hclimb]

end Enumerant.Header
