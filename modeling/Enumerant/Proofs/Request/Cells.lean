import Mathlib.Data.List.Forall2
import Mathlib.Data.Nat.Basic
import Enumerant.Proofs.Text.Code
import Enumerant.Request.Line

/-!
# What the cells of a line ask for

A request is read from at most three words. Which request they ask for is `Reads`; what can be wrong
with them is `Fails`, and if several things are, the first in the order of `Cause.rank` is reported
(`FailsFirst`). Words ask for no more than one request, there is no more than one thing that is
wrong first, and the two exclude one another. So an outcome that is right (`IsOutcome`) is the only
one, and it is the one that `ofFields` comes to (`ofFields_eq_iff`).
-/

namespace Enumerant.Request

open Text

variable {word small : List Char} {fs : List (List Char)} {b : Bool} {style : Style}
  {r r' : Request} {cause cause' : Cause}

/-! ### Words in either case -/

/-- A word is another one, whose letters are small, up to the case of its letters. -/
def InEitherCase (word small : List Char) : Prop :=
  List.Forall₂ (fun c d => c = d ∨ c = d.toUpper) word small

/-- The words for an answer. -/
def answers : Bool → List String
  | true => ["yes", "true", "t", "1"]
  | false => ["", "no", "false", "f", "0"]

/-- A word is one of those for an answer. -/
def Answers (word : List Char) (b : Bool) : Prop :=
  ∃ small ∈ answers b, InEitherCase word small.toList

/-- The words that name a style. -/
inductive Names : List Char → Style → Prop
  | omitted : Names [] .enumClass
  | small : Names ['c'] .plainEnum
  | capital : Names ['C'] .plainEnum

/-- A word is lowered to small letters if it is these in either case. -/
theorem lowered_eq_iff (h : ∀ d ∈ small, d.isUpper = false) :
    lowered word = small ↔ InEitherCase word small := by
  rw [lowered, ← List.forall₂_eq_eq_eq, List.forall₂_map_left_iff, InEitherCase]
  induction word generalizing small with
  | nil => simp
  | cons c word ih =>
    cases small with
    | nil => simp
    | cons d small =>
      obtain ⟨hd, hsmall⟩ := List.forall_mem_cons.mp h
      rw [List.forall₂_cons, List.forall₂_cons, ih hsmall, toLower_eq_iff hd]

/-- An answer is given in either case. -/
theorem lowered_mem_answers_iff :
    lowered word ∈ (answers b).map String.toList ↔ Answers word b := by
  have hsmall : ∀ b, ∀ s ∈ answers b, ∀ d ∈ s.toList, d.isUpper = false := by
    intro b
    cases b <;> simp [answers]
  rw [List.mem_map, Answers]
  refine exists_congr fun s => and_congr_right fun hs => ?_
  rw [eq_comm, lowered_eq_iff (hsmall b s hs)]

/-- A flag is one of the answers. -/
theorem flag?_eq_some_iff : flag? word = some b ↔ Answers word b := by
  have hdisjoint : ∀ w ∈ (answers false).map String.toList,
      w ∉ (answers true).map String.toList := by decide
  have hflag : flag? word = if lowered word ∈ (answers true).map String.toList then some true
      else if lowered word ∈ (answers false).map String.toList then some false else none := rfl
  rw [hflag, ← lowered_mem_answers_iff]
  cases b with
  | true => simp
  | false =>
    constructor
    · intro h
      by_contra hnot
      simp [hnot] at h
    · intro h
      rw [if_neg (hdisjoint _ h), if_pos h]

/-- A style is one of its names. -/
theorem style?_eq_some_iff : style? word = some style ↔ Names word style := by
  have hc : lowered word = ['c'] ↔ word = ['c'] ∨ word = ['C'] := by
    rw [lowered_eq_iff (List.forall_mem_singleton.mpr rfl), InEitherCase,
      List.forall₂_cons_right_iff]
    simp
  rw [style?]
  constructor
  · intro h
    split at h
    case isTrue hword =>
      cases h
      exact hword ▸ .omitted
    case isFalse =>
      split at h
      case isTrue hword =>
        cases h
        rcases hc.mp hword with rfl | rfl
        · exact .small
        · exact .capital
      case isFalse => cases h
  · rintro (_ | _ | _) <;> rfl

/-- Names of groups are letters, digits and underscores. -/
theorem isGroupName_iff : isGroupName word ↔ ∀ c ∈ word, c.isAlphanum ∨ c = '_' := by
  simp [isGroupName]

/-! ### What cells ask for -/

/-- Cells ask for a request; cells left out are empty. -/
structure Reads (fs : List (List Char)) (r : Request) : Prop where
  length_le : fs.length ≤ 3
  group : fs.getD 0 [] = r.group.toList
  group_ne : r.group ≠ ""
  isWordChar : ∀ c ∈ r.group.toList, c.isAlphanum ∨ c = '_'
  table : Answers (fs.getD 1 []) r.table
  style : Names (fs.getD 2 []) r.style
  storage : r.storage = none

/-- What is wrong with cells. -/
inductive Fails (fs : List (List Char)) : Cause → Prop
  | tooManyFields (h : 3 < fs.length) : Fails fs (.tooManyFields fs.length)
  | missingGroup (h : fs.getD 0 [] = []) : Fails fs .missingGroup
  | invalidGroup (h : ¬ ∀ c ∈ fs.getD 0 [], c.isAlphanum ∨ c = '_') :
      Fails fs (.invalidGroup (String.ofList (fs.getD 0 [])))
  | invalidFlag (h : ∀ b, ¬ Answers (fs.getD 1 []) b) :
      Fails fs (.invalidFlag (String.ofList (fs.getD 1 [])))
  | invalidStyle (h : ∀ style, ¬ Names (fs.getD 2 []) style) :
      Fails fs (.invalidStyle (String.ofList (fs.getD 2 [])))

/-- The order in which cells are checked. -/
def Cause.rank : Cause → ℕ
  | .tooManyFields _ => 0
  | .missingGroup => 1
  | .invalidGroup _ => 2
  | .invalidFlag _ => 3
  | .invalidStyle _ => 4

/-- What is wrong with cells before anything else is. -/
structure FailsFirst (fs : List (List Char)) (cause : Cause) : Prop where
  fails : Fails fs cause
  rank_le : ∀ cause', Fails fs cause' → cause.rank ≤ cause'.rank

/-- What is read does not fail. -/
theorem Reads.not_fails (h : Reads fs r) : ¬ Fails fs cause := by
  intro hfails
  cases hfails with
  | tooManyFields hlength => exact absurd hlength h.length_le.not_gt
  | missingGroup hgroup => exact h.group_ne (String.toList_inj.mp (h.group.symm.trans hgroup))
  | invalidGroup hgroup => exact hgroup (h.group ▸ h.isWordChar)
  | invalidFlag hflag => exact hflag _ h.table
  | invalidStyle hstyle => exact hstyle _ h.style

theorem Reads.eq (h : Reads fs r) (h' : Reads fs r') : r = r' := by
  have hgroup := String.toList_inj.mp (h.group.symm.trans h'.group)
  have htable := (flag?_eq_some_iff.mpr h.table).symm.trans (flag?_eq_some_iff.mpr h'.table)
  have hstyle := (style?_eq_some_iff.mpr h.style).symm.trans (style?_eq_some_iff.mpr h'.style)
  have hstorage := h.storage.trans h'.storage.symm
  cases r
  cases r'
  rw [Request.mk.injEq]
  exact ⟨hgroup, Option.some.inj htable, Option.some.inj hstyle, hstorage⟩

/-- One check is the first to fail. -/
theorem FailsFirst.eq (h : FailsFirst fs cause) (h' : FailsFirst fs cause') : cause = cause' := by
  have hrank := Nat.le_antisymm (h.rank_le _ h'.fails) (h'.rank_le _ h.fails)
  obtain ⟨hfails, -⟩ := h
  obtain ⟨hfails', -⟩ := h'
  cases hfails <;> cases hfails' <;> first | rfl | simp [Cause.rank] at hrank

/-- What comes of cells: the request they ask for, or what is wrong with them first. -/
def IsOutcome (fs : List (List Char)) : Except Cause Request → Prop
  | .ok r => Reads fs r
  | .error cause => FailsFirst fs cause

/-- A line has one outcome. -/
theorem IsOutcome.eq {outcome outcome' : Except Cause Request} (h : IsOutcome fs outcome)
    (h' : IsOutcome fs outcome') : outcome = outcome' := by
  cases outcome with
  | ok r =>
    cases outcome' with
    | ok r' => exact congrArg Except.ok (Reads.eq h h')
    | error cause => exact absurd h'.fails (Reads.not_fails h)
  | error cause =>
    cases outcome' with
    | ok r' => exact absurd h.fails (Reads.not_fails h')
    | error cause' => exact congrArg Except.error (FailsFirst.eq h h')

/-- Cells pass the check of a rank. -/
def Passes (fs : List (List Char)) : ℕ → Prop
  | 0 => fs.length ≤ 3
  | 1 => fs.getD 0 [] ≠ []
  | 2 => ∀ c ∈ fs.getD 0 [], c.isAlphanum ∨ c = '_'
  | 3 => ∃ b, Answers (fs.getD 1 []) b
  | _ => ∃ style, Names (fs.getD 2 []) style

theorem Fails.not_passes (h : Fails fs cause) : ¬ Passes fs cause.rank := by
  cases h with
  | tooManyFields h => exact Nat.not_le_of_lt h
  | missingGroup h => exact not_not_intro h
  | invalidGroup h => exact h
  | invalidFlag h => exact not_exists.mpr h
  | invalidStyle h => exact not_exists.mpr h

/-- What is wrong with cells that pass all the checks in front is wrong first. -/
theorem Fails.first (h : Fails fs cause) (hpasses : ∀ k < cause.rank, Passes fs k) :
    FailsFirst fs cause where
  fails := h
  rank_le cause' h' := by
    by_contra hlt
    exact h'.not_passes (hpasses _ (Nat.lt_of_not_le hlt))

/-- The checks are made in the order of their ranks. -/
theorem isOutcome_ofFields (fs : List (List Char)) : IsOutcome fs (ofFields fs) := by
  rw [ofFields, List.headD_eq_getD]
  -- Each check that passes is put on record for those behind it (`hpasses`).
  by_cases hlength : fs.length > 3
  · rw [if_pos hlength]
    exact Fails.first (.tooManyFields hlength) fun k hk => absurd hk (Nat.not_lt_zero k)
  rw [if_neg hlength]
  have hpasses : ∀ k < 1, Passes fs k :=
    Nat.forall_lt_succ_right.mpr ⟨by simp, Nat.le_of_not_gt hlength⟩
  by_cases hgroup : fs.getD 0 [] = []
  · rw [if_pos hgroup]
    exact Fails.first (.missingGroup hgroup) hpasses
  rw [if_neg hgroup]
  have hpasses : ∀ k < 2, Passes fs k := Nat.forall_lt_succ_right.mpr ⟨hpasses, hgroup⟩
  by_cases hname : isGroupName (fs.getD 0 [])
  case neg =>
    rw [if_pos (by simpa using hname)]
    exact Fails.first (.invalidGroup (mt isGroupName_iff.mpr hname)) hpasses
  rw [if_neg (by simpa using hname)]
  have hword := isGroupName_iff.mp hname
  have hpasses : ∀ k < 3, Passes fs k := Nat.forall_lt_succ_right.mpr ⟨hpasses, hword⟩
  cases hflag : flag? (fs.getD 1 []) with
  | none =>
    have hnone : ∀ b, ¬ Answers (fs.getD 1 []) b := fun b => by
      rw [← flag?_eq_some_iff, hflag]
      exact (Option.some_ne_none b).symm
    exact Fails.first (.invalidFlag hnone) hpasses
  | some table =>
    have htable := flag?_eq_some_iff.mp hflag
    have hpasses : ∀ k < 4, Passes fs k := Nat.forall_lt_succ_right.mpr ⟨hpasses, table, htable⟩
    cases hstyle : style? (fs.getD 2 []) with
    | none =>
      have hnone : ∀ style, ¬ Names (fs.getD 2 []) style := fun style => by
        rw [← style?_eq_some_iff, hstyle]
        exact (Option.some_ne_none style).symm
      exact Fails.first (.invalidStyle hnone) hpasses
    | some style =>
      have hne : String.ofList (fs.getD 0 []) ≠ "" := by simpa using hgroup
      exact ⟨Nat.le_of_not_gt hlength, String.toList_ofList.symm, hne,
        by rwa [String.toList_ofList], htable, style?_eq_some_iff.mp hstyle, rfl⟩

/-- The outcome is that of the checks in their order. -/
theorem ofFields_eq_iff {outcome : Except Cause Request} :
    ofFields fs = outcome ↔ IsOutcome fs outcome :=
  ⟨fun h => h ▸ isOutcome_ofFields fs, fun h => (isOutcome_ofFields fs).eq h⟩

end Enumerant.Request
