import Mathlib.Data.List.Monad
import Enumerant.Naming.Words
import Enumerant.Proofs.Text.Code

/-!
# Signs between numbers

The sign of a dimension is lowered where it is reached with a number in front that is not the second
factor of a dimension already. So a sign between two numbers stays as it is exactly if the number in
front of it has a lowered sign in front itself, which is the case for every other sign of a chain:
there is one left in a camel-case name exactly if a number in it lies between two signs
(`hasSign_camel_iff`).
-/

namespace Enumerant.Naming

open Text

variable {c : Char} {cs : List Char} {before : Factor}

/-! ### Signs and chains of them -/

/-- Whether a capital sign stands between two digits. -/
def HasSign (cs : List Char) : Prop :=
  ∃ a b, a.isDigit ∧ b.isDigit ∧ [a, 'X', b] <:+: cs

/-- Whether a number stands between two signs, each with a number on its other side. -/
def HasChain (cs : List Char) : Prop :=
  ∃ a ds b, a.isDigit ∧ ds ≠ [] ∧ (∀ d ∈ ds, d.isDigit) ∧ b.isDigit ∧
    a :: 'X' :: (ds ++ ['X', b]) <:+: cs

/-- Whether a text begins with a sign in front of a digit. -/
def SignAhead (cs : List Char) : Prop :=
  ∃ b, b.isDigit ∧ ['X', b] <+: cs

/-- Whether a text begins with what may be left of a number and with a sign behind it. -/
def FactorAhead (cs : List Char) : Prop :=
  ∃ ds b, (∀ d ∈ ds, d.isDigit) ∧ b.isDigit ∧ ds ++ ['X', b] <+: cs

/-- Whether a text begins with the signs of a chain. -/
def ChainAhead (cs : List Char) : Prop :=
  ∃ ds b, ds ≠ [] ∧ (∀ d ∈ ds, d.isDigit) ∧ b.isDigit ∧ 'X' :: (ds ++ ['X', b]) <+: cs

theorem ne_sign_of_isDigit (hc : c.isDigit) : c ≠ 'X' := by
  rintro rfl
  exact absurd hc (by decide)

theorem signAhead_cons_iff : SignAhead (c :: cs) ↔ c = 'X' ∧ cs.head?.any Char.isDigit := by
  constructor
  · rintro ⟨b, hb, rest, heq⟩
    obtain ⟨rfl, rfl⟩ := List.cons.inj heq
    exact ⟨rfl, hb⟩
  · rintro ⟨rfl, hhead⟩
    obtain ⟨b, hb, hdigit⟩ := Option.any_eq_true _ _ |>.mp hhead
    obtain ⟨rest, rfl⟩ := List.head?_eq_some_iff.mp hb
    exact ⟨b, hdigit, rest, rfl⟩

theorem not_signAhead_of_isDigit (hc : c.isDigit) (cs : List Char) : ¬ SignAhead (c :: cs) :=
  fun h => ne_sign_of_isDigit hc (signAhead_cons_iff.mp h).1

/-- A number goes on, or its sign follows. -/
theorem factorAhead_cons_iff :
    FactorAhead (c :: cs) ↔ c.isDigit ∧ FactorAhead cs ∨ SignAhead (c :: cs) := by
  constructor
  · rintro ⟨ds, b, hds, hb, hpre⟩
    cases ds with
    | nil => exact .inr ⟨b, hb, hpre⟩
    | cons d ds =>
      obtain ⟨hd, hds⟩ := List.forall_mem_cons.mp hds
      obtain ⟨rfl, htail⟩ := List.cons_prefix_cons.mp hpre
      exact .inl ⟨hd, ds, b, hds, hb, htail⟩
  · rintro (⟨hc, ds, b, hds, hb, hpre⟩ | ⟨b, hb, hpre⟩)
    · exact ⟨c :: ds, b, List.forall_mem_cons.mpr ⟨hc, hds⟩, hb,
        List.cons_prefix_cons.mpr ⟨rfl, hpre⟩⟩
    · exact ⟨[], b, List.forall_mem_nil _, hb, hpre⟩

/-- A chain begins with a sign, behind which another sign follows a number. -/
theorem chainAhead_cons_iff : ChainAhead (c :: cs) ↔ SignAhead (c :: cs) ∧ FactorAhead cs := by
  rw [signAhead_cons_iff]
  constructor
  · rintro ⟨ds, b, hne, hds, hb, hpre⟩
    obtain ⟨rfl, htail⟩ := List.cons_prefix_cons.mp hpre
    refine ⟨⟨rfl, ?_⟩, ds, b, hds, hb, htail⟩
    obtain ⟨d, ds, rfl⟩ := List.exists_cons_of_ne_nil hne
    obtain ⟨rest, rfl⟩ := htail
    simpa using hds d List.mem_cons_self
  · rintro ⟨⟨rfl, hhead⟩, ds, b, hds, hb, hpre⟩
    refine ⟨ds, b, ?_, hds, hb, List.cons_prefix_cons.mpr ⟨rfl, hpre⟩⟩
    -- Behind the first sign stands a digit, so there is a number between the two.
    rintro rfl
    obtain ⟨rest, rfl⟩ := hpre
    exact absurd hhead (by simp)

theorem SignAhead.factorAhead (h : SignAhead cs) : FactorAhead cs := by
  obtain ⟨b, hb, hpre⟩ := h
  exact ⟨[], b, List.forall_mem_nil _, hb, hpre⟩

theorem ChainAhead.signAhead (h : ChainAhead cs) : SignAhead cs := by
  cases cs with
  | nil =>
    obtain ⟨ds, b, -, -, -, hpre⟩ := h
    simp at hpre
  | cons c cs => exact (chainAhead_cons_iff.mp h).1

/-- A sign stands behind a digit. -/
theorem hasSign_cons_iff : HasSign (c :: cs) ↔ c.isDigit ∧ SignAhead cs ∨ HasSign cs := by
  simp only [HasSign, SignAhead, List.infix_cons_iff, List.cons_prefix_cons]
  grind

/-- A chain begins behind a digit. -/
theorem hasChain_cons_iff : HasChain (c :: cs) ↔ c.isDigit ∧ ChainAhead cs ∨ HasChain cs := by
  simp only [HasChain, ChainAhead, List.infix_cons_iff, List.cons_prefix_cons]
  grind

/-! ### What is lowered -/

/-- Digits stay, and belong to the first or the second factor. -/
theorem lowerDimensions_digit (hc : c.isDigit) : lowerDimensions before (c :: cs) =
    c :: lowerDimensions (if before = .second then .second else .first) cs := by
  rw [lowerDimensions, if_pos hc]

/-- The sign behind a first factor becomes small. -/
theorem lowerDimensions_sign (h : SignAhead (c :: cs)) :
    lowerDimensions .first (c :: cs) = 'x' :: lowerDimensions .second cs := by
  obtain ⟨rfl, hhead⟩ := signAhead_cons_iff.mp h
  rw [lowerDimensions, if_neg (by decide), if_pos ⟨rfl, rfl, hhead⟩]

/-- Everything else stays. -/
theorem lowerDimensions_other (hc : ¬ c.isDigit) (h : before = .first → ¬ SignAhead (c :: cs)) :
    lowerDimensions before (c :: cs) = c :: lowerDimensions .none cs := by
  rw [signAhead_cons_iff] at h
  rw [lowerDimensions, if_neg hc, if_neg fun ⟨hsign, hbefore, hhead⟩ => h hbefore ⟨hsign, hhead⟩]

/-- A text without digits is passed over. -/
theorem lowerDimensions_append (hcs : ∀ c ∈ cs, c.isDigit = false) (ds : List Char) :
    lowerDimensions .none (cs ++ ds) = cs ++ lowerDimensions .none ds := by
  induction cs with
  | nil => rfl
  | cons c cs ih =>
    obtain ⟨hc, hcs⟩ := List.forall_mem_cons.mp hcs
    have hcons : lowerDimensions .none (c :: (cs ++ ds)) = c :: lowerDimensions .none (cs ++ ds) :=
      lowerDimensions_other (by simp [hc]) nofun
    rw [List.cons_append, hcons, ih hcs, List.cons_append]

/-- A number in front of a text counts for the sign that comes next alone. -/
theorem lowerDimensions_first_eq (h : ¬ SignAhead cs) :
    lowerDimensions .first cs = lowerDimensions .none cs := by
  cases cs with
  | nil => rfl
  | cons c cs =>
    by_cases hc : c.isDigit
    · rw [lowerDimensions_digit hc, lowerDimensions_digit hc]
      rfl
    · have hnone : lowerDimensions .none (c :: cs) = c :: lowerDimensions .none cs :=
        lowerDimensions_other hc nofun
      rw [lowerDimensions_other hc fun _ => h, hnone]

theorem head?_lowerDimensions (before : Factor) (cs : List Char) :
    (lowerDimensions before cs).head?.any Char.isDigit = cs.head?.any Char.isDigit := by
  cases cs with
  | nil => rfl
  | cons c cs =>
    by_cases hc : c.isDigit
    · rw [lowerDimensions_digit hc]
      rfl
    by_cases h : before = .first ∧ SignAhead (c :: cs)
    · obtain ⟨rfl, hsign⟩ := h
      obtain ⟨rfl, -⟩ := signAhead_cons_iff.mp hsign
      rw [lowerDimensions_sign hsign]
      rfl
    · rw [lowerDimensions_other hc (not_and.mp h)]
      rfl

/-- A sign that comes next is still there unless the number in front of it is a first factor. -/
theorem signAhead_lowerDimensions_iff :
    SignAhead (lowerDimensions before cs) ↔ before ≠ .first ∧ SignAhead cs := by
  cases cs with
  | nil => simp [lowerDimensions, SignAhead]
  | cons c cs =>
    by_cases hc : c.isDigit
    · rw [lowerDimensions_digit hc]
      simp only [not_signAhead_of_isDigit hc, and_false]
    by_cases h : before = .first ∧ SignAhead (c :: cs)
    · obtain ⟨rfl, hsign⟩ := h
      rw [lowerDimensions_sign hsign, signAhead_cons_iff]
      simp
    · rw [lowerDimensions_other hc (not_and.mp h), signAhead_cons_iff, head?_lowerDimensions,
        ← signAhead_cons_iff]
      exact ⟨fun hsign => ⟨fun hbefore => h ⟨hbefore, hsign⟩, hsign⟩, And.right⟩

/-- The signs that are left, by what stands in front: nothing that counts, a first factor, or a
second one, with which a sign that comes next is one that is left. -/
theorem hasSign_lowerDimensions (cs : List Char) :
    (HasSign (lowerDimensions .none cs) ↔ HasChain cs) ∧
      (HasSign (lowerDimensions .first cs) ↔ ChainAhead cs ∨ HasChain cs) ∧
      (SignAhead cs ∨ HasSign (lowerDimensions .second cs) ↔ FactorAhead cs ∨ HasChain cs) := by
  induction cs with
  | nil => simp [lowerDimensions, HasSign, HasChain, ChainAhead, SignAhead, FactorAhead]
  | cons c cs ih =>
    obtain ⟨hnone, hfirst, hsecond⟩ := ih
    rw [hasChain_cons_iff, chainAhead_cons_iff, factorAhead_cons_iff]
    by_cases hc : c.isDigit
    · -- A digit begins a number or goes on with it.
      have hchain : FactorAhead cs ∨ ChainAhead cs ↔ FactorAhead cs :=
        or_iff_left_of_imp fun h => h.signAhead.factorAhead
      have hahead := not_signAhead_of_isDigit hc cs
      rw [lowerDimensions_digit hc, lowerDimensions_digit hc, lowerDimensions_digit hc]
      simp [hasSign_cons_iff, signAhead_lowerDimensions_iff, hc, hahead, hfirst, hsecond,
        ← or_assoc, hchain]
    have hnone' : lowerDimensions .none (c :: cs) = c :: lowerDimensions .none cs :=
      lowerDimensions_other hc nofun
    have hsecond' : lowerDimensions .second (c :: cs) = c :: lowerDimensions .none cs :=
      lowerDimensions_other hc nofun
    by_cases hahead : SignAhead (c :: cs)
    · -- Behind a first factor the sign is lowered, and the number that follows is a second one.
      have hnext : ¬ SignAhead cs := by
        obtain ⟨-, hhead⟩ := signAhead_cons_iff.mp hahead
        rcases cs with - | ⟨d, cs⟩
        · cases hhead
        · exact not_signAhead_of_isDigit hhead cs
      have hx : ¬ 'x'.isDigit := by decide
      rw [or_iff_right hnext] at hsecond
      rw [hnone', hsecond', lowerDimensions_sign hahead]
      simp [hasSign_cons_iff, hc, hx, hahead, hnone, hsecond]
    · have hfirst' : lowerDimensions .first (c :: cs) = c :: lowerDimensions .none cs :=
        lowerDimensions_other hc fun _ => hahead
      rw [hnone', hsecond', hfirst']
      simp [hasSign_cons_iff, hc, hahead, hnone]

/-! ### Names -/

/-- The words of a snake-case name as they stand in camel case, with all signs as they are. -/
def camelWords (name : List Char) : List Char :=
  (fields (· == '_') name).flatMap camelWord

/-- **What is left of the signs between numbers.** A camel-case name holds a capital sign between
two digits exactly if among its words, put together, a number stands between two such signs. -/
theorem hasSign_camel_iff (name : List Char) : HasSign (camel name) ↔ HasChain (camelWords name) :=
  (hasSign_lowerDimensions (camelWords name)).1

/-- Of three factors, the second one is taken for the first sign. -/
theorem hasSign_camel_cube : HasSign (camel "FORMAT_ASTC_4X4X4_UNORM".toList) := by
  have hcamel : camel "FORMAT_ASTC_4X4X4_UNORM".toList = "FormatAstc4x4X4Unorm".toList := by
    decide +kernel
  exact ⟨'4', '4', by decide, by decide, "FormatAstc4x".toList, "Unorm".toList, by rw [hcamel]; rfl⟩

end Enumerant.Naming
