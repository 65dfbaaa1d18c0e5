import Enumerant.Proofs.Resolution.Participants
import Mathlib.Logic.Function.Iterate
import Mathlib.Logic.Relation

/-!
# The values of members are the least solution of the rules of C

`HasValue` gives the rules for values without saying how they are found. The passes of
`settle` keep what is in the slots sound for these rules (`Sound`) and stop where a
further pass changes nothing (`pass_settle`); a sound state of that kind holds every value that the
rules give (`settled_eq_found_iff`), whatever the order of the members. A member whose way leads to
a cycle or to one without a value has none (`not_hasValue_of_reaches`).
-/

namespace Enumerant.Resolution

variable {ms : List Member} {slots : List Slot} {i j t d d' : Nat} {m : Member} {v w : Int}

/-! ### The rules -/

/-- The value of a member is written, or counted on from the member before it, or that of the member
that it refers to. -/
inductive HasValue (ms : List Member) : Nat → Int → Prop
  | literal {i : Nat} {m : Member} {v : Int} {text : String} (hm : ms[i]? = some m)
      (hv : m.value = .literal v text) : HasValue ms i v
  | first {m : Member} (hm : ms[0]? = some m) (hv : m.value = .implicit) : HasValue ms 0 0
  | successor {i : Nat} {m : Member} {v : Int} (hm : ms[i + 1]? = some m)
      (hv : m.value = .implicit) (h : HasValue ms i v) :
      HasValue ms (i + 1) (wrapped (v + 1))
  | reference {i t : Nat} {m target : Member} {v : Int} (hm : ms[i]? = some m)
      (ht : ms[t]? = some target) (hv : m.value = .reference target.name)
      (h : HasValue ms t v) : HasValue ms i v

/-- The number of references from a member to the first one on its way that is no reference. -/
inductive ReferenceDepth (ms : List Member) : Nat → Nat → Prop
  | here {i : Nat} {m : Member} (hm : ms[i]? = some m)
      (hv : ∀ name, m.value ≠ .reference name) : ReferenceDepth ms i 0
  | there {i t d : Nat} {m target : Member} (hm : ms[i]? = some m) (ht : ms[t]? = some target)
      (hv : m.value = .reference target.name) (h : ReferenceDepth ms t d) :
      ReferenceDepth ms i (d + 1)

/-- The member at one index takes its value from the member at another. -/
inductive TakesFrom (ms : List Member) : Nat → Nat → Prop
  | successor {i : Nat} {m : Member} (hm : ms[i + 1]? = some m) (hv : m.value = .implicit) :
      TakesFrom ms (i + 1) i
  | reference {i t : Nat} {m target : Member} (hm : ms[i]? = some m) (ht : ms[t]? = some target)
      (hv : m.value = .reference target.name) : TakesFrom ms i t

/-- The initializer of the member at an index has no known value, or it names no member. -/
def LacksValue (ms : List Member) (i : Nat) : Prop :=
  ∃ m, ms[i]? = some m ∧
    ((∃ text, m.value = .unevaluated text) ∨
      ∃ name, m.value = .reference name ∧ ∀ n ∈ ms, n.name ≠ name)

/-! ### One step of the way -/

/-- A literal gives the value. -/
theorem origin_literal {text : String} (hm : ms[i]? = some m) (hv : m.value = .literal v text) :
    origin ms i = .given v := by
  simp [origin, hm, hv]

/-- The first member counts from zero. -/
theorem origin_first (hm : ms[0]? = some m) (hv : m.value = .implicit) :
    origin ms 0 = .given 0 := by
  simp [origin, hm, hv]

/-- An implicit member comes after the one before it. -/
theorem origin_successor (hm : ms[i + 1]? = some m) (hv : m.value = .implicit) :
    origin ms (i + 1) = .successor i := by
  simp [origin, hm, hv]

/-- A reference is a copy of the member that it names. -/
theorem origin_reference {target : Member} (hd : (ms.map Member.name).Nodup)
    (hm : ms[i]? = some m) (ht : ms[t]? = some target) (hv : m.value = .reference target.name) :
    origin ms i = .copy t := by
  have hf : indexOf? ms target.name = some t := (indexOf?_eq_some_iff hd).mpr ⟨target, ht, rfl⟩
  simp [origin, hm, hv, hf]

/-- A member that lacks a value has none from anywhere. -/
theorem origin_of_lacksValue (h : LacksValue ms i) : origin ms i = .unknown := by
  obtain ⟨m, hm, ⟨text, hv⟩ | ⟨name, hv, hn⟩⟩ := h
  · simp [origin, hm, hv]
  · simp [origin, hm, hv, indexOf?_eq_none_iff.mpr hn]

/-- The forms of a member, each with the rule that applies to it, if any. -/
theorem member_cases (hm : ms[i]? = some m) :
    (∃ v text, m.value = .literal v text) ∨ (m.value = .implicit ∧ i = 0) ∨
    (∃ j, m.value = .implicit ∧ i = j + 1) ∨
    (∃ (t : Nat) (target : Member), ms[t]? = some target ∧ m.value = .reference target.name) ∨
    LacksValue ms i := by
  cases hv : m.value with
  | literal v text => exact .inl ⟨v, text, rfl⟩
  | implicit =>
    cases i with
    | zero => exact .inr (.inl ⟨rfl, rfl⟩)
    | succ j => exact .inr (.inr (.inl ⟨j, rfl, rfl⟩))
  | reference name =>
    by_cases hn : ∀ n ∈ ms, n.name ≠ name
    · exact .inr (.inr (.inr (.inr ⟨m, hm, .inr ⟨name, hv, hn⟩⟩)))
    · push Not at hn
      obtain ⟨target, hmem, rfl⟩ := hn
      obtain ⟨t, ht⟩ := List.mem_iff_getElem?.mp hmem
      exact .inr (.inr (.inr (.inl ⟨t, target, ht, rfl⟩)))
  | unevaluated text => exact .inr (.inr (.inr (.inr ⟨m, hm, .inl ⟨text, hv⟩⟩)))

theorem HasValue.exists_member (h : HasValue ms i v) : ∃ m, ms[i]? = some m := by
  cases h with
  | literal hm | first hm | successor hm | reference hm => exact ⟨_, hm⟩

/-- The rules, read along the origin of a value. -/
theorem hasValue_iff (hd : (ms.map Member.name).Nodup) :
    HasValue ms i v ↔
      match origin ms i with
      | .given w => w = v
      | .successor j => ∃ w, HasValue ms j w ∧ wrapped (w + 1) = v
      | .copy t => HasValue ms t v
      | .unknown => False := by
  constructor
  · intro h
    cases h with
    | literal hm hv => rw [origin_literal hm hv]
    | first hm hv => rw [origin_first hm hv]
    | successor hm hv h =>
      rw [origin_successor hm hv]
      exact ⟨_, h, rfl⟩
    | reference hm ht hv h =>
      rw [origin_reference hd hm ht hv]
      exact h
  · intro h
    cases hm : ms[i]? with
    | none => simp [origin, hm] at h
    | some m =>
      -- A member is a literal, comes first, follows another, refers to one, or lacks a value.
      rcases member_cases hm with ⟨w, text, hv⟩ | ⟨hv, rfl⟩ | ⟨j, hv, rfl⟩ |
        ⟨t, target, ht, hv⟩ | hl
      · rw [origin_literal hm hv] at h
        exact h ▸ .literal hm hv
      · rw [origin_first hm hv] at h
        exact h ▸ .first hm hv
      · rw [origin_successor hm hv] at h
        obtain ⟨w, hw, rfl⟩ := h
        exact .successor hm hv hw
      · rw [origin_reference hd hm ht hv] at h
        exact .reference hm ht hv h
      · rw [origin_of_lacksValue hl] at h
        exact h.elim

/-- A member has one value at most. -/
theorem HasValue.unique (hd : (ms.map Member.name).Nodup) (h : HasValue ms i v)
    (h' : HasValue ms i w) : v = w := by
  induction h generalizing w with
  | literal hm hv =>
    rw [hasValue_iff hd, origin_literal hm hv] at h'
    exact h'
  | first hm hv =>
    rw [hasValue_iff hd, origin_first hm hv] at h'
    exact h'
  | successor hm hv _ ih =>
    rw [hasValue_iff hd, origin_successor hm hv] at h'
    obtain ⟨u, hu, rfl⟩ := h'
    rw [ih hu]
  | reference hm ht hv _ ih =>
    rw [hasValue_iff hd, origin_reference hd hm ht hv] at h'
    exact ih h'

/-- The references from a member have one number. -/
theorem ReferenceDepth.unique (hd : (ms.map Member.name).Nodup) (h : ReferenceDepth ms i d)
    (h' : ReferenceDepth ms i d') : d = d' := by
  induction h generalizing d' with
  | here hm hv =>
    cases h' with
    | here => rfl
    | there hm' _ hv' =>
      obtain rfl := Option.some_inj.mp (hm.symm.trans hm')
      exact absurd hv' (hv _)
  | there hm ht hv _ ih =>
    cases h' with
    | here hm' hv' =>
      obtain rfl := Option.some_inj.mp (hm.symm.trans hm')
      exact absurd hv (hv' _)
    | there hm' ht' hv' h' =>
      obtain rfl := Option.some_inj.mp (hm.symm.trans hm')
      have hname := Initializer.reference.inj (hv.symm.trans hv')
      obtain rfl := index_eq_of_name_eq hd ht ht' hname
      rw [ih h']

/-! ### Members without a value -/

/-- A member that takes its value from another one counts on or copies. -/
theorem origin_of_takesFrom (hd : (ms.map Member.name).Nodup) (h : TakesFrom ms i j) :
    origin ms i = .successor j ∨ origin ms i = .copy j := by
  cases h with
  | successor hm hv => exact .inl (origin_successor hm hv)
  | reference hm ht hv => exact .inr (origin_reference hd hm ht hv)

/-- What a value is taken from has one, too. -/
theorem HasValue.of_takesFrom (hd : (ms.map Member.name).Nodup) (h : HasValue ms i v)
    (ht : TakesFrom ms i j) : ∃ w, HasValue ms j w := by
  rw [hasValue_iff hd] at h
  rcases origin_of_takesFrom hd ht with ho | ho <;> rw [ho] at h
  · obtain ⟨w, hw, -⟩ := h
    exact ⟨w, hw⟩
  · exact ⟨v, h⟩

/-- A member that lacks a value has none. -/
theorem not_hasValue_of_lacksValue (hd : (ms.map Member.name).Nodup) (h : LacksValue ms i) :
    ¬ HasValue ms i v := by
  rw [hasValue_iff hd, origin_of_lacksValue h]
  exact id

/-- The way of a member with a value does not come back to it. -/
theorem HasValue.not_cyclic (hd : (ms.map Member.name).Nodup) (h : HasValue ms i v) :
    ¬ Relation.TransGen (TakesFrom ms) i i := by
  -- A cycle through a member is one through the member that it takes its value from.
  induction h with
  | literal hm hv =>
    intro hc
    obtain ⟨k, hk, -⟩ := Relation.TransGen.head'_iff.mp hc
    simpa [origin_literal hm hv] using origin_of_takesFrom hd hk
  | first hm hv =>
    intro hc
    obtain ⟨k, hk, -⟩ := Relation.TransGen.head'_iff.mp hc
    simpa [origin_first hm hv] using origin_of_takesFrom hd hk
  | successor hm hv _ ih =>
    intro hc
    obtain ⟨k, hk, hr⟩ := Relation.TransGen.head'_iff.mp hc
    have hj := origin_of_takesFrom hd hk
    simp only [origin_successor hm hv, Origin.successor.injEq, reduceCtorEq, or_false] at hj
    exact ih (.tail' (hj ▸ hr) (.successor hm hv))
  | reference hm ht hv _ ih =>
    intro hc
    obtain ⟨k, hk, hr⟩ := Relation.TransGen.head'_iff.mp hc
    have hj := origin_of_takesFrom hd hk
    simp only [origin_reference hd hm ht hv, Origin.copy.injEq, reduceCtorEq, false_or] at hj
    exact ih (.tail' (hj ▸ hr) (.reference hm ht hv))

/-- A member has no value if its way leads to one that lacks a value, or back to a member passed
already. -/
theorem not_hasValue_of_reaches (hd : (ms.map Member.name).Nodup)
    (hr : Relation.ReflTransGen (TakesFrom ms) i j)
    (h : LacksValue ms j ∨ Relation.TransGen (TakesFrom ms) j j) : ¬ HasValue ms i v := by
  intro hi
  obtain ⟨w, hw⟩ : ∃ w, HasValue ms j w := by
    clear h
    induction hr with
    | refl => exact ⟨v, hi⟩
    | tail _ hstep ih =>
      obtain ⟨w, hw⟩ := ih
      exact hw.of_takesFrom hd hstep
  rcases h with hl | hc
  · exact not_hasValue_of_lacksValue hd hl hw
  · exact hw.not_cyclic hd hc

/-! ### What the passes keep -/

/-- What a slot tells of the member at an index follows from the rules. -/
def Truthful (ms : List Member) (i : Nat) : Slot → Prop
  | .pending => True
  | .found v => HasValue ms i v.value ∧ ReferenceDepth ms i v.depth
  | .dropped => ∀ v, ¬ HasValue ms i v

/-- The invariant of the passes: a slot for every member, and none of them lies. -/
structure Sound (ms : List Member) (slots : List Slot) : Prop where
  length_eq : slots.length = ms.length
  truthful : ∀ {i s}, slots[i]? = some s → Truthful ms i s

/-- What is known in the beginning is true. -/
theorem sound_initial (hd : (ms.map Member.name).Nodup) : Sound ms (ms.map Slot.initial) := by
  refine ⟨List.length_map _, fun {i s} hs => ?_⟩
  rw [List.getElem?_map, Option.map_eq_some_iff] at hs
  obtain ⟨m, hm, rfl⟩ := hs
  unfold Slot.initial
  split
  case h_1 v text hv => exact ⟨.literal hm hv, .here hm (by simp [hv])⟩
  case h_2 text hv => exact fun v => not_hasValue_of_lacksValue hd ⟨m, hm, .inl ⟨text, hv⟩⟩
  case h_3 => trivial
  case h_4 => trivial

/-- A reference has no value if the member that it names has none. -/
theorem not_hasValue_of_reference {target : Member} (hd : (ms.map Member.name).Nodup)
    (hm : ms[i]? = some m) (ht : ms[t]? = some target) (hv : m.value = .reference target.name)
    (h : ∀ v, ¬ HasValue ms t v) : ¬ HasValue ms i v := by
  intro hi
  obtain ⟨w, hw⟩ := hi.of_takesFrom hd (.reference hm ht hv)
  exact h w hw

/-- What is found from true slots is true. -/
theorem truthful_outcome (hs : Sound ms slots) (hd : (ms.map Member.name).Nodup)
    (hm : ms[i]? = some m) : Truthful ms i (outcome ms slots i) := by
  unfold outcome
  rcases member_cases hm with ⟨w, text, hv⟩ | ⟨hv, rfl⟩ | ⟨j, hv, rfl⟩ | ⟨t, target, ht, hv⟩ | hl
  · rw [origin_literal hm hv]
    exact ⟨.literal hm hv, .here hm (by simp [hv])⟩
  · rw [origin_first hm hv]
    exact ⟨.first hm hv, .here hm (by simp [hv])⟩
  · rw [origin_successor hm hv]
    dsimp only
    split
    case h_1 w hw => exact ⟨.successor hm hv (hs.truthful hw).1, .here hm (by simp [hv])⟩
    case h_2 => trivial
  · rw [origin_reference hd hm ht hv]
    dsimp only
    split
    case h_1 w hw =>
      exact ⟨.reference hm ht hv (hs.truthful hw).1, .there hm ht hv (hs.truthful hw).2⟩
    case h_2 hw => exact fun v => not_hasValue_of_reference hd hm ht hv (hs.truthful hw)
    case h_3 => trivial
  · rw [origin_of_lacksValue hl]
    exact fun v => not_hasValue_of_lacksValue hd hl

/-- A visit keeps the slots true. -/
theorem sound_visit (hs : Sound ms slots) (hd : (ms.map Member.name).Nodup) (i : Nat) :
    Sound ms (visit ms slots i) := by
  unfold visit
  split
  case isTrue hp =>
    refine ⟨by rw [List.length_set, hs.length_eq], fun {j s} hj => ?_⟩
    rw [List.getElem?_set] at hj
    split at hj
    case isTrue hij =>
      obtain ⟨hi, -⟩ := List.getElem?_eq_some_iff.mp hp
      rw [if_pos hi, Option.some_inj] at hj
      subst hij hj
      exact truthful_outcome hs hd (List.getElem?_eq_getElem (hs.length_eq ▸ hi))
    case isFalse => exact hs.truthful hj
  case isFalse => exact hs

theorem sound_visits (hs : Sound ms slots) (hd : (ms.map Member.name).Nodup)
    (indices : List Nat) : Sound ms (indices.foldl (visit ms) slots) := by
  induction indices generalizing slots with
  | nil => exact hs
  | cons i is ih => exact ih (sound_visit hs hd i)

/-- So do all passes. -/
theorem sound_settle (hs : Sound ms slots) (hd : (ms.map Member.name).Nodup) :
    Sound ms (settle ms slots) := by
  induction slots using settle.induct ms with
  | case1 slots h =>
    rw [settle, if_pos h]
    exact hs
  | case2 slots h ih =>
    rw [settle, if_neg h]
    exact ih (sound_visits hs hd _)

theorem sound_settled (hd : (ms.map Member.name).Nodup) : Sound ms (settled ms) :=
  sound_settle (sound_initial hd) hd

/-! ### Where the passes stop -/

/-- No pass changes the slots any more. -/
theorem pass_settle (ms : List Member) (slots : List Slot) :
    pass ms (settle ms slots) = settle ms slots := by
  induction slots using settle.induct ms with
  | case1 slots h => rwa [settle, if_pos h]
  | case2 slots h ih => rwa [settle, if_neg h]

/-- There are no more passes than slots pending before the first of them. -/
theorem exists_settle_eq_iterate (ms : List Member) (slots : List Slot) :
    ∃ n ≤ slots.count .pending, settle ms slots = (pass ms)^[n] slots := by
  induction slots using settle.induct ms with
  | case1 slots h => exact ⟨0, Nat.zero_le _, by rw [settle, if_pos h]; rfl⟩
  | case2 slots h ih =>
    obtain ⟨n, hn, heq⟩ := ih
    refine ⟨n + 1, ?_, by rw [settle, if_neg h, heq, Function.iterate_succ_apply]⟩
    exact Nat.lt_of_le_of_lt hn (count_pending_pass h)

/-- If visits change nothing, then none of them does: no later visit could undo what one did. -/
theorem visit_eq_of_visits_eq {indices : List Nat}
    (h : indices.foldl (visit ms) slots = slots) (hi : i ∈ indices) : visit ms slots i = slots := by
  induction indices with
  | nil => simp at hi
  | cons k ks ih =>
    rw [List.foldl_cons] at h
    have hk : visit ms slots k = slots := by
      refine (count_pending_visit ms slots k).resolve_right fun hlt => ?_
      rcases count_pending_visits ms ks (visit ms slots k) with hf | hf
      · rw [← hf, h] at hlt
        exact Nat.lt_irrefl _ hlt
      · rw [h] at hf
        exact Nat.lt_irrefl _ (Nat.lt_trans hf hlt)
    rw [hk] at h
    rcases List.mem_cons.mp hi with rfl | hi
    · exact hk
    · exact ih h hi

/-- Where a pass changes nothing, a pending slot cannot be settled from the others. -/
theorem outcome_eq_pending (h : pass ms slots = slots) (hi : slots[i]? = some .pending) :
    outcome ms slots i = .pending := by
  obtain ⟨hlt, hg⟩ := List.getElem?_eq_some_iff.mp hi
  have hv : visit ms slots i = slots := visit_eq_of_visits_eq h (List.mem_range.mpr hlt)
  rw [visit, if_pos hi] at hv
  have hset : (slots.set i (outcome ms slots i))[i]? = some (outcome ms slots i) := by
    simp [hlt]
  rw [hv, hi, Option.some_inj] at hset
  exact hset.symm

/-- Where a pass changes nothing, a member with a value has it in its slot if that slot could be
settled: a slot that is dropped would lie, and one that is pending would have been settled. -/
theorem exists_found_of_outcome (hs : Sound ms slots) (hd : (ms.map Member.name).Nodup)
    (hp : pass ms slots = slots) (h : HasValue ms i v) (ho : outcome ms slots i ≠ .pending) :
    ∃ d, slots[i]? = some (.found ⟨v, d⟩) := by
  obtain ⟨m, hm⟩ := h.exists_member
  obtain ⟨hi, -⟩ := List.getElem?_eq_some_iff.mp hm
  obtain ⟨s, hg⟩ : ∃ s, slots[i]? = some s :=
    ⟨_, List.getElem?_eq_getElem (hs.length_eq ▸ hi)⟩
  have htrue := hs.truthful hg
  cases s with
  | pending => exact absurd (outcome_eq_pending hp hg) ho
  | dropped => exact absurd h (htrue v)
  | found w =>
    rw [h.unique hd htrue.1]
    exact ⟨w.depth, hg⟩

/-- Slots that are sound and that no pass changes hold every value that the rules give. -/
theorem exists_found_of_hasValue (hs : Sound ms slots) (hd : (ms.map Member.name).Nodup)
    (hp : pass ms slots = slots) (h : HasValue ms i v) :
    ∃ d, slots[i]? = some (.found ⟨v, d⟩) := by
  induction h with
  | literal hm hv =>
    refine exists_found_of_outcome hs hd hp (.literal hm hv) ?_
    simp [outcome, origin_literal hm hv]
  | first hm hv =>
    refine exists_found_of_outcome hs hd hp (.first hm hv) ?_
    simp [outcome, origin_first hm hv]
  | successor hm hv h ih =>
    obtain ⟨d, hj⟩ := ih
    refine exists_found_of_outcome hs hd hp (.successor hm hv h) ?_
    simp [outcome, origin_successor hm hv, hj]
  | reference hm ht hv h ih =>
    obtain ⟨d, hj⟩ := ih
    refine exists_found_of_outcome hs hd hp (.reference hm ht hv h) ?_
    simp [outcome, origin_reference hd hm ht hv, hj]

/-- The passes find the values that the rules give and no others. -/
theorem settled_eq_found_iff (hd : (ms.map Member.name).Nodup) :
    (∃ d, (settled ms)[i]? = some (.found ⟨v, d⟩)) ↔ HasValue ms i v := by
  constructor
  · rintro ⟨d, h⟩
    exact ((sound_settled hd).truthful h).1
  · exact exists_found_of_hasValue (sound_settled hd) hd (pass_settle ms _)

/-- Along with a value, the passes find the number of references on its way. -/
theorem getElem?_settled_eq_found_iff {w : Valued} (hd : (ms.map Member.name).Nodup) :
    (settled ms)[i]? = some (.found w) ↔
      HasValue ms i w.value ∧ ReferenceDepth ms i w.depth := by
  constructor
  · exact fun h => (sound_settled hd).truthful h
  · rintro ⟨hvalue, hdepth⟩
    obtain ⟨d, hs⟩ := (settled_eq_found_iff hd).mpr hvalue
    have hd' : ReferenceDepth ms i d := ((sound_settled hd).truthful hs).2
    rw [hs, hd'.unique hd hdepth]

end Enumerant.Resolution
