import Enumerant.Proofs.Resolution.Enumerators
import Enumerant.Proofs.Schema

/-!
# What merging declarations does to values

A further declaration of a group puts its members behind those that are there
(`Schema.group?_addGroup_of_some`), and nothing keeps the place where it begins. So the values of
the first declaration stay (`HasValue.of_append_left`), while the second one counts on from the last
member of the first: whatever takes its value from an implicit member at the front of the second
moves by one more than the value of that last member, and nothing else does
(`exists_hasValue_of_append_right`). `value_eq_iff_of_merge` says which values are the same.
-/

namespace Enumerant

open Relation

/-! ### Declarations of one name -/

namespace Schema

variable {s : Schema} {g g' : Group} {name : String}

/-- The group that is extended is found with its members. -/
theorem find?_extend (members : List Member) (gs : List Group) :
    (extend name members gs).find? (·.name == name) = (gs.find? (·.name == name)).map fun g =>
      { g with members := g.members ++ members } := by
  induction gs with
  | nil => rfl
  | cons g gs ih =>
    rw [extend]
    split
    case isTrue h => simp [h]
    case isFalse h => simp [h, ih]

/-- A first declaration is the group of its name. -/
theorem group?_addGroup_of_none (h : s.group? g.name = none) :
    (s.addGroup g).group? g.name = some g := by
  rw [group?_eq_find?, groups_addGroup, if_neg (by simp [h]), List.find?_append,
    ← group?_eq_find?, h]
  simp

/-- A further declaration puts its members behind those that are there. -/
theorem group?_addGroup_of_some (h : s.group? g.name = some g') :
    (s.addGroup g).group? g.name = some { g' with members := g'.members ++ g.members } := by
  rw [group?_eq_find?, groups_addGroup, if_pos (h ▸ rfl), find?_extend, ← group?_eq_find?, h]
  rfl

end Schema

namespace Resolution

variable {as bs : List Member} {i j k : Nat} {a b m : Member} {u v w : Int}

/-! ### The seam -/

/-- Two declarations have nothing to do with each other: no name is in both, and none of their
members refers to one of the other. -/
def Apart (as bs : List Member) : Prop :=
  ∀ a ∈ as, ∀ b ∈ bs, a.name ≠ b.name ∧ a.value ≠ .reference b.name ∧ b.value ≠ .reference a.name

/-- The value that an implicit member behind all others would have. -/
inductive NextValue (as : List Member) : Int → Prop
  | start (h : as = []) : NextValue as 0
  | successor {k : Nat} {u : Int} (hlast : as.length = k + 1) (h : HasValue as k u) :
      NextValue as (wrapped (u + 1))

/-- The way of a member leads to an implicit one at the front. -/
def CountsFromFront (bs : List Member) (i : Nat) : Prop :=
  ReflTransGen (TakesFrom bs) i 0 ∧ ∃ m, bs[0]? = some m ∧ m.value = .implicit

/-- One value at most comes next. -/
theorem NextValue.unique (hd : (as.map Member.name).Nodup) (h : NextValue as u)
    (h' : NextValue as v) : u = v := by
  cases h with
  | start hnil =>
    cases h' with
    | start => rfl
    | successor hlast _ => simp [hnil] at hlast
  | successor hlast h =>
    cases h' with
    | start hnil => simp [hnil] at hlast
    | successor hlast' h' =>
      obtain rfl := Nat.succ.inj (hlast.symm.trans hlast')
      rw [h.unique hd h']

/-- What comes next has been wrapped. -/
theorem NextValue.fits (h : NextValue as u) : Fits u := by
  cases h with
  | start => decide
  | successor => exact fits_wrapped _

/-- A member takes its value from one other at most. -/
theorem TakesFrom.unique (hd : (bs.map Member.name).Nodup) (hj : TakesFrom bs i j)
    (hk : TakesFrom bs i k) : j = k := by
  rcases origin_of_takesFrom hd hj with hj | hj <;>
    rcases origin_of_takesFrom hd hk with hk | hk <;> simpa using hj.symm.trans hk

/-- What counts from zero takes from none. -/
theorem not_takesFrom_front (hm : bs[0]? = some m) (hv : m.value = .implicit) :
    ¬ TakesFrom bs 0 j := by
  rintro (_ | ⟨hm', -, hv'⟩)
  obtain rfl := Option.some.inj (hm.symm.trans hm')
  cases hv.symm.trans hv'

/-- A way goes on where its first step leads. -/
theorem countsFromFront_iff (hd : (bs.map Member.name).Nodup) (h : TakesFrom bs i j) :
    CountsFromFront bs i ↔ CountsFromFront bs j := by
  refine ⟨fun ⟨hway, m, hm, hv⟩ => ⟨?_, m, hm, hv⟩, fun ⟨hway, hfront⟩ => ⟨.head h hway, hfront⟩⟩
  rcases ReflTransGen.cases_head hway with rfl | ⟨k, hk, hway⟩
  · exact absurd h (not_takesFrom_front hm hv)
  · exact h.unique hd hk ▸ hway

/-- A literal does not count. -/
theorem not_countsFromFront_of_literal {text : String} (hm : bs[i]? = some m)
    (hvalue : m.value = .literal v text) : ¬ CountsFromFront bs i := by
  rintro ⟨hway, n, hn, hv⟩
  rcases ReflTransGen.cases_head hway with rfl | ⟨k, ⟨hm', hv'⟩ | ⟨hm', -, hv'⟩, -⟩
  · obtain rfl := Option.some.inj (hm.symm.trans hn)
    cases hvalue.symm.trans hv
  all_goals
    obtain rfl := Option.some.inj (hm.symm.trans hm')
    cases hvalue.symm.trans hv'

/-! ### Values on both sides -/

/-- The values of the first declaration stay. -/
theorem HasValue.of_append_left (hapart : Apart as bs) (h : HasValue (as ++ bs) i v)
    (hi : i < as.length) : HasValue as i v := by
  induction h with
  | literal hm hv => exact .literal (List.getElem?_append_left hi ▸ hm) hv
  | first hm hv => exact .first (List.getElem?_append_left hi ▸ hm) hv
  | successor hm hv _ ih =>
    exact .successor (List.getElem?_append_left hi ▸ hm) hv (ih (by omega))
  | @reference i t m target v hm ht hv _ ih =>
    rw [List.getElem?_append_left hi] at hm
    -- No reference leads from the first declaration into the second.
    have hlt : t < as.length := by
      by_contra hge
      rw [List.getElem?_append_right (by omega)] at ht
      exact (hapart m (List.mem_of_getElem? hm) target (List.mem_of_getElem? ht)).2.1 hv
    exact .reference hm (List.getElem?_append_left hlt ▸ ht) hv (ih hlt)

/-- Whatever is counted from the front fits. -/
theorem HasValue.fits_of_countsFromFront (hd : (bs.map Member.name).Nodup) (h : HasValue bs i w)
    (hc : CountsFromFront bs i) : Fits w := by
  induction h with
  | literal hm hv => exact absurd hc (not_countsFromFront_of_literal hm hv)
  | first => decide
  | successor => exact fits_wrapped _
  | reference hm ht hv _ ih => exact ih ((countsFromFront_iff hd (.reference hm ht hv)).mp hc)

/-- What the way of a member of the second declaration counts from moves by the value that comes
next behind the first one, and nothing else does. -/
theorem exists_hasValue_of_append_right (hapart : Apart as bs) (hd : (bs.map Member.name).Nodup)
    (h : HasValue (as ++ bs) k v) (hk : k = as.length + i) :
    ∃ w, HasValue bs i w ∧
      (CountsFromFront bs i → ∃ d, NextValue as d ∧ v = wrapped (w + d)) ∧
      (¬ CountsFromFront bs i → v = w) := by
  have hright : ∀ j, (as ++ bs)[as.length + j]? = bs[j]? := by
    intro j
    rw [List.getElem?_append_right (by omega), Nat.add_sub_cancel_left]
  induction h generalizing i with
  | literal hm hv =>
    rw [hk, hright] at hm
    exact ⟨_, .literal hm hv,
      fun hc => absurd hc (not_countsFromFront_of_literal hm hv), fun _ => rfl⟩
  | first hm hv =>
    obtain ⟨hnil, rfl⟩ : as = [] ∧ i = 0 := by simpa [eq_comm] using hk
    subst hnil
    exact ⟨0, .first hm hv, fun _ => ⟨0, .start rfl, rfl⟩, fun _ => rfl⟩
  | @successor j m v hm hv h ih =>
    cases i with
    | zero =>
      -- The first member of the second declaration goes on from the last one of the first.
      have hlast : as.length = j + 1 := hk.symm
      have hfront : bs[0]? = some m := by rw [← hright, ← hk, hm]
      have hv' := h.of_append_left hapart (by omega)
      refine ⟨0, .first hfront hv, fun _ => ⟨_, .successor hlast hv', ?_⟩,
        fun hnot => absurd ⟨.refl, m, hfront, hv⟩ hnot⟩
      rw [Int.zero_add, wrapped_eq_self_iff.mpr (fits_wrapped _)]
    | succ i =>
      have hm' : bs[i + 1]? = some m := by rw [← hright, ← hk, hm]
      obtain ⟨w, hw, hmoved, hstays⟩ := ih (i := i) (by omega)
      have hway := countsFromFront_iff hd (.successor hm' hv)
      refine ⟨_, .successor hm' hv hw, fun hc => ?_, fun hc => ?_⟩
      · obtain ⟨d, hnext, rfl⟩ := hmoved (hway.mp hc)
        exact ⟨d, hnext, by rw [wrapped_wrapped_add, wrapped_wrapped_add, Int.add_right_comm]⟩
      · rw [hstays (mt hway.mpr hc)]
  | @reference k t m target v hm ht hv _ ih =>
    rw [hk, hright] at hm
    -- No reference leads back, either.
    have hge : as.length ≤ t := by
      by_contra hlt
      rw [List.getElem?_append_left (by omega)] at ht
      exact (hapart target (List.mem_of_getElem? ht) m (List.mem_of_getElem? hm)).2.2 hv
    obtain ⟨t, rfl⟩ := Nat.exists_eq_add_of_le hge
    rw [hright] at ht
    obtain ⟨w, hw, hmoved, hstays⟩ := ih rfl
    have hway := countsFromFront_iff hd (.reference hm ht hv)
    exact ⟨w, .reference hm ht hv hw, fun hc => hmoved (hway.mp hc),
      fun hc => hstays (mt hway.mpr hc)⟩

/-- A value of the second declaration stays exactly if its way does not lead to an implicit member
at the front, or if zero comes next behind the first declaration. -/
theorem eq_iff_of_append_right (hapart : Apart as bs) (hd : (as.map Member.name).Nodup)
    (hd' : (bs.map Member.name).Nodup) (h : HasValue (as ++ bs) (as.length + i) v)
    (hw : HasValue bs i w) : v = w ↔ (CountsFromFront bs i → NextValue as 0) := by
  obtain ⟨w', hw', hmoved, hstays⟩ := exists_hasValue_of_append_right hapart hd' h rfl
  obtain rfl := hw.unique hd' hw'
  by_cases hc : CountsFromFront bs i
  · -- A move within the range comes back to where it began only if it is none.
    obtain ⟨d, hnext, rfl⟩ := hmoved hc
    have hfits := hw.fits_of_countsFromFront hd' hc
    have hzero : wrapped (w + d) = w ↔ d = 0 := by
      conv_lhs => rhs; rw [← wrapped_eq_self_iff.mpr hfits, ← Int.add_zero w]
      rw [Int.add_comm w, Int.add_comm w, wrapped_add_inj hnext.fits (by decide)]
    rw [hzero, forall_prop_of_true hc]
    exact ⟨fun h => h ▸ hnext, fun h => hnext.unique hd h⟩
  · exact iff_of_true (hstays hc) fun h => absurd h hc

/-! ### The groups as a whole -/

/-- Groups that are apart stay so without repetitions. -/
theorem Apart.firsts (hapart : Apart as bs) (seen seen' : List String) :
    Apart (firsts seen as) (firsts seen' bs) :=
  fun a ha b hb => hapart a ((firsts_sublist seen as).mem ha) b ((firsts_sublist seen' bs).mem hb)

/-- A reference in the first group finds the same target. -/
theorem target?_append_left (hapart : Apart as bs) (hm : m ∈ as) :
    target? (as ++ bs) m = target? as m := by
  unfold target?
  split
  case h_1 name hv =>
    have hnone : bs.find? (·.name == name) = none := List.find?_eq_none.mpr fun b hb hname =>
      (hapart m hm b hb).2.1 (beq_iff_eq.mp hname ▸ hv)
    rw [List.find?_append, hnone, Option.or_none]
  case h_2 => rfl

/-- A reference in the second group finds the same target. -/
theorem target?_append_right (hapart : Apart as bs) (hm : m ∈ bs) :
    target? (as ++ bs) m = target? bs m := by
  unfold target?
  split
  case h_1 name hv =>
    have hnone : as.find? (·.name == name) = none := List.find?_eq_none.mpr fun a ha hname =>
      (hapart a ha m hm).2.2 (beq_iff_eq.mp hname ▸ hv)
    rw [List.find?_append, hnone, Option.none_or]
  case h_2 => rfl

/-- The members that take part are those of the first declaration, then those of the second. -/
theorem participants_append {g₁ g₂ : Group} (hname : g₂.name = g₁.name)
    (hapart : Apart g₁.members g₂.members) (settings : Settings) :
    Group.participants { g₁ with members := g₁.members ++ g₂.members } settings =
      g₁.participants settings ++ g₂.participants settings := by
  rw [Group.participants_eq, Group.participants_eq, Group.participants_eq, hname]
  exact firsts_append (fun a ha b hb => (hapart a ha b hb).1) _

/-- **Which values are the same if two declarations are merged.** The group of their name has the
members of both. An enumerator of the first has the value that it has without the second. One of the
second has the value that it has without the first exactly if its way does not lead to an implicit
member at the front, or if zero comes next behind the first. -/
theorem value_eq_iff_of_merge (s : Schema) (g₁ g₂ : Group) (settings : Settings)
    (hnew : s.group? g₁.name = none) (hname : g₂.name = g₁.name)
    (hapart : Apart g₁.members g₂.members) :
    ∃ g, ((s.addGroup g₁).addGroup g₂).group? g₁.name = some g ∧
      ∀ e ∈ (g.resolve settings).value.members,
        (∃ e₁ ∈ g₁.ordered settings, e₁.sourceName = e.sourceName ∧ e.value = e₁.value) ∨
        ∃ e₂ ∈ g₂.ordered settings, e₂.sourceName = e.sourceName ∧
          ∃ i m, (g₂.participants settings)[i]? = some m ∧ m.name = e.sourceName ∧
            (e.value = e₂.value ↔
              (CountsFromFront (g₂.participants settings) i →
                NextValue (g₁.participants settings) 0)) := by
  have hfirst : (s.addGroup g₁).group? g₂.name = some g₁ :=
    hname ▸ Schema.group?_addGroup_of_none hnew
  refine ⟨_, hname ▸ Schema.group?_addGroup_of_some hfirst, fun e he => ?_⟩
  have hd := g₁.nodup_names_participants settings
  have hd' := g₂.nodup_names_participants settings
  have hparts : Apart (g₁.participants settings) (g₂.participants settings) := by
    rw [g₁.participants_eq, g₂.participants_eq]
    exact hapart.firsts _ _
  obtain ⟨k, m, -, hm, hsource, hvalue, -, hmark, href, -⟩ :=
    exists_hasValue_of_mem_enumerators (Group.nodup_names_participants _ settings)
      (Group.mem_enumerators_of_mem_resolve he)
  rw [participants_append hname hapart] at hm hvalue href
  -- An enumerator comes from a member of the first declaration or from one of the second.
  by_cases hk : k < (g₁.participants settings).length
  · rw [List.getElem?_append_left hk] at hm
    rw [refersToMarker, target?_append_left hparts (List.mem_of_getElem? hm)] at href
    obtain ⟨e₁, he₁, hname₁, hvalue₁⟩ :=
      exists_mem_ordered hm (hvalue.of_append_left hparts hk) hmark href
    exact .inl ⟨e₁, he₁, hname₁.trans hsource, hvalue₁.symm⟩
  · obtain ⟨i, rfl⟩ := Nat.exists_eq_add_of_le (Nat.le_of_not_lt hk)
    rw [List.getElem?_append_right (by omega), Nat.add_sub_cancel_left] at hm
    rw [refersToMarker, target?_append_right hparts (List.mem_of_getElem? hm)] at href
    -- The second declaration gives its member a value of its own, to compare with.
    obtain ⟨w, hw, -⟩ := exists_hasValue_of_append_right hparts hd' hvalue rfl
    obtain ⟨e₂, he₂, hname₂, rfl⟩ := exists_mem_ordered hm hw hmark href
    exact .inr ⟨e₂, he₂, hname₂.trans hsource, i, m, hm, hsource,
      eq_iff_of_append_right hparts hd hd' hvalue hw⟩

/-- A first declaration of gears. -/
def lowGears : Group where
  name := "Gear"
  kind := .plain
  members := [⟨"GEAR_LOW", .implicit, none⟩]

/-- A further declaration of gears, which should count from zero again. -/
def highGears : Group where
  name := "Gear"
  kind := .plain
  members := [⟨"GEAR_HIGH", .implicit, none⟩, ⟨"GEAR_TOP", .decimal 7, none⟩]

/-- The gears of both declarations. -/
def gears : Group :=
  { lowGears with members := lowGears.members ++ highGears.members }

theorem group?_gears : ((Schema.addGroup {} lowGears).addGroup highGears).group? "Gear" =
    some gears := by
  decide

theorem members_resolve_gears : (gears.resolve {}).value.members =
    [⟨"GEAR_LOW", "Low", 0, "0", none, none, "010"⟩,
      ⟨"GEAR_HIGH", "High", 1, "1", none, none, "011"⟩,
      ⟨"GEAR_TOP", "Top", 7, "7", none, none, "017"⟩] := by
  rw [Group.members_resolve, Group.ordered, List.mergeSort_of_pairwise (by decide +kernel)]
  decide +kernel

theorem ordered_highGears : highGears.ordered {} =
    [⟨"GEAR_HIGH", "High", 0, "0", none, none, "010"⟩,
      ⟨"GEAR_TOP", "Top", 7, "7", none, none, "017"⟩] := by
  rw [Group.ordered, List.mergeSort_of_pairwise (by decide +kernel)]
  decide +kernel

theorem ordered_lowGears : lowGears.ordered {} =
    [⟨"GEAR_LOW", "Low", 0, "0", none, none, "010"⟩] := by
  rw [Group.ordered, List.mergeSort_of_pairwise (by decide +kernel)]
  decide +kernel

/-- The second gear moves, so it counts from the front, and zero is not what comes next there. -/
theorem value_eq_iff_gears : ({} : Schema).group? lowGears.name = none ∧
    highGears.name = lowGears.name ∧ Apart lowGears.members highGears.members ∧
    ∃ i m, (highGears.participants {})[i]? = some m ∧ m.name = "GEAR_HIGH" ∧
      CountsFromFront (highGears.participants {}) i ∧ ¬ NextValue (lowGears.participants {}) 0 := by
  have hapart : Apart lowGears.members highGears.members := by
    unfold Apart
    decide
  obtain ⟨g, hg, hall⟩ := value_eq_iff_of_merge {} lowGears highGears {} rfl rfl hapart
  obtain rfl := Option.some.inj (hg.symm.trans group?_gears)
  have hhigh : ⟨"GEAR_HIGH", "High", 1, "1", none, none, "011"⟩ ∈
      (gears.resolve {}).value.members := by
    simp [members_resolve_gears]
  have hlow : ∀ e ∈ lowGears.ordered {}, e.sourceName ≠ "GEAR_HIGH" := by
    rw [ordered_lowGears]
    decide
  have hvalue : ∀ e ∈ highGears.ordered {}, e.sourceName = "GEAR_HIGH" → e.value = 0 := by
    rw [ordered_highGears]
    decide
  refine ⟨rfl, rfl, hapart, ?_⟩
  rcases hall _ hhigh with ⟨e, he, hname, -⟩ | ⟨e, he, hname, i, m, hm, hsource, hiff⟩
  · exact absurd hname (hlow e he)
  · rw [hvalue e he hname] at hiff
    exact ⟨i, m, hm, hsource, Classical.not_imp.mp (mt hiff.mpr (by decide))⟩

/-- The second gear has another value than the second declaration alone gives it. -/
theorem not_value_eq_gears : ¬ ∀ g,
    ((Schema.addGroup {} lowGears).addGroup highGears).group? "Gear" = some g →
      ∀ e ∈ (g.resolve {}).value.members, ∀ e₂ ∈ (highGears.resolve {}).value.members,
        e₂.sourceName = e.sourceName → e.value = e₂.value := by
  intro h
  have hsame := h gears group?_gears
  rw [members_resolve_gears, Group.members_resolve, ordered_highGears] at hsame
  revert hsame
  decide

end Resolution

end Enumerant
