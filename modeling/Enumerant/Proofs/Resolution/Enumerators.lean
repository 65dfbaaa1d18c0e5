import Enumerant.Proofs.Resolution.Value

/-!
# From values to enumerators

A member becomes an enumerator if it has a value and neither it nor the member that it refers to is
a range marker (`mem_enumerators`), and no two of them have one source name (`nodup_sourceNames`).
Sorting loses none of them (`mem_ordered`), and afterwards only those are left out whose friendly
name is taken (`perm_uniquelyNamed_append_nameClashes`). Together with the rules for values this
tells what `Group.resolve` gives for every group (`Group.resolve_least_solution`).
-/

namespace Enumerant

namespace Resolution

variable {g : Group} {settings : Settings} {ms : List Member} {i : Nat} {m : Member}
  {e : Enumerator} {v : Int}

/-! ### Which members become enumerators -/

theorem length_settled (hd : (ms.map Member.name).Nodup) : (settled ms).length = ms.length :=
  (sound_settled hd).length_eq

/-- A candidate is a member with what was found for it. -/
theorem mem_candidates {c : Candidate} :
    c ∈ candidates ms ↔ ms[c.index]? = some c.member ∧
      ∃ s, (settled ms)[c.index]? = some s ∧ c.valued = s.valued? := by
  simp only [candidates, List.mem_mapIdx, List.getElem_zip, List.length_zip]
  constructor
  · rintro ⟨i, hi, rfl⟩
    obtain ⟨hm, hs⟩ : i < ms.length ∧ i < (settled ms).length := by omega
    exact ⟨List.getElem?_eq_getElem hm, _, List.getElem?_eq_getElem hs, rfl⟩
  · rintro ⟨hm, s, hs, hv⟩
    obtain ⟨hmi, hmg⟩ := List.getElem?_eq_some_iff.mp hm
    obtain ⟨hsi, hsg⟩ := List.getElem?_eq_some_iff.mp hs
    refine ⟨c.index, by omega, ?_⟩
    rw [hmg, hsg, ← hv]

theorem Slot.valued?_eq_some_iff {s : Slot} {v : Valued} : s.valued? = some v ↔ s = .found v := by
  cases s <;> simp [Slot.valued?]

/-- An enumerator comes from a member with a value that is no range marker and names none. -/
theorem mem_enumerators : e ∈ enumerators g settings ms ↔
    ∃ (i : Nat) (m : Member) (v : Valued), ms[i]? = some m ∧ (settled ms)[i]? = some (.found v) ∧
      isMarker m.name = false ∧ refersToMarker ms m = false ∧
      enumerator g settings ms (valueWidth ms) m v = e := by
  simp only [enumerators, List.mem_filterMap]
  constructor
  · rintro ⟨c, hc, he⟩
    obtain ⟨hm, s, hs, hv⟩ := mem_candidates.mp hc
    split at he
    case isTrue => simp at he
    case isFalse hmark =>
      obtain ⟨v, hcv, rfl⟩ := Option.map_eq_some_iff.mp he
      rw [hv, Slot.valued?_eq_some_iff] at hcv
      simp only [Bool.or_eq_true, not_or, Bool.not_eq_true] at hmark
      exact ⟨c.index, c.member, v, hm, hcv ▸ hs, hmark.1, hmark.2, rfl⟩
  · rintro ⟨i, m, v, hm, hs, hmark, href, rfl⟩
    exact ⟨⟨i, m, some v⟩, mem_candidates.mpr ⟨hm, .found v, hs, rfl⟩, by simp [hmark, href]⟩

/-- An enumerator has the value of its member. -/
theorem exists_hasValue_of_mem_enumerators (hd : (ms.map Member.name).Nodup)
    (he : e ∈ enumerators g settings ms) :
    ∃ (i : Nat) (m : Member) (d : Nat), ms[i]? = some m ∧ m.name = e.sourceName ∧
      HasValue ms i e.value ∧ ReferenceDepth ms i d ∧ isMarker m.name = false ∧
      refersToMarker ms m = false ∧
      enumerator g settings ms (valueWidth ms) m ⟨e.value, d⟩ = e := by
  obtain ⟨i, m, v, hm, hs, hmarker, href, rfl⟩ := mem_enumerators.mp he
  obtain ⟨hvalue, hdepth⟩ : HasValue ms i v.value ∧ ReferenceDepth ms i v.depth :=
    (sound_settled hd).truthful hs
  exact ⟨i, m, v.depth, hm, rfl, hvalue, hdepth, hmarker, href, rfl⟩

/-- The target of a reference is a member of its name. -/
theorem exists_of_target?_eq_some {t : Member} (h : target? ms m = some t) :
    (∃ j : Nat, ms[j]? = some t) ∧ m.value = .reference t.name := by
  unfold target? at h
  split at h
  case h_1 name hv =>
    obtain rfl : t.name = name := by simpa using List.find?_some h
    exact ⟨List.mem_iff_getElem?.mp (List.mem_of_find?_eq_some h), hv⟩
  case h_2 => simp at h

/-- The key of an alias tells how many references lie before the first member that is none. -/
theorem sortKey_of_target_isSome {width : Nat} {v : Valued} (hm : ms[i]? = some m)
    (hr : ReferenceDepth ms i v.depth)
    (ht : (enumerator g settings ms width m v).target.isSome) :
    (enumerator g settings ms width m v).sortKey = aliasKey v.depth m.name := by
  obtain ⟨t, ht⟩ := Option.isSome_iff_exists.mp (Option.isSome_map ▸ ht)
  have hv := (exists_of_target?_eq_some ht).2
  have hne : v.depth ≠ 0 := by
    intro h0
    rw [h0] at hr
    cases hr with
    | here hm' hn => exact hn t.name (Option.some_inj.mp (hm.symm.trans hm') ▸ hv)
  simp [enumerator, hne]

theorem map_member_candidates (hd : (ms.map Member.name).Nodup) :
    (candidates ms).map Candidate.member = ms := by
  refine List.ext_getElem (by simp [candidates, length_settled hd]) fun i h₁ h₂ => ?_
  simp [candidates]

private theorem sourceNames_filterMap_sublist {f : Candidate → Option Enumerator}
    (hf : ∀ c e, f c = some e → e.sourceName = c.member.name) (cs : List Candidate) :
    ((cs.filterMap f).map Enumerator.sourceName).Sublist
      ((cs.map Candidate.member).map Member.name) := by
  induction cs with
  | nil => exact .slnil
  | cons c cs ih =>
    cases hc : f c with
    | none => simpa [List.filterMap_cons, hc] using ih.cons _
    | some e => simpa [List.filterMap_cons, hc, hf c e hc] using ih

/-- The source names of enumerators are names of members, in order. -/
theorem sourceNames_sublist (hd : (ms.map Member.name).Nodup) :
    ((enumerators g settings ms).map Enumerator.sourceName).Sublist (ms.map Member.name) := by
  conv_rhs => rw [← map_member_candidates hd]
  refine sourceNames_filterMap_sublist (fun c e he => ?_) _
  split at he
  · simp at he
  · obtain ⟨v, -, rfl⟩ := Option.map_eq_some_iff.mp he
    rfl

/-- No two enumerators share a source name. -/
theorem nodup_sourceNames (hd : (ms.map Member.name).Nodup) :
    ((enumerators g settings ms).map Enumerator.sourceName).Nodup :=
  hd.sublist (sourceNames_sublist hd)

/-! ### Order -/

/-- The order of keys is transitive. -/
theorem precedes_trans (a b c : Enumerator) (hab : precedes a b) (hbc : precedes b c) :
    precedes a c := by
  simp only [precedes, decide_eq_true_eq] at hab hbc ⊢
  exact String.le_trans hab hbc

theorem precedes_total (a b : Enumerator) : precedes a b || precedes b a := by
  simpa [precedes] using String.le_total a.sortKey b.sortKey

/-- An enumerator in order never has a greater key than one behind it. -/
theorem pairwise_ordered (g : Group) (settings : Settings) :
    (g.ordered settings).Pairwise fun a b => a.sortKey ≤ b.sortKey := by
  have h : (g.ordered settings).Pairwise fun a b => precedes a b = true :=
    List.pairwise_mergeSort precedes_trans precedes_total _
  exact h.imp fun hab => by simpa [precedes] using hab

/-- Ordering drops nothing. -/
theorem mem_ordered :
    e ∈ g.ordered settings ↔ e ∈ enumerators g settings (g.participants settings) :=
  List.mem_mergeSort

/-- What has a value becomes an enumerator with it unless a range marker stands in the way. -/
theorem exists_mem_ordered (hm : (g.participants settings)[i]? = some m)
    (hv : HasValue (g.participants settings) i v) (hmark : isMarker m.name = false)
    (href : refersToMarker (g.participants settings) m = false) :
    ∃ e ∈ g.ordered settings, e.sourceName = m.name ∧ e.value = v := by
  obtain ⟨d, hs⟩ := (settled_eq_found_iff (g.nodup_names_participants settings)).mpr hv
  exact ⟨_, mem_ordered.mpr (mem_enumerators.mpr ⟨i, m, ⟨v, d⟩, hm, hs, hmark, href, rfl⟩),
    rfl, rfl⟩

/-- Enumerators whose keys differ have one order only. -/
theorem ordered_eq_of_strict {es : List Enumerator}
    (hperm : es.Perm (enumerators g settings (g.participants settings)))
    (hstrict : es.Pairwise fun a b => a.sortKey < b.sortKey) : g.ordered settings = es := by
  have hne : ∀ {a b : Enumerator}, a.sortKey < b.sortKey → a.sortKey ≠ b.sortKey :=
    fun h heq => String.lt_irrefl _ (heq ▸ h)
  have hkeys : (es.map Enumerator.sortKey).Nodup := List.pairwise_map.mpr (hstrict.imp hne)
  have hordered : (g.ordered settings).Perm es := (List.mergeSort_perm _ _).trans hperm.symm
  refine hordered.eq_of_pairwise (fun a b ha hb hab hba => ?_) (pairwise_ordered g settings)
    (hstrict.imp fun h => String.not_lt.mp (String.lt_asymm h))
  exact List.inj_on_of_nodup_map hkeys (hordered.mem_iff.mp ha) hb (String.le_antisymm hab hba)

/-! ### Names that are taken -/

theorem uniquelyNamed_sublist (taken : List String) (es : List Enumerator) :
    (uniquelyNamed taken es).Sublist es := by
  induction es generalizing taken with
  | nil => exact .slnil
  | cons e es ih =>
    rw [uniquelyNamed]
    split
    · exact (ih _).cons e
    · exact (ih _).cons_cons e

/-- Every enumerator either keeps its name or is left out. -/
theorem perm_uniquelyNamed_append_nameClashes (taken : List String) (es : List Enumerator) :
    (uniquelyNamed taken es ++ nameClashes taken es).Perm es := by
  induction es generalizing taken with
  | nil => exact .nil
  | cons e es ih =>
    rw [uniquelyNamed, nameClashes]
    split
    · exact List.perm_middle.trans ((ih _).cons e)
    · exact (ih _).cons e

end Resolution

namespace Group

open Resolution Relation

/-- What is declared are the enumerators in order whose names are free. -/
theorem members_resolve (g : Group) (settings : Settings) :
    (g.resolve settings).value.members = uniquelyNamed [] (g.ordered settings) :=
  rfl

/-- No two enumerators in order share a source name. -/
theorem nodup_sourceNames_ordered (g : Group) (settings : Settings) :
    ((g.ordered settings).map Enumerator.sourceName).Nodup :=
  ((List.mergeSort_perm _ _).map _).nodup_iff.mpr
    (nodup_sourceNames (g.nodup_names_participants settings))

/-- Every member that is declared is an enumerator. -/
theorem mem_enumerators_of_mem_resolve {g : Group} {settings : Settings} {e : Enumerator}
    (h : e ∈ (g.resolve settings).value.members) :
    e ∈ enumerators g settings (g.participants settings) :=
  mem_ordered.mp ((uniquelyNamed_sublist [] _).mem h)

theorem mem_ordered_of_mem_resolve {g : Group} {settings : Settings} {e : Enumerator}
    (h : e ∈ (g.resolve settings).value.members) : e ∈ g.ordered settings :=
  (uniquelyNamed_sublist [] _).mem h

/-- What is in order is declared, or its friendly name is taken, and then an event tells so. -/
theorem mem_resolve_or_friendlyNameTaken {g : Group} {settings : Settings} {e : Enumerator}
    (h : e ∈ g.ordered settings) :
    e ∈ (g.resolve settings).value.members ∨
      .friendlyNameTaken g.name e.sourceName e.friendlyName ∈ (g.resolve settings).events := by
  have hperm := perm_uniquelyNamed_append_nameClashes [] (g.ordered settings)
  rcases List.mem_append.mp (hperm.mem_iff.mpr h) with hdeclared | htaken
  · exact .inl hdeclared
  · have hevent := List.mem_map_of_mem htaken
      (f := fun e => Event.friendlyNameTaken g.name e.sourceName e.friendlyName)
    exact .inr (List.mem_append_left _ (List.mem_append_right _ hevent))

theorem mem_of_mem_participants {g : Group} {settings : Settings} {m : Member}
    (h : m ∈ g.participants settings) : m ∈ g.members :=
  (List.mem_filter.mp (mem_and_fresh_of_mem_firsts h).1).1

/-- What an enumerator shows comes from a member of the group, and from another one if it is an
alias. -/
theorem exists_members_of_mem_resolve {g : Group} {settings : Settings} {e : Enumerator}
    (h : e ∈ (g.resolve settings).value.members) :
    ∃ m ∈ g.members, ∃ v, e.sourceName = m.name ∧
      e.friendlyName = friendlyName g.name m.name settings.bitSuffix ∧ e.literal = literalOf m v ∧
      e.comment = m.comment ∧
      ∀ a ∈ e.target, ∃ t ∈ g.members,
        a = ⟨friendlyName g.name t.name settings.bitSuffix, t.name⟩ := by
  obtain ⟨i, m, v, hm, -, -, -, rfl⟩ := mem_enumerators.mp (mem_enumerators_of_mem_resolve h)
  refine ⟨m, mem_of_mem_participants (List.mem_of_getElem? hm), v.value, rfl, rfl, rfl, rfl,
    fun a ha => ?_⟩
  obtain ⟨t, ht, rfl⟩ := Option.map_eq_some_iff.mp ha
  obtain ⟨⟨j, hj⟩, -⟩ := exists_of_target?_eq_some ht
  exact ⟨t, mem_of_mem_participants (List.mem_of_getElem? hj), rfl⟩

/-- **Values are the least solution of the rules of C.** The passes come to an end after as many of
them as there are members at most, and they find the values that the rules give and no others: none
for a member whose way leads to a cycle or to a member without a value. What has a value becomes an
enumerator with it unless a range marker stands in the way, and this is declared unless an event
tells that its friendly name is taken. The key of an alias counts the references on its way. -/
theorem resolve_least_solution (g : Group) (settings : Settings) :
    let ms := g.participants settings
    (∃ n ≤ ms.length, settled ms = (pass ms)^[n] (ms.map Slot.initial)) ∧
    pass ms (settled ms) = settled ms ∧
    (∀ i v, (∃ d, (settled ms)[i]? = some (.found ⟨v, d⟩)) ↔ HasValue ms i v) ∧
    (∀ i j, ReflTransGen (TakesFrom ms) i j →
      LacksValue ms j ∨ TransGen (TakesFrom ms) j j → ∀ v, (settled ms)[i]? ≠ some (.found v)) ∧
    (∀ i m v, ms[i]? = some m → HasValue ms i v → isMarker m.name = false →
      refersToMarker ms m = false → ∃ e ∈ g.ordered settings, e.sourceName = m.name ∧ e.value = v ∧
        (e ∈ (g.resolve settings).value.members ∨
          .friendlyNameTaken g.name m.name e.friendlyName ∈ (g.resolve settings).events)) ∧
    ∀ e ∈ (g.resolve settings).value.members, ∃ i m, ms[i]? = some m ∧ e.sourceName = m.name ∧
      HasValue ms i e.value ∧
      (e.target.isSome → ∃ d, ReferenceDepth ms i d ∧ e.sortKey = aliasKey d m.name) := by
  intro ms
  have hd : (ms.map Member.name).Nodup := g.nodup_names_participants settings
  refine ⟨?_, pass_settle ms _, fun i v => settled_eq_found_iff hd, ?_, ?_, ?_⟩
  · obtain ⟨n, hn, heq⟩ := exists_settle_eq_iterate ms (ms.map Slot.initial)
    refine ⟨n, Nat.le_trans hn ?_, heq⟩
    simpa using (List.count_le_length : (ms.map Slot.initial).count .pending ≤ _)
  · intro i j hr hj v hv
    exact not_hasValue_of_reaches hd hr hj ((settled_eq_found_iff hd).mp ⟨v.depth, hv⟩)
  · intro i m v hm hv hmark href
    obtain ⟨e, he, hname, hvalue⟩ := exists_mem_ordered hm hv hmark href
    exact ⟨e, he, hname, hvalue, hname ▸ mem_resolve_or_friendlyNameTaken he⟩
  · intro e he
    obtain ⟨i, m, v, hm, hs, -, -, rfl⟩ := mem_enumerators.mp (mem_enumerators_of_mem_resolve he)
    have htrue : HasValue ms i v.value ∧ ReferenceDepth ms i v.depth :=
      (sound_settled hd).truthful hs
    exact ⟨i, m, hm, rfl, htrue.1, fun ht => ⟨v.depth, htrue.2,
      sortKey_of_target_isSome hm htrue.2 ht⟩⟩

end Group

end Enumerant
