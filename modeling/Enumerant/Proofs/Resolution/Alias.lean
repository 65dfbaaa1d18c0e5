import Enumerant.Proofs.Resolution.Enumerators
import Enumerant.Proofs.Resolution.SortKey

/-!
# Aliases and what they stand for

An alias is declared under the friendly name of the member that it refers to, so that member should
be declared before it. `AliasClosed` says so. The name is looked up among the members with a value,
though, and three things can still happen to the member that has it: it may be an alias of a range
marker, its friendly name may be taken, and its key may be the greater one.
`aliasClosed_resolve_iff` shows that nothing else stands against an alias.
-/

namespace Enumerant

namespace Resolution

variable {g : Group} {settings : Settings} {ms : List Member} {i d : Nat} {m t : Member}
  {e u : Enumerator} {a : Alias} {pre post : List Enumerator}

/-- Every alias stands behind the enumerator that it is declared by, which has its value. -/
def AliasClosed (es : List Enumerator) : Prop :=
  ∀ pre e post a, es = pre ++ e :: post → e.target = some a →
    ∃ u ∈ pre, u.sourceName = a.sourceName ∧ u.friendlyName = a.friendlyName ∧ u.value = e.value

/-! ### The member that an alias refers to -/

/-- An alias comes from a reference to a member that has its value and is no range marker. -/
theorem exists_target_of_mem_enumerators (hd : (ms.map Member.name).Nodup)
    (he : e ∈ enumerators g settings ms) (ha : e.target = some a) :
    ∃ (i j : Nat) (m t : Member) (d : Nat), ms[i]? = some m ∧ ms[j]? = some t ∧
      ReferenceDepth ms i (d + 1) ∧ (settled ms)[j]? = some (.found ⟨e.value, d⟩) ∧
      isMarker t.name = false ∧ e.sourceName = m.name ∧ e.sortKey = aliasKey (d + 1) m.name ∧
      a = ⟨friendlyName g.name t.name settings.bitSuffix, t.name⟩ := by
  obtain ⟨i, m, v, hm, hs, -, hmark, rfl⟩ := mem_enumerators.mp he
  obtain ⟨hval, hdepth⟩ : HasValue ms i v.value ∧ ReferenceDepth ms i v.depth :=
    (sound_settled hd).truthful hs
  obtain ⟨t, ht, rfl⟩ := Option.map_eq_some_iff.mp ha
  obtain ⟨⟨j, hj⟩, href⟩ := exists_of_target?_eq_some ht
  rw [hasValue_iff hd, origin_reference hd hm hj href] at hval
  obtain ⟨d, hfound⟩ := (settled_eq_found_iff hd).mpr hval
  obtain ⟨-, hd'⟩ : HasValue ms j v.value ∧ ReferenceDepth ms j d :=
    (sound_settled hd).truthful hfound
  obtain hv : v.depth = d + 1 := hdepth.unique hd (.there hm hj href hd')
  refine ⟨i, j, m, t, d, hm, hj, hv ▸ hdepth, hfound, ?_, rfl, ?_, rfl⟩
  · simpa [refersToMarker, ht] using hmark
  · simp [enumerator, hv]

/-- The key of the member that an alias refers to is that of a depth less by one, or of a value. -/
theorem sortKey_target_lt {name : String} {v : Int} (hk : ∀ k, 4 ≤ k → d + 1 ≠ 10 ^ k) :
    (enumerator g settings ms (valueWidth ms) t ⟨v, d⟩).sortKey < aliasKey (d + 1) name := by
  unfold enumerator
  dsimp only
  split
  · exact literalKey_lt_aliasKey _ _ _ _
  · exact aliasKey_succ_lt_iff.mpr hk

theorem lt_sortKey_target {name : String} {v : Int} {k : Nat} (hk : 4 ≤ k) (hd : d + 1 = 10 ^ k) :
    aliasKey (d + 1) name < (enumerator g settings ms (valueWidth ms) t ⟨v, d⟩).sortKey := by
  have hne : d ≠ 0 := by
    rintro rfl
    have : 1 < 10 ^ k := Nat.one_lt_pow (by omega) (by decide)
    omega
  simpa [enumerator, hne] using aliasKey_pow_lt hk hd

/-! ### What can happen to it -/

/-- Nothing happens to the member that an alias refers to: it is no alias of a range marker, no
other enumerator has taken its friendly name, and the number of references from the alias on is no
power of ten that takes more digits than a key has room for. -/
structure Undisturbed (g : Group) (settings : Settings) (e : Enumerator) (a : Alias) : Prop where
  not_refersToMarker : ∀ t ∈ g.participants settings, t.name = a.sourceName →
    refersToMarker (g.participants settings) t = false
  name_free : ∀ u ∈ nameClashes [] (g.ordered settings), u.sourceName ≠ a.sourceName
  depth_ne : ∀ i m d k, (g.participants settings)[i]? = some m → m.name = e.sourceName →
    ReferenceDepth (g.participants settings) i d → 4 ≤ k → d ≠ 10 ^ k

/-- An enumerator that keeps its name has no source name in common with one that is left out. -/
theorem sourceName_ne_of_mem_nameClashes (h : u ∈ (g.resolve settings).value.members)
    (he : e ∈ nameClashes [] (g.ordered settings)) : e.sourceName ≠ u.sourceName := by
  have hperm := perm_uniquelyNamed_append_nameClashes [] (g.ordered settings)
  have hnd := ((hperm.map Enumerator.sourceName).nodup_iff.mpr
    (g.nodup_sourceNames_ordered settings))
  rw [List.map_append] at hnd
  intro hname
  exact List.disjoint_of_nodup_append hnd (List.mem_map_of_mem h)
    (hname ▸ List.mem_map_of_mem he)

/-- What has a smaller key stands in front. -/
theorem mem_left_of_sortKey_lt
    (hsorted : (pre ++ e :: post).Pairwise fun a b => a.sortKey ≤ b.sortKey)
    (hu : u ∈ pre ++ e :: post) (hlt : u.sortKey < e.sortKey) : u ∈ pre := by
  have hpost : ∀ w ∈ post, e.sortKey ≤ w.sortKey :=
    (List.pairwise_cons.mp (List.pairwise_append.mp hsorted).2.1).1
  rcases List.mem_append.mp hu with hu | hu
  · exact hu
  · rcases List.mem_cons.mp hu with rfl | hu
    · exact absurd hlt (String.lt_irrefl _)
    · exact absurd hlt (String.not_lt.mpr (hpost u hu))

section Target

variable (hes : (g.resolve settings).value.members = pre ++ e :: post) (ha : e.target = some a)

include hes

theorem pairwise_sortKey_of_resolve_eq :
    (pre ++ e :: post).Pairwise fun a b => a.sortKey ≤ b.sortKey :=
  hes ▸ (pairwise_ordered g settings).sublist (uniquelyNamed_sublist [] _)

theorem mem_enumerators_of_resolve_eq (hu : u ∈ pre ++ e :: post) :
    u ∈ enumerators g settings (g.participants settings) :=
  Group.mem_enumerators_of_mem_resolve (hes ▸ hu)

include ha

/-- Nothing happens to a member that stands in front of its alias: as no two members share a name,
it is the one referred to. -/
theorem undisturbed_of_mem (hu : u ∈ pre) (hsource : u.sourceName = a.sourceName) :
    Undisturbed g settings e a := by
  have hd := g.nodup_names_participants settings
  obtain ⟨i, j, m, t, d, hm, ht, hdepth, hs, -, hname, hkey, rfl⟩ :=
    exists_target_of_mem_enumerators hd (mem_enumerators_of_resolve_eq hes (by simp)) ha
  obtain ⟨k, n, w, hn, hw, -, href, rfl⟩ :=
    mem_enumerators.mp (mem_enumerators_of_resolve_eq hes (List.mem_append_left _ hu))
  obtain rfl : k = j := index_eq_of_name_eq hd hn ht hsource
  obtain rfl : n = t := Option.some_inj.mp (hn.symm.trans ht)
  obtain rfl : w = ⟨e.value, d⟩ := by simpa using hw.symm.trans hs
  constructor
  · intro t' ht' hname'
    rwa [List.inj_on_of_nodup_map hd ht' (List.mem_of_getElem? ht) hname']
  · exact fun c hc =>
      sourceName_ne_of_mem_nameClashes (hes ▸ List.mem_append_left _ hu) hc
  · intro i' m' d' k' hm' hname' hdepth' hk hpow
    obtain rfl : i' = i := index_eq_of_name_eq hd hm' hm (hname'.trans hname)
    obtain rfl : d' = d + 1 := hdepth'.unique hd hdepth
    have hle := (List.pairwise_append.mp (pairwise_sortKey_of_resolve_eq hes)).2.2 _ hu e
      List.mem_cons_self
    rw [hkey] at hle
    exact hle (lt_sortKey_target hk hpow)

/-- A member to which nothing happens stands in front of its alias: it has an enumerator, of a
smaller key, and its friendly name is free. -/
theorem exists_mem_of_undisturbed (h : Undisturbed g settings e a) :
    ∃ u ∈ pre, u.sourceName = a.sourceName ∧ u.friendlyName = a.friendlyName ∧
      u.value = e.value := by
  have hd := g.nodup_names_participants settings
  obtain ⟨i, j, m, t, d, hm, ht, hdepth, hs, hmark, hname, hkey, rfl⟩ :=
    exists_target_of_mem_enumerators hd (mem_enumerators_of_resolve_eq hes (by simp)) ha
  have href := h.not_refersToMarker t (List.mem_of_getElem? ht) rfl
  have hlt : (enumerator g settings (g.participants settings)
      (valueWidth (g.participants settings)) t ⟨e.value, d⟩).sortKey < e.sortKey := by
    rw [hkey]
    exact sortKey_target_lt fun k hk => h.depth_ne i m _ k hm hname.symm hdepth hk
  generalize hu : enumerator _ _ _ _ t ⟨e.value, d⟩ = u at hlt
  have hordered : u ∈ g.ordered settings :=
    mem_ordered.mpr (mem_enumerators.mpr ⟨j, t, _, ht, hs, hmark, href, hu⟩)
  have hfree : u ∉ nameClashes [] (g.ordered settings) :=
    fun hc => h.name_free u hc (hu ▸ rfl)
  have hkept : u ∈ pre ++ e :: post := by
    rw [← hes, Group.members_resolve]
    have hperm := perm_uniquelyNamed_append_nameClashes [] (g.ordered settings)
    exact (List.mem_append.mp (hperm.mem_iff.mpr hordered)).resolve_right hfree
  refine ⟨u, mem_left_of_sortKey_lt (pairwise_sortKey_of_resolve_eq hes) hkept hlt, ?_⟩
  rw [← hu]
  exact ⟨rfl, rfl, rfl⟩

end Target

/-- **Which enumerations are closed under what their aliases stand for.** They are those in which
nothing happens to the member that an alias refers to. -/
theorem aliasClosed_resolve_iff (g : Group) (settings : Settings) :
    AliasClosed (g.resolve settings).value.members ↔
      ∀ e ∈ (g.resolve settings).value.members, ∀ a, e.target = some a →
        Undisturbed g settings e a := by
  constructor
  · intro h e he a ha
    obtain ⟨pre, post, hes⟩ := List.append_of_mem he
    obtain ⟨u, hu, hsource, -, -⟩ := h pre e post a hes ha
    exact undisturbed_of_mem hes ha hu hsource
  · intro h pre e post a hes ha
    exact exists_mem_of_undisturbed hes ha (h e (hes ▸ by simp) a ha)

/-- Two members whose names differ in their case alone, and an alias of the second one, which has no
friendly name of its own. -/
def caseTwins : Group where
  name := "Color"
  kind := .plain
  members :=
    [⟨"Color_Red", .decimal 1, none⟩, ⟨"COLOR_RED", .decimal 2, none⟩,
      ⟨"COLOR_X", .reference "COLOR_RED", none⟩]

/-- The alias is declared without the member that it refers to: it stands for the other twin, whose
value is another one. -/
theorem not_aliasClosed_caseTwins : ¬ AliasClosed (caseTwins.resolve {}).value.members := by
  have hsorted : caseTwins.ordered {} = enumerators caseTwins {} (caseTwins.participants {}) :=
    List.mergeSort_of_pairwise (by decide +kernel)
  have hes : (caseTwins.resolve {}).value.members =
      [⟨"Color_Red", "Red", 1, "1", none, none, "011"⟩] ++
        ⟨"COLOR_X", "X", 2, "2", some ⟨"Red", "COLOR_RED"⟩, none, "10001COLOR_X"⟩ :: [] := by
    rw [Group.members_resolve, hsorted]
    decide +kernel
  intro h
  obtain ⟨u, hu, hsource, -, -⟩ := h _ _ _ _ hes rfl
  rw [List.mem_singleton.mp hu] at hsource
  revert hsource
  decide

end Resolution

end Enumerant
