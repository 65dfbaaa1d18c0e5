import Mathlib.Data.List.Find
import Mathlib.Data.List.Pairwise
import Enumerant.Proofs.Naming.Characters
import Enumerant.Proofs.Resolution.Order

/-!
# Members in another order

Without implicit members nothing of a resolved group depends on the order of declaration. A member
then takes its value from a literal by way of names alone (`HasValue.of_subset`), so the same
enumerators come of it wherever it stands (`enumerators_perm`). If names are words and the values of
literals differ, then so do the keys of all enumerators (`eq_of_sortKey_eq`), and there is only one
way to put them in order (`ordered_eq_of_perm`). Which friendly names are taken is decided after
that. `Group.value_resolve_of_perm` puts this together.
-/

namespace Enumerant

open Header

namespace Resolution

variable {g : Group} {settings : Settings} {ms ns : List Member} {m : Member} {e f : Enumerator}
  {i j d d' width : Nat} {v w : Int} {name name' : String}

/-! ### Values found by name -/

/-- No value of the members is counted on from the one before. -/
def NoneImplicit (ms : List Member) : Prop :=
  ∀ m ∈ ms, m.value ≠ .implicit

instance (ms : List Member) : Decidable (NoneImplicit ms) :=
  inferInstanceAs (Decidable (∀ m ∈ ms, m.value ≠ .implicit))

/-- Without implicit members a value stays when others are added. -/
theorem HasValue.of_subset (himplicit : NoneImplicit ms) (hsubset : ms ⊆ ns)
    (h : HasValue ms i v) (hm : ms[i]? = some m) (hj : ns[j]? = some m) : HasValue ns j v := by
  induction h generalizing m j with
  | literal hn hvalue =>
    obtain rfl := Option.some.inj (hm.symm.trans hn)
    exact .literal hj hvalue
  | first hn hvalue | successor hn hvalue _ _ =>
    exact absurd hvalue (himplicit _ (List.mem_of_getElem? hn))
  | reference hn ht hvalue _ ih =>
    obtain rfl := Option.some.inj (hm.symm.trans hn)
    obtain ⟨k, hk⟩ := List.mem_iff_getElem?.mp (hsubset (List.mem_of_getElem? ht))
    exact .reference hj hk hvalue (ih ht hk)

/-- So does the depth of a reference. -/
theorem ReferenceDepth.of_subset (hsubset : ms ⊆ ns) (h : ReferenceDepth ms i d)
    (hm : ms[i]? = some m) (hj : ns[j]? = some m) : ReferenceDepth ns j d := by
  induction h generalizing m j with
  | here hn hvalue =>
    obtain rfl := Option.some.inj (hm.symm.trans hn)
    exact .here hj hvalue
  | there hn ht hvalue _ ih =>
    obtain rfl := Option.some.inj (hm.symm.trans hn)
    obtain ⟨k, hk⟩ := List.mem_iff_getElem?.mp (hsubset (List.mem_of_getElem? ht))
    exact .there hj hk hvalue (ih ht hk)

/-! ### Enumerators in any order -/

/-- A target is found by its name in any order. -/
theorem target?_of_perm (hd : (ms.map Member.name).Nodup) (hperm : ms.Perm ns) (m : Member) :
    target? ms m = target? ns m := by
  unfold target?
  split
  case h_1 name _ =>
    refine List.find?_eq_find?_of_perm hperm fun a ha b hb => ?_
    have hname : a.name = b.name := (beq_iff_eq.mp ha.2).trans (beq_iff_eq.mp hb.2).symm
    exact List.inj_on_of_nodup_map hd ha.1 hb.1 hname
  case h_2 => rfl

theorem keyWidth_congr {vs ws : List Int} (h : ∀ v, v ∈ vs ↔ v ∈ ws) :
    keyWidth vs = keyWidth ws := by
  refine Nat.le_antisymm ?_ ?_
  · exact (keyWidth_le_iff (keyWidth_pos ws)).mpr fun v hv =>
      natAbs_lt_pow_keyWidth ((h v).mp hv)
  · exact (keyWidth_le_iff (keyWidth_pos vs)).mpr fun v hv =>
      natAbs_lt_pow_keyWidth ((h v).mpr hv)

section Permutation

variable (hd : (ms.map Member.name).Nodup) (himplicit : NoneImplicit ms) (hperm : ms.Perm ns)

include hperm

theorem NoneImplicit.of_perm (himplicit : NoneImplicit ms) : NoneImplicit ns :=
  fun m hm => himplicit m (hperm.mem_iff.mpr hm)

theorem nodup_names_of_perm (hd : (ms.map Member.name).Nodup) : (ns.map Member.name).Nodup :=
  (hperm.map Member.name).nodup_iff.mp hd

include hd himplicit

/-- Keys have the same width in any order. -/
theorem valueWidth_of_perm : valueWidth ms = valueWidth ns := by
  have hvalues : ∀ {ms ns : List Member} {v : Int}, NoneImplicit ms → ms.Perm ns →
      (∃ i, HasValue ms i v) → ∃ j, HasValue ns j v := by
    rintro ms ns v himplicit hperm ⟨i, h⟩
    obtain ⟨m, hm⟩ := h.exists_member
    obtain ⟨j, hj⟩ := List.mem_iff_getElem?.mp (hperm.subset (List.mem_of_getElem? hm))
    exact ⟨j, h.of_subset himplicit hperm.subset hm hj⟩
  refine keyWidth_congr fun v => ?_
  rw [mem_values_iff hd, mem_values_iff (nodup_names_of_perm hperm hd)]
  exact ⟨hvalues himplicit hperm, hvalues (himplicit.of_perm hperm) hperm.symm⟩

/-- What a member comes to among others, it comes to among the same ones in another order. -/
theorem mem_enumerators_of_perm (he : e ∈ enumerators g settings ms) :
    e ∈ enumerators g settings ns := by
  obtain ⟨i, m, v, hm, hs, hmarker, href, rfl⟩ := mem_enumerators.mp he
  obtain ⟨hvalue, hdepth⟩ := (getElem?_settled_eq_found_iff hd).mp hs
  obtain ⟨j, hj⟩ := List.mem_iff_getElem?.mp (hperm.subset (List.mem_of_getElem? hm))
  have hs' : (settled ns)[j]? = some (.found v) :=
    (getElem?_settled_eq_found_iff (nodup_names_of_perm hperm hd)).mpr
      ⟨hvalue.of_subset himplicit hperm.subset hm hj, hdepth.of_subset hperm.subset hm hj⟩
  have htarget := target?_of_perm hd hperm m
  refine mem_enumerators.mpr ⟨j, m, v, hj, hs', hmarker, ?_, ?_⟩
  · rw [refersToMarker, ← htarget]
    exact href
  · rw [enumerator, enumerator, ← htarget, valueWidth_of_perm hd himplicit hperm]

/-- **The same members come to the same enumerators**, whatever their order. -/
theorem enumerators_perm : (enumerators g settings ms).Perm (enumerators g settings ns) := by
  have hd' := nodup_names_of_perm hperm hd
  refine (List.perm_ext_iff_of_nodup (nodup_sourceNames hd).of_map
    (nodup_sourceNames hd').of_map).mpr fun e => ⟨fun he => ?_, fun he => ?_⟩
  · exact mem_enumerators_of_perm hd himplicit hperm he
  · exact mem_enumerators_of_perm hd' (himplicit.of_perm hperm) hperm.symm he

end Permutation

/-! ### Keys without ties -/

/-- The value of a member that is a literal. -/
def literalValue? (m : Member) : Option Int :=
  match m.value with
  | .literal value _ => some value
  | _ => none

/-- No two literals of the members have one value. -/
def LiteralsDiffer (ms : List Member) : Prop :=
  (ms.filterMap literalValue?).Nodup

instance (ms : List Member) : Decidable (LiteralsDiffer ms) :=
  inferInstanceAs (Decidable (ms.filterMap literalValue?).Nodup)

/-- A value is the literal of one member at most. -/
theorem LiteralsDiffer.eq {n : Member} (h : LiteralsDiffer ms) (hm : m ∈ ms) (hn : n ∈ ms)
    (hv : literalValue? m = some v) (hv' : literalValue? n = some v) : m = n := by
  by_contra hne
  have hpairwise := List.pairwise_filterMap.mp h
  have hsymm : Std.Symm fun m n =>
      ∀ v, literalValue? m = some v → ∀ w, literalValue? n = some w → v ≠ w :=
    ⟨fun _ _ h w hw v hv => (h v hv w hw).symm⟩
  exact hpairwise.forall hm hn hne v hv v hv' rfl

/-- Every value is that of a literal. -/
theorem HasValue.exists_literal (himplicit : NoneImplicit ms) (h : HasValue ms i v) :
    ∃ m ∈ ms, literalValue? m = some v := by
  induction h with
  | literal hm hvalue => exact ⟨_, List.mem_of_getElem? hm, by rw [literalValue?, hvalue]⟩
  | first hm hvalue | successor hm hvalue _ _ =>
    exact absurd hvalue (himplicit _ (List.mem_of_getElem? hm))
  | reference _ _ _ _ ih => exact ih

/-- An enumerator with the key of a value is a literal. -/
theorem Keyed.exists_literal (hd : (ms.map Member.name).Nodup) (himplicit : NoneImplicit ms)
    (he : e ∈ enumerators g settings ms) (h : Keyed ms e 0) :
    ∃ m ∈ ms, m.name = e.sourceName ∧ literalValue? m = some e.value := by
  obtain ⟨i, m, d, hm, hname, hvalue, hdepth, -⟩ := exists_hasValue_of_mem_enumerators hd he
  obtain rfl : d = 0 := DepthOf.unique hd ⟨i, m, hm, hname, hdepth⟩ h.depthOf
  have hmem := List.mem_of_getElem? hm
  refine ⟨m, hmem, hname, ?_⟩
  generalize e.value = v at hvalue ⊢
  cases hvalue with
  | literal hn hliteral =>
    obtain rfl := Option.some.inj (hm.symm.trans hn)
    rw [literalValue?, hliteral]
  | first hn hliteral | successor hn hliteral _ =>
    exact absurd hliteral (himplicit _ (List.mem_of_getElem? hn))
  | reference hn ht href _ =>
    cases hdepth with
    | here hk hne =>
      obtain rfl := Option.some.inj (hn.symm.trans hk)
      exact absurd href (hne _)

section Keys

variable (hd : (ms.map Member.name).Nodup) (himplicit : NoneImplicit ms)
  (hwords : ∀ m ∈ ms, IsWord m.name.toList) (hfits : LiteralsFit ms) (hdiffer : LiteralsDiffer ms)

include hd himplicit

include hwords hfits hdiffer

/-- **No two enumerators have one key.** The keys of values differ as the values do, and those of
aliases as the names do, which begin where the digits of the depth end. -/
theorem eq_of_sortKey_eq (he : e ∈ enumerators g settings ms) (hf : f ∈ enumerators g settings ms)
    (h : e.sortKey = f.sortKey) : e = f := by
  have hnames : e.sourceName = f.sourceName → e = f :=
    List.inj_on_of_nodup_map (nodup_sourceNames hd) he hf
  obtain ⟨d, hkeyed⟩ := exists_keyed hd he
  obtain ⟨d', hkeyed'⟩ := exists_keyed hd hf
  rw [hkeyed.sortKey_eq, hkeyed'.sortKey_eq] at h
  -- Literals have depth zero, and their keys come before those of references.
  by_cases hzero : d = 0 <;> by_cases hzero' : d' = 0
  · subst hzero hzero'
    rw [if_pos rfl, if_pos rfl] at h
    have hvalue : e.value = f.value := literalKey_inj (keyWidth_pos _)
      (valueWidth_le hd hfits) hkeyed.natAbs_lt hkeyed'.natAbs_lt h
    obtain ⟨m, hm, hname, hv⟩ := hkeyed.exists_literal hd himplicit he
    obtain ⟨n, hn, hname', hv'⟩ := hkeyed'.exists_literal hd himplicit hf
    obtain rfl := hdiffer.eq hm hn hv (hvalue ▸ hv')
    exact hnames (hname.symm.trans hname')
  · rw [if_pos hzero, if_neg hzero'] at h
    exact absurd h (literalKey_lt_aliasKey _ _ _ _).ne
  · rw [if_neg hzero, if_pos hzero'] at h
    exact absurd h.symm (literalKey_lt_aliasKey _ _ _ _).ne
  · rw [if_neg hzero, if_neg hzero'] at h
    have hword : ∀ {e d}, Keyed ms e d → ∀ c ∈ e.sourceName.toList.head?, c.isDigit = false := by
      rintro e d hkeyed c hc
      obtain ⟨i, m, hm, hname, -⟩ := hkeyed.depthOf
      obtain ⟨⟨a, ha, hstart⟩, -⟩ := hwords m (List.mem_of_getElem? hm)
      obtain rfl := Option.some.inj (ha.symm.trans (hname ▸ hc))
      exact Bool.eq_false_iff.mpr fun hdigit => by
        simp [not_isWordStart_of_isDigit hdigit] at hstart
    exact hnames (name_eq_of_aliasKey_eq (hword hkeyed) (hword hkeyed') h)

end Keys

/-! ### One order -/

theorem firsts_eq_self {seen : List String} (hd : (ms.map Member.name).Nodup)
    (hseen : ∀ m ∈ ms, m.name ∉ seen) : firsts seen ms = ms := by
  induction ms generalizing seen with
  | nil => rfl
  | cons m ms ih =>
    obtain ⟨hm, hms⟩ := List.forall_mem_cons.mp hseen
    obtain ⟨hname, hd⟩ := List.nodup_cons.mp hd
    rw [firsts, if_neg hm, ih hd]
    intro n hn hmem
    rcases List.mem_cons.mp hmem with heq | hmem
    · exact hname (heq ▸ List.mem_map_of_mem hn)
    · exact hms n hn hmem

end Resolution

namespace Group

open Resolution

variable {g : Group} {settings : Settings} {ns : List Member}

/-- Where all names differ, all members take part that are not left out. -/
theorem participants_of_nodup (hd : (g.members.map Member.name).Nodup) :
    g.participants settings = included g (settings.options g.name) :=
  firsts_eq_self (hd.sublist (List.filter_sublist.map Member.name))
    fun _ _ => List.not_mem_nil

/-- The members that take part are the same in any order. -/
theorem participants_perm (hd : (g.members.map Member.name).Nodup) (hperm : g.members.Perm ns) :
    (g.participants settings).Perm ({ g with members := ns }.participants settings) := by
  rw [participants_of_nodup hd,
    participants_of_nodup (g := { g with members := ns }) (nodup_names_of_perm hperm hd)]
  exact hperm.filter _

/-- The enumerators with values have one order only. -/
theorem ordered_eq_of_perm (hperm : g.members.Perm ns)
    (himplicit : NoneImplicit g.members) (hd : (g.members.map Member.name).Nodup)
    (hwords : ∀ m ∈ g.members, IsWord m.name.toList) (hfits : LiteralsFit g.members)
    (hdiffer : LiteralsDiffer g.members) :
    { g with members := ns }.ordered settings = g.ordered settings := by
  have hsublist : (g.participants settings).Sublist g.members := by
    rw [participants_of_nodup hd]
    exact List.filter_sublist
  have hd' := g.nodup_names_participants settings
  have himplicit' : NoneImplicit (g.participants settings) :=
    fun m hm => himplicit m (hsublist.mem hm)
  have hordered : ({ g with members := ns }.ordered settings).Perm (g.ordered settings) := by
    refine (List.mergeSort_perm _ _).trans (.trans ?_ (List.mergeSort_perm _ _).symm)
    exact (enumerators_perm (g := g) hd' himplicit' (participants_perm hd hperm)).symm
  refine hordered.eq_of_pairwise (fun e f he hf hef hfe => ?_) (pairwise_ordered _ settings)
    (pairwise_ordered g settings)
  exact eq_of_sortKey_eq hd' himplicit' (fun m hm => hwords m (hsublist.mem hm))
    (fun m hm => hfits m (hsublist.mem hm)) (hdiffer.sublist (hsublist.filterMap _))
    (mem_ordered.mp (hordered.mem_iff.mp he)) (mem_ordered.mp hf) (String.le_antisymm hef hfe)

/-- **The order of declaration does not matter.** Members in another order resolve to the same
enumeration, if none of them is implicit, their names are words that differ, and the values of their
literals differ. -/
theorem value_resolve_of_perm (g : Group) (settings : Settings) (ns : List Member)
    (hperm : g.members.Perm ns) (himplicit : NoneImplicit g.members)
    (hd : (g.members.map Member.name).Nodup) (hwords : ∀ m ∈ g.members, IsWord m.name.toList)
    (hfits : LiteralsFit g.members) (hdiffer : LiteralsDiffer g.members) :
    ({ g with members := ns }.resolve settings).value = (g.resolve settings).value := by
  have hordered : { g with members := ns }.ordered settings = g.ordered settings :=
    ordered_eq_of_perm hperm himplicit hd hwords hfits hdiffer
  simp only [Group.resolve, hordered]

/-- The levels, declared from the last to the first. -/
theorem value_resolve_levels_reverse :
    NoneImplicit levels.members ∧ (levels.members.map Member.name).Nodup ∧
      (∀ m ∈ levels.members, IsWord m.name.toList) ∧ LiteralsFit levels.members ∧
      LiteralsDiffer levels.members ∧
      ({ levels with members := levels.members.reverse }.resolve {}).value =
        (levels.resolve {}).value := by
  have himplicit : NoneImplicit levels.members := by decide
  have hd : (levels.members.map Member.name).Nodup := by decide
  have hwords : ∀ m ∈ levels.members, IsWord m.name.toList := by decide +kernel
  have hdiffer : LiteralsDiffer levels.members := by decide
  exact ⟨himplicit, hd, hwords, literalsFit_levels, hdiffer,
    value_resolve_of_perm levels {} _ (List.reverse_perm _).symm himplicit hd hwords
      literalsFit_levels hdiffer⟩

end Group

end Enumerant
