import Enumerant.Proofs.Resolution.Enumerators
import Enumerant.Proofs.Resolution.SortKey
import Enumerant.Proofs.Text.Bytes
import Mathlib.Data.Fintype.Card
import Mathlib.Data.List.Sort

/-!
# The order of enumerators

Enumerators are put in order by their keys, which are texts. `Before` says what this order is:
values first, by their size and then in the order of declaration, and aliases behind them, by the
number of references to a value and then by the bytes of their names. Keys have room for every value
of 128 bits (`valueWidth_le`) and for the depths of fewer than ten thousand members
(`ReferenceDepth.lt_length`), so a group of that size is in this order, and an alias stands behind
all members that it leads to (`pairwise_before_resolve`).
-/

namespace Enumerant

open Text

namespace Resolution

variable {g : Group} {settings : Settings} {ms : List Member} {i d n : Nat} {m : Member}
  {e f : Enumerator} {v : Int} {a b : String}

/-! ### Bounds -/

/-- Heights are bounded by the number of indices if every index has one height at most and no height
is left out below another. -/
theorem height_lt {R : Nat → Nat → Prop} (hindex : ∀ i h, R i h → i < n)
    (hunique : ∀ i h h', R i h → R i h' → h = h') (hbelow : ∀ i h, R i (h + 1) → ∃ j, R j h)
    {h : Nat} (hi : R i h) : h < n := by
  have hall : ∀ k ≤ h, ∃ j, R j k := fun k hk => by
    induction hk using Nat.decreasingInduction with
    | self => exact ⟨i, hi⟩
    | of_succ k _ ih =>
      obtain ⟨j, hj⟩ := ih
      exact hbelow j k hj
  choose f hf using fun k : Fin (h + 1) => hall k (Nat.le_of_lt_succ k.isLt)
  have hinj : Function.Injective fun k => (⟨f k, hindex _ _ (hf k)⟩ : Fin n) := by
    intro k k' hk
    have heq : f k = f k' := congrArg Fin.val hk
    exact Fin.ext (hunique _ _ _ (hf k) (heq ▸ hf k'))
  exact Nat.lt_of_succ_le (by simpa using Fintype.card_le_of_injective _ hinj)

theorem ReferenceDepth.exists_member (h : ReferenceDepth ms i d) : ∃ m, ms[i]? = some m := by
  cases h with
  | here hm | there hm => exact ⟨_, hm⟩

/-- There are fewer references on a way than members. -/
theorem ReferenceDepth.lt_length (hd : (ms.map Member.name).Nodup) (h : ReferenceDepth ms i d) :
    d < ms.length := by
  refine height_lt (R := ReferenceDepth ms) (fun i d h => ?_) (fun _ _ _ h h' => h.unique hd h')
    (fun i d h => ?_) h
  · obtain ⟨m, hm⟩ := h.exists_member
    exact (List.getElem?_eq_some_iff.mp hm).1
  · cases h with
    | there hm ht hv h => exact ⟨_, h⟩

/-- The literals of some members fit into 128 bits. -/
def LiteralsFit (ms : List Member) : Prop :=
  ∀ m ∈ ms, ∀ v text, m.value = .literal v text → Fits v

/-- Then every value does, for counting wraps. -/
theorem HasValue.fits (hfits : LiteralsFit ms) (h : HasValue ms i v) : Fits v := by
  induction h with
  | literal hm hvalue => exact hfits _ (List.mem_of_getElem? hm) _ _ hvalue
  | first => decide
  | successor => exact fits_wrapped _
  | reference hm ht hvalue h ih => exact ih

/-! ### Widths -/

theorem mem_values_iff (hd : (ms.map Member.name).Nodup) :
    v ∈ (candidates ms).filterMap (fun c => c.valued.map Valued.value) ↔
      ∃ i, HasValue ms i v := by
  rw [List.mem_filterMap]
  constructor
  · rintro ⟨c, hc, hv⟩
    obtain ⟨-, s, hs, hvalued⟩ := mem_candidates.mp hc
    obtain ⟨w, hw, rfl⟩ := Option.map_eq_some_iff.mp hv
    rw [hvalued, Slot.valued?_eq_some_iff] at hw
    exact ⟨c.index, (settled_eq_found_iff hd).mp ⟨w.depth, hw ▸ hs⟩⟩
  · rintro ⟨i, h⟩
    obtain ⟨m, hm⟩ := h.exists_member
    obtain ⟨d, hs⟩ := (settled_eq_found_iff hd).mpr h
    exact ⟨⟨i, m, some ⟨v, d⟩⟩, mem_candidates.mpr ⟨hm, _, hs, rfl⟩, rfl⟩

/-- Every value finds room in the width of keys. -/
theorem HasValue.natAbs_lt (hd : (ms.map Member.name).Nodup) (h : HasValue ms i v) :
    v.natAbs < 16 ^ valueWidth ms :=
  natAbs_lt_pow_keyWidth ((mem_values_iff hd).mpr ⟨i, h⟩)

/-- The keys of values of 128 bits take 32 digits at most. -/
theorem valueWidth_le (hd : (ms.map Member.name).Nodup) (hfits : LiteralsFit ms) :
    valueWidth ms ≤ 32 := by
  refine keyWidth_le_of_fits fun v hv => ?_
  obtain ⟨i, h⟩ := (mem_values_iff hd).mp hv
  exact h.fits hfits

/-! ### Keys of enumerators -/

/-- The member of a name is a number of references away from the first one on its way that is
none. -/
def DepthOf (ms : List Member) (name : String) (d : Nat) : Prop :=
  ∃ i m, ms[i]? = some m ∧ m.name = name ∧ ReferenceDepth ms i d

theorem DepthOf.unique {d' : Nat} (hd : (ms.map Member.name).Nodup) (h : DepthOf ms a d)
    (h' : DepthOf ms a d') : d = d' := by
  obtain ⟨i, m, hm, rfl, hi⟩ := h
  obtain ⟨j, n, hn, hname, hj⟩ := h'
  obtain rfl := index_eq_of_name_eq hd hm hn hname.symm
  exact hi.unique hd hj

/-- An enumerator is no alias if there are no references on its way. -/
theorem target_isSome_iff {width : Nat} {w : Valued} (hm : ms[i]? = some m)
    (h : ReferenceDepth ms i w.depth) :
    (enumerator g settings ms width m w).target.isSome ↔ w.depth ≠ 0 := by
  generalize hdepth : w.depth = d at h
  cases h with
  | here hm' hv =>
    obtain rfl := Option.some.inj (hm.symm.trans hm')
    have hnone : target? ms m = none := by
      unfold target?
      split
      case h_1 name hname => exact absurd hname (hv name)
      case h_2 => rfl
    simp [enumerator, hnone]
  | there hm' ht hv h =>
    obtain rfl := Option.some.inj (hm.symm.trans hm')
    have hsome : (target? ms m).isSome := by
      rw [target?, hv, List.find?_isSome]
      exact ⟨_, List.mem_of_getElem? ht, beq_self_eq_true _⟩
    simpa [enumerator] using hsome

/-- What an enumerator is and which key it has: that of a value or that of an alias. -/
structure Keyed (ms : List Member) (e : Enumerator) (d : Nat) : Prop where
  depthOf : DepthOf ms e.sourceName d
  natAbs_lt : e.value.natAbs < 16 ^ valueWidth ms
  target_isSome : e.target.isSome ↔ d ≠ 0
  sortKey_eq : e.sortKey = if d = 0 then literalKey e.value (valueWidth ms) else
    aliasKey d e.sourceName

theorem exists_keyed (hd : (ms.map Member.name).Nodup) (he : e ∈ enumerators g settings ms) :
    ∃ d, Keyed ms e d := by
  obtain ⟨i, m, v, hm, hs, -, -, rfl⟩ := mem_enumerators.mp he
  obtain ⟨hvalue, hdepth⟩ : HasValue ms i v.value ∧ ReferenceDepth ms i v.depth :=
    (sound_settled hd).truthful hs
  exact ⟨v.depth, ⟨i, m, hm, rfl, hdepth⟩, hvalue.natAbs_lt hd, target_isSome_iff hm hdepth, rfl⟩

/-! ### The order -/

/-- The order of enumerators: values by their size and then as they are declared, and behind them
aliases, by the number of references to a value and then by the bytes of their names. -/
inductive Before (g : Group) (ms : List Member) (e f : Enumerator) : Prop
  | values (he : e.target = none) (hf : f.target = none)
      (h : e.value < f.value ∨
        e.value = f.value ∧ DeclaredBefore g.members e.sourceName f.sourceName)
  | valueAlias (he : e.target = none) (hf : f.target.isSome)
  | aliases (he : e.target.isSome) (hf : f.target.isSome) {d d' : Nat}
      (hd : DepthOf ms e.sourceName d) (hd' : DepthOf ms f.sourceName d')
      (h : d < d' ∨ d = d' ∧ bytes e.sourceName < bytes f.sourceName)

theorem Keyed.target_eq_none (h : Keyed ms e 0) : e.target = none := by
  simpa using h.target_isSome

/-- Keys give the order if those of equal values are in the order of declaration. -/
theorem Keyed.before {d' : Nat} (he : Keyed ms e d) (hf : Keyed ms f d')
    (hwidth : valueWidth ms ≤ 32) (hdepth : d < 10 ^ 4) (hdepth' : d' < 10 ^ 4)
    (hname : e.sourceName ≠ f.sourceName) (hle : e.sortKey ≤ f.sortKey)
    (htie : f.sortKey ≤ e.sortKey → DeclaredBefore g.members e.sourceName f.sourceName) :
    Before g ms e f := by
  rw [he.sortKey_eq, hf.sortKey_eq] at hle htie
  -- A depth of zero is that of a value; the keys of aliases are of another form.
  by_cases hd : d = 0 <;> by_cases hd' : d' = 0
  · subst hd hd'
    rw [if_pos rfl, if_pos rfl] at hle htie
    have hkey : f.value < e.value ↔ _ := (literalKey_lt_literalKey_iff (keyWidth_pos _) hwidth
      hf.natAbs_lt he.natAbs_lt).symm
    refine .values he.target_eq_none hf.target_eq_none ?_
    rcases lt_or_eq_of_le (not_lt.mp (mt hkey.mp (String.not_lt.mpr hle))) with hlt | heq
    · exact .inl hlt
    · exact .inr ⟨heq, htie (heq ▸ le_rfl)⟩
  · exact .valueAlias (by simpa [hd] using he.target_isSome) (hf.target_isSome.mpr hd')
  · rw [if_neg hd, if_pos hd'] at hle
    exact absurd (literalKey_lt_aliasKey _ _ _ _) (String.not_lt.mpr hle)
  · rw [if_neg hd, if_neg hd'] at hle
    have hkey : aliasKey d' f.sourceName < aliasKey d e.sourceName ↔ _ :=
      aliasKey_lt_aliasKey_iff (by
        rw [Nat.le_antisymm ((depthWidth_le_iff le_rfl).mpr hdepth) (depthWidth_pos d),
          Nat.le_antisymm ((depthWidth_le_iff le_rfl).mpr hdepth') (depthWidth_pos d')])
    have hnot := mt hkey.mpr (String.not_lt.mpr hle)
    refine .aliases (he.target_isSome.mpr hd) (hf.target_isSome.mpr hd') he.depthOf hf.depthOf ?_
    rcases Nat.lt_trichotomy d d' with hlt | rfl | hgt
    · exact .inl hlt
    · refine .inr ⟨rfl, bytes_lt_bytes_iff.mpr ?_⟩
      rcases lt_trichotomy e.sourceName f.sourceName with hlt | heq | hgt
      · exact hlt
      · exact absurd heq hname
      · exact absurd (.inr ⟨rfl, hgt⟩) hnot
    · exact absurd (.inl hgt) hnot

/-- Sorting keeps the order of what compares equal. -/
theorem pairwise_mergeSort_stable {α : Type} {le : α → α → Bool} {r : α → α → Prop} {l : List α}
    (htrans : ∀ a b c, le a b → le b c → le a c) (htotal : ∀ a b, le a b || le b a)
    (h : l.Pairwise r) : (l.mergeSort le).Pairwise fun a b => le a b ∧ (le b a → r a b) := by
  have hperm := List.mergeSort_perm l.zipIdx (List.zipIdxLE le)
  have hsorted := List.pairwise_mergeSort (List.zipIdxLE_trans htrans)
    (List.zipIdxLE_total htotal) l.zipIdx
  have hindices : (l.zipIdx.mergeSort (List.zipIdxLE le)).Pairwise fun p q => p.2 ≠ q.2 := by
    rw [← List.pairwise_map (f := Prod.snd) (R := (· ≠ ·))]
    refine (hperm.map Prod.snd).nodup_iff.mpr ?_
    rw [List.zipIdx_map_snd]
    exact List.nodup_range'
  rw [← List.mergeSort_zipIdx, List.pairwise_map]
  refine (hsorted.and hindices).imp_of_mem fun {p q} hp hq ⟨hle, hne⟩ => ?_
  obtain ⟨hp', hp''⟩ := List.mem_zipIdx' (hperm.mem_iff.mp hp)
  obtain ⟨hq', hq''⟩ := List.mem_zipIdx' (hperm.mem_iff.mp hq)
  unfold List.zipIdxLE at hle
  split at hle
  case isFalse => cases hle
  case isTrue hle' =>
    refine ⟨hle', fun hge => ?_⟩
    rw [if_pos hge, decide_eq_true_eq] at hle
    rw [hp'', hq'']
    exact List.pairwise_iff_getElem.mp h _ _ hp' hq' (Nat.lt_of_le_of_ne hle hne)

theorem pairwise_declaredBefore_enumerators (g : Group) (settings : Settings) :
    (enumerators g settings (g.participants settings)).Pairwise fun e f =>
      DeclaredBefore g.members e.sourceName f.sourceName := by
  have hnames :
      ((g.participants settings).map Member.name).Pairwise (DeclaredBefore g.members) := by
    rw [g.participants_eq, List.pairwise_map]
    exact pairwise_firsts _ _
  rw [← List.pairwise_map (f := Enumerator.sourceName)]
  exact hnames.sublist (sourceNames_sublist (g.nodup_names_participants settings))

/-- Enumerators in order, before any of them is left out. -/
theorem pairwise_before_ordered (hfits : LiteralsFit g.members)
    (hlength : g.members.length < 10000) :
    (g.ordered settings).Pairwise (Before g (g.participants settings)) := by
  have hd := g.nodup_names_participants settings
  have hsublist : (g.participants settings).Sublist g.members := by
    rw [g.participants_eq]
    exact firsts_sublist _ _
  have hlength' : (g.participants settings).length < 10000 :=
    Nat.lt_of_le_of_lt hsublist.length_le hlength
  have hwidth := valueWidth_le hd fun m hm => hfits m (hsublist.mem hm)
  have hdepth : ∀ {e d}, Keyed (g.participants settings) e d → d < 10 ^ 4 := fun he => by
    obtain ⟨i, m, -, -, h⟩ := he.depthOf
    have := h.lt_length hd
    omega
  have hstable : (g.ordered settings).Pairwise _ := pairwise_mergeSort_stable precedes_trans
    precedes_total (pairwise_declaredBefore_enumerators g settings)
  have hnames : (g.ordered settings).Pairwise fun e f => e.sourceName ≠ f.sourceName :=
    List.pairwise_map.mp (g.nodup_sourceNames_ordered settings)
  refine (hstable.and hnames).imp_of_mem fun {e f} he hf ⟨⟨hle, htie⟩, hname⟩ => ?_
  obtain ⟨d, he⟩ := exists_keyed hd (mem_ordered.mp he)
  obtain ⟨d', hf⟩ := exists_keyed hd (mem_ordered.mp hf)
  simp only [precedes, decide_eq_true_eq] at hle htie
  exact he.before hf hwidth (hdepth he) (hdepth hf) hname hle htie

/-! ### References -/

/-- The member of one name refers to another name. -/
def Refers (ms : List Member) (a b : String) : Prop :=
  ∃ m ∈ ms, m.name = a ∧ m.value = .reference b

/-- References lead to members with fewer references on their way. -/
theorem exists_depthOf_of_refers (h : Relation.TransGen (Refers ms) a b) (hb : DepthOf ms b d) :
    ∃ d', DepthOf ms a d' ∧ d < d' := by
  have step : ∀ {a b d}, Refers ms a b → DepthOf ms b d → DepthOf ms a (d + 1) := by
    rintro a b d ⟨m, hm, rfl, hv⟩ ⟨j, t, ht, rfl, hdepth⟩
    obtain ⟨i, hi⟩ := List.mem_iff_getElem?.mp hm
    exact ⟨i, m, hi, rfl, .there hi ht hv hdepth⟩
  induction h using Relation.TransGen.head_induction_on with
  | single h => exact ⟨d + 1, step h hb, Nat.lt_succ_self d⟩
  | head h _ ih =>
    obtain ⟨d', hd', hlt⟩ := ih
    exact ⟨d' + 1, step h hd', Nat.lt_succ_of_lt hlt⟩

/-- What is in front of an enumerator by the rules leads to no member with more references. -/
theorem Before.depth_le {d' : Nat} (hd : (ms.map Member.name).Nodup) (h : Before g ms e f)
    (he : Keyed ms e d) (hf : Keyed ms f d') : d ≤ d' := by
  cases h with
  | values he' _ _ | valueAlias he' _ =>
    have hd0 : d = 0 := by simpa [he'] using he.target_isSome
    omega
  | aliases _ _ hd₁ hd₂ h =>
    obtain rfl := hd₁.unique hd he.depthOf
    obtain rfl := hd₂.unique hd hf.depthOf
    omega

/-- **The order of an enumeration.** The members of a group of fewer than ten thousand are declared
in order: first those that are no aliases, by value and then as they are declared in the source, and
then the aliases, by the number of references on their way and then by name. So every member stands
behind those that it refers to, directly or through others. -/
theorem pairwise_before_resolve (g : Group) (settings : Settings) (hfits : LiteralsFit g.members)
    (hlength : g.members.length < 10000) :
    (g.resolve settings).value.members.Pairwise (Before g (g.participants settings)) ∧
      ∀ pre e post, (g.resolve settings).value.members = pre ++ e :: post →
        ∀ u ∈ (g.resolve settings).value.members,
          Relation.TransGen (Refers (g.participants settings)) e.sourceName u.sourceName →
            u ∈ pre := by
  have hd := g.nodup_names_participants settings
  have horder : (g.resolve settings).value.members.Pairwise (Before g (g.participants settings)) :=
    (pairwise_before_ordered hfits hlength).sublist (uniquelyNamed_sublist [] _)
  refine ⟨horder, fun pre e post hes u hu hrefers => ?_⟩
  have hkeyed : ∀ {e}, e ∈ (g.resolve settings).value.members →
      ∃ d, Keyed (g.participants settings) e d :=
    fun he => exists_keyed hd (Group.mem_enumerators_of_mem_resolve he)
  obtain ⟨d, hu'⟩ := hkeyed hu
  obtain ⟨d', he'⟩ := hkeyed (hes ▸ by simp : e ∈ (g.resolve settings).value.members)
  obtain ⟨k, hk, hlt⟩ := exists_depthOf_of_refers hrefers hu'.depthOf
  obtain rfl := hk.unique hd he'.depthOf
  rw [hes] at hu horder
  -- What is referred to has the smaller depth, so it is neither the member itself nor behind it.
  rcases List.mem_append.mp hu with hu | hu
  · exact hu
  rcases List.mem_cons.mp hu with rfl | hu
  · exact absurd (hu'.depthOf.unique hd he'.depthOf) (Nat.ne_of_lt hlt)
  · have hbefore := (List.pairwise_cons.mp (List.pairwise_append.mp horder).2.1).1 u hu
    exact absurd (hbefore.depth_le hd he' hu') (Nat.not_le.mpr hlt)

/-- Values on both sides of zero that are not declared in their order, and aliases in front of what
they stand for. -/
def levels : Group where
  name := "Level"
  kind := .plain
  members :=
    [⟨"LEVEL_ROOF", .reference "LEVEL_TOP", none⟩, ⟨"LEVEL_TOP", .reference "LEVEL_MID", none⟩,
      ⟨"LEVEL_MID", .decimal 16, none⟩, ⟨"LEVEL_CELLAR", .decimal (-3), none⟩,
      ⟨"LEVEL_PIT", .decimal (-17), none⟩, ⟨"LEVEL_HALF", .decimal 8, none⟩,
      ⟨"LEVEL_GROUND", .reference "LEVEL_MID", none⟩]

theorem literalsFit_levels : LiteralsFit levels.members := by
  have hdecimal : ∀ w, Fits w → ∀ v text, Initializer.decimal w = .literal v text → Fits v := by
    rintro w hw v text ⟨⟩
    exact hw
  exact List.forall_mem_cons.mpr ⟨nofun, List.forall_mem_cons.mpr ⟨nofun,
    List.forall_mem_cons.mpr ⟨hdecimal _ (by decide), List.forall_mem_cons.mpr
      ⟨hdecimal _ (by decide), List.forall_mem_cons.mpr ⟨hdecimal _ (by decide),
        List.forall_mem_cons.mpr ⟨hdecimal _ (by decide), List.forall_mem_singleton.mpr nofun⟩⟩⟩⟩⟩⟩

/-- The order of the levels. -/
theorem pairwise_before_levels :
    LiteralsFit levels.members ∧ levels.members.length < 10000 ∧
      (levels.resolve {}).value.members.map Enumerator.sourceName =
        ["LEVEL_PIT", "LEVEL_CELLAR", "LEVEL_HALF", "LEVEL_MID", "LEVEL_GROUND", "LEVEL_TOP",
          "LEVEL_ROOF"] ∧
      (levels.resolve {}).value.members.Pairwise (Before levels (levels.participants {})) := by
  have hlength : levels.members.length < 10000 := by decide
  refine ⟨literalsFit_levels, hlength, ?_,
    (pairwise_before_resolve levels {} literalsFit_levels hlength).1⟩
  rw [Group.members_resolve, ordered_eq_of_strict
    (List.perm_insertionSort (fun a b => a.sortKey ≤ b.sortKey) _) (by decide +kernel)]
  decide +kernel

end Resolution

end Enumerant
