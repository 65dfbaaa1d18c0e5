import Enumerant.Proofs.Resolution.Enumerators
import Mathlib.Data.List.Infix

/-!
# What leaving members out does to values

A member that is left out is not there any more when values are found, so an implicit member behind
it counts on from another value (`Seam`), and whatever takes its value from there changes alike. The
value of any other member stays. `value_eq_iff_of_exclude` says which values are the same: those
whose way does not reach such a place, and those that happen to count on from the same value there.
-/

namespace Enumerant

open Relation

namespace Resolution

variable {ms : List Member} {exclude : List String} {a b c m t : Member} {i : Nat} {u v w : Int}
  {name : String}

/-! ### Values of members -/

/-- A member has a value among others. -/
def ValueOf (ms : List Member) (m : Member) (v : Int) : Prop :=
  ∃ i, ms[i]? = some m ∧ HasValue ms i v

/-- What an implicit member counts on from: the value of the member directly in front of it, or the
number before zero if there is none. -/
def CountsFrom (ms : List Member) (m : Member) (u : Int) : Prop :=
  (∃ a, [a, m] <:+: ms ∧ ValueOf ms a u) ∨ ms.head? = some m ∧ u = -1

/-- Two members stand next to each other if their indexes do. -/
theorem infix_pair_iff : [a, b] <:+: ms ↔ ∃ i : Nat, ms[i]? = some a ∧ ms[i + 1]? = some b := by
  constructor
  · rintro ⟨front, behind, rfl⟩
    exact ⟨front.length, by simp, by simp⟩
  · rintro ⟨i, ha, hb⟩
    obtain ⟨hi, rfl⟩ := List.getElem?_eq_some_iff.mp ha
    obtain ⟨hi', rfl⟩ := List.getElem?_eq_some_iff.mp hb
    refine ⟨ms.take i, ms.drop (i + 2), ?_⟩
    rw [List.append_assoc]
    conv_rhs => rw [← List.take_append_drop i ms, List.drop_eq_getElem_cons hi,
      List.drop_eq_getElem_cons hi']
    rfl

/-- There is one member in front of another at most. -/
theorem eq_of_infix_pair (hd : (ms.map Member.name).Nodup) (ha : [a, m] <:+: ms)
    (hb : [b, m] <:+: ms) : a = b := by
  obtain ⟨i, hai, hi⟩ := infix_pair_iff.mp ha
  obtain ⟨j, hbj, hj⟩ := infix_pair_iff.mp hb
  obtain rfl : i = j := Nat.succ.inj (index_eq_of_name_eq hd hi hj rfl)
  exact Option.some.inj (hai.symm.trans hbj)

/-- The value of a member is the value at its index. -/
theorem ValueOf.hasValue (hd : (ms.map Member.name).Nodup) (h : ValueOf ms m v)
    (hm : ms[i]? = some m) : HasValue ms i v := by
  obtain ⟨j, hj, h⟩ := h
  rwa [index_eq_of_name_eq hd hm hj rfl]

/-- A member has one value at most. -/
theorem ValueOf.unique (hd : (ms.map Member.name).Nodup) (h : ValueOf ms m v)
    (h' : ValueOf ms m w) : v = w := by
  obtain ⟨i, hm, h⟩ := h
  exact h.unique hd (h'.hasValue hd hm)

/-- A literal has its own value. -/
theorem ValueOf.eq_of_literal {text : String} (hd : (ms.map Member.name).Nodup)
    (hvalue : m.value = .literal v text) (h : ValueOf ms m w) : w = v := by
  obtain ⟨i, hm, h⟩ := h
  exact h.unique hd (.literal hm hvalue)

/-- An implicit member has the value that comes next after the one that it counts on from. -/
theorem ValueOf.countsFrom (hvalue : m.value = .implicit) (h : ValueOf ms m v) :
    ∃ u, CountsFrom ms m u ∧ v = wrapped (u + 1) := by
  obtain ⟨i, hm, h⟩ := h
  cases h with
  | literal hn hv | reference hn _ hv _ =>
    obtain rfl := Option.some.inj (hm.symm.trans hn)
    cases hvalue.symm.trans hv
  | first hn _ => exact ⟨-1, .inr ⟨by rw [List.head?_eq_getElem?, hm], rfl⟩, rfl⟩
  | successor hn hv h =>
    obtain ⟨a, ha⟩ := h.exists_member
    exact ⟨_, .inl ⟨a, infix_pair_iff.mpr ⟨_, ha, hm⟩, _, ha, h⟩, rfl⟩

/-- An implicit value has been wrapped. -/
theorem ValueOf.fits_of_implicit (hvalue : m.value = .implicit) (h : ValueOf ms m v) : Fits v := by
  obtain ⟨u, -, rfl⟩ := h.countsFrom hvalue
  exact fits_wrapped _

/-- A reference has the value of the member that it names. -/
theorem ValueOf.exists_target (hvalue : m.value = .reference name) (h : ValueOf ms m v) :
    ∃ t ∈ ms, t.name = name ∧ ValueOf ms t v := by
  obtain ⟨i, hm, h⟩ := h
  cases h with
  | literal hn hv | first hn hv | successor hn hv _ =>
    obtain rfl := Option.some.inj (hm.symm.trans hn)
    cases hvalue.symm.trans hv
  | reference hn ht hv h =>
    obtain rfl := Option.some.inj (hm.symm.trans hn)
    exact ⟨_, List.mem_of_getElem? ht, Initializer.reference.inj (hv.symm.trans hvalue), _, ht, h⟩

/-- Nothing stands in front of the first member. -/
theorem head?_ne_of_infix_pair (hd : (ms.map Member.name).Nodup) (ha : [a, m] <:+: ms) :
    ms.head? ≠ some m := by
  intro hhead
  obtain ⟨i, -, hi⟩ := infix_pair_iff.mp ha
  rw [List.head?_eq_getElem?] at hhead
  cases index_eq_of_name_eq hd hi hhead rfl

/-- What is counted from is the value of the member in front. -/
theorem CountsFrom.valueOf (hd : (ms.map Member.name).Nodup) (h : CountsFrom ms m u)
    (ha : [a, m] <:+: ms) : ValueOf ms a u := by
  rcases h with ⟨b, hb, hu⟩ | ⟨hhead, -⟩
  · exact eq_of_infix_pair hd hb ha ▸ hu
  · exact absurd hhead (head?_ne_of_infix_pair hd ha)

/-- A member counts from one value at most. -/
theorem CountsFrom.unique (hd : (ms.map Member.name).Nodup) (h : CountsFrom ms m u)
    (h' : CountsFrom ms m v) : u = v := by
  rcases h with ⟨a, ha, hu⟩ | ⟨hhead, rfl⟩
  · exact hu.unique hd (h'.valueOf hd ha)
  · rcases h' with ⟨b, hb, -⟩ | ⟨-, rfl⟩
    · exact absurd hhead (head?_ne_of_infix_pair hd hb)
    · rfl

/-! ### The way of a value -/

/-- A member takes its value from another one that is not left out. -/
inductive Leads (ms : List Member) (exclude : List String) (m : Member) : Member → Prop
  | successor {a : Member} (h : [a, m] <:+: ms) (hvalue : m.value = .implicit)
      (ha : a.name ∉ exclude) : Leads ms exclude m a
  | reference {t : Member} (ht : t ∈ ms) (hvalue : m.value = .reference t.name)
      (ha : t.name ∉ exclude) : Leads ms exclude m t

/-- An implicit member stands directly behind one that is left out. -/
def Seam (ms : List Member) (exclude : List String) (m : Member) : Prop :=
  m.value = .implicit ∧ ∃ a, [a, m] <:+: ms ∧ a.name ∈ exclude

/-- Where the way of a member reaches a seam, the same value comes next there, whether members are
left out or not. For values that fit this is to count on from the same one (`wrapped_add_inj`). -/
def Steady (ms : List Member) (exclude : List String) (m : Member) : Prop :=
  ∀ b, ReflTransGen (Leads ms exclude) m b → Seam ms exclude b → ∀ u u', CountsFrom ms b u →
    CountsFrom (ms.filter (·.name ∉ exclude)) b u' → wrapped (u + 1) = wrapped (u' + 1)

theorem eq_of_mem_of_name_eq (hd : (ms.map Member.name).Nodup) (ha : a ∈ ms) (hb : b ∈ ms)
    (h : a.name = b.name) : a = b :=
  List.inj_on_of_nodup_map hd ha hb h

/-- A member counts from one member at most. -/
theorem Leads.unique (hd : (ms.map Member.name).Nodup) (ha : Leads ms exclude m a)
    (hb : Leads ms exclude m b) : a = b := by
  cases ha with
  | successor ha hv =>
    cases hb with
    | successor hb _ => exact eq_of_infix_pair hd ha hb
    | reference _ hv' _ => cases hv.symm.trans hv'
  | reference ha hv =>
    cases hb with
    | successor _ hv' _ => cases hv.symm.trans hv'
    | reference hb hv' _ =>
      exact eq_of_mem_of_name_eq hd ha hb (Initializer.reference.inj (hv.symm.trans hv'))

/-- A member that still counts from another is no seam. -/
theorem not_seam_of_leads (hd : (ms.map Member.name).Nodup) (h : Leads ms exclude m a) :
    ¬ Seam ms exclude m := by
  rintro ⟨himplicit, b, hb, hexclude⟩
  cases h with
  | successor ha _ hkept => exact hkept (eq_of_infix_pair hd ha hb ▸ hexclude)
  | reference _ hv _ => cases himplicit.symm.trans hv

/-- A way goes on where its first step leads. -/
theorem steady_iff_of_leads (hd : (ms.map Member.name).Nodup) (h : Leads ms exclude m a) :
    Steady ms exclude m ↔ Steady ms exclude a := by
  refine ⟨fun hm b hb => hm b (.head h hb), fun ha b hb hseam => ?_⟩
  rcases ReflTransGen.cases_head hb with rfl | ⟨c, hc, hb⟩
  · exact absurd hseam (not_seam_of_leads hd h)
  · obtain rfl := h.unique hd hc
    exact ha b hb hseam

/-- A way without a step ends at once. -/
theorem steady_iff_of_not_leads (h : ∀ a, ¬ Leads ms exclude m a) :
    Steady ms exclude m ↔ (Seam ms exclude m → ∀ u u', CountsFrom ms m u →
      CountsFrom (ms.filter (·.name ∉ exclude)) m u' → wrapped (u + 1) = wrapped (u' + 1)) := by
  refine ⟨fun hm => hm m .refl, fun hm b hb hseam => ?_⟩
  rcases ReflTransGen.cases_head hb with rfl | ⟨c, hc, -⟩
  · exact hm hseam
  · exact absurd hc (h c)

/-- The way of a literal has no step and no seam. -/
theorem steady_of_literal {text : String} (hvalue : m.value = .literal v text) :
    Steady ms exclude m := by
  have hnone : ∀ a, ¬ Leads ms exclude m a := by
    rintro a (⟨-, hv, -⟩ | ⟨-, hv, -⟩) <;> cases hvalue.symm.trans hv
  rw [steady_iff_of_not_leads hnone]
  rintro ⟨hv, -⟩
  cases hvalue.symm.trans hv

/-- Nor has the way of an implicit member at the front. -/
theorem steady_of_head? (hd : (ms.map Member.name).Nodup) (hvalue : m.value = .implicit)
    (hhead : ms.head? = some m) : Steady ms exclude m := by
  have hnone : ∀ a, ¬ Leads ms exclude m a := by
    rintro a (⟨ha, -, -⟩ | ⟨-, hv, -⟩)
    · exact head?_ne_of_infix_pair hd ha hhead
    · cases hvalue.symm.trans hv
  rw [steady_iff_of_not_leads hnone]
  rintro ⟨-, a, ha, -⟩
  exact absurd hhead (head?_ne_of_infix_pair hd ha)

/-- At a seam a way ends. -/
theorem steady_iff_of_seam (hd : (ms.map Member.name).Nodup) (h : Seam ms exclude m) :
    Steady ms exclude m ↔ ∀ u u', CountsFrom ms m u →
      CountsFrom (ms.filter (·.name ∉ exclude)) m u' → wrapped (u + 1) = wrapped (u' + 1) :=
  (steady_iff_of_not_leads fun _ ha => not_seam_of_leads hd ha h).trans (forall_prop_of_true h)

/-! ### Leaving out -/

theorem mem_filter_exclude : m ∈ ms.filter (·.name ∉ exclude) ↔ m ∈ ms ∧ m.name ∉ exclude := by
  simp

/-- Neighbours that are not left out stay neighbours. -/
theorem infix_filter (h : [a, b] <:+: ms) (ha : a.name ∉ exclude) (hb : b.name ∉ exclude) :
    [a, b] <:+: ms.filter (·.name ∉ exclude) := by
  simpa [ha, hb] using h.filter (·.name ∉ exclude)

/-- What comes first stays first unless it is left out. -/
theorem head?_filter (h : ms.head? = some m) (hm : m.name ∉ exclude) :
    (ms.filter (·.name ∉ exclude)).head? = some m := by
  obtain ⟨behind, rfl⟩ := List.head?_eq_some_iff.mp h
  simp [hm]

/-- The values of a member with and without some others differ only where they have been counted,
so that both fit. -/
theorem eq_or_fits (hd : (ms.map Member.name).Nodup) (h : HasValue ms i v)
    (hm : ms[i]? = some m) (hkept : m.name ∉ exclude)
    (hw : ValueOf (ms.filter (·.name ∉ exclude)) m w) : v = w ∨ Fits v ∧ Fits w := by
  have hd' : ((ms.filter (·.name ∉ exclude)).map Member.name).Nodup :=
    hd.sublist (List.filter_sublist.map _)
  induction h generalizing m w with
  | literal hn hv =>
    obtain rfl := Option.some.inj (hm.symm.trans hn)
    exact .inl (hw.eq_of_literal hd' hv).symm
  | first hn hv =>
    obtain rfl := Option.some.inj (hm.symm.trans hn)
    exact .inr ⟨by decide, hw.fits_of_implicit hv⟩
  | successor hn hv =>
    obtain rfl := Option.some.inj (hm.symm.trans hn)
    exact .inr ⟨fits_wrapped _, hw.fits_of_implicit hv⟩
  | reference hn ht hv h ih =>
    obtain rfl := Option.some.inj (hm.symm.trans hn)
    obtain ⟨t', ht', hname, hvalue⟩ := hw.exists_target hv
    obtain ⟨hmem, hexclude⟩ := mem_filter_exclude.mp ht'
    obtain rfl := eq_of_mem_of_name_eq hd hmem (List.mem_of_getElem? ht) hname
    exact ih ht hexclude hvalue

/-- **A value is the same with and without some members exactly if its way is steady.** -/
theorem eq_iff_steady (hd : (ms.map Member.name).Nodup) (h : HasValue ms i v)
    (hm : ms[i]? = some m) (hkept : m.name ∉ exclude)
    (hw : ValueOf (ms.filter (·.name ∉ exclude)) m w) : v = w ↔ Steady ms exclude m := by
  have hd' : ((ms.filter (·.name ∉ exclude)).map Member.name).Nodup :=
    hd.sublist (List.filter_sublist.map _)
  -- The induction is on how the value comes about where nothing is left out; the other value is
  -- read off the member.
  induction h generalizing m w with
  | literal hn hv =>
    obtain rfl := Option.some.inj (hm.symm.trans hn)
    exact iff_of_true (hw.eq_of_literal hd' hv).symm (steady_of_literal hv)
  | first hn hv =>
    obtain rfl := Option.some.inj (hm.symm.trans hn)
    have hhead : ms.head? = some m := List.head?_eq_getElem?.trans hm
    obtain ⟨u, hu, rfl⟩ := hw.countsFrom hv
    obtain rfl := hu.unique hd' (.inr ⟨head?_filter hhead hkept, rfl⟩)
    exact iff_of_true rfl (steady_of_head? hd hv hhead)
  | @successor j n v hn hv h ih =>
    obtain rfl := Option.some.inj (hm.symm.trans hn)
    obtain ⟨a, ha⟩ := h.exists_member
    have hpair : [a, m] <:+: ms := infix_pair_iff.mpr ⟨j, ha, hm⟩
    have hcounts : CountsFrom ms m v := .inl ⟨a, hpair, j, ha, h⟩
    obtain ⟨u, hcounts', rfl⟩ := hw.countsFrom hv
    by_cases hexclude : a.name ∈ exclude
    · rw [steady_iff_of_seam hd ⟨hv, a, hpair, hexclude⟩]
      constructor
      · intro heq u₁ u₂ hu₁ hu₂
        rw [hu₁.unique hd hcounts, hu₂.unique hd' hcounts', heq]
      · exact fun hsame => hsame v u hcounts hcounts'
    · -- The neighbour stays, so both values come next after its values.
      have hu := hcounts'.valueOf hd' (infix_filter hpair hexclude hkept)
      have hsteady : v = u ↔ Steady ms exclude a := ih ha hexclude hu
      rw [steady_iff_of_leads hd (.successor hpair hv hexclude), ← hsteady]
      constructor
      · intro hnext
        rcases eq_or_fits hd h ha hexclude hu with heq | ⟨hfits, hfits'⟩
        · exact heq
        · exact (wrapped_add_inj hfits hfits').mp hnext
      · exact fun heq => heq ▸ rfl
  | @reference i k n t v hn ht hv h ih =>
    obtain rfl := Option.some.inj (hm.symm.trans hn)
    obtain ⟨t', ht', hname, hvalue⟩ := hw.exists_target hv
    obtain ⟨hmem, hexclude⟩ := mem_filter_exclude.mp ht'
    obtain rfl := eq_of_mem_of_name_eq hd hmem (List.mem_of_getElem? ht) hname
    rw [steady_iff_of_leads hd (.reference hmem hv hexclude)]
    exact ih ht hexclude hvalue

/-- **Which values are the same if members are left out.** Of a group from which nothing is left out
otherwise, a member that is declared in either case has one value exactly if its way is steady. -/
theorem value_eq_iff_of_exclude (g : Group) (settings settings' : Settings)
    (hnone : (settings.options g.name).exclude = []) {e e' : Enumerator}
    (he : e ∈ (g.resolve settings).value.members)
    (he' : e' ∈ (g.resolve settings').value.members) (hname : e.sourceName = e'.sourceName) :
    ∃ m ∈ g.participants settings, m.name = e.sourceName ∧
      (e.value = e'.value ↔
        Steady (g.participants settings) (settings'.options g.name).exclude m) := by
  have hd := g.nodup_names_participants settings
  obtain ⟨i, m, -, hm, hsource, hvalue, -⟩ :=
    exists_hasValue_of_mem_enumerators hd (Group.mem_enumerators_of_mem_resolve he)
  obtain ⟨j, m', -, hm', hsource', hvalue', -⟩ :=
    exists_hasValue_of_mem_enumerators (g.nodup_names_participants settings')
      (Group.mem_enumerators_of_mem_resolve he')
  rw [← Group.filter_participants hnone] at hm' hvalue'
  obtain ⟨hmem, hkept⟩ := mem_filter_exclude.mp (List.mem_of_getElem? hm')
  obtain rfl : m = m' := eq_of_mem_of_name_eq hd (List.mem_of_getElem? hm) hmem
    (hsource.trans (hname.trans hsource'.symm))
  exact ⟨m, hmem, hsource, eq_iff_steady hd hvalue hm hkept ⟨j, hm', hvalue'⟩⟩

/-- Tones that count on from a first one and from a third one. -/
def tones : Group where
  name := "Tone"
  kind := .plain
  members :=
    [⟨"TONE_A", .decimal 5, none⟩, ⟨"TONE_B", .implicit, none⟩, ⟨"TONE_C", .decimal 9, none⟩,
      ⟨"TONE_D", .implicit, none⟩]

/-- Settings that leave the first tone out. -/
def withoutFirstTone : Settings where
  groups := [("Tone", { exclude := ["TONE_A"] })]

theorem members_resolve_tones : (tones.resolve {}).value.members =
    [⟨"TONE_A", "A", 5, "5", none, none, "015"⟩, ⟨"TONE_B", "B", 6, "6", none, none, "016"⟩,
      ⟨"TONE_C", "C", 9, "9", none, none, "019"⟩,
      ⟨"TONE_D", "D", 10, "10", none, none, "01a"⟩] := by
  rw [Group.members_resolve, Group.ordered, List.mergeSort_of_pairwise (by decide +kernel)]
  decide +kernel

theorem members_resolve_withoutFirstTone : (tones.resolve withoutFirstTone).value.members =
    [⟨"TONE_B", "B", 0, "0", none, none, "010"⟩, ⟨"TONE_C", "C", 9, "9", none, none, "019"⟩,
      ⟨"TONE_D", "D", 10, "10", none, none, "01a"⟩] := by
  rw [Group.members_resolve, Group.ordered, List.mergeSort_of_pairwise (by decide +kernel)]
  decide +kernel

/-- The fourth tone keeps its value, so its way is steady. -/
theorem value_eq_iff_tones : ((({} : Settings).options tones.name).exclude = []) ∧
    ⟨"TONE_D", "D", 10, "10", none, none, "01a"⟩ ∈ (tones.resolve {}).value.members ∧
    ⟨"TONE_D", "D", 10, "10", none, none, "01a"⟩ ∈
      (tones.resolve withoutFirstTone).value.members ∧
    ∃ m ∈ tones.participants {}, m.name = "TONE_D" ∧
      Steady (tones.participants {}) (withoutFirstTone.options tones.name).exclude m := by
  have hnone : (({} : Settings).options tones.name).exclude = [] := by decide
  have he : ⟨"TONE_D", "D", 10, "10", none, none, "01a"⟩ ∈ (tones.resolve {}).value.members := by
    simp [members_resolve_tones]
  have he' : ⟨"TONE_D", "D", 10, "10", none, none, "01a"⟩ ∈
      (tones.resolve withoutFirstTone).value.members := by
    simp [members_resolve_withoutFirstTone]
  obtain ⟨m, hm, hname, hsteady⟩ :=
    value_eq_iff_of_exclude tones {} withoutFirstTone hnone he he' rfl
  exact ⟨hnone, he, he', m, hm, hname, hsteady.mp rfl⟩

/-- The second tone has another value without the first one. -/
theorem not_value_eq_tones : ¬ ∀ e ∈ (tones.resolve {}).value.members,
    ∀ e' ∈ (tones.resolve withoutFirstTone).value.members,
      e.sourceName = e'.sourceName → e.value = e'.value := by
  rw [members_resolve_tones, members_resolve_withoutFirstTone]
  decide

end Resolution

end Enumerant
