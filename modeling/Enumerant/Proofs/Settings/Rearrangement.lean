import Enumerant.Proofs.Result
import Enumerant.Settings.Reading
import Mathlib.Data.List.Forall2
import Mathlib.Data.List.Nodup
import Mathlib.Data.List.Perm.Basic

/-!
# The order of settings

What is read of settings does not depend on the order of their entries, nor on entries whose keys
are no text or not known (`both_agree_ofNode`). This goes for the settings themselves, for the
groups in them and for the options of every group. It takes that entries whose keys are one text
keep their order. Keys are distinct, but the same text behind different tags makes different keys
that name the same setting, and of these the last one holds (`not_both_agree_taggedKey`).

An entry is taken or not whatever was read before, and it changes nothing but what stands under its
own key (`Keywise`). So the entries under a key decide what is found under it
(`Keywise.both_foldlM`).
-/

namespace Enumerant.Settings

open Yaml (Node)

/-! ### Rearranged entries -/

/-- The entries whose keys are texts that count. -/
def counted (counts : String → Bool) (es : List (Node × Node)) : List (Node × Node) :=
  es.filter (·.1.text?.any counts)

/-- The entries whose keys are the given text. -/
def under (k : String) (es : List (Node × Node)) : List (Node × Node) :=
  es.filter (·.1.text? == some k)

/-- Entries under one key, with values that are alike. -/
def EntriesAlike (alike : String → Node → Node → Prop) (e e' : Node × Node) : Prop :=
  ∃ key, e.1.text? = some key ∧ e'.1.text? = some key ∧ alike key e.2 e'.2

/-- The entries that count are put in another order, in which those under one key keep theirs, and
have values that are alike. Other entries may stand anywhere. -/
def Rearranged (counts : String → Bool) (alike : String → Node → Node → Prop)
    (es es' : List (Node × Node)) : Prop :=
  ∃ fs, (counted counts es).Perm fs ∧ (∀ k, under k fs = under k (counted counts es)) ∧
    List.Forall₂ (EntriesAlike alike) fs (counted counts es')

/-- A value as it is, or a mapping with its entries rearranged. -/
inductive Regrouped (counts : String → Bool) (alike : String → Node → Node → Prop) :
    Node → Node → Prop
  | same (n : Node) : Regrouped counts alike n n
  | mapping {es es' : List (Node × Node)} (h : Rearranged counts alike es es') :
    Regrouped counts alike (.mapping es) (.mapping es')

/-- The options of a group, in another order. -/
def OptionsAlike : Node → Node → Prop :=
  Regrouped ["Name", "Exclude"].contains fun _ v v' => v = v'

/-- Groups in another order, and so their options. -/
def GroupsAlike : Node → Node → Prop :=
  Regrouped (fun _ => true) fun _ => OptionsAlike

/-- The keys of settings. -/
def settingKeys : List String :=
  ["Source", "ApiPrefix", "ProjectTag", "MemberPrefix", "BitSuffix", "Namespace", "UnknownName",
    "Indent", "BannerWidth", "Groups"]

/-- What stands under a key of the settings, with groups in another order. -/
def SettingAlike (key : String) (v v' : Node) : Prop :=
  if key = "Groups" then GroupsAlike v v' else v = v'

/-! ### Two results -/

section Both

variable {ε α α' γ γ' : Type} {R : α → α' → Prop}

/-- Two readings both fail, or their results are related. -/
def Both (R : α → α' → Prop) : Except ε α → Except ε α' → Prop
  | .ok a, .ok a' => R a a'
  | .error _, .error _ => True
  | _, _ => False

/-- A reading agrees with itself. -/
theorem Both.refl (x : Except ε α) : Both (· = ·) x x := by
  cases x <;> simp [Both]

/-- Two readings that agree still do so after related functions. -/
theorem Both.map {x : Except ε α} {x' : Except ε α'} {S : γ → γ' → Prop} {g : α → γ} {g' : α' → γ'}
    (h : Both R x x') (hg : ∀ a a', R a a' → S (g a) (g' a')) : Both S (x.map g) (x'.map g') := by
  match x, x', h with
  | .ok a, .ok a', h => exact hg a a' h
  | .error _, .error _, _ => trivial

/-- What is read in the same way and then put to use in two ways. -/
theorem Both.map_refl {x : Except ε α} {S : γ → γ' → Prop} {g : α → γ} {g' : α → γ'}
    (h : ∀ a, S (g a) (g' a)) : Both S (x.map g) (x.map g') := by
  cases x with
  | error fault => trivial
  | ok a => exact h a

/-- Readings that agree in one way agree in every weaker way. -/
theorem Both.imp {x : Except ε α} {x' : Except ε α'} {S : α → α' → Prop} (h : Both R x x')
    (hS : ∀ a a', R a a' → S a a') : Both S x x' := by
  match x, x', h with
  | .ok a, .ok a', h => exact hS a a' h
  | .error _, .error _, _ => trivial

/-- Readings that agree go well or badly together. -/
theorem Both.exists_ok_iff {x : Except ε α} {x' : Except ε α'} (h : Both R x x') :
    (∃ a, x = .ok a) ↔ ∃ a', x' = .ok a' := by
  cases x <;> cases x' <;> simp_all [Both]

/-- Two readings agree if they go well together and then their results are related. -/
theorem both_iff {x : Except ε α} {x' : Except ε α'} :
    Both R x x' ↔ ((∃ a, x = .ok a) ↔ ∃ a', x' = .ok a') ∧
      ∀ a a', x = .ok a → x' = .ok a' → R a a' := by
  cases x <;> cases x' <;> simp [Both]

end Both

/-! ### Entries that count for their own keys -/

section Keywise

variable {σ β : Type} {counts : String → Bool} {alike : String → Node → Node → Prop}
  {f : σ → Node × Node → Except Fault σ} {view : String → σ → β}
  {es es' : List (Node × Node)} {e : Node × Node} {s s' t t' : σ} {k : String}

/-- A step takes an entry or not whatever the state is, changes nothing but what stands under the
key of the entry, and comes to the same for values that are alike. Entries that do not count change
nothing. -/
structure Keywise (counts : String → Bool) (alike : String → Node → Node → Prop)
    (f : σ → Node × Node → Except Fault σ) (view : String → σ → β) : Prop where
  passes : ∀ {e}, e.1.text?.any counts = false → ∀ s, f s e = .ok s
  keeps : ∀ {s s' e k}, f s e = .ok s' → e.1.text? ≠ some k → view k s' = view k s
  refl : ∀ k v, alike k v v
  agrees : ∀ {e e' k}, e.1.text? = some k → e'.1.text? = some k → alike k e.2 e'.2 → ∀ s t,
    Both (fun s' t' => view k s = view k t → view k s' = view k t') (f s e) (f t e')

namespace Keywise

variable (hf : Keywise counts alike f view)
include hf

/-- Whether an entry is accepted depends neither on what came before nor on which of two like
entries it is. -/
theorem accepts {e e' : Node × Node} (he : EntriesAlike alike e e') (s t : σ) :
    (∃ s', f s e = .ok s') ↔ ∃ t', f t e' = .ok t' := by
  obtain ⟨k, hk, hk', halike⟩ := he
  exact (hf.agrees hk hk' halike s t).exists_ok_iff

/-- An entry that counts is taken in every state if it is in one. -/
theorem exists_step_iff (e : Node × Node) (s : σ) :
    (∃ s', f s e = .ok s') ↔ (e.1.text?.any counts → ∀ s, ∃ s', f s e = .ok s') := by
  cases hcounts : e.1.text?.any counts with
  | false => exact iff_of_true ⟨s, hf.passes hcounts s⟩ nofun
  | true =>
    obtain ⟨k, hk, -⟩ := (Option.any_eq_true _ _).mp hcounts
    refine ⟨fun h _ t => ?_, fun h => h rfl s⟩
    exact (hf.accepts ⟨k, hk, hk, hf.refl k e.2⟩ s t).mp h

/-- A run comes to its end exactly if every entry that counts is taken by itself. -/
theorem exists_foldlM_iff (es : List (Node × Node)) (s : σ) :
    (∃ s', es.foldlM f s = .ok s') ↔ ∀ e ∈ counted counts es, ∀ s, ∃ s', f s e = .ok s' := by
  induction es generalizing s with
  | nil => exact iff_of_true ⟨s, rfl⟩ (fun e he => absurd he List.not_mem_nil)
  | cons e es ih =>
    have hcons : (∃ s', (e :: es).foldlM f s = .ok s') ↔
        (∃ s', f s e = .ok s') ∧ ∀ e ∈ counted counts es, ∀ s, ∃ s', f s e = .ok s' := by
      constructor
      · rintro ⟨s', h⟩
        obtain ⟨s₁, he, hes⟩ := exists_of_foldlM_cons h
        exact ⟨⟨s₁, he⟩, (ih s₁).mp ⟨s', hes⟩⟩
      · rintro ⟨⟨s₁, he⟩, hes⟩
        obtain ⟨s', h⟩ := (ih s₁).mpr hes
        exact ⟨s', (foldlM_cons_of_ok he es).trans h⟩
    rw [hcons, hf.exists_step_iff]
    simp only [counted, List.filter_cons]
    split
    case isTrue h => simp [h]
    case isFalse h => simp [h]

/-- What a run leaves under a key comes from the entries under the key. -/
theorem exists_foldlM_under (hs : es.foldlM f s = .ok s') (hst : view k s = view k t) :
    ∃ t', (under k es).foldlM f t = .ok t' ∧ view k s' = view k t' := by
  induction es generalizing s t with
  | nil =>
    cases hs
    exact ⟨t, rfl, hst⟩
  | cons e es ih =>
    -- an entry under the key stands in the shorter run, too; any other leaves the key alone
    obtain ⟨s₁, he, hes⟩ := exists_of_foldlM_cons hs
    by_cases hkey : e.1.text? = some k
    · have halike := hf.refl k e.2
      obtain ⟨t₁, ht₁⟩ := (hf.accepts ⟨k, hkey, hkey, halike⟩ s t).mp ⟨s₁, he⟩
      have hview := (both_iff.mp (hf.agrees hkey hkey halike s t)).2 s₁ t₁ he ht₁ hst
      obtain ⟨t', ht', hview'⟩ := ih hes hview
      refine ⟨t', ?_, hview'⟩
      rw [under, List.filter_cons_of_pos (by simp [hkey])]
      exact (foldlM_cons_of_ok ht₁ _).trans ht'
    · rw [under, List.filter_cons_of_neg (by simp [hkey])]
      exact ih hes ((hf.keeps he hkey).trans hst)

/-- Entries under one key that are alike leave the same under it. -/
theorem view_eq_of_forall₂ (hes : List.Forall₂ (EntriesAlike alike) es es')
    (hkeys : ∀ e ∈ es, e.1.text? = some k) (hst : view k s = view k t)
    (hs : es.foldlM f s = .ok s') (ht : es'.foldlM f t = .ok t') : view k s' = view k t' := by
  induction hes generalizing s t with
  | nil =>
    cases hs
    cases ht
    exact hst
  | cons he _ ih =>
    obtain ⟨s₁, hs₁, hs⟩ := exists_of_foldlM_cons hs
    obtain ⟨t₁, ht₁, ht⟩ := exists_of_foldlM_cons ht
    obtain ⟨hkey, hkeys⟩ := List.forall_mem_cons.mp hkeys
    obtain ⟨k', hk, hk', halike⟩ := he
    obtain rfl : k' = k := Option.some.inj (hk.symm.trans hkey)
    exact ih hkeys ((both_iff.mp (hf.agrees hk hk' halike s t)).2 s₁ t₁ hs₁ ht₁ hst) hs ht

end Keywise

/-- Leaving out what does not count takes nothing away from under a key that counts. -/
theorem under_counted (hk : counts k) (es : List (Node × Node)) :
    under k (counted counts es) = under k es := by
  rw [under, counted, List.filter_filter, under]
  refine List.filter_congr fun e _ => ?_
  by_cases h : e.1.text? = some k <;> simp [h, hk]

/-- Of entries that are rearranged, those under one key are alike. -/
theorem Rearranged.under_alike (h : Rearranged counts alike es es') (hk : counts k) :
    List.Forall₂ (EntriesAlike alike) (under k es) (under k es') := by
  obtain ⟨fs, -, hunder, hforall⟩ := h
  rw [← under_counted hk es, ← hunder, ← under_counted hk es']
  refine List.rel_filter (fun e e' he => ?_) hforall
  obtain ⟨key, hkey, hkey', -⟩ := he
  simp [hkey, hkey']

/-- Where no two keys are one text, no more than one entry stands under a key, and any order will
do. -/
theorem under_eq_of_perm (h : es.Perm es') (hnodup : (es.map (·.1.text?)).Nodup) (k : String) :
    under k es' = under k es := by
  have hlength : (under k es).length ≤ 1 := by
    have hkeys : (under k es).map (·.1.text?) = List.replicate (under k es).length (some k) := by
      refine List.eq_replicate_iff.mpr ⟨List.length_map .., fun key hkey => ?_⟩
      obtain ⟨e, he, rfl⟩ := List.mem_map.mp hkey
      simpa using (List.mem_filter.mp he).2
    have hsub : ((under k es).map (·.1.text?)).Nodup :=
      hnodup.sublist (List.filter_sublist.map _)
    rw [hkeys] at hsub
    exact List.nodup_replicate.mp hsub
  have hunder : (under k es).Perm (under k es') := h.filter _
  match hes : under k es, hlength with
  | [], _ => exact List.nil_perm.mp (hes ▸ hunder)
  | [e], _ => exact (List.singleton_perm.mp (hes ▸ hunder)).symm

/-- Entries with distinct keys may be put in any order. -/
theorem Rearranged.of_perm {fs : List (Node × Node)} (h : (counted counts es).Perm fs)
    (hnodup : ((counted counts es).map (·.1.text?)).Nodup)
    (halike : List.Forall₂ (EntriesAlike alike) fs (counted counts es')) :
    Rearranged counts alike es es' :=
  ⟨fs, h, under_eq_of_perm h hnodup, halike⟩

/-- The entries that count are those under some key that counts. -/
theorem mem_counted_iff : e ∈ counted counts es ↔ ∃ k, counts k ∧ e ∈ under k es := by
  simp only [counted, under, List.mem_filter, Option.any_eq_true, beq_iff_eq]
  constructor
  · rintro ⟨he, k, hk, hcounts⟩
    exact ⟨k, hcounts, he, hk⟩
  · rintro ⟨k, hcounts, he, hk⟩
    exact ⟨he, k, hk, hcounts⟩

/-- What entries pairwise agree on holds of all of one list if it does of all of the other. -/
theorem forall_mem_iff_of_forall₂ {R : Node × Node → Node × Node → Prop} {p : Node × Node → Prop}
    (h : List.Forall₂ R es es') (hp : ∀ e e', R e e' → (p e ↔ p e')) :
    (∀ e ∈ es, p e) ↔ ∀ e ∈ es', p e := by
  induction h with
  | nil => simp
  | cons he _ ih => rw [List.forall_mem_cons, List.forall_mem_cons, hp _ _ he, ih]

/-- Entries that are alike under every key that counts are all taken or not, and leave the same
under every such key. -/
theorem Keywise.both_foldlM (hf : Keywise counts alike f view)
    (h : ∀ k, counts k → List.Forall₂ (EntriesAlike alike) (under k es) (under k es')) (s t : σ) :
    Both (fun s' t' => ∀ k, counts k → view k s = view k t → view k s' = view k t')
      (es.foldlM f s) (es'.foldlM f t) := by
  refine both_iff.mpr ⟨?_, fun s' t' hs ht k hk hst => ?_⟩
  · have htaken : ∀ e e', EntriesAlike alike e e' →
        ((∀ s, ∃ s', f s e = .ok s') ↔ ∀ s, ∃ s', f s e' = .ok s') :=
      fun e e' he => forall_congr' fun s => hf.accepts he s s
    rw [hf.exists_foldlM_iff, hf.exists_foldlM_iff]
    simp only [mem_counted_iff, forall_exists_index, and_imp]
    constructor
    · intro hes e k hk
      exact (forall_mem_iff_of_forall₂ (h k hk) htaken).mp (fun e he => hes e k hk he) e
    · intro hes e k hk
      exact (forall_mem_iff_of_forall₂ (h k hk) htaken).mpr (fun e he => hes e k hk he) e
  · obtain ⟨s₁, hs₁, hview⟩ := hf.exists_foldlM_under hs rfl
    obtain ⟨t₁, ht₁, hview'⟩ := hf.exists_foldlM_under ht rfl
    rw [hview, hview']
    refine hf.view_eq_of_forall₂ (h k hk) (fun e he => ?_) hst hs₁ ht₁
    simpa using (List.mem_filter.mp he).2

theorem Keywise.under_refl (hf : Keywise counts alike f view) (k : String)
    (es : List (Node × Node)) :
    List.Forall₂ (EntriesAlike alike) (under k es) (under k es) := by
  refine List.forall₂_same.mpr fun e he => ?_
  have hkey : e.1.text? = some k := by simpa using (List.mem_filter.mp he).2
  exact ⟨k, hkey, hkey, hf.refl k e.2⟩

end Keywise

/-! ### Options of a group -/

section Options

variable {group : String} {options : GroupOptions} {e : Node × Node} {k : String}

/-- What the options of a group say under a key. -/
def optionUnder (k : String) (options : GroupOptions) : GroupOptions :=
  { typeName := if k = "Name" then options.typeName else none
    exclude := if k = "Exclude" then options.exclude else [] }

/-- The option for a type name sets it. -/
theorem addOption_name (h : e.1.text? = some "Name") (options : GroupOptions) :
    (addOption group options e).value =
      (textUnder ("Groups." ++ group ++ ".Name") e.2).map fun s =>
        { options with typeName := some s } := by
  simp [addOption, h]

/-- The option for what is left out sets the names. -/
theorem addOption_exclude (h : e.1.text? = some "Exclude") (options : GroupOptions) :
    (addOption group options e).value =
      (namesUnder ("Groups." ++ group ++ ".Exclude") e.2).map fun names =>
        { options with exclude := names } := by
  simp [addOption, h]

/-- An unknown option changes nothing. -/
theorem addOption_of_notCounted (h : e.1.text?.any ["Name", "Exclude"].contains = false)
    (options : GroupOptions) : (addOption group options e).value = .ok options := by
  unfold addOption
  split
  case h_1 hkey => simp [hkey] at h
  case h_2 hkey => simp [hkey] at h
  case h_3 => rfl
  case h_4 => rfl

/-- An option is one of two that are known, or unknown. -/
theorem key_cases_of_option (e : Node × Node) :
    e.1.text? = some "Name" ∨ e.1.text? = some "Exclude" ∨
      e.1.text?.any ["Name", "Exclude"].contains = false := by
  cases h : e.1.text? with
  | none => simp
  | some k => by_cases hname : k = "Name" <;> by_cases hexclude : k = "Exclude" <;> simp [*]

/-- An option changes nothing under other keys. -/
theorem optionUnder_of_addOption {options' : GroupOptions}
    (h : (addOption group options e).value = .ok options') (hk : e.1.text? ≠ some k) :
    optionUnder k options' = optionUnder k options := by
  rcases key_cases_of_option e with hkey | hkey | hkey
  · rw [addOption_name hkey] at h
    obtain ⟨s, -, rfl⟩ := exists_of_map_eq_ok h
    have hne : k ≠ "Name" := fun he => hk (he ▸ hkey)
    simp [optionUnder, hne]
  · rw [addOption_exclude hkey] at h
    obtain ⟨names, -, rfl⟩ := exists_of_map_eq_ok h
    have hne : k ≠ "Exclude" := fun he => hk (he ▸ hkey)
    simp [optionUnder, hne]
  · rw [addOption_of_notCounted hkey] at h
    cases h
    rfl

/-- The same option has the same effect whatever was set before. -/
theorem both_addOption {e' : Node × Node} (hk : e.1.text? = some k) (hk' : e'.1.text? = some k)
    (hvalue : e.2 = e'.2) (s t : GroupOptions) :
    Both (fun s' t' => optionUnder k s = optionUnder k t → optionUnder k s' = optionUnder k t')
      (addOption group s e).value (addOption group t e').value := by
  rcases key_cases_of_option e with hkey | hkey | hkey
  · obtain rfl : k = "Name" := Option.some.inj (hk.symm.trans hkey)
    rw [addOption_name hk, addOption_name hk', hvalue]
    exact .map_refl fun _ _ => rfl
  · obtain rfl : k = "Exclude" := Option.some.inj (hk.symm.trans hkey)
    rw [addOption_exclude hk, addOption_exclude hk', hvalue]
    exact .map_refl fun _ _ => rfl
  · have hkey' : e'.1.text?.any ["Name", "Exclude"].contains = false := hk' ▸ hk ▸ hkey
    rw [addOption_of_notCounted hkey, addOption_of_notCounted hkey']
    exact id

/-- Options are read key by key. -/
theorem keywise_addOption (group : String) :
    Keywise ["Name", "Exclude"].contains (fun _ v v' => v = v')
      (fun options e => (addOption group options e).value) optionUnder where
  passes := fun h options => addOption_of_notCounted h options
  keeps := optionUnder_of_addOption
  refl := fun _ _ => rfl
  agrees := both_addOption

/-- The events of a fold leave its result alone. -/
theorem value_foldl {ε σ α : Type} (step : σ → α → Logged (Except ε σ)) (s : σ) (as : List α) :
    (Logged.foldl step s as).value = as.foldlM (fun s a => (step s a).value) s := by
  induction as generalizing s with
  | nil => rfl
  | cons a as ih =>
    rw [Logged.foldl, Logged.andThen, List.foldlM_cons]
    cases (step s a).value with
    | error fault => rfl
    | ok s' => exact ih s'

/-- Options that are alike are read alike. -/
theorem both_optionsOf {v v' : Node} (h : OptionsAlike v v') (group : String) :
    Both (· = ·) (optionsOf group v).value (optionsOf group v').value := by
  cases h with
  | same => exact Both.refl _
  | @mapping es es' h =>
    rw [optionsOf, optionsOf, value_foldl, value_foldl]
    have hboth := (keywise_addOption group).both_foldlM (fun k hk => h.under_alike hk) {} {}
    refine both_iff.mpr ⟨hboth.exists_ok_iff, fun options options' ho ho' => ?_⟩
    have hview := (both_iff.mp hboth).2 options options' ho ho'
    have hname := congrArg GroupOptions.typeName (hview "Name" (by decide) rfl)
    have hexclude := congrArg GroupOptions.exclude (hview "Exclude" (by decide) rfl)
    simp only [optionUnder, if_true] at hname hexclude
    cases options
    cases options'
    simp_all

end Options

/-! ### Groups -/

section Groups

variable {group : String} {settings : Settings} {options : GroupOptions} {e : Node × Node}
  {k : String}

/-- A group is added in front of the others. -/
theorem addGroup_of_text (h : e.1.text? = some group) (settings : Settings) :
    (addGroup settings e).value = (optionsOf group e.2).value.map fun options =>
      { settings with groups := (group, options) :: settings.groups } := by
  rw [addGroup, h]
  dsimp only
  rw [Logged.andThen]
  cases (optionsOf group e.2).value <;> rfl

/-- The group in front hides earlier ones of its name. -/
theorem options_cons (k group : String) (options : GroupOptions) (settings : Settings) :
    ({ settings with groups := (group, options) :: settings.groups } : Settings).options k =
      if k = group then options else settings.options k := by
  rw [Settings.options, List.lookup_cons]
  by_cases h : k = group
  · simp [h]
  · simp [h, beq_eq_false_iff_ne.mpr h, Settings.options]

/-- Groups are read key by key, and their options as a rearrangement may leave them. -/
theorem keywise_addGroup :
    Keywise (fun _ => true) (fun _ => OptionsAlike) (fun settings e => (addGroup settings e).value)
      (fun k settings => settings.options k) where
  passes := by
    intro e h settings
    have hkey : e.1.text? = none := by simpa using h
    simp [addGroup, hkey]
  keeps := by
    intro settings settings' e k h hk
    cases hkey : e.1.text? with
    | none =>
      simp only [addGroup, hkey] at h
      cases h
      rfl
    | some group =>
      rw [addGroup_of_text hkey] at h
      obtain ⟨options, -, rfl⟩ := exists_of_map_eq_ok h
      have hne : k ≠ group := fun he => hk (he ▸ hkey)
      exact (options_cons ..).trans (if_neg hne)
  refl := fun _ v => .same v
  agrees := by
    intro e e' k hk hk' halike s t
    rw [addGroup_of_text hk, addGroup_of_text hk']
    refine (both_optionsOf halike k).map ?_
    rintro options - rfl -
    rw [options_cons, options_cons, if_pos rfl, if_pos rfl]

end Groups

/-! ### Settings -/

section Settings

variable {settings settings' : Settings} {e : Node × Node} {k key text : String}

/-- The keys of settings that are texts. -/
def textKeys : List String :=
  ["Source", "ApiPrefix", "ProjectTag", "MemberPrefix", "BitSuffix", "Namespace", "UnknownName",
    "Indent"]

/-- Settings with a text under a key. -/
def withText (settings : Settings) (key text : String) : Settings :=
  match key with
  | "Source" => { settings with source := some text }
  | "ApiPrefix" => { settings with apiPrefix := text }
  | "ProjectTag" => { settings with projectTag := text }
  | "MemberPrefix" => { settings with memberPrefix := text }
  | "BitSuffix" => { settings with bitSuffix := text }
  | "Namespace" => { settings with namespaceName := text }
  | "UnknownName" => { settings with unknownName := text }
  | "Indent" => { settings with indent := text }
  | _ => settings

/-- What settings say under a key. -/
def settingUnder (k : String) (settings : Settings) : Settings × (String → GroupOptions) :=
  ({ source := if k = "Source" then settings.source else none
     apiPrefix := if k = "ApiPrefix" then settings.apiPrefix else ""
     projectTag := if k = "ProjectTag" then settings.projectTag else ""
     memberPrefix := if k = "MemberPrefix" then settings.memberPrefix else ""
     bitSuffix := if k = "BitSuffix" then settings.bitSuffix else ""
     namespaceName := if k = "Namespace" then settings.namespaceName else ""
     unknownName := if k = "UnknownName" then settings.unknownName else ""
     indent := if k = "Indent" then settings.indent else ""
     bannerWidth := if k = "BannerWidth" then settings.bannerWidth else 0 },
    fun name => if k = "Groups" then settings.options name else {})

/-- A setting that is a text sets it. -/
theorem add_text (hkey : key ∈ textKeys) (h : e.1.text? = some key) (settings : Settings) :
    (add settings e).value = (textUnder key e.2).map (withText settings key) := by
  simp only [textKeys, List.mem_cons, List.not_mem_nil, or_false] at hkey
  rcases hkey with rfl | rfl | rfl | rfl | rfl | rfl | rfl | rfl <;> simp only [add, h] <;> rfl

theorem add_bannerWidth (h : e.1.text? = some "BannerWidth") (settings : Settings) :
    (add settings e).value = (countUnder "BannerWidth" e.2).map fun n =>
      { settings with bannerWidth := n } := by
  simp only [add, h]

/-- The setting for groups adds them one after another. -/
theorem add_groups (h : e.1.text? = some "Groups") (settings : Settings) :
    (add settings e).value = match e.2 with
      | .mapping entries => entries.foldlM (fun s e => (addGroup s e).value) settings
      | _ => .error .groupsNotMapping := by
  simp only [add, h]
  cases e.2 with
  | mapping entries => exact value_foldl ..
  | _ => rfl

/-- An unknown setting changes nothing. -/
theorem add_of_notCounted (h : e.1.text?.any settingKeys.contains = false) (settings : Settings) :
    (add settings e).value = .ok settings := by
  unfold add
  dsimp only
  split <;> simp_all [settingKeys]

/-- Setting one text leaves everything else alone. -/
theorem settingUnder_withText_of_ne (hkey : key ∈ textKeys) (hk : k ≠ key) (settings : Settings) :
    settingUnder k (withText settings key text) = settingUnder k settings := by
  simp only [textKeys, List.mem_cons, List.not_mem_nil, or_false] at hkey
  rcases hkey with rfl | rfl | rfl | rfl | rfl | rfl | rfl | rfl <;>
    simp [withText, settingUnder, hk, Settings.options]

/-- What a text is set to does not depend on what it was. -/
theorem settingUnder_withText_congr (hkey : key ∈ textKeys) (settings settings' : Settings) :
    settingUnder key (withText settings key text) =
      settingUnder key (withText settings' key text) := by
  simp only [textKeys, List.mem_cons, List.not_mem_nil, or_false] at hkey
  rcases hkey with rfl | rfl | rfl | rfl | rfl | rfl | rfl | rfl <;> simp [withText, settingUnder]

/-- Groups change nothing but what stands under their key. -/
theorem settingUnder_foldlM_addGroup {es : List (Node × Node)} (hk : k ≠ "Groups")
    (h : es.foldlM (fun s e => (addGroup s e).value) settings = .ok settings') :
    settingUnder k settings' = settingUnder k settings := by
  refine foldlM_keeps (P := fun s => settingUnder k s = settingUnder k settings) ?_ rfl h
  intro s e s' hs he
  cases hkey : e.1.text? with
  | none =>
    simp only [addGroup, hkey] at he
    cases he
    exact hs
  | some group =>
    rw [addGroup_of_text hkey] at he
    obtain ⟨options, -, rfl⟩ := exists_of_map_eq_ok he
    simpa [settingUnder, hk] using hs

/-- A setting is a text, the width of banners, the groups, or unknown. -/
theorem key_cases (e : Node × Node) :
    (∃ key ∈ textKeys, e.1.text? = some key) ∨ e.1.text? = some "BannerWidth" ∨
      e.1.text? = some "Groups" ∨ e.1.text?.any settingKeys.contains = false := by
  cases h : e.1.text? with
  | none => simp
  | some k =>
    by_cases hk : k ∈ textKeys
    · exact .inl ⟨k, hk, rfl⟩
    · simp_all [textKeys, settingKeys]
      tauto

/-- Settings under a key, in another order. -/
theorem SettingAlike.refl (k : String) (v : Node) : SettingAlike k v v := by
  unfold SettingAlike
  split
  · exact .same v
  · rfl

/-- Two settings agree about groups if they have the same options for each name. -/
theorem settingUnder_groups_iff :
    settingUnder "Groups" settings = settingUnder "Groups" settings' ↔
      ∀ name, settings.options name = settings'.options name := by
  simp [settingUnder, funext_iff]

/-- The groups under a key are read alike if they are. -/
theorem both_add_groups {e' : Node × Node} (hkey : e.1.text? = some "Groups")
    (hkey' : e'.1.text? = some "Groups") (h : GroupsAlike e.2 e'.2) (s t : Settings) :
    Both (fun s' t' => settingUnder "Groups" s = settingUnder "Groups" t →
      settingUnder "Groups" s' = settingUnder "Groups" t') (add s e).value (add t e').value := by
  have hfold : ∀ {es es' : List (Node × Node)},
      (∀ k, List.Forall₂ (EntriesAlike fun _ => OptionsAlike) (under k es) (under k es')) →
      Both (fun s' t' => settingUnder "Groups" s = settingUnder "Groups" t →
        settingUnder "Groups" s' = settingUnder "Groups" t')
        (es.foldlM (fun s e => (addGroup s e).value) s)
        (es'.foldlM (fun s e => (addGroup s e).value) t) := by
    intro es es' hunder
    refine (keywise_addGroup.both_foldlM (fun k _ => hunder k) s t).imp fun s' t' hview => ?_
    rw [settingUnder_groups_iff, settingUnder_groups_iff]
    exact fun hst name => hview name rfl (hst name)
  obtain ⟨key, v⟩ := e
  obtain ⟨key', v'⟩ := e'
  rw [add_groups hkey, add_groups hkey']
  cases h with
  | mapping h => exact hfold fun k => h.under_alike rfl
  | same =>
    cases v with
    | mapping es => exact hfold fun k => keywise_addGroup.under_refl k es
    | _ => trivial

/-- A setting changes nothing under other keys. -/
theorem settingUnder_of_add (h : (add settings e).value = .ok settings')
    (hk : e.1.text? ≠ some k) : settingUnder k settings' = settingUnder k settings := by
  rcases key_cases e with ⟨key, hmem, hkey⟩ | hkey | hkey | hkey
  · rw [add_text hmem hkey] at h
    obtain ⟨text, -, rfl⟩ := exists_of_map_eq_ok h
    have hne : k ≠ key := fun he => hk (he ▸ hkey)
    exact settingUnder_withText_of_ne hmem hne settings
  · rw [add_bannerWidth hkey] at h
    obtain ⟨n, -, rfl⟩ := exists_of_map_eq_ok h
    have hne : k ≠ "BannerWidth" := fun he => hk (he ▸ hkey)
    simp [settingUnder, hne, Settings.options]
  · have hne : k ≠ "Groups" := fun he => hk (he ▸ hkey)
    rw [add_groups hkey] at h
    split at h
    case h_1 => exact settingUnder_foldlM_addGroup hne h
    case h_2 => cases h
  · rw [add_of_notCounted hkey] at h
    cases h
    rfl

/-- Like values of one setting have like effects, whatever was set before. -/
theorem both_add {e' : Node × Node} (hk : e.1.text? = some k) (hk' : e'.1.text? = some k)
    (halike : SettingAlike k e.2 e'.2) (s t : Settings) :
    Both (fun s' t' => settingUnder k s = settingUnder k t → settingUnder k s' = settingUnder k t')
      (add s e).value (add t e').value := by
  rcases key_cases e with ⟨key, hmem, hkey⟩ | hkey | hkey | hkey
  · obtain rfl : k = key := Option.some.inj (hk.symm.trans hkey)
    have hne : k ≠ "Groups" := fun he => absurd (he ▸ hmem) (by decide)
    rw [SettingAlike, if_neg hne] at halike
    rw [add_text hmem hk, add_text hmem hk', halike]
    exact .map_refl fun _ _ => settingUnder_withText_congr hmem s t
  · obtain rfl : k = "BannerWidth" := Option.some.inj (hk.symm.trans hkey)
    rw [SettingAlike, if_neg (by decide)] at halike
    rw [add_bannerWidth hk, add_bannerWidth hk', halike]
    exact .map_refl fun _ _ => by simp [settingUnder]
  · obtain rfl : k = "Groups" := Option.some.inj (hk.symm.trans hkey)
    rw [SettingAlike, if_pos rfl] at halike
    exact both_add_groups hk hk' halike s t
  · have hkey' : e'.1.text?.any settingKeys.contains = false := hk' ▸ hk ▸ hkey
    rw [add_of_notCounted hkey, add_of_notCounted hkey']
    exact id

/-- Settings are read key by key. -/
theorem keywise_add :
    Keywise settingKeys.contains SettingAlike (fun settings e => (add settings e).value)
      settingUnder where
  passes := fun h settings => add_of_notCounted h settings
  keeps := settingUnder_of_add
  refl := SettingAlike.refl
  agrees := both_add

/-! ### Whole settings -/

/-- Settings that say the same, of every group as well. -/
def Agree (settings settings' : Settings) : Prop :=
  { settings with groups := [] } = { settings' with groups := [] } ∧
    ∀ name, settings.options name = settings'.options name

/-- Settings that agree under every key agree. -/
theorem agree_of_settingUnder
    (h : ∀ k ∈ settingKeys, settingUnder k settings = settingUnder k settings') :
    Agree settings settings' := by
  refine ⟨?_, settingUnder_groups_iff.mp (h "Groups" (by decide))⟩
  have hfields := fun k hk => congrArg Prod.fst (h k hk)
  simp only [settingKeys, List.forall_mem_cons] at hfields
  simp [settingUnder] at hfields
  simp [hfields]

/-- **Settings do not depend on the order of their entries**, nor on entries that are not known:
both orders fail, or both give the same settings and the same options of every group. -/
theorem both_agree_ofNode {es es' : List (Node × Node)}
    (h : Rearranged settingKeys.contains SettingAlike es es') :
    Both Agree (ofNode (.mapping es)).value (ofNode (.mapping es')).value := by
  rw [ofNode, ofNode, value_foldl, value_foldl]
  refine (keywise_add.both_foldlM (fun k hk => h.under_alike hk) {} {}).imp fun s t hview => ?_
  exact agree_of_settingUnder fun k hk => hview k (by simpa using hk) rfl

end Settings

/-- Settings with two groups. -/
def paletteSettings : List (Node × Node) :=
  [(.text "Indent", .text "  "),
    (.text "Groups", .mapping [
      (.text "Tone", .mapping [(.text "Name", .text "Shade"), (.text "Exclude", .sequence [])]),
      (.text "Hue", .null)]),
    (.text "Colour", .text "blue")]

/-- The same in another order throughout, with other entries that are not known. -/
def paletteReordered : List (Node × Node) :=
  [(.text "Groups", .mapping [
      (.text "Hue", .null), (.integer 3, .text "third"),
      (.text "Tone", .mapping [(.text "Exclude", .sequence []), (.text "Rename", .null),
        (.text "Name", .text "Shade")])]),
    (.null, .text "none"), (.text "Indent", .text "  ")]

/-- Two groups change places, and so do a group and a text; unknown keys come in anywhere. -/
theorem both_agree_palette :
    Rearranged settingKeys.contains SettingAlike paletteSettings paletteReordered ∧
    (ofNode (.mapping paletteSettings)).value =
      .ok { indent := "  ", groups := [("Hue", {}), ("Tone", { typeName := some "Shade" })] } ∧
    Both Agree (ofNode (.mapping paletteSettings)).value
      (ofNode (.mapping paletteReordered)).value := by
  have htone : OptionsAlike
      (.mapping [(.text "Name", .text "Shade"), (.text "Exclude", .sequence [])])
      (.mapping [(.text "Exclude", .sequence []), (.text "Rename", .null),
        (.text "Name", .text "Shade")]) := by
    refine .mapping (.of_perm (.swap _ _ []) (by decide +kernel) ?_)
    exact .cons ⟨"Exclude", rfl, rfl, rfl⟩ (.cons ⟨"Name", rfl, rfl, rfl⟩ .nil)
  have hrearranged :
      Rearranged settingKeys.contains SettingAlike paletteSettings paletteReordered := by
    refine .of_perm (.swap _ _ []) (by decide +kernel) ?_
    refine .cons ⟨"Groups", rfl, rfl, ?_⟩ (.cons ⟨"Indent", rfl, rfl, rfl⟩ .nil)
    refine .mapping (.of_perm (.swap _ _ []) (by decide +kernel) ?_)
    exact .cons ⟨"Hue", rfl, rfl, .same _⟩ (.cons ⟨"Tone", rfl, rfl, htone⟩ .nil)
  exact ⟨hrearranged, by decide +kernel, both_agree_ofNode hrearranged⟩

/-- A key and the same text behind a tag, which are different keys. -/
def taggedKey : List (Node × Node) :=
  [(.text "ApiPrefix", .text "Xr"), (.tagged "x" (.text "ApiPrefix"), .text "Gl")]

/-- Both keys name the same setting, so their order decides. -/
theorem not_both_agree_taggedKey :
    Yaml.areDistinct taggedKey ∧ taggedKey.Perm taggedKey.reverse ∧
    ¬ Both Agree (ofNode (.mapping taggedKey)).value (ofNode (.mapping taggedKey.reverse)).value ∧
    (parse "ApiPrefix: Xr\n!x ApiPrefix: Gl\n").value = .ok { apiPrefix := "Gl" } ∧
    (parse "!x ApiPrefix: Gl\nApiPrefix: Xr\n").value = .ok { apiPrefix := "Xr" } := by
  refine ⟨by decide +kernel, (List.reverse_perm _).symm, ?_, by decide +kernel, by decide +kernel⟩
  have hfirst : (ofNode (.mapping taggedKey)).value = .ok { apiPrefix := "Gl" } := by
    decide +kernel
  have hlast : (ofNode (.mapping taggedKey.reverse)).value = .ok { apiPrefix := "Xr" } := by
    decide +kernel
  rw [hfirst, hlast]
  intro h
  have hprefix := congrArg apiPrefix h.1
  exact absurd hprefix (by decide)

end Enumerant.Settings
