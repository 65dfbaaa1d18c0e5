import Enumerant.Proofs.Resolution.Enumerators

/-!
# No member is lost without a word

A member that takes part is declared once, or it is a range marker, or one warning tells that it is
dropped. Warnings come from four places, each of which accounts for the members that the others
leave (`declarations_add_warnings`), so a member that is no marker meets one of these fates only. A
range marker is dropped in silence, unless its initializer has no known value: that is told before
anything asks for markers (`exists_fate_resolve`).
-/

namespace Enumerant

/-- The member that an event is about, as its details name it. -/
def Event.member? (e : Event) : Option String :=
  match e.details.lookup "member" with
  | some (.plain name) | some (.quotable name) => some name
  | none => none

namespace Resolution

variable {g : Group} {settings : Settings} {ms : List Member} {m : Member} {c : Candidate}
  {name : String}

/-! ### Fates -/

/-- How often a name is among those of the enumerators of a group. -/
def declarations (g : Group) (settings : Settings) (name : String) : Nat :=
  ((g.resolve settings).value.members.map Enumerator.sourceName).count name

/-- Whether an event is a warning about a member. -/
def warnsOf (name : String) (e : Event) : Bool :=
  e.severity = .warning ∧ e.member? = some name

/-- How many warnings about a member there are. -/
def warnings (g : Group) (settings : Settings) (name : String) : Nat :=
  (g.resolve settings).events.countP (warnsOf name)

/-- What may become of a member. -/
inductive Fate where
  | declared
  | marker
  | reported
  deriving DecidableEq, Repr

/-- A member is declared once and without a warning, it is a range marker and not declared, or it is
not declared and one warning tells so. -/
def Meets (g : Group) (settings : Settings) (name : String) : Fate → Prop
  | .declared => declarations g settings name = 1 ∧ warnings g settings name = 0
  | .marker => isMarker name ∧ declarations g settings name = 0
  | .reported => declarations g settings name = 0 ∧ warnings g settings name = 1

/-! ### Counting -/

/-- Where one item of a list has the key of an item, what comes of that key comes of this one. -/
theorem countP_filterMap {α β : Type} (key : α → String) {f : α → Option β} {p : β → Bool}
    {l : List α} {a : α} (hd : (l.map key).Nodup) (ha : a ∈ l)
    (hp : ∀ x ∈ l, ∀ y, f x = some y → (p y = true ↔ key x = key a)) :
    (l.filterMap f).countP p = if (f a).isSome then 1 else 0 := by
  obtain ⟨front, behind, rfl⟩ := List.append_of_mem ha
  rw [List.map_append, List.map_cons, List.nodup_middle, ← List.map_append, List.nodup_cons] at hd
  -- No other member has the name, so nothing else is counted.
  have hnone : ∀ x ∈ front ++ behind, ∀ y, f x = some y → ¬ p y = true := by
    intro x hx y hf hpy
    have hmem : x ∈ front ++ a :: behind := by
      rw [List.mem_append] at hx
      rw [List.mem_append, List.mem_cons]
      tauto
    exact hd.1 ((hp x hmem y hf).mp hpy ▸ List.mem_map_of_mem hx)
  have hzero : ((front ++ behind).filterMap f).countP p = 0 := by
    refine List.countP_eq_zero.mpr fun y hy => ?_
    obtain ⟨x, hx, hf⟩ := List.mem_filterMap.mp hy
    exact hnone x hx y hf
  have hperm : (front ++ a :: behind).Perm (a :: (front ++ behind)) := List.perm_middle
  rw [(hperm.filterMap f).countP_eq p]
  cases hf : f a with
  | none => rw [List.filterMap_cons_none hf, hzero]; rfl
  | some y =>
    have hpy : p y = true := (hp a ha y hf).mpr rfl
    rw [List.filterMap_cons_some hf, List.countP_cons_of_pos hpy, hzero]
    rfl

theorem nodup_names_candidates (hd : (ms.map Member.name).Nodup) :
    ((candidates ms).map fun c => c.member.name).Nodup := by
  have h := hd
  rwa [← map_member_candidates hd, List.map_map] at h

/-- A member that takes part is a candidate. -/
theorem exists_candidate (hd : (ms.map Member.name).Nodup) (hm : m ∈ ms) :
    ∃ c ∈ candidates ms, c.member = m :=
  List.mem_map.mp ((map_member_candidates hd).symm ▸ hm)

/-! ### Where warnings come from -/

/-- A member without a known value is warned of once. -/
theorem countP_unevaluated (hd : (ms.map Member.name).Nodup) (hm : m ∈ ms) :
    (ms.filterMap (unevaluatedEvent? name)).countP (warnsOf m.name) =
      if (unevaluatedEvent? name m).isSome then 1 else 0 := by
  refine countP_filterMap Member.name hd hm fun n _ event hevent => ?_
  unfold unevaluatedEvent? at hevent
  split at hevent
  case h_1 text _ =>
    obtain rfl := Option.some.inj hevent
    simp [warnsOf, Event.severity, Event.member?, Event.details, List.lookup_cons]
  case h_2 => cases hevent

/-- A member that finds no value is warned of once. -/
theorem countP_unresolved (hd : (ms.map Member.name).Nodup) (hc : c ∈ candidates ms) :
    ((candidates ms).filterMap (unresolvedEvent? name)).countP (warnsOf c.member.name) =
      if (unresolvedEvent? name c).isSome then 1 else 0 := by
  refine countP_filterMap _ (nodup_names_candidates hd) hc fun c' _ event hevent => ?_
  unfold unresolvedEvent? at hevent
  have hcases : event = .valueUnresolved name c'.member.name := by
    split at hevent
    case isTrue => cases hevent
    case isFalse =>
      split at hevent
      case h_1 => exact (Option.some.inj hevent).symm
      case h_2 => exact (Option.some.inj hevent).symm
      case h_3 => cases hevent
  simp [hcases, warnsOf, Event.severity, Event.member?, Event.details, List.lookup_cons]

/-- An alias of a range marker is warned of once. -/
theorem countP_targetDropped (hd : (ms.map Member.name).Nodup) (hc : c ∈ candidates ms) :
    ((candidates ms).filterMap (targetEvent? name ms)).countP (warnsOf c.member.name) =
      if (targetEvent? name ms c).isSome then 1 else 0 := by
  refine countP_filterMap _ (nodup_names_candidates hd) hc fun c' _ event hevent => ?_
  unfold targetEvent? at hevent
  split at hevent
  case isTrue =>
    obtain rfl := Option.some.inj hevent
    simp [warnsOf, Event.severity, Event.member?, Event.details, List.lookup_cons]
  case isFalse => cases hevent

/-- Whether a candidate is one of the enumerators, before names are compared. -/
def isEnumerated (ms : List Member) (c : Candidate) : Bool :=
  !isMarker c.member.name && !refersToMarker ms c.member && c.valued.isSome

/-- A member is enumerated once at most. -/
theorem countP_enumerators (hd : (ms.map Member.name).Nodup) (hc : c ∈ candidates ms) :
    (enumerators g settings ms).countP (·.sourceName == c.member.name) =
      if isEnumerated ms c then 1 else 0 := by
  have hcount := countP_filterMap (fun c : Candidate => c.member.name)
    (f := fun c => if isMarker c.member.name || refersToMarker ms c.member then none
      else c.valued.map (enumerator g settings ms (valueWidth ms) c.member))
    (p := (·.sourceName == c.member.name)) (nodup_names_candidates hd) hc fun c' _ e he => by
      split at he
      case isTrue => cases he
      case isFalse =>
        obtain ⟨v, -, rfl⟩ := Option.map_eq_some_iff.mp he
        simp [enumerator]
  rw [enumerators, hcount]
  congr 1
  cases hmark : isMarker c.member.name <;> cases href : refersToMarker ms c.member <;>
    simp [isEnumerated, hmark, href]

/-- Declarations are counted among those whose names are free. -/
theorem declarations_eq (name : String) : declarations g settings name =
    (uniquelyNamed [] (g.ordered settings)).countP (·.sourceName == name) := by
  rw [declarations, Group.members_resolve, List.count_eq_countP, List.countP_map]
  rfl

/-- Warnings are of three kinds, and of names that are taken. -/
theorem warnings_eq (name : String) : warnings g settings name =
    ((g.participants settings).filterMap (unevaluatedEvent? g.name)).countP (warnsOf name) +
      ((candidates (g.participants settings)).filterMap
        (unresolvedEvent? g.name)).countP (warnsOf name) +
      ((candidates (g.participants settings)).filterMap
        (targetEvent? g.name (g.participants settings))).countP (warnsOf name) +
      (nameClashes [] (g.ordered settings)).countP (·.sourceName == name) := by
  -- Of the kinds of events that resolution reports, the first and the last are no warnings.
  have hrepeated : ∀ l : List Member,
      (l.map fun m => Event.memberRepeated g.name m.name).countP (warnsOf name) = 0 := by
    intro l
    refine List.countP_eq_zero.mpr fun event hevent => ?_
    obtain ⟨m, -, rfl⟩ := List.mem_map.mp hevent
    simp [warnsOf, Event.severity]
  have hclashes : ∀ l : List Enumerator, (l.map fun e =>
      Event.friendlyNameTaken g.name e.sourceName e.friendlyName).countP (warnsOf name) =
        l.countP (·.sourceName == name) := by
    intro l
    rw [List.countP_map]
    refine List.countP_congr fun e _ => ?_
    simp [warnsOf, Event.severity, Event.member?, Event.details, List.lookup_cons]
  have hresolved : ∀ n, [Event.groupResolved g.name n].countP (warnsOf name) = 0 := by
    intro n
    simp [warnsOf, Event.severity]
  simp only [warnings, Group.resolve, List.countP_append, hrepeated, hclashes, hresolved,
    Nat.zero_add, Nat.add_zero]

/-- **Every member is accounted for once.** It is declared, or one of the four warnings is about
it. -/
theorem declarations_add_warnings (hc : c ∈ candidates (g.participants settings)) :
    declarations g settings c.member.name + warnings g settings c.member.name =
      (if (unevaluatedEvent? g.name c.member).isSome then 1 else 0) +
      (if (unresolvedEvent? g.name c).isSome then 1 else 0) +
      (if (targetEvent? g.name (g.participants settings) c).isSome then 1 else 0) +
      (if isEnumerated (g.participants settings) c then 1 else 0) := by
  have hd := g.nodup_names_participants settings
  have hm : c.member ∈ g.participants settings :=
    List.mem_of_getElem? (mem_candidates.mp hc).1
  have hperm : (uniquelyNamed [] (g.ordered settings) ++ nameClashes [] (g.ordered settings)).Perm
      (enumerators g settings (g.participants settings)) :=
    (perm_uniquelyNamed_append_nameClashes [] _).trans (List.mergeSort_perm _ _)
  have hcount := hperm.countP_eq (·.sourceName == c.member.name)
  rw [List.countP_append, countP_enumerators hd hc] at hcount
  rw [declarations_eq, warnings_eq, countP_unevaluated hd hm, countP_unresolved hd hc,
    countP_targetDropped hd hc]
  omega

/-- Only what is enumerated can be declared, once. -/
theorem declarations_le (hc : c ∈ candidates (g.participants settings)) :
    declarations g settings c.member.name ≤
      if isEnumerated (g.participants settings) c then 1 else 0 := by
  have hordered := (List.mergeSort_perm (enumerators g settings (g.participants settings))
    precedes).countP_eq (·.sourceName == c.member.name)
  rw [declarations_eq, ← countP_enumerators (g.nodup_names_participants settings) hc, ← hordered]
  exact (uniquelyNamed_sublist [] _).countP_le

/-! ### One fate for every member -/

/-- A literal always finds its value. -/
theorem valued_of_literal (hd : (ms.map Member.name).Nodup) (hc : c ∈ candidates ms) {v : Int}
    {text : String} (hv : c.member.value = .literal v text) : c.valued.isSome := by
  obtain ⟨hm, s, hs, hvalued⟩ := mem_candidates.mp hc
  obtain ⟨d, hs'⟩ := (settled_eq_found_iff hd).mpr (.literal hm hv)
  obtain rfl := Option.some.inj (hs.symm.trans hs')
  rw [hvalued]
  rfl

/-- An unknown value is never found. -/
theorem valued_of_unevaluated (hd : (ms.map Member.name).Nodup) (hc : c ∈ candidates ms)
    {text : String} (hv : c.member.value = .unevaluated text) : c.valued = none := by
  obtain ⟨hm, s, hs, hvalued⟩ := mem_candidates.mp hc
  rw [hvalued, Option.eq_none_iff_forall_not_mem]
  intro w hw
  obtain rfl := Slot.valued?_eq_some_iff.mp hw
  exact not_hasValue_of_lacksValue hd ⟨_, hm, .inl ⟨text, hv⟩⟩
    ((settled_eq_found_iff hd).mp ⟨w.depth, hs⟩)

/-- A member that is no marker is declared or reported. -/
theorem declarations_add_warnings_of_not_marker (hc : c ∈ candidates (g.participants settings))
    (hmarker : isMarker c.member.name = false) :
    declarations g settings c.member.name + warnings g settings c.member.name = 1 := by
  have hd := g.nodup_names_participants settings
  have hliteral : ∀ v text, c.member.value = .literal v text → c.valued.isSome :=
    fun v text hv => valued_of_literal hd hc hv
  have hunevaluated : ∀ text, c.member.value = .unevaluated text → c.valued = none :=
    fun text hv => valued_of_unevaluated hd hc hv
  rw [declarations_add_warnings hc]
  unfold unevaluatedEvent? unresolvedEvent? targetEvent? isEnumerated
  cases hvalued : c.valued with
  | none =>
    cases hvalue : c.member.value with
    | literal v text => simpa [hvalued] using hliteral v text hvalue
    | implicit | reference | unevaluated => simp [hmarker]
  | some w =>
    cases hvalue : c.member.value with
    | unevaluated text => simpa [hvalued] using hunevaluated text hvalue
    | literal | implicit | reference =>
      cases href : refersToMarker (g.participants settings) c.member <;> simp [hmarker]

/-- A marker is not declared, and reported only if its initializer has no known value. -/
theorem warnings_of_marker (hc : c ∈ candidates (g.participants settings))
    (hmarker : isMarker c.member.name = true) :
    declarations g settings c.member.name = 0 ∧ warnings g settings c.member.name =
      if (unevaluatedEvent? g.name c.member).isSome then 1 else 0 := by
  have hnone : declarations g settings c.member.name = 0 := by
    simpa [isEnumerated, hmarker] using declarations_le hc
  have hsum := declarations_add_warnings hc
  simp only [unresolvedEvent?, targetEvent?, isEnumerated, hmarker, hnone] at hsum
  exact ⟨hnone, by simpa using hsum⟩

/-- A member that is counted once has one fate. -/
theorem existsUnique_fate_of_sum (hmarker : isMarker name = false)
    (hsum : declarations g settings name + warnings g settings name = 1) :
    ∃! fate, Meets g settings name fate := by
  rcases Nat.eq_zero_or_pos (declarations g settings name) with h0 | hpos
  · refine ⟨.reported, ⟨h0, by omega⟩, fun fate hfate => ?_⟩
    cases fate with
    | declared => exact absurd hfate.1 (by omega)
    | marker => exact absurd hfate.1 (by simp [hmarker])
    | reported => rfl
  · refine ⟨.declared, ⟨by omega, by omega⟩, fun fate hfate => ?_⟩
    cases fate with
    | declared => rfl
    | marker => exact absurd hfate.2 (by omega)
    | reported => exact absurd hfate.1 (by omega)

/-- A range marker has one fate. -/
theorem existsUnique_fate_of_marker (hmarker : isMarker name)
    (hdeclarations : declarations g settings name = 0) (hwarnings : warnings g settings name = 0) :
    ∃! fate, Meets g settings name fate := by
  refine ⟨.marker, ⟨hmarker, hdeclarations⟩, fun fate hfate => ?_⟩
  cases fate with
  | declared => exact absurd hfate.1 (by omega)
  | marker => rfl
  | reported => exact absurd hfate.2 (by omega)

/-- The enumerators that are left have friendly names of their own. -/
theorem nodup_friendlyNames (taken : List String) (es : List Enumerator) :
    ((uniquelyNamed taken es).map Enumerator.friendlyName).Nodup ∧
      ∀ e ∈ uniquelyNamed taken es, e.friendlyName ∉ taken := by
  induction es generalizing taken with
  | nil => simp [uniquelyNamed]
  | cons e es ih =>
    obtain ⟨hnodup, hfresh⟩ := ih (e.friendlyName :: taken)
    have hfresh' : ∀ u ∈ uniquelyNamed (e.friendlyName :: taken) es, u.friendlyName ∉ taken :=
      fun u hu hmem => hfresh u hu (List.mem_cons_of_mem _ hmem)
    rw [uniquelyNamed]
    split
    case isTrue => exact ⟨hnodup, hfresh'⟩
    case isFalse hfree =>
      rw [not_or] at hfree
      refine ⟨List.nodup_cons.mpr ⟨fun hmem => ?_, hnodup⟩,
        List.forall_mem_cons.mpr ⟨hfree.1, hfresh'⟩⟩
      obtain ⟨u, hu, hname⟩ := List.mem_map.mp hmem
      exact hfresh u hu (hname ▸ List.mem_cons_self)

/-- The initializer of a member has no known value. -/
def Unevaluated (m : Member) : Prop :=
  ∃ text, m.value = .unevaluated text

theorem unevaluatedEvent?_isSome_iff : (unevaluatedEvent? name m).isSome ↔ Unevaluated m := by
  unfold unevaluatedEvent? Unevaluated
  cases m.value <;> simp

/-- A range marker without a known value is reported although it is a marker. -/
theorem meets_of_unevaluated (hc : c ∈ candidates (g.participants settings))
    (hmarker : isMarker c.member.name) (h : Unevaluated c.member) :
    Meets g settings c.member.name .marker ∧ Meets g settings c.member.name .reported := by
  obtain ⟨hdeclarations, hwarnings⟩ := warnings_of_marker hc hmarker
  rw [if_pos (unevaluatedEvent?_isSome_iff.mpr h)] at hwarnings
  exact ⟨⟨hmarker, hdeclarations⟩, hdeclarations, hwarnings⟩

/-- Every other member meets one fate. -/
theorem existsUnique_fate (hc : c ∈ candidates (g.participants settings))
    (h : ¬ (isMarker c.member.name ∧ Unevaluated c.member)) :
    ∃! fate, Meets g settings c.member.name fate := by
  cases hmarker : isMarker c.member.name with
  | false =>
    exact existsUnique_fate_of_sum hmarker (declarations_add_warnings_of_not_marker hc hmarker)
  | true =>
    obtain ⟨hdeclarations, hwarnings⟩ := warnings_of_marker hc hmarker
    have hnone : ¬ (unevaluatedEvent? g.name c.member).isSome :=
      fun hsome => h ⟨hmarker, unevaluatedEvent?_isSome_iff.mp hsome⟩
    rw [if_neg hnone] at hwarnings
    exact existsUnique_fate_of_marker hmarker hdeclarations hwarnings

/-- The first member of a name that is not left out is a candidate. -/
theorem exists_candidate_of_first (hfirst : g.members.find? (·.name == m.name) = some m)
    (hexclude : m.name ∉ (settings.options g.name).exclude) :
    ∃ c ∈ candidates (g.participants settings), c.member = m := by
  refine exists_candidate (g.nodup_names_participants settings) ?_
  rw [g.participants_eq]
  exact mem_firsts_iff.mpr ⟨hexclude, hfirst⟩

/-- **No member is lost without a word.** What is said of a name is said of the first member that
has it, if it is not left out. Such a member meets one fate only: it is declared, or it is a range
marker, or a warning tells that it is not declared. Only a range marker whose initializer has no
known value meets two of them, since a warning tells so. Nothing else is declared, and friendly
names are never shared. -/
theorem exists_fate_resolve (g : Group) (settings : Settings) :
    (∀ m, g.members.find? (·.name == m.name) = some m →
      m.name ∉ (settings.options g.name).exclude →
        (¬ (isMarker m.name ∧ Unevaluated m) → ∃! fate, Meets g settings m.name fate) ∧
        (isMarker m.name → Unevaluated m →
          Meets g settings m.name .marker ∧ Meets g settings m.name .reported)) ∧
    (∀ e ∈ (g.resolve settings).value.members, ∃ m ∈ g.members,
      m.name = e.sourceName ∧ m.name ∉ (settings.options g.name).exclude) ∧
    ((g.resolve settings).value.members.map Enumerator.friendlyName).Nodup := by
  refine ⟨fun m hfirst hexclude => ?_, fun e he => ?_, (nodup_friendlyNames [] _).1⟩
  · obtain ⟨c, hc, rfl⟩ := exists_candidate_of_first hfirst hexclude
    exact ⟨existsUnique_fate hc, meets_of_unevaluated hc⟩
  · obtain ⟨i, m, v, hm, -, -, -, rfl⟩ :=
      mem_enumerators.mp (Group.mem_enumerators_of_mem_resolve he)
    have hmem := List.mem_of_getElem? hm
    rw [g.participants_eq] at hmem
    obtain ⟨hmem, hexclude⟩ := mem_and_fresh_of_mem_firsts hmem
    exact ⟨m, hmem, rfl, hexclude⟩

/-- One member of every fate, and a range marker whose initializer has no known value. -/
def shapes : Group where
  name := "Shape"
  kind := .plain
  members :=
    [⟨"SHAPE_DOT", .decimal 0, none⟩, ⟨"SHAPE_RING", .reference "SHAPE_LOOP", none⟩,
      ⟨"SHAPE_BEGIN_RANGE", .reference "SHAPE_DOT", none⟩,
      ⟨"SHAPE_MAX_ENUM", .unevaluated "sizeof(int)", none⟩]

/-- The ring, which refers to a member that is not there. -/
theorem exists_fate_shapes :
    shapes.members.find? (·.name == "SHAPE_RING") =
        some ⟨"SHAPE_RING", .reference "SHAPE_LOOP", none⟩ ∧
      "SHAPE_RING" ∉ ((({} : Settings).options shapes.name).exclude) ∧
      isMarker "SHAPE_RING" = false ∧
      ∃! fate, Meets shapes {} "SHAPE_RING" fate := by
  have hfirst : shapes.members.find? (·.name == "SHAPE_RING") =
      some ⟨"SHAPE_RING", .reference "SHAPE_LOOP", none⟩ := by decide
  have hexclude : "SHAPE_RING" ∉ ((({} : Settings).options shapes.name).exclude) := by decide
  have hmarker : isMarker "SHAPE_RING" = false := by decide +kernel
  refine ⟨hfirst, hexclude, hmarker, ?_⟩
  exact ((exists_fate_resolve shapes {}).1 ⟨"SHAPE_RING", .reference "SHAPE_LOOP", none⟩ hfirst
    hexclude).1 fun h => absurd (hmarker.symm.trans h.1) Bool.false_ne_true

/-- The marker without a known value meets two fates. -/
theorem not_existsUnique_fate_shapes :
    shapes.members.find? (·.name == "SHAPE_MAX_ENUM") =
        some ⟨"SHAPE_MAX_ENUM", .unevaluated "sizeof(int)", none⟩ ∧
      "SHAPE_MAX_ENUM" ∉ ((({} : Settings).options shapes.name).exclude) ∧
      ¬ ∃! fate, Meets shapes {} "SHAPE_MAX_ENUM" fate := by
  have hfirst : shapes.members.find? (·.name == "SHAPE_MAX_ENUM") =
      some ⟨"SHAPE_MAX_ENUM", .unevaluated "sizeof(int)", none⟩ := by decide
  have hexclude : "SHAPE_MAX_ENUM" ∉ ((({} : Settings).options shapes.name).exclude) := by decide
  refine ⟨hfirst, hexclude, ?_⟩
  obtain ⟨c, hc, hmember⟩ : ∃ c ∈ candidates (shapes.participants {}),
      c.member = ⟨"SHAPE_MAX_ENUM", .unevaluated "sizeof(int)", none⟩ :=
    exists_candidate_of_first hfirst hexclude
  obtain ⟨hmarker, hreported⟩ :=
    meets_of_unevaluated hc (by rw [hmember]; decide +kernel) ⟨_, by rw [hmember]⟩
  rw [hmember] at hmarker hreported
  rintro ⟨fate, -, hunique⟩
  cases (hunique _ hmarker).trans (hunique _ hreported).symm

end Resolution

end Enumerant
