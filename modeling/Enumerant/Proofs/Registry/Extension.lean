import Enumerant.Proofs.Registry.Section
import Enumerant.Proofs.Result

/-!
# Entries inside and outside of their block

An entry makes the same member of a group whether it stands in the block of the group or in a
feature or an extension that extends it, with two exceptions (`agree_iff`). Outside of the block the
position of a bit overrides the value that the entry takes from elsewhere (`Repositioned`), and the
number of the enclosing extension counts where the entry has none that is a number (`Misnumbered`).
-/

namespace Enumerant.Registry

/-! ### One more entry -/

/-- The second document has one more entry, in an element of the given kind. -/
def Inserts (frame : Frame) (attrs : Attributes) (doc doc' : List (Section Attributes)) : Prop :=
  ∃ before after front behind, doc = before ++ ⟨frame, front ++ behind⟩ :: after ∧
    doc' = before ++ ⟨frame, front ++ attrs :: behind⟩ :: after

/-- The group of the name has one more member, and nothing else is different. -/
def Gains (name : String) (m : Member) (gs gs' : List Group) : Prop :=
  ∃ (before after : List Group) (u : Group) (front behind : List Member), u.name = name ∧
    gs = before ++ { u with members := front ++ behind } :: after ∧
    gs' = before ++ { u with members := front ++ m :: behind } :: after

/-- What one more entry comes to: a fault, nothing, or one more member in the group of the name. -/
def Outcome (name : String) (s : Schema) (result : Except Fault Schema) :
    Except Fault (Option Member) → Prop
  | .error fault => result = .error fault
  | .ok none => result = .ok s
  | .ok (some m) =>
    ∃ gs, result = .ok (.of gs s.structs) ∧ Gains name m s.groups gs

/-- Both results come from the same fault, from nothing, or from the same member of the group. -/
def Agree (name : String) (s : Schema) (inside outside : Except Fault Schema) : Prop :=
  ∃ outcome, Outcome name s inside outcome ∧ Outcome name s outside outcome

/-- The position of a bit that attributes have, whatever else they give. -/
def position? (attrs : Attributes) : Option Nat :=
  (attrs.lookup "bitpos").bind word?

/-- The attributes have the position of a bit beside another value, which is not that of the bit. -/
def Repositioned (attrs : Attributes) (width : Nat) : Prop :=
  ∃ position, position? attrs = some position ∧ ((attrs.lookup "alias").isSome ∨
    ∃ text, attrs.lookup "value" = some text ∧ valueOfText text ≠ bitValue position width)

/-- The attributes give an offset but no number to count from, while the extension around them has
one. -/
def Misnumbered (attrs : Attributes) (number : Option Int) : Prop :=
  (∀ key ∈ ["alias", "value", "bitpos"], attrs.lookup key = none) ∧
  (∃ text, attrs.lookup "offset" = some text ∧ (number? text).isSome) ∧
  (attrs.lookup "extnumber").bind number? = none ∧ number.isSome

/-! ### What is gained -/

variable {name : String} {m m' : Member} {gs gs' : List Group} {s : Schema}
  {r : Except Fault Schema} {o o' : Except Fault (Option Member)}

/-- What is gained is one member. -/
theorem Gains.perm (h : Gains name m gs gs') :
    (gs'.flatMap Group.members).Perm (m :: gs.flatMap Group.members) := by
  obtain ⟨before, after, u, front, behind, -, rfl, rfl⟩ := h
  simp only [List.flatMap_append, List.flatMap_cons, List.append_assoc, List.cons_append]
  rw [← List.append_assoc, ← List.append_assoc (before.flatMap Group.members)]
  exact List.perm_middle

theorem eq_of_cons_perm_cons {α : Type} [DecidableEq α] {a b : α} {xs : List α}
    (h : (a :: xs).Perm (b :: xs)) : a = b := by
  by_contra hne
  have hcount := h.count_eq a
  simp [Ne.symm hne] at hcount

/-- Groups that gain a member change. -/
theorem Gains.ne (h : Gains name m gs gs') : gs ≠ gs' := by
  rintro rfl
  simpa using h.perm.length_eq

/-- A result comes from one outcome only. -/
theorem Outcome.unique (h : Outcome name s r o) (h' : Outcome name s r o') : o = o' := by
  rcases o with fault | _ | m
  · obtain rfl : r = .error fault := h
    rcases o' with fault' | _ | m'
    · cases (h' : Except.error fault = .error fault')
      rfl
    · cases (h' : Except.error fault = .ok s)
    · obtain ⟨_, hgs', -⟩ := h'
      cases hgs'
  · obtain rfl : r = .ok s := h
    rcases o' with fault' | _ | m'
    · cases (h' : Except.ok s = .error fault')
    · rfl
    · obtain ⟨gs', hgs', hgains⟩ := h'
      exact absurd (congrArg Schema.groups (Except.ok.inj hgs')) hgains.ne
  · obtain ⟨gs, rfl, hgains⟩ := h
    rcases o' with fault' | _ | m'
    · cases (h' : Except.ok _ = .error fault')
    · exact absurd (congrArg Schema.groups (Except.ok.inj h')).symm hgains.ne
    · obtain ⟨gs', hgs', hgains'⟩ := h'
      obtain rfl : gs = gs' := congrArg Schema.groups (Except.ok.inj hgs')
      rw [eq_of_cons_perm_cons (hgains.perm.symm.trans hgains'.perm)]

/-- Two placements agree exactly if both gain the same member, or none, or fail alike. -/
theorem agree_iff_eq {inside outside : Except Fault Schema} (hinside : Outcome name s inside o)
    (houtside : Outcome name s outside o') : Agree name s inside outside ↔ o = o' := by
  constructor
  · rintro ⟨u, hu, hu'⟩
    exact (hinside.unique hu).trans (hu'.unique houtside)
  · rintro rfl
    exact ⟨o, hinside, houtside⟩

/-! ### Groups with one more member -/

variable {before after : List Group} {u : Group} {front behind : List Member}

/-- The groups of a name, with one group told apart. -/
theorem named_of_middle (members : List Member) (name : String) :
    Schema.named (before ++ { u with members } :: after) name =
      Schema.named before name ++ (if u.name = name then [{ u with members }] else []) ++
        Schema.named after name := by
  rw [← List.singleton_append, ← List.append_assoc, Schema.named_append, Schema.named_append,
    Schema.named_singleton]

/-- What stands in one of the declarations of a name stands in the group of the name. -/
theorem exists_united?_of_middle (before after : List Group) (u : Group)
    (front behind : List Member) :
    ∃ (v : Group) (front' behind' : List Member), v.name = u.name ∧ ∀ ms,
      Schema.united? (Schema.named (before ++ { u with members := front ++ ms ++ behind } :: after)
        u.name) = some { v with members := front' ++ ms ++ behind' } := by
  simp only [named_of_middle, if_true]
  cases hbefore : Schema.named before u.name with
  | nil =>
    refine ⟨u, front, behind ++ (Schema.named after u.name).flatMap Group.members, rfl,
      fun ms => ?_⟩
    simp [Schema.united?]
  | cons v vs =>
    have hv : v ∈ Schema.named before u.name := hbefore ▸ List.mem_cons_self
    refine ⟨v, v.members ++ vs.flatMap Group.members ++ front,
      behind ++ (Schema.named after u.name).flatMap Group.members, ?_, fun ms => ?_⟩
    · simpa using (List.mem_filter.mp hv).2
    · simp [Schema.united?]

/-- One more member in one of the declarations is one more in their group. -/
theorem gains_merged (before after : List Group) (u : Group) (front behind : List Member)
    (m : Member) :
    Gains u.name m
      (Schema.merged (before ++ { u with members := front ++ behind } :: after))
      (Schema.merged (before ++ { u with members := front ++ m :: behind } :: after)) := by
  obtain ⟨v, front', behind', hv, hunited⟩ :=
    exists_united?_of_middle before after u front behind
  -- Neither the names nor the groups of other names depend on the members of this one.
  let names := (before.map Group.name ++ u.name :: after.map Group.name).eraseDups
  obtain ⟨first, later, hnames⟩ : ∃ first later, names = first ++ u.name :: later :=
    List.append_of_mem (List.mem_eraseDups.mpr (by simp))
  let others := fun name => Schema.united? (Schema.named (before ++ u :: after) name)
  have hmerged : ∀ ms,
      Schema.merged (before ++ { u with members := front ++ ms ++ behind } :: after) =
        first.filterMap others ++
          { v with members := front' ++ ms ++ behind' } :: later.filterMap others := by
    intro ms
    have hd : (first ++ u.name :: later).Nodup := hnames ▸ nodup_eraseDups _
    have hkeep : ∀ name, name ≠ u.name →
        Schema.named (before ++ { u with members := front ++ ms ++ behind } :: after) name =
          Schema.named (before ++ u :: after) name := by
      intro name hname
      rw [named_of_middle, named_of_middle u.members, if_neg hname.symm, if_neg hname.symm]
    rw [List.nodup_middle, List.nodup_cons, List.mem_append, not_or] at hd
    have hmap : (before ++ { u with members := front ++ ms ++ behind } :: after).map Group.name =
        before.map Group.name ++ u.name :: after.map Group.name := by simp
    rw [Schema.merged, hmap]
    change names.filterMap _ = _
    rw [hnames, List.filterMap_append]
    refine congrArg₂ _ ?_ (Eq.trans (List.filterMap_cons_some ?_) (congrArg _ ?_))
    · exact List.filterMap_congr fun name hn => by rw [hkeep name fun h => hd.1.1 (h ▸ hn)]
    · exact hunited ms
    · exact List.filterMap_congr fun name hn => by rw [hkeep name fun h => hd.1.2 (h ▸ hn)]
  have hold := hmerged []
  have hnew := hmerged [m]
  simp only [List.append_nil, List.append_assoc, List.singleton_append] at hold hnew
  exact ⟨_, _, v, front', behind', hv, hold, hnew⟩

/-- A gain stays one when additions settle behind it. -/
theorem Gains.map_settle (h : Gains name m gs gs') (as : List Addition) :
    Gains name m (gs.map (settle as)) (gs'.map (settle as)) := by
  obtain ⟨before, after, u, front, behind, hu, rfl, rfl⟩ := h
  refine ⟨before.map (settle as), after.map (settle as), u, front,
    behind ++ (as.filter (·.group = u.name)).map (Addition.settled u.width), hu, ?_, ?_⟩
  · simp [settle]
  · simp [settle]

/-- One more addition to a group is one more member of it. -/
theorem gains_map_settle {a : Addition} (hd : (gs.map Group.name).Nodup) (hu : u ∈ gs)
    (ha : a.group = u.name) (as bs : List Addition) :
    Gains u.name (a.settled u.width) (gs.map (settle (as ++ bs)))
      (gs.map (settle (as ++ a :: bs))) := by
  obtain ⟨before, after, rfl⟩ := List.append_of_mem hu
  rw [List.map_append, List.map_cons, List.nodup_middle, List.nodup_cons, List.mem_append,
    not_or] at hd
  have hkeep : ∀ v : Group, v.name ≠ u.name → settle (as ++ a :: bs) v = settle (as ++ bs) v := by
    intro v hv
    simp [settle, ha, hv.symm]
  refine ⟨before.map (settle (as ++ bs)), after.map (settle (as ++ bs)), u,
    u.members ++ (as.filter (·.group = u.name)).map (Addition.settled u.width),
    (bs.filter (·.group = u.name)).map (Addition.settled u.width), rfl, ?_, ?_⟩
  · simp [settle]
  · have hbefore : before.map (settle (as ++ a :: bs)) = before.map (settle (as ++ bs)) :=
      List.map_congr_left fun v hv => hkeep v fun h => hd.1.1 (h ▸ List.mem_map_of_mem hv)
    have hafter : after.map (settle (as ++ a :: bs)) = after.map (settle (as ++ bs)) :=
      List.map_congr_left fun v hv => hkeep v fun h => hd.1.2 (h ▸ List.mem_map_of_mem hv)
    rw [List.map_append, List.map_cons, hbefore, hafter]
    simp [settle, ha]

/-! ### Documents with one more entry -/

section Except

variable {α β : Type} {f : α → Except Fault β} {xs ys : List α} {us vs zs : List β}

/-- A reading that goes well does so on either part. -/
theorem exists_of_mapM_append (h : (xs ++ ys).mapM f = .ok zs) :
    ∃ us vs, xs.mapM f = .ok us ∧ ys.mapM f = .ok vs ∧ zs = us ++ vs := by
  rw [List.mapM_append] at h
  cases hus : xs.mapM f with
  | error fault =>
    rw [hus] at h
    cases h
  | ok us =>
    cases hvs : ys.mapM f with
    | error fault =>
      rw [hus, hvs] at h
      cases h
    | ok vs =>
      rw [hus, hvs] at h
      cases h
      exact ⟨us, vs, rfl, rfl, rfl⟩

/-- A reading that goes well does so on an element and on both sides of it. -/
theorem exists_of_mapM_middle {x : α} (h : (xs ++ x :: ys).mapM f = .ok zs) :
    ∃ us z vs, xs.mapM f = .ok us ∧ f x = .ok z ∧ ys.mapM f = .ok vs ∧ zs = us ++ z :: vs := by
  obtain ⟨us, ws, hus, hws, rfl⟩ := exists_of_mapM_append h
  obtain ⟨zs, vs, hzs, hvs, rfl⟩ :=
    exists_of_mapM_append (show ([x] ++ ys).mapM f = .ok ws from hws)
  rw [List.mapM_cons] at hzs
  cases hz : f x with
  | error fault =>
    rw [hz] at hzs
    cases hzs
  | ok z =>
    rw [hz] at hzs
    cases hzs
    exact ⟨us, z, vs, hus, rfl, hvs, rfl⟩

/-- Between elements that are read, another one is read or fails by itself. -/
theorem mapM_middle (hus : xs.mapM f = .ok us) (hvs : ys.mapM f = .ok vs) (x : α) :
    (xs ++ x :: ys).mapM f = (f x).map fun z => us ++ z :: vs := by
  rw [List.mapM_append, List.mapM_cons, hus, hvs]
  cases f x <;> rfl

end Except

variable {doc doc' : List (Section Attributes)} {frame : Frame} {attrs : Attributes}

/-- Where a section declares what its entries make, one more entry makes one more thing or fails. -/
theorem exists_schemaOf_of_inserts {α : Type} {f : Attributes → Except Fault (Option α)}
    (yield : List α → Yield)
    (hread : ∀ entries, Section.read ⟨frame, entries⟩ =
      (entries.mapM f).map fun xs => yield xs.reduceOption)
    (h : Inserts frame attrs doc doc') (hs : schemaOf doc = .ok s) :
    ∃ us vs front behind, s = (Yield.total (us ++ yield (front ++ behind) :: vs)).schema ∧
      schemaOf doc' = (f attrs).map fun x =>
        (Yield.total (us ++ yield (front ++ x.toList ++ behind) :: vs)).schema := by
  obtain ⟨before, after, front, behind, rfl, rfl⟩ := h
  obtain ⟨ys, hys, rfl⟩ := exists_of_map_eq_ok hs
  obtain ⟨us, y, vs, hus, hy, hvs, rfl⟩ := exists_of_mapM_middle hys
  rw [hread] at hy
  obtain ⟨xs, hxs, rfl⟩ := exists_of_map_eq_ok hy
  obtain ⟨front', behind', hfront, hbehind, rfl⟩ := exists_of_mapM_append hxs
  refine ⟨us, vs, front'.reduceOption, behind'.reduceOption, ?_, ?_⟩
  · rw [List.reduceOption_append]
  · rw [schemaOf, mapM_middle hus hvs, hread, mapM_middle hfront hbehind]
    cases f attrs with
    | error fault => rfl
    | ok x => cases x <;> simp [Except.map, List.reduceOption_append]

/-- In a block, an entry comes to what its attributes describe. -/
theorem outcome_of_inserts_block {kind : Kind} {width : Nat}
    (h : Inserts (.block name kind width) attrs doc doc') (hs : schemaOf doc = .ok s) :
    Outcome name s (schemaOf doc') <| entryOf? attrs width none := by
  obtain ⟨us, vs, front, behind, rfl, hnew⟩ := exists_schemaOf_of_inserts
    (fun ms => { groups := [⟨name, kind, width, ms⟩] }) (fun _ => rfl) h hs
  rw [hnew]
  rcases entryOf? attrs width none with fault | _ | m
  · rfl
  · simp [Outcome, Except.map]
  · refine ⟨_, rfl, ?_⟩
    have hgains := (gains_merged (us.flatMap Yield.groups) (vs.flatMap Yield.groups)
      ⟨name, kind, width, []⟩ front behind m).map_settle ((us ++ vs).flatMap Yield.additions)
    simpa [Yield.schema, Yield.total] using hgains

/-- The member that an entry makes where its addition is placed. -/
def placed (attrs : Attributes) (width : Nat) (m : Member) : Member :=
  { m with value := ((position? attrs).map (bitValue · width)).getD m.value }

/-- Outside of blocks, an entry comes to what its attributes describe for 32 bits, placed. -/
theorem outcome_of_inserts_outside {g : Group}
    (hframe : ∀ name kind width, frame ≠ .block name kind width)
    (h : Inserts frame attrs doc doc') (hs : schemaOf doc = .ok s) (hg : s.group? name = some g)
    (hextends : attrs.lookup "extends" = some name) :
    Outcome name s (schemaOf doc')
      ((entryOf? attrs 32 frame.extension?).map (·.map (placed attrs g.width))) := by
  obtain ⟨us, vs, front, behind, rfl, hnew⟩ := exists_schemaOf_of_inserts
    (fun as => { additions := as }) (fun _ => Section.read_outside hframe) h hs
  rw [hnew, addition?, hextends]
  rcases entryOf? attrs 32 frame.extension? with fault | _ | m
  · rfl
  · simp [Outcome, Except.map]
  · refine ⟨_, rfl, ?_⟩
    rw [Schema.group?_eq_find?] at hg
    obtain ⟨u, hu, rfl⟩ := List.mem_map.mp (List.mem_of_find?_eq_some hg)
    obtain rfl : u.name = name := by
      have hname := List.find?_some hg
      rwa [beq_iff_eq, name_settle] at hname
    -- Of the additions, those from sections in front come first, then those of the same section.
    have hgains := gains_map_settle (a := ⟨u.name, m, position? attrs⟩) (Schema.nodup_merged _)
      hu rfl (us.flatMap Yield.additions ++ front) (behind ++ vs.flatMap Yield.additions)
    have hplaced : placed attrs u.width m = Addition.settled u.width ⟨u.name, m, position? attrs⟩ :=
      rfl
    rw [width_settle, hplaced]
    simpa [Yield.schema, Yield.total, position?] using hgains

/-! ### The same attributes in both places -/

variable {attrs' : Attributes} {width : Nat} {number : Option Int}

/-- An entry does not depend on what it extends. -/
theorem entryOf?_congr (h : ∀ key, key ≠ "extends" → attrs'.lookup key = attrs.lookup key) :
    entryOf? attrs' width number = entryOf? attrs width number := by
  simp only [entryValue, entryOf?, h "name" (by decide), h "comment" (by decide),
    h "alias" (by decide), h "value" (by decide), h "bitpos" (by decide), h "offset" (by decide),
    h "extnumber" (by decide), h "dir" (by decide)]

/-- Where a bit is placed does not depend on what is extended. -/
theorem placed_congr (h : ∀ key, key ≠ "extends" → attrs'.lookup key = attrs.lookup key) :
    placed attrs' width = placed attrs width := by
  funext m
  rw [placed, placed, position?, position?, h "bitpos" (by decide)]

/-- An entry with a name is a member if it has a value. -/
theorem entryOf?_of_name (h : attrs.lookup "name" = some name) :
    entryOf? attrs width number = (entryValue name attrs width number).map
      (·.map fun value => ⟨name, value, attrs.lookup "comment"⟩) := by
  unfold entryOf?
  rw [h]
  dsimp only
  rcases entryValue name attrs width number with fault | _ | value <;> rfl

/-- The value that an entry gives where its addition is placed. -/
def placedValue (attrs : Attributes) (width : Nat) (value : Initializer) : Initializer :=
  ((position? attrs).map (bitValue · width)).getD value

/-- The value that an entry gives outside of its block is the one that it gives inside. -/
def SameValue (attrs : Attributes) (name : String) (width : Nat) (number : Option Int) : Prop :=
  entryValue name attrs width none =
    (entryValue name attrs 32 number).map (·.map (placedValue attrs width))

/-- An alias with a bit position as well is no alias outside of its group. -/
theorem sameValue_iff_of_alias {target : String} (name : String)
    (h : attrs.lookup "alias" = some target) :
    SameValue attrs name width number ↔ ¬ Repositioned attrs width := by
  have hvalue : ∀ width number,
      entryValue name attrs width number = .ok (some (.reference target)) := by
    intro width number
    rw [entryValue, h]
  rw [SameValue, hvalue, hvalue]
  cases hposition : position? attrs <;>
    simp [Except.map, placedValue, Repositioned, h, hposition, bitValue]

/-- A value with a bit position as well is that of the bit outside of its group. -/
theorem sameValue_iff_of_value {text : String} (name : String)
    (halias : attrs.lookup "alias" = none) (h : attrs.lookup "value" = some text) :
    SameValue attrs name width number ↔ ¬ Repositioned attrs width := by
  have hvalue : ∀ width number,
      entryValue name attrs width number = .ok (some (valueOfText text)) := by
    intro width number
    rw [entryValue, halias, h]
  rw [SameValue, hvalue, hvalue]
  cases hposition : position? attrs <;>
    simp [Except.map, placedValue, Repositioned, halias, h, hposition]

/-- A bit alone has the same value in both places. -/
theorem sameValue_of_bitpos {text : String} (name : String) (halias : attrs.lookup "alias" = none)
    (hvalue : attrs.lookup "value" = none) (h : attrs.lookup "bitpos" = some text) :
    SameValue attrs name width number := by
  simp only [SameValue, entryValue, halias, hvalue, h]
  cases hword : word? text with
  | none => rfl
  | some position =>
    have hplaced : placedValue attrs width = fun _ => bitValue position width := by
      funext value
      rw [placedValue, position?, h, Option.bind_some, hword]
      rfl
    by_cases hlt : position < 64 <;> simp [hlt, Except.map, hplaced]

/-- Where no other attribute gives a value, an offset counts from the same number in both places
unless the extension has to lend one. -/
theorem sameValue_iff_of_offset (name : String)
    (hnone : ∀ key ∈ ["alias", "value", "bitpos"], attrs.lookup key = none) :
    SameValue attrs name width number ↔ ¬ Misnumbered attrs number := by
  have hplaced : placedValue attrs width = id := by
    funext value
    rw [placedValue, position?, hnone "bitpos" (by decide)]
    rfl
  have hmap : (entryValue name attrs 32 number).map (·.map (placedValue attrs width)) =
      entryValue name attrs 32 number := by
    rw [hplaced]
    rcases entryValue name attrs 32 number with fault | _ | value <;> rfl
  rw [SameValue, hmap, Misnumbered, and_iff_right hnone]
  simp only [entryValue, hnone "alias" (by decide), hnone "value" (by decide),
    hnone "bitpos" (by decide)]
  -- Both places look for the extension number in the same way, but a block knows no default.
  cases hoffset : attrs.lookup "offset" with
  | none => simp
  | some text =>
    dsimp only
    cases ho : number? text with
    | none => simp [ho]
    | some o =>
      cases hn : (attrs.lookup "extnumber").bind number? with
      | some n => simp
      | none => cases number <;> simp [ho]

/-- Only an offset needs the number of an extension. -/
theorem not_misnumbered {key value : String} (h : attrs.lookup key = some value)
    (hkey : key ∈ ["alias", "value", "bitpos"]) : ¬ Misnumbered attrs number := by
  intro hmis
  cases h.symm.trans (hmis.1 key hkey)

theorem not_repositioned (halias : attrs.lookup "alias" = none)
    (hvalue : attrs.lookup "value" = none) : ¬ Repositioned attrs width := by
  rintro ⟨position, -, h | ⟨text, h, -⟩⟩
  · rw [halias] at h
    cases h
  · cases hvalue.symm.trans h

/-- The value is the same in both places unless a bit position overrides it or the number of an
extension is missing. -/
theorem sameValue_iff (name : String) : SameValue attrs name width number ↔
    ¬ Repositioned attrs width ∧ ¬ Misnumbered attrs number := by
  cases halias : attrs.lookup "alias" with
  | some target =>
    rw [and_iff_left (not_misnumbered halias (by decide))]
    exact sameValue_iff_of_alias name halias
  | none =>
    cases hvalue : attrs.lookup "value" with
    | some text =>
      rw [and_iff_left (not_misnumbered hvalue (by decide))]
      exact sameValue_iff_of_value name halias hvalue
    | none =>
      rw [and_iff_right (not_repositioned halias hvalue)]
      cases hbit : attrs.lookup "bitpos" with
      | some text =>
        exact iff_of_true (sameValue_of_bitpos name halias hvalue hbit)
          (not_misnumbered hbit (by decide))
      | none =>
        refine sameValue_iff_of_offset name ?_
        simp only [List.forall_mem_cons, halias, hvalue, hbit, List.not_mem_nil, false_imp_iff,
          implies_true, and_self]

/-- An entry means the same in a block and as an addition exactly if its value does. -/
theorem entryOf?_eq_placed_iff (h : attrs.lookup "name" = some name) :
    entryOf? attrs width none =
        (entryOf? attrs 32 number).map (·.map (placed attrs width)) ↔
      SameValue attrs name width number := by
  rw [entryOf?_of_name h, entryOf?_of_name h, SameValue]
  rcases entryValue name attrs width none with fault | _ | value <;>
    rcases entryValue name attrs 32 number with fault' | _ | value' <;>
    simp [Except.map, placed, placedValue]

/-! ### Two texts -/

/-- Let a document that can be read be given one more entry, once in a block of a group and once,
with the name of the group, in a feature or an extension. Both come to the same fault or the same
member of the group, exactly if the position of a bit in its attributes does not override what they
give otherwise and no offset counts from the number of the extension for want of one of its own. -/
theorem agree_iff {text inside outside : String}
    {doc docInside docOutside : List (Section Attributes)} {g : Group} {kind : Kind}
    (hdoc : Document text doc) (hinside : Document inside docInside)
    (houtside : Document outside docOutside)
    (hs : (read text).map Contents.schema = .ok s) (hg : s.group? name = some g)
    (hblock : Inserts (.block name kind g.width) attrs doc docInside)
    (hframe : frame = .feature ∨ ∃ n, frame = .extension n)
    (hextension : Inserts frame attrs' doc docOutside)
    (hextends : attrs'.lookup "extends" = some name)
    (hsame : ∀ key, key ≠ "extends" → attrs'.lookup key = attrs.lookup key)
    (hname : (attrs.lookup "name").isSome) :
    Agree name s ((read inside).map Contents.schema) ((read outside).map Contents.schema) ↔
      ¬ Repositioned attrs g.width ∧ ¬ Misnumbered attrs frame.extension? := by
  rw [map_schema_read hdoc] at hs
  rw [map_schema_read hinside, map_schema_read houtside]
  have hoff : ∀ name kind width, frame ≠ .block name kind width := by
    rcases hframe with rfl | ⟨n, rfl⟩ <;> exact nofun
  have houtcome := outcome_of_inserts_outside hoff hextension hs hg hextends
  rw [entryOf?_congr hsame, placed_congr hsame] at houtcome
  obtain ⟨n, hn⟩ := Option.isSome_iff_exists.mp hname
  rw [agree_iff_eq (outcome_of_inserts_block hblock hs) houtcome, entryOf?_eq_placed_iff hn,
    sameValue_iff]

/-- A block of 64 bits and a feature, with the given texts in them. -/
def wideRegistry (inside outside : String) : String :=
  "<enums name=\"G\" type=\"enum\" bitwidth=\"64\">" ++ inside ++ "</enums><feature>" ++ outside ++
    "</feature>"

theorem toList_wideRegistry (inside outside : String) :
    (wideRegistry inside outside).toList =
      "<enums name=\"G\" type=\"enum\" bitwidth=\"64\">".toList ++ inside.toList ++
        "</enums><feature>".toList ++ outside.toList ++ "</feature>".toList := by
  unfold wideRegistry
  iterate 4 rewrite [String.toList_append]
  rfl

/-- A registry with a block of 64 bits and a feature behind it. -/
theorem document_wideRegistry {inside outside : String} {es es' : List Markup.Event}
    {entries entries' : List Attributes}
    (hevents : Markup.events (wideRegistry inside outside).toList =
      (.opening ⟨"enums", " name=\"G\" type=\"enum\" bitwidth=\"64\"".toList, false⟩ ::
        (es ++ .closing "enums" :: .opening ⟨"feature", [], false⟩ ::
          (es' ++ [.closing "feature"])), .complete))
    (h : Body entries es) (h' : Body entries' es') :
    Document (wideRegistry inside outside)
      [⟨.block "G" .plain 64, entries⟩, ⟨.feature, entries'⟩] := by
  have hblock : Frame.Opens ⟨"enums", " name=\"G\" type=\"enum\" bitwidth=\"64\"".toList, false⟩
      (.block "G" .plain 64) :=
    @Frame.Opens.block _ [("name", "G"), ("type", "enum"), ("bitwidth", "64")] _ _ _ rfl
      (by decide +kernel) rfl rfl (.inr ⟨"64", rfl, by decide⟩)
  refine ⟨_, hevents, ?_⟩
  refine @Writes.filled _ ⟨.block "G" .plain 64, entries⟩ _ es _ hblock rfl h ?_
  exact @Writes.filled _ ⟨.feature, entries'⟩ _ es' _ (.feature rfl) rfl h' .nil

/-- A single bit is the same member of a wide group in both places. -/
theorem agree_wideBit :
    (read (wideRegistry "" "")).map Contents.schema =
        .ok { groups := [⟨"G", .plain, 64, []⟩] } ∧
      Agree "G" { groups := [⟨"G", .plain, 64, []⟩] }
        ((read (wideRegistry "<enum name=\"A\" bitpos=\"3\"/>" "")).map Contents.schema)
        ((read (wideRegistry "" "<enum extends=\"G\" name=\"A\" bitpos=\"3\"/>")).map
          Contents.schema) := by
  have hdoc : Document (wideRegistry "" "") [⟨.block "G" .plain 64, []⟩, ⟨.feature, []⟩] := by
    refine @document_wideRegistry _ _ [] [] _ _ ?_ .nil .nil
    rewrite [toList_wideRegistry]
    repeat rewrite [String.toList_ofList]
    decide +kernel
  have hinside : Document (wideRegistry "<enum name=\"A\" bitpos=\"3\"/>" "")
      [⟨.block "G" .plain 64, [[("name", "A"), ("bitpos", "3")]]⟩, ⟨.feature, []⟩] := by
    refine @document_wideRegistry _ _ [.opening ⟨"enum", " name=\"A\" bitpos=\"3\"".toList, true⟩]
      [] _ _ ?_ (.entry rfl (by decide +kernel) .nil) .nil
    rewrite [toList_wideRegistry]
    repeat rewrite [String.toList_ofList]
    decide +kernel
  have houtside : Document (wideRegistry "" "<enum extends=\"G\" name=\"A\" bitpos=\"3\"/>")
      [⟨.block "G" .plain 64, []⟩,
        ⟨.feature, [[("extends", "G"), ("name", "A"), ("bitpos", "3")]]⟩] := by
    refine @document_wideRegistry _ _ []
      [.opening ⟨"enum", " extends=\"G\" name=\"A\" bitpos=\"3\"".toList, true⟩] _ _ ?_ .nil
      (.entry rfl (by decide +kernel) .nil)
    rewrite [toList_wideRegistry]
    repeat rewrite [String.toList_ofList]
    decide +kernel
  have hread : (read (wideRegistry "" "")).map Contents.schema =
      .ok { groups := [⟨"G", .plain, 64, []⟩] } := by
    rw [map_schema_read hdoc]
    decide +kernel
  refine ⟨hread, (agree_iff hdoc hinside houtside hread rfl ⟨[], _, [], [], rfl, rfl⟩ (.inl rfl)
    ⟨[_], [], [], [], rfl, rfl⟩ rfl (fun key hkey => ?_) rfl).mpr ⟨?_, ?_⟩⟩
  · rw [List.lookup_cons, beq_false_of_ne hkey]
  · exact not_repositioned rfl rfl
  · exact not_misnumbered (show List.lookup "bitpos" _ = some "3" from rfl) (by decide)

/-- Another member's name gives way to the position of a bit beside it, but only outside of the
block. -/
theorem not_agree_aliasedBit :
    (read (wideRegistry "<enum name=\"A\" alias=\"B\" bitpos=\"3\"/>" "")).map Contents.schema =
        .ok { groups := [⟨"G", .plain, 64, [⟨"A", .reference "B", none⟩]⟩] } ∧
      (read (wideRegistry "" "<enum extends=\"G\" name=\"A\" alias=\"B\" bitpos=\"3\"/>")).map
          Contents.schema = .ok { groups := [⟨"G", .plain, 64,
            [⟨"A", .literal 8 "0x0000000000000008ULL", none⟩]⟩] } ∧
      ¬ Agree "G" { groups := [⟨"G", .plain, 64, []⟩] }
        ((read (wideRegistry "<enum name=\"A\" alias=\"B\" bitpos=\"3\"/>" "")).map
          Contents.schema)
        ((read (wideRegistry "" "<enum extends=\"G\" name=\"A\" alias=\"B\" bitpos=\"3\"/>")).map
          Contents.schema) := by
  have hinside : Document (wideRegistry "<enum name=\"A\" alias=\"B\" bitpos=\"3\"/>" "")
      [⟨.block "G" .plain 64, [[("name", "A"), ("alias", "B"), ("bitpos", "3")]]⟩,
        ⟨.feature, []⟩] := by
    refine @document_wideRegistry _ _
      [.opening ⟨"enum", " name=\"A\" alias=\"B\" bitpos=\"3\"".toList, true⟩] [] _ _ ?_
      (.entry rfl (by decide +kernel) .nil) .nil
    rewrite [toList_wideRegistry]
    repeat rewrite [String.toList_ofList]
    decide +kernel
  have houtside : Document
      (wideRegistry "" "<enum extends=\"G\" name=\"A\" alias=\"B\" bitpos=\"3\"/>")
      [⟨.block "G" .plain 64, []⟩,
        ⟨.feature, [[("extends", "G"), ("name", "A"), ("alias", "B"), ("bitpos", "3")]]⟩] := by
    refine @document_wideRegistry _ _ []
      [.opening ⟨"enum", " extends=\"G\" name=\"A\" alias=\"B\" bitpos=\"3\"".toList, true⟩] _ _ ?_
      .nil (.entry rfl (by decide +kernel) .nil)
    rewrite [toList_wideRegistry]
    repeat rewrite [String.toList_ofList]
    decide +kernel
  have hreadInside : (read (wideRegistry "<enum name=\"A\" alias=\"B\" bitpos=\"3\"/>" "")).map
      Contents.schema = .ok { groups := [⟨"G", .plain, 64, [⟨"A", .reference "B", none⟩]⟩] } := by
    rw [map_schema_read hinside]
    decide +kernel
  have hreadOutside : (read (wideRegistry ""
      "<enum extends=\"G\" name=\"A\" alias=\"B\" bitpos=\"3\"/>")).map Contents.schema =
      .ok { groups := [⟨"G", .plain, 64, [⟨"A", .literal 8 "0x0000000000000008ULL", none⟩]⟩] } := by
    rw [map_schema_read houtside]
    decide +kernel
  have hgains : ∀ m, Outcome "G" { groups := [⟨"G", .plain, 64, []⟩] }
      (.ok { groups := [⟨"G", .plain, 64, [m]⟩] }) (.ok (some m)) := by
    intro m
    exact ⟨_, rfl, [], [], ⟨"G", .plain, 64, []⟩, [], [], rfl, rfl, rfl⟩
  refine ⟨hreadInside, hreadOutside, ?_⟩
  rw [hreadInside, hreadOutside, agree_iff_eq (hgains _) (hgains _)]
  decide

end Enumerant.Registry
