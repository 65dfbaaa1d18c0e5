import Mathlib.Algebra.GroupWithZero.Nat
import Mathlib.Data.List.Basic
import Mathlib.Data.Nat.Basic
import Mathlib.Order.Basic
import Enumerant.Proofs.Patch.Layout

/-!
# Which files are accepted

Whether the regions of a file can be found is a matter of its markers alone: they have to come in
pairs, an opening and a closing one of the same tag (`Balanced`). Where they do, the regions tell
where each pair stands, every distance being counted from the pair before (`Describes`). Where they
do not, the first marker that is out of place decides what is at fault (`Breach`), or else the end
of the file. The lines between the markers have no say in it (`scan_iff_markers`).

The scan carries a state from line to line. `scanFrom_eq` does away with it: a region that is open
is a marker put in front of those to come, and `scanMarkers` looks at two of them at a time. Pairs
are taken off its front (`exists_pairs`), and since indices increase from marker to marker, the
distances that it finds add up to them (`eq_regionsOf_iff`).
-/

namespace Enumerant.Region

variable {index last : ℕ} {pending : Option Pending} {lines : List String}
  {ms : List (ℕ × Marker)} {rs : List Region} {fault : Fault}

/-! ### Pairs of markers -/

/-- An opening and a closing marker of one tag, and the indices of their lines. -/
structure Bracket where
  tag : String
  storage : Option String
  style : Style
  opening : ℕ
  closing : ℕ

/-- The two markers of a pair. -/
def Bracket.markers (b : Bracket) : List (ℕ × Marker) :=
  [(b.opening, .opening b.tag b.storage b.style), (b.closing, .closing b.tag)]

/-- The markers on lines. -/
def markers (lines : List String) : List Marker :=
  lines.filterMap fun line => Marker.parse? line.toList

/-- Markers that open and close in turn, each closing one with the tag of the one before. -/
inductive Balanced : List Marker → Prop
  | nil : Balanced []
  | pair {tag : String} {storage : Option String} {style : Style} {ms : List Marker}
      (h : Balanced ms) : Balanced (.opening tag storage style :: .closing tag :: ms)

/-- Regions say of pairs of markers what the opening ones say and where the markers stand: the
distances of all regions before a pair and its own add up to its indices. -/
structure Describes (rs : List Region) (bs : List Bracket) : Prop where
  length_eq : rs.length = bs.length
  marker : ∀ (k : ℕ) (r : Region) (b : Bracket), rs[k]? = some r → bs[k]? = some b →
    r.tag = b.tag ∧ r.storage = b.storage ∧ r.style = b.style
  position : ∀ (k : ℕ) (r : Region) (b : Bracket), rs[k]? = some r → bs[k]? = some b →
    ((rs.take k).map fun r => r.offset + r.length).sum + r.offset = b.opening ∧
      b.opening + r.length = b.closing

/-- What is at fault with markers behind those that come in pairs; lines are counted from one. -/
inductive Breach : List (ℕ × Marker) → Fault → Prop
  | notOpened (i : ℕ) (tag : String) (ms : List (ℕ × Marker)) :
      Breach ((i, .closing tag) :: ms) (.notOpened (i + 1) tag)
  | reopened (o i : ℕ) (tag found : String) (storage storage' : Option String)
      (style style' : Style) (ms : List (ℕ × Marker)) :
      Breach ((o, .opening tag storage style) :: (i, .opening found storage' style') :: ms)
        (.notClosed (i + 1) tag found)
  | mismatched (o i : ℕ) (tag found : String) (storage : Option String) (style : Style)
      (ms : List (ℕ × Marker)) (h : found ≠ tag) :
      Breach ((o, .opening tag storage style) :: (i, .closing found) :: ms)
        (.notClosed (i + 1) tag ("/" ++ found))
  | unterminated (o : ℕ) (tag : String) (storage : Option String) (style : Style) :
      Breach [(o, .opening tag storage style)] (.unterminated (o + 1) tag)

/-! ### The scan of markers -/

/-- The regions between markers, when the last closing marker stood at an index. -/
def scanMarkers (last : ℕ) : List (ℕ × Marker) → Except Fault (List Region)
  | [] => .ok []
  | (i, .closing tag) :: _ => .error (.notOpened (i + 1) tag)
  | [(o, .opening tag _ _)] => .error (.unterminated (o + 1) tag)
  | (_, .opening tag _ _) :: (i, .opening found _ _) :: _ => .error (.notClosed (i + 1) tag found)
  | (o, .opening tag storage style) :: (c, .closing found) :: ms =>
    if found = tag then
      (scanMarkers c ms).map (⟨tag, storage, style, o - last, c - o⟩ :: ·)
    else .error (.notClosed (c + 1) tag ("/" ++ found))

/-- The opening marker of a region that is open. -/
def Pending.marker (p : Pending) : ℕ × Marker :=
  (p.index, .opening p.tag p.storage p.style)

/-- **The scan is one of markers.** -/
theorem scanFrom_eq (index last : ℕ) (pending : Option Pending) (lines : List String) :
    scanFrom index last pending lines =
      scanMarkers last ((pending.map Pending.marker).toList ++ markersFrom index lines) := by
  induction lines generalizing index last pending with
  | nil => cases pending <;> rfl
  | cons line lines ih =>
    cases hm : Marker.parse? line.toList with
    | none =>
      have hmarkers : markersFrom index (line :: lines) = markersFrom (index + 1) lines := by
        simp [markersFrom, hm]
      rw [scanFrom_cons_of_plain hm, ih, hmarkers]
    | some m =>
      rw [markersFrom_cons hm]
      cases pending with
      | none =>
        cases m with
        | opening tag storage style =>
          rw [scanFrom_cons_of_opening hm, ih]
          rfl
        | closing tag => simp [scanFrom, hm, scanMarkers]
      | some p =>
        cases m with
        | opening tag storage style => simp [scanFrom, hm, scanMarkers, Pending.marker]
        | closing tag =>
          simp [scanFrom, hm, scanMarkers, Pending.marker, ih]

/-! ### Pairs, and what follows them -/

/-- The regions of pairs of markers, when the last closing marker stood at an index. -/
def regionsOf (last : ℕ) : List Bracket → List Region
  | [] => []
  | b :: bs =>
    ⟨b.tag, b.storage, b.style, b.opening - last, b.closing - b.opening⟩ ::
      regionsOf b.closing bs

/-- A pair of markers is a region. -/
theorem scanMarkers_markers_append (last : ℕ) (b : Bracket) (ms : List (ℕ × Marker)) :
    scanMarkers last (b.markers ++ ms) =
      (scanMarkers b.closing ms).map
        (⟨b.tag, b.storage, b.style, b.opening - last, b.closing - b.opening⟩ :: ·) := by
  simp [Bracket.markers, scanMarkers]

/-- Pairs of markers are regions, each counted from the one before. -/
theorem scanMarkers_flatMap (last : ℕ) (bs : List Bracket) :
    scanMarkers last (bs.flatMap Bracket.markers) = .ok (regionsOf last bs) := by
  induction bs generalizing last with
  | nil => rfl
  | cons b bs ih => rw [List.flatMap_cons, scanMarkers_markers_append, ih, Except.map, regionsOf]

/-- A breach is found where it is. -/
theorem Breach.scanMarkers (h : Breach ms fault) (last : ℕ) :
    scanMarkers last ms = .error fault := by
  cases h with
  | mismatched o i tag found storage style ms hne => simp [Region.scanMarkers, hne]
  | _ => rfl

/-- It is found behind any regions. -/
theorem Breach.scanMarkers_flatMap_append (h : Breach ms fault) (last : ℕ) (bs : List Bracket) :
    Region.scanMarkers last (bs.flatMap Bracket.markers ++ ms) = .error fault := by
  induction bs generalizing last with
  | nil => exact h.scanMarkers last
  | cons b bs ih =>
    rw [List.flatMap_cons, List.append_assoc, scanMarkers_markers_append, ih, Except.map]

/-- Behind the pairs that come first there is nothing left, or there is a fault. -/
theorem exists_pairs (ms : List (ℕ × Marker)) :
    ∃ (bs : List Bracket) (rest : List (ℕ × Marker)), ms = bs.flatMap Bracket.markers ++ rest ∧
      (rest = [] ∨ ∃ fault, Breach rest fault) := by
  fun_induction scanMarkers 0 ms with
  | case1 => exact ⟨[], [], rfl, .inl rfl⟩
  | case2 last i tag ms => exact ⟨[], _, rfl, .inr ⟨_, .notOpened i tag ms⟩⟩
  | case3 last o tag storage style =>
    exact ⟨[], _, rfl, .inr ⟨_, .unterminated o tag storage style⟩⟩
  | case4 last o tag storage style i found storage' style' ms =>
    exact ⟨[], _, rfl, .inr ⟨_, .reopened o i tag found storage storage' style style' ms⟩⟩
  | case5 last o storage style c found ms ih =>
    obtain ⟨bs, rest, rfl, hrest⟩ := ih
    exact ⟨⟨found, storage, style, o, c⟩ :: bs, rest, rfl, hrest⟩
  | case6 last o tag storage style c found ms hne =>
    exact ⟨[], _, rfl, .inr ⟨_, .mismatched o c tag found storage style ms hne⟩⟩

/-- Markers are accepted exactly if they come in pairs. -/
theorem scanMarkers_eq_ok_iff :
    scanMarkers last ms = .ok rs ↔
      ∃ bs : List Bracket, ms = bs.flatMap Bracket.markers ∧ rs = regionsOf last bs := by
  constructor
  · intro h
    obtain ⟨bs, rest, rfl, rfl | ⟨fault, hfault⟩⟩ := exists_pairs ms
    · rw [List.append_nil, scanMarkers_flatMap] at h
      exact ⟨bs, List.append_nil _, (Except.ok.inj h).symm⟩
    · rw [hfault.scanMarkers_flatMap_append] at h
      cases h
  · rintro ⟨bs, rfl, rfl⟩
    exact scanMarkers_flatMap last bs

theorem scanMarkers_eq_error_iff :
    scanMarkers last ms = .error fault ↔
      ∃ (bs : List Bracket) (rest : List (ℕ × Marker)),
        ms = bs.flatMap Bracket.markers ++ rest ∧ Breach rest fault := by
  constructor
  · intro h
    obtain ⟨bs, rest, rfl, rfl | ⟨fault', hfault⟩⟩ := exists_pairs ms
    · rw [List.append_nil, scanMarkers_flatMap] at h
      cases h
    · rw [hfault.scanMarkers_flatMap_append] at h
      cases h
      exact ⟨bs, rest, rfl, hfault⟩
  · rintro ⟨bs, rest, rfl, hfault⟩
    exact hfault.scanMarkers_flatMap_append last bs

/-- Pairs of markers are balanced, and what is balanced comes in pairs. -/
theorem balanced_iff :
    Balanced (ms.map Prod.snd) ↔ ∃ bs : List Bracket, ms = bs.flatMap Bracket.markers := by
  constructor
  · fun_induction scanMarkers 0 ms with
    | case1 => exact fun _ => ⟨[], rfl⟩
    | case5 last o storage style c found ms ih =>
      rintro (_ | h)
      obtain ⟨bs, rfl⟩ := ih h
      exact ⟨⟨found, storage, style, o, c⟩ :: bs, rfl⟩
    | case6 last o tag storage style c found ms hne =>
      rintro (_ | h)
      exact absurd rfl hne
    | _ => rintro ⟨⟩
  · rintro ⟨bs, rfl⟩
    induction bs with
    | nil => exact .nil
    | cons b bs ih => exact .pair ih

theorem map_snd_markersFrom (index : ℕ) (lines : List String) :
    (markersFrom index lines).map Prod.snd = markers lines := by
  induction lines generalizing index with
  | nil => rfl
  | cons line lines ih =>
    cases hm : Marker.parse? line.toList with
    | none => simpa [markersFrom, markers, hm] using ih (index + 1)
    | some m =>
      rw [markersFrom_cons hm, List.map_cons, ih]
      simp [markers, hm]

/-! ### Where the pairs stand -/

theorem le_of_mem_markersFrom {im : ℕ × Marker} (h : im ∈ markersFrom index lines) :
    index ≤ im.1 := by
  obtain ⟨⟨line, i⟩, hline, hm⟩ := List.mem_filterMap.mp h
  obtain ⟨m, -, rfl⟩ := Option.map_eq_some_iff.mp hm
  exact List.le_snd_of_mem_zipIdx hline

theorem pairwise_markersFrom (index : ℕ) (lines : List String) :
    (markersFrom index lines).Pairwise fun m m' => m.1 < m'.1 := by
  induction lines generalizing index with
  | nil => exact .nil
  | cons line lines ih =>
    cases hm : Marker.parse? line.toList with
    | none => simpa [markersFrom, hm] using ih (index + 1)
    | some m =>
      rw [markersFrom_cons hm]
      exact .cons (fun im him => le_of_mem_markersFrom him) (ih (index + 1))

/-- A region opens where the distances of all regions before it and its own add up to. -/
theorem getElem?_boundsFrom (last : ℕ) (rs : List Region) (k : ℕ) :
    (boundsFrom last rs)[k]? = rs[k]?.map fun r =>
      (last + ((rs.take k).map fun r => r.offset + r.length).sum + r.offset,
        last + ((rs.take k).map fun r => r.offset + r.length).sum + r.offset + r.length) := by
  induction rs generalizing last k with
  | nil => rfl
  | cons r rs ih =>
    cases k with
    | zero => simp [boundsFrom]
    | succ k => simp [boundsFrom, ih, Nat.add_assoc]

/-- Pairs of markers in the order of their lines, all of them behind an index or at it. -/
def InOrder (last : ℕ) : List Bracket → Prop
  | [] => True
  | b :: bs => last ≤ b.opening ∧ b.opening < b.closing ∧ InOrder b.closing bs

theorem inOrder_of_pairwise {bs : List Bracket}
    (h : (bs.flatMap Bracket.markers).Pairwise fun m m' => m.1 < m'.1)
    (hlast : ∀ m ∈ bs.flatMap Bracket.markers, last ≤ m.1) : InOrder last bs := by
  induction bs generalizing last with
  | nil => trivial
  | cons b bs ih =>
    simp only [List.flatMap_cons, Bracket.markers, List.cons_append, List.nil_append,
      List.pairwise_cons, List.forall_mem_cons] at h hlast
    obtain ⟨⟨hclosing, -⟩, hbehind, hbs⟩ := h
    exact ⟨hlast.1, hclosing, ih hbs fun m hm => (hbehind m hm).le⟩

/-- What a region says apart from where it lies. -/
def label (r : Region) : String × Option String × Style :=
  (r.tag, r.storage, r.style)

/-- What the opening marker of a pair says. -/
def Bracket.label (b : Bracket) : String × Option String × Style :=
  (b.tag, b.storage, b.style)

/-- The indices of the two markers of a pair. -/
def Bracket.bounds (b : Bracket) : ℕ × ℕ :=
  (b.opening, b.closing)

theorem describes_iff {bs : List Bracket} :
    Describes rs bs ↔
      rs.map label = bs.map Bracket.label ∧ boundsFrom 0 rs = bs.map Bracket.bounds := by
  constructor
  · rintro ⟨hlength, hmarker, hposition⟩
    -- Both lists are compared place by place, and end at the same one.
    have hget (k : ℕ) : (rs[k]? = none ∧ bs[k]? = none) ∨
        ∃ r b, rs[k]? = some r ∧ bs[k]? = some b := by
      rcases lt_or_ge k rs.length with hk | hk
      · exact .inr ⟨_, _, List.getElem?_eq_getElem hk, List.getElem?_eq_getElem (hlength ▸ hk)⟩
      · exact .inl ⟨List.getElem?_eq_none hk, List.getElem?_eq_none (hlength ▸ hk)⟩
    constructor <;> refine List.ext_getElem? fun k => ?_
    · rw [List.getElem?_map, List.getElem?_map]
      rcases hget k with ⟨hr, hb⟩ | ⟨r, b, hr, hb⟩
      · rw [hr, hb, Option.map_none, Option.map_none]
      · obtain ⟨htag, hstorage, hstyle⟩ := hmarker k r b hr hb
        rw [hr, hb, Option.map_some, Option.map_some, label, Bracket.label, htag, hstorage, hstyle]
    · rw [getElem?_boundsFrom, List.getElem?_map]
      rcases hget k with ⟨hr, hb⟩ | ⟨r, b, hr, hb⟩
      · rw [hr, hb, Option.map_none, Option.map_none]
      · obtain ⟨hopening, hclosing⟩ := hposition k r b hr hb
        rw [hr, hb, Option.map_some, Option.map_some, Nat.zero_add, hopening, hclosing,
          Bracket.bounds]
  · rintro ⟨hlabels, hbounds⟩
    refine ⟨by simpa using congrArg List.length hlabels, fun k r b hr hb => ?_,
      fun k r b hr hb => ?_⟩
    · have hk := congrArg (·[k]?) hlabels
      simpa [hr, hb, label, Bracket.label] using hk
    · have hk := congrArg (·[k]?) hbounds
      simp only [getElem?_boundsFrom, List.getElem?_map, hr, hb, Option.map_some, Nat.zero_add,
        Option.some.injEq, Bracket.bounds, Prod.mk.injEq] at hk
      exact ⟨hk.1, hk.1 ▸ hk.2⟩

theorem eq_regionsOf_iff {bs : List Bracket} (h : InOrder last bs) :
    rs = regionsOf last bs ↔
      rs.map label = bs.map Bracket.label ∧ boundsFrom last rs = bs.map Bracket.bounds := by
  induction bs generalizing last rs with
  | nil => cases rs <;> simp [regionsOf, boundsFrom]
  | cons b bs ih =>
    obtain ⟨hopening, hclosing, hbs⟩ := h
    cases rs with
    | nil => simp [regionsOf]
    | cons r rs =>
      -- No distance is cut off at zero, as the markers are in order.
      have hr : r = ⟨b.tag, b.storage, b.style, b.opening - last, b.closing - b.opening⟩ ↔
          label r = b.label ∧ last + r.offset = b.opening ∧
            last + r.offset + r.length = b.closing := by
        cases r
        simp only [mk.injEq, label, Bracket.label, Prod.mk.injEq, and_assoc]
        refine and_congr_right' (and_congr_right' (and_congr_right' ?_))
        omega
      rw [regionsOf, List.cons.injEq, ih hbs, hr]
      constructor
      · rintro ⟨⟨hlabel, hopen, hclose⟩, hlabels, hbounds⟩
        rw [List.map_cons, List.map_cons, boundsFrom, hlabel, hlabels, hclose, hopen, hbounds]
        exact ⟨rfl, rfl⟩
      · rintro ⟨hlabels, hbounds⟩
        obtain ⟨hlabel, hlabels⟩ := List.cons.inj hlabels
        obtain ⟨hbound, hbounds⟩ := List.cons.inj hbounds
        obtain ⟨hopen, hclose⟩ := Prod.mk.inj hbound
        exact ⟨⟨hlabel, hopen, hclose⟩, hlabels, hclose ▸ hbounds⟩

/-! ### Acceptance -/

theorem eq_regionsOf_iff_describes {bs : List Bracket}
    (h : markersFrom 0 lines = bs.flatMap Bracket.markers) :
    rs = regionsOf 0 bs ↔ Describes rs bs := by
  have horder : InOrder 0 bs :=
    inOrder_of_pairwise (h ▸ pairwise_markersFrom 0 lines) fun m _ => m.1.zero_le
  rw [eq_regionsOf_iff horder, describes_iff]

/-- **A file is accepted when its markers are balanced**, and then its regions tell where each pair
of markers stands. Otherwise the fault is that of the markers behind the pairs that come first. -/
theorem scan_iff_markers (lines : List String) :
    ((∃ rs, scan lines = .ok rs) ↔ Balanced (markers lines)) ∧
      (∀ rs, scan lines = .ok rs ↔
        ∃ bs : List Bracket, markersFrom 0 lines = bs.flatMap Bracket.markers ∧ Describes rs bs) ∧
      ∀ fault, scan lines = .error fault ↔
        ∃ (bs : List Bracket) (rest : List (ℕ × Marker)),
          markersFrom 0 lines = bs.flatMap Bracket.markers ++ rest ∧ Breach rest fault := by
  have hscan : scan lines = scanMarkers 0 (markersFrom 0 lines) := scanFrom_eq 0 0 none lines
  refine ⟨?_, fun rs => ?_, fun fault => ?_⟩
  · rw [hscan, ← map_snd_markersFrom 0 lines, balanced_iff]
    simp only [scanMarkers_eq_ok_iff]
    exact ⟨fun ⟨_, bs, hbs, _⟩ => ⟨bs, hbs⟩, fun ⟨bs, hbs⟩ => ⟨_, bs, hbs, rfl⟩⟩
  · rw [hscan, scanMarkers_eq_ok_iff]
    exact exists_congr fun bs => and_congr_right fun hbs => eq_regionsOf_iff_describes hbs
  · rw [hscan, scanMarkers_eq_error_iff]

end Enumerant.Region
