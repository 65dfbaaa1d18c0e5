import Enumerant.Patch.Region
import Mathlib.Data.List.Basic

/-!
# How regions lie in a file

The lines of a file whose markers bound regions are a row of spans and some plain lines behind them:
a span is a region with its markers and the plain lines in front of it. `scan_eq_ok_iff` says that
`Region.scan` accepts just these files. What it finds is `regionsFrom`, which is read off the
lengths of the spans, and `boundsFrom` leads back from the regions to the indices of their markers.
-/

namespace Enumerant

/-- Whether a line is none of the markers. -/
def IsPlain (line : String) : Prop :=
  Marker.parse? line.toList = none

instance : DecidablePred IsPlain :=
  fun line => inferInstanceAs (Decidable (Marker.parse? line.toList = none))

namespace Region

/-- A region as it lies in a file, with the lines between the region before and its opening marker.
-/
structure Span where
  before : List String
  opening : String
  inner : List String
  closing : String
  tag : String
  storage : Option String
  style : Style
  plain_before : ∀ line ∈ before, IsPlain line
  plain_inner : ∀ line ∈ inner, IsPlain line
  parse?_opening : Marker.parse? opening.toList = some (.opening tag storage style)
  parse?_closing : Marker.parse? closing.toList = some (.closing tag)

namespace Span

/-- The lines of a span when its region holds others. -/
def filled (s : Span) (inner : List String) : List String :=
  s.before ++ s.opening :: (inner ++ [s.closing])

/-- The lines of a span. -/
def lines (s : Span) : List String :=
  s.filled s.inner

/-- The region of a span that starts as many lines behind a closing marker. -/
def region (s : Span) (distance : Nat) : Region :=
  ⟨s.tag, s.storage, s.style, distance + s.before.length, s.inner.length + 1⟩

theorem length_filled (s : Span) (inner : List String) :
    (s.filled inner).length = s.before.length + 1 + inner.length + 1 := by
  simp [filled]
  omega

end Span

/-- The regions of spans, the first of which starts as many lines behind a closing marker. -/
def regionsFrom (distance : Nat) : List Span → List Region
  | [] => []
  | s :: ss => s.region distance :: regionsFrom 1 ss

@[simp]
theorem length_regionsFrom (d : Nat) (ss : List Span) : (regionsFrom d ss).length = ss.length := by
  induction ss generalizing d with
  | nil => rfl
  | cons s ss ih => rw [regionsFrom, List.length_cons, List.length_cons, ih]

/-- The indices of the opening and the closing markers of regions, when the closing marker before
the first of them stands at an index. -/
def boundsFrom (last : Nat) : List Region → List (Nat × Nat)
  | [] => []
  | r :: rs =>
    (last + r.offset, last + r.offset + r.length) ::
      boundsFrom (last + r.offset + r.length) rs

/-- The markers on lines that start at an index, with their indices. -/
def markersFrom (index : Nat) (lines : List String) : List (Nat × Marker) :=
  (lines.zipIdx index).filterMap fun (line, i) => (Marker.parse? line.toList).map (i, ·)

/-- The markers of regions at the given indices. -/
def markersAt (rs : List Region) (bounds : List (Nat × Nat)) : List (Nat × Marker) :=
  (rs.zip bounds).flatMap fun (r, o, c) =>
    [(o, .opening r.tag r.storage r.style), (c, .closing r.tag)]

variable {index last d : Nat} {pending : Option Pending} {lines plain after : List String}
  {ss : List Span} {rs : List Region} {p : Pending}

/-! ### Steps of the scan -/

theorem scanFrom_cons_of_plain {line : String} (h : IsPlain line) :
    scanFrom index last pending (line :: lines) = scanFrom (index + 1) last pending lines := by
  rw [IsPlain] at h
  simp [scanFrom, h]

theorem scanFrom_cons_of_opening {line tag : String} {storage : Option String} {style : Style}
    (h : Marker.parse? line.toList = some (.opening tag storage style)) :
    scanFrom index last none (line :: lines) =
      scanFrom (index + 1) last (some ⟨tag, storage, style, index⟩) lines := by
  simp [scanFrom, h]

theorem scanFrom_cons_of_closing {line : String}
    (h : Marker.parse? line.toList = some (.closing p.tag)) :
    scanFrom index last (some p) (line :: lines) =
      (scanFrom (index + 1) index none lines).map
        (⟨p.tag, p.storage, p.style, p.index - last, index - p.index⟩ :: ·) := by
  simp [scanFrom, h]

/-- Plain lines change nothing but the index. -/
theorem scanFrom_append (h : ∀ line ∈ plain, IsPlain line) :
    scanFrom index last pending (plain ++ lines) =
      scanFrom (index + plain.length) last pending lines := by
  induction plain generalizing index with
  | nil => rfl
  | cons line plain ih =>
    obtain ⟨hline, hplain⟩ := List.forall_mem_cons.mp h
    rw [List.cons_append, scanFrom_cons_of_plain hline, ih hplain, List.length_cons,
      Nat.add_assoc, Nat.add_comm 1]

/-- A span is one region. -/
theorem scanFrom_lines_append (s : Span) (hlast : last ≤ index) :
    scanFrom index last none (s.lines ++ lines) =
      (scanFrom (index + s.lines.length) (index + s.before.length + 1 + s.inner.length) none
        lines).map (s.region (index - last) :: ·) := by
  rw [Span.lines, s.length_filled, Span.filled, List.append_assoc, scanFrom_append s.plain_before,
    List.cons_append, scanFrom_cons_of_opening s.parse?_opening, List.append_assoc,
    scanFrom_append s.plain_inner, List.singleton_append, scanFrom_cons_of_closing s.parse?_closing]
  have hoffset : index + s.before.length - last = index - last + s.before.length := by omega
  have hclosing : index + s.before.length + 1 + s.inner.length - (index + s.before.length) =
      s.inner.length + 1 := by omega
  have hnext : index + (s.before.length + 1 + s.inner.length + 1) =
      index + s.before.length + 1 + s.inner.length + 1 := by omega
  rw [hoffset, hclosing, hnext, Span.region]

/-- A row of spans with plain lines behind it is accepted. -/
theorem scanFrom_spans (ss : List Span) (hafter : ∀ line ∈ after, IsPlain line)
    (hlast : last ≤ index) :
    scanFrom index last none (ss.flatMap Span.lines ++ after) =
      .ok (regionsFrom (index - last) ss) := by
  induction ss generalizing index last with
  | nil =>
    rw [List.flatMap_nil, List.nil_append, ← List.append_nil after, scanFrom_append hafter]
    rfl
  | cons s ss ih =>
    have hlength : s.lines.length = _ := s.length_filled s.inner
    rw [List.flatMap_cons, List.append_assoc, scanFrom_lines_append s hlast, ih (by omega),
      regionsFrom, Except.map, hlength]
    congr 3
    omega

/-! ### Spans from a scan -/

/-- Lines are all plain, or there is a first marker. -/
theorem plain_or_first_marker (lines : List String) :
    (∀ line ∈ lines, IsPlain line) ∨
      ∃ plain line m rest, lines = plain ++ line :: rest ∧ (∀ l ∈ plain, IsPlain l) ∧
        Marker.parse? line.toList = some m := by
  induction lines with
  | nil => exact .inl (by simp)
  | cons line lines ih =>
    cases hline : Marker.parse? line.toList with
    | some m => exact .inr ⟨[], line, m, lines, rfl, by simp, hline⟩
    | none =>
      rcases ih with hplain | ⟨plain, first, m, rest, rfl, hplain, hfirst⟩
      · exact .inl (List.forall_mem_cons.mpr ⟨hline, hplain⟩)
      · exact .inr ⟨line :: plain, first, m, rest, rfl, List.forall_mem_cons.mpr ⟨hline, hplain⟩,
          hfirst⟩

/-- Outside a region the first marker is an opening one. -/
theorem exists_opening (h : scanFrom index last none lines = .ok rs) :
    (∀ line ∈ lines, IsPlain line) ∨
      ∃ before opening tag storage style rest, lines = before ++ opening :: rest ∧
        (∀ line ∈ before, IsPlain line) ∧
        Marker.parse? opening.toList = some (.opening tag storage style) ∧
        scanFrom (index + before.length + 1) last
          (some ⟨tag, storage, style, index + before.length⟩) rest = .ok rs := by
  rcases plain_or_first_marker lines with hplain | ⟨before, opening, m, rest, rfl, hplain, hm⟩
  · exact .inl hplain
  · rw [scanFrom_append hplain] at h
    cases m with
    | opening tag storage style =>
      rw [scanFrom_cons_of_opening hm] at h
      exact .inr ⟨before, opening, tag, storage, style, rest, rfl, hplain, hm, h⟩
    | closing tag => simp [scanFrom, hm] at h

/-- Within a region there is a marker, and the first one closes the region. -/
theorem exists_closing (h : scanFrom index last (some p) lines = .ok rs) :
    ∃ inner closing rest rs', lines = inner ++ closing :: rest ∧
      (∀ line ∈ inner, IsPlain line) ∧ Marker.parse? closing.toList = some (.closing p.tag) ∧
      scanFrom (index + inner.length + 1) (index + inner.length) none rest = .ok rs' := by
  rcases plain_or_first_marker lines with hplain | ⟨inner, closing, m, rest, rfl, hplain, hm⟩
  · rw [← List.append_nil lines, scanFrom_append hplain, scanFrom] at h
    cases h
  · rw [scanFrom_append hplain] at h
    cases m with
    | opening tag storage style => simp [scanFrom, hm] at h
    | closing tag =>
      obtain rfl : tag = p.tag := by
        by_contra htag
        simp [scanFrom, hm, htag] at h
      rw [scanFrom_cons_of_closing hm] at h
      cases hrest : scanFrom (index + inner.length + 1) (index + inner.length) none rest with
      | ok rs' => exact ⟨inner, closing, rest, rs', rfl, hplain, hm, hrest⟩
      | error fault => simp [hrest, Except.map] at h

theorem exists_spans (h : scanFrom index last none lines = .ok rs) :
    ∃ (ss : List Span) (after : List String), lines = ss.flatMap Span.lines ++ after ∧
      ∀ line ∈ after, IsPlain line := by
  induction hn : lines.length using Nat.strongRecOn generalizing lines index last rs with
  | ind n ih =>
    rcases exists_opening h with
      hplain | ⟨before, opening, tag, storage, style, rest, rfl, hbefore, hopening, h⟩
    · exact ⟨[], lines, rfl, hplain⟩
    · -- What stands behind the closing marker is scanned as if it were a shorter file.
      obtain ⟨inner, closing, rest, rs', rfl, hinner, hclosing, h⟩ := exists_closing h
      have hlt : rest.length < n := by
        simp at hn
        omega
      obtain ⟨ss, after, rfl, hafter⟩ := ih _ hlt h rfl
      let s : Span := ⟨before, opening, inner, closing, tag, storage, style, hbefore, hinner,
        hopening, hclosing⟩
      refine ⟨s :: ss, after, ?_, hafter⟩
      simp [Span.lines, Span.filled, s]

/-- **Which files are accepted.** The regions of a file are those of the spans that it is a row of,
but for plain lines at the end. -/
theorem scan_eq_ok_iff : scan lines = .ok rs ↔
    ∃ (ss : List Span) (after : List String), lines = ss.flatMap Span.lines ++ after ∧
      (∀ line ∈ after, IsPlain line) ∧ rs = regionsFrom 0 ss := by
  constructor
  · intro h
    obtain ⟨ss, after, rfl, hafter⟩ := exists_spans h
    rw [scan, scanFrom_spans ss hafter (Nat.le_refl _)] at h
    exact ⟨ss, after, rfl, hafter, (Except.ok.inj h).symm⟩
  · rintro ⟨ss, after, rfl, hafter, rfl⟩
    exact scanFrom_spans ss hafter (Nat.le_refl _)

/-! ### Markers -/

theorem markersFrom_append (index : Nat) (lines lines' : List String) :
    markersFrom index (lines ++ lines') =
      markersFrom index lines ++ markersFrom (index + lines.length) lines' := by
  simp [markersFrom, List.zipIdx_append]

theorem markersFrom_of_plain (h : ∀ line ∈ plain, IsPlain line) : markersFrom index plain = [] := by
  rw [markersFrom, List.filterMap_eq_nil_iff]
  rintro ⟨line, i⟩ hline
  rw [Option.map_eq_none_iff]
  exact h line (List.fst_mem_of_mem_zipIdx hline)

theorem markersFrom_cons {line : String} {m : Marker} (h : Marker.parse? line.toList = some m) :
    markersFrom index (line :: lines) = (index, m) :: markersFrom (index + 1) lines := by
  simp [markersFrom, h]

theorem markersFrom_lines_append (s : Span) :
    markersFrom index (s.lines ++ lines) =
      (index + s.before.length, .opening s.tag s.storage s.style) ::
        (index + s.before.length + 1 + s.inner.length, .closing s.tag) ::
          markersFrom (index + s.lines.length) lines := by
  have hnext : index + s.lines.length = index + s.before.length + 1 + s.inner.length + 1 := by
    rw [Span.lines, s.length_filled]
    omega
  rw [hnext, Span.lines, Span.filled, List.append_assoc, markersFrom_append,
    markersFrom_of_plain s.plain_before, List.nil_append, List.cons_append,
    markersFrom_cons s.parse?_opening, List.append_assoc, markersFrom_append,
    markersFrom_of_plain s.plain_inner, List.nil_append, List.singleton_append,
    markersFrom_cons s.parse?_closing]

/-- The markers of spans stand where their regions say. -/
theorem markersFrom_spans (ss : List Span) (hafter : ∀ line ∈ after, IsPlain line)
    (hindex : last + d = index) :
    markersFrom index (ss.flatMap Span.lines ++ after) =
      markersAt (regionsFrom d ss) (boundsFrom last (regionsFrom d ss)) := by
  induction ss generalizing index last d with
  | nil => exact markersFrom_of_plain hafter
  | cons s ss ih =>
    have hopening : index + s.before.length = last + (d + s.before.length) := by omega
    have hclosing : index + s.before.length + 1 + s.inner.length =
        last + (d + s.before.length) + (s.inner.length + 1) := by omega
    have hnext : last + (d + s.before.length) + (s.inner.length + 1) + 1 =
        index + s.lines.length := by
      rw [Span.lines, s.length_filled]
      omega
    rw [List.flatMap_cons, List.append_assoc, markersFrom_lines_append, hclosing, hopening,
      ih hnext]
    rfl

end Region

end Enumerant
