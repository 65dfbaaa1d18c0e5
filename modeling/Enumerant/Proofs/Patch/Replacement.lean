import Enumerant.Proofs.Patch.Layout

/-!
# What replacing regions leaves

Replacing goes by distances and moves an anchor along, since each text that is put in moves the
lines behind it. `replaceFrom_spans` follows the anchor: all in front of it is done, and it stands
at the last closing marker wherever that has moved. `replaceFrom_of_scan` states the outcome in
indices of the lines that were given: from each closing marker to the next opening one they stay,
and between the two markers of a region stands the text for it.
-/

namespace Enumerant

namespace Text

theorem splice?_append {α : Type} (as bs cs new : List α) :
    splice? as.length bs.length new (as ++ (bs ++ cs)) = some (as ++ new ++ cs) := by
  have hle : as.length + bs.length ≤ (as ++ (bs ++ cs)).length := by
    simp
  rw [splice?, if_pos hle, List.take_left, ← List.append_assoc as bs cs, ← List.length_append,
    List.drop_left]

end Text

namespace Region

/-- The lines of spans whose regions hold the given texts. -/
def filledLines (ss : List Span) (texts : List String) : List String :=
  (List.zipWith (fun s text => s.filled (Text.lines text)) ss texts).flatten

/-- Lines from an index on, in which a text stands between each two of the given indices in place of
what was there. -/
def refilled (lines : List String) (last : Nat) : List ((Nat × Nat) × String) → List String
  | [] => lines.drop last
  | ((o, c), text) :: rest =>
    lines.extract last (o + 1) ++ Text.lines text ++ refilled lines c rest

@[simp]
theorem filledLines_cons (s : Span) (ss : List Span) (text : String) (texts : List String) :
    filledLines (s :: ss) (text :: texts) = s.filled (Text.lines text) ++ filledLines ss texts :=
  rfl

variable {anchor last d : Nat} {pre carried lines after : List String} {ss : List Span}
  {rs : List Region} {texts : List String}

/-! ### Following the anchor -/

/-- What a region holds is replaced where its opening marker has moved to. -/
theorem splice?_span (s : Span) (pre rest new : List String) :
    Text.splice? (pre.length + s.before.length + 1) s.inner.length new
      (pre ++ (s.lines ++ rest)) = some (pre ++ (s.filled new ++ rest)) := by
  have h := Text.splice?_append (pre ++ (s.before ++ [s.opening])) s.inner (s.closing :: rest) new
  simpa [Span.lines, Span.filled, Nat.add_assoc] using h

/-- The anchor stands at the closing marker before, or at the top: all in front is done. -/
theorem replaceFrom_spans (hlength : texts.length = ss.length) (hanchor : anchor + d = pre.length) :
    replaceFrom anchor ((regionsFrom d ss).zip texts) (pre ++ (ss.flatMap Span.lines ++ after)) =
      some (pre ++ (filledLines ss texts ++ after)) := by
  induction ss generalizing anchor d pre texts with
  | nil =>
    obtain rfl : texts = [] := List.eq_nil_of_length_eq_zero hlength
    rfl
  | cons s ss ih =>
    obtain ⟨text, texts, rfl⟩ := List.exists_cons_of_length_eq_add_one hlength
    have hstart : anchor + (d + s.before.length) + 1 = pre.length + s.before.length + 1 := by omega
    have hnext : pre.length + s.before.length + 1 + (Text.lines text).length + 1 =
        (pre ++ s.filled (Text.lines text)).length := by
      rw [List.length_append, s.length_filled]
      omega
    -- What is done grows by the span as it is filled, so the anchor is at its closing marker.
    rw [regionsFrom, Span.region, List.zip_cons_cons, replaceFrom, hstart, Nat.add_sub_cancel,
      List.flatMap_cons, List.append_assoc, splice?_span, Option.bind_some,
      ← List.append_assoc pre, ih (by simpa using hlength) hnext, List.append_assoc,
      filledLines_cons, List.append_assoc]

/-- The regions of a file are all there to be replaced. -/
theorem replaceFrom_regionsFrom (hlength : texts.length = ss.length) :
    replaceFrom 0 ((regionsFrom 0 ss).zip texts) (ss.flatMap Span.lines ++ after) =
      some (filledLines ss texts ++ after) :=
  replaceFrom_spans hlength (show 0 + 0 = ([] : List String).length from rfl)

/-! ### The same by indices -/

/-- The lines that are carried over stand between the last closing marker and the next span. -/
theorem refilled_spans (hlength : texts.length = ss.length) (hd : carried.length = d)
    (hlines : lines.drop last = carried ++ (ss.flatMap Span.lines ++ after)) :
    refilled lines last ((boundsFrom last (regionsFrom d ss)).zip texts) =
      carried ++ (filledLines ss texts ++ after) := by
  induction ss generalizing last d carried texts with
  | nil =>
    obtain rfl : texts = [] := List.eq_nil_of_length_eq_zero hlength
    exact hlines
  | cons s ss ih =>
    obtain ⟨text, texts, rfl⟩ := List.exists_cons_of_length_eq_add_one hlength
    -- Behind the last closing marker: what is carried over, what goes, and what comes after.
    have hkept : lines.drop last = (carried ++ s.before ++ [s.opening]) ++
        (s.inner ++ (s.closing :: (ss.flatMap Span.lines ++ after))) := by
      simp [hlines, Span.lines, Span.filled]
    have hextract : lines.extract last (last + (d + s.before.length) + 1) =
        carried ++ s.before ++ [s.opening] := by
      rw [List.extract_eq_take_drop, hkept]
      refine List.take_left' ?_
      simp
      omega
    have hrest : lines.drop (last + (d + s.before.length) + (s.inner.length + 1)) =
        [s.closing] ++ (ss.flatMap Span.lines ++ after) := by
      rw [Nat.add_assoc, ← List.drop_drop, hkept, ← List.append_assoc]
      refine List.drop_left' ?_
      simp
      omega
    have htail := ih (d := 1) (by simpa using hlength) rfl hrest
    rw [regionsFrom, Span.region, boundsFrom, List.zip_cons_cons, refilled, hextract, htail]
    simp [Span.filled]

/-- **Replacing regions is exact.** The markers of a file are those of the regions found in it, two
for each, and they stand where the regions say. Replacing never reaches beyond the lines that are
there, however the texts have moved them, and it leaves the lines of the file as they are but for
those between the two markers of a region, where its text stands. -/
theorem replaceFrom_of_scan (lines : List String) (rs : List Region) (render : Region → String)
    (h : scan lines = .ok rs) :
    markersFrom 0 lines = markersAt rs (boundsFrom 0 rs) ∧
    replaceFrom 0 (rs.map fun r => (r, render r)) lines =
      some (refilled lines 0 ((boundsFrom 0 rs).zip (rs.map render))) ∧
    replace (rs.map fun r => (r, render r)) lines =
      refilled lines 0 ((boundsFrom 0 rs).zip (rs.map render)) := by
  obtain ⟨ss, after, rfl, hafter, rfl⟩ := scan_eq_ok_iff.mp h
  have hlength : ((regionsFrom 0 ss).map render).length = ss.length := by
    simp
  have hreplace : replaceFrom 0 ((regionsFrom 0 ss).map fun r => (r, render r))
      (ss.flatMap Span.lines ++ after) =
        some (filledLines ss ((regionsFrom 0 ss).map render) ++ after) := by
    rw [List.map_prod_left_eq_zip, replaceFrom_regionsFrom hlength]
  have hrefilled : refilled (ss.flatMap Span.lines ++ after) 0
      ((boundsFrom 0 (regionsFrom 0 ss)).zip ((regionsFrom 0 ss).map render)) =
        filledLines ss ((regionsFrom 0 ss).map render) ++ after :=
    refilled_spans hlength (show ([] : List String).length = 0 from rfl) rfl
  refine ⟨markersFrom_spans ss hafter rfl, ?_, ?_⟩
  · rw [hreplace, hrefilled]
  · rw [replace, hreplace, hrefilled]
    rfl

/-- Two regions side by side, the first of them empty: its text is longer, that of the other shorter
than what was there. -/
theorem replaceFrom_of_scan_neighbours :
    let lines := ["a\n", "// Codegen <A>\n", "// Codegen </A>\n", "// Codegen <B>\n", "b\n", "c\n",
      "// Codegen </B>"]
    let rs : List Region := [{ tag := "A", offset := 1, length := 1 },
      { tag := "B", offset := 1, length := 3 }]
    scan lines = .ok rs ∧
    replaceFrom 0 (rs.map fun r => (r, if r.tag = "A" then "x\ny\n" else "")) lines =
      some ["a\n", "// Codegen <A>\n", "x\n", "y\n", "// Codegen </A>\n", "// Codegen <B>\n",
        "// Codegen </B>"] :=
  have h : scan _ = .ok _ := by decide +kernel
  ⟨h, (replaceFrom_of_scan _ _ _ h).2.1.trans (by decide +kernel)⟩

end Region

end Enumerant
