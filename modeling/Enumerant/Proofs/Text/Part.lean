import Enumerant.Text.Part
import Mathlib.Data.List.Basic
import Mathlib.Data.List.DropRight

/-!
# What parts of lists hold

What a list with a given front is made of, what taking parts off it leaves, and what stands between
its separators. The fields of a list are the library's division at elements of a kind
(`fields_eq_splitOnP`).
-/

namespace Enumerant.Text

variable {α : Type} {separates kind : α → Bool} {c : Char} {cs front : List Char}

/-! ### Runs -/

/-- A run of elements of a kind ends where another element follows. -/
theorem takeWhile_append_eq {as rest : List α} (has : ∀ a ∈ as, kind a)
    (hrest : ∀ a ∈ rest.head?, kind a = false) : (as ++ rest).takeWhile kind = as := by
  rw [List.takeWhile_append_of_pos has]
  cases rest with
  | nil => simp
  | cons a rest =>
    rw [List.takeWhile_cons_of_neg (by simp [hrest a rfl]), List.append_nil]

/-- Dropping stops at the first character of another kind. -/
theorem dropWhile_append_eq {as rest : List α} (has : ∀ a ∈ as, kind a)
    (hrest : ∀ a ∈ rest.head?, kind a = false) : (as ++ rest).dropWhile kind = rest := by
  rw [List.dropWhile_append_of_pos has]
  cases rest with
  | nil => rfl
  | cons a rest => exact List.dropWhile_cons_of_neg (by simp [hrest a rfl])

/-- A front that does not end in an element of a kind stays when these are taken off the end. -/
theorem isPrefix_rdropWhile {as bs : List α} (h : as <+: bs)
    (hlast : ∀ a ∈ as.getLast?, kind a = false) : as <+: bs.rdropWhile kind := by
  obtain ⟨rest, rfl⟩ := h
  induction rest using List.reverseRecOn with
  | nil =>
    have hself : as.rdropWhile kind = as :=
      List.rdropWhile_eq_self_iff.mpr fun hne => by
        simp [hlast _ (List.getLast?_eq_some_getLast hne)]
    rw [List.append_nil]
    exact ⟨[], by rw [List.append_nil, hself]⟩
  | append_singleton rest a ih =>
    rw [← List.append_assoc]
    cases ha : kind a with
    | true => rwa [List.rdropWhile_concat_pos _ _ _ ha]
    | false =>
      rw [List.rdropWhile_concat_neg _ _ _ (by simp [ha]), List.append_assoc]
      exact List.prefix_append as _

/-- What is left ends in another kind. -/
theorem getLast?_rdropWhile {as : List α} :
    ∀ a ∈ (as.rdropWhile kind).getLast?, kind a = false := by
  intro a ha
  have hne : as.rdropWhile kind ≠ [] := by
    intro hnil
    rw [hnil] at ha
    cases ha
  obtain rfl : (as.rdropWhile kind).getLast hne = a := by
    rwa [List.getLast?_eq_some_getLast hne, Option.mem_some_iff] at ha
  simpa using List.rdropWhile_last_not kind as hne

/-! ### Fronts and ends -/

/-- A text contains what is a part of it. -/
theorem contains_iff {part : List Char} : contains part cs ↔ part <:+: cs := by
  induction cs with
  | nil => simp [contains]
  | cons c cs ih =>
    rw [contains, Bool.or_eq_true, ih, List.isPrefixOf_iff_prefix, List.infix_cons_iff]

theorem append_of_after? {rest : List Char} (h : after? front cs = some rest) :
    cs = front ++ rest := by
  fun_induction after? front cs with
  | case1 => simpa using h
  | case2 => cases h
  | case3 p ps a as heq ih =>
    rw [beq_iff_eq] at heq
    rw [heq, List.cons_append, ← ih h]
  | case4 => cases h

/-- Behind a front there is what follows it. -/
theorem after?_append (front cs : List Char) : after? front (front ++ cs) = some cs := by
  induction front with
  | nil => rw [List.nil_append, after?]
  | cons c front ih => rw [List.cons_append, after?, if_pos (beq_self_eq_true c), ih]

/-- There is something behind a front exactly if the text begins with it. -/
theorem after?_eq_some_iff {rest : List Char} : after? front cs = some rest ↔ cs = front ++ rest :=
  ⟨append_of_after?, fun h => h ▸ after?_append front rest⟩

theorem after?_eq_none_iff : after? front cs = none ↔ ¬ front <+: cs := by
  rw [Option.eq_none_iff_forall_ne_some, List.IsPrefix, not_exists]
  exact forall_congr' fun rest => not_congr (after?_eq_some_iff.trans eq_comm)

/-- There is something in front of an end exactly if the text ends with it. -/
theorem before?_eq_some_iff {tail rest : List Char} :
    before? tail cs = some rest ↔ cs = rest ++ tail := by
  rw [before?, Option.map_eq_some_iff]
  constructor
  · rintro ⟨ds, hds, rfl⟩
    rw [after?_eq_some_iff] at hds
    rw [← List.reverse_inj, hds, List.reverse_append, List.reverse_reverse]
  · rintro rfl
    exact ⟨rest.reverse, by rw [List.reverse_append, after?_append], List.reverse_reverse rest⟩

/-- A common front is one of the first text. -/
theorem commonPrefix_isPrefix (as bs : List Char) : commonPrefix as bs <+: as := by
  fun_induction commonPrefix as bs with
  | case1 a as b bs h ih => exact List.cons_prefix_cons.mpr ⟨rfl, ih⟩
  | case2 => exact List.nil_prefix
  | case3 => exact List.nil_prefix

/-- A common front is one of the second text. -/
theorem commonPrefix_isPrefix_right (as bs : List Char) : commonPrefix as bs <+: bs := by
  fun_induction commonPrefix as bs with
  | case1 a as b bs h ih =>
    rw [beq_iff_eq] at h
    exact List.cons_prefix_cons.mpr ⟨h, ih⟩
  | case2 => exact List.nil_prefix
  | case3 => exact List.nil_prefix

/-- What two texts have in common in front is the longest front of both. -/
theorem isPrefix_commonPrefix {as bs : List Char} (h : cs <+: as) (h' : cs <+: bs) :
    cs <+: commonPrefix as bs := by
  induction cs generalizing as bs with
  | nil => exact List.nil_prefix
  | cons c cs ih =>
    obtain ⟨ds, rfl⟩ := h
    obtain ⟨es, rfl⟩ := h'
    rw [List.cons_append, List.cons_append, commonPrefix, if_pos (beq_self_eq_true c)]
    exact List.cons_prefix_cons.mpr
      ⟨rfl, ih (List.prefix_append cs ds) (List.prefix_append cs es)⟩

theorem commonPrefix_append (front cs : List Char) : commonPrefix front (front ++ cs) = front := by
  induction front with
  | nil => rw [commonPrefix]; exact nofun
  | cons c front ih => rw [List.cons_append, commonPrefix, if_pos (beq_self_eq_true c), ih]

/-- A part whose first character does not recur in it begins where it stands behind a text that does
not hold it. -/
theorem upTo_append {part : List Char} (hc : c ∉ part) (hcs : ¬ c :: part <:+: cs)
    (rest : List Char) : upTo (c :: part) (cs ++ c :: (part ++ rest)) = cs := by
  induction cs with
  | nil =>
    have hpre : (c :: part).isPrefixOf (c :: (part ++ rest)) :=
      List.isPrefixOf_iff_prefix.mpr (List.prefix_append (c :: part) rest)
    rw [List.nil_append, upTo, if_pos hpre]
  | cons d cs ih =>
    rw [List.infix_cons_iff, not_or] at hcs
    have hnot : ¬ c :: part <+: (d :: cs) ++ c :: (part ++ rest) := by
      intro hpre
      rcases List.prefix_or_prefix_of_prefix hpre (List.prefix_append _ _) with h | ⟨tail, htail⟩
      · exact hcs.1 h
      -- What is left of the part would begin with its first character.
      rw [← htail, List.prefix_append_right_inj] at hpre
      obtain ⟨rfl, hpart⟩ := List.cons.inj htail
      cases tail with
      | nil =>
        obtain rfl : cs = part := by simpa using hpart
        exact hcs.1 List.prefix_rfl
      | cons e tail =>
        obtain ⟨rfl, -⟩ := List.cons_prefix_cons.mp hpre
        exact hc (by rw [← hpart]; simp)
    rw [← List.isPrefixOf_iff_prefix, List.cons_append] at hnot
    rw [List.cons_append, upTo, if_neg hnot, ih hcs.2]

/-- A text without the part is taken as a whole. -/
theorem upTo_eq_self {part : List Char} (h : ¬ part <:+: cs) : upTo part cs = cs := by
  induction cs with
  | nil => rfl
  | cons d cs ih =>
    rw [List.infix_cons_iff, not_or, ← List.isPrefixOf_iff_prefix] at h
    rw [upTo, if_neg h.1, ih h.2]

/-- A front is taken off as often as it is there. -/
theorem withoutRepeated_append (hne : front ≠ []) (cs : List Char) :
    withoutRepeated front (front ++ cs) = withoutRepeated front cs := by
  obtain ⟨c, ds, rfl⟩ := List.exists_cons_of_ne_nil hne
  rw [withoutRepeated]
  split
  case h_1 h => rw [after?_append] at h; cases h
  case h_2 rest h =>
    rw [after?_append] at h
    rw [← Option.some.inj h]

theorem withoutRepeated_suffix (front cs : List Char) : withoutRepeated front cs <:+ cs := by
  fun_induction withoutRepeated front cs with
  | case1 => exact List.suffix_rfl
  | case2 => exact List.suffix_rfl
  | case3 as p ps rest h ih =>
    refine ih.trans ?_
    rw [append_of_after? h]
    exact List.suffix_append _ _

/-- What is taken off the front of a text is a number of repetitions. -/
theorem exists_append_withoutRepeated (front cs : List Char) :
    ∃ k, cs = (List.replicate k front).flatten ++ withoutRepeated front cs := by
  fun_induction withoutRepeated front cs with
  | case1 => exact ⟨0, rfl⟩
  | case2 => exact ⟨0, rfl⟩
  | case3 as p ps rest h ih =>
    obtain ⟨k, hk⟩ := ih
    refine ⟨k + 1, ?_⟩
    rw [List.replicate_succ, List.flatten_cons, List.append_assoc, ← hk]
    exact append_of_after? h

/-- In the end the front is there no more. -/
theorem not_isPrefix_withoutRepeated (hne : front ≠ []) (cs : List Char) :
    ¬ front <+: withoutRepeated front cs := by
  fun_induction withoutRepeated front cs with
  | case1 => exact absurd rfl hne
  | case2 as p ps h => exact after?_eq_none_iff.mp h
  | case3 as p ps rest h ih => exact ih hne

/-- An end is taken off if something is left. -/
theorem withoutSuffix_append {tail kept : List Char} (htail : tail ≠ []) (hkept : kept ≠ []) :
    withoutSuffix tail (kept ++ tail) = kept := by
  obtain ⟨c, kept, rfl⟩ := List.exists_cons_of_ne_nil hkept
  rw [withoutSuffix, if_neg (by simpa using htail), before?_eq_some_iff.mpr rfl]

/-- Otherwise a text stays as it is. -/
theorem withoutSuffix_eq_self {tail : List Char}
    (h : tail ≠ [] → ∀ kept, kept ≠ [] → cs ≠ kept ++ tail) : withoutSuffix tail cs = cs := by
  unfold withoutSuffix
  split
  case isTrue => rfl
  case isFalse htail =>
    split
    case h_1 c rest hrest =>
      exact absurd (before?_eq_some_iff.mp hrest)
        (h (by simpa using htail) _ (List.cons_ne_nil c rest))
    case h_2 => rfl

theorem isPrefix_withoutSuffix (tail cs : List Char) : withoutSuffix tail cs <+: cs := by
  unfold withoutSuffix
  split
  · exact List.prefix_rfl
  · split
    case h_1 a rest h =>
      rw [before?_eq_some_iff.mp h]
      exact List.prefix_append _ _
    case h_2 => exact List.prefix_rfl

/-- A replacement brings in no other characters. -/
theorem mem_replacedFrom {part other : List Char} {skip : Nat}
    (h : c ∈ replacedFrom part other skip cs) : c ∈ other ∨ c ∈ cs := by
  induction cs generalizing skip with
  | nil => exact absurd h List.not_mem_nil
  | cons d cs ih =>
    cases skip with
    | succ n =>
      rw [replacedFrom] at h
      exact (ih h).imp_right (List.mem_cons_of_mem d)
    | zero =>
      rw [replacedFrom] at h
      split at h
      · rcases List.mem_append.mp h with h | h
        · exact .inl h
        · exact (ih h).imp_right (List.mem_cons_of_mem d)
      · rcases List.mem_cons.mp h with rfl | h
        · exact .inr List.mem_cons_self
        · exact (ih h).imp_right (List.mem_cons_of_mem d)

/-! ### Fields -/

theorem forall_mem_intercalate {P : α → Prop} {sep : List α} {parts : List (List α)}
    (hsep : ∀ a ∈ sep, P a) (hparts : ∀ as ∈ parts, ∀ a ∈ as, P a) :
    ∀ a ∈ sep.intercalate parts, P a := by
  induction parts with
  | nil => exact List.forall_mem_nil _
  | cons as parts ih =>
    obtain ⟨has, hparts⟩ := List.forall_mem_cons.mp hparts
    cases parts with
    | nil => rwa [List.intercalate_singleton]
    | cons bs parts =>
      rw [List.intercalate_cons_cons, List.append_assoc]
      exact List.forall_mem_append.mpr ⟨has, List.forall_mem_append.mpr ⟨hsep, ih hparts⟩⟩

/-- Fields are the parts between separators. -/
theorem fields_eq_splitOnP (separates : α → Bool) (as : List α) :
    fields separates as = as.splitOnP separates := by
  induction as with
  | nil => rfl
  | cons a as ih =>
    rw [fields, List.splitOnP_cons_eq_if_modifyHead, ih]
    cases hrest : as.splitOnP separates with
    | nil => exact absurd hrest (List.splitOnP_ne_nil _ _)
    | cons f fs => rfl

theorem mem_of_mem_fields {separates : Char → Bool} {f : List Char} (hf : f ∈ fields separates cs)
    (hc : c ∈ f) : c ∈ cs := by
  induction cs generalizing f with
  | nil =>
    obtain rfl := List.mem_singleton.mp hf
    exact hc
  | cons d cs ih =>
    rw [fields] at hf
    split at hf
    · rcases List.mem_cons.mp hf with rfl | hf
      · exact absurd hc List.not_mem_nil
      · exact List.mem_cons_of_mem d (ih hf hc)
    · split at hf
      case h_1 =>
        obtain rfl := List.mem_singleton.mp hf
        exact List.mem_cons.mpr ((List.mem_singleton.mp hc) ▸ .inl rfl)
      case h_2 g gs hg =>
        rcases List.mem_cons.mp hf with rfl | hf
        · rcases List.mem_cons.mp hc with rfl | hc
          · exact List.mem_cons_self
          · exact List.mem_cons_of_mem d (ih (hg ▸ List.mem_cons_self) hc)
        · exact List.mem_cons_of_mem d (ih (hg ▸ List.mem_cons_of_mem g hf) hc)

/-- There are no separators in fields. -/
theorem not_separates_of_mem_fields {as f : List α} (hf : f ∈ fields separates as) {a : α}
    (ha : a ∈ f) : separates a = false := by
  induction as generalizing f with
  | nil =>
    obtain rfl : f = [] := by simpa [fields] using hf
    exact absurd ha List.not_mem_nil
  | cons b as ih =>
    rw [fields] at hf
    split at hf
    case isTrue hb =>
      rcases List.mem_cons.mp hf with rfl | hf
      · exact absurd ha List.not_mem_nil
      · exact ih hf ha
    case isFalse hb =>
      split at hf
      case h_1 hnil =>
        obtain rfl : f = [b] := by simpa using hf
        obtain rfl : a = b := by simpa using ha
        simpa using hb
      case h_2 g gs hg =>
        rcases List.mem_cons.mp hf with rfl | hf
        · rcases List.mem_cons.mp ha with rfl | ha
          · simpa using hb
          · exact ih (hg ▸ List.mem_cons_self) ha
        · exact ih (hg ▸ List.mem_cons_of_mem _ hf) ha

/-- What is put behind a list belongs to its last field if there is no separator in it. -/
theorem exists_fields_append (separates : α → Bool) (as : List α) :
    ∃ init last, ∀ bs : List α, (∀ b ∈ bs, separates b = false) →
      fields separates (as ++ bs) = init ++ [last ++ bs] := by
  induction as with
  | nil =>
    refine ⟨[], [], fun bs hbs => ?_⟩
    induction bs with
    | nil => rfl
    | cons b bs ih =>
      obtain ⟨hb, hbs⟩ := List.forall_mem_cons.mp hbs
      rw [List.nil_append] at ih ⊢
      rw [fields, ih hbs, hb]
      rfl
  | cons a as ih =>
    obtain ⟨init, last, h⟩ := ih
    by_cases ha : separates a = true
    · refine ⟨[] :: init, last, fun bs hbs => ?_⟩
      rw [List.cons_append, fields, if_pos ha, h bs hbs, List.cons_append]
    -- What is no separator joins the first field, which is the last one if there is no other.
    · cases init with
      | nil =>
        refine ⟨[], a :: last, fun bs hbs => ?_⟩
        rw [List.cons_append, fields, if_neg ha, h bs hbs]
        rfl
      | cons f fs =>
        refine ⟨(a :: f) :: fs, last, fun bs hbs => ?_⟩
        rw [List.cons_append, fields, if_neg ha, h bs hbs]
        rfl

end Enumerant.Text
