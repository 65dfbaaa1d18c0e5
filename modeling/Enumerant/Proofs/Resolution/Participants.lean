import Enumerant.Resolution.Enumeration
import Mathlib.Data.List.Nodup

/-!
# Members that take part

Of the members of a group, the first one of every name that is not left out takes part
(`Group.participants_eq`, `mem_firsts_iff`), so each has a name of its own
(`Group.nodup_names_participants`). A name therefore leads to one index, and `indexOf?` finds it
(`indexOf?_eq_some_iff`). They keep the order in which they are declared (`pairwise_firsts`).
-/

namespace Enumerant

namespace Resolution

/-! ### First of each name -/

theorem mem_and_fresh_of_mem_firsts {seen : List String} {ms : List Member} {m : Member}
    (h : m ∈ firsts seen ms) : m ∈ ms ∧ m.name ∉ seen := by
  induction ms generalizing seen with
  | nil => simp [firsts] at h
  | cons n ns ih =>
    rw [firsts] at h
    split at h
    case isTrue =>
      exact ⟨List.mem_cons_of_mem n (ih h).1, (ih h).2⟩
    case isFalse hn =>
      rcases List.mem_cons.mp h with rfl | h
      · exact ⟨List.mem_cons_self, hn⟩
      · obtain ⟨hm, hseen⟩ := ih h
        exact ⟨List.mem_cons_of_mem n hm, fun hc => hseen (List.mem_cons_of_mem _ hc)⟩

theorem nodup_names_firsts (seen : List String) (ms : List Member) :
    ((firsts seen ms).map Member.name).Nodup := by
  induction ms generalizing seen with
  | nil => simp [firsts]
  | cons n ns ih =>
    rw [firsts]
    split
    case isTrue => exact ih seen
    case isFalse =>
      rw [List.map_cons, List.nodup_cons]
      refine ⟨fun hc => ?_, ih _⟩
      obtain ⟨m, hm, hname⟩ := List.mem_map.mp hc
      exact (mem_and_fresh_of_mem_firsts hm).2 (hname ▸ List.mem_cons_self)

/-! ### What is left -/

variable {ms : List Member} {i j : Nat} {m n : Member} {name : String}

theorem firsts_sublist (seen : List String) (ms : List Member) : (firsts seen ms).Sublist ms := by
  induction ms generalizing seen with
  | nil => exact .slnil
  | cons n ns ih =>
    rw [firsts]
    split
    · exact (ih _).cons n
    · exact (ih _).cons_cons n

/-- Members that are left out count as seen from the start. -/
theorem firsts_filter {exclude seen seen' : List String}
    (h : ∀ name, name ∈ seen' ↔ name ∈ exclude ∨ name ∈ seen) (ms : List Member) :
    firsts seen (ms.filter (·.name ∉ exclude)) = firsts seen' ms := by
  induction ms generalizing seen seen' with
  | nil => rfl
  | cons n ns ih =>
    have hcons : ∀ name, name ∈ n.name :: seen' ↔ name ∈ exclude ∨ name ∈ n.name :: seen := by
      intro name
      rw [List.mem_cons, List.mem_cons, h name]
      tauto
    by_cases hex : n.name ∈ exclude
    · rw [List.filter_cons_of_neg (by simpa using hex), ih h, firsts,
        if_pos ((h n.name).mpr (.inl hex))]
    · rw [List.filter_cons_of_pos (by simpa using hex), firsts, firsts]
      by_cases hseen : n.name ∈ seen
      · rw [if_pos hseen, if_pos ((h n.name).mpr (.inr hseen)), ih h]
      · rw [if_neg hseen, if_neg (by rw [h]; tauto), ih hcons]

/-- It makes no difference whether members are left out before or after. -/
theorem filter_firsts {exclude seen seen' : List String}
    (h : ∀ name, name ∈ seen' ↔ name ∈ exclude ∨ name ∈ seen) (ms : List Member) :
    (firsts seen ms).filter (·.name ∉ exclude) = firsts seen' ms := by
  induction ms generalizing seen seen' with
  | nil => rfl
  | cons n ns ih =>
    rw [firsts, firsts]
    by_cases hseen : n.name ∈ seen
    · rw [if_pos hseen, if_pos ((h n.name).mpr (.inr hseen)), ih h]
    · rw [if_neg hseen]
      by_cases hex : n.name ∈ exclude
      · rw [List.filter_cons_of_neg (by simpa using hex), if_pos ((h n.name).mpr (.inl hex))]
        refine ih fun name => ?_
        have hname : name = n.name → name ∈ exclude := fun heq => heq ▸ hex
        rw [h, List.mem_cons]
        tauto
      · rw [List.filter_cons_of_pos (by simpa using hex), if_neg (by rw [h]; tauto)]
        refine congrArg (n :: ·) (ih fun name => ?_)
        rw [List.mem_cons, List.mem_cons, h name]
        tauto

/-- Of the names seen before, only those matter that a member has. -/
theorem firsts_congr {seen seen' : List String} (h : ∀ m ∈ ms, m.name ∈ seen ↔ m.name ∈ seen') :
    firsts seen ms = firsts seen' ms := by
  induction ms generalizing seen seen' with
  | nil => rfl
  | cons n ns ih =>
    obtain ⟨hn, hns⟩ := List.forall_mem_cons.mp h
    rw [firsts, firsts]
    by_cases hseen : n.name ∈ seen
    · rw [if_pos hseen, if_pos (hn.mp hseen), ih hns]
    · rw [if_neg hseen, if_neg (mt hn.mpr hseen)]
      refine congrArg (n :: ·) (ih fun m hm => ?_)
      rw [List.mem_cons, List.mem_cons, hns m hm]

/-- Members behind others are left as they would be alone if no name is in both. -/
theorem firsts_append {as bs : List Member} (h : ∀ a ∈ as, ∀ b ∈ bs, a.name ≠ b.name)
    (seen : List String) : firsts seen (as ++ bs) = firsts seen as ++ firsts seen bs := by
  induction as generalizing seen with
  | nil => rfl
  | cons a as ih =>
    obtain ⟨ha, has⟩ := List.forall_mem_cons.mp h
    rw [List.cons_append, firsts, firsts]
    split
    · exact ih has seen
    · have hbs : firsts (a.name :: seen) bs = firsts seen bs :=
        firsts_congr fun b hb => by simp [(ha b hb).symm]
      rw [ih has, hbs, List.cons_append]

/-- What is left of members is the first one of every name that was not seen before. -/
theorem mem_firsts_iff {seen : List String} :
    m ∈ firsts seen ms ↔ m.name ∉ seen ∧ ms.find? (·.name == m.name) = some m := by
  induction ms generalizing seen with
  | nil => simp [firsts]
  | cons n ns ih =>
    rw [firsts, List.find?_cons]
    by_cases hname : n.name = m.name
    · rw [beq_iff_eq.mpr hname, Option.some_inj]
      by_cases hseen : n.name ∈ seen
      · rw [if_pos hseen, ih]
        exact iff_of_false (fun h => h.1 (hname ▸ hseen)) (fun h => h.1 (hname ▸ hseen))
      · rw [if_neg hseen, List.mem_cons, ih]
        refine ⟨fun h => ⟨hname ▸ hseen, ?_⟩, fun h => .inl h.2.symm⟩
        rcases h with rfl | h
        · rfl
        · exact absurd (hname ▸ List.mem_cons_self) h.1
    · rw [beq_eq_false_iff_ne.mpr hname]
      have hne : m ≠ n := fun h => hname (h ▸ rfl)
      split
      · rw [ih]
      · rw [List.mem_cons, ih, List.mem_cons]
        have : m.name ≠ n.name := Ne.symm hname
        tauto

/-! ### Names and indices -/

theorem index_eq_of_name_eq (hd : (ms.map Member.name).Nodup) (hi : ms[i]? = some m)
    (hj : ms[j]? = some n) (h : m.name = n.name) : i = j := by
  obtain ⟨hlt, -⟩ := List.getElem?_eq_some_iff.mp hi
  refine (List.getElem?_inj (by simpa using hlt) hd).mp ?_
  rw [List.getElem?_map, List.getElem?_map, hi, hj, Option.map_some, Option.map_some, h]

/-- A name is found at the index of the member that has it. -/
theorem indexOf?_eq_some_iff (hd : (ms.map Member.name).Nodup) :
    indexOf? ms name = some i ↔ ∃ m, ms[i]? = some m ∧ m.name = name := by
  have sound : ∀ {k}, indexOf? ms name = some k → ∃ m, ms[k]? = some m ∧ m.name = name := by
    intro k hk
    obtain ⟨hlt, hname, -⟩ := List.findIdx?_eq_some_iff_getElem.mp hk
    exact ⟨ms[k], List.getElem?_eq_getElem hlt, by simpa using hname⟩
  refine ⟨sound, fun ⟨m, hm, hname⟩ => ?_⟩
  cases hf : indexOf? ms name with
  | none =>
    have hne := List.findIdx?_eq_none_iff.mp hf m (List.mem_of_getElem? hm)
    simp [hname] at hne
  | some k =>
    obtain ⟨n, hn, hn'⟩ := sound hf
    rw [index_eq_of_name_eq hd hn hm (hn'.trans hname.symm)]

theorem indexOf?_eq_none_iff : indexOf? ms name = none ↔ ∀ m ∈ ms, m.name ≠ name := by
  simp [indexOf?, List.findIdx?_eq_none_iff]

/-! ### The order of declaration -/

/-- One name is declared before another: its first member stands in front. -/
def DeclaredBefore (ms : List Member) (a b : String) : Prop :=
  ∃ i j, indexOf? ms a = some i ∧ indexOf? ms b = some j ∧ i < j

theorem indexOf?_cons (n : Member) (ns : List Member) (name : String) :
    indexOf? (n :: ns) name = if n.name = name then some 0 else (indexOf? ns name).map (· + 1) := by
  simp [indexOf?, List.findIdx?_cons]

theorem DeclaredBefore.cons {a b : String} (h : DeclaredBefore ms a b) (ha : n.name ≠ a)
    (hb : n.name ≠ b) : DeclaredBefore (n :: ms) a b := by
  obtain ⟨i, j, hi, hj, hij⟩ := h
  exact ⟨i + 1, j + 1, by simp [indexOf?_cons, ha, hi], by simp [indexOf?_cons, hb, hj], by omega⟩

/-- The first members of their names are in the order of declaration. -/
theorem pairwise_firsts (seen : List String) (ms : List Member) :
    (firsts seen ms).Pairwise fun m n => DeclaredBefore ms m.name n.name := by
  induction ms generalizing seen with
  | nil => exact .nil
  | cons n ns ih =>
    have hcons : ∀ seen', n.name ∈ seen' →
        (firsts seen' ns).Pairwise fun m k => DeclaredBefore (n :: ns) m.name k.name := by
      intro seen' hseen
      have hne : ∀ m ∈ firsts seen' ns, n.name ≠ m.name :=
        fun m hm hname => (mem_and_fresh_of_mem_firsts hm).2 (hname ▸ hseen)
      exact (ih seen').imp_of_mem fun hm hk h => h.cons (hne _ hm) (hne _ hk)
    rw [firsts]
    split
    case isTrue hseen => exact hcons seen hseen
    case isFalse hseen =>
      refine List.pairwise_cons.mpr ⟨fun m hm => ?_, hcons _ List.mem_cons_self⟩
      obtain ⟨hmem, hfresh⟩ := mem_and_fresh_of_mem_firsts hm
      have hne : n.name ≠ m.name := fun hname => hfresh (hname ▸ List.mem_cons_self)
      obtain ⟨i, hi⟩ : ∃ i, indexOf? ns m.name = some i :=
        Option.ne_none_iff_exists'.mp fun hnone => indexOf?_eq_none_iff.mp hnone m hmem rfl
      exact ⟨0, i + 1, by simp [indexOf?_cons], by simp [indexOf?_cons, hne, hi], by omega⟩

end Resolution

open Resolution

/-- No two members that take part share a name. -/
theorem Group.nodup_names_participants (g : Group) (settings : Settings) :
    ((g.participants settings).map Member.name).Nodup :=
  nodup_names_firsts [] _

/-- The members that take part are the first ones of the names that are not left out. -/
theorem Group.participants_eq (g : Group) (settings : Settings) :
    g.participants settings = firsts (settings.options g.name).exclude g.members :=
  firsts_filter (by simp) g.members

/-- Leaving members out leaves the others as they are. -/
theorem Group.filter_participants {g : Group} {settings settings' : Settings}
    (hnone : (settings.options g.name).exclude = []) :
    (g.participants settings).filter (·.name ∉ (settings'.options g.name).exclude) =
      g.participants settings' := by
  rw [g.participants_eq, g.participants_eq, hnone]
  exact filter_firsts (by simp) g.members

end Enumerant
