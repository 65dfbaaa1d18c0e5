import Mathlib.Data.List.Sort
import Mathlib.Data.Nat.BitIndices
import Enumerant.Proofs.Integer.Numeral
import Enumerant.Rendering.Describe

/-!
# Names of combined flags

The bits of a combination are found by moving it down until nothing is left, so the position that
is counted along is that of the lowest bit that is still there (`bitNamesFrom_eq`). The library has
the list of set bits in ascending order, `Nat.bitIndices`, and the names are those of its members:
a combination is described bit by bit (`describeFlags_of_lt`), and what is described apart can be
put together (`describeFlags_add`).
-/

namespace Enumerant

/-! ### Set bits -/

/-- The bits of a number below a power of two come before those of a multiple of the power. -/
theorem bitIndices_add {a b k : ℕ} (ha : a < 2 ^ k) (hb : 2 ^ k ∣ b) :
    (a + b).bitIndices = a.bitIndices ++ b.bitIndices := by
  obtain ⟨m, rfl⟩ := hb
  have hsorted : (a.bitIndices ++ (2 ^ k * m).bitIndices).SortedLT := by
    rw [List.sortedLT_iff_pairwise, List.pairwise_append]
    refine ⟨Nat.bitIndices_sorted.pairwise, Nat.bitIndices_sorted.pairwise, fun i hi j hj => ?_⟩
    have hik : i < k := (Nat.pow_lt_pow_iff_right (by decide)).mp
      ((Nat.two_pow_le_of_mem_bitIndices hi).trans_lt ha)
    rw [Nat.bitIndices_two_pow_mul, List.mem_map] at hj
    obtain ⟨l, -, rfl⟩ := hj
    omega
  have hsum := Nat.bitIndices_sum_map_two_pow hsorted
  rwa [List.map_append, List.sum_append, Nat.sum_map_two_pow_bitIndices,
    Nat.sum_map_two_pow_bitIndices] at hsum

theorem bitIndices_eq_nil_iff {n : ℕ} : n.bitIndices = [] ↔ n = 0 := by
  refine ⟨fun h => ?_, fun h => h ▸ Nat.bitIndices_zero⟩
  rw [← Nat.sum_map_two_pow_bitIndices n, h, List.map_nil, List.sum_nil]

/-! ### Joined names -/

theorem intercalate_eq_empty_iff {names : List String} :
    " | ".intercalate names = "" ↔ names = [] ∨ names = [""] := by
  match names with
  | [] => simp
  | [name] => simp
  | name :: name' :: names =>
    rw [String.intercalate_cons_cons, ← String.toList_inj, String.toList_append]
    simp

/-- Names are joined by a bar each if there is none in them. -/
theorem count_intercalate {names : List String} (hne : names ≠ [])
    (h : ∀ name ∈ names, '|' ∉ name.toList) :
    (" | ".intercalate names).toList.count '|' + 1 = names.length := by
  induction names with
  | nil => exact absurd rfl hne
  | cons name names ih =>
    obtain ⟨hname, hnames⟩ := List.forall_mem_cons.mp h
    cases names with
    | nil => rw [String.intercalate_singleton, List.count_eq_zero_of_not_mem hname]; rfl
    | cons name' names =>
      rw [String.intercalate_cons_cons, String.toList_append, String.toList_append,
        List.count_append, List.count_append, List.count_eq_zero_of_not_mem hname, List.length_cons,
        ← ih (List.cons_ne_nil _ _) hnames]
      simp only [show " | ".toList.count '|' = 1 from rfl]
      omega

namespace Enumeration

variable {e : Enumeration} {settings : Settings} {v : ℕ}

/-! ### The loop -/

/-- The names that are still to come are those of the bits that are still there, each at its place
above the position. -/
theorem bitNamesFrom_eq (e : Enumeration) (settings : Settings) (position flags : ℕ) :
    e.bitNamesFrom settings position flags =
      flags.bitIndices.map fun i => e.describe settings (bitValue (position + i)) := by
  fun_induction bitNamesFrom e settings position flags with
  | case1 position => rw [Nat.bitIndices_zero, List.map_nil]
  | case2 position flags hflags names hodd ih =>
    have hbits : flags = 2 * (flags >>> 1) + 1 := by
      rw [Nat.shiftRight_one]
      omega
    have hnames : names = _ := ih
    rw [hnames, hbits, Nat.bitIndices_two_mul_add_one, ← hbits]
    simp [Nat.add_assoc, Nat.add_comm 1]
  | case3 position flags hflags names heven ih =>
    have hbits : flags = 2 * (flags >>> 1) := by
      rw [Nat.shiftRight_one]
      omega
    have hnames : names = _ := ih
    rw [hnames, hbits, Nat.bitIndices_two_mul, ← hbits]
    simp [Nat.add_assoc, Nat.add_comm 1]

/-- A bit below that of the sign is a power of two. -/
theorem bitValue_eq {position : ℕ} (h : position < 127) : bitValue position = 2 ^ position := by
  rw [bitValue, if_pos (by omega), wrapped_eq_self_iff.mpr (Numeral.fits_bit h),
    Numeral.bit_eq_two_pow, Int.natCast_pow, Int.cast_ofNat_Int]

/-- The names of a combination. -/
theorem describeFlags_eq (hv : v < 2 ^ 127) :
    e.describeFlags settings v =
      " | ".intercalate (v.bitIndices.map fun i => e.describe settings (2 ^ i)) := by
  rw [describeFlags, bitNamesFrom_eq]
  refine congrArg _ (List.map_congr_left fun i hi => ?_)
  have hi : i < 127 := (Nat.pow_lt_pow_iff_right (by decide)).mp
    ((Nat.two_pow_le_of_mem_bitIndices hi).trans_lt hv)
  rw [Nat.zero_add, bitValue_eq hi]

theorem describeFlags_eq_empty_iff (hv : v < 2 ^ 127) :
    e.describeFlags settings v = "" ↔
      v = 0 ∨ ∃ i, v = 2 ^ i ∧ e.describe settings (2 ^ i) = "" := by
  rw [describeFlags_eq hv, intercalate_eq_empty_iff, List.map_eq_nil_iff, bitIndices_eq_nil_iff,
    List.map_eq_singleton_iff]
  refine or_congr_right ⟨?_, ?_⟩
  · rintro ⟨i, hi, hname⟩
    refine ⟨i, ?_, hname⟩
    rw [← Nat.sum_map_two_pow_bitIndices v, hi, List.map_singleton, List.sum_singleton]
  · rintro ⟨i, rfl, hname⟩
    exact ⟨i, Nat.bitIndices_two_pow i, hname⟩

/-- What is described apart is put together: the lower bits come first. -/
theorem describeFlags_add {a b k : ℕ} (hv : a + b < 2 ^ 127) (ha : a < 2 ^ k) (hb : 2 ^ k ∣ b)
    (ha0 : a ≠ 0) (hb0 : b ≠ 0) :
    e.describeFlags settings (a + b) =
      e.describeFlags settings a ++ " | " ++ e.describeFlags settings b := by
  have hnil {n : ℕ} (hn : n ≠ 0) :
      (n.bitIndices.map fun i => e.describe settings (2 ^ i)) ≠ [] := by
    rwa [ne_eq, List.map_eq_nil_iff, bitIndices_eq_nil_iff]
  rw [describeFlags_eq hv, describeFlags_eq (by omega), describeFlags_eq (by omega),
    bitIndices_add ha hb, List.map_append,
    String.intercalate_append_of_ne_nil (hnil ha0) (hnil hb0)]

/-- **Flags are described bit by bit.** A combination below the bit of the sign is described by the
names of its set bits in ascending order, with bars between them. So the text is empty for nothing
but zero and a single bit whose name is empty; if there are no bars in the names, it has one less
than bits are set; and if the number is cut at any place, the text is that of the lower part and
then that of the upper part. -/
theorem describeFlags_of_lt (e : Enumeration) (settings : Settings) (hv : v < 2 ^ 127) :
    let name := fun i : ℕ => e.describe settings (2 ^ i)
    e.describeFlags settings v = " | ".intercalate (v.bitIndices.map name) ∧
      (e.describeFlags settings v = "" ↔ v = 0 ∨ ∃ i, v = 2 ^ i ∧ name i = "") ∧
      (v ≠ 0 → (∀ i ∈ v.bitIndices, '|' ∉ (name i).toList) →
        (e.describeFlags settings v).toList.count '|' + 1 = v.bitIndices.length) ∧
      ∀ a b k, v = a + b → a < 2 ^ k → 2 ^ k ∣ b → a ≠ 0 → b ≠ 0 →
        e.describeFlags settings v =
          e.describeFlags settings a ++ " | " ++ e.describeFlags settings b := by
  refine ⟨describeFlags_eq hv, describeFlags_eq_empty_iff hv, fun hne hbars => ?_, ?_⟩
  · have hnames : v.bitIndices.map (fun i => e.describe settings (2 ^ i)) ≠ [] := by
      rwa [ne_eq, List.map_eq_nil_iff, bitIndices_eq_nil_iff]
    rw [describeFlags_eq hv, count_intercalate hnames (List.forall_mem_map.mpr hbars),
      List.length_map]
  · rintro a b k rfl ha hb ha0 hb0
    exact describeFlags_add hv ha hb ha0 hb0

/-- The sides of a surface: the bit between them has no name, and one of them has two. -/
def faces : Enumeration where
  sourceName := "FaceFlagBits"
  typeName := "FaceFlagBits"
  flagsTypeName := "FaceFlags"
  width := 32
  kind := .bitmask
  signed := false
  members :=
    [⟨"FACE_NONE", "None", 0, "0", none, none, "010"⟩,
      ⟨"FACE_FRONT_BIT", "Front", 1, "0x00000001", none, none, "011"⟩,
      ⟨"FACE_BACK_BIT", "Back", 4, "0x00000004", none, none, "014"⟩,
      ⟨"FACE_REAR_BIT", "Rear", 4, "FACE_BACK_BIT", some ⟨"Back", "FACE_BACK_BIT"⟩, none, "020"⟩]

/-- The lower two bits of three are described first. -/
theorem describeFlags_faces :
    7 < 2 ^ 127 ∧ faces.describeFlags {} 7 = "Front | Unknown | Back" ∧
      faces.describeFlags {} 7 = faces.describeFlags {} 3 ++ " | " ++ faces.describeFlags {} 4 := by
  have hlt : 7 < 2 ^ 127 := by decide
  obtain ⟨hjoin, -, -, hcut⟩ := describeFlags_of_lt faces {} hlt
  have hbits : Nat.bitIndices 7 = [0, 1, 2] := Nat.bitIndices_sum_map_two_pow (L := [0, 1, 2])
    (List.sortedLT_iff_pairwise.mpr (by decide))
  refine ⟨hlt, ?_, hcut 3 4 2 rfl (by decide) (by decide) (by decide) (by decide)⟩
  rw [hjoin, hbits]
  decide +kernel

end Enumeration

end Enumerant
