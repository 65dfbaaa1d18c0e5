import Enumerant.Proofs.Integer.Padded
import Enumerant.Proofs.Text.Bytes
import Enumerant.Proofs.Text.Part
import Enumerant.Resolution.SortKey
import Mathlib.Data.String.Basic
import Mathlib.Order.Compare

/-!
# The order of sort keys

Keys of values are in the order of the values (`literalKey_lt_literalKey_iff`), given a width in
which all of them find room; `keyWidth` is the least one (`keyWidth_le_iff`). Values of 128 bits
take 32 digits at most, and their keys compare like them byte by byte (`cmp_literalKey_keyWidth`).
The key of a value precedes that of any alias (`literalKey_lt_aliasKey`). Keys of aliases are
compared by the first digits of their depths (`exists_aliasKey_lt_iff`), which is the order of
depths as long as they take equally many digits (`aliasKey_lt_aliasKey_iff`); four are always
filled, so the first depths that go astray are 9999 and 10000. Of two successive depths the smaller
one precedes unless the greater one is a power of ten that takes a further digit
(`aliasKey_succ_lt_iff`).
-/

namespace Enumerant.Resolution

open Numeral

variable {d d' k width : Nat} {name name' : String} {v w : Int} {values : List Int}

theorem toList_aliasKey (d : Nat) (name : String) :
    (aliasKey d name).toList = '1' :: (padded 10 4 d ++ name.toList) := by
  simp [aliasKey]

/-- Values come before all aliases. -/
theorem literalKey_lt_aliasKey (v : Int) (width d : Nat) (name : String) :
    literalKey v width < aliasKey d name := by
  rw [String.lt_iff_toList_lt, toList_aliasKey, literalKey, String.toList_ofList]
  split <;> exact List.cons_lt_cons_iff.mpr (.inl (by decide))

/-! ### Widths -/

/-- A maximum is below a bound if all are. -/
theorem foldl_max_lt_iff {ns : List Nat} {n b : Nat} :
    ns.foldl max n < b ↔ n < b ∧ ∀ m ∈ ns, m < b := by
  induction ns generalizing n with
  | nil => simp
  | cons m ns ih => rw [List.foldl_cons, ih, Nat.max_lt, List.forall_mem_cons, and_assoc]

theorem keyWidth_pos (values : List Int) : 0 < keyWidth values :=
  List.length_pos_of_ne_nil Nat.toDigits_ne_nil

/-- The width of keys is the least one in which the magnitudes of all values find room. -/
theorem keyWidth_le_iff (hk : 0 < k) :
    keyWidth values ≤ k ↔ ∀ v ∈ values, v.natAbs < 16 ^ k := by
  rw [keyWidth, Nat.length_toDigits_le_iff (by decide) hk, foldl_max_lt_iff, List.forall_mem_map]
  exact and_iff_right (Nat.pow_pos (by decide))

/-- The width is enough for each value. -/
theorem natAbs_lt_pow_keyWidth (hv : v ∈ values) : v.natAbs < 16 ^ keyWidth values :=
  (keyWidth_le_iff (keyWidth_pos values)).mp le_rfl v hv

/-! ### Keys of values -/

/-- Up to 32 digits a complement is taken from the power of sixteen. -/
theorem bit_eq_pow (hwidth : width ≤ 32) : bit (4 * min width 32) = 16 ^ width := by
  rw [bit, Nat.one_shiftLeft, Nat.min_eq_left hwidth, Nat.pow_mul]

/-- **Keys of values are in the order of the values**, negative ones included, as long as they find
room in the width. -/
theorem literalKey_lt_literalKey_iff (hpos : 0 < width) (hwidth : width ≤ 32)
    (hv : v.natAbs < 16 ^ width) (hw : w.natAbs < 16 ^ width) :
    literalKey v width < literalKey w width ↔ v < w := by
  obtain ⟨k, rfl⟩ : ∃ k, width = k + 1 := ⟨width - 1, by omega⟩
  have hdigits : ∀ {n m : Nat}, n < 16 ^ (k + 1) → m < 16 ^ (k + 1) →
      (hex (k + 1) n < hex (k + 1) m ↔ n < m) :=
    padded_lt_padded_iff (by decide) (by decide)
  rw [literalKey, literalKey, String.lt_iff_toList_lt, String.toList_ofList, String.toList_ofList,
    bit_eq_pow hwidth]
  by_cases hv0 : v < 0 <;> by_cases hw0 : w < 0 <;> simp only [hv0, hw0, if_true, if_false]
  · -- Both are complements, whose order is the reverse one of the magnitudes.
    rw [List.cons_lt_cons_self, List.cons_lt_cons_self, hdigits (by omega) (by omega)]
    omega
  · exact iff_of_true (by simp [List.cons_lt_cons_iff]) (by omega)
  · exact iff_of_false (by simp [List.cons_lt_cons_iff]) (by omega)
  · rw [List.cons_lt_cons_self, List.cons_lt_cons_self, hdigits hv hw]
    omega

/-- Different values have different keys. -/
theorem literalKey_inj (hpos : 0 < width) (hwidth : width ≤ 32) (hv : v.natAbs < 16 ^ width)
    (hw : w.natAbs < 16 ^ width) (h : literalKey v width = literalKey w width) : v = w := by
  rcases lt_trichotomy v w with hlt | heq | hgt
  · exact absurd h ((literalKey_lt_literalKey_iff hpos hwidth hv hw).mpr hlt).ne
  · exact heq
  · exact absurd h.symm ((literalKey_lt_literalKey_iff hpos hwidth hw hv).mpr hgt).ne

/-! ### Values of 128 bits -/

/-- Values of 128 bits take 32 digits at most. -/
theorem keyWidth_le_of_fits (h : ∀ v ∈ values, Fits v) : keyWidth values ≤ 32 := by
  refine (keyWidth_le_iff (by decide)).mpr fun v hv => ?_
  obtain ⟨hlower, hupper⟩ := h v hv
  omega

/-- In words of 128 bits sixteen to the power of 32 is zero, and the difference is the complement
all the same. -/
theorem toNat_complement (hwidth : width ≤ 32) (hneg : v < 0) (hv : v.natAbs < 16 ^ width) :
    (BitVec.ofNat 128 (16 ^ width) - BitVec.ofNat 128 v.natAbs).toNat =
      bit (4 * min width 32) - v.natAbs := by
  have hpow : 16 ^ width ≤ 2 ^ 128 := Nat.pow_le_pow_right (n := 16) (by decide) hwidth
  rw [bit_eq_pow hwidth, BitVec.toNat_sub, BitVec.toNat_ofNat, BitVec.toNat_ofNat]
  omega

/-- Keys of a width are in the order of their values. -/
theorem cmp_literalKey (hpos : 0 < width) (hwidth : width ≤ 32) (hv : v.natAbs < 16 ^ width)
    (hw : w.natAbs < 16 ^ width) :
    cmp (Text.bytes (literalKey v width)) (Text.bytes (literalKey w width)) = cmp v w := by
  simp only [cmp, cmpUsing, Text.bytes_lt_bytes_iff,
    literalKey_lt_literalKey_iff hpos hwidth hv hw, literalKey_lt_literalKey_iff hpos hwidth hw hv]

/-- **The keys of some values of 128 bits compare like the values, byte by byte**, and precede the
keys of all aliases. No complement of a negative value falls below zero, nor does it matter that it
is taken in words of 128 bits, which do not hold sixteen to the power of 32. -/
theorem cmp_literalKey_keyWidth (hvalues : ∀ v ∈ values, Fits v) :
    (∀ v ∈ values, v < 0 →
      v.natAbs ≤ bit (4 * min (keyWidth values) 32) ∧
      (BitVec.ofNat 128 (16 ^ keyWidth values) - BitVec.ofNat 128 v.natAbs).toNat =
        bit (4 * min (keyWidth values) 32) - v.natAbs) ∧
    ∀ v ∈ values,
      (∀ w ∈ values, cmp (Text.bytes (literalKey v (keyWidth values)))
        (Text.bytes (literalKey w (keyWidth values))) = cmp v w) ∧
      ∀ d name, Text.bytes (literalKey v (keyWidth values)) < Text.bytes (aliasKey d name) := by
  have hwidth := keyWidth_le_of_fits hvalues
  refine ⟨fun v hv hneg => ⟨?_, ?_⟩, fun v hv => ⟨fun w hw => ?_, fun d name => ?_⟩⟩
  · rw [bit_eq_pow hwidth]
    exact (natAbs_lt_pow_keyWidth hv).le
  · exact toNat_complement hwidth hneg (natAbs_lt_pow_keyWidth hv)
  · exact cmp_literalKey (keyWidth_pos values) hwidth (natAbs_lt_pow_keyWidth hv)
      (natAbs_lt_pow_keyWidth hw)
  · exact Text.bytes_lt_bytes_iff.mpr (literalKey_lt_aliasKey v _ d name)

/-- The least and the greatest value of 128 bits, with values around zero. -/
def extremeValues : List Int :=
  [-0x80000000000000000000000000000000, -1, 0, 0x7fffffffffffffffffffffffffffffff]

/-- The extreme values take all 32 digits, and the least one comes first even so. -/
theorem cmp_literalKey_extremeValues :
    (∀ v ∈ extremeValues, Fits v) ∧ keyWidth extremeValues = 32 ∧
    (BitVec.ofNat 128 (16 ^ keyWidth extremeValues) -
        BitVec.ofNat 128 (-0x80000000000000000000000000000000 : Int).natAbs).toNat =
      0x80000000000000000000000000000000 ∧
    cmp (Text.bytes (literalKey (-0x80000000000000000000000000000000) (keyWidth extremeValues)))
      (Text.bytes (literalKey (-1) (keyWidth extremeValues))) = .lt ∧
    Text.bytes (literalKey (-0x80000000000000000000000000000000) (keyWidth extremeValues)) <
      Text.bytes (aliasKey 0 "") := by
  have hfits : ∀ v ∈ extremeValues, Fits v := by decide
  have hwidth : keyWidth extremeValues = 32 := by decide +kernel
  obtain ⟨hcomplement, hkeys⟩ := cmp_literalKey_keyWidth hfits
  obtain ⟨hcmp, halias⟩ := hkeys _ List.mem_cons_self
  refine ⟨hfits, hwidth, ?_, hcmp (-1) (by decide), halias 0 ""⟩
  rw [(hcomplement _ List.mem_cons_self (by decide)).2, hwidth]
  decide +kernel

/-! ### Names in the keys of aliases -/

theorem isDigit_of_mem_padded {c : Char} (h : c ∈ padded 10 k d) : c.isDigit := by
  rcases List.mem_append.mp h with h | h
  · rw [List.eq_of_mem_replicate h]
    rfl
  · exact Nat.isDigit_of_mem_toDigits (by decide) (by decide) h

/-- Digits end at the first character that is none. -/
theorem dropWhile_padded_append {cs : List Char} (h : ∀ c ∈ cs.head?, c.isDigit = false) :
    (padded 10 k d ++ cs).dropWhile Char.isDigit = cs :=
  Text.dropWhile_append_eq (fun _ hc => isDigit_of_mem_padded hc) h

/-- The name in the key of an alias begins where the digits end, if no digit stands in front of
it. -/
theorem name_eq_of_aliasKey_eq (hname : ∀ c ∈ name.toList.head?, c.isDigit = false)
    (hname' : ∀ c ∈ name'.toList.head?, c.isDigit = false)
    (h : aliasKey d name = aliasKey d' name') : name = name' := by
  have htext := congrArg String.toList h
  rw [toList_aliasKey, toList_aliasKey, List.cons.injEq] at htext
  rw [← String.toList_inj, ← dropWhile_padded_append hname, htext.2,
    dropWhile_padded_append hname']

/-! ### Depths of one width -/

/-- The number of digits that a depth takes in a key. -/
def depthWidth (d : Nat) : Nat :=
  max 4 (Nat.toDigits 10 d).length

/-- A depth takes at most as many digits as its size needs, four at least. -/
theorem depthWidth_le_iff (hk : 4 ≤ k) : depthWidth d ≤ k ↔ d < 10 ^ k := by
  rw [depthWidth, Nat.max_le, Nat.length_toDigits_le_iff (by decide) (by omega)]
  exact and_iff_right hk

/-- A depth is printed with no more zeros than that. -/
theorem padded_depthWidth (d : Nat) : padded 10 4 d = padded 10 (depthWidth d) d := by
  have h : 4 - (Nat.toDigits 10 d).length = depthWidth d - (Nat.toDigits 10 d).length := by
    unfold depthWidth
    omega
  rw [padded, padded, h]

theorem depthWidth_pos (d : Nat) : 4 ≤ depthWidth d :=
  Nat.le_max_left _ _

/-- A depth has no more digits than its width. -/
theorem lt_pow_depthWidth (d : Nat) : d < 10 ^ depthWidth d :=
  (depthWidth_le_iff (depthWidth_pos d)).mp le_rfl

/-- The digits of depths that fill one width, and what follows them, in order. -/
theorem padded_append_lt_iff {k : Nat} (hd : d < 10 ^ (k + 1)) (hd' : d' < 10 ^ (k + 1))
    (cs cs' : List Char) : padded 10 (k + 1) d ++ cs < padded 10 (k + 1) d' ++ cs' ↔
      d < d' ∨ d = d' ∧ cs < cs' := by
  rw [append_lt_append_iff (by rw [length_padded (by decide) hd, length_padded (by decide) hd']),
    padded_lt_padded_iff (by decide) (by decide) hd hd',
    padded_inj (by decide) (by decide) hd hd']

/-- Keys of aliases are in the order of depths and then of names, if the depths take equally many
digits. -/
theorem aliasKey_lt_aliasKey_iff (h : depthWidth d = depthWidth d') :
    aliasKey d name < aliasKey d' name' ↔ d < d' ∨ d = d' ∧ name < name' := by
  obtain ⟨k, hk⟩ : ∃ k, depthWidth d = k + 1 := ⟨depthWidth d - 1, by
    have := depthWidth_pos d
    omega⟩
  rw [String.lt_iff_toList_lt, toList_aliasKey, toList_aliasKey, List.cons_lt_cons_self,
    padded_depthWidth, padded_depthWidth d', ← h, hk, padded_append_lt_iff,
    String.lt_iff_toList_lt]
  · exact hk ▸ lt_pow_depthWidth d
  · exact hk ▸ h ▸ lt_pow_depthWidth d'

/-! ### The first digits of depths -/

/-- The number that the first digits of a depth make in a key, as many of them as given. -/
def leading (k d : Nat) : Nat :=
  d / 10 ^ (depthWidth d - k)

/-- All digits are those of the depth itself. -/
theorem leading_depthWidth (d : Nat) : leading (depthWidth d) d = d := by
  rw [leading, Nat.sub_self, Nat.pow_zero, Nat.div_one]

theorem leading_lt_pow (h : k ≤ depthWidth d) : leading k d < 10 ^ k := by
  refine Nat.div_lt_of_lt_mul ?_
  rw [← Nat.pow_add, Nat.sub_add_cancel h]
  exact lt_pow_depthWidth d

/-- The leading digits come first, and the others follow. -/
theorem exists_padded_leading (hk : 0 < k) (h : k ≤ depthWidth d) :
    ∃ ds, ds.length = depthWidth d - k ∧ (∀ c ∈ ds, c.isDigit) ∧
      padded 10 4 d = padded 10 k (leading k d) ++ ds := by
  obtain ⟨j, rfl⟩ : ∃ j, k = j + 1 := ⟨k - 1, by omega⟩
  obtain ⟨ds, hlen, hds⟩ :=
    @exists_padded_append 10 (by decide) j d (depthWidth d - (j + 1))
  rw [Nat.add_sub_cancel' h, ← padded_depthWidth] at hds
  exact ⟨ds, hlen, fun c hc => isDigit_of_mem_padded (hds ▸ List.mem_append_right _ hc), hds⟩

/-- Keys of aliases are compared by the first digits of their depths, and then by what follows
these: further digits and the name. -/
theorem exists_aliasKey_lt_iff (hk : 0 < k) (h : k ≤ depthWidth d) (h' : k ≤ depthWidth d')
    (name name' : String) :
    ∃ ds ds', (ds.length = depthWidth d - k ∧ ∀ c ∈ ds, c.isDigit) ∧
      (ds'.length = depthWidth d' - k ∧ ∀ c ∈ ds', c.isDigit) ∧
      (aliasKey d name < aliasKey d' name' ↔ leading k d < leading k d' ∨
        leading k d = leading k d' ∧ ds ++ name.toList < ds' ++ name'.toList) := by
  obtain ⟨ds, hlen, hdigit, hds⟩ := exists_padded_leading hk h
  obtain ⟨ds', hlen', hdigit', hds'⟩ := exists_padded_leading hk h'
  refine ⟨ds, ds', ⟨hlen, hdigit⟩, ⟨hlen', hdigit'⟩, ?_⟩
  obtain ⟨j, rfl⟩ : ∃ j, k = j + 1 := ⟨k - 1, by omega⟩
  rw [String.lt_iff_toList_lt, toList_aliasKey, toList_aliasKey, List.cons_lt_cons_self, hds, hds',
    List.append_assoc, List.append_assoc,
    padded_append_lt_iff (leading_lt_pow h) (leading_lt_pow h')]

/-! ### Successive depths -/

/-- A depth takes a further digit where it reaches a power of ten. -/
theorem depthWidth_succ (h : depthWidth (d + 1) ≠ depthWidth d) : d + 1 = 10 ^ depthWidth d := by
  have hlt := lt_pow_depthWidth d
  have hle : 10 ^ depthWidth d ≤ d + 1 := by
    refine Nat.not_lt.mp fun hc => h (Nat.le_antisymm ?_ ?_)
    · exact (depthWidth_le_iff (depthWidth_pos d)).mpr hc
    · exact (depthWidth_le_iff (depthWidth_pos _)).mpr
        (Nat.lt_trans (Nat.lt_succ_self d) (lt_pow_depthWidth _))
  omega

/-- A power of ten goes before the depth that precedes it: its first digits are those of a smaller
number. -/
theorem aliasKey_pow_lt (hk : 4 ≤ k) (hd : d + 1 = 10 ^ k) :
    aliasKey (d + 1) name' < aliasKey d name := by
  obtain ⟨j, rfl⟩ : ∃ j, k = j + 1 := ⟨k - 1, by omega⟩
  have hpow : 10 ^ (j + 1) = 10 * 10 ^ j := by rw [Nat.pow_succ, Nat.mul_comm]
  have hpos : 0 < 10 ^ j := Nat.pow_pos (by decide)
  have hw : depthWidth d = j + 1 := by
    refine Nat.le_antisymm ((depthWidth_le_iff hk).mpr (by omega)) (Nat.not_lt.mp fun hc => ?_)
    have hlt := (depthWidth_le_iff (by have := depthWidth_pos d; omega)).mp (Nat.le_of_lt_succ hc)
    omega
  have hw' : j + 1 < depthWidth (d + 1) := Nat.not_le.mp fun hc => by
    have hlt := (depthWidth_le_iff hk).mp hc
    omega
  have hleading : leading (j + 1) (d + 1) ≤ (d + 1) / 10 :=
    Nat.div_le_div_left (Nat.le_self_pow (by omega) 10) (by decide)
  have hself : leading (j + 1) d = d := hw ▸ leading_depthWidth d
  obtain ⟨_, _, -, -, hlt⟩ := exists_aliasKey_lt_iff (k := j + 1) (by omega) hw'.le hw.ge name' name
  exact hlt.mpr (.inl (by omega))

/-- Of two successive depths the smaller one precedes, unless the greater one is a power of ten that
takes a further digit. -/
theorem aliasKey_succ_lt_iff :
    aliasKey d name < aliasKey (d + 1) name' ↔ ∀ k, 4 ≤ k → d + 1 ≠ 10 ^ k := by
  constructor
  · intro h k hk hd
    exact String.lt_asymm h (aliasKey_pow_lt hk hd)
  · intro h
    have hw : depthWidth (d + 1) = depthWidth d := by
      by_contra hc
      exact h _ (depthWidth_pos d) (depthWidth_succ hc)
    exact (aliasKey_lt_aliasKey_iff hw.symm).mpr (.inl (Nat.lt_succ_self d))

end Enumerant.Resolution
