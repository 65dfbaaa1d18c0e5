/-!
# Numerals

Reading whole numbers in a radix from 2 to 36. A numeral is a non-empty run of digits; letters stand
for the digits from ten on, in either case. Values live in 128-bit two's complement, so a numeral
whose value lies outside that range is none.

Where the program computes with values without looking at the range, it is read as built without
overflow checks: the result is `wrapped` into the range. A build with such checks stops there
instead, so the two agree wherever the result fits (`wrapped_eq_self_iff`).
-/

namespace Enumerant

/-- The values that 128 bits hold in two's complement. -/
abbrev Fits (v : Int) : Prop :=
  -0x80000000000000000000000000000000 ≤ v ∧ v < 0x80000000000000000000000000000000

/-- A value, provided that it fits. -/
def checked (v : Int) : Option Int :=
  if Fits v then some v else none

theorem checked_eq_some_iff {v w : Int} : checked v = some w ↔ Fits v ∧ v = w := by
  by_cases h : Fits v
  · rw [checked, if_pos h, Option.some.injEq]
    exact ⟨fun e => ⟨h, e⟩, fun e => e.2⟩
  · rw [checked, if_neg h]
    exact ⟨nofun, fun e => absurd e.1 h⟩

/-- What is left of a value in 128 bits of two's complement; the bits beyond them are lost. -/
def wrapped (v : Int) : Int :=
  Int.bmod v 0x100000000000000000000000000000000

theorem fits_wrapped (v : Int) : Fits (wrapped v) :=
  ⟨Int.le_bmod (by decide), Int.bmod_lt (by decide)⟩

theorem wrapped_eq_self_iff {v : Int} : wrapped v = v ↔ Fits v := by
  constructor
  · exact fun h => h ▸ fits_wrapped v
  · rintro ⟨hlower, hupper⟩
    exact Int.bmod_eq_of_le hlower hupper

/-- Values wrap to the same one if they differ by a multiple of what lies beyond the range. -/
theorem wrapped_eq_wrapped_iff {v w : Int} :
    wrapped v = wrapped w ↔ 0x100000000000000000000000000000000 ∣ v - w := by
  rw [wrapped, wrapped, Int.bmod_eq_bmod_iff_bmod_sub_eq_zero, ← Int.dvd_iff_bmod_eq_zero]
  rfl

/-- What is as far below zero as a value that fits is above it fits as well. -/
theorem wrapped_neg {v : Int} (h : Fits v) (hv : 0 ≤ v) : wrapped (-v) = -v :=
  wrapped_eq_self_iff.mpr ⟨by omega, by omega⟩

/-- Of a sum that is wrapped, the parts may have been wrapped before. -/
theorem wrapped_wrapped_add (v w : Int) : wrapped (wrapped v + w) = wrapped (v + w) :=
  Int.bmod_add_bmod

/-- Values that fit stay apart if the same is added to both. -/
theorem wrapped_add_inj {u v w : Int} (hv : Fits v) (hw : Fits w) :
    wrapped (v + u) = wrapped (w + u) ↔ v = w := by
  rw [wrapped_eq_wrapped_iff]
  omega

namespace Numeral

/-- The value of one digit of a radix. -/
def digit? (radix : Nat) (c : Char) : Option Nat :=
  let n := c.toNat
  let d :=
    if 48 ≤ n && n ≤ 57 then n - 48
    else if 97 ≤ n && n ≤ 122 then n - 87
    else if 65 ≤ n && n ≤ 90 then n - 55
    else radix
  if d < radix then some d else none

/-- The value of digits that follow others of the given value. -/
def digits? (radix : Nat) (before : Nat) : List Char → Option Nat
  | [] => some before
  | c :: cs =>
    match digit? radix c with
    | some d => digits? radix (before * radix + d) cs
    | none => none

/-- The value of a numeral without sign. -/
def natural? (radix : Nat) : List Char → Option Nat
  | [] => none
  | cs => digits? radix 0 cs

/-- The value of a numeral with at most one sign in front. -/
def integer? (radix : Nat) (cs : List Char) : Option Int :=
  match cs with
  | '-' :: rest => (natural? radix rest).bind fun n => checked (-n)
  | '+' :: rest => (natural? radix rest).bind fun n => checked n
  | _ => (natural? radix cs).bind fun n => checked n

/-- The value of a decimal numeral below a limit; a plus sign may stand in front. -/
def below? (limit : Nat) (cs : List Char) : Option Nat :=
  let body := match cs with
    | '+' :: rest => rest
    | _ => cs
  (natural? 10 body).bind fun n => if n < limit then some n else none

/-- The number whose binary form is a single one at a position, counted from zero. -/
def bit (position : Nat) : Nat :=
  1 <<< position

/-- A number in a radix, with leading zeros up to a width. -/
def padded (radix width n : Nat) : List Char :=
  let ds := Nat.toDigits radix n
  List.replicate (width - ds.length) '0' ++ ds

/-- A number in hexadecimal, with leading zeros up to a width. -/
def hex (width n : Nat) : List Char :=
  padded 16 width n

end Numeral

end Enumerant
