import Parcel.Ieee

/-!
The shortest decimal that reads back as a given binary number: of the multiples of 10 ^ k, the coarsest
that have a point among the reals that round to the number are taken, and of their points the nearest.
-/
namespace Parcel.Decimal

structure Numeral where
  digits : Nat
  exponent : Int
deriving DecidableEq

/-- A positive number m · 2 ^ e and the interval of reals that round to it, all in quarters of 2 ^ e. Ties go
to the even significand, which then owns the ends. -/
structure Rounding where
  low : Nat
  exact : Nat
  high : Nat
  closed : Bool
  exponent : Int

def Rounding.of (f : Ieee.Format) (significand : Nat) (exponent : Int) : Rounding where
  low := 4 * significand - (if significand = f.leading then 1 else 2)
  exact := 4 * significand
  high := 4 * significand + 2
  closed := significand % 2 = 0
  exponent := exponent - 2

def Rounding.scales (r : Rounding) (k : Int) : Nat × Nat :=
  (Nat.pow 2 r.exponent.toNat * Nat.pow 10 (-k).toNat,
    Nat.pow 2 (-r.exponent).toNat * Nat.pow 10 k.toNat)

def Rounding.holds (r : Rounding) (k : Int) (n : Nat) : Bool :=
  let (quarter, step) := r.scales k
  if r.closed then r.low * quarter ≤ n * step && n * step ≤ r.high * quarter
  else r.low * quarter < n * step && n * step < r.high * quarter

/-- Only the multiples next to the number on both sides can be nearest. -/
def Rounding.nearest? (r : Rounding) (k : Int) : Option Nat :=
  let (quarter, step) := r.scales k
  let below := r.exact * quarter / step
  match r.holds k below, r.holds k (below + 1) with
  | false, false => none
  | true, false => some below
  | false, true => some (below + 1)
  | true, true =>
    if 2 * (r.exact * quarter - below * step) < step then some below else some (below + 1)

/-- Fuel counts the grids that may be tried. -/
def Rounding.coarsest (r : Rounding) (k : Int) : Nat → Numeral
  | 0 => ⟨0, k⟩
  | fuel + 1 =>
    match r.nearest? k with
    | some n => ⟨n, k⟩
    | none => r.coarsest (k - 1) fuel

def width (n : Nat) : Nat :=
  (Nat.toDigits 10 n).length

def shortest (f : Ieee.Format) (significand : Nat) (exponent : Int) : Numeral :=
  let r := Rounding.of f significand exponent
  let (quarter, step) := r.scales 0
  let start := width (r.exact * quarter / step)
  r.coarsest start (start + (-r.exponent).toNat + 1)

end Parcel.Decimal
