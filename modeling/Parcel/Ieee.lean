namespace Parcel.Ieee

structure Format where
  exponentBits : Nat
  fractionBits : Nat

def single : Format := ⟨8, 23⟩

def double : Format := ⟨11, 52⟩

/-- A finite one is ± `significand` · 2 ^ `exponent`. -/
inductive Datum
  | nan
  | infinite (negative : Bool)
  | finite (negative : Bool) (significand : Nat) (exponent : Int)
deriving DecidableEq

namespace Format

def leading (f : Format) : Nat := Nat.pow 2 f.fractionBits

def leastExponent (f : Format) : Int :=
  2 - Int.ofNat (Nat.pow 2 (f.exponentBits - 1)) - f.fractionBits

def isNegative (f : Format) (bits : Nat) : Bool :=
  bits / Nat.pow 2 (f.exponentBits + f.fractionBits) % 2 = 1

def exponentField (f : Format) (bits : Nat) : Nat :=
  bits / f.leading % Nat.pow 2 f.exponentBits

def fraction (f : Format) (bits : Nat) : Nat :=
  bits % f.leading

def datum (f : Format) (bits : Nat) : Datum :=
  let e := f.exponentField bits
  if e = Nat.pow 2 f.exponentBits - 1 then
    if f.fraction bits = 0 then .infinite (f.isNegative bits) else .nan
  else if e = 0 then .finite (f.isNegative bits) (f.fraction bits) f.leastExponent
  else .finite (f.isNegative bits) (f.leading + f.fraction bits) (f.leastExponent + (e - 1 : Nat))

/-- Equality of numbers: a NaN equals nothing, and the two zeros are equal. -/
def equal (f : Format) (a b : Nat) : Bool :=
  match f.datum a, f.datum b with
  | .nan, _ => false
  | _, .nan => false
  | .finite _ 0 _, .finite _ 0 _ => true
  | _, _ => a = b

end Format

end Parcel.Ieee
