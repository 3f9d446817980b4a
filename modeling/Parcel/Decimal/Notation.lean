import Parcel.Decimal.Shortest

namespace Parcel.Decimal

structure Layout where
  inFull : Int → Bool
  afterWhole : String

def plain : Layout where
  inFull _ := true
  afterWhole := ""

/-- Numbers that show their kind: a whole number ends in `.0`, and from 10 ^ 16 on and below 10 ^ -4
there is an exponent. -/
def marked : Layout where
  inFull e := -4 ≤ e && e < 16
  afterWhole := ".0"

def zeros (n : Nat) : List Char :=
  List.replicate n '0'

def inFull (afterWhole : String) (digits : List Char) (point : Int) : String :=
  if point ≤ 0 then "0." ++ String.ofList (zeros (-point).toNat ++ digits)
  else if digits.length ≤ point then
    String.ofList (digits ++ zeros (point.toNat - digits.length)) ++ afterWhole
  else String.ofList (digits.take point.toNat) ++ "." ++ String.ofList (digits.drop point.toNat)

def withExponent (digits : List Char) (exponent : Int) : String :=
  let tail := digits.drop 1
  String.ofList (digits.take 1) ++ (if tail.isEmpty then "" else "." ++ String.ofList tail)
    ++ "e" ++ toString exponent

def Numeral.text (layout : Layout) (n : Numeral) : String :=
  let digits := Nat.toDigits 10 n.digits
  let leading := n.exponent + digits.length - 1
  if layout.inFull leading then inFull layout.afterWhole digits (leading + 1)
  else withExponent digits leading

def sign (negative : Bool) : String :=
  if negative then "-" else ""

/-- A NaN has no sign. -/
def floatText (layout : Layout) (f : Ieee.Format) (bits : Nat) : String :=
  match f.datum bits with
  | .nan => "NaN"
  | .infinite negative => sign negative ++ "inf"
  | .finite negative 0 _ => sign negative ++ "0" ++ layout.afterWhole
  | .finite negative significand exponent =>
    sign negative ++ (shortest f significand exponent).text layout

end Parcel.Decimal
