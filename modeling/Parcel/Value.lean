import Parcel.Ieee
import Parcel.Size

namespace Parcel

inductive Tag
  | byte | int | long | float | double | string | byteArray | binder
deriving DecidableEq

def Tag.name : Tag → String
  | byte => "byte"
  | int => "int"
  | long => "long"
  | float => "float"
  | double => "double"
  | string => "string"
  | byteArray => "byte array"
  | binder => "binder"

/-- Floats are bit patterns, and a string or binder may be absent. -/
inductive Value
  | byte (v : Int8)
  | int (v : Int32)
  | long (v : Int64)
  | float (bits : UInt32)
  | double (bits : UInt64)
  | string (s : Option String)
  | byteArray (bytes : List UInt8)
  | binder (ref : Option UInt64)
deriving DecidableEq

namespace Value

def tag : Value → Tag
  | byte _ => .byte
  | int _ => .int
  | long _ => .long
  | float _ => .float
  | double _ => .double
  | string _ => .string
  | byteArray _ => .byteArray
  | binder _ => .binder

def equal : Value → Value → Bool
  | float a, float b => Ieee.single.equal a.toNat b.toNat
  | double a, double b => Ieee.double.equal a.toNat b.toNat
  | a, b => a = b

/-- Equality with floats compared as bit patterns, so that NaNs have it with themselves and zeros of two
signs do not have it. -/
def bitEqual : Value → Value → Bool
  | float a, float b => a = b
  | double a, double b => a = b
  | a, b => a.equal b

def size : Value → UInt32
  | byte _ | int _ | float _ => Size.word
  | long _ | double _ => Size.longWord
  | string s => Size.text s
  | byteArray bytes => .ofNat bytes.length
  | binder _ => Size.binder

def zero : Tag → Value
  | .byte => byte 0
  | .int => int 0
  | .long => long 0
  | .float => float 0
  | .double => double 0
  | .string => string none
  | .byteArray => byteArray []
  | .binder => binder none

end Value

end Parcel
