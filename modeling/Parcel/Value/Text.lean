import Parcel.Decimal.Notation
import Parcel.Text.Quoted
import Parcel.Text.Record
import Parcel.Value

namespace Parcel

def bytesText (bytes : List UInt8) : String :=
  Text.bracketed (bytes.map fun b => toString b.toNat)

def binderText (ref : UInt64) : String :=
  "binder#" ++ toString ref.toNat

namespace Value

def text : Value → String
  | byte v => toString v.toInt
  | int v => toString v.toInt
  | long v => toString v.toInt
  | float bits => Decimal.floatText Decimal.plain Ieee.single bits.toNat
  | double bits => Decimal.floatText Decimal.plain Ieee.double bits.toNat
  | string (some s) => Text.quoted s
  | byteArray bytes => bytesText bytes
  | binder (some ref) => binderText ref
  | string none | binder none => "null"

end Value

def describeBinder (ref : UInt64) : String :=
  Text.applied "BinderRef" (toString ref.toNat)

/-- The name that a description gives to the kind. -/
def Tag.title : Tag → String
  | byte => "Byte"
  | int => "Int"
  | long => "Long"
  | float => "Float"
  | double => "Double"
  | string => "String"
  | byteArray => "ByteArray"
  | binder => "Binder"

namespace Value

def describePayload : Value → String
  | byte v => toString v.toInt
  | int v => toString v.toInt
  | long v => toString v.toInt
  | float bits => Decimal.floatText Decimal.marked Ieee.single bits.toNat
  | double bits => Decimal.floatText Decimal.marked Ieee.double bits.toNat
  | string s => Text.optional Text.quoted s
  | byteArray bytes => bytesText bytes
  | binder ref => Text.optional describeBinder ref

def describe (v : Value) : String :=
  Text.applied v.tag.title v.describePayload

end Value

end Parcel
