import Parcel.Registry.Basic

namespace Parcel

inductive Measure
  | size | available | position | capacity
deriving DecidableEq

inductive Command
  | put (item : Item)
  /-- Writes a byte array under another name. -/
  | putBlob (bytes : Option (List UInt8))
  | read (wanted : Tag)
  | readBlob
  | enforce (interface : String)
  | measure (what : Measure)
  | resize (size : Nat)
  | seek (position : Nat)
  | reserve (capacity : Nat)
  | append (source : UInt64) (offset length : Nat)
  | encode
  | decode (bytes : List UInt8)
  | clear
deriving DecidableEq

inductive Outcome
  | done
  | value (v : Value)
  | bytes (content : Option (List UInt8))
  | size (n : Nat)
  | encoded (bytes : List UInt8)
deriving DecidableEq

namespace Command

inductive Error
  | buffer (error : Parcel.Error)
  | marshal (error : Marshal.Error)
deriving DecidableEq

instance : Reports Error := ⟨.buffer⟩

namespace Error

def message : Error → String
  | buffer error => error.message
  | marshal error => error.message

/-- The messages of the errors behind this one, the nearest first. -/
def sources : Error → List String
  | buffer error => [error.message]
  | marshal error => error.message :: error.sources

end Error

def itemTitle : Item → String
  | .byte _ => "Byte"
  | .int _ => "Int"
  | .long _ => "Long"
  | .float _ => "Float"
  | .double _ => "Double"
  | .string _ => "String"
  | .binder _ => "StrongBinder"
  | .array _ => "ByteArray"
  | .token _ => "InterfaceToken"

def itemPayload : Item → String
  | .byte v => (Value.byte v).describePayload
  | .int v => (Value.int v).describePayload
  | .long v => (Value.long v).describePayload
  | .float bits => (Value.float bits).describePayload
  | .double bits => (Value.double bits).describePayload
  | .string s => (Value.string s).describePayload
  | .binder ref => (Value.binder ref).describePayload
  | .array bytes => Text.optional bytesText bytes
  | .token interface => Text.quoted interface

def readTitle : Tag → String
  | .binder => "StrongBinder"
  | tag => tag.title

def measureTitle : Measure → String
  | .size => "DataSize"
  | .available => "DataAvailable"
  | .position => "DataPosition"
  | .capacity => "DataCapacity"

def describe : Command → String
  | put item => Text.applied ("Write" ++ itemTitle item) (itemPayload item)
  | putBlob bytes => Text.applied "WriteBlob" (Text.optional bytesText bytes)
  | read wanted => "Read" ++ readTitle wanted
  | readBlob => "ReadBlob"
  | enforce interface => Text.applied "EnforceInterface" (Text.quoted interface)
  | measure what => measureTitle what
  | resize size => Text.applied "SetDataSize" (toString size)
  | seek position => Text.applied "SetDataPosition" (toString position)
  | reserve capacity => Text.applied "SetDataCapacity" (toString capacity)
  | append source offset length => Text.record "AppendFrom" [
      ("src", Text.applied "BufferHandle" (toString source.toNat)),
      ("offset", toString offset),
      ("length", toString length)]
  | encode => "Marshall"
  | decode bytes => Text.applied "Unmarshall" (bytesText bytes)
  | clear => "FreeBuffer"

/-- Refuses a payload whose length is no 32-bit number. -/
def checkPayload (bytes : List UInt8) : Action Registry Error Unit := do
  if Size.largest < bytes.length then
    Action.refuse (.buffer (.outOfBounds .payloadLength bytes.length Size.largest))

end Command

namespace Measure

def take : Measure → Action Buffer ε Nat
  | size => Action.gets Buffer.size
  | available => Buffer.available
  | position => Action.gets Buffer.position
  | capacity => Action.gets Buffer.capacity

end Measure

namespace Registry

def onBuffer (handle : UInt64) (m : Action Buffer Error α) : Action Registry Command.Error α :=
  Action.mapError .buffer (withBuffer handle m)

def putWhole (handle : UInt64) (bytes : Option (List UInt8)) : Action Registry Command.Error Unit := do
  Command.checkPayload (bytes.getD [])
  onBuffer handle (Buffer.putArray bytes 0 (bytes.getD []).length)

def readOutcome (handle : UInt64) : Tag → Action Registry Command.Error Outcome
  | .byteArray => .bytes <$> onBuffer handle Buffer.readArray
  | tag => .value <$> onBuffer handle (Buffer.read tag)

def perform (handle : UInt64) : Command → Action Registry Command.Error Outcome
  | .put (.array bytes) => do
    putWhole handle bytes
    pure .done
  | .put item => do
    onBuffer handle (Buffer.put item)
    pure .done
  | .putBlob bytes => do
    putWhole handle bytes
    pure .done
  | .read wanted => readOutcome handle wanted
  | .readBlob => readOutcome handle .byteArray
  | .enforce interface => do
    onBuffer handle (Buffer.enforce interface)
    pure .done
  | .measure what => .size <$> onBuffer handle what.take
  | .resize size => do
    onBuffer handle (Buffer.resize size)
    pure .done
  | .seek position => do
    onBuffer handle (Buffer.seek position)
    pure .done
  | .reserve capacity => do
    onBuffer handle (Buffer.reserve capacity)
    pure .done
  | .append source offset length => do
    Action.mapError .buffer (append handle source offset length)
    pure .done
  | .encode => .encoded <$> Action.mapError .marshal (encode handle)
  | .decode bytes => do
    Command.checkPayload bytes
    Action.mapError .marshal (decode handle bytes 0 bytes.length)
    pure .done
  | .clear => do
    onBuffer handle Buffer.clear
    pure .done

end Registry

end Parcel
