import Parcel.Action
import Parcel.Bytes
import Parcel.Cell
import Parcel.Marshal.Error

/-!
A list of entries is their count and then each cell: its size, the byte of its kind, and its payload. A
payload that may be absent begins with a flag, and one of any length with the length.
-/
namespace Parcel.Marshal

/-- A place for bytes: how many more it takes, if it is bounded, and what it has taken. -/
structure Sink where
  room : Option Nat
  written : Array UInt8

def Sink.bounded (room : Option Nat) : Sink := ⟨room, #[]⟩

def Sink.holds (s : Sink) (bytes : List UInt8) : Bool :=
  s.room.all (bytes.length ≤ ·)

def Sink.accept (s : Sink) (bytes : List UInt8) : Sink where
  room := s.room.map (· - bytes.length)
  written := s.written ++ (s.room.map bytes.take).getD bytes

abbrev Encoder := Action Sink Error Unit

def put (bytes : List UInt8) : Encoder := do
  let fits ← Action.gets (·.holds bytes)
  Action.modify (·.accept bytes)
  if ¬ fits then Action.refuse (.transfer .unwritten)

def putByte (n : UInt8) : Encoder := put [n]

def putWord (n : UInt32) : Encoder := put (Bytes.ofNat 4 n.toNat)

def putLongWord (n : UInt64) : Encoder := put (Bytes.ofNat 8 n.toNat)

def putSized (bytes : List UInt8) : Encoder :=
  if Size.largest < bytes.length then Action.refuse (.malformed (.longPayload bytes.length))
  else do
    putWord (.ofNat bytes.length)
    put bytes

def presence (isPresent : Bool) : UInt8 :=
  if isPresent then 1 else 0

def tagByte : Tag → UInt8
  | .byte => 0
  | .int => 1
  | .long => 2
  | .float => 3
  | .double => 4
  | .string => 5
  | .byteArray => 6
  | .binder => 7

def encodeValue : Value → Encoder
  | .byte v => putByte v.toUInt8
  | .int v => putWord v.toUInt32
  | .long v => putLongWord v.toUInt64
  | .float bits => putWord bits
  | .double bits => putLongWord bits
  | .string none => putByte (presence false)
  | .string (some s) => do
    putByte (presence true)
    putSized (Text.toUtf8 s)
  | .byteArray bytes => putSized bytes
  | .binder none => putByte (presence false)
  | .binder (some ref) => do
    putByte (presence true)
    putLongWord ref

def encodeEntry (cell : Cell) : Encoder := do
  putWord cell.size
  putByte (tagByte cell.value.tag)
  encodeValue cell.value

def encodeEntries (cells : List Cell) : Encoder :=
  if Size.largest < cells.length then Action.refuse (.malformed (.manyEntries cells.length))
  else do
    putWord (.ofNat cells.length)
    Action.each encodeEntry cells

end Parcel.Marshal
