/-!
Texts and their UTF-8, and where a run of bytes stops being UTF-8.
-/
namespace Parcel.Text

inductive IllFormed
  /-- The `length` bytes from `index` on begin no character. -/
  | invalid (length index : Nat)
  | incomplete (index : Nat)
deriving DecidableEq

namespace IllFormed

def message : IllFormed → String
  | invalid length index => s!"invalid utf-8 sequence of {length} bytes from index {index}"
  | incomplete index => s!"incomplete utf-8 byte sequence from index {index}"

end IllFormed

/-- Inclusive ranges for the bytes that follow `lead` in a well-formed sequence. The first of them shuts out
overlong forms, surrogates and code points above U+10FFFF. -/
def followers (lead : UInt8) : Option (List (UInt8 × UInt8)) :=
  let any := (0x80, 0xbf)
  if lead < 0x80 then some []
  else if lead < 0xc2 then none
  else if lead < 0xe0 then some [any]
  else if lead = 0xe0 then some [(0xa0, 0xbf), any]
  else if lead = 0xed then some [(0x80, 0x9f), any]
  else if lead < 0xf0 then some [any, any]
  else if lead = 0xf0 then some [(0x90, 0xbf), any, any]
  else if lead < 0xf4 then some [any, any, any]
  else if lead = 0xf4 then some [(0x80, 0x8f), any, any]
  else none

inductive Continuation
  | whole (rest : List UInt8)
  | brokenAfter (count : Nat)
  | endsEarly

def continuation (count : Nat) : List (UInt8 × UInt8) → List UInt8 → Continuation
  | [], rest => .whole rest
  | _ :: _, [] => .endsEarly
  | (low, high) :: ranges, b :: rest =>
    if low ≤ b ∧ b ≤ high then continuation (count + 1) ranges rest else .brokenAfter count

/-- Fuel: each round takes at least one byte. -/
def illFormedFrom (index : Nat) : Nat → List UInt8 → IllFormed
  | 0, _ => .incomplete index
  | _, [] => .incomplete index
  | fuel + 1, lead :: rest =>
    match followers lead with
    | none => .invalid 1 index
    | some ranges =>
      match continuation 0 ranges rest with
      | .whole rest' => illFormedFrom (index + 1 + ranges.length) fuel rest'
      | .brokenAfter count => .invalid (1 + count) index
      | .endsEarly => .incomplete index

def illFormed (bytes : List UInt8) : IllFormed :=
  illFormedFrom 0 bytes.length bytes

def ofUtf8 (bytes : List UInt8) : Except IllFormed String :=
  match String.fromUTF8? ⟨bytes.toArray⟩ with
  | some s => .ok s
  | none => .error (illFormed bytes)

def toUtf8 (s : String) : List UInt8 :=
  s.toUTF8.data.toList

end Parcel.Text
