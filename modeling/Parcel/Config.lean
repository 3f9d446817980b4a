import Parcel.Text.Record

namespace Parcel

inductive Misconfiguration
  | zeroMaxCapacity
  | zeroFirstHandle
deriving DecidableEq

def Misconfiguration.message : Misconfiguration → String
  | zeroMaxCapacity => "max_capacity must be at least 1"
  | zeroFirstHandle => "first_handle must be non-zero"

structure Buffer.Rules where
  /-- Refuse reads behind the end of data that was written just before. -/
  detectsMissingReposition : Bool := true
  maxCapacity : UInt32 := 67108864
deriving DecidableEq

namespace Buffer.Rules

def check (rules : Rules) : Except Misconfiguration Unit :=
  if rules.maxCapacity = 0 then .error .zeroMaxCapacity else .ok ()

def describe (rules : Rules) : String :=
  Text.record "BufferConfig" [
    ("detect_missing_reposition", toString rules.detectsMissingReposition),
    ("max_capacity", toString rules.maxCapacity.toNat)]

end Buffer.Rules

inductive Registry.Strictness
  | strict
  | lenient
deriving DecidableEq

def Registry.Strictness.title : Strictness → String
  | strict => "Strict"
  | lenient => "Lenient"

/-- Handle 0 stands for no buffer. -/
structure Registry.Rules where
  firstHandle : UInt64 := 1
  strictness : Strictness := .strict
  buffers : Buffer.Rules := {}
deriving DecidableEq

namespace Registry.Rules

def check (rules : Rules) : Except Misconfiguration Unit :=
  if rules.firstHandle = 0 then .error .zeroFirstHandle else rules.buffers.check

def describe (rules : Rules) : String :=
  Text.record "RegistryConfig" [
    ("first_handle", toString rules.firstHandle.toNat),
    ("destroy_policy", rules.strictness.title),
    ("buffer", rules.buffers.describe)]

end Registry.Rules

end Parcel
