import Parcel.Registry.Status

namespace Parcel

structure Receipt where
  index : Nat
  status : Status
  outcome : Option Outcome
  detail : Option String
deriving DecidableEq

namespace Receipt

def ofOutcome (index : Nat) (outcome : Outcome) : Receipt :=
  ⟨index, .ok, some outcome, none⟩

def ofError (index : Nat) (error : Command.Error) : Receipt :=
  ⟨index, error.status, none, some error.message⟩

end Receipt

namespace Registry

/-- Carries out the commands that stand at `index` and behind it in a batch. -/
def batchFrom (handle : UInt64) (index : Nat) : List Command → Action Registry ε (List Receipt)
  | [] => pure []
  | command :: commands => do
    match ← Action.attempt (perform handle command) with
    | .ok outcome =>
      let receipts ← batchFrom handle (index + 1) commands
      pure (.ofOutcome index outcome :: receipts)
    | .error error =>
      Action.emit (.batchStopped handle index command.describe error.message)
      pure [.ofError index error]

def batch (handle : UInt64) (commands : List Command) : Action Registry ε (List Receipt) :=
  batchFrom handle 0 commands

end Registry

end Parcel
