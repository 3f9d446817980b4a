import Parcel.Error
import Parcel.Event

/-!
Actions change a state, report events and may fail. The state that an action leaves is kept when it
fails, so that what a failed call changed can be seen.
-/
namespace Parcel

structure Ran (σ ε α : Type) where
  result : Except (Failure ε) α
  state : σ
  events : List Event

def Action (σ ε α : Type) : Type :=
  σ → Ran σ ε α

namespace Action

protected def pure (a : α) : Action σ ε α := fun s => ⟨.ok a, s, []⟩

protected def bind (m : Action σ ε α) (f : α → Action σ ε β) : Action σ ε β := fun s =>
  match m s with
  | ⟨.error e, s', events⟩ => ⟨.error e, s', events⟩
  | ⟨.ok a, s', events⟩ =>
    match f a s' with
    | ⟨result, s'', events'⟩ => ⟨result, s'', events ++ events'⟩

instance : Monad (Action σ ε) where
  pure := Action.pure
  bind := Action.bind

def get : Action σ ε σ := fun s => ⟨.ok s, s, []⟩

def gets (f : σ → α) : Action σ ε α := fun s => ⟨.ok (f s), s, []⟩

def inspect (f : σ → Except (Failure ε) α) : Action σ ε α := fun s => ⟨f s, s, []⟩

def modify (f : σ → σ) : Action σ ε Unit := fun s => ⟨.ok (), f s, []⟩

def set (s : σ) : Action σ ε Unit := modify fun _ => s

def emit (event : Event) : Action σ ε Unit := fun s => ⟨.ok (), s, [event]⟩

def fail (e : Failure ε) : Action σ ε α := fun s => ⟨.error e, s, []⟩

def lift (outcome : Except (Failure ε) α) : Action σ ε α := inspect fun _ => outcome

def refuse (e : ε) : Action σ ε α := fail (.refused e)

def fault (f : Fault) : Action σ ε α := fail (.broken f)

def mapError (f : ε → ε') (m : Action σ ε α) : Action σ ε' α := fun s =>
  match m s with
  | ⟨.ok a, s', events⟩ => ⟨.ok a, s', events⟩
  | ⟨.error e, s', events⟩ => ⟨.error (e.map f), s', events⟩

/-- Runs an action on a state of its own, and hands that state over if the action succeeds. -/
def apart (t : τ) (m : Action τ ε α) : Action σ ε (α × τ) := fun s =>
  match m t with
  | ⟨.ok a, t', events⟩ => ⟨.ok (a, t'), s, events⟩
  | ⟨.error e, _, events⟩ => ⟨.error e, s, events⟩

def first (m : Action σ ε α) : Action (σ × τ) ε α := fun (s, t) =>
  match m s with
  | ⟨result, s', events⟩ => ⟨result, (s', t), events⟩

/-- Turns a refusal into a result; a fault still ends the action. -/
def attempt (m : Action σ ε α) : Action σ ε' (Except ε α) := fun s =>
  match m s with
  | ⟨.ok a, s', events⟩ => ⟨.ok (.ok a), s', events⟩
  | ⟨.error (.refused e), s', events⟩ => ⟨.ok (.error e), s', events⟩
  | ⟨.error (.broken f), s', events⟩ => ⟨.error (.broken f), s', events⟩

def each (f : β → Action σ ε Unit) : List β → Action σ ε Unit
  | [] => pure ()
  | b :: bs => do
    f b
    each f bs

end Action

end Parcel
