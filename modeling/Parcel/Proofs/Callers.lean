import Parcel.Proofs.Faults
import Parcel.Proofs.Handles

/-!
No fault comes up in a registry either, whatever callers do to the buffers that they hold.
-/
namespace Parcel.Registry
open Parcel.Action
open Parcel.Buffer (Answer Call Exported Usable roomiest)

/-- What a caller does with a buffer that it holds: it looks at it, calls it or puts another in its
place, and goes on from what it saw, until it answers, refuses or breaks off. -/
inductive Caller : Action Buffer Command.Error Answer → Prop
  | answer (a : Answer) : Caller (pure a)
  | refuse (e : Command.Error) : Caller (refuse e)
  | abandon : Caller (fault .abandoned)
  | forward (c : Call) (hc : ∀ s, c = .paste s → Exported s) : Caller (c.run.mapError .marshal)
  | look {k : Buffer → Action Buffer Command.Error Answer} (h : ∀ b, Usable b → Caller (k b)) :
    Caller (get >>= k)
  | call (c : Call) (hc : ∀ s, c = .paste s → Exported s)
    {k : Except Marshal.Error Answer → Action Buffer Command.Error Answer}
    (h : ∀ outcome, Caller (k outcome)) : Caller (c.run.attempt >>= k)
  | append {source : Buffer} (hs : Buffer.Reachable source) (offset length : Nat)
    {k : Except Error Unit → Action Buffer Command.Error Answer}
    (h : ∀ outcome, Caller (k outcome)) : Caller ((Buffer.append source offset length).attempt >>= k)
  | replace {b : Buffer} (hb : Usable b) {m : Action Buffer Command.Error Answer} (h : Caller m) :
    Caller (set b >>= fun _ => m)

theorem Caller.within {m : Action Buffer Command.Error Answer} (h : Caller m) :
    Within Usable (· = .abandoned) m := by
  induction h with
  | answer a => exact within_pure a
  | refuse e => exact within_refuse e
  | abandon =>
    intro b hb
    refine ⟨hb, fun f hf => ?_⟩
    cases hf
    rfl
  | forward c hc => exact (c.usable hc).mapError _
  | look _ ih =>
    refine within_get.bind fun b c hb hc => ?_
    cases hc
    exact ih b hb
  | call c hc _ ih => exact (c.usable hc).attempt.andThen ih
  | append hs offset length _ ih => exact (Buffer.append_usable hs offset length).attempt.andThen ih
  | replace hb _ ih => exact (within_modify fun _ _ => hb).andThen fun _ => ih

def Request.Proper (q : Request) : Prop :=
  ∀ handle m, q = .hold handle m → Caller m

/-- Every registry that requests lead to, whether they succeed or fail. -/
inductive Reachable : Registry → Prop
  | new {rules : Rules} (h : new rules = .ok r) : Reachable r
  | serve (h : Reachable r) (q : Request) (hq : q.Proper) : Reachable (q.run r).state

variable {r : Registry} {q : Request}

theorem Reachable.houses (h : Reachable r) (hroom : r.rules.buffers.maxCapacity.toNat ≤ roomiest) :
    ∃ next handles, Houses Usable r.rules next handles r := by
  induction h with
  | new h =>
    obtain ⟨rfl, -⟩ := new_ok h
    exact ⟨_, _, rfl, rfl, rfl, fun e he => absurd he List.not_mem_nil⟩
  | @serve r _ q hq ih =>
    -- Requests leave the rules alone, so the limit was the same before.
    have hrules : (q.run r).state.rules = r.rules := by
      rcases q.turns r with ⟨-, -, -, ht⟩ | ⟨_, -, ht⟩ | ⟨-, -, ht⟩ <;> exact ht.rules
    rw [hrules] at hroom ⊢
    obtain ⟨next, handles, hr⟩ := ih hroom
    have hserve := hr.serve (Buffer.upheld_usable hroom) q fun handle m hm => (hq handle m hm).within
    rcases hserve.1 with ⟨-, -, -, ht⟩ | ⟨_, -, ht⟩ | ⟨-, -, ht⟩ <;> exact ⟨_, _, ht⟩

/-- No request ends in a fault, unless a caller breaks off by itself. -/
structure Faultless (r : Registry) : Prop where
  buffers : ∀ e ∈ r.live, e.buffer.Faultless
  request : ∀ q : Request, (∀ handle m, q ≠ .hold handle m) → Unbroken (q.run r).result
  call : ∀ (handle : UInt64) (c : Call), (∀ s, c = .paste s → Exported s) →
    Unbroken ((Request.hold handle (c.run.mapError .marshal)).run r).result
  caller : ∀ handle m, Caller m → ∀ f,
    ((Request.hold handle m).run r).result = .error (.broken f) → f = .abandoned

theorem Reachable.faultless (h : Reachable r) (hroom : r.rules.buffers.maxCapacity.toNat ≤ roomiest) :
    r.Faultless := by
  obtain ⟨next, handles, hr⟩ := h.houses hroom
  have hup {allowed : Fault → Prop} : Upheld Usable allowed r.rules.buffers :=
    Buffer.upheld_usable hroom
  constructor
  case buffers => exact fun e he => (hr.every e he).faultless
  case request => exact fun q hq => (hr.serve hup q fun handle m hm => absurd hm (hq handle m)).2
  case call =>
    intro handle c hc
    refine (hr.serve hup _ fun _ m hm => ?_).2
    cases hm
    exact (c.usable hc).mapError _
  case caller =>
    intro handle m hm
    refine (hr.serve hup _ fun _ m' hm' => ?_).2
    cases hm'
    exact hm.within

/-- Nothing that can be asked of buffers, of cells and bytes to become buffers, or of a registry ends in
a fault, in whatever state calls have left them. Only a caller that breaks off while it holds a buffer
makes one. -/
theorem no_fault :
    (∀ b, Usable b → b.Faultless) ∧
    (∀ rules entries, Unbroken (Buffer.ofCells (σ := Unit) rules entries ()).result) ∧
    (∀ rules bytes, Unbroken (Buffer.decode (σ := Unit) rules bytes ()).result) ∧
    (∀ r, Reachable r → r.rules.buffers.maxCapacity.toNat ≤ roomiest → r.Faultless) ∧
    (∀ bytes offset length part, Bytes.slice? bytes offset length = some part →
      offset + length ≤ bytes.length ∧ part.length = length) := by
  refine ⟨fun b hb => hb.faultless, fun rules entries => ?_, fun rules bytes => ?_,
    fun r hr hroom => hr.faultless hroom, fun bytes offset length part h => ?_⟩
  · exact (Buffer.ofCells_within (P := fun _ => True) rules entries () trivial).unbroken
  · exact (Buffer.decode_within (P := fun _ => True) rules bytes () trivial).unbroken
  · unfold Bytes.slice? at h
    split at h
    case isTrue hle =>
      cases h
      refine ⟨hle, ?_⟩
      rw [List.length_take, List.length_drop]
      omega
    case isFalse => cases h

/-- A buffer under the largest limit there, asked for a part of itself that cuts its only cell. -/
theorem no_fault_itself : ∃ r : Registry, r.handles = [1] ∧
    r.rules.buffers.maxCapacity.toNat = roomiest ∧ (∀ e ∈ r.live, e.buffer.Faultless) ∧
    Unbroken ((Request.append 1 1 2 6).run r).result := by
  obtain ⟨-, -, -, hreg, -⟩ := no_fault
  have h0 := @Reachable.new _ { buffers := { maxCapacity := 2147483648 } } rfl
  have h1 := h0.serve .create fun _ _ h => by cases h
  have h2 := h1.serve (.perform 1 (.put (.long 7))) fun _ _ h => by cases h
  have hr := hreg _ h2 (by decide)
  exact ⟨_, by decide, by decide, hr.buffers, hr.request _ fun _ _ h => by cases h⟩

end Parcel.Registry
