import Parcel.Proofs.Calls
import Parcel.Registry.Batch

/-!
Requests to a registry as values, so that runs of them can be spoken of. Only two kinds of request change
which handles there are; all others come to one buffer at a time through `withBuffer`. What the
operations on buffers keep of every single buffer can therefore be kept of all the buffers of a registry.
-/
namespace Parcel.Registry
open Parcel.Action
open Parcel.Buffer (Answer)

/-- What can be asked of a registry. -/
inductive Request
  | create
  | lookup (handle : UInt64)
  | destroy (handle : UInt64)
  /-- Any action on the buffer of a handle, one of the library's or of the caller's own. -/
  | hold (handle : UInt64) (m : Action Buffer Command.Error Answer)
  | append (handle source : UInt64) (offset length : Nat)
  | encode (handle : UInt64)
  | decode (handle : UInt64) (bytes : List UInt8) (offset length : Nat)
  | perform (handle : UInt64) (command : Command)
  | batch (handle : UInt64) (commands : List Command)

/-- What a request gives back. -/
inductive Reply
  | done
  | handle (handle : UInt64)
  | answer (a : Answer)
  | bytes (content : List UInt8)
  | outcome (o : Outcome)
  | receipts (rs : List Receipt)
deriving DecidableEq

namespace Request

def run : Request → Action Registry Command.Error Reply
  | create => .handle <$> mapError .buffer Registry.create
  | lookup handle => (fun _ => .done) <$> mapError .buffer (Registry.lookup handle)
  | destroy handle => (fun _ => .done) <$> mapError .buffer (Registry.destroy handle)
  | hold handle m => .answer <$> withBuffer handle m
  | append handle source offset length =>
    (fun _ => .done) <$> mapError .buffer (Registry.append handle source offset length)
  | encode handle => .bytes <$> mapError .marshal (Registry.encode handle)
  | decode handle bytes offset length =>
    (fun _ => .done) <$> mapError .marshal (Registry.decode handle bytes offset length)
  | perform handle command => .outcome <$> Registry.perform handle command
  | batch handle commands => .receipts <$> Registry.batch handle commands

end Request

/-- A request with what came of it. -/
structure Served where
  request : Request
  result : Except (Failure Command.Error) Reply

/-- The requests of a run, each with what came of it. -/
def served (r : Registry) : List Request → List Served
  | [] => []
  | q :: requests => ⟨q, (q.run r).result⟩ :: served (q.run r).state requests

/-- The registry behind a run. -/
def after (r : Registry) : List Request → Registry
  | [] => r
  | q :: requests => after (q.run r).state requests

variable {r : Registry} {handle x : UInt64} {b : Buffer}

theorem handle_of_entry {e : Entry} (h : r.entry? x = some e) : e.handle = x := by
  simpa using List.find?_some h

theorem entry?_eq_none : r.entry? x = none ↔ x ∉ r.handles := by
  simp only [Registry.entry?, List.find?_eq_none, decide_eq_true_eq, handles, List.mem_map, not_exists,
    not_and]

theorem contains_iff : r.contains x = true ↔ x ∈ r.handles := by
  rw [contains, Option.isSome_iff_ne_none, ne_eq, entry?_eq_none,
    Decidable.not_not]

theorem listed_of_entry {e : Entry} (h : r.entry? x = some e) : x ∈ r.handles :=
  contains_iff.mp (by rw [contains, h]; rfl)

theorem handles_replaced (b : Buffer) (poisoned : Bool) :
    (r.replaced handle b poisoned).handles = r.handles := by
  unfold replaced handles
  rw [List.map_map]
  refine List.map_congr_left fun e _ => ?_
  dsimp only [Function.comp]
  split <;> rfl

theorem handles_without : (r.without handle).handles = r.handles.filter (· ≠ handle) := by
  unfold without handles
  rw [List.filter_map]
  rfl

theorem entry?_map_replaced (b : Buffer) (poisoned : Bool) :
    entry? (r.replaced handle b poisoned) x =
      (r.entry? x).map fun e => if e.handle = handle then { e with buffer := b, poisoned } else e := by
  have hkey (e : Entry) :
      (if e.handle = handle then { e with buffer := b, poisoned } else e).handle = e.handle := by
    split <;> rfl
  simp only [Registry.entry?, replaced, List.find?_map, Function.comp_def, hkey]

theorem entry?_replaced_ne (h : x ≠ handle) (b : Buffer) (poisoned : Bool) :
    entry? (r.replaced handle b poisoned) x = r.entry? x := by
  rw [entry?_map_replaced]
  cases he : r.entry? x with
  | none => rfl
  | some e => rw [Option.map_some, if_neg (handle_of_entry he ▸ h)]

theorem entry?_replaced (h : (r.entry? handle).isSome) (poisoned : Bool) :
    entry? (r.replaced handle b poisoned) x =
      if x = handle then some ⟨handle, b, poisoned⟩ else r.entry? x := by
  split
  case isTrue hx =>
    obtain ⟨e, he⟩ := Option.isSome_iff_exists.mp h
    rw [entry?_map_replaced, hx, he, Option.map_some, if_pos (handle_of_entry he), handle_of_entry he]
  case isFalse hx => exact entry?_replaced_ne hx b poisoned

theorem entry?_without :
    entry? (r.without handle) x = if x = handle then none else r.entry? x := by
  split
  case isTrue hx =>
    rw [entry?_eq_none, handles_without]
    simp [hx]
  case isFalse hx =>
    unfold entry? without
    rw [List.find?_filter]
    refine congrArg (List.find? · r.live) (funext fun e => ?_)
    by_cases he : e.handle = x <;> simp [he, hx]

theorem isBroken_eq_false {result : Except (Failure ε) α} :
    isBroken result = false ↔ Unbroken result := by
  constructor
  · intro h f hf
    rw [hf] at h
    cases h
  · intro h
    rcases result with (e | f) | a
    · rfl
    · exact absurd rfl (h f)
    · rfl

theorem withBuffer_absent [Reports ε] (m : Action Buffer ε α) (h : r.entry? handle = none) :
    (withBuffer handle m).Yields r (.error (.refused (Reports.report (.handleNotFound handle)))) r := by
  constructor <;> simp only [withBuffer, h]

theorem withBuffer_poisoned [Reports ε] (m : Action Buffer ε α)
    (h : r.entry? handle = some ⟨handle, b, true⟩) :
    (withBuffer handle m).Yields r (.error (.refused (Reports.report .poisoned))) r := by
  constructor <;> simp only [withBuffer, h]

theorem withBuffer_present [Reports ε] (m : Action Buffer ε α)
    (h : r.entry? handle = some ⟨handle, b, false⟩) :
    (withBuffer handle m).Yields r (m b).result
      (r.replaced handle (m b).state (isBroken (m b).result)) := by
  constructor <;> simp only [withBuffer, h]

theorem withBuffer_yields [Reports ε] {m : Action Buffer ε α} {c : Buffer}
    (h : r.entry? handle = some ⟨handle, b, false⟩) (hm : m.Yields b result c) :
    (withBuffer handle m).Yields r result (r.replaced handle c (isBroken result)) := by
  have hy := withBuffer_present m h
  rwa [hm.result, hm.state] at hy

/-- What succeeds on the buffer of a handle has found a buffer. -/
theorem ok_of_withBuffer [Reports ε] {m : Action Buffer ε α}
    (h : (withBuffer handle m r).result = .ok a) :
    ∃ b, r.entry? handle = some ⟨handle, b, false⟩ ∧ (m b).result = .ok a := by
  cases he : r.entry? handle with
  | none => cases (withBuffer_absent m he).result.symm.trans h
  | some e =>
    obtain ⟨x, b, poisoned⟩ := e
    obtain rfl : x = handle := handle_of_entry he
    cases poisoned with
    | true => cases (withBuffer_poisoned m he).result.symm.trans h
    | false => exact ⟨b, rfl, (withBuffer_present m he).result.symm.trans h⟩

/-- The rules and the handles of a registry are given, and all its buffers have `I`. -/
structure Houses (I : Buffer → Prop) (rules : Rules) (next : UInt64) (handles : List UInt64)
    (r : Registry) : Prop where
  rules : r.rules = rules
  next : r.nextHandle = next
  handles : r.handles = handles
  every : ∀ e ∈ r.live, I e.buffer

variable {I : Buffer → Prop} {allowed : Fault → Prop} {rules : Rules} {next : UInt64}
  {handles : List UInt64}

theorem Houses.replaced (h : Houses I rules next handles r) (hb : I b) (poisoned : Bool) :
    Houses I rules next handles (r.replaced handle b poisoned) where
  rules := h.rules
  next := h.next
  handles := (handles_replaced b poisoned).trans h.handles
  every e he := by
    obtain ⟨d, hd, rfl⟩ := List.mem_map.mp he
    split
    · exact hb
    · exact h.every d hd

theorem withBuffer_within [Reports ε] {m : Action Buffer ε α} (hm : Within I allowed m)
    (handle : UInt64) : Within (Houses I rules next handles) allowed (withBuffer handle m) := by
  intro r h
  cases he : r.entry? handle with
  | none => exact (withBuffer_absent m he).ends_refused h
  | some e =>
    obtain ⟨x, b, poisoned⟩ := e
    obtain rfl : x = handle := handle_of_entry he
    cases poisoned with
    | true => exact (withBuffer_poisoned m he).ends_refused h
    | false =>
      have hy := withBuffer_present m he
      obtain ⟨hb, hfault⟩ := hm b (h.every _ (List.mem_of_find?_eq_some he))
      refine ⟨?_, fun f hf => hfault f (hy.result.symm.trans hf)⟩
      rw [hy.state]
      exact h.replaced hb _

/-- What the operations on buffers keep of each of them, and the faults that they may end in. -/
structure Upheld (I : Buffer → Prop) (allowed : Fault → Prop) (rules : Buffer.Rules) : Prop where
  empty : I (Buffer.empty rules)
  next : ∀ wanted, Within I allowed (Buffer.next wanted)
  put : ∀ item, Within I allowed (Buffer.put item)
  putArray : ∀ bytes offset length, Within I allowed (Buffer.putArray bytes offset length)
  available : Within I allowed (Buffer.available (ε := Error))
  resize : ∀ n, Within I allowed (Buffer.resize n)
  seek : ∀ p, Within I allowed (Buffer.seek p)
  reserve : ∀ n, Within I allowed (Buffer.reserve n)
  clear : Within I allowed (Buffer.clear (ε := Error))
  copy : ∀ offset length, Within I allowed (inspect (Buffer.copy · offset length))
  paste : ∀ b s offset length, I b → b.copy offset length = .ok s → Within I allowed (Buffer.paste s)
  encode : Within I allowed Buffer.encode
  decode : ∀ bytes, Within I allowed (Buffer.decode rules bytes)
  decoded : ∀ bytes (t b : Buffer), (Buffer.decode rules bytes t).result = .ok b → I b

theorem lookup_within (handle : UInt64) :
    Within (Houses I rules next handles) allowed (lookup handle) :=
  (within_gets _).andThen fun _ => within_ite _ (within_refuse _) (within_pure _)

theorem checkPayload_within (bytes : List UInt8) :
    Within (Houses I rules next handles) allowed (Command.checkPayload bytes) :=
  within_ite _ (within_refuse _) (within_pure _)

/-- A registry that has given out every handle it could refuses, and stays as it was. -/
theorem create_exhausted (h : r.nextHandle = lastHandle) :
    create.Yields r (.error (.refused
      (.outOfBounds .nextHandle lastHandle.toNat (lastHandle.toNat - 1)))) r := by
  refine (yields_get r).bind ?_
  dsimp only
  rw [if_pos h, h]
  exact yields_refuse _ r

/-- The registry with an empty buffer under the next handle. -/
def created (r : Registry) : Registry :=
  { r with
    nextHandle := r.nextHandle + 1
    live := r.live ++ [⟨r.nextHandle, Buffer.empty r.rules.buffers, false⟩] }

theorem handles_created (r : Registry) : r.created.handles = r.handles ++ [r.nextHandle] :=
  List.map_append

theorem create_yields (h : r.nextHandle ≠ lastHandle) :
    create.Yields r (.ok r.nextHandle) r.created := by
  refine (yields_get r).bind ?_
  dsimp only
  rw [if_neg h]
  exact (yields_modify _ r).bind ((yields_emit _ _).bind (yields_pure _ _))

theorem entry?_created (h : r.nextHandle ∉ r.handles) :
    r.created.entry? x =
      if x = r.nextHandle then some ⟨x, Buffer.empty r.rules.buffers, false⟩ else r.entry? x := by
  have happend : r.created.entry? x = (r.entry? x).or
      (if r.nextHandle = x then some ⟨r.nextHandle, Buffer.empty r.rules.buffers, false⟩ else none) := by
    unfold created entry?
    rw [List.find?_append, List.find?_singleton]
    simp only [decide_eq_true_eq]
  rw [happend]
  by_cases hx : x = r.nextHandle
  · rw [if_pos hx, if_pos hx.symm, hx, entry?_eq_none.mpr h, Option.none_or]
  · rw [if_neg hx, if_neg (fun he => hx he.symm), Option.or_none]

theorem Houses.created (h : Houses I rules next handles r) (hI : I (Buffer.empty rules.buffers)) :
    Houses I rules (next + 1) (handles ++ [next]) r.created where
  rules := h.rules
  next := congrArg (· + 1) h.next
  handles := by
    rw [handles_created, h.handles, h.next]
  every e he := by
    rcases List.mem_append.mp he with he | he
    · exact h.every e he
    · obtain rfl := List.mem_singleton.mp he
      exact h.rules ▸ hI

theorem destroy_yields (h : handle ∈ r.handles) :
    (destroy handle).Yields r (.ok ()) (r.without handle) := by
  refine (yields_get r).bind ?_
  rw [if_pos (contains_iff.mpr h)]
  exact (yields_modify _ r).bind (yields_emit _ _)

/-- What comes of destroying what is not there. -/
def strayDestroy (handle : UInt64) : Strictness → Except (Failure Error) Unit
  | .strict => .error (.refused (.handleNotFound handle))
  | .lenient => .ok ()

theorem destroy_stray (h : handle ∉ r.handles) :
    (destroy handle).Yields r (strayDestroy handle r.rules.strictness) r := by
  refine (yields_get r).bind ?_
  rw [if_neg (fun hc => h (contains_iff.mp hc))]
  cases r.rules.strictness with
  | strict => exact yields_refuse _ r
  | lenient => exact yields_emit _ r

theorem Houses.without (h : Houses I rules next handles r) :
    Houses I rules next (handles.filter (· ≠ handle)) (r.without handle) where
  rules := h.rules
  next := h.next
  handles := handles_without.trans (h.handles ▸ rfl)
  every e he := h.every e (List.mem_filter.mp he).1

theorem lookup_yields (h : handle ∈ r.handles) : (lookup handle).Yields r (.ok ()) r := by
  refine (yields_gets _ r).bind ?_
  rw [if_neg (by rw [contains_iff]; exact not_not_intro h)]
  exact yields_pure () r

theorem lookup_absent (h : handle ∉ r.handles) :
    (lookup handle).Yields r (.error (.refused (.handleNotFound handle))) r := by
  refine (yields_gets _ r).bind ?_
  rw [if_pos (by rwa [contains_iff])]
  exact yields_refuse _ r

end Parcel.Registry
