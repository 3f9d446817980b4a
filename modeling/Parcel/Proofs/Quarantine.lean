import Parcel.Proofs.Batches
import Parcel.Proofs.Framing

/-!
A poisoned buffer in quarantine. Whatever comes to it is refused and changes nothing, while its handle is
there as any other. What is found wrong before the buffer is held is what is reported: bytes that are not
there, a payload that is too long, or a source that has something against an append by itself.
-/
namespace Parcel
open Parcel.Action

/-- The bytes that a command brings along. -/
def Command.payload : Command → List UInt8
  | .put (.array bytes) | .putBlob bytes => bytes.getD []
  | .decode bytes => bytes
  | _ => []

namespace Registry

variable {rules : Buffer.Rules} {r p t : Registry} {handle x source : UInt64} {b c : Buffer}

/-- What an append to a poisoned buffer is refused for: what its source has against it, if anything. -/
def exportRefusal (t : Registry) (source : UInt64) (offset length : Nat) : Error :=
  match t.entry? source with
  | none => .handleNotFound source
  | some ⟨_, _, true⟩ => .poisoned
  | some ⟨_, b, false⟩ =>
    if b.capacity < offset + length then .outOfBounds .appendRangeEnd (offset + length) b.capacity
    else .poisoned

/-- What a command on a poisoned buffer is refused for. -/
def commandRefusal (t : Registry) (command : Command) : Command.Error :=
  if Size.largest < command.payload.length then
    .buffer (.outOfBounds .payloadLength command.payload.length Size.largest)
  else
    match command with
    | .append source offset length => .buffer (exportRefusal t source offset length)
    | .encode | .decode _ => .marshal (.buffer .poisoned)
    | _ => .buffer .poisoned

/-- The handle is there, but nobody gets to what is under it. -/
structure Barred (t : Registry) (x : UInt64) : Prop where
  listed : x ∈ t.handles
  contains : t.contains x = true
  lookup : (lookup x).Yields t (.ok ()) t
  destroy : (destroy x).Yields t (.ok ()) (t.without x)
  hold : ∀ {ε α : Type} [Reports ε] (m : Action Buffer ε α),
    (withBuffer x m).Yields t (.error (.refused (Reports.report .poisoned))) t
  encode : (encode x).Yields t (.error (.refused (.buffer .poisoned))) t
  decode : ∀ bytes offset length, offset + length ≤ bytes.length →
    (decode x bytes offset length).Yields t (.error (.refused (.buffer .poisoned))) t
  /-- Which bytes there are is found out before the buffer is held. -/
  decodeOutside : ∀ bytes offset length, bytes.length < offset + length →
    (Registry.decode x bytes offset length).Yields t (.error (.refused
      (.buffer (.outOfBounds .decodeRangeEnd (offset + length) bytes.length)))) t
  source : ∀ handle offset length,
    (append handle x offset length).Yields t (.error (.refused .poisoned)) t
  target : ∀ source offset length, (append x source offset length).Yields t
    (.error (.refused (exportRefusal t source offset length))) t
  perform : ∀ command, (perform x command).Yields t (.error (.refused (commandRefusal t command))) t
  performSource : ∀ handle offset length, (Registry.perform handle (.append x offset length)).Yields t
    (.error (.refused (.buffer .poisoned))) t
  batch : ∀ (ε : Type) (command : Command) (commands : List Command),
    (batch (ε := ε) x (command :: commands)).Yields t
      (.ok [⟨0, (commandRefusal t command).status, none, some (commandRefusal t command).message⟩]) t
  /-- A batch on another buffer ends where it wants to append from this one. -/
  batchSource : ∀ (ε : Type) (front rest : List Command) (offset length : Nat) {handle : UInt64}
    {rs : List Receipt} {u : Registry}, handle ≠ x →
    (Registry.batch (ε := ε) handle front).Yields t (.ok rs) u → Clean rs →
    (Registry.batch (ε := ε) handle (front ++ .append x offset length :: rest)).Yields t
      (.ok (rs ++ [⟨front.length, .internalError, none, some Error.poisoned.message⟩])) u
  status : ∀ command, command.payload.length ≤ Size.largest →
    (∀ source offset length, command = .append source offset length →
      exportRefusal t source offset length = .poisoned) →
    (commandRefusal t command).status = .internalError

section
variable (he : t.entry? x = some ⟨x, b, true⟩)
include he

theorem append_from_poisoned (handle : UInt64) (offset length : Nat) :
    (append handle x offset length).Yields t (.error (.refused .poisoned)) t :=
  (withBuffer_poisoned _ he).stop

theorem perform_from_poisoned (handle : UInt64) (offset length : Nat) :
    (perform handle (.append x offset length)).Yields t (.error (.refused (.buffer .poisoned))) t :=
  ((append_from_poisoned he handle offset length).mapError Command.Error.buffer).stop

theorem OneByOne.batch_poisoned {front : List Command} {outcomes : List Outcome} {rs : List Receipt}
    (h : OneByOne handle r front outcomes none t) (hrs : receipts (ε := ε) 0 outcomes none = .ok rs)
    (offset length : Nat) (rest : List Command) :
    (Registry.batch (ε := ε) handle (front ++ .append x offset length :: rest)).Yields r
      (.ok (rs ++ [⟨front.length, .internalError, none, some Error.poisoned.message⟩])) t := by
  have hstop : OneByOne handle t (.append x offset length :: rest) []
      (some (.refused (.buffer .poisoned))) t := .stop (perform_from_poisoned he handle offset length)
  have hy := (h.append_done hstop).batch (ε := ε)
  rwa [receipts_append 0 outcomes [] hrs, Nat.zero_add, h.length_eq] at hy

/-- Commands on other buffers leave the poison where it is. -/
theorem batch_leaves_poisoned (ht : t.Sane) (hne : handle ≠ x) (commands : List Command) :
    (batch (ε := ε) handle commands t).state.entry? x = some ⟨x, b, true⟩ := by
  have hw : Woven Buffer.Sound (fun _ => True) t.rules.buffers (· = handle) (fun _ => True)
      (batchFrom (ε := ε) handle 0 commands) := by
    apply batchFrom_woven (Buffer.upheld_sound _)
    · rfl
    · exact fun _ _ => trivial
  rcases (hw.near t ⟨ht, .inl rfl⟩).state.2 with hs | ⟨c, q, hs⟩
  · rw [batch, hs, he]
  · rw [batch, hs, entry?_replaced_ne hne.symm, he]

theorem batch_from_poisoned (ht : t.Sane) (hne : handle ≠ x) {front : List Command} {rs : List Receipt}
    {u : Registry} (hy : (batch (ε := ε) handle front).Yields t (.ok rs) u) (hclean : Clean rs)
    (offset length : Nat) (rest : List Command) :
    (batch (ε := ε) handle (front ++ .append x offset length :: rest)).Yields t
      (.ok (rs ++ [⟨front.length, .internalError, none, some Error.poisoned.message⟩])) u := by
  obtain ⟨outcomes, stop, u', hone⟩ := exists_oneByOne handle t front
  have hfront := hone.batch (ε := ε)
  have hrs := hfront.result.symm.trans hy.result
  obtain rfl := (receipts_clean hrs).mp hclean
  obtain rfl : u' = u := hfront.state.symm.trans hy.state
  have hu := batch_leaves_poisoned (ε := ε) he ht hne front
  rw [hy.state] at hu
  exact hone.batch_poisoned hu hrs offset length rest

theorem append_to_poisoned (ht : t.Sane) (source : UInt64) (offset length : Nat) :
    (append x source offset length).Yields t
      (.error (.refused (exportRefusal t source offset length))) t := by
  have hpaste (s : Segment) := withBuffer_poisoned (Buffer.paste s) he
  unfold exportRefusal
  cases hs : t.entry? source with
  | none => exact (withBuffer_absent _ hs).stop
  | some e =>
    obtain ⟨y, c, q⟩ := e
    obtain rfl : y = source := handle_of_entry hs
    cases q with
    | true => exact (withBuffer_poisoned _ hs).stop
    | false =>
      obtain ⟨result, hy, -⟩ := ht.copied y offset length
      have hresult : result = c.copy offset length :=
        hy.result.symm.trans (withBuffer_present _ hs).result
      dsimp only
      split
      case isTrue hlt =>
        rw [hresult, Buffer.copy_refused hlt] at hy
        exact hy.stop
      case isFalse hle =>
        obtain ⟨s, hc, -⟩ := Buffer.copy_matches (ht.buffer hs) (Nat.le_of_not_lt hle)
        rw [hresult, hc] at hy
        exact hy.bind (hpaste s)

theorem decode_poisoned (bytes : List UInt8) {offset length : Nat} (h : offset + length ≤ bytes.length) :
    (decode x bytes offset length).Yields t (.error (.refused (.buffer .poisoned))) t := by
  unfold decode Bytes.slice?
  rw [if_pos h]
  exact (yields_gets _ t).bind (withBuffer_poisoned _ he)

omit he in
theorem checkPayload_yields {bytes : List UInt8} (h : bytes.length ≤ Size.largest) (t : Registry) :
    (Command.checkPayload bytes).Yields t (.ok ()) t := by
  unfold Command.checkPayload
  rw [if_neg (Nat.not_lt.mpr h)]
  exact yields_pure () t

omit he in
theorem checkPayload_refused {bytes : List UInt8} (h : Size.largest < bytes.length) (t : Registry) :
    (Command.checkPayload bytes).Yields t
      (.error (.refused (.buffer (.outOfBounds .payloadLength bytes.length Size.largest)))) t := by
  unfold Command.checkPayload
  rw [if_pos h]
  exact yields_refuse _ t

/-- A payload that is too long is refused first. -/
theorem perform_poisoned (ht : t.Sane) (command : Command) :
    (perform x command).Yields t (.error (.refused (commandRefusal t command))) t := by
  have hon {α : Type} (m : Action Buffer Error α) :
      (onBuffer x m).Yields t (.error (.refused (.buffer .poisoned))) t :=
    (withBuffer_poisoned m he).mapError Command.Error.buffer
  have hwhole (bytes : Option (List UInt8)) : (putWhole x bytes).Yields t (.error (.refused
      (commandRefusal t (.putBlob bytes)))) t := by
    unfold commandRefusal
    split
    case isTrue hlt => exact (checkPayload_refused hlt t).stop
    case isFalse hle => exact (checkPayload_yields (Nat.le_of_not_lt hle) t).bind (hon _)
  cases command with
  | put item =>
    cases item with
    | array bytes => exact (hwhole bytes).stop
    | byte | int | long | float | double | string | binder | token => exact (hon _).stop
  | putBlob bytes => exact (hwhole bytes).stop
  | read wanted => cases wanted <;> exact (hon _).map_stop _
  | readBlob | measure => exact (hon _).map_stop _
  | enforce | resize | seek | reserve | clear => exact (hon _).stop
  | append source offset length =>
    exact ((append_to_poisoned he ht source offset length).mapError Command.Error.buffer).stop
  | encode => exact ((withBuffer_poisoned _ he).mapError Command.Error.marshal).map_stop _
  | decode bytes =>
    unfold commandRefusal
    split
    case isTrue hlt => exact (checkPayload_refused hlt t).stop
    case isFalse hle =>
      have hdecode := decode_poisoned he bytes (Nat.le_of_eq (Nat.zero_add bytes.length))
      refine (checkPayload_yields (Nat.le_of_not_lt hle) t).bind ?_
      exact (hdecode.mapError Command.Error.marshal).stop

theorem barred_of_poisoned (ht : t.Sane) : Barred t x where
  listed := listed_of_entry he
  contains := contains_iff.mpr (listed_of_entry he)
  lookup := lookup_yields (listed_of_entry he)
  destroy := destroy_yields (listed_of_entry he)
  hold m := withBuffer_poisoned m he
  encode := withBuffer_poisoned _ he
  decode bytes _ _ := decode_poisoned he bytes
  decodeOutside _ _ _ := decode_outside
  source := append_from_poisoned he
  target := append_to_poisoned he ht
  perform := perform_poisoned he ht
  performSource := perform_from_poisoned he
  batch _ command _ :=
    (perform_poisoned he ht command).attempt.bind ((yields_emit _ t).bind (yields_pure _ t))
  batchSource _ _ rest offset length _ _ _ hne hy hclean :=
    batch_from_poisoned he ht hne hy hclean offset length rest
  status command hpayload hexport := by
    unfold commandRefusal
    rw [if_neg (Nat.not_lt.mpr hpayload)]
    cases command with
    | append source offset length =>
      dsimp only
      rw [hexport source offset length rfl]
      rfl
    | put | putBlob | read | readBlob | enforce | measure | resize | seek | reserve | encode | decode
    | clear => rfl

end

end Registry

end Parcel
