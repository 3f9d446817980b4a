import Mathlib.Data.List.Nodup
import Parcel.Proofs.Faults
import Parcel.Proofs.Handles

/-!
Bytes in the place of a buffer. They become all of its content, whatever it held before, or nothing
changes at all.
-/
namespace Parcel.Registry
open Parcel.Action

variable {r : Registry} {handle : UInt64} {b c : Buffer} {bytes : List UInt8} {offset length : Nat}

theorem replaced_replaced (r : Registry) (handle : UInt64) (b c : Buffer) (p q : Bool) :
    (r.replaced handle b p).replaced handle c q = r.replaced handle c q := by
  unfold replaced
  rw [List.map_map]
  refine congrArg (Registry.mk _ _) (List.map_congr_left fun e _ => ?_)
  by_cases he : e.handle = handle <;> simp [he]

theorem nodup_after {rules : Rules} (h : new rules = .ok r) (requests : List Request) :
    (after r requests).handles.Nodup := by
  obtain ⟨rfl, h0⟩ := new_ok h
  have hrecalls := (recalls_empty rules).run requests
  have hrising := (List.pairwise_cons.mp (hrecalls.rising h0)).2.sublist hrecalls.sublist
  exact hrising.imp UInt64.ne_of_lt

theorem replaced_self (hd : r.handles.Nodup) (he : r.entry? handle = some ⟨handle, b, p⟩) :
    r.replaced handle b p = r := by
  have hsame : r.live.map (fun e => if e.handle = handle then { e with buffer := b, poisoned := p } else e)
      = r.live := by
    refine (List.map_congr_left fun e hm => ?_).trans (List.map_id _)
    split
    case isFalse => rfl
    case isTrue hh =>
      rw [List.inj_on_of_nodup_map hd hm (List.mem_of_find?_eq_some he) hh]
      rfl
  unfold replaced
  rw [hsame]

theorem decode_outside (h : bytes.length < offset + length) :
    (decode handle bytes offset length).Yields r (.error (.refused
      (.buffer (.outOfBounds .decodeRangeEnd (offset + length) bytes.length)))) r := by
  unfold decode Bytes.slice?
  rw [if_neg (Nat.not_le.mpr h)]
  exact yields_refuse _ r

def part (bytes : List UInt8) (offset length : Nat) : List UInt8 :=
  (bytes.drop offset).take length

theorem decode_replaced (hin : offset + length ≤ bytes.length)
    (he : r.entry? handle = some ⟨handle, b, false⟩)
    (h : (Buffer.decode r.rules.buffers (part bytes offset length)).Yields () (.ok c) ()) :
    (decode handle bytes offset length).Yields r (.ok ()) (r.replaced handle c false) := by
  unfold decode Bytes.slice?
  rw [if_pos hin]
  refine (yields_gets _ r).bind (withBuffer_yields he ?_)
  exact (Buffer.decode_anywhere h b).bind ((yields_modify _ b).bind (yields_emit _ c))

/-- What is refused and leaves the buffer as it was leaves the registry as it was. -/
theorem withBuffer_refused [Reports ε] {m : Action Buffer ε α} (hd : r.handles.Nodup)
    (he : r.entry? handle = some ⟨handle, b, false⟩) (h : m.Yields b (.error (.refused e)) b) :
    (withBuffer handle m).Yields r (.error (.refused e)) r := by
  have hy := withBuffer_yields he h
  rwa [isBroken_eq_false.mpr (unbroken_refused e), replaced_self hd he] at hy

theorem decode_refused (hin : offset + length ≤ bytes.length) (hd : r.handles.Nodup)
    (he : r.entry? handle = some ⟨handle, b, false⟩)
    (h : (Buffer.decode r.rules.buffers (part bytes offset length)).Yields () (.error (.refused e)) ()) :
    (decode handle bytes offset length).Yields r (.error (.refused e)) r := by
  unfold decode Bytes.slice?
  rw [if_pos hin]
  exact (yields_gets _ r).bind (withBuffer_refused hd he (Buffer.decode_anywhere h b).stop)

/-- What bytes make of the buffer of a handle. -/
structure Replaces (handle : UInt64) (bytes : List UInt8) (offset length : Nat) (r : Registry)
    (result : Except (Failure Marshal.Error) Unit) (s : Registry) : Prop where
  /-- It is refused as out of bounds exactly for bytes that are not there. -/
  bounds : (∃ what value limit, result = .error (.refused (.buffer (.outOfBounds what value limit)))) ↔
    bytes.length < offset + length
  outside : bytes.length < offset + length → result = .error (.refused
    (.buffer (.outOfBounds .decodeRangeEnd (offset + length) bytes.length)))
  /-- All else is up to the bytes. -/
  inside : offset + length ≤ bytes.length → result =
    (Buffer.decode (σ := Unit) r.rules.buffers (part bytes offset length) ()).result.map fun _ => ()
  /-- What fails changes nothing. -/
  kept : ∀ e, result = .error e → s = r
  /-- What succeeds leaves what the bytes stand for, and that is written as they are. -/
  replaced : result = .ok () → ∃ c,
    (Buffer.decode (σ := Unit) r.rules.buffers (part bytes offset length) ()).result = .ok c ∧
    s = r.replaced handle c false ∧ (encode handle).Yields s (.ok (part bytes offset length)) s
  /-- What was there before does not matter. -/
  forgets : ∀ b, ∃ t, (decode handle bytes offset length).Yields (r.replaced handle b false) result t ∧
    (result = .ok () → t = s)

theorem entry?_replaced_self (he : r.entry? handle = some ⟨handle, b, false⟩) (c : Buffer) :
    entry? (r.replaced handle c false) handle = some ⟨handle, c, false⟩ := by
  rw [entry?_replaced (by rw [he]; rfl), if_pos rfl]

theorem nodup_replaced (hd : r.handles.Nodup) (c : Buffer) (p : Bool) :
    (r.replaced handle c p).handles.Nodup := by
  rwa [handles_replaced]

theorem replaces_outside (h : bytes.length < offset + length) :
    Replaces handle bytes offset length r (.error (.refused
      (.buffer (.outOfBounds .decodeRangeEnd (offset + length) bytes.length)))) r where
  bounds := iff_of_true ⟨_, _, _, rfl⟩ h
  outside _ := rfl
  inside hin := absurd h (Nat.not_lt.mpr hin)
  kept _ _ := rfl
  replaced hr := by cases hr
  forgets _ := ⟨_, decode_outside h, fun hr => by cases hr⟩

theorem unfit_ne_outOfBounds {rules : Buffer.Rules} {e : Marshal.Error} (h : Buffer.Unfit rules e) :
    e ≠ .buffer (.outOfBounds what value limit) := by
  rintro rfl
  rcases h with h | ⟨requested, h⟩
  · exact h
  · cases h

theorem replaces_refused (hin : offset + length ≤ bytes.length) (hd : r.handles.Nodup)
    (he : r.entry? handle = some ⟨handle, b, false⟩) (hunfit : Buffer.Unfit r.rules.buffers e)
    (h : (Buffer.decode r.rules.buffers (part bytes offset length)).Yields () (.error (.refused e)) ()) :
    Replaces handle bytes offset length r (.error (.refused e)) r where
  bounds := by
    refine iff_of_false ?_ (Nat.not_lt.mpr hin)
    rintro ⟨what, value, limit, hr⟩
    cases hr
    exact unfit_ne_outOfBounds hunfit rfl
  outside hout := absurd hin (Nat.not_le.mpr hout)
  inside _ := by
    rw [h.result]
    rfl
  kept _ _ := rfl
  replaced hr := by cases hr
  forgets c := ⟨_, decode_refused hin (nodup_replaced hd c false) (entry?_replaced_self he c) h,
    fun hr => by cases hr⟩

theorem replaces_replaced (hin : offset + length ≤ bytes.length)
    (he : r.entry? handle = some ⟨handle, b, false⟩)
    (hc : Buffer.encode.Yields c (.ok (part bytes offset length)) c)
    (h : (Buffer.decode r.rules.buffers (part bytes offset length)).Yields () (.ok c) ()) :
    Replaces handle bytes offset length r (.ok ()) (r.replaced handle c false) where
  bounds := by
    refine iff_of_false ?_ (Nat.not_lt.mpr hin)
    rintro ⟨what, value, limit, hr⟩
    cases hr
  outside hout := absurd hin (Nat.not_le.mpr hout)
  inside _ := by
    rw [h.result]
    rfl
  kept _ hr := by cases hr
  replaced _ := by
    refine ⟨c, h.result, rfl, ?_⟩
    have hy := withBuffer_yields (entry?_replaced_self he c) hc
    rwa [isBroken_eq_false.mpr (unbroken_ok _), replaced_replaced] at hy
  forgets b := by
    refine ⟨_, decode_replaced hin (entry?_replaced_self he b) h, fun _ => ?_⟩
    exact replaced_replaced r handle b c false false

/-- Bytes that are to take the place of a buffer do so as a whole or not at all. -/
theorem decode_replaces {rules : Rules} {start : Registry} (hnew : new rules = .ok start)
    (requests : List Request)
    (he : entry? (after start requests) handle = some ⟨handle, b, false⟩)
    (bytes : List UInt8) (offset length : Nat) :
    ∃ result s, (decode handle bytes offset length).Yields (after start requests) result s ∧
      Replaces handle bytes offset length (after start requests) result s := by
  have hd := nodup_after hnew requests
  by_cases hin : offset + length ≤ bytes.length
  · rcases Buffer.decode_outcome (after start requests).rules.buffers (part bytes offset length) () with
      ⟨c, h, hc⟩ | ⟨e, hunfit, h⟩
    · exact ⟨_, _, decode_replaced hin he h, replaces_replaced hin he hc h⟩
    · exact ⟨_, _, decode_refused hin hd he h, replaces_refused hin hd he hunfit h⟩
  · have hout := Nat.lt_of_not_le hin
    exact ⟨_, _, decode_outside hout, replaces_outside hout⟩

/-- Two ints for a buffer that has room for one: the second is refused, and the first is not there. -/
theorem decode_replaces_exceeding :
    let start := empty { buffers := { maxCapacity := 4 } }
    let r := after start [.create, .perform 1 (.put (.int 5))]
    let bytes : List UInt8 :=
      [9, 2, 0, 0, 0, 4, 0, 0, 0, 1, 7, 0, 0, 0, 4, 0, 0, 0, 1, 8, 0, 0, 0]
    r.handles = [1] ∧ ∃ s, s = r ∧
      (decode 1 bytes 1 22).Yields r (.error (.refused (.buffer (.capacityExceeded 8 4)))) s := by
  intro start r bytes
  have hnew : new start.rules = .ok start := rfl
  have he : r.entry? 1 =
      some ⟨1, (Buffer.put (.int 5) (Buffer.empty start.rules.buffers)).state, false⟩ := by decide
  obtain ⟨result, s, hy, h⟩ := decode_replaces hnew _ he bytes 1 22
  have hresult : result = .error (.refused (.buffer (.capacityExceeded 8 4))) := by
    rw [← hy.result]
    decide
  exact ⟨by decide, s, h.kept _ hresult, hresult ▸ hy⟩

end Parcel.Registry
