import Parcel.Proofs.Requests

/-!
What requests are woven of. All but three kinds of them come to buffers only by holding them one at a
time, and by copying out of one for an append before the other is held. What this makes of a registry is
told by induction on how an action is put together.
-/
namespace Parcel
open Parcel.Action

/-- The handle whose buffer a command copies out of. -/
def Command.source : Command → Option UInt64
  | .append source _ _ => some source
  | _ => none

namespace Registry

/-- The handle whose buffer a request holds. -/
@[simp] def Request.holds : Request → Option UInt64
  | create | lookup _ | destroy _ => none
  | hold handle _ | append handle _ _ _ | encode handle | decode handle _ _ _ | perform handle _
  | batch handle _ => some handle

/-- The handles whose buffers a request copies out of. -/
@[simp] def Request.sources : Request → List UInt64
  | append _ source _ _ => [source]
  | perform _ command => command.source.toList
  | batch _ commands => commands.filterMap Command.source
  | _ => []

/-- Actions on a registry with these rules that hold and copy out of certain buffers only, and that keep
`I` of those they hold. -/
inductive Woven (I : Buffer → Prop) (allowed : Fault → Prop) (rules : Buffer.Rules)
    (held seen : UInt64 → Prop) : {ε α : Type} → Action Registry ε α → Prop
  | done (a : α) : Woven I allowed rules held seen (pure a : Action Registry ε α)
  | refused (e : ε) : Woven I allowed rules held seen (refuse e : Action Registry ε α)
  | told (event : Event) : Woven I allowed rules held seen (emit event : Action Registry ε Unit)
  | ruled {f : Buffer.Rules → Action Registry ε α} (h : Woven I allowed rules held seen (f rules)) :
    Woven I allowed rules held seen (gets (·.rules.buffers) >>= f)
  | hold [Reports ε] {m : Action Buffer ε α} (h : held handle) (hm : Within I allowed m) :
    Woven I allowed rules held seen (withBuffer handle m)
  | appended (h : held handle) (hs : seen source) (offset length : Nat) :
    Woven I allowed rules held seen (append handle source offset length)
  | andThen {m : Action Registry ε α} {f : α → Action Registry ε β}
    (hm : Woven I allowed rules held seen m) (hf : ∀ a, Woven I allowed rules held seen (f a)) :
    Woven I allowed rules held seen (m >>= f)
  | mapError {m : Action Registry ε α} (hm : Woven I allowed rules held seen m) (g : ε → ε') :
    Woven I allowed rules held seen (m.mapError g)
  | attempt {m : Action Registry ε α} (hm : Woven I allowed rules held seen m) :
    Woven I allowed rules held seen (m.attempt : Action Registry ε' _)

variable {I : Buffer → Prop} {allowed : Fault → Prop} {rules : Buffer.Rules} {held seen : UInt64 → Prop}
  {handle : UInt64}

theorem Woven.map {m : Action Registry ε α} (h : Woven I allowed rules held seen m) (f : α → β) :
    Woven I allowed rules held seen (f <$> m) :=
  h.andThen fun a => .done (f a)

theorem checkPayload_woven (bytes : List UInt8) :
    Woven I allowed rules held seen (Command.checkPayload bytes) := by
  unfold Command.checkPayload
  split
  · exact .refused _
  · exact .done _

section
variable (h : Upheld I allowed rules) (hx : held handle)
include hx

theorem onBuffer_woven {m : Action Buffer Error α} (hm : Within I allowed m) :
    Woven I allowed rules held seen (onBuffer handle m) :=
  (Woven.hold hx hm).mapError _

include h

theorem decode_woven (bytes : List UInt8) (offset length : Nat) :
    Woven I allowed rules held seen (decode handle bytes offset length) := by
  unfold decode
  split
  · exact .refused _
  · refine .ruled (.hold hx ((h.decode _).bind fun t b _ hb => ?_))
    exact (within_modify fun _ _ => h.decoded _ t b hb).andThen fun _ => within_emit _

theorem putWhole_woven (bytes : Option (List UInt8)) :
    Woven I allowed rules held seen (putWhole handle bytes) :=
  (checkPayload_woven _).andThen fun _ => onBuffer_woven hx (h.putArray _ _ _)

theorem readOutcome_woven (wanted : Tag) :
    Woven I allowed rules held seen (readOutcome handle wanted) := by
  have hread := Buffer.readOr_within h.next (Value.zero wanted) wanted
  cases wanted with
  | byteArray => exact (onBuffer_woven hx (Buffer.readArray_within h.next)).map _
  | byte | int | long | float | double | string | binder => exact (onBuffer_woven hx hread).map _

omit hx in
theorem measure_within (what : Measure) : Within I allowed (what.take (ε := Error)) := by
  cases what with
  | available => exact h.available
  | size | position | capacity => exact within_gets _

theorem perform_woven (command : Command) (hs : ∀ source, command.source = some source → seen source) :
    Woven I allowed rules held seen (perform handle command) := by
  have hdone {m : Action Registry Command.Error Unit} (hm : Woven I allowed rules held seen m) :
      Woven I allowed rules held seen (do m; pure Outcome.done) :=
    hm.andThen fun _ => .done _
  cases command with
  | put item =>
    have hput := hdone (onBuffer_woven hx (h.put item))
    cases item with
    | array bytes => exact hdone (putWhole_woven h hx bytes)
    | byte | int | long | float | double | string | binder | token => exact hput
  | putBlob bytes => exact hdone (putWhole_woven h hx bytes)
  | read wanted => exact readOutcome_woven h hx wanted
  | readBlob => exact readOutcome_woven h hx .byteArray
  | enforce interface => exact hdone (onBuffer_woven hx (Buffer.enforce_within h.next interface))
  | measure what => exact (onBuffer_woven hx (measure_within h what)).map _
  | resize size => exact hdone (onBuffer_woven hx (h.resize size))
  | seek position => exact hdone (onBuffer_woven hx (h.seek position))
  | reserve capacity => exact hdone (onBuffer_woven hx (h.reserve capacity))
  | append source offset length =>
    exact hdone ((Woven.appended hx (hs source rfl) offset length).mapError _)
  | encode => exact ((Woven.hold hx h.encode).mapError _).map _
  | decode bytes =>
    refine (checkPayload_woven bytes).andThen fun _ => hdone ?_
    exact (decode_woven h hx bytes 0 bytes.length).mapError _
  | clear => exact hdone (onBuffer_woven hx h.clear)

theorem batchFrom_woven (index : Nat) (commands : List Command)
    (hs : ∀ source ∈ commands.filterMap Command.source, seen source) :
    Woven I allowed rules held seen (batchFrom (ε := ε) handle index commands) := by
  induction commands generalizing index with
  | nil => exact .done _
  | cons command commands ih =>
    have hfirst (source : UInt64) (he : command.source = some source) : seen source :=
      hs source (List.mem_filterMap.mpr ⟨command, List.mem_cons_self, he⟩)
    have hrest : ∀ source ∈ commands.filterMap Command.source, seen source := fun source hm => by
      obtain ⟨c, hc, he⟩ := List.mem_filterMap.mp hm
      exact hs source (List.mem_filterMap.mpr ⟨c, List.mem_cons_of_mem _ hc, he⟩)
    refine (perform_woven h hx command hfirst).attempt.andThen fun outcome => ?_
    cases outcome with
    | ok outcome => exact (ih (index + 1) hrest).map _
    | error error => exact (Woven.told _).andThen fun _ => .done _

end

/-- A request holds its buffer and copies out of its sources, and comes to no other. -/
theorem Request.woven (h : Upheld I allowed rules) (q : Request)
    (hq : ∀ handle m, q = .hold handle m → Within I allowed m) (hx : q.holds = some handle)
    (hheld : held handle) (hs : ∀ source ∈ q.sources, seen source) :
    Woven I allowed rules held seen q.run := by
  cases q with
  | create | lookup | destroy => cases hx
  | hold _ m =>
    cases hx
    exact (Woven.hold hheld (hq handle m rfl)).map _
  | append x source offset length =>
    cases hx
    exact ((Woven.appended hheld (hs source List.mem_cons_self) offset length).mapError _).map _
  | encode x =>
    cases hx
    exact ((Woven.hold hheld h.encode).mapError _).map _
  | decode x bytes offset length =>
    cases hx
    exact ((decode_woven h hheld bytes offset length).mapError _).map _
  | perform x command =>
    cases hx
    exact (perform_woven h hheld command fun _ he => hs _ (Option.mem_toList.mpr he)).map _
  | batch x commands =>
    cases hx
    exact (batchFrom_woven h hheld 0 commands hs).map _

section
variable {rules : Rules} {next : UInt64} {handles : List UInt64}
  (h : Upheld I allowed rules.buffers)
include h

theorem append_within (handle source : UInt64) (offset length : Nat) :
    Within (Houses I rules next handles) allowed (append handle source offset length) := by
  refine (withBuffer_within (h.copy offset length) source).bind fun r s hr hs => ?_
  obtain ⟨b, he, hb⟩ := ok_of_withBuffer hs
  have hI : I b := hr.every _ (List.mem_of_find?_eq_some he)
  exact withBuffer_within (h.paste b s offset length hI hb) handle

/-- What is kept of each buffer is kept of all. -/
theorem Woven.within {m : Action Registry ε α} (hm : Woven I allowed rules.buffers held seen m) :
    Within (Houses I rules next handles) allowed m := by
  induction hm with
  | done a => exact within_pure a
  | refused e => exact within_refuse e
  | told event => exact within_emit event
  | ruled _ ih =>
    refine (within_gets _).bind fun r buffers hr hb => ?_
    obtain rfl : r.rules.buffers = buffers := Except.ok.inj hb
    rwa [hr.rules]
  | hold _ hm => exact withBuffer_within hm _
  | appended _ _ offset length => exact append_within h _ _ offset length
  | andThen _ _ hm hf => exact hm.andThen hf
  | mapError _ g ih => exact ih.mapError g
  | attempt _ ih => exact ih.attempt

/-- A request that neither creates nor destroys leaves the handles alone. -/
theorem Request.within (q : Request) (hq : ∀ handle m, q = .hold handle m → Within I allowed m)
    (hcreate : q ≠ .create) (hdestroy : ∀ handle, q ≠ .destroy handle) :
    Within (Houses I rules next handles) allowed q.run := by
  have hholds (handle : UInt64) (hx : q.holds = some handle) :
      Within (Houses I rules next handles) allowed q.run := by
    have hw : Woven I allowed rules.buffers (fun _ => True) (fun _ => True) q.run :=
      q.woven h hq hx trivial fun _ _ => trivial
    exact hw.within h
  cases q with
  | create => exact absurd rfl hcreate
  | destroy handle => exact absurd rfl (hdestroy handle)
  | lookup handle => exact ((lookup_within handle).mapError _).map _
  | hold | append | encode | decode | perform | batch => exact hholds _ rfl

end

end Registry

end Parcel
