import Parcel.Proofs.Handles

/-!
A registry as a plain map of buffers that know nothing of each other. On a shelf every handle has a
buffer or none, and whatever is asked for a handle is what its buffer does when it is asked alone. A
registry without poisoned buffers mirrors a shelf, and no request tells them apart.
-/
namespace Parcel
open Parcel.Action
open Parcel.Registry (Request Reply Served lastHandle)

/-- Buffers by their handles, and the handle of the next. -/
structure Shelf where
  rules : Registry.Rules
  next : UInt64
  buffer : UInt64 → Option Buffer

namespace Shelf

def empty (rules : Registry.Rules) : Shelf :=
  ⟨rules, rules.firstHandle, fun _ => none⟩

/-- The shelf with a buffer, or none, under a handle. -/
def put (s : Shelf) (handle : UInt64) (b : Option Buffer) : Shelf :=
  { s with buffer := fun x => if x = handle then b else s.buffer x }

/-- Runs an action on the buffer of a handle and on nothing else. -/
def on [Reports ε] (handle : UInt64) (m : Action Buffer ε α) : Action Shelf ε α := fun s =>
  match s.buffer handle with
  | none => ⟨.error (.refused (Reports.report (.handleNotFound handle))), s, []⟩
  | some b =>
    match m b with
    | ⟨result, b', events⟩ => ⟨result, s.put handle (some b'), events⟩

/-- The shelf with an empty buffer under the next handle. -/
def created (s : Shelf) : Shelf :=
  { s with next := s.next + 1 }.put s.next (some (Buffer.empty s.rules.buffers))

def create : Action Shelf Error UInt64 := do
  let s ← get
  if s.next = lastHandle then refuse (.outOfBounds .nextHandle lastHandle.toNat (lastHandle.toNat - 1))
  else
    set s.created
    pure s.next

def lookup (handle : UInt64) : Action Shelf Error Unit := do
  match (← get).buffer handle with
  | none => refuse (.handleNotFound handle)
  | some _ => pure ()

def destroy (handle : UInt64) : Action Shelf Error Unit := do
  let s ← get
  match s.buffer handle, s.rules.strictness with
  | some _, _ => set (s.put handle none)
  | none, .strict => refuse (.handleNotFound handle)
  | none, .lenient => pure ()

/-- A copy out of one buffer, and if there is one, a paste into another or the same. -/
def append (handle source : UInt64) (offset length : Nat) : Action Shelf Error Unit := do
  let s ← on source (inspect (·.copy offset length))
  on handle (Buffer.paste s)

def encode (handle : UInt64) : Action Shelf Marshal.Error (List UInt8) :=
  on handle Buffer.encode

def decode (handle : UInt64) (bytes : List UInt8) (offset length : Nat) :
    Action Shelf Marshal.Error Unit :=
  if offset + length ≤ bytes.length then do
    let rules ← gets (·.rules.buffers)
    on handle (Buffer.decode rules ((bytes.drop offset).take length) >>= set)
  else refuse (.buffer (.outOfBounds .decodeRangeEnd (offset + length) bytes.length))

/-- Refuses bytes that are too many for a length. -/
def checkPayload (bytes : List UInt8) : Action Shelf Command.Error Unit :=
  if bytes.length ≤ Size.largest then pure ()
  else refuse (.buffer (.outOfBounds .payloadLength bytes.length Size.largest))

def putWhole (handle : UInt64) (bytes : Option (List UInt8)) : Action Shelf Command.Error Unit := do
  checkPayload (bytes.getD [])
  mapError .buffer (on handle (Buffer.putArray bytes 0 (bytes.getD []).length))

/-- What one buffer makes of a command. -/
def single (handle : UInt64) (m : Action Buffer Error Outcome) : Action Shelf Command.Error Outcome :=
  mapError .buffer (on handle m)

def done (_ : Unit) : Outcome := .done

def perform (handle : UInt64) : Command → Action Shelf Command.Error Outcome
  | .put (.array bytes) | .putBlob bytes => done <$> putWhole handle bytes
  | .put item => single handle (done <$> Buffer.put item)
  | .read .byteArray | .readBlob => single handle (.bytes <$> Buffer.readArray)
  | .read wanted => single handle (.value <$> Buffer.read wanted)
  | .enforce interface => single handle (done <$> Buffer.enforce interface)
  | .measure .size => single handle (.size <$> gets Buffer.size)
  | .measure .available => single handle (.size <$> Buffer.available)
  | .measure .position => single handle (.size <$> gets Buffer.position)
  | .measure .capacity => single handle (.size <$> gets Buffer.capacity)
  | .resize size => single handle (done <$> Buffer.resize size)
  | .seek position => single handle (done <$> Buffer.seek position)
  | .reserve capacity => single handle (done <$> Buffer.reserve capacity)
  | .clear => single handle (done <$> Buffer.clear)
  | .append source offset length => done <$> mapError .buffer (append handle source offset length)
  | .encode => .encoded <$> mapError .marshal (encode handle)
  | .decode bytes => do
    checkPayload bytes
    done <$> mapError .marshal (decode handle bytes 0 bytes.length)

/-- Commands one after the other, with a receipt for each, up to the first that is refused. -/
def batch (handle : UInt64) (index : Nat) : List Command → Action Shelf Command.Error (List Receipt)
  | [] => pure []
  | command :: commands => do
    match ← (perform handle command).attempt with
    | .ok outcome =>
      (⟨index, .ok, some outcome, none⟩ :: ·) <$> batch handle (index + 1) commands
    | .error error => pure [⟨index, error.status, none, some error.message⟩]

def serve : Request → Action Shelf Command.Error Reply
  | .create => .handle <$> mapError .buffer create
  | .lookup handle => (fun _ => .done) <$> mapError .buffer (lookup handle)
  | .destroy handle => (fun _ => .done) <$> mapError .buffer (destroy handle)
  | .hold handle m => .answer <$> on handle m
  | .append handle source offset length =>
    (fun _ => .done) <$> mapError .buffer (append handle source offset length)
  | .encode handle => .bytes <$> mapError .marshal (encode handle)
  | .decode handle bytes offset length =>
    (fun _ => .done) <$> mapError .marshal (decode handle bytes offset length)
  | .perform handle command => .outcome <$> perform handle command
  | .batch handle commands => .receipts <$> batch handle 0 commands

/-- The requests of a run, each with what came of it. -/
def served (s : Shelf) : List Request → List Served
  | [] => []
  | q :: requests => ⟨q, (serve q s).result⟩ :: served (serve q s).state requests

/-- The shelf behind a run. -/
def after (s : Shelf) : List Request → Shelf
  | [] => s
  | q :: requests => after (serve q s).state requests

variable {s : Shelf} {handle : UInt64} {b : Buffer}

theorem buffer_put (s : Shelf) (handle x : UInt64) (b : Option Buffer) :
    (s.put handle b).buffer x = if x = handle then b else s.buffer x := rfl

theorem on_absent [Reports ε] (m : Action Buffer ε α) (h : s.buffer handle = none) :
    (on handle m).Yields s (.error (.refused (Reports.report (.handleNotFound handle)))) s := by
  constructor <;> simp only [on, h]

theorem on_present [Reports ε] (m : Action Buffer ε α) (h : s.buffer handle = some b) :
    (on handle m).Yields s (m b).result (s.put handle (some (m b).state)) := by
  constructor <;> simp only [on, h]

theorem create_exhausted (h : s.next = lastHandle) :
    create.Yields s (.error (.refused
      (.outOfBounds .nextHandle lastHandle.toNat (lastHandle.toNat - 1)))) s := by
  refine (yields_get s).bind ?_
  rw [if_pos h]
  exact yields_refuse _ s

theorem create_yields (h : s.next ≠ lastHandle) : create.Yields s (.ok s.next) s.created := by
  refine (yields_get s).bind ?_
  rw [if_neg h]
  exact (yields_modify _ s).bind (yields_pure _ _)

end Shelf

namespace Registry

/-- The registry and the shelf have the same buffers under the same handles, none of them poisoned. -/
structure Mirrors (r : Registry) (s : Shelf) : Prop where
  rules : r.rules = s.rules
  next : r.nextHandle = s.next
  entry : ∀ x, r.entry? x = (s.buffer x).map fun b => ⟨x, b, false⟩
  fresh : ∀ x ∈ r.handles, x.toNat < r.nextHandle.toNat

variable {r : Registry} {s : Shelf} {handle x : UInt64} {b : Buffer}

theorem mirrors_empty (rules : Rules) : Mirrors (empty rules) (.empty rules) where
  rules := rfl
  next := rfl
  entry _ := rfl
  fresh _ hx := absurd hx List.not_mem_nil

theorem Mirrors.entry?_none (h : Mirrors r s) (hs : s.buffer x = none) : r.entry? x = none := by
  rw [h.entry, hs]
  rfl

theorem Mirrors.entry?_some (h : Mirrors r s) (hs : s.buffer x = some b) :
    r.entry? x = some ⟨x, b, false⟩ := by
  rw [h.entry, hs]
  rfl

theorem Mirrors.unlisted (h : Mirrors r s) (hs : s.buffer x = none) : x ∉ r.handles :=
  entry?_eq_none.mp (h.entry?_none hs)

theorem Mirrors.listed (h : Mirrors r s) (hs : s.buffer x = some b) : x ∈ r.handles :=
  listed_of_entry (h.entry?_some hs)

theorem Mirrors.replaced (h : Mirrors r s) (hs : s.buffer handle = some b) (c : Buffer) :
    Mirrors (r.replaced handle c false) (s.put handle (some c)) where
  rules := h.rules
  next := h.next
  entry x := by
    rw [entry?_replaced (by rw [h.entry?_some hs]; rfl), h.entry, Shelf.buffer_put]
    split
    case isTrue hx =>
      rw [hx]
      rfl
    case isFalse => rfl
  fresh x hx := h.fresh x (by rwa [handles_replaced] at hx)

theorem Mirrors.without (h : Mirrors r s) : Mirrors (r.without handle) (s.put handle none) where
  rules := h.rules
  next := h.next
  entry x := by
    rw [entry?_without, h.entry, Shelf.buffer_put]
    split <;> rfl
  fresh x hx := by
    rw [handles_without] at hx
    exact h.fresh x (List.mem_filter.mp hx).1

theorem Mirrors.created (h : Mirrors r s) (hlast : r.nextHandle ≠ lastHandle) :
    Mirrors r.created s.created where
  rules := h.rules
  next := congrArg (· + 1) h.next
  entry x := by
    -- The next handle has no buffer yet: it would have to be below itself.
    rw [entry?_created fun hm => Nat.lt_irrefl _ (h.fresh _ hm), h.entry, h.next, h.rules,
      Shelf.created, Shelf.buffer_put]
    split <;> rfl
  fresh := fresh_created h.fresh hlast

theorem tracks_on [Reports ε] {m n : Action Buffer ε α} (h : Agree Eq m n) (handle : UInt64) :
    Tracks Mirrors (withBuffer handle m) (Shelf.on handle n) := by
  intro r s hrs
  cases hs : s.buffer handle with
  | none =>
    have hm := withBuffer_absent m (hrs.entry?_none hs)
    have hn := Shelf.on_absent n hs
    rw [hm.result, hm.state, hn.result, hn.state]
    exact ⟨rfl, fun _ => hrs⟩
  | some b =>
    obtain ⟨hresult, hstate⟩ := h b b rfl
    have hm := withBuffer_present m (hrs.entry?_some hs)
    have hn := Shelf.on_present n hs
    rw [hm.result, hm.state, hn.result, hn.state, ← hstate]
    refine ⟨hresult, fun hu => ?_⟩
    rw [isBroken_eq_false.mpr hu]
    exact hrs.replaced hs _

theorem create_agree : Agree Mirrors create Shelf.create := by
  intro r s h
  by_cases hlast : r.nextHandle = lastHandle
  · exact (create_exhausted hlast).agree (Shelf.create_exhausted (h.next ▸ hlast)) h
  · have hcreate := Shelf.create_yields (s := s) (h.next ▸ hlast)
    rw [← h.next] at hcreate
    exact (create_yields hlast).agree hcreate (h.created hlast)

theorem lookup_agree (handle : UInt64) : Agree Mirrors (lookup handle) (Shelf.lookup handle) := by
  intro r s h
  cases hs : s.buffer handle with
  | none =>
    refine (lookup_absent (h.unlisted hs)).agree ((yields_get s).bind ?_) h
    rw [hs]
    exact yields_refuse _ s
  | some b =>
    refine (lookup_yields (h.listed hs)).agree ((yields_get s).bind ?_) h
    rw [hs]
    exact yields_pure () s

theorem destroy_agree (handle : UInt64) : Agree Mirrors (destroy handle) (Shelf.destroy handle) := by
  intro r s h
  cases hs : s.buffer handle with
  | none =>
    refine (destroy_stray (h.unlisted hs)).agree ((yields_get s).bind ?_) h
    rw [h.rules, hs]
    cases s.rules.strictness with
    | strict => exact yields_refuse _ s
    | lenient => exact yields_pure () s
  | some b =>
    refine (destroy_yields (h.listed hs)).agree ((yields_get s).bind ?_) h.without
    rw [hs]
    exact yields_modify _ s

theorem append_tracks (handle source : UInt64) (offset length : Nat) :
    Tracks Mirrors (append handle source offset length) (Shelf.append handle source offset length) :=
  (tracks_on (agree_self _) source).bind fun _ => tracks_on (agree_self _) handle

theorem encode_tracks (handle : UInt64) : Tracks Mirrors (encode handle) (Shelf.encode handle) :=
  tracks_on (agree_self _) handle

theorem decode_tracks (handle : UInt64) (bytes : List UInt8) (offset length : Nat) :
    Tracks Mirrors (decode handle bytes offset length) (Shelf.decode handle bytes offset length) := by
  unfold decode Shelf.decode Bytes.slice?
  by_cases hle : offset + length ≤ bytes.length
  · rw [if_pos hle, if_pos hle]
    refine (agree_gets fun r s h => congrArg Rules.buffers h.rules).tracks.bind fun rules => ?_
    have hset (b : Buffer) : Agree Eq (do set b; emit (.replaced handle b.size))
        (set b : Action Buffer Marshal.Error Unit) := fun _ _ _ => ⟨rfl, rfl⟩
    exact tracks_on ((agree_self _).bind hset) handle
  · rw [if_neg hle, if_neg hle]
    exact (agree_refuse _ _).tracks

theorem checkPayload_agree (bytes : List UInt8) :
    Agree Mirrors (Command.checkPayload bytes) (Shelf.checkPayload bytes) := by
  unfold Command.checkPayload Shelf.checkPayload
  by_cases hle : bytes.length ≤ Size.largest
  · rw [if_pos hle, if_neg (Nat.not_lt.mpr hle)]
    exact agree_pure _ _
  · rw [if_neg hle, if_pos (Nat.lt_of_not_le hle)]
    exact agree_refuse _ _

/-- It is all the same whether an outcome is made of what the buffer gives or of what comes back. -/
theorem single_agree (m : Action Buffer Error α) (f : α → Outcome) (handle : UInt64) :
    Agree Eq (f <$> mapError Command.Error.buffer (Shelf.on handle m))
      (Shelf.single handle (f <$> m)) := by
  rintro s _ rfl
  cases hs : s.buffer handle with
  | none =>
    have hm := ((Shelf.on_absent m hs).mapError Command.Error.buffer).map_any f
    exact hm.agree ((Shelf.on_absent (f <$> m) hs).mapError Command.Error.buffer) rfl
  | some b =>
    have hmap := (yields_run m b).map_any f
    have hm := ((Shelf.on_present m hs).mapError Command.Error.buffer).map_any f
    have hn := (Shelf.on_present (f <$> m) hs).mapError Command.Error.buffer
    have hcomm : ((m b).result.map f).mapError (Failure.map Command.Error.buffer) =
        ((m b).result.mapError (Failure.map Command.Error.buffer)).map f := by
      cases (m b).result <;> rfl
    rw [hmap.result, hmap.state, hcomm] at hn
    exact hm.agree hn rfl

theorem single_tracks (m : Action Buffer Error α) (f : α → Outcome) (handle : UInt64) :
    Tracks Mirrors (f <$> onBuffer handle m) (Shelf.single handle (f <$> m)) := by
  have htracks := ((tracks_on (agree_self m) handle).mapError Command.Error.buffer).map f
  intro r s h
  obtain ⟨hresult, hstate⟩ := htracks r s h
  obtain ⟨hresult', hstate'⟩ := single_agree m f handle s s rfl
  exact ⟨hresult.trans hresult', fun hu => hstate' ▸ hstate hu⟩

theorem perform_tracks (handle : UInt64) (command : Command) :
    Tracks Mirrors (perform handle command) (Shelf.perform handle command) := by
  have hdone (m : Action Buffer Error Unit) := single_tracks m Shelf.done handle
  have hwhole (bytes : Option (List UInt8)) :
      Tracks Mirrors (putWhole handle bytes) (Shelf.putWhole handle bytes) :=
    (checkPayload_agree (bytes.getD [])).tracks.bind fun _ =>
      (tracks_on (agree_self (Buffer.putArray bytes 0 (bytes.getD []).length)) handle).mapError _
  cases command with
  | put item =>
    cases item with
    | array bytes => exact (hwhole bytes).map _
    | byte | int | long | float | double | string | binder | token => exact hdone _
  | putBlob bytes => exact (hwhole bytes).map _
  | read wanted => cases wanted <;> exact single_tracks _ _ handle
  | readBlob => exact single_tracks _ _ handle
  | measure what => cases what <;> exact single_tracks _ _ handle
  | enforce | resize | seek | reserve | clear => exact hdone _
  | append source offset length => exact ((append_tracks handle source offset length).mapError _).map _
  | encode => exact ((encode_tracks handle).mapError _).map _
  | decode bytes =>
    refine (checkPayload_agree bytes).tracks.bind fun _ => ?_
    exact ((decode_tracks handle bytes 0 bytes.length).mapError _).map _

theorem batch_tracks (handle : UInt64) (index : Nat) (commands : List Command) :
    Tracks Mirrors (batchFrom handle index commands) (Shelf.batch handle index commands) := by
  induction commands generalizing index with
  | nil => exact (agree_pure _ _).tracks
  | cons command commands ih =>
    refine (perform_tracks handle command).attempt.bind fun outcome => ?_
    cases outcome with
    | ok outcome => exact (ih (index + 1)).map _
    | error error =>
      exact fun _ _ h => ⟨rfl, fun _ => h⟩

theorem serve_tracks (q : Request) : Tracks Mirrors q.run (Shelf.serve q) := by
  cases q with
  | create => exact (create_agree.tracks.mapError _).map _
  | lookup handle => exact ((lookup_agree handle).tracks.mapError _).map _
  | destroy handle => exact ((destroy_agree handle).tracks.mapError _).map _
  | hold handle m => exact (tracks_on (agree_self m) handle).map _
  | append handle source offset length =>
    exact ((append_tracks handle source offset length).mapError _).map _
  | encode handle => exact ((encode_tracks handle).mapError _).map _
  | decode handle bytes offset length =>
    exact ((decode_tracks handle bytes offset length).mapError _).map _
  | perform handle command => exact (perform_tracks handle command).map _
  | batch handle commands => exact (batch_tracks handle 0 commands).map _

theorem Mirrors.run (h : Mirrors r s) (requests : List Request)
    (hu : ∀ m ∈ served r requests, isBroken m.result = false) :
    served r requests = s.served requests ∧ Mirrors (after r requests) (s.after requests) := by
  induction requests generalizing r s with
  | nil => exact ⟨rfl, h⟩
  | cons q requests ih =>
    obtain ⟨hresult, hstate⟩ := serve_tracks q r s h
    have hq := isBroken_eq_false.mp (hu _ List.mem_cons_self)
    obtain ⟨hserved, hafter⟩ := ih (hstate hq) fun m hm => hu m (List.mem_cons_of_mem _ hm)
    refine ⟨?_, hafter⟩
    rw [served, Shelf.served, hserved, hresult]

/-- The handle whose buffer a request may change. A new buffer is not counted as a change. -/
def Request.target : Request → Option UInt64
  | create | lookup _ => none
  | destroy handle | hold handle _ | append handle _ _ _ | encode handle | decode handle _ _ _
  | perform handle _ | batch handle _ => some handle

end Registry

namespace Shelf

/-- Runs leave alone what is under `x`. -/
abbrev Leaves (x : UInt64) (m : Action Shelf ε α) : Prop :=
  ∀ content, Within (fun s => s.buffer x = content) (fun _ => True) m

variable {s : Shelf} {handle x : UInt64}

theorem on_leaves [Reports ε] (h : x ≠ handle) (m : Action Buffer ε α) : Leaves x (on handle m) := by
  intro content s hs
  refine ⟨?_, fun _ _ => trivial⟩
  cases hb : s.buffer handle with
  | none => rwa [(on_absent m hb).state]
  | some b => rwa [(on_present m hb).state, buffer_put, if_neg h]

/-- Looking at a buffer leaves it alone as well. -/
theorem on_inspect_leaves [Reports ε] (f : Buffer → Except (Failure ε) α) (handle x : UInt64) :
    Leaves x (on handle (inspect f)) := by
  intro content s hs
  refine ⟨?_, fun _ _ => trivial⟩
  cases hb : s.buffer handle with
  | none => rwa [(on_absent _ hb).state]
  | some b =>
    rw [(on_present _ hb).state, buffer_put]
    split
    case isTrue hx => rwa [hx, hb] at hs
    case isFalse => exact hs

theorem append_leaves (h : x ≠ handle) (source : UInt64) (offset length : Nat) :
    Leaves x (append handle source offset length) := fun content =>
  (on_inspect_leaves _ source x content).andThen fun _ => on_leaves h _ content

theorem decode_leaves (h : x ≠ handle) (bytes : List UInt8) (offset length : Nat) :
    Leaves x (decode handle bytes offset length) := fun content =>
  within_ite _ ((within_gets _).andThen fun _ => on_leaves h _ content) (within_refuse _)

theorem checkPayload_leaves (bytes : List UInt8) (x : UInt64) : Leaves x (checkPayload bytes) :=
  fun _ => within_ite _ (within_pure _) (within_refuse _)

theorem perform_leaves (h : x ≠ handle) (command : Command) : Leaves x (perform handle command) := by
  intro content
  have hon {α : Type} (m : Action Buffer Error α) :=
    (on_leaves h m content).mapError Command.Error.buffer
  have hwhole (bytes : Option (List UInt8)) :=
    (checkPayload_leaves (bytes.getD []) x content).andThen fun _ =>
      hon (Buffer.putArray bytes 0 (bytes.getD []).length)
  cases command with
  | put item =>
    cases item with
    | array bytes => exact (hwhole bytes).map _
    | byte | int | long | float | double | string | binder | token => exact hon _
  | putBlob bytes => exact (hwhole bytes).map _
  | read wanted => cases wanted <;> exact hon _
  | measure what => cases what <;> exact hon _
  | readBlob | enforce | resize | seek | reserve | clear => exact hon _
  | append source offset length =>
    exact ((append_leaves h source offset length content).mapError _).map _
  | encode => exact ((on_leaves h _ content).mapError _).map _
  | decode bytes =>
    refine (checkPayload_leaves bytes x content).andThen fun _ => ?_
    exact ((decode_leaves h bytes 0 bytes.length content).mapError _).map _

theorem batch_leaves (h : x ≠ handle) (index : Nat) (commands : List Command) :
    Leaves x (batch handle index commands) := by
  intro content
  induction commands generalizing index with
  | nil => exact within_pure _
  | cons command commands ih =>
    refine (perform_leaves h command content).attempt.andThen fun outcome => ?_
    cases outcome with
    | ok outcome => exact (ih (index + 1)).map _
    | error error => exact within_pure _

theorem create_leaves (h : x ≠ s.next) : (create s).state.buffer x = s.buffer x := by
  by_cases hlast : s.next = lastHandle
  · rw [(create_exhausted hlast).state]
  · rw [(create_yields hlast).state, created, buffer_put, if_neg h]

/-- A request leaves alone all buffers but the one that it is for. -/
theorem serve_leaves (q : Request) (hx : q.target ≠ some x) (hnext : x ≠ s.next) :
    (serve q s).state.buffer x = s.buffer x := by
  have hne (handle : UInt64) (h : q.target = some handle) : x ≠ handle := fun he => hx (he ▸ h)
  have hrun {m : Action Shelf Command.Error Reply} (h : Leaves x m) :
      (m s).state.buffer x = s.buffer x := (h _ s rfl).state
  cases q with
  | create =>
    have hy := ((yields_run create s).mapError Command.Error.buffer).map_any Reply.handle
    exact (congrArg (buffer · x) hy.state).trans (create_leaves hnext)
  | lookup handle =>
    refine hrun fun content => Within.map (Within.mapError (within_get.andThen fun t => ?_) _) _
    split
    · exact within_refuse _
    · exact within_pure _
  | destroy handle =>
    refine hrun fun content => Within.map (Within.mapError (within_get.bind fun t u ht hu => ?_) _) _
    obtain rfl : t = u := Except.ok.inj hu
    split
    · refine within_modify fun _ _ => ?_
      rwa [buffer_put, if_neg (hne handle rfl)]
    · exact within_refuse _
    · exact within_pure _
  | hold handle m => exact hrun fun content => (on_leaves (hne handle rfl) m content).map _
  | append handle source offset length =>
    exact hrun fun content =>
      ((append_leaves (hne handle rfl) source offset length content).mapError _).map _
  | encode handle => exact hrun fun content => ((on_leaves (hne handle rfl) _ content).mapError _).map _
  | decode handle bytes offset length =>
    exact hrun fun content =>
      ((decode_leaves (hne handle rfl) bytes offset length content).mapError _).map _
  | perform handle command =>
    exact hrun fun content => (perform_leaves (hne handle rfl) command content).map _
  | batch handle commands =>
    exact hrun fun content => (batch_leaves (hne handle rfl) 0 commands content).map _

end Shelf

namespace Registry

variable {rules : Rules} {r : Registry} {s : Shelf} {x : UInt64}

theorem Mirrors.leaves (h : Mirrors r s) {q : Request} (hu : isBroken (q.run r).result = false)
    (hl : x ∈ r.handles) (hx : q.target ≠ some x) : (q.run r).state.entry? x = r.entry? x := by
  have hnext : x ≠ s.next := fun he => by
    have hlt := h.fresh x hl
    rw [he, ← h.next] at hlt
    exact Nat.lt_irrefl _ hlt
  have hafter := (serve_tracks q r s h).2 (isBroken_eq_false.mp hu)
  rw [hafter.entry, h.entry, Shelf.serve_leaves q hx hnext]

/-- As long as no buffer is poisoned, a registry answers every request as a plain map of buffers does,
and has the same buffers. So a request leaves alone all buffers but the one that it is for; what is
appended from is not changed unless it is appended to. -/
theorem mirrors_shelf (h : new rules = .ok r) (requests : List Request)
    (hu : ∀ m ∈ served r requests, isBroken m.result = false) :
    served r requests = (Shelf.empty rules).served requests ∧
    (∀ x, entry? (after r requests) x =
      (((Shelf.empty rules).after requests).buffer x).map fun b => ⟨x, b, false⟩) ∧
    ∀ q : Request, isBroken (q.run (after r requests)).result = false →
      ∀ x ∈ (after r requests).handles, q.target ≠ some x →
        (q.run (after r requests)).state.entry? x = entry? (after r requests) x := by
  obtain ⟨rfl, -⟩ := new_ok h
  obtain ⟨hserved, hafter⟩ := (mirrors_empty rules).run requests hu
  exact ⟨hserved, hafter.entry, fun q hq x hl hx => hafter.leaves hq hl hx⟩

/-- An int that is appended to itself, beside a buffer that is gone and one that is never used. -/
theorem mirrors_shelf_itself :
    let requests : List Request := [.create, .create, .create, .perform 1 (.put (.int 5)), .destroy 2,
      .append 1 1 0 4, .batch 2 [.measure .size]]
    ∃ r b, new {} = .ok r ∧ entry? (after r requests) 1 = some ⟨1, b, false⟩ ∧ b.size = 8 ∧
      entry? (after r requests) 2 = none ∧
      ((Request.perform 1 (.seek 9)).run (after r requests)).state.entry? 3 =
        entry? (after r requests) 3 := by
  intro requests
  have hnew : new {} = .ok (empty {}) := rfl
  obtain ⟨-, hentry, hleaves⟩ := mirrors_shelf hnew requests (by decide)
  refine ⟨empty {}, _, rfl, hentry 1, by decide, hentry 2, ?_⟩
  exact hleaves _ (by decide) 3 (by decide) (by decide)

end Registry

end Parcel
