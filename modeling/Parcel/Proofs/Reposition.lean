import Parcel.Proofs.History
import Parcel.Proofs.Scanning

/-!
The move of the cursor that a read wants after a write. A history lists the single steps that led to a
buffer, those of the longer calls among them. The last of them that moved the end of the data or set the
cursor decides whether a read at the end of the data is refused.
-/
namespace Parcel.Buffer
open Parcel.Action

/-- An operation that longer ones are made up of. -/
inductive Step
  | edit (e : Edit)
  | paste (s : Segment)
  | append (source : Buffer) (offset length : Nat)

namespace Step

def run : Step → Action Buffer Error Answer
  | edit e => e.run
  | paste s => (fun _ => .done) <$> Buffer.paste s
  | append source offset length => (fun _ => .done) <$> Buffer.append source offset length

/-- What is added to the buffer comes from one that is sound. -/
def Sound : Step → Prop
  | paste s => s.Sound
  | append source _ _ => source.Sound
  | edit _ => True

/-- It sets the cursor or the end of the data. -/
def Settles : Step → Prop
  | edit (.seek _) | edit (.resize _) | edit .clear | paste _ | append .. => True
  | edit (.write ..) | edit (.reserve _) | edit (.read _) => False

end Step

/-- A step with the buffer that it met. -/
structure Taken where
  buffer : Buffer
  step : Step

namespace Taken

def write (b : Buffer) (size : UInt32) (value : Value) : Taken := ⟨b, .edit (.write size value)⟩

def result (m : Taken) : Except (Failure Error) Answer := (m.step.run m.buffer).result

def left (m : Taken) : Buffer := (m.step.run m.buffer).state

/-- A successful write that moved the end of the data. -/
def Extends (m : Taken) : Prop :=
  (∃ size value, m.step = .edit (.write size value)) ∧ m.result = .ok .done ∧
    m.buffer.size < m.left.size

/-- An extending write, or a success of what sets the cursor or the end of the data. -/
def Event (m : Taken) : Prop := m.Extends ∨ (m.step.Settles ∧ m.result = .ok .done)

end Taken

/-- The writes of some values, up to the first that is refused. -/
def writes (b : Buffer) : List Value → List Taken
  | [] => []
  | v :: values =>
    Taken.write b v.size v :: match (writeValue v b).result with
      | .ok () => writes (writeValue v b).state values
      | .error _ => []

/-- The writes that an item is put by. -/
def putSteps (b : Buffer) (item : Item) : List Taken :=
  if Item.longestArray < item.arrayLength then [] else writes b item.values

/-- The steps of a call. -/
def Call.steps (b : Buffer) : Call → List Taken
  | edit e => [⟨b, .edit e⟩]
  | put item => putSteps b item
  | putArray none _ _ => putSteps b (.array none)
  | putArray (some bytes) offset length =>
    match Bytes.slice? bytes offset length with
    | none => []
    | some part => putSteps b (.array (some part))
  | paste s => [⟨b, .paste s⟩]
  | available | cellAt _ | cells | encode => []

/-- Steps one behind the other, each from what the last one left. -/
inductive Course : Buffer → List Taken → Buffer → Prop
  | done : Course b [] b
  | step (s : Step) (hs : s.Sound) (rest : Course (Taken.mk b s).left later c) :
    Course b (⟨b, s⟩ :: later) c

/-- The steps from a new buffer, or from one that was made out of cells or bytes, to a buffer. -/
inductive History : List Taken → Buffer → Prop
  | empty (rules : Rules) : History [] (Buffer.empty rules)
  | ofCells {rules : Rules} {entries : List Cell}
    (h : (Buffer.ofCells (σ := Unit) rules entries ()).result = .ok b) : History [] b
  | decode {rules : Rules} {bytes : List UInt8}
    (h : (Buffer.decode (σ := Unit) rules bytes ()).result = .ok b) : History [] b
  | call (h : History past b) (c : Call) (hc : ∀ s, c = .paste s → Exported s) :
    History (past ++ c.steps b) (c.run b).state
  | append (h : History past b) (hs : Reachable source) (offset length : Nat) :
    History (past ++ [⟨b, .append source offset length⟩]) (Buffer.append source offset length b).state

/-- Reads at the end of the data are to be refused, by what happened. -/
def Overdue (past : List Taken) (b : Buffer) : Prop :=
  b.rules.detectsMissingReposition = true ∧ Since Taken.Extends Taken.Event past

variable {b c source : Buffer} {m : Taken} {past later : List Taken} {wanted : Tag} {size : UInt32}

/-- Whether the data were just extended is then told by the step, or as before if it is no event. -/
def Taken.Heeded (m : Taken) : Prop :=
  m.left.justExtended = true ↔ m.Extends ∨ (m.buffer.justExtended = true ∧ ¬ m.Event)

theorem Taken.heeded_of_idle (he : ¬ m.Event) (hf : m.left.justExtended = m.buffer.justExtended) :
    m.Heeded := by
  have hx : ¬ m.Extends := fun h => he (.inl h)
  simp [Heeded, hf, hx, he]

theorem Taken.not_event_of_refused (h : m.result = .error e) : ¬ m.Event := by
  rintro (⟨-, hr, -⟩ | ⟨-, hr⟩)
  · cases h.symm.trans hr
  · cases h.symm.trans hr

theorem Taken.heeded_of_refused (h : m.step.run.Yields m.buffer (.error e) m.buffer) : m.Heeded :=
  heeded_of_idle (not_event_of_refused h.result) (congrArg Buffer.justExtended h.state)

theorem Taken.heeded_of_settled (hs : m.step.Settles)
    (h : m.step.run.Yields m.buffer (.ok .done) c) (hc : c.justExtended = false) : m.Heeded := by
  have hevent : m.Event := .inr ⟨hs, h.result⟩
  have hx : ¬ m.Extends := by
    rintro ⟨⟨size, value, he⟩, -⟩
    rw [he] at hs
    exact hs
  have hf : m.left.justExtended = false := (congrArg Buffer.justExtended h.state).trans hc
  simp [Heeded, hf, hx, hevent]

/-- A write is an event only by moving the end of the data. -/
theorem Taken.event_write (b : Buffer) (size : UInt32) (value : Value) :
    (Taken.write b size value).Event ↔ (Taken.write b size value).Extends :=
  or_iff_left fun h => h.1

/-- A write that finds room moves the end of the data if it ends behind it. -/
theorem Taken.write_done (hb : b.Sound) (value : Value) (h0 : Size.padded size ≠ 0)
    (hn : b.position + (Size.padded size).toNat ≤ b.rules.maxCapacity.toNat) :
    ((Taken.write b size value).Extends ↔ b.size < b.position + (Size.padded size).toNat) ∧
      (Taken.write b size value).left.justExtended =
        (b.justExtended || decide (b.size < b.position + (Size.padded size).toNat)) := by
  obtain ⟨c, hc, hal, -⟩ := write_yields value hb h0 hn
  have hy : (Edit.write size value).run.Yields b (.ok .done) c := hc.map _
  have hleft : (Taken.write b size value).left = c := hy.state
  have hsize : c.size = max b.size (b.position + (Size.padded size).toNat) := hal.size.symm
  refine ⟨?_, by rw [hleft]; exact hal.justExtended.symm⟩
  rw [Extends, hleft, hsize]
  constructor
  · rintro ⟨-, -, hlt⟩
    change b.size < _ at hlt
    omega
  · intro hlt
    refine ⟨⟨size, value, rfl⟩, hy.result, ?_⟩
    change b.size < _
    omega

theorem Taken.heeded_write (hb : b.Sound) (size : UInt32) (value : Value) :
    (Taken.write b size value).Heeded := by
  by_cases h0 : Size.padded size = 0
  · have hy : (Edit.write size value).run.Yields b (.ok .done) b := (write_nothing h0).map _
    refine heeded_of_idle ?_ (congrArg Buffer.justExtended hy.state)
    rw [event_write]
    rintro ⟨-, -, hlt⟩
    exact absurd (congrArg Buffer.size hy.state) (Nat.ne_of_gt hlt)
  · by_cases hn : b.position + (Size.padded size).toNat ≤ b.rules.maxCapacity.toNat
    · obtain ⟨hx, hflag⟩ := write_done hb value h0 hn
      rw [Heeded, event_write, hx, hflag, Bool.or_eq_true, decide_eq_true_eq]
      by_cases hlt : b.size < b.position + (Size.padded size).toNat <;> simp [hlt, Taken.write]
    · exact heeded_of_refused ((write_refused value h0 (Nat.lt_of_not_le hn)).map_stop _)

theorem Taken.heeded (hb : m.buffer.Sound) : m.Heeded := by
  obtain ⟨b, s⟩ := m
  change b.Sound at hb
  cases s with
  | edit e =>
    cases e with
    | write size value => exact heeded_write hb size value
    | seek p =>
      by_cases hp : p ≤ b.size
      · exact heeded_of_settled trivial ((seek_yields hp).map _) rfl
      · exact heeded_of_refused ((seek_refused (Nat.lt_of_not_le hp)).map_stop _)
    | resize n =>
      by_cases hn : n ≤ b.rules.maxCapacity.toNat
      · exact heeded_of_settled trivial ((resize_yields hb hn).map _) rfl
      · exact heeded_of_refused ((resize_refused (Nat.lt_of_not_le hn)).map_stop _)
    | reserve n =>
      by_cases hn : n ≤ b.rules.maxCapacity.toNat
      · have hy : (Edit.reserve n).run.Yields b (.ok .done) _ := (reserve_yields hb.cursor hb.stored hn).map _
        have hflag : (b.extended n).justExtended = b.justExtended := rfl
        refine heeded_of_idle ?_ ((congrArg Buffer.justExtended hy.state).trans hflag)
        rintro (⟨⟨_, _, he⟩, -⟩ | ⟨hs, -⟩)
        · cases he
        · exact hs
      · exact heeded_of_refused ((reserve_refused hb (Nat.lt_of_not_le hn)).map_stop _)
    | clear => exact heeded_of_settled trivial (clear_yields.map _) rfl
    | read r =>
      obtain ⟨p, hp⟩ := r.run_moves b
      have hflag : Buffer.justExtended { b with position := p } = b.justExtended := rfl
      refine heeded_of_idle ?_ ((congrArg Buffer.justExtended hp).trans hflag)
      rintro (⟨⟨_, _, he⟩, -⟩ | ⟨hs, -⟩)
      · cases he
      · exact hs
  | paste s =>
    rcases paste_cases hb s with hy | ⟨e, hy⟩
    · exact heeded_of_settled trivial (hy.map _) rfl
    · exact heeded_of_refused (hy.map_stop _)
  | append source offset length =>
    rcases append_cases hb source offset length with ⟨s, -, hy⟩ | ⟨e, hy⟩
    · exact heeded_of_settled trivial (hy.map _) rfl
    · exact heeded_of_refused (hy.map_stop _)

theorem Taken.left_sound (hb : m.buffer.Sound) (hs : m.step.Sound) : m.left.Sound := by
  obtain ⟨b, s⟩ := m
  change b.Sound at hb
  cases s with
  | edit e => exact (e.run_agree _ _ hb.alike).2.left
  | paste s => exact (((steady_alike.paste_agree hs).map _) _ _ hb.alike).2.left
  | append source offset length =>
    have hleft : (Taken.mk b (.append source offset length)).left =
        (Buffer.append source offset length b).state := state_map _ _ _
    rw [hleft]
    exact append_sound hb hs offset length

/-- The history tells whether the data were just extended. -/
structure Tells (past : List Taken) (b : Buffer) : Prop where
  sound : b.Sound
  flag : b.justExtended = true ↔ Since Taken.Extends Taken.Event past

theorem tells_start (hb : b.Sound) (hf : b.justExtended = false) : Tells [] b where
  sound := hb
  flag := by simp [hf, not_since_nil]

theorem Tells.step (h : Tells past b) {s : Step} (hs : s.Sound) :
    Tells (past ++ [⟨b, s⟩]) (Taken.mk b s).left where
  sound := Taken.left_sound h.sound hs
  flag := by
    rw [since_snoc, ← h.flag]
    exact Taken.heeded h.sound

/-- What holds of a history and its buffer holds of a longer one if every step keeps it. -/
theorem Course.keeps {P : List Taken → Buffer → Prop}
    (hP : ∀ {past b s}, P past b → s.Sound → P (past ++ [⟨b, s⟩]) (Taken.mk b s).left)
    (hc : Course b later c) (h : P past b) : P (past ++ later) c := by
  induction hc generalizing past with
  | done => rwa [List.append_nil]
  | step s hs _ ih =>
    rw [List.append_cons]
    exact ih (hP h hs)

theorem course_writes (b : Buffer) (values : List Value) :
    Course b (writes b values) (each writeValue values b).state := by
  induction values generalizing b with
  | nil => exact .done
  | cons v values ih =>
    have hleft : (Taken.mk b (.edit (.write v.size v))).left = (writeValue v b).state :=
      state_map (writeValue v) _ b
    refine .step (.edit (.write v.size v)) trivial ?_
    rw [hleft]
    -- a write that is refused is the last step of the call
    cases hr : (writeValue v b).result with
    | error e =>
      have hstop : (each writeValue (v :: values)).Yields b _ _ := Yields.stop ⟨hr, rfl⟩
      rw [hstop.state]
      exact .done
    | ok =>
      have hgo : (each writeValue (v :: values)).Yields b _ _ := Yields.bind ⟨hr, rfl⟩ (yields_run _ _)
      rw [hgo.state]
      exact ih _

theorem course_put (b : Buffer) (item : Item) : Course b (putSteps b item) (put item b).state := by
  unfold putSteps put
  split
  · exact .done
  · exact course_writes b item.values

theorem encode_state (b : Buffer) : (encode b).state = b := by
  cases hc : b.cells with
  | error e => exact (encode_refused hc).state
  | ok cells => exact (encode_outcome hc).state

/-- A call comes to what its steps come to. -/
theorem Call.course (c : Call) (hc : ∀ s, c = .paste s → s.Sound) (b : Buffer) :
    Course b (c.steps b) (c.run b).state := by
  cases c with
  | edit e =>
    refine .step (.edit e) trivial ?_
    rw [Call.run, state_refusing]
    exact .done
  | put item =>
    rw [Call.run, state_refusing]
    exact course_put b item
  | putArray bytes offset length =>
    rw [Call.run, state_refusing]
    cases bytes with
    | none => exact course_put b _
    | some bytes =>
      unfold steps Buffer.putArray
      dsimp only
      cases Bytes.slice? bytes offset length with
      | none => exact .done
      | some part => exact course_put b _
  | paste s =>
    refine .step (.paste s) (hc s rfl) ?_
    rw [Call.run, state_refusing]
    exact (state_map (Buffer.paste s) _ b) ▸ .done
  | available | cellAt | cells =>
    rw [Call.run, state_refusing]
    exact .done
  | encode =>
    rw [Call.run, state_map, encode_state]
    exact .done

/-- A read at the end of the data is refused. -/
def Due (b : Buffer) : Prop :=
  b.justExtended = true ∧ b.rules.detectsMissingReposition = true

/-- Where no read is due to be refused, the action is not refused for a missing move of the cursor, and
none is due behind it. -/
def Spares (m : Action Buffer Error α) : Prop :=
  ∀ b : Buffer, b.Sound ∧ ¬ b.Due → ((m b).state.Sound ∧ ¬ (m b).state.Due) ∧
    ∀ p, (m b).result ≠ .error (.refused (.missingReposition p))

theorem spares_pure (a : α) : Spares (pure a) := fun _ hb => ⟨hb, fun _ h => by cases h⟩

theorem spares_refuse {e : Error} (h : ∀ p, e ≠ .missingReposition p) :
    Spares (refuse e : Action Buffer Error α) := by
  refine fun b hb => ⟨hb, fun p hp => h p ?_⟩
  cases hp
  rfl

theorem Spares.bind {m : Action Buffer Error α} {f : α → Action Buffer Error β} (hm : Spares m)
    (hf : ∀ a, Spares (f a)) : Spares (m >>= f) := by
  intro b hb
  obtain ⟨hstate, hres⟩ := hm b hb
  cases hr : (m b).result with
  | error e =>
    have hy : (m >>= f).Yields b (.error e) (m b).state := Yields.stop ⟨hr, rfl⟩
    rw [hy.state, hy.result]
    exact ⟨hstate, fun p hp => hres p (by rw [hr]; cases hp; rfl)⟩
  | ok a =>
    have hy := Yields.bind ⟨hr, rfl⟩ (yields_run (f a) (m b).state)
    rw [hy.state, hy.result]
    exact hf a _ hstate

theorem Spares.map {m : Action Buffer Error α} (hm : Spares m) (f : α → β) : Spares (f <$> m) :=
  hm.bind fun a => spares_pure (f a)

theorem spares_ite {m n : Action Buffer Error α} (p : Prop) [Decidable p] (hm : Spares m)
    (hn : Spares n) : Spares (if p then m else n) := by
  split
  · exact hm
  · exact hn

theorem next_due (hd : b.Due) (he : b.size ≤ b.position) (wanted : Tag) :
    (next wanted).Yields b (.error (.refused (.missingReposition b.position))) b := by
  refine next_error ?_
  unfold peek
  rw [if_pos he, if_pos (by simp [hd.1, hd.2])]

theorem next_at_end (hd : ¬ b.Due) (he : b.size ≤ b.position) (wanted : Tag) :
    (next wanted).Yields b (.ok none) b := by
  refine next_end ?_
  unfold peek
  rw [if_pos he, if_neg]
  rwa [Bool.and_eq_true]

/-- Behind a whole cell nothing but its end can be out of reach. -/
theorem peek_whole {cell : Cell} (hp : b.position < b.size)
    (hw : b.wholeCell (some wanted) b.position = .ok cell) :
    (∃ stop, b.peek wanted = .ok (some (cell, stop))) ∨ ∃ f, b.peek wanted = .error (.broken f) := by
  unfold peek
  rw [if_neg (Nat.not_le.mpr hp), hw]
  cases hs : advanced b.position cell.size.toNat with
  | error f =>
    refine .inr ⟨f, ?_⟩
    simp only [bind, Except.bind, hs, trust_error]
  | ok stop =>
    refine .inl ⟨min b.size stop, ?_⟩
    simp only [bind, Except.bind, hs, trust_ok]
    rfl

theorem spares_next (wanted : Tag) : Spares (next wanted) := by
  rintro b ⟨hb, hd⟩
  obtain ⟨-, -, p, hmoved⟩ := next_moves b wanted b b ⟨rfl, b.position, rfl⟩
  have hsound := (steady_alike.next_agree wanted _ _ hb.alike).2.left
  refine ⟨⟨hsound, by rw [hmoved]; exact hd⟩, fun p hres => ?_⟩
  by_cases he : b.size ≤ b.position
  · cases (next_at_end hd he wanted).result.symm.trans hres
  have hlt := Nat.lt_of_not_le he
  rcases hb.wholeCell_outcome b.position with ⟨-, hbare⟩ | ⟨cell, -, hwhole | ⟨found, offset, htorn⟩⟩
  · cases (next_error (peek_error hlt (hbare _))).result.symm.trans hres
  · rcases peek_whole hlt (hwhole (some wanted)) with ⟨stop, hpeek⟩ | ⟨f, hpeek⟩
    · have hn := (next_some hpeek).result.symm.trans hres
      split at hn <;> cases hn
    · cases (next_error hpeek).result.symm.trans hres
  · cases (next_error (peek_error hlt (htorn _))).result.symm.trans hres

theorem Reading.spares (r : Reading) : Spares r.run := by
  have hor (fallback : Value) (wanted : Tag) : Spares (readOr fallback wanted) :=
    (spares_next wanted).map _
  have harray : Spares readArray := by
    refine (spares_next .int).bind fun found => ?_
    split
    · refine spares_ite _ (spares_pure _) (spares_ite _ (spares_pure _) (Spares.map ?_ _))
      refine (spares_next .byteArray).bind fun found => ?_
      exact spares_ite _ (spares_pure _) (spares_refuse fun _ => by simp)
    · exact spares_pure _
  cases r with
  | value fallback wanted => exact (hor fallback wanted).map _
  | ofKind wanted => exact (hor _ wanted).map _
  | array => exact harray.map _
  | arrayOf length =>
    refine Spares.map (harray.bind fun found => ?_) _
    split
    · exact spares_ite _ (spares_pure _) (spares_refuse fun _ => by simp)
    · exact spares_refuse fun _ => by simp
  | token interface =>
    refine Spares.map ((spares_next .int).bind fun _ => (spares_next .string).bind fun found => ?_) _
    exact spares_ite _ (spares_refuse fun _ => by simp) (spares_pure _)

/-- All reads begin with a read of one cell. -/
theorem Reading.run_due (hd : b.Due) (he : b.size ≤ b.position) (r : Reading) :
    (r.run b).result = .error (.refused (.missingReposition b.position)) := by
  have hnext := next_due hd he
  cases r with
  | value fallback wanted => exact ((hnext wanted).stop.map_stop _).result
  | ofKind wanted => exact ((hnext wanted).stop.map_stop _).result
  | array => exact ((hnext .int).stop.map_stop _).result
  | arrayOf length => exact ((hnext .int).stop.stop.map_stop _).result
  | token interface => exact ((hnext .int).stop.map_stop _).result

theorem ofCells_flag {rules : Rules} {entries : List Cell} {t : σ}
    (h : (Buffer.ofCells rules entries t).result = .ok b) : b.justExtended = false := by
  obtain ⟨c, -, rfl⟩ := ofCells_rewound h
  rfl

/-- A history is a start and single steps. -/
theorem History.by_steps {P : List Taken → Buffer → Prop}
    (hempty : ∀ rules, P [] (Buffer.empty rules))
    (hmade : ∀ {rules entries b},
      (Buffer.ofCells (σ := Unit) rules entries ()).result = .ok b → P [] b)
    (hstep : ∀ {past b s}, P past b → s.Sound → P (past ++ [⟨b, s⟩]) (Taken.mk b s).left)
    (h : History past b) : P past b := by
  induction h with
  | empty rules => exact hempty rules
  | ofCells h => exact hmade h
  | decode h =>
    obtain ⟨_, _, hc⟩ := ofCells_of_decode h
    exact hmade hc
  | call _ c hc ih =>
    exact (c.course (fun s hs => (hc s hs).sound) _).keeps hstep ih
  | append _ hs offset length ih =>
    have hlast := hstep ih (s := .append _ offset length) hs.sound
    rwa [Taken.left, Step.run, state_map] at hlast

theorem History.tells (h : History past b) : Tells past b :=
  h.by_steps (fun rules => tells_start (sound_empty rules) rfl)
    (fun h => tells_start (ofCells_sound h) (ofCells_flag h)) fun h hs => h.step hs

/-- A read fails for a missing move of the cursor exactly if it is made at the end of the data and the
last event was a write that moved this end. What is no event does not count, and no read fails so behind
another that succeeded. -/
theorem reposition_law (h : History past b) :
    (b.justExtended = true ↔ Since Taken.Extends Taken.Event past) ∧
    (∀ s : Step, ¬ (Taken.mk b s).Event → (Taken.mk b s).left.justExtended = b.justExtended) ∧
    (b.position = b.size → ∀ fallback wanted,
      (Overdue past b → (readOr fallback wanted).Yields b
        (.error (.refused (.missingReposition b.position))) b) ∧
      (¬ Overdue past b → (readOr fallback wanted).Yields b (.ok fallback) b)) ∧
    (∀ (r : Reading) (p : Nat), (r.run b).result = .error (.refused (.missingReposition p)) ↔
      p = b.position ∧ b.position = b.size ∧ Overdue past b) ∧
    (∀ first found, (next first b).result = .ok found → ∀ wanted p,
      (next wanted (next first b).state).result ≠ .error (.refused (.missingReposition p))) := by
  obtain ⟨hb, hflag⟩ := h.tells
  have hdue : b.Due ↔ Overdue past b := by
    rw [Due, Overdue, hflag]
    exact and_comm
  -- the flag is only ever up at the end of the data, so below it nothing is due
  have hend : b.Due → b.position = b.size := fun hd => (hb.extended hd.1).1
  refine ⟨hflag, fun s hs => ?_, fun he fallback wanted => ⟨fun ho => ?_, fun ho => ?_⟩,
    fun r p => ⟨fun hr => ?_, ?_⟩, fun first found hfirst wanted p => ?_⟩
  · have hheeded := Taken.heeded (m := ⟨b, s⟩) hb
    have hx : ¬ (Taken.mk b s).Extends := fun hx => hs (.inl hx)
    rw [Taken.Heeded, or_iff_right hx, and_iff_left hs] at hheeded
    exact Bool.eq_iff_iff.mpr hheeded
  · exact (next_due (hdue.mpr ho) (Nat.le_of_eq he.symm) wanted).stop
  · have hnext := next_at_end (fun hd => ho (hdue.mp hd)) (Nat.le_of_eq he.symm) wanted
    exact readOr_yields hnext fallback
  · by_cases hd : b.Due
    · have hrun := r.run_due hd (Nat.le_of_eq (hend hd).symm)
      cases hrun.symm.trans hr
      exact ⟨rfl, hend hd, hdue.mp hd⟩
    · exact absurd hr ((r.spares b ⟨hb, hd⟩).2 p)
  · rintro ⟨rfl, he, ho⟩
    exact r.run_due (hdue.mpr ho) (Nat.le_of_eq he.symm)
  · have hd : ¬ b.Due := by
      intro hd
      cases (next_due hd (Nat.le_of_eq (hend hd).symm) first).result.symm.trans hfirst
    exact (spares_next wanted _ (spares_next first b ⟨hb, hd⟩).1).2 p

/-- Of a byte array only the length finds room. It was written, so a read behind it fails. -/
theorem reposition_law_split :
    let c := Call.put (.array (some [1]))
    let b := (c.run (empty { maxCapacity := 4 })).state
    (c.run (empty { maxCapacity := 4 })).result =
        .error (.refused (.buffer (.capacityExceeded 8 4))) ∧
      (Reading.array.run b).result = .error (.refused (.missingReposition 4)) := by
  intro c b
  have h : History _ b := (History.empty { maxCapacity := 4 }).call c (by simp [c])
  obtain ⟨hflag, -, -, hread, -⟩ := reposition_law h
  refine ⟨rfl, ?_⟩
  exact (hread .array 4).mpr ⟨by decide, by decide, by decide, hflag.mp (by decide)⟩

end Parcel.Buffer
