import Parcel.Proofs.Numbering
import Parcel.Proofs.Reposition

/-!
The cells that no byte belongs to any longer. A write sweeps them out of an arena that has outgrown the
storage, and what is added from elsewhere brings its cells along and sweeps none out.
-/
namespace Parcel.Buffer
open Parcel.Action

/-- It looks after the arena: a write of some bytes, or clearing. -/
def Step.sweeps : Step → Bool
  | edit (.write size _) => Size.padded size ≠ 0
  | edit .clear => true
  | edit (.seek _) | edit (.resize _) | edit (.reserve _) | edit (.read _) | paste _ | append .. => false

/-- The cells that come along with what it adds. -/
def Step.load : Step → Nat
  | paste s => s.cells.size
  | append source offset length =>
    match source.copy offset length with
    | .ok s => s.cells.size
    | .error _ => 0
  | edit _ => 0

namespace Taken

def succeeds (m : Taken) : Bool := m.result.isOk

def sweeps (m : Taken) : Bool := m.step.sweeps && m.succeeds

def brings (m : Taken) : Nat := if m.succeeds then m.step.load else 0

end Taken

/-- The cells that came in from elsewhere since the last sweep. -/
def brought (past : List Taken) : Nat :=
  past.foldl (fun n m => if m.sweeps then 0 else n + m.brings) 0

variable {b c : Buffer} {m : Taken} {s : Segment} {past : List Taken} {size : UInt32} {value : Value}

theorem brought_snoc (past : List Taken) (m : Taken) :
    brought (past ++ [m]) = if m.sweeps then 0 else brought past + m.brings := by
  rw [brought, List.foldl_append]
  rfl

/-- The arena holds no more than two cells for each byte of storage, `slack` more and `extra` more. -/
def Bounded (extra : Nat) (b : Buffer) : Prop :=
  b.arena.size ≤ 2 * b.capacity + slack + extra

def InUse (b : Buffer) : Prop :=
  ∀ id < b.arena.size, ∃ i, b.slots.name i = some id

/-- What a sweep leaves: one cell more than there were, or none but those in use. -/
structure Swept (b c : Buffer) : Prop where
  bounded : c.Bounded 0
  cells : c.arena.size = b.arena.size + 1 ∨ c.InUse

theorem bounded_of_idle (h : b.isOvergrown = false) : b.Bounded 0 := by
  unfold isOvergrown at h
  exact Nat.le_of_not_lt (of_decide_eq_false h)

/-- Compaction leaves the cells in use, and there are no more of them than bytes. -/
theorem tidy_bounds (hb : b.Sound) (h : b.isOvergrown = true) :
    ∃ c, tidy.Yields b (.ok ()) c ∧ c.Bounded 0 ∧ c.InUse := by
  obtain ⟨s, ht, -⟩ := Segment.take_matches hb.storage
  have hn := Segment.take_numbered hb.storage.closed ht
  refine ⟨_, tidy_swept h ht, ?_, hn.used⟩
  have hle := hn.size_le
  change s.cells.size ≤ 2 * s.slots.size + slack + 0
  omega

theorem write_sweeps (hb : b.Sound) (value : Value) (h0 : Size.padded size ≠ 0)
    (hn : b.position + (Size.padded size).toNat ≤ b.rules.maxCapacity.toNat) :
    ∃ c, (write size value).Yields b (.ok ()) c ∧ b.Swept c := by
  have hw := hb.written (padded_cell h0 value) hn
  have hrun {c : Buffer} (ht : tidy.Yields (b.written ⟨Size.padded size, value⟩) (.ok ()) c) :
      (write size value).Yields b (.ok ()) c := by
    unfold write
    dsimp only
    rw [if_pos h0]
    exact (store_yields hb (Size.padded_mod size) hn).bind ht
  cases ho : (b.written ⟨Size.padded size, value⟩).isOvergrown with
  | false =>
    refine ⟨_, hrun (tidy_idle ho), bounded_of_idle ho, .inl ?_⟩
    exact Array.size_push _
  | true =>
    obtain ⟨c, ht, hbound, huse⟩ := tidy_bounds hw ho
    exact ⟨c, hrun ht, hbound, .inr huse⟩

/-- What a step does to the arena: it sweeps, or adds what it brings and drops nothing. -/
structure Taken.Accounted (m : Taken) : Prop where
  swept : m.sweeps = true → m.buffer.Swept m.left
  kept : m.sweeps = false →
    m.left.arena.size = m.buffer.arena.size + m.brings ∧ m.buffer.capacity ≤ m.left.capacity

namespace Taken

theorem succeeds_of_yields (h : m.step.run.Yields m.buffer (.ok a) c) : m.succeeds = true := by
  rw [succeeds, result, h.result]
  rfl

theorem not_succeeds_of_yields (h : m.step.run.Yields m.buffer (.error e) c) : m.succeeds = false := by
  rw [succeeds, result, h.result]
  rfl

theorem accounted_of_refused (h : m.step.run.Yields m.buffer (.error e) m.buffer) : m.Accounted := by
  have hno := not_succeeds_of_yields h
  have hleft : m.left = m.buffer := h.state
  constructor
  case swept =>
    intro hs
    simp [sweeps, hno] at hs
  case kept =>
    intro
    simp [hleft, brings, hno]

theorem accounted_of_swept (h : m.step.run.Yields m.buffer (.ok a) c) (hs : m.step.sweeps = true)
    (hc : m.buffer.Swept c) : m.Accounted := by
  have hleft : m.left = c := h.state
  constructor
  case swept =>
    intro
    rwa [hleft]
  case kept =>
    intro hno
    simp [sweeps, hs, succeeds_of_yields h] at hno

theorem accounted_of_kept (h : m.step.run.Yields m.buffer (.ok a) c) (hs : m.step.sweeps = false)
    (ha : c.arena.size = m.buffer.arena.size + m.step.load) (hc : m.buffer.capacity ≤ c.capacity) :
    m.Accounted := by
  have hleft : m.left = c := h.state
  constructor
  case swept =>
    intro hyes
    simp [sweeps, hs] at hyes
  case kept =>
    intro
    simp [hleft, brings, succeeds_of_yields h, ha, hc]

theorem accounted_read (b : Buffer) (r : Reading) : (Taken.mk b (.edit (.read r))).Accounted := by
  obtain ⟨p, hp⟩ := r.run_moves b
  have hleft : (Taken.mk b (.edit (.read r))).left = { b with position := p } := hp
  constructor
  case swept =>
    intro hyes
    simp [sweeps, Step.sweeps] at hyes
  case kept =>
    intro
    simp [hleft, brings, Step.load, capacity]

theorem accounted_write (hb : b.Sound) (size : UInt32) (value : Value) :
    (Taken.write b size value).Accounted := by
  by_cases h0 : Size.padded size = 0
  · have hy : (Edit.write size value).run.Yields b (.ok .done) b := (write_nothing h0).map _
    refine accounted_of_kept hy ?_ rfl (Nat.le_refl _)
    simp [write, Step.sweeps, h0]
  · by_cases hn : b.position + (Size.padded size).toNat ≤ b.rules.maxCapacity.toNat
    · obtain ⟨c, hc, hswept⟩ := write_sweeps hb value h0 hn
      refine accounted_of_swept (hc.map _) ?_ hswept
      simp [write, Step.sweeps, h0]
    · exact accounted_of_refused ((write_refused value h0 (Nat.lt_of_not_le hn)).map_stop _)

theorem accounted (hb : m.buffer.Sound) : m.Accounted := by
  obtain ⟨b, s⟩ := m
  change b.Sound at hb
  cases s with
  | edit e =>
    cases e with
    | write size value => exact accounted_write hb size value
    | seek p =>
      by_cases hp : p ≤ b.size
      · exact accounted_of_kept ((seek_yields hp).map _) rfl rfl (Nat.le_refl _)
      · exact accounted_of_refused ((seek_refused (Nat.lt_of_not_le hp)).map_stop _)
    | resize n =>
      by_cases hn : n ≤ b.rules.maxCapacity.toNat
      · refine accounted_of_kept ((resize_yields hb hn).map _) rfl rfl ?_
        rw [capacity_resized]
        exact Nat.le_max_left _ _
      · exact accounted_of_refused ((resize_refused (Nat.lt_of_not_le hn)).map_stop _)
    | reserve n =>
      by_cases hn : n ≤ b.rules.maxCapacity.toNat
      · refine accounted_of_kept ((reserve_yields hb.cursor hb.stored hn).map _) rfl rfl ?_
        rw [capacity_extended]
        exact Nat.le_max_left _ _
      · exact accounted_of_refused ((reserve_refused hb (Nat.lt_of_not_le hn)).map_stop _)
    | clear =>
      refine accounted_of_swept (clear_yields.map _) rfl ⟨Nat.zero_le _, .inr ?_⟩
      exact fun id hid => absurd hid (Nat.not_lt_zero id)
    | read r => exact accounted_read b r
  | paste s =>
    rcases paste_cases hb s with hy | ⟨e, hy⟩
    · refine accounted_of_kept (hy.map _) rfl Array.size_append ?_
      rw [capacity_pasted]
      exact Nat.le_max_left _ _
    · exact accounted_of_refused (hy.map_stop _)
  | append source offset length =>
    rcases append_cases hb source offset length with ⟨s, hc, hy⟩ | ⟨e, hy⟩
    · refine accounted_of_kept (hy.map _) rfl ?_ ?_
      · simp only [Step.load, hc]
        exact Array.size_append
      · rw [capacity_pasted]
        exact Nat.le_max_left _ _
    · exact accounted_of_refused (hy.map_stop _)

theorem Accounted.bounded (h : m.Accounted) (hb : m.buffer.Bounded n) :
    m.left.Bounded (if m.sweeps then 0 else n + m.brings) := by
  cases hs : m.sweeps with
  | true => exact (h.swept hs).bounded
  | false =>
    obtain ⟨harena, hcap⟩ := h.kept hs
    unfold Bounded at hb ⊢
    rw [if_neg Bool.false_ne_true]
    omega

end Taken

/-- The history tells how far an arena may have outgrown the storage. -/
structure Ballast (past : List Taken) (b : Buffer) : Prop where
  sound : b.Sound
  bounded : b.Bounded (brought past)

theorem Ballast.step (h : Ballast past b) {s : Step} (hs : s.Sound) :
    Ballast (past ++ [⟨b, s⟩]) (Taken.mk b s).left where
  sound := Taken.left_sound h.sound hs
  bounded := by
    rw [brought_snoc]
    exact (Taken.accounted h.sound).bounded h.bounded

theorem ballast_empty (rules : Rules) : Ballast [] (Buffer.empty rules) :=
  ⟨sound_empty rules, Nat.zero_le _⟩

theorem within_write (size : UInt32) (value : Value) :
    Within (Ballast []) (fun _ => True) (write size value) := by
  intro b hb
  have hstep := hb.step (s := .edit (.write size value)) trivial
  have hleft : (Taken.write b size value).left = (write size value b).state := state_map _ _ b
  have hnone : brought ([] ++ [Taken.write b size value]) = brought [] := by
    have hload : (Taken.write b size value).brings = 0 := ite_self 0
    rw [brought_snoc, hload]
    exact ite_self 0
  refine ⟨⟨hleft ▸ hstep.sound, ?_⟩, fun _ _ => trivial⟩
  exact hleft ▸ hnone ▸ hstep.bounded

theorem ballast_made {rules : Rules} {entries : List Cell} {t : σ}
    (h : (Buffer.ofCells rules entries t).result = .ok b) : Ballast [] b := by
  obtain ⟨c, hy, rfl⟩ := ofCells_rewound h
  have hwrites := (Within.each (fun cell => within_write cell.size cell.value) entries) _
    (ballast_empty rules)
  have hc : Ballast [] c := hy.state ▸ hwrites.state
  exact ⟨hc.sound.seek (Nat.zero_le _), hc.bounded⟩

theorem History.ballast (h : History past b) : Ballast past b :=
  h.by_steps ballast_empty (fun h => ballast_made h) fun h hs => h.step hs

def single : Buffer := ((Call.put (.int 7)).run (Buffer.empty {})).state

theorem single_reachable : Reachable single :=
  (Reachable.empty {}).call (.put (.int 7)) (by simp)

theorem copy_single : ∃ s, single.copy 0 4 = .ok s ∧ s.length = 4 ∧ s.cells.size = 1 :=
  ⟨_, rfl, rfl, rfl⟩

theorem brought_single : brought [⟨Buffer.empty {}, .append single 0 4⟩] = 1 := by
  obtain ⟨s, hc, hlength, hcells⟩ := copy_single
  have hn : (Buffer.empty {}).size + s.length ≤ (Buffer.empty {}).rules.maxCapacity.toNat := by
    rw [hlength]
    decide
  have hy := append_yields rfl hc (paste_yields (sound_empty {}) rfl hn)
  have hyes : (Taken.mk (Buffer.empty {}) (.append single 0 4)).succeeds = true :=
    Taken.succeeds_of_yields (hy.map _)
  simp [brought, Taken.sweeps, Step.sweeps, Taken.brings, hyes, Step.load, hc, hcells]

/-- An arena holds at most two cells for each byte of storage and `slack` more, apart from those that
came in from elsewhere since the last sweep. A sweep adds one cell, or leaves only those in use; any other
step adds what it brings and drops nothing. -/
theorem arena_bounded (h : History past b) :
    b.arena.size ≤ 2 * b.capacity + slack + brought past ∧
    ∀ s : Step, (Taken.mk b s).Accounted :=
  ⟨h.ballast.bounded, fun _ => Taken.accounted h.ballast.sound⟩

/-- The cell of an int that was added to a new buffer. -/
theorem arena_bounded_added :
    let step : Taken := ⟨Buffer.empty {}, .append single 0 4⟩
    brought [step] = 1 ∧ step.left.arena.size ≤ 2 * step.left.capacity + slack + 1 ∧
      (Taken.write step.left 4 (.int 5)).Accounted := by
  intro step
  have hleft : step.left = (append single 0 4 (Buffer.empty {})).state := state_map _ _ _
  have h : History [step] step.left := hleft ▸ (History.empty {}).append single_reachable 0 4
  obtain ⟨hbound, hsteps⟩ := arena_bounded h
  rw [brought_single] at hbound
  exact ⟨brought_single, hbound, hsteps (.edit (.write 4 (.int 5)))⟩

/-- The storage bounds no arena: the data of one buffer are added to another and cut off again, as often
as one likes. -/
theorem arena_unbounded (n : Nat) : ∃ b, Reachable b ∧ b.rules = {} ∧ b.position = 0 ∧ b.size = 0 ∧
    b.capacity ≤ 4 ∧ b.arena.size = n := by
  induction n with
  | zero => exact ⟨_, .empty {}, rfl, rfl, rfl, Nat.zero_le _, rfl⟩
  | succ n ih =>
    obtain ⟨b, hb, hrules, hposition, hsize, hcap, harena⟩ := ih
    obtain ⟨s, hc, hlength, hcells⟩ := copy_single
    have hn : b.size + s.length ≤ b.rules.maxCapacity.toNat := by
      rw [hsize, hlength, hrules]
      decide
    have hadded := hb.pasted single_reachable (hposition.trans hsize.symm) hc hn
    have hcut : b.size ≤ (b.pasted s).rules.maxCapacity.toNat := by
      rw [rules_pasted]
      omega
    refine ⟨(b.pasted s).resized b.size, hadded.resized hcut, ?_, ?_, ?_, ?_, ?_⟩
    · rw [rules_resized, rules_pasted, hrules]
    · rw [position_resized, hsize, Nat.min_zero]
    · rw [size_resized, hsize]
    · rw [capacity_resized, capacity_pasted, hsize, hlength]
      omega
    · rw [arena_resized, arena_pasted, Array.size_append, harena, hcells]

theorem not_arena_bounded : ¬ ∀ b, Reachable b → b.arena.size ≤ 2 * b.capacity + slack := by
  intro h
  obtain ⟨b, hb, -, -, -, hcap, harena⟩ := arena_unbounded 1033
  have hle := h b hb
  rw [slack] at hle
  omega

end Parcel.Buffer
