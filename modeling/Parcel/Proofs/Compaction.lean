import Parcel.Proofs.Canonical
import Parcel.Proofs.Numbering

/-!
Compaction cannot be seen. A program runs on any number of buffers and segments, once with the operations
as they are and once with ones that never compact an arena. Side by side the buffers stay twins, and the
segments that are taken out of twins are the same.
-/
namespace Parcel.Buffer
open Parcel.Action Owners

variable {b c : Buffer} {upkeep upkeep' : Action Buffer Error Unit} {rules : Rules}

/-- Makes a buffer out of cells with another upkeep behind each write. -/
def ofCellsThen (upkeep : Action Buffer Error Unit) (rules : Rules) (cells : List Cell) :
    Action σ Error Buffer := do
  let ((), b) ← Action.apart (empty rules) (replay upkeep cells)
  pure b

def decodeThen (upkeep : Action Buffer Error Unit) (rules : Rules) (bytes : List UInt8) :
    Action σ Marshal.Error Buffer := do
  let cells ← decodeCells bytes
  let b ← Action.mapError .buffer (ofCellsThen upkeep rules cells)
  Action.emit (.decoded cells.length b.size)
  pure b

/-- The operations that write cells, and so come to where an arena is compacted. -/
structure Writers where
  call : Call → Action Buffer Marshal.Error Answer
  ofCells : Rules → List Cell → Action Unit Error Buffer
  decode : Rules → List UInt8 → Action Unit Marshal.Error Buffer

def Writers.actual : Writers where
  call := Call.run
  ofCells := Buffer.ofCells
  decode := Buffer.decode

/-- The operations with another upkeep behind each write. -/
def Writers.keeping (upkeep : Action Buffer Error Unit) : Writers where
  call := Call.runThen upkeep
  ofCells := ofCellsThen upkeep
  decode := decodeThen upkeep

theorem keeping_tidy : Writers.keeping tidy = .actual := by
  have hc : Call.runThen tidy = Call.run := funext Call.runThen_tidy
  unfold Writers.keeping Writers.actual
  rw [hc]
  rfl

/-- Numbered buffers and segments that a program works on. -/
structure Workspace where
  buffers : Nat → Buffer
  segments : Nat → Segment

namespace Workspace

/-- Buffers without data, and empty segments. -/
def start (rules : Nat → Rules) : Workspace where
  buffers n := empty (rules n)
  segments _ := ⟨#[], #[]⟩

def withBuffer (w : Workspace) (n : Nat) (b : Buffer) : Workspace :=
  { w with buffers := fun m => if m = n then b else w.buffers m }

def withSegment (w : Workspace) (n : Nat) (s : Segment) : Workspace :=
  { w with segments := fun m => if m = n then s else w.segments m }

end Workspace

/-- What an instruction gives back. -/
inductive Report
  | answer (result : Except (Failure Marshal.Error) Answer)
  | segment (result : Except (Failure Error) Segment)

/-- One step of a program. Segments are never written down in it, they come out of its buffers. -/
inductive Instruction
  | call (target : Nat) (c : Call) (own : ∀ s, c ≠ .paste s)
  | capacity (target : Nat)
  | copy (into source offset length : Nat)
  | paste (target segment : Nat)
  | append (target source offset length : Nat)
  | clone (target source : Nat)
  | ofCells (target : Nat) (rules : Rules) (cells : List Cell)
  | decode (target : Nat) (rules : Rules) (bytes : List UInt8)

namespace Workspace

/-- Runs an action on a buffer. -/
def onBuffer (w : Workspace) (n : Nat) (m : Action Buffer Marshal.Error Answer) : Report × Workspace :=
  let ran := m (w.buffers n)
  (.answer ran.result, w.withBuffer n ran.state)

/-- Puts a buffer that was made into the place of another. -/
def made (w : Workspace) (n : Nat) (m : Action Unit Marshal.Error Buffer) : Report × Workspace :=
  match (m ()).result with
  | .ok b => (.answer (.ok .done), w.withBuffer n b)
  | .error e => (.answer (.error e), w)

/-- Keeps a segment that was taken. -/
def copied (w : Workspace) (n : Nat) : Except (Failure Error) Segment → Report × Workspace
  | .ok s => (.segment (.ok s), w.withSegment n s)
  | .error e => (.segment (.error e), w)

end Workspace

def Instruction.run (ops : Writers) (w : Workspace) : Instruction → Report × Workspace
  | call target c _ => w.onBuffer target (ops.call c)
  | capacity target => (.answer (.ok (.amount (w.buffers target).capacity)), w)
  | copy into source offset length => w.copied into ((w.buffers source).copy offset length)
  | paste target segment =>
    w.onBuffer target (refusing (fun _ => .done) (Buffer.paste (w.segments segment)))
  | append target source offset length =>
    w.onBuffer target (refusing (fun _ => .done) (Buffer.append (w.buffers source) offset length))
  | clone target source => (.answer (.ok .done), w.withBuffer target (w.buffers source))
  | ofCells target rules cells => w.made target (Action.mapError .buffer (ops.ofCells rules cells))
  | decode target rules bytes => w.made target (ops.decode rules bytes)

/-- The reports of a program, failed steps included, and what it leaves behind. -/
def Workspace.run (ops : Writers) (w : Workspace) : List Instruction → List Report × Workspace
  | [] => ([], w)
  | i :: program =>
    let (report, next) := i.run ops w
    let (reports, last) := Workspace.run ops next program
    (report :: reports, last)

/-- A copy does not depend on how the cells are numbered. -/
theorem Twin.copy (h : b.Twin c) (offset length : Nat) : b.copy offset length = c.copy offset length := by
  by_cases hfit : offset + length ≤ b.capacity
  · have hfit' : offset + length ≤ c.capacity := h.capacity ▸ hfit
    unfold Buffer.copy
    rw [if_neg (Nat.not_lt.mpr hfit), if_neg (Nat.not_lt.mpr hfit')]
    refine congrArg trust (Segment.take_congr (h.alike.left.extract hfit) (h.alike.right.extract hfit')
      ?_ ?_)
    · rw [Array.size_extract, Array.size_extract]
      exact congrArg (fun n => min (offset + length) n - offset) h.capacity
    · rw [owner_extract b hfit, owner_extract c hfit']
      exact h.alike.owner.window offset length
  · have hout := Nat.lt_of_not_le hfit
    rw [copy_refused hout, copy_refused (h.capacity ▸ hout), h.capacity]

theorem Twin.append_agree {source source' : Buffer} (h : source.Twin source') (offset length : Nat) :
    Agree Twin (append source offset length) (append source' offset length) := by
  have hend : Agree Twin checkAtEnd checkAtEnd := agree_inspect fun b c h => by
    rw [h.alike.position, h.alike.size]
  refine hend.bind fun _ => ?_
  rw [← h.copy]
  intro b c hbc
  cases hc : source.copy offset length with
  | error e => exact (yields_lift rfl b).stop.agree (yields_lift rfl c).stop hbc
  | ok s =>
    obtain ⟨hr, ht⟩ := steady_twin.paste_agree (copy_sound h.alike.left hc) b c hbc
    have hb := (yields_lift (ε := Error) (r := .ok s) rfl b).bind (yields_run (paste s) b)
    rw [hr] at hb
    exact hb.agree ((yields_lift rfl c).bind (yields_run (paste s) c)) ht

/-- Both actions fail alike, or make twins; neither touches the state. -/
def MakesTwins (m n : Action σ ε Buffer) : Prop :=
  ∀ t, (∃ b c, m.Yields t (.ok b) t ∧ n.Yields t (.ok c) t ∧ b.Twin c) ∨
    ∃ e, m.Yields t (.error e) t ∧ n.Yields t (.error e) t

theorem MakesTwins.mapError {m n : Action σ ε Buffer} (h : MakesTwins m n) (f : ε → ε') :
    MakesTwins (m.mapError f) (n.mapError f) := by
  intro t
  rcases h t with ⟨b, c, hb, hc, htwin⟩ | ⟨e, hb, hc⟩
  · exact .inl ⟨b, c, hb.mapError f, hc.mapError f, htwin⟩
  · exact .inr ⟨e.map f, hb.mapError f, hc.mapError f⟩

theorem ofCellsThen_twins (hu : Hidden upkeep) (hu' : Hidden upkeep') (rules : Rules)
    (cells : List Cell) :
    MakesTwins (σ := σ) (ofCellsThen upkeep rules cells) (ofCellsThen upkeep' rules cells) := by
  intro t
  obtain ⟨hr, htwin⟩ := steady_twin.replay_agree hu hu' cells _ _ (steady_twin.empty rules)
  have hb := yields_run (replay upkeep cells) (empty rules)
  have hc := yields_run (replay upkeep' cells) (empty rules)
  rw [hr] at hb
  cases hres : (replay upkeep' cells (empty rules)).result with
  | error e =>
    rw [hres] at hb hc
    exact .inr ⟨e, (hb.apart_stop t).stop, (hc.apart_stop t).stop⟩
  | ok u =>
    rw [hres] at hb hc
    exact .inl ⟨_, _, (hb.apart t).bind (yields_pure _ t), (hc.apart t).bind (yields_pure _ t), htwin⟩

theorem decodeThen_twins (hu : Hidden upkeep) (hu' : Hidden upkeep') (rules : Rules)
    (bytes : List UInt8) :
    MakesTwins (σ := σ) (decodeThen upkeep rules bytes) (decodeThen upkeep' rules bytes) := by
  intro t
  rcases decodeCells_outcome bytes t with ⟨cells, -, hcells⟩ | ⟨error, -, hcells⟩
  · rcases (ofCellsThen_twins hu hu' rules cells).mapError Marshal.Error.buffer t with
      ⟨b, c, hb, hc, htwin⟩ | ⟨e, hb, hc⟩
    · have hend (d : Buffer) := (yields_emit (ε := Marshal.Error) (.decoded cells.length d.size) t).bind
        (f := fun _ => pure d) (yields_pure d t)
      exact .inl ⟨b, c, hcells.bind (hb.bind (hend b)), hcells.bind (hc.bind (hend c)), htwin⟩
    · exact .inr ⟨e, hcells.bind hb.stop, hcells.bind hc.stop⟩
  · exact .inr ⟨_, hcells.stop, hcells.stop⟩

/-- The buffers of both workspaces are twins, and the segments are the same. -/
structure Workspace.Same (w w' : Workspace) : Prop where
  twins : ∀ n, (w.buffers n).Twin (w'.buffers n)
  segments : w.segments = w'.segments
  sound : ∀ n, (w.segments n).Sound

theorem Workspace.same_start (rules : Nat → Rules) : (start rules).Same (start rules) where
  twins n := steady_twin.empty (rules n)
  segments := rfl
  sound _ := Segment.sound_empty

namespace Workspace.Same

variable {w w' : Workspace} {n : Nat}

theorem withBuffer (h : w.Same w') (htwin : b.Twin c) : (w.withBuffer n b).Same (w'.withBuffer n c) where
  twins m := by
    unfold Workspace.withBuffer
    dsimp only
    split
    · exact htwin
    · exact h.twins m
  segments := h.segments
  sound := h.sound

theorem withSegment {s : Segment} (h : w.Same w') (hs : s.Sound) :
    (w.withSegment n s).Same (w'.withSegment n s) where
  twins := h.twins
  segments := by
    unfold Workspace.withSegment
    rw [h.segments]
  sound m := by
    unfold Workspace.withSegment
    dsimp only
    split
    · exact hs
    · exact h.sound m

theorem onBuffer {m m' : Action Buffer Marshal.Error Answer} (h : w.Same w') (hm : Agree Twin m m') :
    (w.onBuffer n m).1 = (w'.onBuffer n m').1 ∧ (w.onBuffer n m).2.Same (w'.onBuffer n m').2 := by
  obtain ⟨hr, ht⟩ := hm _ _ (h.twins n)
  exact ⟨congrArg Report.answer hr, h.withBuffer ht⟩

theorem made {m m' : Action Unit Marshal.Error Buffer} (h : w.Same w') (hm : MakesTwins m m') :
    (w.made n m).1 = (w'.made n m').1 ∧ (w.made n m).2.Same (w'.made n m').2 := by
  unfold Workspace.made
  rcases hm () with ⟨b, c, hb, hc, htwin⟩ | ⟨e, hb, hc⟩
  · rw [hb.result, hc.result]
    exact ⟨rfl, h.withBuffer htwin⟩
  · rw [hb.result, hc.result]
    exact ⟨rfl, h⟩

theorem copied {r : Except (Failure Error) Segment} (h : w.Same w') (hs : ∀ s, r = .ok s → s.Sound) :
    (w.copied n r).1 = (w'.copied n r).1 ∧ (w.copied n r).2.Same (w'.copied n r).2 := by
  cases r with
  | error e => exact ⟨rfl, h⟩
  | ok s => exact ⟨rfl, h.withSegment (hs s rfl)⟩

theorem step (h : w.Same w') (hu : Hidden upkeep) (hu' : Hidden upkeep') (i : Instruction) :
    (i.run (.keeping upkeep) w).1 = (i.run (.keeping upkeep') w').1 ∧
      (i.run (.keeping upkeep) w).2.Same (i.run (.keeping upkeep') w').2 := by
  cases i with
  | call target c own =>
    have hcall := steady_twin.call_agree hu hu' c fun s hs => absurd hs (own s)
    exact h.onBuffer hcall
  | capacity target =>
    refine ⟨?_, h⟩
    change Report.answer (.ok (.amount (w.buffers target).capacity)) = _
    rw [(h.twins target).capacity]
    rfl
  | copy into source offset length =>
    unfold Instruction.run
    dsimp only
    rw [← (h.twins source).copy]
    exact h.copied fun s hs => copy_sound (h.twins source).alike.left hs
  | paste target segment =>
    unfold Instruction.run
    dsimp only
    rw [← h.segments]
    exact h.onBuffer (((steady_twin.paste_agree (h.sound segment)).mapError _).map _)
  | append target source offset length =>
    have happend := (h.twins source).append_agree offset length
    exact h.onBuffer ((happend.mapError _).map _)
  | clone target source =>
    unfold Instruction.run
    exact ⟨rfl, h.withBuffer (h.twins source)⟩
  | ofCells target rules cells => exact h.made ((ofCellsThen_twins hu hu' rules cells).mapError _)
  | decode target rules bytes => exact h.made (decodeThen_twins hu hu' rules bytes)

theorem run (h : w.Same w') (hu : Hidden upkeep) (hu' : Hidden upkeep') (program : List Instruction) :
    (w.run (.keeping upkeep) program).1 = (w'.run (.keeping upkeep') program).1 ∧
      (w.run (.keeping upkeep) program).2.Same (w'.run (.keeping upkeep') program).2 := by
  induction program generalizing w w' with
  | nil =>
    unfold Workspace.run
    exact ⟨rfl, h⟩
  | cons i program ih =>
    obtain ⟨hr, hnext⟩ := h.step hu hu' i
    obtain ⟨hrest, hlast⟩ := ih hnext
    exact ⟨List.cons_eq_cons.mpr ⟨hr, hrest⟩, hlast⟩

end Workspace.Same

/-- All that can be asked of two buffers has the same answer. What may differ is how many cells an arena
holds and under which identities. -/
structure Indistinct (b c : Buffer) : Prop where
  rules : b.rules = c.rules
  position : b.position = c.position
  size : b.size = c.size
  capacity : b.capacity = c.capacity
  justExtended : b.justExtended = c.justExtended
  cellAt : ∀ i, b.cellAt i = c.cellAt i
  slot : ∀ i j, b.slot i = b.slot j ↔ c.slot i = c.slot j

theorem Twin.indistinct (h : b.Twin c) : b.Indistinct c where
  rules := h.alike.rules
  position := h.alike.position
  size := h.alike.size
  capacity := h.capacity
  justExtended := h.alike.justExtended
  cellAt i := by rw [h.alike.left.cellAt_eq, h.alike.right.cellAt_eq, h.alike.owner.cell]
  slot i j := by
    simp only [h.alike.left.slot_eq, h.alike.right.slot_eq]
    exact h.alike.owner.name i j

/-- Whether arenas are compacted or never are, a program is given the same reports and leaves the same
segments, and buffers of which nothing can be told apart but the numbers of their cells. -/
theorem compaction_unseen (rules : Nat → Rules) (program : List Instruction) :
    let (reports, w) := (Workspace.start rules).run .actual program
    let (reports', w') := (Workspace.start rules).run (.keeping (pure ())) program
    reports = reports' ∧ w.segments = w'.segments ∧
      ∀ n, (w.buffers n).Indistinct (w'.buffers n) := by
  obtain ⟨hr, hlast⟩ := (Workspace.same_start rules).run hidden_tidy hidden_nothing program
  rw [keeping_tidy] at hr hlast
  exact ⟨hr, hlast.segments, fun n => (hlast.twins n).indistinct⟩

end Parcel.Buffer
