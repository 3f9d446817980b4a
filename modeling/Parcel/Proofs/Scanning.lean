import Parcel.Proofs.RoundTrip

/-!
The scan of a buffer and the reads that go through it. `Scans` is the scan as a loop that only the end
of the data or a refusal stops, `Walk` a run of reads in which each is of the kind of the cell that it
meets. Both come to an end, and `Together` says that they come to the same, refusals included.
-/
namespace Parcel.Buffer
open Parcel.Action

/-- Whole cells from `start` up to the end of the data, or the refusal of the first place where none
begins. A cell without bytes would be met again and again. -/
inductive Scans (b : Buffer) : Nat → Except (Failure Error) (List Cell) → Prop
  | finished (h : b.size ≤ start) : Scans b start (.ok [])
  | stopped (h : start < b.size) (hw : b.wholeCell none start = .error e) : Scans b start (.error e)
  | found (h : start < b.size) (hw : b.wholeCell none start = .ok cell)
    (rest : Scans b (start + cell.size.toNat) r) : Scans b start (r.map (cell :: ·))

/-- A kind to ask for at the cursor: that of the cell there, or any where there is none. -/
def Suits (b : Buffer) (wanted : Tag) : Prop :=
  ∀ cell, b.cellAt b.position = .ok (some cell) → wanted = cell.value.tag

structure Passage where
  value : Value
  start : Nat
  stop : Nat
deriving DecidableEq

/-- Reads up to the end of the data or the first that fails: what they passed over, and the failure. -/
inductive Walk : Buffer → List Passage → Option (Failure Error) → Prop
  | finished (h : b.size ≤ b.position) : Walk b [] none
  | stopped (h : b.position < b.size) (hs : b.Suits wanted)
    (hr : (readOr fallback wanted b).result = .error e) : Walk b [] (some e)
  | passed (h : b.position < b.size) (hs : b.Suits wanted)
    (hr : (readOr fallback wanted).Yields b (.ok v) c) (rest : Walk c others outcome) :
    Walk b (⟨v, b.position, c.position⟩ :: others) outcome

def passages : Nat → List Cell → List Passage
  | _, [] => []
  | start, c :: cells =>
    ⟨c.value, start, start + c.size.toNat⟩ :: passages (start + c.size.toNat) cells

/-- What the scan and the reads from `start` on come to: all the cells, or the cells up to the first
place where none is whole, and there the same refusal but for the kind that is wanted. -/
inductive Together (start : Nat) :
    Except (Failure Error) (List Cell) → List Passage → Option (Failure Error) → Prop
  | whole (cells : List Cell) : Together start (.ok cells) (passages start cells) none
  | bare (front : List Cell) (hp : p = start + Cell.extent front) :
    Together start (.error (.refused (.uninitializedRead p))) (passages start front)
      (some (.refused (.uninitializedRead p)))
  | torn (front : List Cell) (hp : p = start + Cell.extent front) (wanted : Tag) {size : UInt32} :
    Together start (.error (.refused (.tornRead none p text size found offset)))
      (passages start front) (some (.refused (.tornRead (some wanted) p text size found offset)))

variable {b : Buffer} {cell : Cell} {cells : List Cell} {wanted : Tag} {passed : List Passage}
  {outcome : Option (Failure Error)} {bytes : List UInt8}

theorem Together.cons {r : Except (Failure Error) (List Cell)}
    (h : Together (start + cell.size.toNat) r passed outcome) :
    Together start (r.map (cell :: ·))
      (⟨cell.value, start, start + cell.size.toNat⟩ :: passed) outcome := by
  have hextent (front : List Cell) :
      start + cell.size.toNat + Cell.extent front = start + Cell.extent (cell :: front) := by
    rw [Cell.extent_cons, Nat.add_assoc]
  cases h with
  | whole cells => exact .whole (cell :: cells)
  | bare front hp => exact .bare (cell :: front) (hp.trans (hextent front))
  | torn front hp wanted => exact .torn (cell :: front) (hp.trans (hextent front)) wanted

abbrev moved (b : Buffer) (p : Nat) : Buffer := { b with position := p, justExtended := false }

/-- Whether a cell is whole does not depend on the kind that is wanted, and a refusal only names it. -/
theorem Sound.wholeCell_outcome (hb : b.Sound) (p : Nat) :
    (b.cellAt p = .ok none ∧ ∀ w, b.wholeCell w p = .error (.refused (.uninitializedRead p))) ∨
    ∃ cell, b.cellAt p = .ok (some cell) ∧ ((∀ w, b.wholeCell w p = .ok cell) ∨
      ∃ found offset, ∀ w, b.wholeCell w p =
        .error (.refused (.tornRead w p cell.value.text cell.size found offset))) := by
  cases ho : b.owner p with
  | none =>
    refine .inl ⟨?_, fun w => hb.wholeCell_empty ho w⟩
    rw [hb.cellAt_eq, Owners.cell, ho, Option.map_none]
  | some x =>
    obtain ⟨id, cell⟩ := x
    refine .inr ⟨cell, by rw [hb.cellAt_eq, Owners.cell_of_eq ho], ?_⟩
    cases hbreak : b.firstBreak id p (reach p cell) with
    | none =>
      refine .inl fun w => ?_
      rw [hb.wholeCell_eq ho, hbreak]
    | some offset =>
      refine .inr ⟨(b.owner.cell offset).map (·.value.text), offset, fun w => ?_⟩
      rw [hb.wholeCell_eq ho, hbreak]
      rfl

theorem readOr_refused (h : p < b.size) (hw : b.wholeCell (some wanted) p = .error e)
    (fallback : Value) : (readOr fallback wanted).Yields (b.moved p) (.error e) (b.moved p) := by
  rw [← wholeCell_moved b p] at hw
  exact (next_error (peek_error h hw)).stop

section
variable (hb : b.Sound) (hm : b.rules.maxCapacity.toNat < Size.largest)
include hb hm

theorem Sound.cellsFrom_found (h : start < b.size) (hw : b.wholeCell none start = .ok cell) :
    b.cellsFrom start = (b.cellsFrom (start + cell.size.toNat)).map (cell :: ·) :=
  hb.cellsFrom_of_le h hw (hb.stop_le hm hw)

theorem Sound.readOr_whole (h : p < b.size) (hw : b.wholeCell (some cell.value.tag) p = .ok cell)
    (fallback : Value) : (readOr fallback cell.value.tag).Yields (b.moved p) (.ok cell.value)
      (b.moved (p + cell.size.toNat)) := by
  rw [← wholeCell_moved b p] at hw
  have hn := next_some ((hb.seek (Nat.le_of_lt h)).peek_ok hm h hw)
  rw [if_pos rfl] at hn
  exact readOr_yields hn fallback

theorem Sound.scans (start : Nat) : Scans b start (b.cellsFrom start) := by
  induction hn : b.size - start using Nat.strongRecOn generalizing start with
  | ind n ih =>
    by_cases h : start < b.size
    · cases hw : b.wholeCell none start with
      | error e =>
        rw [cellsFrom_stopped h hw]
        exact .stopped h hw
      | ok cell =>
        have hpos := (hb.padded_of_wholeCell hw).1
        rw [hb.cellsFrom_found hm h hw]
        exact .found h hw (ih (b.size - (start + cell.size.toNat)) (by omega) _ rfl)
    · rw [cellsFrom_end (Nat.le_of_not_lt h)]
      exact .finished (Nat.le_of_not_lt h)

/-- The reads come to an end, as every cell that they pass over has bytes. -/
theorem Sound.exists_walk (p : Nat) : ∃ passed outcome, Walk (b.moved p) passed outcome := by
  induction hn : b.size - p using Nat.strongRecOn generalizing p with
  | ind n ih =>
    by_cases h : p < b.size
    · rcases hb.wholeCell_outcome p with ⟨hat, hbare⟩ | ⟨cell, hat, hwhole | ⟨found, offset, htorn⟩⟩
      · have hs : (b.moved p).Suits .int := fun cell hc => by cases hat.symm.trans hc
        exact ⟨_, _, .stopped h hs (readOr_refused h (hbare _) (.int 0)).result⟩
      · have hs : (b.moved p).Suits cell.value.tag := fun d hd => by cases hat.symm.trans hd; rfl
        have hpos := (hb.padded_of_wholeCell (hwhole none)).1
        obtain ⟨passed, outcome, hrest⟩ :=
          ih (b.size - (p + cell.size.toNat)) (by omega) (p + cell.size.toNat) rfl
        exact ⟨_, _, .passed h hs (hb.readOr_whole hm h (hwhole _) cell.value) hrest⟩
      · have hs : (b.moved p).Suits cell.value.tag := fun d hd => by cases hat.symm.trans hd; rfl
        exact ⟨_, _, .stopped h hs (readOr_refused h (htorn _) cell.value).result⟩
    · exact ⟨_, _, .finished (Nat.le_of_not_lt h)⟩

/-- By induction on the reads: each passes over the cell that the scan finds, or is refused where the
scan is. -/
theorem Sound.together (hw : Walk (b.moved p) passed outcome) :
    Together p (b.cellsFrom p) passed outcome := by
  generalize hc : b.moved p = c at hw
  induction hw generalizing p with
  | finished h =>
    subst hc
    change b.size ≤ p at h
    rw [cellsFrom_end h]
    exact .whole []
  | @stopped fallback wanted d e h hs hr =>
    subst hc
    change p < b.size at h
    -- over a whole cell the read would not have failed, as it is of the cell's kind
    rcases hb.wholeCell_outcome p with ⟨-, hbare⟩ | ⟨cell, hat, hwhole | ⟨found, offset, htorn⟩⟩
    · rw [cellsFrom_stopped h (hbare _)]
      cases (readOr_refused h (hbare _) fallback).result.symm.trans hr
      exact .bare [] rfl
    · obtain rfl := hs cell hat
      cases (hb.readOr_whole hm h (hwhole _) fallback).result.symm.trans hr
    · obtain rfl := hs cell hat
      rw [cellsFrom_stopped h (htorn _)]
      cases (readOr_refused h (htorn _) fallback).result.symm.trans hr
      exact .torn [] rfl _
  | @passed fallback wanted c v d others outcome h hs hr hrest ih =>
    subst hc
    change p < b.size at h
    rcases hb.wholeCell_outcome p with ⟨-, hbare⟩ | ⟨cell, hat, hwhole | ⟨found, offset, htorn⟩⟩
    · cases (readOr_refused h (hbare _) fallback).result.symm.trans hr.result
    · obtain rfl := hs cell hat
      have hy := hb.readOr_whole hm h (hwhole _) fallback
      cases hy.result.symm.trans hr.result
      obtain rfl := hy.state.symm.trans hr.state
      rw [hb.cellsFrom_found hm h (hwhole _)]
      exact (ih rfl).cons
    · obtain rfl := hs cell hat
      cases (readOr_refused h (htorn _) fallback).result.symm.trans hr.result

end

theorem Cell.length_le_extent (h : ∀ c ∈ cells, c.Padded) : cells.length ≤ Cell.extent cells := by
  induction cells with
  | nil => exact Nat.le_refl 0
  | cons c cells ih =>
    obtain ⟨hc, hcells⟩ := List.forall_mem_cons.mp h
    have hpos := hc.1
    have hrest := ih hcells
    rw [List.length_cons, Cell.extent_cons]
    omega

/-- No buffer holds more cells than a word can count. -/
theorem Sound.spelled (hb : b.Sound) (hc : b.cells = .ok cells)
    (hp : Marshal.Puts (each Marshal.encodeEntry cells) bytes) :
    Marshal.Spells (Bytes.ofNat 4 cells.length ++ bytes) cells := by
  obtain ⟨-, hpad⟩ := hb.laid_of_cellsFrom (Nat.zero_le _) hc
  have hcount := Cell.length_le_extent hpad
  rw [hb.extent_cells hc] at hcount
  exact (hp.counted (Nat.le_trans hcount hb.size_le_largest)).spells hpad

theorem encode_refused (hc : b.cells = .error e) :
    encode.Yields b (.error (e.map Marshal.Error.buffer)) b :=
  ((yields_inspect hc).mapError Marshal.Error.buffer).stop

/-- The scan and the reads from the start end, and they end alike; a buffer is written as the cells of
the scan or refused with its refusal. -/
theorem cells_match_reads (h : Reachable b) (small : b.rules.maxCapacity.toNat ≤ 2147483648) :
    (Scans b 0 b.cells ∧ ∀ cells, b.cells = .ok cells → Cell.extent cells = b.size) ∧
    ((seek 0).Yields b (.ok ()) (b.moved 0) ∧
      (∃ passed outcome, Walk (b.moved 0) passed outcome) ∧
      ∀ passed outcome, Walk (b.moved 0) passed outcome → Together 0 b.cells passed outcome) ∧
    (∀ e, b.cells = .error e → encode.Yields b (.error (e.map Marshal.Error.buffer)) b) ∧
    ∀ cells, b.cells = .ok cells → encode.Yields b (Marshal.bytesOf cells) b ∧
      ((∀ c ∈ cells, c.value.Encodable) →
        ∃ bytes, Marshal.bytesOf cells = .ok bytes ∧ Marshal.Spells bytes cells) := by
  have hb := h.sound
  have hm : b.rules.maxCapacity.toNat < Size.largest := Nat.lt_of_le_of_lt small (by decide)
  refine ⟨⟨hb.scans hm 0, fun cells hc => hb.extent_cells hc⟩, ?_, fun e hc => encode_refused hc,
    fun cells hc => ⟨encode_outcome hc, fun hv => ?_⟩⟩
  · exact ⟨seek_yields (Nat.zero_le _), hb.exists_walk hm 0, fun _ _ hw => hb.together hm hw⟩
  · obtain ⟨x, hx⟩ := Marshal.puts_cells hv
    have hs := hb.spelled hc hx
    exact ⟨_, hs.bytesOf, hs⟩

/-- An int over the first half of a long: behind the int, the scan and the reads meet the other half. -/
theorem cells_match_reads_overwritten :
    let b := (Call.run (.edit (.write 4 (.int 5))) (Call.run (.edit (.seek 0))
      (Call.run (.edit (.write 8 (.long 7))) (empty { maxCapacity := 8 })).state).state).state
    b.cells = .error (.refused (.tornRead none 4 "7" 8 none 8)) ∧
      ∃ passed wanted, Walk (b.moved 0) passed
        (some (.refused (.tornRead (some wanted) 4 "7" 8 none 8))) := by
  intro b
  have h0 := Reachable.empty { maxCapacity := 8 }
  have h1 := h0.call (.edit (.write 8 (.long 7))) (by simp)
  have h2 := h1.call (.edit (.seek 0)) (by simp)
  have h : Reachable b := h2.call (.edit (.write 4 (.int 5))) (by simp)
  obtain ⟨-, ⟨-, ⟨passed, outcome, hw⟩, htogether⟩, -⟩ := cells_match_reads h (by decide)
  have hint : b.wholeCell none 0 = .ok ⟨4, .int 5⟩ := rfl
  have hlong : b.wholeCell none 4 = .error (.refused (.tornRead none 4 "7" 8 none 8)) := rfl
  have hc : b.cells = .error (.refused (.tornRead none 4 "7" 8 none 8)) := by
    rw [Buffer.cells, h.sound.cellsFrom_found (by decide) (by decide) hint]
    exact congrArg (Except.map _) (cellsFrom_stopped (by decide) hlong)
  have ht := htogether passed outcome hw
  rw [hc] at ht
  cases ht with
  | torn front hp wanted => exact ⟨hc, _, wanted, hw⟩

end Parcel.Buffer
