import Parcel.Buffer.Read
import Parcel.Proofs.Operations

/-!
Reads of single cells, said of the ownership: what a read finds depends on which offsets belong to the
same cell, never on names. A cell is found exactly where all the offsets that it was written with are
its own still.
-/
namespace Parcel.Buffer
open Parcel.Action

variable {b c : Buffer} {cell : Cell} {id : Nat} {wanted : Tag}

theorem firstBreak_eq_none (b : Buffer) (id offset count : Nat) :
    b.firstBreak id offset count = none ↔ ∀ k < count, b.slot (offset + k) = some id := by
  induction count generalizing offset with
  | zero => simp [firstBreak]
  | succ count ih =>
    rw [firstBreak]
    constructor
    · intro h k hk
      split at h
      · rename_i ho
        cases k with
        | zero => exact ho
        | succ k =>
          have := (ih (offset + 1)).mp h k (by omega)
          rwa [show offset + (k + 1) = offset + 1 + k by omega]
      · cases h
    · intro h
      have h0 : b.slot offset = some id := h 0 (by omega)
      rw [if_pos h0, ih]
      intro k hk
      have := h (k + 1) (by omega)
      rwa [show offset + 1 + k = offset + (k + 1) by omega]

/-- The first break is an offset of another owner, and all before it belong to the cell. -/
theorem firstBreak_eq_some (h : b.firstBreak id offset count = some i) :
    offset ≤ i ∧ i < offset + count ∧ b.slot i ≠ some id ∧
      ∀ k, offset ≤ k → k < i → b.slot k = some id := by
  induction count generalizing offset with
  | zero => cases h
  | succ count ih =>
    rw [firstBreak] at h
    split at h
    · rename_i ho
      obtain ⟨hl, hu, hn, hb⟩ := ih h
      refine ⟨by omega, by omega, hn, fun k hk hi => ?_⟩
      by_cases he : k = offset
      · exact he ▸ ho
      · exact hb k (by omega) hi
    · rename_i ho
      obtain rfl := Option.some.inj h
      exact ⟨Nat.le_refl _, by omega, ho, fun k hk hi => by omega⟩

theorem firstBreak_congr {x y : Nat} (h : ∀ i, b.slot i = some x ↔ c.slot i = some y)
    (offset count : Nat) : b.firstBreak x offset count = c.firstBreak y offset count := by
  induction count generalizing offset with
  | zero => rfl
  | succ count ih =>
    rw [firstBreak, firstBreak, ih]
    by_cases hx : b.slot offset = some x
    · rw [if_pos hx, if_pos ((h offset).mp hx)]
    · rw [if_neg hx, if_neg (fun hy => hx ((h offset).mpr hy))]

theorem Sound.slot_eq (hb : b.Sound) (i : Nat) : b.slot i = b.owner.name i := by
  rw [hb.slot_eq_name, hb.name_owner]

theorem Sound.cellAt_eq (hb : b.Sound) (i : Nat) : b.cellAt i = .ok (b.owner.cell i) := by
  unfold cellAt
  rw [hb.slot_eq]
  cases hi : b.owner.name i with
  | none => rw [Owners.name_eq_none.mp hi]
  | some id =>
    obtain ⟨cell, ho⟩ := Owners.exists_of_name hi
    have hc : b.arena.cell id = .ok cell := Arena.cell_eq (Segment.owner_eq_some.mp ho).2
    simp only [hc, Owners.cell_of_eq ho]
    rfl

theorem Sound.checkStorage_ok (hb : b.Sound) : checkStorage (ε := ε) b = .ok () :=
  if_neg (Nat.not_lt.mpr hb.stored)

theorem Sound.wholeCell_empty (hb : b.Sound) (h : b.owner start = none) (w : Option Tag) :
    b.wholeCell w start = .error (.refused (.uninitializedRead start)) := by
  have hs : b.slot start = none := by rw [hb.slot_eq, Owners.name, h, Option.map_none]
  rw [wholeCell, hb.checkStorage_ok, hs]
  rfl

/-- How far a read looks for the cell that an offset belongs to. -/
def reach (start : Nat) (cell : Cell) : Nat := min (start + cell.size.toNat) Size.largest - start

/-- The refusal that names the offset at which a cell breaks off. -/
def tornAt (b : Buffer) (w : Option Tag) (start : Nat) (cell : Cell) (offset : Nat) : Error :=
  .tornRead w start cell.value.text cell.size ((b.owner.cell offset).map (·.value.text)) offset

theorem Sound.wholeCell_eq (hb : b.Sound) (h : b.owner start = some (id, cell)) (w : Option Tag) :
    b.wholeCell w start = match b.firstBreak id start (reach start cell) with
      | none => .ok cell
      | some offset => .error (.refused (b.tornAt w start cell offset)) := by
  have hs : b.slot start = some id := by rw [hb.slot_eq, Owners.name_of_eq h]
  have hc : b.arena.cell id = .ok cell := Arena.cell_eq (Segment.owner_eq_some.mp h).2
  rw [wholeCell, hb.checkStorage_ok, hs]
  simp only [hc, bind, Except.bind, trust_ok]
  change (match b.firstBreak id start (reach start cell) with
    | none => _
    | some offset => _) = _
  cases b.firstBreak id start (reach start cell) with
  | none => rfl
  | some offset =>
    simp only [torn, hb.cellAt_eq offset]
    rfl

theorem Sound.owner_of_wholeCell (hb : b.Sound) (h : b.wholeCell w start = .ok cell) :
    ∃ id, b.owner start = some (id, cell) ∧ b.firstBreak id start (reach start cell) = none := by
  cases ho : b.owner start with
  | none =>
    rw [hb.wholeCell_empty ho] at h
    cases h
  | some x =>
    obtain ⟨id, d⟩ := x
    rw [hb.wholeCell_eq ho] at h
    split at h
    · rename_i hf
      obtain rfl := Except.ok.inj h
      exact ⟨id, rfl, hf⟩
    · cases h

theorem Sound.padded_of_wholeCell (hb : b.Sound) (h : b.wholeCell w start = .ok cell) :
    cell.Padded := by
  obtain ⟨id, ho, -⟩ := hb.owner_of_wholeCell h
  exact hb.storage.padded_of_owner ho

/-- A cell is whole where it was written. -/
theorem Sound.whole_written (hb : b.Sound) (hc : cell.Padded)
    (h : b.position + cell.size.toNat ≤ b.rules.maxCapacity.toNat)
    (hal : (b.written cell).Alike c) : c.owner.Whole b.position cell := by
  have hmatch := hal.owner
  rw [hb.owner_written h] at hmatch
  refine (Owners.whole_iff hmatch hc.1).mp ⟨b.arena.size, fun k hk => ?_⟩
  exact Owners.patched_pos ⟨Nat.le_add_right _ _, Nat.add_lt_add_left hk _⟩

/-- A cell that ends within the 32-bit offsets is looked at as a whole. -/
theorem Sound.whole_of_wholeCell (hb : b.Sound) (h : b.wholeCell w start = .ok cell)
    (hl : start + cell.size.toNat ≤ Size.largest) : b.owner.Whole start cell := by
  obtain ⟨id, ho, hf⟩ := hb.owner_of_wholeCell h
  have hc := (Segment.owner_eq_some.mp ho).2
  refine ⟨id, fun k hk => ?_⟩
  have hs := (firstBreak_eq_none b id start _).mp hf k (by unfold reach; omega)
  rw [hb.slot_eq_name] at hs
  exact Segment.owner_eq_some.mpr ⟨hs, hc⟩

theorem Sound.wholeCell_of_whole (hb : b.Sound) (h : b.owner.Whole start cell) (hc : cell.Padded)
    (w : Option Tag) : b.wholeCell w start = .ok cell := by
  obtain ⟨id, ho⟩ := h
  have hstart : b.owner start = some (id, cell) := ho 0 hc.1
  have hf : b.firstBreak id start (reach start cell) = none := by
    rw [firstBreak_eq_none]
    intro k hk
    rw [hb.slot_eq]
    exact Owners.name_of_eq (ho k (by unfold reach at hk; omega))
  rw [hb.wholeCell_eq hstart, hf]

/-- A cell begins in data of the largest size there is and has more bytes than there are left, and all of
these belong to it. -/
structure Overhangs (b : Buffer) (start : Nat) (cell : Cell) : Prop where
  inside : start < b.size
  full : b.size = Size.largest
  beyond : Size.largest < start + cell.size.toNat
  named : ∃ id, b.arena[id]? = some cell ∧ ∀ i, start ≤ i → i < b.size → b.slot i = some id

/-- Where a cell is found that does not end within the 32-bit offsets, it was looked for no further than
they go. -/
theorem Sound.overhangs_of_wholeCell (hb : b.Sound) (h : b.wholeCell w start = .ok cell)
    (hl : Size.largest < start + cell.size.toNat) : b.Overhangs start cell := by
  obtain ⟨id, ho, hf⟩ := hb.owner_of_wholeCell h
  have hreach := (firstBreak_eq_none b id start _).mp hf
  have hlt := hb.lt_size ho
  have hfull : b.size = Size.largest := by
    refine Nat.le_antisymm hb.size_le_largest (Nat.le_of_not_lt fun hsize => ?_)
    have hs := hreach (b.size - start) (by unfold reach; omega)
    rw [hb.slot_eq, Owners.name, hb.owner_bare (by omega), Option.map_none] at hs
    cases hs
  refine ⟨hlt, hfull, hl, id, (Segment.owner_eq_some.mp ho).2, fun i hle hi => ?_⟩
  have hs := hreach (i - start) (by unfold reach; omega)
  rwa [Nat.add_sub_cancel' hle] at hs

/-- Below the last 32-bit offset a whole cell lies in the data, so reads find the whole cells and no
others. -/
theorem Sound.wholeCell_ok_iff (hb : b.Sound) (hm : b.rules.maxCapacity.toNat < Size.largest) :
    b.wholeCell w start = .ok cell ↔ b.owner.Whole start cell ∧ cell.Padded := by
  constructor
  · intro h
    refine ⟨hb.whole_of_wholeCell h (Nat.le_of_not_lt fun hl => ?_), hb.padded_of_wholeCell h⟩
    exact Nat.not_le.mpr hm ((hb.overhangs_of_wholeCell h hl).full ▸ hb.size_le_limit)
  · intro hx
    obtain ⟨h, hc⟩ := hx
    exact hb.wholeCell_of_whole h hc w

/-- All cells of a sound buffer cover whole words. -/
theorem Sound.wholeCell_ok_iff_whole (hb : b.Sound) (hm : b.rules.maxCapacity.toNat < Size.largest)
    (w : Option Tag) :
    b.wholeCell w start = .ok cell ↔ 0 < cell.size.toNat ∧ b.owner.Whole start cell := by
  rw [hb.wholeCell_ok_iff hm]
  constructor
  · intro h
    exact ⟨h.2.1, h.1⟩
  · intro h
    obtain ⟨hpos, id, ho⟩ := h
    exact ⟨⟨id, ho⟩, hb.storage.padded_of_owner (ho 0 hpos)⟩

/-- All the bytes that a cell was written with, those from `start` on, belong to it still. -/
def Intact (b : Buffer) (start : Nat) (cell : Cell) : Prop :=
  0 < cell.size.toNat ∧ ∃ id, b.arena[id]? = some cell ∧
    ∀ k < cell.size.toNat, b.slot (start + k) = some id

theorem Sound.intact_iff (hb : b.Sound) :
    b.Intact start cell ↔ 0 < cell.size.toNat ∧ b.owner.Whole start cell := by
  refine and_congr_right fun hpos => ?_
  constructor
  · intro h
    obtain ⟨id, hc, hs⟩ := h
    refine ⟨id, fun k hk => Segment.owner_eq_some.mpr ⟨?_, hc⟩⟩
    exact (hb.slot_eq_name _).symm.trans (hs k hk)
  · intro h
    obtain ⟨id, ho⟩ := h
    refine ⟨id, (Segment.owner_eq_some.mp (ho 0 hpos)).2, fun k hk => ?_⟩
    rw [hb.slot_eq, Owners.name_of_eq (ho k hk)]

theorem Sound.wholeCell_ok_iff_intact (hb : b.Sound)
    (hm : b.rules.maxCapacity.toNat < Size.largest) (w : Option Tag) :
    b.wholeCell w start = .ok cell ↔ b.Intact start cell := by
  rw [hb.wholeCell_ok_iff_whole hm, hb.intact_iff]

theorem Whole.end_le (hb : b.Sound) (h : b.owner.Whole start cell) (hc : cell.Padded) :
    start + cell.size.toNat ≤ b.size := by
  obtain ⟨id, ho⟩ := h
  have := hc.1
  have := hb.lt_size (ho (cell.size.toNat - 1) (by omega))
  omega

theorem Alike.wholeCell (h : b.Alike c) (w : Option Tag) (start : Nat) :
    b.wholeCell w start = c.wholeCell w start := by
  cases ho : b.owner start with
  | none =>
    have hn := (h.owner.none_iff start).mp (by rw [Owners.name, ho, Option.map_none])
    rw [h.left.wholeCell_empty ho, h.right.wholeCell_empty (Option.map_eq_none_iff.mp hn)]
  | some x =>
    obtain ⟨id, cell⟩ := x
    obtain ⟨id', ho', -⟩ := h.owner.symm.transfer ho ho
    have hslot : ∀ i, b.slot i = some id ↔ c.slot i = some id' := by
      intro i
      rw [h.left.slot_eq, h.right.slot_eq, ← Owners.name_of_eq ho, ← Owners.name_of_eq ho',
        h.owner.name]
    have htorn : ∀ i, b.tornAt w start cell i = c.tornAt w start cell i := by
      intro i
      rw [tornAt, tornAt, h.owner.cell]
    rw [h.left.wholeCell_eq ho, h.right.wholeCell_eq ho', firstBreak_congr hslot]
    split
    · rfl
    · rw [htorn]

/-- Where the cursor stands does not matter to where cells are whole. -/
theorem wholeCell_moved (b : Buffer) (p : Nat) (w : Option Tag) (start : Nat) :
    wholeCell { b with position := p, justExtended := false } w start = b.wholeCell w start := by
  have hslot (id i : Nat) : slot { b with position := p, justExtended := false } i = some id ↔
      b.slot i = some id := Iff.rfl
  have hbreak (id offset count : Nat) :
      firstBreak { b with position := p, justExtended := false } id offset count =
        b.firstBreak id offset count := firstBreak_congr (hslot id) offset count
  unfold wholeCell
  simp only [hbreak]
  rfl

theorem Alike.peek (h : b.Alike c) (wanted : Tag) : b.peek wanted = c.peek wanted := by
  rw [Buffer.peek, Buffer.peek, h.position, h.size, h.justExtended, h.rules, h.wholeCell]

theorem peek_some (h : b.peek wanted = .ok (some (cell, stop))) :
    b.position < b.size ∧ stop ≤ b.size ∧ b.wholeCell (some wanted) b.position = .ok cell ∧
      b.position + cell.size.toNat ≤ Size.largest ∧
      stop = min b.size (b.position + cell.size.toNat) := by
  unfold peek at h
  split at h
  · split at h <;> cases h
  · cases hw : b.wholeCell (some wanted) b.position with
    | error e => rw [hw] at h; cases h
    | ok d =>
      rw [hw] at h
      simp only [bind, Except.bind, advanced] at h
      split at h
      · cases h
      · rename_i hlt hl hv
        split at hv
        · cases hv
        · cases hv
          cases h
          exact ⟨by omega, Nat.min_le_left _ _, rfl, by omega, rfl⟩

theorem peek_error (hp : b.position < b.size)
    (hw : b.wholeCell (some wanted) b.position = .error e) : b.peek wanted = .error e := by
  unfold peek
  rw [if_neg (Nat.not_le.mpr hp), hw]
  rfl

/-- The cells that are found lie in the data with all their bytes. -/
def Spanned (b : Buffer) : Prop :=
  ∀ ⦃w : Option Tag⦄ ⦃start : Nat⦄ ⦃cell : Cell⦄, b.wholeCell w start = .ok cell →
    start + cell.size.toNat ≤ b.size

theorem Sound.stop_le (hb : b.Sound) (hm : b.rules.maxCapacity.toNat < Size.largest)
    (hw : b.wholeCell w start = .ok cell) : start + cell.size.toNat ≤ b.size := by
  obtain ⟨hwhole, hpad⟩ := (hb.wholeCell_ok_iff hm).mp hw
  exact Whole.end_le hb hwhole hpad

theorem Sound.spanned (hb : b.Sound) (hm : b.rules.maxCapacity.toNat < Size.largest) : b.Spanned :=
  fun _ _ _ => hb.stop_le hm

theorem Sound.advanced_of_le (hb : b.Sound) (h : start + cell.size.toNat ≤ b.size) :
    advanced start cell.size.toNat = .ok (start + cell.size.toNat) :=
  if_neg (Nat.not_lt.mpr (Nat.le_trans h hb.size_le_largest))

theorem Sound.advanced_ok (hb : b.Sound) (hm : b.rules.maxCapacity.toNat < Size.largest)
    (hw : b.wholeCell w start = .ok cell) :
    advanced start cell.size.toNat = .ok (start + cell.size.toNat) :=
  hb.advanced_of_le (hb.stop_le hm hw)

theorem Sound.peek_of_le (hb : b.Sound) (hp : b.position < b.size)
    (hw : b.wholeCell (some wanted) b.position = .ok cell)
    (hle : b.position + cell.size.toNat ≤ b.size) :
    b.peek wanted = .ok (some (cell, b.position + cell.size.toNat)) := by
  unfold peek
  rw [if_neg (Nat.not_le.mpr hp), hw]
  simp only [bind, Except.bind, hb.advanced_of_le hle, trust_ok, Nat.min_eq_right hle]
  rfl

theorem Sound.peek_ok (hb : b.Sound) (hm : b.rules.maxCapacity.toNat < Size.largest)
    (hp : b.position < b.size) (hw : b.wholeCell (some wanted) b.position = .ok cell) :
    b.peek wanted = .ok (some (cell, b.position + cell.size.toNat)) :=
  hb.peek_of_le hp hw (hb.stop_le hm hw)

theorem cellsFrom_end (h : b.size ≤ start) : b.cellsFrom start = .ok [] := by
  rw [Buffer.cellsFrom, if_neg (Nat.not_lt.mpr h)]

theorem cellsFrom_stopped (h : start < b.size) (hw : b.wholeCell none start = .error e) :
    b.cellsFrom start = .error e := by
  rw [Buffer.cellsFrom, if_pos h, hw]
  rfl

/-- The list goes on behind a cell with all its bytes in the data. -/
theorem Sound.cellsFrom_of_le (hb : b.Sound) (hlt : start < b.size)
    (hw : b.wholeCell none start = .ok cell) (hle : start + cell.size.toNat ≤ b.size) :
    b.cellsFrom start = (b.cellsFrom (start + cell.size.toNat)).map (cell :: ·) := by
  have hpos := (hb.padded_of_wholeCell hw).1
  rw [Buffer.cellsFrom, if_pos hlt, hw]
  simp only [bind, Except.bind, hb.advanced_of_le hle, trust_ok]
  rw [if_neg (by omega)]
  cases b.cellsFrom (start + cell.size.toNat) <;> rfl

theorem peek_yields (h : b.peek wanted = r) :
    (inspect fun b : Buffer => b.peek wanted).Yields b r b := yields_inspect h

theorem next_end (h : b.peek wanted = .ok none) : (next wanted).Yields b (.ok none) b := by
  refine (yields_gets _ b).bind ((peek_yields h).bind ?_)
  exact yields_pure _ b

theorem next_error (h : b.peek wanted = .error e) : (next wanted).Yields b (.error e) b := by
  refine (yields_gets _ b).bind ?_
  exact (peek_yields h).stop

/-- A value of another kind is passed over and refused. -/
theorem next_some (h : b.peek wanted = .ok (some (cell, stop))) :
    (next wanted).Yields b
      (if cell.value.tag = wanted then .ok (some cell.value)
        else .error (.refused (.typeMismatch b.position wanted cell.value.tag)))
      { b with position := stop } := by
  refine (yields_gets _ b).bind ((peek_yields h).bind ?_)
  refine (yields_modify _ b).bind ?_
  split
  · exact yields_pure _ _
  · exact yields_refuse _ _

theorem readOr_yields {found : Option Value} (h : (next wanted).Yields b (.ok found) c)
    (fallback : Value) : (readOr fallback wanted).Yields b (.ok (found.getD fallback)) c :=
  h.bind (yields_pure _ _)

theorem Steady.next_agree {R : Buffer → Buffer → Prop} (hR : Steady R) (wanted : Tag) :
    Agree R (next wanted) (next wanted) := by
  intro b c h
  have hp := (hR.alike h).peek wanted
  rcases hb : b.peek wanted with e | _ | ⟨cell, stop⟩
  · exact (next_error hb).agree (next_error (hp ▸ hb)) h
  · exact (next_end hb).agree (next_end (hp ▸ hb)) h
  · obtain ⟨hlt, hle, -⟩ := peek_some hb
    exact (next_some hb).agree ((hR.alike h).position ▸ next_some (hp ▸ hb)) (hR.read_to h hlt hle)

/-- A list of cells begins with a whole cell, and the rest is listed from behind it. -/
theorem cellsFrom_ok (hlt : start < b.size) (h : b.cellsFrom start = .ok entries) :
    ∃ cell rest, entries = cell :: rest ∧ b.wholeCell none start = .ok cell ∧
      start + cell.size.toNat ≤ Size.largest ∧
      b.cellsFrom (start + cell.size.toNat) = .ok rest := by
  rw [Buffer.cellsFrom, if_pos hlt] at h
  cases hw : b.wholeCell none start with
  | error e =>
    rw [hw] at h
    cases h
  | ok cell =>
    simp only [hw, bind, Except.bind, advanced] at h
    by_cases hl : Size.largest < start + cell.size.toNat
    · rw [if_pos hl, trust_error] at h
      cases h
    · rw [if_neg hl, trust_ok] at h
      dsimp only at h
      split at h
      · cases h
      · split at h
        · cases h
        · rename_i rest hrest
          cases h
          exact ⟨cell, rest, rfl, rfl, by omega, hrest⟩

theorem Alike.cellsFrom (h : b.Alike c) (start : Nat) : b.cellsFrom start = c.cellsFrom start := by
  fun_induction b.cellsFrom start with
  | case1 start hlt ih =>
    rw [Buffer.cellsFrom.eq_def c start, if_pos (h.size ▸ hlt), ← h.wholeCell]
    refine bind_congr fun cell => bind_congr fun stop => ?_
    by_cases hs : stop ≤ start
    · rw [if_pos hs, if_pos hs]
    · rw [if_neg hs, if_neg hs, ih stop hs]
  | case2 start hge => rw [Buffer.cellsFrom, if_neg (h.size ▸ hge)]

end Parcel.Buffer
