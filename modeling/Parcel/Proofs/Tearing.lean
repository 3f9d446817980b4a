import Parcel.Proofs.History
import Parcel.Proofs.Scanning

/-!
Where torn cells break off. What is written over a part of a cell, or cut off from it, leaves a rest of
the cell, and a read of the rest is refused with the first offset at which the cell is missing.
-/
namespace Parcel

namespace Owners

variable {α β : Type} {f : Owners α} {g : Owners β} {c d : Cell}

/-- A cell begins at `start`, or goes on there, and breaks off at `offset`, short of its size. -/
structure Breaks (f : Owners α) (start : Nat) (c : Cell) (offset : Nat) : Prop where
  before : start < offset
  short : offset < start + c.size.toNat
  cell : f.cell start = some c
  same : ∀ k, start ≤ k → k < offset → f.name k = f.name start
  other : f.name offset ≠ f.name start

theorem Breaks.of_matches (h : Matches f g) (hf : f.Breaks start c offset) :
    g.Breaks start c offset where
  before := hf.before
  short := hf.short
  cell := (h.cell start).symm.trans hf.cell
  same k hl hu := (h.name k start).mp (hf.same k hl hu)
  other he := hf.other ((h.name offset start).mpr he)

/-- A whole cell breaks off at the first place of it, from `start` on, that a patch takes away, and at its
own end if it is seen from behind its beginning. -/
theorem Whole.breaks {k : Owners α} {s : Nat → Prop} [DecidablePred s] (h : f.Whole p c)
    (hp : p ≤ start) (hl : start < offset) (hu : offset ≤ p + c.size.toNat)
    (hshort : offset < start + c.size.toNat) (hs : ∀ i, start ≤ i → i < offset → ¬ s i)
    (hother : ∀ x, f p = some (x, c) → (f.patched s k).name offset ≠ some x) :
    (f.patched s k).Breaks start c offset := by
  obtain ⟨x, hx⟩ := h
  have hkept (i : Nat) (hi : start ≤ i) (hlt : i < offset) : f.patched s k i = some (x, c) := by
    have hxi := hx (i - p) (by omega)
    rw [Nat.add_sub_cancel' (Nat.le_trans hp hi)] at hxi
    rw [patched_neg (hs i hi hlt), hxi]
  have hstart := hkept start (Nat.le_refl _) hl
  refine ⟨hl, hshort, cell_of_eq hstart, fun i hi hlt => ?_, ?_⟩
  · rw [name_of_eq (hkept i hi hlt), name_of_eq hstart]
  · rw [name_of_eq hstart]
    exact hother x (hx 0 (by omega))

theorem Whole.breaks_front (h : f.Whole start c) (hf : ∀ i, f.name i ≠ some a) (hd : 0 < d.size.toNat)
    (hl : start < q) (hu : q < start + c.size.toNat) :
    (f.patched (Span q d.size.toNat) (everywhere a d)).Breaks start c q := by
  refine h.breaks (Nat.le_refl _) hl (Nat.le_of_lt hu) hu (fun i _ hi hs => ?_) fun x hx he => ?_
  · exact Nat.not_le.mpr hi hs.1
  · rw [name_patched, if_pos ⟨Nat.le_refl _, Nat.lt_add_of_pos_right hd⟩] at he
    exact hf start ((name_of_eq hx).trans he.symm)

/-- The rest of a cell behind a shorter one that is written where it began. -/
theorem Whole.breaks_rest (h : f.Whole p c) (hn : f.Narrow) (hd : 0 < d.size.toNat)
    (hlt : d.size.toNat < c.size.toNat) :
    (f.patched (Span p d.size.toNat) (everywhere a d)).Breaks (p + d.size.toNat) c
      (p + c.size.toNat) := by
  have hspan (i : Nat) (hi : p + d.size.toNat ≤ i) : ¬ Span p d.size.toNat i :=
    fun hs => Nat.not_le.mpr hs.2 hi
  refine h.breaks (Nat.le_add_right _ _) (by omega) (Nat.le_refl _) (by omega)
    (fun i hi _ => hspan i hi) fun x hx he => ?_
  rw [name_patched, if_neg (hspan _ (by omega))] at he
  exact Nat.lt_irrefl _ (hn p _ x c hx he)

theorem Whole.breaks_cut (h : f.Whole start c) (hl : start < n) (hu : n < start + c.size.toNat) :
    (f.patched (n ≤ ·) nobody).Breaks start c n := by
  refine h.breaks (Nat.le_refl _) hl (Nat.le_of_lt hu) hu (fun i _ hi => Nat.not_le.mpr hi)
    fun x _ he => ?_
  rw [name_patched, if_pos (Nat.le_refl n)] at he
  cases he

/-- The written cell, seen from behind its beginning, up to its end. -/
theorem breaks_back (hf : ∀ i, f.name i ≠ some a) (hl : q < start) (hu : start < q + d.size.toNat) :
    (f.patched (Span q d.size.toNat) (everywhere a d)).Breaks start d (q + d.size.toNat) := by
  have hover (i : Nat) (hi : start ≤ i) (hlt : i < q + d.size.toNat) :
      f.patched (Span q d.size.toNat) (everywhere a d) i = some (a, d) :=
    patched_pos ⟨by omega, hlt⟩
  have hstart := hover start (Nat.le_refl _) hu
  refine ⟨hu, by omega, cell_of_eq hstart, fun i hi hlt => ?_, fun he => ?_⟩
  · rw [name_of_eq (hover i hi hlt), name_of_eq hstart]
  · rw [name_patched, if_neg (fun hs => Nat.lt_irrefl _ hs.2), name_of_eq hstart] at he
    exact hf _ he

end Owners

namespace Buffer
open Parcel.Action Owners

variable {b c : Buffer} {cell written : Cell} {size : UInt32} {value : Value}

/-- A read at `start`, of whatever kind, finds that the cell there breaks off at `offset`, where it finds
`found`, and leaves the cursor where it began. -/
def ReadsTorn (b : Buffer) (start : Nat) (cell : Cell) (found : Option String) (offset : Nat) : Prop :=
  ∀ fallback wanted, (readAt start fallback wanted).Yields b
    (.error (.refused (.tornRead (some wanted) start cell.value.text cell.size found offset)))
    (b.moved start)

/-- What reads find where `written` went over a part of `cell`, which began at `start`. `c` is the buffer
behind the write, `b` the one before. -/
structure Tears (b c : Buffer) (start : Nat) (cell written : Cell) : Prop where
  /-- The front of the cell breaks off where the written one begins. -/
  front : start < b.position → c.ReadsTorn start cell (some written.value.text) b.position
  /-- Within the written cell a read takes this for the one to read, and misses its front. -/
  inside : b.position < start → ∃ found,
    c.cellAt (b.position + written.size.toNat) = .ok found ∧
    (found = none ↔ c.size ≤ b.position + written.size.toNat ∨
      c.slots[b.position + written.size.toNat]? = some none) ∧
    c.ReadsTorn start written (found.map (·.value.text)) (b.position + written.size.toNat)
  /-- A shorter cell in the same place is read, and behind it the rest of the other breaks off. -/
  rest : b.position = start → written.size.toNat < cell.size.toNat →
    (∀ fallback wanted, (readAt start fallback wanted).Yields c
      (if written.value.tag = wanted then .ok written.value
        else .error (.refused (.typeMismatch start wanted written.value.tag)))
      (c.moved (start + written.size.toNat))) ∧
    ∃ found, c.cellAt (start + cell.size.toNat) = .ok found ∧
      c.ReadsTorn (start + written.size.toNat) cell (found.map (·.value.text))
        (start + cell.size.toNat)

theorem Sound.slot_eq_none (hb : b.Sound) (i : Nat) :
    b.slot i = none ↔ b.size ≤ i ∨ b.slots[i]? = some none := by
  unfold slot
  by_cases hi : i < b.size
  · have hlt : i < b.slots.size := Nat.lt_of_lt_of_le hi hb.stored
    simp [hi, Nat.not_le.mpr hi, Array.getElem?_eq_getElem hlt]
  · simp [hi, Nat.le_of_not_lt hi]

theorem Sound.wholeCell_breaks (hb : b.Sound) (h : b.owner.Breaks start cell offset)
    (hl : offset < Size.largest) (w : Option Tag) :
    b.wholeCell w start = .error (.refused (b.tornAt w start cell offset)) := by
  have hbefore := h.before
  have hshort := h.short
  obtain ⟨id, ho⟩ := exists_of_cell h.cell
  have hname := name_of_eq ho
  have hother : b.slot offset ≠ some id := by
    rw [hb.slot_eq, ← hname]
    exact h.other
  have hbreak : b.firstBreak id start (reach start cell) = some offset := by
    cases hf : b.firstBreak id start (reach start cell) with
    | none =>
      have hall := (firstBreak_eq_none b id start _).mp hf (offset - start) (by unfold reach; omega)
      rw [Nat.add_sub_cancel' (Nat.le_of_lt hbefore)] at hall
      exact absurd hall hother
    | some i =>
      obtain ⟨hstart, -, hi, hall⟩ := firstBreak_eq_some hf
      rcases Nat.lt_trichotomy i offset with hlt | rfl | hgt
      · refine absurd ?_ hi
        rw [hb.slot_eq, h.same i hstart hlt, hname]
      · rfl
      · exact absurd (hall offset (Nat.le_of_lt hbefore) hgt) hother
  rw [hb.wholeCell_eq ho, hbreak]

theorem Sound.readsTorn (hb : b.Sound) (hm : b.rules.maxCapacity.toNat < Size.largest)
    (h : b.owner.Breaks start cell offset) :
    b.ReadsTorn start cell ((b.owner.cell offset).map (·.value.text)) offset := by
  intro fallback wanted
  obtain ⟨id, ho⟩ := exists_of_cell h.cell
  -- the last offset before the break is one of the data
  have hlast : b.owner.name (offset - 1) = some id := by
    have hbefore := h.before
    rw [h.same (offset - 1) (by omega) (by omega), name_of_eq ho]
  obtain ⟨_, hlast⟩ := exists_of_name hlast
  have hsize := hb.lt_size hlast
  have hlimit := Nat.le_trans hb.stored hb.limited
  exact readAt_stopped (hb.lt_size ho) (hb.wholeCell_breaks h (by omega) _) fallback

theorem Sound.tears (hb : b.Sound) (hm : b.rules.maxCapacity.toNat < Size.largest)
    (hpad : written.Padded) (hfit : b.position + written.size.toNat ≤ b.rules.maxCapacity.toNat)
    (hal : (b.written written).Alike c) (hwhole : b.owner.Whole start cell)
    (hl : start < b.position + written.size.toNat) (hu : b.position < start + cell.size.toNat) :
    Tears b c start cell written := by
  have hc := hal.right
  have hmc : c.rules.maxCapacity.toNat < Size.largest := hal.rules ▸ hm
  have hmatch := hal.owner
  rw [hb.owner_written hfit] at hmatch
  constructor
  case front =>
    intro hlt
    have htorn := hc.readsTorn hmc
      ((hwhole.breaks_front hb.fresh hpad.1 hlt hu).of_matches hmatch)
    have hat : c.owner.cell b.position = some written := by
      rw [← hmatch.cell, cell_patched, if_pos ⟨Nat.le_refl _, Nat.lt_add_of_pos_right hpad.1⟩]
      rfl
    rwa [hat] at htorn
  case inside =>
    intro hlt
    refine ⟨_, hc.cellAt_eq _, ?_, hc.readsTorn hmc ((breaks_back hb.fresh hlt hl).of_matches hmatch)⟩
    rw [← name_eq_none, ← hc.slot_eq]
    exact hc.slot_eq_none _
  case rest =>
    rintro rfl hlt
    refine ⟨fun fallback wanted => ?_, _, hc.cellAt_eq _, hc.readsTorn hmc
      ((hwhole.breaks_rest hb.storage.narrow hpad.1 hlt).of_matches hmatch)⟩
    have hread := hb.whole_written hpad hfit hal
    have hat := hc.wholeCell_of_whole hread hpad (some wanted)
    have hsize := Whole.end_le hc hread hpad
    have hpos := hpad.1
    exact hc.readAt_found hmc (by omega) hat fallback

/-- A cell that is overwritten in part, or cut, is found torn in one place by every read that meets it:
where it is first missing. -/
theorem tearing_located (h : Reachable b) (small : b.rules.maxCapacity.toNat ≤ 2147483648)
    (intact : b.Intact start cell) :
    (∀ size value, (write size value b).result = .ok () →
      (∃ i, Span start cell.size.toNat i ∧ Span b.position (Size.padded size).toNat i) →
      Tears b (write size value b).state start cell ⟨Size.padded size, value⟩) ∧
    ∀ s, start < s → s < start + cell.size.toNat →
      ∃ c, (resize s).Yields b (.ok ()) c ∧ c.ReadsTorn start cell none s := by
  have hb := h.sound
  have hm : b.rules.maxCapacity.toNat < Size.largest := Nat.lt_of_le_of_lt small (by decide)
  obtain ⟨-, hwhole⟩ := hb.intact_iff.mp intact
  constructor
  · intro size value hok hoverlap
    obtain ⟨i, ⟨hsl, hsu⟩, hpl, hpu⟩ := hoverlap
    have h0 : Size.padded size ≠ 0 := Size.toNat_ne_zero.mpr (by omega)
    have hfit : b.position + (Size.padded size).toNat ≤ b.rules.maxCapacity.toNat := by
      refine Nat.le_of_not_lt fun hout => ?_
      cases (write_refused value h0 hout).result.symm.trans hok
    obtain ⟨c, hc, hal, -⟩ := write_yields value hb h0 hfit
    have hstart : start < b.position + (Size.padded size).toNat := Nat.lt_of_le_of_lt hsl hpu
    rw [hc.state]
    exact hb.tears hm (padded_cell h0 value) hfit hal hwhole hstart (Nat.lt_of_le_of_lt hpl hsu)
  · intro s hl hu
    have hend := hb.stop_le hm ((hb.wholeCell_ok_iff_intact hm none).mpr intact)
    have hs : s ≤ b.rules.maxCapacity.toNat :=
      Nat.le_trans (by omega) (Nat.le_trans hb.stored hb.limited)
    refine ⟨b.resized s, resize_yields hb hs, ?_⟩
    have hbreaks := hwhole.breaks_cut hl hu
    have hcut := (hb.resized hs).readsTorn hm (hb.owner_resized s ▸ hbreaks)
    have hnone : (b.resized s).owner.cell s = none := by
      rw [hb.owner_resized, cell_patched, if_pos (Nat.le_refl s)]
      rfl
    rwa [hnone] at hcut

/-- An int over the middle of a long, or an end that is cut off it. -/
theorem tearing_located_middle :
    let b := ((Call.edit (.seek 2)).run
      ((Call.edit (.write 8 (.long 7))).run (empty { maxCapacity := 8 })).state).state
    (write 4 (.int 5) b).state.ReadsTorn 0 ⟨8, .long 7⟩ (some "5") 2 ∧
      ∃ c, (resize 6).Yields b (.ok ()) c ∧ c.ReadsTorn 0 ⟨8, .long 7⟩ none 6 := by
  intro b
  have hlong := (Reachable.empty { maxCapacity := 8 }).call (.edit (.write 8 (.long 7))) (by simp)
  have h : Reachable b := hlong.call (.edit (.seek 2)) (by simp)
  have hintact : b.Intact 0 ⟨8, .long 7⟩ := ⟨by decide, 0, by decide, by decide⟩
  obtain ⟨hwrite, hcut⟩ := tearing_located h (by decide) hintact
  have htears := hwrite 4 (.int 5) rfl ⟨2, by decide, by decide⟩
  exact ⟨htears.front (by decide), hcut 6 (by decide) (by decide)⟩

end Buffer

end Parcel
