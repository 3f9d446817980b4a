import Parcel.Proofs.Faults
import Parcel.Proofs.Scanning

/-!
Cells beyond the last 32-bit offset. Whether a cell is whole is looked for up to that offset and no
further.
-/
namespace Parcel.Buffer
open Parcel.Action

variable {b : Buffer} {cell : Cell}

/-- What is looked for is found with all its bytes, in the data, and neither reads nor the scan come upon
a position that is none. -/
structure SpansExact (b : Buffer) : Prop where
  inspected : ∀ wanted start cell, b.wholeCell wanted start = .ok cell →
    start + cell.size.toNat ≤ b.size ∧ b.size ≤ Size.largest ∧ b.Intact start cell
  reading : ∀ p ≤ b.size, ∀ wanted, Unbroken (next wanted (b.moved p)).result
  scanning : Unbroken b.cells

theorem Sound.wholeCell_cases (hb : b.Sound) (h : b.wholeCell w start = .ok cell) :
    (start + cell.size.toNat ≤ b.size ∧ b.Intact start cell) ∨ b.Overhangs start cell := by
  have hpad := hb.padded_of_wholeCell h
  by_cases hl : start + cell.size.toNat ≤ Size.largest
  · have hwhole := hb.whole_of_wholeCell h hl
    exact .inl ⟨Whole.end_le hb hwhole hpad, hb.intact_iff.mpr ⟨hpad.1, hwhole⟩⟩
  · exact .inr (hb.overhangs_of_wholeCell h (Nat.lt_of_not_le hl))

theorem Sound.wholeCell_of_overhangs (hb : b.Sound) (h : b.Overhangs start cell) (w : Option Tag) :
    b.wholeCell w start = .ok cell := by
  obtain ⟨id, hc, hnamed⟩ := h.named
  have hinside := h.inside
  have hfull := h.full
  have ho : b.owner start = some (id, cell) := by
    refine Segment.owner_eq_some.mpr ⟨?_, hc⟩
    exact (hb.slot_eq_name start).symm.trans (hnamed start (Nat.le_refl _) hinside)
  have hf : b.firstBreak id start (reach start cell) = none := by
    refine (firstBreak_eq_none b id start _).mpr fun k hk => ?_
    exact hnamed (start + k) (Nat.le_add_right _ _) (by unfold reach at hk; omega)
  rw [hb.wholeCell_eq ho, hf]

theorem Overhangs.not_le (h : b.Overhangs start cell) : ¬ start + cell.size.toNat ≤ b.size :=
  Nat.not_le.mpr (h.full ▸ h.beyond)

theorem Sound.not_spansExact (hb : b.Sound) (h : b.Overhangs start cell) : ¬ b.SpansExact :=
  fun hx => h.not_le (hx.inspected none start cell (hb.wholeCell_of_overhangs h none)).1

theorem Overhangs.advanced (h : b.Overhangs start cell) :
    advanced start cell.size.toNat = .error (.positionOverflow (start + cell.size.toNat)) := if_pos h.beyond

/-- The read that should find the cell torn adds up a position that is none. -/
theorem Sound.next_overhangs (hb : b.Sound) (h : b.Overhangs start cell) (wanted : Tag) :
    (next wanted).Yields (b.moved start)
      (.error (.broken (.positionOverflow (start + cell.size.toNat)))) (b.moved start) := by
  have hw := hb.wholeCell_of_overhangs h (some wanted)
  rw [← wholeCell_moved b start] at hw
  refine next_error ?_
  unfold peek
  rw [if_neg (Nat.not_le.mpr h.inside), hw]
  simp only [bind, Except.bind, h.advanced, trust_error]

theorem Sound.cellsFrom_overhangs (hb : b.Sound) (h : b.Overhangs start cell) :
    b.cellsFrom start = .error (.broken (.positionOverflow (start + cell.size.toNat))) := by
  rw [Buffer.cellsFrom, if_pos h.inside, hb.wholeCell_of_overhangs h none]
  simp only [bind, Except.bind, h.advanced, trust_error]

theorem Sound.spansExact (hb : b.Sound) (h : ∀ start cell, ¬ b.Overhangs start cell) :
    b.SpansExact := by
  have hfound {w start cell} (hw : b.wholeCell w start = .ok cell) :
      start + cell.size.toNat ≤ b.size ∧ b.Intact start cell :=
    (hb.wholeCell_cases hw).resolve_right (h start cell)
  have hspanned : b.Spanned := fun _ _ _ hw => (hfound hw).1
  constructor
  case inspected =>
    intro wanted start cell hw
    exact ⟨(hfound hw).1, hb.size_le_largest, (hfound hw).2⟩
  case reading =>
    intro p hp wanted
    have hmoved : (b.moved p).Spanned := fun w start cell hw =>
      hspanned ((wholeCell_moved b p w start).symm.trans hw)
    exact (Fit.next ⟨hb.seek hp, rfl⟩ hmoved wanted).unbroken
  case scanning => exact hb.cellsFrom_unbroken hspanned 0

/-- Reads and the scan find whole cells and nothing else, and no position that is none, unless a cell
hangs over the end of data of the largest size. Neither a read of that cell nor a scan that comes to it
finds out that it is torn. -/
theorem spans_exact (h : Reachable b) :
    (b.SpansExact ↔ ∀ start cell, ¬ b.Overhangs start cell) ∧
    ∀ start cell, b.Overhangs start cell →
      (∀ wanted, (next wanted).Yields (b.moved start)
        (.error (.broken (.positionOverflow (start + cell.size.toNat)))) (b.moved start)) ∧
      b.cellsFrom start = .error (.broken (.positionOverflow (start + cell.size.toNat))) := by
  have hb := h.sound
  refine ⟨⟨fun hx start cell hover => ?_, hb.spansExact⟩, fun start cell hover => ?_⟩
  · exact hb.not_spansExact hover hx
  · exact ⟨hb.next_overhangs hover, hb.cellsFrom_overhangs hover⟩

def oneLong : Buffer := ((Call.edit (.write 8 (.long 7))).run (empty {})).state

theorem oneLong_reachable : Reachable oneLong := (Reachable.empty {}).call _ (by simp)

theorem copy_half : ∃ s, oneLong.copy 0 4 = .ok s ∧ s.length = 4 ∧ s.cells = #[⟨8, .long 7⟩] ∧
    ∀ k < 4, s.slots.name k = some 0 :=
  ⟨_, rfl, rfl, rfl, by decide⟩

/-- Half of a long is all that is in an empty buffer, and it is found torn. -/
theorem spans_exact_half :
    let b := (append oneLong 0 4 (empty {})).state
    b.SpansExact ∧ ∀ wanted, b.wholeCell wanted 0 ≠ .ok ⟨8, .long 7⟩ := by
  intro b
  have h : Reachable b := (Reachable.empty {}).append oneLong_reachable 0 4
  have hx : b.SpansExact := (spans_exact h).1.mpr fun _ _ hover => absurd hover.full (by decide)
  refine ⟨hx, fun wanted hw => ?_⟩
  exact absurd (hx.inspected wanted 0 _ hw).1 (by decide)

theorem half_added (h : Reachable b) (he : b.position = b.size)
    (hn : b.size + 4 ≤ b.rules.maxCapacity.toNat) :
    ∃ c, Reachable c ∧ c.rules = b.rules ∧ c.size = b.size + 4 ∧
      ∃ id, c.arena[id]? = some ⟨8, .long 7⟩ ∧ ∀ i, b.size ≤ i → i < c.size → c.slot i = some id := by
  obtain ⟨s, hc, hlength, hcells, hslots⟩ := copy_half
  rw [← hlength] at hn ⊢
  have hadded := h.pasted oneLong_reachable he hc hn
  refine ⟨b.pasted s, hadded, rules_pasted b s, rfl, b.arena.size, ?_, fun i hl hu => ?_⟩
  · rw [arena_pasted, hcells, Array.getElem?_append_right (Nat.le_refl _), Nat.sub_self]
    rfl
  · change i < b.size + s.length at hu
    rw [hadded.sound.slot_eq_name, h.sound.name_pasted, if_pos ⟨hl, hu⟩, hslots _ (by omega)]
    rfl

/-- Half of a long where data of the largest size end. -/
theorem not_spans_exact_largest :
    ¬ ∀ b : Buffer, Reachable b → b.rules.check = .ok () → b.SpansExact := by
  intro hall
  let rules : Rules := { maxCapacity := 4294967295 }
  have hsized : Reachable ((empty rules).resized 4294967291) := (Reachable.empty rules).resized (by decide)
  have hend := hsized.seek (p := 4294967291) (Nat.le_refl _)
  obtain ⟨c, hc, hrules, hsize, hnamed⟩ := half_added hend rfl (by decide)
  have hover : c.Overhangs 4294967291 ⟨8, .long 7⟩ :=
    ⟨hsize ▸ by decide, hsize, by decide, hnamed⟩
  exact hc.sound.not_spansExact hover (hall c hc (hrules ▸ rfl))

end Parcel.Buffer
