import Parcel.Proofs.History
import Parcel.Proofs.Reachable

/-!
Bytes of one buffer at the end of another. The data that were there are read as before, and of what was
added can be read the cells that the range did not cut.
-/
namespace Parcel.Buffer
open Parcel.Action Owners

variable {b c source : Buffer} {s : Segment} {cell : Cell} {wanted : Tag} {id : Nat}

/-- Why a range cannot be added to a buffer, in the order in which it is asked. -/
def appendRefusal (b source : Buffer) (offset length : Nat) : Option Error :=
  if b.position ≠ b.size then some (.appendNotAtEnd b.position b.size)
  else if source.capacity < offset + length then
    some (.outOfBounds .appendRangeEnd (offset + length) source.capacity)
  else if b.rules.maxCapacity.toNat < b.size + length then
    some (.capacityExceeded (b.size + length) b.rules.maxCapacity)
  else none

/-- Both reads met a cell that breaks off at `stop`, the first with nothing there. -/
def BreakOff (stop : Nat) (before now : Except (Failure Error) Value) : Prop :=
  ∃ wanted start text size found,
    before = .error (.refused (.tornRead wanted start text size none stop)) ∧
    now = .error (.refused (.tornRead wanted start text size found stop))

/-- Two reads that end alike, but for what is found where a cell breaks off at `stop`. -/
structure SameRead (stop : Nat) (before now : Ran Buffer Error Value) : Prop where
  position : before.state.position = now.state.position
  result : before.result = now.result ∨ BreakOff stop before.result now.result

theorem sameRead_of_yields {m n : Action Buffer Error Value} (hm : m.Yields b r t)
    (hn : n.Yields c r' t') (hp : t.position = t'.position) (hr : r = r' ∨ BreakOff stop r r') :
    SameRead stop (m b) (n c) := by
  obtain ⟨rfl, rfl⟩ := hm
  obtain ⟨rfl, rfl⟩ := hn
  exact ⟨hp, hr⟩

/-- Copied offsets have names of their own. -/
theorem Sound.slot_pasted (hb : b.Sound) (hs : s.Sound)
    (hfit : b.size + s.length ≤ b.rules.maxCapacity.toNat) (ho : b.owner p = some (id, cell)) (i : Nat) :
    (b.pasted s).slot i = some id ↔ b.slot i = some id := by
  rw [(hb.pasted hs hfit).slot_eq, hb.slot_eq, hb.owner_pasted, name_patched]
  split
  · rename_i hi
    have hbare : b.owner.name i = none := name_eq_none.mpr (by rw [Owners.cell, hb.owner_bare hi.1]; rfl)
    rw [hbare]
    exact iff_of_false (hb.apart_renamed s p i id (name_of_eq ho)) (by simp)
  · exact Iff.rfl

theorem Sound.owner_pasted_old (hb : b.Sound) (s : Segment) (hi : i < b.size) :
    (b.pasted s).owner i = b.owner i := by
  rw [hb.owner_pasted, patched_neg (fun h => by have := h.1; omega)]

/-- A cell of the old data breaks off where it did, at the old end at the latest. -/
theorem Sound.wholeCell_pasted (hb : b.Sound) (hs : s.Sound)
    (hfit : b.size + s.length ≤ b.rules.maxCapacity.toNat) (hp : p < b.size) (w : Option Tag) :
    (b.pasted s).wholeCell w p = b.wholeCell w p ∨ ∃ text size found,
      b.wholeCell w p = .error (.refused (.tornRead w p text size none b.size)) ∧
      (b.pasted s).wholeCell w p = .error (.refused (.tornRead w p text size found b.size)) := by
  have hc := hb.pasted hs hfit
  have hold := hb.owner_pasted_old s hp
  cases ho : b.owner p with
  | none =>
    rw [hb.wholeCell_empty ho, hc.wholeCell_empty (hold.trans ho)]
    exact .inl rfl
  | some x =>
    obtain ⟨id, cell⟩ := x
    rw [hb.wholeCell_eq ho, hc.wholeCell_eq (hold.trans ho),
      firstBreak_congr (hb.slot_pasted hs hfit ho)]
    cases hbreak : b.firstBreak id p (reach p cell) with
    | none => exact .inl rfl
    | some i =>
      obtain ⟨hl, -, -, hall⟩ := firstBreak_eq_some hbreak
      by_cases hi : i < b.size
      · have hcell : (b.pasted s).owner.cell i = b.owner.cell i := by
          rw [Owners.cell, Owners.cell, hb.owner_pasted_old s hi]
        refine .inl ?_
        dsimp only
        rw [tornAt, tornAt, hcell]
      · -- nothing but the cell lies before the break, and behind the data lies nothing
        have hend : i = b.size := by
          by_cases he : i = b.size
          · exact he
          · have hslot := hall b.size (by omega) (by omega)
            rw [hb.slot_eq, Owners.name, hb.owner_bare (Nat.le_refl _)] at hslot
            cases hslot
        subst hend
        have hnone : b.owner.cell b.size = none := by
          rw [Owners.cell, hb.owner_bare (Nat.le_refl _)]
          rfl
        refine .inr ⟨cell.value.text, cell.size, _, ?_, rfl⟩
        dsimp only
        rw [tornAt, hnone]
        rfl

theorem Sound.readAt_pasted_old (hb : b.Sound) (hs : s.Sound)
    (hm : b.rules.maxCapacity.toNat < Size.largest)
    (hfit : b.size + s.length ≤ b.rules.maxCapacity.toNat) (hp : p < b.size) (fallback : Value)
    (wanted : Tag) :
    SameRead b.size (readAt p fallback wanted b) (readAt p fallback wanted (b.pasted s)) := by
  have hp' : p < (b.pasted s).size := Nat.lt_of_lt_of_le hp (Nat.le_add_right _ _)
  rcases hb.wholeCell_pasted hs hfit hp (some wanted) with he | ⟨text, size, found, ho, hn⟩
  · cases hw : b.wholeCell (some wanted) p with
    | error e =>
      have hnew := readAt_stopped hp' (he.trans hw) fallback
      exact sameRead_of_yields (readAt_stopped hp hw fallback) hnew rfl (.inl rfl)
    | ok cell =>
      have hnew := (hb.pasted hs hfit).readAt_found hm hp' (he.trans hw) fallback
      exact sameRead_of_yields (hb.readAt_found hm hp hw fallback) hnew rfl (.inl rfl)
  · have hnew := readAt_stopped hp' hn fallback
    exact sameRead_of_yields (readAt_stopped hp ho fallback) hnew rfl
      (.inr ⟨_, _, _, _, _, rfl, rfl⟩)

/-- Whole in the copy are the cells that the range has whole. -/
theorem Sound.whole_pasted (hb : b.Sound) (hm : (source.owner.window offset length).Matches s.owner)
    (hc : 0 < cell.size.toNat) (k : Nat) :
    (b.pasted s).owner.Whole (b.size + k) cell ↔
      source.owner.Whole (offset + k) cell ∧ k + cell.size.toNat ≤ length := by
  have hrenamed := matches_renamed (r := (b.arena.size + ·)) (fun _ _ => Nat.add_left_cancel) s.owner
  have hnone (i : Nat) (hi : s.length ≤ i) : s.owner.renamed (b.arena.size + ·) i = none := by
    rw [renamed, Segment.owner_none_of_le hi]
    rfl
  rw [hb.owner_pasted, whole_behind (fun i => hb.owner_bare) hnone, ← whole_iff hrenamed hc,
    ← whole_iff hm hc, whole_window hc]

/-- A read that gives a value of the data ends where its cell ends. -/
theorem Sound.readAt_ends (hb : b.Sound) (hm : b.rules.maxCapacity.toNat < Size.largest)
    (hp : p < b.size) (fallback v : Value) (stop : Nat) :
    (readAt p fallback wanted b).result = .ok v ∧ (readAt p fallback wanted b).state.position ≤ stop ↔
      wanted = v.tag ∧ ∃ cell : Cell, cell.value = v ∧ 0 < cell.size.toNat ∧ b.owner.Whole p cell ∧
        p + cell.size.toNat ≤ stop := by
  have hstate (cell : Cell) (hc : 0 < cell.size.toNat ∧ b.owner.Whole p cell) :
      (readAt p fallback wanted b).state.position = p + cell.size.toNat := by
    have hw := (hb.wholeCell_ok_iff_whole hm (some wanted)).mpr hc
    rw [(hb.readAt_found hm hp hw fallback).state]
  rw [hb.readAt_ok_iff hm hp]
  constructor
  · intro h
    obtain ⟨⟨htag, cell, hv, hc, hw⟩, hle⟩ := h
    exact ⟨htag, cell, hv, hc, hw, hstate cell ⟨hc, hw⟩ ▸ hle⟩
  · intro h
    obtain ⟨htag, cell, hv, hc, hw, hle⟩ := h
    exact ⟨⟨htag, cell, hv, hc, hw⟩, (hstate cell ⟨hc, hw⟩).symm ▸ hle⟩

/-- What is left of a buffer to which a range was added. -/
structure Appended (b source : Buffer) (offset length : Nat) (c : Buffer) : Prop where
  position : c.position = c.size
  size : c.size = b.size + length
  capacity : c.capacity = max b.capacity c.size
  old : ∀ p < b.size, ∀ fallback wanted,
    SameRead b.size (readAt p fallback wanted b) (readAt p fallback wanted c)
  new : ∀ p, offset ≤ p → p < offset + length → ∀ fallback wanted v,
    (readAt (b.size + (p - offset)) fallback wanted c).result = .ok v ↔
      p < source.size ∧ (readAt p fallback wanted source).result = .ok v ∧
        (readAt p fallback wanted source).state.position ≤ offset + length

theorem Sound.appended (hb : b.Sound) (hsource : source.Sound)
    (hm : b.rules.maxCapacity.toNat < Size.largest)
    (hm' : source.rules.maxCapacity.toNat < Size.largest) (he : b.position = b.size)
    (hs : s.Sound) (hl : s.length = length)
    (hcopy : (source.owner.window offset length).Matches s.owner)
    (hfit : b.size + length ≤ b.rules.maxCapacity.toNat) :
    Appended b source offset length (b.pasted s) := by
  subst hl
  have hc := hb.pasted hs hfit
  refine ⟨?_, rfl, capacity_pasted b s, fun p hp fallback wanted =>
    hb.readAt_pasted_old hs hm hfit hp fallback wanted, ?_⟩
  · change min b.position (b.size + s.length) + s.length = b.size + s.length
    omega
  · intro p hle hlt fallback wanted v
    have hp : b.size + (p - offset) < (b.pasted s).size := by
      change _ < b.size + s.length
      omega
    have hwhole (cell : Cell) (hpos : 0 < cell.size.toNat) :
        (b.pasted s).owner.Whole (b.size + (p - offset)) cell ↔
          source.owner.Whole p cell ∧ p + cell.size.toNat ≤ offset + s.length := by
      rw [hb.whole_pasted hcopy hpos, show offset + (p - offset) = p by omega]
      exact and_congr_right fun _ => by omega
    rw [hc.readAt_ok_iff hm hp]
    constructor
    · intro h
      obtain ⟨htag, cell, hv, hpos, hw⟩ := h
      obtain ⟨hw, hend⟩ := (hwhole cell hpos).mp hw
      obtain ⟨id, ho⟩ := hw
      have hlt := hsource.lt_size (ho 0 hpos)
      exact ⟨hlt, (hsource.readAt_ends hm' hlt fallback v _).mpr
        ⟨htag, cell, hv, hpos, ⟨id, ho⟩, hend⟩⟩
    · intro h
      obtain ⟨hlt, hread⟩ := h
      obtain ⟨htag, cell, hv, hpos, hw, hend⟩ :=
        (hsource.readAt_ends hm' hlt fallback v _).mp hread
      exact ⟨htag, cell, hv, hpos, (hwhole cell hpos).mpr ⟨hw, hend⟩⟩

/-- A range is added to a buffer or refused for a reason that can be told beforehand, and then the buffer
stays as it was. -/
theorem append_outcome (h : Reachable b) (h' : Reachable source)
    (small : b.rules.maxCapacity.toNat ≤ 2147483648)
    (small' : source.rules.maxCapacity.toNat ≤ 2147483648) (offset length : Nat) :
    match b.appendRefusal source offset length with
    | some e => (append source offset length).Yields b (.error (.refused e)) b
    | none => ∃ c, (append source offset length).Yields b (.ok ()) c ∧
        Appended b source offset length c := by
  have hb := h.sound
  have hlargest : 2147483648 < Size.largest := by decide
  unfold appendRefusal
  by_cases he : b.position ≠ b.size
  · rw [if_pos he]
    exact append_misplaced source he
  · rw [if_neg he]
    have he := Decidable.not_not.mp he
    by_cases hout : source.capacity < offset + length
    · rw [if_pos hout]
      exact append_unreadable he (copy_refused hout)
    · rw [if_neg hout]
      obtain ⟨s, hcopy, hl, hs, hmatch⟩ := copy_matches h'.sound (Nat.le_of_not_lt hout)
      by_cases hfull : b.rules.maxCapacity.toNat < b.size + length
      · rw [if_pos hfull]
        have hno := append_yields he hcopy (paste_refused he (hl ▸ hfull))
        rwa [hl] at hno
      · rw [if_neg hfull]
        have hfit := Nat.le_of_not_lt hfull
        refine ⟨b.pasted s, append_yields he hcopy (paste_yields hb he (hl ▸ hfit)), ?_⟩
        exact hb.appended h'.sound (Nat.lt_of_le_of_lt small hlargest)
          (Nat.lt_of_le_of_lt small' hlargest) he hs hl hmatch hfit

/-- An int and the first half of a long, added to the buffer that they come from. -/
theorem append_outcome_itself :
    let b := (Call.run (.edit (.write 8 (.long 7)))
      (Call.run (.edit (.write 4 (.int 5))) (empty { maxCapacity := 64 })).state).state
    ∃ c, (append b 0 8).Yields b (.ok ()) c ∧ c.size = b.size + 8 ∧
      (readAt b.size (.int 0) .int c).result = .ok (.int 5) ∧
      (readAt (b.size + 4) (.long 0) .long c).result ≠ .ok (.long 7) := by
  intro b
  have h : Reachable b :=
    ((Reachable.empty { maxCapacity := 64 }).call _ (by simp)).call _ (by simp)
  have hb := append_outcome h h (by decide) (by decide) 0 8
  have hnone : b.appendRefusal b 0 8 = none := by decide
  rw [hnone] at hb
  obtain ⟨c, hc, happended⟩ := hb
  refine ⟨c, hc, happended.size, ?_, fun hlong => ?_⟩
  · exact (happended.new 0 (by decide) (by decide) (.int 0) .int (.int 5)).mpr
      ⟨by decide, rfl, by decide⟩
  · have hcut := (happended.new 4 (by decide) (by decide) (.long 0) .long (.long 7)).mp hlong
    exact absurd hcut.2.2 (by decide)

end Parcel.Buffer
