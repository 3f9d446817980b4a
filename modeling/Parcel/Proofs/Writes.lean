import Parcel.Proofs.Layout
import Parcel.Proofs.Operations

/-!
Writes one behind the other, up to the first that finds no room.
-/
namespace Parcel

/-- The cell with the least number of whole words that holds its bytes. -/
def Cell.rounded (c : Cell) : Cell := ⟨Size.padded c.size, c.value⟩

theorem Cell.rounded_of_aligned {c : Cell} (h : c.size.toNat % 4 = 0) : c.rounded = c := by
  obtain ⟨size, value⟩ := c
  have h4 : size.toNat % 4 = 0 := h
  have hlt := size.toNat_lt
  have hsize : Size.padded size = size := by
    rw [← UInt32.toNat_inj, Size.toNat_padded, Size.aligned]
    omega
  rw [rounded, hsize]

namespace Buffer
open Parcel.Action Owners

variable {β : Type} {f : β → Cell} {s t : Buffer} {rules : Rules} {done : List Cell} {xs : List β}

/-- From `start` up to the cursor lie these cells, one behind the other. -/
structure Trail (s : Buffer) (rules : Rules) (start : Nat) (cells : List Cell) : Prop where
  sound : s.Sound
  rules : s.rules = rules
  laid : s.owner.Laid start cells s.position

theorem Trail.position_le (ht : s.Trail rules start done) :
    s.position ≤ rules.maxCapacity.toNat := by
  rw [← ht.rules]
  exact Nat.le_trans ht.sound.cursor (Nat.le_trans ht.sound.stored ht.sound.limited)

theorem Trail.extent_le (ht : s.Trail rules start done) :
    Cell.extent done ≤ rules.maxCapacity.toNat := by
  have hend := ht.laid.extent
  have := ht.position_le
  omega

theorem trail_start (hs : s.Sound) : s.Trail s.rules s.position [] := ⟨hs, rfl, rfl⟩

theorem Trail.write (ht : s.Trail rules start done) (size : UInt32) (value : Value)
    (h0 : Size.padded size ≠ 0)
    (hfit : s.position + (Size.padded size).toNat ≤ rules.maxCapacity.toNat) :
    ∃ t, (write size value).Yields s (.ok ()) t ∧
      t.Trail rules start (done ++ [⟨Size.padded size, value⟩]) ∧
      t.position = s.position + (Size.padded size).toNat ∧ t.size = max s.size t.position := by
  have hs := ht.sound
  rw [← ht.rules] at hfit
  obtain ⟨t, hy, hal, -⟩ := write_yields value hs h0 hfit
  have hpos : t.position = s.position + (Size.padded size).toNat := hal.position.symm
  have hc : 0 < (Size.padded size).toNat := Size.toNat_ne_zero.mp h0
  have hw (p : Nat) (d : Cell) (hd : 0 < d.size.toNat) : t.owner.Whole p d ↔
      (p = s.position ∧ d = ⟨Size.padded size, value⟩) ∨ (s.owner.Whole p d ∧
        ¬ (s.position < p + d.size.toNat ∧ p < s.position + (Size.padded size).toNat)) := by
    rw [whole_iff hal.owner.symm hd, hs.owner_written hfit]
    exact whole_written hs.fresh hc hd
  have hlast := (hw s.position ⟨Size.padded size, value⟩ hc).mpr (.inl ⟨rfl, rfl⟩)
  refine ⟨t, hy, ⟨hal.right, hal.rules.symm.trans ht.rules, ?_⟩, hpos, ?_⟩
  · rw [hpos]
    refine Laid.snoc (ht.laid.of_whole fun p d hd hle hwhole => ?_) hc hlast
    exact (hw p d hd).mpr (.inr ⟨hwhole, fun h => by omega⟩)
  · rw [hpos]
    exact hal.size.symm

def writeAll (f : β → Cell) : List β → Action Buffer Error Unit :=
  each fun x => write (f x).size (f x).value

def cellsOf (f : β → Cell) (xs : List β) : List Cell := xs.map fun x => (f x).rounded

theorem cellsOf_id {cells : List Cell} (h : ∀ c ∈ cells, c.size.toNat % 4 = 0) :
    cellsOf id cells = cells :=
  (List.map_congr_left fun c hc => Cell.rounded_of_aligned (h c hc)).trans (List.map_id cells)

/-- Writes that there is room for lay out what they write. -/
theorem Trail.writeAll (ht : s.Trail rules start done) (h0 : ∀ x ∈ xs, (f x).rounded.size ≠ 0)
    (hfit : s.position + Cell.extent (cellsOf f xs) ≤ rules.maxCapacity.toNat) :
    ∃ t, (writeAll f xs).Yields s (.ok ()) t ∧ t.Trail rules start (done ++ cellsOf f xs) ∧
      t.size = max s.size t.position := by
  induction xs generalizing s done with
  | nil =>
    refine ⟨s, yields_pure () s, ?_, (Nat.max_eq_left ht.sound.cursor).symm⟩
    rwa [cellsOf, List.map_nil, List.append_nil]
  | cons x xs ih =>
    obtain ⟨h0x, h0s⟩ := List.forall_mem_cons.mp h0
    change s.position + ((f x).rounded.size.toNat + Cell.extent (cellsOf f xs)) ≤ _ at hfit
    rw [← Nat.add_assoc] at hfit
    obtain ⟨u, hu, htu, hpu, hzu⟩ := ht.write (f x).size (f x).value h0x
      (Nat.le_trans (Nat.le_add_right _ _) hfit)
    obtain ⟨t, hy, htt, hzt⟩ := ih htu h0s (hpu ▸ hfit)
    have hend := htt.laid.extent
    rw [Cell.extent_append, ← Nat.add_assoc, htu.laid.extent] at hend
    rw [List.append_assoc] at htt
    exact ⟨t, hu.bind hy, htt, by omega⟩

/-- The writes were made up to one that finds no room. -/
structure StoppedAt (f : β → Cell) (s : Buffer) (xs kept : List β) (x : β) (t : Buffer) : Prop where
  split : ∃ rest, xs = kept ++ x :: rest
  before : (writeAll f kept).Yields s (.ok ()) t
  refused : (writeAll f xs).Yields s (.error (t.noRoom (f x).size)) t
  sound : t.Sound
  rules : t.rules = s.rules
  position : t.position = s.position + Cell.extent (cellsOf f kept)
  full : s.rules.maxCapacity.toNat < t.position + (f x).rounded.size.toNat

/-- Either all the writes are made, or they stop where there is no room. -/
theorem writeAll_outcome (hs : s.Sound) (f : β → Cell) (xs : List β) :
    (∃ t, (writeAll f xs).Yields s (.ok ()) t ∧ t.Sound ∧ t.rules = s.rules ∧
      t.position = s.position + Cell.extent (cellsOf f xs)) ∨
    ∃ kept x t, StoppedAt f s xs kept x t := by
  induction xs generalizing s with
  | nil => exact .inl ⟨s, yields_pure () s, hs, rfl, rfl⟩
  | cons x xs ih =>
    rcases write_outcome hs (f x).size (f x).value with ⟨u, hu, hsu, hru, hpu⟩ | ⟨hout, hno⟩
    · rcases ih hsu with ⟨t, ht, hst, hrt, hpt⟩ | ⟨kept, y, t, hstop⟩
      · refine .inl ⟨t, hu.bind ht, hst, hrt.trans hru, ?_⟩
        rw [hpt, hpu, Nat.add_assoc]
        rfl
      · obtain ⟨rest, hsplit⟩ := hstop.split
        refine .inr ⟨x :: kept, y, t, ⟨rest, congrArg (x :: ·) hsplit⟩, hu.bind hstop.before,
          hu.bind hstop.refused, hstop.sound, hstop.rules.trans hru, ?_, hru ▸ hstop.full⟩
        rw [hstop.position, hpu, Nat.add_assoc]
        rfl
    · exact .inr ⟨[], x, s, ⟨xs, rfl⟩, yields_pure () s, hno.stop, hs, rfl, rfl, hout⟩

end Buffer

end Parcel
