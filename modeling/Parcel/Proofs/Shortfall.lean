import Parcel.Proofs.Items
import Parcel.Proofs.Reading

/-!
Whether a write leaves a cell of all the bytes that it was asked for.
-/
namespace Parcel

namespace Size

def widest : Nat := 4294967292

/-- `m` bytes are the least number of whole words that holds `n` bytes. -/
structure Rounds (n m : Nat) : Prop where
  words : m % 4 = 0
  enough : n ≤ m
  least : ∀ k, k % 4 = 0 → n ≤ k → m ≤ k

theorem rounds_aligned (n : Nat) : Rounds n (aligned n) where
  words := Nat.mul_mod_left _ 4
  enough := by
    unfold aligned
    omega
  least k hk hn := by
    unfold aligned
    omega

theorem padded_rounds {n : UInt32} (h : n.toNat ≤ widest) : Rounds n.toNat (padded n).toNat := by
  have hmin : (padded n).toNat = aligned n.toNat := by
    rw [toNat_padded, aligned]
    unfold widest at h
    omega
  rw [hmin]
  exact rounds_aligned n.toNat

theorem padded_widest {n : UInt32} (h : widest < n.toNat) : (padded n).toNat = widest := by
  rw [toNat_padded, aligned]
  unfold widest at h ⊢
  omega

end Size

namespace Buffer
open Parcel.Action

variable {b : Buffer} {size : UInt32} {value : Value}

/-- The write finds no room and changes nothing, or moves the cursor on by the least number of whole words
that holds `size` bytes and leaves a cell of just these behind it. -/
def Covers (b : Buffer) (size : UInt32) (value : Value) : Prop :=
  (∃ stop, (write size value).Yields b
    (.error (.refused (.capacityExceeded stop b.rules.maxCapacity))) b) ∨
  ∃ cell c, (write size value).Yields b (.ok ()) c ∧ Size.Rounds size.toNat cell.size.toNat ∧
    cell.value = value ∧ c.Intact b.position cell ∧ c.position = b.position + cell.size.toNat

/-- More bytes are asked for than whole words can hold, but there is room for all these words. -/
structure FallsShort (b : Buffer) (size : UInt32) : Prop where
  excess : Size.widest < size.toNat
  room : b.position + Size.widest ≤ b.rules.maxCapacity.toNat

theorem Sound.write_intact (hb : b.Sound) (value : Value) (h0 : size ≠ 0)
    (hfit : b.position + (Size.padded size).toNat ≤ b.rules.maxCapacity.toNat) :
    ∃ c, (write size value).Yields b (.ok ()) c ∧ c.Intact b.position ⟨Size.padded size, value⟩ ∧
      c.position = b.position + (Size.padded size).toNat := by
  have hpad := padded_cell (Size.padded_ne_zero h0) value
  obtain ⟨c, hc, hal, -⟩ := write_yields value hb (Size.padded_ne_zero h0) hfit
  have hwhole := hb.whole_written hpad hfit hal
  exact ⟨c, hc, hal.right.intact_iff.mpr ⟨hpad.1, hwhole⟩, hal.position.symm⟩

theorem Sound.covers (hb : b.Sound) (value : Value) (h0 : size ≠ 0) (h : ¬ b.FallsShort size) :
    b.Covers size value := by
  by_cases hfit : b.position + (Size.padded size).toNat ≤ b.rules.maxCapacity.toNat
  · have hle : size.toNat ≤ Size.widest := by
      refine Nat.le_of_not_lt fun hexcess => h ⟨hexcess, ?_⟩
      rwa [Size.padded_widest hexcess] at hfit
    obtain ⟨c, hc, hintact, hposition⟩ := hb.write_intact value h0 hfit
    exact .inr ⟨_, c, hc, Size.padded_rounds hle, rfl, hintact, hposition⟩
  · exact .inl ⟨_, write_refused value (Size.padded_ne_zero h0) (Nat.lt_of_not_le hfit)⟩

theorem Sound.write_short (hb : b.Sound) (value : Value) (h : b.FallsShort size) :
    ∃ c, (write size value).Yields b (.ok ()) c ∧
      c.Intact b.position ⟨.ofNat Size.widest, value⟩ ∧ c.position = b.position + Size.widest := by
  have hsize := Size.padded_widest h.excess
  have hword : Size.padded size = .ofNat Size.widest := UInt32.toNat_inj.mp (hsize.trans rfl)
  have h0 : size ≠ 0 := Size.toNat_ne_zero.mpr (Nat.zero_lt_of_lt h.excess)
  have hwrite := hb.write_intact value h0 (hsize ▸ h.room)
  rwa [hsize, hword] at hwrite

theorem Sound.not_covers (hb : b.Sound) (value : Value) (h : b.FallsShort size) :
    ¬ b.Covers size value := by
  have hexcess := h.excess
  obtain ⟨c, hc, -, hposition⟩ := hb.write_short value h
  rintro (⟨stop, hrefused⟩ | ⟨cell, c', hc', hrounds, -, -, hposition'⟩)
  · cases hc.result.symm.trans hrefused.result
  · obtain rfl : c = c' := hc.state.symm.trans hc'.state
    have henough := hrounds.enough
    omega

/-- A write leaves a cell of all the bytes that it was asked for, or none, unless it asks for more than
there are whole words and the limit lets it have these. Then it leaves a cell of these. -/
theorem write_covers (h : Reachable b) (value : Value) (h0 : size ≠ 0) :
    (b.Covers size value ↔ ¬ b.FallsShort size) ∧
    (b.FallsShort size → ∃ c, (write size value).Yields b (.ok ()) c ∧
      c.Intact b.position ⟨.ofNat Size.widest, value⟩ ∧ c.position = b.position + Size.widest) := by
  have hb := h.sound
  refine ⟨⟨fun hcovers hshort => ?_, hb.covers value h0⟩, hb.write_short value⟩
  exact hb.not_covers value hshort hcovers

/-- Under the default limit the largest size is refused, and nine bytes take twelve. Under a limit of all
whole words, the largest size takes these. -/
theorem write_covers_nine :
    (empty {}).Covers 4294967295 (.int 1) ∧ (empty {}).Covers 9 (.long 7) ∧
      ∃ c, (write 4294967295 (.int 1)).Yields (empty { maxCapacity := 4294967292 }) (.ok ()) c ∧
        c.Intact 0 ⟨4294967292, .int 1⟩ ∧ c.position = 0 + Size.widest := by
  have hdefault (size : UInt32) : ¬ (empty {}).FallsShort size := fun h => absurd h.room (by decide)
  refine ⟨?_, ?_, ?_⟩
  · exact (write_covers (.empty {}) (.int 1) (by decide)).1.mpr (hdefault _)
  · exact (write_covers (.empty {}) (.long 7) (by decide)).1.mpr (hdefault _)
  · exact (write_covers (.empty { maxCapacity := 4294967292 }) (.int 1) (by decide)).2
      ⟨by decide, by decide⟩

theorem not_covers_largest : ¬ ∀ (b : Buffer) (size : UInt32) (value : Value), Reachable b →
    b.rules.check = .ok () → size ≠ 0 → b.Covers size value := by
  intro h
  have hempty := Reachable.empty { maxCapacity := 4294967292 }
  have hcovers := h _ 4294967295 (.int 1) hempty rfl (by decide)
  exact hempty.sound.not_covers (.int 1) ⟨by decide, by decide⟩ hcovers

end Buffer

end Parcel
