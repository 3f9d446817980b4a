import Parcel.Proofs.Fields

/-!
Values and cells through bytes and back.
-/
namespace Parcel

namespace Marshal
open Parcel.Action

variable {α : Type} {e : Encoder} {d : Decoder α} {a : α} {v : Value} {cell : Cell}
  {cells : List Cell} {bytes : List UInt8}

/-- The encoder puts some bytes into any sink without bound, and whatever follows them the decoder takes
exactly these and gives `a`. -/
def Carries (e : Encoder) (d : Decoder α) (a : α) : Prop :=
  ∃ bytes, Puts e bytes ∧ ∀ rest, d.Yields (bytes ++ rest) (.ok a) rest

theorem Codes.takes (h : Codes e d a) (hp : Puts e bytes) (rest : List UInt8) :
    d.Yields (bytes ++ rest) (.ok a) rest := by
  obtain ⟨hr, hs⟩ := hp (.bounded none) rfl
  obtain ⟨taken, hstate, htake⟩ := h (.bounded none) rfl hr
  have hsame : taken = bytes := by
    simpa [Sink.bounded] using congrArg Sink.written (hstate.symm.trans hs)
  exact hsame ▸ htake rest

theorem Codes.carries (h : Codes e d a) (hp : Puts e bytes) : Carries e d a := ⟨bytes, hp, h.takes hp⟩

theorem puts_value (h : v.Encodable) : ∃ x, Puts (encodeValue v) x := ⟨_, (fills_value h).puts⟩

theorem puts_entry (h : cell.value.Encodable) : ∃ x, Puts (encodeEntry cell) x :=
  ⟨_, (fills_entry h).puts⟩

theorem puts_cells (h : ∀ c ∈ cells, c.value.Encodable) : ∃ x, Puts (each encodeEntry cells) x :=
  ⟨_, (fills_cells h).puts⟩

theorem Puts.counted (h : Puts (each encodeEntry cells) bytes) (hl : cells.length ≤ Size.largest) :
    Puts (encodeEntries cells) (Bytes.ofNat 4 cells.length ++ bytes) := by
  unfold encodeEntries
  rw [if_neg (Nat.not_lt.mpr hl)]
  exact (fills_count hl).puts.bind h

/-- Values, cells and lists of cells are written and read back from whatever bytes they stand before, as
they were and with nothing taken from what follows. -/
theorem encoders_carry :
    (∀ v : Value, v.Encodable → Carries (encodeValue v) (decodeValue v.tag) v) ∧
    (∀ cell : Cell, cell.Padded → cell.value.Encodable →
      Carries (encodeEntry cell) decodeEntry cell) ∧
    (∀ cells : List Cell, (∀ c ∈ cells, c.Padded) → (∀ c ∈ cells, c.value.Encodable) →
      cells.length ≤ Size.largest → Carries (encodeEntries cells) decodeEntries cells) := by
  refine ⟨fun v hv => ?_, fun cell hc hv => ?_, fun cells hc hv hl => ?_⟩
  · obtain ⟨x, hx⟩ := puts_value hv
    exact (codes_value v).carries hx
  · obtain ⟨x, hx⟩ := puts_entry hv
    exact (codes_entry hc).carries hx
  · obtain ⟨x, hx⟩ := puts_cells hv
    exact (codes_entries cells hc).carries (hx.counted hl)

/-- A NaN with a payload, an absent binder and a text of two bytes, with the start of something else
behind them. -/
theorem encoders_carry_nan :
    let cells : List Cell := [⟨4, .float 0x7fc00001⟩, ⟨20, .binder none⟩, ⟨8, .string (some "é")⟩]
    let bytes : List UInt8 := [3, 0, 0, 0, 4, 0, 0, 0, 3, 1, 0, 192, 127, 20, 0, 0, 0, 7, 0,
      8, 0, 0, 0, 5, 1, 2, 0, 0, 0, 195, 169]
    Puts (encodeEntries cells) bytes ∧
      decodeEntries.Yields (bytes ++ [1, 0]) (.ok cells) [1, 0] := by
  intro cells bytes
  obtain ⟨-, -, h⟩ := encoders_carry
  obtain ⟨taken, hp, hd⟩ := h cells (by simp [cells, Cell.Padded]) (by decide) (by decide)
  have hb : (encodeEntries cells (.bounded none)).state.written.toList = bytes := by decide
  rw [(hp (.bounded none) rfl).state] at hb
  obtain rfl : taken = bytes := by simpa [Sink.bounded] using hb
  exact ⟨hp, hd [1, 0]⟩

end Marshal

end Parcel
