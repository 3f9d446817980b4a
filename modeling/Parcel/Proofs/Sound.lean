import Parcel.Buffer.Append
import Parcel.Buffer.Write
import Parcel.Proofs.Capture

/-!
The invariant of buffers, `Sound`, and the states that the operations leave: `resized`, `written` and
`pasted`. Each of them is sound again, and its ownership is that of the old state with one patch.
-/
namespace Parcel.Size

/-- The least number of whole words, in bytes, that holds `n` bytes. -/
def aligned (n : Nat) : Nat := (n + 3) / 4 * 4

/-- Beyond the last whole word there is none to round up to. -/
theorem toNat_padded (n : UInt32) : (padded n).toNat = min (aligned n.toNat) 4294967292 := by
  unfold padded aligned largest
  split
  · rw [UInt32.toNat_ofNat_of_lt' (by simp only [UInt32.size]; omega)]
    omega
  · rw [UInt32.toNat_ofNat_of_lt' (by simp only [UInt32.size]; omega)]
    omega

theorem padded_mod (n : UInt32) : (padded n).toNat % 4 = 0 := by
  rw [toNat_padded, aligned]
  omega

theorem toNat_ne_zero {n : UInt32} : n ≠ 0 ↔ 0 < n.toNat := by
  rw [Nat.pos_iff_ne_zero, ne_eq, ne_eq, ← UInt32.toNat_inj]
  rfl

theorem mod_four_eq_zero {n : UInt32} : n % 4 = 0 ↔ n.toNat % 4 = 0 := by
  rw [← UInt32.toNat_inj, UInt32.toNat_mod]
  rfl

theorem le_grown (capacity stop : Nat) (h : stop ≤ largest) : stop ≤ grown capacity stop := by
  unfold grown
  split <;> omega

end Parcel.Size

namespace Parcel.Buffer

variable {b c : Buffer}

/-- The storage as a run of slots with its cells. -/
abbrev storage (b : Buffer) : Segment := ⟨b.arena, b.slots⟩

def owner (b : Buffer) : Owners Nat := b.storage.owner

theorem owner_apply (b : Buffer) (i : Nat) :
    b.owner i = (b.slots.name i).bind fun id => b.arena[id]?.map fun c => (id, c) := rfl

/-- What holds of a buffer between calls. Slots behind the data are empty, so what is cut off cannot come
back when the data grow. -/
structure Sound (b : Buffer) : Prop where
  cursor : b.position ≤ b.size
  stored : b.size ≤ b.capacity
  limited : b.capacity ≤ b.rules.maxCapacity.toNat
  storage : b.storage.Sound
  bare : ∀ i, b.size ≤ i → b.slots.name i = none
  extended : b.justExtended = true → b.position = b.size ∧ 0 < b.size

theorem limit_le_largest (b : Buffer) : b.rules.maxCapacity.toNat ≤ Size.largest :=
  Nat.le_of_lt_succ b.rules.maxCapacity.toNat_lt

theorem Sound.size_le_limit (h : b.Sound) : b.size ≤ b.rules.maxCapacity.toNat :=
  Nat.le_trans h.stored h.limited

theorem Sound.size_le_largest (h : b.Sound) : b.size ≤ Size.largest :=
  Nat.le_trans h.size_le_limit b.limit_le_largest

theorem Sound.name_owner (h : b.Sound) (i : Nat) : b.owner.name i = b.slots.name i :=
  h.storage.closed.name_owner i

theorem Sound.owner_bare (h : b.Sound) (hi : b.size ≤ i) : b.owner i = none := by
  rw [owner_apply, h.bare i hi, Option.bind_none]

theorem Sound.lt_size (h : b.Sound) (hi : b.owner i = some x) : i < b.size := by
  by_cases hlt : i < b.size
  · exact hlt
  · rw [h.owner_bare (Nat.le_of_not_lt hlt)] at hi
    cases hi

/-- No slot names the cell that comes next. -/
theorem Sound.fresh (h : b.Sound) (i : Nat) : b.owner.name i ≠ some b.arena.size := by
  intro hi
  exact Nat.lt_irrefl _ (h.storage.name_lt hi)

theorem Sound.slot_eq_name (h : b.Sound) (i : Nat) : b.slot i = b.slots.name i := by
  unfold slot
  split
  · rfl
  · rw [h.bare i (by omega)]

theorem sound_empty (rules : Rules) : (empty rules).Sound where
  cursor := Nat.le_refl 0
  stored := Nat.le_refl 0
  limited := Nat.zero_le _
  storage := Segment.sound_empty
  bare i _ := Slots.name_of_le (Nat.zero_le i)
  extended h := by cases h

theorem owner_empty (rules : Rules) : (empty rules).owner = Owners.nobody := by
  funext i
  exact Segment.owner_none_of_le (Nat.zero_le i)

/-- A move of the cursor alone, as reads make it. -/
theorem Sound.read_to (h : b.Sound) (hlt : b.position < b.size) (hp : p ≤ b.size) :
    Sound { b with position := p } where
  cursor := hp
  stored := h.stored
  limited := h.limited
  storage := h.storage
  bare := h.bare
  extended hx := absurd (h.extended hx).1 (Nat.ne_of_lt hlt)

theorem Sound.seek (h : b.Sound) (hp : p ≤ b.size) :
    Sound { b with position := p, justExtended := false } where
  cursor := hp
  stored := h.stored
  limited := h.limited
  storage := h.storage
  bare := h.bare
  extended hx := by cases hx

@[simp] theorem capacity_extended (b : Buffer) (n : Nat) :
    (b.extended n).capacity = max b.capacity n := by
  simp only [Buffer.extended, capacity, Array.size_append, Array.size_replicate]
  omega

theorem name_extended (b : Buffer) (n i : Nat) : (b.extended n).slots.name i = b.slots.name i :=
  Slots.name_append_replicate b.slots _ i

theorem owner_extended (b : Buffer) (n : Nat) : (b.extended n).owner = b.owner := by
  funext i
  rw [owner_apply, name_extended]
  rfl

/-- More storage changes nothing but the capacity. -/
theorem Sound.extended' (h : b.Sound) (hn : n ≤ b.rules.maxCapacity.toNat) : (b.extended n).Sound where
  cursor := h.cursor
  stored := by rw [capacity_extended]; exact Nat.le_trans h.stored (Nat.le_max_left _ _)
  limited := by rw [capacity_extended]; exact Nat.max_le.mpr ⟨h.limited, hn⟩
  storage := by
    refine ⟨fun i id hi => ?_, h.storage.padded, ?_⟩
    · exact h.storage.closed i id (by rwa [name_extended] at hi)
    · change (b.extended n).owner.Narrow
      rw [owner_extended]
      exact h.storage.narrow
  bare i hi := by rw [name_extended]; exact h.bare i hi
  extended := h.extended

@[simp] theorem capacity_cutAt (b : Buffer) (n : Nat) : (b.cutAt n).capacity = b.capacity :=
  Slots.size_fill _ _ _ _

theorem Sound.name_cutAt (h : b.Sound) (n i : Nat) :
    (b.cutAt n).slots.name i = if n ≤ i then none else b.slots.name i := by
  unfold cutAt
  rw [Slots.name_fill]
  by_cases hn : n ≤ i
  · rw [if_pos hn]
    split
    · rfl
    · by_cases hs : b.size ≤ i
      · exact h.bare i hs
      · exact Slots.name_of_le (by have := h.stored; unfold capacity at this; omega)
  · rw [if_neg hn, if_neg (by omega)]

theorem Sound.owner_cutAt (h : b.Sound) (n : Nat) :
    (b.cutAt n).owner = b.owner.patched (n ≤ ·) Owners.nobody := by
  funext i
  rw [owner_apply, h.name_cutAt, Owners.patched]
  split <;> rfl

/-- The buffer after its size was set. -/
def resized (b : Buffer) (n : Nat) : Buffer :=
  { (b.cutAt n).extended n with size := n, position := min b.position n, justExtended := false }

theorem rules_resized (b : Buffer) (n : Nat) : (b.resized n).rules = b.rules := rfl

theorem position_resized (b : Buffer) (n : Nat) : (b.resized n).position = min b.position n := rfl

theorem size_resized (b : Buffer) (n : Nat) : (b.resized n).size = n := rfl

theorem arena_resized (b : Buffer) (n : Nat) : (b.resized n).arena = b.arena := rfl

theorem capacity_resized (b : Buffer) (n : Nat) : (b.resized n).capacity = max b.capacity n := by
  change ((b.cutAt n).extended n).capacity = _
  rw [capacity_extended, capacity_cutAt]

theorem Sound.name_resized (h : b.Sound) (n i : Nat) :
    (b.resized n).slots.name i = if n ≤ i then none else b.slots.name i := by
  change ((b.cutAt n).extended n).slots.name i = _
  rw [name_extended, h.name_cutAt]

theorem Sound.owner_resized (h : b.Sound) (n : Nat) :
    (b.resized n).owner = b.owner.patched (n ≤ ·) Owners.nobody := by
  change ((b.cutAt n).extended n).owner = _
  rw [owner_extended, h.owner_cutAt]

theorem Sound.resized (h : b.Sound) (hn : n ≤ b.rules.maxCapacity.toNat) : (b.resized n).Sound where
  cursor := Nat.min_le_right _ _
  stored := by rw [capacity_resized]; exact Nat.le_max_right _ _
  limited := by rw [capacity_resized]; exact Nat.max_le.mpr ⟨h.limited, hn⟩
  storage := by
    refine ⟨?_, h.storage.padded, ?_⟩
    · intro i id hi
      rw [h.name_resized] at hi
      split at hi
      · cases hi
      · exact h.storage.closed i id hi
    · change (b.resized n).owner.Narrow
      rw [h.owner_resized]
      exact h.storage.narrow.patched _ (fun i j a c _ _ hi _ => by cases hi) (Owners.apart_nobody _)
  bare i hi := by
    rw [h.name_resized]
    exact if_pos hi
  extended hx := by cases hx

/-- The storage that a write up to `stop` asks for. -/
def room (b : Buffer) (stop : Nat) : Nat := min (Size.grown b.capacity stop) b.rules.maxCapacity.toNat

theorem le_room (b : Buffer) (h : stop ≤ b.rules.maxCapacity.toNat) : stop ≤ b.room stop :=
  Nat.le_min.mpr ⟨Size.le_grown _ _ (Nat.le_trans h b.limit_le_largest), h⟩

/-- The buffer after a cell was written at the cursor. -/
def written (b : Buffer) (cell : Cell) : Buffer :=
  (b.extended (b.room (b.position + cell.size.toNat))).placed cell

theorem capacity_written (b : Buffer) (cell : Cell) :
    (b.written cell).capacity = max b.capacity (b.room (b.position + cell.size.toNat)) := by
  rw [← capacity_extended]
  exact Slots.size_fill _ _ _ _

theorem name_written (b : Buffer) (h : b.position + cell.size.toNat ≤ b.rules.maxCapacity.toNat)
    (i : Nat) : (b.written cell).slots.name i =
      if Span b.position cell.size.toNat i then some b.arena.size else b.slots.name i := by
  have hroom := b.le_room h
  have hcap := capacity_extended b (b.room (b.position + cell.size.toNat))
  unfold written placed
  change Slots.name (Slots.fill (b.extended _).slots _ b.position _) i = _
  rw [Slots.name_fill, name_extended]
  unfold capacity at hcap
  by_cases hi : Span b.position cell.size.toNat i
  · have := hi.2
    rw [if_pos hi, if_pos ⟨hi.1, hi.2, by omega⟩]
    rfl
  · rw [if_neg hi, if_neg (fun hc => hi ⟨hc.1, hc.2.1⟩)]

theorem Sound.owner_written (hb : b.Sound)
    (h : b.position + cell.size.toNat ≤ b.rules.maxCapacity.toNat) :
    (b.written cell).owner =
      b.owner.patched (Span b.position cell.size.toNat) (Owners.everywhere b.arena.size cell) := by
  funext i
  rw [owner_apply, name_written b h, Owners.patched]
  change Option.bind _ (fun id => (b.arena.push cell)[id]?.map fun c => (id, c)) = _
  split
  · rw [Option.bind_some, Array.getElem?_push, if_pos rfl]
    rfl
  · rw [owner_apply]
    cases hi : b.slots.name i with
    | none => rfl
    | some id =>
      have hlt : id < b.arena.size := hb.storage.closed i id hi
      rw [Option.bind_some, Option.bind_some, Array.getElem?_push, if_neg (by omega)]

theorem Sound.written (hb : b.Sound) (hc : cell.Padded)
    (h : b.position + cell.size.toNat ≤ b.rules.maxCapacity.toNat) : (b.written cell).Sound := by
  have hroom := b.le_room h
  have hcap := capacity_written b cell
  have hpos := hc.1
  constructor
  case cursor => exact Nat.le_max_right _ _
  case stored =>
    rw [hcap]
    have := hb.stored
    change max b.size (b.position + cell.size.toNat) ≤ _
    omega
  case limited =>
    rw [hcap]
    exact Nat.max_le.mpr ⟨hb.limited, Nat.min_le_right _ _⟩
  case storage =>
    refine ⟨?_, ?_, ?_⟩
    · intro i id hi
      rw [name_written b h] at hi
      change id < (b.arena.push cell).size
      rw [Array.size_push]
      split at hi
      · exact Option.some.inj hi ▸ Nat.lt_succ_self _
      · exact Nat.lt_succ_of_lt (hb.storage.closed i id hi)
    · intro c hm
      rcases Array.mem_push.mp hm with hm | rfl
      · exact hb.storage.padded c hm
      · exact hc
    · change (b.written cell).owner.Narrow
      rw [hb.owner_written h]
      refine hb.storage.narrow.patched _ ?_ (Owners.apart_everywhere hb.fresh _)
      intro i j a c hi hj he _
      cases he
      have := hi.1
      have := hj.2
      omega
  case bare =>
    intro i hi
    change max b.size (b.position + cell.size.toNat) ≤ i at hi
    rw [name_written b h, if_neg (fun hc => by have := hc.2; omega)]
    exact hb.bare i (by omega)
  case extended =>
    intro hx
    change (b.justExtended || decide (b.size < b.position + cell.size.toNat)) = true at hx
    change b.position + cell.size.toNat = max b.size (b.position + cell.size.toNat) ∧ _
    rw [Bool.or_eq_true, decide_eq_true_eq] at hx
    have hstart : b.justExtended = true → b.position = b.size := fun hj => (hb.extended hj).1
    change _ ∧ 0 < max b.size (b.position + cell.size.toNat)
    rcases hx with hj | hlt
    · have := hstart hj
      omega
    · omega

/-- The buffer after a segment was added to its data. -/
def pasted (b : Buffer) (s : Segment) : Buffer :=
  let c := b.resized (b.size + s.length)
  { c with
    arena := b.arena ++ s.cells
    slots := c.slots.spliced b.size (s.slotsBehind b.arena.size)
    position := c.position + s.length }

theorem rules_pasted (b : Buffer) (s : Segment) : (b.pasted s).rules = b.rules := by
  unfold pasted resized
  rfl

theorem arena_pasted (b : Buffer) (s : Segment) : (b.pasted s).arena = b.arena ++ s.cells := rfl

theorem splice_fits (b : Buffer) (s : Segment) :
    b.size + (s.slotsBehind b.arena.size).size ≤ (b.resized (b.size + s.length)).slots.size := by
  have := capacity_resized b (b.size + s.length)
  rw [Segment.size_slotsBehind]
  unfold capacity at this
  omega

theorem capacity_pasted (b : Buffer) (s : Segment) :
    (b.pasted s).capacity = max b.capacity (b.size + s.length) := by
  rw [← capacity_resized]
  exact Slots.size_spliced _ _ _ (splice_fits b s)

theorem Sound.name_pasted (hb : b.Sound) (s : Segment) (i : Nat) :
    (b.pasted s).slots.name i =
      if Span b.size s.length i then (s.slots.name (i - b.size)).map (b.arena.size + ·)
      else b.slots.name i := by
  unfold pasted
  rw [Slots.name_spliced _ _ _ _ (splice_fits b s), Segment.size_slotsBehind]
  change (if Span b.size s.length i then _ else _) = _
  by_cases hi : Span b.size s.length i
  · rw [if_pos hi, if_pos hi]
    exact s.name_slotsBehind _ _
  · rw [if_neg hi, if_neg hi, hb.name_resized]
    split
    · exact (hb.bare i (by omega)).symm
    · rfl

theorem Sound.owner_pasted (hb : b.Sound) (s : Segment) :
    (b.pasted s).owner =
      b.owner.patched (Span b.size s.length)
        (fun i => s.owner.renamed (b.arena.size + ·) (i - b.size)) := by
  funext i
  rw [owner_apply, hb.name_pasted, Owners.patched, Owners.renamed, Segment.owner]
  change Option.bind _ (fun id => (b.arena ++ s.cells)[id]?.map fun c => (id, c)) = _
  split
  · cases hi : s.slots.name (i - b.size) with
    | none => rfl
    | some id =>
      rw [Option.map_some, Option.bind_some, Option.bind_some, Array.getElem?_append_right (by omega),
        Nat.add_sub_cancel_left, Option.map_map]
      rfl
  · rw [owner_apply]
    cases hi : b.slots.name i with
    | none => rfl
    | some id =>
      have hlt : id < b.arena.size := hb.storage.closed i id hi
      rw [Option.bind_some, Option.bind_some, Array.getElem?_append_left hlt]

/-- Names behind an arena are none of its own. -/
theorem Sound.apart_renamed (hb : b.Sound) (s : Segment) :
    b.owner.Apart (fun i => s.owner.renamed (b.arena.size + ·) (i - b.size)) := by
  intro i j a hi hj
  have hlt := hb.storage.name_lt hi
  change (s.owner.renamed (b.arena.size + ·)).name (j - b.size) = some a at hj
  rw [Owners.name_renamed] at hj
  obtain ⟨x, _, rfl⟩ := Option.map_eq_some_iff.mp hj
  change b.arena.size + x < b.arena.size at hlt
  omega

theorem Sound.pasted (hb : b.Sound) {s : Segment} (hs : s.Sound)
    (h : b.size + s.length ≤ b.rules.maxCapacity.toNat) : (b.pasted s).Sound := by
  have hcap := capacity_pasted b s
  constructor
  case cursor =>
    change min b.position (b.size + s.length) + s.length ≤ b.size + s.length
    have := hb.cursor
    omega
  case stored =>
    rw [hcap]
    exact Nat.le_max_right _ _
  case limited =>
    rw [hcap]
    exact Nat.max_le.mpr ⟨hb.limited, h⟩
  case storage =>
    refine ⟨?_, ?_, ?_⟩
    · intro i id hi
      rw [hb.name_pasted] at hi
      change id < (b.arena ++ s.cells).size
      rw [Array.size_append]
      split at hi
      · obtain ⟨x, hx, rfl⟩ := Option.map_eq_some_iff.mp hi
        have := hs.closed _ x hx
        omega
      · have : id < b.arena.size := hb.storage.closed i id hi
        omega
    · intro c hc
      rcases Array.mem_append.mp hc with hc | hc
      · exact hb.storage.padded c hc
      · exact hs.padded c hc
    · change (b.pasted s).owner.Narrow
      rw [hb.owner_pasted s]
      refine hb.storage.narrow.patched _ ?_ (hb.apart_renamed s)
      intro i j a c hi hj ho hn
      have hsame := Owners.matches_renamed (r := (b.arena.size + ·)) (fun x y he => by
        change b.arena.size + x = b.arena.size + y at he
        omega) s.owner
      have := hs.narrow.of_matches hsame (i - b.size) (j - b.size) a c ho hn
      have := hi.1
      have := hj.1
      omega
  case bare =>
    intro i hi
    change b.size + s.length ≤ i at hi
    rw [hb.name_pasted, if_neg (fun ha => by have := ha.2; omega)]
    exact hb.bare i (by omega)
  case extended =>
    intro hx
    cases hx

end Parcel.Buffer
