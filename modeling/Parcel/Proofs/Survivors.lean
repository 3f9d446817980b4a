import Parcel.Proofs.Copies
import Parcel.Proofs.Operations

/-!
What compaction leaves. The identities are the numbers from 0 on in the order of their first use, so another
compaction finds nothing to do.
-/
namespace Parcel

namespace Slots

/-- The identities that a run of slots names, each once, in the order in which they are first named. -/
def firsts (run : List (Option Nat)) : List Nat := (run.filterMap id).eraseDups

variable {run : List (Option Nat)} {x : Nat}

theorem mem_firsts : x ∈ firsts run ↔ some x ∈ run := by simp [firsts]

theorem firsts_concat_none : firsts (run ++ [none]) = firsts run := by simp [firsts]

theorem firsts_concat_of_mem (h : x ∈ firsts run) : firsts (run ++ [some x]) = firsts run := by
  rw [mem_firsts] at h
  simp [firsts, List.eraseDups_append, List.removeAll, h]

theorem firsts_concat_of_notMem (h : x ∉ firsts run) :
    firsts (run ++ [some x]) = firsts run ++ [x] := by
  rw [mem_firsts] at h
  simp [firsts, List.eraseDups_append, List.removeAll, List.eraseDups_cons, h]

end Slots

namespace Segment

variable {arena : Arena} {slots : Slots} {s : Segment}

structure Draft.Listed (taken : List (Option Nat)) (d : Draft) : Prop where
  number : ∀ id new, d.newName id = some new ↔ (Slots.firsts taken)[new]? = some id
  count : d.cells.size = (Slots.firsts taken).length

theorem listed_start (count : Nat) : Draft.Listed [] ⟨#[], #[], .replicate count none⟩ where
  number id new := by simp [newName_start, Slots.firsts]
  count := rfl

theorem keeps_listed (arena : Arena) : Draft.Keeps arena Draft.Listed := by
  intro taken d o d' hf h hp
  rcases Draft.push_cases hp with ⟨rfl, rfl⟩ | ⟨id, new, rfl, hn, rfl⟩ | ⟨id, c, rfl, hn, hc, rfl⟩
  · constructor <;> rw [Slots.firsts_concat_none]
    case number => exact h.number
    case count => exact h.count
  · have hmet : id ∈ Slots.firsts taken := List.mem_of_getElem? ((h.number id new).mp hn)
    constructor <;> rw [Slots.firsts_concat_of_mem hmet]
    case number => exact h.number
    case count => exact h.count
  · -- An identity that is new comes last, and its number is how many cells there were.
    have hnew : id ∉ Slots.firsts taken := fun hmet => by
      obtain ⟨new, hi⟩ := List.mem_iff_getElem?.mp hmet
      cases hn.symm.trans ((h.number id new).mpr hi)
    have hname := newName_enter d c (hf.room ▸ (Array.getElem?_eq_some_iff.mp hc).1)
    constructor <;> rw [Slots.firsts_concat_of_notMem hnew]
    case number =>
      intro x new
      have hlast : (Slots.firsts taken ++ [id])[new]? = some x ↔
          (Slots.firsts taken)[new]? = some x ∨ new = (Slots.firsts taken).length ∧ x = id := by
        grind
      change (d.enter id c).newName x = some new ↔ _
      rw [hname, hlast, ← h.number, ← h.count]
      by_cases hx : x = id
      · simp [hx, hn, eq_comm]
      · simp [hx]
    case count =>
      change (d.cells.push c).size = _
      rw [Array.size_push, List.length_append, h.count, List.length_singleton]

/-- The cells of `after` are those that the slots of `before` name, in the order in which they are first
named. A slot is named after the place of its cell in that order. -/
structure Collects (before after : Segment) : Prop where
  collected : after.cells.toList.map some = (Slots.firsts before.slots.toList).map (before.cells[·]?)
  number : ∀ i id, before.slots.name i = some id →
    ∃ new, after.slots.name i = some new ∧ (Slots.firsts before.slots.toList)[new]? = some id

theorem take_collects (hc : (Segment.mk arena slots).Closed) (h : take arena slots = .ok s) :
    Collects ⟨arena, slots⟩ s := by
  obtain ⟨d, ht, hf, hl⟩ := take_keeps (keeps_listed arena) (listed_start arena.size) hc
  cases h.symm.trans ht
  constructor
  case collected =>
    refine List.ext_getElem? fun new => ?_
    rw [List.getElem?_map, List.getElem?_map, Array.getElem?_toList]
    cases hn : (Slots.firsts slots.toList)[new]? with
    | none =>
      have hout : d.cells.size ≤ new := hl.count ▸ List.getElem?_eq_none_iff.mp hn
      rw [Array.getElem?_eq_none hout]
      rfl
    | some id =>
      obtain ⟨hlt, hcell⟩ := hf.cell id new ((hl.number id new).mpr hn)
      rw [Option.map_some, ← hcell, Array.getElem?_eq_getElem hlt]
      rfl
  case number =>
    intro i id hi
    have hslot := Slots.name_eq_some.mp hi
    obtain ⟨new, hn⟩ := hf.met id (Array.mem_toList_iff.mpr (Array.mem_of_getElem? hslot))
    refine ⟨new, ?_, (hl.number id new).mp hn⟩
    rw [hf.slot, Array.getElem?_toList, hslot]
    exact hn

/-- `after` is what compaction leaves of `before`: the same slots in an arena of their own, with no cell but
those that they name. -/
structure Compacts (before after : Segment) : Prop
    extends Reproduces before #[] after, Collects before after where
  ordered : Slots.firsts after.slots.toList = List.range after.cells.size
  smaller : after.cells.size ≤ before.cells.size
  settled : after.cells.compact after.slots = .ok (after.cells, after.slots)

theorem Numbered.take_self (hn : s.Numbered) (hs : s.Closed) : take s.cells s.slots = .ok s := by
  obtain ⟨t, ht, hl, hct, -, hm⟩ := take_closed hs
  rw [ht, (take_numbered hs ht).eq_of_matches hn hct hs hl hm.symm]

theorem Numbered.firsts_eq_range (hn : s.Numbered) (hs : s.Closed) :
    Slots.firsts s.slots.toList = List.range s.cells.size := by
  -- Taking `s` again changes no number, so each one is its own place.
  have hself : Collects s s := take_collects hs (hn.take_self hs)
  have hlength := congrArg List.length hself.collected
  rw [List.length_map, List.length_map, Array.length_toList] at hlength
  refine List.ext_getElem? fun new => ?_
  by_cases hlt : new < s.cells.size
  · obtain ⟨i, hi⟩ := hn.used new hlt
    obtain ⟨place, hplace, hfirst⟩ := hself.number i new hi
    cases hi.symm.trans hplace
    rw [hfirst, List.getElem?_range hlt]
  · have hle := Nat.le_of_not_lt hlt
    rw [List.getElem?_eq_none (hlength ▸ hle), List.getElem?_eq_none (List.length_range ▸ hle)]

theorem Closed.card_ids_le (hs : s.Closed) : s.slots.ids.card ≤ s.cells.size := by
  rw [← Finset.card_range s.cells.size]
  refine Finset.card_le_card fun id hid => ?_
  obtain ⟨i, hi⟩ := Slots.mem_ids.mp hid
  exact Finset.mem_range.mpr (hs i id hi)

theorem slotsBehind_zero (s : Segment) : s.slotsBehind 0 = s.slots := by simp [slotsBehind]

theorem take_compacts (hc : (Segment.mk arena slots).Closed) :
    ∃ s, take arena slots = .ok s ∧ Compacts ⟨arena, slots⟩ s := by
  obtain ⟨s, ht, hl, hs, -, hm⟩ := take_closed hc
  have hn := take_numbered hc ht
  have hcopy : Reproduces ⟨arena, slots⟩ #[] ⟨#[] ++ s.cells, s.slotsBehind 0⟩ :=
    hc.reproduces hs hm hl (hn.size_eq_card hc hs hm) #[]
  rw [Array.empty_append, slotsBehind_zero] at hcopy
  have hsmaller : s.cells.size ≤ arena.size := by
    have hcard := hcopy.grown
    rw [Array.size_empty, Nat.zero_add] at hcard
    exact hcard ▸ hc.card_ids_le
  exact ⟨s, ht, hcopy, take_collects hc ht, hn.firsts_eq_range hs, hsmaller,
    Arena.compact_of_take (hn.take_self hs)⟩

/-- Compaction keeps the cells that slots name, each once and no others, in the order in which they are
first named. The slots are told apart and belong to cells as before. The arena is taken to hold 2^32 cells
at most, and what is kept is no more than that. -/
theorem compact_keeps_named (h : ∀ id, some id ∈ slots → id < arena.size) :
    ∃ after, arena.compact slots = .ok (after.cells, after.slots) ∧
      Compacts ⟨arena, slots⟩ after := by
  have hc : (Segment.mk arena slots).Closed := fun i id hi =>
    h id (Array.mem_of_getElem? (Slots.name_eq_some.mp hi))
  obtain ⟨s, ht, hs⟩ := take_compacts hc
  exact ⟨s, Arena.compact_of_take ht, hs⟩

/-- One of four cells is not named, and the others are named from the last to the first. -/
theorem compact_keeps_named_reordered :
    let arena : Arena := #[⟨4, .int 0⟩, ⟨8, .long 7⟩, ⟨4, .int 9⟩, ⟨4, .int 5⟩]
    let slots : Slots := #[some 3, none, some 1, some 3, some 0, some 1]
    Slots.firsts slots.toList = [3, 1, 0] ∧
      ∃ after, arena.compact slots = .ok (after.cells, after.slots) ∧
        Compacts ⟨arena, slots⟩ after := by
  intro arena slots
  have hvalid : ∀ id, some id ∈ slots → id < arena.size := by simp [arena, slots]
  exact ⟨by decide, compact_keeps_named hvalid⟩

end Segment

namespace Buffer

/-- An overgrown arena is compacted behind a write, and nothing else of the buffer changes. -/
theorem tidy_compacts {b : Buffer} (hb : b.Sound) (h : b.isOvergrown = true) :
    ∃ s, tidy.Yields b (.ok ()) { b with arena := s.cells, slots := s.slots } ∧
      Segment.Compacts ⟨b.arena, b.slots⟩ s := by
  obtain ⟨s, ht, hs⟩ := Segment.take_compacts hb.storage.closed
  exact ⟨s, tidy_swept h ht, hs⟩

end Buffer

end Parcel
