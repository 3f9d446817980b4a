import Mathlib.Data.Finset.Card
import Parcel.Proofs.Numbering

/-!
Runs of slots that are taken out of one arena and put into another.
-/
namespace Parcel

namespace Slots

def ids (slots : Slots) : Finset Nat := (slots.toList.filterMap id).toFinset

variable {slots : Slots} {x : Nat}

theorem mem_ids : x ∈ slots.ids ↔ ∃ i, slots.name i = some x := by
  have hmem : x ∈ slots.ids ↔ some x ∈ slots.toList := by simp [ids]
  rw [hmem, List.mem_iff_getElem?]
  simp only [Array.getElem?_toList, name_eq_some]

theorem vacant_iff {i : Nat} : slots[i]? = some none ↔ i < slots.size ∧ slots.name i = none := by
  unfold name
  by_cases hi : i < slots.size <;> simp [hi]

end Slots

namespace Segment

variable {arena : Arena} {slots place : Slots} {s source : Segment}

/-- `copy` is a run of slots in an arena that began with the cells of `dest`. It is `source` but for the
names, and all of these are new. -/
structure Reproduces (source : Segment) (dest : Arena) (copy : Segment) : Prop where
  length : copy.length = source.length
  vacant : ∀ i : Nat, copy.slots[i]? = some none ↔ source.slots[i]? = some none
  shared : ∀ i j, copy.slots.name i = copy.slots.name j ↔ source.slots.name i = source.slots.name j
  cell : ∀ i id, source.slots.name i = some id → ∃ new cell, copy.slots.name i = some new ∧
    copy.cells[new]? = some cell ∧ source.cells[id]? = some cell
  fresh : ∀ i new, copy.slots.name i = some new → dest.size ≤ new ∧ new < copy.cells.size
  kept : ∀ id < dest.size, copy.cells[id]? = dest[id]?
  grown : copy.cells.size = dest.size + source.slots.ids.card

/-- The numbers are the identities under other names. -/
theorem Numbered.size_eq_card (hn : s.Numbered) (hc : source.Closed) (hs : s.Closed)
    (hm : source.owner.Matches s.owner) : s.cells.size = source.slots.ids.card := by
  have hname := hc.name_iff hs hm
  have hold (new : Nat) (h : new < s.cells.size) :
      ∃ id i, source.slots.name i = some id ∧ s.slots.name i = some new := by
    obtain ⟨i, hi⟩ := hn.used new h
    obtain ⟨c, -, ho⟩ := hs.owner_of_name hi
    obtain ⟨id, ho'⟩ := Owners.exists_of_cell ((hm.cell i).trans (Owners.cell_of_eq ho))
    exact ⟨id, i, (owner_eq_some.mp ho').1, hi⟩
  choose old place hid hnew using hold
  rw [← Finset.card_range s.cells.size]
  refine Finset.card_bij (fun new h => old new (Finset.mem_range.mp h)) ?_ ?_ ?_
  · intro new h
    exact Slots.mem_ids.mpr ⟨_, hid new (Finset.mem_range.mp h)⟩
  · intro new h new' h' he
    rw [Finset.mem_range] at h h'
    have hsame := (hname _ _).mp ((hid new h).trans ((congrArg some he).trans (hid new' h').symm))
    rw [hnew new h, hnew new' h'] at hsame
    exact Option.some.inj hsame
  · intro id h
    obtain ⟨i, hi⟩ := Slots.mem_ids.mp h
    obtain ⟨new, hi'⟩ := Option.ne_none_iff_exists'.mp fun he => by
      cases hi.symm.trans ((hc.none_iff hs hm i).mpr he)
    have hlt := hs i new hi'
    refine ⟨new, Finset.mem_range.mpr hlt, ?_⟩
    have hsame := (hname _ i).mpr ((hnew new hlt).trans hi'.symm)
    rw [hid new hlt, hi] at hsame
    exact Option.some.inj hsame

theorem Closed.reproduces (hc : source.Closed) (hs : s.Closed) (hm : source.owner.Matches s.owner)
    (hl : s.length = source.length) (hcard : s.cells.size = source.slots.ids.card) (dest : Arena) :
    source.Reproduces dest ⟨dest ++ s.cells, s.slotsBehind dest.size⟩ := by
  constructor
  case length => exact (s.size_slotsBehind _).trans hl
  case vacant =>
    intro i
    have hsize : (s.slotsBehind dest.size).size = source.slots.size := (s.size_slotsBehind _).trans hl
    rw [Slots.vacant_iff, Slots.vacant_iff, name_slotsBehind, Option.map_eq_none_iff,
      hc.none_iff hs hm, hsize]
  case shared =>
    intro i j
    rw [name_slotsBehind, name_slotsBehind, hc.name_iff hs hm]
    exact (Option.map_injective fun _ _ => Nat.add_left_cancel).eq_iff
  case cell =>
    intro i id hi
    obtain ⟨cell, hcell, ho⟩ := hc.owner_of_name hi
    obtain ⟨new, ho'⟩ := Owners.exists_of_cell ((hm.cell i).symm.trans (Owners.cell_of_eq ho))
    obtain ⟨hnew, hcell'⟩ := owner_eq_some.mp ho'
    refine ⟨dest.size + new, cell, ?_, ?_, hcell⟩
    · rw [name_slotsBehind, hnew, Option.map_some]
    · rwa [Array.getElem?_append_right (Nat.le_add_right _ _), Nat.add_sub_cancel_left]
  case fresh =>
    intro i new hi
    rw [name_slotsBehind] at hi
    obtain ⟨x, hx, rfl⟩ := Option.map_eq_some_iff.mp hi
    have hlt := hs i x hx
    rw [Array.size_append]
    omega
  case kept =>
    intro id hlt
    exact Array.getElem?_append_left hlt
  case grown => rw [Array.size_append, hcard]

/-- Slots that are taken out of an arena and put in the place of as many others in any arena are the same
there but for the names, which are all new. One cell comes along for every identity in them, and what was
there before stays. -/
theorem take_put_reproduces (h : ∀ id, some id ∈ slots → id < arena.size)
    (hlength : place.size = slots.size) (dest : Arena) :
    ∃ s copy, take arena slots = .ok s ∧ s.put dest place.size = .ok (copy.cells, copy.slots) ∧
      Reproduces ⟨arena, slots⟩ dest copy ∧ s.cells.size = slots.ids.card := by
  have hc : (Segment.mk arena slots).Closed := fun i id hi =>
    h id (Array.mem_of_getElem? (Slots.name_eq_some.mp hi))
  obtain ⟨s, ht, hl, hs, -, hm⟩ := take_closed hc
  have hcard := (take_numbered hc ht).size_eq_card hc hs hm
  exact ⟨s, ⟨dest ++ s.cells, s.slotsBehind dest.size⟩, ht, if_pos (hlength.trans hl.symm),
    hc.reproduces hs hm hl hcard dest, hcard⟩

/-- Two of three cells, the last of them in two places. -/
theorem take_put_reproduces_shared :
    let arena : Arena := #[⟨8, .long 7⟩, ⟨4, .int 5⟩, ⟨4, .int 6⟩]
    let slots : Slots := #[some 2, none, some 0, some 2]
    ∃ s copy, take arena slots = .ok s ∧ s.put #[⟨4, .int 1⟩] 4 = .ok (copy.cells, copy.slots) ∧
      Reproduces ⟨arena, slots⟩ #[⟨4, .int 1⟩] copy ∧ s.cells.size = 2 := by
  intro arena slots
  have hvalid : ∀ id, some id ∈ slots → id < arena.size := by simp [arena, slots]
  have hplace : (Array.replicate 4 none : Slots).size = slots.size := rfl
  exact take_put_reproduces hvalid hplace #[⟨4, .int 1⟩]

end Segment

end Parcel
