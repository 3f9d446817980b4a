import Parcel.Proofs.Capture

/-!
Compaction in two passes. The slots are renumbered first, and the cells moved afterwards in the order of
their numbers; `compact_eq_take` says that this is what taking all the slots at once comes to.
-/
namespace Parcel.Arena
open Segment (Draft take)

variable {arena : Arena} {n : Renumbering} {d : Draft} {slots : Slots} {id : Nat} {c : Cell}

/-- The slots were renumbered alike, and the cells to be moved are those that the draft took. -/
structure Follows (arena : Arena) (n : Renumbering) (d : Draft) : Prop where
  slots : n.slots = d.slots
  renamed : n.renamed = d.renamed
  room : n.renamed.size = arena.size
  cells : n.order.toList.map (arena[·]?) = d.cells.toList.map some
  met : ∀ id ∈ n.order.toList, n.renamed[id]? ≠ some none
  nodup : n.order.toList.Nodup

theorem follows_start (arena : Arena) : Follows arena ⟨#[], #[], .replicate arena.size none⟩
    ⟨#[], #[], .replicate arena.size none⟩ where
  slots := rfl
  renamed := rfl
  room := Array.size_replicate
  cells := rfl
  met id h := by cases h
  nodup := List.nodup_nil

theorem Follows.size_order (h : Follows arena n d) : n.order.size = d.cells.size := by
  have hlength := congrArg List.length h.cells
  rwa [List.length_map, List.length_map, Array.length_toList, Array.length_toList] at hlength

theorem Follows.known (h : Follows arena n d) (o : Option Nat) :
    Follows arena { n with slots := n.slots.push o } { d with slots := d.slots.push o } where
  slots := congrArg (Array.push · o) h.slots
  renamed := h.renamed
  room := h.room
  cells := h.cells
  met := h.met
  nodup := h.nodup

/-- An identity that is met for the first time. -/
theorem Follows.enter (h : Follows arena n d) (hn : n.renamed[id]? = some none)
    (hc : arena[id]? = some c) :
    Follows arena
      { slots := n.slots.push (some n.order.size)
        order := n.order.push id
        renamed := n.renamed.setIfInBounds id (some n.order.size) }
      { cells := d.cells.push c
        slots := d.slots.push (some d.cells.size)
        renamed := d.renamed.setIfInBounds id (some d.cells.size) } where
  slots := by rw [h.slots, h.size_order]
  renamed := by rw [h.renamed, h.size_order]
  room := by rw [Array.size_setIfInBounds, h.room]
  cells := by
    rw [Array.toList_push, Array.toList_push, List.map_append, List.map_append, h.cells,
      List.map_singleton, List.map_singleton, hc]
  met x hx := by
    rw [Array.getElem?_setIfInBounds]
    split
    · split <;> simp
    · rename_i hne
      rw [Array.toList_push, List.mem_append, List.mem_singleton] at hx
      exact h.met x (hx.resolve_right (Ne.symm hne))
  nodup := by
    rw [Array.toList_push, List.nodup_append]
    refine ⟨h.nodup, List.pairwise_singleton _ id, fun x hx y hy => ?_⟩
    rintro rfl
    exact h.met x hx (List.mem_singleton.mp hy ▸ hn)

/-- A slot is refused in both or passed on in both. -/
theorem Follows.push (h : Follows arena n d) (o : Option Nat) :
    (∃ f, n.push o = .error f ∧ d.push arena o = .error f) ∨
    ∃ n' d', n.push o = .ok n' ∧ d.push arena o = .ok d' ∧ Follows arena n' d' := by
  cases o with
  | none => exact .inr ⟨_, _, rfl, rfl, h.known none⟩
  | some id =>
    rcases hn : n.renamed[id]? with _ | _ | new
    · have hc : arena[id]? = none := by
        rw [Array.getElem?_eq_none_iff] at hn ⊢
        exact h.room ▸ hn
      refine .inl ⟨.danglingCell id, ?_, ?_⟩
      · simp only [Renumbering.push, hn]
      · simp only [Draft.push, ← h.renamed, hn, Arena.cell, hc]
    · obtain ⟨hlt, -⟩ := Array.getElem?_eq_some_iff.mp hn
      have hc := Array.getElem?_eq_getElem (h.room ▸ hlt)
      refine .inr ⟨_, _, ?_, ?_, h.enter hn hc⟩
      · simp only [Renumbering.push, hn]
      · simp only [Draft.push, ← h.renamed, hn, Arena.cell, hc]
    · refine .inr ⟨_, _, ?_, ?_, h.known (some new)⟩
      · simp only [Renumbering.push, hn]
      · simp only [Draft.push, ← h.renamed, hn]

theorem Follows.foldlM (h : Follows arena n d) (rest : List (Option Nat)) :
    (∃ f, rest.foldlM Renumbering.push n = .error f ∧ rest.foldlM (Draft.push arena) d = .error f) ∨
    ∃ n' d', rest.foldlM Renumbering.push n = .ok n' ∧ rest.foldlM (Draft.push arena) d = .ok d' ∧
      Follows arena n' d' := by
  induction rest generalizing n d with
  | nil => exact .inr ⟨n, d, rfl, rfl, h⟩
  | cons o rest ih =>
    rw [List.foldlM_cons, List.foldlM_cons]
    rcases h.push o with ⟨f, hn, hd⟩ | ⟨n', d', hn, hd, h'⟩
    · rw [hn, hd]
      exact .inl ⟨f, rfl, rfl⟩
    · rw [hn, hd]
      exact ih h'

/-- Cells that are still there are moved one after the other. -/
theorem foldlM_take {order : List Nat} {cells : List Cell} {r : Removal} (hnodup : order.Nodup)
    (hcells : order.map (arena[·]?) = cells.map some)
    (hrest : ∀ id ∈ order, r.rest[id]? = arena[id]?.map some) :
    ∃ rest, order.foldlM Removal.take r = .ok ⟨rest, r.kept ++ cells.toArray⟩ := by
  induction order generalizing cells r with
  | nil =>
    obtain rfl := List.map_eq_nil_iff.mp hcells.symm
    exact ⟨r.rest, by rw [List.foldlM_nil, Array.append_empty]; rfl⟩
  | cons id order ih =>
    obtain ⟨c, cells, rfl, hc, hcells⟩ := List.map_eq_cons_iff.mp hcells.symm
    obtain ⟨hid, hnodup⟩ := List.nodup_cons.mp hnodup
    obtain ⟨hfirst, hrest⟩ := List.forall_mem_cons.mp hrest
    replace hfirst : r.rest[id]? = some (some c) := hfirst.trans (congrArg (Option.map some) hc.symm)
    have htake : r.take id = .ok ⟨r.rest.setIfInBounds id none, r.kept.push c⟩ := by
      simp only [Removal.take, hfirst]
    -- The place of this cell is empty from here on, but no other identity is this one.
    obtain ⟨rest, hlast⟩ := ih (r := ⟨r.rest.setIfInBounds id none, r.kept.push c⟩) hnodup hcells.symm
      fun x hx => by
        rw [Array.getElem?_setIfInBounds_ne (by rintro rfl; exact hid hx)]
        exact hrest x hx
    have hkept : r.kept.push c ++ cells.toArray = r.kept ++ (c :: cells).toArray := by simp
    rw [hkept] at hlast
    exact ⟨rest, by rw [List.foldlM_cons, htake]; exact hlast⟩

/-- Renumbering the slots and then moving the cells is taking all the slots. -/
theorem compact_eq_take (arena : Arena) (slots : Slots) :
    arena.compact slots = (take arena slots).map fun s => (s.cells, s.slots) := by
  unfold compact take
  rcases (follows_start arena).foldlM slots.toList with ⟨f, hn, hd⟩ | ⟨n, d, hn, hd, h⟩
  · rw [hn, hd]
    rfl
  · obtain ⟨rest, hmoved⟩ := foldlM_take (r := ⟨arena.map some, #[]⟩) h.nodup h.cells
      fun id _ => Array.getElem?_map
    rw [hn, hd]
    change (n.order.toList.foldlM Removal.take _ >>= _) = _
    rw [hmoved, h.slots, Array.empty_append]
    rfl

theorem compact_of_take {s : Segment} (h : take arena slots = .ok s) :
    arena.compact slots = .ok (s.cells, s.slots) := by
  rw [compact_eq_take, h]
  rfl

end Parcel.Arena
