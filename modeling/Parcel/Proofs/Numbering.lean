import Parcel.Proofs.Capture

/-!
The numbers that taking gives out. They come in the order in which the slots first need them, so they
depend on which slots name one cell and on nothing else: runs of slots with matching ownerships give the
same segment, whatever arenas they were taken out of.
-/
namespace Parcel

namespace Slots

theorem lt_of_name {slots : Slots} {id : Nat} (h : slots.name i = some id) : i < slots.size :=
  (Array.getElem?_eq_some_iff.mp (name_eq_some.mp h)).1

theorem ext_name {x y : Slots} (hs : x.size = y.size) (h : ∀ i, x.name i = y.name i) : x = y := by
  refine Array.ext hs fun i hx hy => ?_
  have hi := h i
  unfold name at hi
  rwa [Array.getElem?_eq_getElem hx, Array.getElem?_eq_getElem hy, Option.join_some,
    Option.join_some] at hi

end Slots

namespace Segment

variable {id new : Nat} {arena : Arena} {s t : Segment}

/-- All numbers are in use, and where one is used the smaller ones were used before. -/
structure Numbered (s : Segment) : Prop where
  used : ∀ new < s.cells.size, ∃ i, s.slots.name i = some new
  ordered : ∀ i new, s.slots.name i = some new → ∀ m < new, ∃ j < i, s.slots.name j = some m

theorem numbered_empty : (⟨#[], #[]⟩ : Segment).Numbered where
  used new h := absurd h (Nat.not_lt_zero new)
  ordered i new h := by simp [Slots.name] at h

theorem Numbered.push_none (h : s.Numbered) : Numbered { s with slots := s.slots.push none } where
  used new hlt := by
    obtain ⟨i, hi⟩ := h.used new hlt
    refine ⟨i, ?_⟩
    rw [Slots.name_push, if_neg (Nat.ne_of_lt (Slots.lt_of_name hi))]
    exact hi
  ordered i new hi m hm := by
    rw [Slots.name_push] at hi
    split at hi
    · cases hi
    · obtain ⟨j, hj, hn⟩ := h.ordered i new hi m hm
      refine ⟨j, hj, ?_⟩
      rw [Slots.name_push, if_neg (Nat.ne_of_lt (Slots.lt_of_name hn)), hn]

/-- The next slot may name a cell that is there or be the first to name the next one. -/
theorem Numbered.push_some (h : s.Numbered) {cells : Arena} (hle : new ≤ s.cells.size)
    (hc : ∀ m < cells.size, m < s.cells.size ∨ m = new) :
    Numbered ⟨cells, s.slots.push (some new)⟩ := by
  have hold {i m : Nat} (hi : s.slots.name i = some m) :
      Slots.name (s.slots.push (some new)) i = some m := by
    rw [Slots.name_push, if_neg (Nat.ne_of_lt (Slots.lt_of_name hi)), hi]
  constructor
  case used =>
    intro m hm
    rcases hc m hm with hlt | rfl
    · obtain ⟨i, hi⟩ := h.used m hlt
      exact ⟨i, hold hi⟩
    · exact ⟨s.slots.size, by rw [Slots.name_push, if_pos rfl]⟩
  case ordered =>
    intro i n hi m hm
    change Slots.name (s.slots.push (some new)) i = _ at hi
    rw [Slots.name_push] at hi
    split at hi
    · rename_i hlast
      obtain rfl := Option.some.inj hi
      obtain ⟨j, hj⟩ := h.used m (Nat.lt_of_lt_of_le hm hle)
      exact ⟨j, hlast ▸ Slots.lt_of_name hj, hold hj⟩
    · obtain ⟨j, hj, hn⟩ := h.ordered i n hi m hm
      exact ⟨j, hj, hold hn⟩

/-- A number needs a slot for each that comes before it. -/
theorem Numbered.le_of_name (h : s.Numbered) (hi : s.slots.name i = some new) : new ≤ i := by
  induction new generalizing i with
  | zero => exact Nat.zero_le i
  | succ m ih =>
    obtain ⟨j, hj, hm⟩ := h.ordered i (m + 1) hi m (Nat.lt_succ_self m)
    exact Nat.lt_of_le_of_lt (ih hm) hj

/-- There are no more cells than slots. -/
theorem Numbered.size_le (h : s.Numbered) : s.cells.size ≤ s.slots.size := by
  cases hn : s.cells.size with
  | zero => exact Nat.zero_le _
  | succ last =>
    obtain ⟨i, hi⟩ := h.used last (by omega)
    exact Nat.lt_of_le_of_lt (h.le_of_name hi) (Slots.lt_of_name hi)

/-- A draft as the segment that it would be. -/
abbrev Draft.segment (d : Draft) : Segment := ⟨d.cells, d.slots⟩

theorem keeps_numbered (arena : Arena) : Draft.Keeps arena fun _ d => d.segment.Numbered := by
  intro taken d o d' hf hn h
  rcases Draft.push_cases h with ⟨-, rfl⟩ | ⟨id, new, -, hnew, rfl⟩ | ⟨id, c, -, -, -, rfl⟩
  · exact hn.push_none
  · have hlt := (hf.cell id new hnew).1
    exact hn.push_some (Nat.le_of_lt hlt) fun m hm => .inl hm
  · refine hn.push_some (Nat.le_refl _) fun m hm => ?_
    change m < (d.cells.push c).size at hm
    rw [Array.size_push] at hm
    exact Nat.lt_succ_iff_lt_or_eq.mp hm

theorem take_numbered {slots : Slots} (hs : (Segment.mk arena slots).Closed)
    (h : take arena slots = .ok s) : s.Numbered := by
  obtain ⟨d, ht, -, hn⟩ := take_keeps (keeps_numbered arena) numbered_empty hs
  cases h.symm.trans ht
  exact hn

/-- A slot does not get a larger number than its match where all slots before have the same. -/
theorem Numbered.not_lt (ht : t.Numbered) (hm : ∀ i j, s.slots.name i = s.slots.name j ↔
      t.slots.name i = t.slots.name j)
    (hbefore : ∀ j < i, s.slots.name j = t.slots.name j) (hs : s.slots.name i = some id)
    (hi : t.slots.name i = some new) : ¬ id < new := by
  intro hlt
  obtain ⟨j, hj, hn⟩ := ht.ordered i new hi id hlt
  have hsame := (hm i j).mp (hs.trans ((hbefore j hj).trans hn).symm)
  rw [hi, hn, Option.some.injEq] at hsame
  omega

/-- The order of need leaves no choice of numbers. -/
theorem Numbered.name_eq (hs : s.Numbered) (ht : t.Numbered)
    (hnone : ∀ i, s.slots.name i = none ↔ t.slots.name i = none)
    (hm : ∀ i j, s.slots.name i = s.slots.name j ↔ t.slots.name i = t.slots.name j) (i : Nat) :
    s.slots.name i = t.slots.name i := by
  induction i using Nat.strongRecOn with
  | ind i ih =>
    cases hsi : s.slots.name i with
    | none => exact ((hnone i).mp hsi).symm
    | some id =>
      cases hti : t.slots.name i with
      | none => cases hsi.symm.trans ((hnone i).mpr hti)
      | some new =>
        have hle := ht.not_lt hm ih hsi hti
        have hge := hs.not_lt (fun i j => (hm i j).symm) (fun j hj => (ih j hj).symm) hti hsi
        rw [Option.some.injEq]
        omega

/-- Slots that are told apart alike and belong to the same cells are taken as one segment. -/
theorem Numbered.eq_of_matches (hs : s.Numbered) (ht : t.Numbered) (hcs : s.Closed) (hct : t.Closed)
    (hl : s.length = t.length) (hm : s.owner.Matches t.owner) : s = t := by
  have hname : ∀ i, s.slots.name i = t.slots.name i :=
    hs.name_eq ht (hcs.none_iff hct hm) (hcs.name_iff hct hm)
  have hcell {new : Nat} (i : Nat) (hi : s.slots.name i = some new) :
      ∃ c, s.cells[new]? = some c ∧ t.cells[new]? = some c := by
    obtain ⟨c, hc, ho⟩ := hcs.owner_of_name hi
    obtain ⟨c', hc', ho'⟩ := hct.owner_of_name ((hname i).symm.trans hi)
    have he := hm.cell i
    rw [Owners.cell_of_eq ho, Owners.cell_of_eq ho', Option.some.injEq] at he
    exact ⟨c, hc, he ▸ hc'⟩
  have hcells : s.cells = t.cells := by
    refine Array.ext_getElem? fun new => ?_
    by_cases hlt : new < s.cells.size
    · obtain ⟨i, hi⟩ := hs.used new hlt
      obtain ⟨c, hc, hc'⟩ := hcell i hi
      rw [hc, hc']
    · by_cases hlt' : new < t.cells.size
      · obtain ⟨i, hi⟩ := ht.used new hlt'
        obtain ⟨c, hc, hc'⟩ := hcell i ((hname i).trans hi)
        rw [hc, hc']
      · rw [Array.getElem?_eq_none (Nat.le_of_not_lt hlt),
          Array.getElem?_eq_none (Nat.le_of_not_lt hlt')]
  obtain ⟨cells, slots⟩ := s
  obtain ⟨cells', slots'⟩ := t
  cases hcells
  cases Slots.ext_name hl hname
  rfl

/-- What is taken depends on the ownership of the slots alone. -/
theorem take_congr {a b : Arena} {x y : Slots} (hx : (Segment.mk a x).Sound)
    (hy : (Segment.mk b y).Sound) (hs : x.size = y.size)
    (hm : (Segment.mk a x).owner.Matches (Segment.mk b y).owner) : take a x = take b y := by
  obtain ⟨s, ht, hl, hss, hms⟩ := take_matches hx
  obtain ⟨s', ht', hl', hss', hms'⟩ := take_matches hy
  rw [ht, ht']
  refine congrArg Except.ok (Numbered.eq_of_matches ?_ ?_ hss.closed hss'.closed ?_ ?_)
  · exact take_numbered hx.closed ht
  · exact take_numbered hy.closed ht'
  · rw [hl, hl', hs]
  · exact hms.symm.trans (hm.trans hms')

end Segment

end Parcel
