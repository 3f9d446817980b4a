import Parcel.Proofs.Storage

/-!
Taking slots out of an arena. The new names are given out in order of need and never twice, so the copy has
the same cells and tells the same slots apart; `take_matches` is the whole of it.
-/
namespace Parcel.Segment

variable {id new : Nat}

/-- The new name that a draft has for an old one. -/
def Draft.newName (d : Draft) (id : Nat) : Option Nat := Slots.name d.renamed id

/-- A draft that has taken `taken` out of `arena` and has a cell of its own for every old name met. -/
structure Draft.Faithful (arena : Arena) (taken : List (Option Nat)) (d : Draft) : Prop where
  length : d.slots.size = taken.length
  slot : ∀ i, d.slots.name i = taken[i]?.join.bind d.newName
  met : ∀ id, some id ∈ taken → ∃ new, d.newName id = some new
  cell : ∀ id new, d.newName id = some new → new < d.cells.size ∧ d.cells[new]? = arena[id]?
  named : ∀ new, new < d.cells.size → ∃ id, d.newName id = some new
  injective : ∀ id id' new, d.newName id = some new → d.newName id' = some new → id = id'
  room : d.renamed.size = arena.size

/-- Nothing has a new name at first. -/
theorem newName_start (count id : Nat) :
    Draft.newName ⟨#[], #[], .replicate count none⟩ id = none := by
  unfold Draft.newName Slots.name
  rw [Array.getElem?_replicate]
  split <;> rfl

theorem faithful_start (arena : Arena) :
    Draft.Faithful arena [] ⟨#[], #[], .replicate arena.size none⟩ := by
  constructor
  case length => rfl
  case slot => intro i; simp [Slots.name]
  case met => intro id h; cases h
  case cell => intro id new h; simp [newName_start] at h
  case named => intro new h; cases h
  case injective => intro id id' new h; simp [newName_start] at h
  case room => simp

/-- The next slot with the new name of what it named, where there is one. -/
theorem Draft.Faithful.push_known {d : Draft} {new : Option Nat} (h : d.Faithful arena taken)
    (hn : o.bind d.newName = new) (hs : ∀ id, o = some id → new ≠ none) :
    Draft.Faithful arena (taken ++ [o]) { d with slots := d.slots.push new } := by
  refine ⟨?_, ?_, ?_, h.cell, h.named, h.injective, h.room⟩
  · simp only [Array.size_push, h.length, List.length_append, List.length_cons, List.length_nil]
  · intro i
    rw [Slots.name_push, List.getElem?_append]
    change _ = Option.bind _ d.newName
    by_cases hi : i = taken.length
    · subst hi
      rw [if_pos h.length.symm, if_neg (Nat.lt_irrefl _), Nat.sub_self]
      exact hn.symm
    · rw [if_neg (by rw [h.length]; exact hi), h.slot i]
      split
      · rfl
      · rw [List.getElem?_eq_none (by omega), List.getElem?_eq_none (by simp; omega)]
  · intro id hm
    rcases List.mem_append.mp hm with hm | hm
    · exact h.met id hm
    · obtain rfl := List.mem_singleton.mp hm
      cases hnew : new with
      | none => exact absurd hnew (hs id rfl)
      | some n => exact ⟨n, hn.trans hnew⟩

/-- The draft with a cell of its own for an old name. -/
def Draft.enter (d : Draft) (id : Nat) (c : Cell) : Draft :=
  { d with
    cells := d.cells.push c
    renamed := d.renamed.setIfInBounds id (some d.cells.size) }

theorem newName_enter (d : Draft) (c : Cell) (h : id < d.renamed.size) (x : Nat) :
    (d.enter id c).newName x = if x = id then some d.cells.size else d.newName x := by
  unfold Draft.enter Draft.newName
  rw [Slots.name_setIfInBounds]
  by_cases hx : x = id
  · rw [if_pos ⟨hx, hx ▸ h⟩, if_pos hx]
  · rw [if_neg (fun hi => hx hi.1), if_neg hx]

theorem Draft.Faithful.enter {d : Draft} (h : d.Faithful arena taken) (hc : arena[id]? = some c)
    (hn : d.newName id = none) : Draft.Faithful arena taken (d.enter id c) := by
  have hname := newName_enter d c (h.room ▸ (Array.getElem?_eq_some_iff.mp hc).1)
  have hold : ∀ x y, d.newName x = some y → (d.enter id c).newName x = some y := by
    intro x y hx
    rw [hname, if_neg (by rintro rfl; simp only [hn, reduceCtorEq] at hx), hx]
  constructor
  case length => exact h.length
  case slot =>
    intro i
    change d.slots.name i = _
    rw [h.slot i]
    cases ho : taken[i]?.join with
    | none => rfl
    | some x =>
      obtain ⟨y, hy⟩ := h.met x (List.mem_of_getElem? (Option.join_eq_some_iff.mp ho))
      rw [Option.bind_some, Option.bind_some, hold x y hy, hy]
  case met =>
    intro x hm
    obtain ⟨y, hy⟩ := h.met x hm
    exact ⟨y, hold x y hy⟩
  case cell =>
    intro x y hy
    rw [hname] at hy
    change y < (d.cells.push c).size ∧ (d.cells.push c)[y]? = _
    rw [Array.size_push, Array.getElem?_push]
    split at hy
    · rename_i hx
      obtain rfl := Option.some.inj hy
      rw [if_pos rfl, hx, hc]
      exact ⟨Nat.lt_succ_self _, rfl⟩
    · obtain ⟨hlt, he⟩ := h.cell x y hy
      rw [if_neg (by omega)]
      exact ⟨by omega, he⟩
  case named =>
    intro y hy
    change y < (d.cells.push c).size at hy
    rw [Array.size_push] at hy
    by_cases hlast : y = d.cells.size
    · exact ⟨id, by rw [hname, if_pos rfl, hlast]⟩
    · obtain ⟨x, hx⟩ := h.named y (by omega)
      exact ⟨x, hold x y hx⟩
  case injective =>
    intro x x' y hx hx'
    rw [hname] at hx hx'
    split at hx <;> split at hx'
    · rename_i hxi hxi'
      rw [hxi, hxi']
    · have := (h.cell x' y hx').1
      obtain rfl := Option.some.inj hx
      omega
    · have := (h.cell x y hx).1
      obtain rfl := Option.some.inj hx'
      omega
    · exact h.injective x x' y hx hx'
  case room =>
    change (d.renamed.setIfInBounds id _).size = _
    rw [Array.size_setIfInBounds, h.room]

/-- How a slot is taken: it is empty, its cell has a number, or its cell gets the next one. -/
theorem Draft.push_cases {d d' : Draft} (h : Draft.push arena d o = .ok d') :
    (o = none ∧ d' = { d with slots := d.slots.push none }) ∨
    (∃ id new, o = some id ∧ d.newName id = some new ∧
      d' = { d with slots := d.slots.push (some new) }) ∨
    ∃ id c, o = some id ∧ d.newName id = none ∧ arena[id]? = some c ∧
      d' = { d.enter id c with slots := d.slots.push (some d.cells.size) } := by
  cases o with
  | none =>
    cases h
    exact .inl ⟨rfl, rfl⟩
  | some id =>
    cases hn : d.newName id with
    | some new =>
      simp only [Draft.push, Slots.name_eq_some.mp hn] at h
      cases h
      exact .inr (.inl ⟨id, new, rfl, hn, rfl⟩)
    | none =>
      have hr : ∀ y, d.renamed[id]? ≠ some (some y) := fun y hy => by
        cases hn.symm.trans (Slots.name_eq_some.mpr hy)
      cases hc : arena[id]? with
      | none =>
        simp only [Draft.push, Arena.cell, hc] at h
        cases h
      | some c =>
        simp only [Draft.push, Arena.cell, hc] at h
        cases h
        exact .inr (.inr ⟨id, c, rfl, hn, hc, rfl⟩)

/-- A slot that names a cell of the arena can be taken. -/
theorem Draft.push_ok (d : Draft) (ho : ∀ id, o = some id → id < arena.size) :
    ∃ d', Draft.push arena d o = .ok d' := by
  cases o with
  | none => exact ⟨_, rfl⟩
  | some id =>
    have hc := Arena.cell_eq (Array.getElem?_eq_getElem (ho id rfl))
    unfold Draft.push
    dsimp only
    split
    · exact ⟨_, rfl⟩
    · rw [hc]
      exact ⟨_, rfl⟩

theorem Draft.Faithful.push {d d' : Draft} (h : d.Faithful arena taken)
    (hp : Draft.push arena d o = .ok d') : d'.Faithful arena (taken ++ [o]) := by
  rcases Draft.push_cases hp with ⟨rfl, rfl⟩ | ⟨id, new, rfl, hn, rfl⟩ | ⟨id, c, rfl, hn, hc, rfl⟩
  · exact h.push_known rfl (by intro id he; cases he)
  · exact h.push_known (by rw [Option.bind_some, hn]) (by intro _ _ hne; cases hne)
  · have hnew := newName_enter d c (h.room ▸ (Array.getElem?_eq_some_iff.mp hc).1) id
    rw [if_pos rfl] at hnew
    exact (h.enter hc hn).push_known (by rw [Option.bind_some, hnew]) (by intro _ _ hne; cases hne)

/-- What holds of the slots taken so far and their draft still holds with the next slot. -/
def Draft.Keeps (arena : Arena) (P : List (Option Nat) → Draft → Prop) : Prop :=
  ∀ taken d o d', d.Faithful arena taken → P taken d → Draft.push arena d o = .ok d' →
    P (taken ++ [o]) d'

theorem foldlM_keeps {P : List (Option Nat) → Draft → Prop} (hP : Draft.Keeps arena P)
    (rest : List (Option Nat)) {d : Draft} (h : d.Faithful arena taken) (hp : P taken d)
    (hk : ∀ id, some id ∈ rest → id < arena.size) :
    ∃ d', rest.foldlM (Draft.push arena) d = .ok d' ∧ d'.Faithful arena (taken ++ rest) ∧
      P (taken ++ rest) d' := by
  induction rest generalizing d taken with
  | nil => exact ⟨d, rfl, by rwa [List.append_nil], by rwa [List.append_nil]⟩
  | cons o rest ih =>
    obtain ⟨d', hd'⟩ := d.push_ok (fun id he => hk id (he ▸ List.mem_cons_self))
    obtain ⟨d'', hd'', hlast⟩ := ih (h.push hd') (hP taken d o d' h hp hd')
      (fun id hm => hk id (List.mem_cons_of_mem o hm))
    refine ⟨d'', ?_, ?_⟩
    · rw [List.foldlM_cons, hd']
      exact hd''
    · rwa [List.append_assoc, List.singleton_append] at hlast

/-- What is taken is the draft of all slots, with everything that drafts keep. -/
theorem take_keeps {arena : Arena} {slots : Slots} {P : List (Option Nat) → Draft → Prop}
    (hP : Draft.Keeps arena P) (hstart : P [] ⟨#[], #[], .replicate arena.size none⟩)
    (h : (Segment.mk arena slots).Closed) :
    ∃ d, take arena slots = .ok ⟨d.cells, d.slots⟩ ∧ d.Faithful arena slots.toList ∧
      P slots.toList d := by
  have hk : ∀ id, some id ∈ slots.toList → id < arena.size := by
    intro id hm
    obtain ⟨i, hi⟩ := List.mem_iff_getElem?.mp hm
    rw [Array.getElem?_toList] at hi
    exact h i id (Slots.name_eq_some.mpr hi)
  obtain ⟨d, hd, hkeeps⟩ := foldlM_keeps hP slots.toList (faithful_start arena) hstart hk
  rw [List.nil_append] at hkeeps
  exact ⟨d, by rw [take, hd]; rfl, hkeeps⟩

theorem Draft.Faithful.name_iff {d : Draft} (h : d.Faithful arena taken) (i j : Nat) :
    taken[i]?.join = taken[j]?.join ↔ d.slots.name i = d.slots.name j := by
  rw [h.slot, h.slot]
  constructor
  · intro he
    rw [he]
  · intro he
    have hsome : ∀ k x, taken[k]?.join = some x → ∃ y, d.newName x = some y :=
      fun k x hx => h.met x (List.mem_of_getElem? (Option.join_eq_some_iff.mp hx))
    cases hi : taken[i]?.join with
    | none =>
      cases hj : taken[j]?.join with
      | none => rfl
      | some y =>
        obtain ⟨n, hn⟩ := hsome j y hj
        simp only [hi, hj, Option.bind_none, Option.bind_some, hn, reduceCtorEq] at he
    | some x =>
      obtain ⟨m, hm⟩ := hsome i x hi
      cases hj : taken[j]?.join with
      | none => simp only [hi, hj, Option.bind_none, Option.bind_some, hm, reduceCtorEq] at he
      | some y =>
        simp only [hi, hj, Option.bind_some] at he
        rw [h.injective x y m hm (he ▸ hm)]

theorem Draft.Faithful.name_eq_some {d : Draft} {slots : Slots} (h : d.Faithful arena slots.toList)
    (hi : d.slots.name i = some new) :
    ∃ id, slots.name i = some id ∧ d.newName id = some new := by
  rw [h.slot, Array.getElem?_toList] at hi
  exact Option.bind_eq_some_iff.mp hi

theorem Draft.Faithful.closed {d : Draft} {slots : Slots} (h : d.Faithful arena slots.toList) :
    (Segment.mk d.cells d.slots).Closed := by
  intro i new hi
  obtain ⟨id, _, hn⟩ := h.name_eq_some hi
  exact (h.cell id new hn).1

theorem Draft.Faithful.matches {d : Draft} {slots : Slots} (h : d.Faithful arena slots.toList)
    (hs : (Segment.mk arena slots).Closed) :
    (Segment.mk arena slots).owner.Matches (Segment.mk d.cells d.slots).owner := by
  constructor
  · intro i
    have hi := h.slot i
    rw [Array.getElem?_toList] at hi
    change d.slots.name i = (slots.name i).bind _ at hi
    simp only [Owners.cell, owner, hi]
    cases hx : slots.name i with
    | none => rfl
    | some x =>
      obtain ⟨y, hy⟩ := h.met x (by
        rw [Slots.name_eq_some, ← Array.getElem?_toList] at hx
        exact List.mem_of_getElem? hx)
      simp only [Option.bind_some, hy, (h.cell x y hy).2, Option.map_map, Function.comp_def]
  · intro i j
    rw [hs.name_owner, hs.name_owner, h.closed.name_owner, h.closed.name_owner, ← h.name_iff,
      Array.getElem?_toList, Array.getElem?_toList]
    rfl

theorem Draft.Faithful.mem_cells {d : Draft} (h : d.Faithful arena taken) (hc : c ∈ d.cells) :
    c ∈ arena := by
  obtain ⟨new, hlt, rfl⟩ := Array.mem_iff_getElem.mp hc
  obtain ⟨id, hid⟩ := h.named new hlt
  have he := (h.cell id new hid).2
  rw [Array.getElem?_eq_getElem hlt] at he
  exact Array.mem_of_getElem? he.symm

/-- What is taken out of an arena is a copy: the same cells at the same offsets, told apart alike. -/
theorem take_closed {arena : Arena} {slots : Slots} (h : (Segment.mk arena slots).Closed) :
    ∃ s, take arena slots = .ok s ∧ s.length = slots.size ∧ s.Closed ∧ (∀ c ∈ s.cells, c ∈ arena) ∧
      (Segment.mk arena slots).owner.Matches s.owner := by
  obtain ⟨d, ht, hf, -⟩ := take_keeps (P := fun _ _ => True) (fun _ _ _ _ _ _ _ => trivial) trivial h
  exact ⟨_, ht, hf.length, hf.closed, fun _ => hf.mem_cells, hf.matches h⟩

/-- A copy of a sound run is sound. -/
theorem take_matches {arena : Arena} {slots : Slots} (h : (Segment.mk arena slots).Sound) :
    ∃ s, take arena slots = .ok s ∧ s.length = slots.size ∧ s.Sound ∧
      (Segment.mk arena slots).owner.Matches s.owner := by
  obtain ⟨s, ht, hl, hclosed, hcells, hm⟩ := take_closed h.closed
  exact ⟨s, ht, hl, ⟨hclosed, fun c hc => h.padded c (hcells c hc), h.narrow.of_matches hm⟩, hm⟩

end Parcel.Segment
