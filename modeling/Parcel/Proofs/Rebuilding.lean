import Parcel.Proofs.Canonical

/-!
Making a buffer out of cells undoes the listing of cells, and is undone by it but for the cells without
bytes, which leave nothing behind.
-/
namespace Parcel

namespace Action

/-- Items for which nothing is done can be left out. -/
theorem each_filter {f : β → Action σ ε Unit} {p : β → Bool} (h : ∀ x, p x = false → f x = pure ())
    (xs : List β) : each f (xs.filter p) = each f xs := by
  induction xs with
  | nil => rfl
  | cons x xs ih =>
    cases hx : p x with
    | false =>
      rw [List.filter_cons_of_neg (by simp [hx]), ih, each, h x hx]
      rfl
    | true => rw [List.filter_cons_of_pos hx, each, each, ih]

end Action

def Cell.covers (c : Cell) : Bool := c.size ≠ 0

theorem Cell.extent_filter (cells : List Cell) : extent (cells.filter covers) = extent cells := by
  induction cells with
  | nil => rfl
  | cons c cells ih =>
    by_cases hc : c.size = 0
    · rw [List.filter_cons_of_neg (by simp [covers, hc]), ih, extent_cons, hc]
      exact (Nat.zero_add _).symm
    · rw [List.filter_cons_of_pos (by simp [covers, hc]), extent_cons, extent_cons, ih]

namespace Buffer
open Parcel.Action Owners

variable {b r : Buffer} {rules : Rules} {cells entries : List Cell}

theorem write_of_not_covers {c : Cell} (h : c.covers = false) : write c.size c.value = pure () := by
  have hc : c.size = 0 := by simpa [Cell.covers] using h
  rw [hc]
  rfl

theorem ofCells_filter (rules : Rules) (cells : List Cell) :
    (ofCells rules (cells.filter Cell.covers) : Action σ Error Buffer) = ofCells rules cells := by
  unfold ofCells
  rw [each_filter fun _ => write_of_not_covers]

/-- A buffer as the cells make it up: at its start, with those of them that have bytes. -/
structure MadeOf (rules : Rules) (cells : List Cell) (r : Buffer) : Prop where
  rules : r.rules = rules
  size : r.size = Cell.extent cells
  position : r.position = 0
  settled : r.justExtended = false
  listed : r.cells = .ok (cells.filter Cell.covers)

theorem ofCells_made (rules : Rules) (h4 : ∀ c ∈ cells, c.size.toNat % 4 = 0)
    (hfit : Cell.extent cells ≤ rules.maxCapacity.toNat) (t : σ) :
    ∃ r, (ofCells rules cells).Yields t (.ok r) t ∧ MadeOf rules cells r := by
  have hpad : ∀ c ∈ cells.filter Cell.covers, c.Padded := by
    intro c hc
    obtain ⟨hmem, hcovers⟩ := List.mem_filter.mp hc
    exact ⟨Size.toNat_ne_zero.mp (of_decide_eq_true hcovers), h4 c hmem⟩
  rw [← Cell.extent_filter] at hfit
  obtain ⟨r, hr, hsr, hrr, hpr, hjr, hl⟩ := ofCells_laid rules hpad hfit t
  rw [ofCells_filter] at hr
  refine ⟨r, hr, hrr, ?_, hpr, hjr, hsr.cellsFrom_of_laid hl hpad⟩
  rw [← hl.extent, Cell.extent_filter, Nat.zero_add]

theorem ofCells_outcome (rules : Rules) (h4 : ∀ c ∈ cells, c.size.toNat % 4 = 0) (t : σ) :
    (Cell.extent cells ≤ rules.maxCapacity.toNat ∧
      ∃ r, (ofCells rules cells).Yields t (.ok r) t ∧ MadeOf rules cells r) ∨
    (rules.maxCapacity.toNat < Cell.extent cells ∧
      ∃ kept c, Cell.FirstBeyond rules.maxCapacity.toNat cells kept c ∧
        (ofCells rules cells).Yields t (.error (.refused
          (.capacityExceeded (Cell.extent (kept ++ [c])) rules.maxCapacity))) t) := by
  by_cases hfit : Cell.extent cells ≤ rules.maxCapacity.toNat
  · exact .inl ⟨hfit, ofCells_made rules h4 hfit t⟩
  · have hlt := Nat.lt_of_not_le hfit
    exact .inr ⟨hlt, ofCells_stopped rules h4 hlt t⟩

/-- What a buffer lists are cells with bytes, and they fit into it. -/
theorem Sound.ofCells_cells (hb : b.Sound) (hc : b.cells = .ok entries) (t : σ) :
    ∃ r, (ofCells b.rules entries).Yields t (.ok r) t ∧ r.cells = .ok entries := by
  have hpad := (hb.laid_of_cellsFrom (Nat.zero_le _) hc).2
  have hfit : Cell.extent entries ≤ b.rules.maxCapacity.toNat :=
    hb.extent_cells hc ▸ Nat.le_trans hb.stored hb.limited
  have hall : entries.filter Cell.covers = entries := List.filter_eq_self.mpr fun c hmem =>
    decide_eq_true (Size.toNat_ne_zero.mpr (hpad c hmem).1)
  obtain ⟨r, hr, hm⟩ := ofCells_made b.rules (fun c hmem => (hpad c hmem).2) hfit t
  exact ⟨r, hr, hall ▸ hm.listed⟩

/-- Cells of whole words, or of no bytes, make up a buffer exactly if they fit into it, and the first of
them that ends beyond the limit is refused. The buffer lists the cells that have bytes, and stands at its
start. The cells that any buffer lists make up a buffer that lists the same cells. -/
theorem ofCells_inverse :
    (∀ (rules : Rules) (cells : List Cell), (∀ c ∈ cells, c.size.toNat % 4 = 0) →
      let outcome := (ofCells (σ := Unit) rules cells ()).result
      ((∃ r, outcome = .ok r) ↔ Cell.extent cells ≤ rules.maxCapacity.toNat) ∧
      (∀ r, outcome = .ok r → MadeOf rules cells r) ∧
      (rules.maxCapacity.toNat < Cell.extent cells →
        ∃ kept c, Cell.FirstBeyond rules.maxCapacity.toNat cells kept c ∧
          outcome = .error (.refused
            (.capacityExceeded (Cell.extent (kept ++ [c])) rules.maxCapacity)))) ∧
    ∀ (b : Buffer) (entries : List Cell), Reachable b → b.cells = .ok entries →
      ∃ r, (ofCells (σ := Unit) b.rules entries ()).result = .ok r ∧ r.cells = .ok entries := by
  constructor
  · intro rules cells h4 outcome
    rcases ofCells_outcome rules h4 () with ⟨hfit, r, hr, hm⟩ | ⟨hlt, kept, c, hfirst, he⟩
    · refine ⟨⟨fun _ => hfit, fun _ => ⟨r, hr.result⟩⟩, fun r' hr' => ?_, fun hlt => ?_⟩
      · cases hr.result.symm.trans hr'
        exact hm
      · exact absurd hfit (Nat.not_le.mpr hlt)
    · have hno (r : Buffer) : outcome ≠ .ok r := fun hr => by cases he.result.symm.trans hr
      refine ⟨⟨fun h => ?_, fun hfit => ?_⟩, fun r hr => absurd hr (hno r),
        fun _ => ⟨kept, c, hfirst, he.result⟩⟩
      · obtain ⟨r, hr⟩ := h
        exact absurd hr (hno r)
      · exact absurd hfit (Nat.not_le.mpr hlt)
  · intro b entries hb hc
    obtain ⟨r, hr, hlisted⟩ := hb.sound.ofCells_cells hc ()
    exact ⟨r, hr.result, hlisted⟩

/-- Two equal ints with an absent cell between them, and a long. -/
theorem ofCells_inverse_repeated :
    let cells : List Cell := [⟨4, .int 7⟩, ⟨0, .string none⟩, ⟨4, .int 7⟩, ⟨8, .long 1⟩]
    let listed : List Cell := [⟨4, .int 7⟩, ⟨4, .int 7⟩, ⟨8, .long 1⟩]
    (ofCells (σ := Unit) { maxCapacity := 12 } cells ()).result =
      .error (.refused (.capacityExceeded 16 12)) ∧
    ∃ r, (ofCells (σ := Unit) { maxCapacity := 16 } cells ()).result = .ok r ∧
      r.cells = .ok listed ∧
      ∃ r', (ofCells (σ := Unit) r.rules listed ()).result = .ok r' ∧ r'.cells = .ok listed := by
  intro cells listed
  have h4 : ∀ c ∈ cells, c.size.toNat % 4 = 0 := by simp [cells]
  obtain ⟨hofCells, hcells⟩ := ofCells_inverse
  obtain ⟨hfits, hmade, -⟩ := hofCells { maxCapacity := 16 } cells h4
  obtain ⟨r, hr⟩ := hfits.mpr (by decide)
  have hlisted : r.cells = .ok listed := (hmade r hr).listed
  exact ⟨rfl, r, hr, hlisted, hcells r listed (.ofCells hr) hlisted⟩

end Buffer

end Parcel
