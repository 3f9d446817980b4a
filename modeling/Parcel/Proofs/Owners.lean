import Parcel.Cell

/-!
Ownership: the cell that every offset belongs to, under some name. Which names are used does not matter,
so two ownerships match if they give the same cells and tell the same offsets apart.
-/
namespace Parcel

/-- The `length` offsets from `start` on. -/
def Span (start length i : Nat) : Prop := start ≤ i ∧ i < start + length

instance (start length : Nat) : DecidablePred (Span start length) :=
  fun i => inferInstanceAs (Decidable (start ≤ i ∧ i < start + length))

/-- The cell that an offset belongs to, with the name of the cell; nothing at an empty offset. -/
abbrev Owners (α : Type) := Nat → Option (α × Cell)

namespace Owners

variable {α β γ : Type}

def name (f : Owners α) (i : Nat) : Option α := (f i).map Prod.fst

def cell (f : Owners α) (i : Nat) : Option Cell := (f i).map Prod.snd

theorem name_of_eq {f : Owners α} (h : f i = some (a, c)) : f.name i = some a := by
  simp only [name, h, Option.map_some]

theorem cell_of_eq {f : Owners α} (h : f i = some (a, c)) : f.cell i = some c := by
  simp only [cell, h, Option.map_some]

theorem exists_of_name {f : Owners α} (h : f.name i = some a) : ∃ c, f i = some (a, c) := by
  obtain ⟨⟨b, c⟩, he, rfl⟩ := Option.map_eq_some_iff.mp h
  exact ⟨c, he⟩

theorem exists_of_cell {f : Owners α} (h : f.cell i = some c) : ∃ a, f i = some (a, c) := by
  obtain ⟨⟨a, d⟩, he, rfl⟩ := Option.map_eq_some_iff.mp h
  exact ⟨a, he⟩

theorem name_eq_none {f : Owners α} : f.name i = none ↔ f.cell i = none := by
  simp only [name, cell, Option.map_eq_none_iff]

/-- The same cells, told apart at the same offsets. -/
structure Matches (f : Owners α) (g : Owners β) : Prop where
  cell : ∀ i, f.cell i = g.cell i
  name : ∀ i j, f.name i = f.name j ↔ g.name i = g.name j

theorem Matches.refl (f : Owners α) : Matches f f := ⟨fun _ => rfl, fun _ _ => Iff.rfl⟩

theorem Matches.symm {f : Owners α} {g : Owners β} (h : Matches f g) : Matches g f :=
  ⟨fun i => (h.cell i).symm, fun i j => (h.name i j).symm⟩

theorem Matches.trans {f : Owners α} {g : Owners β} {k : Owners γ} (h : Matches f g)
    (h' : Matches g k) : Matches f k :=
  ⟨fun i => (h.cell i).trans (h'.cell i), fun i j => (h.name i j).trans (h'.name i j)⟩

theorem Matches.none_iff {f : Owners α} {g : Owners β} (h : Matches f g) (i : Nat) :
    f.name i = none ↔ g.name i = none := by
  rw [name_eq_none, name_eq_none, h.cell i]

/-- What one side says of two offsets of one cell the other side says too. -/
theorem Matches.transfer {f : Owners α} {g : Owners β} (h : Matches f g)
    (hi : g i = some (b, c)) (hj : g j = some (b, d)) :
    ∃ a, f i = some (a, c) ∧ f j = some (a, d) := by
  obtain ⟨a, ha⟩ := exists_of_cell ((h.cell i).trans (cell_of_eq hi))
  obtain ⟨a', ha'⟩ := exists_of_cell ((h.cell j).trans (cell_of_eq hj))
  have hn := (h.name i j).mpr ((name_of_eq hi).trans (name_of_eq hj).symm)
  rw [name_of_eq ha, name_of_eq ha', Option.some.injEq] at hn
  subst a'
  exact ⟨a, ha, ha'⟩

/-- Ownership seen through a change of offsets. -/
theorem Matches.comp {f : Owners α} {g : Owners β} (h : Matches f g) (at' : Nat → Nat) :
    Matches (fun i => f (at' i)) (fun i => g (at' i)) :=
  ⟨fun i => h.cell (at' i), fun i j => h.name (at' i) (at' j)⟩

/-- The same ownership under other names. -/
def renamed (r : α → β) (f : Owners α) : Owners β :=
  fun i => (f i).map fun (a, c) => (r a, c)

theorem name_renamed (r : α → β) (f : Owners α) (i : Nat) :
    (f.renamed r).name i = (f.name i).map r := by
  simp only [name, renamed, Option.map_map]
  rfl

theorem cell_renamed (r : α → β) (f : Owners α) (i : Nat) : (f.renamed r).cell i = f.cell i := by
  simp only [cell, renamed, Option.map_map]
  rfl

theorem matches_renamed {r : α → β} (hr : ∀ a b, r a = r b → a = b) (f : Owners α) :
    Matches f (f.renamed r) := by
  refine ⟨fun i => (cell_renamed r f i).symm, fun i j => ?_⟩
  rw [name_renamed, name_renamed]
  constructor
  · exact congrArg _
  · intro h
    cases hi : f.name i <;> cases hj : f.name j <;>
      simp only [hi, hj, Option.map_none, Option.map_some, reduceCtorEq, Option.some.injEq] at h ⊢
    exact hr _ _ h

/-- The offsets in `s` as `g` has them, the others as `f` has them. -/
def patched (f : Owners α) (s : Nat → Prop) [DecidablePred s] (g : Owners α) : Owners α :=
  fun i => if s i then g i else f i

theorem patched_pos {f g : Owners α} {s : Nat → Prop} [DecidablePred s] (h : s i) :
    f.patched s g i = g i := if_pos h

theorem patched_neg {f g : Owners α} {s : Nat → Prop} [DecidablePred s] (h : ¬ s i) :
    f.patched s g i = f i := if_neg h

theorem name_patched (f g : Owners α) (s : Nat → Prop) [DecidablePred s] (i : Nat) :
    (f.patched s g).name i = if s i then g.name i else f.name i := by
  unfold name patched
  split <;> rfl

theorem cell_patched (f g : Owners α) (s : Nat → Prop) [DecidablePred s] (i : Nat) :
    (f.patched s g).cell i = if s i then g.cell i else f.cell i := by
  unfold cell patched
  split <;> rfl

/-- No name is used on both sides. -/
def Apart (f g : Owners α) : Prop :=
  ∀ i j a, f.name i = some a → g.name j ≠ some a

theorem Apart.name_eq_iff {f g : Owners α} (h : Apart f g) (i j : Nat) :
    f.name i = g.name j ↔ f.name i = none ∧ g.name j = none := by
  constructor
  · intro he
    cases hi : f.name i with
    | none => exact ⟨rfl, he ▸ hi⟩
    | some a => exact absurd (he.symm.trans hi) (h i j a hi)
  · intro hx
    obtain ⟨hi, hj⟩ := hx
    rw [hi, hj]

theorem Matches.patched {f g : Owners α} {f' g' : Owners β} (s : Nat → Prop) [DecidablePred s]
    (hf : Matches f f') (hg : Matches g g') (h : Apart f g) (h' : Apart f' g') :
    Matches (f.patched s g) (f'.patched s g') := by
  constructor
  · intro i
    rw [cell_patched, cell_patched]
    split
    · exact hg.cell i
    · exact hf.cell i
  · intro i j
    simp only [name_patched]
    by_cases hi : s i <;> by_cases hj : s j <;> simp only [hi, hj, ↓reduceIte]
    · exact hg.name i j
    · rw [eq_comm, h.name_eq_iff, eq_comm (a := g'.name i), h'.name_eq_iff, hf.none_iff, hg.none_iff]
    · rw [h.name_eq_iff, h'.name_eq_iff, hf.none_iff, hg.none_iff]
    · exact hf.name i j

/-- Nothing belongs to anything. -/
def nobody : Owners α := fun _ => none

/-- Every offset belongs to one cell. -/
def everywhere (a : α) (c : Cell) : Owners α := fun _ => some (a, c)

theorem matches_nobody : Matches (nobody : Owners α) (nobody : Owners β) :=
  ⟨fun _ => rfl, fun _ _ => ⟨fun _ => rfl, fun _ => rfl⟩⟩

theorem matches_everywhere (a : α) (b : β) (c : Cell) : Matches (everywhere a c) (everywhere b c) :=
  ⟨fun _ => rfl, fun _ _ => ⟨fun _ => rfl, fun _ => rfl⟩⟩

theorem apart_nobody (f : Owners α) : Apart f nobody := by
  intro i j a _ h
  cases h

theorem apart_everywhere {f : Owners α} (h : ∀ i, f.name i ≠ some a) (c : Cell) :
    Apart f (everywhere a c) := by
  intro i j b hi hj
  cases hj
  exact h i hi

/-- The offsets of a cell lie within its size of each other. -/
def Narrow (f : Owners α) : Prop :=
  ∀ i j a c, f i = some (a, c) → f.name j = some a → j < i + c.size.toNat

theorem Narrow.of_matches {f : Owners α} {g : Owners β} (hf : Narrow f) (h : Matches f g) :
    Narrow g := by
  intro i j b c hi hj
  obtain ⟨d, hj⟩ := exists_of_name hj
  obtain ⟨a, ha, ha'⟩ := h.transfer hi hj
  exact hf i j a c ha (name_of_eq ha')

theorem Narrow.patched {f g : Owners α} (s : Nat → Prop) [DecidablePred s] (hf : Narrow f)
    (hg : ∀ i j a c, s i → s j → g i = some (a, c) → g.name j = some a → j < i + c.size.toNat)
    (h : Apart f g) : Narrow (f.patched s g) := by
  intro i j a c hi hj
  rw [name_patched] at hj
  by_cases hsi : s i <;> by_cases hsj : s j
  · rw [patched_pos hsi] at hi
    rw [if_pos hsj] at hj
    exact hg i j a c hsi hsj hi hj
  · rw [patched_pos hsi] at hi
    rw [if_neg hsj] at hj
    exact absurd (name_of_eq hi) (h j i a hj)
  · rw [patched_neg hsi] at hi
    rw [if_pos hsj] at hj
    exact absurd hj (h i j a (name_of_eq hi))
  · rw [patched_neg hsi] at hi
    rw [if_neg hsj] at hj
    exact hf i j a c hi hj

/-- The `length` offsets from `offset` on, as a run of its own. -/
def window (f : Owners α) (offset length : Nat) : Owners α :=
  fun i => if i < length then f (offset + i) else none

theorem window_eq_some {f : Owners α} :
    f.window offset length i = some x ↔ i < length ∧ f (offset + i) = some x := by
  unfold window
  split <;> simp [*]

theorem Matches.window {f : Owners α} {g : Owners β} (h : Matches f g) (offset length : Nat) :
    Matches (f.window offset length) (g.window offset length) := by
  have hp := Matches.patched (· < length) matches_nobody (h.comp (offset + ·))
    (fun i j a hi _ => by cases hi) (fun i j a hi _ => by cases hi)
  exact hp

theorem Narrow.window {f : Owners α} (h : Narrow f) (offset length : Nat) :
    Narrow (f.window offset length) := by
  intro i j a c hi hj
  obtain ⟨d, hj⟩ := exists_of_name hj
  have := h _ _ a c (window_eq_some.mp hi).2 (name_of_eq (window_eq_some.mp hj).2)
  omega

/-- All the offsets that a cell was written with, from `start` on, belong to it. -/
def Whole (f : Owners α) (start : Nat) (c : Cell) : Prop :=
  ∃ a, ∀ k < c.size.toNat, f (start + k) = some (a, c)

theorem Whole.of_matches {f : Owners α} {g : Owners β} (h : Matches f g) (hg : Whole g start c)
    (hc : 0 < c.size.toNat) : Whole f start c := by
  obtain ⟨b, hb⟩ := hg
  obtain ⟨a, ha, -⟩ := h.transfer (hb 0 hc) (hb 0 hc)
  refine ⟨a, fun k hk => ?_⟩
  obtain ⟨a', h0, hk⟩ := h.transfer (hb 0 hc) (hb k hk)
  rw [h0, Option.some.injEq, Prod.mk.injEq] at ha
  exact ha.1 ▸ hk

theorem whole_iff {f : Owners α} {g : Owners β} (h : Matches f g) (hc : 0 < c.size.toNat) :
    Whole f start c ↔ Whole g start c :=
  ⟨fun hf => hf.of_matches h.symm hc, fun hg => hg.of_matches h hc⟩

/-- Behind a write, whole are the cell that was written and the cells that it left alone. -/
theorem whole_written {f : Owners α} {c d : Cell} (hf : ∀ i, f.name i ≠ some a)
    (hc : 0 < c.size.toNat) (hd : 0 < d.size.toNat) :
    Whole (f.patched (Span q c.size.toNat) (everywhere a c)) p d ↔
      (p = q ∧ d = c) ∨ (Whole f p d ∧ ¬ (q < p + d.size.toNat ∧ p < q + c.size.toNat)) := by
  constructor
  · intro hx
    obtain ⟨b, hb⟩ := hx
    have h0 := hb 0 hd
    by_cases hp : Span q c.size.toNat p
    · rw [Nat.add_zero, patched_pos hp] at h0
      cases h0
      have hlast : Span q c.size.toNat (p + (c.size.toNat - 1)) := by
        by_cases hs : Span q c.size.toNat (p + (c.size.toNat - 1))
        · exact hs
        · have h1 := hb (c.size.toNat - 1) (by omega)
          rw [patched_neg hs] at h1
          exact absurd (name_of_eq h1) (hf _)
      have := hp.1
      have := hlast.2
      exact .inl ⟨by omega, rfl⟩
    · rw [Nat.add_zero, patched_neg hp] at h0
      have hout (k : Nat) (hk : k < d.size.toNat) : ¬ Span q c.size.toNat (p + k) := by
        intro hs
        have h1 := hb k hk
        rw [patched_pos hs] at h1
        cases h1
        exact hf p (name_of_eq h0)
      refine .inr ⟨⟨b, fun k hk => ?_⟩, ?_⟩
      · have h1 := hb k hk
        rwa [patched_neg (hout k hk)] at h1
      · intro hx
        obtain ⟨hl, hu⟩ := hx
        have hlow : p < q := by
          by_cases hq : q ≤ p
          · exact absurd ⟨hq, hu⟩ hp
          · omega
        exact hout (q - p) (by omega) ⟨by omega, by omega⟩
  · intro hx
    rcases hx with ⟨rfl, rfl⟩ | ⟨⟨b, hb⟩, hout⟩
    · exact ⟨a, fun k hk => patched_pos ⟨by omega, by omega⟩⟩
    · refine ⟨b, fun k hk => ?_⟩
      rw [patched_neg (fun hs => hout ⟨by have := hs.1; omega, by have := hs.2; omega⟩)]
      exact hb k hk

/-- Behind a cut, whole are the cells that end before it. -/
theorem whole_cut {f : Owners α} {d : Cell} (hd : 0 < d.size.toNat) :
    Whole (f.patched (n ≤ ·) nobody) p d ↔ Whole f p d ∧ p + d.size.toNat ≤ n := by
  constructor
  · intro hx
    obtain ⟨b, hb⟩ := hx
    have hin (k : Nat) (hk : k < d.size.toNat) : ¬ n ≤ p + k := by
      intro hs
      have h1 := hb k hk
      rw [patched_pos hs] at h1
      cases h1
    refine ⟨⟨b, fun k hk => ?_⟩, ?_⟩
    · have h1 := hb k hk
      rwa [patched_neg (hin k hk)] at h1
    · have := hin (d.size.toNat - 1) (by omega)
      omega
  · intro hx
    obtain ⟨⟨b, hb⟩, hle⟩ := hx
    refine ⟨b, fun k hk => ?_⟩
    rw [patched_neg (by omega)]
    exact hb k hk

/-- In a window, whole are the cells that it does not cut. -/
theorem whole_window {f : Owners α} (hd : 0 < d.size.toNat) :
    Whole (f.window offset length) k d ↔ Whole f (offset + k) d ∧ k + d.size.toNat ≤ length := by
  constructor
  · intro hx
    obtain ⟨a, ha⟩ := hx
    have hlast := window_eq_some.mp (ha (d.size.toNat - 1) (by omega))
    refine ⟨⟨a, fun j hj => ?_⟩, by omega⟩
    rw [Nat.add_assoc]
    exact (window_eq_some.mp (ha j hj)).2
  · intro hx
    obtain ⟨⟨a, ha⟩, hle⟩ := hx
    refine ⟨a, fun j hj => window_eq_some.mpr ⟨by omega, ?_⟩⟩
    rw [← Nat.add_assoc]
    exact ha j hj

/-- Behind a place where nothing lies, a patch is what it was elsewhere. -/
theorem patched_behind {f g : Owners α} (hf : ∀ i, n ≤ i → f i = none)
    (hg : ∀ i, length ≤ i → g i = none) (k : Nat) :
    f.patched (Span n length) (fun i => g (i - n)) (n + k) = g k := by
  by_cases hk : k < length
  · rw [patched_pos ⟨by omega, by omega⟩, Nat.add_sub_cancel_left]
  · rw [patched_neg (fun hs => hk (by have := hs.2; omega)), hf _ (by omega), hg _ (by omega)]

theorem whole_behind {f g : Owners α} (hf : ∀ i, n ≤ i → f i = none)
    (hg : ∀ i, length ≤ i → g i = none) :
    Whole (f.patched (Span n length) (fun i => g (i - n))) (n + k) d ↔ Whole g k d := by
  unfold Whole
  simp only [Nat.add_assoc, patched_behind hf hg]

theorem not_whole_nobody {d : Cell} (hd : 0 < d.size.toNat) : ¬ Whole (nobody : Owners α) p d := by
  intro hx
  obtain ⟨b, hb⟩ := hx
  cases hb 0 hd

end Owners

end Parcel
