import Parcel.Proofs.Owners

/-!
Cells that follow each other without a gap leave an ownership no choice but names, so two ownerships with
the same cells laid out match.
-/
namespace Parcel

def Cell.extent : List Cell → Nat
  | [] => 0
  | c :: cells => c.size.toNat + extent cells

@[simp] theorem Cell.extent_nil : extent [] = 0 := rfl

@[simp] theorem Cell.extent_cons (c : Cell) (cells : List Cell) :
    extent (c :: cells) = c.size.toNat + extent cells := rfl

theorem Cell.extent_append (front back : List Cell) :
    extent (front ++ back) = extent front + extent back := by
  induction front with
  | nil => simp
  | cons c front ih => simp [ih, Nat.add_assoc]

/-- Of cells that are laid one behind the other, `c` is the first that ends beyond `limit`, and `kept` are
those before it. -/
structure Cell.FirstBeyond (limit : Nat) (cells kept : List Cell) (c : Cell) : Prop where
  split : ∃ rest, cells = kept ++ c :: rest
  before : extent kept ≤ limit
  beyond : limit < extent (kept ++ [c])

namespace Owners

variable {α β : Type} {f : Owners α} {g : Owners β} {c : Cell}

/-- Whole cells follow each other from `start` to `stop`. -/
def Laid (f : Owners α) : Nat → List Cell → Nat → Prop
  | start, [], stop => start = stop
  | start, c :: cs, stop =>
    0 < c.size.toNat ∧ f.Whole start c ∧ f.Laid (start + c.size.toNat) cs stop

theorem Laid.extent (h : f.Laid start cs stop) : start + Cell.extent cs = stop := by
  induction cs generalizing start with
  | nil => exact h
  | cons c cs ih =>
    obtain ⟨_, _, hrest⟩ := h
    rw [Cell.extent_cons, ← Nat.add_assoc]
    exact ih hrest

theorem Laid.le (h : f.Laid start cs stop) : start ≤ stop := by
  have := h.extent
  omega

theorem Laid.of_whole (h : f.Laid start cs stop)
    (hw : ∀ p d, 0 < d.size.toNat → p + d.size.toNat ≤ stop → f.Whole p d → g.Whole p d) :
    g.Laid start cs stop := by
  induction cs generalizing start with
  | nil => exact h
  | cons c cs ih =>
    obtain ⟨hpos, hwhole, hrest⟩ := h
    exact ⟨hpos, hw _ _ hpos hrest.le hwhole, ih hrest⟩

theorem Laid.snoc (h : f.Laid start cs stop) (hc : 0 < c.size.toNat) (hw : f.Whole stop c) :
    f.Laid start (cs ++ [c]) (stop + c.size.toNat) := by
  induction cs generalizing start with
  | nil =>
    cases h
    exact ⟨hc, hw, rfl⟩
  | cons d cs ih =>
    obtain ⟨hpos, hwhole, hrest⟩ := h
    exact ⟨hpos, hwhole, ih hrest⟩

/-- The offsets before `start` emptied. -/
def since (f : Owners α) (start : Nat) : Owners α := fun i => if i < start then none else f i

theorem since_of_lt (f : Owners α) (h : i < start) : f.since start i = none := if_pos h

theorem since_of_le (f : Owners α) (h : start ≤ i) : f.since start i = f i :=
  if_neg (Nat.not_lt.mpr h)

theorem since_zero (f : Owners α) : f.since 0 = f := by
  funext i
  exact f.since_of_le (Nat.zero_le i)

/-- The ownership that lays out cells from `start` on, each under the name of its first offset. -/
def layout : Nat → List Cell → Owners Nat
  | _, [] => nobody
  | start, c :: cs =>
    (layout (start + c.size.toNat) cs).patched (Span start c.size.toNat) (everywhere start c)

theorem le_of_name_layout (h : (layout start cs).name i = some a) : start ≤ a := by
  induction cs generalizing start with
  | nil => cases h
  | cons c cs ih =>
    rw [layout, name_patched] at h
    split at h
    · exact Nat.le_of_eq (Option.some.inj h)
    · have := ih h
      omega

theorem Laid.matches_layout (h : f.Laid start cs stop) (hn : f.Narrow)
    (hf : ∀ i, stop ≤ i → f i = none) : Matches (f.since start) (layout start cs) := by
  induction cs generalizing start with
  | nil =>
    cases h
    have he : f.since stop = nobody := by
      funext i
      by_cases hi : i < stop
      · exact f.since_of_lt hi
      · rw [f.since_of_le (by omega)]
        exact hf i (by omega)
    rw [he]
    exact matches_nobody
  | cons c cs ih =>
    obtain ⟨hpos, ⟨a, ha⟩, hrest⟩ := h
    -- the first cell is a patch on what is laid behind it
    have he : f.since start =
        (f.since (start + c.size.toNat)).patched (Span start c.size.toNat) (everywhere a c) := by
      funext i
      by_cases hs : Span start c.size.toNat i
      · have := hs.1
        have := hs.2
        have hi := ha (i - start) (by omega)
        rw [show start + (i - start) = i by omega] at hi
        rw [patched_pos hs, f.since_of_le hs.1, hi]
        rfl
      · rw [patched_neg hs]
        by_cases hi : i < start
        · rw [f.since_of_lt hi, f.since_of_lt (by omega)]
        · have : ¬ i < start + c.size.toNat := fun hlt => hs ⟨by omega, hlt⟩
          rw [f.since_of_le (by omega), f.since_of_le (by omega)]
    rw [he]
    refine (ih hrest).patched _ (matches_everywhere a start c) (apart_everywhere ?_ c)
      (apart_everywhere ?_ c)
    · intro i hi
      obtain ⟨d, hd⟩ := exists_of_name hi
      by_cases hlt : i < start + c.size.toNat
      · rw [f.since_of_lt hlt] at hd
        cases hd
      · rw [f.since_of_le (by omega)] at hd
        exact hlt (hn start i a c (ha 0 hpos) (name_of_eq hd))
    · intro i hi
      have := le_of_name_layout hi
      omega

theorem Laid.matches (hf : f.Laid 0 cs stop) (hg : g.Laid 0 cs stop) (hfn : f.Narrow)
    (hgn : g.Narrow) (hfe : ∀ i, stop ≤ i → f i = none) (hge : ∀ i, stop ≤ i → g i = none) :
    Matches f g := by
  have hm := (hf.matches_layout hfn hfe).trans (hg.matches_layout hgn hge).symm
  rwa [since_zero, since_zero] at hm

end Owners

end Parcel
