import Parcel.Proofs.Appending
import Parcel.Proofs.Scanning

/-!
Cells of one buffer behind the cells of another. A range that starts and ends where cells of its buffer
do is added as just these cells, so the bytes of the result are those of both, behind the new count.
-/
namespace Parcel

namespace Owners

variable {α β : Type} {f : Owners α} {g : Owners β} {front back cells : List Cell}

theorem laid_append : f.Laid start (front ++ back) stop ↔
    f.Laid start front (start + Cell.extent front) ∧ f.Laid (start + Cell.extent front) back stop := by
  induction front generalizing start with
  | nil => exact (and_iff_right rfl).symm
  | cons c front ih =>
    rw [List.cons_append, Laid, Laid, ih, Cell.extent_cons, ← Nat.add_assoc, and_assoc, and_assoc]

/-- Cells that are whole at the same distance from another offset are laid out from there. -/
theorem Laid.shifted (h : f.Laid (a + k) cells stop)
    (hw : ∀ k d, 0 < d.size.toNat → a + k + d.size.toNat ≤ stop →
      f.Whole (a + k) d → g.Whole (b + k) d) :
    g.Laid (b + k) cells (b + k + Cell.extent cells) := by
  induction cells generalizing k with
  | nil => rfl
  | cons c cells ih =>
    obtain ⟨hpos, hwhole, hrest⟩ := h
    rw [Nat.add_assoc] at hrest
    have hlaid := ih hrest
    rw [Cell.extent_cons, ← Nat.add_assoc]
    rw [← Nat.add_assoc] at hrest hlaid
    exact ⟨hpos, hw k c hpos hrest.le hwhole, hlaid⟩

end Owners

namespace Buffer
open Parcel.Action Owners

variable {b source : Buffer} {s : Segment} {front before between behind cells : List Cell}

/-- Nothing that is added changes which cells the old data are made up of. -/
theorem Sound.laid_pasted_old (hb : b.Sound) (s : Segment) (h : b.owner.Laid 0 cells b.size) :
    (b.pasted s).owner.Laid 0 cells b.size := by
  refine h.of_whole fun p d _ hend hwhole => ?_
  obtain ⟨id, ho⟩ := hwhole
  exact ⟨id, fun k hk => (hb.owner_pasted_old s (by omega)).trans (ho k hk)⟩

/-- The cells of a range are laid out behind the old data. -/
theorem Sound.laid_pasted (hb : b.Sound)
    (hcopy : (source.owner.window offset (Cell.extent cells)).Matches s.owner)
    (h : source.owner.Laid offset cells (offset + Cell.extent cells)) :
    (b.pasted s).owner.Laid b.size cells (b.size + Cell.extent cells) := by
  refine Laid.shifted (a := offset) (k := 0) h fun k d hpos hend hwhole => ?_
  exact (hb.whole_pasted hcopy hpos k).mpr ⟨hwhole, by omega⟩

/-- A range of whole cells is added as these cells. -/
theorem Sound.append_cells (hb : b.Sound) (hsource : source.Sound) (he : b.position = b.size)
    (hc : b.cells = .ok front) (hc' : source.cells = .ok (before ++ between ++ behind))
    (hfit : b.size + Cell.extent between ≤ b.rules.maxCapacity.toNat) :
    ∃ c, (append source (Cell.extent before) (Cell.extent between)).Yields b (.ok ()) c ∧
      c.cells = .ok (front ++ between) := by
  obtain ⟨hfront, hpad⟩ := hb.laid_of_cellsFrom (Nat.zero_le _) hc
  obtain ⟨hall, hpad'⟩ := hsource.laid_of_cellsFrom (Nat.zero_le _) hc'
  obtain ⟨hlead, hbehind⟩ := laid_append.mp hall
  obtain ⟨-, hbetween⟩ := laid_append.mp hlead
  rw [Cell.extent_append, ← Nat.add_assoc, Nat.zero_add] at hbetween hbehind
  obtain ⟨s, hcopy, hl, hs, hm⟩ :=
    copy_matches hsource (Nat.le_trans hbehind.le hsource.stored)
  have hnew := hb.pasted hs (hl ▸ hfit)
  have hsize : (b.pasted s).size = b.size + Cell.extent between := congrArg (b.size + ·) hl
  refine ⟨b.pasted s, append_yields he hcopy (paste_yields hb he (hl ▸ hfit)), ?_⟩
  refine hnew.cellsFrom_of_laid ?_ fun d hd => ?_
  · rw [hsize, laid_append, hfront.extent]
    exact ⟨hb.laid_pasted_old s hfront, hb.laid_pasted hm hbetween⟩
  · rcases List.mem_append.mp hd with hd | hd
    · exact hpad d hd
    · exact hpad' d (List.mem_append_left _ (List.mem_append_right _ hd))

end Buffer

namespace Marshal
open Parcel.Action

/-- Cells before others are written before them. -/
theorem Puts.after {front back : List Cell} (h : ∀ c ∈ front, c.value.Encodable)
    (hback : Puts (each encodeEntry back) y) :
    ∃ x, Puts (each encodeEntry front) x ∧ Puts (each encodeEntry (front ++ back)) (x ++ y) := by
  induction front with
  | nil => exact ⟨[], puts_nothing, hback⟩
  | cons c front ih =>
    obtain ⟨hc, hfront⟩ := List.forall_mem_cons.mp h
    obtain ⟨x, hx⟩ := puts_entry hc
    obtain ⟨x', hx', hboth⟩ := ih hfront
    exact ⟨x ++ x', hx.bind hx', List.append_assoc x x' y ▸ hx.bind hboth⟩

end Marshal

namespace Buffer
open Parcel.Action

variable {b source : Buffer} {front before between behind : List Cell}

/-- Cells of a buffer added to another, or to the buffer itself, are listed behind those that were there
and written behind them. -/
theorem append_joins (h : Reachable b) (h' : Reachable source) (he : b.position = b.size)
    (hc : b.cells = .ok front) (hc' : source.cells = .ok (before ++ between ++ behind))
    (hfit : b.size + Cell.extent between ≤ b.rules.maxCapacity.toNat) :
    ∃ c, (append source (Cell.extent before) (Cell.extent between)).Yields b (.ok ()) c ∧
      c.cells = .ok (front ++ between) ∧
      encode.Yields c (Marshal.bytesOf (front ++ between)) c ∧
      ((∀ d ∈ front ++ between, d.value.Encodable) → ∃ x y,
        Marshal.Puts (each Marshal.encodeEntry front) x ∧
        Marshal.Puts (each Marshal.encodeEntry between) y ∧
        Marshal.bytesOf (front ++ between) =
          .ok (Bytes.ofNat 4 (front.length + between.length) ++ (x ++ y))) ∧
      (b.size = 0 → before = [] → behind = [] → (encode c).result = (encode source).result) := by
  have hb := h.sound
  obtain ⟨c, hy, hcells⟩ := hb.append_cells h'.sound he hc hc' hfit
  have hencode := encode_outcome hcells
  refine ⟨c, hy, hcells, hencode, fun hv => ?_, fun h0 hbefore hbehind => ?_⟩
  · obtain ⟨hv, hv'⟩ := List.forall_mem_append.mp hv
    obtain ⟨y, hputs⟩ := Marshal.puts_cells hv'
    obtain ⟨x, hx, hboth⟩ := Marshal.Puts.after hv hputs
    have hsound := append_sound hb h'.sound (Cell.extent before) (Cell.extent between)
    rw [hy.state] at hsound
    have hspells := hsound.spelled hcells hboth
    rw [List.length_append] at hspells
    exact ⟨x, y, hx, hputs, hspells.bytesOf⟩
  · have hfront : b.cells = .ok [] := cellsFrom_end (Nat.le_of_eq h0)
    obtain rfl : front = [] := Except.ok.inj (hc.symm.trans hfront)
    subst hbefore hbehind
    rw [hencode.result, (encode_outcome hc').result, List.append_nil]

/-- The second of two equal ints, added to the buffer that they come from, is a third. -/
theorem append_joins_itself :
    let b := (Call.run (.edit (.write 4 (.int 5)))
      (Call.run (.edit (.write 4 (.int 5))) (empty { maxCapacity := 64 })).state).state
    ∃ c, (append b 4 4).Yields b (.ok ()) c ∧
      c.cells = .ok [⟨4, .int 5⟩, ⟨4, .int 5⟩, ⟨4, .int 5⟩] ∧
      (encode c).result = .ok [3, 0, 0, 0, 4, 0, 0, 0, 1, 5, 0, 0, 0, 4, 0, 0, 0, 1, 5, 0, 0, 0,
        4, 0, 0, 0, 1, 5, 0, 0, 0] := by
  intro b
  have h : Reachable b :=
    ((Reachable.empty { maxCapacity := 64 }).call _ (by simp)).call _ (by simp)
  have hm : b.rules.maxCapacity.toNat < Size.largest := by decide
  have hfirst : b.wholeCell none 0 = .ok ⟨4, .int 5⟩ := rfl
  have hsecond : b.wholeCell none 4 = .ok ⟨4, .int 5⟩ := rfl
  have hend : b.cellsFrom 8 = .ok [] := cellsFrom_end (by decide)
  have hrest : b.cellsFrom 4 = .ok [⟨4, .int 5⟩] :=
    (h.sound.cellsFrom_found hm (by decide) hsecond).trans (congrArg (Except.map _) hend)
  have hc : b.cells = .ok [⟨4, .int 5⟩, ⟨4, .int 5⟩] :=
    (h.sound.cellsFrom_found hm (by decide) hfirst).trans (congrArg (Except.map _) hrest)
  have hc' : b.cells = .ok ([⟨4, .int 5⟩] ++ [⟨4, .int 5⟩] ++ []) := hc
  obtain ⟨c, hy, hcells, hencode, -⟩ := append_joins h h (by decide) hc hc' (by decide)
  exact ⟨c, hy, hcells, hencode.result⟩

end Buffer

end Parcel
