import Parcel.Proofs.Codec
import Parcel.Proofs.Reachable
import Parcel.Proofs.Writes

/-!
Snapshots of whole buffers. A buffer whose data are whole cells is alike to the buffer that is made out
of these cells, so nothing that can be asked of a buffer is lost on the way through bytes.
-/
namespace Parcel.Buffer
open Parcel.Action Owners

variable {b s : Buffer} {cell : Cell} {entries done : List Cell} {bytes : List UInt8}

/-- What is listed as the cells of the data is laid out in them. -/
theorem Sound.laid_of_cellsFrom (hb : b.Sound) (hs : start ≤ b.size)
    (h : b.cellsFrom start = .ok entries) :
    b.owner.Laid start entries b.size ∧ ∀ c ∈ entries, c.Padded := by
  induction entries generalizing start with
  | nil =>
    have hge : ¬ start < b.size := fun hlt => by
      obtain ⟨_, _, he, _⟩ := cellsFrom_ok hlt h
      cases he
    exact ⟨Nat.le_antisymm hs (Nat.le_of_not_lt hge), fun c hc => absurd hc List.not_mem_nil⟩
  | cons c entries ih =>
    have hlt : start < b.size := Classical.byContradiction fun hge => by
      rw [Buffer.cellsFrom, if_neg hge] at h
      cases h
    obtain ⟨_, _, he, hw, hl, hrest⟩ := cellsFrom_ok hlt h
    cases he
    obtain ⟨_, ho, _⟩ := hb.owner_of_wholeCell hw
    have hpad := hb.storage.padded_of_owner ho
    have hwhole := hb.whole_of_wholeCell hw hl
    obtain ⟨hlaid, hall⟩ := ih (Whole.end_le hb hwhole hpad) hrest
    refine ⟨⟨hpad.1, hwhole, hlaid⟩, fun d hd => ?_⟩
    rcases List.mem_cons.mp hd with rfl | hd
    · exact hpad
    · exact hall d hd

theorem Sound.extent_cells (hb : b.Sound) (hc : b.cells = .ok entries) :
    Cell.extent entries = b.size := by
  obtain ⟨hlaid, -⟩ := hb.laid_of_cellsFrom (Nat.zero_le _) hc
  exact (Nat.zero_add _).symm.trans hlaid.extent

/-- Cells that fit into a buffer make it up. -/
theorem ofCells_laid (rules : Rules) (hpad : ∀ c ∈ entries, c.Padded)
    (hfit : Cell.extent entries ≤ rules.maxCapacity.toNat) (t : σ) :
    ∃ r, (ofCells rules entries).Yields t (.ok r) t ∧ r.Sound ∧ r.rules = rules ∧
      r.position = 0 ∧ r.justExtended = false ∧ r.owner.Laid 0 entries r.size := by
  have hcells := cellsOf_id fun c hc => (hpad c hc).2
  have h0 : ∀ c ∈ entries, (id c).rounded.size ≠ 0 := fun c hc => by
    rw [id, Cell.rounded_of_aligned (hpad c hc).2]
    exact Size.toNat_ne_zero.mpr (hpad c hc).1
  obtain ⟨u, hu, htu, hzu⟩ := (trail_start (sound_empty rules)).writeAll h0 (by
    rw [hcells]
    exact Nat.le_trans (Nat.le_of_eq (Nat.zero_add _)) hfit)
  rw [hcells] at htu
  have hsize : u.size = u.position := hzu.trans (Nat.max_eq_right (Nat.zero_le _))
  refine ⟨{ u with position := 0, justExtended := false }, ?_, htu.sound.seek (Nat.zero_le _), htu.rules,
    rfl, rfl, hsize ▸ htu.laid⟩
  exact ((hu.bind (seek_yields (Nat.zero_le _))).apart t).bind (yields_pure _ t)

/-- The cells of a buffer make up a buffer that is alike to it with the cursor at the start. -/
theorem ofCells_alike (hb : b.Sound) (h : b.cells = .ok entries) (t : σ) :
    ∃ r, (ofCells b.rules entries).Yields t (.ok r) t ∧
      Alike { b with position := 0, justExtended := false } r := by
  obtain ⟨hl, hpad⟩ := hb.laid_of_cellsFrom (Nat.zero_le _) h
  obtain ⟨r, hr, hsr, hrr, hpr, hjr, hlr⟩ := ofCells_laid b.rules hpad
    (hb.extent_cells h ▸ Nat.le_trans hb.stored hb.limited) t
  have hzr : b.size = r.size := by rw [← hl.extent, ← hlr.extent]
  refine ⟨r, hr, hb.seek (Nat.zero_le _), hsr, hrr.symm, hpr.symm, hzr, hjr.symm, ?_⟩
  exact hl.matches (hzr ▸ hlr) hb.storage.narrow hsr.storage.narrow (fun i hi => hb.owner_bare hi)
    fun i hi => hsr.owner_bare (hzr ▸ hi)

/-- The bytes of a buffer are those of its cells. -/
theorem encode_ok (h : (encode b).result = .ok bytes) :
    ∃ entries, b.cells = .ok entries ∧
      (Marshal.encodeEntries entries (.bounded none)).result = .ok () ∧
      (Marshal.encodeEntries entries (.bounded none)).state.written.toList = bytes := by
  obtain ⟨entries, hc, h⟩ := ok_of_bind h
  obtain ⟨⟨⟨⟩, sink⟩, ha, h⟩ := ok_of_bind h
  obtain ⟨⟨⟩, -, h⟩ := ok_of_bind h
  obtain ⟨hr, hs⟩ := ok_of_apart ha
  refine ⟨entries, ok_of_mapError hc, hr, ?_⟩
  rw [hs]
  exact Except.ok.inj h

theorem decodeCells_yields (hpad : ∀ c ∈ entries, c.Padded)
    (h : (Marshal.encodeEntries entries (.bounded none)).result = .ok ()) (t : σ) :
    (decodeCells (Marshal.encodeEntries entries (.bounded none)).state.written.toList).Yields t
      (.ok entries) t := by
  obtain ⟨written, hs, htake⟩ := Marshal.codes_entries entries hpad (.bounded none) rfl h
  have hb : (Marshal.encodeEntries entries (.bounded none)).state.written.toList = written ++ [] := by
    rw [hs]
    simp [Marshal.Sink.bounded]
  rw [hb]
  exact ((htake []).apart t).bind (yields_pure entries t)

theorem decode_yields (hb : b.Sound) (h : (encode b).result = .ok bytes) (t : σ) :
    ∃ r, (decode b.rules bytes).Yields t (.ok r) t ∧
      Alike { b with position := 0, justExtended := false } r := by
  obtain ⟨entries, hc, he, rfl⟩ := encode_ok h
  obtain ⟨r, hr, hal⟩ := ofCells_alike hb hc t
  refine ⟨r, ?_, hal⟩
  refine (decodeCells_yields (hb.laid_of_cellsFrom (Nat.zero_le _) hc).2 he t).bind ?_
  exact (hr.mapError Marshal.Error.buffer).bind ((yields_emit _ t).bind (yields_pure r t))

/-- A segment that was taken out of some buffer. -/
def Exported (s : Segment) : Prop :=
  ∃ source offset length, Reachable source ∧ source.copy offset length = .ok s

theorem Exported.sound {s : Segment} (h : Exported s) : s.Sound := by
  obtain ⟨source, offset, length, hs, hc⟩ := h
  exact copy_sound hs.sound hc

/-- A buffer that can be written to bytes can be read back from them, and what is read back cannot be
told apart from it with its cursor at the start, by any calls whatsoever. -/
theorem decode_encode (h : Reachable b) (he : (encode b).result = .ok bytes) :
    (seek 0 b).result = .ok () ∧
    ∃ r, (decode (σ := Unit) b.rules bytes ()).result = .ok r ∧
      r.size = b.size ∧ r.position = 0 ∧ r.justExtended = false ∧
      ∀ calls : List Call, (∀ s, .paste s ∈ calls → Exported s) →
        let (expected, b') := answers (seek 0 b).state calls
        let (found, r') := answers r calls
        found = expected ∧ r'.size = b'.size ∧ r'.position = b'.position ∧
          r'.justExtended = b'.justExtended := by
  have hs := seek_yields (b := b) (Nat.zero_le _)
  obtain ⟨r, hr, hal⟩ := decode_yields h.sound he ()
  refine ⟨hs.result, r, hr.result, hal.size.symm, hal.position.symm, hal.justExtended.symm,
    fun calls hx => ?_⟩
  have hsound : ∀ s, .paste s ∈ calls → s.Sound := fun s hc => (hx s hc).sound
  obtain ⟨ha, hlast⟩ := answers_agree hal calls hsound
  rw [hs.state]
  exact ⟨ha.symm, hlast.size.symm, hlast.position.symm, hlast.justExtended.symm⟩

/-- An int that is read back before more is written. -/
theorem decode_encode_int :
    let b := ((Call.edit (.write 4 (.int 7))).run (empty { maxCapacity := 64 })).state
    let bytes : List UInt8 := [1, 0, 0, 0, 4, 0, 0, 0, 1, 7, 0, 0, 0]
    let calls : List Call := [.edit (.read (.ofKind .int)), .put (.byte 1), .encode]
    ∃ r, (decode (σ := Unit) b.rules bytes ()).result = .ok r ∧ r.size = 4 ∧
      (answers r calls).1 = (answers (seek 0 b).state calls).1 := by
  intro b bytes calls
  have h : Reachable b := (Reachable.empty { maxCapacity := 64 }).call _ (by simp)
  have hc : b.cells = .ok [⟨4, .int 7⟩] := by
    have hw : b.wholeCell none 0 = .ok ⟨4, .int 7⟩ := rfl
    have hn : b.cellsFrom 4 = .ok [] := by rw [Buffer.cellsFrom, if_neg (by decide)]
    rw [cells, Buffer.cellsFrom, if_pos (by decide), hw]
    change (do let cells ← b.cellsFrom 4; pure (_ :: cells)) = _
    rw [hn]
    rfl
  have he : (encode b).result = .ok bytes := by
    simp only [encode, bind_run, Action.mapError, inspect, hc]
    rfl
  obtain ⟨-, r, hr, hs, -, -, hcalls⟩ := decode_encode h he
  exact ⟨r, hr, hs, (hcalls calls (by simp [calls])).1⟩

end Parcel.Buffer
