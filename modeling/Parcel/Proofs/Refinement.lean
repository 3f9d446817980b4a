import Parcel.Proofs.Tape

/-!
Buffers refine tapes. A buffer only knows which offsets belong to one cell, not which byte of the cell
each of them is. That this is enough rests on `Tape.Regular`: the bytes of one write stand at fixed
distances, so as many offsets of one cell in a row as it has bytes are all its bytes in their order.
-/
namespace Parcel

namespace Tape

variable {t source : Tape} {cell : Cell}

/-- Bytes of one write stand at fixed distances from each other. -/
structure Regular (t : Tape) : Prop where
  known : ∀ i m, t.marks i = some m → m.write < t.writes
  within : ∀ i m, t.marks i = some m → m.index < m.cell.size.toNat
  steady : ∀ i j m n, t.marks i = some m → t.marks j = some n → m.write = n.write →
    i + n.index = j + m.index

def owner (t : Tape) : Owners Nat := fun i => (t.marks i).map fun m => (m.write, m.cell)

theorem name_owner (t : Tape) (i : Nat) : t.owner.name i = (t.marks i).map Mark.write := by
  simp only [Owners.name, owner, Option.map_map]
  rfl

theorem cell_owner (t : Tape) (i : Nat) : t.owner.cell i = t.cellAt i := by
  simp only [Owners.cell, owner, cellAt, Option.map_map]
  rfl

theorem owner_eq_some {w : Nat} :
    t.owner i = some (w, cell) ↔ ∃ k, t.marks i = some ⟨w, k, cell⟩ := by
  unfold owner
  constructor
  · intro h
    obtain ⟨m, hm, he⟩ := Option.map_eq_some_iff.mp h
    cases he
    exact ⟨m.index, hm⟩
  · intro hx
    obtain ⟨k, hk⟩ := hx
    rw [hk, Option.map_some]

theorem Regular.fresh (h : t.Regular) (i : Nat) : t.owner.name i ≠ some t.writes := by
  intro hi
  rw [name_owner] at hi
  obtain ⟨m, hm, he⟩ := Option.map_eq_some_iff.mp hi
  exact Nat.lt_irrefl _ (he ▸ h.known i m hm)

theorem regular_blank (rules : Buffer.Rules) : (blank rules).Regular where
  known i m h := by cases h
  within i m h := by cases h
  steady i j m n h := by cases h

theorem owner_blank (rules : Buffer.Rules) : (blank rules).owner = Owners.nobody := rfl

theorem Regular.of_marks (h : t.Regular) {u : Tape} (hm : u.marks = t.marks)
    (hw : u.writes = t.writes) : u.Regular := by
  constructor
  · rw [hm, hw]
    exact h.known
  · rw [hm]
    exact h.within
  · rw [hm]
    exact h.steady

theorem owner_resized (t : Tape) (n : Nat) :
    (t.resized n).owner = t.owner.patched (n ≤ ·) Owners.nobody := by
  funext i
  unfold owner resized Owners.patched
  by_cases hi : n ≤ i
  · simp only [hi, Nat.not_lt.mpr hi, ↓reduceIte, Option.map_none, Owners.nobody]
  · simp only [hi, Nat.lt_of_not_le hi, ↓reduceIte]

theorem marks_resized (h : (t.resized n).marks i = some m) : t.marks i = some m := by
  change (if i < n then t.marks i else none) = some m at h
  split at h
  · exact h
  · cases h

theorem Regular.resized (h : t.Regular) (n : Nat) : (t.resized n).Regular where
  known i m hi := h.known i m (marks_resized hi)
  within i m hi := h.within i m (marks_resized hi)
  steady i j m m' hi hj := h.steady i j m m' (marks_resized hi) (marks_resized hj)

theorem owner_written (t : Tape) (cell : Cell) :
    (t.written cell).owner =
      t.owner.patched (Span t.position cell.size.toNat) (Owners.everywhere t.writes cell) := by
  funext i
  unfold owner written Owners.patched
  change Option.map _ (if Span t.position cell.size.toNat i then _ else _) = _
  split <;> rfl

/-- A byte after a write is one of it or was there before. -/
theorem marks_written (h : (t.written cell).marks i = some m) :
    (Span t.position cell.size.toNat i ∧ m = ⟨t.writes, i - t.position, cell⟩) ∨ t.marks i = some m := by
  change (if Span t.position cell.size.toNat i then _ else _) = _ at h
  split at h
  · rename_i hs
    exact .inl ⟨hs, (Option.some.inj h).symm⟩
  · exact .inr h

theorem Regular.written (h : t.Regular) (cell : Cell) : (t.written cell).Regular := by
  constructor
  case known =>
    intro i m hi
    change m.write < t.writes + 1
    rcases marks_written hi with ⟨_, rfl⟩ | hm
    · exact Nat.lt_succ_self _
    · exact Nat.lt_succ_of_lt (h.known i m hm)
  case within =>
    intro i m hi
    rcases marks_written hi with ⟨hs, rfl⟩ | hm
    · have := hs.1
      have := hs.2
      change i - t.position < cell.size.toNat
      omega
    · exact h.within i m hm
  case steady =>
    intro i j m n hi hj he
    rcases marks_written hi with ⟨hs, rfl⟩ | hm <;> rcases marks_written hj with ⟨hs', rfl⟩ | hn
    · have := hs.1
      have := hs'.1
      change i + (j - t.position) = j + (i - t.position)
      omega
    · have := h.known j n hn
      change t.writes = n.write at he
      omega
    · have := h.known i m hm
      change m.write = t.writes at he
      omega
    · exact h.steady i j m n hm hn he

theorem owner_appended (t source : Tape) (offset length : Nat) :
    (t.appended source offset length).owner =
      t.owner.patched (Span t.size length)
        (fun i => (source.owner.window offset length).renamed (t.writes + ·) (i - t.size)) := by
  funext i
  unfold owner appended Owners.patched Owners.renamed Owners.window
  change Option.map _ (if Span t.size length i then _ else _) = _
  by_cases hs : Span t.size length i
  · have := hs.1
    have := hs.2
    rw [if_pos hs, if_pos hs, Option.map_map]
    dsimp only
    rw [if_pos (by omega), Option.map_map]
    rfl
  · rw [if_neg hs, if_neg hs]

/-- A byte after an append was there before or comes from the source, and then its write is renamed. -/
theorem marks_appended (h : (t.appended source offset length).marks i = some m) :
    (t.size ≤ i ∧ ∃ n, source.marks (offset + (i - t.size)) = some n ∧
      m = { n with write := t.writes + n.write }) ∨ t.marks i = some m := by
  change (if t.size ≤ i ∧ i < t.size + length then _ else _) = _ at h
  split at h
  · rename_i hs
    obtain ⟨n, hn, he⟩ := Option.map_eq_some_iff.mp h
    exact .inl ⟨hs.1, n, hn, he.symm⟩
  · exact .inr h

theorem Regular.appended (h : t.Regular) (hs : source.Regular) (offset length : Nat) :
    (t.appended source offset length).Regular := by
  constructor
  case known =>
    intro i m hi
    change m.write < t.writes + source.writes
    rcases marks_appended hi with ⟨_, n, hn, rfl⟩ | hm
    · exact Nat.add_lt_add_left (hs.known _ n hn) _
    · exact Nat.lt_add_right _ (h.known i m hm)
  case within =>
    intro i m hi
    rcases marks_appended hi with ⟨_, n, hn, rfl⟩ | hm
    · exact hs.within _ n hn
    · exact h.within i m hm
  case steady =>
    intro i j m n hi hj he
    rcases marks_appended hi with ⟨hl, m, hm, rfl⟩ | hm <;>
      rcases marks_appended hj with ⟨hl', n, hn, rfl⟩ | hn
    · have := hs.steady _ _ m n hm hn (Nat.add_left_cancel he)
      change i + n.index = j + m.index
      omega
    · have := h.known j n hn
      change t.writes + m.write = n.write at he
      omega
    · have := h.known i m hm
      change m.write = t.writes + n.write at he
      omega
    · exact h.steady i j m n hm hn he

theorem Regular.apart_renamed (h : t.Regular) (f : Owners Nat) :
    t.owner.Apart (fun i => f.renamed (t.writes + ·) (i - t.size)) := by
  intro i j a hi hj
  rw [name_owner] at hi
  obtain ⟨m, hm, rfl⟩ := Option.map_eq_some_iff.mp hi
  have := h.known i m hm
  change (f.renamed (t.writes + ·)).name (j - t.size) = _ at hj
  rw [Owners.name_renamed] at hj
  obtain ⟨x, _, he⟩ := Option.map_eq_some_iff.mp hj
  change t.writes + x = m.write at he
  omega

/-- As many offsets of one write in a row as it has bytes are its bytes in their order. -/
theorem Regular.covers_of_whole (h : t.Regular) (hw : t.owner.Whole start cell)
    (hm : t.marks start = some ⟨w, k, cell⟩) (hin : ∀ i, t.size ≤ i → t.marks i = none) :
    t.Covers start w cell := by
  have hk := h.within start _ hm
  obtain ⟨a, ha⟩ := hw
  change k < cell.size.toNat at hk
  obtain ⟨k', h0⟩ := owner_eq_some.mp (ha 0 (by omega))
  rw [Nat.add_zero, hm] at h0
  cases h0
  -- the last byte shows that the first is at the start
  obtain ⟨l, hl⟩ := owner_eq_some.mp (ha (cell.size.toNat - 1) (by omega))
  have hlast := h.within _ _ hl
  have hfirst := h.steady _ _ _ _ hm hl rfl
  change l < cell.size.toNat at hlast
  change start + l = start + (cell.size.toNat - 1) + k at hfirst
  intro j hj
  obtain ⟨x, hx⟩ := owner_eq_some.mp (ha j hj)
  have hs := h.steady _ _ _ _ hm hx rfl
  change start + x = start + j + k at hs
  obtain rfl : x = j := by omega
  refine ⟨?_, hx⟩
  by_cases hlt : start + x < t.size
  · exact hlt
  · rw [hin _ (by omega)] at hx
    cases hx

theorem Covers.whole (h : t.Covers start w cell) : t.owner.Whole start cell :=
  ⟨w, fun k hk => owner_eq_some.mpr ⟨k, (h k hk).2⟩⟩

/-- The first offset that is not of a write is found if there is one. -/
theorem stray_eq (hl : offset ≤ i) (hu : i < offset + count)
    (hi : t.owner.name i ≠ some w) (hb : ∀ j, offset ≤ j → j < i → t.owner.name j = some w) :
    t.stray w offset count = i := by
  induction count generalizing offset with
  | zero => omega
  | succ count ih =>
    rw [stray, ← name_owner]
    by_cases he : offset = i
    · subst he
      rw [if_neg hi]
    · rw [if_pos (hb offset (by omega) (by omega))]
      exact ih (by omega) (by omega) fun j hj => hb j (by omega)

end Tape

namespace Buffer
open Parcel.Action

variable {b c : Buffer} {t u : Tape} {cell : Cell}

/-- The tape tells byte by byte what the buffer stores. -/
structure Shows (b : Buffer) (t : Tape) : Prop where
  sound : b.Sound
  regular : t.Regular
  rules : b.rules = t.rules
  small : t.limit ≤ 2147483648
  capacity : b.capacity = t.capacity
  position : b.position = t.position
  size : b.size = t.size
  justExtended : b.justExtended = t.justExtended
  owner : b.owner.Matches t.owner

theorem Shows.limit (h : b.Shows t) : b.rules.maxCapacity.toNat = t.limit :=
  congrArg (fun r : Rules => r.maxCapacity.toNat) h.rules

theorem Shows.below (h : b.Shows t) : b.rules.maxCapacity.toNat < Size.largest := by
  have := h.limit
  have := h.small
  unfold Size.largest
  omega

theorem shows_blank (rules : Rules) (h : rules.maxCapacity.toNat ≤ 2147483648) :
    (empty rules).Shows (.blank rules) := by
  refine ⟨sound_empty rules, Tape.regular_blank rules, rfl, h, rfl, rfl, rfl, rfl, ?_⟩
  rw [owner_empty, Tape.owner_blank]
  exact .refl _

theorem Shows.of_alike (h : b.Shows t) (ha : b.Alike c) (hc : b.capacity = c.capacity) : c.Shows t :=
  ⟨ha.right, h.regular, ha.rules.symm.trans h.rules, h.small, hc.symm.trans h.capacity,
    ha.position.symm.trans h.position, ha.size.symm.trans h.size,
    ha.justExtended.symm.trans h.justExtended, ha.owner.symm.trans h.owner⟩

theorem Shows.seek (h : b.Shows t) (hp : p ≤ t.size) :
    Shows { b with position := p, justExtended := false }
      { t with position := p, justExtended := false } :=
  ⟨h.sound.seek (h.size ▸ hp), h.regular.of_marks rfl rfl, h.rules, h.small, h.capacity, rfl, h.size,
    rfl, h.owner⟩

theorem Shows.read_to (h : b.Shows t) (hlt : t.position < t.size) (hp : p ≤ t.size) :
    Shows { b with position := p } { t with position := p } :=
  ⟨h.sound.read_to (h.position ▸ h.size ▸ hlt) (h.size ▸ hp), h.regular.of_marks rfl rfl, h.rules,
    h.small, h.capacity, rfl, h.size, h.justExtended, h.owner⟩

theorem Shows.extended (h : b.Shows t) (hn : n ≤ t.limit) :
    (b.extended n).Shows { t with capacity := max t.capacity n } := by
  refine ⟨h.sound.extended' (h.limit ▸ hn), h.regular.of_marks rfl rfl, h.rules, h.small, ?_,
    h.position, h.size, h.justExtended, ?_⟩
  · rw [capacity_extended, h.capacity]
  · rw [owner_extended]
    exact h.owner

theorem Shows.resized (h : b.Shows t) (hn : n ≤ t.limit) : (b.resized n).Shows (t.resized n) := by
  refine ⟨h.sound.resized (h.limit ▸ hn), h.regular.resized n, h.rules, h.small, ?_, ?_, rfl, rfl, ?_⟩
  · rw [capacity_resized, h.capacity]
    rfl
  · change min b.position n = min t.position n
    rw [h.position]
  · rw [h.sound.owner_resized, Tape.owner_resized]
    exact h.owner.patched _ Owners.matches_nobody (Owners.apart_nobody _) (Owners.apart_nobody _)

theorem Shows.written (h : b.Shows t) (hc : cell.Padded)
    (hn : t.position + cell.size.toNat ≤ t.limit) : (b.written cell).Shows (t.written cell) := by
  have hn' : b.position + cell.size.toNat ≤ b.rules.maxCapacity.toNat := h.position ▸ h.limit ▸ hn
  refine ⟨h.sound.written hc hn', h.regular.written cell, h.rules, h.small, ?_, ?_, ?_, ?_, ?_⟩
  · rw [capacity_written, room, h.capacity, h.position, h.limit]
    rfl
  · change b.position + _ = t.position + _
    rw [h.position]
  · change max b.size (b.position + _) = max t.size (t.position + _)
    rw [h.size, h.position]
  · change (b.justExtended || decide (b.size < b.position + _)) =
      (t.justExtended || decide (t.size < t.position + _))
    rw [h.justExtended, h.size, h.position]
  · rw [h.sound.owner_written hn', Tape.owner_written, h.position]
    exact h.owner.patched _ (Owners.matches_everywhere _ _ _)
      (Owners.apart_everywhere h.sound.fresh _) (Owners.apart_everywhere h.regular.fresh _)

theorem Shows.pasted (h : b.Shows t) (hs : c.Shows u) {s : Segment} (hsound : s.Sound)
    (hlen : s.length = length) (hcopy : (c.owner.window offset length).Matches s.owner)
    (hn : t.size + length ≤ t.limit) (he : t.position = t.size) :
    (b.pasted s).Shows (t.appended u offset length) := by
  subst hlen
  refine ⟨h.sound.pasted hsound (h.size ▸ h.limit ▸ hn), h.regular.appended hs.regular _ _, h.rules,
    h.small, ?_, ?_, ?_, rfl, ?_⟩
  · rw [capacity_pasted, h.capacity, h.size]
    rfl
  · change min b.position (b.size + s.length) + s.length = t.size + s.length
    rw [h.position, h.size, he]
    omega
  · change b.size + s.length = t.size + s.length
    rw [h.size]
  · have hm := hcopy.symm.trans (hs.owner.window offset s.length)
    have hr := (Owners.matches_renamed (r := (b.arena.size + ·)) (fun _ _ => Nat.add_left_cancel)
      s.owner).symm.trans (hm.trans (Owners.matches_renamed (r := (t.writes + ·))
        (fun _ _ => Nat.add_left_cancel) (u.owner.window offset s.length)))
    rw [h.sound.owner_pasted, Tape.owner_appended, h.size]
    exact h.owner.patched _ (hr.comp (· - t.size)) (h.size ▸ h.sound.apart_renamed s)
      (h.regular.apart_renamed _)

theorem seek_refines (p : Nat) : Agree Shows (seek p) (Tape.seek p) := by
  intro b t h
  by_cases hp : t.size < p
  · have hb := seek_refused (b := b) (h.size ▸ hp)
    rw [h.size] at hb
    refine hb.agree ((yields_get t).bind ?_) h
    rw [if_pos hp]
    exact yields_refuse _ t
  · refine (seek_yields (b := b) (by rw [h.size]; omega)).agree ((yields_get t).bind ?_)
      (h.seek (Nat.le_of_not_lt hp))
    rw [if_neg hp]
    exact yields_modify _ t

theorem reserve_refines (n : Nat) : Agree Shows (reserve n) (Tape.reserve n) := by
  intro b t h
  by_cases hn : t.limit < n
  · have hlt : t.capacity < n := by
      have := h.sound.limited
      rw [h.capacity, h.limit] at this
      omega
    have hb := reserve_refused h.sound (h.limit ▸ hn)
    rw [h.rules] at hb
    refine hb.agree ((yields_get t).bind ?_) h
    rw [if_pos hlt, if_pos hn]
    exact yields_refuse _ t
  · have hb := reserve_yields (n := n) h.sound.cursor h.sound.stored (by rw [h.limit]; omega)
    have hs := h.extended (Nat.le_of_not_lt hn)
    by_cases hc : t.capacity < n
    · rw [Nat.max_eq_right (Nat.le_of_lt hc)] at hs
      refine hb.agree ((yields_get t).bind ?_) hs
      rw [if_pos hc, if_neg hn]
      exact yields_modify _ t
    · rw [Nat.max_eq_left (Nat.le_of_not_lt hc)] at hs
      refine hb.agree ((yields_get t).bind ?_) hs
      rw [if_neg hc]
      exact yields_pure () t

theorem resize_refines (n : Nat) : Agree Shows (resize n) (Tape.resize n) := by
  intro b t h
  by_cases hn : t.limit < n
  · have hb := resize_refused (b := b) (h.limit ▸ hn)
    rw [h.rules] at hb
    refine hb.agree ((yields_get t).bind ?_) h
    rw [if_pos hn]
    exact yields_refuse _ t
  · refine (resize_yields (n := n) h.sound (by rw [h.limit]; omega)).agree ((yields_get t).bind ?_)
      (h.resized (Nat.le_of_not_lt hn))
    rw [if_neg hn]
    exact yields_modify _ t

theorem write_refines (size : UInt32) (value : Value) :
    Agree Shows (write size value) (Tape.write size value) := by
  intro b t h
  by_cases h0 : Size.padded size = 0
  · have ht : (Tape.write size value).Yields t (.ok ()) t := by
      unfold Tape.write
      rw [h0]
      exact yields_pure () t
    exact (write_nothing h0).agree ht h
  · unfold Tape.write
    dsimp only
    rw [if_pos h0]
    by_cases hn : t.limit < t.position + (Size.padded size).toNat
    · have hb := write_refused (b := b) value h0 (h.position ▸ h.limit ▸ hn)
      rw [h.position, h.rules] at hb
      refine hb.agree ((yields_get t).bind ?_) h
      rw [if_pos hn]
      exact yields_refuse _ t
    · obtain ⟨c, hc, hal, hcap⟩ := write_yields value h.sound h0
        (by rw [h.position, h.limit]; omega)
      have hs := (h.written (padded_cell h0 value) (Nat.le_of_not_lt hn)).of_alike hal hcap
      refine hc.agree ((yields_get t).bind ?_) hs
      rw [if_neg hn]
      exact yields_modify _ t

theorem clear_refines : Agree Shows clear Tape.clear := by
  intro b t h
  refine clear_yields.agree (yields_modify _ t) ?_
  rw [h.rules]
  exact shows_blank t.rules h.small

theorem append_refines (hc : c.Shows u) (offset length : Nat) :
    Agree Shows (append c offset length) (Tape.append u offset length) := by
  intro b t h
  by_cases he : t.position = t.size
  · have heb : b.position = b.size := by rw [h.position, h.size, he]
    by_cases hr : u.capacity < offset + length
    · have hb := append_unreadable heb (copy_refused (hc.capacity ▸ hr))
      rw [hc.capacity] at hb
      refine hb.agree ((yields_get t).bind ?_) h
      rw [if_neg (not_not_intro he), if_pos hr]
      exact yields_refuse _ t
    · have hle : offset + length ≤ c.capacity := hc.capacity ▸ Nat.le_of_not_lt hr
      obtain ⟨s, hs, hl, hsound, hm⟩ := copy_matches hc.sound hle
      by_cases hn : t.limit < t.size + length
      · have hb := append_yields heb hs (paste_refused heb (by rw [hl, h.size, h.limit]; exact hn))
        rw [hl, h.size, h.rules] at hb
        refine hb.agree ((yields_get t).bind ?_) h
        rw [if_neg (not_not_intro he), if_neg hr, if_pos hn]
        exact yields_refuse _ t
      · have hb := append_yields heb hs
          (paste_yields h.sound heb (by rw [hl, h.size, h.limit]; omega))
        refine hb.agree ((yields_get t).bind ?_)
          (h.pasted hc hsound hl hm (Nat.le_of_not_lt hn) he)
        rw [if_neg (not_not_intro he), if_neg hr, if_neg hn]
        exact yields_modify _ t
  · have hne : b.position ≠ b.size := by rwa [h.position, h.size]
    have hb : (append c offset length).Yields b _ b := append_misplaced c hne
    rw [h.position, h.size] at hb
    refine hb.agree ((yields_get t).bind ?_) h
    rw [if_pos he]
    exact yields_refuse _ t

theorem Shows.bare (h : b.Shows t) (hi : t.size ≤ i) : t.marks i = none := by
  have hn := (h.owner.none_iff i).mp (by rw [Owners.name, h.sound.owner_bare (h.size ▸ hi)]; rfl)
  rw [Tape.name_owner] at hn
  exact Option.map_eq_none_iff.mp hn

/-- What a buffer finds out from the names of its slots is what the bytes of the tape say. -/
theorem Shows.wholeCell (h : b.Shows t) (w : Option Tag) (start : Nat) :
    b.wholeCell w start = t.wholeCell w start := by
  unfold Tape.wholeCell
  cases hm : t.marks start with
  | none =>
    have hn := (h.owner.none_iff start).mpr (by rw [Tape.name_owner, hm, Option.map_none])
    exact h.sound.wholeCell_empty (Option.map_eq_none_iff.mp hn) w
  | some m =>
    obtain ⟨write, index, cell⟩ := m
    have ht : t.owner start = some (write, cell) := Tape.owner_eq_some.mpr ⟨index, hm⟩
    obtain ⟨id, hb, -⟩ := h.owner.transfer ht ht
    have hpad := h.sound.storage.padded_of_owner hb
    dsimp only
    by_cases hc : t.Covers start write cell
    · rw [if_pos hc]
      exact h.sound.wholeCell_of_whole ((Owners.whole_iff h.owner hpad.1).mpr hc.whole) hpad w
    · rw [if_neg hc, h.sound.wholeCell_eq hb]
      cases hf : b.firstBreak id start (reach start cell) with
      | none =>
        have hok : b.wholeCell w start = .ok cell := by rw [h.sound.wholeCell_eq hb, hf]
        have hw := ((h.sound.wholeCell_ok_iff h.below).mp hok).1
        have hw := (Owners.whole_iff h.owner hpad.1).mp hw
        exact absurd (h.regular.covers_of_whole hw hm fun i hi => h.bare hi) hc
      | some i =>
        obtain ⟨hl, hu, hne, hbefore⟩ := firstBreak_eq_some hf
        have hname : ∀ j, t.owner.name j = some write ↔ b.slot j = some id := by
          intro j
          rw [h.sound.slot_eq, ← Owners.name_of_eq ht, ← Owners.name_of_eq hb, h.owner.name]
        have hs : t.stray write start cell.size.toNat = i := by
          refine Tape.stray_eq hl ?_ (fun he => hne ((hname i).mp he))
            fun j hj hji => (hname j).mpr (hbefore j hj hji)
          unfold reach at hu
          omega
        rw [hs, ← Tape.cell_owner, ← h.owner.cell]
        rfl

theorem Shows.stop_le (h : b.Shows t) (hw : t.wholeCell w start = .ok cell) :
    0 < cell.size.toNat ∧ start + cell.size.toNat ≤ t.size := by
  rw [← h.wholeCell] at hw
  exact ⟨((h.sound.wholeCell_ok_iff h.below).mp hw).2.1, h.size ▸ h.sound.stop_le h.below hw⟩

theorem read_refines (fallback : Value) (wanted : Tag) :
    Agree Shows (readOr fallback wanted) (Tape.read fallback wanted) := by
  intro b t h
  by_cases hp : t.position < t.size
  · have hpb : b.position < b.size := by rwa [h.position, h.size]
    cases hw : t.wholeCell (some wanted) t.position with
    | error e =>
      have hwb : b.wholeCell (some wanted) b.position = .error e := by
        rw [h.position, h.wholeCell, hw]
      have hpe := peek_error hpb hwb
      refine (next_error hpe).stop.agree ((yields_get t).bind ?_) h
      rw [if_pos hp]
      exact (yields_lift hw t).stop
    | ok cell =>
      have hwb : b.wholeCell (some wanted) b.position = .ok cell := by
        rw [h.position, h.wholeCell, hw]
      have hb := next_some (h.sound.peek_ok h.below hpb hwb)
      rw [h.position] at hb
      have hs := h.read_to hp (h.stop_le hw).2
      by_cases htag : cell.value.tag = wanted
      · rw [if_pos htag] at hb
        refine (readOr_yields hb fallback).agree ((yields_get t).bind ?_) hs
        rw [if_pos hp]
        refine (yields_lift hw t).bind ((yields_modify _ t).bind ?_)
        rw [if_pos htag]
        exact yields_pure _ _
      · rw [if_neg htag] at hb
        refine hb.stop.agree ((yields_get t).bind ?_) hs
        rw [if_pos hp]
        refine (yields_lift hw t).bind ((yields_modify _ t).bind ?_)
        rw [if_neg htag]
        exact yields_refuse _ _
  · have hpeek : b.peek wanted =
        if t.justExtended && t.rules.detectsMissingReposition then
          .error (.refused (.missingReposition t.position))
        else .ok none := by
      unfold peek
      rw [h.size, h.position, h.justExtended, h.rules, if_pos (Nat.le_of_not_lt hp)]
    by_cases hj : (t.justExtended && t.rules.detectsMissingReposition) = true
    · rw [if_pos hj] at hpeek
      refine (next_error hpeek).stop.agree ((yields_get t).bind ?_) h
      rw [if_neg hp, if_pos hj]
      exact yields_refuse _ t
    · rw [if_neg hj] at hpeek
      refine (readOr_yields (next_end hpeek) fallback).agree ((yields_get t).bind ?_) h
      rw [if_neg hp, if_neg hj]
      exact yields_pure _ t

theorem Shows.cellsFrom (h : b.Shows t) (start : Nat) : b.cellsFrom start = t.cellsFrom start := by
  fun_induction t.cellsFrom start with
  | case1 start hlt ih =>
    rw [Buffer.cellsFrom, if_pos (h.size ▸ hlt), h.wholeCell]
    cases hw : t.wholeCell none start with
    | error e => rfl
    | ok cell =>
      have hpos := (h.stop_le hw).1
      have hmax : max 1 cell.size.toNat = cell.size.toNat := by omega
      have hend := h.sound.advanced_ok h.below ((h.wholeCell _ _).trans hw)
      simp only [bind, Except.bind, hend, trust_ok, hmax]
      rw [if_neg (by omega), ← hmax, ih]
  | case2 start hge => rw [Buffer.cellsFrom, if_neg (h.size ▸ hge)]

theorem cells_refines : Agree Shows (inspect Buffer.cells) (inspect (Tape.cellsFrom · 0)) :=
  agree_inspect fun _ _ h => h.cellsFrom 0

/-- Whatever a program does, its answers on buffers are those on tapes, and what it leaves are buffers
that show the tapes it leaves. -/
theorem run_refines {bs : Nat → Buffer} {ts : Nat → Tape} (h : ∀ n, (bs n).Shows (ts n))
    (steps : List Step) :
    (machine.run bs steps).1 = (Tape.machine.run ts steps).1 ∧
      ∀ n, ((machine.run bs steps).2 n).Shows ((Tape.machine.run ts steps).2 n) := by
  induction steps generalizing bs ts with
  | nil => exact ⟨rfl, h⟩
  | cons step steps ih =>
    have hstep : Agree Shows (machine.perform bs step) (Tape.machine.perform ts step) := by
      cases step with
      | write _ size value => exact (write_refines size value).map _
      | seek _ position => exact (seek_refines position).map _
      | resize _ size => exact (resize_refines size).map _
      | reserve _ capacity => exact (reserve_refines capacity).map _
      | clear => exact clear_refines.map _
      | append _ source offset length => exact (append_refines (h source) offset length).map _
      | clone _ source =>
        refine Agree.map (fun b t _ => ?_) _
        exact (yields_modify _ b).agree (yields_modify _ t) (h source)
      | read _ fallback wanted => exact (read_refines fallback wanted).map _
      | cells => exact cells_refines.map _
    obtain ⟨hr, hs⟩ := hstep _ _ (h step.target)
    have hnext (n : Nat) :
        (if n = step.target then (machine.perform bs step (bs step.target)).state else bs n).Shows
          (if n = step.target then (Tape.machine.perform ts step (ts step.target)).state else ts n) := by
      by_cases hn : n = step.target
      · rw [if_pos hn, if_pos hn]
        exact hs
      · rw [if_neg hn, if_neg hn]
        exact h n
    obtain ⟨hrest, hlast⟩ := ih hnext
    refine ⟨?_, hlast⟩
    change _ :: _ = _ :: _
    rw [hr, hrest]

/-- Every program on empty buffers of at most 2 ^ 31 bytes gets the answers that it gets on blank tapes,
refusals and their contents included, and leaves the same amounts and the same cell at every offset. -/
theorem run_empty_refines (rules : Nat → Rules) (small : ∀ n, (rules n).maxCapacity.toNat ≤ 2147483648)
    (steps : List Step) :
    let (answers, bs) := machine.run (fun n => empty (rules n)) steps
    let (expected, ts) := Tape.machine.run (fun n => .blank (rules n)) steps
    answers = expected ∧ ∀ n,
      (bs n).position = (ts n).position ∧ (bs n).size = (ts n).size ∧
      (bs n).capacity = (ts n).capacity ∧ (bs n).justExtended = (ts n).justExtended ∧
      ∀ i, (bs n).cellAt i = .ok ((ts n).cellAt i) := by
  obtain ⟨ha, hs⟩ := run_refines (fun n => shows_blank (rules n) (small n)) steps
  refine ⟨ha, fun n => ?_⟩
  have h := hs n
  refine ⟨h.position, h.size, h.capacity, h.justExtended, fun i => ?_⟩
  rw [h.sound.cellAt_eq, h.owner.cell, Tape.cell_owner]

/-- The second half of a long, copied to another buffer, still belongs to a cell of eight bytes. -/
theorem run_halved :
    let steps : List Step :=
      [.write 0 8 (.long 7), .append 1 0 4 4, .seek 1 0, .read 1 (.long 0) .long]
    let (answers, bs) := machine.run (fun _ => empty { maxCapacity := 64 }) steps
    answers = (Tape.machine.run (fun _ => .blank { maxCapacity := 64 }) steps).1 ∧
      (bs 1).position = 0 ∧ (bs 1).size = 4 ∧ (bs 1).cellAt 3 = .ok (some ⟨8, .long 7⟩) := by
  obtain ⟨ha, hs⟩ := run_empty_refines (fun _ => { maxCapacity := 64 }) (fun _ => by decide)
    [.write 0 8 (.long 7), .append 1 0 4 4, .seek 1 0, .read 1 (.long 0) .long]
  obtain ⟨hp, hz, -, -, hc⟩ := hs 1
  exact ⟨ha, hp, hz, hc 3⟩

end Buffer

end Parcel
