import Parcel.Proofs.Calls

/-!
The buffers that calls lead to, and what holds of all of them.
-/
namespace Parcel.Buffer
open Parcel.Action

/-- Every buffer that calls lead to, whether they succeed or fail. Segments and appended data come from
buffers of the same kind, the buffer itself among them. -/
inductive Reachable : Buffer → Prop
  | empty (rules : Rules) : Reachable (Buffer.empty rules)
  | call (h : Reachable b) (c : Call) (hc : ∀ s, c ≠ .paste s) : Reachable (c.run b).state
  | paste (h : Reachable b) (h' : Reachable source) (hs : source.copy offset length = .ok s) :
    Reachable (Buffer.paste s b).state
  | append (h : Reachable b) (h' : Reachable source) (offset length : Nat) :
    Reachable (Buffer.append source offset length b).state
  | ofCells {rules : Rules} {entries : List Cell}
    (h : (Buffer.ofCells (σ := Unit) rules entries ()).result = .ok b) : Reachable b
  | decode {rules : Rules} {bytes : List UInt8}
    (h : (Buffer.decode (σ := Unit) rules bytes ()).result = .ok b) : Reachable b

variable {b source : Buffer} {s : Segment} {rules : Rules} {entries : List Cell} {bytes : List UInt8}

/-- The writes by which a buffer is made out of cells, with some upkeep behind each. -/
def replay (upkeep : Action Buffer Error Unit) (entries : List Cell) : Action Buffer Error Unit := do
  each (fun cell => writeThen upkeep cell.size cell.value) entries
  seek 0

theorem Steady.replay_agree {R : Buffer → Buffer → Prop} {upkeep upkeep' : Action Buffer Error Unit}
    (hR : Steady R) (hu : Hidden upkeep) (hu' : Hidden upkeep') (entries : List Cell) :
    Agree R (replay upkeep entries) (replay upkeep' entries) := by
  have hw (cell : Cell) := hR.write_agree hu hu' cell.size cell.value
  exact (Agree.each hw entries).bind fun _ => hR.seek_agree 0

theorem ofCells_replay {t : σ} (h : (ofCells rules entries t).result = .ok b) :
    (replay tidy entries (empty rules)).result = .ok () ∧
      (replay tidy entries (empty rules)).state = b := by
  obtain ⟨⟨u, c⟩, ha, hp⟩ := ok_of_bind h
  obtain ⟨hr, hs⟩ := ok_of_apart ha
  obtain rfl : c = b := Except.ok.inj hp
  exact ⟨hr, hs⟩

/-- A buffer made of cells is what writing them leaves, with the cursor put back to the beginning. -/
theorem ofCells_rewound {t : σ} (h : (ofCells rules entries t).result = .ok b) :
    ∃ c, (each (fun cell => writeThen tidy cell.size cell.value) entries).Yields (empty rules) (.ok ()) c ∧
      b = { c with position := 0, justExtended := false } := by
  obtain ⟨hr, rfl⟩ := ofCells_replay h
  obtain ⟨_, hw, -⟩ := ok_of_bind hr
  have hy : (replay tidy entries).Yields (empty rules) (.ok ()) _ :=
    Yields.bind ⟨hw, rfl⟩ (seek_yields (Nat.zero_le _))
  exact ⟨_, ⟨hw, rfl⟩, hy.state⟩

theorem ofCells_sound {t : σ} (h : (ofCells rules entries t).result = .ok b) : b.Sound := by
  obtain ⟨-, rfl⟩ := ofCells_replay h
  have hreplay := steady_alike.replay_agree hidden_tidy hidden_tidy entries
  exact (hreplay _ _ (alike_empty rules)).2.left

theorem ofCells_of_decode {t : σ} (h : (decode rules bytes t).result = .ok b) :
    ∃ entries u, (ofCells (σ := σ) rules entries u).result = .ok b := by
  obtain ⟨entries, hc, h⟩ := ok_of_bind h
  obtain ⟨c, hm, h⟩ := ok_of_bind h
  obtain ⟨-, -, h⟩ := ok_of_bind h
  obtain rfl : c = b := Except.ok.inj h
  exact ⟨entries, _, ok_of_mapError hm⟩

theorem append_sound (hb : b.Sound) (hs : source.Sound) (offset length : Nat) :
    (append source offset length b).state.Sound := by
  by_cases he : b.position = b.size
  · cases hc : source.copy offset length with
    | error e =>
      rw [(append_unreadable he hc).state]
      exact hb
    | ok s =>
      rw [(append_yields he hc (yields_run _ b)).state]
      exact (steady_alike.paste_agree (copy_sound hs hc) _ _ hb.alike).2.left
  · rw [(append_misplaced source he).state]
    exact hb

theorem Reachable.sound (h : Reachable b) : b.Sound := by
  induction h with
  | empty rules => exact sound_empty rules
  | call _ c hc ih =>
    have ha := c.run_agree fun s hs => absurd hs (hc s)
    exact (ha _ _ ih.alike).2.left
  | paste _ _ hs ih ih' => exact (steady_alike.paste_agree (copy_sound ih' hs) _ _ ih.alike).2.left
  | append _ _ offset length ih ih' => exact append_sound ih ih' offset length
  | ofCells h => exact ofCells_sound h
  | decode h =>
    obtain ⟨_, _, hc⟩ := ofCells_of_decode h
    exact ofCells_sound hc

theorem Reachable.resized (h : Reachable b) (hn : n ≤ b.rules.maxCapacity.toNat) :
    Reachable (b.resized n) := by
  have hcall := h.call (.edit (.resize n)) (by simp)
  have hstate : ((Edit.resize n).run b).state = b.resized n :=
    ((resize_yields h.sound hn).map _).state
  rwa [Call.run, state_refusing, hstate] at hcall

theorem Reachable.seek (h : Reachable b) (hp : p ≤ b.size) :
    Reachable { b with position := p, justExtended := false } := by
  have hcall := h.call (.edit (.seek p)) (by simp)
  have hstate : ((Edit.seek p).run b).state = { b with position := p, justExtended := false } :=
    ((seek_yields hp).map _).state
  rwa [Call.run, state_refusing, hstate] at hcall

theorem Reachable.pasted (h : Reachable b) (h' : Reachable source) (he : b.position = b.size)
    (hc : source.copy offset length = .ok s) (hn : b.size + s.length ≤ b.rules.maxCapacity.toNat) :
    Reachable (b.pasted s) := by
  have hpaste := h.paste h' hc
  rwa [(paste_yields h.sound he hn).state] at hpaste

/-- In every buffer that calls lead to, the cursor lies within the data, the data within the storage and
the storage within the limit; slots name cells that are there, cells cover whole words, and slots behind
the data are empty. -/
theorem Reachable.storage_invariant (h : Reachable b) :
    (b.position ≤ b.size ∧ b.size ≤ b.slots.size ∧ b.slots.size ≤ b.rules.maxCapacity.toNat) ∧
    (∀ i id : Nat, b.slots[i]? = some (some id) → id < b.arena.size) ∧
    (∀ cell ∈ b.arena, 0 < cell.size.toNat ∧ cell.size.toNat % 4 = 0) ∧
    (∀ i, b.size ≤ i → ∀ hi : i < b.slots.size, b.slots[i] = none) ∧
    (b.justExtended = true → b.position = b.size ∧ 0 < b.size) := by
  have hs := h.sound
  refine ⟨⟨hs.cursor, hs.stored, hs.limited⟩, ?_, hs.storage.padded, ?_, hs.extended⟩
  · intro i id hi
    exact hs.storage.closed i id (Slots.name_eq_some.mpr hi)
  · intro i hi hlt
    have hn := hs.bare i hi
    rwa [Slots.name, Array.getElem?_eq_getElem hlt, Option.join_some] at hn

/-- A long whose first half was overwritten by an int. -/
theorem storage_invariant_overwritten : ∃ b : Buffer,
    b.slots.toList = [some 1, some 1, some 1, some 1, some 0, some 0, some 0, some 0] ∧
    1 < b.arena.size ∧ b.position ≤ b.size ∧ b.size ≤ b.slots.size := by
  have h0 := Reachable.empty { maxCapacity := 8 }
  have h1 := h0.call (.edit (.write 8 (.long 7))) (by simp)
  have h2 := h1.call (.edit (.seek 0)) (by simp)
  have h3 := h2.call (.edit (.write 4 (.int 5))) (by simp)
  obtain ⟨⟨hp, hs, -⟩, hi, -⟩ := Reachable.storage_invariant h3
  exact ⟨_, by decide, hi 0 1 (by decide), hp, hs⟩

end Parcel.Buffer
