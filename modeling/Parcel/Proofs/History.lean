import Parcel.Proofs.Calls

/-!
Histories of one buffer. A write stands as long as no later edit disturbs the bytes that it covers, and
what a read finds is what stands.
-/
namespace Parcel.Buffer
open Parcel.Action

variable {b : Buffer} {size : UInt32} {value v : Value} {wanted : Tag} {cell : Cell}

/-- An edit with the buffer that it met. -/
structure Met where
  buffer : Buffer
  edit : Edit

namespace Met

def result (m : Met) : Except (Failure Error) Answer := (m.edit.run m.buffer).result

def left (m : Met) : Buffer := (m.edit.run m.buffer).state

/-- A successful write of at least one byte, at `start`, of what is `cell` then. -/
def Wrote (m : Met) (start : Nat) (cell : Cell) : Prop :=
  ∃ size, m.edit = .write size cell.value ∧ cell.size = Size.padded size ∧ cell.size ≠ 0 ∧
    m.buffer.position = start ∧ m.result = .ok .done

/-- A successful edit that takes bytes between `start` and `stop` away from what they belonged to: a
write over some of them, a size below `stop`, or a clear. -/
def Disturbs (m : Met) (start stop : Nat) : Prop :=
  (∃ place cell, m.Wrote place cell ∧ place < stop ∧ start < place + cell.size.toNat) ∨
  (∃ size, m.edit = .resize size ∧ m.result = .ok .done ∧ size < stop) ∨
  m.edit = .clear

theorem Wrote.pos {m : Met} (h : m.Wrote start cell) : 0 < cell.size.toNat := by
  obtain ⟨_, _, _, h0, _⟩ := h
  exact Size.toNat_ne_zero.mp h0

theorem Wrote.disturbs {m : Met} (h : m.Wrote start cell) :
    m.Disturbs start (start + cell.size.toNat) := by
  have := h.pos
  exact .inl ⟨start, cell, h, by omega, by omega⟩

end Met

/-- The edits of a run, each with the buffer that it met. -/
def trail (b : Buffer) : List Edit → List Met
  | [] => []
  | e :: edits => ⟨b, e⟩ :: trail (e.run b).state edits

/-- The buffer behind a run. -/
def after (b : Buffer) : List Edit → Buffer
  | [] => b
  | e :: edits => after (e.run b).state edits

/-- In the past stands a write of `cell` at `start` that nothing behind it disturbed. -/
def Stands (past : List Met) (start : Nat) (cell : Cell) : Prop :=
  ∃ before m later, past = before ++ m :: later ∧ m.Wrote start cell ∧
    ∀ n ∈ later, ¬ n.Disturbs start (start + cell.size.toNat)

theorem Stands.pos (h : Stands past start cell) : 0 < cell.size.toNat := by
  obtain ⟨_, _, _, _, hw, _⟩ := h
  exact hw.pos

theorem not_stands_nil : ¬ Stands [] start cell := not_since_nil

/-- One more edit either is the write that stands or has to leave it alone. -/
theorem stands_snoc {past : List Met} {m : Met} :
    Stands (past ++ [m]) start cell ↔
      m.Wrote start cell ∨ (Stands past start cell ∧ ¬ m.Disturbs start (start + cell.size.toNat)) :=
  since_snoc

/-- Reads move the cursor and nothing else. -/
theorem next_moves (b : Buffer) (wanted : Tag) :
    Agree (fun s t => s = t ∧ ∃ p, s = { b with position := p }) (next wanted) (next wanted) := by
  rintro s t ⟨rfl, p, rfl⟩
  refine ⟨rfl, rfl, ?_⟩
  rcases hp : peek { b with position := p } wanted with e | _ | ⟨cell, stop⟩
  · rw [(next_error hp).state]
    exact ⟨p, rfl⟩
  · rw [(next_end hp).state]
    exact ⟨p, rfl⟩
  · rw [(next_some hp).state]
    exact ⟨stop, rfl⟩

theorem Reading.run_moves (r : Reading) (b : Buffer) :
    ∃ p, (r.run b).state = { b with position := p } :=
  (r.agree (next_moves b) b b ⟨rfl, b.position, rfl⟩).2.2

theorem Met.not_wrote {m : Met} (he : ∀ size value, m.edit ≠ .write size value) :
    ¬ m.Wrote start cell := by
  intro h
  obtain ⟨size, hw, _⟩ := h
  exact he _ _ hw

theorem Met.not_disturbs {m : Met} (hw : ∀ place cell, ¬ m.Wrote place cell)
    (hr : ∀ size, m.edit ≠ .resize size) (hc : m.edit ≠ .clear) : ¬ m.Disturbs start stop := by
  intro h
  rcases h with ⟨place, cell, hwrote, _⟩ | ⟨size, he, _⟩ | he
  · exact hw place cell hwrote
  · exact hr size he
  · exact hc he

theorem Met.not_disturbs_of_failed {m : Met} (hr : m.result ≠ .ok .done) (hc : m.edit ≠ .clear) :
    ¬ m.Disturbs start stop := by
  intro h
  rcases h with ⟨_, _, ⟨_, _, _, _, _, hok⟩, _⟩ | ⟨_, _, hok, _⟩ | he
  · exact hr hok
  · exact hr hok
  · exact hc he

/-- An edit that leaves all bytes where they belong. -/
structure Met.Quiet (m : Met) : Prop where
  calm : ∀ start stop, ¬ m.Disturbs start stop
  rules : m.left.rules = m.buffer.rules
  owner : m.left.owner = m.buffer.owner

/-- What an edit can do: nothing to the bytes, or write, or cut, or clear. -/
theorem Met.outcome (m : Met) (hb : m.buffer.Sound) :
    m.Quiet ∨
    (∃ size value, m.edit = .write size value ∧ Size.padded size ≠ 0 ∧ m.result = .ok .done ∧
      m.buffer.position + (Size.padded size).toNat ≤ m.buffer.rules.maxCapacity.toNat ∧
      (m.buffer.written ⟨Size.padded size, value⟩).Alike m.left) ∨
    (∃ size, m.edit = .resize size ∧ m.result = .ok .done ∧ m.left = m.buffer.resized size) ∨
    (m.edit = .clear ∧ m.left = empty m.buffer.rules) := by
  obtain ⟨b, e⟩ := m
  change b.Sound at hb
  have hquiet {r : Except (Failure Error) Answer} {t : Buffer} (hy : e.run.Yields b r t)
      (hd : ∀ start stop, ¬ (Met.mk b e).Disturbs start stop) (hr : t.rules = b.rules)
      (ho : t.owner = b.owner) : (Met.mk b e).Quiet :=
    ⟨hd, (congrArg Buffer.rules hy.state).trans hr, (congrArg Buffer.owner hy.state).trans ho⟩
  cases e with
  | write size value =>
    by_cases h0 : Size.padded size = 0
    · refine .inl (hquiet ((write_nothing h0).map fun _ => Answer.done) (fun _ _ => ?_) rfl rfl)
      apply Met.not_disturbs
      · intro place cell h
        obtain ⟨_, he, hs, hne, _⟩ := h
        cases he
        exact hne (hs.trans h0)
      · simp
      · simp
    · by_cases hn : b.position + (Size.padded size).toNat ≤ b.rules.maxCapacity.toNat
      · obtain ⟨c, hc, hal, -⟩ := write_yields value hb h0 hn
        have hy : (Edit.write size value).run.Yields b _ _ := hc.map fun _ => Answer.done
        refine .inr (.inl ⟨size, value, rfl, h0, hy.result, hn, ?_⟩)
        rw [Met.left, hy.state]
        exact hal
      · have hy : (Edit.write size value).run.Yields b _ _ :=
          (write_refused value h0 (Nat.lt_of_not_le hn)).map_stop fun _ => Answer.done
        refine .inl (hquiet hy (fun _ _ => ?_) rfl rfl)
        apply Met.not_disturbs_of_failed
        · simp [Met.result, hy.result]
        · simp
  | resize size =>
    by_cases hn : size ≤ b.rules.maxCapacity.toNat
    · have hy : (Edit.resize size).run.Yields b _ _ := (resize_yields hb hn).map fun _ => Answer.done
      exact .inr (.inr (.inl ⟨size, rfl, hy.result, hy.state⟩))
    · have hy : (Edit.resize size).run.Yields b _ _ :=
        (resize_refused (Nat.lt_of_not_le hn)).map_stop fun _ => Answer.done
      refine .inl (hquiet hy (fun _ _ => ?_) rfl rfl)
      apply Met.not_disturbs_of_failed
      · simp [Met.result, hy.result]
      · simp
  | clear =>
    have hy : Edit.clear.run.Yields b _ _ := clear_yields.map fun _ => Answer.done
    exact .inr (.inr (.inr ⟨rfl, hy.state⟩))
  | seek p =>
    have hd (start stop : Nat) : ¬ (Met.mk b (.seek p)).Disturbs start stop := by
      apply Met.not_disturbs (fun _ _ => Met.not_wrote _) <;> simp
    by_cases hp : p ≤ b.size
    · exact .inl (hquiet ((seek_yields hp).map fun _ => Answer.done) hd rfl rfl)
    · have hy := seek_refused (Nat.lt_of_not_le hp)
      exact .inl (hquiet (hy.map_stop fun _ => Answer.done) hd rfl rfl)
  | reserve n =>
    have hd (start stop : Nat) : ¬ (Met.mk b (.reserve n)).Disturbs start stop := by
      apply Met.not_disturbs (fun _ _ => Met.not_wrote _) <;> simp
    by_cases hn : n ≤ b.rules.maxCapacity.toNat
    · have hy := reserve_yields hb.cursor hb.stored hn
      exact .inl (hquiet (hy.map fun _ => Answer.done) hd rfl (owner_extended b n))
    · have hy := reserve_refused hb (Nat.lt_of_not_le hn)
      exact .inl (hquiet (hy.map_stop fun _ => Answer.done) hd rfl rfl)
  | read r =>
    have hd (start stop : Nat) : ¬ (Met.mk b (.read r)).Disturbs start stop := by
      apply Met.not_disturbs (fun _ _ => Met.not_wrote _) <;> simp
    obtain ⟨p, hp⟩ := r.run_moves b
    exact .inl (hquiet (t := { b with position := p }) ⟨rfl, hp⟩ hd rfl rfl)

theorem Met.wrote_iff {m : Met} (he : m.edit = .write size value) (h0 : Size.padded size ≠ 0)
    (hr : m.result = .ok .done) :
    m.Wrote start cell ↔ start = m.buffer.position ∧ cell = ⟨Size.padded size, value⟩ := by
  constructor
  · intro h
    obtain ⟨size', he', hs, -, hp, -⟩ := h
    rw [he] at he'
    cases he'
    cases cell
    cases hs
    exact ⟨hp.symm, rfl⟩
  · intro h
    obtain ⟨rfl, rfl⟩ := h
    exact ⟨size, he, rfl, h0, rfl, hr⟩

/-- A cell is whole behind an edit if the edit wrote it, or if it was whole before and left alone. -/
theorem Met.whole_left (m : Met) (hb : m.buffer.Sound) (hc : 0 < cell.size.toNat) :
    m.left.owner.Whole start cell ↔
      m.Wrote start cell ∨
        (m.buffer.owner.Whole start cell ∧ ¬ m.Disturbs start (start + cell.size.toNat)) := by
  rcases m.outcome hb with hq | ⟨size, value, he, h0, hr, hn, hal⟩ | ⟨size, he, hr, hl⟩ | ⟨he, hl⟩
  · rw [hq.owner]
    constructor
    · intro h
      exact .inr ⟨h, hq.calm _ _⟩
    · intro h
      rcases h with hw | ⟨h, -⟩
      · exact absurd hw.disturbs (hq.calm _ _)
      · exact h
  · have hd : m.Disturbs start (start + cell.size.toNat) ↔
        m.buffer.position < start + cell.size.toNat ∧
          start < m.buffer.position + (Size.padded size).toNat := by
      constructor
      · intro h
        rcases h with ⟨_, _, hw, hl, hu⟩ | ⟨_, he', _⟩ | he'
        · obtain ⟨rfl, rfl⟩ := (Met.wrote_iff he h0 hr).mp hw
          exact ⟨hl, hu⟩
        · simp [he] at he'
        · simp [he] at he'
      · intro h
        exact .inl ⟨_, _, (Met.wrote_iff he h0 hr).mpr ⟨rfl, rfl⟩, h.1, h.2⟩
    rw [Owners.whole_iff hal.owner.symm hc, hb.owner_written hn, Met.wrote_iff he h0 hr, hd]
    exact Owners.whole_written hb.fresh (Size.toNat_ne_zero.mp h0) hc
  · have hw : ¬ m.Wrote start cell := Met.not_wrote (by simp [he])
    have hd : m.Disturbs start (start + cell.size.toNat) ↔ size < start + cell.size.toNat := by
      constructor
      · intro h
        rcases h with ⟨_, _, hw, _⟩ | ⟨_, he', _, hlt⟩ | he'
        · exact absurd hw (Met.not_wrote (by simp [he]))
        · rw [he] at he'
          cases he'
          exact hlt
        · simp [he] at he'
      · intro h
        exact .inr (.inl ⟨size, he, hr, h⟩)
    rw [hl, hb.owner_resized, Owners.whole_cut hc, hd, Nat.not_lt]
    simp [hw]
  · have hd : m.Disturbs start (start + cell.size.toNat) := .inr (.inr he)
    have hw : ¬ m.Wrote start cell := Met.not_wrote (by simp [he])
    rw [hl, owner_empty]
    simp [hw, hd, Owners.not_whole_nobody hc]

theorem Met.left_rules (m : Met) (hb : m.buffer.Sound) : m.left.rules = m.buffer.rules := by
  rcases m.outcome hb with hq | ⟨size, value, -, -, -, -, hal⟩ | ⟨size, -, -, hl⟩ | ⟨-, hl⟩
  · exact hq.rules
  · exact hal.rules.symm
  · rw [hl]
    rfl
  · rw [hl]
    rfl

/-- What is whole in the buffer is what stands in its past. -/
structure Remembers (b : Buffer) (past : List Met) : Prop where
  sound : b.Sound
  whole : ∀ start cell, 0 < cell.size.toNat → (b.owner.Whole start cell ↔ Stands past start cell)

theorem remembers_empty (rules : Rules) : Remembers (empty rules) [] where
  sound := sound_empty rules
  whole start cell hc := by
    rw [owner_empty]
    exact iff_of_false (Owners.not_whole_nobody hc) not_stands_nil

theorem Remembers.edit {past : List Met} (h : Remembers b past) (e : Edit) :
    Remembers (e.run b).state (past ++ [⟨b, e⟩]) where
  sound := (e.run_agree b b h.sound.alike).2.left
  whole start cell hc := by
    rw [stands_snoc, ← h.whole start cell hc]
    exact Met.whole_left ⟨b, e⟩ h.sound hc

theorem Remembers.run {past : List Met} (h : Remembers b past) (edits : List Edit) :
    Remembers (after b edits) (past ++ trail b edits) ∧ (after b edits).rules = b.rules := by
  induction edits generalizing b past with
  | nil =>
    rw [trail, List.append_nil]
    exact ⟨h, rfl⟩
  | cons e edits ih =>
    obtain ⟨hrest, hrules⟩ := ih (h.edit e)
    rw [List.append_assoc] at hrest
    exact ⟨hrest, hrules.trans (Met.left_rules ⟨b, e⟩ h.sound)⟩

/-- Sets the cursor and reads. -/
def readAt (position : Nat) (fallback : Value) (wanted : Tag) : Action Buffer Error Value := do
  seek position
  readOr fallback wanted

/-- A read passes over a whole cell, whether its value is of the kind that is wanted or not. -/
theorem Sound.readAt_found (hb : b.Sound) (hm : b.rules.maxCapacity.toNat < Size.largest)
    (hp : p < b.size) (hw : b.wholeCell (some wanted) p = .ok cell) (fallback : Value) :
    (readAt p fallback wanted).Yields b
      (if cell.value.tag = wanted then .ok cell.value
        else .error (.refused (.typeMismatch p wanted cell.value.tag)))
      { b with position := p + cell.size.toNat, justExtended := false } := by
  have hs := seek_yields (Nat.le_of_lt hp)
  rw [← wholeCell_moved b p] at hw
  have hn := next_some ((hb.seek (Nat.le_of_lt hp)).peek_ok hm hp hw)
  by_cases htag : cell.value.tag = wanted
  · rw [if_pos htag] at hn ⊢
    exact hs.bind (readOr_yields hn fallback)
  · rw [if_neg htag] at hn ⊢
    exact hs.bind hn.stop

theorem readAt_stopped (hp : p < b.size) (hw : b.wholeCell (some wanted) p = .error e)
    (fallback : Value) : (readAt p fallback wanted).Yields b (.error e)
      { b with position := p, justExtended := false } := by
  rw [← wholeCell_moved b p] at hw
  exact (seek_yields (Nat.le_of_lt hp)).bind (next_error (peek_error hp hw)).stop

/-- A value is read from the data exactly where a cell that holds it is whole. -/
theorem Sound.readAt_ok_iff (hb : b.Sound) (hm : b.rules.maxCapacity.toNat < Size.largest)
    (hp : p < b.size) (fallback : Value) :
    (readAt p fallback wanted b).result = .ok v ↔
      wanted = v.tag ∧ ∃ cell : Cell, cell.value = v ∧ 0 < cell.size.toNat ∧ b.owner.Whole p cell := by
  simp only [← hb.wholeCell_ok_iff_whole hm (some wanted)]
  cases hw : b.wholeCell (some wanted) p with
  | error e => simp [(readAt_stopped hp hw fallback).result]
  | ok cell =>
    rw [(hb.readAt_found hm hp hw fallback).result]
    split
    · rename_i htag
      constructor
      · intro h
        cases h
        exact ⟨htag.symm, cell, rfl, rfl⟩
      · intro h
        obtain ⟨-, d, rfl, hd⟩ := h
        cases hd
        rfl
    · rename_i htag
      constructor
      · intro h
        cases h
      · intro h
        obtain ⟨ht, d, rfl, hd⟩ := h
        cases hd
        exact absurd ht.symm htag

/-- From the last write at an offset a read gets its value back, as long as the write stands, and
nothing else is ever read from the data. -/
theorem readAt_ok_iff_stands (rules : Rules) (small : rules.maxCapacity.toNat ≤ 2147483648)
    (edits : List Edit) (p : Nat) (hp : p < (after (empty rules) edits).size)
    (fallback v : Value) (wanted : Tag) :
    (readAt p fallback wanted (after (empty rules) edits)).result = .ok v ↔
      wanted = v.tag ∧ ∃ size, Stands (trail (empty rules) edits) p ⟨size, v⟩ := by
  obtain ⟨h, hr⟩ := (remembers_empty rules).run edits
  have hm : (after (empty rules) edits).rules.maxCapacity.toNat < Size.largest := by
    rw [hr]
    change rules.maxCapacity.toNat < 4294967295
    omega
  rw [h.sound.readAt_ok_iff hm hp]
  refine and_congr_right fun _ => ?_
  constructor
  · intro hx
    obtain ⟨⟨size, _⟩, rfl, hc, hw⟩ := hx
    exact ⟨size, (h.whole p _ hc).mp hw⟩
  · intro hx
    obtain ⟨size, hs⟩ := hx
    exact ⟨⟨size, v⟩, rfl, hs.pos, (h.whole p _ hs.pos).mpr hs⟩

/-- A long that is followed by an int stands when the int is written over and cut off. -/
theorem stands_before_cut :
    let edits : List Edit :=
      [.write 8 (.long 7), .write 4 (.int 5), .seek 8, .write 4 (.int 6), .resize 8]
    ∃ size, Stands (trail (empty { maxCapacity := 64 }) edits) 0 ⟨size, .long 7⟩ := by
  have h := readAt_ok_iff_stands { maxCapacity := 64 } (by decide)
    [.write 8 (.long 7), .write 4 (.int 5), .seek 8, .write 4 (.int 6), .resize 8] 0 (by decide)
    (.long 0) (.long 7) .long
  exact (h.mp rfl).2

end Parcel.Buffer
