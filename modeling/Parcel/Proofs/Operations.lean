import Parcel.Proofs.Action
import Parcel.Proofs.Alike
import Parcel.Proofs.Passes

/-!
What the operations on a sound buffer give and leave, one statement for each way in which they can end.
No other way is open: none of them ends in a fault.
-/
namespace Parcel.Buffer
open Parcel.Action

variable {b : Buffer} {size : UInt32} {value : Value} {s : Segment}
  {upkeep : Action Buffer Error Unit}

theorem checkLimit_yields (h : stop ≤ b.rules.maxCapacity.toNat) :
    (checkLimit stop).Yields b (.ok ()) b := by
  refine (yields_gets _ b).bind ?_
  rw [if_neg (by omega)]
  exact yields_pure () b

theorem checkLimit_refused (h : b.rules.maxCapacity.toNat < stop) :
    (checkLimit stop).Yields b (.error (.refused (.capacityExceeded stop b.rules.maxCapacity))) b := by
  refine (yields_gets _ b).bind ?_
  rw [if_pos h]
  exact yields_refuse _ b

theorem seek_yields (h : p ≤ b.size) :
    (seek p).Yields b (.ok ()) { b with position := p, justExtended := false } := by
  refine (yields_gets _ b).bind ?_
  rw [if_neg (by omega)]
  exact yields_modify _ b

theorem seek_refused (h : b.size < p) :
    (seek p).Yields b (.error (.refused (.outOfBounds .dataPosition p b.size))) b := by
  refine (yields_gets _ b).bind ?_
  rw [if_pos h]
  exact yields_refuse _ b

theorem extended_of_le (h : n ≤ b.capacity) : b.extended n = b := by
  unfold Buffer.extended
  rw [Nat.sub_eq_zero_of_le h, Array.replicate_zero, Array.append_empty]

theorem clamped_of_le (hp : b.position ≤ b.size) (hs : b.size ≤ n) : b.clamped n = b := by
  unfold clamped
  rw [Nat.min_eq_left hs, Nat.min_eq_left hp]

/-- Where the data lie within the storage, there is nothing to clamp when it grows. -/
theorem reserve_yields (hp : b.position ≤ b.size) (hs : b.size ≤ b.capacity)
    (h : n ≤ b.rules.maxCapacity.toNat) : (reserve n).Yields b (.ok ()) (b.extended n) := by
  refine (yields_gets _ b).bind ?_
  split
  · have hmodify := yields_modify (ε := Error) (fun b => (b.clamped n).extended n) b
    rw [clamped_of_le hp (by omega)] at hmodify
    exact (checkLimit_yields h).bind ((yields_emit _ b).bind hmodify)
  · rw [extended_of_le (by omega)]
    exact yields_pure () b

theorem reserve_refused (hb : b.Sound) (h : b.rules.maxCapacity.toNat < n) :
    (reserve n).Yields b (.error (.refused (.capacityExceeded n b.rules.maxCapacity))) b := by
  have := hb.limited
  refine (yields_gets _ b).bind ?_
  rw [if_pos (by omega)]
  exact (checkLimit_refused h).stop

theorem resize_yields (hb : b.Sound) (h : n ≤ b.rules.maxCapacity.toNat) :
    (resize n).Yields b (.ok ()) (b.resized n) := by
  have hs : checkStorage (ε := Error) b = .ok () := if_neg (Nat.not_lt.mpr hb.stored)
  have hcut : (b.cutAt n).size ≤ (b.cutAt n).capacity := by
    rw [capacity_cutAt]
    exact hb.stored
  refine (checkLimit_yields h).bind ((yields_inspect hs).bind ?_)
  refine (yields_modify _ b).bind ?_
  exact (reserve_yields (b := b.cutAt n) hb.cursor hcut h).bind (yields_modify _ _)

theorem resize_refused (h : b.rules.maxCapacity.toNat < n) :
    (resize n).Yields b (.error (.refused (.capacityExceeded n b.rules.maxCapacity))) b :=
  (checkLimit_refused h).stop

/-- What is done to the storage shows in nothing but the names of the cells. -/
def Hidden (upkeep : Action Buffer Error Unit) : Prop :=
  ∀ b : Buffer, b.Sound → ∃ c, upkeep.Yields b (.ok ()) c ∧ b.Twin c

theorem hidden_nothing : Hidden (pure ()) := fun b hb => ⟨b, yields_pure () b, hb.twin⟩

theorem tidy_idle (h : b.isOvergrown = false) : tidy.Yields b (.ok ()) b := by
  refine (yields_gets _ b).bind ?_
  rw [h]
  exact yields_pure () b

theorem tidy_swept (h : b.isOvergrown = true) (ht : Segment.take b.arena b.slots = .ok s) :
    tidy.Yields b (.ok ()) { b with arena := s.cells, slots := s.slots } := by
  have hc : compacted (ε := Error) b = .ok (s.cells, s.slots) := by
    rw [compacted, Arena.compact_of_take ht, trust_ok]
  refine (yields_gets _ b).bind ?_
  rw [if_pos h]
  refine (yields_gets _ b).bind ((yields_inspect hc).bind ?_)
  exact (yields_modify _ b).bind (yields_emit _ _)

theorem hidden_tidy : Hidden tidy := by
  intro b hb
  cases ho : b.isOvergrown with
  | false => exact ⟨b, tidy_idle ho, hb.twin⟩
  | true =>
    obtain ⟨s, ht, hl, hs, hm⟩ := Segment.take_matches hb.storage
    have hcap : s.slots.size = b.capacity := hl
    refine ⟨_, tidy_swept ho ht,
      ⟨hb, ⟨hb.cursor, ?_, ?_, hs, ?_, hb.extended⟩, rfl, rfl, rfl, rfl, hm⟩, hcap.symm⟩
    · exact Nat.le_trans hb.stored (Nat.le_of_eq hcap.symm)
    · exact Nat.le_trans (Nat.le_of_eq hcap) hb.limited
    · intro i hi
      have hn := (hm.none_iff i).mp ((hb.name_owner i).trans (hb.bare i hi))
      rwa [hs.closed.name_owner] at hn

theorem sized_yields (h : size.toNat % 4 = 0) : Cell.sized size value = .ok ⟨size, value⟩ :=
  if_pos (Size.mod_four_eq_zero.mpr h)

theorem store_yields (hb : b.Sound) (h4 : size.toNat % 4 = 0)
    (h : b.position + size.toNat ≤ b.rules.maxCapacity.toNat) :
    (store size value).Yields b (.ok ()) (b.written ⟨size, value⟩) := by
  have hc : trust (ε := Error) (Cell.sized size value) = .ok ⟨size, value⟩ := by
    rw [sized_yields h4, trust_ok]
  refine (yields_lift hc b).bind ((yields_gets _ b).bind ((checkLimit_yields h).bind ?_))
  refine (yields_gets _ b).bind ((reserve_yields hb.cursor hb.stored (Nat.min_le_right _ _)).bind ?_)
  refine (yields_gets _ _).bind ((yields_gets _ _).bind ?_)
  rw [if_neg ?_]
  · exact (yields_emit _ _).bind (yields_modify _ _)
  · have := b.le_room h
    change ¬ (b.extended (b.room (b.position + size.toNat))).capacity < b.position + size.toNat
    rw [capacity_extended]
    omega

/-- A write with another upkeep in the place of `tidy`. -/
def writeThen (upkeep : Action Buffer Error Unit) (size : UInt32) (value : Value) :
    Action Buffer Error Unit := do
  let size := Size.padded size
  if size ≠ 0 then
    store size value
    upkeep

theorem writeThen_nothing (h : Size.padded size = 0) :
    (writeThen upkeep size value).Yields b (.ok ()) b := by
  unfold writeThen
  rw [h]
  exact yields_pure () b

theorem writeThen_refused (value : Value) (h0 : Size.padded size ≠ 0)
    (h : b.rules.maxCapacity.toNat < b.position + (Size.padded size).toNat) :
    (writeThen upkeep size value).Yields b (.error (.refused
      (.capacityExceeded (b.position + (Size.padded size).toNat) b.rules.maxCapacity))) b := by
  have hc : trust (ε := Error) (Cell.sized (Size.padded size) value) =
      .ok ⟨Size.padded size, value⟩ := by
    rw [sized_yields (Size.padded_mod size), trust_ok]
  unfold writeThen
  dsimp only
  rw [if_pos h0]
  refine Yields.stop ((yields_lift hc b).bind ?_)
  refine (yields_gets _ b).bind ?_
  exact (checkLimit_refused h).stop

theorem padded_cell (h : Size.padded size ≠ 0) (value : Value) :
    (Cell.mk (Size.padded size) value).Padded :=
  ⟨Size.toNat_ne_zero.mp h, Size.padded_mod size⟩

theorem writeThen_yields (hu : Hidden upkeep) (value : Value) (hb : b.Sound)
    (h0 : Size.padded size ≠ 0)
    (h : b.position + (Size.padded size).toNat ≤ b.rules.maxCapacity.toNat) :
    ∃ c, (writeThen upkeep size value).Yields b (.ok ()) c ∧
      (b.written ⟨Size.padded size, value⟩).Twin c := by
  obtain ⟨c, hc, htwin⟩ := hu _ (hb.written (padded_cell h0 value) h)
  refine ⟨c, ?_, htwin⟩
  unfold writeThen
  dsimp only
  rw [if_pos h0]
  exact (store_yields hb (Size.padded_mod size) h).bind hc

theorem write_nothing (h : Size.padded size = 0) : (write size value).Yields b (.ok ()) b :=
  writeThen_nothing h

theorem write_refused (value : Value) (h0 : Size.padded size ≠ 0)
    (h : b.rules.maxCapacity.toNat < b.position + (Size.padded size).toNat) :
    (write size value).Yields b (.error (.refused
      (.capacityExceeded (b.position + (Size.padded size).toNat) b.rules.maxCapacity))) b :=
  writeThen_refused value h0 h

theorem write_yields (value : Value) (hb : b.Sound) (h0 : Size.padded size ≠ 0)
    (h : b.position + (Size.padded size).toNat ≤ b.rules.maxCapacity.toNat) :
    ∃ c, (write size value).Yields b (.ok ()) c ∧ (b.written ⟨Size.padded size, value⟩).Alike c ∧
      (b.written ⟨Size.padded size, value⟩).capacity = c.capacity := by
  obtain ⟨c, hc, htwin⟩ := writeThen_yields hidden_tidy value hb h0 h
  exact ⟨c, hc, htwin.alike, htwin.capacity⟩

/-- What a write says that finds no room for `size` bytes. -/
def noRoom (b : Buffer) (size : UInt32) : Failure Error :=
  .refused (.capacityExceeded (b.position + (Size.padded size).toNat) b.rules.maxCapacity)

/-- A write moves the cursor on by what it writes, or finds no room and changes nothing. -/
theorem write_outcome (hb : b.Sound) (size : UInt32) (value : Value) :
    (∃ t, (write size value).Yields b (.ok ()) t ∧ t.Sound ∧ t.rules = b.rules ∧
      t.position = b.position + (Size.padded size).toNat) ∨
    (b.rules.maxCapacity.toNat < b.position + (Size.padded size).toNat ∧
      (write size value).Yields b (.error (b.noRoom size)) b) := by
  by_cases h0 : Size.padded size = 0
  · refine .inl ⟨b, write_nothing h0, hb, rfl, ?_⟩
    rw [h0]
    rfl
  · by_cases hfit : b.position + (Size.padded size).toNat ≤ b.rules.maxCapacity.toNat
    · obtain ⟨t, ht, hal, -⟩ := write_yields value hb h0 hfit
      exact .inl ⟨t, ht, hal.right, hal.rules.symm, hal.position.symm⟩
    · have hout := Nat.lt_of_not_le hfit
      exact .inr ⟨hout, write_refused value h0 hout⟩

theorem clear_yields : (clear (ε := ε)).Yields b (.ok ()) (empty b.rules) := yields_modify _ b

theorem owner_extract (b : Buffer) (h : offset + length ≤ b.capacity) :
    (Segment.mk b.arena (b.slots.extract offset (offset + length))).owner =
      b.owner.window offset length := by
  funext i
  unfold Segment.owner Owners.window
  rw [Slots.name_extract _ _ _ _ h, Nat.add_sub_cancel_left]
  split <;> rfl

theorem Sound.extract (hb : b.Sound) (h : offset + length ≤ b.capacity) :
    (Segment.mk b.arena (b.slots.extract offset (offset + length))).Sound := by
  refine ⟨fun i id hi => ?_, hb.storage.padded, ?_⟩
  · rw [Slots.name_extract _ _ _ _ h] at hi
    split at hi
    · exact hb.storage.closed _ id hi
    · cases hi
  · rw [owner_extract b h]
    exact Owners.Narrow.window hb.storage.narrow _ _

/-- A copy of a range is the range under other names. -/
theorem copy_matches (hb : b.Sound) (h : offset + length ≤ b.capacity) :
    ∃ s, b.copy offset length = .ok s ∧ s.length = length ∧ s.Sound ∧
      (b.owner.window offset length).Matches s.owner := by
  obtain ⟨s, ht, hl, hs, hm⟩ := Segment.take_matches (hb.extract h)
  rw [owner_extract b h] at hm
  refine ⟨s, ?_, ?_, hs, hm⟩
  · unfold copy
    rw [if_neg (Nat.not_lt.mpr h), ht, trust_ok]
  · rw [hl, Array.size_extract]
    unfold capacity at h
    omega

theorem copy_refused (h : b.capacity < offset + length) :
    b.copy offset length =
      .error (.refused (.outOfBounds .appendRangeEnd (offset + length) b.capacity)) := if_pos h

theorem copy_sound (hb : b.Sound) (h : b.copy offset length = .ok s) : s.Sound := by
  by_cases hle : offset + length ≤ b.capacity
  · obtain ⟨s', hs', -, hsound, -⟩ := copy_matches hb hle
    rw [hs'] at h
    cases h
    exact hsound
  · rw [copy_refused (Nat.lt_of_not_le hle)] at h
    cases h

theorem checkAtEnd_yields (h : b.position = b.size) : checkAtEnd.Yields b (.ok ()) b :=
  yields_inspect (if_pos h)

theorem checkAtEnd_refused (h : b.position ≠ b.size) :
    checkAtEnd.Yields b (.error (.refused (.appendNotAtEnd b.position b.size))) b :=
  yields_inspect (if_neg h)

theorem paste_yields (hb : b.Sound) (he : b.position = b.size)
    (h : b.size + s.length ≤ b.rules.maxCapacity.toNat) :
    (paste s).Yields b (.ok ()) (b.pasted s) := by
  have hspan : (b.resized (b.size + s.length)).slots.span b.size (b.size + s.length) =
      .ok s.length := by
    have hstored : b.size + s.length ≤ (b.resized (b.size + s.length)).slots.size :=
      (hb.resized h).stored
    rw [Slots.span, if_neg (Nat.not_lt.mpr hstored), Nat.add_sub_cancel_left]
  have hput : s.put b.arena s.length = .ok (b.arena ++ s.cells, s.slotsBehind b.arena.size) :=
    if_pos rfl
  have hend : advanced (b.resized (b.size + s.length)).position s.length = .ok (b.pasted s).position := by
    refine if_neg (Nat.not_lt.mpr ?_)
    have hlimit := limit_le_largest b
    change min b.position (b.size + s.length) + s.length ≤ Size.largest
    omega
  refine (checkAtEnd_yields he).bind ((yields_gets _ b).bind ((resize_yields hb h).bind ?_))
  refine (yields_inspect (r := .ok s.length) ?_).bind ?_
  · exact congrArg trust hspan
  refine (yields_inspect (r := .ok (b.arena ++ s.cells, s.slotsBehind b.arena.size)) ?_).bind ?_
  · exact congrArg trust hput
  refine (yields_modify _ _).bind ((yields_inspect (r := .ok (b.pasted s).position) ?_).bind ?_)
  · exact congrArg trust hend
  · exact yields_modify _ _

theorem paste_misplaced (h : b.position ≠ b.size) :
    (paste s).Yields b (.error (.refused (.appendNotAtEnd b.position b.size))) b :=
  (checkAtEnd_refused h).stop

theorem paste_refused (he : b.position = b.size)
    (h : b.rules.maxCapacity.toNat < b.size + s.length) :
    (paste s).Yields b (.error (.refused
      (.capacityExceeded (b.size + s.length) b.rules.maxCapacity))) b :=
  (checkAtEnd_yields he).bind ((yields_gets _ b).bind (resize_refused h).stop)

theorem append_yields {source : Buffer} (he : b.position = b.size)
    (hc : source.copy offset length = .ok s) (h : (paste s).Yields b r t) :
    (append source offset length).Yields b r t :=
  (checkAtEnd_yields he).bind ((yields_lift hc b).bind h)

theorem append_unreadable {source : Buffer} (he : b.position = b.size)
    (hc : source.copy offset length = .error e) :
    (append source offset length).Yields b (.error e) b :=
  (checkAtEnd_yields he).bind (yields_lift hc b).stop

theorem append_misplaced (source : Buffer) (h : b.position ≠ b.size) :
    (append source offset length).Yields b
      (.error (.refused (.appendNotAtEnd b.position b.size))) b :=
  (checkAtEnd_refused h).stop

/-- A segment is added, or nothing changes. -/
theorem paste_cases (hb : b.Sound) (s : Segment) :
    (paste s).Yields b (.ok ()) (b.pasted s) ∨ ∃ e, (paste s).Yields b (.error e) b := by
  by_cases he : b.position = b.size
  · by_cases hn : b.size + s.length ≤ b.rules.maxCapacity.toNat
    · exact .inl (paste_yields hb he hn)
    · exact .inr ⟨_, paste_refused he (Nat.lt_of_not_le hn)⟩
  · exact .inr ⟨_, paste_misplaced he⟩

theorem append_cases (hb : b.Sound) (source : Buffer) (offset length : Nat) :
    (∃ s, source.copy offset length = .ok s ∧
      (append source offset length).Yields b (.ok ()) (b.pasted s)) ∨
    ∃ e, (append source offset length).Yields b (.error e) b := by
  by_cases he : b.position = b.size
  · cases hc : source.copy offset length with
    | error e => exact .inr ⟨e, append_unreadable he hc⟩
    | ok s =>
      rcases paste_cases hb s with hy | ⟨e, hy⟩
      · exact .inl ⟨s, rfl, append_yields he hc hy⟩
      · exact .inr ⟨e, append_yields he hc hy⟩
  · exact .inr ⟨_, append_misplaced source he⟩

end Parcel.Buffer
