import Parcel.Proofs.Items
import Parcel.Proofs.Sweeping

/-!
How the storage grows. A write that ends behind the storage makes it half as large again as the write
needs, up to the limit; whatever else needs storage gets no more than it needs. A call is refused for
nothing but what it needs, and no storage is given back but by clearing.
-/
namespace Parcel.Buffer
open Parcel.Action

/-- The storage behind a write that ends at `stop`. -/
def capacityFor (b : Buffer) (stop : Nat) : Nat :=
  if stop ≤ b.capacity then b.capacity else min (3 * stop / 2) b.rules.maxCapacity.toNat

/-- The action needs storage up to `needed`. Beyond the limit it is refused for that and changes nothing;
otherwise it is done, and `capacity` bytes of storage are there then. -/
structure Grows (b : Buffer) (m : Action Buffer Error Unit) (needed capacity : Nat) : Prop where
  refused : b.rules.maxCapacity.toNat < needed →
    m.Yields b (.error (.refused (.capacityExceeded needed b.rules.maxCapacity))) b
  done : needed ≤ b.rules.maxCapacity.toNat → ∃ c, m.Yields b (.ok ()) c ∧ c.capacity = capacity

/-- Calls from `b` on, none of which clears it, lead to this buffer. -/
inductive Onward (b : Buffer) : Buffer → Prop
  | here : Onward b b
  | call (h : Onward b c) (call : Call) (hc : call ≠ .edit .clear)
    (hs : ∀ s, call = .paste s → Exported s) : Onward b (call.run c).state
  | append (h : Onward b c) (hs : Reachable source) (offset length : Nat) :
    Onward b (Buffer.append source offset length c).state

/-- What storage a buffer has behind what is done to it. -/
structure Growth (b : Buffer) : Prop where
  write : ∀ size value, size ≠ 0 → b.Grows (write size value)
    (b.position + (Size.padded size).toNat) (b.capacityFor (b.position + (Size.padded size).toNat))
  /-- Within the limit there is room for the write still, and no less than before. -/
  clamped : ∀ stop ≤ b.rules.maxCapacity.toNat, stop ≤ b.capacityFor stop ∧
    b.capacityFor stop ≤ b.rules.maxCapacity.toNat ∧ b.capacity ≤ b.capacityFor stop
  resize : ∀ n, b.Grows (resize n) n (max b.capacity n)
  paste : ∀ s, Exported s → b.position = b.size →
    b.Grows (paste s) (b.size + s.length) (max b.capacity (b.size + s.length))
  append : ∀ source offset length, Reachable source → b.position = b.size →
    offset + length ≤ source.capacity →
    b.Grows (append source offset length) (b.size + length) (max b.capacity (b.size + length))
  reserve : ∀ n,
    (b.rules.maxCapacity.toNat < n ∧ b.capacity < n → (reserve n).Yields b
      (.error (.refused (.capacityExceeded n b.rules.maxCapacity))) b) ∧
    (¬ (b.rules.maxCapacity.toNat < n ∧ b.capacity < n) → ∃ c, (reserve n).Yields b (.ok ()) c ∧
      c.capacity = max b.capacity n ∧ c.size = b.size ∧ c.position = b.position)
  onward : ∀ c, Onward b c → b.capacity ≤ c.capacity

variable {b c : Buffer} {m : Taken} {values : List Value} {call : Call} {size : UInt32}

theorem Sound.max_room (hb : b.Sound) (stop : Nat) :
    max b.capacity (b.room stop) = b.capacityFor stop := by
  have hlimited := hb.limited
  have hword := b.limit_le_largest
  unfold room Size.grown capacityFor
  by_cases hstop : stop ≤ b.capacity
  · rw [if_pos hstop, if_pos hstop]
    omega
  · rw [if_neg hstop, if_neg hstop]
    omega

theorem Sound.capacityFor_bounds (hb : b.Sound) (h : stop ≤ b.rules.maxCapacity.toNat) :
    stop ≤ b.capacityFor stop ∧ b.capacityFor stop ≤ b.rules.maxCapacity.toNat ∧
      b.capacity ≤ b.capacityFor stop := by
  have hlimited := hb.limited
  unfold capacityFor
  split <;> omega

theorem Sound.grows_write (hb : b.Sound) (value : Value) (h0 : Size.padded size ≠ 0) :
    b.Grows (Buffer.write size value) (b.position + (Size.padded size).toNat)
      (b.capacityFor (b.position + (Size.padded size).toNat)) where
  refused h := write_refused value h0 h
  done h := by
    obtain ⟨c, hc, -, hcap⟩ := write_yields value hb h0 h
    refine ⟨c, hc, ?_⟩
    rw [← hcap, capacity_written]
    exact hb.max_room _

theorem Sound.grows_resize (hb : b.Sound) (n : Nat) : b.Grows (Buffer.resize n) n (max b.capacity n) where
  refused := resize_refused
  done h := ⟨_, resize_yields hb h, capacity_resized b n⟩

theorem Sound.grows_paste (hb : b.Sound) (he : b.position = b.size) (s : Segment) :
    b.Grows (Buffer.paste s) (b.size + s.length) (max b.capacity (b.size + s.length)) where
  refused := paste_refused he
  done h := ⟨_, paste_yields hb he h, capacity_pasted b s⟩

/-- What can be copied is added as the copy is. -/
theorem Sound.grows_append (hb : b.Sound) (he : b.position = b.size) {source : Buffer}
    (hs : source.Sound) (hle : offset + length ≤ source.capacity) :
    b.Grows (Buffer.append source offset length) (b.size + length)
      (max b.capacity (b.size + length)) := by
  obtain ⟨s, hc, rfl, -⟩ := copy_matches hs hle
  have hpaste := hb.grows_paste he s
  constructor
  case refused =>
    intro h
    exact append_yields he hc (hpaste.refused h)
  case done =>
    intro h
    obtain ⟨c, hy, hcap⟩ := hpaste.done h
    exact ⟨c, append_yields he hc hy, hcap⟩

theorem Sound.capacity_le_write (hb : b.Sound) (size : UInt32) (value : Value) :
    b.capacity ≤ (Buffer.write size value b).state.capacity := by
  by_cases h0 : Size.padded size = 0
  · exact Nat.le_of_eq (congrArg capacity (write_nothing h0).state.symm)
  · have hgrows := hb.grows_write value h0
    by_cases hn : b.position + (Size.padded size).toNat ≤ b.rules.maxCapacity.toNat
    · obtain ⟨c, hc, hcap⟩ := hgrows.done hn
      rw [hc.state, hcap]
      exact (hb.capacityFor_bounds hn).2.2
    · exact Nat.le_of_eq (congrArg capacity (hgrows.refused (Nat.lt_of_not_le hn)).state.symm)

/-- No step but clearing takes storage away. -/
theorem Taken.capacity_le (hb : m.buffer.Sound) (h : m.step ≠ .edit .clear) :
    m.buffer.capacity ≤ m.left.capacity := by
  have hkept := (Taken.accounted hb).kept
  obtain ⟨b, s⟩ := m
  change b.Sound at hb
  cases s with
  | edit e =>
    cases e with
    | write size value =>
      have hleft : (Taken.write b size value).left = (Buffer.write size value b).state :=
        state_map _ _ b
      change b.capacity ≤ (Taken.write b size value).left.capacity
      rw [hleft]
      exact hb.capacity_le_write size value
    | clear => exact absurd rfl h
    | seek | resize | reserve | read => exact (hkept rfl).2
  | paste | append => exact (hkept rfl).2

theorem Sound.capacity_le_append (hb : b.Sound) (source : Buffer) (offset length : Nat) :
    b.capacity ≤ (Buffer.append source offset length b).state.capacity := by
  have hstep := Taken.capacity_le (m := ⟨b, .append source offset length⟩) hb (by simp)
  rwa [Taken.left, Step.run, state_map] at hstep

theorem writes_step (h : m ∈ writes b values) : ∃ v : Value, m.step = .edit (.write v.size v) := by
  induction values generalizing b with
  | nil => cases h
  | cons v values ih =>
    rw [writes] at h
    rcases List.mem_cons.mp h with rfl | h
    · exact ⟨v, rfl⟩
    · split at h
      · exact ih h
      · cases h

theorem putSteps_ne_clear {item : Item} (h : m ∈ putSteps b item) : m.step ≠ .edit .clear := by
  unfold putSteps at h
  split at h
  · cases h
  · obtain ⟨v, hv⟩ := writes_step h
    rw [hv]
    simp

theorem Call.steps_ne_clear (hc : call ≠ .edit .clear) (h : m ∈ call.steps b) :
    m.step ≠ .edit .clear := by
  cases call with
  | edit e =>
    obtain rfl := List.mem_singleton.mp h
    intro he
    cases he
    exact hc rfl
  | put item => exact putSteps_ne_clear h
  | putArray bytes offset length =>
    cases bytes with
    | none => exact putSteps_ne_clear h
    | some bytes =>
      unfold steps at h
      dsimp only at h
      split at h
      · cases h
      · exact putSteps_ne_clear h
  | paste s =>
    obtain rfl := List.mem_singleton.mp h
    simp
  | available | cellAt | cells | encode => cases h

theorem Course.capacity_le (hc : Course b later c) (hb : b.Sound)
    (h : ∀ m ∈ later, m.step ≠ .edit .clear) : b.capacity ≤ c.capacity := by
  induction hc with
  | done => exact Nat.le_refl _
  | step s hs _ ih =>
    obtain ⟨hstep, hrest⟩ := List.forall_mem_cons.mp h
    exact Nat.le_trans (Taken.capacity_le hb hstep) (ih (Taken.left_sound hb hs) hrest)

theorem Onward.kept (h : Onward b c) (hb : b.Sound) : c.Sound ∧ b.capacity ≤ c.capacity := by
  induction h with
  | here => exact ⟨hb, Nat.le_refl _⟩
  | call _ call hc hs ih =>
    obtain ⟨hsound, hle⟩ := ih
    have hpasted : ∀ s, call = .paste s → s.Sound := fun s he => (hs s he).sound
    refine ⟨(call.run_agree hpasted _ _ hsound.alike).2.left, Nat.le_trans hle ?_⟩
    exact (call.course hpasted _).capacity_le hsound fun m hm => call.steps_ne_clear hc hm
  | append _ hs offset length ih =>
    obtain ⟨hsound, hle⟩ := ih
    refine ⟨append_sound hsound hs.sound offset length, Nat.le_trans hle ?_⟩
    exact hsound.capacity_le_append _ offset length

/-- A write is refused exactly if it ends beyond the limit, however far the storage would have to grow for
it, and so are a size and added data. Otherwise the storage grows by the rule for what is done, within the
limit, and as long as the buffer is not cleared it never shrinks. -/
theorem storage_growth (h : Reachable b) : Growth b := by
  have hb := h.sound
  constructor
  case write =>
    intro size value h0
    exact hb.grows_write value (Size.padded_ne_zero h0)
  case clamped =>
    intro stop hstop
    exact hb.capacityFor_bounds hstop
  case resize => exact hb.grows_resize
  case paste =>
    intro s _ he
    exact hb.grows_paste he s
  case append =>
    intro source offset length hs he hle
    exact hb.grows_append he hs.sound hle
  case reserve =>
    intro n
    refine ⟨fun hn => reserve_refused hb hn.1, fun hn => ?_⟩
    have hlimited := hb.limited
    have hle : n ≤ b.rules.maxCapacity.toNat := by omega
    exact ⟨_, reserve_yields hb.cursor hb.stored hle, capacity_extended b n, rfl, rfl⟩
  case onward =>
    intro c hc
    exact (hc.kept hb).2

/-- A long in 12 bytes of storage that may become 16: half as much again as the next write needs is too
much, but the write is made. Without any data the 12 bytes stay. -/
theorem storage_growth_clamped :
    let b := ((Call.edit (.write 8 (.long 7))).run (empty { maxCapacity := 16 })).state
    b.capacity = 12 ∧
      (∃ c, (write 5 (.byteArray [1, 2, 3, 4, 5])).Yields b (.ok ()) c ∧ c.capacity = 16) ∧
      (write 9 (.long 7)).Yields b (.error (.refused (.capacityExceeded 20 16))) b ∧
      12 ≤ ((Call.edit (.resize 0)).run b).state.capacity := by
  intro b
  have h : Reachable b := (Reachable.empty { maxCapacity := 16 }).call _ (by simp)
  have hgrowth := storage_growth h
  refine ⟨by decide, ?_, ?_, ?_⟩
  · obtain ⟨c, hc, hcap⟩ := (hgrowth.write 5 (.byteArray [1, 2, 3, 4, 5]) (by decide)).done (by decide)
    exact ⟨c, hc, hcap.trans (by decide)⟩
  · exact (hgrowth.write 9 (.long 7) (by decide)).refused (by decide)
  · exact hgrowth.onward _ (Onward.here.call (.edit (.resize 0)) (by simp) (by simp))

end Parcel.Buffer
