import Parcel.Proofs.Items

/-!
What mutations leave behind when they fail. An item of two cells is written in two steps, and the second
can find no room after the first has been taken.
-/
namespace Parcel

namespace Action

def AllOrNothing (m : Action σ ε α) (s : σ) : Prop :=
  ∀ e, (m s).result = .error e → (m s).state = s

theorem Yields.done {m : Action σ ε α} (h : m.Yields s (.ok a) t) : m.AllOrNothing s := by
  intro e he
  cases h.result.symm.trans he

theorem Yields.nothing {m : Action σ ε α} (h : m.Yields s r s) : m.AllOrNothing s :=
  fun _ _ => h.state

end Action

theorem Item.values_shape (item : Item) :
    (∃ v, item.values = [v]) ∨ ∃ n v, item.values = [.int n, v] := by
  cases item with
  | byte | int | long | float | double | string | binder => exact .inl ⟨_, rfl⟩
  | array bytes =>
    rcases bytes with _ | _ | ⟨n, bytes⟩
    · exact .inl ⟨_, rfl⟩
    · exact .inl ⟨_, rfl⟩
    · exact .inr ⟨_, _, rfl⟩
  | token interface => exact .inr ⟨_, _, rfl⟩

/-- Only an int stands before another cell of the same item, and no third follows. -/
theorem Item.values_split {item : Item} {kept rest : List Value}
    (h : item.values = w :: kept ++ v :: rest) : kept = [] ∧ rest = [] ∧ ∃ n, w = .int n := by
  obtain ⟨x, hx⟩ | ⟨n, x, hx⟩ := item.values_shape
  · rw [hx] at h
    simp at h
  · rw [hx] at h
    cases kept with
    | nil =>
      simp only [List.cons_append, List.nil_append, List.cons.injEq] at h
      exact ⟨rfl, h.2.2.symm, n, h.1.symm⟩
    | cons y kept => simp at h

namespace Buffer
open Parcel.Action

/-- The operations that change a buffer. -/
inductive Mutation
  | write (size : UInt32) (value : Value)
  | put (w : Writing)
  | seek (position : Nat)
  | resize (size : Nat)
  | reserve (capacity : Nat)
  | append (source : Buffer) (offset length : Nat)
  | paste (s : Segment)

def Mutation.run : Mutation → Action Buffer Error Unit
  | write size value => Buffer.write size value
  | put w => w.run
  | seek position => Buffer.seek position
  | resize size => Buffer.resize size
  | reserve capacity => Buffer.reserve capacity
  | append source offset length => Buffer.append source offset length
  | paste s => Buffer.paste s

variable {b : Buffer} {item : Item} {w : Writing} {n : Int32} {v : Value}

theorem write_allOrNothing (hb : b.Sound) (size : UInt32) (value : Value) :
    (write size value).AllOrNothing b := by
  rcases write_outcome hb size value with ⟨_, ht, -⟩ | ⟨-, hno⟩
  · exact ht.done
  · exact hno.nothing

theorem seek_allOrNothing (b : Buffer) (p : Nat) : (seek p).AllOrNothing b := by
  by_cases hp : p ≤ b.size
  · exact (seek_yields hp).done
  · exact (seek_refused (Nat.lt_of_not_le hp)).nothing

theorem resize_allOrNothing (hb : b.Sound) (n : Nat) : (resize n).AllOrNothing b := by
  by_cases hn : n ≤ b.rules.maxCapacity.toNat
  · exact (resize_yields hb hn).done
  · exact (resize_refused (Nat.lt_of_not_le hn)).nothing

theorem reserve_allOrNothing (hb : b.Sound) (n : Nat) : (reserve n).AllOrNothing b := by
  by_cases hn : n ≤ b.rules.maxCapacity.toNat
  · exact (reserve_yields hb.cursor hb.stored hn).done
  · exact (reserve_refused hb (Nat.lt_of_not_le hn)).nothing

theorem paste_allOrNothing (hb : b.Sound) (s : Segment) : (paste s).AllOrNothing b := by
  by_cases he : b.position = b.size
  · by_cases hn : b.size + s.length ≤ b.rules.maxCapacity.toNat
    · exact (paste_yields hb he hn).done
    · exact (paste_refused he (Nat.lt_of_not_le hn)).nothing
  · exact (paste_misplaced he).nothing

theorem append_allOrNothing (hb : b.Sound) (source : Buffer) (offset length : Nat) :
    (append source offset length).AllOrNothing b := by
  by_cases he : b.position = b.size
  · cases hc : source.copy offset length with
    | error e => exact (append_unreadable he hc).nothing
    | ok s =>
      have ha := append_yields he hc (yields_run (paste s) b)
      intro e hr
      rw [ha.state]
      exact paste_allOrNothing hb s e (ha.result.symm.trans hr)
  · exact (append_misplaced source he).nothing

/-- What is written is an int and a value behind it, and there is room for the int alone. -/
structure HalfFits (b : Buffer) (w : Writing) (n : Int32) (v : Value) : Prop where
  inRange : w.InRange
  short : w.written.arrayLength ≤ Item.longestArray
  values : w.written.values = [.int n, v]
  fits : b.position + 4 ≤ b.rules.maxCapacity.toNat
  full : b.rules.maxCapacity.toNat < b.position + 4 + (Size.padded v.size).toNat

/-- The int is taken as if it alone had been written, and what goes behind it is refused. -/
theorem HalfFits.yields (hb : b.Sound) (h : b.HalfFits w n v) :
    ∃ t, (put (.int n)).Yields b (.ok ()) t ∧
      w.run.Yields b (.error (.refused (.capacityExceeded
        (b.position + 4 + (Size.padded v.size).toNat) b.rules.maxCapacity))) t := by
  have hword : (Size.padded (Value.int n).size).toNat = 4 := Size.padded_word
  rcases write_outcome hb (Value.int n).size (.int n) with ⟨t, hint, hst, hrt, hpt⟩ | ⟨hout, -⟩
  · rw [hword] at hpt
    rcases write_outcome hst v.size v with ⟨u, -, hsu, hru, hpu⟩ | ⟨-, hno⟩
    · -- The cursor would stand behind the last place that it can have.
      have hle := (trail_start hsu).position_le
      have hfull := h.full
      rw [hpu, hru, hrt, hpt] at hle
      exact absurd hfull (Nat.not_lt.mpr hle)
    · rw [noRoom, hrt, hpt] at hno
      rw [Writing.run_of_inRange h.inRange, put_eq h.short, h.values]
      exact ⟨t, hint.bind (yields_pure () t), hint.bind hno.stop⟩
  · exact absurd h.fits (Nat.not_le.mpr (hword ▸ hout))

/-- Every other item is written whole or not at all. -/
theorem put_allOrNothing (hb : b.Sound) (hw : w.InRange) (h : ∀ n v, ¬ b.HalfFits w n v) :
    w.run.AllOrNothing b := by
  rw [Writing.run_of_inRange hw]
  by_cases hlen : w.written.arrayLength ≤ Item.longestArray
  · rw [put_eq hlen, each_writeValue]
    rcases writeAll_outcome hb (fun v => ⟨v.size, v⟩) w.written.values with
      ⟨u, hu, -⟩ | ⟨kept, v, t, hstop⟩
    · exact hu.done
    · obtain ⟨rest, hsplit⟩ := hstop.split
      cases kept with
      | nil =>
        obtain rfl : b = t := hstop.before.state
        exact hstop.refused.nothing
      | cons first kept =>
        obtain ⟨rfl, rfl, n, rfl⟩ := Item.values_split hsplit
        have hend : t.position = b.position + 4 :=
          hstop.position.trans (congrArg _ (Cell.extent_int n))
        have hfits := (trail_start hstop.sound).position_le
        have hfull := hstop.full
        rw [hstop.rules, hend] at hfits
        rw [hend] at hfull
        exact absurd ⟨hw, hlen, hsplit, hfits, hfull⟩ (h n v)
  · unfold put
    rw [if_pos (Nat.lt_of_not_le hlen)]
    exact (yields_refuse _ b).nothing

/-- A failed mutation leaves the buffer as it was. The one exception is an item of two cells with room for
the first alone: it is refused for the end of the second, and the first stays written as if it alone had
been. -/
theorem Mutation.state_of_error (h : Reachable b) :
    (∀ m : Mutation, (∀ w n v, m = .put w → ¬ b.HalfFits w n v) → m.run.AllOrNothing b) ∧
    ∀ w n v, b.HalfFits w n v → ∃ t, (Buffer.put (.int n)).Yields b (.ok ()) t ∧
      (Mutation.put w).run.Yields b (.error (.refused (.capacityExceeded
        (b.position + 4 + (Size.padded v.size).toNat) b.rules.maxCapacity))) t := by
  have hb := h.sound
  refine ⟨fun m hm => ?_, fun w n v hw => hw.yields hb⟩
  cases m with
  | write size value => exact write_allOrNothing hb size value
  | seek p => exact seek_allOrNothing b p
  | resize n => exact resize_allOrNothing hb n
  | reserve n => exact reserve_allOrNothing hb n
  | append source offset length => exact append_allOrNothing hb source offset length
  | paste s => exact paste_allOrNothing hb s
  | put w =>
    change w.run.AllOrNothing b
    by_cases hw : w.InRange
    · exact put_allOrNothing hb hw fun n v => hm w n v rfl
    · obtain ⟨e, he⟩ := Writing.run_of_not_inRange hw
      rw [he]
      exact (yields_refuse e b).nothing

/-- A byte behind the last that there is room for. -/
theorem not_allOrNothing : ¬ ∀ (b : Buffer) (m : Mutation), Reachable b → m.run.AllOrNothing b := by
  intro h
  have hs := h (empty { maxCapacity := 4 }) (.put (.array (some [1]) 0 1)) (.empty _)
    (.refused (.capacityExceeded 8 4)) rfl
  cases congrArg Buffer.size hs

/-- The length of an array without the array, and a place behind the data. -/
theorem put_array_split :
    (empty { maxCapacity := 4 }).HalfFits (.array (some [1]) 0 1) 1 (.byteArray [1]) ∧
    (∃ t, (put (.int 1)).Yields (empty { maxCapacity := 4 }) (.ok ()) t ∧
      (Mutation.put (.array (some [1]) 0 1)).run.Yields (empty { maxCapacity := 4 })
        (.error (.refused (.capacityExceeded 8 4))) t) ∧
    (Mutation.seek 1).run.AllOrNothing (empty { maxCapacity := 4 }) := by
  obtain ⟨hwhole, hhalf⟩ := Mutation.state_of_error (.empty { maxCapacity := 4 })
  have hw : (empty { maxCapacity := 4 }).HalfFits (.array (some [1]) 0 1) 1 (.byteArray [1]) :=
    ⟨by simp [Writing.InRange], by decide, rfl, by decide, by decide⟩
  exact ⟨hw, hhalf _ _ _ hw, hwhole (.seek 1) fun w n v he => by cases he⟩

end Buffer

end Parcel
