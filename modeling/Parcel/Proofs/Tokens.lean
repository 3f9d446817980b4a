import Parcel.Proofs.Arrays

/-!
Interface tokens among whatever else the data hold. What reads give at the end of the data never passes for
a part of one.
-/
namespace Parcel.Buffer
open Parcel.Action

/-- At the cursor stand an int, whatever its number, and right behind it the name. -/
def HoldsToken (b : Buffer) (interface : String) : Prop :=
  ∃ (size size' : UInt32) (n : Int32), b.Intact b.position ⟨size, .int n⟩ ∧
    b.Intact (b.position + size.toNat) ⟨size', .string (some interface)⟩

variable {b c : Buffer} {interface name : String}

/-- What is read for the name is the name, and no default. -/
theorem ok_of_enforce (h : (enforce interface b).result = .ok ()) :
    ∃ found, (next .int b).result = .ok found ∧
      (next .string (next .int b).state).result = .ok (some (.string (some interface))) := by
  obtain ⟨found, hint, h⟩ := ok_of_bind h
  obtain ⟨named, hstring, h⟩ := ok_of_bind h
  refine ⟨found, hint, hstring.trans ?_⟩
  dsimp only at h
  split at h
  · rename_i s
    by_cases hs : s = some interface
    · rw [hs]
    · rw [if_pos hs] at h
      cases h
  · cases h

section
variable (hb : b.Sound) (hm : b.rules.maxCapacity.toNat < Size.largest)
include hb hm

theorem Sound.holdsToken_of_enforce (h : (enforce interface b).result = .ok ()) :
    b.HoldsToken interface := by
  obtain ⟨found, hint, hstring⟩ := ok_of_enforce h
  rcases hb.ok_of_next hm hint with ⟨-, he, hd⟩ | ⟨⟨size, v⟩, -, htag, hintact, hstate⟩
  · -- at the end of the data the first read stays there, and the second finds nothing either
    have hend := next_at_end hd (Nat.le_of_eq he.symm)
    rw [(hend .int).state, (hend .string).result] at hstring
    cases hstring
  · rw [hstate] at hstring
    obtain ⟨-, hsound, hsmall, -⟩ := (hb.ahead_of_intact hm hintact).next
    rcases hsound.ok_of_next hsmall hstring with ⟨hnone, -⟩ | ⟨⟨size', v'⟩, hsome, -, hintact', -⟩
    · cases hnone
    · cases v with
      | int n =>
        cases hsome
        exact ⟨size, size', n, hintact, hintact'⟩
      | byte | long | float | double | string | byteArray | binder => cases htag

theorem Sound.enforce_of_holdsToken (h : b.HoldsToken interface) :
    (enforce interface b).result = .ok () := by
  obtain ⟨size, size', n, hint, hstring⟩ := h
  have hahead := hb.ahead_of_pair hm hint hstring
  exact (hahead.enforce interface).result.trans (if_pos rfl)

theorem Sound.enforce_ends (interface : String) :
    (enforce interface).Ends b b.Onto fun _ => False :=
  enforce_within (hb.next_onto hm) interface b (.refl hb)

end

theorem Sound.token_position (hb : b.Sound) (small : b.rules.maxCapacity.toNat ≤ 2147483648)
    (hw : (put (.token name) b).result = .ok ()) :
    (put (.token name) b).state.position = b.position + (Item.token name).extent := by
  obtain ⟨hlen, c, hy, hc⟩ := (trail_start hb).put hw
  rw [List.nil_append] at hc
  have hextent := Item.extent_cells hlen (Nat.le_trans hc.extent_le small)
  rw [hy.state, ← hextent, hc.laid.extent]

theorem Sound.enforce_written (hb : b.Sound) (hm : b.rules.maxCapacity.toNat < Size.largest)
    (hw : (put (.token name)).Yields b (.ok ()) c) :
    (Buffer.seek b.position).Yields c (.ok ()) (c.moved b.position) ∧
      ∀ interface, (enforce interface).Yields (c.moved b.position)
        (if name = interface then .ok ()
          else .error (.refused (.interfaceMismatch interface (some name))))
        { c.moved b.position with position := c.position } := by
  obtain ⟨-, t, hy, ht⟩ := (trail_start hb).put hw.result
  obtain rfl : t = c := hy.state.symm.trans hw.state
  rw [List.nil_append] at ht
  obtain ⟨hseek, hahead⟩ := ht.ahead hm
  have hend : (t.moved b.position).passed (Cell.extent (Item.token name).cells) =
      { t.moved b.position with position := t.position } := by
    rw [← ht.laid.extent]
    rfl
  refine ⟨hseek, fun interface => ?_⟩
  have henforce := Ahead.enforce interface hahead
  simp only [passed_passed, Option.some_inj] at henforce
  rw [← hend]
  exact henforce

/-- An interface token is accepted exactly where one with the name stands at the cursor, and everything
else is refused. Only the cursor moves. A token that was written is accepted under its own name and no
other, and passed over in either case. The arenas of `b` and `c` are taken to hold 2^32 cells at most. -/
theorem enforce_exact (h : Reachable b) (small : b.rules.maxCapacity.toNat ≤ 2147483648) :
    (∀ interface, (enforce interface b).result = .ok () ↔ b.HoldsToken interface) ∧
    (∀ interface, ¬ b.HoldsToken interface →
      ∃ e, (enforce interface b).result = .error (.refused e)) ∧
    (∀ interface, b.Onto (enforce interface b).state) ∧
    ∀ name c, (put (.token name)).Yields b (.ok ()) c →
      c.position = b.position + (Item.token name).extent ∧
      (seek b.position).Yields c (.ok ()) (c.moved b.position) ∧
      ∀ interface, (enforce interface).Yields (c.moved b.position)
        (if name = interface then .ok ()
          else .error (.refused (.interfaceMismatch interface (some name))))
        { c.moved b.position with position := c.position } := by
  have hb := h.sound
  have hm : b.rules.maxCapacity.toNat < Size.largest := Nat.lt_of_le_of_lt small (by decide)
  refine ⟨fun interface => ⟨hb.holdsToken_of_enforce hm, hb.enforce_of_holdsToken hm⟩,
    fun interface hno => ?_, fun interface => (hb.enforce_ends hm interface).state, ?_⟩
  · apply (hb.enforce_ends hm interface).unbroken.refused
    intro _ hok
    exact hno (hb.holdsToken_of_enforce hm hok)
  · intro name c hw
    have hend := hb.token_position small hw.result
    rw [hw.state] at hend
    exact ⟨hend, hb.enforce_written hm hw⟩

/-- The empty name behind an int other than zero makes up a token, and one that is written over it does not
pass for it. -/
theorem enforce_exact_empty :
    let b := ((Call.edit (.seek 0)).run ((Call.put (.string (some ""))).run
      ((Call.put (.int 9)).run (empty { maxCapacity := 64 })).state).state).state
    (enforce "" b).result = .ok () ∧ (∃ e, (enforce "a" b).result = .error (.refused e)) ∧
      ∃ c, (put (.token "a")).Yields b (.ok ()) c ∧
        (enforce "" (c.moved 0)).result = .error (.refused (.interfaceMismatch "" (some "a"))) := by
  intro b
  have hint := (Reachable.empty { maxCapacity := 64 }).call (.put (.int 9)) (by simp)
  have hname := hint.call (.put (.string (some ""))) (by simp)
  have h : Reachable b := hname.call (.edit (.seek 0)) (by simp)
  obtain ⟨haccepts, hrefuses, -, hwritten⟩ := enforce_exact h (by decide)
  have htoken : b.HoldsToken "" :=
    ⟨4, 8, 9, ⟨by decide, 0, by decide, by decide⟩, by decide, 1, by decide, by decide⟩
  have hother : ¬ b.HoldsToken "a" := by
    intro hheld
    have hmismatch : (enforce "a" b).result =
      .error (.refused (.interfaceMismatch "a" (some ""))) := rfl
    cases hmismatch.symm.trans ((haccepts "a").mpr hheld)
  have hput : (put (.token "a")).Yields b (.ok ()) (put (.token "a") b).state := ⟨rfl, rfl⟩
  obtain ⟨-, -, hback⟩ := hwritten "a" _ hput
  exact ⟨(haccepts "").mpr htoken, hrefuses "a" hother, _, hput, (hback "").result⟩

end Parcel.Buffer
