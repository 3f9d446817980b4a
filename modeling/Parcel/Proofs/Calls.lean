import Parcel.Buffer.Item
import Parcel.Marshal.Snapshot
import Parcel.Proofs.Reading

/-!
Calls on a buffer as values, so that runs of them can be spoken of. No call can tell alike buffers apart,
and alike they stay, or twins if they are twins; nor does it matter to a call what is done to the storage
behind its writes, as long as that stays hidden.
-/
namespace Parcel

/-- In a past something with `P` happened, and nothing with `Q` behind it. -/
def Since (P Q : α → Prop) (past : List α) : Prop :=
  ∃ before m later, past = before ++ m :: later ∧ P m ∧ ∀ n ∈ later, ¬ Q n

theorem not_since_nil {P Q : α → Prop} : ¬ Since P Q [] := by
  intro h
  obtain ⟨before, m, later, he, _⟩ := h
  simp at he

theorem since_snoc {P Q : α → Prop} {past : List α} {m : α} :
    Since P Q (past ++ [m]) ↔ P m ∨ (Since P Q past ∧ ¬ Q m) := by
  constructor
  · intro h
    obtain ⟨before, n, later, he, hp, hq⟩ := h
    rcases List.eq_nil_or_concat later with rfl | ⟨later', k, rfl⟩
    · obtain ⟨-, hn⟩ := List.append_inj' he rfl
      cases hn
      exact .inl hp
    · rw [List.concat_eq_append, ← List.cons_append, ← List.append_assoc] at he
      obtain ⟨hpast, hk⟩ := List.append_inj' he rfl
      cases hk
      refine .inr ⟨⟨before, n, later', hpast, hp, fun x hx => hq x ?_⟩, hq m ?_⟩
      · simp [hx]
      · simp
  · intro h
    rcases h with hp | ⟨⟨before, n, later, rfl, hp, hq⟩, hm⟩
    · exact ⟨past, m, [], rfl, hp, by simp⟩
    · refine ⟨before, n, later ++ [m], by simp, hp, ?_⟩
      intro x hx
      rcases List.mem_append.mp hx with hx | hx
      · exact hq x hx
      · simp only [List.mem_singleton] at hx
        subst x
        exact hm

namespace Buffer
open Parcel.Action

/-- What a call gives back. -/
inductive Answer
  | done
  | value (v : Value)
  | bytes (content : Option (List UInt8))
  | cell (cell : Option Cell)
  | cells (cells : List Cell)
  | amount (n : Nat)
deriving DecidableEq

/-- The reads that move the cursor. -/
inductive Reading
  | value (fallback : Value) (wanted : Tag)
  | ofKind (wanted : Tag)
  | array
  | arrayOf (length : Nat)
  | token (interface : String)
deriving DecidableEq

def Reading.run : Reading → Action Buffer Error Answer
  | value fallback wanted => .value <$> readOr fallback wanted
  | ofKind wanted => .value <$> Buffer.read wanted
  | array => .bytes <$> readArray
  | arrayOf length => (fun bytes => .bytes (some bytes)) <$> readArrayOf length
  | token interface => (fun _ => .done) <$> enforce interface

/-- The calls that one buffer on its own answers, cell by cell. -/
inductive Edit
  | write (size : UInt32) (value : Value)
  | seek (position : Nat)
  | resize (size : Nat)
  | reserve (capacity : Nat)
  | clear
  | read (r : Reading)
deriving DecidableEq

def Edit.run : Edit → Action Buffer Error Answer
  | write size value => (fun _ => .done) <$> Buffer.write size value
  | seek position => (fun _ => .done) <$> Buffer.seek position
  | resize size => (fun _ => .done) <$> Buffer.resize size
  | reserve capacity => (fun _ => .done) <$> Buffer.reserve capacity
  | clear => (fun _ => .done) <$> Buffer.clear
  | read r => r.run

/-- All calls but those that read the capacity. -/
inductive Call
  | edit (e : Edit)
  | put (item : Item)
  | putArray (bytes : Option (List UInt8)) (offset length : Nat)
  | paste (s : Segment)
  | available
  | cellAt (offset : Nat)
  | cells
  | encode
deriving DecidableEq

/-- A call whose refusals are those of buffers. -/
def refusing (answer : α → Answer) (m : Action Buffer Error α) : Action Buffer Marshal.Error Answer :=
  answer <$> m.mapError .buffer

def Call.run : Call → Action Buffer Marshal.Error Answer
  | edit e => refusing id e.run
  | put item => refusing (fun _ => .done) (Buffer.put item)
  | putArray bytes offset length => refusing (fun _ => .done) (Buffer.putArray bytes offset length)
  | paste s => refusing (fun _ => .done) (Buffer.paste s)
  | available => refusing .amount Buffer.available
  | cellAt offset => refusing .cell (inspect fun b => trust (b.cellAt offset))
  | cells => refusing .cells (inspect Buffer.cells)
  | encode => (fun bytes => .bytes (some bytes)) <$> Buffer.encode

/-- The answers to one call after the other, failed ones included, and the buffer behind them. -/
def answers (b : Buffer) : List Call → List (Except (Failure Marshal.Error) Answer) × Buffer
  | [] => ([], b)
  | c :: calls =>
    let (rest, last) := answers (c.run b).state calls
    ((c.run b).result :: rest, last)

/-- Writes the cells of an item with another upkeep behind each. -/
def putThen (upkeep : Action Buffer Error Unit) (item : Item) : Action Buffer Error Unit :=
  if Item.longestArray < item.arrayLength then
    Action.refuse (.outOfBounds .arrayLength item.arrayLength Item.longestArray)
  else Action.each (fun v => writeThen upkeep v.size v) item.values

def putArrayThen (upkeep : Action Buffer Error Unit) (bytes : Option (List UInt8))
    (offset length : Nat) : Action Buffer Error Unit :=
  match bytes with
  | none => putThen upkeep (.array none)
  | some bytes =>
    match Bytes.slice? bytes offset length with
    | none => Action.refuse (.outOfBounds .arrayRangeEnd (offset + length) bytes.length)
    | some part => putThen upkeep (.array (some part))

def Edit.runThen (upkeep : Action Buffer Error Unit) : Edit → Action Buffer Error Answer
  | write size value => (fun _ => .done) <$> writeThen upkeep size value
  | e => e.run

/-- A call with another upkeep behind its writes. -/
def Call.runThen (upkeep : Action Buffer Error Unit) : Call → Action Buffer Marshal.Error Answer
  | edit e => refusing id (e.runThen upkeep)
  | put item => refusing (fun _ => .done) (putThen upkeep item)
  | putArray bytes offset length => refusing (fun _ => .done) (putArrayThen upkeep bytes offset length)
  | c => c.run

theorem Edit.runThen_tidy (e : Edit) : e.runThen tidy = e.run := by
  cases e <;> rfl

theorem Call.runThen_tidy (c : Call) : c.runThen tidy = c.run := by
  cases c with
  | edit e =>
    change refusing id (e.runThen tidy) = refusing id e.run
    rw [e.runThen_tidy]
  | put | putArray | paste | available | cellAt | cells | encode => rfl

variable {b c : Buffer} {R : Buffer → Buffer → Prop} {upkeep upkeep' : Action Buffer Error Unit}

theorem state_refusing (answer : α → Answer) (m : Action Buffer Error α) :
    (refusing answer m b).state = (m b).state :=
  (((yields_run m b).mapError Marshal.Error.buffer).map_any answer).state

theorem Steady.seek_agree (hR : Steady R) (p : Nat) : Agree R (Buffer.seek p) (Buffer.seek p) := by
  intro b c h
  have hal := hR.alike h
  by_cases hp : p ≤ b.size
  · exact (seek_yields hp).agree (seek_yields (hal.size ▸ hp)) (hR.seek h hp)
  · have hb := seek_refused (b := b) (Nat.lt_of_not_le hp)
    have hc := seek_refused (b := c) (hal.size ▸ Nat.lt_of_not_le hp)
    rw [← hal.size] at hc
    exact hb.agree hc h

theorem Steady.reserve_agree (hR : Steady R) (n : Nat) : Agree R (reserve n) (reserve n) := by
  intro b c h
  have hal := hR.alike h
  by_cases hn : n ≤ b.rules.maxCapacity.toNat
  · exact (reserve_yields hal.left.cursor hal.left.stored hn).agree
      (reserve_yields hal.right.cursor hal.right.stored (hal.rules ▸ hn)) (hR.extended h hn)
  · have hb := reserve_refused hal.left (Nat.lt_of_not_le hn)
    have hc := reserve_refused hal.right (hal.rules ▸ Nat.lt_of_not_le hn)
    rw [← hal.rules] at hc
    exact hb.agree hc h

theorem Steady.resize_agree (hR : Steady R) (n : Nat) : Agree R (resize n) (resize n) := by
  intro b c h
  have hal := hR.alike h
  by_cases hn : n ≤ b.rules.maxCapacity.toNat
  · exact (resize_yields hal.left hn).agree (resize_yields hal.right (hal.rules ▸ hn)) (hR.resized h hn)
  · have hb := resize_refused (b := b) (Nat.lt_of_not_le hn)
    have hc := resize_refused (b := c) (hal.rules ▸ Nat.lt_of_not_le hn)
    rw [← hal.rules] at hc
    exact hb.agree hc h

theorem Steady.write_agree (hR : Steady R) (hu : Hidden upkeep) (hu' : Hidden upkeep') (size : UInt32)
    (value : Value) : Agree R (writeThen upkeep size value) (writeThen upkeep' size value) := by
  intro b c h
  have hal := hR.alike h
  by_cases h0 : Size.padded size = 0
  · exact (writeThen_nothing h0).agree (writeThen_nothing h0) h
  · by_cases hn : b.position + (Size.padded size).toNat ≤ b.rules.maxCapacity.toNat
    · obtain ⟨b', hb, htwin⟩ := writeThen_yields hu value hal.left h0 hn
      obtain ⟨c', hc, htwin'⟩ := writeThen_yields hu' value hal.right h0 (hal.position ▸ hal.rules ▸ hn)
      exact hb.agree hc (hR.renumbered (hR.written h (padded_cell h0 value) hn) htwin htwin')
    · have hb : (writeThen upkeep size value).Yields b _ b :=
        writeThen_refused value h0 (Nat.lt_of_not_le hn)
      have hc : (writeThen upkeep' size value).Yields c _ c :=
        writeThen_refused value h0 (hal.position ▸ hal.rules ▸ Nat.lt_of_not_le hn)
      rw [← hal.position, ← hal.rules] at hc
      exact hb.agree hc h

theorem Steady.clear_agree (hR : Steady R) : Agree R (clear (ε := Error)) clear := by
  intro b c h
  have hc := clear_yields (ε := Error) (b := c)
  rw [← (hR.alike h).rules] at hc
  exact clear_yields.agree hc (hR.empty b.rules)

theorem Steady.paste_agree (hR : Steady R) {s : Segment} (hs : s.Sound) :
    Agree R (paste s) (paste s) := by
  intro b c h
  have hal := hR.alike h
  by_cases he : b.position = b.size
  · have he' : c.position = c.size := by rw [← hal.position, ← hal.size, he]
    by_cases hn : b.size + s.length ≤ b.rules.maxCapacity.toNat
    · have hn' : c.size + s.length ≤ c.rules.maxCapacity.toNat := hal.size ▸ hal.rules ▸ hn
      exact (paste_yields hal.left he hn).agree (paste_yields hal.right he' hn') (hR.pasted h hs hn)
    · have hb := paste_refused (s := s) he (Nat.lt_of_not_le hn)
      have hc := paste_refused (s := s) he' (hal.size ▸ hal.rules ▸ Nat.lt_of_not_le hn)
      rw [← hal.size, ← hal.rules] at hc
      exact hb.agree hc h
  · have hb := paste_misplaced (s := s) he
    have hc := paste_misplaced (b := c) (s := s) (by rwa [← hal.position, ← hal.size])
    rw [← hal.position, ← hal.size] at hc
    exact hb.agree hc h

/-- Reads of more than one cell agree as far as reads of one cell do. -/
theorem Reading.agree {R : Buffer → Buffer → Prop} (h : ∀ wanted, Agree R (next wanted) (next wanted))
    (r : Reading) : Agree R r.run r.run := by
  have hor (fallback : Value) (wanted : Tag) :
      Agree R (readOr fallback wanted) (readOr fallback wanted) :=
    (h wanted).bind fun _ => agree_pure _ _
  have hannounced (n : Int) : Agree R (readAnnounced n) (readAnnounced n) := by
    refine (h .byteArray).bind fun found => ?_
    exact agree_ite _ (agree_pure _ _) (agree_refuse _ _)
  have harray : Agree R readArray readArray := by
    refine (h .int).bind fun found => ?_
    split
    · refine agree_ite _ (agree_pure _ _) (agree_ite _ (agree_pure _ _) ?_)
      exact (hannounced _).map _
    · exact agree_pure _ _
  cases r with
  | value fallback wanted => exact (hor fallback wanted).map _
  | ofKind wanted => exact (hor _ wanted).map _
  | array => exact harray.map _
  | arrayOf length =>
    refine Agree.map (harray.bind fun found => ?_) _
    split
    · exact agree_ite _ (agree_pure _ _) (agree_refuse _ _)
    · exact agree_refuse _ _
  | token interface =>
    refine Agree.map ((h .int).bind fun _ => (h .string).bind fun found => ?_) _
    exact agree_ite _ (agree_refuse _ _) (agree_pure _ _)

section
variable {I : Buffer → Prop} {allowed : Fault → Prop}
  (h : ∀ wanted, Within I allowed (next wanted))
include h

theorem readOr_within (fallback : Value) (wanted : Tag) : Within I allowed (readOr fallback wanted) :=
  (h wanted).map _

theorem readArray_within : Within I allowed readArray := by
  refine (h .int).andThen fun found => ?_
  split
  · refine within_ite _ (within_pure _) (within_ite _ (within_pure _) (Within.map ?_ _))
    exact (h .byteArray).andThen fun found => within_ite _ (within_pure _) (within_refuse _)
  · exact within_pure _

theorem readArrayOf_within (length : Nat) : Within I allowed (readArrayOf length) := by
  refine (readArray_within h).andThen fun found => ?_
  split
  · exact within_ite _ (within_pure _) (within_refuse _)
  · exact within_refuse _

theorem enforce_within (interface : String) : Within I allowed (enforce interface) :=
  (h .int).andThen fun _ => (h .string).andThen fun _ => within_ite _ (within_refuse _) (within_pure _)

theorem Reading.within (r : Reading) : Within I allowed r.run := by
  cases r with
  | value fallback wanted => exact (readOr_within h fallback wanted).map _
  | ofKind wanted => exact (readOr_within h _ wanted).map _
  | array => exact (readArray_within h).map _
  | arrayOf length => exact (readArrayOf_within h length).map _
  | token interface => exact (enforce_within h interface).map _

end

theorem Steady.edit_agree (hR : Steady R) (hu : Hidden upkeep) (hu' : Hidden upkeep') (e : Edit) :
    Agree R (e.runThen upkeep) (e.runThen upkeep') := by
  cases e with
  | write size value => exact (hR.write_agree hu hu' size value).map _
  | seek position => exact (hR.seek_agree position).map _
  | resize size => exact (hR.resize_agree size).map _
  | reserve capacity => exact (hR.reserve_agree capacity).map _
  | clear => exact hR.clear_agree.map _
  | read r => exact r.agree hR.next_agree

theorem Edit.run_agree (e : Edit) : Agree Alike e.run e.run := by
  have h := steady_alike.edit_agree hidden_tidy hidden_tidy e
  rwa [e.runThen_tidy] at h

theorem Steady.put_agree (hR : Steady R) (hu : Hidden upkeep) (hu' : Hidden upkeep') (item : Item) :
    Agree R (putThen upkeep item) (putThen upkeep' item) := by
  have hw (v : Value) : Agree R (writeThen upkeep v.size v) (writeThen upkeep' v.size v) :=
    hR.write_agree hu hu' v.size v
  exact agree_ite _ (agree_refuse _ _) (Agree.each hw item.values)

theorem Steady.putArray_agree (hR : Steady R) (hu : Hidden upkeep) (hu' : Hidden upkeep')
    (bytes : Option (List UInt8)) (offset length : Nat) :
    Agree R (putArrayThen upkeep bytes offset length) (putArrayThen upkeep' bytes offset length) := by
  unfold putArrayThen
  split
  · exact hR.put_agree hu hu' _
  · split
    · exact agree_refuse _ _
    · exact hR.put_agree hu hu' _

theorem Steady.cells_agree (hR : Steady R) : Agree R (inspect Buffer.cells) (inspect Buffer.cells) :=
  agree_inspect fun _ _ h => (hR.alike h).cellsFrom 0

theorem Steady.encode_agree (hR : Steady R) : Agree R encode encode := by
  refine (hR.cells_agree.mapError _).bind fun cells => ?_
  refine (agree_apart _ _ _).bind fun sink => ?_
  exact (agree_emit _ _).bind fun _ => agree_pure _ _

theorem Steady.call_agree (hR : Steady R) (hu : Hidden upkeep) (hu' : Hidden upkeep') (call : Call)
    (hs : ∀ s, call = .paste s → s.Sound) : Agree R (call.runThen upkeep) (call.runThen upkeep') := by
  cases call with
  | edit e => exact ((hR.edit_agree hu hu' e).mapError _).map _
  | put item => exact ((hR.put_agree hu hu' item).mapError _).map _
  | putArray bytes offset length =>
    exact ((hR.putArray_agree hu hu' bytes offset length).mapError _).map _
  | paste s => exact ((hR.paste_agree (hs s rfl)).mapError _).map _
  | available =>
    refine Agree.map (Agree.mapError (agree_inspect fun b c h => ?_) _) _
    rw [(hR.alike h).size, (hR.alike h).position]
  | cellAt offset =>
    refine Agree.map (Agree.mapError (agree_inspect fun b c h => ?_) _) _
    have hal := hR.alike h
    rw [hal.left.cellAt_eq, hal.right.cellAt_eq, hal.owner.cell]
  | cells => exact (hR.cells_agree.mapError _).map _
  | encode => exact hR.encode_agree.map _

theorem Call.run_agree (call : Call) (hs : ∀ s, call = .paste s → s.Sound) :
    Agree Alike call.run call.run := by
  have h := steady_alike.call_agree hidden_tidy hidden_tidy call hs
  rwa [call.runThen_tidy] at h

theorem answers_agree (h : b.Alike c) (calls : List Call) (hs : ∀ s, .paste s ∈ calls → s.Sound) :
    (answers b calls).1 = (answers c calls).1 ∧ (answers b calls).2.Alike (answers c calls).2 := by
  induction calls generalizing b c with
  | nil => exact ⟨rfl, h⟩
  | cons call calls ih =>
    obtain ⟨hr, ht⟩ := call.run_agree (fun s hc => hs s (hc ▸ List.mem_cons_self)) b c h
    obtain ⟨hrest, hlast⟩ := ih ht fun s hc => hs s (List.mem_cons_of_mem call hc)
    refine ⟨?_, hlast⟩
    change _ :: _ = _ :: _
    rw [hr, hrest]

end Buffer

end Parcel
