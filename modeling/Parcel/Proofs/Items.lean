import Parcel.Proofs.Reachable
import Parcel.Proofs.Writes

/-!
Items that are written one after the other and read back. Whatever stood there before, what is written
lies behind the place where the writing began as whole cells in a row, and readers that go along the row
find what the writers put there.
-/
namespace Parcel

theorem Size.padded_ne_zero {n : UInt32} (h : n ≠ 0) : padded n ≠ 0 := by
  rw [toNat_ne_zero] at h ⊢
  rw [toNat_padded, aligned]
  omega

/-- The bytes that a string takes, and the length word before them. -/
def Size.textExtent (s : String) : Nat := aligned (4 + 2 * (Text.units16 s + 1))

theorem Size.toNat_text (s : String) :
    (text (some s)).toNat = min (4 + 2 * (Text.units16 s + 1)) largest := by
  rw [text, UInt32.toNat_ofNat_of_lt' (by simp only [UInt32.size, largest]; omega)]

/-- Only a string beyond every limit is given less than it needs. -/
theorem Size.padded_text {s : String} (h : (padded (text (some s))).toNat ≤ 2147483648) :
    (padded (text (some s))).toNat = textExtent s := by
  rw [toNat_padded, toNat_text, aligned, largest] at h ⊢
  rw [textExtent, aligned]
  omega

theorem Size.padded_word : (padded word).toNat = 4 := by decide

/-- The cell that a value is written as. -/
def Value.cell (v : Value) : Cell := (Cell.mk v.size v).rounded

theorem Cell.extent_value (v : Value) : extent [v.cell] = (Size.padded v.size).toNat := by
  rw [extent_cons, extent_nil, Nat.add_zero]
  rfl

theorem Cell.extent_int (n : Int32) : extent [(Value.int n).cell] = 4 :=
  (extent_value _).trans Size.padded_word

/-- The typed writes. A byte array is a part of some bytes, or absent. -/
inductive Writing
  | item (item : Item)
  | array (bytes : Option (List UInt8)) (offset length : Nat)
deriving DecidableEq

namespace Item
open Buffer (Reading Answer)

/-- The bytes that an item takes. -/
def extent : Item → Nat
  | byte _ | int _ | float _ => 4
  | long _ | double _ => 8
  | binder _ => 20
  | string none => 4
  | string (some s) => Size.textExtent s
  | array none => 4
  | array (some bytes) => 4 + Size.aligned bytes.length
  | token interface => 4 + Size.textExtent interface

/-- The read that goes with the write of an item. -/
def reading : Item → Reading
  | byte _ => .ofKind .byte
  | int _ => .ofKind .int
  | long _ => .ofKind .long
  | float _ => .ofKind .float
  | double _ => .ofKind .double
  | string _ => .ofKind .string
  | binder _ => .ofKind .binder
  | array _ => .array
  | token interface => .token interface

/-- What that read gives when it finds the item. -/
def answer : Item → Answer
  | byte v => .value (.byte v)
  | int v => .value (.int v)
  | long v => .value (.long v)
  | float bits => .value (.float bits)
  | double bits => .value (.double bits)
  | string s => .value (.string s)
  | binder ref => .value (.binder ref)
  | array bytes => .bytes bytes
  | token _ => .done

/-- The cells that the item is written as. -/
def cells (item : Item) : List Cell := item.values.map Value.cell

variable {item : Item}

theorem toNat_size_byteArray {bytes : List UInt8} (h : bytes.length ≤ longestArray) :
    (Value.byteArray bytes).size.toNat = bytes.length :=
  UInt32.toNat_ofNat_of_lt' (Nat.lt_of_le_of_lt h (by decide))

/-- An item has no cell without bytes, and the sizes of its cells add up to what it takes. -/
theorem size_ne_zero (h : item.arrayLength ≤ longestArray) : ∀ v ∈ item.values, v.size ≠ 0 := by
  have htext (s : String) : Size.text (some s) ≠ 0 := by
    rw [Size.toNat_ne_zero, Size.toNat_text, Size.largest]
    omega
  have hword : Size.word ≠ 0 := by decide
  cases item with
  | byte | int | float => exact List.forall_mem_singleton.mpr hword
  | long | double | binder => exact List.forall_mem_singleton.mpr (of_decide_eq_true rfl)
  | string s =>
    cases s with
    | none => exact List.forall_mem_singleton.mpr hword
    | some s => exact List.forall_mem_singleton.mpr (htext s)
  | array bytes =>
    rcases bytes with _ | _ | ⟨n, bytes⟩
    · exact List.forall_mem_singleton.mpr hword
    · exact List.forall_mem_singleton.mpr hword
    · refine List.forall_mem_cons.mpr ⟨hword, List.forall_mem_singleton.mpr ?_⟩
      rw [Size.toNat_ne_zero, toNat_size_byteArray h]
      exact Nat.succ_pos _
  | token interface =>
    exact List.forall_mem_cons.mpr ⟨hword, List.forall_mem_singleton.mpr (htext interface)⟩

/-- The cells of an item cover what the item takes, unless they lie beyond every limit. -/
theorem extent_cells (h : item.arrayLength ≤ longestArray)
    (hsmall : Cell.extent item.cells ≤ 2147483648) : Cell.extent item.cells = item.extent := by
  have hlong : (Size.padded Size.longWord).toNat = 8 := by decide
  have hbinder : (Size.padded Size.binder).toNat = 20 := by decide
  have hone (v : Value) : Cell.extent [v.cell] = (Size.padded v.size).toNat := Cell.extent_value v
  have htwo (n : Int32) (v : Value) :
      Cell.extent [(Value.int n).cell, v.cell] = 4 + (Size.padded v.size).toNat := by
    rw [Cell.extent_cons, hone]
    exact congrArg (· + (Size.padded v.size).toNat) Size.padded_word
  cases item with
  | byte | int | float => exact (hone _).trans Size.padded_word
  | long | double => exact (hone _).trans hlong
  | binder => exact (hone _).trans hbinder
  | string s =>
    have hs := hone (.string s)
    cases s with
    | none => exact hs.trans Size.padded_word
    | some s => exact hs.trans (Size.padded_text (hs ▸ hsmall))
  | array bytes =>
    rcases bytes with _ | _ | ⟨n, bytes⟩
    · exact Cell.extent_int _
    · exact Cell.extent_int _
    · refine (htwo _ _).trans (congrArg (4 + ·) ?_)
      change (n :: bytes).length ≤ 2147483647 at h
      rw [Size.toNat_padded, toNat_size_byteArray h, Size.aligned]
      omega
  | token interface =>
    have hs := htwo 0 (.string (some interface))
    refine hs.trans (congrArg (4 + ·) (Size.padded_text ?_))
    exact Nat.le_trans (Nat.le_add_left _ 4) (hs ▸ hsmall)

end Item

namespace Writing
open Buffer (Call)

/-- The item that is written. -/
def written : Writing → Item
  | item i => i
  | array bytes offset length => .array (bytes.map fun bytes => (bytes.drop offset).take length)

def call : Writing → Call
  | item i => .put i
  | array bytes offset length => .putArray bytes offset length

/-- What the call does to a buffer. -/
def run : Writing → Action Buffer Error Unit
  | item i => Buffer.put i
  | array bytes offset length => Buffer.putArray bytes offset length

/-- Of an array no more is written than there is. -/
def InRange : Writing → Prop
  | item _ | array none _ _ => True
  | array (some bytes) offset length => offset + length ≤ bytes.length

/-- A part of some bytes is written as those bytes alone would be. -/
theorem run_of_inRange {w : Writing} (h : w.InRange) : w.run = Buffer.put w.written := by
  cases w with
  | item item => rfl
  | array bytes offset length =>
    cases bytes with
    | none => rfl
    | some bytes =>
      have hslice : Bytes.slice? bytes offset length = some ((bytes.drop offset).take length) :=
        if_pos h
      simp only [run, Buffer.putArray, hslice]
      rfl

theorem run_of_not_inRange {w : Writing} (h : ¬ w.InRange) : ∃ e, w.run = Action.refuse e := by
  cases w with
  | item item => exact absurd trivial h
  | array bytes offset length =>
    cases bytes with
    | none => exact absurd trivial h
    | some bytes =>
      have hslice : Bytes.slice? bytes offset length = none := if_neg h
      simp only [run, Buffer.putArray, hslice]
      exact ⟨_, rfl⟩

theorem call_run (w : Writing) : w.call.run = Buffer.refusing (fun _ => .done) w.run := by
  cases w <;> rfl

/-- The call that reads back what was written. -/
def reread (w : Writing) : Call := .edit (.read w.written.reading)

/-- The cells of all that is written. -/
def cells (writings : List Writing) : List Cell := writings.flatMap fun w => w.written.cells

theorem cells_cons (w : Writing) (writings : List Writing) :
    cells (w :: writings) = w.written.cells ++ cells writings := List.flatMap_cons

/-- The bytes that all that is written takes. -/
def extent : List Writing → Nat
  | [] => 0
  | w :: writings => w.written.extent + extent writings

end Writing

namespace Buffer
open Parcel.Action Owners

variable {b s t : Buffer} {cell : Cell} {done cells : List Cell} {v : Value} {values : List Value}
  {item : Item} {rules : Rules}

theorem ok_of_refusing {m : Action Buffer Error α} {answer : α → Answer}
    (h : (refusing answer m s).result = .ok r) : ∃ a, (m s).result = .ok a ∧ answer a = r := by
  obtain ⟨a, hm, ha⟩ := ok_of_bind h
  exact ⟨a, ok_of_mapError hm, Except.ok.inj ha⟩

theorem yields_refusing {m : Action Buffer Error α} (h : m.Yields s (.ok a) t)
    (answer : α → Answer) : (refusing answer m).Yields s (.ok (answer a)) t :=
  (h.mapError Marshal.Error.buffer).map answer

/-- Writes of values are writes of the cells with as many bytes as the values need. -/
theorem each_writeValue : each writeValue = writeAll fun v => ⟨v.size, v⟩ := rfl

theorem Trail.writeValues_of_room (ht : s.Trail rules start done) (h0 : ∀ v ∈ values, v.size ≠ 0)
    (hfit : s.position + Cell.extent (values.map Value.cell) ≤ rules.maxCapacity.toNat) :
    ∃ t, (each writeValue values).Yields s (.ok ()) t ∧
      t.Trail rules start (done ++ values.map Value.cell) := by
  have hle : s.position + Cell.extent (cellsOf (fun v => ⟨v.size, v⟩) values) ≤
      rules.maxCapacity.toNat := hfit
  obtain ⟨t, hy, htt, -⟩ := ht.writeAll (fun v hv => Size.padded_ne_zero (h0 v hv)) hle
  exact ⟨t, hy, htt⟩

theorem Trail.writeValues (ht : s.Trail rules start done) (h0 : ∀ v ∈ values, v.size ≠ 0)
    (h : (each writeValue values s).result = .ok ()) :
    ∃ t, (each writeValue values).Yields s (.ok ()) t ∧
      t.Trail rules start (done ++ values.map Value.cell) := by
  rw [each_writeValue] at h ⊢
  rcases writeAll_outcome ht.sound (fun v => ⟨v.size, v⟩) values with
    ⟨u, -, hsu, hru, hpu⟩ | ⟨kept, v, u, hstop⟩
  · have hle := (trail_start hsu).position_le
    rw [hpu, hru, ht.rules] at hle
    exact ht.writeValues_of_room h0 hle
  · cases hstop.refused.result.symm.trans h

theorem put_eq (h : item.arrayLength ≤ Item.longestArray) :
    put item = each writeValue item.values := if_neg (Nat.not_lt.mpr h)

theorem Trail.put (ht : s.Trail rules start done) (h : (put item s).result = .ok ()) :
    item.arrayLength ≤ Item.longestArray ∧
      ∃ t, (Buffer.put item).Yields s (.ok ()) t ∧ t.Trail rules start (done ++ item.cells) := by
  by_cases hlen : item.arrayLength ≤ Item.longestArray
  · rw [put_eq hlen] at h ⊢
    exact ⟨hlen, ht.writeValues (Item.size_ne_zero hlen) h⟩
  · unfold Buffer.put at h
    rw [if_pos (Nat.lt_of_not_le hlen)] at h
    cases h

theorem Trail.call {w : Writing} (ht : s.Trail rules start done)
    (h : (w.call.run s).result = .ok .done) :
    w.written.arrayLength ≤ Item.longestArray ∧
      ∃ t, w.call.run.Yields s (.ok .done) t ∧ t.Trail rules start (done ++ w.written.cells) := by
  rw [w.call_run] at h ⊢
  obtain ⟨⟨⟩, hput, -⟩ := ok_of_refusing h
  by_cases hw : w.InRange
  · rw [Writing.run_of_inRange hw] at hput ⊢
    obtain ⟨hlen, t, hy, htt⟩ := ht.put hput
    exact ⟨hlen, t, yields_refusing hy _, htt⟩
  · obtain ⟨e, he⟩ := Writing.run_of_not_inRange hw
    rw [he] at hput
    cases hput

theorem answers_cons {call : Call} (h : call.run.Yields s r t) (calls : List Call) :
    answers s (call :: calls) = (r :: (answers t calls).1, (answers t calls).2) := by
  rw [answers, h.state, h.result]

theorem Trail.answers {writings : List Writing} (ht : s.Trail rules start done)
    (h : ∀ r ∈ (answers s (writings.map Writing.call)).1, r = .ok .done) :
    (∀ w ∈ writings, w.written.arrayLength ≤ Item.longestArray) ∧
      (answers s (writings.map Writing.call)).2.Trail rules start (done ++ Writing.cells writings) := by
  induction writings generalizing s done with
  | nil => exact ⟨List.forall_mem_nil _, by rwa [Writing.cells, List.flatMap_nil, List.append_nil]⟩
  | cons w writings ih =>
    obtain ⟨hw, hrest⟩ := List.forall_mem_cons.mp h
    obtain ⟨hlen, t, hy, htt⟩ := ht.call hw
    rw [hy.state] at hrest
    obtain ⟨hlens, hlast⟩ := ih htt hrest
    rw [List.map_cons, answers_cons hy, Writing.cells_cons, ← List.append_assoc]
    exact ⟨List.forall_mem_cons.mpr ⟨hlen, hlens⟩, hlast⟩

/-- The buffer with the cursor `n` bytes on. -/
def passed (s : Buffer) (n : Nat) : Buffer := { s with position := s.position + n }

theorem passed_passed (s : Buffer) (m n : Nat) : (s.passed m).passed n = s.passed (m + n) :=
  congrArg (fun p => { s with position := p }) (Nat.add_assoc _ _ _)

/-- From the cursor on lie these cells, one behind the other. -/
structure Ahead (s : Buffer) (cells : List Cell) : Prop where
  sound : s.Sound
  small : s.rules.maxCapacity.toNat < Size.largest
  laid : ∃ stop, s.owner.Laid s.position cells stop

/-- The next cell is read, and the others lie ahead then. -/
theorem Ahead.next (h : s.Ahead (cell :: cells)) :
    (next cell.value.tag).Yields s (.ok (some cell.value)) (s.passed cell.size.toNat) ∧
      (s.passed cell.size.toNat).Ahead cells := by
  obtain ⟨stop, hpos, ⟨id, ho⟩, hrest⟩ := h.laid
  have hlt := h.sound.lt_size (ho 0 hpos)
  have hw := (h.sound.wholeCell_ok_iff_whole h.small (some cell.value.tag)).mpr ⟨hpos, id, ho⟩
  have hn := next_some (h.sound.peek_ok h.small hlt hw)
  rw [if_pos rfl] at hn
  exact ⟨hn, h.sound.read_to hlt (h.sound.stop_le h.small hw), h.small, stop, hrest⟩

theorem Ahead.value (h : s.Ahead (v.cell :: cells)) :
    (Buffer.next v.tag).Yields s (.ok (some v)) (s.passed v.cell.size.toNat) := h.next.1

theorem Ahead.read (h : s.Ahead (v.cell :: cells)) :
    (Reading.ofKind v.tag).run.Yields s (.ok (.value v)) (s.passed v.cell.size.toNat) :=
  (readOr_yields h.value (Value.zero v.tag)).map Answer.value

theorem toInt_ofNat_length {bytes : List UInt8} (h : bytes.length ≤ Item.longestArray) :
    (Int32.ofNat bytes.length).toInt = bytes.length :=
  Int32.toInt_ofNat_of_lt (Nat.lt_of_le_of_lt h (by decide))

/-- A byte array of at least one byte announces a length that stands for nothing else. -/
theorem Ahead.readArray {bytes : List UInt8} {n : Int32} {size size' : UInt32} (hne : bytes ≠ [])
    (hn : n.toInt = bytes.length) (h : s.Ahead (⟨size, .int n⟩ :: ⟨size', .byteArray bytes⟩ :: cells)) :
    Buffer.readArray.Yields s (.ok (some bytes)) ((s.passed size.toNat).passed size'.toNat) := by
  have hpos := List.length_pos_iff.mpr hne
  have habsent : n ≠ Item.absent := by
    rintro rfl
    have : Item.absent.toInt = -1 := rfl
    omega
  have hzero : n ≠ 0 := by
    rintro rfl
    have : (0 : Int32).toInt = 0 := rfl
    omega
  refine h.next.1.bind ?_
  dsimp only
  rw [if_neg habsent, if_neg hzero]
  refine Yields.map (h.next.2.next.1.bind ?_) some
  dsimp only
  rw [if_pos hn.symm]
  exact yields_pure _ _

/-- An int, whatever its number, and a string behind it, and all depends on the string. -/
theorem Ahead.enforce {n : Int32} {named : Option String} {size size' : UInt32} (interface : String)
    (h : s.Ahead (⟨size, .int n⟩ :: ⟨size', .string named⟩ :: cells)) :
    (Buffer.enforce interface).Yields s
      (if named = some interface then .ok ()
        else .error (.refused (.interfaceMismatch interface named)))
      ((s.passed size.toNat).passed size'.toNat) := by
  refine h.next.1.bind (h.next.2.next.1.bind ?_)
  dsimp only
  by_cases hnamed : named = some interface
  · rw [if_neg (not_not_intro hnamed), if_pos hnamed]
    exact yields_pure _ _
  · rw [if_pos hnamed, if_neg hnamed]
    exact yields_refuse _ _

theorem Ahead.drop {done : List Cell} (h : s.Ahead (done ++ cells)) :
    (s.passed (Cell.extent done)).Ahead cells := by
  induction done generalizing s with
  | nil => exact h
  | cons c done ih =>
    have hrest := ih h.next.2
    rwa [passed_passed, ← Cell.extent_cons] at hrest

/-- The read that goes with an item gives back the item if its cells lie ahead. -/
theorem Ahead.reading (hlen : item.arrayLength ≤ Item.longestArray) (h : s.Ahead (item.cells ++ cells)) :
    item.reading.run.Yields s (.ok item.answer) (s.passed (Cell.extent item.cells)) := by
  cases item with
  | byte | int | long | float | double | string | binder => exact h.read
  | array bytes =>
    rcases bytes with _ | _ | ⟨n, bytes⟩
    · exact (h.value.bind (yields_pure none _)).map Answer.bytes
    · exact (h.value.bind (yields_pure (some []) _)).map Answer.bytes
    · have hr := h.readArray (List.cons_ne_nil n bytes) (toInt_ofNat_length hlen)
      rw [passed_passed] at hr
      exact hr.map Answer.bytes
  | token interface =>
    have hr := Ahead.enforce interface h
    rw [if_pos rfl, passed_passed] at hr
    exact hr.map fun _ => Answer.done

theorem Ahead.answers {writings : List Writing}
    (hlen : ∀ w ∈ writings, w.written.arrayLength ≤ Item.longestArray)
    (h : s.Ahead (Writing.cells writings)) :
    answers s (writings.map Writing.reread) =
      (writings.map fun w => .ok w.written.answer, s.passed (Cell.extent (Writing.cells writings))) := by
  induction writings generalizing s with
  | nil => rfl
  | cons w writings ih =>
    obtain ⟨hw, hrest⟩ := List.forall_mem_cons.mp hlen
    rw [Writing.cells_cons] at h ⊢
    have hy : w.reread.run.Yields s (.ok w.written.answer) (s.passed (Cell.extent w.written.cells)) :=
      yields_refusing (h.reading hw) id
    have hlast := ih hrest h.drop
    rw [passed_passed, ← Cell.extent_append] at hlast
    rw [List.map_cons, List.map_cons, answers_cons hy, hlast]

/-- What was laid from a place on lies ahead once the cursor is back there. -/
theorem Trail.ahead (ht : s.Trail rules start cells) (small : rules.maxCapacity.toNat < Size.largest) :
    (seek start).Yields s (.ok ()) { s with position := start, justExtended := false } ∧
      Ahead { s with position := start, justExtended := false } cells := by
  have hle := Nat.le_trans ht.laid.le ht.sound.cursor
  exact ⟨seek_yields hle, ht.sound.seek hle, ht.rules ▸ small, _, ht.laid⟩

end Buffer

namespace Writing

theorem extent_cells {writings : List Writing}
    (hlen : ∀ w ∈ writings, w.written.arrayLength ≤ Item.longestArray)
    (hsmall : Cell.extent (cells writings) ≤ 2147483648) :
    Cell.extent (cells writings) = extent writings := by
  induction writings with
  | nil => rfl
  | cons w writings ih =>
    obtain ⟨hw, hrest⟩ := List.forall_mem_cons.mp hlen
    rw [cells_cons, Cell.extent_append] at hsmall ⊢
    rw [Item.extent_cells hw (by omega), ih hrest (by omega), extent]

end Writing

namespace Buffer

end Buffer

end Parcel
