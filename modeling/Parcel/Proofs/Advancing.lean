import Parcel.Proofs.Faults
import Parcel.Proofs.Reposition

/-!
Reads and the cursor.
-/
namespace Parcel.Buffer
open Parcel.Action

/-- How a read of one cell ends, and where it leaves the cursor. -/
inductive Ending (b : Buffer) (wanted : Tag) : Except (Failure Error) (Option Value) → Nat → Prop
  | stored (h : b.Intact b.position cell) (ht : cell.value.tag = wanted) :
    Ending b wanted (.ok (some cell.value)) (b.position + cell.size.toNat)
  | mismatched (h : b.Intact b.position cell) (ht : cell.value.tag ≠ wanted) :
    Ending b wanted (.error (.refused (.typeMismatch b.position wanted cell.value.tag)))
      (b.position + cell.size.toNat)
  | atEnd (he : b.position = b.size) (hd : ¬ b.Due) : Ending b wanted (.ok none) b.position
  | due (he : b.position = b.size) (hd : b.Due) :
    Ending b wanted (.error (.refused (.missingReposition b.position))) b.position
  | bare (h : b.position < b.size) (hn : b.cellAt b.position = .ok none) :
    Ending b wanted (.error (.refused (.uninitializedRead b.position))) b.position
  | torn (hc : b.cellAt b.position = .ok (some cell)) (hn : ¬ b.Intact b.position cell)
    {found : Option String} {offset : Nat} :
    Ending b wanted (.error (.refused (.tornRead (some wanted) b.position cell.value.text cell.size
      found offset))) b.position

/-- The read met a cell and passed over it, whether it was of the kind that was wanted or not. -/
def PassedOver : Except (Failure Error) (Option Value) → Prop
  | .ok (some _) | .error (.refused (.typeMismatch ..)) => True
  | _ => False

/-- Only the cursor has moved, and not back. -/
structure Onto (b c : Buffer) : Prop where
  rest : c = { b with position := c.position }
  onward : b.position ≤ c.position
  within : c.position ≤ b.size

/-- The read gives a value that is stored, and not its fallback. -/
def finds (b : Buffer) (wanted : Tag) : Bool :=
  match (next wanted b).result with
  | .ok (some _) => true
  | _ => false

/-- How many of the reads, each with its fallback and the kind it wants, give a stored value. They are made
one after the other, whether they fail or not. -/
def findings (b : Buffer) : List (Value × Tag) → Nat
  | [] => 0
  | (fallback, wanted) :: reads =>
    (b.finds wanted).toNat + (readOr fallback wanted b).state.findings reads

variable {b c d : Buffer} {cell : Cell} {wanted : Tag} {found : Except (Failure Error) (Option Value)}

theorem Onto.refl (hb : b.Sound) : b.Onto b := ⟨rfl, Nat.le_refl _, hb.cursor⟩

theorem Onto.trans (h : b.Onto c) (h' : c.Onto d) : b.Onto d := by
  obtain ⟨hc, honward, -⟩ := h
  obtain ⟨hd, honward', hwithin'⟩ := h'
  rw [hc] at hd hwithin'
  exact ⟨hd, Nat.le_trans honward honward', hwithin'⟩

/-- The cursor stays where it is or moves on from within the data, so it leaves no flag behind that would
speak of the end of the data. -/
theorem Onto.sound (h : b.Onto c) (hb : b.Sound) : c.Sound := by
  obtain ⟨hc, honward, hwithin⟩ := h
  rw [hc]
  by_cases hp : b.position = c.position
  · rw [← hp]
    exact hb
  · have hlt : b.position < b.size := by omega
    exact hb.read_to hlt hwithin

theorem Onto.rules (h : b.Onto c) : c.rules = b.rules := by
  rw [h.rest]

theorem Sound.cellAt_intact (hb : b.Sound) (h : b.Intact start cell) :
    b.cellAt start = .ok (some cell) := by
  obtain ⟨hpos, id, ho⟩ := hb.intact_iff.mp h
  have hstart : b.owner start = some (id, cell) := ho 0 hpos
  rw [hb.cellAt_eq, Owners.cell_of_eq hstart]

theorem Sound.word_le (hb : b.Sound) (h : b.cellAt start = .ok (some cell)) : 4 ≤ cell.size.toNat := by
  rw [hb.cellAt_eq] at h
  obtain ⟨id, ho⟩ := Owners.exists_of_cell (Except.ok.inj h)
  obtain ⟨hpos, hwords⟩ := hb.storage.padded_of_owner ho
  omega

theorem Ending.unbroken (h : b.Ending wanted found stop) : Unbroken found := by
  cases h with
  | stored | atEnd => exact unbroken_ok _
  | mismatched | due | bare | torn => exact unbroken_refused _

theorem Ending.stays (h : b.Ending wanted found stop) (hn : ¬ PassedOver found) :
    stop = b.position := by
  cases h with
  | stored | mismatched => exact absurd trivial hn
  | atEnd | due | bare | torn => rfl

section
variable (hb : b.Sound) (hm : b.rules.maxCapacity.toNat < Size.largest)
include hb

/-- A cell is passed over up to its end, and nowhere else does the cursor come to stand behind one. -/
theorem Ending.passedOver_iff (h : b.Ending wanted found stop) : PassedOver found ↔
    ∃ cell, b.cellAt b.position = .ok (some cell) ∧ stop = b.position + cell.size.toNat := by
  constructor
  · intro hp
    cases h with
    | stored h | mismatched h => exact ⟨_, hb.cellAt_intact h, rfl⟩
    | atEnd | due | bare | torn => exact absurd hp id
  · rintro ⟨cell, hat, hstop⟩
    apply Classical.byContradiction
    intro hn
    have hstay := h.stays hn
    have hword := hb.word_le hat
    omega

theorem Ending.word_le (h : b.Ending wanted found stop) (hp : PassedOver found) :
    b.position + 4 ≤ stop := by
  obtain ⟨cell, hat, rfl⟩ := (h.passedOver_iff hb).mp hp
  exact Nat.add_le_add_left (hb.word_le hat) _

include hm

theorem Sound.ending (wanted : Tag) : ∃ found stop, b.Ending wanted found stop ∧
    (next wanted).Yields b found { b with position := stop } := by
  by_cases he : b.size ≤ b.position
  · have hend := Nat.le_antisymm hb.cursor he
    by_cases hd : b.Due
    · exact ⟨_, _, .due hend hd, next_due hd he wanted⟩
    · exact ⟨_, _, .atEnd hend hd, next_at_end hd he wanted⟩
  · have hlt := Nat.lt_of_not_le he
    rcases hb.wholeCell_outcome b.position with ⟨hat, hbare⟩ | ⟨cell, hat, hwhole | ⟨text, offset, htorn⟩⟩
    · exact ⟨_, _, .bare hlt hat, next_error (peek_error hlt (hbare _))⟩
    · have hintact := (hb.wholeCell_ok_iff_intact hm _).mp (hwhole (some wanted))
      have hn := next_some (hb.peek_ok hm hlt (hwhole (some wanted)))
      by_cases ht : cell.value.tag = wanted
      · rw [if_pos ht] at hn
        exact ⟨_, _, .stored hintact ht, hn⟩
      · rw [if_neg ht] at hn
        exact ⟨_, _, .mismatched hintact ht, hn⟩
    · have hbroken : ¬ b.Intact b.position cell := by
        intro hintact
        have hw := (hb.wholeCell_ok_iff_intact hm none).mpr hintact
        cases (htorn none).symm.trans hw
      exact ⟨_, _, .torn hat hbroken, next_error (peek_error hlt (htorn _))⟩

theorem Ending.stop_le (h : b.Ending wanted found stop) : stop ≤ b.size := by
  cases h with
  | stored h | mismatched h => exact hb.stop_le hm ((hb.wholeCell_ok_iff_intact hm none).mpr h)
  | atEnd | due | bare | torn => exact hb.cursor

theorem Ending.onto (h : b.Ending wanted found stop) : b.Onto { b with position := stop } where
  rest := rfl
  onward := by
    by_cases hp : PassedOver found
    · exact Nat.le_trans (Nat.le_add_right _ 4) (h.word_le hb hp)
    · exact Nat.le_of_eq (h.stays hp).symm
  within := h.stop_le hb hm

/-- Wherever in the data the cursor stands, a read of one cell moves it on. -/
theorem Sound.next_onto (wanted : Tag) : Within b.Onto (fun _ => False) (next wanted) := by
  intro c hc
  have hsound := hc.sound hb
  have hlimit := hc.rules ▸ hm
  obtain ⟨found, stop, he, hy⟩ := hsound.ending hlimit wanted
  refine ⟨?_, fun f hf => he.unbroken f (hy.result.symm.trans hf)⟩
  rw [hy.state]
  exact hc.trans (he.onto hsound hlimit)

theorem Sound.readArrayInto_onto (dest : List UInt8) : b.Onto (readArrayInto (b, dest)).state.1 := by
  have harray (length : Nat) : Within b.Onto (fun _ => False) (readArrayOf length) :=
    readArrayOf_within (hb.next_onto hm) length
  have hinto : Within (fun s : Buffer × List UInt8 => b.Onto s.1) (fun _ => False) readArrayInto := by
    apply (within_gets _).andThen
    intro dest
    apply (within_first (harray dest.length)).andThen
    intro bytes
    exact within_modify fun _ hs => hs
  exact (hinto (b, dest) (.refl hb)).state

end

theorem Sound.findings_le (hb : b.Sound) (hm : b.rules.maxCapacity.toNat < Size.largest)
    (reads : List (Value × Tag)) : 4 * b.findings reads ≤ b.size - b.position := by
  induction reads generalizing b with
  | nil => exact Nat.zero_le _
  | cons read reads ih =>
    obtain ⟨fallback, wanted⟩ := read
    obtain ⟨found, stop, he, hy⟩ := hb.ending hm wanted
    have hread : (readOr fallback wanted b).state = { b with position := stop } :=
      (hy.map_any (·.getD fallback)).state
    have hsound : Buffer.Sound { b with position := stop } := (he.onto hb hm).sound hb
    have hrest : 4 * findings { b with position := stop } reads ≤ b.size - stop := ih hsound hm
    have hle := he.stop_le hb hm
    have hone := (b.finds wanted).toNat_le
    rw [findings, hread]
    by_cases hp : PassedOver found
    · have hword := he.word_le hb hp
      omega
    · have hstay := he.stays hp
      have hnone : b.finds wanted = false := by
        rw [finds, hy.result]
        cases he with
        | stored | mismatched => exact absurd trivial hp
        | atEnd | due | bare | torn => rfl
      rw [hnone, Bool.toNat_false]
      omega

/-- Whatever comes of a read, nothing but the cursor has moved, onward and within the data. A read of one
cell moves it behind the cell if it gives the value that is stored there or refuses it for its kind, and
otherwise lets it stay; so reads of one cell find no more values than there are words in the data. -/
theorem reads_advance (h : Reachable b) (small : b.rules.maxCapacity.toNat ≤ 2147483648) :
    ((∀ r : Reading, b.Onto (r.run b).state) ∧ ∀ dest, b.Onto (readArrayInto (b, dest)).state.1) ∧
    (∀ wanted, ∃ found stop, b.Ending wanted found stop ∧
      (∀ fallback, (readOr fallback wanted).Yields b (found.map (·.getD fallback))
        { b with position := stop }) ∧
      (PassedOver found ↔
        ∃ cell, b.cellAt b.position = .ok (some cell) ∧ stop = b.position + cell.size.toNat) ∧
      (PassedOver found → b.position + 4 ≤ stop) ∧ (¬ PassedOver found → stop = b.position)) ∧
    ∀ reads, b.findings reads ≤ b.size / 4 := by
  have hb := h.sound
  have hm : b.rules.maxCapacity.toNat < Size.largest := Nat.lt_of_le_of_lt small (by decide)
  refine ⟨⟨fun r => ?_, hb.readArrayInto_onto hm⟩, fun wanted => ?_, fun reads => ?_⟩
  · exact (r.within (hb.next_onto hm) b (.refl hb)).state
  · obtain ⟨found, stop, he, hy⟩ := hb.ending hm wanted
    exact ⟨found, stop, he, fun fallback => hy.map_any _, he.passedOver_iff hb, he.word_le hb, he.stays⟩
  · have hle := hb.findings_le hm reads
    omega

/-- A mismatch takes the reader on to the next cell, and at the end of the data nothing more is found. -/
theorem reads_advance_mismatch :
    let b := ((Call.edit (.seek 0)).run ((Call.put (.long 7)).run
      ((Call.put (.int 5)).run (empty { maxCapacity := 64 })).state).state).state
    b.Onto ((Reading.token "a").run b).state ∧
      (readOr (.long 0) .long).Yields b (.error (.refused (.typeMismatch 0 .long .int)))
        { b with position := 4 } ∧
      b.findings [(.long 0, .long), (.long 0, .long), (.long 0, .long)] = 1 ∧
      b.findings [(.long 0, .long), (.long 0, .long), (.long 0, .long)] ≤ b.size / 4 := by
  intro b
  have hint := (Reachable.empty { maxCapacity := 64 }).call (.put (.int 5)) (by simp)
  have hlong := hint.call (.put (.long 7)) (by simp)
  have h : Reachable b := hlong.call (.edit (.seek 0)) (by simp)
  obtain ⟨⟨honto, -⟩, -, hfindings⟩ := reads_advance h (by decide)
  exact ⟨honto _, ⟨rfl, rfl⟩, by decide, hfindings _⟩

end Parcel.Buffer
