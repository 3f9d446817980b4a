import Parcel.Proofs.Items
import Parcel.Sample

/-!
Sample buffers hold what they were filled with, as far as there is room for it, and reads by kind give it
back.
-/
namespace Parcel

/-- The cells of items one behind the other. -/
def Item.allCells (items : List Item) : List Cell := items.flatMap cells

theorem Item.allCells_cons (item : Item) (items : List Item) :
    allCells (item :: items) = item.cells ++ allCells items := List.flatMap_cons

namespace Buffer
open Parcel.Action
open Item (allCells allCells_cons)

/-- Reads a value of each of the given kinds. -/
def readValues : List Tag → Action Buffer Error (List Value)
  | [] => pure []
  | tag :: tags => do
    let v ← readValue tag
    let values ← readValues tags
    pure (v :: values)

variable {s : Buffer} {rules : Rules} {start : Nat} {done cells : List Cell} {items : List Item}
  {v : Value} {values : List Value}

theorem Ahead.readValue (hlen : (Item.ofValue v).arrayLength ≤ Item.longestArray)
    (h : s.Ahead ((Item.ofValue v).cells ++ cells)) :
    (readValue v.tag).Yields s (.ok v) (s.passed (Cell.extent (Item.ofValue v).cells)) := by
  cases v with
  | byte | int | long | float | double | string | binder => exact readOr_yields h.value _
  | byteArray bytes =>
    refine Yields.bind (a := some bytes) ?_ (yields_pure _ _)
    cases bytes with
    | nil => exact h.value.bind (yields_pure (some []) _)
    | cons n bytes =>
      have hr := h.readArray (List.cons_ne_nil n bytes) (toInt_ofNat_length hlen)
      rwa [passed_passed] at hr

theorem Ahead.readValues (hlen : ∀ v ∈ values, (Item.ofValue v).arrayLength ≤ Item.longestArray)
    (h : s.Ahead (allCells (values.map Item.ofValue))) :
    (readValues (values.map Value.tag)).Yields s (.ok values)
      (s.passed (Cell.extent (allCells (values.map Item.ofValue)))) := by
  induction values generalizing s with
  | nil => exact yields_pure [] s
  | cons v values ih =>
    obtain ⟨hv, hvs⟩ := List.forall_mem_cons.mp hlen
    rw [List.map_cons, allCells_cons] at h
    have hrest := ih hvs h.drop
    rw [passed_passed, ← Cell.extent_append] at hrest
    exact (h.readValue hv).bind (hrest.bind (yields_pure _ _))

/-- Items that there is room for are all written. -/
theorem Trail.puts (ht : s.Trail rules start done)
    (hlen : ∀ item ∈ items, item.arrayLength ≤ Item.longestArray)
    (hfit : s.position + Cell.extent (allCells items) ≤ rules.maxCapacity.toNat) :
    ∃ t, (each Buffer.put items).Yields s (.ok ()) t ∧
      t.Trail rules start (done ++ allCells items) := by
  induction items generalizing s done with
  | nil => exact ⟨s, yields_pure () s, by rwa [allCells, List.flatMap_nil, List.append_nil]⟩
  | cons item items ih =>
    obtain ⟨hitem, hitems⟩ := List.forall_mem_cons.mp hlen
    rw [allCells_cons, Cell.extent_append, ← Nat.add_assoc] at hfit
    obtain ⟨u, hu, htu⟩ := ht.writeValues_of_room (Item.size_ne_zero hitem)
      (Nat.le_trans (Nat.le_add_right _ _) hfit)
    have hput : (Buffer.put item).Yields s (.ok ()) u := put_eq hitem ▸ hu
    have hend : u.position = s.position + Cell.extent item.cells := by
      rw [← htu.laid.extent, ← ht.laid.extent, Cell.extent_append, Nat.add_assoc]
      rfl
    obtain ⟨t, hy, htt⟩ := ih htu hitems (hend ▸ hfit)
    rw [List.append_assoc] at htt
    exact ⟨t, hput.bind hy, htt⟩

end Buffer

namespace Sample
open Parcel.Action
open Item (allCells allCells_cons)

/-- The bytes that there is room for under the usual rules. -/
def room : Nat := 67108864

/-- Values that there is room for fill a buffer, and reads of their kinds give them back. -/
theorem filled_reads (values : List Value) (t : σ)
    (hlen : ∀ v ∈ values, (Item.ofValue v).arrayLength ≤ Item.longestArray)
    (hfit : Cell.extent (allCells (values.map Item.ofValue)) ≤ room) :
    ∃ b, (filled (values.map Item.ofValue)).Yields t (.ok b) t ∧ b.position = 0 ∧
      (Buffer.readValues (values.map Value.tag)).Yields b (.ok values)
        (b.passed (Cell.extent (allCells (values.map Item.ofValue)))) := by
  have hlens : ∀ item ∈ values.map Item.ofValue, item.arrayLength ≤ Item.longestArray :=
    List.forall_mem_map.mpr hlen
  have hstart : (Buffer.empty {}).Trail {} 0 [] := Buffer.trail_start (Buffer.sound_empty {})
  have hroom : ({} : Buffer.Rules).maxCapacity.toNat = room := by decide
  have hfits : (Buffer.empty {}).position + Cell.extent (allCells (values.map Item.ofValue)) ≤
      ({} : Buffer.Rules).maxCapacity.toNat := by
    rw [hroom, show (Buffer.empty {}).position = 0 from rfl, Nat.zero_add]
    exact hfit
  obtain ⟨c, hc, htc⟩ := hstart.puts hlens hfits
  have hsmall : ({} : Buffer.Rules).maxCapacity.toNat < Size.largest := by decide
  obtain ⟨hseek, hahead⟩ := htc.ahead hsmall
  exact ⟨_, (Yields.apart (hc.bind hseek) t).bind (yields_pure _ t), rfl, hahead.readValues hlen⟩

theorem extent_le {items : List Item} (h : ∀ item ∈ items, Cell.extent item.cells ≤ n) :
    Cell.extent (allCells items) ≤ n * items.length := by
  induction items with
  | nil => exact Nat.le_refl _
  | cons item items ih =>
    obtain ⟨hitem, hitems⟩ := List.forall_mem_cons.mp h
    have hrest := ih hitems
    rw [allCells_cons, Cell.extent_append, List.length_cons, Nat.mul_succ]
    omega

/-- There is a sample of every kind. -/
theorem exists_mem_values (tag : Tag) : ∃ v ∈ values, v.tag = tag := by
  cases tag <;> simp [values, Value.tag]

theorem extent_ofValue_le (v : Value) :
    Cell.extent (Item.ofValue v).cells ≤ 4 + (Size.padded v.size).toNat := by
  have hone : Cell.extent [v.cell] ≤ 4 + (Size.padded v.size).toNat := by
    rw [Cell.extent_value]
    exact Nat.le_add_left _ 4
  cases v with
  | byte | int | long | float | double | string | binder => exact hone
  | byteArray bytes =>
    cases bytes with
    | nil => exact Nat.le_trans (Nat.le_of_eq (Cell.extent_int _)) (Nat.le_add_right 4 _)
    | cons b bytes =>
      have hint := Cell.extent_int (.ofNat (b :: bytes).length)
      have hbytes := Cell.extent_value (.byteArray (b :: bytes))
      rw [← hint, ← hbytes, ← Cell.extent_append]
      exact Nat.le_refl _

theorem values_read (t : σ) : ∃ b, (filled (values.map Item.ofValue)).Yields t (.ok b) t ∧
    ((Buffer.readValues (values.map Value.tag)) b).result = .ok values := by
  have hlen : ∀ v ∈ values, (Item.ofValue v).arrayLength ≤ Item.longestArray := by decide
  have hpadded : ∀ v ∈ values, (Size.padded v.size).toNat ≤ 60 := by decide
  have hcells : ∀ item ∈ values.map Item.ofValue, Cell.extent item.cells ≤ 64 :=
    List.forall_mem_map.mpr fun v hv =>
      Nat.le_trans (extent_ofValue_le v) (Nat.add_le_add_left (hpadded v hv) 4)
  have hfit := Nat.le_trans (extent_le hcells)
    (show 64 * (values.map Item.ofValue).length ≤ room by decide)
  obtain ⟨b, hb, hread⟩ := filled_reads values t hlen hfit
  exact ⟨b, hb, hread.2.result⟩

theorem mod_eight (i : Nat) : i % 8 = 0 ∨ i % 8 = 1 ∨ i % 8 = 2 ∨ i % 8 = 3 ∨
    i % 8 = 4 ∨ i % 8 = 5 ∨ i % 8 = 6 ∨ i % 8 = 7 := by omega

/-- The kinds go round. -/
theorem tag_mixedValue (i : Nat) : some (mixedValue i).tag =
    [Tag.byte, .int, .long, .float, .double, .string, .byteArray, .binder][i % 8]? := by
  rcases mod_eight i with h | h | h | h | h | h | h | h
  all_goals
    simp only [mixedValue, h]
    rfl

/-- Texts and byte arrays among them have less than 16 bytes. -/
theorem mixedValue_small (i : Nat) : (Item.ofValue (mixedValue i)).arrayLength < 16 ∧
    (Size.padded (mixedValue i).size).toNat ≤ 36 := by
  have hmod := Nat.mod_lt i (show 0 < 16 by decide)
  have htext : ∀ n < 16,
      (Size.padded (Size.text (some (String.ofList (List.replicate n 'x'))))).toNat ≤ 36 := by decide
  have hbytes : ∀ n < 16, (Size.padded (.ofNat n)).toNat ≤ 36 := by decide
  rcases mod_eight i with h | h | h | h | h | h | h | h
  case inr.inr.inr.inr.inr.inl =>
    simp only [mixedValue, h]
    exact ⟨Nat.zero_lt_succ _, htext _ hmod⟩
  case inr.inr.inr.inr.inr.inr.inl =>
    simp only [mixedValue, h, Item.ofValue, Item.arrayLength, Value.size, List.length_replicate]
    exact ⟨hmod, hbytes _ hmod⟩
  all_goals
    simp only [mixedValue, h, Item.ofValue, Item.arrayLength, Value.size]
    decide

/-- As many of them as surely find room are all given back. -/
theorem mixed_read (t : σ) (hcount : 40 * count ≤ room) :
    ∃ b, (filled ((mixed count).map Item.ofValue)).Yields t (.ok b) t ∧
      ((Buffer.readValues ((mixed count).map Value.tag)) b).result = .ok (mixed count) := by
  have hlen : ∀ v ∈ mixed count, (Item.ofValue v).arrayLength ≤ Item.longestArray :=
    List.forall_mem_map.mpr fun i _ =>
      Nat.le_of_lt (Nat.lt_of_lt_of_le (mixedValue_small i).1 (by decide))
  have hcells : ∀ item ∈ (mixed count).map Item.ofValue, Cell.extent item.cells ≤ 40 :=
    List.forall_mem_map.mpr (List.forall_mem_map.mpr fun i _ =>
      Nat.le_trans (extent_ofValue_le _) (Nat.add_le_add_left (mixedValue_small i).2 4))
  have hextent := extent_le hcells
  rw [mixed, List.length_map, List.length_map, List.length_range] at hextent
  obtain ⟨b, hb, -, hread⟩ := filled_reads _ t hlen (Nat.le_trans hextent hcount)
  exact ⟨b, hb, hread.result⟩

theorem ints_read (t : σ) (hcount : 4 * count ≤ room) :
    let numbers := (List.range count).map fun (i : Nat) => Value.int (.ofInt i)
    ∃ b, (ints count).Yields t (.ok b) t ∧
      ((Buffer.readValues (numbers.map Value.tag)) b).result = .ok numbers := by
  intro numbers
  have hlen : ∀ v ∈ numbers, (Item.ofValue v).arrayLength ≤ Item.longestArray :=
    List.forall_mem_map.mpr fun i _ => Nat.zero_le _
  have hcells : ∀ item ∈ numbers.map Item.ofValue, Cell.extent item.cells ≤ 4 :=
    List.forall_mem_map.mpr (List.forall_mem_map.mpr fun i _ => Nat.le_of_eq (Cell.extent_int _))
  have hextent := extent_le hcells
  rw [List.length_map, List.length_map, List.length_range] at hextent
  obtain ⟨b, hb, -, hread⟩ := filled_reads _ t hlen (Nat.le_trans hextent hcount)
  rw [List.map_map] at hb
  exact ⟨b, hb, hread.result⟩

end Sample

end Parcel
