import Mathlib.Data.List.Forall2
import Parcel.Proofs.RoundTrip

/-!
Which values and cells are written alike. What an encoder puts and a decoder takes back stands for one
thing only, whatever goes on behind it.
-/
namespace Parcel

namespace Value

variable {a b : Value}

/-- The values that are not compared as they are written. -/
def Floating (v : Value) : Prop := v.tag = .float ∨ v.tag = .double

instance : DecidablePred Floating := fun v =>
  inferInstanceAs (Decidable (v.tag = .float ∨ v.tag = .double))

theorem bitEqual_iff : a.bitEqual b ↔ a = b := by
  unfold bitEqual
  split
  · simp
  · simp
  · rename_i hfloat hdouble
    unfold equal
    split
    · rename_i x y
      exact absurd rfl (hfloat x y rfl)
    · rename_i x y
      exact absurd rfl (hdouble x y rfl)
    · simp

theorem bitEqual_eq_equal (h : ¬ (a.Floating ∧ b.Floating)) : a.bitEqual b = a.equal b := by
  unfold bitEqual
  split
  · exact absurd ⟨.inl rfl, .inl rfl⟩ h
  · exact absurd ⟨.inr rfl, .inr rfl⟩ h
  · rfl

theorem bitEqual_equivalence : Equivalence fun a b : Value => a.bitEqual b where
  refl _ := bitEqual_iff.mpr rfl
  symm h := bitEqual_iff.mpr (bitEqual_iff.mp h).symm
  trans h h' := bitEqual_iff.mpr ((bitEqual_iff.mp h).trans (bitEqual_iff.mp h'))

end Value

namespace Marshal
open Parcel.Action

variable {α : Type} {e e' : Encoder} {d : Decoder α} {a b : α} {v w : Value} {c c' : Cell}
  {cells others : List Cell} {x y r t : List UInt8}

/-- Both encoders put something, and it is the same. -/
def SameBytes (e e' : Encoder) : Prop := ∃ bytes, Puts e bytes ∧ Puts e' bytes

theorem Puts.unique (hx : Puts e x) (hy : Puts e y) : x = y := by
  have hstate := (hx (.bounded none) rfl).state.symm.trans (hy (.bounded none) rfl).state
  simpa [Sink.bounded] using congrArg Sink.written hstate

theorem sameBytes_iff (hx : Puts e x) (hy : Puts e' y) : SameBytes e e' ↔ x = y := by
  constructor
  · rintro ⟨bytes, hx', hy'⟩
    exact (hx.unique hx').trans (hy'.unique hy)
  · rintro rfl
    exact ⟨x, hx, hy⟩

/-- What stands at the front of some bytes, and is taken off them by one decoder, is one thing with one
rest. -/
theorem Codes.unambiguous (ha : Codes e d a) (hb : Codes e' d b) (hx : Puts e x) (hy : Puts e' y)
    (h : x ++ r = y ++ t) : a = b ∧ r = t := by
  have hleft := ha.takes hx r
  have hright := hb.takes hy t
  rw [← h] at hright
  exact ⟨Except.ok.inj (hleft.result.symm.trans hright.result),
    hleft.state.symm.trans hright.state⟩

theorem value_unambiguous (hv : v.Encodable) (hw : w.Encodable) (htag : v.tag = w.tag)
    (h : spelling (valueFields v) = spelling (valueFields w)) : v = w := by
  have hcodes := codes_value v
  rw [htag] at hcodes
  exact (hcodes.unambiguous (codes_value w) (fills_value hv).puts (fills_value hw).puts
    (congrArg (· ++ []) h)).1

def takeEntry : Decoder Cell := do
  let size ← takeWord
  let tag ← takeTag
  Cell.mk size <$> decodeValue tag

theorem codes_takeEntry (c : Cell) : Codes (encodeEntry c) takeEntry c :=
  (codes_word c.size).bind ((codes_tag c.value.tag).bind ((codes_value c.value).map (Cell.mk c.size)))

theorem cells_unambiguous (hc : ∀ c ∈ cells, c.value.Encodable) (ho : ∀ c ∈ others, c.value.Encodable)
    (hlen : cells.length = others.length)
    (h : spelling (cells.flatMap entryFields) = spelling (others.flatMap entryFields)) :
    cells = others := by
  induction cells generalizing others with
  | nil => exact (List.eq_nil_of_length_eq_zero hlen.symm).symm
  | cons c cells ih =>
    obtain _ | ⟨c', others⟩ := others
    · cases hlen
    obtain ⟨hc, hcells⟩ := List.forall_mem_cons.mp hc
    obtain ⟨hc', hothers⟩ := List.forall_mem_cons.mp ho
    rw [List.flatMap_cons, List.flatMap_cons, spelling_append, spelling_append] at h
    obtain ⟨rfl, hrest⟩ := (codes_takeEntry c).unambiguous (codes_takeEntry c') (fills_entry hc).puts
      (fills_entry hc').puts h
    rw [ih hcells hothers (Nat.succ.inj hlen) hrest]

theorem entries_unambiguous (hc : ∀ c ∈ cells, c.value.Encodable)
    (ho : ∀ c ∈ others, c.value.Encodable) (hl : cells.length ≤ Size.largest)
    (hl' : others.length ≤ Size.largest)
    (h : spelling (entriesFields cells) = spelling (entriesFields others)) : cells = others := by
  unfold entriesFields at h
  rw [spelling_cons, spelling_cons] at h
  obtain ⟨hcount, hcells⟩ := (codes_word (.ofNat cells.length)).unambiguous
    (codes_word (.ofNat others.length)) (fills_count hl).puts (fills_count hl').puts h
  have hlen := congrArg UInt32.toNat hcount
  rw [Size.toNat_ofNat hl, Size.toNat_ofNat hl'] at hlen
  exact cells_unambiguous hc ho hlen hcells

theorem sameBytes_value (hv : v.Encodable) (hw : w.Encodable) (htag : v.tag = w.tag) :
    SameBytes (encodeValue v) (encodeValue w) ↔ v = w := by
  rw [sameBytes_iff (fills_value hv).puts (fills_value hw).puts]
  exact ⟨value_unambiguous hv hw htag, fun h => h ▸ rfl⟩

theorem sameBytes_entries (hc : ∀ c ∈ cells, c.value.Encodable)
    (ho : ∀ c ∈ others, c.value.Encodable) (hl : cells.length ≤ Size.largest)
    (hl' : others.length ≤ Size.largest) :
    SameBytes (encodeEntries cells) (encodeEntries others) ↔ cells = others := by
  rw [sameBytes_iff (fills_entries hc hl).puts (fills_entries ho hl').puts]
  exact ⟨entries_unambiguous hc ho hl hl', fun h => h ▸ rfl⟩

/-- Values have the same bits exactly if they are of one kind and are written alike. So this is an
equivalence, and it differs from equality only in how it takes floats. Lists of cells are written alike
exactly if they are as long as each other and agree cell by cell in sizes and bits. -/
theorem bits_are_spelling :
    (∀ v w : Value, v.Encodable → w.Encodable →
      (v.bitEqual w ↔ v.tag = w.tag ∧ SameBytes (encodeValue v) (encodeValue w))) ∧
    (Equivalence fun v w : Value => v.bitEqual w) ∧
    (∀ x y : UInt32, (Value.float x).bitEqual (.float y) ↔ x = y) ∧
    (∀ x y : UInt64, (Value.double x).bitEqual (.double y) ↔ x = y) ∧
    (∀ v w : Value, ¬ (v.Floating ∧ w.Floating) → v.bitEqual w = v.equal w) ∧
    (∀ cells others : List Cell, (∀ c ∈ cells, c.value.Encodable) → (∀ c ∈ others, c.value.Encodable) →
      cells.length ≤ Size.largest → others.length ≤ Size.largest →
      (SameBytes (encodeEntries cells) (encodeEntries others) ↔
        List.Forall₂ (fun c d => c.size = d.size ∧ c.value.bitEqual d.value) cells others)) := by
  refine ⟨fun v w hv hw => ?_, Value.bitEqual_equivalence, fun x y => ?_, fun x y => ?_,
    fun v w h => Value.bitEqual_eq_equal h, fun cells others hc ho hl hl' => ?_⟩
  · rw [Value.bitEqual_iff]
    constructor
    · rintro rfl
      exact ⟨rfl, (sameBytes_value hv hw rfl).mpr rfl⟩
    · rintro ⟨htag, hsame⟩
      exact (sameBytes_value hv hw htag).mp hsame
  · rw [Value.bitEqual_iff, Value.float.injEq]
  · rw [Value.bitEqual_iff, Value.double.injEq]
  · have hcell : (fun c d : Cell => c.size = d.size ∧ c.value.bitEqual d.value) = Eq := by
      funext c d
      rw [Value.bitEqual_iff, ← Cell.mk.injEq]
    rw [sameBytes_entries hc ho hl hl', hcell, List.forall₂_eq_eq_eq]

/-- A NaN is written as itself, which it does not equal. Zeros of two signs are equal and are written
differently, alone and in a cell. -/
theorem bits_are_spelling_zeros :
    let nan : Value := .float 0x7fc00001
    let zero : Value := .double 0
    let minus : Value := .double 0x8000000000000000
    (¬ nan.equal nan ∧ nan.bitEqual nan ∧ SameBytes (encodeValue nan) (encodeValue nan)) ∧
    (zero.equal minus ∧ ¬ SameBytes (encodeValue zero) (encodeValue minus)) ∧
    (Value.string none).bitEqual (.string (some "")) = (Value.string none).equal (.string (some "")) ∧
    ¬ SameBytes (encodeEntries [⟨8, zero⟩]) (encodeEntries [⟨8, minus⟩]) := by
  intro nan zero minus
  obtain ⟨hvalue, hequiv, -, -, hequal, hlist⟩ := bits_are_spelling
  have hnan := hequiv.refl nan
  refine ⟨⟨by decide, hnan, ((hvalue nan nan (by decide) (by decide)).mp hnan).2⟩,
    ⟨by decide, fun hsame => ?_⟩, hequal _ _ (by decide), fun hsame => ?_⟩
  · exact absurd ((hvalue zero minus (by decide) (by decide)).mpr ⟨rfl, hsame⟩) (by decide)
  · cases (hlist _ _ (by decide) (by decide) (by decide) (by decide)).mp hsame with
    | cons hcell _ => exact absurd hcell.2 (by decide)

-- The bytes of a payload do not tell its kind.
example : encodeValue (.int 0) = encodeValue (.float 0) := rfl

end Marshal

end Parcel
