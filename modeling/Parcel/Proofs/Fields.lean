import Parcel.Proofs.Canonical

/-!
What encoders put, field by field, and what a bounded sink gets of it. `Fills` says of an encoder that a
sink takes its bytes as far as they fit and that it is refused if they do not all fit. It goes through the
parts of the encoders as they do, since none of them puts anything behind a refusal.
-/
namespace Parcel

/-- The length that stands before the payload, 0 where none does. -/
def Value.announced : Value → Nat
  | .string (some s) => (Text.toUtf8 s).length
  | .byteArray bytes => bytes.length
  | _ => 0

/-- A word can announce the payload. -/
def Value.Encodable (v : Value) : Prop := v.announced ≤ Size.largest

instance : DecidablePred Value.Encodable := fun v =>
  inferInstanceAs (Decidable (v.announced ≤ Size.largest))

namespace Marshal
open Parcel.Action

/-- A part of what is written: bytes whose number is known, or a payload behind its length. -/
inductive Field
  | fixed (bytes : List UInt8)
  | sized (payload : List UInt8)
deriving DecidableEq

def Field.bytes : Field → List UInt8
  | fixed bytes => bytes
  | sized payload => Bytes.ofNat 4 payload.length ++ payload

/-- The bytes of fields, one behind the other. -/
def spelling (fields : List Field) : List UInt8 := fields.flatMap Field.bytes

def valueFields : Value → List Field
  | .byte v => [.fixed [v.toUInt8]]
  | .int v => [.fixed (Bytes.ofNat 4 v.toUInt32.toNat)]
  | .long v => [.fixed (Bytes.ofNat 8 v.toUInt64.toNat)]
  | .float bits => [.fixed (Bytes.ofNat 4 bits.toNat)]
  | .double bits => [.fixed (Bytes.ofNat 8 bits.toNat)]
  | .string none => [.fixed [presence false]]
  | .string (some s) => [.fixed [presence true], .sized (Text.toUtf8 s)]
  | .byteArray bytes => [.sized bytes]
  | .binder none => [.fixed [presence false]]
  | .binder (some ref) => [.fixed [presence true], .fixed (Bytes.ofNat 8 ref.toNat)]

def entryFields (cell : Cell) : List Field :=
  .fixed (Bytes.ofNat 4 cell.size.toNat) :: .fixed [tagByte cell.value.tag] :: valueFields cell.value

def entriesFields (cells : List Cell) : List Field :=
  .fixed (Bytes.ofNat 4 cells.length) :: cells.flatMap entryFields

/-- Whatever the sink, it gets as many of the bytes from `e` as it takes, and `e` is refused unless it takes
them all. -/
def Fills (e : Encoder) (bytes : List UInt8) : Prop :=
  ∀ s : Sink, e.Yields s
    (if s.holds bytes then .ok () else .error (.refused (.transfer .unwritten))) (s.accept bytes)

/-- A sink without bound gets all the bytes from `e`. One with a bound gets the first of them up to the
bound, and `e` is refused if there are more. -/
structure Fits (e : Encoder) (bytes : List UInt8) : Prop where
  unbounded : Puts e bytes
  bounded : ∀ limit, e.Yields (.bounded (some limit))
    (if bytes.length ≤ limit then .ok () else .error (.refused (.transfer .unwritten)))
    ⟨some (limit - bytes.length), (bytes.take limit).toArray⟩

variable {e e' : Encoder} {x y : List UInt8} {field : Field} {v : Value} {cell : Cell}
  {cells : List Cell} {s : Sink}

@[simp] theorem spelling_nil : spelling [] = [] := rfl

@[simp] theorem spelling_cons (field : Field) (fields : List Field) :
    spelling (field :: fields) = field.bytes ++ spelling fields := List.flatMap_cons

@[simp] theorem spelling_append (fields others : List Field) :
    spelling (fields ++ others) = spelling fields ++ spelling others := List.flatMap_append

@[simp] theorem Sink.holds_nil (s : Sink) : s.holds [] := by
  obtain ⟨room, written⟩ := s
  cases room <;> simp [holds]

@[simp] theorem Sink.accept_nil (s : Sink) : s.accept [] = s := by
  obtain ⟨room, written⟩ := s
  cases room <;> simp [accept]

theorem Sink.holds_append (s : Sink) (x y : List UInt8) :
    s.holds (x ++ y) = (s.holds x && (s.accept x).holds y) := by
  obtain ⟨room, written⟩ := s
  cases room with
  | none => rfl
  | some room =>
    simp only [holds, accept, Option.map_some, Option.all_some, List.length_append]
    rw [← Bool.decide_and, decide_eq_decide]
    omega

theorem Sink.accept_append (s : Sink) (x y : List UInt8) :
    (s.accept x).accept y = s.accept (x ++ y) := by
  have hassoc (w : Array UInt8) (x y : List UInt8) : w ++ x ++ y = w ++ (x ++ y) :=
    Array.ext' (by simp)
  obtain ⟨room, written⟩ := s
  cases room with
  | none => simp [accept, hassoc]
  | some room => simp [accept, hassoc, List.take_append, Nat.sub_sub]

/-- Where some of the bytes did not fit, none behind them do. -/
theorem Sink.accept_full (h : ¬ s.holds x) (y : List UInt8) : s.accept (x ++ y) = s.accept x := by
  obtain ⟨room, written⟩ := s
  cases room with
  | none => exact absurd rfl h
  | some room =>
    have hlt : room < x.length := by simpa [holds] using h
    have htake : (x ++ y).take room = x.take room := List.take_append_of_le_length (Nat.le_of_lt hlt)
    simp only [accept, Option.map_some, Option.getD_some, htake, List.length_append]
    congr 2
    omega

theorem fills_put (bytes : List UInt8) : Fills (put bytes) bytes := by
  intro s
  refine (yields_gets _ s).bind ((yields_modify _ s).bind ?_)
  by_cases h : s.holds bytes
  · rw [if_pos h, if_neg (not_not_intro h)]
    exact yields_pure _ _
  · rw [if_neg h, if_pos h]
    exact yields_refuse _ _

theorem fills_nothing : Fills (pure ()) [] := by
  intro s
  rw [if_pos s.holds_nil, s.accept_nil]
  exact yields_pure () s

theorem Fills.bind (h : Fills e x) (h' : Fills e' y) : Fills (do e; e') (x ++ y) := by
  intro s
  have hfirst := h s
  by_cases hx : s.holds x
  · have hholds : s.holds (x ++ y) = (s.accept x).holds y := by
      rw [s.holds_append, hx, Bool.true_and]
    rw [if_pos hx] at hfirst
    rw [hholds, ← s.accept_append]
    exact hfirst.bind (h' _)
  · rw [if_neg hx] at hfirst
    have hxy : ¬ s.holds (x ++ y) := by
      rw [s.holds_append]
      simp [hx]
    rw [if_neg hxy, Sink.accept_full hx]
    exact hfirst.stop

theorem Fills.puts (h : Fills e x) : Puts e x := by
  intro s hs
  obtain ⟨room, written⟩ := s
  cases hs
  exact h _

theorem Fills.fits (h : Fills e x) : Fits e x where
  unbounded := h.puts
  bounded limit := by
    have hy := h (.bounded (some limit))
    simpa [Sink.bounded, Sink.holds, Sink.accept] using hy

theorem Fills.one (h : Fills e field.bytes) : Fills e (spelling [field]) := by
  rwa [spelling_cons, spelling_nil, List.append_nil]

theorem fills_count {n : Nat} (h : n ≤ Size.largest) :
    Fills (putWord (.ofNat n)) (Bytes.ofNat 4 n) := by
  rw [putWord, Size.toNat_ofNat h]
  exact fills_put _

theorem fills_sized (h : x.length ≤ Size.largest) : Fills (putSized x) (Field.sized x).bytes := by
  unfold putSized
  rw [if_neg (Nat.not_lt.mpr h)]
  exact (fills_count h).bind (fills_put x)

theorem fills_value (h : v.Encodable) : Fills (encodeValue v) (spelling (valueFields v)) := by
  have hone (bytes : List UInt8) : Fills (put bytes) (spelling [.fixed bytes]) := by
    have hput : Fills (put bytes) (Field.fixed bytes).bytes := fills_put bytes
    exact hput.one
  have hflag (isPresent : Bool) : Fills (putByte (presence isPresent)) [presence isPresent] :=
    fills_put _
  cases v with
  | byte | int | long | float | double => exact hone _
  | string s =>
    cases s with
    | none => exact hone _
    | some s => exact (hflag true).bind (fills_sized h).one
  | byteArray bytes => exact (fills_sized h).one
  | binder ref =>
    cases ref with
    | none => exact hone _
    | some ref => exact (hflag true).bind (hone _)

theorem fills_entry (h : cell.value.Encodable) :
    Fills (encodeEntry cell) (spelling (entryFields cell)) :=
  (fills_put _).bind ((fills_put _).bind (fills_value h))

theorem fills_cells (h : ∀ c ∈ cells, c.value.Encodable) :
    Fills (each encodeEntry cells) (spelling (cells.flatMap entryFields)) := by
  induction cells with
  | nil => exact fills_nothing
  | cons c cells ih =>
    obtain ⟨hc, hcells⟩ := List.forall_mem_cons.mp h
    rw [List.flatMap_cons, spelling_append]
    exact (fills_entry hc).bind (ih hcells)

theorem fills_entries (h : ∀ c ∈ cells, c.value.Encodable) (hl : cells.length ≤ Size.largest) :
    Fills (encodeEntries cells) (spelling (entriesFields cells)) := by
  unfold encodeEntries
  rw [if_neg (Nat.not_lt.mpr hl)]
  exact (fills_count hl).bind (fills_cells h)

/-- A value, a cell or a list of cells is put into a sink up to its bound, as the first bytes of what one
without bound gets, and is refused exactly if that is not all. -/
theorem encoders_fit :
    (∀ v : Value, v.Encodable → Fits (encodeValue v) (spelling (valueFields v))) ∧
    (∀ cell : Cell, cell.value.Encodable → Fits (encodeEntry cell) (spelling (entryFields cell))) ∧
    (∀ cells : List Cell, (∀ c ∈ cells, c.value.Encodable) → cells.length ≤ Size.largest →
      Fits (encodeEntries cells) (spelling (entriesFields cells))) :=
  ⟨fun _ hv => (fills_value hv).fits, fun _ hv => (fills_entry hv).fits,
    fun _ hv hl => (fills_entries hv hl).fits⟩

/-- Twenty bytes that end in the length of an empty string, for which no room is needed. -/
theorem encoders_fit_empty :
    let cells : List Cell := [⟨4, .byte 1⟩, ⟨8, .string (some "")⟩]
    let bytes : List UInt8 := [2, 0, 0, 0, 4, 0, 0, 0, 0, 1, 8, 0, 0, 0, 5, 1, 0, 0, 0, 0]
    (encodeEntries cells).Yields (.bounded (some 20)) (.ok ()) ⟨some 0, bytes.toArray⟩ ∧
      (encodeEntries cells).Yields (.bounded (some 11))
        (.error (.refused (.transfer .unwritten))) ⟨some 0, (bytes.take 11).toArray⟩ := by
  intro cells bytes
  obtain ⟨-, -, h⟩ := encoders_fit
  have hfits := h cells (by decide) (by decide)
  rw [show spelling (entriesFields cells) = bytes by decide] at hfits
  exact ⟨hfits.bounded 20, hfits.bounded 11⟩

end Marshal

end Parcel
