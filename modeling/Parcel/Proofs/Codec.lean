import Parcel.Marshal.Decode
import Parcel.Marshal.Encode
import Parcel.Proofs.Action
import Parcel.Proofs.Storage

/-!
What an encoder puts into a sink without bound the decoder takes back, with anything behind it left
alone. `Codes` says so of one encoder and one decoder, and goes through their parts as they do.
-/
namespace Parcel

namespace Bytes

theorem toNat_ofNat (width n : Nat) (h : n < Nat.pow 256 width) : toNat (ofNat width n) = n := by
  induction width generalizing n with
  | zero =>
    obtain rfl : n = 0 := by
      change n < 1 at h
      omega
    rfl
  | succ width ih =>
    have hdiv : n / 256 < Nat.pow 256 width := by
      change n < Nat.pow 256 width * 256 at h
      exact Nat.div_lt_of_lt_mul (by omega)
    rw [ofNat, toNat, ih _ hdiv, UInt8.toNat_ofNat']
    omega

end Bytes

theorem Size.toNat_ofNat {n : Nat} (h : n ≤ largest) : (UInt32.ofNat n).toNat = n :=
  UInt32.toNat_ofNat_of_lt' (Nat.lt_succ_of_le h)

theorem Text.ofUtf8_toUtf8 (s : String) : ofUtf8 (toUtf8 s) = .ok s := by
  have h : String.fromUTF8? s.toUTF8 = some s := by
    simp only [String.fromUTF8?, String.toUTF8_eq_toByteArray, dif_pos s.isValidUTF8]
    rfl
  unfold ofUtf8 toUtf8
  rw [Array.toArray_toList, h]

namespace Marshal
open Parcel.Action

variable {α β : Type}

/-- What `e` puts, if it succeeds, `d` takes for `a`. -/
def Codes (e : Encoder) (d : Decoder α) (a : α) : Prop :=
  ∀ s : Sink, s.room = none → (e s).result = .ok () →
    ∃ bytes : List UInt8, (e s).state = ⟨none, s.written ++ bytes⟩ ∧
      ∀ rest, d.Yields (bytes ++ rest) (.ok a) rest

theorem Codes.bind {e e' : Encoder} {d : Decoder α} {f : α → Decoder β} {a : α} {b : β}
    (h : Codes e d a) (h' : Codes e' (f a) b) : Codes (do e; e') (d >>= f) b := by
  intro s hs hok
  obtain ⟨⟨⟩, he, he'⟩ := ok_of_bind hok
  obtain ⟨bytes, hstate, htake⟩ := h s hs he
  rw [hstate] at he'
  obtain ⟨bytes', hstate', htake'⟩ := h' _ rfl he'
  refine ⟨bytes ++ bytes', ?_, fun rest => ?_⟩
  · have hy : (e >>= fun _ => e').Yields s _ _ := Yields.bind ⟨he, hstate⟩ ⟨he', hstate'⟩
    rw [hy.state]
    exact congrArg (Sink.mk none) (Array.ext' (by simp))
  · rw [List.append_assoc]
    exact (htake _).bind (htake' rest)

theorem Codes.map {e : Encoder} {d : Decoder α} {a : α} (h : Codes e d a) (f : α → β) :
    Codes e (f <$> d) (f a) := by
  intro s hs hok
  obtain ⟨bytes, hstate, htake⟩ := h s hs hok
  exact ⟨bytes, hstate, fun rest => (htake rest).map f⟩

theorem codes_nothing (a : α) : Codes (pure ()) (pure a) a := by
  intro s hs _
  obtain ⟨room, written⟩ := s
  cases hs
  exact ⟨[], rfl, fun rest => yields_pure a rest⟩

theorem codes_refuse (error : Error) (d : Decoder α) (a : α) : Codes (refuse error) d a := by
  intro s _ hok
  cases hok

/-- A decoder may go on without the input. -/
theorem Codes.then_pure {e : Encoder} {d : Decoder α} {f : α → Decoder β} {a : α} {b : β}
    (h : Codes e d a) (hf : ∀ s, (f a).Yields s (.ok b) s) : Codes e (d >>= f) b := by
  intro s hs hok
  obtain ⟨bytes, hstate, htake⟩ := h s hs hok
  exact ⟨bytes, hstate, fun rest => (htake rest).bind (hf rest)⟩

theorem take_yields (bytes rest : List UInt8) :
    (take bytes.length).Yields (bytes ++ rest) (.ok bytes) rest := by
  refine (yields_gets _ _).bind ?_
  rw [List.take_left, if_pos rfl]
  refine (yields_modify _ _).bind ?_
  rw [List.drop_left]
  exact yields_pure _ _

theorem take_short {input : List UInt8} {count : Nat} (h : input.length < count) :
    (take count).Yields input (.error (.refused (.transfer .unfilled))) input := by
  have hlen : (input.take count).length ≠ count := by
    rw [List.length_take]
    omega
  refine (yields_gets _ input).bind ?_
  rw [if_neg hlen]
  exact yields_refuse _ input

theorem codes_put {bytes : List UInt8} {d : Decoder α} {a : α}
    (h : ∀ rest, d.Yields (bytes ++ rest) (.ok a) rest) : Codes (put bytes) d a := by
  intro s hs _
  obtain ⟨room, written⟩ := s
  cases hs
  exact ⟨bytes, rfl, h⟩

theorem codes_byte (n : UInt8) : Codes (putByte n) takeByte n := by
  have h : Codes (putByte n) takeByte (.ofNat (Bytes.toNat [n])) := (codes_put (take_yields [n])).map _
  rwa [Bytes.toNat, Bytes.toNat, Nat.mul_zero, Nat.add_zero, UInt8.ofNat_toNat] at h

theorem codes_word (n : UInt32) : Codes (putWord n) takeWord n := by
  have h : Codes (putWord n) takeWord (.ofNat (Bytes.toNat (Bytes.ofNat 4 n.toNat))) :=
    (codes_put (take_yields (Bytes.ofNat 4 n.toNat))).map _
  rwa [Bytes.toNat_ofNat 4 _ n.toNat_lt, UInt32.ofNat_toNat] at h

theorem codes_longWord (n : UInt64) : Codes (putLongWord n) takeLongWord n := by
  have h : Codes (putLongWord n) takeLongWord (.ofNat (Bytes.toNat (Bytes.ofNat 8 n.toNat))) :=
    (codes_put (take_yields (Bytes.ofNat 8 n.toNat))).map _
  rwa [Bytes.toNat_ofNat 8 _ n.toNat_lt, UInt64.ofNat_toNat] at h

theorem codes_sized (bytes : List UInt8) : Codes (putSized bytes) takeSized bytes := by
  unfold putSized
  split
  · exact codes_refuse _ _ _
  · rename_i h
    have hn := Size.toNat_ofNat (Nat.le_of_not_lt h)
    refine (codes_word _).bind (codes_put fun rest => ?_)
    rw [hn]
    refine (yields_gets _ _).bind ?_
    rw [List.take_left, if_pos rfl]
    exact take_yields bytes rest

theorem codes_text (s : String) : Codes (putSized (Text.toUtf8 s)) takeText s := by
  refine (codes_sized _).then_pure fun rest => ?_
  rw [Text.ofUtf8_toUtf8]
  exact yields_pure s rest

theorem codes_presence (isPresent : Bool) :
    Codes (putByte (presence isPresent)) takePresence isPresent := by
  refine (codes_byte _).then_pure fun rest => ?_
  cases isPresent
  · exact yields_pure false rest
  · exact yields_pure true rest

theorem codes_absent (payload : Decoder α) :
    Codes (putByte (presence false)) (takeOptional payload) none :=
  (codes_presence false).then_pure fun rest => yields_pure none rest

theorem codes_present {e : Encoder} {payload : Decoder α} {a : α} (h : Codes e payload a) :
    Codes (do putByte (presence true); e) (takeOptional payload) (some a) :=
  (codes_presence true).bind (h.map some)

theorem codes_tag (tag : Tag) : Codes (putByte (tagByte tag)) takeTag tag := by
  refine (codes_byte _).then_pure fun rest => ?_
  cases tag <;> exact yields_pure _ rest

theorem codes_value (v : Value) : Codes (encodeValue v) (decodeValue v.tag) v := by
  cases v with
  | byte v =>
    have h : Codes (putByte v.toUInt8) (decodeValue .byte) (.byte v.toUInt8.toInt8) :=
      (codes_byte v.toUInt8).map _
    rwa [Int8.toInt8_toUInt8] at h
  | int v =>
    have h : Codes (putWord v.toUInt32) (decodeValue .int) (.int v.toUInt32.toInt32) :=
      (codes_word v.toUInt32).map _
    rwa [Int32.toInt32_toUInt32] at h
  | long v =>
    have h : Codes (putLongWord v.toUInt64) (decodeValue .long) (.long v.toUInt64.toInt64) :=
      (codes_longWord v.toUInt64).map _
    rwa [Int64.toInt64_toUInt64] at h
  | float bits => exact (codes_word bits).map Value.float
  | double bits => exact (codes_longWord bits).map Value.double
  | string s =>
    cases s with
    | none => exact (codes_absent takeText).map Value.string
    | some s => exact (codes_present (codes_text s)).map Value.string
  | byteArray bytes => exact (codes_sized bytes).map Value.byteArray
  | binder ref =>
    cases ref with
    | none => exact (codes_absent takeLongWord).map Value.binder
    | some ref => exact (codes_present (codes_longWord ref)).map Value.binder

/-- Sizes of no bytes, or of part of a word, are refused on the way back. -/
theorem codes_entry {cell : Cell} (hc : cell.Padded) : Codes (encodeEntry cell) decodeEntry cell := by
  have h0 : cell.size ≠ 0 := fun h => by
    have := hc.1
    rw [h] at this
    cases this
  have h4 : cell.size % 4 = 0 := by
    rw [← UInt32.toNat_inj, UInt32.toNat_mod]
    exact hc.2
  refine (codes_word cell.size).bind ?_
  rw [if_neg h0, if_neg (not_not_intro h4)]
  refine (codes_tag _).bind ((codes_value _).then_pure fun rest => ?_)
  exact yields_lift (by rw [Cell.sized, if_pos h4, trust_ok]) rest

theorem codes_cells (cells : List Cell) (hc : ∀ c ∈ cells, c.Padded) :
    Codes (each encodeEntry cells) (decodeCells cells.length) cells := by
  induction cells with
  | nil => exact codes_nothing []
  | cons c cells ih =>
    have h := ih fun d hd => hc d (List.mem_cons_of_mem c hd)
    exact (codes_entry (hc c List.mem_cons_self)).bind (h.map (c :: ·))

theorem codes_entries (cells : List Cell) (hc : ∀ c ∈ cells, c.Padded) :
    Codes (encodeEntries cells) decodeEntries cells := by
  unfold encodeEntries
  split
  · exact codes_refuse _ _ _
  · rename_i h
    have hn := Size.toNat_ofNat (Nat.le_of_not_lt h)
    refine (codes_word _).bind ?_
    rw [hn]
    exact codes_cells cells hc

end Marshal

end Parcel
