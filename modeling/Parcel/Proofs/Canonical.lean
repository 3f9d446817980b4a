import Parcel.Proofs.Snapshot

/-!
The bytes of cells have no second spelling. `Reads` says of a decoder that what it takes off its input
spells what it gives, and that it refuses only for reasons that lie in the bytes; it goes through the
parts of the decoders as they do. So the bytes that make up a buffer are exactly those that its cells
are written as.
-/
namespace Parcel

namespace Bytes

theorem ofNat_toNat (bytes : List UInt8) : ofNat bytes.length (toNat bytes) = bytes := by
  induction bytes with
  | nil => rfl
  | cons b bytes ih =>
    have hb := b.toNat_lt
    have hdiv : (b.toNat + 256 * toNat bytes) / 256 = toNat bytes := by omega
    have hmod : UInt8.ofNat (b.toNat + 256 * toNat bytes) = b := by
      rw [← UInt8.toNat_inj, UInt8.toNat_ofNat']
      omega
    rw [toNat, List.length_cons, ofNat, hdiv, hmod, ih]

theorem toNat_lt (bytes : List UInt8) : toNat bytes < Nat.pow 256 bytes.length := by
  induction bytes with
  | nil => exact Nat.zero_lt_one
  | cons b bytes ih =>
    have hb := b.toNat_lt
    change b.toNat + 256 * toNat bytes < Nat.pow 256 bytes.length * 256
    omega

end Bytes

theorem Text.toUtf8_of_ofUtf8 {bytes : List UInt8} {s : String} (h : ofUtf8 bytes = .ok s) :
    toUtf8 s = bytes := by
  unfold ofUtf8 at h
  split at h
  · rename_i t ht
    obtain rfl : t = s := Except.ok.inj h
    unfold String.fromUTF8? at ht
    split at ht
    · cases ht
      rfl
    · cases ht
  · cases h

namespace Marshal
open Parcel.Action

variable {α β : Type} {e e' : Encoder} {d : Decoder α} {f : α → Decoder β}
  {P : α → List UInt8 → Prop} {Q : α → β → List UInt8 → Prop} {R : β → List UInt8 → Prop}
  {x y : List UInt8}

/-- A sink without bound gets `bytes` from `e`. -/
def Puts (e : Encoder) (bytes : List UInt8) : Prop :=
  ∀ s : Sink, s.room = none → e.Yields s (.ok ()) ⟨none, s.written ++ bytes⟩

theorem puts_put (bytes : List UInt8) : Puts (put bytes) bytes := by
  intro s hs
  obtain ⟨room, written⟩ := s
  cases hs
  exact ⟨rfl, rfl⟩

theorem puts_nothing : Puts (pure ()) [] := by
  intro s hs
  obtain ⟨room, written⟩ := s
  cases hs
  exact ⟨rfl, congrArg (Sink.mk none) (by simp)⟩

theorem Puts.bind (h : Puts e x) (h' : Puts e' y) : Puts (do e; e') (x ++ y) := by
  intro s hs
  have hy : (do e; e').Yields s (.ok ()) ⟨none, s.written ++ x ++ y⟩ := (h s hs).bind (h' _ rfl)
  rwa [show s.written ++ x ++ y = s.written ++ (x ++ y) from Array.ext' (by simp)] at hy

/-- A reason that lies in the bytes that are read: they are too few, or no encoder puts them. -/
def Error.OfBytes : Error → Prop
  | .transfer .unfilled | .malformed _ | .unknownTag _ => True
  | .transfer .unwritten | .buffer _ => False

/-- Either `d` gives something that is spelled, by `P`, by what it takes off its input, or it refuses
for a reason that lies there. -/
def Reads (d : Decoder α) (P : α → List UInt8 → Prop) : Prop :=
  ∀ input,
    (∃ a bytes rest, input = bytes ++ rest ∧ P a bytes ∧ d.Yields input (.ok a) rest) ∨
    ∃ error rest, error.OfBytes ∧ d.Yields input (.error (.refused error)) rest

theorem Reads.bind (hd : Reads d P) (hf : ∀ a, Reads (f a) (Q a))
    (h : ∀ a b x y, P a x → Q a b y → R b (x ++ y)) : Reads (d >>= f) R := by
  intro input
  rcases hd input with ⟨a, x, rest, rfl, hx, hy⟩ | ⟨error, rest, he, hy⟩
  · rcases hf a rest with ⟨b, y, rest', rfl, hx', hy'⟩ | ⟨error, rest', he, hy'⟩
    · exact .inl ⟨b, x ++ y, rest', by simp, h a b x y hx hx', hy.bind hy'⟩
    · exact .inr ⟨error, rest', he, hy.bind hy'⟩
  · exact .inr ⟨error, rest, he, hy.stop⟩

theorem reads_pure (a : α) (h : P a []) : Reads (pure a) P :=
  fun input => .inl ⟨a, [], input, rfl, h, yields_pure a input⟩

theorem reads_refuse {error : Error} (h : error.OfBytes) : Reads (refuse error) P :=
  fun input => .inr ⟨error, input, h, yields_refuse error input⟩

/-- What becomes of the result takes nothing more off the input. -/
theorem Reads.andThen (hd : Reads d P)
    (h : ∀ a x rest, P a x →
      (∃ b, R b x ∧ (f a).Yields rest (.ok b) rest) ∨
      ∃ error, error.OfBytes ∧ (f a).Yields rest (.error (.refused error)) rest) :
    Reads (d >>= f) R := by
  intro input
  rcases hd input with ⟨a, x, rest, rfl, hx, hy⟩ | ⟨error, rest, he, hy⟩
  · rcases h a x rest hx with ⟨b, hb, hy'⟩ | ⟨error, he, hy'⟩
    · exact .inl ⟨b, x, rest, rfl, hb, hy.bind hy'⟩
    · exact .inr ⟨error, rest, he, hy.bind hy'⟩
  · exact .inr ⟨error, rest, he, hy.stop⟩

theorem Reads.map (hd : Reads d P) (g : α → β) (h : ∀ a x, P a x → R (g a) x) : Reads (g <$> d) R :=
  hd.andThen fun a x rest hx => .inl ⟨g a, h a x hx, yields_pure (g a) rest⟩

theorem reads_take (count : Nat) : Reads (take count) (fun x y => x = y ∧ x.length = count) := by
  intro input
  by_cases h : input.length < count
  · exact .inr ⟨.transfer .unfilled, input, trivial, take_short h⟩
  · have hlen : (input.take count).length = count := List.length_take_of_le (Nat.le_of_not_lt h)
    have hy := take_yields (input.take count) (input.drop count)
    rw [hlen, List.take_append_drop] at hy
    exact .inl ⟨_, _, _, (List.take_append_drop count input).symm, ⟨rfl, hlen⟩, hy⟩

theorem reads_byte : Reads takeByte fun n x => Puts (putByte n) x := by
  refine (reads_take 1).map _ ?_
  rintro x _ ⟨rfl, h⟩
  obtain ⟨n, rfl⟩ := List.length_eq_one_iff.mp h
  rw [Bytes.toNat, Bytes.toNat, Nat.mul_zero, Nat.add_zero, UInt8.ofNat_toNat]
  exact puts_put [n]

theorem reads_word : Reads takeWord fun n x => Puts (putWord n) x := by
  refine (reads_take 4).map _ ?_
  rintro x _ ⟨rfl, h⟩
  have hlt := Bytes.toNat_lt x
  have hx := Bytes.ofNat_toNat x
  rw [h] at hlt hx
  unfold putWord
  rw [UInt32.toNat_ofNat_of_lt' hlt, hx]
  exact puts_put x

theorem reads_longWord : Reads takeLongWord fun n x => Puts (putLongWord n) x := by
  refine (reads_take 8).map _ ?_
  rintro x _ ⟨rfl, h⟩
  have hlt := Bytes.toNat_lt x
  have hx := Bytes.ofNat_toNat x
  rw [h] at hlt hx
  unfold putLongWord
  rw [UInt64.toNat_ofNat_of_lt' hlt, hx]
  exact puts_put x

/-- A length that a word can hold stands before as many bytes. -/
theorem puts_sized {n : UInt32} (hx : Puts (putWord n) x) (h : y.length = n.toNat) :
    Puts (putSized y) (x ++ y) := by
  have hlt := n.toNat_lt
  unfold putSized
  rw [if_neg (by unfold Size.largest; omega), h, UInt32.ofNat_toNat]
  exact hx.bind (puts_put y)

theorem reads_sized : Reads takeSized fun payload x => Puts (putSized payload) x := by
  refine reads_word.bind (Q := fun n payload y => payload = y ∧ payload.length = n.toNat) ?_ ?_
  · intro n input
    have hgets := yields_gets (ε := Error) (List.take n.toNat) input
    by_cases h : (input.take n.toNat).length = n.toNat
    · rcases reads_take n.toNat input with ⟨payload, y, rest, hin, hp, hy⟩ | ⟨error, rest, he, hy⟩
      · refine .inl ⟨payload, y, rest, hin, hp, hgets.bind ?_⟩
        rwa [if_pos h]
      · refine .inr ⟨error, rest, he, hgets.bind ?_⟩
        rwa [if_pos h]
    · refine .inr ⟨.malformed (.shortPayload n.toNat (input.take n.toNat).length), input, trivial,
        hgets.bind ?_⟩
      rw [if_neg h]
      exact yields_refuse _ input
  · rintro n _ x y hx ⟨rfl, h⟩
    exact puts_sized hx h

theorem reads_text : Reads takeText fun s x => Puts (putSized (Text.toUtf8 s)) x := by
  refine reads_sized.andThen fun payload x rest hx => ?_
  cases h : Text.ofUtf8 payload with
  | ok s =>
    rw [← Text.toUtf8_of_ofUtf8 h] at hx
    exact .inl ⟨s, hx, yields_pure s rest⟩
  | error place => exact .inr ⟨.malformed (.notText place), trivial, yields_refuse _ rest⟩

theorem reads_presence : Reads takePresence fun isPresent x => Puts (putByte (presence isPresent)) x := by
  refine reads_byte.andThen fun flag x rest hx => ?_
  by_cases h0 : flag = presence false
  · refine .inl ⟨false, h0 ▸ hx, ?_⟩
    rw [if_pos h0]
    exact yields_pure false rest
  · rw [if_neg h0]
    by_cases h1 : flag = presence true
    · refine .inl ⟨true, h1 ▸ hx, ?_⟩
      rw [if_pos h1]
      exact yields_pure true rest
    · refine .inr ⟨.malformed (.presenceFlag flag), trivial, ?_⟩
      rw [if_neg h1]
      exact yields_refuse _ rest

/-- A payload behind its flag. -/
def putOptional (e : α → Encoder) : Option α → Encoder
  | none => putByte (presence false)
  | some a => do
    putByte (presence true)
    e a

theorem reads_optional {payload : Decoder α} {e : α → Encoder}
    (h : Reads payload fun a x => Puts (e a) x) :
    Reads (takeOptional payload) fun o x => Puts (putOptional e o) x := by
  refine reads_presence.bind (Q := fun isPresent o y =>
    ∀ x, Puts (putByte (presence isPresent)) x → Puts (putOptional e o) (x ++ y)) ?_ ?_
  · intro isPresent
    cases isPresent with
    | false =>
      refine reads_pure none fun x hx => ?_
      rwa [List.append_nil]
    | true => exact h.map some fun a y hy x hx => hx.bind hy
  · intro isPresent o x y hx hy
    exact hy x hx

theorem tagOf_eq_ok {n : UInt8} {tag : Tag} (h : tagOf n = .ok tag) : n = tagByte tag := by
  unfold tagOf at h
  split at h <;> cases h <;> rfl

theorem tagOf_eq_error {n : UInt8} {error : Error} (h : tagOf n = .error error) : error.OfBytes := by
  unfold tagOf at h
  split at h <;> cases h
  trivial

theorem reads_tag : Reads takeTag fun tag x => Puts (putByte (tagByte tag)) x := by
  refine reads_byte.andThen fun n x rest hx => ?_
  cases h : tagOf n with
  | ok tag => exact .inl ⟨tag, tagOf_eq_ok h ▸ hx, yields_pure tag rest⟩
  | error error => exact .inr ⟨error, tagOf_eq_error h, yields_refuse error rest⟩

theorem reads_value (tag : Tag) :
    Reads (decodeValue tag) fun v x => v.tag = tag ∧ Puts (encodeValue v) x := by
  cases tag with
  | byte =>
    refine reads_byte.map _ fun n x hx => ⟨rfl, ?_⟩
    rwa [encodeValue, UInt8.toUInt8_toInt8]
  | int =>
    refine reads_word.map _ fun n x hx => ⟨rfl, ?_⟩
    rwa [encodeValue, UInt32.toUInt32_toInt32]
  | long =>
    refine reads_longWord.map _ fun n x hx => ⟨rfl, ?_⟩
    rwa [encodeValue, UInt64.toUInt64_toInt64]
  | float => exact reads_word.map Value.float fun bits x hx => ⟨rfl, hx⟩
  | double => exact reads_longWord.map Value.double fun bits x hx => ⟨rfl, hx⟩
  | string =>
    refine (reads_optional reads_text).map Value.string fun s x hx => ⟨rfl, ?_⟩
    cases s <;> exact hx
  | byteArray => exact reads_sized.map Value.byteArray fun bytes x hx => ⟨rfl, hx⟩
  | binder =>
    refine (reads_optional reads_longWord).map Value.binder fun ref x hx => ⟨rfl, ?_⟩
    cases ref <;> exact hx

theorem reads_entry : Reads decodeEntry fun cell x => cell.Padded ∧ Puts (encodeEntry cell) x := by
  refine reads_word.bind (Q := fun size cell y => cell.size = size ∧ cell.Padded ∧
    Puts (do putByte (tagByte cell.value.tag); encodeValue cell.value) y) ?_ ?_
  · intro size
    by_cases h0 : size = 0
    · rw [if_pos h0]
      exact reads_refuse trivial
    · rw [if_neg h0]
      by_cases h4 : size % 4 = 0
      · rw [if_neg (not_not_intro h4)]
        refine reads_tag.bind (Q := fun tag cell y => cell.size = size ∧ cell.value.tag = tag ∧
          Puts (encodeValue cell.value) y) (fun tag => ?_) ?_
        · refine (reads_value tag).andThen fun v y rest hv => .inl ⟨⟨size, v⟩, ⟨rfl, hv⟩, ?_⟩
          exact yields_lift (by rw [Cell.sized, if_pos h4, trust_ok]) rest
        · rintro tag cell x y hx ⟨rfl, rfl, hy⟩
          exact ⟨rfl, ⟨Size.toNat_ne_zero.mp h0, Size.mod_four_eq_zero.mp h4⟩, hx.bind hy⟩
      · rw [if_pos h4]
        exact reads_refuse trivial
  · rintro size cell x y hx ⟨rfl, hpad, hy⟩
    exact ⟨hpad, hx.bind hy⟩

theorem reads_cells (count : Nat) : Reads (decodeCells count) fun cells x =>
    cells.length = count ∧ (∀ c ∈ cells, c.Padded) ∧ Puts (each encodeEntry cells) x := by
  induction count with
  | zero => exact reads_pure [] ⟨rfl, by simp, puts_nothing⟩
  | succ count ih =>
    refine reads_entry.bind (Q := fun cell cells y => ∃ rest, cells = cell :: rest ∧
      rest.length = count ∧ (∀ c ∈ rest, c.Padded) ∧ Puts (each encodeEntry rest) y) (fun cell => ?_) ?_
    · exact ih.map (cell :: ·) fun rest y hy => ⟨rest, rfl, hy⟩
    · rintro cell _ x y ⟨hpad, hx⟩ ⟨rest, rfl, hlen, hall, hy⟩
      refine ⟨by rw [List.length_cons, hlen], fun c hc => ?_, hx.bind hy⟩
      rcases List.mem_cons.mp hc with rfl | hc
      · exact hpad
      · exact hall c hc

theorem reads_entries : Reads decodeEntries fun cells x =>
    (∀ c ∈ cells, c.Padded) ∧ Puts (encodeEntries cells) x := by
  refine reads_word.bind (fun n => reads_cells n.toNat) ?_
  rintro n cells x y hx ⟨hlen, hpad, hy⟩
  have hlt := n.toNat_lt
  refine ⟨hpad, ?_⟩
  unfold encodeEntries
  rw [if_neg (by unfold Size.largest; omega), hlen, UInt32.ofNat_toNat]
  exact hx.bind hy

/-- The bytes are what the cells, each of some whole words, are written as. -/
structure Spells (bytes : List UInt8) (cells : List Cell) : Prop where
  padded : ∀ c ∈ cells, c.Padded
  accepted : (encodeEntries cells (.bounded none)).result = .ok ()
  written : (encodeEntries cells (.bounded none)).state.written.toList = bytes

theorem Puts.spells {cells : List Cell} (h : Puts (encodeEntries cells) bytes)
    (hpad : ∀ c ∈ cells, c.Padded) : Spells bytes cells := by
  obtain ⟨hr, hs⟩ := h (.bounded none) rfl
  refine ⟨hpad, hr, ?_⟩
  rw [hs]
  simp [Sink.bounded]

/-- What cells are written as, or why they are not written. -/
def bytesOf (cells : List Cell) : Except (Failure Error) (List UInt8) :=
  let ran := encodeEntries cells (.bounded none)
  ran.result.map fun () => ran.state.written.toList

theorem Spells.bytesOf {cells : List Cell} (h : Spells bytes cells) : bytesOf cells = .ok bytes := by
  rw [Marshal.bytesOf, h.accepted, h.written]
  rfl

end Marshal

namespace Buffer
open Parcel.Action Owners

variable {b : Buffer} {entries cells : List Cell} {bytes : List UInt8}

/-- Bytes are the spelling of some cells, or are refused for what is wrong with them. -/
theorem decodeCells_outcome (bytes : List UInt8) (t : σ) :
    (∃ cells, Marshal.Spells bytes cells ∧ (decodeCells bytes).Yields t (.ok cells) t) ∨
    ∃ error, error.OfBytes ∧ (decodeCells bytes).Yields t (.error (.refused error)) t := by
  rcases Marshal.reads_entries bytes with ⟨cells, x, rest, rfl, ⟨hpad, hx⟩, hy⟩ | ⟨error, rest, he, hy⟩
  · cases rest with
    | nil =>
      rw [List.append_nil] at hy ⊢
      exact .inl ⟨cells, hx.spells hpad, (hy.apart t).bind (yields_pure cells t)⟩
    | cons n rest =>
      exact .inr ⟨.malformed (.trailing (n :: rest).length cells.length), trivial,
        (hy.apart t).bind (yields_refuse _ t)⟩
  · exact .inr ⟨error, he, (hy.apart_stop t).stop⟩

/-- Cells laid out in a buffer are listed. -/
theorem Sound.cellsFrom_of_laid (hb : b.Sound) (hl : b.owner.Laid start cells b.size)
    (hpad : ∀ c ∈ cells, c.Padded) : b.cellsFrom start = .ok cells := by
  induction cells generalizing start with
  | nil =>
    rw [Buffer.cellsFrom, if_neg (Nat.not_lt.mpr (Nat.le_of_eq hl.symm))]
  | cons c cells ih =>
    obtain ⟨hpos, hwhole, hrest⟩ := hl
    have hle := hrest.le
    have hw := hb.wholeCell_of_whole hwhole (hpad c List.mem_cons_self) none
    rw [hb.cellsFrom_of_le (by omega) hw hle, ih hrest fun d hd => hpad d (List.mem_cons_of_mem c hd)]
    rfl

theorem encode_outcome (hc : b.cells = .ok cells) : encode.Yields b (Marshal.bytesOf cells) b := by
  have hcells := (yields_inspect hc).mapError Marshal.Error.buffer
  refine hcells.bind ?_
  cases hr : (Marshal.encodeEntries cells (.bounded none)).result with
  | error e =>
    rw [Marshal.bytesOf, hr]
    exact (Yields.apart_stop ⟨hr, rfl⟩ b).stop
  | ok =>
    rw [Marshal.bytesOf, hr]
    exact (Yields.apart ⟨hr, rfl⟩ b).bind ((yields_emit _ b).bind (yields_pure _ b))

theorem encode_yields (hc : b.cells = .ok cells) (h : Marshal.Spells bytes cells) :
    encode.Yields b (.ok bytes) b :=
  h.bytesOf ▸ encode_outcome hc

/-- Cells that do not fit are refused at the first of them that ends beyond the limit. -/
theorem ofCells_stopped (rules : Rules) (h4 : ∀ c ∈ entries, c.size.toNat % 4 = 0)
    (h : rules.maxCapacity.toNat < Cell.extent entries) (t : σ) :
    ∃ kept c, Cell.FirstBeyond rules.maxCapacity.toNat entries kept c ∧
      (ofCells rules entries).Yields t (.error (.refused
        (.capacityExceeded (Cell.extent (kept ++ [c])) rules.maxCapacity))) t := by
  rcases writeAll_outcome (sound_empty rules) id entries with
    ⟨u, -, hsu, hru, hpu⟩ | ⟨kept, c, u, hstop⟩
  · have hle := (trail_start hsu).position_le
    rw [hpu, hru, cellsOf_id h4] at hle
    change 0 + Cell.extent entries ≤ rules.maxCapacity.toNat at hle
    omega
  · obtain ⟨rest, rfl⟩ := hstop.split
    have hkept : cellsOf id kept = kept := cellsOf_id fun d hd =>
      h4 d (List.mem_append_left _ hd)
    have hc : c.rounded = c := Cell.rounded_of_aligned
      (h4 c (List.mem_append_right _ List.mem_cons_self))
    have hposition : u.position = Cell.extent kept := by
      rw [hstop.position, hkept]
      exact Nat.zero_add _
    have hend : u.position + c.rounded.size.toNat = Cell.extent (kept ++ [c]) := by
      rw [hposition, hc, Cell.extent_append]
      rfl
    have hle := (trail_start hstop.sound).position_le
    rw [hstop.rules, hposition] at hle
    have hfull := hstop.full
    rw [show u.position + (id c).rounded.size.toNat = _ from hend] at hfull
    have hr := hstop.refused
    rw [noRoom, hstop.rules, show u.position + (Size.padded (id c).size).toNat = _ from hend] at hr
    exact ⟨kept, c, ⟨⟨rest, rfl⟩, hle, hfull⟩, (hr.stop.apart_stop t).stop⟩

/-- What spells cells that fit is decoded into a buffer that has these cells and is encoded so. -/
theorem decode_spelled (rules : Rules) (h : Marshal.Spells bytes cells)
    (hfit : Cell.extent cells ≤ rules.maxCapacity.toNat) (t : σ) :
    ∃ r, (decode rules bytes).Yields t (.ok r) t ∧ r.cells = .ok cells ∧
      encode.Yields r (.ok bytes) r := by
  have hd := decodeCells_yields h.padded h.accepted t
  rw [h.written] at hd
  obtain ⟨r, hr, hsr, -, -, -, hl⟩ := ofCells_laid rules h.padded hfit t
  have hc : r.cells = .ok cells := hsr.cellsFrom_of_laid hl h.padded
  refine ⟨r, hd.bind ?_, hc, encode_yields hc h⟩
  exact (hr.mapError Marshal.Error.buffer).bind ((yields_emit _ t).bind (yields_pure r t))

theorem decode_exceeding (rules : Rules) (h : Marshal.Spells bytes cells)
    (hfit : rules.maxCapacity.toNat < Cell.extent cells) (t : σ) :
    ∃ requested, rules.maxCapacity.toNat < requested ∧ (decode rules bytes).Yields t
      (.error (.refused (.buffer (.capacityExceeded requested rules.maxCapacity)))) t := by
  have hd := decodeCells_yields h.padded h.accepted t
  rw [h.written] at hd
  obtain ⟨kept, c, hfirst, hr⟩ := ofCells_stopped rules (fun d hd => (h.padded d hd).2) hfit t
  exact ⟨Cell.extent (kept ++ [c]), hfirst.beyond, hd.bind (hr.mapError Marshal.Error.buffer).stop⟩

theorem decode_unspelled (rules : Rules) (h : ∀ cells, ¬ Marshal.Spells bytes cells) (t : σ) :
    ∃ error, error.OfBytes ∧ (decode rules bytes).Yields t (.error (.refused error)) t := by
  rcases decodeCells_outcome bytes t with ⟨cells, hs, -⟩ | ⟨error, he, hy⟩
  · exact absurd hs (h cells)
  · exact ⟨error, he, hy.stop⟩

/-- An error that bytes which are to become a buffer under `rules` are refused with. -/
def Unfit (rules : Rules) (error : Marshal.Error) : Prop :=
  error.OfBytes ∨ ∃ requested, error = .buffer (.capacityExceeded requested rules.maxCapacity)

/-- Bytes become a buffer that is written as these bytes, or are refused. -/
theorem decode_outcome (rules : Rules) (bytes : List UInt8) (t : σ) :
    (∃ r, (decode rules bytes).Yields t (.ok r) t ∧ encode.Yields r (.ok bytes) r) ∨
    ∃ error, Unfit rules error ∧ (decode rules bytes).Yields t (.error (.refused error)) t := by
  by_cases hs : ∃ cells, Marshal.Spells bytes cells
  · obtain ⟨cells, hs⟩ := hs
    by_cases hfit : Cell.extent cells ≤ rules.maxCapacity.toNat
    · obtain ⟨r, hr, -, he⟩ := decode_spelled rules hs hfit t
      exact .inl ⟨r, hr, he⟩
    · obtain ⟨requested, -, hy⟩ := decode_exceeding rules hs (Nat.lt_of_not_le hfit) t
      exact .inr ⟨_, .inr ⟨requested, rfl⟩, hy⟩
  · obtain ⟨error, he, hy⟩ := decode_unspelled rules (fun cells h => hs ⟨cells, h⟩) t
    exact .inr ⟨error, .inl he, hy⟩

/-- Bytes become a buffer exactly if they spell cells that fit into it, and then the buffer has these
cells and is written as these bytes. Cells that do not fit are refused for that, and all other bytes for
what is wrong with them. -/
theorem decode_canonical (rules : Rules) (bytes : List UInt8) :
    let outcome := (decode (σ := Unit) rules bytes ()).result
    ((∃ r, outcome = .ok r) ↔
      ∃ cells, Marshal.Spells bytes cells ∧ Cell.extent cells ≤ rules.maxCapacity.toNat) ∧
    (∀ cells, Marshal.Spells bytes cells → Cell.extent cells ≤ rules.maxCapacity.toNat →
      ∃ r, outcome = .ok r ∧ r.cells = .ok cells ∧ (encode r).result = .ok bytes) ∧
    (∀ cells, Marshal.Spells bytes cells → rules.maxCapacity.toNat < Cell.extent cells →
      ∃ requested, rules.maxCapacity.toNat < requested ∧
        outcome = .error (.refused (.buffer (.capacityExceeded requested rules.maxCapacity)))) ∧
    ((∀ cells, ¬ Marshal.Spells bytes cells) →
      ∃ error, error.OfBytes ∧ outcome = .error (.refused error)) := by
  intro outcome
  have hfits : ∀ cells, Marshal.Spells bytes cells → Cell.extent cells ≤ rules.maxCapacity.toNat →
      ∃ r, outcome = .ok r ∧ r.cells = .ok cells ∧ (encode r).result = .ok bytes := by
    intro cells hs hfit
    obtain ⟨r, hr, hc, he⟩ := decode_spelled rules hs hfit ()
    exact ⟨r, hr.result, hc, he.result⟩
  have hexceeds : ∀ cells, Marshal.Spells bytes cells → rules.maxCapacity.toNat < Cell.extent cells →
      ∃ requested, rules.maxCapacity.toNat < requested ∧
        outcome = .error (.refused (.buffer (.capacityExceeded requested rules.maxCapacity))) := by
    intro cells hs hlt
    obtain ⟨requested, hr, hy⟩ := decode_exceeding rules hs hlt ()
    exact ⟨requested, hr, hy.result⟩
  have hother : (∀ cells, ¬ Marshal.Spells bytes cells) →
      ∃ error, error.OfBytes ∧ outcome = .error (.refused error) := by
    intro h
    obtain ⟨error, he, hy⟩ := decode_unspelled rules h ()
    exact ⟨error, he, hy.result⟩
  refine ⟨⟨fun h => ?_, fun h => ?_⟩, hfits, hexceeds, hother⟩
  · obtain ⟨r, hr⟩ := h
    by_cases hs : ∃ cells, Marshal.Spells bytes cells
    · obtain ⟨cells, hs⟩ := hs
      refine ⟨cells, hs, Nat.le_of_not_lt fun hlt => ?_⟩
      obtain ⟨_, -, he⟩ := hexceeds cells hs hlt
      cases hr.symm.trans he
    · obtain ⟨_, -, he⟩ := hother fun cells h => hs ⟨cells, h⟩
      cases hr.symm.trans he
  · obtain ⟨cells, hs, hfit⟩ := h
    obtain ⟨r, hr, -⟩ := hfits cells hs hfit
    exact ⟨r, hr⟩

/-- A NaN with a payload in a cell twice as long as it needs, and an absent string. -/
theorem decode_canonical_nan :
    let bytes : List UInt8 :=
      [2, 0, 0, 0, 8, 0, 0, 0, 3, 1, 0, 192, 127, 4, 0, 0, 0, 5, 0]
    ∃ r, (decode (σ := Unit) { maxCapacity := 12 } bytes ()).result = .ok r ∧
      r.cells = .ok [⟨8, .float 0x7fc00001⟩, ⟨4, .string none⟩] ∧ (encode r).result = .ok bytes := by
  obtain ⟨-, h, -⟩ := decode_canonical { maxCapacity := 12 }
    [2, 0, 0, 0, 8, 0, 0, 0, 3, 1, 0, 192, 127, 4, 0, 0, 0, 5, 0]
  refine h [⟨8, .float 0x7fc00001⟩, ⟨4, .string none⟩] ⟨?_, rfl, rfl⟩ (by decide)
  simp [Cell.Padded]

end Buffer

end Parcel
