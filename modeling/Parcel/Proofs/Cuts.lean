import Parcel.Proofs.RoundTrip

/-!
Bytes that break off. A decoder that meets fewer bytes than an encoder puts refuses them, and the place
where they break off tells for which reason. `StopsShort` says so of a decoder and the fields it takes, and
goes through the decoders as they do: behind a cut nothing is looked at any more.
-/
namespace Parcel

namespace Marshal
open Parcel.Action

/-- The first `k` bytes of the fields end within a payload: all of its length is among them, but only
`rest` of the bytes that it announces. -/
inductive CutsPayload : List Field → Nat → Nat → Nat → Prop
  | here (hk : k = 4 + rest) (h : rest < payload.length) :
    CutsPayload (.sized payload :: fields) k payload.length rest
  | behind (hk : k = field.bytes.length + later) (h : CutsPayload fields later announced rest) :
    CutsPayload (field :: fields) k announced rest

/-- What the first `k` bytes of the fields are refused with. -/
structure Refusal (fields : List Field) (k : Nat) (error : Error) : Prop where
  short : ∀ announced rest, CutsPayload fields k announced rest →
    error = .malformed (.shortPayload announced rest)
  missing : (∀ announced rest, ¬ CutsPayload fields k announced rest) → error = .transfer .unfilled

/-- Of fewer bytes than those of the fields `d` makes nothing, and refuses them for where they end. -/
def StopsShort (d : Decoder α) (fields : List Field) : Prop :=
  ∀ k < (spelling fields).length, ∃ error rest, Refusal fields k error ∧
    d.Yields ((spelling fields).take k) (.error (.refused error)) rest

variable {α β : Type} {d : Decoder α} {f : α → Decoder β} {a : α} {fields others : List Field}
  {announced rest k : Nat} {error : Error} {payload bytes : List UInt8} {v : Value} {cell : Cell}
  {cells : List Cell} {s : Sink}

theorem cutsPayload_append_left (h : k < (spelling fields).length) :
    CutsPayload (fields ++ others) k announced rest ↔ CutsPayload fields k announced rest := by
  induction fields generalizing k with
  | nil => cases h
  | cons field fields ih =>
    rw [spelling_cons, List.length_append] at h
    rw [List.cons_append]
    constructor
    · intro hc
      cases hc with
      | here hk hr => exact .here hk hr
      | behind hk hc => exact .behind hk ((ih (by omega)).mp hc)
    · intro hc
      cases hc with
      | here hk hr => exact .here hk hr
      | behind hk hc => exact .behind hk ((ih (by omega)).mpr hc)

theorem cutsPayload_append_right :
    CutsPayload (fields ++ others) ((spelling fields).length + k) announced rest ↔
      CutsPayload others k announced rest := by
  induction fields with
  | nil => rw [spelling_nil, List.nil_append, List.length_nil, Nat.zero_add]
  | cons field fields ih =>
    rw [spelling_cons, List.length_append, List.cons_append, ← ih, Nat.add_assoc]
    constructor
    · intro hc
      generalize hn : field.bytes.length + ((spelling fields).length + k) = n at hc
      cases hc with
      | here hk hr =>
        -- all of this payload lies before the place
        rename_i payload
        have hlen : (Field.sized payload).bytes.length = 4 + payload.length := List.length_append
        omega
      | behind hk hc =>
        rename_i later
        obtain rfl : later = (spelling fields).length + k := by omega
        exact hc
    · exact .behind rfl

theorem Refusal.append (h : Refusal fields k error) (hk : k < (spelling fields).length) :
    Refusal (fields ++ others) k error where
  short announced rest hc := h.short announced rest ((cutsPayload_append_left hk).mp hc)
  missing hn := h.missing fun announced rest hc => hn announced rest ((cutsPayload_append_left hk).mpr hc)

theorem Refusal.behind (h : Refusal others k error) :
    Refusal (fields ++ others) ((spelling fields).length + k) error where
  short announced rest hc := h.short announced rest (cutsPayload_append_right.mp hc)
  missing hn := h.missing fun announced rest hc => hn announced rest (cutsPayload_append_right.mpr hc)

/-- Bytes that no length announces are just missing. -/
theorem refusal_fixed (bytes : List UInt8) (k : Nat) :
    Refusal [.fixed bytes] k (.transfer .unfilled) where
  short _ _ hc := by
    cases hc with
    | behind _ hc => cases hc
  missing _ := rfl

theorem refusal_length (hk : k < 4) (payload : List UInt8) :
    Refusal [.sized payload] k (.transfer .unfilled) where
  short _ _ hc := by
    cases hc with
    | here hrest _ => omega
    | behind _ hc => cases hc
  missing _ := rfl

theorem refusal_payload (h : rest < payload.length) :
    Refusal [.sized payload] (4 + rest) (.malformed (.shortPayload payload.length rest)) where
  short announced rest' hc := by
    cases hc with
    | here hk _ =>
      obtain rfl : rest = rest' := by omega
      rfl
    | behind _ hc => cases hc
  missing hn := absurd (.here rfl h) (hn _ _)

/-- Behind a field of known length the decoder goes on with what follows it. -/
theorem takes_fixed (h : Codes (put bytes) d a) (rest : List UInt8) :
    d.Yields (spelling [.fixed bytes] ++ rest) (.ok a) rest := by
  rw [spelling_cons, spelling_nil, List.append_nil]
  exact h.takes (puts_put bytes) rest

theorem StopsShort.andThen (h : StopsShort d fields) (f : α → Decoder β) : StopsShort (d >>= f) fields := by
  intro k hk
  obtain ⟨error, rest, hr, hy⟩ := h k hk
  exact ⟨error, rest, hr, hy.stop⟩

theorem StopsShort.map (h : StopsShort d fields) (g : α → β) : StopsShort (g <$> d) fields :=
  h.andThen _

/-- Either the first decoder is cut short, or it takes its fields and the second one is cut short. -/
theorem StopsShort.bind (h : StopsShort d fields)
    (hw : ∀ rest, d.Yields (spelling fields ++ rest) (.ok a) rest) (h' : StopsShort (f a) others) :
    StopsShort (d >>= f) (fields ++ others) := by
  intro k hk
  rw [spelling_append] at hk ⊢
  by_cases hlt : k < (spelling fields).length
  · obtain ⟨error, rest, hr, hy⟩ := h k hlt
    rw [List.take_append_of_le_length (Nat.le_of_lt hlt)]
    exact ⟨error, rest, hr.append hlt, hy.stop⟩
  · obtain ⟨later, rfl⟩ := Nat.exists_eq_add_of_le (Nat.le_of_not_lt hlt)
    rw [List.length_append] at hk
    obtain ⟨error, rest, hr, hy⟩ := h' later (by omega)
    rw [List.take_length_add_append]
    exact ⟨error, rest, hr.behind, (hw _).bind hy⟩

theorem stops_nothing (d : Decoder α) : StopsShort d [] := by
  intro k hk
  cases hk

theorem stops_take (bytes : List UInt8) : StopsShort (take bytes.length) [.fixed bytes] := by
  have hbytes : spelling [.fixed bytes] = bytes := List.append_nil bytes
  intro k hk
  rw [hbytes] at hk ⊢
  have hlen : (bytes.take k).length < bytes.length := by
    rw [List.length_take]
    omega
  exact ⟨_, _, refusal_fixed bytes k, take_short hlen⟩

theorem stops_byte (n : UInt8) : StopsShort takeByte [.fixed [n]] := (stops_take [n]).andThen _

theorem stops_word (n : UInt32) : StopsShort takeWord [.fixed (Bytes.ofNat 4 n.toNat)] :=
  (stops_take (Bytes.ofNat 4 n.toNat)).andThen _

theorem stops_longWord (n : UInt64) : StopsShort takeLongWord [.fixed (Bytes.ofNat 8 n.toNat)] :=
  (stops_take (Bytes.ofNat 8 n.toNat)).andThen _

theorem takeSized_short {input : List UInt8} {n : Nat} (hn : n ≤ Size.largest)
    (h : input.length < n) : takeSized.Yields (Bytes.ofNat 4 n ++ input)
      (.error (.refused (.malformed (.shortPayload n input.length)))) input := by
  have hcount := (codes_word (.ofNat n)).takes (puts_put _) input
  rw [Size.toNat_ofNat hn] at hcount
  refine hcount.bind ((yields_gets _ _).bind ?_)
  rw [Size.toNat_ofNat hn, List.take_of_length_le (Nat.le_of_lt h), if_neg (Nat.ne_of_lt h)]
  exact yields_refuse _ _

/-- Before the end of the length bytes are missing, and behind it the payload is too short. -/
theorem stops_sized (h : payload.length ≤ Size.largest) : StopsShort takeSized [.sized payload] := by
  have hbytes : spelling [.sized payload] = Bytes.ofNat 4 payload.length ++ payload :=
    List.append_nil _
  have hword : (Bytes.ofNat 4 payload.length).length = 4 := rfl
  intro k hk
  rw [hbytes] at hk ⊢
  rw [List.length_append, hword] at hk
  by_cases hlt : k < 4
  · have hlen : ((Bytes.ofNat 4 payload.length ++ payload).take k).length < 4 := by
      rw [List.length_take]
      omega
    have hmissing : takeWord.Yields _ _ _ := (take_short hlen).map_stop _
    exact ⟨_, _, refusal_length hlt payload, hmissing.stop⟩
  · obtain ⟨rest, rfl⟩ := Nat.exists_eq_add_of_le (Nat.le_of_not_lt hlt)
    have hrest : rest < payload.length := by omega
    have hlen : (payload.take rest).length = rest := List.length_take_of_le (Nat.le_of_lt hrest)
    have hshort := takeSized_short h (Nat.lt_of_le_of_lt (Nat.le_of_eq hlen) hrest)
    have htake : (Bytes.ofNat 4 payload.length ++ payload).take
        ((Bytes.ofNat 4 payload.length).length + rest) =
        Bytes.ofNat 4 payload.length ++ payload.take rest := List.take_length_add_append rest
    rw [hlen] at hshort
    rw [hword] at htake
    rw [htake]
    exact ⟨_, _, refusal_payload hrest, hshort⟩

theorem stops_text (h : payload.length ≤ Size.largest) : StopsShort takeText [.sized payload] :=
  (stops_sized h).andThen _

theorem stops_presence (isPresent : Bool) : StopsShort takePresence [.fixed [presence isPresent]] :=
  (stops_byte _).andThen _

theorem stops_absent (payload : Decoder α) :
    StopsShort (takeOptional payload) [.fixed [presence false]] := (stops_presence false).andThen _

theorem stops_present (h : StopsShort d fields) :
    StopsShort (takeOptional d) (.fixed [presence true] :: fields) :=
  (stops_presence true).bind (takes_fixed (codes_presence true)) (h.map some)

theorem stops_tag (tag : Tag) : StopsShort takeTag [.fixed [tagByte tag]] := (stops_byte _).andThen _

theorem stops_value (h : v.Encodable) : StopsShort (decodeValue v.tag) (valueFields v) := by
  cases v with
  | byte => exact (stops_byte _).map _
  | int | float => exact (stops_word _).map _
  | long | double => exact (stops_longWord _).map _
  | string s =>
    cases s with
    | none => exact (stops_absent _).map _
    | some s => exact (stops_present (stops_text h)).map _
  | byteArray bytes => exact (stops_sized h).map _
  | binder ref =>
    cases ref with
    | none => exact (stops_absent _).map _
    | some ref => exact (stops_present (stops_longWord ref)).map _

theorem stops_entry (hc : cell.Padded) (h : cell.value.Encodable) :
    StopsShort decodeEntry (entryFields cell) := by
  have h0 : cell.size ≠ 0 := Size.toNat_ne_zero.mpr hc.1
  have h4 : cell.size % 4 = 0 := Size.mod_four_eq_zero.mpr hc.2
  refine (stops_word cell.size).bind (takes_fixed (codes_word cell.size)) ?_
  rw [if_neg h0, if_neg (not_not_intro h4)]
  exact (stops_tag _).bind (takes_fixed (codes_tag _)) ((stops_value h).andThen _)

theorem stops_cells (hc : ∀ c ∈ cells, c.Padded) (h : ∀ c ∈ cells, c.value.Encodable) :
    StopsShort (decodeCells cells.length) (cells.flatMap entryFields) := by
  induction cells with
  | nil => exact stops_nothing _
  | cons c cells ih =>
    obtain ⟨hpad, hcs⟩ := List.forall_mem_cons.mp hc
    obtain ⟨hv, hvs⟩ := List.forall_mem_cons.mp h
    have hentry := (codes_entry hpad).takes (fills_entry hv).puts
    rw [List.flatMap_cons]
    exact (stops_entry hpad hv).bind hentry ((ih hcs hvs).map (c :: ·))

theorem stops_entries (hc : ∀ c ∈ cells, c.Padded) (h : ∀ c ∈ cells, c.value.Encodable)
    (hl : cells.length ≤ Size.largest) : StopsShort decodeEntries (entriesFields cells) := by
  have hn := Size.toNat_ofNat hl
  have hcount := stops_word (.ofNat cells.length)
  have htakes := takes_fixed (codes_word (.ofNat cells.length))
  rw [hn] at hcount htakes
  refine hcount.bind htakes ?_
  rw [hn]
  exact stops_cells hc h

/-- What was put has a length that a word can announce. -/
theorem length_of_putSized (h : (putSized payload s).result = .ok ()) :
    payload.length ≤ Size.largest := by
  unfold putSized at h
  split at h
  · cases h
  · exact Nat.le_of_not_lt ‹_›

theorem encodable_of_value (h : (encodeValue v s).result = .ok ()) : v.Encodable := by
  cases v with
  | byte | int | long | float | double | binder => exact Nat.zero_le _
  | string text =>
    cases text with
    | none => exact Nat.zero_le _
    | some text =>
      obtain ⟨_, -, hput⟩ := ok_of_bind h
      exact length_of_putSized hput
  | byteArray bytes => exact length_of_putSized h

theorem encodable_of_cells (h : (each encodeEntry cells s).result = .ok ()) :
    ∀ c ∈ cells, c.value.Encodable := by
  induction cells generalizing s with
  | nil => exact List.forall_mem_nil _
  | cons c cells ih =>
    obtain ⟨_, hentry, hrest⟩ := ok_of_bind h
    obtain ⟨_, -, hentry⟩ := ok_of_bind hentry
    obtain ⟨_, -, hvalue⟩ := ok_of_bind hentry
    exact List.forall_mem_cons.mpr ⟨encodable_of_value hvalue, ih hrest⟩

/-- Only what can be encoded is spelled. -/
theorem Spells.encodable (h : Spells bytes cells) :
    (∀ c ∈ cells, c.value.Encodable) ∧ cells.length ≤ Size.largest := by
  have hok := h.accepted
  unfold encodeEntries at hok
  split at hok
  · cases hok
  · obtain ⟨_, -, hcells⟩ := ok_of_bind hok
    exact ⟨encodable_of_cells hcells, Nat.le_of_not_lt ‹_›⟩

theorem Spells.eq_spelling (h : Spells bytes cells) : bytes = spelling (entriesFields cells) := by
  obtain ⟨hv, hl⟩ := h.encodable
  have hspells := (fills_entries hv hl).puts.spells h.padded
  exact Except.ok.inj (h.bytesOf.symm.trans hspells.bytesOf)

theorem Spells.puts (h : Spells bytes cells) : Puts (encodeEntries cells) bytes := by
  obtain ⟨hv, hl⟩ := h.encodable
  rw [h.eq_spelling]
  exact (fills_entries hv hl).puts

end Marshal

namespace Buffer
open Parcel.Action

variable {cells : List Cell} {bytes : List UInt8}

/-- Less than what spells some cells is refused for where it breaks off, and more than it for what is too
much, whatever the rules are. -/
theorem decode_cut (rules : Rules) (h : Marshal.Spells bytes cells) :
    bytes = Marshal.spelling (Marshal.entriesFields cells) ∧
    (∀ k < bytes.length,
      (∀ announced rest, Marshal.CutsPayload (Marshal.entriesFields cells) k announced rest →
        (decode (σ := Unit) rules (bytes.take k) ()).result =
          .error (.refused (.malformed (.shortPayload announced rest)))) ∧
      ((∀ announced rest, ¬ Marshal.CutsPayload (Marshal.entriesFields cells) k announced rest) →
        (decode (σ := Unit) rules (bytes.take k) ()).result =
          .error (.refused (.transfer .unfilled)))) ∧
    (∀ extra, extra ≠ [] → (decode (σ := Unit) rules (bytes ++ extra) ()).result =
      .error (.refused (.malformed (.trailing extra.length cells.length)))) := by
  obtain ⟨hv, hl⟩ := h.encodable
  have hbytes := h.eq_spelling
  refine ⟨hbytes, fun k hk => ?_, fun extra hne => ?_⟩
  · rw [hbytes] at hk ⊢
    obtain ⟨error, rest, hr, hy⟩ := Marshal.stops_entries h.padded hv hl k hk
    have hrefused : (decode rules _).Yields () (.error (.refused error)) () :=
      (hy.apart_stop ()).stop.stop
    refine ⟨fun announced rest hc => ?_, fun hn => ?_⟩
    · rw [hrefused.result, hr.short announced rest hc]
    · rw [hrefused.result, hr.missing hn]
  · have hy := (Marshal.codes_entries cells h.padded).takes h.puts extra
    have hcells : (decodeCells (bytes ++ extra)).Yields ()
        (.error (.refused (.malformed (.trailing extra.length cells.length)))) () := by
      refine (hy.apart ()).bind ?_
      cases extra with
      | nil => exact absurd rfl hne
      | cons => exact yields_refuse _ ()
    exact hcells.stop.result

/-- A text of two bytes, cut within its length and within its one character, and with a byte behind it. The
cell would not even fit. -/
theorem decode_cut_text :
    let bytes : List UInt8 := [1, 0, 0, 0, 8, 0, 0, 0, 5, 1, 2, 0, 0, 0, 195, 169]
    let outcome := fun input => (decode (σ := Unit) { maxCapacity := 4 } input ()).result
    outcome (bytes.take 12) = .error (.refused (.transfer .unfilled)) ∧
      outcome (bytes.take 15) = .error (.refused (.malformed (.shortPayload 2 1))) ∧
      outcome (bytes ++ [0]) = .error (.refused (.malformed (.trailing 1 1))) := by
  intro bytes outcome
  have h : Marshal.Spells bytes [⟨8, .string (some "é")⟩] :=
    ⟨by simp [Cell.Padded], rfl, by decide⟩
  have hfields : Marshal.entriesFields [⟨8, .string (some "é")⟩] =
    [.fixed [1, 0, 0, 0], .fixed [8, 0, 0, 0], .fixed [5], .fixed [1]] ++ [.sized [195, 169]] := by
    decide
  obtain ⟨-, hcut, htrailing⟩ := decode_cut { maxCapacity := 4 } h
  rw [hfields] at hcut
  refine ⟨(hcut 12 (by decide)).2 fun announced rest hc => ?_, (hcut 15 (by decide)).1 2 1 ?_,
    htrailing [0] (by simp)⟩
  · cases (Marshal.cutsPayload_append_right (k := 2)).mp hc with
    | here hk _ => omega
    | behind _ hc => cases hc
  · exact (Marshal.cutsPayload_append_right (k := 5)).mpr (.here rfl (by decide))

end Buffer

end Parcel
