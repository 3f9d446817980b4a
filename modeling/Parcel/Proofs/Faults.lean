import Parcel.Proofs.Canonical
import Parcel.Proofs.Requests

/-!
No fault comes up. Every place where an operation could meet one lies behind a check or is ruled out by
what holds of a buffer between calls, as long as its limit leaves room for the offsets behind its cells.
-/
namespace Parcel

namespace Marshal
open Parcel.Action

/-- Encoders refuse at most. -/
def Mild (e : Encoder) : Prop := Within (fun _ => True) (fun _ => False) e

theorem mild_put (bytes : List UInt8) : Mild (put bytes) :=
  (within_gets _).andThen fun _ => (within_modify fun _ _ => trivial).andThen fun _ =>
    within_ite _ (within_refuse _) (within_pure _)

theorem mild_putSized (bytes : List UInt8) : Mild (putSized bytes) :=
  within_ite _ (within_refuse _) ((mild_put _).andThen fun _ => mild_put bytes)

theorem mild_encodeValue (v : Value) : Mild (encodeValue v) := by
  cases v with
  | byte | int | long | float | double => exact mild_put _
  | byteArray bytes => exact mild_putSized bytes
  | string s =>
    cases s with
    | none => exact mild_put _
    | some s => exact (mild_put _).andThen fun _ => mild_putSized _
  | binder ref =>
    cases ref with
    | none => exact mild_put _
    | some ref => exact (mild_put _).andThen fun _ => mild_put _

theorem mild_encodeEntries (cells : List Cell) : Mild (encodeEntries cells) := by
  refine within_ite _ (within_refuse _) ((mild_put _).andThen fun _ => ?_)
  refine Within.each (fun cell => ?_) cells
  exact (mild_put _).andThen fun _ => (mild_put _).andThen fun _ => mild_encodeValue cell.value

end Marshal

namespace Buffer
open Parcel.Action

variable {b source : Buffer} {rules : Rules} {s : Segment} {allowed : Fault → Prop}

theorem Sound.wholeCell_unbroken (hb : b.Sound) (w : Option Tag) (start : Nat) :
    Unbroken (b.wholeCell w start) := by
  cases ho : b.owner start with
  | none =>
    rw [hb.wholeCell_empty ho]
    exact unbroken_refused _
  | some x =>
    rw [hb.wholeCell_eq ho]
    split
    · exact unbroken_ok _
    · exact unbroken_refused _

theorem Sound.peek_unbroken (hb : b.Sound) (hx : b.Spanned) (wanted : Tag) :
    Unbroken (b.peek wanted) := by
  by_cases hp : b.size ≤ b.position
  · unfold peek
    rw [if_pos hp]
    split
    · exact unbroken_refused _
    · exact unbroken_ok _
  · have hlt := Nat.lt_of_not_le hp
    cases hw : b.wholeCell (some wanted) b.position with
    | error e =>
      rw [peek_error hlt hw]
      intro f hf
      cases hf
      exact hb.wholeCell_unbroken _ _ f hw
    | ok cell =>
      rw [hb.peek_of_le hlt hw (hx hw)]
      exact unbroken_ok _

theorem Sound.cellsFrom_unbroken (hb : b.Sound) (hx : b.Spanned) (start : Nat) :
    Unbroken (b.cellsFrom start) := by
  induction start using Buffer.cellsFrom.induct b with
  | case1 start hlt ih =>
    cases hw : b.wholeCell none start with
    | error e =>
      rw [cellsFrom_stopped hlt hw]
      intro f hf
      cases hf
      exact hb.wholeCell_unbroken _ _ f hw
    | ok cell =>
      -- A whole cell is not empty, so what is left begins further on.
      have hpos := (hb.padded_of_wholeCell hw).1
      rw [hb.cellsFrom_of_le hlt hw (hx hw)]
      exact (ih _ (by omega)).map _
  | case2 start hge =>
    rw [cellsFrom_end (Nat.le_of_not_lt hge)]
    exact unbroken_ok _

/-- A sound buffer under given rules. -/
structure Fit (rules : Rules) (b : Buffer) : Prop where
  sound : b.Sound
  rules : b.rules = rules

theorem write_fit (size : UInt32) (value : Value) : Within (Fit rules) allowed (write size value) := by
  intro b hb
  rcases write_outcome hb.sound size value with ⟨t, ht, hst, hrt, -⟩ | ⟨-, hno⟩
  · exact ht.ends ⟨hst, hrt.trans hb.rules⟩
  · exact hno.ends_refused hb

theorem put_fit (item : Item) : Within (Fit rules) allowed (put item) := by
  have hwrite (v : Value) : Within (Fit rules) allowed (writeValue v) := write_fit v.size v
  exact within_ite _ (within_refuse _) (Within.each hwrite item.values)

theorem putArray_fit (bytes : Option (List UInt8)) (offset length : Nat) :
    Within (Fit rules) allowed (putArray bytes offset length) := by
  unfold putArray
  split
  · exact put_fit _
  · split
    · exact within_refuse _
    · exact put_fit _

theorem seek_fit (p : Nat) : Within (Fit rules) allowed (seek p) := by
  intro b hb
  by_cases hp : p ≤ b.size
  · exact (seek_yields hp).ends ⟨hb.sound.seek hp, hb.rules⟩
  · exact (seek_refused (Nat.lt_of_not_le hp)).ends_refused hb

theorem reserve_fit (n : Nat) : Within (Fit rules) allowed (reserve n) := by
  intro b hb
  by_cases hn : n ≤ b.rules.maxCapacity.toNat
  · exact (reserve_yields hb.sound.cursor hb.sound.stored hn).ends ⟨hb.sound.extended' hn, hb.rules⟩
  · exact (reserve_refused hb.sound (Nat.lt_of_not_le hn)).ends_refused hb

theorem resize_fit (n : Nat) : Within (Fit rules) allowed (resize n) := by
  intro b hb
  by_cases hn : n ≤ b.rules.maxCapacity.toNat
  · exact (resize_yields hb.sound hn).ends ⟨hb.sound.resized hn, hb.rules⟩
  · exact (resize_refused (Nat.lt_of_not_le hn)).ends_refused hb

theorem clear_fit : Within (Fit rules) allowed (clear (ε := ε)) :=
  fun b hb => clear_yields.ends ⟨sound_empty b.rules, hb.rules⟩

theorem paste_fit (hs : s.Sound) : Within (Fit rules) allowed (paste s) := by
  intro b hb
  by_cases he : b.position = b.size
  · by_cases hn : b.size + s.length ≤ b.rules.maxCapacity.toNat
    · have hrules : (b.pasted s).rules = rules := (rules_pasted b s).trans hb.rules
      exact (paste_yields hb.sound he hn).ends ⟨hb.sound.pasted hs hn, hrules⟩
    · exact (paste_refused he (Nat.lt_of_not_le hn)).ends_refused hb
  · exact (paste_misplaced he).ends_refused hb

theorem Sound.copy_unbroken (hb : b.Sound) (offset length : Nat) : Unbroken (b.copy offset length) := by
  by_cases hle : offset + length ≤ b.capacity
  · obtain ⟨s, hs, -⟩ := copy_matches hb hle
    rw [hs]
    exact unbroken_ok s
  · rw [copy_refused (Nat.lt_of_not_le hle)]
    exact unbroken_refused _

theorem append_fit (hs : source.Sound) (offset length : Nat) :
    Within (Fit rules) allowed (append source offset length) := by
  have hend : Within (Fit rules) allowed checkAtEnd := by
    intro b hb
    by_cases he : b.position = b.size
    · exact (checkAtEnd_yields he).ends hb
    · exact (checkAtEnd_refused he).ends_refused hb
  refine hend.andThen fun _ => Within.bind ?_ ?_
  · exact within_inspect fun _ _ f hf => absurd hf (hs.copy_unbroken offset length f)
  · exact fun _ s _ hc => paste_fit (copy_sound hs hc)

theorem available_fit : Within (Fit rules) allowed (available (ε := ε)) :=
  within_inspect fun b hb f hf => by
    rw [if_neg (Nat.not_lt.mpr hb.sound.cursor)] at hf
    cases hf

theorem replay_fit (entries : List Cell) : Within (Fit rules) allowed (replay tidy entries) := by
  have hwrite (cell : Cell) : Within (Fit rules) allowed (writeThen tidy cell.size cell.value) :=
    write_fit cell.size cell.value
  exact (Within.each hwrite entries).andThen fun _ => seek_fit 0

theorem ofCells_within {P : σ → Prop} (rules : Rules) (entries : List Cell) :
    Within P allowed (ofCells rules entries) :=
  (within_apart _ _ (replay_fit entries _ ⟨sound_empty rules, rfl⟩).unbroken).andThen fun _ =>
    within_pure _

theorem decode_within {P : σ → Prop} (rules : Rules) (bytes : List UInt8) :
    Within P allowed (decode rules bytes) := by
  have hcells : Within P allowed (decodeCells bytes) := by
    intro t ht
    rcases decodeCells_outcome bytes t with ⟨cells, -, hy⟩ | ⟨error, -, hy⟩
    · exact hy.ends ht
    · exact hy.ends_refused ht
  refine hcells.andThen fun cells => ((ofCells_within rules cells).mapError _).andThen fun _ => ?_
  exact (within_emit _).andThen fun _ => within_pure _

theorem decode_fit {bytes : List UInt8} {t : σ} (h : (decode rules bytes t).result = .ok b) :
    Fit rules b := by
  obtain ⟨entries, u, hc⟩ := ofCells_of_decode h
  obtain ⟨-, rfl⟩ := ofCells_replay hc
  have hend : (replay tidy entries).Ends (empty rules) (Fit rules) fun _ => False :=
    replay_fit entries _ ⟨sound_empty rules, rfl⟩
  exact hend.state

/-- What bytes stand for does not depend on where they are read. -/
theorem decode_agree (R : σ → τ → Prop) (rules : Rules) (bytes : List UInt8) :
    Agree R (decode rules bytes) (decode rules bytes) := by
  have hcells : Agree R (decodeCells bytes) (decodeCells bytes) :=
    (agree_apart R _ _).bind fun _ => agree_ite _ (agree_pure R _) (agree_refuse R _)
  have hbuffer (cells : List Cell) : Agree R (ofCells rules cells) (ofCells rules cells) :=
    (agree_apart R _ _).bind fun _ => agree_pure R _
  refine hcells.bind fun cells => ((hbuffer cells).mapError _).bind fun b => ?_
  exact (agree_emit R _).bind fun _ => agree_pure R _

theorem decode_anywhere {bytes : List UInt8} {s : σ} (h : (decode rules bytes).Yields s r s) (t : τ) :
    (decode rules bytes).Yields t r t where
  result := ((decode_agree (fun _ _ => True) rules bytes t s trivial).1).trans h.result
  state := (decode_agree (fun (u : τ) (_ : σ) => u = t) rules bytes t s rfl).2

theorem Fit.next (hb : Fit rules b) (hx : b.Spanned) (wanted : Tag) :
    (Buffer.next wanted).Ends b (Fit rules) allowed := by
  have hpeek := hb.sound.peek_unbroken hx wanted
  rcases hp : b.peek wanted with (e | f) | _ | ⟨cell, stop⟩
  · exact (next_error hp).ends_refused hb
  · exact absurd hp (hpeek f)
  · exact (next_end hp).ends hb
  · obtain ⟨hlt, hle, -⟩ := peek_some hp
    have hfit : Fit rules { b with position := stop } := ⟨hb.sound.read_to hlt hle, hb.rules⟩
    have hy := next_some hp
    split at hy
    · exact hy.ends hfit
    · exact hy.ends_refused hfit

section
variable (hm : rules.maxCapacity.toNat < Size.largest)
include hm

theorem next_fit (wanted : Tag) : Within (Fit rules) allowed (next wanted) :=
  fun _ hb => hb.next (hb.sound.spanned (hb.rules ▸ hm)) wanted

theorem cells_fit : Within (Fit rules) allowed (inspect Buffer.cells) :=
  within_inspect fun _ hb f hf =>
    absurd hf (hb.sound.cellsFrom_unbroken (hb.sound.spanned (hb.rules ▸ hm)) 0 f)

theorem encode_fit : Within (Fit rules) allowed encode := by
  refine ((cells_fit hm).mapError _).andThen fun cells => ?_
  refine (within_apart _ _ ((Marshal.mild_encodeEntries cells) _ trivial).unbroken).andThen fun _ => ?_
  exact (within_emit _).andThen fun _ => within_pure _

theorem Edit.fit (e : Edit) : Within (Fit rules) allowed e.run := by
  cases e with
  | write size value => exact (write_fit size value).map _
  | seek p => exact (seek_fit p).map _
  | resize n => exact (resize_fit n).map _
  | reserve n => exact (reserve_fit n).map _
  | clear => exact clear_fit.map _
  | read r => exact r.within (next_fit hm)

theorem Call.fit (c : Call) (hs : ∀ s, c = .paste s → s.Sound) : Within (Fit rules) allowed c.run := by
  cases c with
  | edit e => exact ((e.fit hm).mapError _).map _
  | put item => exact ((put_fit item).mapError _).map _
  | putArray bytes offset length => exact ((putArray_fit bytes offset length).mapError _).map _
  | paste s => exact ((paste_fit (hs s rfl)).mapError _).map _
  | available => exact (available_fit.mapError _).map _
  | cellAt offset =>
    refine Within.map (Within.mapError (within_inspect fun b hb f hf => ?_) _) _
    rw [hb.sound.cellAt_eq] at hf
    cases hf
  | cells => exact ((cells_fit hm).mapError _).map _
  | encode => exact (encode_fit hm).map _

end

/-- The largest limit that is asked for here. It leaves room for the offset behind any cell. -/
def roomiest : Nat := 2147483648

/-- A buffer that calls lead to, under such a limit. -/
structure Usable (b : Buffer) : Prop where
  reachable : Reachable b
  room : b.rules.maxCapacity.toNat ≤ roomiest

/-- What calls lead to under the rules of before is usable if it was so before. -/
theorem within_usable {m : Action Buffer ε α}
    (hfit : ∀ rules : Rules, rules.maxCapacity.toNat < Size.largest → Within (Fit rules) allowed m)
    (hr : ∀ b, Reachable b → Reachable (m b).state) : Within Usable allowed m := by
  intro b hb
  have hroom : b.rules.maxCapacity.toNat < Size.largest := Nat.lt_of_le_of_lt hb.room (by decide)
  obtain ⟨hstate, hfault⟩ := hfit b.rules hroom b ⟨hb.reachable.sound, rfl⟩
  exact ⟨⟨hr b hb.reachable, hstate.rules ▸ hb.room⟩, hfault⟩

theorem reachable_paste (h : Reachable b) (hs : Exported s) : Reachable (Buffer.paste s b).state := by
  obtain ⟨source, offset, length, hsource, hc⟩ := hs
  exact h.paste hsource hc

theorem Call.usable (c : Call) (hc : ∀ s, c = .paste s → Exported s) :
    Within Usable allowed c.run := by
  refine within_usable (fun rules hm => c.fit hm fun s h => (hc s h).sound) fun b hb => ?_
  by_cases hp : ∃ s, c = .paste s
  · obtain ⟨s, rfl⟩ := hp
    have hsame := (((shadowed_self (Buffer.paste s)).mapError Marshal.Error.buffer).map
      fun _ => Answer.done) b
    exact hsame.1 ▸ reachable_paste hb (hc s rfl)
  · exact hb.call c fun s h => hp ⟨s, h⟩

/-- What a call comes down to keeps buffers usable as the call does. -/
theorem usable_of_call {m : Action Buffer Error α} {answer : α → Answer} (c : Call)
    (hc : ∀ s, c = .paste s → Exported s) (h : c.run = refusing answer m) :
    Within Usable allowed m := by
  have hshadow := ((shadowed_self m).mapError Marshal.Error.buffer).map answer
  exact (h ▸ c.usable hc).shadow hshadow

theorem usable_of_edit {m : Action Buffer Error α} {answer : α → Answer} (e : Edit)
    (h : e.run = answer <$> m) : Within Usable allowed m := by
  have he : Within Usable allowed e.run := usable_of_call (.edit e) (by simp) rfl
  exact (h ▸ he).shadow ((shadowed_self m).map answer)

theorem upheld_usable {rules : Rules} (hroom : rules.maxCapacity.toNat ≤ roomiest) :
    Registry.Upheld Usable allowed rules where
  empty := ⟨.empty rules, hroom⟩
  next wanted := by
    -- No call reads a cell and says whether there was one; with a fallback there is.
    have hread : Within Usable allowed (readOr (.int 0) wanted) :=
      usable_of_edit (.read (.value (.int 0) wanted)) rfl
    exact hread.shadow ((shadowed_self (next wanted)).map _)
  put item := usable_of_call (.put item) (by simp) rfl
  putArray bytes offset length := usable_of_call (.putArray bytes offset length) (by simp) rfl
  available := usable_of_call .available (by simp) rfl
  resize n := usable_of_edit (.resize n) rfl
  seek p := usable_of_edit (.seek p) rfl
  reserve n := usable_of_edit (.reserve n) rfl
  clear := usable_of_edit .clear rfl
  copy offset length := within_inspect fun _ hb f hf =>
    absurd hf (hb.reachable.sound.copy_unbroken offset length f)
  paste b s offset length hb hs := by
    refine usable_of_call (.paste s) (fun s' hs' => ?_) rfl
    cases hs'
    exact ⟨b, offset, length, hb.reachable, hs⟩
  encode := by
    have hencode : Within Usable allowed Call.encode.run := Call.encode.usable (by simp)
    exact hencode.shadow ((shadowed_self encode).map _)
  decode bytes := decode_within rules bytes
  decoded bytes t b h := by
    have hsame := (decode_agree (fun _ _ => True) rules bytes () t trivial).1
    exact ⟨.decode (hsame.trans h), (decode_fit h).rules ▸ hroom⟩

theorem append_usable (h : Reachable source) (offset length : Nat) :
    Within Usable allowed (append source offset length) :=
  within_usable (fun _ _ => append_fit h.sound offset length) fun _ hb => hb.append h offset length

/-- No call on the buffer ends in a fault, and where storage is indexed or cut out, it is there. -/
structure Faultless (b : Buffer) : Prop where
  call : ∀ c : Call, (∀ s, c = .paste s → Exported s) → Unbroken (c.run b).result
  copy : ∀ offset length, Unbroken (b.copy offset length)
  append : ∀ source, Reachable source → ∀ offset length, Unbroken (append source offset length b).result
  cursor : b.position ≤ b.size
  indexed : ∀ i < b.size, i < b.slots.size
  named : ∀ i id : Nat, b.slots[i]? = some (some id) → id < b.arena.size
  cut : ∀ offset length s, b.copy offset length = .ok s → offset + length ≤ b.slots.size
  pasted : ∀ s, Exported s → ∀ i id : Nat, s.slots[i]? = some (some id) → id < s.cells.size

theorem Usable.faultless (h : Usable b) : b.Faultless where
  call c hc := (c.usable hc b h).unbroken
  copy := h.reachable.sound.copy_unbroken
  append _ hs offset length := (append_usable hs offset length b h).unbroken
  cursor := h.reachable.sound.cursor
  indexed _ hi := Nat.lt_of_lt_of_le hi h.reachable.sound.stored
  named i id hi := h.reachable.sound.storage.closed i id (Slots.name_eq_some.mpr hi)
  cut offset length s hs := Nat.le_of_not_lt fun hlt => by
    cases (copy_refused hlt).symm.trans hs
  pasted s hs i id hi := hs.sound.closed i id (Slots.name_eq_some.mpr hi)

end Buffer

end Parcel
