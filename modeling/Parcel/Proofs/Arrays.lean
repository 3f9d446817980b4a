import Parcel.Proofs.Advancing
import Parcel.Proofs.Items

/-!
Byte arrays among whatever else the data hold. A byte array is read exactly where the int and the bytes
that make it up lie whole; neither the zeros that reads give at the end of the data nor cells of other
kinds are ever taken for a part of one.
-/
namespace Parcel.Buffer
open Parcel.Action

/-- What lies at the cursor is a byte array, absent or not. At the end of the data an empty one is read,
unless a move of the cursor is due. -/
inductive HoldsArray (b : Buffer) : Option (List UInt8) → Prop
  | absent {size : UInt32} (h : b.Intact b.position ⟨size, .int Item.absent⟩) : HoldsArray b none
  | empty {size : UInt32} (h : b.Intact b.position ⟨size, .int 0⟩) : HoldsArray b (some [])
  | atEnd (he : b.position = b.size) (hd : ¬ b.Due) : HoldsArray b (some [])
  | announced {size size' : UInt32} {n : Int32} {bytes : List UInt8}
    (h : b.Intact b.position ⟨size, .int n⟩) (hn : n.toInt = bytes.length)
    (hbytes : b.Intact (b.position + size.toNat) ⟨size', .byteArray bytes⟩) (hne : bytes ≠ []) :
    HoldsArray b (some bytes)

variable {b : Buffer} {cell : Cell} {wanted : Tag} {found : Option Value}
  {content : Option (List UInt8)} {dest bytes : List UInt8}

theorem ok_of_length {length : Int} {payload : List UInt8}
    (h : ((if payload.length = length then pure payload
      else refuse (.lengthMismatch length payload.length) : Action Buffer Error _) b).result = .ok bytes) :
    payload = bytes ∧ length = bytes.length := by
  split at h
  · rename_i hlen
    cases h
    exact ⟨rfl, hlen.symm⟩
  · cases h

section
variable (hb : b.Sound) (hm : b.rules.maxCapacity.toNat < Size.largest)
include hb hm

theorem Sound.ahead_of_intact (h : b.Intact b.position cell) : b.Ahead [cell] := by
  obtain ⟨hpos, hwhole⟩ := hb.intact_iff.mp h
  exact ⟨hb, hm, _, hpos, hwhole, rfl⟩

theorem Sound.ahead_of_pair {cell' : Cell} (h : b.Intact b.position cell)
    (h' : b.Intact (b.position + cell.size.toNat) cell') : b.Ahead [cell, cell'] := by
  obtain ⟨hpos, hwhole⟩ := hb.intact_iff.mp h
  obtain ⟨hpos', hwhole'⟩ := hb.intact_iff.mp h'
  exact ⟨hb, hm, _, hpos, hwhole, hpos', hwhole', rfl⟩

/-- A read gives the value of an intact cell of the kind, or nothing at the end of the data. -/
theorem Sound.ok_of_next (h : (next wanted b).result = .ok found) :
    (found = none ∧ b.position = b.size ∧ ¬ b.Due) ∨
    ∃ cell, found = some cell.value ∧ cell.value.tag = wanted ∧ b.Intact b.position cell ∧
      (next wanted b).state = b.passed cell.size.toNat := by
  obtain ⟨result, stop, he, hy⟩ := hb.ending hm wanted
  obtain rfl : result = .ok found := hy.result.symm.trans h
  cases he with
  | stored hintact htag => exact .inr ⟨_, rfl, htag, hintact, hy.state⟩
  | atEnd hend hd => exact .inl ⟨rfl, hend, hd⟩

/-- What is read for the bytes of an announced length are bytes of that length, and no default. -/
theorem Sound.intact_of_readAnnounced {n : Int32} (hn : n ≠ 0)
    (h : (readAnnounced n.toInt b).result = .ok bytes) :
    n.toInt = bytes.length ∧ bytes ≠ [] ∧ ∃ size, b.Intact b.position ⟨size, .byteArray bytes⟩ := by
  have hne {bytes : List UInt8} (hlen : n.toInt = bytes.length) : bytes ≠ [] := by
    rintro rfl
    exact hn (Int32.toInt_inj.mp hlen)
  obtain ⟨found, hnext, h⟩ := ok_of_bind h
  rcases hb.ok_of_next hm hnext with ⟨rfl, -⟩ | ⟨⟨size, v⟩, rfl, htag, hintact, -⟩
  · obtain ⟨rfl, hlen⟩ := ok_of_length h
    exact absurd rfl (hne hlen)
  · cases v with
    | byteArray payload =>
      obtain ⟨rfl, hlen⟩ := ok_of_length h
      exact ⟨hlen, hne hlen, size, hintact⟩
    | byte | int | long | float | double | string | binder => cases htag

theorem Sound.holdsArray_of_readArray (h : (readArray b).result = .ok content) :
    b.HoldsArray content := by
  obtain ⟨found, hnext, h⟩ := ok_of_bind h
  rcases hb.ok_of_next hm hnext with ⟨rfl, he, hd⟩ | ⟨⟨size, v⟩, rfl, htag, hintact, hstate⟩
  · cases h
    exact .atEnd he hd
  · cases v with
    | int n =>
      dsimp only at h
      rw [hstate] at h
      by_cases habsent : n = Item.absent
      · rw [if_pos habsent] at h
        cases h
        exact .absent (habsent ▸ hintact)
      by_cases hzero : n = 0
      · rw [if_neg habsent, if_pos hzero] at h
        cases h
        exact .empty (hzero ▸ hintact)
      rw [if_neg habsent, if_neg hzero] at h
      obtain ⟨bytes, hannounced, h⟩ := ok_of_bind h
      cases h
      have hahead := (hb.ahead_of_intact hm hintact).next.2
      obtain ⟨hn, hne, size', hbytes⟩ :=
        hahead.sound.intact_of_readAnnounced hahead.small hzero hannounced
      exact .announced hintact hn hbytes hne
    | byte | long | float | double | string | byteArray | binder => cases htag

theorem Sound.readArray_of_holdsArray (h : b.HoldsArray content) :
    (readArray b).result = .ok content := by
  cases h with
  | absent h =>
    have hnext := (hb.ahead_of_intact hm h).next.1
    exact (hnext.bind (yields_pure none _)).result
  | empty h =>
    have hnext := (hb.ahead_of_intact hm h).next.1
    exact (hnext.bind (yields_pure (some []) _)).result
  | atEnd he hd =>
    have hnext := next_at_end hd (Nat.le_of_eq he.symm) .int
    exact (hnext.bind (yields_pure (some []) b)).result
  | announced h hn hbytes hne =>
    have hahead := hb.ahead_of_pair hm h hbytes
    exact (hahead.readArray hne hn).result

theorem Sound.readArray_unbroken : Unbroken (readArray b).result := by
  have hfit : Fit b.rules b := ⟨hb, rfl⟩
  exact (readArray_within (next_fit hm) b hfit).unbroken

end

theorem readArrayInto_filled (h : (readArray b).result = .ok (some bytes))
    (hlen : bytes.length = dest.length) :
    readArrayInto.Yields (b, dest) (.ok ()) ((readArray b).state, bytes) := by
  have hof : (readArrayOf dest.length).Yields b (.ok bytes) (readArray b).state := by
    refine Yields.bind ⟨h, rfl⟩ ?_
    dsimp only
    rw [if_pos hlen]
    exact yields_pure _ _
  exact (yields_gets _ _).bind ((hof.first dest).bind (yields_modify _ _))

/-- An array of another length, or none, leaves the destination as it is. -/
theorem readArrayInto_refused (hu : Unbroken (readArray b).result)
    (h : ∀ bytes, (readArray b).result = .ok (some bytes) → bytes.length ≠ dest.length) :
    ∃ e, readArrayInto.Yields (b, dest) (.error (.refused e)) ((readArray b).state, dest) := by
  have hof : ∃ e, (readArrayOf dest.length).Yields b (.error (.refused e)) (readArray b).state := by
    rcases hr : (readArray b).result with (e | f) | _ | bytes
    · exact ⟨e, Yields.stop ⟨hr, rfl⟩⟩
    · exact absurd hr (hu f)
    · exact ⟨_, Yields.bind ⟨hr, rfl⟩ (yields_refuse _ _)⟩
    · refine ⟨.lengthMismatch dest.length bytes.length, Yields.bind ⟨hr, rfl⟩ ?_⟩
      dsimp only
      rw [if_neg (h bytes hr)]
      exact yields_refuse _ _
  obtain ⟨e, he⟩ := hof
  exact ⟨e, (yields_gets _ _).bind (he.first dest).stop⟩

/-- A byte array is read exactly if one lies at the cursor, and everything else is refused. A destination
is filled exactly if the array is there and as long, and otherwise left alone; the buffer is left in either
case as the read of the array leaves it. -/
theorem readArray_exact (h : Reachable b) (small : b.rules.maxCapacity.toNat ≤ 2147483648) :
    (∀ content, (readArray b).result = .ok content ↔ b.HoldsArray content) ∧
    ((∀ content, ¬ b.HoldsArray content) → ∃ e, (readArray b).result = .error (.refused e)) ∧
    (∀ dest : List UInt8,
      (∀ bytes, (readArray b).result = .ok (some bytes) → bytes.length = dest.length →
        readArrayInto.Yields (b, dest) (.ok ()) ((readArray b).state, bytes)) ∧
      ((∀ bytes, (readArray b).result = .ok (some bytes) → bytes.length ≠ dest.length) →
        ∃ e, readArrayInto.Yields (b, dest) (.error (.refused e)) ((readArray b).state, dest))) ∧
    readBlob b = readArray b := by
  have hb := h.sound
  have hm : b.rules.maxCapacity.toNat < Size.largest := Nat.lt_of_le_of_lt small (by decide)
  have hu := hb.readArray_unbroken hm
  refine ⟨fun content => ⟨hb.holdsArray_of_readArray hm, hb.readArray_of_holdsArray hm⟩, fun hno => ?_,
    fun dest => ⟨fun bytes => readArrayInto_filled, readArrayInto_refused hu⟩, rfl⟩
  rcases hr : (readArray b).result with (e | f) | content
  · exact ⟨e, rfl⟩
  · exact absurd hr (hu f)
  · exact absurd (hb.holdsArray_of_readArray hm hr) (hno content)

/-- Two bytes, in cells with room to spare, and destinations of two bytes and of one. -/
theorem readArray_exact_spacious :
    let b := ((Call.edit (.seek 0)).run ((Call.edit (.write 6 (.byteArray [8, 9]))).run
      ((Call.edit (.write 8 (.int 2))).run (empty { maxCapacity := 64 })).state).state).state
    (readArray b).result = .ok (some [8, 9]) ∧
      (∃ c, readArrayInto.Yields (b, [0, 0]) (.ok ()) (c, [8, 9])) ∧
      ∃ e c, readArrayInto.Yields (b, [0]) (.error (.refused e)) (c, [0]) := by
  intro b
  have hint := (Reachable.empty { maxCapacity := 64 }).call (.edit (.write 8 (.int 2))) (by simp)
  have hbytes := hint.call (.edit (.write 6 (.byteArray [8, 9]))) (by simp)
  have h : Reachable b := hbytes.call (.edit (.seek 0)) (by simp)
  obtain ⟨hread, -, hinto, -⟩ := readArray_exact h (by decide)
  have hprefix : b.Intact 0 ⟨8, .int 2⟩ := ⟨by decide, 0, by decide, by decide⟩
  have hpayload : b.Intact 8 ⟨8, .byteArray [8, 9]⟩ := ⟨by decide, 1, by decide, by decide⟩
  have hok := (hread (some [8, 9])).mpr (.announced hprefix rfl hpayload (by simp))
  refine ⟨hok, ⟨_, (hinto [0, 0]).1 [8, 9] hok rfl⟩, ?_⟩
  obtain ⟨e, he⟩ := (hinto [0]).2 fun bytes hr => by
    cases hok.symm.trans hr
    decide
  exact ⟨e, _, he⟩

end Parcel.Buffer
