import Parcel.Proofs.Requests

/-!
Batches as single commands. A batch does what its commands do one by one up to the first that fails, its
receipts tell what came of each, and a batch in two parts is the second part behind the first.
-/
namespace Parcel.Registry
open Parcel.Action

/-- Commands carried out one by one up to the first that fails: what the others gave, the failure if there
is one, and the registry behind them. -/
inductive OneByOne (handle : UInt64) :
    Registry → List Command → List Outcome → Option (Failure Command.Error) → Registry → Prop
  | done : OneByOne handle r [] [] none r
  | next (h : (perform handle command).Yields r (.ok outcome) s)
    (rest : OneByOne handle s commands outcomes stop t) :
    OneByOne handle r (command :: commands) (outcome :: outcomes) stop t
  | stop (h : (perform handle command).Yields r (.error e) s) :
    OneByOne handle r (command :: commands) [] (some e) s

/-- The receipts of commands that stand at `index` and behind it. A fault leaves none. -/
def receipts (index : Nat) : List Outcome → Option (Failure Command.Error) →
    Except (Failure ε) (List Receipt)
  | [], none => .ok []
  | [], some (.refused e) => .ok [⟨index, e.status, none, some e.message⟩]
  | [], some (.broken f) => .error (.broken f)
  | outcome :: outcomes, stop =>
    (receipts (index + 1) outcomes stop).map (⟨index, .ok, some outcome, none⟩ :: ·)

/-- The receipt of a command that stands `count` places further back. -/
def shifted (count : Nat) (receipt : Receipt) : Receipt :=
  { receipt with index := count + receipt.index }

variable {r s t : Registry} {handle : UInt64} {commands front back : List Command}
  {outcomes later : List Outcome} {stop : Option (Failure Command.Error)} {rs : List Receipt}

theorem exists_oneByOne (handle : UInt64) (r : Registry) (commands : List Command) :
    ∃ outcomes stop t, OneByOne handle r commands outcomes stop t := by
  induction commands generalizing r with
  | nil => exact ⟨[], none, r, .done⟩
  | cons command commands ih =>
    cases hr : (perform handle command r).result with
    | error e => exact ⟨[], some e, _, .stop ⟨hr, rfl⟩⟩
    | ok outcome =>
      obtain ⟨outcomes, stop, t, ht⟩ := ih (perform handle command r).state
      exact ⟨_, _, _, .next ⟨hr, rfl⟩ ht⟩

/-- A batch does what its commands do one by one. -/
theorem OneByOne.batchFrom (h : OneByOne handle r commands outcomes stop t) (index : Nat) :
    (batchFrom (ε := ε) handle index commands).Yields r (receipts index outcomes stop) t := by
  induction h generalizing index with
  | done => exact yields_pure [] _
  | next h _ ih => exact h.attempt.bind ((ih (index + 1)).map_any _)
  | @stop _ _ e _ _ h =>
    cases e with
    | refused e => exact h.attempt.bind ((yields_emit _ _).bind (yields_pure _ _))
    | broken f => exact h.attempt.stop

theorem OneByOne.batch (h : OneByOne handle r commands outcomes stop t) :
    (batch (ε := ε) handle commands).Yields r (receipts 0 outcomes stop) t := h.batchFrom 0

theorem OneByOne.append_done (h : OneByOne handle r front outcomes none s)
    (h' : OneByOne handle s back later stop t) :
    OneByOne handle r (front ++ back) (outcomes ++ later) stop t := by
  generalize hstop : (none : Option (Failure Command.Error)) = stop' at h
  induction h with
  | done => exact h'
  | next h _ ih => exact .next h (ih h' hstop)
  | stop => cases hstop

/-- What stands behind a command that fails is not tried. -/
theorem OneByOne.append_stopped (h : OneByOne handle r front outcomes (some e) t)
    (back : List Command) : OneByOne handle r (front ++ back) outcomes (some e) t := by
  generalize hstop : some e = stop at h
  induction h with
  | done => cases hstop
  | next h _ ih => exact .next h (ih hstop)
  | stop h => exact .stop h

theorem OneByOne.length_eq (h : OneByOne handle r commands outcomes none t) :
    outcomes.length = commands.length := by
  generalize hstop : (none : Option (Failure Command.Error)) = stop at h
  induction h with
  | done => rfl
  | next _ _ ih => exact congrArg (· + 1) (ih hstop)
  | stop => cases hstop

/-- The status, the outcome and the detail of a receipt agree on whether its command succeeded. -/
def Told (receipt : Receipt) : Prop :=
  (receipt.status = .ok ↔ receipt.outcome.isSome) ∧ (receipt.outcome.isSome ↔ receipt.detail = none)

/-- Receipts that are numbered from `index` on without a gap and tell of one failure at most, the last. -/
structure Orderly (index : Nat) (rs : List Receipt) : Prop where
  numbered : rs.map (·.index) = List.range' index rs.length
  told : ∀ x ∈ rs, Told x
  last : ∀ x ∈ rs.dropLast, x.status = .ok

/-- No receipt tells of a failure. -/
def Clean (rs : List Receipt) : Prop := ∀ x ∈ rs, x.status = .ok

/-- No error has the status of a success. -/
theorem status_ne_ok (e : Command.Error) : e.status ≠ .ok := by
  cases e with
  | buffer e => cases e <;> simp [Command.Error.status, Error.status]
  | marshal e =>
    cases e with
    | buffer e => cases e <;> simp [Command.Error.status, Marshal.Error.status, Error.status]
    | transfer | malformed | unknownTag => simp [Command.Error.status, Marshal.Error.status]

theorem told_outcome (index : Nat) (outcome : Outcome) : Told ⟨index, .ok, some outcome, none⟩ := by
  simp [Told]

theorem told_error (index : Nat) (e : Command.Error) :
    Told ⟨index, e.status, none, some e.message⟩ := by
  simp [Told, status_ne_ok]

theorem orderly_nil (index : Nat) : Orderly index [] := ⟨rfl, by simp, by simp⟩

theorem Orderly.cons (h : Orderly (index + 1) rs) (outcome : Outcome) :
    Orderly index (⟨index, .ok, some outcome, none⟩ :: rs) where
  numbered := by
    rw [List.map_cons, h.numbered]
    rfl
  told := List.forall_mem_cons.mpr ⟨told_outcome index outcome, h.told⟩
  last := by
    cases rs with
    | nil => simp
    | cons x rs =>
      rw [List.dropLast_cons_of_ne_nil (List.cons_ne_nil x rs)]
      exact List.forall_mem_cons.mpr ⟨rfl, h.last⟩

theorem exists_of_receipts_cons (h : receipts (ε := ε) index (outcome :: outcomes) stop = .ok rs) :
    ∃ rest, receipts (ε := ε) (index + 1) outcomes stop = .ok rest ∧
      rs = ⟨index, .ok, some outcome, none⟩ :: rest := by
  rw [receipts] at h
  cases hr : receipts (ε := ε) (index + 1) outcomes stop with
  | error e => rw [hr] at h; cases h
  | ok rest =>
    rw [hr] at h
    cases h
    exact ⟨rest, rfl, rfl⟩

theorem receipts_orderly (h : receipts (ε := ε) index outcomes stop = .ok rs) : Orderly index rs := by
  induction outcomes generalizing index rs with
  | nil =>
    rcases stop with - | e | f <;> cases h
    · exact orderly_nil index
    · exact ⟨rfl, by simpa using told_error index e, by simp⟩
  | cons outcome outcomes ih =>
    obtain ⟨rest, hr, rfl⟩ := exists_of_receipts_cons h
    exact (ih hr).cons outcome

/-- The receipts tell of a failure exactly if there was one. -/
theorem receipts_clean (h : receipts (ε := ε) index outcomes stop = .ok rs) :
    Clean rs ↔ stop = none := by
  induction outcomes generalizing index rs with
  | nil =>
    rcases stop with - | e | f <;> cases h
    · simp [Clean]
    · simp [Clean, status_ne_ok]
  | cons outcome outcomes ih =>
    obtain ⟨rest, hr, rfl⟩ := exists_of_receipts_cons h
    rw [Clean, List.forall_mem_cons, ← Clean, ih hr]
    exact and_iff_right rfl

/-- Only a fault leaves no receipts. -/
theorem exists_receipts (index : Nat) (outcomes : List Outcome)
    (stop : Option (Failure Command.Error)) (h : ∀ f, stop ≠ some (.broken f)) :
    ∃ rs, receipts (ε := ε) index outcomes stop = .ok rs := by
  induction outcomes generalizing index with
  | nil =>
    rcases stop with - | e | f
    · exact ⟨[], rfl⟩
    · exact ⟨_, rfl⟩
    · exact absurd rfl (h f)
  | cons outcome outcomes ih =>
    obtain ⟨rs, hrs⟩ := ih (index + 1)
    refine ⟨⟨index, .ok, some outcome, none⟩ :: rs, ?_⟩
    rw [receipts, hrs]
    rfl

theorem receipts_append (index : Nat) (outcomes later : List Outcome)
    (h : receipts (ε := ε) index outcomes none = .ok rs) (stop : Option (Failure Command.Error)) :
    receipts (ε := ε) index (outcomes ++ later) stop =
      (receipts (index + outcomes.length) later stop).map (rs ++ ·) := by
  induction outcomes generalizing index rs with
  | nil =>
    cases h
    cases hl : receipts (ε := ε) index later stop <;> exact hl
  | cons outcome outcomes ih =>
    obtain ⟨rest, hr, rfl⟩ := exists_of_receipts_cons h
    rw [List.cons_append, receipts, ih (index + 1) hr, List.length_cons]
    rw [show index + 1 + outcomes.length = index + (outcomes.length + 1) by omega]
    cases receipts (ε := ε) (index + (outcomes.length + 1)) later stop <;> rfl

theorem receipts_shifted (count index : Nat) (outcomes : List Outcome)
    (stop : Option (Failure Command.Error)) :
    receipts (ε := ε) (count + index) outcomes stop =
      (receipts index outcomes stop).map (List.map (shifted count)) := by
  induction outcomes generalizing index with
  | nil => rcases stop with - | e | f <;> rfl
  | cons outcome outcomes ih =>
    rw [receipts, receipts, Nat.add_assoc, ih (index + 1)]
    cases receipts (ε := ε) (index + 1) outcomes stop <;> rfl

theorem length_receipts (h : receipts (ε := ε) index outcomes stop = .ok rs) :
    rs.length = outcomes.length + stop.toList.length := by
  induction outcomes generalizing index rs with
  | nil => rcases stop with - | e | f <;> cases h <;> rfl
  | cons outcome outcomes ih =>
    obtain ⟨rest, hr, rfl⟩ := exists_of_receipts_cons h
    rw [List.length_cons, ih hr, List.length_cons]
    omega

theorem OneByOne.length_le (h : OneByOne handle r commands outcomes stop t) :
    outcomes.length + stop.toList.length ≤ commands.length := by
  induction h with
  | done => exact Nat.le_refl _
  | next _ _ ih =>
    rw [List.length_cons, List.length_cons]
    omega
  | stop => simp

/-- Receipts of fewer commands than that are all there is. -/
theorem OneByOne.take_receipts (h : OneByOne handle r commands outcomes stop t) :
    (receipts (ε := ε) 0 outcomes stop).map (List.take commands.length) = receipts 0 outcomes stop := by
  cases hr : receipts (ε := ε) 0 outcomes stop with
  | error e => rfl
  | ok rs =>
    have hle := h.length_le
    rw [← length_receipts hr] at hle
    exact congrArg Except.ok (List.take_of_length_le hle)

/-- A batch does what its commands do one by one up to the first that fails, and its receipts tell what
came of each. A batch in two parts is the second part behind the first if nothing failed in that, and
otherwise the first part alone. -/
theorem batch_composes (handle : UInt64) (r : Registry) (front back : List Command) :
    ∃ result s, (batch (ε := ε) handle front).Yields r result s ∧
      (∃ outcomes stop, OneByOne handle r front outcomes stop s ∧ result = receipts 0 outcomes stop ∧
        ((∀ f, stop ≠ some (.broken f)) → ∃ rs, result = .ok rs)) ∧
      (∀ rs, result = .ok rs → Orderly 0 rs) ∧
      (∀ rs, result = .ok rs → Clean rs → ∀ (result' : Except (Failure ε) (List Receipt)) t,
        (batch handle back).Yields s result' t → (batch handle (front ++ back)).Yields r
          (result'.map fun rs' => rs ++ rs'.map (shifted front.length)) t) ∧
      ((¬ ∃ rs, result = .ok rs ∧ Clean rs) →
        (batch handle (front ++ back)).Yields r result s) := by
  obtain ⟨outcomes, stop, s, hfront⟩ := exists_oneByOne handle r front
  refine ⟨receipts 0 outcomes stop, s, hfront.batch,
    ⟨outcomes, stop, hfront, rfl, exists_receipts 0 outcomes stop⟩, fun _ => receipts_orderly,
    fun rs hrs hclean result' t hback => ?_, fun hfail => ?_⟩
  · obtain rfl := (receipts_clean hrs).mp hclean
    obtain ⟨later, stop, t', hlater⟩ := exists_oneByOne handle s back
    have hall := (hfront.append_done hlater).batch (ε := ε)
    rw [receipts_append 0 outcomes later hrs stop, hfront.length_eq, Nat.add_comm,
      receipts_shifted front.length 0] at hall
    have hrun := hlater.batch (ε := ε)
    rw [← hback.result, ← hback.state, hrun.result, hrun.state]
    cases hr : receipts (ε := ε) 0 later stop <;> rwa [hr] at hall
  · cases stop with
    | some e => exact (hfront.append_stopped back).batch
    | none =>
      obtain ⟨rs, hrs⟩ := exists_receipts (ε := ε) 0 outcomes none (by simp)
      exact absurd ⟨rs, hrs, (receipts_clean hrs).mpr rfl⟩ hfail

/-- A batch that goes on behind a write, and one that ends at a place behind the data. -/
theorem batch_composes_outside :
    let r := (create (empty {})).state
    let written : Receipt := ⟨0, .ok, some .done, none⟩
    let outside (index limit : Nat) : Receipt :=
      let e : Error := .outOfBounds .dataPosition 9 limit
      ⟨index, .outOfBounds, none, some e.message⟩
    (∃ s, (batch (ε := Error) 1 [.put (.int 5)]).Yields r (.ok [written]) s ∧
      (batch (ε := Error) 1 [.put (.int 5), .seek 9]).Yields r (.ok [written, outside 1 4]) s) ∧
    (batch (ε := Error) 1 [.seek 9, .put (.int 5)]).Yields r (.ok [outside 0 0]) r := by
  intro r written outside
  constructor
  · obtain ⟨result, s, hfront, -, -, hclean, -⟩ :=
      batch_composes (ε := Error) 1 r [.put (.int 5)] [.seek 9]
    have hresult : result = .ok [written] := hfront.result.symm.trans rfl
    have hs : s = (batch (ε := Error) 1 [.put (.int 5)] r).state := hfront.state.symm
    subst hresult hs
    have hback : (batch (ε := Error) 1 [.seek 9]).Yields (batch (ε := Error) 1 [.put (.int 5)] r).state
      (.ok [outside 0 4]) (batch (ε := Error) 1 [.put (.int 5)] r).state := ⟨rfl, rfl⟩
    exact ⟨_, hfront, hclean _ rfl (by simp [Clean, written]) _ _ hback⟩
  · obtain ⟨result, s, hfront, -, -, -, hstopped⟩ :=
      batch_composes (ε := Error) 1 r [.seek 9] [.put (.int 5)]
    have hresult : result = .ok [outside 0 0] := hfront.result.symm.trans rfl
    have hs : s = r := hfront.state.symm.trans rfl
    subst hresult hs
    refine hstopped ?_
    rintro ⟨rs, hrs, hclean⟩
    cases hrs
    cases hclean (outside 0 0) List.mem_cons_self

end Parcel.Registry
