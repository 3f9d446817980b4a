import Parcel.Proofs.Quarantine

/-!
Poison is contained. After a buffer was poisoned, and until its handle is destroyed, all that does not
come to it goes as if nobody had poisoned it and nobody had come to it since. A batch on another buffer
that wants to append from it is no single request here: it goes on up to that, and this much of it has to
stay in the run it is compared with.
-/
namespace Parcel.Registry
open Parcel.Action

variable {rules : Buffer.Rules} {r p t : Registry} {handle x : UInt64} {b c : Buffer}
  {commands front back : List Command} {outcomes : List Outcome} {stop : Option (Failure Command.Error)}
  {rs : List Receipt}

/-- Whether a request comes to the buffer of a handle. -/
@[simp] def Request.comesTo (x : UInt64) (q : Request) : Bool :=
  q.holds = some x || x ∈ q.sources

/-- What is left of a request if nobody may come to the buffer of a handle: all of it, or nothing, or the
part of a batch in front of the first append from there. -/
@[simp] def Request.spare (x : UInt64) : Request → Option Request
  | .batch handle commands =>
    if handle = x then none else some (.batch handle (commands.takeWhile (·.source ≠ some x)))
  | q => if q.comesTo x then none else some q

/-- What is left of a reply: the receipts of the commands that there are. -/
def Request.cut : Request → Reply → Reply
  | .batch _ commands, .receipts rs => .receipts (rs.take commands.length)
  | _, reply => reply

/-- What is left of a request and of what came of it. -/
def Served.spare (x : UInt64) (m : Served) : Option Served :=
  (m.request.spare x).map fun q => ⟨q, m.result.map q.cut⟩

theorem Beside.entry? (h : Beside rules x b true r p) : p.entry? x = some ⟨x, b, true⟩ := by
  rw [h.replaced, entry?_replaced (contains_iff.mpr h.listed), if_pos rfl]

/-- The part in front of the first append from a buffer has none, and what follows begins with one. -/
theorem takeWhile_cases (x : UInt64) (commands : List Command) :
    x ∉ (commands.takeWhile (·.source ≠ some x)).filterMap Command.source ∧
    (commands = commands.takeWhile (·.source ≠ some x) ∨ ∃ offset length rest,
      commands = commands.takeWhile (·.source ≠ some x) ++ .append x offset length :: rest) := by
  induction commands with
  | nil => exact ⟨List.not_mem_nil, .inl rfl⟩
  | cons command commands ih =>
    by_cases hs : command.source = some x
    · rw [List.takeWhile_cons_of_neg (by simpa using hs)]
      refine ⟨List.not_mem_nil, .inr ?_⟩
      cases command with
      | append source offset length =>
        cases hs
        exact ⟨offset, length, commands, rfl⟩
      | put | putBlob | read | readBlob | enforce | measure | resize | seek | reserve | encode | decode
      | clear => cases hs
    · rw [List.takeWhile_cons_of_pos (by simpa using hs)]
      obtain ⟨hnot, hback⟩ := ih
      constructor
      · intro hm
        obtain ⟨c, hc, he⟩ := List.mem_filterMap.mp hm
        rcases List.mem_cons.mp hc with rfl | hc
        · exact hs he
        · exact hnot (List.mem_filterMap.mpr ⟨c, hc, he⟩)
      · rcases hback with hall | ⟨offset, length, rest, hall⟩
        · exact .inl (congrArg _ hall)
        · exact .inr ⟨offset, length, rest, congrArg (command :: ·) hall⟩

theorem batch_beside {q : Bool} (hne : handle ≠ x) (hs : x ∉ commands.filterMap Command.source) :
    Agree (Beside rules x b q) (batch (ε := ε) handle commands) (batch handle commands) := by
  have hw : Woven (fun _ => True) (fun _ => True) rules (· ≠ x)
      (· ∈ commands.filterMap Command.source) (batchFrom (ε := ε) handle 0 commands) := by
    apply batchFrom_woven (upheld_trivially rules)
    · exact hne
    · exact fun _ hs => hs
  exact hw.beside (fun h => h rfl) hs

/-- A batch does nothing more once it wants to append from a poisoned buffer. -/
theorem OneByOne.batch_cut (h : OneByOne handle p front outcomes stop t)
    (he : t.entry? x = some ⟨x, b, true⟩) (hc : commands = front ∨ ∃ offset length rest,
      commands = front ++ .append x offset length :: rest) :
    ∃ result, (Registry.batch (ε := ε) handle commands).Yields p result t ∧
      result.map (List.take front.length) = receipts 0 outcomes stop := by
  rcases hc with rfl | ⟨offset, length, rest, rfl⟩
  · exact ⟨_, h.batch, h.take_receipts⟩
  · cases stop with
    | some e => exact ⟨_, (h.append_stopped _).batch, h.take_receipts⟩
    | none =>
      obtain ⟨rs, hrs⟩ := exists_receipts (ε := ε) 0 outcomes none (by simp)
      have hlength : rs.length = front.length := (length_receipts hrs).trans h.length_eq
      refine ⟨_, h.batch_poisoned he hrs offset length rest, ?_⟩
      rw [hrs]
      exact congrArg Except.ok (List.take_left' hlength)

/-- So it gives, but for the receipt of that, what it gives if it ends there. -/
theorem Beside.batch_spared (h : Beside rules x b true r p) (hne : handle ≠ x) (commands : List Command) :
    (batch (ε := ε) handle commands p).result.map
        (List.take (commands.takeWhile (·.source ≠ some x)).length) =
      (batch (ε := ε) handle (commands.takeWhile (·.source ≠ some x)) r).result ∧
    Beside rules x b true (batch (ε := ε) handle (commands.takeWhile (·.source ≠ some x)) r).state
      (batch (ε := ε) handle commands p).state := by
  obtain ⟨hs, hcases⟩ := takeWhile_cases x commands
  obtain ⟨hresult, hstate⟩ := batch_beside (ε := ε) hne hs r p h
  obtain ⟨outcomes, stop, t, hone⟩ := exists_oneByOne handle p (commands.takeWhile (·.source ≠ some x))
  have hfront := hone.batch (ε := ε)
  rw [hfront.state] at hstate
  obtain ⟨result, hy, hcut⟩ := hone.batch_cut (ε := ε) hstate.entry? hcases
  rw [hy.result, hy.state, hcut, hresult, hfront.result]
  exact ⟨rfl, hstate⟩

/-- What is not spared changes nothing. -/
theorem Barred.idle (h : Barred t x) {q : Request} (hq : q.spare x = none) : (q.run t).state = t := by
  cases q with
  | create | lookup | destroy => simp at hq
  | hold handle m =>
    obtain rfl : handle = x := by simpa using hq
    exact ((h.hold m).map_stop _).state
  | append handle source offset length =>
    have hcomes : handle = x ∨ x = source := by
      simpa [Decidable.or_iff_not_imp_left] using hq
    rcases hcomes with rfl | rfl
    · exact (((h.target source offset length).mapError Command.Error.buffer).map_stop _).state
    · exact (((h.source handle offset length).mapError Command.Error.buffer).map_stop _).state
  | encode handle =>
    obtain rfl : handle = x := by simpa using hq
    exact ((h.encode.mapError Command.Error.marshal).map_stop _).state
  | decode handle bytes offset length =>
    obtain rfl : handle = x := by simpa using hq
    by_cases hle : offset + length ≤ bytes.length
    · exact (((h.decode bytes offset length hle).mapError Command.Error.marshal).map_stop _).state
    · have hout := h.decodeOutside bytes offset length (Nat.lt_of_not_le hle)
      exact ((hout.mapError Command.Error.marshal).map_stop _).state
  | perform handle command =>
    have hcomes : handle = x ∨ command.source = some x := by
      simpa [Decidable.or_iff_not_imp_left] using hq
    rcases hcomes with rfl | hs
    · exact ((h.perform command).map_stop _).state
    · cases command with
      | append source offset length =>
        cases hs
        exact ((h.performSource handle offset length).map_stop _).state
      | put | putBlob | read | readBlob | enforce | measure | resize | seek | reserve | encode | decode
      | clear => cases hs
  | batch handle commands =>
    obtain rfl : handle = x := by simpa using hq
    cases commands with
    | nil => rfl
    | cons command commands => exact ((h.batch _ command commands).map _).state

/-- What is spared gives the same, as far as it is left. -/
theorem Beside.spared (h : Beside rules x b true r p) {q q' : Request} (hd : q ≠ .destroy x)
    (hq : q.spare x = some q') :
    (q.run p).result.map q'.cut = (q'.run r).result ∧
      Beside rules x b true (q'.run r).state (q.run p).state := by
  by_cases hb : ∃ handle commands, q = .batch handle commands
  · obtain ⟨handle, commands, rfl⟩ := hb
    rw [Request.spare, Option.ite_none_left_eq_some, Option.some.injEq] at hq
    obtain ⟨hne, rfl⟩ := hq
    obtain ⟨hresult, hstate⟩ := h.batch_spared (ε := Command.Error) hne commands
    have hp := (yields_run (batch (ε := Command.Error) handle commands) p).map_any Reply.receipts
    have hr := (yields_run (batch (ε := Command.Error) handle
      (commands.takeWhile (·.source ≠ some x))) r).map_any Reply.receipts
    rw [Request.run, Request.run, hp.result, hp.state, hr.result, hr.state, ← hresult]
    refine ⟨?_, hstate⟩
    cases (batch (ε := Command.Error) handle commands p).result <;> rfl
  · have hcut (reply : Reply) : q.cut reply = reply := by
      cases q with
      | batch handle commands => exact absurd ⟨handle, commands, rfl⟩ hb
      | create | lookup | destroy | hold | append | encode | decode | perform => rfl
    have hspare : q.spare x = if q.comesTo x then none else some q := by
      cases q with
      | batch handle commands => exact absurd ⟨handle, commands, rfl⟩ hb
      | create | lookup | destroy | hold | append | encode | decode | perform => rfl
    rw [hspare, Option.ite_none_left_eq_some, Option.some.injEq] at hq
    obtain ⟨hcomes, rfl⟩ := hq
    have hnot : q.holds ≠ some x ∧ x ∉ q.sources := by
      simpa only [Request.comesTo, Bool.or_eq_true, decide_eq_true_eq, not_or] using hcomes
    obtain ⟨hresult, hstate⟩ := q.beside hnot.1 hnot.2 hd r p h
    refine ⟨?_, hstate⟩
    rw [← hresult, funext hcut]
    exact congrFun Except.map_id _

/-- Two runs side by side, one of them without what is not spared. -/
theorem Beside.run (h : Beside rules x b true r p) (hp : p.Sane) (between : List Request)
    (hq : ∀ q ∈ between, q.Careful) (hd : .destroy x ∉ between) :
    (served p between).filterMap (Served.spare x) = served r (between.filterMap (Request.spare x)) ∧
      Beside rules x b true (after r (between.filterMap (Request.spare x))) (after p between) := by
  induction between generalizing r p with
  | nil => exact ⟨rfl, h⟩
  | cons q between ih =>
    obtain ⟨hcareful, hq⟩ := List.forall_mem_cons.mp hq
    rw [List.mem_cons, not_or] at hd
    cases hs : q.spare x with
    | none =>
      have hidle : (q.run p).state = p := (barred_of_poisoned h.entry? hp).idle hs
      have hm : Served.spare x ⟨q, (q.run p).result⟩ = none := by rw [Served.spare, hs, Option.map_none]
      rw [served, after, List.filterMap_cons_none hm, List.filterMap_cons_none hs, hidle]
      exact ih h hp hq hd.2
    | some q' =>
      obtain ⟨hresult, hstate⟩ := h.spared (Ne.symm hd.1) hs
      have hm : Served.spare x ⟨q, (q.run p).result⟩ = some ⟨q', (q'.run r).result⟩ := by
        rw [Served.spare, hs, Option.map_some, hresult]
      obtain ⟨hserved, hafter⟩ := ih hstate (hp.serve hcareful) hq hd.2
      rw [served, List.filterMap_cons_some hm, List.filterMap_cons_some hs, served, hserved]
      exact ⟨rfl, hafter⟩

/-- A request that holds no buffer at most takes one away. -/
theorem Request.unheld (h : r.Sane) {q : Request} (hq : q.holds = none) (hl : x ∈ r.handles) :
    (q.run r).state.entry? x = none ∨ (q.run r).state.entry? x = r.entry? x := by
  cases q with
  | create =>
    rw [Request.run, state_map, state_mapError]
    by_cases hlast : r.nextHandle = lastHandle
    · rw [(create_exhausted hlast).state]
      exact .inr rfl
    · have hnext : r.nextHandle ∉ r.handles := fun hm => Nat.lt_irrefl _ (h.fresh _ hm)
      have hne : x ≠ r.nextHandle := fun he => hnext (he ▸ hl)
      rw [(create_yields hlast).state, entry?_created hnext, if_neg hne]
      exact .inr rfl
  | lookup handle =>
    rw [Request.run, state_map, state_mapError]
    by_cases hh : handle ∈ r.handles
    · rw [(lookup_yields hh).state]
      exact .inr rfl
    · rw [(lookup_absent hh).state]
      exact .inr rfl
  | destroy handle =>
    rw [Request.run, state_map, state_mapError]
    by_cases hh : handle ∈ r.handles
    · rw [(destroy_yields hh).state, entry?_without]
      split
      · exact .inl rfl
      · exact .inr rfl
    · rw [(destroy_stray hh).state]
      exact .inr rfl
  | hold | append | encode | decode | perform | batch => cases hq

/-- A request that poisons a buffer changes nothing but that buffer. -/
theorem Sane.poisoned (h : r.Sane) {q : Request} (hq : q.Careful)
    (he : r.entry? x = some ⟨x, b, false⟩) (hp : (q.run r).state.entry? x = some ⟨x, c, true⟩) :
    (q.run r).state = r.replaced x c true := by
  cases hx : q.holds with
  | none =>
    rcases q.unheld h hx (listed_of_entry he) with hs | hs
    · cases hs.symm.trans hp
    · cases (hs.trans he).symm.trans hp
  | some handle =>
    rcases (Request.near h hq hx).2 with hs | ⟨d, broken, hs⟩
    · rw [hs, he] at hp
      cases hp
    · rw [hs] at hp ⊢
      by_cases hne : x = handle
      · obtain rfl := hne
        rw [entry?_replaced (by rw [he]; rfl), if_pos rfl] at hp
        cases hp
        rfl
      · rw [entry?_replaced_ne hne, he] at hp
        cases hp

theorem count_replaced (r : Registry) (x : UInt64) (b : Buffer) (q : Bool) :
    (r.replaced x b q).count = r.count :=
  List.length_map _

/-- Once its handle is destroyed, nothing is left of what was under it. -/
theorem destroy_replaced (hl : x ∈ r.handles) (b : Buffer) (q : Bool) :
    ∃ u, (Request.destroy x).run.Yields r (.ok .done) u ∧
      (Request.destroy x).run.Yields (r.replaced x b q) (.ok .done) u := by
  have hl' : x ∈ (r.replaced x b q).handles := by rwa [handles_replaced]
  have hy := ((destroy_yields hl).mapError Command.Error.buffer).map fun _ => Reply.done
  have hy' := ((destroy_yields hl').mapError Command.Error.buffer).map fun _ => Reply.done
  rw [without_replaced_self] at hy'
  exact ⟨_, hy, hy'⟩

/-- What a run from `p`, where the buffer of a handle is poisoned, has to do with the run from `r` in
which it is not and nothing comes to it. -/
structure Contained (x : UInt64) (c : Buffer) (between : List Request) (r p : Registry) : Prop where
  /-- There are the same buffers, but for the poisoned one. -/
  buffers : after p between = (after r (between.filterMap (Request.spare x))).replaced x c true
  /-- What is spared gives the same. -/
  results : (served p between).filterMap (Served.spare x) =
    served r (between.filterMap (Request.spare x))
  handles : (after p between).handles = (after r (between.filterMap (Request.spare x))).handles
  count : (after p between).count = (after r (between.filterMap (Request.spare x))).count
  barred : Barred (after p between) x
  /-- From the end of the handle on the runs are the same. -/
  served : ∀ later, served (after p between) (.destroy x :: later) =
    served (after r (between.filterMap (Request.spare x))) (.destroy x :: later)
  after : ∀ later, after (after p between) (.destroy x :: later) =
    after (after r (between.filterMap (Request.spare x))) (.destroy x :: later)

theorem Beside.contained (h : Beside rules x c true r p) (hp : p.Sane) {between : List Request}
    (hq : ∀ q ∈ between, q.Careful) (hd : .destroy x ∉ between) : Contained x c between r p := by
  obtain ⟨hresults, hbeside⟩ := h.run hp between hq hd
  obtain ⟨u, hy, hy'⟩ := destroy_replaced hbeside.listed c true
  rw [← hbeside.replaced] at hy'
  constructor
  case buffers => exact hbeside.replaced
  case results => exact hresults
  case handles => rw [hbeside.replaced, handles_replaced]
  case count => rw [hbeside.replaced, count_replaced]
  case barred => exact barred_of_poisoned hbeside.entry? (hp.after between hq)
  case served =>
    intro later
    rw [Registry.served, Registry.served, hy.result, hy.state, hy'.result, hy'.state]
  case after =>
    intro later
    rw [Registry.after, Registry.after, hy.state, hy'.state]

/-- Poison stays with the buffer that was poisoned, until its handle is destroyed. -/
theorem poison_contained {rules : Rules} {start : Registry} (hnew : new rules = .ok start)
    {before between : List Request} {poison : Request}
    (hcareful : ∀ q ∈ before ++ poison :: between, q.Careful) (hkept : .destroy x ∉ between)
    (hhealthy : entry? (after start before) x = some ⟨x, b, false⟩)
    (hpoisoned : entry? (poison.run (after start before)).state x = some ⟨x, c, true⟩) :
    Contained x c between (after start before) (poison.run (after start before)).state := by
  obtain ⟨rfl, -⟩ := new_ok hnew
  obtain ⟨hbefore, hrest⟩ := List.forall_mem_append.mp hcareful
  obtain ⟨hpoison, hbetween⟩ := List.forall_mem_cons.mp hrest
  have hsane : (after (empty rules) before).Sane := (sane_empty rules).after before hbefore
  have hl := listed_of_entry hhealthy
  have hbeside : Beside (after (empty rules) before).rules.buffers x c true (after (empty rules) before)
      (poison.run (after (empty rules) before)).state :=
    ⟨hl, hsane.fresh x hl, rfl, hsane.poisoned hpoison hhealthy hpoisoned⟩
  exact hbeside.contained (hsane.serve hpoison) hbetween hkept

/-- A batch that gets to write before it is refused the poisoned buffer, among requests of all kinds. -/
theorem poison_contained_batch :
    let r := after (empty {}) [.create, .create, .perform 2 (.put (.int 7))]
    let p := ((Request.hold 1 (fault .abandoned)).run r).state
    ∃ c, p.entry? 1 = some ⟨1, c, true⟩ ∧ Contained 1 c [.perform 1 (.measure .size),
      .batch 2 [.put (.int 5), .append 1 0 0, .clear], .append 1 2 0 4, .create,
      .hold 2 (Buffer.Call.available.run.mapError .marshal)] r p := by
  intro r p
  have hnew : new {} = .ok (empty {}) := rfl
  have hhealthy : r.entry? 1 = some ⟨1, Buffer.empty {}, false⟩ := by decide
  have hpoisoned : p.entry? 1 = some ⟨1, Buffer.empty {}, true⟩ := by decide
  refine ⟨_, hpoisoned, poison_contained hnew (fun q hq handle m hm => ?_) ?_ hhealthy hpoisoned⟩
  · subst hm
    have hholds : (handle = 1 ∧ m = fault .abandoned) ∨
        (handle = 2 ∧ m = Buffer.Call.available.run.mapError .marshal) := by simpa using hq
    rcases hholds with ⟨rfl, rfl⟩ | ⟨rfl, rfl⟩
    · exact careful_fault 1 .abandoned 1 _ rfl
    · exact careful_call 2 .available (by simp) 2 _ rfl
  · simp

/-- It does not do to drop such a batch as a whole: what it wrote before is there. -/
theorem not_contained_whole :
    ¬ ∀ (rules : Rules) (start : Registry) (before between : List Request) (poison : Request)
      (x : UInt64) (b c : Buffer), new rules = .ok start →
      (∀ q ∈ before ++ poison :: between, q.Careful) → .destroy x ∉ between →
      entry? (after start before) x = some ⟨x, b, false⟩ →
      entry? (poison.run (after start before)).state x = some ⟨x, c, true⟩ →
      (served (poison.run (after start before)).state between).filter (!·.request.comesTo x) =
        served (after start before) (between.filter (!·.comesTo x)) := by
  intro h
  have hserved := h {} (empty {}) [.create, .create]
    [.batch 2 [.put (.int 7), .append 1 0 0], .perform 2 (.measure .size)] (.hold 1 (fault .abandoned))
    1 (Buffer.empty {}) (Buffer.empty {}) rfl (fun q hq handle m hm => ?_) (by simp) (by decide) (by decide)
  · exact absurd (congrArg (List.map Served.result) hserved) (by decide)
  · subst hm
    obtain ⟨rfl, rfl⟩ : handle = 1 ∧ m = fault .abandoned := by simpa using hq
    exact careful_fault 1 .abandoned 1 _ rfl

end Parcel.Registry
