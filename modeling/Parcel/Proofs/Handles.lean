import Parcel.Proofs.Weaving

/-!
The life of handles. They are given out in a row from the first one on, each once; those that there are
have been given out and not destroyed since, and what was destroyed is not found again. The past of a
registry says all this of it, and every request adds to the past.
-/
namespace Parcel.Registry
open Parcel.Action

variable {rules : Rules} {past : List Served} {r t : Registry} {handle x : UInt64} {q : Request}

/-- The handle that was given out. -/
def Served.issue : Served → Option UInt64
  | ⟨.create, .ok (.handle handle)⟩ => some handle
  | _ => none

/-- The handles that were given out, in this order. -/
def issued (past : List Served) : List UInt64 := past.filterMap Served.issue

/-- The handle was given out, and was not to be destroyed since. -/
def Alive (past : List Served) (handle : UInt64) : Prop :=
  Since (fun m : Served => m.issue = some handle) (fun m => m.request = .destroy handle) past

theorem issue_eq_none {m : Served} (h : m.request ≠ .create) : m.issue = none := by
  obtain ⟨q, result⟩ := m
  cases q with
  | create => exact absurd rfl h
  | lookup | destroy | hold | append | encode | decode | perform | batch => rfl

theorem issued_snoc (past : List Served) (m : Served) :
    issued (past ++ [m]) = issued past ++ m.issue.toList := by
  rw [issued, List.filterMap_append]
  cases h : m.issue <;> simp [issued, h]

theorem toNat_next (h : x ≠ lastHandle) : (x + 1).toNat = x.toNat + 1 := by
  have hlt := x.toNat_lt
  have hne : x.toNat ≠ lastHandle.toNat := fun he => h (UInt64.toNat_inj.mp he)
  have hlast : lastHandle.toNat = 18446744073709551615 := rfl
  rw [UInt64.toNat_add, UInt64.toNat_one]
  omega

/-- Handles that were given out stay below the next. -/
theorem fresh_created (h : ∀ x ∈ r.handles, x.toNat < r.nextHandle.toNat)
    (hlast : r.nextHandle ≠ lastHandle) : ∀ x ∈ r.created.handles, x.toNat < r.created.nextHandle.toNat := by
  intro x hx
  have hnext : r.created.nextHandle = r.nextHandle + 1 := rfl
  rw [hnext, toNat_next hlast]
  rw [handles_created, List.mem_append, List.mem_singleton] at hx
  rcases hx with hx | rfl
  · exact Nat.lt_succ_of_lt (h x hx)
  · exact Nat.lt_succ_self _

/-- What a request makes of the handles, where before there were these. It gives out the next one, or
may take one away, or leaves them alone. -/
def Request.Turns (I : Buffer → Prop) (rules : Rules) (next : UInt64) (handles : List UInt64)
    (q : Request) (result : Except (Failure Command.Error) Reply) (t : Registry) : Prop :=
  (q = .create ∧ next ≠ lastHandle ∧ result = .ok (.handle next) ∧
    Houses I rules (next + 1) (handles ++ [next]) t) ∨
  (∃ handle, q = .destroy handle ∧ Houses I rules next (handles.filter (· ≠ handle)) t) ∨
  ((∀ handle, q ≠ .destroy handle) ∧ (Served.mk q result).issue = none ∧ Houses I rules next handles t)

section
variable {I : Buffer → Prop} {allowed : Fault → Prop} {next : UInt64} {handles : List UInt64}

theorem Houses.serve (h : Houses I rules next handles r) (hup : Upheld I allowed rules.buffers)
    (q : Request) (hq : ∀ handle m, q = .hold handle m → Within I allowed m) :
    q.Turns I rules next handles (q.run r).result (q.run r).state ∧
      ∀ f, (q.run r).result = .error (.broken f) → allowed f := by
  cases q with
  | create =>
    by_cases hlast : r.nextHandle = lastHandle
    · have hy : Request.create.run.Yields r _ r :=
        ((create_exhausted hlast).mapError Command.Error.buffer).map_stop Reply.handle
      rw [hy.result, hy.state]
      exact ⟨.inr (.inr ⟨by simp, rfl, h⟩), fun f hf => by cases hf⟩
    · have hy : Request.create.run.Yields r _ r.created :=
        ((create_yields hlast).mapError Command.Error.buffer).map Reply.handle
      rw [hy.result, hy.state, h.next]
      exact ⟨.inl ⟨rfl, h.next ▸ hlast, rfl, h.created hup.empty⟩, fun f hf => by cases hf⟩
  | destroy handle =>
    by_cases hm : handle ∈ r.handles
    · have hy : (Request.destroy handle).run.Yields r _ (r.without handle) :=
        ((destroy_yields hm).mapError Command.Error.buffer).map fun _ => Reply.done
      rw [hy.result, hy.state]
      exact ⟨.inr (.inl ⟨handle, rfl, h.without⟩), fun f hf => by cases hf⟩
    · have hy : (Request.destroy handle).run.Yields r _ r :=
        ((destroy_stray hm).mapError Command.Error.buffer).map_any fun _ => Reply.done
      have hall : handles.filter (· ≠ handle) = handles := List.filter_eq_self.mpr fun x hx =>
        decide_eq_true fun he : x = handle => hm (h.handles ▸ he ▸ hx)
      rw [hy.result, hy.state]
      refine ⟨.inr (.inl ⟨handle, rfl, hall.symm ▸ h⟩), fun f hf => ?_⟩
      cases hs : r.rules.strictness <;> rw [hs] at hf <;> cases hf
  | lookup | hold | append | encode | decode | perform | batch =>
    obtain ⟨ht, hfault⟩ := Request.within hup _ hq (by simp) (by simp) r h
    exact ⟨.inr (.inr ⟨by simp, issue_eq_none (by simp), ht⟩), hfault⟩

end

/-- What the handles of a registry are between requests; nothing is said of its buffers. -/
abbrev Has (rules : Rules) (next : UInt64) (handles : List UInt64) : Registry → Prop :=
  Houses (fun _ => True) rules next handles

theorem has_self (r : Registry) : Has r.rules r.nextHandle r.handles r :=
  ⟨rfl, rfl, rfl, fun _ _ => trivial⟩

theorem upheld_trivially (rules : Buffer.Rules) : Upheld (fun _ => True) (fun _ => True) rules := by
  constructor <;> intros
  all_goals first | trivial | exact fun _ _ => ⟨trivial, fun _ _ => trivial⟩

theorem Request.turns (q : Request) (r : Registry) :
    q.Turns (fun _ => True) r.rules r.nextHandle r.handles (q.run r).result (q.run r).state :=
  ((has_self r).serve (upheld_trivially _) q fun _ _ _ _ _ => ⟨trivial, fun _ _ => trivial⟩).1

/-- What the past of a registry says of its handles. -/
structure Recalls (rules : Rules) (past : List Served) (r : Registry) : Prop where
  next : r.nextHandle.toNat = rules.firstHandle.toNat + (issued past).length
  numbered : ∀ k handle, (issued past)[k]? = some handle →
    handle.toNat = rules.firstHandle.toNat + k
  sublist : r.handles.Sublist (issued past)
  alive : ∀ handle, handle ∈ r.handles ↔ Alive past handle
  rules : r.rules = rules

theorem recalls_empty (rules : Rules) : Recalls rules [] (empty rules) where
  rules := rfl
  next := rfl
  numbered k handle h := by cases h
  sublist := .slnil
  alive handle := iff_of_false List.not_mem_nil not_since_nil

theorem Recalls.issue (h : Recalls rules past r) {m : Served} (hm : m.issue = some r.nextHandle)
    (hd : ∀ handle, m.request ≠ .destroy handle) (hlast : r.nextHandle ≠ lastHandle)
    (ht : Has r.rules (r.nextHandle + 1) (r.handles ++ [r.nextHandle]) t) :
    Recalls rules (past ++ [m]) t := by
  have hissued : issued (past ++ [m]) = issued past ++ [r.nextHandle] := by
    rw [issued_snoc, hm]
    rfl
  constructor
  case rules => exact ht.rules.trans h.rules
  case next =>
    rw [ht.next, toNat_next hlast, h.next, hissued, List.length_append]
    rfl
  case numbered =>
    intro k handle hk
    rw [hissued] at hk
    rcases Nat.lt_trichotomy k (issued past).length with hlt | rfl | hgt
    · rw [List.getElem?_append_left hlt] at hk
      exact h.numbered k handle hk
    · rw [List.getElem?_concat_length] at hk
      rw [← Option.some.inj hk]
      exact h.next
    · rw [List.getElem?_eq_none (by simp; omega)] at hk
      cases hk
  case sublist =>
    rw [ht.handles, hissued]
    exact h.sublist.append (.refl _)
  case alive =>
    intro handle
    rw [ht.handles, Alive, since_snoc, hm, List.mem_append, List.mem_singleton, Option.some.injEq]
    constructor
    · intro hx
      rcases hx with hx | rfl
      · exact .inr ⟨(h.alive handle).mp hx, hd handle⟩
      · exact .inl rfl
    · intro hx
      rcases hx with rfl | ⟨hx, -⟩
      · exact .inr rfl
      · exact .inl ((h.alive handle).mpr hx)

theorem Recalls.destroy (h : Recalls rules past r) {m : Served} (hm : m.request = .destroy x)
    (ht : Has r.rules r.nextHandle (r.handles.filter (· ≠ x)) t) : Recalls rules (past ++ [m]) t := by
  have hnone : m.issue = none := issue_eq_none (by rw [hm]; simp)
  have hissued : issued (past ++ [m]) = issued past := by
    rw [issued_snoc, hnone]
    exact List.append_nil _
  constructor
  case rules => exact ht.rules.trans h.rules
  case next => rw [ht.next, hissued, h.next]
  case numbered =>
    rw [hissued]
    exact h.numbered
  case sublist =>
    rw [ht.handles, hissued]
    exact List.filter_sublist.trans h.sublist
  case alive =>
    intro handle
    rw [ht.handles, Alive, since_snoc, hnone, hm, List.mem_filter, h.alive, decide_eq_true_eq]
    simp only [reduceCtorEq, Request.destroy.injEq, false_or, Alive, eq_comm, ne_eq]

theorem Recalls.leave (h : Recalls rules past r) {m : Served}
    (hd : ∀ handle, m.request ≠ .destroy handle) (hm : m.issue = none) (ht : Has r.rules r.nextHandle r.handles t) :
    Recalls rules (past ++ [m]) t := by
  have hissued : issued (past ++ [m]) = issued past := by
    rw [issued_snoc, hm]
    exact List.append_nil _
  constructor
  case rules => exact ht.rules.trans h.rules
  case next => rw [ht.next, hissued, h.next]
  case numbered =>
    rw [hissued]
    exact h.numbered
  case sublist =>
    rw [ht.handles, hissued]
    exact h.sublist
  case alive =>
    intro handle
    rw [ht.handles, Alive, since_snoc, hm, h.alive]
    simp [hd handle, Alive]

theorem Recalls.serve (h : Recalls rules past r) (q : Request) :
    Recalls rules (past ++ [⟨q, (q.run r).result⟩]) (q.run r).state := by
  rcases q.turns r with ⟨rfl, hlast, hr, ht⟩ | ⟨handle, rfl, ht⟩ | ⟨hd, hm, ht⟩
  · rw [hr]
    exact h.issue rfl (by simp) hlast ht
  · exact h.destroy rfl ht
  · exact h.leave hd hm ht

theorem Recalls.run (h : Recalls rules past r) (requests : List Request) :
    Recalls rules (past ++ served r requests) (after r requests) := by
  induction requests generalizing past r with
  | nil =>
    rw [served, List.append_nil]
    exact h
  | cons q requests ih =>
    have hrest := ih (h.serve q)
    rwa [List.append_assoc] at hrest

theorem handles_withBuffer [Reports ε] (m : Action Buffer ε α) (r : Registry) :
    (withBuffer handle m r).state.handles = r.handles := by
  have hm : Within (fun _ => True) (fun _ => True) m := fun _ _ => ⟨trivial, fun _ _ => trivial⟩
  exact (withBuffer_within hm handle r (has_self r)).state.handles

theorem handles_checkPayload (bytes : List UInt8) (r : Registry) :
    (Command.checkPayload bytes r).state.handles = r.handles := by
  have hend : (Command.checkPayload bytes).Ends r (Has r.rules r.nextHandle r.handles) fun _ => False :=
    checkPayload_within bytes r (has_self r)
  exact hend.state.handles

/-- The action cannot succeed where the handle is not there. -/
def Needs (handle : UInt64) (m : Action Registry ε α) : Prop :=
  ∀ r : Registry, handle ∉ r.handles → ∀ a, (m r).result ≠ .ok a

section
variable {m : Action Registry ε α} {f : α → Action Registry ε β}

theorem Needs.bind (hm : Needs handle m) : Needs handle (m >>= f) := by
  intro r hr b hb
  obtain ⟨a, ha, -⟩ := ok_of_bind hb
  exact hm r hr a ha

theorem Needs.behind (hm : ∀ r : Registry, (m r).state.handles = r.handles)
    (hf : ∀ a, Needs handle (f a)) : Needs handle (m >>= f) := by
  intro r hr b hb
  obtain ⟨a, -, ha⟩ := ok_of_bind hb
  exact hf a _ (by rwa [hm r]) b ha

theorem Needs.mapError (hm : Needs handle m) (g : ε → ε') : Needs handle (m.mapError g) :=
  fun r hr a ha => hm r hr a (ok_of_mapError ha)

theorem needs_withBuffer [Reports ε] (handle : UInt64) (m : Action Buffer ε α) :
    Needs handle (withBuffer handle m) := by
  intro r hr a ha
  obtain ⟨b, hb, -⟩ := ok_of_withBuffer ha
  cases (entry?_eq_none.mpr hr).symm.trans hb

end

theorem needs_lookup (handle : UInt64) : Needs handle (lookup handle) := by
  intro r hr a ha
  cases (lookup_absent hr).result.symm.trans ha

theorem needs_append (handle source : UInt64) (offset length : Nat) :
    Needs handle (append handle source offset length) ∧
      Needs source (append handle source offset length) :=
  ⟨.behind (handles_withBuffer _) fun _ => needs_withBuffer handle _, (needs_withBuffer source _).bind⟩

theorem needs_decode (handle : UInt64) (bytes : List UInt8) (offset length : Nat) :
    Needs handle (decode handle bytes offset length) := by
  unfold decode
  split
  · intro r _ a ha
    cases ha
  · exact .behind (fun r => rfl) fun _ => needs_withBuffer handle _

theorem needs_onBuffer (handle : UInt64) (m : Action Buffer Error α) :
    Needs handle (onBuffer handle m) := (needs_withBuffer handle m).mapError _

theorem needs_putWhole (handle : UInt64) (bytes : Option (List UInt8)) :
    Needs handle (putWhole handle bytes) :=
  .behind (handles_checkPayload _) fun _ => needs_onBuffer handle _

theorem needs_perform (handle : UInt64) (command : Command) : Needs handle (perform handle command) := by
  cases command with
  | put item =>
    cases item with
    | array bytes => exact (needs_putWhole handle bytes).bind
    | byte | int | long | float | double | string | binder | token =>
      exact (needs_onBuffer handle _).bind
  | putBlob bytes => exact (needs_putWhole handle bytes).bind
  | read wanted => cases wanted <;> exact (needs_onBuffer handle _).bind
  | append source offset length => exact ((needs_append handle source offset length).1.mapError _).bind
  | encode => exact ((needs_withBuffer handle _).mapError _).bind
  | decode bytes =>
    refine .behind (handles_checkPayload _) fun _ => Needs.bind ?_
    exact (needs_decode handle bytes 0 bytes.length).mapError _
  | readBlob | enforce | measure | resize | seek | reserve | clear =>
    exact (needs_onBuffer handle _).bind

/-- No command of a batch succeeds on a handle that is not there. -/
theorem batch_unlisted (hr : handle ∉ r.handles) (commands : List Command) {rs : List Receipt}
    (h : (batch (ε := ε) handle commands r).result = .ok rs) : ∀ x ∈ rs, x.outcome = none := by
  cases commands with
  | nil =>
    cases h
    simp
  | cons command commands =>
    obtain ⟨outcome, ha, hrest⟩ := ok_of_bind h
    cases outcome with
    | ok outcome => exact absurd (ok_of_attempt ha) (needs_perform handle command r hr outcome)
    | error error =>
      cases hrest
      simp [Receipt.ofError]

/-- The handles without which a request can do nothing. -/
def Request.needed : Request → List UInt64
  | create | destroy _ => []
  | append handle source _ _ => [handle, source]
  | lookup handle | hold handle _ | encode handle | decode handle _ _ _ | perform handle _
  | batch handle _ => [handle]

/-- What is given back for a request that could do nothing: the receipts of a batch at most. -/
def Reply.Vain (reply : Reply) : Prop :=
  ∃ rs, reply = .receipts rs ∧ ∀ x ∈ rs, x.outcome = none

theorem Request.vain_of_unlisted {q : Request} (hq : handle ∈ q.needed) (hr : handle ∉ r.handles)
    {reply : Reply} (h : (q.run r).result = .ok reply) : reply.Vain := by
  have hnot (hneeds : Needs handle q.run) : reply.Vain := absurd h (hneeds r hr reply)
  cases q with
  | create | destroy => cases hq
  | lookup x =>
    obtain rfl := List.mem_singleton.mp hq
    exact hnot ((needs_lookup handle).mapError _).bind
  | hold x m =>
    obtain rfl := List.mem_singleton.mp hq
    exact hnot (needs_withBuffer handle m).bind
  | append x source offset length =>
    obtain ⟨hneeds, hneeds'⟩ := needs_append x source offset length
    rcases List.mem_cons.mp hq with rfl | hq
    · exact hnot (hneeds.mapError _).bind
    · obtain rfl := List.mem_singleton.mp hq
      exact hnot (hneeds'.mapError _).bind
  | encode x =>
    obtain rfl := List.mem_singleton.mp hq
    exact hnot ((needs_withBuffer handle _).mapError _).bind
  | decode x bytes offset length =>
    obtain rfl := List.mem_singleton.mp hq
    exact hnot ((needs_decode handle bytes offset length).mapError _).bind
  | perform x command =>
    obtain rfl := List.mem_singleton.mp hq
    exact hnot (needs_perform handle command).bind
  | batch x commands =>
    obtain rfl := List.mem_singleton.mp hq
    obtain ⟨rs, hrs, he⟩ := ok_of_bind h
    cases he
    exact ⟨rs, rfl, batch_unlisted hr commands hrs⟩

/-- Nothing finds the handle. -/
structure Lost (r : Registry) (handle : UInt64) : Prop where
  unlisted : handle ∉ r.handles
  lookup : (lookup handle).Yields r (.error (.refused (.handleNotFound handle))) r
  buffer : ∀ {ε α : Type} [Reports ε] (m : Action Buffer ε α),
    (withBuffer handle m).Yields r (.error (.refused (Reports.report (.handleNotFound handle)))) r
  request : ∀ q : Request, handle ∈ q.needed → ∀ reply, (q.run r).result = .ok reply → reply.Vain

theorem lost_of_unlisted (h : handle ∉ r.handles) : Lost r handle where
  unlisted := h
  lookup := lookup_absent h
  buffer m := withBuffer_absent m (entry?_eq_none.mpr h)
  request _ hq _ hr := Request.vain_of_unlisted hq h hr

/-- A handle that is not there, although it has been given out, does not come back. -/
theorem unlisted_after (h : handle ∉ r.handles) (hlt : handle.toNat < r.nextHandle.toNat)
    (later : List Request) : handle ∉ (after r later).handles := by
  induction later generalizing r with
  | nil => exact h
  | cons q later ih =>
    rcases q.turns r with ⟨-, hlast, -, ht⟩ | ⟨x, -, ht⟩ | ⟨-, -, ht⟩
    · refine ih ?_ ?_
      · rw [ht.handles, List.mem_append, List.mem_singleton]
        rintro (hm | rfl)
        · exact h hm
        · exact Nat.lt_irrefl _ hlt
      · rw [ht.next, toNat_next hlast]
        exact Nat.lt_succ_of_lt hlt
    · refine ih ?_ (ht.next ▸ hlt)
      rw [ht.handles]
      exact fun hm => h (List.mem_filter.mp hm).1
    · exact ih (ht.handles ▸ h) (ht.next ▸ hlt)

theorem exhausted_after (h : r.nextHandle = lastHandle) (later : List Request) :
    (after r later).nextHandle = lastHandle := by
  induction later generalizing r with
  | nil => exact h
  | cons q later ih =>
    rcases q.turns r with ⟨-, hlast, -⟩ | ⟨x, -, ht⟩ | ⟨-, -, ht⟩
    · exact absurd h hlast
    · exact ih (ht.next.trans h)
    · exact ih (ht.next.trans h)

/-- What the handles of a registry are in the face of its past, and what becomes of them. -/
structure Lifecycle (rules : Rules) (past : List Served) (r : Registry) : Prop where
  next : r.nextHandle.toNat = rules.firstHandle.toNat + (issued past).length
  numbered : ∀ k handle, (issued past)[k]? = some handle →
    handle.toNat = rules.firstHandle.toNat + k
  rising : (0 :: issued past).Pairwise (· < ·)
  fresh : r.nextHandle ≠ lastHandle →
    ∃ t, create.Yields r (.ok r.nextHandle) t ∧ t.handles = r.handles ++ [r.nextHandle]
  exhausted : r.nextHandle = lastHandle → ∀ later, create.Yields (after r later)
    (.error (.refused (.outOfBounds .nextHandle lastHandle.toNat (lastHandle.toNat - 1))))
    (after r later)
  listed : ∀ handle, handle ∈ r.handles ↔ Alive past handle
  order : r.handles.Sublist (issued past) ∧ r.handles.Pairwise (· < ·)
  count : r.count = r.handles.length
  contains : ∀ handle, r.contains handle = true ↔ handle ∈ r.handles
  lookup : ∀ handle ∈ r.handles, (lookup handle).Yields r (.ok ()) r
  destroy : ∀ handle ∈ r.handles, ∃ t, (destroy handle).Yields r (.ok ()) t ∧
    t.handles = r.handles.filter (· ≠ handle)
  stray : ∀ handle, handle ∉ r.handles →
    (Registry.destroy handle).Yields r (strayDestroy handle rules.strictness) r
  unlisted : ∀ handle, handle ∉ r.handles → Lost r handle
  gone : ∀ handle ∈ issued past, ¬ Alive past handle → ∀ later, Lost (after r later) handle

theorem Recalls.lt_next (h : Recalls rules past r) (hm : handle ∈ issued past) :
    handle.toNat < r.nextHandle.toNat := by
  obtain ⟨k, hk⟩ := List.mem_iff_getElem?.mp hm
  have hlt := (List.getElem?_eq_some_iff.mp hk).1
  rw [h.numbered k handle hk, h.next]
  omega

theorem Recalls.rising (h : Recalls rules past r) (h0 : rules.firstHandle ≠ 0) :
    (0 :: issued past).Pairwise (· < ·) := by
  have hpos : 0 < rules.firstHandle.toNat := by
    rw [Nat.pos_iff_ne_zero, ne_eq, ← UInt64.toNat_zero, UInt64.toNat_inj]
    exact h0
  rw [List.pairwise_cons, List.pairwise_iff_getElem]
  constructor
  · intro handle hm
    obtain ⟨k, hk⟩ := List.mem_iff_getElem?.mp hm
    have := h.numbered k handle hk
    rw [UInt64.lt_iff_toNat_lt, UInt64.toNat_zero]
    omega
  · intro i j hi hj hlt
    have := h.numbered i _ (List.getElem?_eq_getElem hi)
    have := h.numbered j _ (List.getElem?_eq_getElem hj)
    rw [UInt64.lt_iff_toNat_lt]
    omega

theorem Recalls.lifecycle (h : Recalls rules past r) (h0 : rules.firstHandle ≠ 0) :
    Lifecycle rules past r where
  next := h.next
  numbered := h.numbered
  rising := h.rising h0
  fresh hlast := ⟨_, create_yields hlast, ((has_self r).created trivial).handles⟩
  exhausted hlast later := create_exhausted (exhausted_after hlast later)
  listed := h.alive
  order := ⟨h.sublist, (List.pairwise_cons.mp (h.rising h0)).2.sublist h.sublist⟩
  count := (List.length_map _).symm
  contains _ := contains_iff
  lookup _ hm := lookup_yields hm
  destroy _ hm := ⟨_, destroy_yields hm, handles_without⟩
  stray _ hm := h.rules ▸ destroy_stray hm
  unlisted _ := lost_of_unlisted
  gone handle hm hd later := by
    refine lost_of_unlisted (unlisted_after ?_ (h.lt_next hm) later)
    exact fun hl => hd ((h.alive handle).mp hl)

theorem new_ok (h : new rules = .ok r) : r = empty rules ∧ rules.firstHandle ≠ 0 := by
  unfold new Rules.check at h
  by_cases h0 : rules.firstHandle = 0
  · rw [if_pos h0] at h
    cases h
  · rw [if_neg h0] at h
    cases hb : rules.buffers.check with
    | error e =>
      rw [hb] at h
      cases h
    | ok u =>
      rw [hb] at h
      cases h
      exact ⟨rfl, h0⟩

/-- Handles are given out in a row from the first on, never 0 and none twice, until the last one is
reached, and then no more. There are those that were given out and not destroyed since, in order; they
alone are found, and none that was destroyed is ever found again. -/
theorem lifecycle_of_new (h : new rules = .ok r) (requests : List Request) :
    Lifecycle rules (served r requests) (after r requests) := by
  obtain ⟨rfl, h0⟩ := new_ok h
  have hrecalls := (recalls_empty rules).run requests
  rw [List.nil_append] at hrecalls
  exact hrecalls.lifecycle h0

/-- A lenient registry with room for two handles, asked to destroy the second before it is there. -/
theorem lifecycle_exhausted :
    let rules : Rules := { firstHandle := 18446744073709551613, strictness := .lenient }
    let requests : List Request := [.destroy 18446744073709551614, .create, .create, .create,
      .destroy 18446744073709551613]
    ∃ r, new rules = .ok r ∧ (after r requests).handles = [18446744073709551614] ∧
      Lost (after (after r requests) [.create]) 18446744073709551613 := by
  intro rules requests
  refine ⟨empty rules, rfl, rfl, ?_⟩
  have hnew : new rules = .ok (empty rules) := rfl
  have h := lifecycle_of_new hnew requests
  refine h.gone _ (by decide) (fun ha => ?_) [.create]
  exact absurd ((h.listed _).mpr ha) (by decide)

end Parcel.Registry
