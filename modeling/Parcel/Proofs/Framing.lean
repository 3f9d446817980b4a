import Parcel.Proofs.Replacement

/-!
What a request leaves alone. In a sane registry it changes at most what is under the handle that it
holds, as copying out of a sound buffer does nothing to it. And two registries that differ under one
handle only cannot be told apart by what does not come to that handle, and still differ there only.
-/
namespace Parcel
open Parcel.Action

namespace Buffer

theorem within_of_agree {m : Action Buffer ε α} (h : Agree Alike m m) :
    Within Sound (fun _ => True) m :=
  fun b hb => ⟨(h b b hb.alike).2.left, fun _ _ => trivial⟩

/-- The operations keep buffers sound, whatever faults they may end in. -/
theorem upheld_sound (rules : Rules) : Registry.Upheld Sound (fun _ => True) rules where
  empty := sound_empty rules
  next wanted := within_of_agree (steady_alike.next_agree wanted)
  put item := within_of_agree (steady_alike.put_agree hidden_tidy hidden_tidy item)
  putArray bytes offset length :=
    within_of_agree (steady_alike.putArray_agree hidden_tidy hidden_tidy bytes offset length)
  available := within_inspect fun _ _ _ _ => trivial
  resize n := within_of_agree (steady_alike.resize_agree n)
  seek p := within_of_agree (steady_alike.seek_agree p)
  reserve n := within_of_agree (steady_alike.reserve_agree n)
  clear := within_of_agree steady_alike.clear_agree
  copy _ _ := within_inspect fun _ _ _ _ => trivial
  paste _ _ _ _ hb hs := within_of_agree (steady_alike.paste_agree (copy_sound hb hs))
  encode := within_of_agree steady_alike.encode_agree
  decode bytes := decode_within rules bytes
  decoded _ _ _ h := (decode_fit h).sound

end Buffer

namespace Registry

variable {r s : Registry} {handle x : UInt64} {b c : Buffer} {held seen : UInt64 → Prop}

/-- Sound buffers under handles that were given out, each once. -/
structure Sane (r : Registry) : Prop where
  sound : ∀ e ∈ r.live, e.buffer.Sound
  nodup : r.handles.Nodup
  fresh : ∀ x ∈ r.handles, x.toNat < r.nextHandle.toNat

theorem sane_empty (rules : Rules) : (empty rules).Sane :=
  ⟨fun _ h => absurd h List.not_mem_nil, List.nodup_nil, fun _ h => absurd h List.not_mem_nil⟩

theorem Sane.buffer (h : r.Sane) (he : r.entry? x = some ⟨x, b, p⟩) : b.Sound :=
  h.sound _ (List.mem_of_find?_eq_some he)

theorem Sane.houses (h : r.Sane) : Houses Buffer.Sound r.rules r.nextHandle r.handles r :=
  ⟨rfl, rfl, rfl, h.sound⟩

theorem Sane.replaced (h : r.Sane) (hb : b.Sound) (p : Bool) : (r.replaced handle b p).Sane where
  sound := (h.houses.replaced hb p).every
  nodup := nodup_replaced h.nodup b p
  fresh x hx := h.fresh x (by rwa [handles_replaced] at hx)

theorem Sane.without (h : r.Sane) : (r.without handle).Sane where
  sound e he := h.sound e (List.mem_filter.mp he).1
  nodup := by
    rw [handles_without]
    exact h.nodup.filter _
  fresh x hx := by
    rw [handles_without] at hx
    exact h.fresh x (List.mem_filter.mp hx).1

theorem Sane.created (h : r.Sane) (hlast : r.nextHandle ≠ lastHandle) : r.created.Sane where
  sound := (h.houses.created (Buffer.sound_empty r.rules.buffers)).every
  nodup := by
    rw [handles_created, List.nodup_append]
    refine ⟨h.nodup, List.nodup_singleton _, fun x hx y hy he => ?_⟩
    obtain rfl := List.mem_singleton.mp hy
    exact Nat.lt_irrefl _ (he ▸ h.fresh x hx)
  fresh := fresh_created h.fresh hlast

/-- The caller's own actions keep buffers sound, as all that can be called on a buffer does. -/
def Request.Careful (q : Request) : Prop :=
  ∀ handle m, q = .hold handle m → Within Buffer.Sound (fun _ => True) m

theorem careful_fault (handle : UInt64) (f : Fault) : (Request.hold handle (fault f)).Careful := by
  rintro _ _ ⟨⟩
  exact fun b hb => ⟨hb, fun _ _ => trivial⟩

theorem careful_call (handle : UInt64) (call : Buffer.Call) (hs : ∀ s, call = .paste s → s.Sound) :
    (Request.hold handle (call.run.mapError .marshal)).Careful := by
  rintro _ _ ⟨⟩
  exact (Buffer.within_of_agree (call.run_agree hs)).mapError _

/-- The same registry but for what is under a handle. -/
def Near (x : UInt64) (r s : Registry) : Prop := s = r ∨ ∃ b p, s = r.replaced x b p

theorem Near.replaced (h : Near x r s) (b : Buffer) (p : Bool) : Near x r (s.replaced x b p) := by
  rcases h with rfl | ⟨c, q, rfl⟩
  · exact .inr ⟨b, p, rfl⟩
  · exact .inr ⟨b, p, replaced_replaced r x c b q p⟩

theorem Near.rules (h : Near x r s) : s.rules = r.rules := by
  rcases h with rfl | ⟨b, p, rfl⟩ <;> rfl

/-- Copying out of a sound buffer does nothing to it. -/
theorem Sane.copied (h : r.Sane) (x : UInt64) (offset length : Nat) :
    ∃ result, (withBuffer (ε := Error) x (inspect (·.copy offset length))).Yields r result r ∧
      ∀ s, result = .ok s → s.Sound := by
  cases he : r.entry? x with
  | none => exact ⟨_, withBuffer_absent _ he, fun s hs => by cases hs⟩
  | some e =>
    obtain ⟨y, b, p⟩ := e
    obtain rfl : y = x := handle_of_entry he
    cases p with
    | true => exact ⟨_, withBuffer_poisoned _ he, fun s hs => by cases hs⟩
    | false =>
      have hb := h.buffer he
      have hy : (withBuffer (ε := Error) y (inspect (Buffer.copy · offset length))).Yields r
          (b.copy offset length) (r.replaced y b (isBroken (b.copy offset length))) :=
        withBuffer_present _ he
      rw [isBroken_eq_false.mpr (hb.copy_unbroken offset length), replaced_self h.nodup he] at hy
      exact ⟨_, hy, fun s hs => Buffer.copy_sound hb hs⟩

theorem withBuffer_near [Reports ε] {m : Action Buffer ε α} (hm : Within Buffer.Sound (fun _ => True) m) :
    Within (fun s => s.Sane ∧ Near x r s) (fun _ => True) (withBuffer x m) := by
  rintro s ⟨hs, hn⟩
  refine ⟨?_, fun _ _ => trivial⟩
  cases he : s.entry? x with
  | none =>
    rw [(withBuffer_absent m he).state]
    exact ⟨hs, hn⟩
  | some e =>
    obtain ⟨y, b, p⟩ := e
    obtain rfl : y = x := handle_of_entry he
    cases p with
    | true =>
      rw [(withBuffer_poisoned m he).state]
      exact ⟨hs, hn⟩
    | false =>
      rw [(withBuffer_present m he).state]
      exact ⟨hs.replaced (hm b (hs.buffer he)).state _, hn.replaced _ _⟩

theorem append_near (x source : UInt64) (offset length : Nat) :
    Within (fun s => s.Sane ∧ Near x r s) (fun _ => True) (append x source offset length) := by
  have hcopy : Within (fun s => s.Sane ∧ Near x r s) (fun _ => True)
      (withBuffer (ε := Error) source (inspect (Buffer.copy · offset length))) := by
    rintro s ⟨hs, hn⟩
    obtain ⟨result, hy, -⟩ := hs.copied source offset length
    refine ⟨?_, fun _ _ => trivial⟩
    rw [hy.state]
    exact ⟨hs, hn⟩
  refine hcopy.bind fun s segment hs hsegment => withBuffer_near ?_
  obtain ⟨result, hy, hsound⟩ := hs.1.copied source offset length
  exact Buffer.within_of_agree
    (Buffer.steady_alike.paste_agree (hsound segment (hy.result.symm.trans hsegment)))

/-- Only what is under the handle that is held changes, and a sane registry stays so. -/
theorem Woven.near {m : Action Registry ε α}
    (h : Woven Buffer.Sound (fun _ => True) r.rules.buffers (· = x) seen m) :
    Within (fun s => s.Sane ∧ Near x r s) (fun _ => True) m := by
  induction h with
  | done a => exact within_pure a
  | refused e => exact within_refuse e
  | told event => exact within_emit event
  | ruled _ ih =>
    refine (within_gets _).bind fun s buffers hs hb => ?_
    obtain rfl : s.rules.buffers = buffers := Except.ok.inj hb
    rwa [hs.2.rules]
  | hold hx hm =>
    obtain rfl := hx
    exact withBuffer_near hm
  | appended hx _ offset length =>
    obtain rfl := hx
    exact append_near _ _ offset length
  | andThen _ _ hm hf => exact hm.andThen hf
  | mapError _ g ih => exact ih.mapError g
  | attempt _ ih => exact ih.attempt

/-- What a request makes of a sane registry that holds a buffer in it. -/
theorem Request.near (h : r.Sane) {q : Request} (hq : q.Careful) (hx : q.holds = some x) :
    (q.run r).state.Sane ∧ Near x r (q.run r).state := by
  have hw : Woven Buffer.Sound (fun _ => True) r.rules.buffers (· = x) (fun _ => True) q.run :=
    q.woven (Buffer.upheld_sound _) hq hx rfl fun _ _ => trivial
  exact (hw.near r ⟨h, .inl rfl⟩).state

theorem create_sane : Within Sane (fun _ => True) create := by
  intro r h
  refine ⟨?_, fun _ _ => trivial⟩
  by_cases hlast : r.nextHandle = lastHandle
  · rwa [(create_exhausted hlast).state]
  · rw [(create_yields hlast).state]
    exact h.created hlast

theorem lookup_sane (x : UInt64) : Within Sane (fun _ => True) (lookup x) :=
  (within_gets _).andThen fun _ => within_ite _ (within_refuse _) (within_pure _)

theorem destroy_sane (x : UInt64) : Within Sane (fun _ => True) (destroy x) := by
  intro r h
  refine ⟨?_, fun _ _ => trivial⟩
  by_cases hx : x ∈ r.handles
  · rw [(destroy_yields hx).state]
    exact h.without
  · rwa [(destroy_stray hx).state]

/-- Requests keep a registry sane, whatever comes of them. -/
theorem Sane.serve (h : r.Sane) {q : Request} (hq : q.Careful) : (q.run r).state.Sane := by
  cases q with
  | create => exact (((create_sane.mapError _).map _) r h).state
  | lookup x => exact ((((lookup_sane x).mapError _).map _) r h).state
  | destroy x => exact ((((destroy_sane x).mapError _).map _) r h).state
  | hold | append | encode | decode | perform | batch => exact (Request.near h hq rfl).1

theorem Sane.after (h : r.Sane) (requests : List Request) (hq : ∀ q ∈ requests, q.Careful) :
    (after r requests).Sane := by
  induction requests generalizing r with
  | nil => exact h
  | cons q requests ih =>
    exact ih (h.serve (hq q List.mem_cons_self)) fun q' hm => hq q' (List.mem_cons_of_mem _ hm)

theorem replaced_comm (h : handle ≠ x) (r : Registry) (b c : Buffer) (p q : Bool) :
    (r.replaced x b p).replaced handle c q = (r.replaced handle c q).replaced x b p := by
  unfold replaced
  rw [List.map_map, List.map_map]
  refine congrArg (Registry.mk _ _) (List.map_congr_left fun e _ => ?_)
  by_cases hx : e.handle = x
  · simp [hx, h.symm]
  · by_cases hh : e.handle = handle
    · simp [hh, h]
    · simp [hx, hh]

theorem without_replaced (r : Registry) (handle x : UInt64) (b : Buffer) (p : Bool) :
    (r.replaced x b p).without handle = (r.without handle).replaced x b p := by
  unfold replaced without
  rw [List.filter_map]
  refine congrArg (fun live => Registry.mk _ _ (List.map _ live)) (List.filter_congr fun e _ => ?_)
  dsimp only [Function.comp]
  split <;> rfl

theorem without_replaced_self (r : Registry) (x : UInt64) (b : Buffer) (p : Bool) :
    (r.replaced x b p).without x = r.without x := by
  rw [without_replaced]
  unfold replaced without
  refine congrArg (Registry.mk _ _) ((List.map_congr_left fun e he => ?_).trans (List.map_id _))
  rw [if_neg (of_decide_eq_true (List.mem_filter.mp he).2)]
  rfl

theorem created_replaced (h : r.nextHandle ≠ x) (b : Buffer) (p : Bool) :
    (r.replaced x b p).created = r.created.replaced x b p := by
  unfold replaced created
  simp [h]

/-- The second registry has this under a live handle, and all else as the first. -/
structure Beside (rules : Buffer.Rules) (x : UInt64) (b : Buffer) (p : Bool) (r s : Registry) : Prop where
  listed : x ∈ r.handles
  fresh : x.toNat < r.nextHandle.toNat
  rules : r.rules.buffers = rules
  replaced : s = r.replaced x b p

section
variable {rules : Buffer.Rules} {p : Bool}

theorem Beside.put (h : Beside rules x b p r s) (hne : handle ≠ x) (c : Buffer) (q : Bool) :
    Beside rules x b p (r.replaced handle c q) (s.replaced handle c q) where
  listed := by
    rw [handles_replaced]
    exact h.listed
  fresh := h.fresh
  rules := h.rules
  replaced := by rw [h.replaced, replaced_comm hne]

theorem withBuffer_beside [Reports ε] (hne : handle ≠ x) (m : Action Buffer ε α) :
    Agree (Beside rules x b p) (withBuffer handle m) (withBuffer handle m) := by
  intro r s h
  have hs : s.entry? handle = r.entry? handle := by
    rw [h.replaced]
    exact entry?_replaced_ne hne b p
  cases he : r.entry? handle with
  | none => exact (withBuffer_absent m he).agree (withBuffer_absent m (hs.trans he)) h
  | some e =>
    obtain ⟨y, c, q⟩ := e
    obtain rfl : y = handle := handle_of_entry he
    cases q with
    | true => exact (withBuffer_poisoned m he).agree (withBuffer_poisoned m (hs.trans he)) h
    | false =>
      exact (withBuffer_present m he).agree (withBuffer_present m (hs.trans he)) (h.put hne _ _)

/-- What comes to other handles gives the same, and leaves the difference where it is. -/
theorem Woven.beside {I : Buffer → Prop} {allowed : Fault → Prop} {m : Action Registry ε α}
    (h : Woven I allowed rules held seen m) (hx : ¬ held x) (hs : ¬ seen x) :
    Agree (Beside rules x b p) m m := by
  have hne {held : UInt64 → Prop} {y : UInt64} (hx : ¬ held x) (hy : held y) : y ≠ x :=
    fun he => hx (he ▸ hy)
  induction h with
  | done a => exact agree_pure _ a
  | refused e => exact agree_refuse _ e
  | told event => exact agree_emit _ event
  | ruled _ ih =>
    refine agree_gets_bind (fun r s h => ⟨h.rules, ?_⟩) ih
    rw [h.replaced]
    exact h.rules
  | hold hy => exact withBuffer_beside (hne hx hy) _
  | appended hy hsource offset length =>
    exact (withBuffer_beside (hne hs hsource) _).bind fun segment => withBuffer_beside (hne hx hy) _
  | andThen _ _ hm hf => exact hm.bind hf
  | mapError _ g ih => exact ih.mapError g
  | attempt _ ih => exact ih.attempt

theorem create_beside : Agree (Beside rules x b p) create create := by
  rintro r s ⟨hl, hf, hr, rfl⟩
  by_cases hlast : r.nextHandle = lastHandle
  · exact (create_exhausted hlast).agree (create_exhausted hlast) ⟨hl, hf, hr, rfl⟩
  · have hne : r.nextHandle ≠ x := fun he => Nat.lt_irrefl _ (he ▸ hf)
    refine (create_yields hlast).agree (create_yields hlast) ⟨?_, ?_, hr, created_replaced hne b p⟩
    · rw [handles_created]
      exact List.mem_append_left _ hl
    · have hnext : r.created.nextHandle = r.nextHandle + 1 := rfl
      rw [hnext, toNat_next hlast]
      exact Nat.lt_succ_of_lt hf

theorem lookup_beside (handle : UInt64) :
    Agree (Beside rules x b p) (lookup handle) (lookup handle) := by
  intro r s h
  have hs : s.handles = r.handles := by
    rw [h.replaced]
    exact handles_replaced b p
  by_cases hh : handle ∈ r.handles
  · exact (lookup_yields hh).agree (lookup_yields (hs ▸ hh)) h
  · exact (lookup_absent hh).agree (lookup_absent (hs ▸ hh)) h

theorem destroy_beside (hne : handle ≠ x) :
    Agree (Beside rules x b p) (destroy handle) (destroy handle) := by
  rintro r s ⟨hl, hf, hr, rfl⟩
  have hs : (r.replaced x b p).handles = r.handles := handles_replaced b p
  by_cases hh : handle ∈ r.handles
  · refine (destroy_yields hh).agree (destroy_yields (hs ▸ hh)) ⟨?_, hf, hr, ?_⟩
    · rw [handles_without, List.mem_filter]
      exact ⟨hl, decide_eq_true hne.symm⟩
    · exact without_replaced r handle x b p
  · exact (destroy_stray hh).agree (destroy_stray (hs ▸ hh)) ⟨hl, hf, hr, rfl⟩

/-- A request that does not come to a handle is not told what is under it. -/
theorem Request.beside (q : Request) (hx : q.holds ≠ some x) (hs : x ∉ q.sources) (hd : q ≠ .destroy x) :
    Agree (Beside rules x b p) q.run q.run := by
  have hholds (handle : UInt64) (hh : q.holds = some handle) : Agree (Beside rules x b p) q.run q.run := by
    have hw : Woven (fun _ => True) (fun _ => True) rules (· = handle) (· ∈ q.sources) q.run :=
      q.woven (upheld_trivially rules) (fun _ _ _ _ _ => ⟨trivial, fun _ _ => trivial⟩) hh rfl
        fun _ h => h
    exact hw.beside (fun he => hx (he ▸ hh)) hs
  cases q with
  | create => exact (create_beside.mapError _).map _
  | lookup handle => exact ((lookup_beside handle).mapError _).map _
  | destroy handle =>
    have hne : handle ≠ x := fun he => hd (congrArg Request.destroy he)
    exact ((destroy_beside hne).mapError _).map _
  | hold | append | encode | decode | perform | batch => exact hholds _ rfl

end

end Registry

end Parcel
