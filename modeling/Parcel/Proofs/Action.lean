import Parcel.Action

/-!
How actions run. `Yields` says what one run gives and leaves, `Within` that every run keeps a property of
the state and ends in no fault but some, and `Agree` and `Tracks` that two actions on related states give
the same result and leave related states, for `Tracks` unless it is a fault. Events do not matter to any
of them.
-/
namespace Parcel

@[simp] theorem trust_ok (a : α) : (trust (.ok a) : Except (Failure ε) α) = .ok a := rfl

@[simp] theorem trust_error (f : Fault) :
    (trust (.error f) : Except (Failure ε) α) = .error (.broken f) := rfl

namespace Action

theorem bind_run (m : Action σ ε α) (f : α → Action σ ε β) (s : σ) :
    (m >>= f) s = match m s with
      | ⟨.error e, s', events⟩ => ⟨.error e, s', events⟩
      | ⟨.ok a, s', events⟩ =>
        match f a s' with
        | ⟨result, s'', events'⟩ => ⟨result, s'', events ++ events'⟩ := rfl

/-- A run of `m` from `s` gives `r` and leaves `t`. -/
structure Yields (m : Action σ ε α) (s : σ) (r : Except (Failure ε) α) (t : σ) : Prop where
  result : (m s).result = r
  state : (m s).state = t

theorem yields_run (m : Action σ ε α) (s : σ) : m.Yields s (m s).result (m s).state :=
  ⟨rfl, rfl⟩

theorem yields_pure (a : α) (s : σ) : (pure a : Action σ ε α).Yields s (.ok a) s := ⟨rfl, rfl⟩

theorem yields_get (s : σ) : (get : Action σ ε σ).Yields s (.ok s) s := ⟨rfl, rfl⟩

theorem yields_gets (f : σ → α) (s : σ) : (gets f : Action σ ε α).Yields s (.ok (f s)) s := ⟨rfl, rfl⟩

theorem yields_inspect {f : σ → Except (Failure ε) α} (h : f s = r) : (inspect f).Yields s r s :=
  ⟨h, rfl⟩

theorem yields_lift {r : Except (Failure ε) α} (h : r = r') (s : σ) : (lift r).Yields s r' s := ⟨h, rfl⟩

theorem yields_modify (f : σ → σ) (s : σ) :
    (modify f : Action σ ε Unit).Yields s (.ok ()) (f s) := ⟨rfl, rfl⟩

theorem yields_emit (e : Event) (s : σ) : (emit e : Action σ ε Unit).Yields s (.ok ()) s := ⟨rfl, rfl⟩

theorem yields_refuse (e : ε) (s : σ) :
    (refuse e : Action σ ε α).Yields s (.error (.refused e)) s := ⟨rfl, rfl⟩

theorem Yields.bind {m : Action σ ε α} {f : α → Action σ ε β} (hm : m.Yields s (.ok a) t)
    (hf : (f a).Yields t r u) : (m >>= f).Yields s r u := by
  obtain ⟨hr, hs⟩ := hm
  rcases hrun : m s with ⟨result, state, events⟩
  simp only [hrun] at hr hs
  subst hr hs
  constructor
  · simp only [bind_run, hrun, hf.result]
  · simp only [bind_run, hrun, hf.state]

/-- What fails does not go on. -/
theorem Yields.stop {m : Action σ ε α} {f : α → Action σ ε β} (hm : m.Yields s (.error e) t) :
    (m >>= f).Yields s (.error e) t := by
  obtain ⟨hr, hs⟩ := hm
  rcases hrun : m s with ⟨result, state, events⟩
  simp only [hrun] at hr hs
  subst hr hs
  constructor <;> simp only [bind_run, hrun]

theorem Yields.map {m : Action σ ε α} (hm : m.Yields s (.ok a) t) (f : α → β) :
    (f <$> m).Yields s (.ok (f a)) t := hm.bind (yields_pure (f a) t)

theorem Yields.map_stop {m : Action σ ε α} (hm : m.Yields s (.error e) t) (f : α → β) :
    (f <$> m).Yields s (.error e) t := hm.stop

/-- Whatever comes of it, the result is mapped and the state stays. -/
theorem Yields.map_any {m : Action σ ε α} (hm : m.Yields s r t) (f : α → β) :
    (f <$> m).Yields s (r.map f) t := by
  cases r with
  | error e => exact hm.map_stop f
  | ok a => exact hm.map f

/-- The state behind a mapped action is the state behind the action. -/
theorem state_map (m : Action σ ε α) (f : α → β) (s : σ) : ((f <$> m) s).state = (m s).state :=
  ((yields_run m s).map_any f).state

theorem Yields.mapError {m : Action σ ε α} (g : ε → ε') (hm : m.Yields s r t) :
    (m.mapError g).Yields s (r.mapError (Failure.map g)) t := by
  obtain ⟨hr, hs⟩ := hm
  rcases hrun : m s with ⟨result, state, events⟩
  simp only [hrun] at hr hs
  subst hr hs
  cases result with
  | error e =>
    constructor
    · simp only [Action.mapError, hrun]
      rfl
    · simp only [Action.mapError, hrun]
  | ok a =>
    constructor
    · simp only [Action.mapError, hrun]
      rfl
    · simp only [Action.mapError, hrun]

/-- Rewording a refusal leaves the state alone. -/
theorem state_mapError (m : Action σ ε α) (g : ε → ε') (s : σ) : (m.mapError g s).state = (m s).state :=
  ((yields_run m s).mapError g).state

theorem Yields.apart {m : Action τ ε α} (hm : m.Yields t (.ok a) u) (s : σ) :
    (apart t m : Action σ ε (α × τ)).Yields s (.ok (a, u)) s := by
  obtain ⟨hr, hs⟩ := hm
  rcases hrun : m t with ⟨result, state, events⟩
  simp only [hrun] at hr hs
  subst hr hs
  constructor <;> simp only [Action.apart, hrun]

theorem Yields.apart_stop {m : Action τ ε α} (hm : m.Yields t (.error e) u) (s : σ) :
    (Action.apart t m : Action σ ε (α × τ)).Yields s (.error e) s := by
  obtain ⟨hr, hs⟩ := hm
  rcases hrun : m t with ⟨result, state, events⟩
  simp only [hrun] at hr hs
  subst hr hs
  constructor <;> simp only [Action.apart, hrun]

theorem Yields.first {m : Action σ ε α} (hm : m.Yields s r u) (t : τ) :
    (first m : Action (σ × τ) ε α).Yields (s, t) r (u, t) := by
  obtain ⟨hr, hs⟩ := hm
  rcases hrun : m s with ⟨result, state, events⟩
  simp only [hrun] at hr hs
  subst hr hs
  constructor <;> simp only [Action.first, hrun]

/-- A refusal as a result; a fault stays one. -/
def attempted : Except (Failure ε) α → Except (Failure ε') (Except ε α)
  | .ok a => .ok (.ok a)
  | .error (.refused e) => .ok (.error e)
  | .error (.broken f) => .error (.broken f)

theorem Yields.attempt {m : Action σ ε α} (hm : m.Yields s r t) :
    (m.attempt : Action σ ε' _).Yields s (attempted r) t := by
  obtain ⟨hr, hs⟩ := hm
  rcases hrun : m s with ⟨result, state, events⟩
  simp only [hrun] at hr hs
  subst hr hs
  rcases result with (e | f) | a <;> constructor <;> simp only [Action.attempt, hrun, attempted]

theorem ok_of_bind {m : Action σ ε α} {f : α → Action σ ε β}
    (h : ((m >>= f) s).result = .ok b) :
    ∃ a, (m s).result = .ok a ∧ (f a (m s).state).result = .ok b := by
  cases hm : (m s).result with
  | error e =>
    rw [(Yields.stop ⟨hm, rfl⟩ : (m >>= f).Yields s _ _).result] at h
    cases h
  | ok a =>
    rw [(Yields.bind ⟨hm, rfl⟩ (yields_run (f a) _) : (m >>= f).Yields s _ _).result] at h
    exact ⟨a, rfl, h⟩

theorem ok_of_mapError {m : Action σ ε α} {g : ε → ε'} (h : (m.mapError g s).result = .ok a) :
    (m s).result = .ok a := by
  rw [((yields_run m s).mapError g).result] at h
  cases hm : (m s).result with
  | error e => rw [hm] at h; cases h
  | ok b =>
    rw [hm] at h
    cases h
    rfl

theorem ok_of_attempt {m : Action σ ε α}
    (h : ((m.attempt : Action σ ε' _) s).result = .ok (.ok a)) : (m s).result = .ok a := by
  rw [(yields_run m s).attempt.result] at h
  rcases hm : (m s).result with (e | f) | b <;> rw [hm] at h <;> cases h
  rfl

theorem ok_of_apart {m : Action τ ε α} (h : (apart t m (s : σ)).result = .ok (a, u)) :
    (m t).result = .ok a ∧ (m t).state = u := by
  cases hm : (m t).result with
  | error e =>
    rw [(Yields.apart_stop ⟨hm, rfl⟩ s : (apart t m).Yields s _ _).result] at h
    cases h
  | ok b =>
    rw [(Yields.apart ⟨hm, rfl⟩ s : (apart t m).Yields s _ _).result] at h
    cases h
    exact ⟨rfl, rfl⟩

/-- Two actions that cannot be told apart by their results, started in states that `R` relates. -/
def Agree (R : σ → τ → Prop) (m : Action σ ε α) (n : Action τ ε α) : Prop :=
  ∀ s t, R s t → (m s).result = (n t).result ∧ R (m s).state (n t).state

theorem Yields.agree {R : σ → τ → Prop} {m : Action σ ε α} {n : Action τ ε α}
    (hm : m.Yields s r s') (hn : n.Yields t r t') (h : R s' t') :
    (m s).result = (n t).result ∧ R (m s).state (n t).state := by
  rw [hm.result, hm.state, hn.result, hn.state]
  exact ⟨rfl, h⟩

theorem agree_pure (R : σ → τ → Prop) (a : α) :
    Agree R (pure a : Action σ ε α) (pure a) := fun _ _ h => ⟨rfl, h⟩

theorem agree_refuse (R : σ → τ → Prop) (e : ε) :
    Agree R (refuse e : Action σ ε α) (refuse e) := fun _ _ h => ⟨rfl, h⟩

theorem agree_inspect {R : σ → τ → Prop} {f : σ → Except (Failure ε) α}
    {g : τ → Except (Failure ε) α} (h : ∀ s t, R s t → f s = g t) :
    Agree R (inspect f) (inspect g) := fun s t hr => ⟨h s t hr, hr⟩

theorem agree_gets {R : σ → τ → Prop} {f : σ → α} {g : τ → α} (h : ∀ s t, R s t → f s = g t) :
    Agree R (gets f : Action σ ε α) (gets g) := fun s t hr => ⟨congrArg Except.ok (h s t hr), hr⟩

/-- What is read off the states is known, so the rest has to agree on that only. -/
theorem agree_gets_bind {R : σ → τ → Prop} {f : σ → α} {g : τ → α} {k : α → Action σ ε β}
    {l : α → Action τ ε β} (h : ∀ s t, R s t → f s = a ∧ g t = a) (hk : Agree R (k a) (l a)) :
    Agree R (gets f >>= k) (gets g >>= l) := by
  intro s t hr
  obtain ⟨rfl, hg⟩ := h s t hr
  obtain ⟨hresult, hstate⟩ := hk s t hr
  refine Yields.agree ((yields_gets f s).bind ⟨hresult, rfl⟩) ((yields_gets g t).bind ?_) hstate
  rw [hg]
  exact yields_run _ t

theorem agree_self (m : Action σ ε α) : Agree Eq m m := fun s t h => by
  rw [h]
  exact ⟨rfl, rfl⟩

theorem Agree.bind {R : σ → τ → Prop} {m : Action σ ε α} {n : Action τ ε α}
    {f : α → Action σ ε β} {g : α → Action τ ε β} (hm : Agree R m n)
    (hf : ∀ a, Agree R (f a) (g a)) : Agree R (m >>= f) (n >>= g) := by
  intro s t h
  obtain ⟨hr, ht⟩ := hm s t h
  cases hn : (n t).result with
  | error e =>
    exact Yields.agree (Yields.stop ⟨hr.trans hn, rfl⟩) (Yields.stop ⟨hn, rfl⟩) ht
  | ok a =>
    obtain ⟨hr', ht'⟩ := hf a _ _ ht
    exact Yields.agree (Yields.bind ⟨hr.trans hn, rfl⟩ ⟨hr', rfl⟩)
      (Yields.bind ⟨hn, rfl⟩ ⟨rfl, rfl⟩) ht'

theorem Agree.map {R : σ → τ → Prop} {m : Action σ ε α} {n : Action τ ε α} (hm : Agree R m n)
    (f : α → β) : Agree R (f <$> m) (f <$> n) :=
  hm.bind fun _ => agree_pure R _

theorem Agree.mapError {R : σ → τ → Prop} {m : Action σ ε α} {n : Action τ ε α}
    (hm : Agree R m n) (g : ε → ε') : Agree R (m.mapError g) (n.mapError g) := by
  intro s t h
  obtain ⟨hr, ht⟩ := hm s t h
  exact Yields.agree ((yields_run m s).mapError g) (Yields.mapError g ⟨hr.symm, rfl⟩) ht

theorem Agree.attempt {R : σ → τ → Prop} {m : Action σ ε α} {n : Action τ ε α} (hm : Agree R m n) :
    Agree R (m.attempt : Action σ ε' _) n.attempt := by
  intro s t h
  obtain ⟨hr, ht⟩ := hm s t h
  exact Yields.agree (yields_run m s).attempt (Yields.attempt ⟨hr.symm, rfl⟩) ht

theorem Agree.each {R : σ → τ → Prop} {f : β → Action σ ε Unit} {g : β → Action τ ε Unit}
    (hf : ∀ b, Agree R (f b) (g b)) : (bs : List β) → Agree R (each f bs) (each g bs)
  | [] => agree_pure R ()
  | b :: bs => (hf b).bind fun _ => Agree.each hf bs

/-- What runs on a state of its own does not see this one. -/
theorem agree_apart (R : σ → τ → Prop) (r : ρ) (m : Action ρ ε α) :
    Agree R (apart r m) (apart r m) := by
  intro s t h
  rcases hrun : m r with ⟨result, state, events⟩
  cases result <;> simp only [apart, hrun, true_and, h]

theorem agree_emit (R : σ → τ → Prop) (e : Event) :
    Agree R (emit e : Action σ ε Unit) (emit e) := fun _ _ h => ⟨rfl, h⟩

theorem agree_ite {R : σ → τ → Prop} {m m' : Action σ ε α} {n n' : Action τ ε α} (p : Prop)
    [Decidable p] (h : Agree R m n) (h' : Agree R m' n') :
    Agree R (if p then m else m') (if p then n else n') := by
  split
  · exact h
  · exact h'

/-- Not a fault. -/
def Unbroken (result : Except (Failure ε) α) : Prop := ∀ f, result ≠ .error (.broken f)

theorem unbroken_ok (a : α) : Unbroken (.ok a : Except (Failure ε) α) := fun _ h => by cases h

theorem unbroken_refused (e : ε) : Unbroken (.error (.refused e) : Except (Failure ε) α) :=
  fun _ h => by cases h

theorem Unbroken.map {result : Except (Failure ε) α} (h : Unbroken result) (f : α → β) :
    Unbroken (result.map f) := by
  intro fault hf
  cases result with
  | error e =>
    cases hf
    exact h fault rfl
  | ok a => cases hf

/-- What neither is a fault nor succeeds is refused. -/
theorem Unbroken.refused {result : Except (Failure ε) α} (h : Unbroken result)
    (hno : ∀ a, result ≠ .ok a) : ∃ e, result = .error (.refused e) := by
  rcases result with (e | f) | a
  · exact ⟨e, rfl⟩
  · exact absurd rfl (h f)
  · exact absurd rfl (hno a)

/-- The same, but that a fault may leave any states. -/
def Tracks (R : σ → τ → Prop) (m : Action σ ε α) (n : Action τ ε α) : Prop :=
  ∀ s t, R s t → (m s).result = (n t).result ∧
    (Unbroken (m s).result → R (m s).state (n t).state)

theorem Agree.tracks {R : σ → τ → Prop} {m : Action σ ε α} {n : Action τ ε α} (h : Agree R m n) :
    Tracks R m n := fun s t hr => ⟨(h s t hr).1, fun _ => (h s t hr).2⟩

theorem Tracks.bind {R : σ → τ → Prop} {m : Action σ ε α} {n : Action τ ε α}
    {f : α → Action σ ε β} {g : α → Action τ ε β} (hm : Tracks R m n)
    (hf : ∀ a, Tracks R (f a) (g a)) : Tracks R (m >>= f) (n >>= g) := by
  intro s t h
  obtain ⟨hr, ht⟩ := hm s t h
  cases hres : (m s).result with
  | error e =>
    have hms : (m >>= f).Yields s (.error e) (m s).state := Yields.stop ⟨hres, rfl⟩
    have hns : (n >>= g).Yields t (.error e) (n t).state := Yields.stop ⟨hr.symm.trans hres, rfl⟩
    rw [hms.result, hns.result, hms.state, hns.state]
    refine ⟨rfl, fun hu => ht fun fault hf => hu fault ?_⟩
    cases hres.symm.trans hf
    rfl
  | ok a =>
    obtain ⟨hr', ht'⟩ := hf a _ _ (ht (hres ▸ unbroken_ok a))
    have hms := Yields.bind ⟨hres, rfl⟩ (yields_run (f a) (m s).state)
    have hns := Yields.bind ⟨hr.symm.trans hres, rfl⟩ (yields_run (g a) (n t).state)
    rw [hms.result, hns.result, hms.state, hns.state]
    exact ⟨hr', ht'⟩

theorem Tracks.map {R : σ → τ → Prop} {m : Action σ ε α} {n : Action τ ε α} (hm : Tracks R m n)
    (f : α → β) : Tracks R (f <$> m) (f <$> n) :=
  hm.bind fun _ => (agree_pure R _).tracks

theorem Tracks.mapError {R : σ → τ → Prop} {m : Action σ ε α} {n : Action τ ε α}
    (hm : Tracks R m n) (g : ε → ε') : Tracks R (m.mapError g) (n.mapError g) := by
  intro s t h
  obtain ⟨hr, ht⟩ := hm s t h
  have hms := (yields_run m s).mapError g
  have hns := (yields_run n t).mapError g
  rw [hms.result, hns.result, hms.state, hns.state, hr]
  refine ⟨rfl, fun hu => ht fun fault hf => hu fault ?_⟩
  rw [← hr, hf]
  rfl

theorem Tracks.attempt {R : σ → τ → Prop} {m : Action σ ε α} {n : Action τ ε α} (hm : Tracks R m n) :
    Tracks R (m.attempt : Action σ ε' _) n.attempt := by
  intro s t h
  obtain ⟨hr, ht⟩ := hm s t h
  have hms : (m.attempt : Action σ ε' _).Yields s _ _ := (yields_run m s).attempt
  have hns : (n.attempt : Action τ ε' _).Yields t _ _ := (yields_run n t).attempt
  rw [hms.result, hns.result, hms.state, hns.state, hr]
  refine ⟨rfl, fun hu => ht fun fault hf => hu fault ?_⟩
  rw [← hr, hf]
  rfl

/-- A run from `s` leaves a state with `P`, and if it ends in a fault, then in one that is allowed. -/
structure Ends (m : Action σ ε α) (s : σ) (P : σ → Prop) (allowed : Fault → Prop) : Prop where
  state : P (m s).state
  fault : ∀ f, (m s).result = .error (.broken f) → allowed f

/-- Every run from a state with `P` ends so. -/
def Within (P : σ → Prop) (allowed : Fault → Prop) (m : Action σ ε α) : Prop :=
  ∀ s, P s → m.Ends s P allowed

theorem Ends.unbroken {m : Action σ ε α} {P : σ → Prop} (h : m.Ends s P fun _ => False) :
    Unbroken (m s).result := h.fault

variable {P : σ → Prop} {allowed : Fault → Prop} {m : Action σ ε α} {s t : σ}

theorem Yields.ends (h : m.Yields s (.ok a) t) (ht : P t) : m.Ends s P allowed where
  state := by rwa [h.state]
  fault f hf := by cases h.result.symm.trans hf

theorem Yields.ends_refused (h : m.Yields s (.error (.refused e)) t) (ht : P t) :
    m.Ends s P allowed where
  state := by rwa [h.state]
  fault f hf := by cases h.result.symm.trans hf

theorem within_pure (a : α) : Within P allowed (pure a : Action σ ε α) :=
  fun s hs => (yields_pure a s).ends hs

theorem within_refuse (e : ε) : Within P allowed (refuse e : Action σ ε α) :=
  fun s hs => (yields_refuse e s).ends_refused hs

theorem within_emit (e : Event) : Within P allowed (emit e : Action σ ε Unit) :=
  fun s hs => (yields_emit e s).ends hs

theorem within_gets (f : σ → α) : Within P allowed (gets f : Action σ ε α) :=
  fun s hs => (yields_gets f s).ends hs

theorem within_get : Within P allowed (get : Action σ ε σ) :=
  fun s hs => (yields_get s).ends hs

theorem within_modify {f : σ → σ} (h : ∀ s, P s → P (f s)) :
    Within P allowed (modify f : Action σ ε Unit) :=
  fun s hs => (yields_modify f s).ends (h s hs)

theorem within_apart (t : τ) (m : Action τ ε α) (h : Unbroken (m t).result) :
    Within P allowed (apart t m : Action σ ε (α × τ)) := by
  intro s hs
  cases hm : (m t).result with
  | ok a => exact (Yields.apart ⟨hm, rfl⟩ s).ends hs
  | error e =>
    cases e with
    | refused e => exact (Yields.apart_stop ⟨hm, rfl⟩ s).ends_refused hs
    | broken f => exact absurd hm (h f)

theorem within_inspect {f : σ → Except (Failure ε) α}
    (h : ∀ s, P s → ∀ fault, f s = .error (.broken fault) → allowed fault) :
    Within P allowed (inspect f) := fun s hs => ⟨hs, h s hs⟩

/-- The second action may count on what the first gave. -/
theorem Within.bind {f : α → Action σ ε β} (hm : Within P allowed m)
    (hf : ∀ s a, P s → (m s).result = .ok a → Within P allowed (f a)) :
    Within P allowed (m >>= f) := by
  intro s hs
  obtain ⟨ht, hfault⟩ := hm s hs
  cases hres : (m s).result with
  | error e =>
    have hms : (m >>= f).Yields s (.error e) (m s).state := Yields.stop ⟨hres, rfl⟩
    refine ⟨by rwa [hms.state], fun fault h => hfault fault ?_⟩
    cases hms.result.symm.trans h
    exact hres
  | ok a =>
    obtain ⟨hu, hfault'⟩ := hf s a hs hres _ ht
    have hms := Yields.bind ⟨hres, rfl⟩ (yields_run (f a) (m s).state)
    exact ⟨by rwa [hms.state], fun fault h => hfault' fault (hms.result.symm.trans h)⟩

theorem Within.andThen {f : α → Action σ ε β} (hm : Within P allowed m)
    (hf : ∀ a, Within P allowed (f a)) : Within P allowed (m >>= f) :=
  hm.bind fun _ a _ _ => hf a

theorem Within.map (hm : Within P allowed m) (f : α → β) : Within P allowed (f <$> m) :=
  hm.andThen fun a => within_pure (f a)

theorem Within.mapError (hm : Within P allowed m) (g : ε → ε') : Within P allowed (m.mapError g) := by
  intro s hs
  obtain ⟨ht, hfault⟩ := hm s hs
  have hms := (yields_run m s).mapError g
  refine ⟨by rwa [hms.state], fun fault h => hfault fault ?_⟩
  rw [hms.result] at h
  rcases hres : (m s).result with (e | f) | a <;> rw [hres] at h <;> cases h
  rfl

theorem Within.attempt (hm : Within P allowed m) : Within P allowed (m.attempt : Action σ ε' _) := by
  intro s hs
  obtain ⟨ht, hfault⟩ := hm s hs
  have hms : (m.attempt : Action σ ε' _).Yields s _ _ := (yields_run m s).attempt
  refine ⟨by rwa [hms.state], fun fault h => hfault fault ?_⟩
  rw [hms.result] at h
  rcases hr : (m s).result with (e | f) | a <;> rw [hr] at h <;> cases h
  rfl

theorem Within.each {f : β → Action σ ε Unit} (hf : ∀ b, Within P allowed (f b)) :
    (bs : List β) → Within P allowed (each f bs)
  | [] => within_pure ()
  | b :: bs => (hf b).andThen fun _ => Within.each hf bs

theorem within_first {m : Action σ ε α} (h : Within P allowed m) :
    Within (fun s : σ × τ => P s.1) allowed (first m) := by
  intro s hs
  obtain ⟨hstate, hfault⟩ := h s.1 hs
  have hy := (yields_run m s.1).first s.2
  refine ⟨?_, fun f hf => hfault f (hy.result.symm.trans hf)⟩
  rw [hy.state]
  exact hstate

theorem within_ite {m' : Action σ ε α} (p : Prop) [Decidable p] (h : Within P allowed m)
    (h' : Within P allowed m') : Within P allowed (if p then m else m') := by
  split
  · exact h
  · exact h'

/-- The second action leaves what the first leaves, and breaks where it breaks. -/
def Shadowed (m : Action σ ε α) (n : Action σ ε' β) : Prop :=
  ∀ s, (m s).state = (n s).state ∧
    ∀ f, (m s).result = .error (.broken f) → (n s).result = .error (.broken f)

theorem shadowed_self (m : Action σ ε α) : Shadowed m m := fun _ => ⟨rfl, fun _ h => h⟩

theorem Shadowed.map {n : Action σ ε' β} (h : Shadowed m n) (f : β → γ) : Shadowed m (f <$> n) := by
  intro s
  have hy := (yields_run n s).map_any f
  refine ⟨(h s).1.trans hy.state.symm, fun fault hf => ?_⟩
  rw [hy.result, (h s).2 fault hf]
  rfl

theorem Shadowed.mapError {n : Action σ ε' β} (h : Shadowed m n) (g : ε' → ε'') :
    Shadowed m (n.mapError g) := by
  intro s
  have hy := (yields_run n s).mapError g
  refine ⟨(h s).1.trans hy.state.symm, fun fault hf => ?_⟩
  rw [hy.result, (h s).2 fault hf]
  rfl

theorem Within.shadow {n : Action σ ε' β} (hn : Within P allowed n) (h : Shadowed m n) :
    Within P allowed m := fun s hs =>
  ⟨(h s).1 ▸ (hn s hs).state, fun f hf => (hn s hs).fault f ((h s).2 f hf)⟩

end Action

end Parcel
