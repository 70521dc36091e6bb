import Mathlib.Tactic.Basic
import Rebalance.Distribution.Rounds

/-!
# Outcomes

What a computation with faults comes to from a state: a result and a state of which one thing holds,
or a fault and a state of which another holds. Outcomes compose along the computation, so what each
operation comes to is stated once and used by name.
-/

namespace Rebalance

/-- From a state, a computation ends in a result with `post`, or in a fault with `fail`. -/
def Ends {ε σ α : Type} (x : EStateM ε σ α) (s : σ) (post : α → σ → Prop)
    (fail : ε → σ → Prop) : Prop :=
  match x s with
  | .ok a s' => post a s'
  | .error e s' => fail e s'

section

variable {ε σ α β : Type} {x : EStateM ε σ α} {k : α → EStateM ε σ β} {s s' : σ}

theorem bind_of_ok {a : α} (h : x s = .ok a s') : (x >>= k) s = k a s' := by
  change EStateM.bind x k s = _
  rw [EStateM.bind, h]

/-- What comes after depends only on what came out. -/
theorem bind_of_eq {y : EStateM ε σ α} (h : x s = y s') : (x >>= k) s = (y >>= k) s' := by
  change EStateM.bind x k s = EStateM.bind y k s'
  rw [EStateM.bind, EStateM.bind, h]

theorem bind_of_error {e : ε} (h : x s = .error e s') : (x >>= k) s = .error e s' := by
  change EStateM.bind x k s = _
  rw [EStateM.bind, h]

end

namespace Ends

variable {ε σ α β : Type} {x : EStateM ε σ α} {s s' : σ} {post post' : α → σ → Prop}
  {fail fail' : ε → σ → Prop}

theorem of_ok {a : α} (h : Ends x s post fail) (hx : x s = .ok a s') : post a s' := by
  rw [Ends, hx] at h
  exact h

theorem of_error {e : ε} (h : Ends x s post fail) (hx : x s = .error e s') : fail e s' := by
  rw [Ends, hx] at h
  exact h

/-- A computation of which the result is known comes to that. -/
theorem of_result {a : α} (hx : x s = .ok a s') (h : post a s') : Ends x s post fail := by
  rwa [Ends, hx]

/-- A computation comes to what running it gives. -/
theorem self (x : EStateM ε σ α) (s : σ) :
    Ends x s (fun a s' ↦ x s = .ok a s') fun e s' ↦ x s = .error e s' := by
  unfold Ends
  cases x s with
  | ok a s' => rfl
  | error e s' => rfl

theorem mono (h : Ends x s post fail) (hpost : ∀ a s', post a s' → post' a s')
    (hfail : ∀ e s', fail e s' → fail' e s') : Ends x s post' fail' := by
  unfold Ends at *
  cases hx : x s with
  | ok a s' =>
    rw [hx] at h
    exact hpost a s' h
  | error e s' =>
    rw [hx] at h
    exact hfail e s' h

/-- Where it is known whether a computation fails. -/
theorem resolve {P : Prop}
    (h : Ends x s (fun a s' ↦ P ∧ post a s') fun e s' ↦ ¬ P ∧ fail e s') (hp : P) :
    Ends x s post fun _ _ ↦ False :=
  h.mono (fun _ _ hpost ↦ hpost.2) fun _ _ hfail ↦ hfail.1 hp

/-- A computation comes to all that it comes to. -/
theorem and (h : Ends x s post fail) (h' : Ends x s post' fail') :
    Ends x s (fun a s' ↦ post a s' ∧ post' a s') fun e s' ↦ fail e s' ∧ fail' e s' := by
  unfold Ends at *
  cases hx : x s with
  | ok a s' =>
    rw [hx] at h h'
    exact ⟨h, h'⟩
  | error e s' =>
    rw [hx] at h h'
    exact ⟨h, h'⟩

/-- What a computation comes to can be found out by running it. -/
instance [∀ a s', Decidable (post a s')] [∀ e s', Decidable (fail e s')] :
    Decidable (Ends x s post fail) :=
  match h : x s with
  | .ok a s' => decidable_of_iff (post a s') (by rw [Ends, h])
  | .error e s' => decidable_of_iff (fail e s') (by rw [Ends, h])

/-- Without faults there is a result. -/
theorem exists_ok (h : Ends x s post fun _ _ ↦ False) : ∃ a s', x s = .ok a s' ∧ post a s' := by
  unfold Ends at h
  cases hx : x s with
  | ok a s' =>
    rw [hx] at h
    exact ⟨a, s', rfl, h⟩
  | error e s' =>
    rw [hx] at h
    exact h.elim

/-- If there is one fault that a computation may end in, and no result, it ends in that. -/
theorem error_iff (h : Ends x s post fail) {e : ε} (hpost : ∀ a s'', post a s'' → ¬ fail e s')
    (hfail : ∀ e' s'', fail e' s'' → fail e s' → e' = e ∧ s'' = s') :
    x s = .error e s' ↔ fail e s' := by
  refine ⟨h.of_error, fun he ↦ ?_⟩
  cases hx : x s with
  | ok a s'' => exact absurd he (hpost a s'' (h.of_ok hx))
  | error e' s'' =>
    obtain ⟨rfl, rfl⟩ := hfail e' s'' (h.of_error hx) he
    rfl

/-- Without results there is a fault. -/
theorem exists_error (h : Ends x s (fun _ _ ↦ False) fail) :
    ∃ e s', x s = .error e s' ∧ fail e s' := by
  unfold Ends at h
  cases hx : x s with
  | ok a s' =>
    rw [hx] at h
    exact h.elim
  | error e s' =>
    rw [hx] at h
    exact ⟨e, s', rfl, h⟩

theorem pure {a : α} (h : post a s) : Ends (Pure.pure a) s post fail := h

theorem throw {e : ε} (h : fail e s) : Ends (MonadExcept.throw e) s post fail := h

/-- A computation goes on from what the one before it came to. -/
theorem bind {k : α → EStateM ε σ β} {post : β → σ → Prop}
    (h : Ends x s (fun a s' ↦ Ends (k a) s' post fail) fail) : Ends (x >>= k) s post fail := by
  unfold Ends at h
  change Ends (EStateM.bind x k) s post fail
  unfold Ends EStateM.bind
  cases hx : x s with
  | ok a s' =>
    rw [hx] at h
    exact h
  | error e s' =>
    rw [hx] at h
    exact h

theorem get {post : σ → σ → Prop} (h : post s s) : Ends MonadState.get s post fail := h

theorem set {post : PUnit → σ → Prop} (h : post ⟨⟩ s') : Ends (MonadStateOf.set s') s post fail := h

end Ends

/-! ## Results among computations -/

/-- A looked up result is used, or its fault is the fault. -/
theorem Ends.except {σ α : Type} {y : Except Fault α} {s : σ} {post : α → σ → Prop}
    {fail : Fault → σ → Prop} (hok : ∀ a, y = .ok a → post a s)
    (herror : ∀ f, y = .error f → fail f s) :
    Ends (liftM y : EStateM Fault σ α) s post fail := by
  cases y with
  | ok a => exact hok a rfl
  | error f => exact herror f rfl

theorem bind_of_lift {σ α β : Type} {y : Except Fault α} {k : α → EStateM Fault σ β} {s : σ} {a : α}
    (h : y = .ok a) : ((liftM y : EStateM Fault σ α) >>= k) s = k a s := by
  rw [h]
  rfl

namespace Planning

variable {p : Plan} {fail : Fault → Plan → Prop}

theorem ends_cluster {post : Cluster → Plan → Prop} (h : post p.cluster p) :
    Ends cluster p post fail := h

theorem ends_record {e : Event} {post : Unit → Plan → Prop}
    (h : post () { p with journal := p.journal.push e }) : Ends (record e) p post fail := h

theorem ends_change {α : Type} {x : Cluster.Change α} {post : α → Plan → Prop}
    (h : Ends x p.cluster (fun a c ↦ post a { p with cluster := c })
      fun f c ↦ fail f { p with cluster := c }) : Ends (change x) p post fail := by
  unfold Ends at *
  unfold change
  cases hx : x p.cluster with
  | ok a c =>
    rw [hx] at h
    exact h
  | error f c =>
    rw [hx] at h
    exact h

end Planning

namespace Pursuit

variable {γ α : Type} {g : γ} {p : Plan} {fail : Fault → γ × Plan → Prop}

theorem ends_planning {x : Planning α} {post : α → γ × Plan → Prop}
    (h : Ends x p (fun a p' ↦ post a (g, p')) fun f p' ↦ fail f (g, p')) :
    Ends (liftM x : Pursuit γ α) (g, p) post fail := by
  unfold Ends at h
  change Ends (planning x) (g, p) post fail
  unfold Ends planning
  dsimp only
  cases hx : x p with
  | ok a p' =>
    rw [hx] at h
    exact h
  | error f p' =>
    rw [hx] at h
    exact h

theorem ends_goal {post : γ → γ × Plan → Prop} (h : post g (g, p)) :
    Ends goal (g, p) post fail := h

theorem ends_adjust {f : γ → γ} {post : Unit → γ × Plan → Prop} (h : post () (f g, p)) :
    Ends (adjust f) (g, p) post fail := h

theorem ends_changeCluster {f : Cluster → Cluster} {post : Unit → γ × Plan → Prop}
    (h : post () (g, { p with cluster := f p.cluster })) :
    Ends (changeCluster f) (g, p) post fail := h

end Pursuit

end Rebalance
