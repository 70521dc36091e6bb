import Rebalance.Proofs.Outcome

/-!
# Lockstep

Two computations that begin in two states are in lockstep if both end in results or both in the same
fault. What then relates their results and states is passed on from step to step, so they may be
about different replicas as long as these are related.
-/

namespace Rebalance

/-- Both are results, or both are the same fault. -/
def Agree {ε α α' : Type} (rel : α → α' → Prop) : Except ε α → Except ε α' → Prop
  | .ok a, .ok a' => rel a a'
  | .error e, .error e' => e = e'
  | _, _ => False

theorem Agree.refl {ε α : Type} (x : Except ε α) : Agree Eq x x := by
  cases x <;> exact rfl

theorem Agree.bind {ε α α' β β' : Type} {rel : α → α' → Prop} {rel' : β → β' → Prop}
    {x : Except ε α} {x' : Except ε α'} {k : α → Except ε β} {k' : α' → Except ε β'}
    (h : Agree rel x x')
    (hk : ∀ a a', x = .ok a → x' = .ok a' → rel a a' → Agree rel' (k a) (k' a')) :
    Agree rel' (x >>= k) (x' >>= k') := by
  cases x <;> cases x'
  · exact h
  · exact h.elim
  · exact h.elim
  · exact hk _ _ rfl rfl h

/-- Both computations end in results, or both in the same fault; results and states are related. -/
def Lockstep {ε σ α α' : Type} (x : EStateM ε σ α) (x' : EStateM ε σ α') (s s' : σ)
    (post : α → α' → σ → σ → Prop) (fail : σ → σ → Prop) : Prop :=
  match x s, x' s' with
  | .ok a t, .ok a' t' => post a a' t t'
  | .error e t, .error e' t' => e = e' ∧ fail t t'
  | _, _ => False

namespace Lockstep

variable {ε σ α α' β β' : Type} {x : EStateM ε σ α} {x' : EStateM ε σ α'} {s s' t t' : σ}
  {post post' : α → α' → σ → σ → Prop} {fail fail' : σ → σ → Prop}

theorem mono (h : Lockstep x x' s s' post fail)
    (hpost : ∀ a a' t t', post a a' t t' → post' a a' t t')
    (hfail : ∀ t t', fail t t' → fail' t t') : Lockstep x x' s s' post' fail' := by
  unfold Lockstep at *
  cases hx : x s <;> cases hx' : x' s' <;> simp only [hx, hx'] at h ⊢
  · exact hpost _ _ _ _ h
  · exact ⟨h.1, hfail _ _ h.2⟩

theorem of_ok {a : α} {a' : α'} (hx : x s = .ok a t) (hx' : x' s' = .ok a' t')
    (h : post a a' t t') : Lockstep x x' s s' post fail := by
  unfold Lockstep
  rw [hx, hx']
  exact h

theorem pure {a : α} {a' : α'} (h : post a a' s s') :
    Lockstep (Pure.pure a : EStateM ε σ α) (Pure.pure a') s s' post fail := h

theorem throw {e : ε} (h : fail s s') :
    Lockstep (MonadExcept.throw e : EStateM ε σ α) (MonadExcept.throw e) s s' post fail := ⟨rfl, h⟩

/-- Computations in lockstep go on in lockstep. -/
theorem bind {k : α → EStateM ε σ β} {k' : α' → EStateM ε σ β'} {post : β → β' → σ → σ → Prop}
    (h : Lockstep x x' s s' (fun a a' t t' ↦ Lockstep (k a) (k' a') t t' post fail) fail) :
    Lockstep (x >>= k) (x' >>= k') s s' post fail := by
  unfold Lockstep at h
  change Lockstep (EStateM.bind x k) (EStateM.bind x' k') s s' post fail
  unfold Lockstep EStateM.bind
  cases hx : x s <;> cases hx' : x' s' <;> simp only [hx, hx'] at h ⊢
  · exact h
  · exact h

/-- Under the same condition the same branch is taken. -/
theorem ite {p p' : Prop} [Decidable p] [Decidable p'] {y : EStateM ε σ α} {y' : EStateM ε σ α'}
    (hp : p ↔ p') (hthen : p → Lockstep x x' s s' post fail)
    (helse : ¬ p → Lockstep y y' s s' post fail) :
    Lockstep (if p then x else y) (if p' then x' else y') s s' post fail := by
  by_cases h : p
  · rw [if_pos h, if_pos (hp.1 h)]
    exact hthen h
  · rw [if_neg h, if_neg (mt hp.2 h)]
    exact helse h

/-- What was looked up is used, or the fault is the fault. -/
theorem except {σ α α' : Type} {y : Except Fault α} {y' : Except Fault α'} {s s' : σ}
    {rel : α → α' → Prop} {post : α → α' → σ → σ → Prop} {fail : σ → σ → Prop} (h : Agree rel y y')
    (hok : ∀ a a', y = .ok a → y' = .ok a' → rel a a' → post a a' s s') (herror : fail s s') :
    Lockstep (liftM y : EStateM Fault σ α) (liftM y' : EStateM Fault σ α') s s' post fail := by
  cases y <;> cases y'
  · exact ⟨h, herror⟩
  · exact h.elim
  · exact h.elim
  · exact hok _ _ rfl rfl h

end Lockstep

namespace Planning

variable {α α' : Type} {p p' : Plan} {fail : Plan → Plan → Prop}

theorem lockstep_cluster {post : Cluster → Cluster → Plan → Plan → Prop}
    (h : post p.cluster p'.cluster p p') : Lockstep cluster cluster p p' post fail := h

theorem lockstep_record {e e' : Event} {post : Unit → Unit → Plan → Plan → Prop}
    (h : post () () { p with journal := p.journal.push e }
      { p' with journal := p'.journal.push e' }) :
    Lockstep (record e) (record e') p p' post fail := h

theorem lockstep_change {x : Cluster.Change α} {x' : Cluster.Change α'}
    {post : α → α' → Plan → Plan → Prop}
    (h : Lockstep x x' p.cluster p'.cluster
      (fun a a' c c' ↦ post a a' { p with cluster := c } { p' with cluster := c' })
      fun c c' ↦ fail { p with cluster := c } { p' with cluster := c' }) :
    Lockstep (change x) (change x') p p' post fail := by
  unfold Lockstep at *
  unfold change
  cases hx : x p.cluster <;> cases hx' : x' p'.cluster <;> simp only [hx, hx'] at h ⊢
  · exact h
  · exact h

end Planning

namespace Pursuit

variable {γ α α' : Type} {g g' : γ} {p p' : Plan} {fail : γ × Plan → γ × Plan → Prop}

theorem lockstep_planning {x : Planning α} {x' : Planning α'}
    {post : α → α' → γ × Plan → γ × Plan → Prop}
    (h : Lockstep x x' p p' (fun a a' q q' ↦ post a a' (g, q) (g', q'))
      fun q q' ↦ fail (g, q) (g', q')) :
    Lockstep (liftM x : Pursuit γ α) (liftM x' : Pursuit γ α') (g, p) (g', p') post fail := by
  change Lockstep (planning x) (planning x') (g, p) (g', p') post fail
  unfold Lockstep at *
  unfold planning
  cases hx : x p <;> cases hx' : x' p' <;> simp only [hx, hx'] at h ⊢
  · exact h
  · exact h

theorem lockstep_goal {post : γ → γ → γ × Plan → γ × Plan → Prop}
    (h : post g g' (g, p) (g', p')) : Lockstep goal goal (g, p) (g', p') post fail := h

theorem lockstep_adjust {f f' : γ → γ} {post : Unit → Unit → γ × Plan → γ × Plan → Prop}
    (h : post () () (f g, p) (f' g', p')) :
    Lockstep (adjust f) (adjust f') (g, p) (g', p') post fail := h

theorem lockstep_changeCluster {f f' : Cluster → Cluster}
    {post : Unit → Unit → γ × Plan → γ × Plan → Prop}
    (h : post () () (g, { p with cluster := f p.cluster })
      (g', { p' with cluster := f' p'.cluster })) :
    Lockstep (changeCluster f) (changeCluster f') (g, p) (g', p') post fail := h

end Pursuit

end Rebalance
