import Rebalance.Proofs.Distribution.Rounds
import Rebalance.Proofs.Journal

/-!
# What a pursuit keeps

Tending changes of a goal only what it records, so what every single move keeps is kept by tending
one broker and by tending all. What is kept whatever the limits are, and when views are tracked or
given up, is kept by the whole pursuit.
-/

namespace Rebalance.DistributionGoal

variable {guards : List Guard} {options : Options} {g g' g'' : DistributionGoal} {t t' : Stage}
  {keep : Stage → Prop} {fail : Fault → Stage → Prop} {id : BrokerId} {p : Plan}

/-- Goals that differ at most in the brokers that they recorded. -/
structure Alike (g g' : DistributionGoal) : Prop where
  name : g'.name = g.name
  limits : g'.limits = g.limits
  evacuating : g'.evacuating = g.evacuating
  finished : g'.finished = g.finished
  succeeded : g'.succeeded = g.succeeded

namespace Alike

theorem refl (g : DistributionGoal) : g.Alike g := ⟨rfl, rfl, rfl, rfl, rfl⟩

theorem trans (h : g.Alike g') (h' : g'.Alike g'') : g.Alike g'' :=
  ⟨h'.name.trans h.name, h'.limits.trans h.limits, h'.evacuating.trans h.evacuating,
    h'.finished.trans h.finished, h'.succeeded.trans h.succeeded⟩

theorem judge_eq (h : g.Alike g') : g'.judge = g.judge := by
  funext a c
  unfold judge ceiling bottom
  rw [h.limits]

theorem demand_eq (h : g.Alike g') : g'.demand = g.demand := by
  funext a c
  unfold demand
  rw [h.judge_eq, h.evacuating]

theorem offers_eq (h : g.Alike g') : g'.offers = g.offers := by
  funext c id
  unfold offers
  rw [h.name]

theorem moves (h : g.Alike g') {candidates : List BrokerId} {i : ReplicaId} {r : Replica}
    {d : BrokerId} (hmoves : g'.Moves guards options t candidates i r d t') :
    g.Moves guards options t candidates i r d t' where
  replica := hmoves.replica
  free := hmoves.free
  first := h.demand_eq ▸ hmoves.first
  admissible := h.demand_eq ▸ hmoves.admissible
  relocated := hmoves.relocated

theorem fails (h : g.Alike g') {candidates : List BrokerId} {i : ReplicaId} {f : Fault}
    (hfails : g'.Fails guards options t candidates i f t') :
    g.Fails guards options t candidates i f t' :=
  ⟨h.demand_eq ▸ hfails.breaks⟩

end Alike

theorem Tended.alike {x : Except Fault Unit} (h : Tended guards options id g t x g' t') :
    g.Alike g' := by
  cases h <;> exact ⟨rfl, rfl, rfl, rfl, rfl⟩

theorem TendedAll.alike {ids : List BrokerId} {x : Except Fault Unit}
    (h : TendedAll guards options ids g t x g' t') : g.Alike g' := by
  induction h with
  | nil => exact .refl _
  | cons htended _ ih => exact htended.alike.trans ih
  | failed htended => exact htended.alike

/-! ## The pursuit -/

/-- The goal when it starts to be pursued: what was recorded earlier is forgotten. -/
def renewed (g : DistributionGoal) : DistributionGoal :=
  { g with succeeded := true, finished := false, evacuating := false, above := [], under := [] }

/-- The stage once a view of every broker is kept for the goal. -/
def tracked (g : DistributionGoal) (options : Options) (t : Stage) : Stage :=
  { t with cluster := t.cluster.track g.name (criteria options) }

/-- What pursuing the goal comes to. -/
inductive Pursued (guards : List Guard) (options : Options) (g : DistributionGoal) (t : Stage) :
    Except Fault Bool → DistributionGoal → Stage → Prop where
  | noAliveBroker : t.cluster.aliveBrokers = [] →
    Pursued guards options g t (.error (.noAliveBroker g.name)) g.renewed t
  | unlimited {f : Double.Fault} : t.cluster.aliveBrokers ≠ [] →
    Limits.of t.cluster.size t.cluster.aliveBrokers.length g.constraint.percentage = .error f →
    Pursued guards options g t (.error (.arithmetic f)) g.renewed t
  | once {limits : Limits} {g' : DistributionGoal} {t' : Stage} : t.cluster.aliveBrokers ≠ [] →
    Limits.of t.cluster.size t.cluster.aliveBrokers.length g.constraint.percentage = .ok limits →
    Rounded guards options { g.renewed with limits } (g.tracked options t) (.ok ()) g' t' →
    g'.finished = true → Pursued guards options g t (.ok g'.succeeded) g' t'
  | failedOnce {limits : Limits} {g' : DistributionGoal} {t' : Stage} {f : Fault} :
    t.cluster.aliveBrokers ≠ [] →
    Limits.of t.cluster.size t.cluster.aliveBrokers.length g.constraint.percentage = .ok limits →
    Rounded guards options { g.renewed with limits } (g.tracked options t) (.error f) g' t' →
    Pursued guards options g t (.error f) g' t'
  | twice {limits : Limits} {g' g'' : DistributionGoal} {t' t'' : Stage} :
    t.cluster.aliveBrokers ≠ [] →
    Limits.of t.cluster.size t.cluster.aliveBrokers.length g.constraint.percentage = .ok limits →
    Rounded guards options { g.renewed with limits } (g.tracked options t) (.ok ()) g' t' →
    g'.finished = false → Rounded guards options g' t' (.ok ()) g'' t'' →
    Pursued guards options g t (.ok g''.succeeded) g'' t''
  | failedTwice {limits : Limits} {g' g'' : DistributionGoal} {t' t'' : Stage} {f : Fault} :
    t.cluster.aliveBrokers ≠ [] →
    Limits.of t.cluster.size t.cluster.aliveBrokers.length g.constraint.percentage = .ok limits →
    Rounded guards options { g.renewed with limits } (g.tracked options t) (.ok ()) g' t' →
    g'.finished = false → Rounded guards options g' t' (.error f) g'' t'' →
    Pursued guards options g t (.error f) g'' t''

theorem Closed.sound {g g' : DistributionGoal} {t t' : Stage} {x : Except Fault Unit}
    (h : Closed g t x g' t') (ht : t.cluster.Sound) :
    t'.cluster.Sound ∧ t'.cluster.states = t.cluster.states := by
  have hreleased : (g.released t).cluster.Sound ∧
      (g.released t).cluster.states = t.cluster.states :=
    ⟨ht.untrack g.name, Cluster.states_untrack g.name t.cluster⟩
  cases h with
  | finished => exact hreleased
  | failed => exact hreleased
  | relaxed =>
    split
    · exact hreleased
    · exact ⟨ht, rfl⟩

theorem Rounded.sound {g g' : DistributionGoal} {t t' : Stage} {x : Except Fault Unit}
    (h : Rounded guards options g t x g' t') (ht : t.cluster.Sound) :
    t'.cluster.Sound ∧ t'.cluster.states = t.cluster.states := by
  cases h with
  | tended htended hclosed =>
    obtain ⟨hsound, hstates⟩ := htended.sound ht
    obtain ⟨hsound', hstates'⟩ := hclosed.sound hsound
    exact ⟨hsound', hstates'.trans hstates⟩
  | failed htended => exact htended.sound ht

/-- The goal when it is prepared. -/
def cleared (g : DistributionGoal) : DistributionGoal :=
  { g with evacuating := false, above := [], under := [] }

theorem ends_prepare_from (g : DistributionGoal) (p : Plan) :
    Ends (prepare options) (g, p)
      (fun _ s ↦ ∃ limits, p.cluster.aliveBrokers ≠ [] ∧
        Limits.of p.cluster.size p.cluster.aliveBrokers.length g.constraint.percentage =
          .ok limits ∧
        s.1 = { g.cleared with limits } ∧ s.2.stage = g.tracked options p.stage)
      fun f s ↦ s = (g.cleared, p) ∧
        (p.cluster.aliveBrokers = [] ∧ f = .noAliveBroker g.name ∨
          p.cluster.aliveBrokers ≠ [] ∧ ∃ e,
            Limits.of p.cluster.size p.cluster.aliveBrokers.length g.constraint.percentage =
              .error e ∧ f = .arithmetic e) := by
  unfold prepare
  refine .bind (Pursuit.ends_adjust (.bind (Pursuit.ends_goal (.bind (Pursuit.ends_planning
    (Planning.ends_cluster ?_))))))
  split
  · rename_i hempty
    exact .throw ⟨rfl, .inl ⟨List.isEmpty_iff.1 hempty, rfl⟩⟩
  · rename_i hne
    rw [List.isEmpty_iff] at hne
    cases hlimits : Limits.of p.cluster.size p.cluster.aliveBrokers.length
      g.constraint.percentage with
    | error e =>
      refine .bind (.except ?_ ?_)
      · intro limits hok
        cases hok
      · intro f hf
        cases hf
        exact ⟨rfl, .inr ⟨hne, e, rfl, rfl⟩⟩
    | ok limits =>
      refine .bind (.except ?_ ?_)
      · intro limits' hok
        cases hok
        refine .bind (Pursuit.ends_adjust (.bind (Pursuit.ends_planning (Planning.ends_record
          (Pursuit.ends_changeCluster ⟨limits, hne, rfl, rfl, ?_⟩)))))
        have hp := p.stage_push (e := .limited g.name limits) fun m ↦ nofun
        rw [tracked, ← hp]
        rfl
      · intro f hf
        cases hf

theorem ends_prepare (g : DistributionGoal) (p : Plan) :
    Ends (prepare options) ({ g with succeeded := true, finished := false }, p)
      (fun _ s ↦ ∃ limits, p.cluster.aliveBrokers ≠ [] ∧
        Limits.of p.cluster.size p.cluster.aliveBrokers.length g.constraint.percentage =
          .ok limits ∧
        s.1 = { g.renewed with limits } ∧ s.2.stage = g.tracked options p.stage)
      fun f s ↦ s = (g.renewed, p) ∧
        (p.cluster.aliveBrokers = [] ∧ f = .noAliveBroker g.name ∨
          p.cluster.aliveBrokers ≠ [] ∧ ∃ e,
            Limits.of p.cluster.size p.cluster.aliveBrokers.length g.constraint.percentage =
              .error e ∧ f = .arithmetic e) :=
  ends_prepare_from _ p

/-- Before a round, the goal is not finished: then its journal gives up the limits last, if at all.
-/
theorem ends_round_journal (h : p.cluster.Sound) (hfin : g.finished = false) :
    Ends (round guards options) (g, p) (fun _ s ↦ p.journal.Closes s.1.finished s.2.journal)
      fun _ s ↦ p.journal.Extends (·.isRelaxed = false) s.2.journal := by
  unfold round
  refine .bind (Pursuit.ends_goal (.bind (Pursuit.ends_planning (Planning.ends_cluster
    (.bind (((comes_tendAll h _).and (writes_tendAll _ (g, p))).mono ?_ ?_))))))
  · rintro _ ⟨g', p'⟩ ⟨htended, hj⟩
    have hj' := hj.mono fun _ ↦ Event.isRelaxed_of_isRoutine
    refine (ends_close_journal (htended.alike.finished.trans hfin)).mono ?_ ?_
    · rintro _ s ⟨j, hext, hend⟩
      exact ⟨j, hj'.trans hext, hend⟩
    · intro f s hext
      exact hj'.trans hext
  · rintro f s ⟨-, hj⟩
    exact hj.mono fun _ ↦ Event.isRelaxed_of_isRoutine

/-- What pursuing the goal comes to and writes. Limits are not given up in the first round, but if
the goal is not finished by then, that is the last it writes, and another round follows. -/
inductive Account (guards : List Guard) (options : Options) (g : DistributionGoal) (p : Plan) :
    Except Fault Bool → DistributionGoal → Plan → Prop where
  | noAliveBroker {p' : Plan} : p.cluster.aliveBrokers = [] → p'.stage = p.stage →
    p.journal.Extends (·.isRelaxed = false) p'.journal →
    Account guards options g p (.error (.noAliveBroker g.name)) g.renewed p'
  | unlimited {p' : Plan} {f : Double.Fault} : p.cluster.aliveBrokers ≠ [] →
    Limits.of p.cluster.size p.cluster.aliveBrokers.length g.constraint.percentage = .error f →
    p'.stage = p.stage → p.journal.Extends (·.isRelaxed = false) p'.journal →
    Account guards options g p (.error (.arithmetic f)) g.renewed p'
  | once {p' : Plan} {limits : Limits} {g' : DistributionGoal} {x : Except Fault Unit} :
    p.cluster.aliveBrokers ≠ [] →
    Limits.of p.cluster.size p.cluster.aliveBrokers.length g.constraint.percentage = .ok limits →
    Rounded guards options { g.renewed with limits } (g.tracked options p.stage) x g' p'.stage →
    (x = .ok () → g'.finished = true) → p.journal.Extends (·.isRelaxed = false) p'.journal →
    Account guards options g p (x.map fun _ ↦ g'.succeeded) g' p'
  | twice {p₁ p' : Plan} {limits : Limits} {g₁ g' : DistributionGoal} {x : Except Fault Unit} :
    p.cluster.aliveBrokers ≠ [] →
    Limits.of p.cluster.size p.cluster.aliveBrokers.length g.constraint.percentage = .ok limits →
    Rounded guards options { g.renewed with limits } (g.tracked options p.stage) (.ok ()) g₁
      p₁.stage →
    g₁.finished = false → p.journal.Closes false p₁.journal →
    Rounded guards options g₁ p₁.stage x g' p'.stage →
    p₁.journal.Extends (fun _ ↦ True) p'.journal →
    Account guards options g p (x.map fun _ ↦ g'.succeeded) g' p'

theorem ends_pursue (h : p.cluster.Sound) :
    Ends (pursue guards options) (g, p)
      (fun satisfied s ↦ Account guards options g p (.ok satisfied) s.1 s.2)
      fun f s ↦ Account guards options g p (.error f) s.1 s.2 := by
  unfold pursue
  refine .bind (Pursuit.ends_adjust (.bind (Pursuit.ends_goal (.bind (Pursuit.ends_planning
    (Planning.ends_record ?_))))))
  have hp₁ := p.stage_push (e := .started g.name) fun m ↦ nofun
  have hj₁ : p.journal.Extends (·.isRelaxed = false) (p.journal.push (.started g.name)) :=
    .push rfl
  refine .bind (((ends_prepare g _).and (writes_prepare _)).mono ?_ ?_)
  · rintro _ ⟨g₂, p₂⟩ ⟨⟨limits, hne, hlimits, hg₂, hp₂⟩, hj₂⟩
    rw [hp₁] at hp₂
    dsimp only at hg₂ hp₂ hj₂
    have hsound₂ : p₂.stage.cluster.Sound := by
      rw [hp₂]
      exact h.track g.name (criteria options)
    have hfin₂ : g₂.finished = false := by
      rw [hg₂]
      rfl
    refine .bind (((comes_round hsound₂).and (ends_round_journal hsound₂ hfin₂)).mono ?_ ?_)
    · rintro _ ⟨g₃, p₃⟩ ⟨hround, j, hj₃, hend⟩
      rw [hg₂, hp₂] at hround
      have hj := hj₁.trans (hj₂.trans hj₃)
      dsimp only at hend
      refine .bind (Pursuit.ends_goal ?_)
      split
      · rename_i hfin
        rw [if_pos hfin] at hend
        subst hend
        refine .bind (Pursuit.ends_planning (Planning.ends_record (.pure ?_)))
        have hstage := p₃.stage_push (e := .finished g₃.name 1 g₃.succeeded) fun m ↦ nofun
        rw [← hstage] at hround
        exact .once (x := .ok ()) hne hlimits hround (fun _ ↦ hfin) (hj.trans (.push rfl))
      · rename_i hfin
        have hclosed : p.journal.Closes false p₃.journal := by
          rw [if_neg hfin] at hend
          exact ⟨j, hj, hend⟩
        rw [Bool.not_eq_true] at hfin
        have hsound₃ : p₃.cluster.Sound := by
          have hround₃ := hround.sound (hp₂ ▸ hsound₂)
          exact hround₃.1
        refine .bind (((comes_round hsound₃).and (ends_round_journal hsound₃ hfin)).mono ?_ ?_)
        · rintro _ ⟨g₄, p₄⟩ ⟨hround', hj₄⟩
          refine .bind (Pursuit.ends_goal (.bind (Pursuit.ends_planning (Planning.ends_record
            (.pure ?_)))))
          have hstage := p₄.stage_push (e := .finished g₄.name 2 g₄.succeeded) fun m ↦ nofun
          rw [← hstage] at hround'
          exact .twice (x := .ok ()) hne hlimits hround hfin hclosed hround'
            (hj₄.extends.trans (.push trivial))
        · rintro f s ⟨hround', hj₄⟩
          exact .twice (x := .error f) hne hlimits hround hfin hclosed hround'
            (hj₄.mono fun _ _ ↦ trivial)
    · rintro f s ⟨hround, hj₃⟩
      rw [hg₂, hp₂] at hround
      exact .once (x := .error f) hne hlimits hround nofun (hj₁.trans (hj₂.trans hj₃))
  · rintro f ⟨g₂, p₂⟩ ⟨⟨heq, hf⟩, -⟩
    obtain ⟨rfl, rfl⟩ := Prod.mk.inj heq
    rcases hf with ⟨hempty, rfl⟩ | ⟨hne, e, hlimits, rfl⟩
    · exact .noAliveBroker hempty hp₁ hj₁
    · exact .unlimited hne hlimits hp₁ hj₁

theorem Account.pursued {p' : Plan} {x : Except Fault Bool}
    (h : Account guards options g p x g' p') : Pursued guards options g p.stage x g' p'.stage := by
  cases h with
  | noAliveBroker hnone hstage =>
    rw [hstage]
    exact .noAliveBroker hnone
  | unlimited hne hlimits hstage =>
    rw [hstage]
    exact .unlimited hne hlimits
  | @once _ _ _ x hne hlimits hround hfin =>
    cases x with
    | ok _ => exact .once hne hlimits hround (hfin rfl)
    | error f => exact .failedOnce hne hlimits hround
  | @twice _ _ _ _ _ x hne hlimits hround hfin _ hround' =>
    cases x with
    | ok _ => exact .twice hne hlimits hround hfin hround'
    | error f => exact .failedTwice hne hlimits hround hfin hround'

/-- The relation is what pursuing the goal does. -/
theorem comes_pursue (h : p.cluster.Sound) :
    Comes (pursue guards options) g p (Pursued guards options g p.stage) :=
  (ends_pursue h).mono (fun _ _ ↦ Account.pursued) fun _ _ ↦ Account.pursued

/-! ## The end of a round -/

theorem Closed.succeeded_eq (h : Closed g t (.ok ()) g' t') :
    g'.succeeded = (g.succeeded && g.above.isEmpty && g.under.isEmpty) := by
  cases h <;> rfl

theorem Closed.name_eq (h : Closed g t (.ok ()) g' t') : g'.name = g.name := by
  cases h <;> rfl

theorem Closed.limits_eq {x : Except Fault Unit} (h : Closed g t x g' t') :
    g'.limits = g.limits := by
  cases h <;> rfl

theorem mem_unemptied {c : Cluster} (h : c.Sound) :
    id ∈ unemptied c ↔ ∃ b, c.broker? id = some b ∧ b.isAlive = false ∧ 0 < b.count := by
  unfold unemptied Cluster.deadBrokers
  rw [List.filter_filter, List.mem_map]
  constructor
  · rintro ⟨b, hb, rfl⟩
    obtain ⟨hmem, hb⟩ := List.mem_filter.1 hb
    rw [Bool.and_eq_true, decide_eq_true_eq, Bool.not_eq_true'] at hb
    exact ⟨b, h.broker?_of_mem hmem, hb.2, hb.1⟩
  · rintro ⟨b, hb, hdead, hpos⟩
    refine ⟨b, List.mem_filter.2 ⟨Cluster.mem_of_broker? hb, ?_⟩, Cluster.id_of_broker? hb⟩
    rw [hdead, decide_eq_true hpos]
    rfl

/-- Without dead brokers there are none with replicas left. -/
theorem unemptied_eq_nil {c : Cluster} (hdead : c.hasDead = false) : unemptied c = [] := by
  rw [Cluster.hasDead, List.any_eq_false] at hdead
  unfold unemptied Cluster.deadBrokers
  rw [List.filter_eq_nil_iff.2 hdead]
  rfl

/-- When no dead broker has replicas left, all are empty. -/
theorem count_eq_zero_of_unemptied {c : Cluster} (h : c.Sound) (hnone : unemptied c = []) :
    ∀ b ∈ c.brokers, b.isAlive = false → b.count = 0 := by
  intro b hb hdead
  by_contra hcount
  have hmem := (mem_unemptied h).2 ⟨b, h.broker?_of_mem hb, hdead, Nat.pos_of_ne_zero hcount⟩
  rw [hnone] at hmem
  cases hmem

/-- A round that did not fail ends the pursuit, or leaves it to a second round as it is. -/
theorem Closed.of_ok (h : Closed g t (.ok ()) g' t') (hfin : g.finished = false) :
    g'.finished = true ∧ unemptied t.cluster = [] ∧ t' = g.released t ∨
      g'.finished = false ∧ unemptied t.cluster ≠ [] ∧ g'.evacuating = true ∧ t' = t := by
  cases h with
  | finished hnone => exact .inl ⟨rfl, hnone, rfl⟩
  | relaxed hleft => exact .inr ⟨hfin, hleft, rfl, if_neg (by simp [hfin])⟩

/-- A round that leaves nothing, or comes after the limits were given up, ends the pursuit. -/
theorem Closed.eq_finished (h : Closed g t (.ok ()) g' t')
    (hend : unemptied t.cluster = [] ∨ g.evacuating = true) :
    g' = { g.reported with finished := true } ∧ t' = g.released t := by
  cases h with
  | finished => exact ⟨rfl, rfl⟩
  | relaxed hleft hev =>
    refine (hend.elim hleft fun hev' ↦ ?_).elim
    rw [hev] at hev'
    cases hev'

/-- If another round follows, what was recorded is forgotten. -/
theorem Closed.forgets (h : Closed g t (.ok ()) g' t') (hleft : unemptied t.cluster ≠ []) :
    g'.above = [] ∧ g'.under = [] := by
  cases h with
  | finished hnone => exact absurd hnone hleft
  | relaxed => exact ⟨rfl, rfl⟩

/-- A pursuit that ends in a result took one round if that left no replicas on dead brokers, and
another one if it did. -/
theorem Pursued.exists_round {satisfied : Bool}
    (h : Pursued guards options g t (.ok satisfied) g' t') :
    ∃ limits g₁ t₁ g₂ t₂, TendedAll guards options
        (({ g.renewed with limits }.brokersToBalance (g.tracked options t).cluster).map Broker.id)
        { g.renewed with limits } (g.tracked options t) (.ok ()) g₁ t₁ ∧
      Closed g₁ t₁ (.ok ()) g₂ t₂ ∧ satisfied = g'.succeeded ∧
      (unemptied t₁.cluster = [] ∧ g' = g₂ ∧ t' = g₁.released t₁ ∨
        unemptied t₁.cluster ≠ [] ∧ g₂.evacuating = true ∧ t₂ = t₁ ∧
          Rounded guards options g₂ t₁ (.ok ()) g' t') := by
  generalize hx : (.ok satisfied : Except Fault Bool) = x at h
  cases h with
  | noAliveBroker => cases hx
  | unlimited => cases hx
  | failedOnce => cases hx
  | failedTwice => cases hx
  | once _ _ hround hfin =>
    cases hround with
    | tended htended hclosed =>
      rcases hclosed.of_ok htended.alike.finished with ⟨-, hnone, ht'⟩ | ⟨hfin', -⟩
      · exact ⟨_, _, _, _, _, htended, hclosed, Except.ok.inj hx, .inl ⟨hnone, rfl, ht'⟩⟩
      · rw [hfin'] at hfin
        cases hfin
  | twice _ _ hround hfin hround' =>
    cases hround with
    | tended htended hclosed =>
      rcases hclosed.of_ok htended.alike.finished with ⟨hfin', -⟩ | ⟨-, hleft, hev, rfl⟩
      · rw [hfin'] at hfin
        cases hfin
      · exact ⟨_, _, _, _, _, htended, hclosed, Except.ok.inj hx, .inr ⟨hleft, hev, rfl, hround'⟩⟩

/-! ## Without dead brokers -/

/-- Where no broker is dead, nothing is left to be evacuated after a round. -/
theorem Closed.of_hasDead {x : Except Fault Unit} (hdead : t.cluster.hasDead = false)
    (h : Closed g t x g' t') :
    x = .ok () ∧ g' = { g.reported with finished := true } ∧ t' = g.released t := by
  cases h with
  | finished => exact ⟨rfl, rfl, rfl⟩
  | failed hleft => exact absurd (unemptied_eq_nil hdead) hleft
  | relaxed hleft => exact absurd (unemptied_eq_nil hdead) hleft

/-- Limits can only be computed where some broker is alive. -/
theorem aliveBrokers_ne_nil {c : Cluster} {n : Int} {percentage : Double} {limits : Limits}
    (h : Limits.of n c.aliveBrokers.length percentage = .ok limits) : c.aliveBrokers ≠ [] := by
  intro hnone
  rw [hnone] at h
  cases h

/-- Where no broker is dead, a pursuit is one round: it fails while brokers are tended, or ends when
all have been. -/
theorem Pursued.of_hasDead {x : Except Fault Bool} {limits : Limits} (ht : t.cluster.Sound)
    (hdead : t.cluster.hasDead = false)
    (hlimits : Limits.of t.cluster.size t.cluster.aliveBrokers.length g.constraint.percentage =
      .ok limits) (h : Pursued guards options g t x g' t') :
    ∃ y g₁ t₁, TendedAll guards options
        (({ g.renewed with limits }.brokersToBalance (g.tracked options t).cluster).map Broker.id)
        { g.renewed with limits } (g.tracked options t) y g₁ t₁ ∧
      (y = .ok () ∧ x = .ok g'.succeeded ∧ g' = { g₁.reported with finished := true } ∧
          t' = g₁.released t₁ ∨
        ∃ f, y = .error f ∧ x = .error f ∧ g' = g₁ ∧ t' = t₁) := by
  have hround : ∀ {y : Except Fault Unit} {g₂ : DistributionGoal} {t₂ : Stage},
      Rounded guards options { g.renewed with limits } (g.tracked options t) y g₂ t₂ →
      ∃ g₁ t₁, TendedAll guards options
          (({ g.renewed with limits }.brokersToBalance (g.tracked options t).cluster).map Broker.id)
          { g.renewed with limits } (g.tracked options t) y g₁ t₁ ∧
        (y = .ok () ∧ g₂ = { g₁.reported with finished := true } ∧ t₂ = g₁.released t₁ ∨
          ∃ f, y = .error f ∧ g₂ = g₁ ∧ t₂ = t₁) := by
    intro y g₂ t₂ hround
    cases hround with
    | tended htended hclosed =>
      obtain ⟨-, hstates⟩ := htended.sound (ht.track g.name (criteria options))
      have hstates' := hstates.trans (Cluster.states_track g.name (criteria options) t.cluster)
      obtain ⟨rfl, hg₂, ht₂⟩ := hclosed.of_hasDead ((Cluster.hasDead_congr hstates').trans hdead)
      exact ⟨_, _, htended, .inl ⟨rfl, hg₂, ht₂⟩⟩
    | failed htended => exact ⟨_, _, htended, .inr ⟨_, rfl, rfl, rfl⟩⟩
  have hlimits' : ∀ {limits'}, Limits.of t.cluster.size t.cluster.aliveBrokers.length
      g.constraint.percentage = .ok limits' → limits' = limits := fun h ↦ by
    rw [hlimits] at h
    exact (Except.ok.inj h).symm
  cases h with
  | noAliveBroker hnone => exact absurd hnone (aliveBrokers_ne_nil hlimits)
  | unlimited _ hf =>
    rw [hlimits] at hf
    cases hf
  | once _ hok h =>
    obtain rfl := hlimits' hok
    obtain ⟨g₁, t₁, htended, ⟨-, hg', ht'⟩ | ⟨f, hf, -⟩⟩ := hround h
    · exact ⟨_, g₁, t₁, htended, .inl ⟨rfl, rfl, hg', ht'⟩⟩
    · cases hf
  | failedOnce _ hok h =>
    obtain rfl := hlimits' hok
    obtain ⟨g₁, t₁, htended, ⟨hf, -⟩ | ⟨f, hf, hg', ht'⟩⟩ := hround h
    · cases hf
    · cases hf
      exact ⟨_, g₁, t₁, htended, .inr ⟨_, rfl, rfl, hg', ht'⟩⟩
  | twice _ hok h hfin =>
    obtain rfl := hlimits' hok
    obtain ⟨g₁, t₁, -, ⟨-, rfl, -⟩ | ⟨f, hf, -⟩⟩ := hround h
    · cases hfin
    · cases hf
  | failedTwice _ hok h hfin =>
    obtain rfl := hlimits' hok
    obtain ⟨g₁, t₁, -, ⟨-, rfl, -⟩ | ⟨f, hf, -⟩⟩ := hround h
    · cases hfin
    · cases hf

/-! ## Laws over rounds -/

namespace Law

/-- Goals that judge alike obey the same laws. -/
theorem congr (law : g.Law guards options keep fail) (h : g.Alike g') :
    g'.Law guards options keep fail where
  moves ht hmoves := law.moves ht (h.moves hmoves)
  fails ht hfails := law.fails ht (h.fails hfails)
  offers ht hf := law.offers ht (h.offers_eq ▸ hf)
  views ht hb hf := law.views ht hb (h.name ▸ hf)

/-- Tending a broker that is there keeps what every move keeps. -/
theorem tended (law : g.Law guards options keep fail) {x : Except Fault Unit}
    (h : Tended guards options id g t x g' t') {b : Broker} (hb : t.cluster.broker? id = some b)
    (ht : keep t) : Leaves keep fail x t' := by
  obtain rfl := Cluster.id_of_broker? hb
  have hlowered : ∀ {b' : Broker} {y : Except Fault Bool} {t' : Stage},
      t.cluster.broker? b.id = some b' → g.Lowered guards options b' t y t' →
      Leaves keep fail y t' := by
    intro b' y t' hb' hlowered
    refine law.lowered ?_ hlowered ht
    rwa [Cluster.id_of_broker? hb']
  cases h with
  | unknown hnone =>
    rw [hb] at hnone
    cases hnone
  | exempt => exact ht
  | above hb' _ h => exact hlowered hb' h
  | undrained hb' _ h => exact hlowered hb' h
  | under hb' _ h hraised => exact law.raised hraised (hlowered hb' h)
  | unfilled hb' _ h hraised => exact law.raised hraised (hlowered hb' h)
  | balanced hb' _ h hraised => exact law.raised hraised (hlowered hb' h)

theorem tendedAll (law : g.Law guards options keep fail) (hsound : ∀ t, keep t → t.cluster.Sound)
    {ids : List BrokerId} {x : Except Fault Unit} (h : TendedAll guards options ids g t x g' t')
    (hids : ∀ id ∈ ids, id ∈ t.cluster.states.map Prod.fst) (ht : keep t) :
    Leaves keep fail x t' := by
  induction h with
  | nil => exact ht
  | cons htended _ ih =>
    rw [List.forall_mem_cons] at hids
    obtain ⟨b, hb⟩ := Cluster.exists_broker?_iff.2 hids.1
    refine ih (law.congr htended.alike) ?_ (law.tended htended hb ht)
    rw [(htended.sound (hsound _ ht)).2]
    exact hids.2
  | failed htended =>
    rw [List.forall_mem_cons] at hids
    obtain ⟨b, hb⟩ := Cluster.exists_broker?_iff.2 hids.1
    exact law.tended htended hb ht

end Law

/-- The brokers that a round tends are there. -/
theorem mem_brokersToBalance {c : Cluster} :
    ∀ id ∈ (g.brokersToBalance c).map Broker.id, id ∈ c.states.map Prod.fst := by
  rw [← Cluster.ids_eq]
  intro id hid
  obtain ⟨b, hb, rfl⟩ := List.mem_map.1 hid
  refine List.mem_map_of_mem ?_
  unfold brokersToBalance at hb
  split at hb
  · exact (List.mem_filter.1 hb).1
  · exact hb

/-- And none is tended twice. -/
theorem nodup_brokersToBalance {c : Cluster} (h : c.Sound) (g : DistributionGoal) :
    ((g.brokersToBalance c).map Broker.id).Nodup := by
  unfold brokersToBalance
  split
  · exact h.ids_nodup.sublist (List.filter_sublist.map Broker.id)
  · exact h.ids_nodup

/-- Evacuating, a round tends just the dead brokers. -/
theorem mem_brokersToBalance_iff {c : Cluster} (h : c.Sound) (hev : g.evacuating = true) :
    id ∈ (g.brokersToBalance c).map Broker.id ↔ c.Dead id := by
  unfold brokersToBalance Cluster.deadBrokers
  rw [if_pos hev, List.mem_map]
  constructor
  · rintro ⟨b, hb, rfl⟩
    obtain ⟨hmem, hdead⟩ := List.mem_filter.1 hb
    exact ⟨b, h.broker?_of_mem hmem, by simpa using hdead⟩
  · rintro ⟨b, hb, hdead⟩
    exact ⟨b, List.mem_filter.2 ⟨Cluster.mem_of_broker? hb, by simp [hdead]⟩,
      Cluster.id_of_broker? hb⟩

/-- What is kept by every move and every fault, and when views are tracked or given up, is kept by a
pursuit, whether it ends in a result or a fault. -/
theorem Pursued.keeps (law : ∀ g, Law g guards options keep fun _ ↦ keep)
    (hsound : ∀ t, keep t → t.cluster.Sound)
    (htracked : ∀ (g : DistributionGoal) t, keep t → keep (g.tracked options t))
    (hreleased : ∀ (g : DistributionGoal) t, keep t → keep (g.released t)) {x : Except Fault Bool}
    (h : Pursued guards options g t x g' t') (ht : keep t) : keep t' := by
  have leaves : ∀ {α : Type} {y : Except Fault α} {t : Stage}, Leaves keep (fun _ ↦ keep) y t →
      keep t := by
    intro α y t hy
    cases y with
    | ok _ => exact hy
    | error _ => exact hy
  have tended : ∀ {g g' : DistributionGoal} {t t' : Stage} {y : Except Fault Unit},
      TendedAll guards options ((g.brokersToBalance t.cluster).map Broker.id) g t y g' t' →
      keep t → keep t' := fun htended ht ↦
    leaves ((law _).tendedAll hsound htended mem_brokersToBalance ht)
  have closed : ∀ {g g' : DistributionGoal} {t t' : Stage} {y : Except Fault Unit},
      Closed g t y g' t' → keep t → keep t' := by
    intro g g' t t' y hclosed ht
    cases hclosed with
    | finished => exact hreleased g t ht
    | failed => exact hreleased g t ht
    | relaxed =>
      split
      · exact hreleased g t ht
      · exact ht
  have rounded : ∀ {g g' : DistributionGoal} {t t' : Stage} {y : Except Fault Unit},
      Rounded guards options g t y g' t' → keep t → keep t' := by
    intro g g' t t' y hrounded ht
    cases hrounded with
    | tended htended hclosed => exact closed hclosed (tended htended ht)
    | failed htended => exact tended htended ht
  cases h with
  | noAliveBroker => exact ht
  | unlimited => exact ht
  | once _ _ hround _ => exact rounded hround (htracked g t ht)
  | failedOnce _ _ hround => exact rounded hround (htracked g t ht)
  | twice _ _ hround _ hround' => exact rounded hround' (rounded hround (htracked g t ht))
  | failedTwice _ _ hround _ hround' => exact rounded hround' (rounded hround (htracked g t ht))

theorem Pursued.sound {x : Except Fault Bool} (h : Pursued guards options g t x g' t')
    (ht : t.cluster.Sound) : t'.cluster.Sound ∧ t'.cluster.states = t.cluster.states :=
  h.keeps (fun g ↦ Law.sound g guards options t.cluster.states) (fun _ h ↦ h.1)
    (fun g _ h ↦ ⟨h.1.track g.name (criteria options), (Cluster.states_track ..).trans h.2⟩)
    (fun g _ h ↦ ⟨h.1.untrack g.name, (Cluster.states_untrack ..).trans h.2⟩) ⟨ht, rfl⟩

end Rebalance.DistributionGoal
