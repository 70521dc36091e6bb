import Rebalance.Proofs.Distribution.Evacuation
import Rebalance.Proofs.Distribution.Satisfaction

/-!
# The life cycle of a pursuit

A pursuit opens by computing the limits and tracking the views, and then goes from round to round
until the goal is finished. There are two rounds at most: the second one evacuates dead brokers, and
finishes the goal or fails. Whoever finishes the goal, or fails, has given up the views; and a
pursuit that took a second round is never satisfied.

Goals that stand guard are asked for a verdict on every move, and what they break down with comes
through. Whatever that is, there are two rounds at most, and all of the above holds of a pursuit
that ends in a result. Only that a pursuit which fails has given up the views needs guards that keep
to their part and judge: a guard that fails the goal instead would leave the views behind.
-/

namespace Rebalance

/-- No broker keeps a view of a name. -/
def Cluster.Untracked (c : Cluster) (name : String) : Prop :=
  ∀ b ∈ c.brokers, b.isTracking name = false

instance (c : Cluster) (name : String) : Decidable (c.Untracked name) :=
  inferInstanceAs (Decidable (∀ b ∈ c.brokers, b.isTracking name = false))

theorem Cluster.untracked_untrack (c : Cluster) (name : String) :
    (c.untrack name).Untracked name := by
  unfold Untracked
  rw [Cluster.brokers_untrack, List.forall_mem_map]
  intro b _
  rw [Broker.isTracking, Roster.has, Roster.entry?_without_self]
  rfl

theorem Cluster.Refused.isFailure_eq {c c' : Cluster} {tp : TopicPartition} {s d : BrokerId}
    {f : Fault} (h : Refused c tp s d f c') : f.isFailure = false := by
  cases h <;> rfl

/-- A guard answers an action with a verdict, which is all that a goal owes to the goals after it.
It may break down on the way, but it does not fail the goal that is pursued: that a goal cannot
complete a round is for that goal to say. -/
def Guard.OnlyJudges (γ : Guard) : Prop := ∀ a c f, γ.judge a c = .error f → f.isFailure = false

namespace DistributionGoal

variable {g g' : DistributionGoal} {guards : List Guard} {options : Options} {t t' : Stage}
  {p : Plan} {f : Fault} {name : String} {n m : Nat} {s s' s'' : DistributionGoal × Plan}
  {x y : Except Fault Unit} {a : Action} {c : Cluster} {id : BrokerId} {b : Broker}

/-! ## Faults on the way -/

/-- A result or a fault that does not say that a goal was not reached. -/
def Mild {α : Type} (x : Except Fault α) : Prop := ∀ f, x = .error f → f.isFailure = false

namespace Mild

variable {α β : Type}

theorem pure (a : α) : Mild (Pure.pure a) := by
  intro f hf
  cases hf

theorem bind {x : Except Fault α} {k : α → Except Fault β} (h : Mild x) (hk : ∀ a, Mild (k a)) :
    Mild (x >>= k) := by
  intro f hf
  cases x with
  | error f' =>
    cases hf
    exact h _ rfl
  | ok a => exact hk a f hf

end Mild

theorem mild_broker (c : Cluster) (id : BrokerId) : Mild (c.broker id) := by
  intro f hf
  obtain ⟨-, rfl⟩ := Cluster.broker_eq_error_iff.1 hf
  rfl

theorem mild_view (b : Broker) (name : String) : Mild (b.view name) := by
  intro f hf
  unfold Broker.view at hf
  split at hf
  · cases hf
  · cases hf
    rfl

theorem mild_offers (g : DistributionGoal) (c : Cluster) (id : BrokerId) :
    Mild (g.offers c id) := by
  unfold offers
  refine (mild_broker c id).bind fun b ↦ (mild_view b g.name).bind fun v ↦ ?_
  split <;> exact .pure _

theorem mild_judge (g : DistributionGoal) (a : Action) (c : Cluster) : Mild (g.judge a c) := by
  unfold judge
  split
  · exact .pure _
  · exact .pure _
  · refine (mild_broker c _).bind fun source ↦ (mild_broker c _).bind fun destination ↦ ?_
    split <;> exact .pure _
  · rintro f ⟨⟩
    rfl

/-- The goal itself is such a guard. -/
theorem onlyJudges_guard (g : DistributionGoal) : g.guard.OnlyJudges := mild_judge g

theorem mild_demand (g : DistributionGoal) (a : Action) (c : Cluster) : Mild (g.demand a c) := by
  have hjudge : Mild (do return (← g.judge a c) = .accept : Except Fault Bool) :=
    (mild_judge g a c).bind fun v ↦ .pure _
  unfold demand
  split
  · refine (mild_broker c _).bind fun source ↦ ?_
    split
    · exact .pure _
    · exact hjudge
  · exact hjudge

/-- Under guards that only judge, moving replicas does not fail the goal. -/
theorem Law.mild (hguards : ∀ γ ∈ guards, γ.OnlyJudges) (g : DistributionGoal) (options : Options)
    (states : List (BrokerId × BrokerState)) :
    g.Law guards options (fun t ↦ t.cluster.Sound ∧ t.cluster.states = states)
      fun f _ ↦ f.isFailure = false where
  moves := (Law.sound g guards options states).moves
  fails _ hfails := by
    obtain ⟨r, -, -, hf⟩ := hfails.breaks
    cases hf with
    | judging _ hf =>
      cases hf with
      | unknown => rfl
      | demand hf => exact mild_demand _ _ _ _ hf
      | guard hγ hf => exact hguards _ hγ _ _ _ hf
    | moving _ _ _ hf => exact hf.isFailure_eq
  offers _ hf := mild_offers _ _ _ _ hf
  views _ _ hf := mild_view _ _ _ hf

/-! ## What rounds come to -/

/-- What a pursuit that has ended in a result owes: all dead brokers are empty, and the views are
given up. -/
structure Ended (name : String) (s : DistributionGoal × Plan) : Prop where
  emptied : ∀ b ∈ s.2.cluster.brokers, b.isAlive = false → b.count = 0
  released : s.2.cluster.Untracked name

/-- Whoever finishes the goal has found all dead brokers empty, and gives up the views. -/
theorem Rounded.ended (h : Rounded guards options g t (.ok ()) s.1 s.2.stage)
    (ht : t.cluster.Sound) (hfin : g.finished = false) (hfin' : s.1.finished = true) :
    Ended g.name s ∧ s.1.evacuating = g.evacuating := by
  obtain ⟨g', p'⟩ := s
  generalize hstage : p'.stage = t' at h
  have hcluster : p'.cluster = t'.cluster := congrArg Stage.cluster hstage
  cases h with
  | tended htended hclosed =>
    obtain ⟨hsound, -⟩ := htended.sound ht
    have halike := htended.alike
    cases hclosed with
    | finished hnone =>
      refine ⟨⟨?_, ?_⟩, halike.evacuating⟩
      · rw [hcluster, DistributionGoal.released, Cluster.brokers_untrack, List.forall_mem_map]
        exact count_eq_zero_of_unemptied hsound hnone
      · rw [hcluster, ← halike.name]
        exact Cluster.untracked_untrack _ _
    | relaxed =>
      have hfin₁ := (halike.finished.trans hfin).symm.trans hfin'
      cases hfin₁

theorem Rounded.name_eq (h : Rounded guards options g t (.ok ()) g' t') : g'.name = g.name := by
  cases h with
  | tended htended hclosed => exact hclosed.name_eq.trans htended.alike.name

/-- Under guards that only judge, a round that fails has given up the views. -/
theorem Rounded.untracked_of_failure (hguards : ∀ γ ∈ guards, γ.OnlyJudges)
    (h : Rounded guards options g t (.error f) g' t') (ht : t.cluster.Sound)
    (hf : f.isFailure = true) : t'.cluster.Untracked g.name := by
  cases h with
  | tended htended hclosed =>
    cases hclosed with
    | failed =>
      rw [← htended.alike.name]
      exact Cluster.untracked_untrack _ _
  | failed htended =>
    have hmild := (Law.mild hguards g options t.cluster.states).tendedAll (fun t ht ↦ ht.1) htended
      mem_brokersToBalance ⟨ht, rfl⟩
    cases hf.symm.trans hmild

/-- An evacuation that does not fail finishes the goal. -/
theorem Rounded.finished_of_evacuating (h : Rounded guards options g t (.ok ()) g' t')
    (hev : g.evacuating = true) : g'.finished = true := by
  cases h with
  | tended htended hclosed =>
    obtain ⟨rfl, -⟩ := hclosed.eq_finished (.inr (htended.alike.evacuating.trans hev))
    rfl

/-- If a round does not finish the goal, the next one evacuates, and if it does not fail then, some
round had to record a broker. -/
theorem Rounded.of_unfinished {g₁ : DistributionGoal} {t₁ : Stage}
    (h : Rounded guards options g t (.ok ()) g₁ t₁) (ht : t.cluster.Sound)
    (hloyal : t.cluster.Loyal g.name) (hev : g.evacuating = false) (hfin : g.finished = false)
    (hfin₁ : g₁.finished = false) :
    g₁.evacuating = true ∧ g₁.name = g.name ∧ t₁.cluster.Sound ∧
      ∀ g₂ t₂, Rounded guards options g₁ t₁ (.ok ()) g₂ t₂ → g₂.succeeded = false := by
  have hname := h.name_eq
  cases h with
  | tended htended hclosed =>
    obtain ⟨hsound, -⟩ := htended.sound ht
    rcases hclosed.of_ok (htended.alike.finished.trans hfin) with ⟨hfin', -⟩ | ⟨-, hleft, hev₁, rfl⟩
    · cases hfin₁.symm.trans hfin'
    · refine ⟨hev₁, hname, hsound, fun g₂ t₂ hround ↦ ?_⟩
      rw [← Bool.not_eq_true]
      intro hsucceeded
      exact htended.not_rounded ht hloyal hclosed hleft (hround.of_succeeded hsucceeded).1 hev hev₁
        hround

/-! ## Round after round -/

/-- Rounds until the goal is finished, and how many of them. -/
inductive Rounds (guards : List Guard) (options : Options) : Nat → DistributionGoal × Plan →
    Except Fault Unit → DistributionGoal × Plan → Prop where
  | finished {s : DistributionGoal × Plan} : s.1.finished = true →
    Rounds guards options 0 s (.ok ()) s
  | again {n : Nat} {s s' s'' : DistributionGoal × Plan} {x : Except Fault Unit} :
    s.1.finished = false → round guards options s = .ok () s' →
    Rounds guards options n s' x s'' → Rounds guards options (n + 1) s x s''
  | failed {s s' : DistributionGoal × Plan} {f : Fault} : s.1.finished = false →
    round guards options s = .error f s' → Rounds guards options 1 s (.error f) s'

/-- What comes before the first round. -/
def opening (options : Options) : Pursuit DistributionGoal Unit := do
  Pursuit.adjust fun g ↦ { g with succeeded := true, finished := false }
  let g ← Pursuit.goal
  Planning.record (.started g.name)
  prepare options

/-- The opening and all rounds, as long as the goal is not finished. -/
inductive Cycle (guards : List Guard) (options : Options) (s : DistributionGoal × Plan) :
    Nat → Except Fault Unit → DistributionGoal × Plan → Prop where
  | unopened {s' : DistributionGoal × Plan} {f : Fault} : opening options s = .error f s' →
    Cycle guards options s 0 (.error f) s'
  | opened {n : Nat} {s' s'' : DistributionGoal × Plan} {x : Except Fault Unit} :
    opening options s = .ok () s' → Rounds guards options n s' x s'' →
    Cycle guards options s n x s''

/-- The rounds take one course only. -/
theorem Rounds.unique (h : Rounds guards options n s x s') (h' : Rounds guards options m s y s'') :
    n = m ∧ x = y ∧ s' = s'' := by
  induction h generalizing m with
  | finished hfin =>
    cases h' with
    | finished => exact ⟨rfl, rfl, rfl⟩
    | again hfin' => cases hfin.symm.trans hfin'
    | failed hfin' => cases hfin.symm.trans hfin'
  | again hfin hround _ ih =>
    cases h' with
    | finished hfin' => cases hfin.symm.trans hfin'
    | again _ hround' hrest =>
      cases hround.symm.trans hround'
      obtain ⟨rfl, rfl, rfl⟩ := ih hrest
      exact ⟨rfl, rfl, rfl⟩
    | failed _ hround' => cases hround.symm.trans hround'
  | failed hfin hround =>
    cases h' with
    | finished hfin' => cases hfin.symm.trans hfin'
    | again _ hround' => cases hround.symm.trans hround'
    | failed _ hround' =>
      cases hround.symm.trans hround'
      exact ⟨rfl, rfl, rfl⟩

/-- However many rounds came before, under guards that only judge the one that fails has given up
the views. -/
theorem Rounds.untracked_of_failure (hguards : ∀ γ ∈ guards, γ.OnlyJudges)
    (h : Rounds guards options n s (.error f) s') (hs : s.2.cluster.Sound)
    (hf : f.isFailure = true) : s'.2.cluster.Untracked s.1.name := by
  generalize hx : (.error f : Except Fault Unit) = x at h
  induction h with
  | finished => cases hx
  | again _ hround _ ih =>
    have hrounded := (comes_round hs).of_ok hround
    rw [← hrounded.name_eq]
    exact ih (hrounded.sound hs).1 hx
  | failed _ hround =>
    cases hx
    exact ((comes_round hs).of_error hround).untracked_of_failure hguards hs hf

theorem ends_opening (options : Options) (g : DistributionGoal) (p : Plan) :
    Ends (opening options) (g, p)
      (fun _ s ↦ (∃ limits, s.1 = { g.renewed with limits }) ∧
        s.2.stage = g.tracked options p.stage ∧ p.journal.Extends (·.isRelaxed = false) s.2.journal)
      fun _ s ↦ s.2.stage = p.stage := by
  unfold opening
  refine .bind (Pursuit.ends_adjust (.bind (Pursuit.ends_goal (.bind (Pursuit.ends_planning
    (Planning.ends_record ?_))))))
  have hp₁ := p.stage_push (e := .started g.name) fun m ↦ nofun
  have hj₁ : p.journal.Extends (·.isRelaxed = false) (p.journal.push (.started g.name)) :=
    .push rfl
  refine ((ends_prepare g _).and (writes_prepare _)).mono ?_ ?_
  · rintro _ s ⟨⟨limits, -, -, hg, hp⟩, hj⟩
    rw [hp₁] at hp
    exact ⟨⟨limits, hg⟩, hp, hj₁.trans hj⟩
  · rintro _ _ ⟨⟨rfl, -⟩, -⟩
    exact hp₁

/-- What a pursuit makes of its rounds: it notes how many there were and tells how the goal came
out. -/
def concluded (n : Nat) (s : DistributionGoal × Plan) :
    Except Fault Unit → EStateM.Result Fault (DistributionGoal × Plan) Bool
  | .ok () => .ok s.1.succeeded (s.1, { s.2 with
      journal := s.2.journal.push (.finished s.1.name n s.1.succeeded) })
  | .error f => .error f s

/-- The rounds of a pursuit, with at most one after the first. -/
theorem pursue_eq : pursue guards options = (do
    opening options
    round guards options
    let g ← Pursuit.goal
    if g.finished then
      Planning.record (.finished g.name 1 g.succeeded)
      return g.succeeded
    else
      round guards options
      let g ← Pursuit.goal
      Planning.record (.finished g.name 2 g.succeeded)
      return g.succeeded) := by
  unfold pursue opening
  simp only [bind_assoc]

/-- Pursuing the goal is going through the cycle, if two rounds are enough. -/
theorem pursue_of_cycle (h : Cycle guards options s n x s') (hn : n ≤ 2) :
    pursue guards options s = concluded n s' x := by
  rw [pursue_eq]
  cases h with
  | unopened hopen => exact bind_of_error hopen
  | @opened _ s₁ _ _ hopen hrounds =>
    rw [bind_of_ok hopen]
    cases hrounds with
    | finished hfin =>
      obtain ⟨⟨limits, hg⟩, -⟩ := (ends_opening options s.1 s.2).of_ok hopen
      rw [hg] at hfin
      cases hfin
    | failed _ hround => exact bind_of_error hround
    | @again _ _ s₂ _ _ _ hround hrest =>
      rw [bind_of_ok hround, bind_of_ok (rfl : Pursuit.goal s₂ = .ok s₂.1 s₂)]
      cases hrest with
      | finished hfin =>
        rw [if_pos hfin]
        rfl
      | failed hfin hround' =>
        rw [if_neg (by simp [hfin])]
        exact bind_of_error hround'
      | again hfin hround' hrest' =>
        rw [if_neg (by simp [hfin]), bind_of_ok hround']
        cases hrest' with
        | finished => rfl
        | again => omega
        | failed => omega

/-- What is to be shown of the rounds of a pursuit that began with a journal: there are two at most,
and just one if the goal is satisfied, so that the limits were not given up. -/
structure Lives (name : String) (journal : Journal) (n : Nat) (x : Except Fault Unit)
    (s : DistributionGoal × Plan) : Prop where
  rounds : n ≤ 2
  ended : x = .ok () → Ended name s
  regarded : x = .ok () → s.1.succeeded = true → n = 1 ∧ s.1.evacuating = false ∧
    journal.Extends (·.isRelaxed = false) s.2.journal

theorem Lives.of_error {journal : Journal} (hn : n ≤ 2) : Lives name journal n (.error f) s :=
  ⟨hn, nofun, nofun⟩

/-- A goal that has been opened takes one round or two. -/
theorem exists_rounds (guards : List Guard) (options : Options) (hs : s.2.cluster.Sound)
    (hloyal : s.2.cluster.Loyal s.1.name) (hfin : s.1.finished = false)
    (hev : s.1.evacuating = false) :
    ∃ n x s', Rounds guards options n s x s' ∧ Lives s.1.name s.2.journal n x s' := by
  have hcomes : Comes (round guards options) s.1 s.2 _ := comes_round hs
  have hround := hcomes.and (ends_round_journal hs hfin)
  cases hrun : round guards options s with
  | error f s₁ => exact ⟨1, .error f, s₁, .failed hfin hrun, .of_error (by omega)⟩
  | ok _ s₁ =>
    obtain ⟨hrounded, j, hj, hend⟩ := hround.of_ok hrun
    cases hfin₁ : s₁.1.finished with
    | true =>
      obtain ⟨hended, hev₁⟩ := hrounded.ended hs hfin hfin₁
      rw [if_pos hfin₁] at hend
      refine ⟨1, .ok (), s₁, .again hfin hrun (.finished hfin₁), by omega, fun _ ↦ hended,
        fun _ _ ↦ ?_⟩
      exact ⟨rfl, hev₁.trans hev, hend ▸ hj⟩
    | false =>
      obtain ⟨hev₁, hname, hs₁, hunsatisfied⟩ := hrounded.of_unfinished hs hloyal hev hfin hfin₁
      have hround' : Comes (round guards options) s₁.1 s₁.2 _ := comes_round hs₁
      rw [← hname]
      cases hrun' : round guards options s₁ with
      | error f s₂ =>
        exact ⟨2, .error f, s₂, .again hfin hrun (.failed hfin₁ hrun'), .of_error (by omega)⟩
      | ok _ s₂ =>
        have hrounded' := hround'.of_ok hrun'
        have hfin₂ := hrounded'.finished_of_evacuating hev₁
        obtain ⟨hended, -⟩ := hrounded'.ended hs₁ hfin₁ hfin₂
        refine ⟨2, .ok (), s₂, .again hfin hrun (.again hfin₁ hrun' (.finished hfin₂)), by omega,
          fun _ ↦ hended, fun _ hsucceeded ↦ ?_⟩
        cases hsucceeded.symm.trans (hunsatisfied _ _ hrounded')

theorem exists_cycle (guards : List Guard) (options : Options) (g : DistributionGoal)
    (h : p.cluster.Sound) :
    ∃ n x s, Cycle guards options (g, p) n x s ∧ Lives g.name p.journal n x s := by
  have hopening := ends_opening options g p
  cases hopen : opening options (g, p) with
  | error f s => exact ⟨0, .error f, s, .unopened hopen, .of_error (by omega)⟩
  | ok _ s₁ =>
    obtain ⟨⟨limits, hg⟩, hstage, hj⟩ := hopening.of_ok hopen
    obtain ⟨g₁, p₁⟩ := s₁
    obtain rfl : g₁ = { g.renewed with limits } := hg
    have hcluster : p₁.cluster = (g.tracked options p.stage).cluster :=
      congrArg Stage.cluster hstage
    have hs : p₁.cluster.Sound := hcluster ▸ h.track g.name (criteria options)
    have hloyal : p₁.cluster.Loyal g.name := hcluster ▸ h.loyal_track g.name (criteria options)
    obtain ⟨n, x, s, hrounds, hn, hended, hregarded⟩ := exists_rounds guards options
      (s := ({ g.renewed with limits }, p₁)) hs hloyal rfl rfl
    refine ⟨n, x, s, .opened hopen hrounds, hn, hended, fun hx hsucceeded ↦ ?_⟩
    obtain ⟨hone, hev, hj'⟩ := hregarded hx hsucceeded
    exact ⟨hone, hev, hj.trans hj'⟩

/-- A failure at the opening comes before the views are tracked, and one later on after they are
given up. -/
theorem Cycle.untracked_of_failure (hguards : ∀ γ ∈ guards, γ.OnlyJudges)
    (h : Cycle guards options (g, p) n (.error f) s) (hp : p.cluster.Sound)
    (hfree : p.cluster.Untracked g.name) (hf : f.isFailure = true) :
    s.2.cluster.Untracked g.name := by
  have hopening := ends_opening options g p
  cases h with
  | unopened hopen =>
    have hcluster : s.2.cluster = p.cluster := congrArg Stage.cluster (hopening.of_error hopen)
    exact hcluster ▸ hfree
  | @opened _ s₁ _ _ hopen hrounds =>
    obtain ⟨⟨limits, hg⟩, hstage, -⟩ := hopening.of_ok hopen
    have hcluster : s₁.2.cluster = (g.tracked options p.stage).cluster :=
      congrArg Stage.cluster hstage
    have hs₁ : s₁.2.cluster.Sound := hcluster ▸ hp.track g.name (criteria options)
    have hname : s₁.1.name = g.name := by
      rw [hg]
      rfl
    exact hname ▸ hrounds.untracked_of_failure hguards hs₁ hf

theorem Cycle.unique (h : Cycle guards options s n x s') (h' : Cycle guards options s m y s'') :
    n = m ∧ x = y ∧ s' = s'' := by
  cases h with
  | unopened hopen =>
    cases h' with
    | unopened hopen' =>
      cases hopen.symm.trans hopen'
      exact ⟨rfl, rfl, rfl⟩
    | opened hopen' => cases hopen.symm.trans hopen'
  | opened hopen hrounds =>
    cases h' with
    | unopened hopen' => cases hopen.symm.trans hopen'
    | opened hopen' hrounds' =>
      cases hopen.symm.trans hopen'
      exact hrounds.unique hrounds'

end DistributionGoal

open DistributionGoal

/-- After any history that left no view under the goal's name: a pursuit is the opening and then one
round after another, until the goal is finished. However that goes, under whatever guards, there are
two rounds at most. When it ends in a result, every dead broker is empty and no view is left; and
when the goal is satisfied, there was one round, and the limits were not given up. When it fails, no
view is left either, under guards that only judge. -/
theorem pursuit_lives (operations : List Operation) (g : DistributionGoal) (guards : List Guard)
    (options : Options) (hfree : (Cluster.after operations).Untracked g.name) :
    (∃ n x s, Cycle guards options (g, { cluster := .after operations }) n x s ∧
      pursue guards options (g, { cluster := .after operations }) = concluded n s x) ∧
    (∀ n x s, Cycle guards options (g, { cluster := .after operations }) n x s →
      Lives g.name #[] n x s) ∧
    ((∀ γ ∈ guards, γ.OnlyJudges) →
      ∀ n f s, Cycle guards options (g, { cluster := .after operations }) n (.error f) s →
        f.isFailure = true → s.2.cluster.Untracked g.name) := by
  have hsound := Cluster.sound_after operations
  obtain ⟨n, x, s, hcycle, hlives⟩ := exists_cycle guards options g
    (p := { cluster := .after operations }) hsound
  refine ⟨⟨n, x, s, hcycle, pursue_of_cycle hcycle hlives.rounds⟩, fun m y s' hcycle' ↦ ?_,
    fun hguards m f s' hcycle' hf ↦ hcycle'.untracked_of_failure hguards hsound hfree hf⟩
  obtain ⟨rfl, rfl, rfl⟩ := hcycle.unique hcycle'
  exact hlives

/-- A dead broker and two alive ones. The second of these has the other copy of what is on the dead
broker, and the first one as many replicas as it should. -/
def Operation.paired : List Operation :=
  [.addBroker 0 none .alive, .addBroker 1 none .dead, .addBroker 2 none .alive,
    .place ⟨"a", 0⟩ 1 true {}, .place ⟨"a", 0⟩ 2 false {}, .place ⟨"b", 0⟩ 0 true {},
    .place ⟨"c", 0⟩ 0 true {}, .place ⟨"d", 0⟩ 0 true {}]

/-- The copy on the dead broker can go nowhere. -/
def Operation.cramped : List Operation :=
  [.addBroker 0 none .alive, .addBroker 1 none .dead, .place ⟨"a", 0⟩ 0 true {},
    .place ⟨"a", 0⟩ 1 false {}]

/-- A goal that was reached before and allows four replicas on a broker. -/
def DistributionGoal.lenient : DistributionGoal where
  name := "LenientGoal"
  limits := ⟨0, 4, 2⟩

/-- Under the eyes of an earlier goal, the first alive broker takes the copy from the dead one in
the second round only. Where the copy can go nowhere, the goal fails and no view is left. -/
theorem pursuit_lives_evacuating :
    (∃ s, Cycle [lenient.guard] {} ({}, { cluster := .after Operation.paired }) 2 (.ok ()) s ∧
      s.1.succeeded = false ∧ Lives "ReplicaDistributionGoal" #[] 2 (.ok ()) s) ∧
    ∃ n f s, Cycle [lenient.guard] {} ({}, { cluster := .after Operation.cramped }) n (.error f) s ∧
      f.isFailure = true ∧ s.2.cluster.Untracked "ReplicaDistributionGoal" := by
  constructor
  · obtain ⟨⟨n, x, s, hcycle, hpursue⟩, hlives, -⟩ :=
      pursuit_lives Operation.paired {} [lenient.guard] {} (by decide +kernel)
    obtain ⟨_, s', hrun, rfl, hlast⟩ := Ends.exists_ok (by decide +kernel :
      Ends (pursue [lenient.guard] {}) ({}, { cluster := .after Operation.paired })
        (fun x s ↦ x = false ∧ (s.2.journal.back?.bind fun
          | .finished _ rounds _ => some rounds
          | _ => none) = some 2) fun _ _ ↦ False)
    rw [hpursue] at hrun
    cases x with
    | error f => cases hrun
    | ok _ =>
      obtain ⟨hsucceeded, rfl⟩ := EStateM.Result.ok.inj hrun
      rw [Array.back?_push] at hlast
      obtain rfl := Option.some.inj hlast
      exact ⟨s, hcycle, hsucceeded, hlives _ _ _ hcycle⟩
  · obtain ⟨⟨n, x, s, hcycle, hpursue⟩, -, hreleased⟩ :=
      pursuit_lives Operation.cramped {} [lenient.guard] {} (by decide +kernel)
    obtain ⟨f, s', hrun, hf⟩ := Ends.exists_error (by decide +kernel :
      Ends (pursue [lenient.guard] {}) ({}, { cluster := .after Operation.cramped })
        (fun _ _ ↦ False) fun f _ ↦ f.isFailure = true)
    rw [hpursue] at hrun
    cases x with
    | ok _ => cases hrun
    | error f' =>
      obtain ⟨rfl, rfl⟩ := EStateM.Result.error.inj hrun
      refine ⟨n, f', s, hcycle, hf, hreleased ?_ n f' s hcycle hf⟩
      rw [List.forall_mem_singleton]
      exact onlyJudges_guard lenient

/-- A guard that does not judge, but fails the goal that is pursued. -/
def Guard.failing : Guard := ⟨"FailingGoal", fun _ _ ↦ .error (.noAliveBroker "FailingGoal")⟩

/-- Its failure comes through as soon as it is asked, and the views are left. -/
theorem pursuit_left_tracked :
    (Cluster.after Operation.paired).Untracked "ReplicaDistributionGoal" ∧
    ∃ f s, pursue [.failing] {} ({}, { cluster := .after Operation.paired }) = .error f s ∧
      f.isFailure = true ∧ ¬ s.2.cluster.Untracked "ReplicaDistributionGoal" := by
  refine ⟨by decide +kernel, Ends.exists_error (by decide +kernel : Ends (pursue [.failing] {})
    ({}, { cluster := .after Operation.paired }) (fun _ _ ↦ False) fun f s ↦ f.isFailure = true ∧
      ¬ s.2.cluster.Untracked "ReplicaDistributionGoal")⟩

end Rebalance
