import Rebalance.Distribution.Rounds
import Rebalance.Proofs.Distribution.Passes

/-!
# Rounds

How the goal is pursued round by round, as relations between the goal and the stage before and
after: what tending one broker comes to, then a round over all brokers.
-/

namespace Rebalance.DistributionGoal

/-! ## Tending a broker -/

/-- A broker holds more replicas than it may. -/
def TooMany (g : DistributionGoal) (b : Broker) : Prop := g.ceiling b < b.count

/-- An alive broker holds fewer replicas than it should. -/
def TooFew (g : DistributionGoal) (b : Broker) : Prop :=
  b.isAlive = true ∧ (b.count : Int) < g.limits.lower

instance (g : DistributionGoal) (b : Broker) : Decidable (g.TooMany b) :=
  inferInstanceAs (Decidable (g.ceiling b < b.count))

instance (g : DistributionGoal) (b : Broker) : Decidable (g.TooFew b) :=
  inferInstanceAs (Decidable (b.isAlive = true ∧ (b.count : Int) < g.limits.lower))

/-- Why a broker is left as it is: it is in balance, new brokers are filled before it, or only
immigrants may leave it and there are none. -/
inductive Exempt (g : DistributionGoal) (options : Options) (c : Cluster) (b : Broker) : Prop where
  | settled : b.isAlive = true → ¬ g.TooFew b → ¬ g.TooMany b → Exempt g options c b
  | deferred : c.hasNew = true → g.TooFew b → b.isNew = false → Exempt g options c b
  | native : c.hasDead = true ∧ b.isAlive = true ∨ options.onlyImmigrants = true → g.TooMany b →
    b.immigrants = [] → Exempt g options c b

/-- How a broker that holds too many replicas is drained; any other one is left alone. -/
inductive Lowered (g : DistributionGoal) (guards : List Guard) (options : Options) (b : Broker) :
    Stage → Except Fault Bool → Stage → Prop where
  | untouched {t : Stage} : ¬ g.TooMany b → Lowered g guards options b t (.ok false) t
  | untracked {t : Stage} {f : Fault} : g.TooMany b → b.view g.name = .error f →
    Lowered g guards options b t (.error f) t
  | drained {t t' : Stage} {v : View} {x : Except Fault Bool} : g.TooMany b →
    b.view g.name = .ok v →
    g.Drained guards options b.id (g.ceiling b) v.replicas (.ofBrokers (g.receivers t.cluster)) t x
      t' →
    Lowered g guards options b t x t'

/-- How a broker that held too few replicas when it was looked at is filled; any other one is left
alone. -/
inductive Raised (g : DistributionGoal) (guards : List Guard) (options : Options) (b : Broker) :
    Stage → Except Fault Bool → Stage → Prop where
  | untouched {t : Stage} : ¬ g.TooFew b → Raised g guards options b t (.ok false) t
  | filled {t t' : Stage} {b' : Broker} {x : Except Fault Bool} : g.TooFew b →
    t.cluster.broker? b.id = some b' →
    g.Filled guards options b.id (g.bottom b' - b'.count).toNat (g.givers t.cluster) t x t' →
    Raised g guards options b t x t'

/-- What tending a broker comes to. -/
inductive Tended (guards : List Guard) (options : Options) (id : BrokerId) :
    DistributionGoal → Stage → Except Fault Unit → DistributionGoal → Stage → Prop where
  | unknown {g : DistributionGoal} {t : Stage} : t.cluster.broker? id = none →
    Tended guards options id g t (.error (.unknownBroker id)) g t
  | exempt {g : DistributionGoal} {t : Stage} {b : Broker} : t.cluster.broker? id = some b →
    g.Exempt options t.cluster b → Tended guards options id g t (.ok ()) g t
  | above {g : DistributionGoal} {t t' : Stage} {b : Broker} : t.cluster.broker? id = some b →
    ¬ g.Exempt options t.cluster b → g.Lowered guards options b t (.ok true) t' →
    Tended guards options id g t (.ok ()) { g with above := insertAscending id g.above } t'
  | undrained {g : DistributionGoal} {t t' : Stage} {b : Broker} {f : Fault} :
    t.cluster.broker? id = some b → ¬ g.Exempt options t.cluster b →
    g.Lowered guards options b t (.error f) t' → Tended guards options id g t (.error f) g t'
  | under {g : DistributionGoal} {t t' t'' : Stage} {b : Broker} : t.cluster.broker? id = some b →
    ¬ g.Exempt options t.cluster b → g.Lowered guards options b t (.ok false) t' →
    g.Raised guards options b t' (.ok true) t'' →
    Tended guards options id g t (.ok ()) { g with under := insertAscending id g.under } t''
  | unfilled {g : DistributionGoal} {t t' t'' : Stage} {b : Broker} {f : Fault} :
    t.cluster.broker? id = some b → ¬ g.Exempt options t.cluster b →
    g.Lowered guards options b t (.ok false) t' → g.Raised guards options b t' (.error f) t'' →
    Tended guards options id g t (.error f) g t''
  | balanced {g : DistributionGoal} {t t' t'' : Stage} {b : Broker} :
    t.cluster.broker? id = some b → ¬ g.Exempt options t.cluster b →
    g.Lowered guards options b t (.ok false) t' → g.Raised guards options b t' (.ok false) t'' →
    Tended guards options id g t (.ok ()) g t''

/-- From a goal and a plan, a computation comes to a result or a fault, and a goal and a stage. -/
def Comes {α : Type} (x : Pursuit DistributionGoal α) (g : DistributionGoal) (p : Plan)
    (outcome : Except Fault α → DistributionGoal → Stage → Prop) : Prop :=
  Ends x (g, p) (fun a s ↦ outcome (.ok a) s.1 s.2.stage) fun f s ↦ outcome (.error f) s.1 s.2.stage

variable {guards : List Guard} {options : Options} {g : DistributionGoal} {p : Plan}

theorem ends_drain (h : p.cluster.Sound) {b : Broker} (hb : p.cluster.broker? b.id = some b)
    (hmany : g.TooMany b) :
    Ends (g.drain guards options b.id) p
      (fun x p' ↦ g.Lowered guards options b p.stage (.ok x) p'.stage)
      fun f p' ↦ g.Lowered guards options b p.stage (.error f) p'.stage := by
  unfold drain
  refine .bind (Planning.ends_cluster (.bind (.except ?_ ?_)))
  · intro b' hb'
    rw [Cluster.broker_eq_ok_iff, hb] at hb'
    obtain rfl := Option.some.inj hb'
    refine .bind (.except ?_ ?_)
    · intro v hv
      refine (ends_drainFrom h b.id _ _ _).mono ?_ ?_
      · intro x p' hx
        exact .drained hmany hv hx
      · intro f p' hf
        exact .drained hmany hv hf
    · intro f hf
      exact .untracked hmany hf
  · intro f hf
    rw [Cluster.broker_eq_error_iff, hb] at hf
    cases hf.1

theorem ends_fill (h : p.cluster.Sound) {b b' : Broker} (hb' : p.cluster.broker? b.id = some b')
    (hfew : g.TooFew b) :
    Ends (g.fill guards options b.id) p
      (fun x p' ↦ g.Raised guards options b p.stage (.ok x) p'.stage)
      fun f p' ↦ g.Raised guards options b p.stage (.error f) p'.stage := by
  unfold fill
  refine .bind (Planning.ends_cluster (.bind (.except ?_ ?_)))
  · intro b₁ hb₁
    rw [Cluster.broker_eq_ok_iff] at hb₁
    refine (ends_fillFrom h b.id _ _).mono ?_ ?_
    · intro x p' hx
      exact .filled hfew hb₁ hx
    · intro f p' hf
      exact .filled hfew hb₁ hf
  · intro f hf
    rw [Cluster.broker_eq_error_iff, hb'] at hf
    cases hf.1

/-- A broker is exempt exactly when one of the early returns is taken. -/
theorem exempt_iff {c : Cluster} {b : Broker} {few many : Bool} (hfew : few = true ↔ g.TooFew b)
    (hmany : many = true ↔ g.TooMany b) :
    g.Exempt options c b ↔ (b.isAlive && !few && !many) = true ∨
      (c.hasNew && few && !b.isNew) = true ∨
      ((c.hasDead && b.isAlive || options.onlyImmigrants) && many && b.immigrants.isEmpty) =
        true := by
  have hfew' : few = false ↔ ¬ g.TooFew b := by rw [← hfew, Bool.not_eq_true]
  have hmany' : many = false ↔ ¬ g.TooMany b := by rw [← hmany, Bool.not_eq_true]
  simp only [Bool.and_eq_true, Bool.or_eq_true, Bool.not_eq_true', List.isEmpty_iff, hfew, hmany,
    hfew', hmany']
  constructor
  · rintro (⟨halive, hfew, hmany⟩ | ⟨hnew, hfew, hold⟩ | ⟨himm, hmany, hnone⟩)
    · exact .inl ⟨⟨halive, hfew⟩, hmany⟩
    · exact .inr (.inl ⟨⟨hnew, hfew⟩, hold⟩)
    · exact .inr (.inr ⟨⟨himm, hmany⟩, hnone⟩)
  · rintro (⟨⟨halive, hfew⟩, hmany⟩ | ⟨⟨hnew, hfew⟩, hold⟩ | ⟨⟨himm, hmany⟩, hnone⟩)
    · exact .settled halive hfew hmany
    · exact .deferred hnew hfew hold
    · exact .native himm hmany hnone

namespace Law

variable {keep : Stage → Prop} {fail : Fault → Stage → Prop} {b : Broker} {t t' : Stage}
  {x : Except Fault Bool}

theorem lowered (law : g.Law guards options keep fail) (hb : t.cluster.broker? b.id = some b)
    (h : g.Lowered guards options b t x t') (ht : keep t) : Leaves keep fail x t' := by
  cases h with
  | untouched => exact ht
  | untracked _ hf => exact law.views ht hb hf
  | drained _ _ hdrained => exact law.drained hdrained ht

theorem raised (law : g.Law guards options keep fail) (h : g.Raised guards options b t x t')
    (ht : keep t) : Leaves keep fail x t' := by
  cases h with
  | untouched => exact ht
  | filled _ _ hfilled => exact law.filled hfilled ht

end Law

section

variable {b b' : Broker} {next : Bool → Pursuit DistributionGoal Unit}
  {post : Unit → DistributionGoal × Plan → Prop} {fail : Fault → DistributionGoal × Plan → Prop}

theorem ends_lower (h : p.cluster.Sound) (hb : p.cluster.broker? b.id = some b) {many : Bool}
    (hmany : many = true ↔ g.TooMany b)
    (hnext : ∀ x, ∀ p' : Plan, g.Lowered guards options b p.stage (.ok x) p'.stage →
      Ends (next x) (g, p') post fail)
    (hfail : ∀ f, ∀ p' : Plan, g.Lowered guards options b p.stage (.error f) p'.stage →
      fail f (g, p')) :
    Ends (if many then (g.drain guards options b.id : Pursuit DistributionGoal Bool) >>= next
      else (pure false : Pursuit DistributionGoal Bool) >>= next) (g, p) post fail := by
  split
  · rename_i htrue
    exact .bind (Pursuit.ends_planning ((ends_drain h hb (hmany.1 htrue)).mono hnext hfail))
  · rename_i hfalse
    exact .bind (.pure (hnext false p (.untouched fun h ↦ hfalse (hmany.2 h))))

theorem ends_raise (h : p.cluster.Sound) (hb' : p.cluster.broker? b.id = some b') {few : Bool}
    (hfew : few = true ↔ g.TooFew b)
    (hnext : ∀ x, ∀ p' : Plan, g.Raised guards options b p.stage (.ok x) p'.stage →
      Ends (next x) (g, p') post fail)
    (hfail : ∀ f, ∀ p' : Plan, g.Raised guards options b p.stage (.error f) p'.stage →
      fail f (g, p')) :
    Ends (if few then (g.fill guards options b.id : Pursuit DistributionGoal Bool) >>= next
      else (pure false : Pursuit DistributionGoal Bool) >>= next) (g, p) post fail := by
  split
  · rename_i htrue
    exact .bind (Pursuit.ends_planning ((ends_fill h hb' (hfew.1 htrue)).mono hnext hfail))
  · rename_i hfalse
    exact .bind (.pure (hnext false p (.untouched fun h ↦ hfalse (hfew.2 h))))

/-- Noting how many replicas a broker has ended with changes nothing else. -/
theorem ends_note {id : BrokerId} {e : Nat → Event} (he : ∀ n m, e n ≠ .moved m)
    (hpost : ∀ p' : Plan, p'.stage = p.stage → post () (g, p')) :
    Ends (do Planning.record (e ((← Planning.cluster).count id)) : Pursuit DistributionGoal Unit)
      (g, p) post fail :=
  .bind (Pursuit.ends_planning (Planning.ends_cluster (Pursuit.ends_planning
    (Planning.ends_record (hpost _ (p.stage_push (he _)))))))

end

/-- The relation is what tending does. -/
theorem comes_tend (h : p.cluster.Sound) (id : BrokerId) :
    Comes (tend guards options id) g p (Tended guards options id g p.stage) := by
  unfold Comes tend
  refine .bind (Pursuit.ends_goal (.bind (Pursuit.ends_planning (Planning.ends_cluster
    (.bind (.except ?_ ?_))))))
  · intro b hb
    rw [Cluster.broker_eq_ok_iff] at hb
    obtain rfl := Cluster.id_of_broker? hb
    refine .bind (Pursuit.ends_planning (Planning.ends_record ?_))
    have hstage := p.stage_push (e := .tending b.id g.limits) fun m ↦ nofun
    generalize { p with journal := p.journal.push (.tending b.id g.limits) } = p₁ at hstage ⊢
    extract_lets many few under above
    have hmany : many = true ↔ g.TooMany b := decide_eq_true_iff
    have hfew : few = true ↔ g.TooFew b := by
      rw [TooFew, ← decide_eq_true_iff (p := (b.count : Int) < _), ← Bool.and_eq_true]
    have hexempt : g.Exempt options p.cluster b →
        Tended guards options b.id g p.stage (.ok ()) g p₁.stage := fun hex ↦ by
      rw [hstage]
      exact .exempt hb hex
    split
    · rename_i h₁
      exact .pure (hexempt ((exempt_iff hfew hmany).2 (.inl h₁)))
    · rename_i h₁
      split
      · rename_i h₂
        exact .pure (hexempt ((exempt_iff hfew hmany).2 (.inr (.inl h₂))))
      · rename_i h₂
        split
        · rename_i h₃
          exact .pure (hexempt ((exempt_iff hfew hmany).2 (.inr (.inr h₃))))
        · rename_i h₃
          have hex : ¬ g.Exempt options p.cluster b := by
            rw [exempt_iff hfew hmany]
            exact fun h ↦ h.elim h₁ fun h ↦ h.elim h₂ h₃
          have hb₁ : p₁.stage.cluster.broker? b.id = some b := by
            rw [hstage]
            exact hb
          have hsound : p₁.stage.cluster.Sound := by
            rw [hstage]
            exact h
          refine ends_lower hsound hb₁ hmany ?_ ?_
          · intro stillAbove p₂ hlowered
            rw [hstage] at hlowered
            cases stillAbove with
            | true =>
              refine .bind (Pursuit.ends_adjust (ends_note (fun _ _ ↦ nofun) ?_))
              intro p₃ hp₃
              rw [hp₃]
              exact .above hb hex hlowered
            | false =>
              obtain ⟨hsound₂, hstates⟩ :=
                (Law.sound g guards options p.cluster.states).lowered hb hlowered ⟨h, rfl⟩
              obtain ⟨b₂, hb₂⟩ := Cluster.exists_broker?_of_states hstates hb
              refine ends_raise hsound₂ hb₂ hfew ?_ ?_
              · intro stillUnder p₃ hraised
                cases stillUnder with
                | true =>
                  refine .bind (Pursuit.ends_adjust (ends_note (fun _ _ ↦ nofun) ?_))
                  intro p₄ hp₄
                  rw [hp₄]
                  exact .under hb hex hlowered hraised
                | false =>
                  refine ends_note (fun _ _ ↦ nofun) ?_
                  intro p₄ hp₄
                  rw [hp₄]
                  exact .balanced hb hex hlowered hraised
              · intro f p₃ hraised
                exact .unfilled hb hex hlowered hraised
          · intro f p₂ hlowered
            rw [hstage] at hlowered
            exact .undrained hb hex hlowered
  · intro f hf
    obtain ⟨hnone, rfl⟩ := Cluster.broker_eq_error_iff.1 hf
    exact .unknown hnone

/-! ## A round -/

/-- What tending brokers one after another comes to. -/
inductive TendedAll (guards : List Guard) (options : Options) :
    List BrokerId → DistributionGoal → Stage → Except Fault Unit → DistributionGoal → Stage → Prop
  where
  | nil {g : DistributionGoal} {t : Stage} : TendedAll guards options [] g t (.ok ()) g t
  | cons {id : BrokerId} {rest : List BrokerId} {g g' g'' : DistributionGoal} {t t' t'' : Stage}
    {x : Except Fault Unit} :
    Tended guards options id g t (.ok ()) g' t' → TendedAll guards options rest g' t' x g'' t'' →
    TendedAll guards options (id :: rest) g t x g'' t''
  | failed {id : BrokerId} {rest : List BrokerId} {g g' : DistributionGoal} {t t' : Stage}
    {f : Fault} :
    Tended guards options id g t (.error f) g' t' →
    TendedAll guards options (id :: rest) g t (.error f) g' t'

/-- The goal after its reports: it is not satisfied if some broker was out of balance. -/
def reported (g : DistributionGoal) : DistributionGoal :=
  { g with succeeded := g.succeeded && g.above.isEmpty && g.under.isEmpty }

/-- The stage once the views of the goal are given up. -/
def released (g : DistributionGoal) (t : Stage) : Stage :=
  { t with cluster := t.cluster.untrack g.name }

/-- What the end of a round comes to. -/
inductive Closed : DistributionGoal → Stage → Except Fault Unit → DistributionGoal → Stage → Prop
  where
  | finished {g : DistributionGoal} {t : Stage} : unemptied t.cluster = [] →
    Closed g t (.ok ()) { g.reported with finished := true } (g.released t)
  | failed {g : DistributionGoal} {t : Stage} : unemptied t.cluster ≠ [] → g.evacuating = true →
    Closed g t (.error (.deadBrokersLeft g.name (unemptied t.cluster))) g.reported (g.released t)
  | relaxed {g : DistributionGoal} {t : Stage} : unemptied t.cluster ≠ [] → g.evacuating = false →
    Closed g t (.ok ()) { g.reported with evacuating := true, above := [], under := [] }
      (if g.finished then g.released t else t)

/-- What a round comes to. -/
inductive Rounded (guards : List Guard) (options : Options) :
    DistributionGoal → Stage → Except Fault Unit → DistributionGoal → Stage → Prop where
  | tended {g g' g'' : DistributionGoal} {t t' t'' : Stage} {x : Except Fault Unit} :
    TendedAll guards options ((g.brokersToBalance t.cluster).map Broker.id) g t (.ok ()) g' t' →
    Closed g' t' x g'' t'' → Rounded guards options g t x g'' t''
  | failed {g g' : DistributionGoal} {t t' : Stage} {f : Fault} :
    TendedAll guards options ((g.brokersToBalance t.cluster).map Broker.id) g t (.error f) g' t' →
    Rounded guards options g t (.error f) g' t'

theorem Tended.sound {id : BrokerId} {g g' : DistributionGoal} {t t' : Stage}
    {x : Except Fault Unit} (h : Tended guards options id g t x g' t') (ht : t.cluster.Sound) :
    t'.cluster.Sound ∧ t'.cluster.states = t.cluster.states := by
  have law := Law.sound g guards options t.cluster.states
  cases h with
  | unknown => exact ⟨ht, rfl⟩
  | exempt => exact ⟨ht, rfl⟩
  | above hb _ hlowered =>
    obtain rfl := Cluster.id_of_broker? hb
    exact law.lowered hb hlowered ⟨ht, rfl⟩
  | undrained hb _ hlowered =>
    obtain rfl := Cluster.id_of_broker? hb
    exact law.lowered hb hlowered ⟨ht, rfl⟩
  | under hb _ hlowered hraised =>
    obtain rfl := Cluster.id_of_broker? hb
    exact law.raised hraised (law.lowered hb hlowered ⟨ht, rfl⟩)
  | unfilled hb _ hlowered hraised =>
    obtain rfl := Cluster.id_of_broker? hb
    exact law.raised hraised (law.lowered hb hlowered ⟨ht, rfl⟩)
  | balanced hb _ hlowered hraised =>
    obtain rfl := Cluster.id_of_broker? hb
    exact law.raised hraised (law.lowered hb hlowered ⟨ht, rfl⟩)

theorem TendedAll.sound {ids : List BrokerId} {g g' : DistributionGoal} {t t' : Stage}
    {x : Except Fault Unit} (h : TendedAll guards options ids g t x g' t') (ht : t.cluster.Sound) :
    t'.cluster.Sound ∧ t'.cluster.states = t.cluster.states := by
  induction h with
  | nil => exact ⟨ht, rfl⟩
  | cons htended _ ih =>
    obtain ⟨hsound, hstates⟩ := htended.sound ht
    obtain ⟨hsound', hstates'⟩ := ih hsound
    exact ⟨hsound', hstates'.trans hstates⟩
  | failed htended => exact htended.sound ht

theorem comes_tendAll (h : p.cluster.Sound) (ids : List BrokerId) :
    Comes (tendAll guards options ids) g p (TendedAll guards options ids g p.stage) := by
  induction ids generalizing g p with
  | nil => exact .pure .nil
  | cons id rest ih =>
    refine .bind ((comes_tend h id).mono ?_ ?_)
    · rintro _ ⟨g', p'⟩ htended
      obtain ⟨hsound, -⟩ := htended.sound h
      refine (ih hsound).mono ?_ ?_
      · intro _ _ hrest
        exact .cons htended hrest
      · intro f _ hrest
        exact .cons htended hrest
    · intro f s hf
      exact .failed hf

theorem ends_report {ids : List BrokerId} {e : Event} (he : ∀ m, e ≠ .moved m)
    {post : Unit → DistributionGoal × Plan → Prop} {fail : Fault → DistributionGoal × Plan → Prop}
    (hpost : ∀ p' : Plan, p'.stage = p.stage →
      post () ({ g with succeeded := g.succeeded && ids.isEmpty }, p')) :
    Ends (report ids e) (g, p) post fail := by
  unfold report
  split
  · rename_i hempty
    have hsame := hpost p rfl
    rw [hempty, Bool.and_true] at hsame
    exact .pure hsame
  · rename_i hne
    have hfalse := hpost _ (p.stage_push he)
    rw [Bool.not_eq_true] at hne
    rw [hne, Bool.and_false] at hfalse
    exact .bind (Pursuit.ends_planning (Planning.ends_record (Pursuit.ends_adjust hfalse)))

theorem stage_released {t : Stage} (h : p.stage = t) :
    Plan.stage { p with cluster := p.cluster.untrack g.name } = g.released t := by
  rw [released, ← h]
  rfl

theorem comes_close : Comes close g p (Closed g p.stage) := by
  unfold Comes close
  refine .bind (Pursuit.ends_goal (.bind (Pursuit.ends_planning (Planning.ends_cluster ?_))))
  refine .bind (ends_report (by exact fun _ ↦ nofun) fun p₁ hp₁ ↦
    .bind (ends_report (by exact fun _ ↦ nofun) fun p₂ hp₂ ↦ ?_))
  rw [hp₁] at hp₂
  change Ends (conclude (unemptied p.cluster)) (g.reported, p₂) _ _
  unfold conclude
  refine .bind (Pursuit.ends_goal ?_)
  split
  · rename_i hempty
    refine .bind (Pursuit.ends_adjust (Pursuit.ends_changeCluster ?_))
    have hclosed := Closed.finished (g := g) (t := p.stage) (List.isEmpty_iff.1 hempty)
    rw [← stage_released hp₂] at hclosed
    exact hclosed
  · rename_i hne
    rw [List.isEmpty_iff] at hne
    split
    · rename_i hev
      refine .bind (Pursuit.ends_changeCluster (.throw ?_))
      have hclosed := Closed.failed (g := g) (t := p.stage) hne hev
      rw [← stage_released hp₂] at hclosed
      exact hclosed
    · rename_i hev
      refine .bind (Pursuit.ends_adjust (.bind (Pursuit.ends_planning (Planning.ends_record ?_))))
      have hp₃ := p₂.stage_push (e := .relaxed g.name (unemptied p.cluster)) fun m ↦ nofun
      rw [hp₂] at hp₃
      have hclosed := Closed.relaxed (g := g) (t := p.stage) hne (Bool.not_eq_true _ ▸ hev)
      by_cases hfin : g.finished = true
      · rw [if_pos hfin, ← stage_released hp₃] at hclosed
        change Ends (if g.finished then _ else _) _ _ _
        rw [if_pos hfin]
        exact Pursuit.ends_changeCluster hclosed
      · rw [if_neg hfin] at hclosed
        change Ends (if g.finished then _ else _) _ _ _
        rw [if_neg hfin]
        refine .pure ?_
        change Closed g p.stage _ _ (Plan.stage
          { p₂ with journal := p₂.journal.push (.relaxed g.name (unemptied p.cluster)) })
        rw [hp₃]
        exact hclosed

theorem comes_round (h : p.cluster.Sound) :
    Comes (round guards options) g p (Rounded guards options g p.stage) := by
  unfold Comes round
  refine .bind (Pursuit.ends_goal (.bind (Pursuit.ends_planning (Planning.ends_cluster
    (.bind ((comes_tendAll h _).mono ?_ ?_))))))
  · rintro _ ⟨g', p'⟩ htended
    refine (comes_close (g := g') (p := p')).mono ?_ ?_
    · intro _ _ hclosed
      exact .tended htended hclosed
    · intro f _ hclosed
      exact .tended htended hclosed
  · intro f s hf
    exact .failed hf

end Rebalance.DistributionGoal
