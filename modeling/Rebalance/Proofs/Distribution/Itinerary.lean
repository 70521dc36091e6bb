import Rebalance.Proofs.Cluster.Trail
import Rebalance.Proofs.Distribution.Tending

/-!
# The way a pursuit takes

Tending brokers takes steps, each of which relocates one replica, until all are done or something
fails. So what is written while the goal is pursued splits in two: what comes before the limits are
given up, and what comes after. The moves of both lead from one cluster to the next, and what holds
of every step holds of every move.
-/

namespace Rebalance

open Relation (ReflTransGen)

namespace DistributionGoal

variable {g g' g₁ : DistributionGoal} {guards : List Guard} {options : Options} {t t' : Stage}
  {p p' : Plan} {candidates : List BrokerId} {i : ReplicaId} {r : Replica} {d : BrokerId}
  {ids : List BrokerId}

/-! ## Steps until something fails -/

section

variable {step : Stage → Stage → Prop} {P : Stage → Prop}
  (hP : ∀ t t', P t → step t t' → P t')

include hP

/-- What every step keeps is kept by any number of them, and holds before each. -/
theorem along_of_steps (h : ReflTransGen step t t') (ht : P t) :
    P t' ∧ ReflTransGen (fun t t' ↦ P t ∧ step t t') t t' := by
  induction h with
  | refl => exact ⟨ht, .refl⟩
  | tail _ hlast ih => exact ⟨hP _ _ ih.1 hlast, ih.2.tail ⟨ih.1, hlast⟩⟩

theorem Arrives.along {α : Type} {x : Except Fault α} (h : Arrives step t x t') (ht : P t) :
    Arrives (fun t t' ↦ P t ∧ step t t') t x t' := by
  cases x with
  | ok a => exact (along_of_steps hP h ht).2
  | error f =>
    obtain ⟨t₁, h, hend⟩ := h
    exact ⟨t₁, (along_of_steps hP h ht).2, hend⟩

/-- If tending each broker takes steps, so does tending all of them, and what every step keeps may
be relied on. -/
theorem TendedAll.arrives {x : Except Fault Unit}
    (htended : ∀ {g₁ g₂ : DistributionGoal} {t t' : Stage} {y : Except Fault Unit},
      ∀ id ∈ ids, g.Alike g₁ → P t → Tended guards options id g₁ t y g₂ t' →
      Arrives step t y t')
    (halike : g.Alike g₁) (h : TendedAll guards options ids g₁ t x g' t') (ht : P t) :
    Arrives step t x t' := by
  induction h with
  | nil => exact ReflTransGen.refl
  | cons hfirst _ ih =>
    have hsteps : ReflTransGen step _ _ := htended _ List.mem_cons_self halike ht hfirst
    refine (ih ?_ (halike.trans hfirst.alike) (along_of_steps hP hsteps ht).1).trans hsteps
    exact fun id hid ↦ htended id (List.mem_cons_of_mem _ hid)
  | failed hfirst => exact htended _ List.mem_cons_self halike ht hfirst

end

/-! ## Relocations -/

/-- A replica is relocated, by a step of a kind. -/
def Takes (step : Cluster → Move → Cluster → Prop) (t t' : Stage) : Prop :=
  ∃ tp s d, t'.moves = t.moves ++ [.replica tp s d] ∧
    Cluster.relocate tp s d t.cluster = .ok () t'.cluster ∧
    step t.cluster (.replica tp s d) t'.cluster

section

variable {step : Cluster → Move → Cluster → Prop}

/-- The move of a step is the only one that it writes down. -/
theorem Moves.eq_of_moves {m : Move}
    (hmoves : g.Moves guards options t candidates i r d t')
    (hm : t'.moves = t.moves ++ [m]) : m = .replica r.partition r.broker d :=
  List.singleton_inj.1 (List.append_cancel_left (hm.symm.trans hmoves.relocated.moves))

theorem Moves.takes (ht : t.cluster.Sound)
    (hmoves : g.Moves guards options t candidates i r d t')
    (hstep : step t.cluster (.replica r.partition r.broker d) t'.cluster) : Takes step t t' := by
  refine ⟨_, _, _, hmoves.relocated.moves, ?_, hstep⟩
  obtain ⟨j, r', hpart, hbroker, hm, hcluster⟩ := hmoves.relocated.cluster
  rw [hcluster, ← hpart, ← hbroker]
  exact Cluster.relocate_of_movable ht hm

/-- Relocations keep a cluster sound, with the same brokers, and whatever moves keep. -/
theorem keeps_of_takes {P : Cluster → Prop}
    (hP : ∀ {c i r d}, c.Sound → c.Movable i r d → P c → P (c.moved i r d))
    (h : ReflTransGen (Takes step) t t') (ht : t.cluster.Sound) (hc : P t.cluster) :
    t'.cluster.Sound ∧ t'.cluster.states = t.cluster.states ∧ P t'.cluster := by
  induction h with
  | refl => exact ⟨ht, rfl, hc⟩
  | tail _ hlast ih =>
    obtain ⟨hsound, hstates, hc⟩ := ih
    obtain ⟨tp, s, d, -, hrelocate, -⟩ := hlast
    obtain ⟨i, r, -, -, hm, hcluster⟩ := hsound.exists_movable hrelocate
    rw [hcluster]
    exact ⟨hsound.moved hm, (Cluster.states_moved ..).trans hstates, hP hsound hm hc⟩

/-- Relocations, one after another, make a trail. -/
theorem exists_trail_of_takes (h : ReflTransGen (Takes step) t t') :
    ∃ moves, t'.moves = t.moves ++ moves ∧ Trail step t.cluster moves t'.cluster := by
  induction h using ReflTransGen.head_induction_on with
  | refl => exact ⟨[], (List.append_nil _).symm, .nil⟩
  | head hfirst _ ih =>
    obtain ⟨tp, s, d, hmove, hrelocate, hstep⟩ := hfirst
    obtain ⟨moves, hmoves, htrail⟩ := ih
    refine ⟨.replica tp s d :: moves, ?_, .cons hrelocate hstep htrail⟩
    rw [hmoves, hmove, List.append_assoc, List.singleton_append]

end

/-! ## Advances -/

/-- A step on some broker, which is a dead one if dead brokers are evacuated. -/
structure Advances (g : DistributionGoal) (guards : List Guard) (options : Options) (t t' : Stage) :
    Prop where
  sound : t.cluster.Sound
  faithful : t.cluster.Faithful g.name (criteria options)
  step : ∃ g' id, g.Alike g' ∧ (g.evacuating = true → t.cluster.Dead id) ∧
    g'.Step guards options id t t'

/-- A step relocates a replica. -/
theorem Advances.exists_moves (h : g.Advances guards options t t') :
    ∃ candidates i r d, (criteria options).admits r = true ∧ t.cluster.On r.broker i r ∧
      g.Moves guards options t candidates i r d t' := by
  obtain ⟨_, _, halike, -, hstep⟩ := h.step
  obtain ⟨candidates, i, r, d, hadmits, hon, hmoves⟩ := hstep.exists_moves
  exact ⟨candidates, i, r, d, hadmits, hon, halike.moves hmoves⟩

section

variable {x : Except Fault Unit} (ht : t.cluster.Sound)
  (hf : t.cluster.Faithful g.name (criteria options))
  (hev : g.evacuating = true → ∀ id ∈ ids, t.cluster.Dead id)
  (h : TendedAll guards options ids g t x g' t')

include ht hf hev h

/-- Tending brokers takes steps. -/
theorem TendedAll.advances : Arrives (g.Advances guards options) t x t' := by
  refine TendedAll.arrives (P := fun t ↦ t.cluster.Sound ∧
    t.cluster.Faithful g.name (criteria options) ∧
    (g.evacuating = true → ∀ id ∈ ids, t.cluster.Dead id)) ?_ ?_ (.refl g) h ⟨ht, hf, hev⟩
  · rintro t t' ⟨ht, hf, hev⟩ hstep
    obtain ⟨_, _, -, -, hs⟩ := hstep.step
    refine ⟨hs.sound ht, hs.faithful ht hf, fun he id hid ↦ ?_⟩
    exact (Cluster.dead_congr hs.states_eq).2 (hev he id hid)
  · rintro g₁ g₂ t t' y id hid halike ⟨ht, hf, hev⟩ htended
    have hev' : g₁.evacuating = true → t.cluster.Dead id := fun he ↦
      hev (halike.evacuating ▸ he) id hid
    refine (Arrives.along (P := fun t ↦ t.cluster.Sound ∧
      t.cluster.Faithful g.name (criteria options) ∧
      (g₁.evacuating = true → t.cluster.Dead id)) ?_
      (htended.arrives ht (halike.name ▸ hf) hev') ⟨ht, hf, hev'⟩).mono ?_
    · rintro t t' ⟨ht, hf, hev⟩ hs
      exact ⟨hs.sound ht, hs.faithful ht hf,
        fun he ↦ (Cluster.dead_congr hs.states_eq).2 (hev he)⟩
    · rintro t t' ⟨⟨ht, hf, hev⟩, hs⟩
      exact ⟨ht, hf, g₁, id, halike, halike.evacuating ▸ hev, hs⟩

/-- So it takes relocations of which is true what is true of every step, given the brokers and their
states. -/
theorem TendedAll.takes {step : Cluster → Move → Cluster → Prop}
    (hstep : ∀ {t₁ t₂ m}, t₁.cluster.states = t.cluster.states →
      g.Advances guards options t₁ t₂ → t₂.moves = t₁.moves ++ [m] →
      step t₁.cluster m t₂.cluster) :
    Arrives (Takes step) t x t' := by
  refine (Arrives.along (P := fun t₁ ↦ t₁.cluster.states = t.cluster.states) ?_
    (h.advances ht hf hev) rfl).mono ?_
  · intro t₁ t₂ hstates hadvances
    obtain ⟨_, _, _, _, -, -, hmoves⟩ := hadvances.exists_moves
    exact hmoves.relocated.states_eq.trans hstates
  · rintro t₁ t₂ ⟨hstates, hadvances⟩
    obtain ⟨_, _, _, _, -, -, hmoves⟩ := hadvances.exists_moves
    exact hmoves.takes hadvances.sound (hstep hstates hadvances hmoves.relocated.moves)

end

/-! ## Rounds -/

theorem Closed.moves_eq {x : Except Fault Unit} (h : Closed g t x g' t') : t'.moves = t.moves := by
  cases h with
  | finished => rfl
  | failed => rfl
  | relaxed => split <;> rfl

/-- But for its views a cluster is left as it was, unless a replica was lost on its way. -/
def Remains {α : Type} (x : Except Fault α) (c c' : Cluster) : Prop :=
  x = .error .viewOutOfOrder ∨ c'.bare = c.bare

theorem Closed.remains {x : Except Fault Unit} (h : Closed g t x g' t') :
    Remains x t.cluster t'.cluster := by
  refine .inr ?_
  cases h with
  | finished => exact Cluster.bare_untrack g.name t.cluster
  | failed => exact Cluster.bare_untrack g.name t.cluster
  | relaxed =>
    split
    · exact Cluster.bare_untrack g.name t.cluster
    · rfl

/-- A relocation that is refused leaves the cluster as it was, unless the replica is lost. -/
theorem remains_of_refused {c c' : Cluster} {tp : TopicPartition} {s d : BrokerId} {f : Fault}
    (h : c.Refused tp s d f c') : Remains (.error f : Except Fault Unit) c c' := by
  cases h with
  | lost => exact .inl rfl
  | _ => exact .inr rfl

/-- If tending brokers takes relocations of a kind, the moves of a round make a trail. It leads to
where the next round begins, if there is one. -/
theorem Rounded.exists_trail {step : Cluster → Move → Cluster → Prop} {x : Except Fault Unit}
    (h : Rounded guards options g t x g' t') (hfin : g.finished = false)
    (htakes : ∀ {y g₁ t₁}, TendedAll guards options
      ((g.brokersToBalance t.cluster).map Broker.id) g t y g₁ t₁ → Arrives (Takes step) t y t₁) :
    ∃ moves c, t'.moves = t.moves ++ moves ∧ Trail step t.cluster moves c ∧
      Remains x c t'.cluster ∧
      (x = .ok () → g'.finished = false → t'.cluster = c ∧ g'.evacuating = true ∧
        g'.name = g.name ∧ ReflTransGen (Takes step) t t') := by
  cases h with
  | tended htended hclosed =>
    have hsteps : ReflTransGen (Takes step) _ _ := htakes htended
    obtain ⟨moves, hmoves, htrail⟩ := exists_trail_of_takes hsteps
    refine ⟨moves, _, hclosed.moves_eq.trans hmoves, htrail, hclosed.remains, ?_⟩
    rintro rfl hfin'
    rcases hclosed.of_ok (htended.alike.finished.trans hfin) with ⟨hfin'', -⟩ | ⟨-, -, hev, rfl⟩
    · rw [hfin'] at hfin''
      cases hfin''
    · exact ⟨rfl, hev, hclosed.name_eq.trans htended.alike.name, hsteps⟩
  | failed htended =>
    obtain ⟨t₁, hsteps, hend⟩ := htakes htended
    obtain ⟨moves, hmoves, htrail⟩ := exists_trail_of_takes hsteps
    rcases hend with rfl | ⟨hsame, tp, s, d, hrefused⟩
    · exact ⟨moves, _, hmoves, htrail, .inr rfl, nofun⟩
    · exact ⟨moves, _, hsame.trans hmoves, htrail, remains_of_refused hrefused, nofun⟩

/-! ## The pursuit -/

/-- What is written until the limits are given up, and what is written from then on. The moves of
both lead from one cluster to another, by steps of one kind at first and of another then. -/
structure Itinerary (early late : Cluster → Move → Cluster → Prop) (c : Cluster)
    (first second : Journal) (c' : Cluster) : Prop where
  regarded : ∀ e ∈ first, e.isRelaxed = false
  relaxed : ∀ e, second[0]? = some e → e.isRelaxed = true
  trails : ∃ c₁, Trail early c first.moves c₁ ∧ Trail late c₁ second.moves c'

/-- If all steps are of one kind, they make one trail. -/
theorem Itinerary.trail {step : Cluster → Move → Cluster → Prop} {c c' : Cluster}
    {first second : Journal} (h : Itinerary step step c first second c') :
    Trail step c (Journal.moves (first ++ second)) c' := by
  obtain ⟨c₁, hearly, hlate⟩ := h.trails
  rw [Journal.moves_append]
  exact hearly.append hlate

/-- What is written from one plan to another has an itinerary, which leads to where the latter ends.
-/
def Travels (g : DistributionGoal) (options : Options)
    (early late : Cluster → Move → Cluster → Prop) (p : Plan) (x : Except Fault Bool) (p' : Plan) :
    Prop :=
  ∃ first second c, p'.journal = p.journal ++ first ++ second ∧
    Itinerary early late (p.cluster.track g.name (criteria options)) first second c ∧
    Remains x c p'.cluster

theorem Travels.exists_trail {step : Cluster → Move → Cluster → Prop} {x : Except Fault Bool}
    (h : Travels g options step step p x p') :
    ∃ events c, p'.journal = p.journal ++ events ∧
      Trail step (p.cluster.track g.name (criteria options)) events.moves c ∧
      Remains x c p'.cluster := by
  obtain ⟨first, second, c, hj, hitinerary, hremains⟩ := h
  exact ⟨first ++ second, c, hj.trans Array.append_assoc, hitinerary.trail, hremains⟩

/-- What writes down no move and leaves the cluster as it was goes nowhere. -/
theorem Travels.of_stage_eq {early late : Cluster → Move → Cluster → Prop} {x : Except Fault Bool}
    (hstage : p'.stage = p.stage) (hext : p.journal.Extends (·.isRelaxed = false) p'.journal) :
    Travels g options early late p x p' := by
  obtain ⟨first, hj, hfirst⟩ := hext
  have hmoves : p'.journal.moves = p.journal.moves := congrArg Stage.moves hstage
  have hcluster : p'.cluster = p.cluster := congrArg Stage.cluster hstage
  rw [hj, Journal.moves_append, List.append_right_eq_self] at hmoves
  refine ⟨first, #[], p.cluster.track g.name (criteria options),
    hj.trans Array.append_empty.symm, ⟨hfirst, by simp, _, ?_, .nil⟩, .inr ?_⟩
  · rw [hmoves]
    exact .nil
  · rw [hcluster, Cluster.bare_track]

section

variable {x : Except Fault Bool} (h : Account guards options g p x g' p')
  (early late : Cluster → Move → Cluster → Prop)

include h

/-- If tending brokers takes relocations of one kind in the first round, and of another in the
second one, these are what a pursuit writes. -/
theorem Account.travels
    (hearly : ∀ {limits y g₁ t₁}, Limits.of p.cluster.size p.cluster.aliveBrokers.length
      g.constraint.percentage = .ok limits →
      TendedAll guards options (({ g.renewed with limits }.brokersToBalance
        (g.tracked options p.stage).cluster).map Broker.id) { g.renewed with limits }
        (g.tracked options p.stage) y g₁ t₁ →
      Arrives (Takes early) (g.tracked options p.stage) y t₁)
    (hlate : ∀ {g₁ g₂ t₁ t₂ y}, g₁.evacuating = true → g₁.name = g.name →
      ReflTransGen (Takes early) (g.tracked options p.stage) t₁ →
      TendedAll guards options ((g₁.brokersToBalance t₁.cluster).map Broker.id) g₁ t₁ y g₂ t₂ →
      Arrives (Takes late) t₁ y t₂) :
    Travels g options early late p x p' := by
  have hremains : ∀ {x : Except Fault Unit} {satisfied : Bool} {c c' : Cluster}, Remains x c c' →
      Remains (x.map fun _ ↦ satisfied) c c' := fun h ↦ h.imp_left fun h ↦ by
    rw [h]
    rfl
  cases h with
  | noAliveBroker _ hstage hext => exact .of_stage_eq hstage hext
  | unlimited _ _ hstage hext => exact .of_stage_eq hstage hext
  | once _ hlimits hround _ hext =>
    obtain ⟨first, hj, hfirst⟩ := hext
    obtain ⟨moves, c, hmoves, htrail, hend, -⟩ := hround.exists_trail rfl (hearly hlimits)
    rw [Plan.moves_stage, hj, Journal.moves_append] at hmoves
    obtain rfl := List.append_cancel_left hmoves
    exact ⟨first, #[], c, hj.trans Array.append_empty.symm, ⟨hfirst, by simp, c, htrail, .nil⟩,
      hremains hend⟩
  | @twice p₁ _ _ _ _ _ _ hlimits hround hfin hclosed hround' hext =>
    obtain ⟨moves, c, hmoves, htrail, -, hnext⟩ := hround.exists_trail rfl (hearly hlimits)
    obtain ⟨rfl, hev, hname, hsteps⟩ := hnext rfl hfin
    obtain ⟨moves', c', hmoves', htrail', hend, -⟩ :=
      hround'.exists_trail hfin (hlate hev hname hsteps)
    obtain ⟨j, ⟨first, rfl, hfirst⟩, e, he, hj⟩ := hclosed
    obtain ⟨second, hj', -⟩ := hext
    -- The event that gives up the limits is no move, so each part has the moves of its round.
    rw [Plan.moves_stage, hj, Journal.moves_push _ (Event.ne_moved_of_isRelaxed he),
      Journal.moves_append] at hmoves
    obtain rfl := List.append_cancel_left hmoves
    rw [Plan.moves_stage, hj', Journal.moves_append] at hmoves'
    obtain rfl := List.append_cancel_left hmoves'
    refine ⟨first, #[e] ++ second, c', ?_, ⟨hfirst, ?_, p₁.cluster, htrail, ?_⟩, hremains hend⟩
    · rw [hj', hj, Array.push_eq_append, Array.append_assoc]
    · intro e' he'
      have heq : e = e' := by simpa using he'
      exact heq ▸ he
    · rwa [Journal.moves_relaxed_append he]

section

variable (ht : p.cluster.Sound) (hdisk : ∀ r ∈ p.cluster.replicas, r.load.of .disk ≠ .nan)
  (hlate : ∀ {g₁ t t' m}, g₁.evacuating = true → t.cluster.states = p.cluster.states →
    Advances g₁ guards options t t' → t'.moves = t.moves ++ [m] → late t.cluster m t'.cluster)

include ht hdisk hlate

/-- What is true of all steps of the second round is true of the moves that a pursuit writes once
the limits are given up. -/
theorem Account.travels_of_takes
    (hearly : ∀ {limits y g₁ t₁}, Limits.of p.cluster.size p.cluster.aliveBrokers.length
      g.constraint.percentage = .ok limits →
      TendedAll guards options (({ g.renewed with limits }.brokersToBalance
        (g.tracked options p.stage).cluster).map Broker.id) { g.renewed with limits }
        (g.tracked options p.stage) y g₁ t₁ →
      Arrives (Takes early) (g.tracked options p.stage) y t₁) :
    Travels g options early late p x p' := by
  have htracked := ht.track g.name (criteria options)
  refine h.travels early late hearly fun hev hname hsteps htended ↦ ?_
  obtain ⟨hsound, hstates, hf'⟩ :=
    keeps_of_takes (fun h hm hf ↦ hf.moved h hm) hsteps htracked
      (faithful_tracked ht hdisk g options)
  refine htended.takes hsound (hname.symm ▸ hf')
    (fun _ id ↦ (mem_brokersToBalance_iff hsound hev).1) fun hsame ↦ ?_
  exact hlate hev ((hsame.trans hstates).trans (Cluster.states_track ..))

/-- And what is true of all steps of the first one is true of those that it writes before. -/
theorem Account.travels_of_advances
    (hearly : ∀ {limits t t' m}, Limits.of p.cluster.size p.cluster.aliveBrokers.length
      g.constraint.percentage = .ok limits → t.cluster.states = p.cluster.states →
      Advances { g.renewed with limits } guards options t t' → t'.moves = t.moves ++ [m] →
      early t.cluster m t'.cluster) :
    Travels g options early late p x p' := by
  refine h.travels_of_takes early late ht hdisk hlate fun hlimits htended ↦ ?_
  refine htended.takes (ht.track g.name (criteria options)) (faithful_tracked ht hdisk g options)
    (fun hev ↦ absurd hev Bool.false_ne_true) fun hsame ↦ ?_
  exact hearly hlimits (hsame.trans (Cluster.states_track ..))

end

end

/-! ## Whatever the views show -/

section

variable (step : Cluster → Move → Cluster → Prop)
  (hstep : ∀ {g : DistributionGoal} {t t' : Stage} {candidates : List BrokerId} {i : ReplicaId}
    {r : Replica} {d : BrokerId}, t.cluster.Sound → g.Moves guards options t candidates i r d t' →
    step t.cluster (.replica r.partition r.broker d) t'.cluster)

include hstep

/-- Passes take relocations of which is true what is true of every move. -/
theorem Law.takes (g : DistributionGoal) (t₀ : Stage) :
    g.Law guards options (fun t ↦ t.cluster.Sound ∧ ReflTransGen (Takes step) t₀ t)
      (Halts (Takes step) t₀) where
  moves ht hmoves :=
    ⟨hmoves.relocated.sound ht.1, ht.2.tail (hmoves.takes ht.1 (hstep ht.1 hmoves))⟩
  fails {t t' candidates i f} ht hfails := by
    have harrives : Arrives (Takes step) t₀ (.error f : Except Fault Unit) t' :=
      .trans ht.2 (.of_fails hfails)
    exact harrives
  offers ht _ := ⟨_, ht.2, .inl rfl⟩
  views ht _ _ := ⟨_, ht.2, .inl rfl⟩

/-- So do pursuits, whatever they come to. -/
theorem Account.exists_trail_of_moves {x : Except Fault Bool}
    (h : Account guards options g p x g' p') (ht : p.cluster.Sound) :
    ∃ events c, p'.journal = p.journal ++ events ∧
      Trail step (p.cluster.track g.name (criteria options)) events.moves c ∧
      Remains x c p'.cluster := by
  have hround : ∀ {g₁ g₂ : DistributionGoal} {t t' : Stage} {y : Except Fault Unit},
      t.cluster.Sound → TendedAll guards options ((g₁.brokersToBalance t.cluster).map Broker.id) g₁
        t y g₂ t' → Arrives (Takes step) t y t' := by
    intro g₁ g₂ t t' y hsound htended
    have hleaves := (Law.takes step hstep g₁ t).tendedAll (fun _ h ↦ h.1) htended
      mem_brokersToBalance ⟨hsound, .refl⟩
    cases y with
    | ok _ => exact hleaves.2
    | error f => exact hleaves
  have htracked := ht.track g.name (criteria options)
  refine (h.travels step step (fun _ htended ↦ hround htracked htended)
    fun _ _ hsteps htended ↦ hround ?_ htended).exists_trail
  exact (keeps_of_takes (P := fun _ ↦ True) (fun _ _ ↦ id) hsteps htracked trivial).1

end

end DistributionGoal

end Rebalance
