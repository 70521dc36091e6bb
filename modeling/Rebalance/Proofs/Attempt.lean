import Rebalance.Proofs.Cluster.Change
import Rebalance.Proofs.Journal

/-!
# Attempts to move a replica

An attempt moves its replica to the first candidate that is admissible, and moves nothing if none
is. Whatever a guard or the demand goes wrong with leaves the cluster as it is.
-/

namespace Rebalance

/-! ## Stages -/

/-- A cluster with the moves that led to it: what there is to a plan but for its other events. -/
structure Stage where
  cluster : Cluster
  moves : List Move

/-- The stage that a plan has come to. -/
def Plan.stage (p : Plan) : Stage := ⟨p.cluster, p.journal.moves⟩

@[simp] theorem Plan.moves_stage (p : Plan) : p.stage.moves = p.journal.moves := rfl

/-- Writing another event than a move into the journal leaves the stage as it is. -/
theorem Plan.stage_push (p : Plan) {e : Event} (h : ∀ m, e ≠ .moved m) :
    Plan.stage { p with journal := p.journal.push e } = p.stage :=
  congrArg (Stage.mk p.cluster) (p.journal.moves_push h)

/-- A replica moved to a destination, and that was the one change. -/
structure Relocated (t : Stage) (r : Replica) (d : BrokerId) (t' : Stage) : Prop where
  cluster : ∃ i r', r'.partition = r.partition ∧ r'.broker = r.broker ∧ t.cluster.Movable i r' d ∧
    t'.cluster = t.cluster.moved i r' d
  moves : t'.moves = t.moves ++ [.replica r.partition r.broker d]

namespace Relocated

variable {t t' : Stage} {i : ReplicaId} {r : Replica} {d : BrokerId}

/-- A replica that is on its broker is the one that moves. -/
theorem eq_moved (h : t.cluster.Sound) (hon : t.cluster.On r.broker i r)
    (hmoved : Relocated t r d t') :
    t.cluster.Movable i r d ∧ t'.cluster = t.cluster.moved i r d := by
  obtain ⟨j, r', hpart, hbroker, hm, hcluster⟩ := hmoved.cluster
  have hon' := hm.on
  rw [hbroker] at hon'
  obtain rfl := h.on_unique hon hon' hpart.symm
  obtain rfl := hon.eq_of_replica? hon'.replica?_eq
  exact ⟨hm, hcluster⟩

theorem sound (h : t.cluster.Sound) (hmoved : Relocated t r d t') : t'.cluster.Sound := by
  obtain ⟨i, r', -, -, hm, hcluster⟩ := hmoved.cluster
  rw [hcluster]
  exact h.moved hm

theorem states_eq (hmoved : Relocated t r d t') : t'.cluster.states = t.cluster.states := by
  obtain ⟨i, r', -, -, -, hcluster⟩ := hmoved.cluster
  rw [hcluster, Cluster.states_moved]

theorem count_eq (h : t.cluster.Sound) (hmoved : Relocated t r d t') (id : BrokerId) :
    (t'.cluster.count id : Int) =
      t.cluster.count id + (if id = d then 1 else 0) - (if id = r.broker then 1 else 0) := by
  obtain ⟨i, r', -, hbroker, hm, hcluster⟩ := hmoved.cluster
  rw [hcluster, Cluster.count_moved h hm, hbroker]

theorem source_ne (h : t.cluster.Sound) (hmoved : Relocated t r d t') : r.broker ≠ d := by
  obtain ⟨i, r', -, hbroker, hm, -⟩ := hmoved.cluster
  rw [← hbroker]
  exact hm.source_ne h

end Relocated

/-! ## Guards -/

/-- The guards accept an action together exactly when each does. -/
theorem Guard.ends_reviewFrom {a : Action} (ha : a.text? ≠ none) (guards : List Guard) (place : Nat)
    (p : Plan) :
    Ends (reviewFrom a place guards) p
      (fun v p' ↦ p'.stage = p.stage ∧
        (v = .accept ↔ ∀ γ ∈ guards, γ.judge a p.cluster = .ok .accept))
      fun f p' ↦ p'.stage = p.stage ∧ ∃ γ ∈ guards, γ.judge a p.cluster = .error f := by
  induction guards generalizing place p with
  | nil => exact .pure ⟨rfl, by simp⟩
  | cons γ rest ih =>
    have hstage := p.stage_push (e := .consulted place) fun m ↦ by simp
    unfold reviewFrom
    refine .bind (Planning.ends_record (.bind (Planning.ends_cluster (.bind (.except ?_ ?_)))))
    · intro v hv
      change γ.judge a p.cluster = .ok v at hv
      have hrefuse : v ≠ .accept → ¬ ∀ γ' ∈ γ :: rest, γ'.judge a p.cluster = .ok .accept := by
        intro hne hall
        rw [hall γ List.mem_cons_self, Except.ok.injEq] at hv
        exact hne hv.symm
      cases v with
      | accept =>
        refine (ih (place + 1) _).mono ?_ ?_
        · rintro v p' ⟨hp', hiff⟩
          refine ⟨hp'.trans hstage, hiff.trans ?_⟩
          rw [List.forall_mem_cons]
          exact ⟨fun h ↦ ⟨hv, h⟩, And.right⟩
        · rintro f p' ⟨hp', γ', hγ', hf⟩
          exact ⟨hp'.trans hstage, γ', List.mem_cons_of_mem _ hγ', hf⟩
      | _ =>
        obtain ⟨text, htext⟩ := Option.ne_none_iff_exists'.1 ha
        simp only [htext]
        refine .bind (Planning.ends_record (.pure ⟨?_, fun h ↦ ?_, fun h ↦ ?_⟩))
        · exact (Plan.stage_push _ fun m ↦ by simp).trans hstage
        · cases h
        · exact absurd h (hrefuse (by decide))
    · intro f hf
      exact ⟨hstage, γ, List.mem_cons_self, hf⟩

/-! ## Destinations -/

/-- The options restrict only where replicas move. -/
theorem Options.allows_iff {options : Options} {kind : ActionKind} {d : BrokerId} :
    options.allows kind d = true ↔ (kind = .replicaMovement → d ∉ options.excludedBrokers) := by
  rw [Options.allows, Bool.or_eq_true, decide_eq_true_eq, Bool.not_eq_true', ← Bool.not_eq_true,
    List.contains_iff_mem, imp_iff_not_or]

/-- The action of a kind that leads a replica, or its leadership, to a destination. -/
def Replica.action (r : Replica) (kind : ActionKind) (d : BrokerId) : Action where
  partition := r.partition
  source := r.broker
  destination := d
  kind := kind

/-- The action that moves a replica. -/
def Replica.move (r : Replica) (d : BrokerId) : Action where
  partition := r.partition
  source := r.broker
  destination := d
  kind := .replicaMovement

/-- The destination of an action on a replica grants it: it is legal there, the demand is met and
every guard accepts. -/
structure Grants (demand : Demand) (guards : List Guard) (c : Cluster) (r : Replica) (a : Action) :
    Prop where
  legal : ∃ b, c.broker? a.destination = some b ∧ b.isLegalFor a.kind r = true
  demanded : demand a c = .ok true
  accepted : ∀ γ ∈ guards, γ.judge a c = .ok .accept

/-- A destination admits a replica: it may legally receive it, the demand is met and every guard
accepts. -/
structure Admits (demand : Demand) (guards : List Guard) (c : Cluster) (r : Replica)
    (d : BrokerId) : Prop where
  legal : ∃ b, c.broker? d = some b ∧ b.isAlive = true ∧ b.hosts r.partition = false
  demanded : demand (r.move d) c = .ok true
  accepted : ∀ γ ∈ guards, γ.judge (r.move d) c = .ok .accept

/-- A replica may move to a destination: another one than its broker, allowed by the options, that
admits it. -/
structure Admissible (demand : Demand) (guards : List Guard) (options : Options) (c : Cluster)
    (r : Replica) (d : BrokerId) : Prop extends Admits demand guards c r d where
  ne : d ≠ r.broker
  allowed : options.allows .replicaMovement d = true

/-- What may go wrong when a destination is judged. -/
inductive Misjudged (demand : Demand) (guards : List Guard) (c : Cluster) (r : Replica)
    (d : BrokerId) : Fault → Prop where
  | unknown : c.broker? d = none → Misjudged demand guards c r d (.unknownBroker d)
  | demand {f : Fault} : demand (r.move d) c = .error f → Misjudged demand guards c r d f
  | guard {f : Fault} {γ : Guard} : γ ∈ guards → γ.judge (r.move d) c = .error f →
    Misjudged demand guards c r d f

namespace Attempt

variable {demand : Demand} {guards : List Guard} {options : Options} {p p' : Plan} {i : ReplicaId}
  {r : Replica} {d : BrokerId} {kind : ActionKind}

/-- Judging an action tells whether its destination grants it, unless what is asked goes wrong. -/
theorem ends_isAdmitted {a : Action} (ha : a.text? ≠ none) (p : Plan) (r : Replica) :
    Ends (isAdmitted demand guards r a) p
      (fun x p' ↦ p'.stage = p.stage ∧ (x = true ↔ Grants demand guards p.cluster r a))
      fun f p' ↦ p'.stage = p.stage ∧
        (p.cluster.broker? a.destination = none ∧ f = .unknownBroker a.destination ∨
          demand a p.cluster = .error f ∨ ∃ γ ∈ guards, γ.judge a p.cluster = .error f) := by
  unfold isAdmitted
  refine .bind (Planning.ends_cluster (.bind (.except ?_ ?_)))
  · intro b hb
    rw [Cluster.broker_eq_ok_iff] at hb
    split
    · rename_i hlegal
      refine .bind (.except ?_ ?_)
      · intro x hx
        cases x with
        | true =>
          rw [if_pos rfl]
          refine .bind ((Guard.ends_reviewFrom ha guards 0 p).mono ?_ ?_)
          · rintro v p' ⟨hp', hiff⟩
            refine .pure ⟨hp', ?_⟩
            rw [decide_eq_true_eq, hiff]
            exact ⟨fun h ↦ ⟨⟨b, hb, hlegal⟩, hx, h⟩, Grants.accepted⟩
          · rintro f p' ⟨hp', hguard⟩
            exact ⟨hp', .inr (.inr hguard)⟩
        | false =>
          rw [if_neg Bool.false_ne_true]
          refine .pure ⟨rfl, nofun, fun h ↦ ?_⟩
          rw [h.demanded] at hx
          cases hx
      · intro f hf
        exact ⟨rfl, .inr (.inl hf)⟩
    · rename_i hlegal
      refine .pure ⟨rfl, nofun, fun h ↦ absurd ?_ hlegal⟩
      obtain ⟨b', hb', hlegal'⟩ := h.legal
      rw [hb] at hb'
      rwa [Option.some.inj hb']
  · intro f hf
    exact ⟨rfl, .inl (Cluster.broker_eq_error_iff.1 hf)⟩

theorem grants_move_iff {c : Cluster} :
    Grants demand guards c r (r.move d) ↔ Admits demand guards c r d := by
  have hlegal : ∀ b : Broker, b.isLegalFor .replicaMovement r = true ↔
      b.isAlive = true ∧ b.hosts r.partition = false := by
    intro b
    rw [Broker.isLegalFor, if_pos rfl, Bool.and_eq_true, Bool.not_eq_true']
  constructor
  · rintro ⟨⟨b, hb, h⟩, hdemanded, haccepted⟩
    exact ⟨⟨b, hb, (hlegal b).1 h⟩, hdemanded, haccepted⟩
  · rintro ⟨⟨b, hb, h⟩, hdemanded, haccepted⟩
    exact ⟨⟨b, hb, (hlegal b).2 h⟩, hdemanded, haccepted⟩

/-- A relocation that is planned moves a replica, or is refused. -/
theorem ends_relocate (h : p.cluster.Sound) (r : Replica) (d : BrokerId) :
    Ends (Planning.relocate r.partition r.broker d) p (fun _ p' ↦ Relocated p.stage r d p'.stage)
      fun f p' ↦ p'.stage.moves = p.stage.moves ∧
        p.cluster.Refused r.partition r.broker d f p'.stage.cluster := by
  unfold Planning.relocate
  refine .bind (Planning.ends_change ((Cluster.ends_relocate h _ _ d).mono ?_ ?_))
  · rintro - c' ⟨i, r', hp, hs, hm, rfl⟩
    exact Planning.ends_record ⟨⟨i, r', hp, hs, hm, rfl⟩, p.journal.moves_push_moved _⟩
  · intro f c' hf
    exact ⟨rfl, hf⟩

/-- What trying one candidate after another comes to: the first that is admitted is chosen and
something done with it, or none is admitted and nothing happens. -/
inductive Picks (admitted : BrokerId → Prop) (done : BrokerId → Stage → Prop) (t : Stage)
    (candidates : List BrokerId) : Option BrokerId → Stage → Prop where
  | declined : (∀ d ∈ candidates, ¬ admitted d) → Picks admitted done t candidates none t
  | chosen {t' : Stage} {front back : List BrokerId} {d : BrokerId} :
    candidates = front ++ d :: back → (∀ e ∈ front, ¬ admitted e) → admitted d → done d t' →
    Picks admitted done t candidates (some d) t'

/-- What an attempt comes to: the first candidate that is admitted gets the replica, or none is
admitted and nothing happens. -/
def Settles (admitted : BrokerId → Prop) (t : Stage) (r : Replica) (candidates : List BrokerId) :
    Option BrokerId → Stage → Prop :=
  Picks admitted (Relocated t r) t candidates

/-- What an attempt may fail with: a candidate cannot be judged, or the move to one that is admitted
is refused. -/
inductive Breaks (demand : Demand) (guards : List Guard) (t : Stage) (r : Replica)
    (candidates : List BrokerId) (f : Fault) : Stage → Prop where
  | judging {d : BrokerId} : d ∈ candidates → Misjudged demand guards t.cluster r d f →
    Breaks demand guards t r candidates f t
  | moving {d : BrokerId} {t' : Stage} : d ∈ candidates → Admits demand guards t.cluster r d →
    t'.moves = t.moves → t.cluster.Refused r.partition r.broker d f t'.cluster →
    Breaks demand guards t r candidates f t'

variable {t t' : Stage} {candidates rest : List BrokerId} {admitted admitted' : BrokerId → Prop}
  {done : BrokerId → Stage → Prop} {failed : Fault → Stage → Prop} {x : Option BrokerId}

namespace Picks

theorem cons (hd : ¬ admitted d) (h : Picks admitted done t rest x t') :
    Picks admitted done t (d :: rest) x t' := by
  cases h with
  | declined hnone => exact .declined (List.forall_mem_cons.2 ⟨hd, hnone⟩)
  | @chosen _ front back e hsplit hfront he hdone =>
    have hcons : d :: rest = (d :: front) ++ e :: back := by rw [hsplit, List.cons_append]
    exact .chosen hcons (List.forall_mem_cons.2 ⟨hd, hfront⟩) he hdone

theorem congr (hadmitted : ∀ d, admitted d ↔ admitted' d)
    (h : Picks admitted done t candidates x t') : Picks admitted' done t candidates x t' := by
  rwa [← funext fun d ↦ propext (hadmitted d)]

/-- Candidates that are left out beforehand are not admitted. -/
theorem of_eligible (h : Picks admitted done t (eligible options kind r candidates) x t') :
    Picks (fun d ↦ (d ≠ r.broker ∧ options.allows kind d = true) ∧ admitted d) done t candidates
      x t' := by
  have heligible : ∀ {d}, (d ≠ r.broker ∧ options.allows kind d = true) ↔
      (decide (d ≠ r.broker) && options.allows kind d) = true := by simp
  cases h with
  | declined hnone =>
    exact .declined fun d hd hadm ↦
      hnone d (List.mem_filter.2 ⟨hd, heligible.1 hadm.1⟩) hadm.2
  | chosen hsplit hfront hadm hdone =>
    obtain ⟨front', back', hcand, hf, hb⟩ := List.filter_eq_append_iff.1 hsplit
    obtain ⟨skipped, back'', rfl, hskipped, hd, -⟩ := List.filter_eq_cons_iff.1 hb
    rw [← List.append_assoc] at hcand
    refine .chosen hcand ?_ ⟨heligible.2 hd, hadm⟩ hdone
    rintro e he ⟨helig, hadm'⟩
    rcases List.mem_append.1 he with he | he
    · refine hfront e ?_ hadm'
      rw [← hf]
      exact List.mem_filter.2 ⟨he, heligible.1 helig⟩
    · exact hskipped e he (heligible.1 helig)

end Picks

theorem mem_eligible : d ∈ eligible options .replicaMovement r candidates ↔
    d ∈ candidates ∧ d ≠ r.broker ∧ options.allows .replicaMovement d = true := by
  rw [eligible, List.mem_filter, Bool.and_eq_true, decide_eq_true_eq]

/-- As long as nothing happens, every candidate is judged on the same stage. So what each one is
judged, and what carrying out the action with it comes to, decides about all. -/
theorem ends_first
    (hjudge : ∀ d ∈ candidates, ∀ p : Plan, p.stage = t →
      Ends (isAdmitted demand guards r (r.action kind d)) p
        (fun x p' ↦ p'.stage = t ∧ (x = true ↔ admitted d)) fun f p' ↦ failed f p'.stage)
    (hcarry : ∀ d ∈ candidates, admitted d → ∀ p : Plan, p.stage = t →
      Ends (carryOut (r.action kind d)) p (fun _ p' ↦ done d p'.stage) fun f p' ↦ failed f p'.stage)
    (hp : p.stage = t) :
    Ends (first demand guards kind r candidates) p
      (fun x p' ↦ Picks admitted done t candidates x p'.stage) fun f p' ↦ failed f p'.stage := by
  induction candidates generalizing p with
  | nil =>
    subst hp
    exact .pure (.declined (by simp))
  | cons d rest ih =>
    rw [List.forall_mem_cons] at hjudge hcarry
    refine .bind ((hjudge.1 p hp).mono ?_ fun _ _ ↦ id)
    rintro x p' ⟨hp', hx⟩
    cases x with
    | true =>
      refine .bind ((hcarry.1 (hx.1 rfl) p' hp').mono ?_ fun _ _ ↦ id)
      exact fun _ p'' hdone ↦ .pure (.chosen (List.nil_append _).symm (by simp) (hx.1 rfl) hdone)
    | false =>
      have hd : ¬ admitted d := fun hadm ↦ Bool.false_ne_true (hx.2 hadm)
      exact (ih hjudge.2 hcarry.2 hp').mono (fun _ _ ↦ .cons hd) fun _ _ ↦ id

theorem Breaks.sound {f : Fault} (h : t.cluster.Sound)
    (hf : Breaks demand guards t r candidates f t') : t'.cluster.Sound := by
  cases hf with
  | judging => exact h
  | moving _ _ _ hf => exact h.of_refused hf

theorem Breaks.states_eq {f : Fault} (hf : Breaks demand guards t r candidates f t') :
    t'.cluster.states = t.cluster.states := by
  cases hf with
  | judging => rfl
  | moving _ _ _ hf => exact hf.states_eq

end Attempt

section

variable {demand : Demand} {guards : List Guard} {options : Options} {kind : ActionKind} {p : Plan}
  {i : ReplicaId} {r : Replica} {candidates : List BrokerId} {admitted : BrokerId → Prop}
  {done : BrokerId → Stage → Prop}

/-- An attempt picks among the candidates other than the broker of its replica that the options
allow. -/
theorem ends_attempt_of (failed : Fault → Stage → Prop)
    (hkind : kind = .replicaMovement ∨ kind = .leadershipMovement)
    (hr : p.cluster.replica? i = some r)
    (hjudge : ∀ d ∈ Attempt.eligible options kind r candidates, ∀ p' : Plan, p'.stage = p.stage →
      Ends (Attempt.isAdmitted demand guards r (r.action kind d)) p'
        (fun x p'' ↦ p''.stage = p.stage ∧ (x = true ↔ admitted d)) fun f p'' ↦ failed f p''.stage)
    (hcarry : ∀ d ∈ Attempt.eligible options kind r candidates, admitted d →
      ∀ p' : Plan, p'.stage = p.stage → Ends (Attempt.carryOut (r.action kind d)) p'
        (fun _ p'' ↦ done d p''.stage) fun f p'' ↦ failed f p''.stage) :
    Ends (attempt demand guards options kind i candidates) p
      (fun x p' ↦ Attempt.Picks (fun d ↦ (d ≠ r.broker ∧ options.allows kind d = true) ∧ admitted d)
        done p.stage candidates x p'.stage)
      fun f p' ↦ failed f p'.stage := by
  unfold attempt
  rw [if_pos hkind]
  refine .bind (Planning.ends_cluster ?_)
  rw [hr]
  exact (Attempt.ends_first hjudge hcarry rfl).mono (fun _ _ ↦ .of_eligible) fun _ _ ↦ id

/-- An attempt moves its replica to the first admissible candidate. -/
theorem ends_attempt (h : p.cluster.Sound) (hr : p.cluster.replica? i = some r)
    (candidates : List BrokerId) :
    Ends (attempt demand guards options .replicaMovement i candidates) p
      (fun x p' ↦ Attempt.Settles (Admissible demand guards options p.cluster r) p.stage r
        candidates x p'.stage)
      fun f p' ↦ Attempt.Breaks demand guards p.stage r
        (Attempt.eligible options .replicaMovement r candidates) f p'.stage := by
  have hadmissible : ∀ d, (d ≠ r.broker ∧ options.allows .replicaMovement d = true) ∧
      Admits demand guards p.cluster r d ↔ Admissible demand guards options p.cluster r d :=
    fun d ↦ ⟨fun ⟨⟨hne, hallowed⟩, hadm⟩ ↦ ⟨hadm, hne, hallowed⟩,
      fun hadm ↦ ⟨⟨hadm.ne, hadm.allowed⟩, hadm.toAdmits⟩⟩
  refine (ends_attempt_of _ (.inl rfl) hr ?_ ?_).mono
    (fun _ _ hx ↦ hx.congr hadmissible) fun _ _ ↦ id
  · intro d hd p' hp'
    have hcluster : p'.cluster = p.cluster := congrArg Stage.cluster hp'
    refine (Attempt.ends_isAdmitted (by exact nofun) p' r).mono ?_ ?_
    · rintro x p'' ⟨hp'', hx⟩
      rw [hcluster] at hx
      exact ⟨hp''.trans hp', hx.trans Attempt.grants_move_iff⟩
    · rintro f p'' ⟨hp'', hf⟩
      rw [hcluster] at hf
      rw [hp''.trans hp']
      refine .judging hd ?_
      obtain ⟨hnone, rfl⟩ | hdemand | ⟨γ, hγ, hguard⟩ := hf
      · exact .unknown hnone
      · exact .demand hdemand
      · exact .guard hγ hguard
  · intro d hd hadm p' hp'
    have hcluster : p'.cluster = p.cluster := congrArg Stage.cluster hp'
    refine (Attempt.ends_relocate (hcluster ▸ h) r d).mono ?_ ?_
    · intro _ p'' hmoved
      rwa [hp'] at hmoved
    · rintro f p'' ⟨hmoves, hf⟩
      rw [hp'] at hmoves
      rw [hcluster] at hf
      exact .moving hd hadm hmoves hf

end

/-- What is not a replica is not moved. -/
theorem ends_attempt_none {demand : Demand} {guards : List Guard} {options : Options} {p : Plan}
    {i : ReplicaId} (hr : p.cluster.replica? i = none) (candidates : List BrokerId) :
    Ends (attempt demand guards options .replicaMovement i candidates) p
      (fun x p' ↦ x = none ∧ p' = p) fun _ _ ↦ False := by
  unfold attempt
  rw [if_pos (.inl rfl)]
  refine .bind (Planning.ends_cluster ?_)
  rw [hr]
  exact .pure ⟨rfl, rfl⟩

end Rebalance
