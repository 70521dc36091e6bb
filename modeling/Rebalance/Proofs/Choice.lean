import Rebalance.Proofs.Distribution.Demand
import Rebalance.Proofs.Refusal

/-!
# The choice of a destination

An attempt is on one replica, which moves, or passes on the leadership of its partition. The first
candidate that qualifies as the destination is chosen, and that one move is all that changes; if
none qualifies, nothing changes. Once a candidate qualifies the move cannot be refused, and the
replica that moves is the one that was tested.
-/

namespace Rebalance

open Attempt (Picks)

/-- An action of the kind is on one replica: it moves there, or its leadership does. -/
def ActionKind.IsSingle (kind : ActionKind) : Prop :=
  kind = .replicaMovement ∨ kind = .leadershipMovement

/-- A broker qualifies as the destination of an action on a replica. A replica moves to where the
options allow it and its partition is not; a leadership passes from a replica that leads to another
copy. -/
structure Qualifies (demand : Demand) (guards : List Guard) (options : Options) (c : Cluster)
    (r : Replica) (kind : ActionKind) (d : BrokerId) : Prop where
  ne : d ≠ r.broker
  alive : c.Alive d
  vacant : kind = .replicaMovement → d ∉ options.excludedBrokers ∧ ¬ c.Hosts d r.partition
  led : kind = .leadershipMovement → r.leads = true ∧ c.Hosts d r.partition
  demanded : demand (r.action kind d) c = .ok true
  accepted : ∀ γ ∈ guards, γ.judge (r.action kind d) c = .ok .accept

/-- The demand and every guard have an answer to an action. -/
structure Answers (demand : Demand) (guards : List Guard) (c : Cluster) (a : Action) : Prop where
  demand : ∃ x, demand a c = .ok x
  guards : ∀ γ ∈ guards, ∃ v, γ.judge a c = .ok v

/-- An action of a kind is carried out on a replica: it, or its leadership, goes to a destination,
and that is the one change. -/
inductive Carried (t : Stage) (i : ReplicaId) (r : Replica) (d : BrokerId) (t' : Stage) :
    ActionKind → Prop where
  | moved : Cluster.relocate r.partition r.broker d t.cluster = .ok () t'.cluster →
    t.cluster.Relocated r.partition r.broker d i r t'.cluster →
    t'.moves = t.moves ++ [.replica r.partition r.broker d] → Carried t i r d t' .replicaMovement
  | passed {j : ReplicaId} {r' : Replica} :
    Cluster.passLeadership r.partition r.broker d t.cluster = .ok true t'.cluster →
    t.cluster.On d j r' → r'.partition = r.partition →
    t'.cluster = (t.cluster.setLeads i false).setLeads j true →
    t'.moves = t.moves ++ [.leadership r.partition r.broker d] →
    Carried t i r d t' .leadershipMovement

variable {measured : Resource → Prop} {c : Cluster} {demand : Demand} {guards : List Guard}
  {options : Options} {kind : ActionKind} {i : ReplicaId} {r : Replica} {d : BrokerId} {p : Plan}

/-! ## Who qualifies -/

/-- Where an action is legal, told by who has copies of the partition. -/
theorem Cluster.Sound.isLegalFor_iff {b : Broker} (h : c.Sound) (hb : c.broker? d = some b)
    (hkind : kind.IsSingle) : b.isLegalFor kind r = true ↔ b.isAlive = true ∧
      (kind = .replicaMovement → ¬ c.Hosts d r.partition) ∧
      (kind = .leadershipMovement → r.leads = true ∧ c.Hosts d r.partition) := by
  rw [← h.hosts_iff_of_broker? hb]
  obtain rfl | rfl := hkind
  · simp [Broker.isLegalFor]
  · simp [Broker.isLegalFor, and_left_comm, and_assoc]

/-- The filters that a candidate goes through are one after another what it takes to qualify. -/
theorem qualifies_iff (h : c.Sound) (hkind : kind.IsSingle) :
    (d ≠ r.broker ∧ options.allows kind d = true) ∧ Grants demand guards c r (r.action kind d) ↔
      Qualifies demand guards options c r kind d := by
  rw [Options.allows_iff]
  constructor
  · rintro ⟨⟨hne, hallowed⟩, ⟨b, hb, hlegal⟩, hdemanded, haccepted⟩
    obtain ⟨halive, hvacant, hled⟩ := (h.isLegalFor_iff hb hkind).1 hlegal
    exact ⟨hne, ⟨b, hb, halive⟩, fun hmove ↦ ⟨hallowed hmove, hvacant hmove⟩, hled, hdemanded,
      haccepted⟩
  · rintro ⟨hne, ⟨b, hb, halive⟩, hvacant, hled, hdemanded, haccepted⟩
    refine ⟨⟨hne, fun hmove ↦ (hvacant hmove).1⟩, ⟨b, hb, ?_⟩, hdemanded, haccepted⟩
    exact (h.isLegalFor_iff hb hkind).2 ⟨halive, fun hmove ↦ (hvacant hmove).2, hled⟩

/-- Where there are answers, judging a known candidate cannot go wrong. -/
theorem Attempt.ends_isAdmitted_of_answers (hkind : kind.IsSingle) (hd : p.cluster.Known d)
    (h : Answers demand guards p.cluster (r.action kind d)) :
    Ends (isAdmitted demand guards r (r.action kind d)) p
      (fun x p' ↦ p'.stage = p.stage ∧
        (x = true ↔ Grants demand guards p.cluster r (r.action kind d)))
      fun _ _ ↦ False := by
  have hname : (r.action kind d).text? ≠ none := by
    obtain rfl | rfl := hkind <;> exact nofun
  refine (ends_isAdmitted hname p r).mono (fun _ _ ↦ id) ?_
  rintro f p' ⟨-, ⟨hnone, -⟩ | hdemand | ⟨γ, hγ, hguard⟩⟩
  · exact Cluster.not_known_iff.2 hnone hd
  · obtain ⟨x, hx⟩ := h.demand
    cases hx.symm.trans hdemand
  · obtain ⟨v, hv⟩ := h.guards γ hγ
    cases hv.symm.trans hguard

/-! ## What is carried out -/

/-- The leadership of a replica that leads passes to any other copy. -/
theorem Cluster.Sound.exists_passed (h : c.Sound) (hon : c.On r.broker i r)
    (hleads : r.leads = true) (hhosts : c.Hosts d r.partition) :
    ∃ j r', c.On d j r' ∧ r'.partition = r.partition ∧
      passLeadership r.partition r.broker d c =
        .ok true ((c.setLeads i false).setLeads j true) := by
  have hleader : c.LeadsFrom r.broker r.partition := ⟨i, r, hon, rfl, hleads⟩
  have hends := h.ends_passLeadership r.partition r.broker d
  cases hrun : passLeadership r.partition r.broker d c with
  | error f c' =>
    obtain ⟨hmissing | ⟨-, hmissing⟩, -⟩ := hends.of_error hrun
    · exact absurd hleader.hosts (hmissing.not_hosts h)
    · exact absurd hhosts (hmissing.not_hosts h)
  | ok passed c' =>
    obtain ⟨-, ⟨-, hfollows⟩, -⟩ | ⟨rfl, -, i', r₁, j, hi, -, -, hj, rfl⟩ := hends.of_ok hrun
    · exact absurd hleader hfollows
    · obtain ⟨r₁, hon₁, hpartition⟩ := h.on_of_hostedAt hi
      obtain rfl := h.on_unique hon hon₁ hpartition.symm
      obtain ⟨r', hon', hpartition'⟩ := h.on_of_hostedAt hj
      exact ⟨j, r', hon', hpartition', rfl⟩

/-- What a destination grants is carried out on the replica that was tested. -/
theorem Attempt.ends_carryOut (h : p.cluster.Stable measured) (hr : p.cluster.replica? i = some r)
    (hkind : kind.IsSingle) (hgrants : Grants demand guards p.cluster r (r.action kind d)) :
    Ends (carryOut (r.action kind d)) p (fun _ p' ↦ Carried p.stage i r d p'.stage kind)
      fun _ _ ↦ False := by
  have hon := h.complete i r hr
  obtain ⟨b, hb, hlegal⟩ := hgrants.legal
  obtain ⟨-, hvacant, hled⟩ := (h.isLegalFor_iff hb hkind).1 hlegal
  obtain rfl | rfl := hkind
  · have hm : p.cluster.Movable i r d :=
      { on := hon
        vacant := ⟨b, hb, by rw [← Bool.not_eq_true, h.hosts_iff_of_broker? hb]; exact hvacant rfl⟩
        found := fun b' hb' ↦ (h.orderly b' (Cluster.mem_of_broker? hb')).found r.partition }
    have hrun := Cluster.relocate_of_movable h.toSound hm
    refine .bind (Planning.ends_change (.of_result hrun (Planning.ends_record ?_)))
    exact .moved hrun (hm.relocated h.toSound) (p.journal.moves_push_moved _)
  · obtain ⟨hleads, hhosts⟩ := hled rfl
    obtain ⟨j, r', hon', hpartition, hrun⟩ := h.exists_passed hon hleads hhosts
    refine .bind (.bind (Planning.ends_change (.of_result hrun ?_)))
    refine .bind (Planning.ends_record (.pure (.pure ?_)))
    exact .passed hrun hon' hpartition rfl (p.journal.moves_push_moved _)

/-! ## The choice -/

/-- The distribution goal, while it is pursued, has answers, as have guards that such goals keep. -/
theorem DistributionGoal.answers (g : DistributionGoal) (hkind : kind.IsSingle)
    (hs : c.Known r.broker) (hd : c.Known d)
    (hguards : ∀ γ ∈ guards, ∃ g' : DistributionGoal, γ = g'.guard) :
    Answers g.demand guards c (r.action kind d) := by
  obtain ⟨b, hb⟩ := hs
  obtain ⟨b', hb'⟩ := hd
  have hjudge : ∀ g' : DistributionGoal, ∃ v, g'.judge (r.action kind d) c = .ok v := by
    intro g'
    obtain rfl | rfl := hkind
    · exact ⟨_, judge_move hb hb'⟩
    · exact ⟨.accept, rfl⟩
  constructor
  · obtain rfl | rfl := hkind
    · cases hdemand : g.demand (r.move d) c with
      | ok x => exact ⟨x, hdemand⟩
      | error f => exact absurd hdemand (demand_move_ne_error hb hb' f)
    · unfold demand
      rw [if_neg nofun]
      exact ⟨true, rfl⟩
  · intro γ hγ
    obtain ⟨g', rfl⟩ := hguards γ hγ
    exact hjudge g'

/-- In every cluster that comes about by operations whose loads and views are measured, for every
replica and all known candidates, to whose actions the demand and the guards have answers. An
attempt on the replica, be it to move it or its leadership, chooses the first candidate that
qualifies, and what it changes is that this one action is carried out; it chooses none exactly if
none qualifies, and then changes nothing. With an action of another kind it fails and changes
nothing. -/
theorem first_qualified_chosen (hp : p.cluster.Reachable measured)
    (hr : p.cluster.replica? i = some r) (options : Options) (kind : ActionKind)
    {candidates : List BrokerId} (hknown : ∀ d ∈ candidates, p.cluster.Known d)
    (hanswers : kind.IsSingle →
      ∀ d ∈ candidates, Answers demand guards p.cluster (r.action kind d)) :
    (kind.IsSingle → ∃ x p', attempt demand guards options kind i candidates p = .ok x p' ∧
      Picks (Qualifies demand guards options p.cluster r kind)
        (fun d t' ↦ Carried p.stage i r d t' kind) p.stage candidates x p'.stage) ∧
    (¬ kind.IsSingle →
      attempt demand guards options kind i candidates p = .error (.unsupportedAction kind) p) := by
  have h := hp.stable
  constructor
  · intro hkind
    have hqualifies : ∀ d, _ ↔ Qualifies demand guards options p.cluster r kind d :=
      fun d ↦ qualifies_iff h.toSound hkind
    refine ((ends_attempt_of (fun _ _ ↦ False) hkind hr ?_ ?_).mono
      (fun x p' hx ↦ hx.congr hqualifies) fun _ _ ↦ id).exists_ok
    · intro d hd p' hp'
      have hcluster : p'.cluster = p.cluster := congrArg Stage.cluster hp'
      have hmem := (List.mem_filter.1 hd).1
      rw [← hp', ← hcluster]
      exact Attempt.ends_isAdmitted_of_answers hkind (hcluster ▸ hknown d hmem)
        (hcluster ▸ hanswers hkind d hmem)
    · intro d hd hgrants p' hp'
      have hcluster : p'.cluster = p.cluster := congrArg Stage.cluster hp'
      rw [← hcluster] at h hr hgrants
      rw [← hp']
      exact Attempt.ends_carryOut h hr hkind hgrants
  · intro hkind
    unfold attempt
    rw [if_neg (by exact hkind)]
    rfl

/-- Two of three brokers share a partition, which is led from the first. -/
def Plan.sharing : Plan where
  cluster := .after Operation.sharing

/-- The goal that no broker has more than one replica. -/
def DistributionGoal.sparse : DistributionGoal where
  limits := { upper := 1 }

/-- An attempt on the first replica that the sparse goal demands and guards. -/
def attemptSparse (kind : ActionKind) (candidates : List BrokerId) : Planning (Option BrokerId) :=
  attempt DistributionGoal.sparse.demand [DistributionGoal.sparse.guard] {} kind 0 candidates

/-- The third broker can have the copy, and the second one the leadership. Among the first two there
is none to move the copy to, and a swap is no action on one replica. -/
theorem first_qualified_chosen_sharing :
    ∃ r, Plan.sharing.cluster.replica? 0 = some r ∧
      (∃ p', attemptSparse .replicaMovement [0, 1, 2] Plan.sharing = .ok (some 2) p' ∧
        Carried Plan.sharing.stage 0 r 2 p'.stage .replicaMovement) ∧
      (∃ p', attemptSparse .leadershipMovement [0, 1, 2] Plan.sharing = .ok (some 1) p' ∧
        Carried Plan.sharing.stage 0 r 1 p'.stage .leadershipMovement) ∧
      (∃ p', attemptSparse .replicaMovement [0, 1] Plan.sharing = .ok none p' ∧
        p'.stage = Plan.sharing.stage) ∧
      attemptSparse .replicaSwap [0, 1, 2] Plan.sharing =
        .error (.unsupportedAction .replicaSwap) Plan.sharing := by
  have hp : Plan.sharing.cluster.Reachable fun _ ↦ True := by
    refine ⟨Operation.sharing, ?_, rfl⟩
    simp [Operation.sharing, Operation.IsMeasured, Load.isNumeric_default]
  obtain ⟨r, hr, hbroker⟩ := (Option.any_eq_true _ _).1 (by decide +kernel :
    (Plan.sharing.cluster.replica? 0).any (·.broker = 0) = true)
  rw [decide_eq_true_eq] at hbroker
  have hknown : ∀ d ∈ [0, 1, 2], Plan.sharing.cluster.Known d := fun d hd ↦
    Option.isSome_iff_exists.1 ((by decide +kernel : ∀ d ∈ [0, 1, 2],
      (Plan.sharing.cluster.broker? d).isSome = true) d hd)
  have hanswers : ∀ kind : ActionKind, kind.IsSingle → ∀ d ∈ [0, 1, 2], Answers
      DistributionGoal.sparse.demand [DistributionGoal.sparse.guard] Plan.sharing.cluster
      (r.action kind d) := fun kind hkind d hd ↦
    DistributionGoal.sparse.answers hkind (hbroker ▸ hknown 0 (by decide)) (hknown d hd)
      (List.forall_mem_singleton.2 ⟨DistributionGoal.sparse, rfl⟩)
  have hchosen := fun (kind : ActionKind) (candidates : List BrokerId)
      (hsub : candidates ⊆ [0, 1, 2]) ↦ first_qualified_chosen hp hr {} kind
    (fun d hd ↦ hknown d (hsub hd)) fun hkind d hd ↦ hanswers kind hkind d (hsub hd)
  refine ⟨r, hr, ?_, ?_, ?_, ?_⟩
  · obtain ⟨x, p', hrun, hpicks⟩ := (hchosen .replicaMovement [0, 1, 2] (by simp)).1 (.inl rfl)
    obtain rfl := (by decide +kernel : Ends (attemptSparse .replicaMovement [0, 1, 2]) Plan.sharing
      (fun x _ ↦ x = some 2) fun _ _ ↦ False).of_ok hrun
    cases hpicks with
    | chosen _ _ _ hcarried => exact ⟨p', hrun, hcarried⟩
  · obtain ⟨x, p', hrun, hpicks⟩ := (hchosen .leadershipMovement [0, 1, 2] (by simp)).1 (.inr rfl)
    obtain rfl := (by decide +kernel : Ends (attemptSparse .leadershipMovement [0, 1, 2])
      Plan.sharing (fun x _ ↦ x = some 1) fun _ _ ↦ False).of_ok hrun
    cases hpicks with
    | chosen _ _ _ hcarried => exact ⟨p', hrun, hcarried⟩
  · obtain ⟨x, p', hrun, hpicks⟩ := (hchosen .replicaMovement [0, 1] (by simp)).1 (.inl rfl)
    obtain rfl := (by decide +kernel : Ends (attemptSparse .replicaMovement [0, 1]) Plan.sharing
      (fun x _ ↦ x = none) fun _ _ ↦ False).of_ok hrun
    generalize hstage : p'.stage = t' at hpicks
    cases hpicks with
    | declined => exact ⟨p', hrun, hstage⟩
  · exact (hchosen .replicaSwap [0, 1, 2] (by simp)).2 (by simp [ActionKind.IsSingle])

end Rebalance
