import Rebalance.Proofs.Distribution.Tending
import Rebalance.Proofs.Distribution.Underway

/-!
# Givers that are taken in turn

Filling takes the fullest giver off a queue and draws from it until it falls behind the next one.
Then it goes back into the queue under its new count; one that has nothing more to give does not.
Counts in the queue stay right, as nothing but the giver that was taken and the broker that is
filled changes. The queue may grow again, but each time it does one replica less is wanted, so
filling comes to an end.
-/

namespace Rebalance.DistributionGoal

open Relation (ReflTransGen)

variable {g : DistributionGoal} {guards : List Guard} {options : Options} {id giver : BrokerId}
  {b : Broker} {entry : Fullness} {queue : List Fullness} {i : ReplicaId} {r : Replica}
  {wanted : Nat} {replicas rest : List ReplicaId} {p p' : Plan} {t t' : Stage}

/-! ## Junctures of a pass -/

/-- A replica that need not stay is offered to a broker, and what comes of it. -/
structure Tries (g : DistributionGoal) (guards : List Guard) (options : Options) (id : BrokerId)
    (i : ReplicaId) (p : Plan) (x : EStateM.Result Fault Plan (Option BrokerId)) : Prop where
  free : (p.cluster.replica? i).any (p.cluster.mustStay options.excludedTopics) = false
  result : attempt g.demand guards options .replicaMovement i [id] p = x

/-- Where filling has come to: how many replicas are wanted, the giver that was taken from the queue
with what it has still to offer, if there is one, the queue and the plan. -/
structure Juncture where
  wanted : Nat
  giver : Option (BrokerId × List ReplicaId)
  queue : List Fullness
  plan : Plan

namespace Juncture

/-- Where filling a broker starts: with all givers in the queue. -/
def start (g : DistributionGoal) (p : Plan) (b : Broker) : Juncture :=
  ⟨(g.bottom b - b.count).toNat, none, g.givers p.cluster, p⟩

/-- Filling goes on: a giver is taken from the queue, or a replica of it is tried. If that moves and
more are wanted, the giver may have been overtaken by the next one, and is queued again. When all
its replicas were tried, it is given up. -/
inductive Next (g : DistributionGoal) (guards : List Guard) (options : Options) (id : BrokerId) :
    Juncture → Juncture → Prop where
  | taken {wanted : Nat} {entry : Fullness} {queue : List Fullness} {replicas : List ReplicaId}
    {p : Plan} : g.offers p.cluster entry.broker = .ok replicas →
    Next g guards options id ⟨wanted, none, entry :: queue, p⟩
      ⟨wanted, some (entry.broker, replicas), queue, p⟩
  | stayed {wanted : Nat} {giver : BrokerId} {i : ReplicaId} {rest : List ReplicaId}
    {queue : List Fullness} {p : Plan} :
    (p.cluster.replica? i).any (p.cluster.mustStay options.excludedTopics) = true →
    Next g guards options id ⟨wanted, some (giver, i :: rest), queue, p⟩
      ⟨wanted, some (giver, rest), queue, p⟩
  | declined {wanted : Nat} {giver : BrokerId} {i : ReplicaId} {rest : List ReplicaId}
    {queue : List Fullness} {p p' : Plan} : g.Tries guards options id i p (.ok none p') →
    Next g guards options id ⟨wanted, some (giver, i :: rest), queue, p⟩
      ⟨wanted, some (giver, rest), queue, p'⟩
  | moved {wanted : Nat} {giver : BrokerId} {i : ReplicaId} {rest : List ReplicaId}
    {queue : List Fullness} {p p' : Plan} {d : BrokerId} :
    g.Tries guards options id i p (.ok (some d) p') → 1 < wanted →
    queue.head?.any (p'.cluster.count giver < ·.count) = false →
    Next g guards options id ⟨wanted, some (giver, i :: rest), queue, p⟩
      ⟨wanted - 1, some (giver, rest), queue, p'⟩
  | overtaken {wanted : Nat} {giver : BrokerId} {i : ReplicaId} {rest : List ReplicaId}
    {queue : List Fullness} {p p' : Plan} {d : BrokerId} :
    g.Tries guards options id i p (.ok (some d) p') → 1 < wanted →
    queue.head?.any (p'.cluster.count giver < ·.count) = true →
    Next g guards options id ⟨wanted, some (giver, i :: rest), queue, p⟩
      ⟨wanted - 1, none, enqueue ⟨p'.cluster.count giver, giver⟩ queue, p'⟩
  | exhausted {wanted : Nat} {giver : BrokerId} {queue : List Fullness} {p : Plan} :
    Next g guards options id ⟨wanted, some (giver, []), queue, p⟩ ⟨wanted, none, queue, p⟩

/-- Filling ends at a juncture: no giver is left, one cannot be offered from, the last replica that
was wanted moves, or offering one fails. -/
inductive Last (g : DistributionGoal) (guards : List Guard) (options : Options) (id : BrokerId) :
    Juncture → Except Fault Bool → Plan → Prop where
  | spent {wanted : Nat} {p : Plan} : Last g guards options id ⟨wanted, none, [], p⟩ (.ok true) p
  | unoffered {wanted : Nat} {entry : Fullness} {queue : List Fullness} {p : Plan} {f : Fault} :
    g.offers p.cluster entry.broker = .error f →
    Last g guards options id ⟨wanted, none, entry :: queue, p⟩ (.error f) p
  | filled {wanted : Nat} {giver : BrokerId} {i : ReplicaId} {rest : List ReplicaId}
    {queue : List Fullness} {p p' : Plan} {d : BrokerId} :
    g.Tries guards options id i p (.ok (some d) p') → wanted ≤ 1 →
    Last g guards options id ⟨wanted, some (giver, i :: rest), queue, p⟩ (.ok false) p'
  | failed {wanted : Nat} {giver : BrokerId} {i : ReplicaId} {rest : List ReplicaId}
    {queue : List Fullness} {p p' : Plan} {f : Fault} :
    g.Tries guards options id i p (.error f p') →
    Last g guards options id ⟨wanted, some (giver, i :: rest), queue, p⟩ (.error f) p'

/-- Filling goes on from a juncture or ends there. -/
theorem goes_on (g : DistributionGoal) (guards : List Guard) (options : Options) (id : BrokerId)
    (a : Juncture) :
    (∃ a', Next g guards options id a a') ∨ ∃ x p', Last g guards options id a x p' := by
  obtain ⟨wanted, _ | ⟨giver, _ | ⟨i, rest⟩⟩, queue, p⟩ := a
  · cases queue with
    | nil => exact .inr ⟨_, _, .spent⟩
    | cons entry queue =>
      cases hoffers : g.offers p.cluster entry.broker with
      | error f => exact .inr ⟨_, _, .unoffered hoffers⟩
      | ok replicas => exact .inl ⟨_, .taken hoffers⟩
  · exact .inl ⟨_, .exhausted⟩
  · cases hstay : (p.cluster.replica? i).any (p.cluster.mustStay options.excludedTopics) with
    | true => exact .inl ⟨_, .stayed hstay⟩
    | false =>
      cases hattempt : attempt g.demand guards options .replicaMovement i [id] p with
      | error f p' => exact .inr ⟨_, _, .failed ⟨hstay, hattempt⟩⟩
      | ok destination p' =>
        cases destination with
        | none => exact .inl ⟨_, .declined ⟨hstay, hattempt⟩⟩
        | some d =>
          by_cases hle : wanted ≤ 1
          · exact .inr ⟨_, _, .filled ⟨hstay, hattempt⟩ hle⟩
          · cases hhead : queue.head?.any (p'.cluster.count giver < ·.count) with
            | true => exact .inl ⟨_, .overtaken ⟨hstay, hattempt⟩ (Nat.not_le.1 hle) hhead⟩
            | false => exact .inl ⟨_, .moved ⟨hstay, hattempt⟩ (Nat.not_le.1 hle) hhead⟩

/-! ## Filling comes to an end -/

/-- What is wanted and queued, and then what the giver has still to offer. -/
def size (a : Juncture) : Nat × Nat :=
  (a.wanted + a.queue.length, a.giver.elim 0 (·.2.length + 1))

theorem Next.size_lt {a a' : Juncture} (h : Next g guards options id a a') :
    Prod.Lex (· < ·) (· < ·) a'.size a.size := by
  cases h with
  | taken => exact .left _ _ (Nat.lt_succ_self _)
  | stayed => exact .right _ (Nat.lt_succ_self _)
  | declined => exact .right _ (Nat.lt_succ_self _)
  | moved _ hlt _ =>
    refine .left _ _ ?_
    dsimp only
    omega
  | @overtaken wanted giver _ rest queue _ p' _ _ hlt _ =>
    -- What the queue gains, one replica less is wanted.
    have hsame : wanted - 1 + (enqueue ⟨p'.cluster.count giver, giver⟩ queue).length =
        wanted + queue.length := by
      rw [length_enqueue]
      omega
    rw [size, size, hsame]
    exact .right _ (Nat.succ_pos _)
  | exhausted => exact .right _ (Nat.succ_pos _)

theorem wellFounded_next (g : DistributionGoal) (guards : List Guard) (options : Options)
    (id : BrokerId) : WellFounded fun a' a ↦ Next g guards options id a a' :=
  Subrelation.wf Next.size_lt (InvImage.wf size (Prod.lex Nat.lt_wfRel Nat.lt_wfRel).wf)

/-! ## What is left to do -/

/-- What is left to do when drawing from a giver has ended. -/
def afterDraw (g : DistributionGoal) (guards : List Guard) (options : Options) (id giver : BrokerId)
    (queue : List Fullness) {wanted : Nat} : Draw wanted → Planning Bool
  | .filled => return false
  | .overtaken left _ => do
    let c ← Planning.cluster
    g.fillFrom guards options id left (enqueue ⟨c.count giver, giver⟩ queue)
  | .exhausted left _ => g.fillFrom guards options id left queue

theorem afterDraw_widen {wanted wanted' : Nat} (h : wanted ≤ wanted') (draw : Draw wanted) :
    afterDraw g guards options id giver queue (draw.widen h) =
      afterDraw g guards options id giver queue draw := by
  cases draw <;> rfl

/-- What is left to do at a juncture. -/
def remainder (g : DistributionGoal) (guards : List Guard) (options : Options) (id : BrokerId)
    (a : Juncture) : Planning Bool :=
  match a.giver with
  | none => g.fillFrom guards options id a.wanted a.queue
  | some (giver, replicas) => do
    let draw ← g.drawFrom guards options id giver a.queue a.wanted replicas
    afterDraw g guards options id giver a.queue draw

theorem fillFrom_cons (g : DistributionGoal) (guards : List Guard) (options : Options)
    (id : BrokerId) (wanted : Nat) (entry : Fullness) (queue : List Fullness) :
    g.fillFrom guards options id wanted (entry :: queue) = (do
      let c ← Planning.cluster
      let offers ← g.offers c entry.broker
      let draw ← g.drawFrom guards options id entry.broker queue wanted offers
      afterDraw g guards options id entry.broker queue draw) := by
  rw [fillFrom]
  refine bind_congr fun c ↦ bind_congr fun offers ↦ bind_congr fun draw ↦ ?_
  cases draw <;> rfl

/-! How drawing goes on depends on what comes of the replica that is tried. -/

theorem drawFrom_of_stays
    (h : (p.cluster.replica? i).any (p.cluster.mustStay options.excludedTopics) = true) :
    g.drawFrom guards options id giver queue wanted (i :: rest) p =
      g.drawFrom guards options id giver queue wanted rest p := by
  rw [drawFrom, bind_of_ok (Planning.cluster_apply p), if_pos h]

theorem drawFrom_of_failed {f : Fault} (h : g.Tries guards options id i p (.error f p')) :
    g.drawFrom guards options id giver queue wanted (i :: rest) p = .error f p' := by
  rw [drawFrom, bind_of_ok (Planning.cluster_apply p), if_neg (by simp [h.free]),
    bind_of_error h.result]

theorem drawFrom_of_declined (h : g.Tries guards options id i p (.ok none p')) :
    g.drawFrom guards options id giver queue wanted (i :: rest) p =
      g.drawFrom guards options id giver queue wanted rest p' := by
  rw [drawFrom, bind_of_ok (Planning.cluster_apply p), if_neg (by simp [h.free]),
    bind_of_ok h.result]

section

variable {d : BrokerId} (h : g.Tries guards options id i p (.ok (some d) p'))

include h

theorem drawFrom_of_filled (hle : wanted ≤ 1) :
    g.drawFrom guards options id giver queue wanted (i :: rest) p = .ok .filled p' := by
  rw [drawFrom, bind_of_ok (Planning.cluster_apply p), if_neg (by simp [h.free]),
    bind_of_ok h.result]
  dsimp only
  rw [dif_pos hle]
  rfl

theorem drawFrom_of_overtaken (hlt : 1 < wanted)
    (hhead : queue.head?.any (p'.cluster.count giver < ·.count) = true) :
    g.drawFrom guards options id giver queue wanted (i :: rest) p =
      .ok (.overtaken (wanted - 1) (by omega)) p' := by
  rw [drawFrom, bind_of_ok (Planning.cluster_apply p), if_neg (by simp [h.free]),
    bind_of_ok h.result]
  dsimp only
  rw [dif_neg (Nat.not_le.2 hlt), bind_of_ok (Planning.cluster_apply p'), if_pos hhead]
  rfl

theorem drawFrom_of_moved (hlt : 1 < wanted)
    (hhead : queue.head?.any (p'.cluster.count giver < ·.count) = false) :
    g.drawFrom guards options id giver queue wanted (i :: rest) p = (do
      let draw ← g.drawFrom guards options id giver queue (wanted - 1) rest
      return draw.widen (Nat.sub_le wanted 1) : Planning (Draw wanted)) p' := by
  rw [drawFrom, bind_of_ok (Planning.cluster_apply p), if_neg (by simp [h.free]),
    bind_of_ok h.result]
  dsimp only
  rw [dif_neg (Nat.not_le.2 hlt), bind_of_ok (Planning.cluster_apply p'), if_neg (by simp [hhead])]

end

/-- What is left to do is what is left to do at the next juncture. -/
theorem Next.remainder_eq {a a' : Juncture} (h : Next g guards options id a a') :
    a.remainder g guards options id a.plan = a'.remainder g guards options id a'.plan := by
  cases h with
  | taken hoffers =>
    dsimp only [remainder]
    rw [fillFrom_cons, bind_of_ok (Planning.cluster_apply _), bind_of_lift hoffers]
  | stayed hstay => exact bind_of_eq (drawFrom_of_stays hstay)
  | declined htries => exact bind_of_eq (drawFrom_of_declined htries)
  | moved htries hlt hhead =>
    refine (bind_of_eq (drawFrom_of_moved htries hlt hhead)).trans ?_
    simp only [bind_assoc, pure_bind, afterDraw_widen]
    rfl
  | overtaken htries hlt hhead =>
    refine (bind_of_ok (drawFrom_of_overtaken htries hlt hhead)).trans ?_
    exact bind_of_ok (Planning.cluster_apply _)
  | exhausted =>
    dsimp only [remainder]
    rw [drawFrom, pure_bind]
    rfl

/-- Where filling ends, what is left to do comes to how it ends. -/
theorem Last.ends {a : Juncture} {x : Except Fault Bool} (h : Last g guards options id a x p') :
    Ends (a.remainder g guards options id) a.plan (fun few s ↦ .ok few = x ∧ s = p')
      fun f s ↦ .error f = x ∧ s = p' := by
  cases h with
  | spent =>
    dsimp only [remainder]
    rw [fillFrom]
    exact .pure ⟨rfl, rfl⟩
  | unoffered hoffers =>
    dsimp only [remainder]
    rw [fillFrom_cons]
    refine .bind (Planning.ends_cluster (.bind (.except (fun replicas hok ↦ ?_) fun f hf ↦ ?_)))
    · rw [hoffers] at hok
      cases hok
    · rw [hoffers] at hf
      cases hf
      exact ⟨rfl, rfl⟩
  | filled htries hle =>
    rw [Ends]
    dsimp only [remainder]
    rw [bind_of_ok (drawFrom_of_filled htries hle)]
    exact ⟨rfl, rfl⟩
  | failed htries =>
    rw [Ends]
    dsimp only [remainder]
    rw [bind_of_error (drawFrom_of_failed htries)]
    exact ⟨rfl, rfl⟩

/-- What is left to do at a juncture comes to an end at another one. -/
theorem ends_remainder (g : DistributionGoal) (guards : List Guard) (options : Options)
    (id : BrokerId) (a : Juncture) :
    Ends (a.remainder g guards options id) a.plan
      (fun few p' ↦ ∃ a', ReflTransGen (Next g guards options id) a a' ∧
        Last g guards options id a' (.ok few) p')
      fun f p' ↦ ∃ a', ReflTransGen (Next g guards options id) a a' ∧
        Last g guards options id a' (.error f) p' := by
  induction a using (wellFounded_next g guards options id).induction with
  | h a ih =>
    rcases goes_on g guards options id a with ⟨a', hnext⟩ | ⟨x, p', hlast⟩
    · have hrest := ih a' hnext
      rw [Ends, ← hnext.remainder_eq, ← Ends] at hrest
      refine hrest.mono ?_ ?_
      · rintro few p' ⟨a'', hreach, hlast⟩
        exact ⟨a'', .head hnext hreach, hlast⟩
      · rintro f p' ⟨a'', hreach, hlast⟩
        exact ⟨a'', .head hnext hreach, hlast⟩
    · refine hlast.ends.mono ?_ ?_
      · rintro few _ ⟨rfl, rfl⟩
        exact ⟨a, .refl, hlast⟩
      · rintro f _ ⟨rfl, rfl⟩
        exact ⟨a, .refl, hlast⟩

end Juncture

/-! ## What holds at a juncture -/

/-- After a replica of a giver has moved to the broker, one replica less is wanted. -/
theorem Filling.moved (h : g.Filling options id wanted queue t)
    (hd : g.Drawing options id giver wanted (i :: rest) t)
    (hmoves : g.Moves guards options t [id] i r id t') (hlt : 1 < wanted) :
    g.Filling options id (wanted - 1) queue t' := by
  obtain ⟨hsound, hfaithful⟩ :=
    faithful_of_fills (.single (hd.fills hmoves)) h.sound h.faithful
  have hcount := hmoves.count_destination h.sound
  have hshort := h.short
  refine ⟨hsound, hfaithful, by omega, by omega, fun e he ↦ ?_⟩
  rw [Cluster.alive_congr hmoves.relocated.states_eq]
  exact h.queued e he

namespace Juncture

/-- At a juncture the queue stands in order, with the present counts of other brokers that are
alive. If a giver was taken, what it has still to offer is on it, and no broker in the queue holds
more. -/
structure Kept (g : DistributionGoal) (options : Options) (id : BrokerId) (a : Juncture) :
    Prop where
  filling : g.Filling options id a.wanted a.queue a.plan.stage
  ordered : FullestFirst a.queue
  current : ∀ e ∈ a.queue, e.count = a.plan.cluster.count e.broker
  drawing : ∀ giver replicas, a.giver = some (giver, replicas) →
    g.Drawing options id giver a.wanted replicas a.plan.stage ∧
      ∀ e ∈ a.queue, e.broker ≠ giver ∧ e.count ≤ a.plan.cluster.count giver

namespace Kept

theorem start (h : p.cluster.Sound) (hf : p.cluster.Faithful g.name (criteria options))
    (hb : p.cluster.broker? b.id = some b) (hfew : g.TooFew b) :
    Kept g options b.id (.start g p b) where
  filling := filling_of_tooFew (t := p.stage) h hf hb hfew
  ordered := fullestFirst_givers h g
  current _ he := ((mem_givers h).1 he).1
  drawing _ _ hnone := by cases hnone

section

variable (h : Kept g options id ⟨wanted, some (giver, i :: rest), queue, p⟩)

include h

/-- What moves comes from the giver to the broker. -/
theorem moves {d : BrokerId} (htries : g.Tries guards options id i p (.ok (some d) p')) :
    d = id ∧ ∃ r, p.cluster.replica? i = some r ∧ r.broker = giver ∧
      g.Moves guards options p.stage [id] i r id p'.stage := by
  obtain ⟨hd, -⟩ := h.drawing giver _ rfl
  obtain ⟨r, hmoves⟩ := exists_moves_of_attempt h.filling.sound htries.free htries.result
  obtain rfl := List.mem_singleton.1 hmoves.mem
  exact ⟨rfl, r, hmoves.replica, (hd.pending.on_source hd.sound hmoves).1, hmoves⟩

/-- It leaves the counts in the queue right. -/
theorem current_of_moves (hr : r.broker = giver)
    (hmoves : g.Moves guards options p.stage [id] i r id p'.stage) :
    ∀ e ∈ queue, e.count = p'.cluster.count e.broker := by
  intro e he
  obtain ⟨-, hqueue⟩ := h.drawing giver _ rfl
  have hother := hmoves.count_other h.filling.sound (h.filling.queued e he).2
    (hr.symm ▸ (hqueue e he).1)
  exact (h.current e he).trans hother.symm

/-- So does what fails. -/
theorem current_of_failed {f : Fault} (htries : g.Tries guards options id i p (.error f p')) :
    ∀ e ∈ queue, e.count = p'.cluster.count e.broker := by
  intro e he
  obtain ⟨hd, hqueue⟩ := h.drawing giver _ rfl
  obtain ⟨r, hr, -, hbreaks⟩ :=
    (fails_of_attempt h.filling.sound htries.free htries.result).breaks
  obtain ⟨r', hon, -⟩ := hd.pending.here i List.mem_cons_self
  obtain rfl := hon.eq_of_replica? hr
  refine (h.current e he).trans ?_
  generalize hp' : p'.stage = t' at hbreaks
  have hcluster : p'.cluster = t'.cluster := congrArg Stage.cluster hp'
  rw [hcluster]
  cases hbreaks with
  | judging => rfl
  | moving _ _ _ hrefused =>
    refine (hrefused.count_eq ?_).symm
    rw [hd.sound.broker_of_on hon]
    exact (hqueue e he).1

end

end Kept

/-- What holds at a juncture holds at the next one. -/
theorem Next.kept {a a' : Juncture} (h : Next g guards options id a a') (ha : Kept g options id a) :
    Kept g options id a' := by
  cases h with
  | @taken wanted entry queue replicas p hoffers =>
    obtain ⟨hfirst, hordered⟩ := List.pairwise_cons.1 ha.ordered
    obtain ⟨hcurrent, hcurrent'⟩ := List.forall_mem_cons.1 ha.current
    refine ⟨{ ha.filling with queued := (List.forall_mem_cons.1 ha.filling.queued).2 }, hordered,
      hcurrent', ?_⟩
    rintro _ _ ⟨⟩
    refine ⟨(ha.filling.drawing hoffers).1, fun e he ↦ ?_⟩
    have hfuller := hfirst e he
    refine ⟨fun heq ↦ ?_, hcurrent ▸ Fullness.count_le_of_isFuller hfuller⟩
    -- The queue has a broker but once, since it comes under its present count.
    have hsame := hcurrent' e he
    rw [Fullness.isFuller_iff] at hfuller
    dsimp only at hsame hcurrent
    rw [heq] at hsame hfuller
    omega
  | stayed =>
    obtain ⟨hd, hqueue⟩ := ha.drawing _ _ rfl
    refine ⟨ha.filling, ha.ordered, ha.current, ?_⟩
    rintro _ _ ⟨⟩
    exact ⟨hd.tail, hqueue⟩
  | @declined wanted giver i rest queue p p' htries =>
    have hstage := stage_eq_of_attempt ha.filling.sound htries.result
    have hcluster : p'.cluster = p.cluster := congrArg Stage.cluster hstage
    obtain ⟨hd, hqueue⟩ := ha.drawing _ _ rfl
    refine ⟨hstage ▸ ha.filling, ha.ordered, hcluster ▸ ha.current, ?_⟩
    rintro _ _ ⟨⟩
    exact ⟨hstage ▸ hd.tail, hcluster ▸ hqueue⟩
  | moved htries hlt hhead =>
    obtain ⟨hd, hqueue⟩ := ha.drawing _ _ rfl
    obtain ⟨rfl, r, -, hr, hmoves⟩ := ha.moves htries
    have hcurrent := ha.current_of_moves hr hmoves
    refine ⟨ha.filling.moved hd hmoves hlt, ha.ordered, hcurrent, ?_⟩
    rintro _ _ ⟨⟩
    exact ⟨hd.next hmoves hlt, fun e he ↦
      ⟨(hqueue e he).1, ha.ordered.count_le_of_head? hhead he⟩⟩
  | overtaken htries hlt hhead =>
    obtain ⟨hd, hqueue⟩ := ha.drawing _ _ rfl
    obtain ⟨rfl, r, -, hr, hmoves⟩ := ha.moves htries
    have hfilling := ha.filling.moved hd hmoves hlt
    refine ⟨{ hfilling with queued := fun e he ↦ ?_ },
      ha.ordered.enqueue fun e he ↦ (hqueue e he).1, fun e he ↦ ?_, fun _ _ hnone ↦ by cases hnone⟩
    · rcases mem_enqueue.1 he with rfl | he
      · exact ⟨(Cluster.alive_congr hmoves.relocated.states_eq).2 hd.alive, hd.ne⟩
      · exact hfilling.queued e he
    · rcases mem_enqueue.1 he with rfl | he
      · rfl
      · exact ha.current_of_moves hr hmoves e he
  | exhausted => exact ⟨ha.filling, ha.ordered, ha.current, fun _ _ hnone ↦ by cases hnone⟩

/-- What holds at a juncture holds at every one that filling comes to from there, and what was left
to do is what is left to do. -/
theorem Kept.reached {a a' : Juncture} (h : ReflTransGen (Next g guards options id) a a')
    (ha : Kept g options id a) :
    Kept g options id a' ∧
      a.remainder g guards options id a.plan = a'.remainder g guards options id a'.plan := by
  induction h with
  | refl => exact ⟨ha, rfl⟩
  | tail _ hlast ih => exact ⟨hlast.kept ih.1, ih.2.trans hlast.remainder_eq⟩

/-- At a juncture, so many replicas are wanted as the broker is short of the lower limit. The queue
stands in order, each broker under its present count, and keeps that until the next juncture. A
replica that moves goes to the broker, from a giver that holds no fewer than any in the queue. -/
structure Ranked (g : DistributionGoal) (guards : List Guard) (options : Options) (id : BrokerId)
    (a : Juncture) : Prop where
  short : (a.plan.cluster.count id : Int) + a.wanted = g.limits.lower
  ordered : FullestFirst a.queue
  current : ∀ e ∈ a.queue, e.count = a.plan.cluster.count e.broker
  ended : ∀ x p', Last g guards options id a x p' →
    ∀ e ∈ a.queue, e.count = p'.cluster.count e.broker
  fullest : ∀ giver i rest d p', a.giver = some (giver, i :: rest) →
    g.Tries guards options id i a.plan (.ok (some d) p') →
      d = id ∧ (∃ r, a.plan.cluster.replica? i = some r ∧ r.broker = giver) ∧
        ∀ e ∈ a.queue, a.plan.cluster.count e.broker ≤ a.plan.cluster.count giver

theorem Kept.ranked {a : Juncture} (ha : Kept g options id a) : Ranked g guards options id a where
  short := ha.filling.short
  ordered := ha.ordered
  current := ha.current
  ended x p' hlast := by
    cases hlast with
    | spent => exact ha.current
    | unoffered => exact ha.current
    | filled htries =>
      obtain ⟨rfl, r, -, hr, hmoves⟩ := ha.moves htries
      exact ha.current_of_moves hr hmoves
    | failed htries => exact ha.current_of_failed htries
  fullest giver i rest d p' hgiver htries := by
    obtain ⟨wanted, giver', queue, p⟩ := a
    obtain rfl : giver' = _ := hgiver
    obtain ⟨hd, r, hr, hbroker, -⟩ := ha.moves htries
    refine ⟨hd, ⟨r, hr, hbroker⟩, fun e he ↦ ?_⟩
    rw [← ha.current e he]
    exact ((ha.drawing giver _ rfl).2 e he).2

end Juncture

theorem fill_eq (hb : p.cluster.broker? id = some b) :
    g.fill guards options id p = (Juncture.start g p b).remainder g guards options id p := by
  rw [fill, bind_of_ok (Planning.cluster_apply p)]
  exact bind_of_lift (Cluster.broker_eq_ok_iff.2 hb)

/-- Inside a run, filling a broker that holds too few replicas comes to an end. At each of its
junctures the queue has every broker under its present count, and what moves comes from a giver
that holds no fewer than any in the queue. -/
theorem fill_from_fullest (hrun : Underway guards options g p.cluster)
    (hdisk : ∀ r ∈ p.cluster.replicas, r.load.of .disk ≠ .nan)
    (hb : p.cluster.broker? id = some b) (hfew : g.TooFew b) :
    Acc (fun a' a ↦ Juncture.Next g guards options id a a') (.start g p b) ∧
      Ends (g.fill guards options id) p
        (fun few p' ↦ ∃ a, ReflTransGen (Juncture.Next g guards options id) (.start g p b) a ∧
          Juncture.Last g guards options id a (.ok few) p')
        (fun f p' ↦ ∃ a, ReflTransGen (Juncture.Next g guards options id) (.start g p b) a ∧
          Juncture.Last g guards options id a (.error f) p') ∧
      ∀ a, ReflTransGen (Juncture.Next g guards options id) (.start g p b) a →
        g.fill guards options id p = a.remainder g guards options id a.plan ∧
        Juncture.Ranked g guards options id a ∧
        ((∃ a', Juncture.Next g guards options id a a') ∨
          ∃ x p', Juncture.Last g guards options id a x p') := by
  obtain rfl := Cluster.id_of_broker? hb
  have hkept : Juncture.Kept g options b.id (.start g p b) :=
    .start hrun.sound (hrun.faithful hdisk) hb hfew
  refine ⟨(Juncture.wellFounded_next g guards options b.id).apply _, ?_, fun a hreached ↦ ?_⟩
  · rw [Ends, fill_eq hb, ← Ends]
    exact Juncture.ends_remainder g guards options b.id _
  · obtain ⟨ha, heq⟩ := hkept.reached hreached
    exact ⟨(fill_eq hb).trans heq, ha.ranked, a.goes_on g guards options b.id⟩

/-- Two brokers with more replicas than a third one needs, which is empty. -/
def abundant : List Operation :=
  [.addBroker 0 none .alive, .addBroker 1 none .alive, .addBroker 2 none .alive,
    .place ⟨"a", 0⟩ 0 true {}, .place ⟨"b", 0⟩ 0 true {}, .place ⟨"c", 0⟩ 0 true {},
    .place ⟨"d", 0⟩ 0 true {}, .place ⟨"e", 0⟩ 1 true {}, .place ⟨"f", 0⟩ 1 true {},
    .place ⟨"g", 0⟩ 1 true {}, .place ⟨"h", 0⟩ 1 true {}]

/-- The first one gives a replica and is then overtaken by the second, which gives the other. -/
theorem fill_from_fullest_abundant :
    (started {} {} abundant).1.limits.lower = 2 ∧
    Ends ((started {} {} abundant).1.fill [] {} 2) (started {} {} abundant).2
      (fun few p' ↦ few = false ∧
        p'.journal.moves = [.replica ⟨"a", 0⟩ 0 2, .replica ⟨"e", 0⟩ 1 2] ∧
        ∃ a, Juncture.Ranked (started {} {} abundant).1 [] {} 2 a ∧
          Juncture.Last (started {} {} abundant).1 [] {} 2 a (.ok false) p')
      fun _ _ ↦ False := by
  have hrun := Underway.of_started [] {} abundant (by decide +kernel : Ends (prepare {})
    (_, { cluster := .after abundant }) (fun _ _ ↦ True) fun _ _ ↦ False)
  obtain ⟨s, hs⟩ : ∃ s, s = started {} {} abundant := ⟨_, rfl⟩
  rw [← hs] at hrun ⊢
  have hdisk : ∀ r ∈ s.2.cluster.replicas, r.load.of .disk ≠ .nan := by
    rw [hs]
    decide +kernel
  have hlower : s.1.limits.lower = 2 := by
    rw [hs]
    decide +kernel
  have hb : s.2.cluster.broker? 2 = some ((s.2.cluster.broker? 2).getD default) := by
    rw [hs]
    decide +kernel
  have hfew : s.1.TooFew ((s.2.cluster.broker? 2).getD default) := by
    rw [hs]
    decide +kernel
  have hfill : Ends (s.1.fill [] {} 2) s.2 (fun few p' ↦ few = false ∧
      p'.journal.moves = [.replica ⟨"a", 0⟩ 0 2, .replica ⟨"e", 0⟩ 1 2]) fun _ _ ↦ False := by
    rw [hs]
    decide +kernel
  obtain ⟨-, hends, hjunctures⟩ := fill_from_fullest hrun hdisk hb hfew
  refine ⟨hlower, (hfill.and hends).mono ?_ ?_⟩
  · rintro _ p' ⟨⟨rfl, hmoves⟩, a, hreached, hlast⟩
    exact ⟨rfl, hmoves, a, (hjunctures a hreached).2.1, hlast⟩
  · rintro _ _ ⟨hnone, -⟩
    exact hnone

end Rebalance.DistributionGoal
