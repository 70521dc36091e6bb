import Rebalance.Proofs.Distribution.Tending
import Rebalance.Proofs.Distribution.Underway

/-!
# Receivers that are sorted anew

Draining keeps its receivers in a set, each under the count that it had when it came in, and puts
only the destination of a move in order again. All the same, whenever a replica is tried the set is
what sorting the receivers anew would give. So draining goes as it would if it sorted them before
every replica, and whatever moves goes to the emptiest broker that admits it.
-/

namespace Rebalance.DistributionGoal

open Relation (ReflTransGen)

variable {g : DistributionGoal} {guards : List Guard} {options : Options} {c : Cluster}
  {s s' : BrokerSet} {i : ReplicaId} {r : Replica} {d id : BrokerId} {b : Broker} {enough : Int}
  {replicas rest : List ReplicaId} {p p' : Plan}

/-! ## Draining without a set -/

/-- The receivers, the emptiest first, and of equals the one of lowest number. -/
def emptiestFirst (g : DistributionGoal) (c : Cluster) : List Broker :=
  (g.receivers c).mergeSort fun a b ↦ ¬ b.fullness < a.fullness

/-- Tries the replicas of a broker in turn, and sorts the receivers before each of them. -/
def drainAnewFrom (g : DistributionGoal) (guards : List Guard) (options : Options) (id : BrokerId)
    (enough : Int) : List ReplicaId → Planning Bool
  | [] => do return 0 < (← Planning.cluster).count id
  | i :: rest => do
    let c ← Planning.cluster
    if (c.replica? i).any (c.mustStay options.excludedTopics) then
      drainAnewFrom g guards options id enough rest
    else
      let destination ← attempt g.demand guards options .replicaMovement i
        ((g.emptiestFirst c).map Broker.id)
      match destination with
      | none => drainAnewFrom g guards options id enough rest
      | some _ =>
        let c ← Planning.cluster
        if c.count id ≤ enough then return false
        else drainAnewFrom g guards options id enough rest

/-- Moves replicas off a broker until it is down to its ceiling, and sorts the receivers before each
replica. -/
def drainAnew (g : DistributionGoal) (guards : List Guard) (options : Options) (id : BrokerId) :
    Planning Bool := do
  let c ← Planning.cluster
  let b ← c.broker id
  let v ← b.view g.name
  g.drainAnewFrom guards options id (g.ceiling b) v.replicas

/-! ## The set is what is sorted -/

theorem perm_emptiestFirst (g : DistributionGoal) (c : Cluster) :
    (g.emptiestFirst c).Perm (g.receivers c) := List.mergeSort_perm ..

/-- Receivers that are sorted stand in strict order. -/
theorem pairwise_emptiestFirst (h : c.Sound) :
    (g.emptiestFirst c).Pairwise fun a b ↦ a.fullness < b.fullness := by
  have hsorted : (g.emptiestFirst c).Pairwise fun a b ↦ decide (¬ b.fullness < a.fullness) := by
    refine List.pairwise_mergeSort ?_ ?_ _
    · intro a b e hab hbe
      rw [decide_eq_true_eq] at *
      rcases Fullness.lt_or_eq_or_lt a.fullness b.fullness with hlt | heq | hgt
      · exact fun hea ↦ hbe (Fullness.lt_trans hea hlt)
      · exact heq ▸ hbe
      · exact absurd hgt hab
    · intro a b
      rw [Bool.or_eq_true, decide_eq_true_eq, decide_eq_true_eq]
      by_contra hno
      rw [not_or, not_not, not_not] at hno
      exact Fullness.lt_irrefl _ (Fullness.lt_trans hno.1 hno.2)
  have hdistinct : (g.emptiestFirst c).Pairwise fun a b ↦ a.id ≠ b.id :=
    List.pairwise_map.1 (((perm_emptiestFirst g c).map Broker.id).nodup_iff.2 (nodup_receivers h g))
  refine (hsorted.and hdistinct).imp fun {a b} ⟨hle, hne⟩ ↦ ?_
  rcases Fullness.lt_or_eq_or_lt a.fullness b.fullness with hlt | heq | hgt
  · exact hlt
  · exact absurd (congrArg Fullness.broker heq) hne
  · exact absurd hgt (of_decide_eq_true hle)

namespace Ready

/-- A set that is ready is what sorting the receivers gives, each under its present count. -/
theorem entries_eq (h : g.Ready c s) (hc : c.Sound) :
    s.entries = (g.emptiestFirst c).map fun b ↦ (b.fullness, b.id) := by
  refine Ranking.entries_eq_of_mem_iff h.ordered.ascending ?_ fun ⟨key, d⟩ ↦ ?_
  · rw [List.map_map, List.pairwise_map]
    exact pairwise_emptiestFirst hc
  · rw [h.mem_entries, ← (ofReceivers hc).mem_entries,
      (BrokerSet.ofBrokers_spec (nodup_receivers hc g)).2, List.mem_map]
    refine exists_congr fun b ↦ ?_
    rw [(perm_emptiestFirst g c).mem_iff, eq_comm (b := (key, d))]

theorem brokers_eq (h : g.Ready c s) (hc : c.Sound) :
    s.brokers = (g.emptiestFirst c).map Broker.id := by
  rw [BrokerSet.brokers, Ranking.items, h.entries_eq hc, List.map_map]
  rfl

/-- The brokers of a set stand in the order of their present counts. -/
theorem pairwise_brokers (h : g.Ready c s) :
    s.brokers.Pairwise fun d e ↦ (⟨c.count d, d⟩ : Fullness) < ⟨c.count e, e⟩ := by
  rw [BrokerSet.brokers, Ranking.items, List.pairwise_map]
  refine (List.pairwise_map.1 h.ordered.ascending).imp_of_mem ?_
  rintro ⟨key, d⟩ ⟨key', e⟩ hd he hlt
  obtain ⟨rfl, -⟩ := (h.mem_entries key d).1 hd
  obtain ⟨rfl, -⟩ := (h.mem_entries key' e).1 he
  exact hlt

end Ready

/-- While draining, it makes no difference whether the set is kept or the receivers are sorted
before every replica. -/
theorem Draining.drainFrom_eq (hd : g.Draining options id enough replicas s p.stage) :
    g.drainFrom guards options id enough replicas s p =
      g.drainAnewFrom guards options id enough replicas p := by
  induction replicas generalizing s p with
  | nil => rfl
  | cons i rest ih =>
    dsimp only [drainFrom, drainAnewFrom]
    rw [bind_of_ok (Planning.cluster_apply p), bind_of_ok (Planning.cluster_apply p)]
    cases hstay : (p.cluster.replica? i).any (p.cluster.mustStay options.excludedTopics) with
    | true =>
      rw [if_pos rfl, if_pos rfl]
      exact ih hd.tail
    | false =>
      have hbrokers : s.brokers = (g.emptiestFirst p.cluster).map Broker.id :=
        hd.ready.brokers_eq hd.sound
      rw [if_neg Bool.false_ne_true, if_neg Bool.false_ne_true, ← hbrokers]
      cases hattempt : attempt g.demand guards options .replicaMovement i s.brokers p with
      | error f p' => rw [bind_of_error hattempt, bind_of_error hattempt]
      | ok destination p' =>
        rw [bind_of_ok hattempt, bind_of_ok hattempt]
        cases destination with
        | none => exact ih (stage_eq_of_attempt hd.sound hattempt ▸ hd.tail)
        | some d =>
          dsimp only
          rw [bind_of_ok (Planning.cluster_apply p'), bind_of_ok (Planning.cluster_apply p')]
          by_cases hle : (p'.cluster.count id : Int) ≤ enough
          · rw [if_pos hle, if_pos hle]
          · rw [if_neg hle, if_neg hle]
            obtain ⟨r, hmoves⟩ := exists_moves_of_attempt hd.sound hstay hattempt
            exact ih (hd.next hmoves (Int.not_le.1 hle))

/-! ## Turns of a pass -/

/-- Where a pass has come to: the replicas that are left to be tried, the set of receivers and the
plan. -/
structure Turn where
  replicas : List ReplicaId
  receivers : BrokerSet
  plan : Plan

/-- A pass that takes replicas off a broker goes on to the next one: the first had to stay, could
not move, or moved and did not suffice. -/
inductive Turn.Next (g : DistributionGoal) (guards : List Guard) (options : Options) (id : BrokerId)
    (enough : Int) : Turn → Turn → Prop where
  | stayed {i : ReplicaId} {rest : List ReplicaId} {s : BrokerSet} {p : Plan} :
    (p.cluster.replica? i).any (p.cluster.mustStay options.excludedTopics) = true →
    Next g guards options id enough ⟨i :: rest, s, p⟩ ⟨rest, s, p⟩
  | declined {i : ReplicaId} {rest : List ReplicaId} {s : BrokerSet} {p p' : Plan} :
    (p.cluster.replica? i).any (p.cluster.mustStay options.excludedTopics) = false →
    attempt g.demand guards options .replicaMovement i s.brokers p = .ok none p' →
    Next g guards options id enough ⟨i :: rest, s, p⟩ ⟨rest, s, p'⟩
  | moved {i : ReplicaId} {rest : List ReplicaId} {s : BrokerSet} {d : BrokerId} {p p' : Plan} :
    (p.cluster.replica? i).any (p.cluster.mustStay options.excludedTopics) = false →
    attempt g.demand guards options .replicaMovement i s.brokers p = .ok (some d) p' →
    enough < p'.cluster.count id →
    Next g guards options id enough ⟨i :: rest, s, p⟩ ⟨rest, g.reposition p'.cluster d s, p'⟩

/-- A pass ends with the replica that it tries: offering it fails, or it moves and that suffices. -/
inductive Turn.Last (g : DistributionGoal) (guards : List Guard) (options : Options) (id : BrokerId)
    (enough : Int) : Turn → Prop where
  | failed {i : ReplicaId} {rest : List ReplicaId} {s : BrokerSet} {p p' : Plan} {f : Fault} :
    (p.cluster.replica? i).any (p.cluster.mustStay options.excludedTopics) = false →
    attempt g.demand guards options .replicaMovement i s.brokers p = .error f p' →
    Last g guards options id enough ⟨i :: rest, s, p⟩
  | sufficed {i : ReplicaId} {rest : List ReplicaId} {s : BrokerSet} {d : BrokerId} {p p' : Plan} :
    (p.cluster.replica? i).any (p.cluster.mustStay options.excludedTopics) = false →
    attempt g.demand guards options .replicaMovement i s.brokers p = .ok (some d) p' →
    p'.cluster.count id ≤ enough → Last g guards options id enough ⟨i :: rest, s, p⟩

/-- As long as replicas are left, a pass goes on or ends with the next one. -/
theorem Turn.goes_on (g : DistributionGoal) (guards : List Guard) (options : Options)
    (id : BrokerId) (enough : Int) (a : Turn) :
    a.replicas = [] ∨ (∃ a', Next g guards options id enough a a') ∨
      Last g guards options id enough a := by
  obtain ⟨_ | ⟨i, rest⟩, s, p⟩ := a
  · exact .inl rfl
  refine .inr ?_
  cases hstay : (p.cluster.replica? i).any (p.cluster.mustStay options.excludedTopics) with
  | true => exact .inl ⟨_, .stayed hstay⟩
  | false =>
    cases hattempt : attempt g.demand guards options .replicaMovement i s.brokers p with
    | error f p' => exact .inr (.failed hstay hattempt)
    | ok destination p' =>
      cases destination with
      | none => exact .inl ⟨_, .declined hstay hattempt⟩
      | some d =>
        by_cases hle : (p'.cluster.count id : Int) ≤ enough
        · exact .inr (.sufficed hstay hattempt hle)
        · exact .inl ⟨_, .moved hstay hattempt (Int.not_le.1 hle)⟩

namespace Turn.Next

variable {a a' : Turn}

/-- What is left of the pass is the pass from there on. -/
theorem drainFrom_eq (h : Next g guards options id enough a a') :
    g.drainFrom guards options id enough a.replicas a.receivers a.plan =
      g.drainFrom guards options id enough a'.replicas a'.receivers a'.plan := by
  cases h with
  | stayed hstay =>
    dsimp only [drainFrom]
    rw [bind_of_ok (Planning.cluster_apply _), if_pos hstay]
  | declined hfree hattempt =>
    dsimp only [drainFrom]
    rw [bind_of_ok (Planning.cluster_apply _), if_neg (by simp [hfree]), bind_of_ok hattempt]
  | moved hfree hattempt hmore =>
    dsimp only [drainFrom]
    rw [bind_of_ok (Planning.cluster_apply _), if_neg (by simp [hfree]), bind_of_ok hattempt]
    dsimp only
    rw [bind_of_ok (Planning.cluster_apply _), if_neg (Int.not_le.2 hmore)]

/-- What holds before one replica is tried holds before the next. -/
theorem draining (h : Next g guards options id enough a a')
    (hd : g.Draining options id enough a.replicas a.receivers a.plan.stage) :
    g.Draining options id enough a'.replicas a'.receivers a'.plan.stage := by
  cases h with
  | stayed => exact hd.tail
  | declined _ hattempt => exact stage_eq_of_attempt hd.sound hattempt ▸ hd.tail
  | moved hfree hattempt hmore =>
    obtain ⟨r, hmoves⟩ := exists_moves_of_attempt hd.sound hfree hattempt
    exact hd.next hmoves hmore

end Turn.Next

/-- A pass comes to a turn, which leaves the rest of the pass, in the state that draining keeps. -/
theorem Draining.turn {a a' : Turn} (h : ReflTransGen (Turn.Next g guards options id enough) a a')
    (hd : g.Draining options id enough a.replicas a.receivers a.plan.stage) :
    g.Draining options id enough a'.replicas a'.receivers a'.plan.stage ∧
      g.drainFrom guards options id enough a.replicas a.receivers a.plan =
        g.drainFrom guards options id enough a'.replicas a'.receivers a'.plan := by
  induction h with
  | refl => exact ⟨hd, rfl⟩
  | tail _ hlast ih => exact ⟨hlast.draining ih.1, ih.2.trans hlast.drainFrom_eq⟩

/-! ## The emptiest destination -/

/-- Of all brokers with a property one is the emptiest, and of equals the one of lowest number. -/
structure Emptiest (P : BrokerId → Prop) (c : Cluster) (d : BrokerId) : Prop where
  holds : P d
  least : ∀ e, P e → e ≠ d → (⟨c.count d, d⟩ : Fullness) < ⟨c.count e, e⟩

/-- The first of the receivers that admits a replica is the emptiest broker that does. -/
theorem Ready.emptiest {t t' : Stage} (ht : t.cluster.Sound) (h : g.Ready t.cluster s)
    (hon : t.cluster.On id i r) (hmoves : g.Moves guards options t s.brokers i r d t') :
    Emptiest (Admissible g.demand guards options t.cluster r) t.cluster d where
  holds := hmoves.admissible
  least e he hne := by
    obtain rfl := ht.broker_of_on hon
    obtain ⟨b, hb⟩ := ht.exists_broker?_of_on hon
    have hmem : e ∈ s.brokers := h.covers.mem_of_fits ((admissible_iff ht hb).1 he).toFits
    have hsorted := h.pairwise_brokers
    obtain ⟨front, back, hsplit, hfront⟩ := hmoves.first
    rw [hsplit] at hmem hsorted
    -- Whatever stands before the destination does not admit the replica.
    have hback : e ∈ back := by
      rcases List.mem_append.1 hmem with hmem | hmem
      · exact absurd he (hfront e hmem)
      · exact (List.mem_cons.1 hmem).resolve_left hne
    exact List.rel_of_pairwise_cons (List.pairwise_append.1 hsorted).2.1 hback

/-- At a turn, the set holds what sorting the receivers would give, and the replica that is tried
goes, if it moves, to the emptiest broker that admits it. -/
structure Turn.Sorted (g : DistributionGoal) (guards : List Guard) (options : Options) (a : Turn) :
    Prop where
  entries : a.receivers.entries =
    (g.emptiestFirst a.plan.cluster).map fun b ↦ (b.fullness, b.id)
  emptiest : ∀ i rest d p', a.replicas = i :: rest →
    (a.plan.cluster.replica? i).any (a.plan.cluster.mustStay options.excludedTopics) = false →
    attempt g.demand guards options .replicaMovement i a.receivers.brokers a.plan
      = .ok (some d) p' →
    ∃ r, a.plan.cluster.replica? i = some r ∧
      Emptiest (Admissible g.demand guards options a.plan.cluster r) a.plan.cluster d

theorem Draining.sorted {a : Turn}
    (hd : g.Draining options id enough a.replicas a.receivers a.plan.stage) :
    a.Sorted g guards options where
  entries := hd.ready.entries_eq hd.sound
  emptiest i rest d p' hreplicas hfree hattempt := by
    rw [hreplicas] at hd
    obtain ⟨r, hmoves⟩ := exists_moves_of_attempt hd.sound hfree hattempt
    obtain ⟨r', hon, -⟩ := hd.pending.here i List.mem_cons_self
    obtain rfl := hon.eq_of_replica? hmoves.replica
    exact ⟨_, hmoves.replica, hd.ready.emptiest hd.sound hon hmoves⟩

/-! ## Inside a run -/

section

variable {v : View}

theorem drain_eq (hb : p.cluster.broker? id = some b) (hview : b.view g.name = .ok v) :
    g.drain guards options id p = g.drainFrom guards options id (g.ceiling b) v.replicas
      (.ofBrokers (g.receivers p.cluster)) p := by
  rw [drain, bind_of_ok (Planning.cluster_apply p)]
  exact (bind_of_lift (Cluster.broker_eq_ok_iff.2 hb)).trans (bind_of_lift hview)

theorem drainAnew_eq (hb : p.cluster.broker? id = some b) (hview : b.view g.name = .ok v) :
    g.drainAnew guards options id p =
      g.drainAnewFrom guards options id (g.ceiling b) v.replicas p := by
  rw [drainAnew, bind_of_ok (Planning.cluster_apply p)]
  exact (bind_of_lift (Cluster.broker_eq_ok_iff.2 hb)).trans (bind_of_lift hview)

end

/-- Where draining a broker starts: with what its view shows and all that may receive. -/
def Turn.start (g : DistributionGoal) (p : Plan) (v : View) : Turn :=
  ⟨v.replicas, .ofBrokers (g.receivers p.cluster), p⟩

/-- Inside a run, draining a broker that holds too many replicas goes as if the receivers were
sorted before every replica. At each of its turns the set is what sorting them would give, and what
moves goes to the emptiest broker that admits it. -/
theorem drain_as_anew (hrun : Underway guards options g p.cluster)
    (hdisk : ∀ r ∈ p.cluster.replicas, r.load.of .disk ≠ .nan)
    (hb : p.cluster.broker? id = some b) (hmany : g.TooMany b)
    (hev : g.evacuating = true → b.isAlive = false) :
    g.drain guards options id p = g.drainAnew guards options id p ∧
      ∃ v, b.view g.name = .ok v ∧
        ∀ a, ReflTransGen (Turn.Next g guards options id (g.ceiling b)) (.start g p v) a →
          g.drain guards options id p =
            g.drainFrom guards options id (g.ceiling b) a.replicas a.receivers a.plan ∧
          a.Sorted g guards options ∧
          (a.replicas = [] ∨ (∃ a', Turn.Next g guards options id (g.ceiling b) a a') ∨
            a.Last g guards options id (g.ceiling b)) := by
  obtain rfl := Cluster.id_of_broker? hb
  have hsound := hrun.sound
  have hfaithful := hrun.faithful hdisk
  obtain ⟨v, hview, -⟩ := hfaithful.exists_view hb
  have hd := (draining_of_tooMany (t := p.stage) hsound hfaithful hb hev hmany hview).1
  rw [drain_eq hb hview, drainAnew_eq hb hview]
  refine ⟨hd.drainFrom_eq, v, hview, fun a hturn ↦ ?_⟩
  obtain ⟨hda, heq⟩ := Draining.turn hturn hd
  exact ⟨heq, hda.sorted, a.goes_on g guards options b.id (g.ceiling b)⟩

/-- Three brokers, the first of which has more replicas than it may. -/
def lopsided : List Operation :=
  [.addBroker 0 none .alive, .addBroker 1 none .alive, .addBroker 2 none .alive,
    .place ⟨"a", 0⟩ 0 true {}, .place ⟨"b", 0⟩ 0 true {}, .place ⟨"c", 0⟩ 0 true {},
    .place ⟨"d", 0⟩ 0 true {}, .place ⟨"e", 0⟩ 0 true {}, .place ⟨"f", 0⟩ 1 true {}]

/-- Its first replica goes to the empty broker, and the second one to the broker of lower number,
also if the receivers are sorted anew. -/
theorem drain_as_anew_lopsided :
    Ends ((started {} {} lopsided).1.drainAnew [] {} 0) (started {} {} lopsided).2
      (fun many p' ↦ many = false ∧
        p'.journal.moves = [.replica ⟨"a", 0⟩ 0 2, .replica ⟨"b", 0⟩ 0 1]) (fun _ _ ↦ False) ∧
    ∃ v, (Turn.start (started {} {} lopsided).1 (started {} {} lopsided).2 v).Sorted
      (started {} {} lopsided).1 [] {} := by
  have hrun := Underway.of_started [] {} lopsided (by decide +kernel : Ends (prepare {})
    (_, { cluster := .after lopsided }) (fun _ _ ↦ True) fun _ _ ↦ False)
  obtain ⟨s, hs⟩ : ∃ s, s = started {} {} lopsided := ⟨_, rfl⟩
  rw [← hs] at hrun ⊢
  have hdisk : ∀ r ∈ s.2.cluster.replicas, r.load.of .disk ≠ .nan := by
    rw [hs]
    decide +kernel
  have hb : s.2.cluster.broker? 0 = some ((s.2.cluster.broker? 0).getD default) := by
    rw [hs]
    decide +kernel
  obtain ⟨hmany, hev⟩ : s.1.TooMany ((s.2.cluster.broker? 0).getD default) ∧
      s.1.evacuating = false := by
    rw [hs]
    decide +kernel
  have hdrain : Ends (s.1.drain [] {} 0) s.2 (fun many p' ↦ many = false ∧
      p'.journal.moves = [.replica ⟨"a", 0⟩ 0 2, .replica ⟨"b", 0⟩ 0 1]) fun _ _ ↦ False := by
    rw [hs]
    decide +kernel
  obtain ⟨heq, v, -, hturns⟩ := drain_as_anew hrun hdisk hb hmany (by simp [hev])
  refine ⟨?_, v, (hturns _ .refl).2.1⟩
  rwa [Ends, ← heq, ← Ends]

end Rebalance.DistributionGoal
