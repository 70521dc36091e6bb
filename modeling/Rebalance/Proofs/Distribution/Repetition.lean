import Rebalance.Proofs.Distribution.Records
import Rebalance.Proofs.Distribution.Thorough

/-!
# Tending a broker again

Without guards, a broker that was tended is at rest, be it in balance, exempt or recorded: nothing
that its view shows may leave it if it still has too many replicas, and nothing that others offer
may come to it if it still has too few. So tending it again tries the same replicas in vain, and
changes nothing.
-/

namespace Rebalance.DistributionGoal

variable {g g' : DistributionGoal} {guards : List Guard} {options : Options} {t t' : Stage}
  {p : Plan} {candidates : List BrokerId} {i : ReplicaId} {r : Replica} {d id giver : BrokerId}
  {b b' : Broker} {s : BrokerSet} {enough : Int} {replicas : List ReplicaId} {wanted : Nat}
  {queue : List Fullness} {c c' : Cluster} {f : Fault}

/-! ## What is skipped -/

namespace Skips

theorem not_moves (h : g.Skips guards options t.cluster candidates i) :
    ¬ g.Moves guards options t candidates i r d t' := by
  intro hmoves
  rcases h r hmoves.replica with hstay | hnone
  · rw [hmoves.free] at hstay
    cases hstay
  · exact hnone d hmoves.mem hmoves.admissible

theorem not_fails (h : g.Skips [] options t.cluster candidates i) (ht : t.cluster.Sound)
    (hon : t.cluster.On id i r)
    (hcandidates : ∀ d ∈ candidates, ∃ b, t.cluster.broker? d = some b) :
    ¬ g.Fails [] options t candidates i f t' := by
  intro hfails
  obtain ⟨hfree, d, hd, hadm, -⟩ := hfails.refused ht hon hcandidates
  rcases h r hon.replica?_eq with hstay | hnone
  · rw [hfree] at hstay
    cases hstay
  · exact hnone d hd hadm

/-- A replica is skipped if it has to stay or suits none of the candidates. -/
theorem of_suits (hc : c.Sound) (hon : c.On id i r)
    (h : c.mustStay options.excludedTopics r = true ∨
      ∀ d ∈ candidates, ¬ g.Suits guards options c r d) :
    g.Skips guards options c candidates i := by
  intro r' hr'
  obtain rfl := hon.eq_of_replica? hr'
  obtain rfl := hc.broker_of_on hon
  obtain ⟨b, hb⟩ := hc.exists_broker?_of_on hon
  exact h.imp_right fun hnone d hd hadm ↦ hnone d hd ((admissible_iff hc hb).1 hadm)

end Skips

/-- Draining that skips everything changes nothing. -/
theorem Drained.eq_of_skips {x : Except Fault Bool}
    (h : g.Drained [] options id enough replicas s t x t')
    (hd : g.Emptying options id enough replicas s t)
    (hskips : ∀ i ∈ replicas, g.Skips [] options t.cluster s.brokers i) :
    x = .ok (0 < t.cluster.count id) ∧ t' = t := by
  induction h with
  | spent => exact ⟨rfl, rfl⟩
  | skipped _ _ ih => exact ih hd.tail (List.forall_mem_cons.1 hskips).2
  | moved hmoves => exact absurd hmoves (List.forall_mem_cons.1 hskips).1.not_moves
  | sufficed hmoves => exact absurd hmoves (List.forall_mem_cons.1 hskips).1.not_moves
  | failed hfails =>
    obtain ⟨r, hon, -⟩ := hd.pending.here _ List.mem_cons_self
    refine absurd hfails ((List.forall_mem_cons.1 hskips).1.not_fails hd.sound hon fun d hmem ↦ ?_)
    obtain ⟨⟨b, hb, -⟩, -⟩ := (hd.covers.mem_brokers d).1 hmem
    exact ⟨b, hb⟩

/-- So does drawing from a giver. -/
theorem Drawn.eq_of_skips {x : Except Fault Ending}
    (h : g.Drawn [] options id giver queue wanted replicas t x t')
    (hd : g.Drawing options id giver wanted replicas t) (hid : ∃ b, t.cluster.broker? id = some b)
    (hskips : ∀ i ∈ replicas, g.Skips [] options t.cluster [id] i) :
    x = .ok (.exhausted wanted) ∧ t' = t := by
  induction h with
  | spent => exact ⟨rfl, rfl⟩
  | skipped _ _ ih => exact ih hd.tail hid (List.forall_mem_cons.1 hskips).2
  | filled hmoves => exact absurd hmoves (List.forall_mem_cons.1 hskips).1.not_moves
  | overtaken hmoves => exact absurd hmoves (List.forall_mem_cons.1 hskips).1.not_moves
  | moved hmoves => exact absurd hmoves (List.forall_mem_cons.1 hskips).1.not_moves
  | failed hfails =>
    obtain ⟨r, hon, -⟩ := hd.pending.here _ List.mem_cons_self
    refine absurd hfails ((List.forall_mem_cons.1 hskips).1.not_fails hd.sound hon fun d hmem ↦ ?_)
    rwa [List.mem_singleton.1 hmem]

/-- Everything that a giver offers is skipped if the giver is spent. -/
theorem Drawn.eq_of_spent {entry : Fullness} {x : Except Fault Ending}
    (h : g.Drawn [] options id entry.broker queue wanted replicas t x t')
    (hf : g.Filling options id wanted (entry :: queue) t) (hid : ∃ b, t.cluster.broker? id = some b)
    (hoffers : g.offers t.cluster entry.broker = .ok replicas)
    (hspent : g.Spent [] options t.cluster id entry.broker) :
    x = .ok (.exhausted wanted) ∧ t' = t := by
  obtain ⟨hd, hmem⟩ := hf.drawing hoffers
  refine h.eq_of_skips hd hid fun i hi ↦ ?_
  obtain ⟨r, hon, hoffered⟩ := (hmem i).1 hi
  refine .of_suits hd.sound hon ((hspent i r hon hoffered).imp_right fun hno d hd ↦ ?_)
  rwa [List.mem_singleton.1 hd]

/-- So filling from givers that are spent changes nothing. -/
theorem Filled.eq_of_spent {x : Except Fault Bool}
    (h : g.Filled [] options id wanted queue t x t') (hf : g.Filling options id wanted queue t)
    (hid : ∃ b, t.cluster.broker? id = some b)
    (hspent : ∀ e ∈ queue, g.Spent [] options t.cluster id e.broker) : x = .ok true ∧ t' = t := by
  induction h with
  | spent => exact ⟨rfl, rfl⟩
  | unoffered hunoffered => exact absurd hunoffered hf.offers_ne_error
  | filled hoffers h =>
    cases (h.eq_of_spent hf hid hoffers (List.forall_mem_cons.1 hspent).1).1
  | overtaken hoffers h =>
    cases (h.eq_of_spent hf hid hoffers (List.forall_mem_cons.1 hspent).1).1
  | exhausted hoffers h _ ih =>
    obtain ⟨hfirst, hrest⟩ := List.forall_mem_cons.1 hspent
    obtain ⟨heq, rfl⟩ := h.eq_of_spent hf hid hoffers hfirst
    exact ih (hf.exhausted hoffers h) hid hrest
  | failed hoffers h =>
    cases (h.eq_of_spent hf hid hoffers (List.forall_mem_cons.1 hspent).1).1

/-! ## Brokers at rest -/

theorem tooMany_congr (hstates : c'.states = c.states) (hb : c.broker? id = some b)
    (hb' : c'.broker? id = some b') : g.TooMany b' ↔ g.ceiling b < c'.count id := by
  rw [TooMany, ceiling, isAlive_congr hstates hb hb', count_of_broker? hb']
  rfl

theorem tooFew_congr (hstates : c'.states = c.states) (hb : c.broker? id = some b)
    (hb' : c'.broker? id = some b') :
    g.TooFew b' ↔ b.isAlive = true ∧ (c'.count id : Int) < g.limits.lower := by
  rw [TooFew, isAlive_congr hstates hb hb', count_of_broker? hb']

theorem ceiling_nonneg (hlower : 0 ≤ g.limits.lower) (hlimits : g.limits.lower ≤ g.limits.upper)
    (b : Broker) : 0 ≤ g.ceiling b := by
  unfold ceiling
  split <;> omega

/-- Nothing is left to do for a broker. If it has too many replicas, it is recorded, and what its
view shows is stuck; if it has too few, it is recorded, and what others offer is spent. -/
structure AtRest (g : DistributionGoal) (options : Options) (c : Cluster) (b : Broker) : Prop where
  above : g.TooMany b → insertAscending b.id g.above = g.above
  stuck : g.TooMany b → ∀ i r, c.On b.id i r → (criteria options).admits r = true →
    g.Stuck [] options c r
  under : g.TooFew b → insertAscending b.id g.under = g.under
  spent : g.TooFew b → ∀ e, c.Alive e → e ≠ b.id → g.Spent [] options c b.id e

theorem AtRest.of_balanced (hmany : ¬ g.TooMany b) (hfew : ¬ g.TooFew b) :
    g.AtRest options c b where
  above h := absurd h hmany
  stuck h := absurd h hmany
  under h := absurd h hfew
  spent h := absurd h hfew

section

variable (ht : t.cluster.Sound) (hf : t.cluster.Faithful g.name (criteria options))
  (hb : t.cluster.broker? b.id = some b)

include ht hf hb

theorem AtRest.lowered (hrest : g.AtRest options t.cluster b) (hceiling : 0 ≤ g.ceiling b)
    {x : Except Fault Bool} (h : g.Lowered [] options b t x t') :
    x = .ok (decide (g.TooMany b)) ∧ t' = t := by
  cases h with
  | untouched hnot => exact ⟨by rw [decide_eq_false hnot], rfl⟩
  | untracked _ hunknown => exact absurd hunknown (hf.view_ne_error hb)
  | drained hmany hview hdrained =>
    obtain ⟨hd, hmem⟩ := emptying_of_tooMany ht hf hb hmany hview
    obtain ⟨rfl, rfl⟩ := hdrained.eq_of_skips hd fun i hi ↦ by
      obtain ⟨r, hon, hadmits⟩ := (hmem i).1 hi
      exact .of_suits ht hon ((hrest.stuck hmany i r hon hadmits).imp_right fun hnone d _ ↦ hnone d)
    have hmore := hd.more
    rw [decide_eq_true hmany, decide_eq_true (by omega)]
    exact ⟨rfl, rfl⟩

theorem AtRest.raised (hrest : g.AtRest options t.cluster b) {x : Except Fault Bool}
    (h : g.Raised [] options b t x t') : x = .ok (decide (g.TooFew b)) ∧ t' = t := by
  cases h with
  | untouched hnot => exact ⟨by rw [decide_eq_false hnot], rfl⟩
  | filled hfew hb' hfilled =>
    rw [hb] at hb'
    obtain rfl := Option.some.inj hb'
    have hfilling := filling_of_tooFew ht hf hb hfew
    rw [decide_eq_true hfew]
    refine hfilled.eq_of_spent hfilling ⟨b, hb⟩ fun e he ↦ ?_
    obtain ⟨halive, hne⟩ := hfilling.queued e he
    exact hrest.spent hfew e.broker halive hne

/-- Tending a broker that is at rest, or exempt, changes nothing. -/
theorem Tended.eq_of_atRest (hceiling : 0 ≤ g.ceiling b)
    (hrest : ¬ g.Exempt options t.cluster b → g.AtRest options t.cluster b)
    {x : Except Fault Unit} (h : Tended [] options b.id g t x g' t') :
    x = .ok () ∧ g' = g ∧ t' = t := by
  cases h with
  | unknown hnone =>
    rw [hb] at hnone
    cases hnone
  | exempt => exact ⟨rfl, rfl, rfl⟩
  | above hb' hex hlow =>
    obtain rfl := Option.some.inj (hb.symm.trans hb')
    obtain ⟨hmany, rfl⟩ := (hrest hex).lowered ht hf hb hceiling hlow
    rw [(hrest hex).above (of_decide_eq_true (Except.ok.inj hmany).symm)]
    exact ⟨rfl, rfl, rfl⟩
  | undrained hb' hex hlow =>
    obtain rfl := Option.some.inj (hb.symm.trans hb')
    cases ((hrest hex).lowered ht hf hb hceiling hlow).1
  | under hb' hex hlow hraise =>
    obtain rfl := Option.some.inj (hb.symm.trans hb')
    obtain ⟨-, rfl⟩ := (hrest hex).lowered ht hf hb hceiling hlow
    obtain ⟨hfew, rfl⟩ := (hrest hex).raised ht hf hb hraise
    rw [(hrest hex).under (of_decide_eq_true (Except.ok.inj hfew).symm)]
    exact ⟨rfl, rfl, rfl⟩
  | unfilled hb' hex hlow hraise =>
    obtain rfl := Option.some.inj (hb.symm.trans hb')
    obtain ⟨-, rfl⟩ := (hrest hex).lowered ht hf hb hceiling hlow
    cases ((hrest hex).raised ht hf hb hraise).1
  | balanced hb' hex hlow hraise =>
    obtain rfl := Option.some.inj (hb.symm.trans hb')
    obtain ⟨-, rfl⟩ := (hrest hex).lowered ht hf hb hceiling hlow
    obtain ⟨-, rfl⟩ := (hrest hex).raised ht hf hb hraise
    exact ⟨rfl, rfl, rfl⟩

/-! ## What tending leaves -/

/-- Draining leaves a broker just at the upper limit, or empty if it is dead, or above that with
what its view shows stuck. -/
theorem Lowered.leaves {many : Bool} (h : g.Lowered [] options b t (.ok many) t')
    (hmany : g.TooMany b) (hceiling : 0 ≤ g.ceiling b) :
    if many then g.ceiling b < t'.cluster.count b.id ∧ ∀ i r, t'.cluster.On b.id i r →
        (criteria options).admits r = true → g.Stuck [] options t'.cluster r
      else (t'.cluster.count b.id : Int) = g.ceiling b := by
  cases h with
  | untouched hnot => exact absurd hmany hnot
  | drained _ hview hdrained =>
    obtain ⟨hd, hmem⟩ := emptying_of_tooMany ht hf hb hmany hview
    cases many with
    | true =>
      refine ⟨hdrained.more rfl hd, fun i r hon hadmits ↦ ?_⟩
      have hon' := (hdrained.stuck_of_stuck (by simp) rfl hd hon).1
      exact hdrained.stuck (by simp) rfl hd i ((hmem i).2 ⟨r, hon', hadmits⟩) r hon
    | false => exact hdrained.count_eq rfl hd hceiling

variable (hlimits : g.limits.lower ≤ g.limits.upper)

include hlimits

/-- Tending fails only if a view has lost a replica. -/
theorem Tended.eq_viewOutOfOrder (h : Tended [] options b.id g t (.error f) g' t') :
    f = .viewOutOfOrder := by
  cases h with
  | unknown hnone =>
    rw [hb] at hnone
    cases hnone
  | undrained hb₁ _ hlow =>
    obtain rfl := Option.some.inj (hb.symm.trans hb₁)
    cases hlow with
    | untracked _ hunknown => exact absurd hunknown (hf.view_ne_error hb)
    | drained hmany hview hdrained =>
      exact hdrained.eq_viewOutOfOrder rfl (emptying_of_tooMany ht hf hb hmany hview).1
  | unfilled hb₁ _ hlow hraise =>
    obtain rfl := Option.some.inj (hb.symm.trans hb₁)
    have hfew : g.TooFew b := by
      cases hraise with
      | filled hfew => exact hfew
    obtain rfl := hlow.eq_of_not_tooMany (not_tooMany_of_tooFew hlimits hfew)
    exact hraise.eq_viewOutOfOrder ht hf hb

variable (hlower : 0 ≤ g.limits.lower)

include hlower

/-- A broker that was tended is at rest, unless it is exempt. -/
theorem Tended.atRest (h : Tended [] options b.id g t (.ok ()) g' t') :
    ∃ b', t'.cluster.broker? b.id = some b' ∧
      (¬ g'.Exempt options t'.cluster b' → g'.AtRest options t'.cluster b') := by
  have halike := h.alike
  obtain ⟨-, hstates⟩ := h.sound ht
  obtain ⟨b', hb'⟩ := Cluster.exists_broker?_of_states hstates hb
  have hid : b'.id = b.id := Cluster.id_of_broker? hb'
  have hmany' := tooMany_congr (g := g) hstates hb hb'
  have hfew' := tooFew_congr (g := g) hstates hb hb'
  have hceiling := ceiling_nonneg hlower hlimits b
  refine ⟨b', hb', ?_⟩
  cases h with
  | exempt hb₁ hex =>
    obtain rfl := Option.some.inj (hb.symm.trans hb₁)
    obtain rfl := Option.some.inj (hb.symm.trans hb')
    exact fun hno ↦ absurd hex hno
  | above hb₁ _ hlow =>
    obtain rfl := Option.some.inj (hb.symm.trans hb₁)
    have hleaves := hlow.leaves ht hf hb hlow.tooMany hceiling
    rw [if_pos rfl] at hleaves
    have hfew : ¬ g.TooFew b' := fun hfew ↦
      not_tooMany_of_tooFew hlimits hfew (hmany'.2 hleaves.1)
    refine fun _ ↦ ⟨fun _ ↦ hid ▸ insertAscending_insertAscending _ _, fun _ i r hon hadmits ↦ ?_,
      fun h ↦ absurd h hfew, fun h ↦ absurd h hfew⟩
    exact (hleaves.2 i r (hid ▸ hon) hadmits).imp_right fun hnone d hsuits ↦
      hnone d (hsuits.congr halike)
  | under hb₁ _ hlow hraise =>
    obtain rfl := Option.some.inj (hb.symm.trans hb₁)
    obtain rfl := hlow.eq_of_not_tooMany (not_tooMany_of_tooFew hlimits hraise.tooFew)
    have hfew : g.TooFew b' := hfew'.2 ⟨hraise.tooFew.1, hraise.few ht hf hb⟩
    have hmany := not_tooMany_of_tooFew hlimits hfew
    refine fun _ ↦ ⟨fun h ↦ absurd h hmany, fun h ↦ absurd h hmany,
      fun _ ↦ hid ▸ insertAscending_insertAscending _ _, fun _ e halive hne i r hon hoffered ↦ ?_⟩
    rw [hid] at hne ⊢
    have hspent := hraise.spent ht hf hb (by simp) ((Cluster.alive_congr hstates).1 halive) hne
    exact (hspent i r hon hoffered).imp_right (mt (Suits.congr halike))
  | balanced hb₁ _ hlow hraise =>
    obtain rfl := Option.some.inj (hb.symm.trans hb₁)
    by_cases hmany : g.TooMany b
    · obtain rfl := hraise.eq_of_not_tooFew fun hfew ↦ not_tooMany_of_tooFew hlimits hfew hmany
      have hcount := hlow.leaves ht hf hb hmany hceiling
      rw [if_neg Bool.false_ne_true] at hcount
      refine fun _ ↦ .of_balanced (fun hmore ↦ ?_) fun hless ↦ ?_
      · have hlt := hmany'.1 hmore
        omega
      · obtain ⟨halive, hlt⟩ := hfew'.1 hless
        rw [hcount, ceiling, if_pos halive] at hlt
        omega
    obtain rfl := hlow.eq_of_not_tooMany hmany
    by_cases hfew : g.TooFew b
    · have hcount := hraise.count_eq ht hb hfew
      refine fun _ ↦ .of_balanced (fun hmore ↦ ?_) fun hless ↦ ?_
      · have hlt := hmany'.1 hmore
        rw [hcount, ceiling, if_pos hfew.1] at hlt
        omega
      · have hlt := (hfew'.1 hless).2
        omega
    · obtain rfl := hraise.eq_of_not_tooFew hfew
      obtain rfl := Option.some.inj (hb.symm.trans hb')
      exact fun _ ↦ .of_balanced hmany hfew

end

/-! ## Inside a run -/

/-- Moves keep the views of a sound cluster faithful. -/
theorem Law.faithful (g : DistributionGoal) (guards : List Guard) (options : Options)
    (name : String) (criteria : Criteria) :
    g.Law guards options (fun t ↦ t.cluster.Sound ∧ t.cluster.Faithful name criteria)
      fun _ _ ↦ True :=
  .of_moves fun ⟨ht, hf⟩ hmoves ↦ by
    obtain ⟨i, r, -, -, hm, hcluster⟩ := hmoves.relocated.cluster
    rw [hcluster]
    exact ⟨ht.moved hm, hf.moved ht hm⟩

/-- A broker that was tended is at rest or exempt, so tending it again changes nothing. -/
theorem Tended.eq_of_tended {g'' : DistributionGoal} {t'' : Stage} {x : Except Fault Unit}
    (h : Tended [] options b.id g t (.ok ()) g' t')
    (hagain : Tended [] options b.id g' t' x g'' t'') (ht : t.cluster.Sound)
    (hf : t.cluster.Faithful g.name (criteria options)) (hb : t.cluster.broker? b.id = some b)
    (hlower : 0 ≤ g.limits.lower) (hlimits : g.limits.lower ≤ g.limits.upper) :
    x = .ok () ∧ g'' = g' ∧ t'' = t' := by
  have halike := h.alike
  obtain ⟨ht', hf'⟩ := (Law.faithful g [] options g.name (criteria options)).tended h hb ⟨ht, hf⟩
  rw [← halike.name] at hf'
  obtain ⟨b', hb', hrest⟩ := h.atRest ht hf hb hlimits hlower
  have hid : b'.id = b.id := Cluster.id_of_broker? hb'
  rw [← hid] at hb' hagain
  rw [← halike.limits] at hlower hlimits
  exact hagain.eq_of_atRest ht' hf' hb' (ceiling_nonneg hlower hlimits b') hrest

/-- Inside a run without guards, tending a broker again, directly after it was tended, moves nothing
and leaves the cluster and what is recorded as they are, whatever tending it came to. It comes to
something unless a view has lost a replica on the way, which does not happen in a stable cluster. -/
theorem tend_idempotent (hrun : Underway [] options g p.cluster)
    (hdisk : ∀ r ∈ p.cluster.replicas, r.load.of .disk ≠ .nan) (hlower : 0 ≤ g.limits.lower)
    (hlimits : g.limits.lower ≤ g.limits.upper) (hb : p.cluster.broker? id = some b) :
    Ends (tend [] options id) (g, p)
      (fun _ s ↦ Ends (tend [] options id) s
        (fun _ s' ↦ s'.1 = s.1 ∧ s'.2.cluster = s.2.cluster ∧
          s'.2.journal.moves = s.2.journal.moves)
        fun _ _ ↦ False)
      (fun f _ ↦ f = .viewOutOfOrder) ∧
    ∀ measured, p.cluster.Stable measured → ∃ s, tend [] options id (g, p) = .ok () s := by
  obtain rfl := Cluster.id_of_broker? hb
  have hsound := hrun.sound
  have hfaithful := hrun.faithful hdisk
  have hcomes : Comes (tend [] options b.id) g p _ := comes_tend hsound b.id
  refine ⟨hcomes.mono ?_ ?_, fun measured hstable ↦ ?_⟩
  · rintro ⟨⟩ ⟨g', p'⟩ htended
    have hagain : Comes (tend [] options b.id) g' p' _ := comes_tend (htended.sound hsound).1 b.id
    refine hagain.mono ?_ ?_
    · rintro ⟨⟩ ⟨g'', p''⟩ hagain
      obtain ⟨-, hgoal, hstage⟩ := htended.eq_of_tended hagain hsound hfaithful hb hlower hlimits
      exact ⟨hgoal, congrArg Stage.cluster hstage, congrArg Stage.moves hstage⟩
    · rintro f ⟨g'', p''⟩ hagain
      cases (htended.eq_of_tended hagain hsound hfaithful hb hlower hlimits).1
  · rintro f ⟨g', p'⟩ htended
    exact htended.eq_viewOutOfOrder hsound hfaithful hb hlimits
  · cases htend : tend [] options b.id (g, p) with
    | ok _ s => exact ⟨s, rfl⟩
    | error f s => cases (hcomes.of_error htend).eq_ok ⟨hstable, hfaithful⟩ ⟨b, hb⟩

/-- Three alive brokers. The second one may take one of the replicas that the first one has too
many. -/
def overfull : List Operation :=
  [.addBroker 0 none .alive, .addBroker 1 none .alive, .addBroker 2 none .alive,
    .place ⟨"a", 0⟩ 0 true {}, .place ⟨"b", 0⟩ 0 true {}, .place ⟨"c", 0⟩ 0 true {},
    .place ⟨"d", 0⟩ 0 true {}, .place ⟨"e", 0⟩ 0 true {}, .place ⟨"b", 0⟩ 1 false {},
    .place ⟨"c", 0⟩ 1 false {}]

/-- The third one takes none. -/
def reserved : Options := { excludedBrokers := [2] }

/-- So the first broker is left with more than the upper limit, and keeps that when it is tended
again. -/
theorem tend_idempotent_overfull :
    (started {} reserved overfull).1.limits.upper = 3 ∧
    ∃ s, tend [] reserved 0 (started {} reserved overfull) = .ok () s ∧
      (s.1.above = [0] ∧ s.2.journal.moves = [.replica ⟨"a", 0⟩ 0 1] ∧ s.2.cluster.count 0 = 4) ∧
      Ends (tend [] reserved 0) s
        (fun _ s' ↦ s'.1 = s.1 ∧ s'.2.cluster = s.2.cluster ∧
          s'.2.journal.moves = s.2.journal.moves)
        fun _ _ ↦ False := by
  have hrun := Underway.of_started [] {} overfull (by decide +kernel : Ends (prepare reserved)
    (_, { cluster := .after overfull }) (fun _ _ ↦ True) fun _ _ ↦ False)
  have hstable : (started {} reserved overfull).2.cluster.Stable fun _ ↦ True := by
    refine stable_started ?_ trivial {} reserved
    simp [overfull, Operation.IsMeasured, Load.isNumeric_default]
  obtain ⟨s, hs⟩ : ∃ s, s = started {} reserved overfull := ⟨_, rfl⟩
  rw [← hs] at hrun hstable ⊢
  have hlimits : s.1.limits.lower = 2 ∧ s.1.limits.upper = 3 := by
    rw [hs]
    decide +kernel
  have hb : s.2.cluster.broker? 0 = some ((s.2.cluster.broker? 0).getD default) := by
    rw [hs]
    decide +kernel
  have htend : Ends (tend [] reserved 0) s (fun _ s ↦ s.1.above = [0] ∧
      s.2.journal.moves = [.replica ⟨"a", 0⟩ 0 1] ∧ s.2.cluster.count 0 = 4) fun _ _ ↦ False := by
    rw [hs]
    decide +kernel
  obtain ⟨hagain, hok⟩ := tend_idempotent hrun
    (fun r hr ↦ hstable.numeric r hr .disk trivial) (by omega) (by omega) hb
  obtain ⟨s', hs'⟩ := hok _ hstable
  exact ⟨hlimits.2, s', hs', htend.of_ok hs', hagain.of_ok hs'⟩

/-- A history in which a view orders by a use of processors that is not a number; three replicas
leave the broker. In the end the first two brokers have four replicas each, and the third has one.
-/
def disordered : List Operation :=
  [.addBroker 0 none .alive, .addBroker 1 none .alive, .addBroker 2 none .alive,
    .place ⟨"t", 0⟩ 0 false { cpu := 2 }, .place ⟨"t", 1⟩ 0 false { cpu := .nan },
    .place ⟨"t", 2⟩ 0 false { cpu := 1 }, .place ⟨"t", 3⟩ 0 false { cpu := 2 },
    .track "v" { score := some .cpu }, .relocate ⟨"t", 0⟩ 0 1, .relocate ⟨"t", 1⟩ 0 1,
    .relocate ⟨"t", 2⟩ 0 2, .place ⟨"t", 4⟩ 0 false {}, .place ⟨"t", 5⟩ 0 false {},
    .place ⟨"t", 6⟩ 0 false {}, .place ⟨"t", 7⟩ 1 false {}, .place ⟨"t", 8⟩ 1 false {}]

/-- The view of the first broker cannot find the replica that is to go to the third one, when it has
already left. With one replica fewer the first broker comes after the second. So tending the third
one again moves a replica from there, although the use of disks is a number. -/
theorem tended_anew_out_of_order :
    Underway [] {} (started {} {} disordered).1 (started {} {} disordered).2.cluster ∧
    (started {} {} disordered).1.limits.lower = 2 ∧ (started {} {} disordered).1.limits.upper = 4 ∧
    (∀ r ∈ (started {} {} disordered).2.cluster.replicas, r.load.of .disk ≠ .nan) ∧
    ∃ f s, tend [] {} 2 (started {} {} disordered) = .error f s ∧ f = .viewOutOfOrder ∧
      s.2.journal.moves = [] ∧ Ends (tend [] {} 2) s
        (fun _ s' ↦ s'.2.journal.moves = [.replica ⟨"t", 0⟩ 1 2] ∧
          s'.2.cluster.count 2 = s.2.cluster.count 2 + 1)
        fun _ _ ↦ False := by
  refine ⟨Underway.of_started [] {} disordered (by decide +kernel : Ends (prepare {})
    (_, { cluster := .after disordered }) (fun _ _ ↦ True) fun _ _ ↦ False), by decide +kernel,
    by decide +kernel, by decide +kernel, Ends.exists_error (by decide +kernel)⟩

end Rebalance.DistributionGoal
