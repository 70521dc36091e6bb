import Rebalance.Proofs.Distribution.Steps

/-!
# What passes leave behind

What holds at every replica that a pass tries, and what follows when it has tried them all. Under
guards that last, whatever was tried and is left on a broker that could not be drained is stuck, and
nothing that a giver offers suits a broker that could not be filled.
-/

namespace Rebalance.DistributionGoal

open Relation (ReflTransGen)

variable {g : DistributionGoal} {guards : List Guard} {options : Options} {t t' : Stage}
  {candidates : List BrokerId} {i j : ReplicaId} {r r' : Replica} {d e id giver : BrokerId}
  {c c' : Cluster} {s : BrokerSet} {enough : Int} {rest replicas : List ReplicaId} {wanted : Nat}
  {queue : List Fullness} {b : Broker}

/-! ## Replicas to be tried -/

/-- The replicas that are still to be tried are on a broker and have a property, and none is listed
twice. -/
structure Pending (P : Replica → Prop) (c : Cluster) (id : BrokerId) (replicas : List ReplicaId) :
    Prop where
  here : ∀ i ∈ replicas, ∃ r, c.On id i r ∧ P r
  nodup : replicas.Nodup

namespace Pending

variable {P P' : Replica → Prop}

theorem tail (h : Pending P c id (i :: rest)) : Pending P c id rest where
  here j hj := h.here j (List.mem_cons_of_mem _ hj)
  nodup := (List.nodup_cons.1 h.nodup).2

theorem mono (h : Pending P c id replicas) (hP : ∀ r, P r → P' r) : Pending P' c id replicas where
  here i hi := (h.here i hi).imp fun r ↦ And.imp_right (hP r)
  nodup := h.nodup

section

variable (h : Pending P t.cluster id (i :: rest)) (ht : t.cluster.Sound)
  (hmoves : g.Moves guards options t candidates i r d t')

include h ht hmoves

/-- The replica that moves is on the broker and has the property. -/
theorem on_source : r.broker = id ∧ P r ∧ t.cluster.On r.broker i r := by
  obtain ⟨r', hon', hP⟩ := h.here i List.mem_cons_self
  obtain ⟨hbroker, hon⟩ := hmoves.on_source ht ⟨r', hon'⟩
  exact ⟨hbroker, hon'.eq_of_replica? hon.replica?_eq ▸ hP, hon⟩

/-- When one has moved, the others are still there. -/
theorem next : Pending P t'.cluster id rest := by
  obtain ⟨rfl, -, hon⟩ := h.on_source ht hmoves
  obtain ⟨hnot, hnodup⟩ := List.nodup_cons.1 h.nodup
  refine ⟨fun j hj ↦ ?_, hnodup⟩
  obtain ⟨r', hon', hP⟩ := h.here j (List.mem_cons_of_mem _ hj)
  exact ⟨r', (hmoves.on_iff ht hon).2 (.inr ⟨hon', ne_of_mem_of_not_mem hj hnot⟩), hP⟩

end

end Pending

/-! ## While draining -/

/-- Before each replica that draining tries: the set holds the brokers that may receive, the broker
still has too many, and the replicas to be tried are on it and of those that views show. -/
structure Emptying (g : DistributionGoal) (options : Options) (id : BrokerId) (enough : Int)
    (replicas : List ReplicaId) (s : BrokerSet) (t : Stage) : Prop where
  sound : t.cluster.Sound
  covers : g.Covers t.cluster s
  more : enough < t.cluster.count id
  upper : t.cluster.Alive id → enough = g.limits.upper
  pending : Pending (fun r ↦ (criteria options).admits r = true) t.cluster id replicas

namespace Emptying

theorem tail (h : g.Emptying options id enough (i :: rest) s t) :
    g.Emptying options id enough rest s t :=
  { h with pending := h.pending.tail }

theorem next (h : g.Emptying options id enough (i :: rest) s t)
    (hmoves : g.Moves guards options t s.brokers i r d t') (hmore : enough < t'.cluster.count id) :
    g.Emptying options id enough rest (g.reposition t'.cluster d s) t' := by
  have hpending := h.pending.next h.sound hmoves
  obtain ⟨rfl, -, -⟩ := h.pending.on_source h.sound hmoves
  have hstates := hmoves.relocated.states_eq
  have hfits := hmoves.fits h.sound
  refine ⟨hmoves.relocated.sound h.sound, ?_, hmore, ?_, hpending⟩
  · refine h.covers.reposition hstates hfits.alive fun e hed halive ↦ or_congr_right ?_
    by_cases hes : e = r.broker
    · -- The broker that is drained is full, before and after.
      subst hes
      have hmore' := h.more
      rw [h.upper halive] at hmore hmore'
      omega
    · rw [hmoves.count_other h.sound hed hes]
  · intro halive
    exact h.upper ((Cluster.alive_congr hstates).1 halive)

end Emptying

/-- Besides, the set holds them under their present counts, as an alive broker is not drained while
others are evacuated. -/
structure Draining (g : DistributionGoal) (options : Options) (id : BrokerId) (enough : Int)
    (replicas : List ReplicaId) (s : BrokerSet) (t : Stage) : Prop where
  sound : t.cluster.Sound
  ready : g.Ready t.cluster s
  more : enough < t.cluster.count id
  full : t.cluster.Alive id → g.evacuating = false ∧ enough = g.limits.upper
  pending : Pending (fun r ↦ (criteria options).admits r = true) t.cluster id replicas

namespace Draining

theorem emptying (h : g.Draining options id enough replicas s t) :
    g.Emptying options id enough replicas s t :=
  ⟨h.sound, h.ready.covers, h.more, fun halive ↦ (h.full halive).2, h.pending⟩

theorem tail (h : g.Draining options id enough (i :: rest) s t) :
    g.Draining options id enough rest s t :=
  { h with pending := h.pending.tail }

theorem drains (h : g.Draining options id enough (i :: rest) s t)
    (hmoves : g.Moves guards options t s.brokers i r d t') : g.Drains guards options id t t' where
  many halive := by
    have hmore := h.more
    rwa [(h.full halive).2] at hmore
  moves := by
    obtain ⟨hbroker, hadmits, hon⟩ := h.pending.on_source h.sound hmoves
    exact ⟨s, i, r, d, h.ready, hbroker, hadmits, hon, hmoves⟩

theorem next (h : g.Draining options id enough (i :: rest) s t)
    (hmoves : g.Moves guards options t s.brokers i r d t') (hmore : enough < t'.cluster.count id) :
    g.Draining options id enough rest (g.reposition t'.cluster d s) t' := by
  have hnext := h.emptying.next hmoves hmore
  obtain ⟨rfl, -, -⟩ := h.pending.on_source h.sound hmoves
  have hstates := hmoves.relocated.states_eq
  have hfits := hmoves.fits h.sound
  refine ⟨hnext.sound, ?_, hmore, ?_, hnext.pending⟩
  · refine h.ready.reposition hstates hfits.alive fun e hed halive ↦ ?_
    by_cases hes : e = r.broker
    · -- The broker that is drained has no room, neither before nor after.
      subst hes
      obtain ⟨hev, rfl⟩ := h.full halive
      have hfull : ∀ {c : Cluster}, g.limits.upper < c.count r.broker → ¬ g.Room c r.broker := by
        rintro c hlt (hev' | hroom)
        · rw [hev] at hev'
          cases hev'
        · omega
      exact ⟨iff_of_false (hfull hmore) (hfull h.more), fun hroom ↦ absurd hroom (hfull h.more)⟩
    · have hcount := hmoves.count_other h.sound hed hes
      rw [Room, hcount]
      exact ⟨Iff.rfl, fun _ ↦ rfl⟩
  · intro halive
    exact h.full ((Cluster.alive_congr hstates).1 halive)

end Draining

/-- Wherever a replica fits, there is a receiver. -/
theorem Covers.mem_of_fits (h : g.Covers c s) (hfits : g.Fits options c r d) : d ∈ s.brokers := by
  refine (h.mem_brokers d).2 ⟨hfits.alive, ?_⟩
  rcases hfits.within with ⟨hev, -⟩ | hwithin
  · exact .inl hev
  · have hup := hwithin.upper
    exact .inr (by omega)

/-- A replica that is skipped is stuck. -/
theorem Skips.stuck (h : c.Sound) (hcovers : g.Covers c s) (hon : c.On id i r)
    (hskip : g.Skips guards options c s.brokers i) : g.Stuck guards options c r := by
  refine (hskip r hon.replica?_eq).imp_right fun hnone d hsuits ↦ ?_
  refine hnone d (hcovers.mem_of_fits hsuits.toFits) ?_
  obtain rfl := h.broker_of_on hon
  obtain ⟨b, hb⟩ := h.exists_broker?_of_on hon
  exact (admissible_iff h hb).2 hsuits

/-- Draining takes steps off the broker. -/
theorem Drained.arrives {x : Except Fault Bool}
    (h : g.Drained guards options id enough replicas s t x t')
    (hd : g.Draining options id enough replicas s t) :
    Arrives (g.Drains guards options id) t x t' := by
  induction h with
  | spent => exact ReflTransGen.refl
  | skipped _ _ ih => exact ih hd.tail
  | moved hmoves hmore _ ih => exact .head (hd.drains hmoves) (ih (hd.next hmoves hmore))
  | sufficed hmoves _ => exact ReflTransGen.single (hd.drains hmoves)
  | failed hfails => exact .of_fails hfails

/-- Draining that reports failure leaves more than enough. -/
theorem Drained.more {x : Except Fault Bool}
    (h : g.Drained guards options id enough replicas s t x t') (hx : x = .ok true)
    (hd : g.Emptying options id enough replicas s t) : enough < t'.cluster.count id := by
  induction h with
  | spent => exact hd.more
  | skipped _ _ ih => exact ih hx hd.tail
  | moved hmoves hmore _ ih => exact ih hx (hd.next hmoves hmore)
  | sufficed => cases hx
  | failed => cases hx

/-- Draining brings a broker nothing. -/
theorem Drained.count_antitone {x : Except Fault Bool} {many : Bool}
    (h : g.Drained guards options id enough replicas s t x t') (hx : x = .ok many)
    (hd : g.Emptying options id enough replicas s t) :
    t'.cluster.count id ≤ t.cluster.count id := by
  induction h with
  | spent => exact Nat.le_refl _
  | skipped _ _ ih => exact ih hx hd.tail
  | moved hmoves hmore _ ih =>
    have hle := ih hx (hd.next hmoves hmore)
    obtain ⟨rfl, -, -⟩ := hd.pending.on_source hd.sound hmoves
    have hcount := hmoves.count_source hd.sound
    omega
  | sufficed hmoves _ =>
    obtain ⟨rfl, -, -⟩ := hd.pending.on_source hd.sound hmoves
    have hcount := hmoves.count_source hd.sound
    omega
  | failed => cases hx

/-- What is on a broker that was drained was there before, and stays stuck if it was. -/
theorem Drained.stuck_of_stuck (hlasting : ∀ γ ∈ guards, γ.IsLasting) {x : Except Fault Bool}
    {many : Bool} (h : g.Drained guards options id enough replicas s t x t') (hx : x = .ok many)
    (hd : g.Emptying options id enough replicas s t) (hon : t'.cluster.On id j r') :
    t.cluster.On id j r' ∧
      (g.Stuck guards options t.cluster r' → g.Stuck guards options t'.cluster r') := by
  induction h with
  | spent => exact ⟨hon, fun hstuck ↦ hstuck⟩
  | skipped _ _ ih => exact ih hx hd.tail hon
  | moved hmoves hmore _ ih =>
    obtain ⟨hon', hstuck⟩ := ih hx (hd.next hmoves hmore) hon
    obtain ⟨rfl, -, hr⟩ := hd.pending.on_source hd.sound hmoves
    obtain ⟨hon'', hstuck'⟩ := hmoves.stuck_of_stuck hlasting hd.sound hr hon'
    exact ⟨hon'', hstuck ∘ hstuck'⟩
  | sufficed hmoves _ =>
    obtain ⟨rfl, -, hr⟩ := hd.pending.on_source hd.sound hmoves
    exact hmoves.stuck_of_stuck hlasting hd.sound hr hon
  | failed => cases hx

/-- Whatever was tried and is left on a broker that could not be drained is stuck. -/
theorem Drained.stuck (hlasting : ∀ γ ∈ guards, γ.IsLasting) {x : Except Fault Bool}
    (h : g.Drained guards options id enough replicas s t x t') (hx : x = .ok true)
    (hd : g.Emptying options id enough replicas s t) :
    ∀ i ∈ replicas, ∀ r, t'.cluster.On id i r → g.Stuck guards options t'.cluster r := by
  induction h with
  | spent => simp
  | skipped hskip hrest ih =>
    rw [List.forall_mem_cons]
    refine ⟨fun r hon ↦ ?_, ih hx hd.tail⟩
    obtain ⟨hon', hstuck⟩ := hrest.stuck_of_stuck hlasting hx hd.tail hon
    exact hstuck (hskip.stuck hd.sound hd.covers hon')
  | moved hmoves hmore hrest ih =>
    have hnext := hd.next hmoves hmore
    rw [List.forall_mem_cons]
    refine ⟨fun r' hon ↦ ?_, ih hx hnext⟩
    -- What has moved is not on the broker any more.
    exfalso
    have hon' := (hrest.stuck_of_stuck hlasting hx hnext hon).1
    obtain ⟨rfl, -, hr⟩ := hd.pending.on_source hd.sound hmoves
    exact (hmoves.on_of_on hd.sound hr (hmoves.relocated.source_ne hd.sound) hon').2 rfl
  | sufficed => cases hx
  | failed => cases hx

/-! ## Offers -/

/-- A broker offers just those of its replicas that may be offered, each once. -/
theorem exists_offers (h : c.Sound) (hf : c.Faithful g.name (criteria options))
    (hb : c.broker? id = some b) :
    ∃ replicas, g.offers c id = .ok replicas ∧ replicas.Nodup ∧
      ∀ i, i ∈ replicas ↔ ∃ r, c.On id i r ∧ Offered options c r := by
  obtain ⟨v, hv, hnodup, hmem⟩ := hf.exists_view hb
  have hoffers : g.offers c id = .ok (if c.hasDead && b.isAlive then
      v.replicas.filter fun i ↦ (c.replica? i).any Replica.isImmigrant else v.replicas) := by
    unfold offers
    rw [Cluster.broker_eq_ok_iff.2 hb]
    change (b.view g.name >>= _) = _
    rw [hv]
    exact (apply_ite Except.ok ..).symm
  refine ⟨_, hoffers, ?_, fun i ↦ ?_⟩
  · split
    · exact hnodup.filter _
    · exact hnodup
  · have hoffered : ∀ {r}, c.On id i r → (Offered options c r ↔
        (criteria options).admits r = true ∧
          ((c.hasDead && b.isAlive) = true → r.isImmigrant = true)) := by
      intro r hon
      rw [Offered, h.broker_of_on hon, alive_iff_isAlive hb, Bool.and_eq_true, and_imp]
    split
    · rename_i hself
      rw [List.mem_filter, hmem]
      constructor
      · rintro ⟨⟨r, hon, hadmits⟩, himm⟩
        rw [hon.replica?_eq] at himm
        exact ⟨r, hon, (hoffered hon).2 ⟨hadmits, fun _ ↦ himm⟩⟩
      · rintro ⟨r, hon, hoff⟩
        obtain ⟨hadmits, himm⟩ := (hoffered hon).1 hoff
        refine ⟨⟨r, hon, hadmits⟩, ?_⟩
        rw [hon.replica?_eq]
        exact himm hself
    · rename_i hself
      rw [hmem]
      refine exists_congr fun r ↦ and_congr_right fun hon ↦ ?_
      rw [hoffered hon]
      exact (and_iff_left fun h ↦ absurd h hself).symm

/-! ## While drawing -/

/-- Before each replica that drawing tries: so many are wanted as the broker is short of the lower
limit, and the replicas to be tried are on the giver, which is another broker that is alive, and are
offered by it. -/
structure Drawing (g : DistributionGoal) (options : Options) (id giver : BrokerId) (wanted : Nat)
    (replicas : List ReplicaId) (t : Stage) : Prop where
  sound : t.cluster.Sound
  ne : giver ≠ id
  alive : t.cluster.Alive giver
  short : (t.cluster.count id : Int) + wanted = g.limits.lower
  pos : 1 ≤ wanted
  pending : Pending (Offered options t.cluster) t.cluster giver replicas

namespace Drawing

theorem tail (h : g.Drawing options id giver wanted (i :: rest) t) :
    g.Drawing options id giver wanted rest t :=
  { h with pending := h.pending.tail }

theorem fills (h : g.Drawing options id giver wanted (i :: rest) t)
    (hmoves : g.Moves guards options t [id] i r id t') : g.Fills guards options id t t' where
  few := by
    have hshort := h.short
    have hpos := h.pos
    omega
  moves := by
    obtain ⟨rfl, hoffered, hon⟩ := h.pending.on_source h.sound hmoves
    exact ⟨i, r, h.alive, hoffered, hon, hmoves⟩

theorem next (h : g.Drawing options id giver wanted (i :: rest) t)
    (hmoves : g.Moves guards options t [id] i r id t') (hlt : 1 < wanted) :
    g.Drawing options id giver (wanted - 1) rest t' := by
  have hstates := hmoves.relocated.states_eq
  have hpending := (h.pending.next h.sound hmoves).mono fun r ↦ Offered.congr hstates.symm
  refine ⟨hmoves.relocated.sound h.sound, h.ne, (Cluster.alive_congr hstates).2 h.alive, ?_,
    by omega, hpending⟩
  have hcount := hmoves.count_destination h.sound
  have hshort := h.short
  omega

end Drawing

/-- Drawing takes steps to the broker. -/
theorem Drawn.arrives {x : Except Fault Ending}
    (h : g.Drawn guards options id giver queue wanted replicas t x t')
    (hd : g.Drawing options id giver wanted replicas t) :
    Arrives (g.Fills guards options id) t x t' := by
  induction h with
  | spent => exact ReflTransGen.refl
  | skipped _ _ ih => exact ih hd.tail
  | filled hmoves _ => exact ReflTransGen.single (hd.fills hmoves)
  | overtaken hmoves _ _ => exact ReflTransGen.single (hd.fills hmoves)
  | moved hmoves hlt _ _ ih => exact .head (hd.fills hmoves) (ih (hd.next hmoves hlt))
  | failed hfails => exact .of_fails hfails

theorem Drawn.fills {x : Except Fault Ending} {ending : Ending}
    (h : g.Drawn guards options id giver queue wanted replicas t x t') (hx : x = .ok ending)
    (hd : g.Drawing options id giver wanted replicas t) :
    ReflTransGen (g.Fills guards options id) t t' := by
  subst hx
  exact h.arrives hd

/-- After steps that fill a broker, what is on another one was there before, and does not suit where
it did not before. -/
theorem on_of_fills (hlasting : ∀ γ ∈ guards, γ.IsLasting)
    (h : ReflTransGen (g.Fills guards options id) t t') (ht : t.cluster.Sound) (he : e ≠ id)
    (hon : t'.cluster.On e j r') :
    t.cluster.On e j r' ∧ (g.Suits guards options t'.cluster r' id →
      g.Suits guards options t.cluster r' id) := by
  induction h using ReflTransGen.head_induction_on with
  | refl => exact ⟨hon, fun hsuits ↦ hsuits⟩
  | head hfirst _ ih =>
    obtain ⟨hon', hsuits⟩ := ih ((Step.fills hfirst).sound ht)
    obtain ⟨hon'', hsuits'⟩ := hfirst.on_of_on hlasting ht he hon'
    exact ⟨hon'', hsuits' ∘ hsuits⟩

theorem states_of_fills (h : ReflTransGen (g.Fills guards options id) t t') :
    t'.cluster.states = t.cluster.states := by
  induction h with
  | refl => rfl
  | tail _ hlast ih => exact (Step.fills hlast).states_eq.trans ih

/-- Whatever was tried and is left on an exhausted giver has to stay or does not suit. -/
theorem Drawn.exhausted (hlasting : ∀ γ ∈ guards, γ.IsLasting) {x : Except Fault Ending}
    {left : Nat} (h : g.Drawn guards options id giver queue wanted replicas t x t')
    (hx : x = .ok (.exhausted left)) (hd : g.Drawing options id giver wanted replicas t) :
    ∀ i ∈ replicas, ∀ r, t'.cluster.On giver i r →
      t'.cluster.mustStay options.excludedTopics r = true ∨
        ¬ g.Suits guards options t'.cluster r id := by
  induction h with
  | spent => simp
  | skipped hskip hrest ih =>
    rw [List.forall_mem_cons]
    refine ⟨fun r hon ↦ ?_, ih hx hd.tail⟩
    have hfills := hrest.fills hx hd.tail
    obtain ⟨hon', hsuits⟩ := on_of_fills hlasting hfills hd.sound hd.ne hon
    rw [mustStay_congr (states_of_fills hfills)]
    refine (hskip r hon'.replica?_eq).imp_right fun hnone hsuits' ↦ ?_
    refine hnone id List.mem_cons_self ?_
    obtain rfl := hd.sound.broker_of_on hon'
    obtain ⟨b, hb⟩ := hd.sound.exists_broker?_of_on hon'
    exact (admissible_iff hd.sound hb).2 (hsuits hsuits')
  | filled => cases hx
  | overtaken => cases hx
  | moved hmoves hlt _ hrest ih =>
    have hnext := hd.next hmoves hlt
    rw [List.forall_mem_cons]
    refine ⟨fun r' hon ↦ ?_, ih hx hnext⟩
    exfalso
    obtain ⟨rfl, -, hr⟩ := hd.pending.on_source hd.sound hmoves
    have hon' := (on_of_fills hlasting (hrest.fills hx hnext) hnext.sound hd.ne hon).1
    exact (hmoves.on_of_on hd.sound hr hd.ne hon').2 rfl
  | failed => cases hx

/-! ## While filling -/

/-- Nothing that a giver offers suits a broker. -/
def Spent (g : DistributionGoal) (guards : List Guard) (options : Options) (c : Cluster)
    (id giver : BrokerId) : Prop :=
  ∀ i r, c.On giver i r → Offered options c r →
    c.mustStay options.excludedTopics r = true ∨ ¬ g.Suits guards options c r id

/-- Before each giver that filling takes from its queue: so many replicas are wanted as the broker
is short of the lower limit, and the givers are other brokers that are alive. -/
structure Filling (g : DistributionGoal) (options : Options) (id : BrokerId) (wanted : Nat)
    (queue : List Fullness) (t : Stage) : Prop where
  sound : t.cluster.Sound
  faithful : t.cluster.Faithful g.name (criteria options)
  short : (t.cluster.count id : Int) + wanted = g.limits.lower
  pos : 1 ≤ wanted
  queued : ∀ e ∈ queue, t.cluster.Alive e.broker ∧ e.broker ≠ id

/-- A giver that is spent remains so. -/
theorem Spent.fills (hlasting : ∀ γ ∈ guards, γ.IsLasting)
    (h : g.Spent guards options t.cluster id e) (ht : t.cluster.Sound) (he : e ≠ id)
    (hfills : ReflTransGen (g.Fills guards options id) t t') :
    g.Spent guards options t'.cluster id e := by
  intro i r hon hoff
  obtain ⟨hon', hsuits⟩ := on_of_fills hlasting hfills ht he hon
  rw [mustStay_congr (states_of_fills hfills)]
  exact (h i r hon' (hoff.congr (states_of_fills hfills))).imp_right fun hno hsuits' ↦
    hno (hsuits hsuits')

/-- Steps that fill keep views faithful. -/
theorem faithful_of_fills {name : String} {criteria : Criteria}
    (h : ReflTransGen (g.Fills guards options id) t t') (ht : t.cluster.Sound)
    (hf : t.cluster.Faithful name criteria) :
    t'.cluster.Sound ∧ t'.cluster.Faithful name criteria := by
  obtain ⟨hsound, -, hfaithful⟩ := keeps_of_steps _ (fun h ↦ ⟨g, id, .fills h⟩)
    (fun ht hf h ↦ (Step.fills h).faithful ht hf) h ht hf
  exact ⟨hsound, hfaithful⟩

namespace Filling

/-- The first giver in the queue can be asked what it offers. -/
theorem offers_ne_error {entry : Fullness} {f : Fault}
    (h : g.Filling options id wanted (entry :: queue) t) :
    g.offers t.cluster entry.broker ≠ .error f := by
  obtain ⟨⟨b, hb, -⟩, -⟩ := h.queued entry List.mem_cons_self
  obtain ⟨replicas, hoffers, -⟩ := exists_offers h.sound h.faithful hb
  intro hunoffered
  rw [hoffers] at hunoffered
  cases hunoffered

theorem drawing {entry : Fullness} (h : g.Filling options id wanted (entry :: queue) t)
    (hoffers : g.offers t.cluster entry.broker = .ok replicas) :
    g.Drawing options id entry.broker wanted replicas t ∧
      ∀ i, i ∈ replicas ↔ ∃ r, t.cluster.On entry.broker i r ∧ Offered options t.cluster r := by
  obtain ⟨halive, hne⟩ := h.queued entry List.mem_cons_self
  obtain ⟨b, hb⟩ := halive.imp fun _ ↦ And.left
  obtain ⟨replicas', hoffers', hnodup, hmem⟩ := exists_offers h.sound h.faithful hb
  rw [hoffers] at hoffers'
  obtain rfl := Except.ok.inj hoffers'
  exact ⟨⟨h.sound, hne, halive, h.short, h.pos, fun i ↦ (hmem i).1, hnodup⟩, hmem⟩

/-- Filling goes on with what is left to be filled. -/
theorem next {entry : Fullness} {queue' : List Fullness} {ending : Ending}
    (h : g.Filling options id wanted (entry :: queue) t)
    (hoffers : g.offers t.cluster entry.broker = .ok replicas)
    (hdrawn : g.Drawn guards options id entry.broker queue wanted replicas t (.ok ending) t')
    (hending : ending.isFilled = false)
    (hqueue : ∀ e ∈ queue', e.broker = entry.broker ∨ e ∈ queue) :
    g.Filling options id ending.left queue' t' := by
  obtain ⟨hdrawing, -⟩ := h.drawing hoffers
  have hfills := hdrawn.fills rfl hdrawing
  obtain ⟨hsound, hfaithful⟩ := faithful_of_fills hfills h.sound h.faithful
  obtain ⟨hsum, hleft⟩ := hdrawn.count_eq h.sound rfl h.pos
  have hshort := h.short
  refine ⟨hsound, hfaithful, by omega, hleft hending, fun e he ↦ ?_⟩
  rw [Cluster.alive_congr (states_of_fills hfills)]
  rcases hqueue e he with heq | he
  · rw [heq]
    exact h.queued entry List.mem_cons_self
  · exact h.queued e (List.mem_cons_of_mem _ he)

/-- A giver that was overtaken is queued again. -/
theorem overtaken {entry : Fullness} {n left : Nat}
    (h : g.Filling options id wanted (entry :: queue) t)
    (hoffers : g.offers t.cluster entry.broker = .ok replicas)
    (hdrawn : g.Drawn guards options id entry.broker queue wanted replicas t (.ok (.overtaken left))
      t') : g.Filling options id left (enqueue ⟨n, entry.broker⟩ queue) t' := by
  refine h.next hoffers hdrawn rfl fun e he ↦ ?_
  rcases mem_enqueue.1 he with rfl | he
  · exact .inl rfl
  · exact .inr he

theorem exhausted {entry : Fullness} {left : Nat}
    (h : g.Filling options id wanted (entry :: queue) t)
    (hoffers : g.offers t.cluster entry.broker = .ok replicas)
    (hdrawn : g.Drawn guards options id entry.broker queue wanted replicas t (.ok (.exhausted left))
      t') : g.Filling options id left queue t' :=
  h.next hoffers hdrawn rfl fun _ he ↦ .inr he

end Filling

/-- Filling takes steps to the broker. -/
theorem Filled.arrives {x : Except Fault Bool}
    (h : g.Filled guards options id wanted queue t x t')
    (hf : g.Filling options id wanted queue t) :
    Arrives (g.Fills guards options id) t x t' := by
  induction h with
  | spent => exact ReflTransGen.refl
  | unoffered => exact .here
  | filled hoffers hdrawn => exact hdrawn.fills rfl (hf.drawing hoffers).1
  | overtaken hoffers hdrawn _ ih =>
    have hrest := ih (hf.overtaken hoffers hdrawn)
    exact hrest.trans (hdrawn.fills rfl (hf.drawing hoffers).1)
  | exhausted hoffers hdrawn _ ih =>
    have hrest := ih (hf.exhausted hoffers hdrawn)
    exact hrest.trans (hdrawn.fills rfl (hf.drawing hoffers).1)
  | failed hoffers hdrawn => exact hdrawn.arrives (hf.drawing hoffers).1

/-- Every giver is spent after filling that reports failure. -/
theorem Filled.spent_of_few (hlasting : ∀ γ ∈ guards, γ.IsLasting) {x : Except Fault Bool}
    (h : g.Filled guards options id wanted queue t x t') (hx : x = .ok true)
    (hf : g.Filling options id wanted queue t) (he : e ≠ id)
    (hqueue : (∃ entry ∈ queue, entry.broker = e) ∨ g.Spent guards options t.cluster id e) :
    g.Spent guards options t'.cluster id e := by
  induction h with
  | spent => exact hqueue.resolve_left (by simp)
  | unoffered => cases hx
  | filled => cases hx
  | overtaken hoffers hdrawn _ ih =>
    refine ih hx (hf.overtaken hoffers hdrawn) ?_
    rcases hqueue with ⟨entry, hentry, heq⟩ | hspent
    · refine .inl ?_
      rcases List.mem_cons.1 hentry with rfl | hentry
      · exact ⟨_, mem_enqueue.2 (.inl rfl), heq⟩
      · exact ⟨entry, mem_enqueue.2 (.inr hentry), heq⟩
    · have hfills := hdrawn.fills rfl (hf.drawing hoffers).1
      exact .inr (hspent.fills hlasting hf.sound he hfills)
  | exhausted hoffers hdrawn _ ih =>
    obtain ⟨hdrawing, hmem⟩ := hf.drawing hoffers
    have hfills := hdrawn.fills rfl hdrawing
    refine ih hx (hf.exhausted hoffers hdrawn) ?_
    rcases hqueue with ⟨entry, hentry, rfl⟩ | hspent
    · rcases List.mem_cons.1 hentry with rfl | hentry
      · -- The giver that was exhausted is not queued again, but it is spent.
        refine .inr fun i r hon hoff ↦ ?_
        have hon' := (on_of_fills hlasting hfills hf.sound he hon).1
        have hi := (hmem i).2 ⟨r, hon', hoff.congr (states_of_fills hfills)⟩
        exact hdrawn.exhausted hlasting rfl hdrawing i hi r hon
      · exact .inl ⟨entry, hentry, rfl⟩
    · exact .inr (hspent.fills hlasting hf.sound he hfills)
  | failed => cases hx

end Rebalance.DistributionGoal
