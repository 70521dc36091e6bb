import Rebalance.Distribution.Drain
import Rebalance.Distribution.Fill
import Rebalance.Proofs.Distribution.Demand

/-!
# Passes

How draining and filling proceed, as relations between the stages before and after. Replicas are
offered one by one; each is skipped or moves to the first broker that it is admissible for. What a
pass keeps, and what it achieves, is then shown by induction on these relations.
-/

namespace Rebalance.DistributionGoal

/-! ## Offering a replica -/

section

variable (g : DistributionGoal) (guards : List Guard) (options : Options)

/-- A replica is skipped: it has to stay, or is admissible for no candidate. -/
def Skips (c : Cluster) (candidates : List BrokerId) (i : ReplicaId) : Prop :=
  ∀ r, c.replica? i = some r → c.mustStay options.excludedTopics r = true ∨
    ∀ d ∈ candidates, ¬ Admissible g.demand guards options c r d

/-- A replica that need not stay moves to the first candidate that it is admissible for. -/
structure Moves (t : Stage) (candidates : List BrokerId) (i : ReplicaId) (r : Replica)
    (d : BrokerId) (t' : Stage) : Prop where
  replica : t.cluster.replica? i = some r
  free : t.cluster.mustStay options.excludedTopics r = false
  first : ∃ front back, candidates = front ++ d :: back ∧
    ∀ e ∈ front, ¬ Admissible g.demand guards options t.cluster r e
  admissible : Admissible g.demand guards options t.cluster r d
  relocated : Relocated t r d t'

/-- Offering a replica that need not stay fails. -/
structure Fails (t : Stage) (candidates : List BrokerId) (i : ReplicaId) (f : Fault) (t' : Stage) :
    Prop where
  breaks : ∃ r, t.cluster.replica? i = some r ∧
    t.cluster.mustStay options.excludedTopics r = false ∧
    Attempt.Breaks g.demand guards t r (Attempt.eligible options .replicaMovement r candidates) f t'

variable {g guards options}

theorem Moves.mem {t t' : Stage} {candidates : List BrokerId} {i : ReplicaId} {r : Replica}
    {d : BrokerId} (h : g.Moves guards options t candidates i r d t') : d ∈ candidates := by
  obtain ⟨front, back, rfl, -⟩ := h.first
  exact List.mem_append_right _ List.mem_cons_self

/-- An offered replica is skipped or moves, or offering it fails. -/
theorem ends_offer {α : Type} {p : Plan} (h : p.cluster.Sound) (i : ReplicaId)
    (candidates : List BrokerId) {skip : Planning α} {go : BrokerId → Planning α}
    {post : α → Plan → Prop} {fail : Fault → Plan → Prop}
    (hskip : g.Skips guards options p.cluster candidates i →
      ∀ p' : Plan, p'.stage = p.stage → Ends skip p' post fail)
    (hgo : ∀ r d, ∀ p' : Plan, g.Moves guards options p.stage candidates i r d p'.stage →
      Ends (go d) p' post fail)
    (hfail : ∀ f, ∀ p' : Plan, g.Fails guards options p.stage candidates i f p'.stage → fail f p') :
    Ends (do
      let c ← Planning.cluster
      if (c.replica? i).any (c.mustStay options.excludedTopics) then skip
      else
        let destination ← attempt g.demand guards options .replicaMovement i candidates
        match destination with
        | none => skip
        | some d => go d) p post fail := by
  refine .bind (Planning.ends_cluster ?_)
  cases hr : p.cluster.replica? i with
  | none =>
    have hskip' := hskip fun r hr' ↦ by
      rw [hr] at hr'
      cases hr'
    refine .bind ((ends_attempt_none hr candidates).mono ?_ fun _ _ ↦ False.elim)
    rintro _ p' ⟨rfl, rfl⟩
    exact hskip' p' rfl
  | some r =>
    rw [Option.any_some]
    split
    · rename_i hstay
      refine hskip (fun r' hr' ↦ .inl ?_) p rfl
      rw [hr] at hr'
      rwa [← Option.some.inj hr']
    · rename_i hfree
      rw [Bool.not_eq_true] at hfree
      refine .bind ((ends_attempt h hr candidates).mono ?_ ?_)
      · intro x p' hx
        generalize hp' : p'.stage = t' at hx
        cases hx with
        | declined hnone =>
          refine hskip (fun r' hr' ↦ .inr ?_) p' hp'
          rw [hr] at hr'
          rwa [← Option.some.inj hr']
        | chosen hsplit hfront hadm hmoved =>
          exact hgo r _ p' ⟨hr, hfree, ⟨_, _, hsplit, hfront⟩, hadm, hp' ▸ hmoved⟩
      · intro f p' hf
        exact hfail f p' ⟨r, hr, hfree, hf⟩

section

variable {p p' : Plan} {candidates : List BrokerId} {i : ReplicaId}

/-- An attempt that finds no destination changes nothing. -/
theorem stage_eq_of_attempt (h : p.cluster.Sound)
    (hattempt : attempt g.demand guards options .replicaMovement i candidates p = .ok none p') :
    p'.stage = p.stage := by
  cases hr : p.cluster.replica? i with
  | none => rw [((ends_attempt_none hr candidates).of_ok hattempt).2]
  | some r =>
    have hsettles := (ends_attempt h hr candidates).of_ok hattempt
    generalize p'.stage = t' at hsettles
    cases hsettles with
    | declined => rfl

/-- An attempt that finds one has moved the replica, if it need not stay. -/
theorem exists_moves_of_attempt {d : BrokerId} (h : p.cluster.Sound)
    (hfree : (p.cluster.replica? i).any (p.cluster.mustStay options.excludedTopics) = false)
    (hattempt :
      attempt g.demand guards options .replicaMovement i candidates p = .ok (some d) p') :
    ∃ r, g.Moves guards options p.stage candidates i r d p'.stage := by
  cases hr : p.cluster.replica? i with
  | none => cases ((ends_attempt_none hr candidates).of_ok hattempt).1
  | some r =>
    rw [hr, Option.any_some] at hfree
    have hsettles := (ends_attempt h hr candidates).of_ok hattempt
    generalize p'.stage = t' at hsettles ⊢
    cases hsettles with
    | chosen hsplit hfront hadm hmoved => exact ⟨r, hr, hfree, ⟨_, _, hsplit, hfront⟩, hadm, hmoved⟩

/-- And one that fails has failed on the replica. -/
theorem fails_of_attempt {f : Fault} (h : p.cluster.Sound)
    (hfree : (p.cluster.replica? i).any (p.cluster.mustStay options.excludedTopics) = false)
    (hattempt : attempt g.demand guards options .replicaMovement i candidates p = .error f p') :
    g.Fails guards options p.stage candidates i f p'.stage := by
  cases hr : p.cluster.replica? i with
  | none => cases (ends_attempt_none hr candidates).of_error hattempt
  | some r =>
    rw [hr, Option.any_some] at hfree
    exact ⟨r, hr, hfree, (ends_attempt h hr candidates).of_error hattempt⟩

end

end

/-! ## Draining -/

/-- How draining a broker down to a number of replicas proceeds. -/
inductive Drained (g : DistributionGoal) (guards : List Guard) (options : Options) (id : BrokerId)
    (enough : Int) : List ReplicaId → BrokerSet → Stage → Except Fault Bool → Stage → Prop where
  | spent {s : BrokerSet} {t : Stage} :
    Drained g guards options id enough [] s t (.ok (0 < t.cluster.count id)) t
  | skipped {i : ReplicaId} {rest : List ReplicaId} {s : BrokerSet} {t t' : Stage}
    {x : Except Fault Bool} :
    g.Skips guards options t.cluster s.brokers i →
    Drained g guards options id enough rest s t x t' →
    Drained g guards options id enough (i :: rest) s t x t'
  | moved {i : ReplicaId} {rest : List ReplicaId} {s : BrokerSet} {r : Replica} {d : BrokerId}
    {t t' t'' : Stage} {x : Except Fault Bool} :
    g.Moves guards options t s.brokers i r d t' → enough < t'.cluster.count id →
    Drained g guards options id enough rest (g.reposition t'.cluster d s) t' x t'' →
    Drained g guards options id enough (i :: rest) s t x t''
  | sufficed {i : ReplicaId} {rest : List ReplicaId} {s : BrokerSet} {r : Replica} {d : BrokerId}
    {t t' : Stage} :
    g.Moves guards options t s.brokers i r d t' → t'.cluster.count id ≤ enough →
    Drained g guards options id enough (i :: rest) s t (.ok false) t'
  | failed {i : ReplicaId} {rest : List ReplicaId} {s : BrokerSet} {f : Fault} {t t' : Stage} :
    g.Fails guards options t s.brokers i f t' →
    Drained g guards options id enough (i :: rest) s t (.error f) t'

variable {g : DistributionGoal} {guards : List Guard} {options : Options}

/-- The relation is what the loop does. -/
theorem ends_drainFrom {p : Plan} (h : p.cluster.Sound) (id : BrokerId) (enough : Int)
    (replicas : List ReplicaId) (s : BrokerSet) :
    Ends (g.drainFrom guards options id enough replicas s) p
      (fun x p' ↦ g.Drained guards options id enough replicas s p.stage (.ok x) p'.stage)
      fun f p' ↦ g.Drained guards options id enough replicas s p.stage (.error f) p'.stage := by
  induction replicas generalizing s p with
  | nil => exact .bind (Planning.ends_cluster (.pure .spent))
  | cons i rest ih =>
    unfold drainFrom
    refine ends_offer h i s.brokers ?_ ?_ ?_
    · intro hskip p' hp'
      have hcluster : p'.cluster = p.cluster := congrArg Stage.cluster hp'
      have hrest := ih (hcluster ▸ h) s
      rw [hp'] at hrest
      exact hrest.mono (fun x p'' ↦ .skipped hskip) fun f p'' ↦ .skipped hskip
    · intro r d p' hmoves
      refine .bind (Planning.ends_cluster ?_)
      split
      · rename_i hle
        exact .pure (.sufficed hmoves hle)
      · rename_i hlt
        rw [Int.not_le] at hlt
        have hrest := ih (hmoves.relocated.sound h) (g.reposition p'.cluster d s)
        exact hrest.mono (fun x p'' ↦ .moved hmoves hlt) fun f p'' ↦ .moved hmoves hlt
    · intro f p' hf
      exact .failed hf

/-! ## Drawing from a giver -/

/-- How drawing from a giver ended, and how many replicas are still wanted. -/
inductive Ending where
  | filled
  | overtaken (left : Nat)
  | exhausted (left : Nat)

/-- The ending, with what it says about the number wanted at first left out. -/
def ending {wanted : Nat} : Draw wanted → Ending
  | .filled => .filled
  | .overtaken left _ => .overtaken left
  | .exhausted left _ => .exhausted left

@[simp] theorem ending_widen {wanted wanted' : Nat} (h : wanted ≤ wanted') (draw : Draw wanted) :
    ending (draw.widen h) = ending draw := by
  cases draw <;> rfl

/-- How drawing replicas for a broker from one giver proceeds. -/
inductive Drawn (g : DistributionGoal) (guards : List Guard) (options : Options)
    (id giver : BrokerId) (queue : List Fullness) :
    Nat → List ReplicaId → Stage → Except Fault Ending → Stage → Prop where
  | spent {wanted : Nat} {t : Stage} :
    Drawn g guards options id giver queue wanted [] t (.ok (.exhausted wanted)) t
  | skipped {wanted : Nat} {i : ReplicaId} {rest : List ReplicaId} {t t' : Stage}
    {x : Except Fault Ending} :
    g.Skips guards options t.cluster [id] i →
    Drawn g guards options id giver queue wanted rest t x t' →
    Drawn g guards options id giver queue wanted (i :: rest) t x t'
  | filled {wanted : Nat} {i : ReplicaId} {rest : List ReplicaId} {r : Replica} {t t' : Stage} :
    g.Moves guards options t [id] i r id t' → wanted ≤ 1 →
    Drawn g guards options id giver queue wanted (i :: rest) t (.ok .filled) t'
  | overtaken {wanted : Nat} {i : ReplicaId} {rest : List ReplicaId} {r : Replica} {t t' : Stage} :
    g.Moves guards options t [id] i r id t' → 1 < wanted →
    queue.head?.any (t'.cluster.count giver < ·.count) = true →
    Drawn g guards options id giver queue wanted (i :: rest) t (.ok (.overtaken (wanted - 1))) t'
  | moved {wanted : Nat} {i : ReplicaId} {rest : List ReplicaId} {r : Replica} {t t' t'' : Stage}
    {x : Except Fault Ending} :
    g.Moves guards options t [id] i r id t' → 1 < wanted →
    queue.head?.any (t'.cluster.count giver < ·.count) = false →
    Drawn g guards options id giver queue (wanted - 1) rest t' x t'' →
    Drawn g guards options id giver queue wanted (i :: rest) t x t''
  | failed {wanted : Nat} {i : ReplicaId} {rest : List ReplicaId} {f : Fault} {t t' : Stage} :
    g.Fails guards options t [id] i f t' →
    Drawn g guards options id giver queue wanted (i :: rest) t (.error f) t'

theorem ends_drawFrom {p : Plan} (h : p.cluster.Sound) (id giver : BrokerId)
    (queue : List Fullness) (wanted : Nat) (replicas : List ReplicaId) :
    Ends (g.drawFrom guards options id giver queue wanted replicas) p
      (fun draw p' ↦ g.Drawn guards options id giver queue wanted replicas p.stage
        (.ok (ending draw)) p'.stage)
      fun f p' ↦ g.Drawn guards options id giver queue wanted replicas p.stage (.error f)
        p'.stage := by
  induction replicas generalizing wanted p with
  | nil =>
    unfold drawFrom
    exact .pure .spent
  | cons i rest ih =>
    unfold drawFrom
    refine ends_offer h i [id] ?_ ?_ ?_
    · intro hskip p' hp'
      have hcluster : p'.cluster = p.cluster := congrArg Stage.cluster hp'
      have hrest := ih (hcluster ▸ h) wanted
      rw [hp'] at hrest
      exact hrest.mono (fun x p'' ↦ .skipped hskip) fun f p'' ↦ .skipped hskip
    · intro r d p' hmoves
      obtain rfl := List.mem_singleton.1 hmoves.mem
      split
      · rename_i hle
        exact .pure (.filled hmoves hle)
      · rename_i hlt
        rw [Nat.not_le] at hlt
        refine .bind (Planning.ends_cluster ?_)
        split
        · rename_i hfuller
          exact .pure (.overtaken hmoves hlt hfuller)
        · rename_i hfuller
          rw [Bool.not_eq_true] at hfuller
          refine .bind ((ih (hmoves.relocated.sound h) (wanted - 1)).mono ?_ ?_)
          · intro draw p'' hdraw
            refine .pure ?_
            rw [ending_widen]
            exact .moved hmoves hlt hfuller hdraw
          · intro f p'' hf
            exact .moved hmoves hlt hfuller hf
    · intro f p' hf
      exact .failed hf

/-! ## Filling -/

/-- How filling a broker from a queue of givers proceeds. -/
inductive Filled (g : DistributionGoal) (guards : List Guard) (options : Options) (id : BrokerId) :
    Nat → List Fullness → Stage → Except Fault Bool → Stage → Prop where
  | spent {wanted : Nat} {t : Stage} : Filled g guards options id wanted [] t (.ok true) t
  | unoffered {wanted : Nat} {giver : Fullness} {queue : List Fullness} {f : Fault} {t : Stage} :
    g.offers t.cluster giver.broker = .error f →
    Filled g guards options id wanted (giver :: queue) t (.error f) t
  | filled {wanted : Nat} {giver : Fullness} {queue : List Fullness} {replicas : List ReplicaId}
    {t t' : Stage} :
    g.offers t.cluster giver.broker = .ok replicas →
    g.Drawn guards options id giver.broker queue wanted replicas t (.ok .filled) t' →
    Filled g guards options id wanted (giver :: queue) t (.ok false) t'
  | overtaken {wanted left : Nat} {giver : Fullness} {queue : List Fullness}
    {replicas : List ReplicaId} {t t' t'' : Stage} {x : Except Fault Bool} :
    g.offers t.cluster giver.broker = .ok replicas →
    g.Drawn guards options id giver.broker queue wanted replicas t (.ok (.overtaken left)) t' →
    Filled g guards options id left (enqueue ⟨t'.cluster.count giver.broker, giver.broker⟩ queue)
      t' x t'' →
    Filled g guards options id wanted (giver :: queue) t x t''
  | exhausted {wanted left : Nat} {giver : Fullness} {queue : List Fullness}
    {replicas : List ReplicaId} {t t' t'' : Stage} {x : Except Fault Bool} :
    g.offers t.cluster giver.broker = .ok replicas →
    g.Drawn guards options id giver.broker queue wanted replicas t (.ok (.exhausted left)) t' →
    Filled g guards options id left queue t' x t'' →
    Filled g guards options id wanted (giver :: queue) t x t''
  | failed {wanted : Nat} {giver : Fullness} {queue : List Fullness} {replicas : List ReplicaId}
    {f : Fault} {t t' : Stage} :
    g.offers t.cluster giver.broker = .ok replicas →
    g.Drawn guards options id giver.broker queue wanted replicas t (.error f) t' →
    Filled g guards options id wanted (giver :: queue) t (.error f) t'

/-! ## What passes keep -/

/-- A result comes with a stage of which one thing holds, a fault with one of which another holds.
-/
def Leaves {α : Type} (keep : Stage → Prop) (fail : Fault → Stage → Prop) :
    Except Fault α → Stage → Prop
  | .ok _, t => keep t
  | .error f, t => fail f t

/-- What every single move keeps, and what holds after a fault in between. -/
structure Law (g : DistributionGoal) (guards : List Guard) (options : Options) (keep : Stage → Prop)
    (fail : Fault → Stage → Prop) : Prop where
  moves : ∀ {t t' : Stage} {candidates : List BrokerId} {i : ReplicaId} {r : Replica}
    {d : BrokerId}, keep t → g.Moves guards options t candidates i r d t' → keep t'
  fails : ∀ {t t' : Stage} {candidates : List BrokerId} {i : ReplicaId} {f : Fault},
    keep t → g.Fails guards options t candidates i f t' → fail f t'
  offers : ∀ {t : Stage} {id : BrokerId} {f : Fault},
    keep t → g.offers t.cluster id = .error f → fail f t
  views : ∀ {t : Stage} {id : BrokerId} {b : Broker} {f : Fault},
    keep t → t.cluster.broker? id = some b → b.view g.name = .error f → fail f t

namespace Law

variable {keep : Stage → Prop} {fail : Fault → Stage → Prop} {id giver : BrokerId} {enough : Int}
  {wanted : Nat} {replicas : List ReplicaId} {s : BrokerSet} {queue : List Fullness} {t t' : Stage}

theorem drained (law : g.Law guards options keep fail) {x : Except Fault Bool}
    (h : g.Drained guards options id enough replicas s t x t') (ht : keep t) :
    Leaves keep fail x t' := by
  induction h with
  | spent => exact ht
  | skipped _ _ ih => exact ih ht
  | moved hmoves _ _ ih => exact ih (law.moves ht hmoves)
  | sufficed hmoves _ => exact law.moves ht hmoves
  | failed hf => exact law.fails ht hf

theorem drawn (law : g.Law guards options keep fail) {x : Except Fault Ending}
    (h : g.Drawn guards options id giver queue wanted replicas t x t') (ht : keep t) :
    Leaves keep fail x t' := by
  induction h with
  | spent => exact ht
  | skipped _ _ ih => exact ih ht
  | filled hmoves _ => exact law.moves ht hmoves
  | overtaken hmoves _ _ => exact law.moves ht hmoves
  | moved hmoves _ _ _ ih => exact ih (law.moves ht hmoves)
  | failed hf => exact law.fails ht hf

theorem filled (law : g.Law guards options keep fail) {x : Except Fault Bool}
    (h : g.Filled guards options id wanted queue t x t') (ht : keep t) : Leaves keep fail x t' := by
  induction h with
  | spent => exact ht
  | unoffered hf => exact law.offers ht hf
  | filled _ hdrawn => exact law.drawn hdrawn ht
  | overtaken _ hdrawn _ ih => exact ih (law.drawn hdrawn ht)
  | exhausted _ hdrawn _ ih => exact ih (law.drawn hdrawn ht)
  | failed _ hdrawn => exact law.drawn hdrawn ht

/-- Soundness is kept by moves and by faults, and brokers stay with their states. -/
theorem sound (g : DistributionGoal) (guards : List Guard) (options : Options)
    (states : List (BrokerId × BrokerState)) :
    g.Law guards options (fun t ↦ t.cluster.Sound ∧ t.cluster.states = states)
      fun _ t ↦ t.cluster.Sound ∧ t.cluster.states = states where
  moves ht hmoves :=
    ⟨hmoves.relocated.sound ht.1, hmoves.relocated.states_eq.trans ht.2⟩
  fails ht hfails := by
    obtain ⟨r, -, -, hf⟩ := hfails.breaks
    exact ⟨hf.sound ht.1, hf.states_eq.trans ht.2⟩
  offers ht _ := ht
  views ht _ _ := ht

end Law

theorem ends_fillFrom {p : Plan} (h : p.cluster.Sound) (id : BrokerId) (wanted : Nat)
    (queue : List Fullness) :
    Ends (g.fillFrom guards options id wanted queue) p
      (fun x p' ↦ g.Filled guards options id wanted queue p.stage (.ok x) p'.stage)
      fun f p' ↦ g.Filled guards options id wanted queue p.stage (.error f) p'.stage := by
  fun_induction fillFrom g guards options id wanted queue generalizing p with
  | case1 wanted => exact .pure .spent
  | case2 wanted giver queue ih₁ ih₂ =>
    refine .bind (Planning.ends_cluster (.bind (.except ?_ ?_)))
    · intro replicas hoffers
      refine .bind ((ends_drawFrom h id giver.broker queue wanted replicas).mono ?_ ?_)
      · intro draw p' hdrawn
        obtain ⟨hsound, -⟩ := (Law.sound g guards options _).drawn hdrawn ⟨h, rfl⟩
        cases draw with
        | filled => exact .pure (.filled hoffers hdrawn)
        | overtaken left hlt =>
          refine .bind (Planning.ends_cluster ?_)
          refine (ih₁ left hlt p'.cluster hsound).mono ?_ ?_
          · intro x p'' hx
            exact .overtaken hoffers hdrawn hx
          · intro f p'' hf
            exact .overtaken hoffers hdrawn hf
        | exhausted left hle =>
          refine (ih₂ left hle hsound).mono ?_ ?_
          · intro x p'' hx
            exact .exhausted hoffers hdrawn hx
          · intro f p'' hf
            exact .exhausted hoffers hdrawn hf
      · intro f p' hf
        exact .failed hoffers hf
    · intro f hf
      exact .unoffered hf

end Rebalance.DistributionGoal
