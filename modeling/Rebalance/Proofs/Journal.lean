import Rebalance.Proofs.Outcome

/-!
# What gets written

Computations only ever add to the journal, whatever they come to. While brokers are tended, all that
is added are moves, what led to them and how brokers came out of it. Only the end of a round may
give up the limits, and that is the last thing it writes.
-/

namespace Rebalance

/-! ## Journals that go on -/

namespace Event

/-- The event belongs to tending brokers. -/
def isRoutine : Event → Bool
  | moved _ | consulted _ | refused _ _ _ | tending _ _ | stillAbove _ _ | stillUnder _ _
  | balanced _ _ => true
  | _ => false

/-- The limits are given up. -/
def isRelaxed : Event → Bool
  | relaxed _ _ => true
  | _ => false

theorem isRelaxed_of_isRoutine {e : Event} (h : e.isRoutine = true) : e.isRelaxed = false := by
  cases e <;> first | rfl | cases h

theorem ne_moved_of_isRelaxed {e : Event} (h : e.isRelaxed = true) (m : Move) : e ≠ .moved m := by
  rintro rfl
  cases h

end Event

namespace Journal

variable {kind kind' : Event → Prop} {j j' j'' : Journal}

@[simp] theorem moves_push_moved (j : Journal) (m : Move) :
    Journal.moves (j.push (.moved m)) = j.moves ++ [m] := by
  unfold moves
  rw [Array.toList_push, List.filterMap_append]
  rfl

theorem moves_push (j : Journal) {e : Event} (h : ∀ m, e ≠ .moved m) :
    Journal.moves (j.push e) = j.moves := by
  unfold moves
  rw [Array.toList_push, List.filterMap_append]
  cases e with
  | moved m => exact absurd rfl (h m)
  | _ => exact List.append_nil _

theorem moves_append (j j' : Journal) : Journal.moves (j ++ j') = j.moves ++ j'.moves := by
  unfold moves
  rw [Array.toList_append, List.filterMap_append]

/-- To give up the limits is no move. -/
theorem moves_relaxed_append {e : Event} (h : e.isRelaxed = true) (j : Journal) :
    Journal.moves (#[e] ++ j) = j.moves := by
  rw [moves_append]
  exact congrArg (· ++ j.moves) (moves_push #[] (Event.ne_moved_of_isRelaxed h))

/-- A journal goes on from another with events of a kind. -/
def Extends (kind : Event → Prop) (j j' : Journal) : Prop :=
  ∃ events : Journal, j' = j ++ events ∧ ∀ e ∈ events, kind e

namespace Extends

theorem refl (j : Journal) : Extends kind j j := ⟨#[], Array.append_empty.symm, by simp⟩

theorem trans (h : Extends kind j j') (h' : Extends kind j' j'') : Extends kind j j'' := by
  obtain ⟨events, rfl, hkind⟩ := h
  obtain ⟨events', rfl, hkind'⟩ := h'
  refine ⟨events ++ events', Array.append_assoc, fun e he ↦ ?_⟩
  rcases Array.mem_append.1 he with he | he
  · exact hkind e he
  · exact hkind' e he

theorem push {e : Event} (h : kind e) : Extends kind j (j.push e) := by
  refine ⟨#[e], Array.push_eq_append, fun e' he ↦ ?_⟩
  rwa [Array.mem_singleton.1 he]

theorem mono (h : Extends kind j j') (hkind : ∀ e, kind e → kind' e) : Extends kind' j j' := by
  obtain ⟨events, rfl, hevents⟩ := h
  exact ⟨events, rfl, fun e he ↦ hkind e (hevents e he)⟩

end Extends

end Journal

/-! ## Computations that write -/

/-- Whatever a computation comes to, it wrote events of a kind and nothing else. -/
def Writes {σ α : Type} (journal : σ → Journal) (kind : Event → Prop) (x : EStateM Fault σ α) :
    Prop :=
  ∀ s, Ends x s (fun _ s' ↦ (journal s).Extends kind (journal s'))
    fun _ s' ↦ (journal s).Extends kind (journal s')

namespace Writes

variable {σ α β : Type} {journal : σ → Journal} {kind : Event → Prop} {x : EStateM Fault σ α}

theorem pure (a : α) : Writes journal kind (Pure.pure a) := fun s ↦ .pure (.refl (journal s))

theorem throw (f : Fault) : Writes journal kind (MonadExcept.throw f : EStateM Fault σ α) :=
  fun s ↦ .throw (.refl (journal s))

theorem except (y : Except Fault α) : Writes journal kind (liftM y : EStateM Fault σ α) :=
  fun s ↦ .except (fun _ _ ↦ .refl (journal s)) fun _ _ ↦ .refl (journal s)

theorem bind {k : α → EStateM Fault σ β} (h : Writes journal kind x)
    (hk : ∀ a, Writes journal kind (k a)) : Writes journal kind (x >>= k) := by
  intro s
  refine .bind ((h s).mono (fun a s' hs' ↦ ?_) fun _ _ ↦ id)
  exact (hk a s').mono (fun _ _ ↦ hs'.trans) fun _ _ ↦ hs'.trans

end Writes

/-- What planning writes. -/
abbrev Planning.Writes {α : Type} (kind : Event → Prop) (x : Planning α) : Prop :=
  Rebalance.Writes Plan.journal kind x

/-- What pursuing a goal writes. -/
abbrev Pursuit.Writes {γ α : Type} (kind : Event → Prop) (x : Pursuit γ α) : Prop :=
  Rebalance.Writes (fun s : γ × Plan ↦ s.2.journal) kind x

namespace Planning

variable {kind : Event → Prop}

theorem writes_record {e : Event} (h : kind e) : Writes kind (record e) :=
  fun _ ↦ ends_record (.push h)

theorem writes_cluster : Writes kind cluster := fun p ↦ ends_cluster (.refl p.journal)

theorem writes_change {α : Type} (x : Cluster.Change α) : Writes kind (change x) := by
  refine fun p ↦ ends_change ?_
  unfold Ends
  cases x p.cluster with
  | ok a c => exact .refl p.journal
  | error f c => exact .refl p.journal

theorem writes_relocate (h : ∀ m, kind (.moved m)) (tp : TopicPartition) (s d : BrokerId) :
    Writes kind (relocate tp s d) :=
  .bind (writes_change _) fun _ ↦ writes_record (h _)

theorem writes_passLeadership (h : ∀ m, kind (.moved m)) (tp : TopicPartition) (s d : BrokerId) :
    Writes kind (passLeadership tp s d) := by
  refine .bind (writes_change _) fun passed ↦ ?_
  cases passed with
  | true => exact .bind (writes_record (h _)) fun _ ↦ .pure _
  | false => exact .bind (.pure _) fun _ ↦ .pure _

end Planning

namespace Pursuit

variable {γ α : Type} {kind : Event → Prop}

theorem writes_planning {x : Planning α} (h : Planning.Writes kind x) :
    Writes kind (liftM x : Pursuit γ α) := fun (_, p) ↦ ends_planning (h p)

theorem writes_goal : Writes kind (goal : Pursuit γ γ) := fun (_, p) ↦ ends_goal (.refl p.journal)

theorem writes_adjust (f : γ → γ) : Writes kind (adjust f) :=
  fun (_, p) ↦ ends_adjust (.refl p.journal)

theorem writes_changeCluster (f : Cluster → Cluster) :
    Writes kind (changeCluster f : Pursuit γ _) :=
  fun (_, p) ↦ ends_changeCluster (.refl p.journal)

end Pursuit

/-! ## Tending brokers -/

section

open Planning (writes_record writes_cluster)

theorem Guard.writes_reviewFrom (a : Action) (guards : List Guard) (place : Nat) :
    Planning.Writes (·.isRoutine) (reviewFrom a place guards) := by
  induction guards generalizing place with
  | nil => exact .pure _
  | cons γ rest ih =>
    unfold reviewFrom
    refine .bind (writes_record rfl) fun _ ↦ .bind writes_cluster fun c ↦
      .bind (.except _) fun verdict ↦ ?_
    cases verdict with
    | accept => exact ih (place + 1)
    | _ =>
      cases a.text? with
      | some text => exact .bind (writes_record rfl) fun _ ↦ .pure _
      | none => exact .throw _

variable (demand : Demand) (guards : List Guard) (options : Options)

theorem Attempt.writes_isAdmitted (r : Replica) (a : Action) :
    Planning.Writes (·.isRoutine) (isAdmitted demand guards r a) := by
  refine .bind writes_cluster fun c ↦ .bind (.except _) fun b ↦ ?_
  split
  · refine .bind (.except _) fun satisfied ↦ ?_
    split
    · exact .bind (Guard.writes_reviewFrom a guards 0) fun _ ↦ .pure _
    · exact .pure _
  · exact .pure _

theorem Attempt.writes_carryOut (a : Action) : Planning.Writes (·.isRoutine) (carryOut a) := by
  unfold carryOut
  split
  · exact .bind (Planning.writes_passLeadership (fun _ ↦ rfl) _ _ _) fun _ ↦ .pure _
  · exact Planning.writes_relocate (fun _ ↦ rfl) _ _ _

theorem Attempt.writes_first (kind : ActionKind) (r : Replica) (candidates : List BrokerId) :
    Planning.Writes (·.isRoutine) (first demand guards kind r candidates) := by
  induction candidates with
  | nil => exact .pure _
  | cons d rest ih =>
    refine .bind (writes_isAdmitted demand guards r _) fun admitted ↦ ?_
    split
    · exact .bind (writes_carryOut _) fun _ ↦ .pure _
    · exact ih

theorem writes_attempt (kind : ActionKind) (i : ReplicaId) (candidates : List BrokerId) :
    Planning.Writes (·.isRoutine) (attempt demand guards options kind i candidates) := by
  unfold attempt
  split
  · refine .bind writes_cluster fun c ↦ ?_
    split
    · exact .pure _
    · exact Attempt.writes_first demand guards kind _ _
  · exact .throw _

end

namespace DistributionGoal

open Planning (writes_record writes_cluster)
open Pursuit (writes_planning writes_goal writes_adjust writes_changeCluster)

variable {guards : List Guard} {options : Options}

theorem writes_drainFrom (g : DistributionGoal) (id : BrokerId) (enough : Int)
    (replicas : List ReplicaId) (s : BrokerSet) :
    Planning.Writes (·.isRoutine) (g.drainFrom guards options id enough replicas s) := by
  induction replicas generalizing s with
  | nil => exact .bind writes_cluster fun _ ↦ .pure _
  | cons i rest ih =>
    unfold drainFrom
    refine .bind writes_cluster fun c ↦ ?_
    split
    · exact ih s
    · refine .bind (writes_attempt _ guards options _ _ _) fun destination ↦ ?_
      cases destination with
      | none => exact ih s
      | some d =>
        refine .bind writes_cluster fun c ↦ ?_
        split
        · exact .pure _
        · exact ih _

theorem writes_drain (g : DistributionGoal) (id : BrokerId) :
    Planning.Writes (·.isRoutine) (g.drain guards options id) :=
  .bind writes_cluster fun _ ↦ .bind (.except _) fun _ ↦ .bind (.except _) fun _ ↦
    g.writes_drainFrom _ _ _ _

theorem writes_drawFrom (g : DistributionGoal) (id giver : BrokerId) (queue : List Fullness)
    (wanted : Nat) (replicas : List ReplicaId) :
    Planning.Writes (·.isRoutine) (g.drawFrom guards options id giver queue wanted replicas) := by
  induction replicas generalizing wanted with
  | nil =>
    unfold drawFrom
    exact .pure _
  | cons i rest ih =>
    unfold drawFrom
    refine .bind writes_cluster fun c ↦ ?_
    split
    · exact ih wanted
    · refine .bind (writes_attempt _ guards options _ _ _) fun destination ↦ ?_
      cases destination with
      | none => exact ih wanted
      | some d =>
        dsimp only
        split
        · exact .pure _
        · refine .bind writes_cluster fun c ↦ ?_
          split
          · exact .pure _
          · exact .bind (ih _) fun _ ↦ .pure _

theorem writes_fillFrom (g : DistributionGoal) (id : BrokerId) (wanted : Nat)
    (queue : List Fullness) :
    Planning.Writes (·.isRoutine) (g.fillFrom guards options id wanted queue) := by
  fun_induction fillFrom g guards options id wanted queue with
  | case1 wanted => exact .pure _
  | case2 wanted giver queue ih₁ ih₂ =>
    refine .bind writes_cluster fun c ↦ .bind (.except _) fun offers ↦
      .bind (g.writes_drawFrom id giver.broker queue wanted offers) fun draw ↦ ?_
    cases draw with
    | filled => exact .pure _
    | overtaken left hlt => exact .bind writes_cluster fun c ↦ ih₁ left hlt c
    | exhausted left hle => exact ih₂ left hle

theorem writes_fill (g : DistributionGoal) (id : BrokerId) :
    Planning.Writes (·.isRoutine) (g.fill guards options id) :=
  .bind writes_cluster fun _ ↦ .bind (.except _) fun _ ↦ g.writes_fillFrom _ _ _

/-- Tending a broker writes only what belongs to it. -/
theorem writes_tend (id : BrokerId) :
    Pursuit.Writes (·.isRoutine) (tend guards options id) := by
  have hnote : ∀ {e : Nat → Event}, (∀ n, (e n).isRoutine = true) →
      Pursuit.Writes (·.isRoutine) (do Planning.record (e ((← Planning.cluster).count id)) :
        Pursuit DistributionGoal Unit) := fun he ↦
    .bind (writes_planning writes_cluster) fun _ ↦ writes_planning (writes_record (he _))
  have hpass : ∀ {x : Planning Bool} {many : Bool} {next : Bool → Pursuit DistributionGoal Unit},
      Planning.Writes (·.isRoutine) x → (∀ y, Pursuit.Writes (·.isRoutine) (next y)) →
      Pursuit.Writes (·.isRoutine) (if many then (x : Pursuit DistributionGoal Bool) >>= next
        else (pure false : Pursuit DistributionGoal Bool) >>= next) := by
    intro x many next hx hnext
    split
    · exact .bind (writes_planning hx) hnext
    · exact .bind (.pure _) hnext
  refine .bind writes_goal fun g ↦ .bind (writes_planning writes_cluster) fun c ↦
    .bind (.except _) fun b ↦ .bind (writes_planning (writes_record rfl)) fun _ ↦ ?_
  extract_lets tooMany tooFew under above
  split
  · exact .pure _
  · split
    · exact .pure _
    · split
      · exact .pure _
      · refine hpass (g.writes_drain id) fun stillAbove ↦ ?_
        cases stillAbove with
        | true => exact .bind (writes_adjust _) fun _ ↦ hnote fun _ ↦ rfl
        | false =>
          refine hpass (g.writes_fill id) fun stillUnder ↦ ?_
          cases stillUnder with
          | true => exact .bind (writes_adjust _) fun _ ↦ hnote fun _ ↦ rfl
          | false => exact hnote fun _ ↦ rfl

theorem writes_tendAll (ids : List BrokerId) :
    Pursuit.Writes (·.isRoutine) (tendAll guards options ids) := by
  induction ids with
  | nil => exact .pure _
  | cons id rest ih => exact .bind (writes_tend id) fun _ ↦ ih

/-! ## Rounds -/

theorem writes_prepare : Pursuit.Writes (·.isRelaxed = false) (prepare options) := by
  refine .bind (writes_adjust _) fun _ ↦ .bind writes_goal fun g ↦
    .bind (writes_planning writes_cluster) fun c ↦ ?_
  split
  · exact .throw _
  · exact .bind (.except _) fun limits ↦ .bind (writes_adjust _) fun _ ↦
      .bind (writes_planning (writes_record rfl)) fun _ ↦ writes_changeCluster _

/-- A report writes at most its event, and leaves it open whether the goal is finished. -/
theorem ends_report_journal {g : DistributionGoal} {p : Plan} (ids : List BrokerId) {e : Event}
    (he : e.isRelaxed = false) :
    Ends (report ids e) (g, p)
      (fun _ s ↦ s.1.finished = g.finished ∧ p.journal.Extends (·.isRelaxed = false) s.2.journal)
      fun _ _ ↦ False := by
  unfold report
  split
  · exact .pure ⟨rfl, .refl p.journal⟩
  · exact .bind (Pursuit.ends_planning (Planning.ends_record
      (Pursuit.ends_adjust ⟨rfl, .push he⟩)))

end DistributionGoal

/-- A journal goes on without giving up the limits, until that ends a round which has not finished
the goal. -/
def Journal.Closes (finished : Bool) (j j' : Journal) : Prop :=
  ∃ j₁, j.Extends (·.isRelaxed = false) j₁ ∧
    if finished then j' = j₁ else ∃ e : Event, e.isRelaxed = true ∧ j' = j₁.push e

theorem Journal.Closes.extends {finished : Bool} {j j' : Journal} (h : j.Closes finished j') :
    j.Extends (fun _ ↦ True) j' := by
  obtain ⟨j₁, hext, hend⟩ := h
  refine (hext.mono fun _ _ ↦ trivial).trans ?_
  split at hend
  · rw [hend]
    exact .refl j₁
  · obtain ⟨e, -, rfl⟩ := hend
    exact .push trivial

namespace DistributionGoal

theorem ends_conclude_journal {g : DistributionGoal} {p : Plan} (left : List BrokerId)
    (hfin : g.finished = false) :
    Ends (conclude left) (g, p) (fun _ s ↦ p.journal.Closes s.1.finished s.2.journal)
      fun _ s ↦ s.2.journal = p.journal := by
  unfold conclude
  refine .bind (Pursuit.ends_goal ?_)
  split
  · exact .bind (Pursuit.ends_adjust (Pursuit.ends_changeCluster ⟨p.journal, .refl _, rfl⟩))
  · split
    · exact .bind (Pursuit.ends_changeCluster (.throw rfl))
    · refine .bind (Pursuit.ends_adjust (.bind (Pursuit.ends_planning (Planning.ends_record ?_))))
      change Ends (if g.finished = true then _ else _) _ _ _
      rw [if_neg (Bool.not_eq_true _ ▸ hfin)]
      refine .pure ⟨p.journal, .refl _, ?_⟩
      change if g.finished = true then _ else _
      rw [hfin]
      exact ⟨_, rfl, rfl⟩

/-- The end of a round gives up the limits last, and only if the goal is not finished by it. -/
theorem ends_close_journal {g : DistributionGoal} {p : Plan} (hfin : g.finished = false) :
    Ends close (g, p) (fun _ s ↦ p.journal.Closes s.1.finished s.2.journal)
      fun _ s ↦ p.journal.Extends (·.isRelaxed = false) s.2.journal := by
  unfold close
  refine .bind (Pursuit.ends_goal (.bind (Pursuit.ends_planning (Planning.ends_cluster ?_))))
  refine .bind ((ends_report_journal _ rfl).mono ?_ fun _ _ ↦ False.elim)
  rintro _ ⟨g₁, p₁⟩ ⟨hfin₁, hj₁⟩
  refine .bind ((ends_report_journal _ rfl).mono ?_ fun _ _ ↦ False.elim)
  rintro _ ⟨g₂, p₂⟩ ⟨hfin₂, hj₂⟩
  refine (ends_conclude_journal _ (hfin₂.trans (hfin₁.trans hfin))).mono ?_ ?_
  · rintro _ s ⟨j, hj, hend⟩
    exact ⟨j, hj₁.trans (hj₂.trans hj), hend⟩
  · rintro _ s hj
    rw [hj]
    exact hj₁.trans hj₂

end DistributionGoal

end Rebalance
