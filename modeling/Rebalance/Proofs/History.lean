import Rebalance.Proofs.Cluster.Census
import Rebalance.Proofs.Distribution.Pursuit

/-!
# Histories

A cluster comes about by operations, one after another, whether they succeed or fail. After any
history a cluster is sound. If moreover what views order by is always a number, it is stable: all
places that tell where a replica is agree.
-/

namespace Rebalance

/-- What can be done to a cluster. -/
inductive Operation where
  | addBroker (id : BrokerId) (rack : Option String) (state : BrokerState)
  | place (tp : TopicPartition) (id : BrokerId) (leads : Bool) (load : Load)
  | setState (id : BrokerId) (state : BrokerState)
  | relocate (tp : TopicPartition) (source destination : BrokerId)
  | passLeadership (tp : TopicPartition) (source destination : BrokerId)
  | track (name : String) (criteria : Criteria)
  | untrack (name : String)
  /-- The distribution goal is pursued, with any guards and options. -/
  | pursue (goal : DistributionGoal) (guards : List Guard) (options : Options)

/-- The state that a computation leaves, whether it ends in a result or a fault. -/
def stateAfter {ε σ α : Type} (x : EStateM ε σ α) (s : σ) : σ :=
  match x s with
  | .ok _ s' => s'
  | .error _ s' => s'

theorem Ends.stateAfter {ε σ α : Type} {x : EStateM ε σ α} {s : σ} {P : σ → Prop}
    (h : Ends x s (fun _ ↦ P) fun _ ↦ P) : P (stateAfter x s) := by
  unfold Ends at h
  unfold Rebalance.stateAfter
  cases hx : x s with
  | ok a s' =>
    rw [hx] at h
    exact h
  | error e s' =>
    rw [hx] at h
    exact h

namespace Operation

/-- The cluster after an operation. -/
def apply (c : Cluster) : Operation → Cluster
  | addBroker id rack state => stateAfter (Cluster.addBroker id rack state) c
  | place tp id leads load => stateAfter (Cluster.place tp id leads load) c
  | setState id state => stateAfter (Cluster.setState id state) c
  | relocate tp source destination => stateAfter (Cluster.relocate tp source destination) c
  | passLeadership tp source destination =>
    stateAfter (Cluster.passLeadership tp source destination) c
  | track name criteria => c.track name criteria
  | untrack name => c.untrack name
  | pursue goal guards options =>
    (stateAfter (DistributionGoal.pursue guards options) (goal, { cluster := c })).2.cluster

/-- A placement puts a load that is a number wherever it is measured, and a view orders by what is
measured; the goal orders by the use of disks. -/
def IsMeasured (measured : Resource → Prop) : Operation → Prop
  | place _ _ _ load => load.IsNumeric measured
  | track _ criteria => ∀ x ∈ criteria.score, measured x
  | pursue _ _ _ => measured .disk
  | _ => True

/-- Whether an operation places a replica. -/
def IsPlacement : Operation → Prop
  | place _ _ _ _ => True
  | _ => False

end Operation

/-- The cluster that comes about by operations. -/
def Cluster.after (operations : List Operation) : Cluster := operations.foldl Operation.apply ∅

theorem Cluster.after_append (operations updates : List Operation) :
    after (operations ++ updates) = updates.foldl Operation.apply (after operations) :=
  List.foldl_append

theorem Cluster.after_track (operations updates : List Operation) (name : String)
    (criteria : Criteria) : after (operations ++ .track name criteria :: updates) =
      updates.foldl Operation.apply ((after operations).track name criteria) :=
  after_append ..

/-! ## Pursuits -/

namespace DistributionGoal

variable {guards : List Guard} {options : Options} {measured : Resource → Prop}

/-- Moves and faults keep a cluster sound, and of its replicas whatever does not depend on where
they are. -/
theorem Law.fixed {α : Type} {f : Replica → α} (hf : ∀ r d, f { r with broker := d } = f r)
    (g : DistributionGoal) (guards : List Guard) (options : Options) (xs : List α) :
    g.Law guards options (fun t ↦ t.cluster.Sound ∧ t.cluster.replicas.map f = xs)
      fun _ t ↦ t.cluster.Sound ∧ t.cluster.replicas.map f = xs where
  moves ht hmoves := by
    refine ⟨hmoves.relocated.sound ht.1, ?_⟩
    obtain ⟨j, r', -, -, hm, hcluster⟩ := hmoves.relocated.cluster
    rw [hcluster, Cluster.map_replicas_moved hf hm.on.replica?_eq]
    exact ht.2
  fails ht hfails := by
    obtain ⟨r, -, -, hf⟩ := hfails.breaks
    refine ⟨hf.sound ht.1, ?_⟩
    cases hf with
    | judging => exact ht.2
    | moving _ _ _ hf => rw [hf.replicas_eq, ht.2]
  offers ht _ := ht
  views ht _ _ := ht

theorem Law.origins (g : DistributionGoal) (guards : List Guard) (options : Options)
    (origins : List (TopicPartition × BrokerId × Load)) :
    g.Law guards options (fun t ↦ t.cluster.Sound ∧ t.cluster.origins = origins)
      fun _ t ↦ t.cluster.Sound ∧ t.cluster.origins = origins :=
  Law.fixed (fun _ _ ↦ rfl) g guards options origins

/-- In stable clusters moves are never refused halfway, so faults leave them stable. -/
theorem Law.stable (g : DistributionGoal) (guards : List Guard) (options : Options)
    (measured : Resource → Prop) :
    g.Law guards options (·.cluster.Stable measured) fun _ t ↦ t.cluster.Stable measured where
  moves ht hmoves := by
    obtain ⟨j, r', -, -, hm, hcluster⟩ := hmoves.relocated.cluster
    rw [hcluster]
    exact ht.moved hm
  fails ht hfails := by
    obtain ⟨r, -, -, hf⟩ := hfails.breaks
    cases hf with
    | judging => exact ht
    | moving _ _ _ hf =>
      rw [ht.eq_of_refused hf]
      exact ht
  offers ht _ := ht
  views ht _ _ := ht

theorem Comes.stateAfter {α : Type} {x : Pursuit DistributionGoal α} {g : DistributionGoal}
    {p : Plan} {outcome : Except Fault α → DistributionGoal → Stage → Prop} {P : Stage → Prop}
    (h : Comes x g p outcome) (hP : ∀ y g' t, outcome y g' t → P t) :
    P (stateAfter x (g, p)).2.stage :=
  Ends.stateAfter (P := fun s : DistributionGoal × Plan ↦ P s.2.stage)
    (h.mono (fun _ _ ↦ hP _ _ _) fun _ _ ↦ hP _ _ _)

/-- What a pursuit leaves is accounted for. -/
theorem exists_account {p : Plan} (h : p.cluster.Sound) (g : DistributionGoal) :
    ∃ x, Account guards options g p x (stateAfter (pursue guards options) (g, p)).1
      (stateAfter (pursue guards options) (g, p)).2 ∧
      ∀ f, x = .error f → ∃ s, pursue guards options (g, p) = .error f s := by
  have hends : Ends (pursue guards options) (g, p) _ _ := ends_pursue h
  unfold Rebalance.stateAfter
  cases hpursue : pursue guards options (g, p) with
  | ok satisfied s =>
    refine ⟨.ok satisfied, hends.of_ok hpursue, ?_⟩
    rintro f ⟨⟩
  | error f s =>
    refine ⟨.error f, hends.of_error hpursue, ?_⟩
    rintro f' ⟨⟩
    exact ⟨s, rfl⟩

/-- A pursuit keeps a cluster sound, and changes of its replicas at most where they are. -/
theorem fixed_pursue {c : Cluster} (h : c.Sound) {α : Type} {f : Replica → α}
    (hf : ∀ r d, f { r with broker := d } = f r) (g : DistributionGoal) :
    ((Operation.pursue g guards options).apply c).Sound ∧
      ((Operation.pursue g guards options).apply c).replicas.map f = c.replicas.map f := by
  refine (comes_pursue h).stateAfter (p := { cluster := c })
    (P := fun t ↦ t.cluster.Sound ∧ t.cluster.replicas.map f = c.replicas.map f)
    fun y g' t hpursued ↦ ?_
  refine hpursued.keeps (fun g ↦ Law.fixed hf g guards options (c.replicas.map f))
    (fun t ht ↦ ht.1) ?_ ?_ ⟨h, rfl⟩
  · intro g t ht
    exact ⟨ht.1.track _ _, ht.2⟩
  · intro g t ht
    exact ⟨ht.1.untrack _, ht.2⟩

theorem sound_pursue {c : Cluster} (h : c.Sound) (g : DistributionGoal) :
    ((Operation.pursue g guards options).apply c).Sound ∧
      ((Operation.pursue g guards options).apply c).origins = c.origins :=
  fixed_pursue h (fun _ _ ↦ rfl) g

theorem stable_pursue {c : Cluster} (h : c.Stable measured) (hdisk : measured .disk)
    (g : DistributionGoal) : ((Operation.pursue g guards options).apply c).Stable measured := by
  refine (comes_pursue h.toSound).stateAfter (p := { cluster := c })
    (P := fun t ↦ t.cluster.Stable measured) fun y g' t hpursued ↦ ?_
  refine hpursued.keeps (fun g ↦ Law.stable g guards options measured) (fun t ht ↦ ht.toSound) ?_ ?_
    h
  · intro g t ht
    refine ht.track g.name ?_
    rintro x ⟨⟩
    exact hdisk
  · intro g t ht
    exact ht.untrack g.name

end DistributionGoal

/-! ## Operations -/

namespace Operation

variable {measured : Resource → Prop} {c : Cluster}

/-- Every operation keeps a cluster sound, and no other than a placement changes the replicas. -/
theorem sound_apply (h : c.Sound) (o : Operation) :
    (o.apply c).Sound ∧ (¬ o.IsPlacement → (o.apply c).origins = c.origins) := by
  cases o with
  | addBroker id rack state =>
    refine Ends.stateAfter (P := fun c' ↦ c'.Sound ∧ (_ → c'.origins = c.origins))
      ((Cluster.ends_addBroker c id rack state).mono ?_ ?_)
    · rintro - c' ⟨hnone, rfl⟩
      exact ⟨h.added hnone rfl rfl, fun _ ↦ rfl⟩
    · rintro - c' rfl
      exact ⟨h, fun _ ↦ rfl⟩
  | place tp id leads load =>
    refine Ends.stateAfter (P := fun c' ↦ c'.Sound ∧ (_ → c'.origins = c.origins))
      ((Cluster.ends_place c tp id leads load).mono ?_ ?_)
    · rintro - c' ⟨r, -, -, -, -, hp, rfl⟩
      exact ⟨h.placed hp, fun hn ↦ absurd trivial hn⟩
    · rintro - c' rfl
      exact ⟨h, fun _ ↦ rfl⟩
  | setState id state =>
    refine Ends.stateAfter (P := fun c' ↦ c'.Sound ∧ (_ → c'.origins = c.origins))
      ((Cluster.ends_setState c id state).mono ?_ ?_)
    · rintro - c' rfl
      exact ⟨h.setState id state, fun _ ↦ rfl⟩
    · rintro - c' rfl
      exact ⟨h, fun _ ↦ rfl⟩
  | relocate tp s d =>
    refine Ends.stateAfter (P := fun c' ↦ c'.Sound ∧ (_ → c'.origins = c.origins))
      ((Cluster.ends_relocate h tp s d).mono ?_ ?_)
    · rintro - c' ⟨i, r, -, -, hm, rfl⟩
      exact ⟨h.moved hm, fun _ ↦ Cluster.origins_moved hm.on.replica?_eq d⟩
    · intro f c' hf
      exact ⟨h.of_refused hf, fun _ ↦ by rw [Cluster.origins, hf.replicas_eq, Cluster.origins]⟩
  | passLeadership tp s d =>
    refine Ends.stateAfter (P := fun c' ↦ c'.Sound ∧ (_ → c'.origins = c.origins))
      ((Cluster.ends_passLeadership c tp s d).mono ?_ ?_)
    · rintro - c' (⟨-, rfl⟩ | ⟨-, i, r, j, -, -, -, -, rfl⟩)
      · exact ⟨h, fun _ ↦ rfl⟩
      · refine ⟨(h.setLeads i false).setLeads j true, fun _ ↦ ?_⟩
        rw [Cluster.origins_setLeads, Cluster.origins_setLeads]
    · rintro - c' rfl
      exact ⟨h, fun _ ↦ rfl⟩
  | track name criteria => exact ⟨h.track name criteria, fun _ ↦ rfl⟩
  | untrack name => exact ⟨h.untrack name, fun _ ↦ rfl⟩
  | pursue g guards options =>
    obtain ⟨hsound, horigins⟩ := DistributionGoal.sound_pursue h g
    exact ⟨hsound, fun _ ↦ horigins⟩

/-- Every operation that is measured keeps a cluster stable. -/
theorem stable_apply (h : c.Stable measured) {o : Operation} (ho : o.IsMeasured measured) :
    (o.apply c).Stable measured := by
  cases o with
  | addBroker id rack state =>
    refine Ends.stateAfter ((Cluster.ends_addBroker c id rack state).mono ?_ ?_)
    · rintro - c' ⟨hnone, rfl⟩
      exact h.added hnone rfl rfl rfl
    · rintro - c' rfl
      exact h
  | place tp id leads load =>
    refine Ends.stateAfter ((Cluster.ends_place c tp id leads load).mono ?_ ?_)
    · rintro - c' ⟨r, -, -, -, rfl, hp, rfl⟩
      exact h.placed hp ho
    · rintro - c' rfl
      exact h
  | setState id state =>
    refine Ends.stateAfter ((Cluster.ends_setState c id state).mono ?_ ?_)
    · rintro - c' rfl
      exact h.setState id state
    · rintro - c' rfl
      exact h
  | relocate tp s d =>
    refine Ends.stateAfter ((h.relocate tp s d).mono (fun _ _ ↦ id) ?_)
    rintro - c' rfl
    exact h
  | passLeadership tp s d =>
    refine Ends.stateAfter ((Cluster.ends_passLeadership c tp s d).mono ?_ ?_)
    · rintro - c' (⟨-, rfl⟩ | ⟨-, i, r, j, -, -, -, -, rfl⟩)
      · exact h
      · exact (h.setLeads i false).setLeads j true
    · rintro - c' rfl
      exact h
  | track name criteria => exact h.track name ho
  | untrack name => exact h.untrack name
  | pursue g guards options => exact DistributionGoal.stable_pursue h ho g

end Operation

/-! ## Histories -/

namespace Cluster

variable {measured : Resource → Prop} {c : Cluster}

/-- A cluster is sound after any history. -/
theorem sound_after (operations : List Operation) : (after operations).Sound := by
  have key : ∀ (operations : List Operation) (c : Cluster), c.Sound →
      (operations.foldl Operation.apply c).Sound := by
    intro operations
    induction operations with
    | nil => exact fun c h ↦ h
    | cons o rest ih => exact fun c h ↦ ih _ (o.sound_apply h).1
  exact key operations ∅ .empty

/-- A cluster is stable after any history of operations that are measured. -/
theorem stable_after {operations : List Operation} (h : ∀ o ∈ operations, o.IsMeasured measured) :
    (after operations).Stable measured := by
  have key : ∀ (operations : List Operation) (c : Cluster),
      (∀ o ∈ operations, o.IsMeasured measured) → c.Stable measured →
      (operations.foldl Operation.apply c).Stable measured := by
    intro operations
    induction operations with
    | nil => exact fun c _ hc ↦ hc
    | cons o rest ih =>
      intro c h hc
      rw [List.forall_mem_cons] at h
      exact ih _ h.2 (Operation.stable_apply hc h.1)
  exact key operations ∅ h .empty

/-! ## Clusters that come about -/

/-- A cluster comes about by operations whose loads and views are measured. -/
def Reachable (measured : Resource → Prop) (c : Cluster) : Prop :=
  ∃ operations : List Operation, (∀ o ∈ operations, o.IsMeasured measured) ∧ c = .after operations

/-- The loads of all replicas are measured. -/
def Numeric (measured : Resource → Prop) (c : Cluster) : Prop :=
  ∀ r ∈ c.replicas, r.load.IsNumeric measured

theorem numeric_iff_origins : c.Numeric measured ↔ ∀ x ∈ c.origins, x.2.2.IsNumeric measured := by
  unfold Numeric origins
  rw [List.forall_mem_map]
  rfl

/-- If loads are measured after an operation, they were before, and the operation changed nothing or
is measured like them. -/
theorem Numeric.of_apply {o : Operation} (hc : c.Sound)
    (ho : ¬ o.IsPlacement → o.IsMeasured measured) (h : (o.apply c).Numeric measured) :
    c.Numeric measured ∧ (o.apply c = c ∨ o.IsMeasured measured) := by
  cases o with
  | place tp id leads load =>
    refine Ends.stateAfter (P := fun c' ↦ c'.Numeric measured →
      c.Numeric measured ∧ (c' = c ∨ load.IsNumeric measured))
      ((ends_place c tp id leads load).mono ?_ ?_) h
    · rintro - c' ⟨r, -, -, -, rfl, -, rfl⟩ hnumeric
      change ∀ r' ∈ c.replicas ++ [r], _ at hnumeric
      rw [List.forall_mem_append, List.forall_mem_singleton] at hnumeric
      exact ⟨hnumeric.1, .inr hnumeric.2⟩
    · rintro - c' rfl hnumeric
      exact ⟨hnumeric, .inl rfl⟩
  | _ =>
    rw [numeric_iff_origins, (Operation.sound_apply hc _).2 id, ← numeric_iff_origins] at h
    exact ⟨h, .inr (ho id)⟩

/-- So placements with other loads, which were refused, may be left out. -/
theorem reachable_after {operations : List Operation}
    (hoperations : ∀ o ∈ operations, ¬ o.IsPlacement → o.IsMeasured measured)
    (hnumeric : (after operations).Numeric measured) : (after operations).Reachable measured := by
  induction operations using List.reverseRecOn with
  | nil => exact ⟨[], fun _ h ↦ absurd h List.not_mem_nil, rfl⟩
  | append_singleton operations o ih =>
    rw [List.forall_mem_append, List.forall_mem_singleton] at hoperations
    have happly : ∀ operations, after (operations ++ [o]) = o.apply (after operations) :=
      fun _ ↦ after_append ..
    rw [happly] at hnumeric ⊢
    obtain ⟨hbefore, heq | ho⟩ := hnumeric.of_apply (sound_after operations) hoperations.2
    · rw [heq]
      exact ih hoperations.1 hbefore
    · obtain ⟨operations', hmeasured, heq⟩ := ih hoperations.1 hbefore
      refine ⟨operations' ++ [o], List.forall_mem_append.2 ⟨hmeasured, ?_⟩, ?_⟩
      · exact List.forall_mem_singleton.2 ho
      · rw [heq, happly]

theorem Reachable.stable (h : c.Reachable measured) : c.Stable measured := by
  obtain ⟨operations, hmeasured, rfl⟩ := h
  exact stable_after hmeasured

end Cluster

end Rebalance
