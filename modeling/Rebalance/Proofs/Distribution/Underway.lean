import Rebalance.Proofs.Distribution.Views
import Rebalance.Proofs.History

/-!
# Inside a run

A run tracks its views when it is prepared. Whatever it does after that until it is finished, be it
a single move or a whole round, leaves the cluster sound, and the views faithful if the disk loads
are numbers.
-/

namespace Rebalance

namespace Cluster

variable {c : Cluster} {i : ReplicaId} {r : Replica} {d : BrokerId} {name : String}
  {criteria : Criteria}

/-- A cluster is sound, and the views of a name are faithful if what they order by is a number. -/
structure Followed (name : String) (criteria : Criteria) (c : Cluster) : Prop where
  sound : c.Sound
  faithful : (∀ r ∈ c.replicas, (criteria.rank r).score ≠ .nan) → c.Faithful name criteria

theorem Followed.moved (h : c.Followed name criteria) (hm : c.Movable i r d) :
    (c.moved i r d).Followed name criteria where
  sound := h.sound.moved hm
  faithful hnumeric := by
    refine (h.faithful fun r' hr' ↦ ?_).moved h.sound hm
    -- The scores are those of before the move.
    have hscores := map_replicas_moved (f := fun r ↦ (criteria.rank r).score) (fun _ _ ↦ rfl)
      hm.on.replica?_eq d
    have hmem := List.mem_map_of_mem (f := fun r ↦ (criteria.rank r).score) hr'
    rw [← hscores] at hmem
    obtain ⟨r'', hr'', heq⟩ := List.mem_map.1 hmem
    exact heq ▸ hnumeric r'' hr''

end Cluster

namespace DistributionGoal

open Cluster (Followed)

variable {guards : List Guard} {options : Options} {g g' : DistributionGoal} {c : Cluster}
  {p p' : Plan} {id : BrokerId} {ids : List BrokerId}

/-- A goal and a cluster inside a run. The run was prepared on a sound cluster. Since then replicas
were offered to candidates, brokers were tended, and a round was ended that did not finish it. -/
inductive Underway (guards : List Guard) (options : Options) :
    DistributionGoal → Cluster → Prop where
  | prepared {g g' : DistributionGoal} {p p' : Plan} : p.cluster.Sound →
    prepare options ({ g with succeeded := true, finished := false }, p) = .ok () (g', p') →
    Underway guards options g' p'.cluster
  | attempted {g : DistributionGoal} {p p' : Plan} {i : ReplicaId} {candidates : List BrokerId}
    {destination : Option BrokerId} : Underway guards options g p.cluster →
    attempt g.demand guards options .replicaMovement i candidates p = .ok destination p' →
    Underway guards options g p'.cluster
  | tended {g g' : DistributionGoal} {p p' : Plan} {id : BrokerId} :
    Underway guards options g p.cluster → tend guards options id (g, p) = .ok () (g', p') →
    Underway guards options g' p'.cluster
  | closed {g g' : DistributionGoal} {p p' : Plan} : Underway guards options g p.cluster →
    close (g, p) = .ok () (g', p') → g'.finished = false → Underway guards options g' p'.cluster

/-- A goal and a plan when a run on the cluster that comes about by operations was prepared. -/
def started (g : DistributionGoal) (options : Options) (operations : List Operation) :
    DistributionGoal × Plan :=
  stateAfter (prepare options)
    ({ g with succeeded := true, finished := false }, { cluster := .after operations })

/-- If preparing did not fail, the run is underway. -/
theorem Underway.of_started (guards : List Guard) (g : DistributionGoal)
    (operations : List Operation)
    (h : Ends (prepare options)
      ({ g with succeeded := true, finished := false }, { cluster := .after operations })
      (fun _ _ ↦ True) fun _ _ ↦ False) :
    Underway guards options (g.started options operations).1
      (g.started options operations).2.cluster := by
  obtain ⟨⟨⟩, s, hprepare, -⟩ := h.exists_ok
  have hs : g.started options operations = s := by rw [started, stateAfter, hprepare]
  rw [hs]
  exact .prepared (g := g) (Cluster.sound_after operations) hprepare

/-- If views order by numbers before the run, the cluster is stable when it is prepared. -/
theorem stable_started {measured : Resource → Prop} {operations : List Operation}
    (hmeasured : ∀ o ∈ operations, o.IsMeasured measured) (hdisk : measured .disk)
    (g : DistributionGoal) (options : Options) :
    (g.started options operations).2.cluster.Stable measured := by
  have hstable := Cluster.stable_after hmeasured
  refine Ends.stateAfter (P := fun s : DistributionGoal × Plan ↦ s.2.cluster.Stable measured)
    ((ends_prepare g _).mono ?_ ?_)
  · rintro _ s ⟨-, -, -, -, hstage⟩
    have hcluster : s.2.cluster = (Cluster.after operations).track g.name (criteria options) :=
      congrArg Stage.cluster hstage
    rw [hcluster]
    refine hstable.track g.name ?_
    rintro x ⟨⟩
    exact hdisk
  · rintro _ _ ⟨rfl, -⟩
    exact hstable

/-! ## Views inside a run -/

section

variable {t t' : Stage} {name : String} {criteria : Criteria}

/-- Views follow whatever moves. -/
theorem followed_of_relocated {r : Replica} {d : BrokerId} (hmoved : Relocated t r d t')
    (h : t.cluster.Followed name criteria) : t'.cluster.Followed name criteria := by
  obtain ⟨i, r', -, -, hm, hcluster⟩ := hmoved.cluster
  rw [hcluster]
  exact h.moved hm

theorem Law.followed (g : DistributionGoal) (guards : List Guard) (options : Options)
    (name : String) (criteria : Criteria) :
    g.Law guards options (·.cluster.Followed name criteria) fun _ _ ↦ True :=
  .of_moves fun ht h ↦ followed_of_relocated h.relocated ht

theorem Tended.followed (h : Tended guards options id g t (.ok ()) g' t')
    (ht : t.cluster.Followed name criteria) : t'.cluster.Followed name criteria := by
  cases hb : t.cluster.broker? id with
  | some b => exact (Law.followed g guards options name criteria).tended h hb ht
  | none =>
    -- A broker that is not there cannot have been tended.
    cases h with
    | exempt hb' | above hb' | under hb' | balanced hb' =>
      rw [hb] at hb'
      cases hb'

end

namespace Underway

/-- The cluster is sound inside a run, and the views of the goal can be trusted. -/
theorem followed (h : Underway guards options g c) : c.Followed g.name (criteria options) := by
  induction h with
  | @prepared g _ p _ hsound hprepare =>
    obtain ⟨limits, -, -, hg, hstage⟩ := (ends_prepare g p).of_ok hprepare
    have hcluster : _ = p.cluster.track g.name (criteria options) := congrArg Stage.cluster hstage
    dsimp only [Plan.stage] at hg hcluster
    rw [hg, hcluster]
    exact ⟨hsound.track _ _, fun hnumeric ↦ faithful_tracked hsound hnumeric g options⟩
  | @attempted g p p' i candidates destination _ hattempt ih =>
    cases hr : p.cluster.replica? i with
    | none =>
      obtain ⟨-, rfl⟩ := (ends_attempt_none hr candidates).of_ok hattempt
      exact ih
    | some r =>
      have hsettles := (ends_attempt ih.sound hr candidates).of_ok hattempt
      generalize hp' : p'.stage = t' at hsettles
      cases hsettles with
      | declined =>
        have hcluster : p'.cluster = p.cluster := congrArg Stage.cluster hp'
        rw [hcluster]
        exact ih
      | chosen _ _ _ hmoved => exact followed_of_relocated (hp' ▸ hmoved) ih
  | @tended g g' p p' id _ htend ih =>
    have htended := (comes_tend ih.sound id).of_ok htend
    dsimp only at htended
    rw [htended.alike.name]
    exact htended.followed ih
  | @closed g g' p p' _ hclose hfin ih =>
    have hclosed := comes_close.of_ok hclose
    dsimp only at hclosed
    generalize hp' : p'.stage = t' at hclosed
    cases hclosed with
    | finished => cases hfin
    | relaxed _ _ =>
      change g.finished = false at hfin
      rw [if_neg (by simp [hfin])] at hp'
      have hcluster : p'.cluster = p.cluster := congrArg Stage.cluster hp'
      rw [hcluster]
      exact ih

theorem sound (h : Underway guards options g c) : c.Sound := h.followed.sound

/-- With disk loads that are numbers, the views of the goal show what they should. -/
theorem faithful (h : Underway guards options g c)
    (hdisk : ∀ r ∈ c.replicas, r.load.of .disk ≠ .nan) : c.Faithful g.name (criteria options) :=
  h.followed.faithful hdisk

/-! ## Rounds inside a run -/

/-- Tending one broker after another stays inside the run. -/
theorem tendAll (h : Underway guards options g p.cluster)
    (htend : tendAll guards options ids (g, p) = .ok () (g', p')) :
    Underway guards options g' p'.cluster := by
  induction ids generalizing g p g' p' with
  | nil =>
    cases htend
    exact h
  | cons id rest ih =>
    have hends : Ends (DistributionGoal.tendAll guards options (id :: rest)) (g, p)
        (fun _ s ↦ Underway guards options s.1 s.2.cluster) fun _ _ ↦ True := by
      refine .bind ((Ends.self (tend guards options id) (g, p)).mono ?_ fun _ _ _ ↦ trivial)
      rintro ⟨⟩ ⟨g₁, p₁⟩ htend
      refine (Ends.self _ _).mono ?_ fun _ _ _ ↦ trivial
      rintro ⟨⟩ ⟨g₂, p₂⟩ hrest
      exact ih (h.tended htend) hrest
    exact hends.of_ok htend

/-- So does a round that does not finish it. -/
theorem round (h : Underway guards options g p.cluster)
    (hround : round guards options (g, p) = .ok () (g', p')) (hfin : g'.finished = false) :
    Underway guards options g' p'.cluster := by
  have hends : Ends (DistributionGoal.round guards options) (g, p)
      (fun _ s ↦ s.1.finished = false → Underway guards options s.1 s.2.cluster)
      fun _ _ ↦ True := by
    refine .bind (Pursuit.ends_goal (.bind (Pursuit.ends_planning (Planning.ends_cluster
      (.bind ((Ends.self _ _).mono ?_ fun _ _ _ ↦ trivial))))))
    rintro ⟨⟩ ⟨g₁, p₁⟩ htend
    refine (Ends.self close _).mono ?_ fun _ _ _ ↦ trivial
    rintro ⟨⟩ ⟨g₂, p₂⟩ hclose
    exact (h.tendAll htend).closed hclose
  exact hends.of_ok hround hfin

end Underway

end DistributionGoal

end Rebalance
