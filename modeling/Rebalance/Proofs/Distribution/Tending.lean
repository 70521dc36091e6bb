import Rebalance.Proofs.Distribution.Exhaustion
import Rebalance.Proofs.Distribution.Verdict

/-!
# Tending a broker

Tending takes steps on one broker: it is drained if it has too many replicas and filled if it has
too few. Under guards that last, a broker that is recorded was left with nothing that could still be
done for it.
-/

namespace Rebalance.DistributionGoal

open Relation (ReflTransGen)

variable {g g' : DistributionGoal} {guards : List Guard} {options : Options} {t t' : Stage}
  {i : ReplicaId} {r : Replica} {e id : BrokerId} {b b' : Broker} {c : Cluster} {v : View}

/-! ## Draining -/

section

variable (ht : t.cluster.Sound) (hf : t.cluster.Faithful g.name (criteria options))
  (hb : t.cluster.broker? b.id = some b)

include ht hf hb

/-- When draining begins, what is to be tried is what the view shows. -/
theorem emptying_of_tooMany (hmany : g.TooMany b) (hview : b.view g.name = .ok v) :
    g.Emptying options b.id (g.ceiling b) v.replicas (.ofBrokers (g.receivers t.cluster)) t ∧
      ∀ i, i ∈ v.replicas ↔ ∃ r, t.cluster.On b.id i r ∧ (criteria options).admits r = true := by
  obtain ⟨v', hview', hnodup, hmem⟩ := hf.exists_view hb
  rw [hview] at hview'
  obtain rfl := Except.ok.inj hview'
  refine ⟨⟨ht, (Ready.ofReceivers ht).covers, ?_, ?_, fun i ↦ (hmem i).1, hnodup⟩, hmem⟩
  · rwa [count_of_broker? hb]
  · intro halive
    exact if_pos ((alive_iff_isAlive hb).1 halive)

/-- A broker that has too few has too few after it was drained. -/
theorem Lowered.tooFew {many : Bool} (h : g.Lowered guards options b t (.ok many) t')
    (hfew : g.TooFew b) (hb' : t'.cluster.broker? b.id = some b') : g.TooFew b' := by
  have law := Law.sound g guards options t.cluster.states
  obtain ⟨-, hstates⟩ := law.lowered hb h ⟨ht, rfl⟩
  have hle : t'.cluster.count b.id ≤ t.cluster.count b.id := by
    cases h with
    | untouched => exact Nat.le_refl _
    | drained hmany hview hdrained =>
      exact hdrained.count_antitone rfl (emptying_of_tooMany ht hf hb hmany hview).1
  rw [count_of_broker? hb, count_of_broker? hb'] at hle
  obtain ⟨halive, hlt⟩ := hfew
  refine ⟨?_, by omega⟩
  rw [← alive_iff_isAlive hb', Cluster.alive_congr hstates]
  exact ⟨b, hb, halive⟩

variable (hev : g.evacuating = true → b.isAlive = false)

include hev

theorem draining_of_tooMany (hmany : g.TooMany b) (hview : b.view g.name = .ok v) :
    g.Draining options b.id (g.ceiling b) v.replicas (.ofBrokers (g.receivers t.cluster)) t ∧
      ∀ i, i ∈ v.replicas ↔ ∃ r, t.cluster.On b.id i r ∧ (criteria options).admits r = true := by
  obtain ⟨hd, hmem⟩ := emptying_of_tooMany ht hf hb hmany hview
  refine ⟨⟨ht, .ofReceivers ht, hd.more, fun halive ↦ ⟨?_, hd.upper halive⟩, hd.pending⟩, hmem⟩
  rw [alive_iff_isAlive hb] at halive
  rw [← Bool.not_eq_true]
  intro hev'
  rw [hev hev'] at halive
  cases halive

theorem Lowered.arrives {x : Except Fault Bool} (h : g.Lowered guards options b t x t') :
    Arrives (g.Drains guards options b.id) t x t' := by
  cases h with
  | untouched => exact ReflTransGen.refl
  | untracked => exact .here
  | drained hmany hview hdrained =>
    exact hdrained.arrives (draining_of_tooMany ht hf hb hev hmany hview).1

theorem Lowered.more (h : g.Lowered guards options b t (.ok true) t') :
    g.ceiling b < t'.cluster.count b.id := by
  cases h with
  | drained hmany hview hdrained =>
    exact hdrained.more rfl (draining_of_tooMany ht hf hb hev hmany hview).1.emptying

/-- What the view shows of a broker that could not be drained is stuck. -/
theorem Lowered.stuck (hlasting : ∀ γ ∈ guards, γ.IsLasting)
    (h : g.Lowered guards options b t (.ok true) t') (hon : t'.cluster.On b.id i r)
    (hadmits : (criteria options).admits r = true) : g.Stuck guards options t'.cluster r := by
  cases h with
  | drained hmany hview hdrained =>
    obtain ⟨hdraining, hmem⟩ := draining_of_tooMany ht hf hb hev hmany hview
    have hd := hdraining.emptying
    have hi := (hmem i).2 ⟨r, (hdrained.stuck_of_stuck hlasting rfl hd hon).1, hadmits⟩
    exact hdrained.stuck hlasting rfl hd i hi r hon

end

/-! ## Filling -/

section

variable (ht : t.cluster.Sound) (hf : t.cluster.Faithful g.name (criteria options))
  (hb : t.cluster.broker? b.id = some b)

include ht hf hb

/-- When filling begins, so many replicas are wanted as the broker is short of the lower limit. -/
theorem filling_of_tooFew (hfew : g.TooFew b) :
    g.Filling options b.id (g.bottom b - b.count).toNat (g.givers t.cluster) t := by
  have hbottom : g.bottom b = g.limits.lower := if_pos hfew.1
  have hlt := hfew.2
  refine ⟨ht, hf, ?_, ?_, fun e he ↦ ?_⟩
  · rw [hbottom, count_of_broker? hb]
    omega
  · rw [hbottom]
    omega
  · obtain ⟨-, halive, hlow⟩ := (mem_givers ht).1 he
    refine ⟨halive, fun heq ↦ ?_⟩
    rw [heq, count_of_broker? hb] at hlow
    omega

theorem Raised.few (h : g.Raised guards options b t (.ok true) t') :
    (t'.cluster.count b.id : Int) < g.limits.lower := by
  cases h with
  | filled hfew hb' hfilled =>
    rw [hb] at hb'
    obtain rfl := Option.some.inj hb'
    have hfilling := filling_of_tooFew ht hf hb hfew
    have hcount := hfilled.count_eq ht rfl hfilling.pos
    have hshort := hfilling.short
    rw [if_pos rfl] at hcount
    omega

/-- Every other alive broker is spent after one could not be filled. -/
theorem Raised.spent (hlasting : ∀ γ ∈ guards, γ.IsLasting)
    (h : g.Raised guards options b t (.ok true) t') (halive : t.cluster.Alive e) (he : e ≠ b.id) :
    g.Spent guards options t'.cluster b.id e := by
  cases h with
  | filled hfew hb' hfilled =>
    rw [hb] at hb'
    obtain rfl := Option.some.inj hb'
    refine hfilled.spent_of_few hlasting rfl (filling_of_tooFew ht hf hb hfew) he ?_
    by_cases hlow : g.limits.lower < t.cluster.count e
    · exact .inl ⟨⟨t.cluster.count e, e⟩, (mem_givers ht).2 ⟨rfl, halive, hlow⟩, rfl⟩
    · refine .inr fun i r hon _ ↦ .inr fun hsuits ↦ ?_
      have hbroker := ht.broker_of_on hon
      rcases hsuits.within with ⟨-, hdead⟩ | hwithin
      · exact Cluster.not_dead_of_alive halive (hbroker ▸ hdead)
      · have hlow' := hwithin.lower (hbroker.symm ▸ halive)
        rw [hbroker] at hlow'
        omega

end

/-- Filling takes steps to the broker, if it still has too few when it begins. -/
theorem Raised.arrives {x : Except Fault Bool} (ht : t.cluster.Sound)
    (hf : t.cluster.Faithful g.name (criteria options))
    (hfew : ∀ b', t.cluster.broker? b.id = some b' → g.TooFew b → g.TooFew b')
    (h : g.Raised guards options b t x t') : Arrives (g.Fills guards options b.id) t x t' := by
  cases h with
  | untouched => exact ReflTransGen.refl
  | filled hfew' hb' hfilled =>
    rename_i b'
    have hid := Cluster.id_of_broker? hb'
    rw [← hid] at hb' hfilled ⊢
    exact hfilled.arrives (filling_of_tooFew ht hf hb' (hfew b' (hid ▸ hb') hfew'))

/-! ## Both -/

/-- No broker has both too many and too few replicas. -/
theorem not_tooMany_of_tooFew (hlimits : g.limits.lower ≤ g.limits.upper) (hfew : g.TooFew b) :
    ¬ g.TooMany b := by
  rw [tooMany_iff hfew.1]
  have hlt := hfew.2
  omega

/-- Tending takes steps on the broker. -/
theorem Tended.arrives {x : Except Fault Unit} (ht : t.cluster.Sound)
    (hf : t.cluster.Faithful g.name (criteria options))
    (hev : g.evacuating = true → t.cluster.Dead id) (h : Tended guards options id g t x g' t') :
    Arrives (g.Step guards options id) t x t' := by
  have hev' : ∀ {b}, t.cluster.broker? id = some b → g.evacuating = true → b.isAlive = false :=
    fun hb he ↦ (dead_iff_isAlive hb).1 (hev he)
  have hlowered : ∀ {b t'} {x : Except Fault Bool}, t.cluster.broker? id = some b →
      g.Lowered guards options b t x t' → Arrives (g.Step guards options id) t x t' := by
    intro b t' x hb hlowered
    obtain rfl := Cluster.id_of_broker? hb
    exact (hlowered.arrives ht hf hb (hev' hb)).mono fun _ _ ↦ .drains
  have hraised : ∀ {b t' t''} {x : Except Fault Bool}, t.cluster.broker? id = some b →
      g.Lowered guards options b t (.ok false) t' → g.Raised guards options b t' x t'' →
      Arrives (g.Step guards options id) t x t'' := by
    intro b t' t'' x hb hlow hraised
    have hdrains : ReflTransGen (g.Step guards options id) t t' := hlowered hb hlow
    obtain rfl := Cluster.id_of_broker? hb
    obtain ⟨ht', -, hf'⟩ := keeps_of_steps _ (fun h ↦ ⟨g, _, h⟩)
      (fun ht hf h ↦ h.faithful ht hf) hdrains ht hf
    have hfills := hraised.arrives ht' hf' fun b' hb' hfew ↦
      hlow.tooFew ht hf hb hfew hb'
    exact (hfills.mono fun _ _ ↦ .fills).trans hdrains
  cases h with
  | unknown => exact .here
  | exempt => exact ReflTransGen.refl
  | above hb _ hlow => exact hlowered hb hlow
  | undrained hb _ hlow => exact hlowered hb hlow
  | under hb _ hlow hraise => exact hraised hb hlow hraise
  | unfilled hb _ hlow hraise => exact hraised hb hlow hraise
  | balanced hb _ hlow hraise => exact hraised hb hlow hraise

/-- So views stay faithful. -/
theorem Tended.faithful (ht : t.cluster.Sound) (hf : t.cluster.Faithful g.name (criteria options))
    (hev : g.evacuating = true → t.cluster.Dead id)
    (h : Tended guards options id g t (.ok ()) g' t') :
    t'.cluster.Faithful g'.name (criteria options) := by
  have hsteps : ReflTransGen (g.Step guards options id) t t' := h.arrives ht hf hev
  rw [h.alike.name]
  obtain ⟨-, -, hf'⟩ := keeps_of_steps _ (fun h ↦ ⟨g, id, h⟩) (fun ht hf h ↦ h.faithful ht hf)
    hsteps ht hf
  exact hf'

theorem TendedAll.faithful {ids : List BrokerId} {x : Except Fault Unit} (ht : t.cluster.Sound)
    (hf : t.cluster.Faithful g.name (criteria options))
    (hev : g.evacuating = true → ∀ id ∈ ids, t.cluster.Dead id)
    (h : TendedAll guards options ids g t x g' t') (hx : x = .ok ()) :
    t'.cluster.Faithful g'.name (criteria options) := by
  induction h with
  | nil => exact hf
  | cons htended _ ih =>
    obtain ⟨ht', hstates⟩ := htended.sound ht
    have hf' := htended.faithful ht hf fun he ↦ hev he _ List.mem_cons_self
    refine ih ht' hf' (fun he id hid ↦ (Cluster.dead_congr hstates).2 ?_) hx
    exact hev (htended.alike.evacuating.symm.trans he) id (List.mem_cons_of_mem _ hid)
  | failed => cases hx

end Rebalance.DistributionGoal
