import Idle.Core.Queue
import Idle.Library.Progress

/-!
# The loop of `Scheduler::process` ends

A round of the loop starts or stops a service, and that pushes others. What bounds the loop is that
it neither marks a cluster nor requests anything: a cluster that shall start only moves towards
`running`, and one that shall stop only towards `stopped`, from where it may start once more if the
stop mark was what held it back. The root is counted apart, since any report may start it.
-/

namespace Idle

namespace Phase

/-- The changes of phase that lead to `running`. -/
def toRunning : Phase → Nat
  | running  => 0
  | starting => 1
  | locked   => 2
  | stopped  => 3
  | pending  => 4
  | stopping => 5
  | _        => 0

/-- The changes of phase that lead to `stopped`; a service that is locked has to wait. -/
def toStopped : Phase → Nat
  | stopped  => 0
  | pending  => 1
  | stopping => 2
  | running  => 3
  | starting => 4
  | _        => 0

/-- The way to `running` of a service that has to be stopped before. What is unlocked while its
cluster is marked gets nearer from wherever it was. -/
def throughStopped : Phase → Nat
  | running  => 8
  | stopping => 7
  | starting => 7
  | pending  => 6
  | locked   => 6
  | stopped  => 3
  | _        => 0

lemma toRunning_lt (p : Phase) : p.toRunning < 8 := by
  cases p <;> decide

lemma throughStopped_lt {p : Phase} (hp : p ≠ running) : p.throughStopped < 8 := by
  cases p <;> first | exact absurd rfl hp | decide

lemma stopped_of_isLocked {p : Phase} (hp : p.isLocked = true) :
    stopped.toStopped ≤ p.toStopped ∧ stopped.toRunning ≤ p.throughStopped := by
  cases p <;> first | exact absurd hp (by decide) | decide

lemma eq_running_of_toRunning {p : Phase} (hp : p.next?.isSome) (h : p.toRunning = 0) :
    p = running := by
  cases p <;> first | rfl | exact absurd h (by decide) | exact absurd hp (by decide)

lemma throughStopped_ne_zero {p : Phase} (hp : p.next?.isSome) : p.throughStopped ≠ 0 := by
  cases p <;> first | decide | exact absurd hp (by decide)

lemma toStopped_lt {p : Phase} (hp : p ≠ running) (h : p.toStopped ≤ 3) : p.toStopped < 3 := by
  cases p <;> first | exact absurd rfl hp | exact absurd h (by decide) | decide

/-- A service that is started is further away from `stopped` than before. -/
lemma toStopped_started {p q : Phase} (hp : p = locked ∨ p = stopped)
    (hq : q = starting ∨ q = running) : p.toStopped < q.toStopped := by
  rcases hp with rfl | rfl <;> rcases hq with rfl | rfl <;> decide

/-- A service that is started while it is marked would have its whole way before it. -/
lemma started_of_le {p q : Phase} {b b' : Bool} (hp : p = locked ∨ p = stopped)
    (hq : q = starting ∨ q = running)
    (h : (if b' then q.throughStopped else q.toRunning) ≤
      if b then p.throughStopped else p.toRunning) :
    2 ≤ (if b then p.throughStopped else p.toRunning) ∧
      (if b' then q.throughStopped else q.toRunning) ≤ 1 := by
  revert b b'
  rcases hp with rfl | rfl <;> rcases hq with rfl | rfl <;> decide

end Phase

namespace State

variable {st st' st'' : State} {s t h me : ServiceId} {small : Prop}

/-- The changes of phase a service has left until it stays where its cluster shall be. -/
def remaining (st : State) (s : ServiceId) : Nat :=
  if st.isClusterPushed s then
    if st.isClusterMarkedForStop s then (st.phase s).throughStopped else (st.phase s).toRunning
  else (st.phase s).toStopped

lemma remaining_congr (hcl : st'.cluster s = st.cluster s) (hp : st'.phase s = st.phase s)
    (hm : st'.isMarkedForStop (st.cluster s) = st.isMarkedForStop (st.cluster s))
    (hpush : st'.pushes (st.cluster s) = st.pushes (st.cluster s)) :
    st'.remaining s = st.remaining s := by
  unfold remaining isClusterPushed isClusterMarkedForStop
  rw [hcl, hp, hm, hpush]

/-! ### What a round does to the phases and to the marks -/

/-- Nothing is marked, and no phase changes but that of the root. -/
structure Calm (st st' : State) : Prop where
  topology : st'.toTopology = st.toTopology
  phase : ∀ s, s ≠ st.layout.root → st'.phase s = st.phase s
  marked : st'.isMarkedForStop = st.isMarkedForStop
  pushes : ∀ h, h ≠ st.layout.root → st'.pushes h = st.pushes h

lemma Stirs.calm (h : Stirs st st') : Calm st st' where
  topology := topology_of_away h.away
  phase _ hs := phase_of_away h.away hs
  marked := isMarkedForStop_of_away h.away
  pushes _ hh := pushes_of_away h.away hh

lemma Drops.calm (h : Drops st st') : Calm st st' := by
  have hp := h.pushes
  obtain ⟨u, r, p, d, rfl⟩ := h.frame
  exact ⟨rfl, fun _ _ => rfl, rfl, fun _ _ => congrFun hp _⟩

lemma MissFrame.calm (h : MissFrame st st') : Calm st st' := by
  obtain ⟨i, o, rfl⟩ := h
  exact ⟨rfl, fun _ _ => rfl, rfl, fun _ _ => rfl⟩

/-! ### Starting -/

/-- What a round that starts a service does to the phases: the members of its cluster are locked
if they were not. -/
structure Starts (me : ServiceId) (st st' : State) : Prop where
  topology : st'.toTopology = st.toTopology
  marked : st'.isMarkedForStop = st.isMarkedForStop
  pushes : ∀ h, h ≠ st.layout.root ∨ me = st.layout.root → st'.pushes h = st.pushes h
  self : st'.phase me = .starting ∨ st'.phase me = .running
  others : ∀ t ∈ st.services, t ≠ me → t ≠ st.layout.root →
    st'.phase t = st.phase t ∨
      st.cluster t = st.cluster me ∧ st.phase t = .stopped ∧ st'.phase t = .locked
  outside : me ∈ st.services → ∀ t, t ∉ st.services → st'.phase t = st.phase t

lemma StartFrame.marks (h : StartFrame st st') :
    st'.isMarkedForStop = st.isMarkedForStop ∧ st'.pushes = st.pushes := by
  obtain ⟨p, u, g, c, r, rfl⟩ := h
  exact ⟨rfl, rfl⟩

lemma startSettled_marks (st : State) (me : ServiceId) :
    (st.startSettled me).toTopology = st.toTopology ∧ (st.startSettled me).phase = st.phase ∧
      (st.startSettled me).isMarkedForStop = st.isMarkedForStop ∧
      (st.startSettled me).pushes = st.pushes := by
  unfold startSettled
  split
  · split
    · obtain ⟨t, p, c, heq⟩ := doFinalizeCluster_frame st me
      rw [heq]
      exact ⟨rfl, rfl, rfl, rfl⟩
    · exact ⟨rfl, rfl, rfl, rfl⟩
  · exact ⟨rfl, rfl, rfl, rfl⟩

lemma innerDecremented_marks (st : State) (me : ServiceId) :
    (st.innerDecremented me).isMarkedForStop = st.isMarkedForStop ∧
      (st.innerDecremented me).pushes = st.pushes := by
  unfold innerDecremented
  split
  · exact ⟨rfl, rfl⟩
  · exact ⟨rfl, rfl⟩

/-- The service runs, and whom it reports may start the root. -/
lemma postStartActions_starts (ht : st.IsTree) :
    Starts me st (st.postStartActions onServiceStartable me) := by
  have hframe := startedCore_frame st me
  have hphase := startedCore_phase st me
  rw [postStartActions_eq]
  obtain ⟨hmarked₁, hpushes₁⟩ := hframe.marks
  have htop₁ := hframe.topology
  generalize st.startedCore me = st₁ at hphase htop₁ hmarked₁ hpushes₁
  obtain ⟨hphase₂, htop₂⟩ := innerDecremented_phase st₁ me
  obtain ⟨hmarked₂, hpushes₂⟩ := innerDecremented_marks st₁ me
  have ht₁ : st₁.IsTree := htop₁ ▸ ht
  obtain ⟨hrep, -⟩ := callOnRequiredDecrement_reports startable_reports ht₁ me
  generalize st₁.innerDecremented me = st₂ at hrep hphase₂ htop₂ hmarked₂ hpushes₂
  generalize st₁.callOnRequiredDecrement onServiceStartable me = st₃ at hrep
  obtain ⟨htop₄, hphase₄, hmarked₄, hpushes₄⟩ := startSettled_marks st₃ me
  have hcalm := hrep.toStirs.calm
  have hroot : st₂.layout.root = st.layout.root := by rw [htop₂, htop₁]
  have hrun : st₂.phase me = .running := by rw [hphase₂, hphase, Function.update_self]
  have hother : ∀ t, t ≠ me → t ≠ st.layout.root → (st₃.startSettled me).phase t = st.phase t :=
    fun t htm htr => by
      rw [hphase₄, hcalm.phase t (hroot ▸ htr), hphase₂, hphase, Function.update_of_ne htm]
  refine ⟨?_, ?_, fun h hh => ?_, .inr ?_, fun t _ htm htr => .inl (hother t htm htr),
    fun hme t ht' => hother t (fun h => ht' (h ▸ hme)) fun h => ht' (h ▸ ht.root_mem)⟩
  · rw [htop₄, hcalm.topology, htop₂, htop₁]
  · rw [hmarked₄, hcalm.marked, hmarked₂, hmarked₁]
  · rw [hpushes₄, ← hpushes₁, ← hpushes₂]
    by_cases hr : h = st.layout.root
    · -- the root runs already, so no report starts it
      have hme : me = st.layout.root := hh.resolve_left (not_not.2 hr)
      have hsame := hrep.rootSame (by rw [hroot, ← hme, hrun])
      rw [hr, ← hroot, hsame.pushes]
    · exact hcalm.pushes h (hroot ▸ hr)
  · rw [hphase₄, hrep.keeps_running hrun]

lemma tryStartServiceInplace_starts {ready : Bool} (hl : st.life.Sound False small [])
    (h : st.isStartable me = true) : Starts me st (st.tryStartServiceInplace me ready) := by
  have hp := isStartable_phase h
  have hs := mem_services_of_locked hl.good (hp.imp_right .inl)
  have hframe := doStartEager_frame st me
  have htop₁ := hframe.topology
  obtain ⟨hmarked₁, hpushes₁⟩ := hframe.marks
  obtain ⟨-, -, -, hstarting, houtside⟩ := doStartEager_spec hl.good hl.toTold hs hp
  have hothers : ∀ t ∈ st.services, t ≠ me → (st.doStartEager me).phase t = st.phase t ∨
      st.cluster t = st.cluster me ∧ st.phase t = .stopped ∧
        (st.doStartEager me).phase t = .locked := by
    intro t hts htm
    by_cases hcl : st.cluster t = st.cluster me
    · exact (doStartEager_phase hl.good hs hp htm).imp_right fun h => ⟨hcl, h⟩
    · exact .inl (houtside t hts hcl)
  have hgone : ∀ t, t ∉ st.services → (st.doStartEager me).phase t = st.phase t := by
    intro t hts
    have htm : t ≠ me := fun h => hts (h ▸ hs)
    refine (doStartEager_phase hl.good hs hp htm).resolve_right fun h => hts ?_
    have hstopped : st.life.phase t = .stopped := h.1
    exact (hl.good.initialized t).2 (by rw [hstopped]; rfl)
  unfold tryStartServiceInplace
  simp only
  generalize st.doStartEager me = st₁ at *
  split
  · have hroot : st₁.layout.root = st.layout.root := by rw [htop₁]
    have ht : st.IsTree := hl.good.tree
    have hpost : Starts me st₁ (st₁.postStartActions onServiceStartable me) :=
      postStartActions_starts (htop₁ ▸ ht : st₁.IsTree)
    refine ⟨hpost.topology.trans htop₁, hpost.marked.trans hmarked₁, fun h hh => ?_, hpost.self,
      fun t hts htm htr => ?_, fun _ t hts => ?_⟩
    · rw [hpost.pushes h (hroot ▸ hh), hpushes₁]
    · have hts₁ : t ∈ st₁.services := by rwa [htop₁]
      rcases hpost.others t hts₁ htm (hroot ▸ htr) with hpt | ⟨hcl, hpt, hpt'⟩
      · rw [hpt]
        exact hothers t hts htm
      · rcases hothers t hts htm with hpt₁ | ⟨-, -, hpt₁⟩
        · rw [htop₁] at hcl
          exact .inr ⟨hcl, hpt₁ ▸ hpt, hpt'⟩
        · exact absurd (hpt.symm.trans hpt₁) (by decide)
    · rw [hpost.outside (htop₁ ▸ hs) t (htop₁ ▸ hts), hgone t hts]
  · exact ⟨htop₁, hmarked₁, fun h _ => congrFun hpushes₁ h, .inl hstarting,
      fun t hts htm _ => hothers t hts htm, fun _ => hgone⟩

/-! ### Stopping -/

/-- What a cluster that is unlocked leaves: its members are stopped, and it is not marked. -/
structure Unlocked (h : ServiceId) (st st' : State) : Prop where
  topology : st'.toTopology = st.toTopology
  marked : st'.isMarkedForStop = Function.update st.isMarkedForStop (st.cluster h) false
  pushes : ∀ s, s ≠ st.layout.root → st'.pushes s = st.pushes s
  phase : ∀ s, s ≠ st.layout.root →
    st'.phase s = if s ∈ st.clusterMembers h then .stopped else st.phase s
  quiet : st.isMarkedForStop (st.cluster h) = false → st'.pushes = st.pushes ∧
    ∀ s, st'.phase s = if s ∈ st.clusterMembers h then .stopped else st.phase s

lemma Unlocks.marks {ms : List ServiceId} (h : Unlocks ms st st') :
    st'.isMarkedForStop = st.isMarkedForStop ∧ st'.pushes = st.pushes := by
  obtain ⟨p, u, r, c, d, rfl⟩ := h.frame
  exact ⟨rfl, rfl⟩

lemma doUnlockCluster_unlocked (ht : st.IsTree) (h : ServiceId) :
    Unlocked h st (st.doUnlockCluster onServiceStartable h) := by
  -- the members, the promise, the mark and `onServiceStartable` in the order of the source
  have h₁ := foldl_unlockMember_unlocks (st.clusterMembers h) st
  unfold doUnlockCluster
  simp only
  generalize (st.clusterMembers h).foldl unlockMember st = st₁ at h₁
  obtain ⟨hmarked₁, hpushes₁⟩ := h₁.marks
  have htop₁ := h₁.topology
  have hphase₁ := h₁.phase
  obtain ⟨t, p, c, heq⟩ := transitionTargetCompleteIf_frame st₁ h .stop
  rw [heq]
  have htop₂ : ({ st₁ with target := t, promise := p, completed := c } : State).toTopology =
      st.toTopology := htop₁
  have hphase₂ : ({ st₁ with target := t, promise := p, completed := c } : State).phase =
      st₁.phase := rfl
  have hmarked₂ : ({ st₁ with target := t, promise := p, completed := c } :
      State).isMarkedForStop = st.isMarkedForStop := hmarked₁
  have hpushes₂ : ({ st₁ with target := t, promise := p, completed := c } : State).pushes =
      st.pushes := hpushes₁
  generalize ({ st₁ with target := t, promise := p, completed := c } : State) = st₂ at *
  have ht₂ : st₂.IsTree := htop₂ ▸ ht
  have hstirs := doMarkClusterForStop_stirs startable_reports ht₂ (h := h)
  -- a cluster that is not marked has no mark to take back
  have hsame : st₂.isMarkedForStop (st₂.cluster h) = false →
      st₂.doMarkClusterForStop onServiceStartable h false = st₂ := by
    intro hm
    unfold doMarkClusterForStop
    rw [hm]
    rfl
  generalize st₂.doMarkClusterForStop onServiceStartable h false = st₃ at hstirs hsame
  have hcl : st₂.cluster h = st.cluster h := by rw [htop₂]
  have hroot : st₂.layout.root = st.layout.root := by rw [htop₂]
  have hcalm := hstirs.calm
  have hfinal : Unlocked h st st₃ := by
    refine ⟨hcalm.topology.trans htop₂, ?_, fun s hs => ?_, fun s hs => ?_, fun hm => ?_⟩
    · rw [hcalm.marked, ← hmarked₂, ← hcl]
      rfl
    · rw [← hpushes₂]
      exact hcalm.pushes s (hroot ▸ hs)
    · have hcp := hcalm.phase s (hroot ▸ hs)
      have hun : (st₂.unmarked h).phase s = st₂.phase s := rfl
      rw [hcp, hun, hphase₂, hphase₁]
    · rw [hsame (by rw [hmarked₂, hcl, hm])]
      exact ⟨hpushes₂, fun s => by rw [hphase₂, hphase₁]⟩
  split
  · exact ⟨hfinal.topology, hfinal.marked, hfinal.pushes, hfinal.phase, hfinal.quiet⟩
  · exact hfinal

/-- What a round that stops a service does: when `running_` is zero all members of the cluster are
stopped, and the mark is gone. Of a `small` cluster that is the last member. -/
structure Stops (small : Prop) (me : ServiceId) (st st' : State) : Prop where
  topology : st'.toTopology = st.toTopology
  pushes : ∀ h, h ≠ st.layout.root → st'.pushes h = st.pushes h
  others : ∀ t ∈ st.services, t ≠ me → t ≠ st.layout.root →
    st'.phase t = st.phase t ∧
      st'.isMarkedForStop (st.cluster t) = st.isMarkedForStop (st.cluster t) ∨
    st.cluster t = st.cluster me ∧ st'.phase t = .stopped ∧ (st.phase t).isLocked = true ∧
      (small → st.phase t = .pending)
  self : me ≠ st.layout.root →
    (st'.phase me = .stopping ∨ st'.phase me = .pending) ∧
      st'.isMarkedForStop (st.cluster me) = st.isMarkedForStop (st.cluster me) ∨
    st'.phase me = .stopped
  root : me = st.layout.root →
    st'.isMarkedForStop me = false ∧ st.isMarkedForStop me = true ∨
    st'.isMarkedForStop me = st.isMarkedForStop me ∧ st'.pushes = st.pushes ∧
      (st'.phase me = .stopping ∨ st'.phase me = .pending ∨ st'.phase me = .stopped)
  outside : ∀ t, t ∉ st.services → st'.phase t = st.phase t

/-- A change that only moves counters before a service is stopped. -/
lemma Stops.of_calm (h₁ : Calm st st') (hroot : st'.phase = st.phase ∧ st'.pushes = st.pushes)
    (h₂ : Stops small me st' st'') : Stops small me st st'' := by
  obtain ⟨hphase, hpushes⟩ := hroot
  have htop := h₁.topology
  have hmarked := h₁.marked
  obtain ⟨htop₂, hpushes₂, hothers, hself, hr, hout⟩ := h₂
  rw [htop, hphase] at hout
  rw [hphase, hmarked, htop] at hothers
  rw [hmarked, htop] at hself
  rw [htop, hpushes] at hpushes₂
  rw [htop, hmarked, hpushes] at hr
  exact ⟨htop₂.trans htop, hpushes₂, hothers, hself, hr, hout⟩

/-- By cases on whether the service is the last one of its cluster that is not pending. -/
lemma pend_stops (hg : st.life.Good small) (hs : me ∈ st.services) (hp : st.phase me = .stopping) :
    Stops small me st (({ st with toCore := st.toCore.transition me .stopping .pending } :
      State).callOnClusterRunningDecrement onServiceStartable me) := by
  have ht : st.IsTree := hg.tree
  have hcc : st.cluster (st.cluster me) = st.cluster me := ht.cluster_cluster hs
  have hother : ∀ t, t ≠ me → Function.update st.phase me Phase.pending t = st.phase t :=
    fun t htm => Function.update_of_ne htm _ _
  unfold callOnClusterRunningDecrement
  simp only
  split
  · -- the last member: the whole cluster is unlocked
    rename_i h0
    have h0 : st.running (st.cluster me) - 1 = 0 := by simpa [Core.transition] using h0
    have hun : Unlocked (st.cluster me) { st with
        toCore := { st.toCore.transition me .stopping .pending with
          running := Function.update st.running (st.cluster me) (st.running (st.cluster me) - 1)
          epoch := Function.update st.epoch (st.cluster me) (st.epoch (st.cluster me) + 1) } } _ :=
      doUnlockCluster_unlocked (by exact ht) (st.cluster me)
    have hmem : ∀ t, t ∈ st.clusterMembers (st.cluster me) ↔
        t ∈ st.services ∧ st.cluster t = st.cluster me :=
      fun t => ht.mem_clusterMembers (ht.cluster_mem hs).1 hcc
    -- the others were locked, and pending where the counter is exact
    have hlocked : ∀ t ∈ st.clusterMembers (st.cluster me), t ≠ me →
        (st.phase t).isLocked = true := by
      intro t htm hne
      obtain ⟨hts, hcl⟩ := (hmem t).1 htm
      have hpend : (Function.update st.phase me Phase.pending t).isLocked = true :=
        (hg.pend_count hs hp).2.1 t hts hcl
      rwa [hother t hne] at hpend
    have hpending : small → ∀ t ∈ st.clusterMembers (st.cluster me), t ≠ me →
        st.phase t = .pending := by
      intro hsmall t htm hne
      obtain ⟨hts, hcl⟩ := (hmem t).1 htm
      have hpend : Function.update st.phase me Phase.pending t = .pending :=
        hg.all_pending hs hp (.inl hsmall) (by simpa [Phases.pend, life] using h0) hts hcl
      rwa [hother t hne] at hpend
    have hme : me ∈ st.clusterMembers (st.cluster me) := (hmem me).2 ⟨hs, rfl⟩
    have hin := fun t (hmt : t ∈ st.clusterMembers (st.cluster me)) (htr : t ≠ st.layout.root) =>
      (hun.phase t htr).trans (if_pos hmt)
    have hout := fun t (hmt : t ∉ st.clusterMembers (st.cluster me)) (htr : t ≠ st.layout.root) =>
      (hun.phase t htr).trans ((if_neg hmt).trans (hother t fun h => hmt (h ▸ hme)))
    have hmarked := hun.marked.trans (congrArg (Function.update st.isMarkedForStop · false) hcc)
    refine ⟨hun.topology, hun.pushes, fun t hts htm htr => ?_, fun hr => .inr (hin me hme hr),
      fun hr => ?_, fun t hts => hout t (fun hmt => hts ((hmem t).1 hmt).1)
        fun htr => hts (htr ▸ ht.root_mem)⟩
    · by_cases hmt : t ∈ st.clusterMembers (st.cluster me)
      · exact .inr ⟨((hmem t).1 hmt).2, hin t hmt htr, hlocked t hmt htm,
          fun hsmall => hpending hsmall t hmt htm⟩
      · refine .inl ⟨hout t hmt htr, (congrFun hmarked _).trans ?_⟩
        exact Function.update_of_ne (fun hcl => hmt ((hmem t).2 ⟨hts, hcl⟩)) _ _
    · have hcl : st.cluster me = me := by
        rw [hr]
        exact ht.cluster_root
      have hself := (congrFun hmarked me).trans (by rw [hcl, Function.update_self])
      by_cases hm : st.isMarkedForStop me = true
      · exact .inl ⟨hself, hm⟩
      · -- without a mark on the root its unlock sets nothing in motion
        have hm : st.isMarkedForStop me = false := Bool.not_eq_true _ ▸ hm
        have hmc := (congrArg st.isMarkedForStop (hcc.trans hcl)).trans hm
        obtain ⟨hpushes, hphase⟩ := hun.quiet hmc
        exact .inr ⟨hself.trans hm.symm, hpushes, .inr (.inr ((hphase me).trans (if_pos hme)))⟩
  · -- others of the cluster still run: only the service itself has moved
    refine ⟨rfl, fun _ _ => rfl, fun t _ htm _ => .inl ⟨hother t htm, rfl⟩,
      fun _ => .inl ⟨.inr (Function.update_self ..), rfl⟩, fun _ => .inr ⟨rfl, rfl, .inr (.inl ?_)⟩,
      fun t hts => hother t fun h => hts (h ▸ hs)⟩
    exact Function.update_self ..

lemma postStopActions_stops (hg : st.life.Good small) (hs : me ∈ st.services)
    (hp : st.phase me = .stopping) :
    Stops small me st (st.postStopActions onServiceStartable me) := by
  have hdrops := callOnInnerOutgoingDecrement_drops st me
  have hlife := callOnInnerOutgoingDecrement_life st me
  unfold postStopActions
  simp only
  generalize st.callOnInnerOutgoingDecrement me = st₁ at hdrops hlife
  refine Stops.of_calm hdrops.calm ⟨hdrops.phase, hdrops.pushes⟩ (pend_stops (hlife ▸ hg) ?_ ?_)
  · rw [hdrops.topology]
    exact hs
  · rw [hdrops.phase, hp]

/-- A service that is running is stopped. -/
lemma tryStopServiceInplace_stops {ready : Bool} (hg : st.life.Good small)
    (h : st.isStoppable me = true) (hst : st.trySetServiceStopping me = some st') :
    Stops small me st (st'.tryStopServiceInplace me ready) := by
  obtain ⟨hg', hs', hp'⟩ := stopping_spec hg h hst
  obtain ⟨-, heq⟩ := trySetServiceStopping_eq_some hst
  have hmiss : MissFrame st' (st'.doStopEager me) := callOnRequiredIncrement_frame st' me
  have hlife := doStopEager_life st' me
  have hstop : Stops small me st' (st'.tryStopServiceInplace me ready) := by
    unfold tryStopServiceInplace
    simp only
    have hsame : (st'.doStopEager me).phase = st'.phase ∧
        (st'.doStopEager me).pushes = st'.pushes := by
      obtain ⟨i, o, heq⟩ := hmiss
      rw [heq]
      exact ⟨rfl, rfl⟩
    have hcalm := hmiss.calm
    generalize st'.doStopEager me = st₁ at hmiss hlife hsame hcalm
    have hp₁ : st₁.phase me = .stopping := by rw [hsame.1, hp', Function.update_self]
    split
    · refine Stops.of_calm hcalm hsame (postStopActions_stops (hlife ▸ hg') ?_ hp₁)
      rw [hcalm.topology]
      exact hs'
    · have hp₁' := hsame.1 ▸ hp₁
      exact ⟨hcalm.topology, fun s hs => hcalm.pushes s hs,
        fun t _ _ htr => .inl ⟨hcalm.phase t htr, by rw [hcalm.marked]⟩,
        fun _ => .inl ⟨.inl hp₁, by rw [hcalm.marked]⟩,
        fun _ => .inr ⟨by rw [hcalm.marked], hsame.2, .inl hp₁⟩, fun t _ => congrFun hsame.1 t⟩
  obtain ⟨htop, hpushes, hothers, hself, hroot, hout⟩ := hstop
  have htop' : st'.toTopology = st.toTopology := by rw [heq]; rfl
  have hmarked' : st'.isMarkedForStop = st.isMarkedForStop := by rw [heq]
  have hpushes' : st'.pushes = st.pushes := by rw [heq]
  rw [htop', hpushes'] at hpushes
  rw [htop', hmarked', hp'] at hothers
  rw [htop', hmarked'] at hself
  rw [htop', hmarked', hpushes'] at hroot
  refine ⟨htop.trans htop', hpushes, fun t hts htm htr => ?_, hself, hroot, fun t hts => ?_⟩
  · have hrest := hothers t hts htm htr
    rwa [Function.update_of_ne htm] at hrest
  · have hs : me ∈ st.services := htop' ▸ hs'
    have htm : t ≠ me := fun h => hts (h ▸ hs)
    rw [hout t (htop' ▸ hts), hp', Function.update_of_ne htm]

/-! ### Rounds -/

/-- What became of a service that was taken from the queue. -/
inductive Round (small : Prop) (changing : ServiceId) (st st' : State) : Prop where
  /-- It can neither be stopped nor started now. -/
  | idle (h : st' = st)
  | stop (shall : st.shallClusterStop changing = true) (hp : st.phase changing = .running)
      (h : Stops small changing st st')
  | start (shall : st.shallClusterStart changing = true)
      (hp : st.phase changing = .locked ∨ st.phase changing = .stopped)
      (h : Starts changing st st')

lemma processService_round {ready : Bool} (hl : st.life.Sound False small [])
    (changing : ServiceId) : Round small changing st (st.processService changing ready) := by
  unfold processService
  split
  · rename_i hshall
    split
    · rename_i hstop
      split
      · rename_i stopping hset
        exact .stop hshall (isStoppable_running hstop)
          (tryStopServiceInplace_stops hl.good hstop hset)
      · exact .idle rfl
    · exact .idle rfl
  · split
    · rename_i hshall
      split
      · rename_i hstart
        exact .start hshall (isStartable_phase hstart) (tryStartServiceInplace_starts hl hstart)
      · exact .idle rfl
    · exact .idle rfl

lemma process_round (st : State) (ready : Bool) (hl : st.life.Sound False small []) :
    st.pop = none ∧ st.process ready = st ∨
    ∃ changing popped, st.pop = some (changing, popped) ∧
      Round small changing popped (st.process ready) := by
  rcases hpop : st.pop with - | ⟨changing, popped⟩
  · refine .inl ⟨rfl, ?_⟩
    simp only [process, hpop]
  · refine .inr ⟨changing, popped, rfl, ?_⟩
    have hlife := pop_life hpop
    have heq : st.process ready = popped.processService changing ready := by
      simp only [process, hpop]
    rw [heq]
    exact processService_round (hlife ▸ hl) changing

/-! ### What is left decreases -/

lemma pushed_of_shallClusterStart (h : st.shallClusterStart s = true) :
    st.isClusterPushed s = true ∧ st.isClusterMarkedForStop s = false := by
  simp only [shallClusterStart, Bool.and_eq_true, Bool.not_eq_true'] at h
  exact ⟨h.1.1.1, h.1.2⟩

lemma remaining_of_shallClusterStart (h : st.shallClusterStart s = true) :
    st.remaining s = (st.phase s).toRunning := by
  obtain ⟨hpush, hmark⟩ := pushed_of_shallClusterStart h
  simp [remaining, hpush, hmark]

lemma remaining_of_not_pushed (h : st.isClusterPushed s = false) :
    st.remaining s = (st.phase s).toStopped := by
  simp [remaining, h]

/-- What shall stop and is pushed is marked. -/
lemma remaining_of_shallClusterStop (h : st.shallClusterStop s = true) : st.remaining s =
    if st.isClusterPushed s then (st.phase s).throughStopped else (st.phase s).toStopped := by
  by_cases hpush : st.isClusterPushed s = true
  · have hmark : st.isClusterMarkedForStop s = true := by simpa [shallClusterStop, hpush] using h
    simp [remaining, hpush, hmark]
  · simp [remaining, hpush]

/-- What is stopped has the same way before it whether it is marked or not. -/
lemma remaining_of_stopped (hp : st.phase s = .stopped) :
    st.remaining s = if st.isClusterPushed s then 3 else 0 := by
  unfold remaining
  rw [hp]
  exact if_congr Iff.rfl (ite_self _) rfl

lemma isClusterPushed_congr (ht : st'.toTopology = st.toTopology)
    (hp : st'.pushes (st.cluster s) = st.pushes (st.cluster s)) :
    st'.isClusterPushed s = st.isClusterPushed s := by
  simp only [isClusterPushed, ht, hp]

/-- Nothing gets further away from where it shall be. -/
structure Advances (me : ServiceId) (st st' : State) : Prop where
  topology : st'.toTopology = st.toTopology
  pushes : ∀ h, h ≠ st.layout.root → st'.pushes h = st.pushes h
  others : ∀ t ∈ st.services, t ≠ me → t ≠ st.layout.root → st'.remaining t ≤ st.remaining t
  self : me ≠ st.layout.root → st'.remaining me < st.remaining me

lemma Starts.remaining_self (ht : st.IsTree) (hs : me ∈ st.services) (h : Starts me st st')
    (hshall : st.shallClusterStart me = true)
    (hp : st.phase me = .locked ∨ st.phase me = .stopped) :
    st'.remaining me < st.remaining me := by
  have hcl : st.cluster me ≠ st.layout.root ∨ me = st.layout.root := by
    by_cases hr : me = st.layout.root
    · exact .inr hr
    · exact .inl fun hcl => hr ((ht.cluster_eq_root hs).1 hcl)
  have hpush : st'.isClusterPushed me = true := by
    rw [isClusterPushed_congr h.topology (h.pushes _ hcl)]
    exact (pushed_of_shallClusterStart hshall).1
  have hmark : st'.isClusterMarkedForStop me = false := by
    simp only [isClusterMarkedForStop, h.topology, h.marked]
    exact (pushed_of_shallClusterStart hshall).2
  rw [remaining_of_shallClusterStart hshall]
  have hle : st'.remaining me ≤ 1 := by
    rcases h.self with hp' | hp' <;> simp [remaining, hpush, hmark, hp', Phase.toRunning]
  refine lt_of_le_of_lt hle ?_
  rcases hp with hp | hp <;> rw [hp] <;> decide

lemma Starts.advances (ht : st.IsTree) (hs : me ∈ st.services) (h : Starts me st st')
    (hshall : st.shallClusterStart me = true)
    (hp : st.phase me = .locked ∨ st.phase me = .stopped) : Advances me st st' where
  topology := h.topology
  pushes t htr := h.pushes t (.inl htr)
  self _ := h.remaining_self ht hs hshall hp
  others t hts htm htr := by
    have hcr : st.cluster t ≠ st.layout.root := fun hcl => htr ((ht.cluster_eq_root hts).1 hcl)
    have hcl' : st'.cluster t = st.cluster t := by rw [h.topology]
    have hpush := h.pushes _ (.inl hcr)
    rcases h.others t hts htm htr with hpt | ⟨hcl, hpt, hpt'⟩
    · exact (remaining_congr hcl' hpt (by rw [h.marked]) hpush).le
    · -- the cluster of the service is pushed, so what is locked is closer to `running`
      have hpushed : st.isClusterPushed t = true := by
        unfold isClusterPushed
        rw [hcl]
        exact (pushed_of_shallClusterStart hshall).1
      have hmark : st.isClusterMarkedForStop t = false := by
        unfold isClusterMarkedForStop
        rw [hcl]
        exact (pushed_of_shallClusterStart hshall).2
      have hmark' : st'.isClusterMarkedForStop t = false := by
        rw [← hmark]
        simp only [isClusterMarkedForStop, h.topology, h.marked]
      simp [State.remaining, isClusterPushed_congr h.topology hpush, hpushed, hmark, hmark', hpt,
        hpt', Phase.toRunning]

/-- What was running and shall stop is nearer in every phase on the way to `stopped`. -/
lemma remaining_lt_of_stop (ht : st'.toTopology = st.toTopology)
    (hpush : st'.pushes (st.cluster me) = st.pushes (st.cluster me))
    (hshall : st.shallClusterStop me = true) (hp : st.phase me = .running)
    (hp' : (st'.phase me = .stopping ∨ st'.phase me = .pending) ∧
        st'.isMarkedForStop (st.cluster me) = st.isMarkedForStop (st.cluster me) ∨
      st'.phase me = .stopped) : st'.remaining me < st.remaining me := by
  have hpush' := isClusterPushed_congr ht hpush
  rw [remaining_of_shallClusterStop hshall, hp]
  rcases hp' with ⟨hp', hm⟩ | hp'
  · have hshall' : st'.shallClusterStop me = true := by
      rw [← hshall]
      simp only [shallClusterStop, hpush', isClusterMarkedForStop, ht, hm]
    rw [remaining_of_shallClusterStop hshall', hpush']
    rcases hp' with hp' | hp' <;> rw [hp'] <;> split <;> decide
  · rw [remaining_of_stopped hp', hpush']
    split <;> decide

lemma Stops.advances (ht : st.IsTree) (hs : me ∈ st.services) (h : Stops small me st st')
    (hshall : st.shallClusterStop me = true) (hp : st.phase me = .running) :
    Advances me st st' where
  topology := h.topology
  pushes := h.pushes
  self hr := by
    have hcr : st.cluster me ≠ st.layout.root := fun hcl => hr ((ht.cluster_eq_root hs).1 hcl)
    exact remaining_lt_of_stop h.topology (h.pushes _ hcr) hshall hp (h.self hr)
  others t hts htm htr := by
    have hcr : st.cluster t ≠ st.layout.root := fun hcl => htr ((ht.cluster_eq_root hts).1 hcl)
    have hcl' : st'.cluster t = st.cluster t := by rw [h.topology]
    have hpush := h.pushes _ hcr
    rcases h.others t hts htm htr with ⟨hpt, hm⟩ | ⟨hcl, hpt', hpt, -⟩
    · exact (remaining_congr hcl' hpt hm hpush).le
    · -- the cluster of the service is unlocked, which shall stop
      have hshall : st.shallClusterStop t = true := by
        rw [← hshall]
        simp only [shallClusterStop, isClusterPushed, isClusterMarkedForStop, hcl]
      obtain ⟨hstopped, hrunning⟩ := Phase.stopped_of_isLocked hpt
      rw [remaining_of_stopped hpt', remaining_of_shallClusterStop hshall,
        isClusterPushed_congr h.topology hpush]
      split
      · exact hrunning
      · exact hstopped

/-- The root, once stopped, is not marked any more, or waits for somebody to start it. -/
lemma Stops.root_weight (ht : st.IsTree) (h : Stops small st.layout.root st st')
    (hshall : st.shallClusterStop st.layout.root = true)
    (hp : st.phase st.layout.root = .running) :
    st'.isMarkedForStop st.layout.root = false ∧ st.isMarkedForStop st.layout.root = true ∨
      st'.isMarkedForStop st.layout.root = st.isMarkedForStop st.layout.root ∧
        st'.remaining st.layout.root < st.remaining st.layout.root := by
  rcases h.root rfl with hm | ⟨hm, hpush, hp'⟩
  · exact .inl hm
  · refine .inr ⟨hm, ?_⟩
    refine remaining_lt_of_stop h.topology (by rw [hpush]) hshall hp ?_
    rw [ht.cluster_root]
    rcases hp' with hp' | hp' | hp'
    · exact .inl ⟨.inl hp', hm⟩
    · exact .inl ⟨.inr hp', hm⟩
    · exact .inr hp'

/-! ### The loop -/

/-- `SchedulingQueue::empty` -/
abbrev Drained (st : State) : Prop := st.down = [] ∧ st.up = []

/-- Everything a round may decrease, the most important first: what is left for the services, the
mark of the root and what is left for it, and the length of the queue. -/
def weight (st : State) : Nat ×ₗ Nat ×ₗ Nat ×ₗ Nat :=
  toLex (((st.services.filter fun s => s ≠ st.layout.root).map st.remaining).sum,
    toLex ((st.isMarkedForStop st.layout.root).toNat,
      toLex (st.remaining st.layout.root, st.down.length + st.up.length)))

lemma Advances.sum_le (h : Advances me st st') :
    ((st.services.filter fun s => s ≠ st.layout.root).map st'.remaining).sum ≤
      ((st.services.filter fun s => s ≠ st.layout.root).map st.remaining).sum := by
  refine List.sum_le_sum fun t ht => ?_
  obtain ⟨hts, htr⟩ := List.mem_filter.1 ht
  have htr : t ≠ st.layout.root := of_decide_eq_true htr
  by_cases htm : t = me
  · exact htm ▸ (h.self (htm ▸ htr)).le
  · exact h.others t hts htm htr

lemma Advances.sum_lt (h : Advances me st st') (hs : me ∈ st.services)
    (hr : me ≠ st.layout.root) :
    ((st.services.filter fun s => s ≠ st.layout.root).map st'.remaining).sum <
      ((st.services.filter fun s => s ≠ st.layout.root).map st.remaining).sum := by
  refine List.sum_lt_sum _ _ (fun t ht => ?_)
    ⟨me, List.mem_filter.2 ⟨hs, decide_eq_true hr⟩, h.self hr⟩
  obtain ⟨hts, htr⟩ := List.mem_filter.1 ht
  have htr : t ≠ st.layout.root := of_decide_eq_true htr
  by_cases htm : t = me
  · exact htm ▸ (h.self (htm ▸ htr)).le
  · exact h.others t hts htm htr

/-- A round that starts or stops the root leaves the others at least as close. -/
lemma Advances.weight_lt_of_root (h : Advances st.layout.root st st')
    (hroot : st'.isMarkedForStop st.layout.root = false ∧
        st.isMarkedForStop st.layout.root = true ∨
      st'.isMarkedForStop st.layout.root = st.isMarkedForStop st.layout.root ∧
        st'.remaining st.layout.root < st.remaining st.layout.root) :
    st'.weight < st.weight := by
  unfold weight
  rw [h.topology, Prod.Lex.toLex_lt_toLex]
  refine h.sum_le.lt_or_eq.imp id fun heq => ⟨heq, ?_⟩
  rw [Prod.Lex.toLex_lt_toLex]
  rcases hroot with ⟨hm', hm⟩ | ⟨hm, hlt⟩
  · rw [hm', hm]
    exact .inl Nat.zero_lt_one
  · exact .inr ⟨by rw [hm], by rw [Prod.Lex.toLex_lt_toLex]; exact .inl hlt⟩

lemma Round.weight_lt (hg : st.life.Good small) (h : Round small me st st') (hne : st' ≠ st) :
    st'.weight < st.weight := by
  have ht : st.IsTree := hg.tree
  have hmem : Advances me st st' → me ≠ st.layout.root → me ∈ st.services →
      st'.weight < st.weight := by
    intro hadv hr hs
    unfold weight
    rw [hadv.topology, Prod.Lex.toLex_lt_toLex]
    exact .inl (hadv.sum_lt hs hr)
  cases h with
  | idle h => exact absurd h hne
  | stop shall hp h =>
    have hs := mem_services_of_locked hg (.inr (.inr hp))
    have hadv := h.advances ht hs shall hp
    by_cases hr : me = st.layout.root
    · subst hr
      exact hadv.weight_lt_of_root (h.root_weight ht shall hp)
    · exact hmem hadv hr hs
  | start shall hp h =>
    have hs := mem_services_of_locked hg (hp.imp_right .inl)
    have hadv := h.advances ht hs shall hp
    by_cases hr : me = st.layout.root
    · subst hr
      exact hadv.weight_lt_of_root
        (.inr ⟨by rw [h.marked], h.remaining_self ht hs shall hp⟩)
    · exact hmem hadv hr hs

/-- What is taken from the queue makes it shorter, and nothing else changes. -/
lemma pop_frame (h : st.pop = some (s, st')) : ∃ down up, st' = { st with down := down, up := up } ∧
    down.length + up.length < st.down.length + st.up.length := by
  rcases pop_eq_some h with ⟨hd, heq⟩ | ⟨-, hu, heq⟩
  · refine ⟨st'.down, st.up, heq, ?_⟩
    rw [hd]
    simp
  · refine ⟨st.down, st'.up, heq, ?_⟩
    rw [hu]
    simp

lemma pop_weight (h : st.pop = some (s, st')) : st'.weight < st.weight := by
  obtain ⟨down, up, rfl, hlt⟩ := pop_frame h
  refine Prod.Lex.toLex_lt_toLex.2 (.inr ⟨rfl, ?_⟩)
  refine Prod.Lex.toLex_lt_toLex.2 (.inr ⟨rfl, ?_⟩)
  exact Prod.Lex.toLex_lt_toLex.2 (.inr ⟨rfl, hlt⟩)

/-- Every round of the loop decreases the weight. -/
lemma process_weight {ready : Bool} (hl : st.life.Sound False small []) (hne : ¬ st.Drained) :
    (st.process ready).weight < st.weight := by
  rcases process_round st ready hl with ⟨hpop, -⟩ | ⟨changing, popped, hpop, hround⟩
  · refine absurd ?_ hne
    unfold pop at hpop
    split at hpop
    · cases hpop
    · rename_i hd
      split at hpop
      · cases hpop
      · rename_i hu
        exact ⟨List.getLast?_eq_none_iff.1 hd, List.getLast?_eq_none_iff.1 hu⟩
  · have hlife : popped.life = st.life := pop_life hpop
    by_cases heq : st.process ready = popped
    · rw [heq]
      exact pop_weight hpop
    · exact (hround.weight_lt (hlife ▸ hl.good) heq).trans (pop_weight hpop)

/-- An empty queue ends the loop. -/
lemma process_drained {ready : Bool} (h : st.Drained) : st.process ready = st := by
  obtain ⟨hd, hu⟩ := h
  simp [process, pop, hd, hu]

/-- A round leaves every service as close to where it shall be as it was. -/
lemma process_remaining (ready : Bool) (hl : st.life.Sound False small []) :
    (st.process ready).toTopology = st.toTopology ∧
      (∀ h, h ≠ st.layout.root → (st.process ready).pushes h = st.pushes h) ∧
      ∀ t ∈ st.services, t ≠ st.layout.root →
        (st.process ready).remaining t ≤ st.remaining t := by
  rcases process_round st ready hl with ⟨-, heq⟩ | ⟨changing, popped, hpop, hround⟩
  · rw [heq]
    exact ⟨rfl, fun _ _ => rfl, fun _ _ _ => le_rfl⟩
  · have hlife : popped.life = st.life := pop_life hpop
    obtain ⟨down, up, rfl, -⟩ := pop_frame hpop
    have ht : st.IsTree := hl.good.tree
    have hadv : Advances changing ({ st with down := down, up := up } : State) (st.process ready) →
        (st.process ready).toTopology = st.toTopology ∧
        (∀ h, h ≠ st.layout.root → (st.process ready).pushes h = st.pushes h) ∧
        ∀ t ∈ st.services, t ≠ st.layout.root →
          (st.process ready).remaining t ≤ st.remaining t := by
      intro hadv
      refine ⟨hadv.topology, hadv.pushes, fun t hts htr => ?_⟩
      by_cases htm : t = changing
      · subst htm
        exact (hadv.self htr).le
      · exact hadv.others t hts htm htr
    cases hround with
    | idle h =>
      rw [h]
      exact ⟨rfl, fun _ _ => rfl, fun _ _ _ => le_rfl⟩
    | stop shall hp h =>
      exact hadv (h.advances ht (mem_services_of_locked hl.good (.inr (.inr hp))) shall hp)
    | start shall hp h =>
      exact hadv (h.advances ht (mem_services_of_locked hl.good (hp.imp_right .inl)) shall hp)

end State

open State Machine

/-- From some point on, nothing but the loop of `Scheduler::process` runs. The hooks that it calls
answer what they want, but leave the core alone: none of them initialises, destroys, connects or
requests a service before the loop ends. -/
def OnlyProcesses {L : Layout} (r : (system L).Path fun _ _ => True) (N : Nat) : Prop :=
  ∀ n, N ≤ n → ∃ ready, r.op n = .process ready

lemma OnlyProcesses.next {L : Layout} {r : (system L).Path fun _ _ => True} {N n : Nat}
    (h : OnlyProcesses r N) (hn : N ≤ n) :
    ∃ ready, r.state (n + 1) = (r.state n).process ready := by
  obtain ⟨ready, hop⟩ := h n hn
  refine ⟨ready, ?_⟩
  rw [r.next, hop]
  rfl

/-- `Scheduler::process` ends: however the requests before it were interleaved, and whatever the
hooks answer that it calls, as long as they leave the core alone, the queue is empty after finitely
many rounds and stays empty. -/
theorem process_drains {L : Layout} (r : (system L).Path fun _ _ => True) {N : Nat}
    (h : OnlyProcesses r N) :
    ∃ n, N ≤ n ∧ ∀ m, n ≤ m → r.state m = r.state n ∧ (r.state m).Drained := by
  obtain ⟨n, hn, hd⟩ := r.exists_done State.weight State.Drained (N := N)
    fun n hn hd => by
      obtain ⟨ready, hnext⟩ := h.next hn
      rw [hnext]
      exact process_weight (Reachable.sound (r.reachable n)) hd
  refine ⟨n, hn, fun m hm => ?_⟩
  refine r.kept (P := fun x => x = r.state n ∧ x.Drained) (N := N) (fun k hk hx => ?_) hn hm
    ⟨rfl, hd⟩
  obtain ⟨ready, hnext⟩ := h.next hk
  rw [hnext, process_drained hx.2]
  exact hx

/-- A service is requested while the root is stopped, then the loop runs. -/
def drainingPath : (system .flat).Path fun _ _ => True :=
  .continued (.initial .flat) rfl [.init 1, .run, .requestStart 1 .manual ⟨0, .start⟩] (by decide)
    (.process true) fun _ => ⟨fun _ => rfl, trivial⟩

lemma drainingPath_onlyProcesses : OnlyProcesses drainingPath 3 :=
  fun _ hn => ⟨true, Path.continued_op _ _ _ _ hn⟩

theorem process_drains_drainingPath : ¬ (drainingPath.state 3).Drained ∧
    ∃ n, 3 ≤ n ∧ ∀ m, n ≤ m →
      drainingPath.state m = drainingPath.state n ∧ (drainingPath.state m).Drained :=
  ⟨by decide, process_drains drainingPath drainingPath_onlyProcesses⟩

/-! ### No service flaps -/

/-- A service leaves `running` in a round. -/
abbrev Leaves (s : ServiceId) (st st' : State) : Prop :=
  st.phase s = .running ∧ st'.phase s ≠ .running

/-- A service is started in a round. -/
abbrev Enters (s : ServiceId) (st st' : State) : Prop :=
  (st.phase s = .locked ∨ st.phase s = .stopped) ∧
    (st'.phase s = .starting ∨ st'.phase s = .running)

section Settles

variable {st st' : State} {s : ServiceId}

/-- A service that leaves `running` had all of its way before it. -/
lemma Leaves.remaining (h : Leaves s st st') (hs : (st'.phase s).next?.isSome)
    (hpush : st'.isClusterPushed s = st.isClusterPushed s)
    (hle : st'.remaining s ≤ st.remaining s) :
    st.remaining s = (if st.isClusterPushed s then 8 else 3) ∧
      st'.remaining s < st.remaining s := by
  obtain ⟨hp, hp'⟩ := h
  by_cases hstop : st.shallClusterStop s = true
  · have hrem : st.remaining s = if st.isClusterPushed s then 8 else 3 := by
      rw [remaining_of_shallClusterStop hstop, hp]
      rfl
    refine ⟨hrem, ?_⟩
    rw [hrem] at hle ⊢
    unfold State.remaining at hle ⊢
    rw [hpush] at hle ⊢
    split
    · split
      · exact Phase.throughStopped_lt hp'
      · exact Phase.toRunning_lt _
    · rename_i hc
      rw [if_neg hc, if_neg hc] at hle
      exact Phase.toStopped_lt hp' hle
  · -- what is pushed and not marked has arrived
    have hc : st.isClusterPushed s = true ∧ st.isClusterMarkedForStop s = false := by
      simpa [shallClusterStop] using hstop
    have hzero : st.remaining s = 0 := by simp [State.remaining, hc.1, hc.2, hp, Phase.toRunning]
    rw [State.remaining, hpush, hc.1, if_pos rfl, hzero, Nat.le_zero] at hle
    split at hle
    · exact absurd hle (Phase.throughStopped_ne_zero hs)
    · exact absurd (Phase.eq_running_of_toRunning hs hle) hp'

/-- A service that is started has nothing left but to run. -/
lemma Enters.remaining (h : Enters s st st')
    (hpush : st'.isClusterPushed s = st.isClusterPushed s)
    (hle : st'.remaining s ≤ st.remaining s) :
    st.isClusterPushed s = true ∧ 2 ≤ st.remaining s ∧ st'.remaining s ≤ 1 := by
  obtain ⟨hp, hp'⟩ := h
  by_cases hc : st.isClusterPushed s = true
  · refine ⟨hc, ?_⟩
    unfold State.remaining at hle ⊢
    simp only [hpush, hc, if_true] at hle ⊢
    exact Phase.started_of_le hp hp' hle
  · have hc : st.isClusterPushed s = false := Bool.not_eq_true _ ▸ hc
    rw [remaining_of_not_pushed hc, remaining_of_not_pushed (hpush.trans hc)] at hle
    exact absurd (Phase.toStopped_started hp hp') (not_lt.2 hle)

variable {L : Layout} {r : (system L).Path fun _ _ => True} {N n m : Nat}

/-- Neither the services nor who is pushed change, and nobody gets further away. -/
lemma OnlyProcesses.kept (h : OnlyProcesses r N) (hs : s ∈ (r.state N).services)
    (hr : s ≠ (r.state N).layout.root) (hn : N ≤ n) :
    s ∈ (r.state n).services ∧ s ≠ (r.state n).layout.root ∧
      (r.state (n + 1)).isClusterPushed s = (r.state n).isClusterPushed s ∧
      (r.state (n + 1)).remaining s ≤ (r.state n).remaining s := by
  have hstep : ∀ k, N ≤ k → s ∈ (r.state k).services ∧ s ≠ (r.state k).layout.root →
      (r.state (k + 1)).toTopology = (r.state k).toTopology ∧
      (r.state (k + 1)).isClusterPushed s = (r.state k).isClusterPushed s ∧
      (r.state (k + 1)).remaining s ≤ (r.state k).remaining s := by
    intro k hk ⟨hsk, hrk⟩
    obtain ⟨ready, hnext⟩ := h.next hk
    have hl := Reachable.sound (r.reachable k)
    have ht : (r.state k).IsTree := hl.good.tree
    obtain ⟨htop, hpushes, hrem⟩ := process_remaining ready hl
    rw [hnext]
    have hcl : (r.state k).cluster s ≠ (r.state k).layout.root :=
      fun hcl => hrk ((ht.cluster_eq_root hsk).1 hcl)
    exact ⟨htop, isClusterPushed_congr htop (hpushes _ hcl), hrem s hsk hrk⟩
  have hmem := r.kept (P := fun x => s ∈ x.services ∧ s ≠ x.layout.root) (N := N)
    (fun k hk hx => by rwa [(hstep k hk hx).1]) le_rfl hn ⟨hs, hr⟩
  exact ⟨hmem.1, hmem.2, (hstep n hn hmem).2⟩

/-- No service flaps while the loop runs and no hook acts on the core: a service that is stopped is
not stopped again, and one that is started is neither started nor stopped again. -/
theorem process_settles (h : OnlyProcesses r N) (hs : s ∈ (r.state N).services)
    (hr : s ≠ (r.state N).layout.root) (hn : N ≤ n) (hnm : n < m) :
    (Leaves s (r.state n) (r.state (n + 1)) → ¬ Leaves s (r.state m) (r.state (m + 1))) ∧
    (Enters s (r.state n) (r.state (n + 1)) →
      ¬ Enters s (r.state m) (r.state (m + 1)) ∧ ¬ Leaves s (r.state m) (r.state (m + 1))) := by
  have hle : (r.state m).remaining s ≤ (r.state (n + 1)).remaining s :=
    r.antitone (μ := fun x => x.remaining s) (N := N)
      (fun k hk => (h.kept hs hr hk).2.2.2) (Nat.le_succ_of_le hn) hnm
  have hpushed : (r.state m).isClusterPushed s = (r.state n).isClusterPushed s :=
    r.kept (P := fun x => x.isClusterPushed s = (r.state n).isClusterPushed s) (N := N)
      (fun k hk hx => (h.kept hs hr hk).2.2.1.trans hx) hn hnm.le rfl
  obtain ⟨-, -, hpush₁, hle₁⟩ := h.kept hs hr hn
  obtain ⟨-, -, hpush₂, hle₂⟩ := h.kept hs hr (hn.trans hnm.le)
  have hinit : ∀ k, N ≤ k → ((r.state k).phase s).next?.isSome := fun k hk =>
    ((Reachable.sound (r.reachable k)).good.initialized s).1 (h.kept hs hr hk).1
  have hleaves : Leaves s (r.state m) (r.state (m + 1)) → (r.state m).remaining s =
      if (r.state n).isClusterPushed s then 8 else 3 := fun hm =>
    hpushed ▸ (hm.remaining (hinit _ (by omega)) hpush₂ hle₂).1
  refine ⟨fun hleave hm => ?_, fun henter => ?_⟩
  · obtain ⟨heq, hlt⟩ := hleave.remaining (hinit _ (by omega)) hpush₁ hle₁
    have := hleaves hm
    omega
  · obtain ⟨hc, -, hone⟩ := henter.remaining hpush₁ hle₁
    refine ⟨fun hm => ?_, fun hm => ?_⟩
    · have := (hm.remaining hpush₂ hle₂).2.1
      omega
    · have := hleaves hm
      rw [hc, if_pos rfl] at this
      omega

end Settles

theorem process_settles_drainingPath :
    Enters 1 (drainingPath.state 3) (drainingPath.state 4) ∧
      ¬ Enters 1 (drainingPath.state 5) (drainingPath.state 6) ∧
      ¬ Leaves 1 (drainingPath.state 5) (drainingPath.state 6) := by
  have h : Enters 1 (drainingPath.state 3) (drainingPath.state 4) := by decide
  exact ⟨h, (process_settles (s := 1) (n := 3) (m := 5) drainingPath_onlyProcesses (by decide)
    (by decide) (by decide) (by decide)).2 h⟩

end Idle
