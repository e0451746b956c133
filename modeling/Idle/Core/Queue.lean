import Idle.Core.Steady

/-!
# The scheduling queue

Services enter `down_` while they are running and `up_` while they are stopped or locked, and a
service whose phase changes was taken out of the queue before. The root is the exception: it is
started outside of the queue, which leaves it in `up_`.
-/

namespace Idle

namespace State

variable {st st' : State} {s h me : ServiceId} {small : Prop}

/-- What the queue holds. -/
structure QueueOrdered (st : State) : Prop where
  down_running : ∀ s ∈ st.down, st.phase s = .running
  up_idle : ∀ s ∈ st.up, s ≠ st.layout.root → st.phase s = .locked ∨ st.phase s = .stopped
  down_nodup : st.down.Nodup
  up_nodup : st.up.Nodup

/-- What every function keeps of the graph and of the queue. -/
structure Queued (st : State) : Prop extends st.QueueOrdered where
  wf : st.WellFormed

/-! ### Changes that keep the queue -/

lemma Queued.of_phases (hq : st.Queued) (ht : st'.toTopology = st.toTopology)
    (hd : st'.down = st.down) (hu : st'.up = st.up)
    (hdown : ∀ s ∈ st.down, st'.phase s = .running)
    (hup : ∀ s ∈ st.up, s ≠ st.layout.root → st'.phase s = .locked ∨ st'.phase s = .stopped) :
    st'.Queued where
  down_running := hd ▸ hdown
  up_idle := by
    rw [hu, ht]
    exact hup
  down_nodup := hd ▸ hq.down_nodup
  up_nodup := hu ▸ hq.up_nodup
  wf := ht ▸ hq.wf

lemma Queued.congr (hq : st.Queued) (ht : st'.toTopology = st.toTopology)
    (hp : st'.phase = st.phase) (hd : st'.down = st.down) (hu : st'.up = st.up) : st'.Queued :=
  hq.of_phases ht hd hu (hp ▸ hq.down_running) (hp ▸ hq.up_idle)

lemma Queued.checks (hq : st.Queued) (h : Checks st st') : st'.Queued where
  down_running s hs := by
    rw [h.phase]
    exact (h.down_new s hs).elim (hq.down_running s) id
  up_idle := by
    rw [h.up, h.phase, h.topology]
    exact hq.up_idle
  down_nodup := h.down_nodup hq.down_nodup
  up_nodup := h.up ▸ hq.up_nodup
  wf := h.topology ▸ hq.wf

lemma Stirs.down_cases (h : Stirs st st') : (∀ s ∈ st'.down, s ∈ st.down ∨
    s = st.layout.root ∧ st'.phase s = .running) ∧ (st.down.Nodup → st'.down.Nodup) := by
  rcases h.root with hroot | hroot
  · rw [hroot.down]
    exact ⟨fun _ => .inl, id⟩
  · refine ⟨fun s hs => (hroot.down_new s hs).imp_right ?_, hroot.down_nodup⟩
    rintro rfl
    exact ⟨rfl, hroot.after⟩

lemma Queued.stirs (hq : st.Queued) (h : Stirs st st') : st'.Queued where
  down_running s hs := by
    rcases h.down_cases.1 s hs with hs | ⟨-, hp⟩
    · have hp := hq.down_running s hs
      by_cases hr : s = st.layout.root
      · subst hr
        exact h.running hp
      · rw [h.phase_eq hr, hp]
    · exact hp
  up_idle s hs hr := by
    rw [root_of_away h.away] at hr
    rcases h.up_new s hs with hs | hs | hp
    · rw [h.phase_eq hr]
      exact hq.up_idle s hs hr
    · exact absurd hs hr
    · exact hp
  down_nodup := h.down_cases.2 hq.down_nodup
  up_nodup := h.up_nodup hq.up_nodup
  wf := topology_of_away h.away ▸ hq.wf

/-- A service leaves a phase in which it is not in the queue. -/
lemma Queued.transition (hq : st.Queued) {p q : Phase} (hdown : me ∉ st.down)
    (hup : me ∈ st.up → me = st.layout.root) :
    ({ st with toCore := st.toCore.transition me p q } : State).Queued := by
  refine hq.of_phases rfl rfl rfl (fun s hs => ?_) fun s hs hr => ?_
  · have hme : s ≠ me := fun h => hdown (h ▸ hs)
    exact (Function.update_of_ne hme _ _).trans (hq.down_running s hs)
  · have hme : s ≠ me := fun h => hr (h ▸ hup (h ▸ hs))
    have hp : Function.update st.phase me q s = st.phase s := Function.update_of_ne hme _ _
    simp only [Core.transition, hp]
    exact hq.up_idle s hs hr

lemma Queued.not_mem_down (hq : st.Queued) (hp : st.phase s ≠ .running) : s ∉ st.down :=
  fun hs => hp (hq.down_running s hs)

lemma Queued.not_mem_up (hq : st.Queued) (hl : st.phase s ≠ .locked) (hp : st.phase s ≠ .stopped)
    (hs : s ∈ st.up) : s = st.layout.root := by
  by_contra hr
  exact (hq.up_idle s hs hr).elim hl hp

/-- A service that is starting, stopping or pending is not in the queue. -/
lemma Queued.transition_busy (hq : st.Queued) {p q : Phase} (hp : st.phase me = p)
    (hrun : p ≠ .running) (hlocked : p ≠ .locked) (hstopped : p ≠ .stopped) :
    ({ st with toCore := st.toCore.transition me p q } : State).Queued := by
  subst hp
  exact hq.transition (hq.not_mem_down hrun) (hq.not_mem_up hlocked hstopped)

lemma Queued.unlocks {ms : List ServiceId} (hq : st.Queued) (h : Unlocks ms st st')
    (hms : ∀ m ∈ ms, st.phase m = .pending) : st'.Queued where
  down_running s hs := by
    have hrun := (h.down_new s hs).elim (hq.down_running s) id
    have hsm : s ∉ ms := fun hsm => absurd ((hms s hsm).symm.trans hrun) (by decide)
    rw [h.phase, if_neg hsm, hrun]
  up_idle s hs hr := by
    have hup : st'.up = st.up := by
      obtain ⟨p, u, r, c, d, rfl⟩ := h.frame
      rfl
    rw [h.topology] at hr
    rw [h.phase]
    split
    · exact .inr rfl
    · exact hq.up_idle s (hup ▸ hs) hr
  down_nodup := h.down_nodup hq.down_nodup
  up_nodup := by
    obtain ⟨p, u, r, c, d, rfl⟩ := h.frame
    exact hq.up_nodup
  wf := h.topology ▸ hq.wf

/-- The queue stays ordered where nothing is started or stopped. -/
lemma Queued.steady : Steady True Queued where
  wf hq := hq.wf
  aside hq h := hq.congr h.topology h.phase h.down h.up
  checks hq h := hq.checks h
  stirs hq h := hq.stirs h
  usages_append hq hu := by
    obtain ⟨hid, hused, hexports, huser, himports, hdiff⟩ := hu
    exact ⟨⟨hq.down_running, hq.up_idle, hq.down_nodup, hq.up_nodup⟩,
      hq.wf.connect hid hused hexports huser himports hdiff⟩
  usages_erase use hq :=
    ⟨⟨hq.down_running, hq.up_idle, hq.down_nodup, hq.up_nodup⟩, hq.wf.disconnect use⟩
  queue_nil hq := ⟨⟨by simp, by simp, List.nodup_nil, List.nodup_nil⟩, hq.wf⟩
  pend hq hp := hq.transition_busy hp (by decide) (by decide) (by decide)
  unlocks hq h _ hms := hq.unlocks h (hms trivial)

/-! ### Starting and stopping -/

lemma doStartEager_queued (hq : st.Queued) (hg : st.life.Good small) (hs : me ∈ st.services)
    (hp : st.phase me = .locked ∨ st.phase me = .stopped) (hdown : me ∉ st.down)
    (hup : me ∈ st.up → me = st.layout.root) : (st.doStartEager me).Queued := by
  have hframe := doStartEager_frame st me
  refine hq.of_phases hframe.topology hframe.queue.1 hframe.queue.2 (fun s hs' => ?_)
    fun s hs' hr => ?_
  · have hrun := hq.down_running s hs'
    rcases doStartEager_phase hg hs hp (fun h => hdown (h ▸ hs') : s ≠ me) with h | ⟨h, -⟩
    · rw [h, hrun]
    · exact absurd (h.symm.trans hrun) (by decide)
  · rcases doStartEager_phase hg hs hp (fun h => hr (h ▸ hup (h ▸ hs')) : s ≠ me) with h | ⟨-, h⟩
    · rw [h]
      exact hq.up_idle s hs' hr
    · exact .inl h

lemma innerDecremented_queued (hq : st.Queued) : (st.innerDecremented me).Queued := by
  unfold innerDecremented
  split
  · exact hq.congr rfl rfl rfl rfl
  · exact hq

lemma postStartActions_queued (hq : st.Queued) (hp : st.phase me = .starting) :
    (st.postStartActions onServiceStartable me).Queued := by
  have hframe := startedCore_frame st me
  have htrans := hq.transition_busy hp (q := .running) (by decide) (by decide) (by decide)
  exact Queued.steady.postStartActions (innerDecremented_queued
    (htrans.congr hframe.topology (startedCore_phase st me) hframe.queue.1 hframe.queue.2))

lemma doStopEager_queued (hq : st.Queued) : (st.doStopEager me).Queued := by
  obtain ⟨i, o, h⟩ := callOnRequiredIncrement_frame st me
  have h : st.doStopEager me = _ := h
  rw [h]
  exact hq.congr rfl rfl rfl rfl

/-! ### Processing -/

/-- A popped service is not left in the queue, unless it is the root. -/
lemma Queued.pop (hq : st.Queued) (h : st.pop = some (s, st')) :
    st'.Queued ∧ s ∉ st'.down ∧ (s ∈ st'.up → s = st.layout.root) := by
  obtain ⟨htop, hphase⟩ := pop_topology h
  have hnodup : ∀ {l l' : List ServiceId}, l.Nodup → l = l' ++ [s] → l'.Nodup ∧ s ∉ l' := by
    rintro l l' hl rfl
    have hdisj := List.nodup_append'.1 hl
    exact ⟨hdisj.1, fun hs => hdisj.2.2 hs (List.mem_singleton_self s)⟩
  rcases pop_eq_some h with ⟨hd, heq⟩ | ⟨hd, hu, heq⟩
  · have hup : st'.up = st.up := by rw [heq]
    have hmem : ∀ t ∈ st'.down, t ∈ st.down := fun t ht => by
      rw [hd]
      exact List.mem_append_left _ ht
    have hrun : st.phase s = .running := hq.down_running s (by simp [hd])
    obtain ⟨hnd, hns⟩ := hnodup hq.down_nodup hd
    refine ⟨⟨⟨fun t ht => ?_, ?_, hnd, hup ▸ hq.up_nodup⟩, htop ▸ hq.wf⟩, hns, fun hs => ?_⟩
    · rw [hphase]
      exact hq.down_running t (hmem t ht)
    · rw [hup, hphase, htop]
      exact hq.up_idle
    · exact hq.not_mem_up (by simp [hrun]) (by simp [hrun]) (hup ▸ hs)
  · have hdown : st'.down = st.down := by rw [heq]
    have hmem : ∀ t ∈ st'.up, t ∈ st.up := fun t ht => by
      rw [hu]
      exact List.mem_append_left _ ht
    obtain ⟨hnu, hns⟩ := hnodup hq.up_nodup hu
    refine ⟨⟨⟨?_, fun t ht hr => ?_, hdown ▸ hq.down_nodup, hnu⟩, htop ▸ hq.wf⟩, ?_,
      fun hs => absurd hs hns⟩
    · rw [hdown, hphase]
      exact hq.down_running
    · rw [hphase]
      exact hq.up_idle t (hmem t ht) (htop ▸ hr)
    · rw [hdown, hd]
      exact List.not_mem_nil

lemma tryStartServiceInplace_queued {ready : Bool} (hq : st.Queued)
    (hl : st.life.Sound False small [])
    (h : st.isStartable me = true) (hdown : me ∉ st.down) (hup : me ∈ st.up → me = st.layout.root) :
    (st.tryStartServiceInplace me ready).Queued := by
  have hp := isStartable_phase h
  have hs := mem_services_of_locked hl.good (hp.imp_right .inl)
  have h₁ := doStartEager_queued hq hl.good hs hp hdown hup
  obtain ⟨-, -, -, hstarting, -⟩ := doStartEager_spec hl.good hl.toTold hs hp
  unfold tryStartServiceInplace
  simp only
  split
  · exact postStartActions_queued h₁ hstarting
  · exact h₁

lemma tryStopServiceInplace_queued {ready : Bool} (hq : st.Queued) (hg : st.life.Good True)
    (h : st.isStoppable me = true) (hdown : me ∉ st.down) (hup : me ∈ st.up → me = st.layout.root)
    (hst : st.trySetServiceStopping me = some st') :
    (st'.tryStopServiceInplace me ready).Queued := by
  have h₁ : st'.Queued := by
    rw [(trySetServiceStopping_eq_some hst).2]
    exact (hq.transition (p := .running) (q := .stopping) hdown hup).congr rfl rfl rfl rfl
  obtain ⟨hg', hs', hp'⟩ := stopping_spec hg h hst
  refine Queued.steady.tryStopServiceInplace (doStopEager_queued h₁) hg' hs' ?_
  rw [hp', Function.update_self]

lemma process_queued {ready : Bool} (hq : st.Queued) (hl : st.life.Sound False True []) :
    (st.process ready).Queued := by
  obtain ⟨-, h⟩ | ⟨changing, popped, hpop, h⟩ := process_cases st ready
  · rwa [h]
  obtain ⟨h₁, hdown, hup⟩ := hq.pop hpop
  have hl₁ : popped.life.Sound False True [] := pop_life hpop ▸ hl
  have hroot : popped.layout.root = st.layout.root := by rw [(pop_topology hpop).1]
  rw [← hroot] at hup
  obtain h | ⟨stopping, hstop, hset, h⟩ | ⟨hstart, h⟩ := h
  · exact h ▸ h₁
  · exact h ▸ tryStopServiceInplace_queued h₁ hl₁.good hstop hdown hup hset
  · exact h ▸ tryStartServiceInplace_queued h₁ hl₁ hstart hdown hup

/-! ### Services come and go -/

lemma construct_queue (st : State) (s : ServiceId) :
    (st.construct s).down = st.down ∧ (st.construct s).up = st.up := by
  unfold construct
  simp only
  split
  · exact ⟨rfl, rfl⟩
  · exact ⟨rfl, rfl⟩

lemma init_queue (st : State) (s : ServiceId) :
    (st.init s).down = st.down ∧ (st.init s).up = st.up := by
  have hc := construct_queue st s
  unfold init
  simp only
  generalize st.construct s = st₁ at hc
  obtain ⟨i, o, h⟩ := onServiceAdd_frame { st₁ with
    cluster := Function.update st₁.cluster s
      (if st₁.layout.isMember s then st₁.cluster (st₁.layout.parent s).owner else s)
    phase := Function.update st₁.phase s .stopped
    services := st₁.services ++ [s] } s
  rw [h]
  exact hc

lemma init_queued (hq : st.Queued) (hg : st.life.Good small) (hs : st.CanInit s) :
    (st.init s).Queued := by
  obtain ⟨hd, hu⟩ := init_queue st s
  have hw := init_wires st s
  have htop : (st.init s).toTopology = st.toTopology.insert s := congrArg (·.toTopology) hw
  have hphase : (st.init s).phase = Function.update st.phase s .stopped := congrArg (·.phase) hw
  have hns : s ∉ st.services := fun hmem => by
    have hnext := (hg.initialized s).1 hmem
    have hp : st.life.phase s = .uninitialized := hs.1
    rw [hp] at hnext
    exact absurd hnext (by decide)
  refine ⟨⟨fun t ht => ?_, fun t ht hr => ?_, hd ▸ hq.down_nodup, hu ▸ hq.up_nodup⟩,
    htop ▸ hq.wf.insert hns hs.2.1 hs.2.2.1⟩
  · have hrun := hq.down_running t (hd ▸ ht)
    have hts : t ≠ s := by
      rintro rfl
      exact absurd (hs.1.symm.trans hrun) (by decide)
    rw [hphase, Function.update_of_ne hts, hrun]
  · have hroot : (st.init s).layout.root = st.layout.root := by
      rw [htop]
      rfl
    rw [hphase]
    by_cases hts : t = s
    · rw [hts, Function.update_self]
      exact .inr rfl
    · rw [Function.update_of_ne hts]
      exact hq.up_idle t (hu ▸ ht) (hroot ▸ hr)

/-- `Scheduler::on_service_destroy` takes the service out of the queue. -/
lemma destroy_queued (hq : st.Queued) (hs : st.CanDestroy s) :
    (st.destroy onServiceStartable s).Queued := by
  have h₁ : ∃ x : State, x = (if st.layout.isClusterHead s then st.transitionTargetSet s .none
      else st) ∧ x.Queued ∧ x.toTopology = st.toTopology ∧ x.phase = st.phase := by
    refine ⟨_, rfl, ?_⟩
    split
    · obtain ⟨t, p, c, h⟩ := transitionTargetSet_frame st s .none
      rw [h]
      exact ⟨hq.congr rfl rfl rfl rfl, rfl, rfl⟩
    · exact ⟨hq, rfl, rfl⟩
  obtain ⟨x, hx, hq₁, htop₁, hp₁⟩ := h₁
  unfold destroy
  simp only
  rw [← hx, onServiceDel_eq]
  obtain ⟨hq₂, htop₂, -⟩ :=
    Queued.steady.deleting hq₁ (canDestroy_congr htop₁ (congrFun hp₁ s) hs)
  generalize x.deleting onServiceStartable s = x₁ at hq₂ htop₂
  obtain ⟨hrep, -⟩ := callOnRequiredDecrement_reports startable_reports hq₂.wf.toIsTree s
  have hdec : (x₁.innerDecremented s).Queued := innerDecremented_queued hq₂
  have hq₃ := hdec.stirs hrep.toStirs
  have htop₃ : (x₁.callOnRequiredDecrement onServiceStartable s).toTopology = st.toTopology :=
    (topology_of_away hrep.away).trans ((innerDecremented_phase x₁ s).2.trans (htop₂.trans htop₁))
  generalize x₁.callOnRequiredDecrement onServiceStartable s = y at hq₃ htop₃
  obtain ⟨-, hr, -, hchild, husages⟩ := hs
  have hq₄ : ({ ({ y with services := y.services.erase s } : State).eraseFromQueue s with
      phase := Function.update y.phase s .destroyed } : State).Queued := by
    refine ⟨⟨fun t ht => ?_, fun t ht htr => ?_, hq₃.down_nodup.erase s, hq₃.up_nodup.erase s⟩,
      ?_⟩
    · have hts : t ≠ s := fun h => (hq₃.down_nodup.mem_erase_iff.1 ht).1 h
      exact (Function.update_of_ne hts _ _).trans (hq₃.down_running t (List.mem_of_mem_erase ht))
    · have hts : t ≠ s := fun h => (hq₃.up_nodup.mem_erase_iff.1 ht).1 h
      have hp : Function.update y.phase s .destroyed t = y.phase t := Function.update_of_ne hts _ _
      simp only [hp]
      exact hq₃.up_idle t (List.mem_of_mem_erase ht) htr
    · have hwf := hq₃.wf
      rw [htop₃] at hwf
      have herase : (y.toTopology.erase s).WellFormed := htop₃ ▸ hwf.erase hr hchild husages
      exact herase
  split
  · exact hq₄.congr rfl rfl rfl rfl
  · exact hq₄

/-! ### Every handler -/

/-- Every handler keeps the queue ordered. -/
theorem exec_queued {op : Op} (hq : st.Queued) (hl : st.life.Sound False True [])
    (hp : op.Pre st) : (op.exec st).Queued := by
  cases op with
  | init s => exact init_queued hq hl.good hp
  | destroy s => exact destroy_queued hq hp
  | process ready => exact process_queued hq hl
  | started s => exact postStartActions_queued hq hp.2
  | stopped s => exact Queued.steady.postStopActions hq hl.good hp.1 hp.2
  | _ => exact Queued.steady.exec hq hp trivial

lemma initial_queued (L : Layout) : (State.initial L).Queued :=
  ⟨⟨by simp [State.initial], by simp [State.initial], List.nodup_nil, List.nodup_nil⟩,
    .initial L⟩

end State

/-- The queue is ordered in every state that runs with small clusters reach. -/
theorem Reached.queued {L : Layout} {st : State} (h : Reached L st) : st.Queued := by
  refine Machine.Reachable.invariant (P := State.Queued) h ?_ ?_
  · rintro st rfl
    exact State.initial_queued L
  · exact fun st op hr hq hp _ => State.exec_queued hq (Reached.sound hr) hp

/-- What `SchedulingQueue` holds: services that run are in `down_`, and services that are stopped or
locked in `up_`; the root alone may still be in `up_` when it was started outside of the queue. -/
structure State.QueueDisciplined (st : State) : Prop where
  down_running : ∀ s ∈ st.down, s ∈ st.services ∧ st.phase s = .running
  up_idle : ∀ s ∈ st.up,
    s ∈ st.services ∧ (s = st.layout.root ∨ st.phase s = .locked ∨ st.phase s = .stopped)
  nodup : st.down.Nodup ∧ st.up.Nodup
  disjoint : ∀ s ∈ st.down, s ∈ st.up → s = st.layout.root
  popped : ∀ s st', st.pop = some (s, st') →
    s ∈ st.services ∧ s ∉ st'.down ∧ (s ∈ st'.up → s = st.layout.root)

/-- The queue is disciplined between any two handlers, as long as the members of every cluster can
be counted. -/
theorem queue_disciplined {L : Layout} {st : State}
    (hst : (system L).Reachable (fun st op => op.KeepsSmall st) st) : st.QueueDisciplined := by
  have hq := Reached.queued hst
  have hg := (Reached.sound hst).good
  have hdown : ∀ s ∈ st.down, s ∈ st.services ∧ st.phase s = .running := fun s hs =>
    ⟨State.mem_services_of_locked hg (.inr (.inr (hq.down_running s hs))), hq.down_running s hs⟩
  have hup : ∀ s ∈ st.up,
      s ∈ st.services ∧ (s = st.layout.root ∨ st.phase s = .locked ∨ st.phase s = .stopped) := by
    intro s hs
    by_cases hr : s = st.layout.root
    · exact ⟨hr ▸ hq.wf.root_mem, .inl hr⟩
    · have hp := hq.up_idle s hs hr
      exact ⟨State.mem_services_of_locked hg (hp.imp_right .inl), .inr hp⟩
  refine ⟨hdown, hup, ⟨hq.down_nodup, hq.up_nodup⟩, fun s hs hs' => ?_, fun s st' hpop => ?_⟩
  · have hrun := hq.down_running s hs
    exact hq.not_mem_up (by rw [hrun]; decide) (by rw [hrun]; decide) hs'
  · obtain ⟨-, hns, hns'⟩ := hq.pop hpop
    refine ⟨?_, hns, hns'⟩
    rcases State.pop_eq_some hpop with ⟨hd, -⟩ | ⟨-, hu, -⟩
    · exact (hdown s (by rw [hd]; simp)).1
    · exact (hup s (by rw [hu]; simp)).1

/-- The root is requested, and started outside of the queue before it is processed. -/
theorem queue_disciplined_rootRun :
    (State.after .flat [.init 1, .requestStart 1 .manual ⟨0, .start⟩, .run]).up.contains 0 ∧
      (State.after .flat [.init 1, .requestStart 1 .manual ⟨0, .start⟩, .run]).phase 0 =
        .running ∧
      (State.after .flat [.init 1, .requestStart 1 .manual ⟨0, .start⟩, .run]).QueueDisciplined :=
  ⟨by decide, by decide, queue_disciplined (Machine.Reachable.run (.init rfl) (by decide))⟩

end Idle
