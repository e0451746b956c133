import Idle.Core.Arrivals
import Idle.Core.Steady

/-!
# Members that are not running

The members below a service move its `inner_deps_missing_` when they come and go, start and stop.
Up to its width the counter is always the number of the members that are not running, which is what
starts a service after the last one. The width is enough as long as fewer than `2 ^ 16` members are
below one service.
-/

namespace Idle

namespace State

/-! ### What is claimed -/

/-- `inner_deps_missing_` counts the members that are not running, and at zero all of them are. -/
structure InnerExact (st : State) : Prop where
  counted : ∀ s ∈ st.services, (st.innerDepsMissing s).toNat = st.innerSpec s
  running : ∀ s ∈ st.services, st.innerDepsMissing s = 0 → ∀ t ∈ st.services,
    st.layout.isMember t = true → (st.layout.parent t).owner = s → st.phase t = .running

/-- One of the calls of `on_inner_required_decrement` finds a counter that is zero. -/
def innerRunsOut (k : State → ServiceId → State) : State → List ServiceId → Bool
  | _, [] => false
  | st, t :: ts => st.innerDepsMissing t == 0 || innerRunsOut k (st.onInnerRequiredDecrement k t) ts

/-- `call_on_required_decrement` calls `on_inner_required_decrement` on a counter that is zero. -/
def requiredRunsOut (st : State) (me : ServiceId) : Bool :=
  me != st.layout.root &&
    st.innerRunsOut onServiceStartable ((st.outEdges .clusterGraph me).map (Edge.target st.layout))

end State

namespace Op

/-- The operation calls `on_inner_required_decrement` on a counter that is zero. Those that are not
listed start the root at most. -/
def RunsOutOfInner (st : State) : Op → Bool
  | started s => (st.startedCore s).requiredRunsOut s
  | process ready =>
    match st.pop with
    | some (s, st) =>
      ready && !st.shallClusterStop s && st.shallClusterStart s && st.isStartable s &&
        ((st.doStartEager s).startedCore s).requiredRunsOut s
    | none => false
  | destroy s =>
    let st := if st.layout.isClusterHead s then st.transitionTargetSet s .none else st
    (st.deleting State.onServiceStartable s).requiredRunsOut s
  | _ => false

/-- There is room for one more member below the service. -/
def KeepsInner (st : State) : Op → Prop
  | init s => st.layout.isMember s = true → st.innerBound (st.layout.parent s).owner + 1 < 2 ^ 16
  | _ => True

instance (st : State) : (op : Op) → Decidable (op.KeepsInner st)
  | init _ => inferInstanceAs (Decidable (_ → _))
  | destroy _ | connect _ | disconnect _ | setSatisfied _ _ | requestStart _ _ _
  | requestStop _ _ _ | requestObserve _ _ | immediateStop _ _ | process _ | started _ | stopped _
  | posted _ | run | tryUse _ | incUse _ | decUse _ _ => .isTrue trivial

end Op

namespace Core

variable {c c' : Core}

lemma innerSpec_of_tree (ht : c'.toServiceTree = c.toServiceTree)
    (hrun : ∀ s, s ≠ c.layout.root → (c'.phase s = .running ↔ c.phase s = .running))
    (p : ServiceId) : c'.innerSpec p = c.innerSpec p := by
  unfold innerSpec
  rw [ht]
  refine List.countP_congr fun s _ => ?_
  rw [decide_eq_true_eq, decide_eq_true_eq]
  refine and_congr_right fun hm => and_congr_right fun _ => not_congr (hrun s ?_)
  rintro rfl
  rw [c.layout.isMember_root] at hm
  exact Bool.false_ne_true hm

lemma innerBound_of_tree (ht : c'.toServiceTree = c.toServiceTree) (p : ServiceId) :
    c'.innerBound p = c.innerBound p := by
  unfold innerBound
  rw [ht]

end Core

namespace State

variable {st st' : State} {s me p : ServiceId} {kept small : Prop}

/-- Up to the width of the counter it is exact; the width is enough if there was room for all. -/
structure InnerCounted (kept : Prop) (st : State) : Prop where
  wf : st.WellFormed
  counted : ∀ p, st.innerDepsMissing p = .ofNat (st.innerSpec p)
  bounded : kept → ∀ p, st.innerBound p < 2 ^ 16

lemma InnerCounted.toNat (hi : st.InnerCounted kept) (hk : kept) (p : ServiceId) :
    (st.innerDepsMissing p).toNat = st.innerSpec p := by
  have hle := st.innerSpec_le p
  have hlt := hi.bounded hk p
  rw [hi.counted, UInt16.toNat_ofNat_of_lt' (by simp only [UInt16.size]; omega)]

lemma InnerCounted.exact (hi : st.InnerCounted kept) (hk : kept) : st.InnerExact where
  counted s _ := hi.toNat hk s
  running s _ h0 t ht hm ho := by
    have hspec : st.innerSpec s = 0 := by
      rw [← hi.toNat hk s, h0]
      rfl
    have hnot := List.countP_eq_zero.1 hspec t ht
    simp only [decide_eq_true_eq, not_and, not_not] at hnot
    exact hnot hm ho

/-- A member that is not running is missed. -/
lemma InnerCounted.ne_zero (hi : st.InnerCounted kept) (hk : kept) (hs : me ∈ st.services)
    (hm : st.layout.isMember me = true) (hp : st.phase me ≠ .running) :
    st.innerDepsMissing (st.layout.parent me).owner ≠ 0 := by
  intro h0
  have hpos : 0 < st.innerSpec (st.layout.parent me).owner :=
    List.countP_pos_iff.2 ⟨me, hs, by simp [hm, hp]⟩
  rw [← hi.toNat hk, h0] at hpos
  exact absurd hpos (by decide)

/-- The same counters, and the same services are running apart from the root. -/
lemma InnerCounted.of_runs (hi : st.InnerCounted kept) (hwf : st'.WellFormed)
    (ht : st'.toServiceTree = st.toServiceTree) (hc : st'.innerDepsMissing = st.innerDepsMissing)
    (hrun : ∀ s, s ≠ st.layout.root → (st'.phase s = .running ↔ st.phase s = .running)) :
    st'.InnerCounted kept where
  wf := hwf
  counted p := by rw [hc, hi.counted, Core.innerSpec_of_tree ht hrun]
  bounded hk p := by
    rw [Core.innerBound_of_tree ht]
    exact hi.bounded hk p

lemma InnerCounted.of_phase (hi : st.InnerCounted kept) (hwf : st'.WellFormed)
    (ht : st'.toServiceTree = st.toServiceTree) (hc : st'.innerDepsMissing = st.innerDepsMissing)
    (hp : st'.phase = st.phase) : st'.InnerCounted kept :=
  hi.of_runs hwf ht hc fun _ _ => by rw [hp]

/-- The counters stay exact where no member is started or stopped. -/
lemma InnerCounted.steady (kept : Prop) : Steady True (InnerCounted kept) where
  wf hi := hi.wf
  aside hi h := hi.of_phase (h.topology ▸ hi.wf) (congrArg (·.toServiceTree) h.topology) h.inner
    h.phase
  checks hi h := by
    refine hi.of_phase (h.topology ▸ hi.wf) (congrArg (·.toServiceTree) h.topology) ?_ h.phase
    obtain ⟨u, r, p, d, rfl⟩ := h.frame
    rfl
  stirs hi h := hi.of_runs (topology_of_away h.away ▸ hi.wf) (tree_of_away h.away)
    (inner_of_away h.away) fun s hs => by rw [h.phase_eq hs]
  usages_append hi hu := by
    obtain ⟨hid, hused, hexports, huser, himports, hdiff⟩ := hu
    exact hi.of_phase (hi.wf.connect hid hused hexports huser himports hdiff) rfl rfl rfl
  usages_erase use hi := hi.of_phase (hi.wf.disconnect use) rfl rfl rfl
  queue_nil hi := hi.of_phase hi.wf rfl rfl rfl
  pend {st me} hi hp := by
    refine hi.of_runs hi.wf rfl rfl fun s _ => ?_
    by_cases hs : s = me
    · simp [Core.transition, hs, hp]
    · simp [Core.transition, hs]
  unlocks {st st' ms} hi h _ hms := by
    refine hi.of_runs (h.topology ▸ hi.wf) (congrArg (·.toServiceTree) h.topology) ?_ fun s _ => ?_
    · obtain ⟨p, u, r, c, d, rfl⟩ := h.frame
      rfl
    · rw [h.phase]
      split
      · rename_i hs
        simp [hms trivial s hs]
      · rfl

/-! ### A member starts -/

/-- The phase of a single service changes. -/
lemma StartFrame.moved (h : StartFrame st st') (hp : ∀ s, s ≠ me → st'.phase s = st.phase s) :
    st.toCore.Moved st'.toCore me := by
  obtain ⟨p, u, g, c, r, rfl⟩ := h
  exact ⟨rfl, rfl, rfl, hp⟩

/-- A service that is started leaves it to others to run. -/
lemma InnerCounted.doStartEager (hi : st.InnerCounted kept) (hl : st.life.Sound False small [])
    (hs : me ∈ st.services) (hp : st.phase me = .locked ∨ st.phase me = .stopped) :
    (st.doStartEager me).InnerCounted kept := by
  have hframe := doStartEager_frame st me
  obtain ⟨-, -, -, hstarting, -⟩ := doStartEager_spec hl.good hl.toTold hs hp
  refine hi.of_runs (hframe.topology ▸ hi.wf) (congrArg (·.toServiceTree) hframe.topology)
    hframe.inner fun t _ => ?_
  by_cases ht : t = me
  · rw [ht, hstarting]
    rcases hp with hp | hp <;> simp [hp]
  · rcases doStartEager_phase hl.good hs hp ht with h | ⟨h, h'⟩
    · rw [h]
    · simp [h, h']

lemma innerDecremented_inner (st : State) (me p : ServiceId) :
    (st.innerDecremented me).innerDepsMissing p =
      st.innerDepsMissing p - .ofNat ((innerWaiting st.toCore me).count p) := by
  rw [Core.count_innerWaiting]
  unfold innerDecremented
  by_cases hm : st.layout.isMember me = true
  · rw [if_pos hm]
    by_cases hp : (st.layout.parent me).owner = p
    · subst hp
      simp [Core.decInner, hm]
    · simp [Core.decInner, Function.update_of_ne (Ne.symm hp), hp]
  · simp [hm]

/-- A member that starts is not missed any more. -/
lemma InnerCounted.startedCore (hi : st.InnerCounted kept) (hs : me ∈ st.services)
    (hp : st.phase me = .starting) :
    ((st.startedCore me).innerDecremented me).InnerCounted kept := by
  have hframe := startedCore_frame st me
  have htop := hframe.topology
  have hphase := startedCore_phase st me
  obtain ⟨hdec, hdecTop⟩ := innerDecremented_phase (st.startedCore me) me
  have hmoved := (hframe.moved fun s hs => by rw [hphase, Function.update_of_ne hs]).symm
  have hwf : (st.startedCore me).WellFormed := htop ▸ hi.wf
  have hrun : (st.startedCore me).phase me = .running := by
    rw [hphase, Function.update_self]
  have hspec := hmoved.innerSpec_add hwf (htop ▸ hs) hrun (by rw [hp]; decide)
  have htree : ((st.startedCore me).innerDecremented me).toServiceTree =
      (st.startedCore me).toServiceTree := congrArg (·.toServiceTree) hdecTop
  refine ⟨hdecTop ▸ hwf, fun p => ?_, fun hk p => ?_⟩
  · rw [innerDecremented_inner, hframe.inner, hi.counted, hspec, UInt16.ofNat_add,
      UInt16.add_sub_cancel, Core.innerSpec_of_tree htree fun s _ => by rw [hdec]]
  · rw [Core.innerBound_of_tree (congrArg (·.toServiceTree) (hdecTop.trans htop))]
    exact hi.bounded hk p

/-! ### A member stops -/

lemma MissFrame.same (h : MissFrame st st') :
    st'.toTopology = st.toTopology ∧ st'.phase = st.phase := by
  obtain ⟨i, o, rfl⟩ := h
  exact ⟨rfl, rfl⟩

lemma callOnRequiredIncrement_inner (st : State) (me p : ServiceId) :
    (st.callOnRequiredIncrement me).innerDepsMissing p =
      st.innerDepsMissing p + .ofNat ((innerWaiting st.toCore me).count p) := by
  by_cases hme : me = st.layout.root
  · rw [hme, callOnRequiredIncrement_root_core, Core.count_innerWaiting, st.layout.isMember_root,
      Core.foldl_proj (F := Core.incOuter) (fun c => c.innerDepsMissing) (fun _ _ => rfl)]
    simp
  · rw [callOnRequiredIncrement_core hme,
      Core.foldl_proj (F := Core.incOuter) (fun c => c.innerDepsMissing) (fun _ _ => rfl),
      Core.foldl_incInner]
    rfl

/-- A member that stops is missed from then on. -/
lemma InnerCounted.doStopEager (hi : st.InnerCounted kept) (hs : me ∈ st.services)
    (hp : st.phase me = .running) (hst : st.trySetServiceStopping me = some st') :
    (st'.doStopEager me).InnerCounted kept := by
  have hset : StartFrame st st' := by
    rw [(trySetServiceStopping_eq_some hst).2]
    exact ⟨_, _, _, _, _, rfl⟩
  have hphase : st'.phase = Function.update st.phase me .stopping := by
    rw [(trySetServiceStopping_eq_some hst).2]
    rfl
  have htop := hset.topology
  have hmoved := hset.moved fun s hs => by rw [hphase, Function.update_of_ne hs]
  have hspec := hmoved.innerSpec_add hi.wf hs hp (by rw [hphase, Function.update_self]; decide)
  have hwaiting : innerWaiting st'.toCore me = innerWaiting st.toCore me := by
    unfold innerWaiting
    rw [htop]
  have hinner := callOnRequiredIncrement_inner st' me
  have hsame := (callOnRequiredIncrement_frame st' me).same
  unfold State.doStopEager
  generalize st'.callOnRequiredIncrement me = st₂ at hinner hsame
  have htree : st₂.toServiceTree = st'.toServiceTree := congrArg (·.toServiceTree) hsame.1
  refine ⟨hsame.1 ▸ htop ▸ hi.wf, fun p => ?_, fun hk p => ?_⟩
  · rw [hinner, hset.inner, hwaiting, hi.counted, ← UInt16.ofNat_add, ← hspec,
      Core.innerSpec_of_tree htree fun s _ => by rw [hsame.2]]
  · rw [Core.innerBound_of_tree htree,
      Core.innerBound_of_tree (c := st.toCore) (congrArg (·.toServiceTree) htop)]
    exact hi.bounded hk p

/-! ### A member comes or goes -/

lemma onServiceAdd_inner (st : State) (me p : ServiceId) :
    (st.onServiceAdd me).innerDepsMissing p =
      st.innerDepsMissing p + .ofNat ((innerWaiting st.toCore me).count p) := by
  have hinner := callOnRequiredIncrement_inner st me p
  unfold onServiceAdd
  simp only
  generalize st.callOnRequiredIncrement me = st₁ at hinner
  have hfold : ((st₁.inEdges .strongUsageGraph me).foldl (fun st e =>
      if !(st.phase (Edge.source st.layout e)).isRunning &&
          (st.phase (Edge.source st.layout e)).isInitializedUnsafe then
        st.onOuterRequiredIncrement me
      else st) st₁).innerDepsMissing = st₁.innerDepsMissing := by
    refine List.foldlRecOn (motive := fun x : State => x.innerDepsMissing = st₁.innerDepsMissing)
      _ _ rfl fun x hx e _ => ?_
    split
    · exact hx
    · exact hx
  generalize List.foldl _ st₁ (st₁.inEdges .strongUsageGraph me) = st₂ at hfold
  rw [← hinner, ← hfold]
  split
  · split
    · rfl
    · rfl
  · rfl

lemma init_inner (st : State) (s p : ServiceId) : (st.init s).innerDepsMissing p =
    Function.update st.innerDepsMissing s 0 p +
      .ofNat (if st.layout.isMember s = true ∧ (st.layout.parent s).owner = p then 1 else 0) := by
  have hconstruct : (st.construct s).innerDepsMissing = Function.update st.innerDepsMissing s 0 ∧
      (st.construct s).layout = st.layout := by
    unfold construct
    simp only
    split
    · exact ⟨rfl, rfl⟩
    · exact ⟨rfl, rfl⟩
  unfold State.init
  simp only
  generalize st.construct s = st₁ at hconstruct
  rw [onServiceAdd_inner, Core.count_innerWaiting]
  simp only
  rw [hconstruct.1, hconstruct.2]

lemma CanInit.not_mem (hs : st.CanInit s) (hg : st.life.Good small) :
    s ∉ st.services := fun hmem => by
  have hnext := (hg.initialized s).1 hmem
  have hp : st.life.phase s = .uninitialized := hs.1
  rw [hp] at hnext
  exact absurd hnext (by decide)

/-- A member that is initialised is missed in the service above it. -/
lemma init_innerSpec (hg : st.life.Good small) (hs : st.CanInit s) (p : ServiceId) :
    (st.init s).innerSpec p = st.innerSpec p +
        (if st.layout.isMember s = true ∧ (st.layout.parent s).owner = p then 1 else 0) ∧
      (st.init s).innerBound p = st.innerBound p +
        if st.layout.isMember s = true ∧ (st.layout.parent s).owner = p then 1 else 0 := by
  have hw := init_wires st s
  have htop : (st.init s).toTopology = st.toTopology.insert s := congrArg (·.toTopology) hw
  have hphase : (st.init s).phase = Function.update st.phase s .stopped := congrArg (·.phase) hw
  have hservices : (st.init s).services.Perm (s :: st.services) := by
    rw [htop]
    exact List.perm_append_comm
  have hlayout : (st.init s).layout = st.layout := congrArg (·.layout) htop
  refine ⟨Core.innerSpec_cons hlayout hservices ?_ (fun t ht => ?_) p,
    Core.innerBound_cons hlayout hservices p⟩
  · rw [hphase, Function.update_self]
    decide
  · have hne : t ≠ s := fun h => hs.not_mem hg (h ▸ ht)
    rw [hphase, Function.update_of_ne hne]

lemma InnerCounted.init (hi : st.InnerCounted kept) (hg : st.life.Good small) (hs : st.CanInit s)
    (hk : kept → (Op.init s).KeepsInner st) : (st.init s).InnerCounted kept := by
  have htop : (st.init s).toTopology = st.toTopology.insert s :=
    congrArg (·.toTopology) (init_wires st s)
  have hns := hs.not_mem hg
  refine ⟨htop ▸ hi.wf.insert hns hs.2.1 hs.2.2.1, fun p => ?_, fun hkept p => ?_⟩
  · rw [init_inner, (init_innerSpec hg hs p).1, UInt16.ofNat_add]
    congr 1
    by_cases hp : p = s
    · -- nothing is below the service yet
      have hle := st.innerSpec_le s
      rw [Core.innerBound_eq_zero hi.wf hns, Nat.le_zero] at hle
      rw [hp, Function.update_self, hle]
      rfl
    · rw [Function.update_of_ne hp, hi.counted]
  · rw [(init_innerSpec hg hs p).2]
    have hlt := hi.bounded hkept p
    split
    · rename_i hmem
      exact hmem.2 ▸ hk hkept hmem.1
    · exact hlt

/-- A service that is gone is not missing any more. -/
lemma InnerCounted.of_erase (hw : st.WellFormed) (hs : st.CanDestroy s)
    (hcounted : ∀ p, st.innerDepsMissing p =
      .ofNat (st.innerSpec p) - .ofNat ((innerWaiting st.toCore s).count p))
    (hbounded : kept → ∀ p, st.innerBound p < 2 ^ 16)
    (htop : st'.toTopology = st.toTopology.erase s)
    (hphase : st'.phase = Function.update st.phase s .destroyed)
    (hinner : st'.innerDepsMissing = st.innerDepsMissing) : st'.InnerCounted kept := by
  obtain ⟨hmem, hroot, hp, hchild, husages⟩ := hs
  have hlayout : st'.layout = st.layout := congrArg (·.layout) htop
  have hservices : st.services.Perm (s :: st'.services) := by
    rw [htop]
    exact List.perm_cons_erase hmem
  have hrest : ∀ t ∈ st'.services, st.phase t = st'.phase t := by
    intro t ht
    have hts : t ≠ s := by
      rw [htop] at ht
      exact (hw.nodup.mem_erase_iff.1 ht).1
    rw [hphase, Function.update_of_ne hts]
  have hspec : ∀ p, st.toCore.innerSpec p = st'.toCore.innerSpec p + _ :=
    Core.innerSpec_cons hlayout.symm hservices (by rw [hp]; decide) hrest
  have hbound : ∀ p, st.toCore.innerBound p = st'.toCore.innerBound p + _ :=
    Core.innerBound_cons hlayout.symm hservices
  refine ⟨htop ▸ hw.erase hroot hchild husages, fun p => ?_, fun hk p => ?_⟩
  · rw [hinner, hcounted, hspec, Core.count_innerWaiting, hlayout, UInt16.ofNat_add,
      UInt16.add_sub_cancel]
  · have hlt := hbounded hk p
    rw [hbound] at hlt
    exact (Nat.le_add_right _ _).trans_lt hlt

/-- What is destroyed has its target reset before. -/
lemma InnerCounted.retarget (hi : st.InnerCounted kept) (hs : st.CanDestroy s) :
    (if st.layout.isClusterHead s then st.transitionTargetSet s .none else st).InnerCounted kept ∧
      (if st.layout.isClusterHead s then st.transitionTargetSet s .none else st).CanDestroy s := by
  refine ⟨ite_kept (fun hi => (steady kept).transitionTargetSet hi s .none) hi, ?_⟩
  split
  · obtain ⟨t, p, c, h⟩ := transitionTargetSet_frame st s .none
    rw [h]
    exact hs
  · exact hs

lemma InnerCounted.destroy (hi : st.InnerCounted kept) (hs : st.CanDestroy s) :
    (st.destroy onServiceStartable s).InnerCounted kept := by
  obtain ⟨hi₁, hs₁⟩ := hi.retarget hs
  unfold State.destroy
  simp only
  generalize (if st.layout.isClusterHead s then st.transitionTargetSet s .none else st) = x
    at hi₁ hs₁
  rw [onServiceDel_eq]
  obtain ⟨hi₂, htop₂, hp₂⟩ := (steady kept).deleting hi₁ hs₁
  have hs₂ : (x.deleting onServiceStartable s).CanDestroy s :=
    canDestroy_congr htop₂ (hp₂.trans hs₁.2.2.1.symm) hs₁
  generalize x.deleting onServiceStartable s = x₁ at hi₂ hs₂
  obtain ⟨hrep, -⟩ := callOnRequiredDecrement_reports startable_reports hi₂.wf.toIsTree s
  obtain ⟨hdec, hdecTop⟩ := innerDecremented_phase x₁ s
  have htop₃ := (topology_of_away hrep.away).trans hdecTop
  have hphase₃ : ∀ t, t ≠ x₁.layout.root →
      (x₁.callOnRequiredDecrement onServiceStartable s).phase t = x₁.phase t := fun t ht => by
    rw [hrep.phase_eq (hdecTop ▸ ht), hdec]
  have hinner₃ := inner_of_away hrep.away
  generalize x₁.callOnRequiredDecrement onServiceStartable s = y at htop₃ hinner₃ hphase₃
  have htree₃ : y.toServiceTree = x₁.toServiceTree := congrArg (·.toServiceTree) htop₃
  have hwaiting : innerWaiting y.toCore s = innerWaiting x₁.toCore s := by
    unfold innerWaiting
    rw [htop₃]
  have hcounted : ∀ p, y.innerDepsMissing p =
      .ofNat (y.innerSpec p) - .ofNat ((innerWaiting y.toCore s).count p) := fun p => by
    rw [hinner₃, innerDecremented_inner, hi₂.counted, hwaiting,
      Core.innerSpec_of_tree htree₃ fun t ht => by rw [hphase₃ t ht]]
  have hbounded : kept → ∀ p, y.innerBound p < 2 ^ 16 := fun hk p => by
    rw [Core.innerBound_of_tree htree₃]
    exact hi₂.bounded hk p
  have hs₃ : y.CanDestroy s := canDestroy_congr htop₃ (hphase₃ s hs₂.2.1) hs₂
  split
  · exact of_erase (htop₃ ▸ hi₂.wf) hs₃ hcounted hbounded rfl rfl rfl
  · exact of_erase (htop₃ ▸ hi₂.wf) hs₃ hcounted hbounded rfl rfl rfl

/-! ### Every handler -/

lemma InnerCounted.pop (hi : st.InnerCounted kept) (h : st.pop = some (s, st')) :
    st'.InnerCounted kept := by
  obtain ⟨htop, hphase⟩ := pop_topology h
  refine hi.of_phase (htop ▸ hi.wf) (congrArg (·.toServiceTree) htop) ?_ hphase
  rcases pop_eq_some h with ⟨-, h⟩ | ⟨-, -, h⟩
  · rw [h]
  · rw [h]

lemma InnerCounted.process {ready : Bool} (hi : st.InnerCounted kept)
    (hl : st.life.Sound False True []) : (st.process ready).InnerCounted kept := by
  obtain ⟨-, h⟩ | ⟨changing, popped, hpop, h⟩ := process_cases st ready
  · rwa [h]
  have hl₁ : popped.life.Sound False True [] := pop_life hpop ▸ hl
  have hi₁ := hi.pop hpop
  obtain h | ⟨stopping, hstop, hset, h⟩ | ⟨hstart, h⟩ := h
  · rwa [h]
  · have hp := isStoppable_running hstop
    have hs := mem_services_of_locked hl₁.good (.inr (.inr hp))
    obtain ⟨hg', hs', hp'⟩ := stopping_spec hl₁.good hstop hset
    rw [h]
    refine (steady kept).tryStopServiceInplace (hi₁.doStopEager hs hp hset) hg' hs' ?_
    rw [hp', Function.update_self]
  · have hp := isStartable_phase hstart
    have hs := mem_services_of_locked hl₁.good (hp.imp_right .inl)
    have hi₂ := hi₁.doStartEager hl₁ hs hp
    obtain ⟨-, -, htree, hstarting, -⟩ := doStartEager_spec hl₁.good hl₁.toTold hs hp
    rw [h]
    unfold tryStartServiceInplace
    simp only
    split
    · exact (steady kept).postStartActions (hi₂.startedCore (htree ▸ hs) hstarting)
    · exact hi₂

/-- Every handler keeps the counters exact. -/
theorem exec_innerCounted {op : Op} (hi : st.InnerCounted kept) (hl : st.life.Sound False True [])
    (hp : op.Pre st) (hk : kept → op.KeepsInner st) : (op.exec st).InnerCounted kept := by
  cases op with
  | init s => exact hi.init hl.good hp hk
  | destroy s => exact hi.destroy hp
  | process ready => exact hi.process hl
  | started s => exact (InnerCounted.steady kept).postStartActions (hi.startedCore hp.1 hp.2)
  | stopped s => exact (InnerCounted.steady kept).postStopActions hi hl.good hp.1 hp.2
  | _ => exact (InnerCounted.steady kept).exec hi hp trivial

lemma initial_innerCounted (L : Layout) (kept : Prop) : (State.initial L).InnerCounted kept := by
  have hnone : ∀ p, (State.initial L).innerBound p = 0 := fun p =>
    List.countP_eq_zero.2 fun s hs => by
      obtain rfl := List.mem_singleton.1 hs
      simp [State.initial]
  refine ⟨.initial L, fun p => ?_, fun _ p => ?_⟩
  · have hle := (State.initial L).innerSpec_le p
    rw [hnone, Nat.le_zero] at hle
    rw [hle]
    rfl
  · rw [hnone]
    decide

/-! ### Decrements -/

lemma requiredRunsOut_eq_false (h : st.layout.isMember me = true →
    st.innerDepsMissing (st.layout.parent me).owner ≠ 0) : st.requiredRunsOut me = false := by
  unfold requiredRunsOut
  rw [Topology.outEdges_cluster]
  by_cases hm : st.layout.isMember me = true
  · simp [hm, innerRunsOut, Edge.target, h hm]
  · simp [hm, innerRunsOut]

/-- The decrement of a start finds the service itself among those that are missing. -/
lemma InnerCounted.startedCore_runsOut (hi : st.InnerCounted True) (hs : me ∈ st.services)
    (hp : st.phase me ≠ .running) : (st.startedCore me).requiredRunsOut me = false := by
  have hframe := startedCore_frame st me
  refine requiredRunsOut_eq_false fun hm => ?_
  have hlayout : (st.startedCore me).layout = st.layout := congrArg (·.layout) hframe.topology
  rw [hframe.inner, hlayout]
  exact hi.ne_zero trivial hs (hlayout ▸ hm) hp

lemma InnerCounted.process_runsOut {ready : Bool} (hi : st.InnerCounted True)
    (hl : st.life.Sound False small []) : (Op.process ready).RunsOutOfInner st = false := by
  simp only [Op.RunsOutOfInner]
  split
  · rename_i s popped hpop
    have hl₁ : popped.life.Sound False small [] := pop_life hpop ▸ hl
    cases hstart : popped.isStartable s with
    | false => simp
    | true =>
      have hp := isStartable_phase hstart
      have hs := mem_services_of_locked hl₁.good (hp.imp_right .inl)
      obtain ⟨-, -, htree, hstarting, -⟩ := doStartEager_spec hl₁.good hl₁.toTold hs hp
      have hnone := ((hi.pop hpop).doStartEager hl₁ hs hp).startedCore_runsOut (htree ▸ hs)
        (by rw [hstarting]; decide)
      rw [hnone, Bool.and_false]
  · rfl

lemma InnerCounted.destroy_runsOut (hi : st.InnerCounted True) (hs : st.CanDestroy s) :
    (Op.destroy s).RunsOutOfInner st = false := by
  obtain ⟨hi₁, hs₁⟩ := hi.retarget hs
  simp only [Op.RunsOutOfInner]
  generalize (if st.layout.isClusterHead s then st.transitionTargetSet s .none else st) = x
    at hi₁ hs₁
  obtain ⟨hi₂, htop₂, hp₂⟩ := (steady True).deleting hi₁ hs₁
  refine requiredRunsOut_eq_false fun hm => hi₂.ne_zero trivial ?_ hm (by rw [hp₂]; decide)
  rw [htop₂]
  exact hs₁.1

/-- No decrement finds a counter that is zero. -/
lemma InnerCounted.runsOut {op : Op} (hi : st.InnerCounted True) (hl : st.life.Sound False small [])
    (hp : op.Pre st) : op.RunsOutOfInner st = false := by
  cases op with
  | destroy s => exact hi.destroy_runsOut hp
  | process ready => exact hi.process_runsOut hl
  | started s => exact hi.startedCore_runsOut hp.1 (by rw [hp.2]; decide)
  | _ => rfl

/-- All members below a service that is stopped are stopped too. -/
lemma innerSpec_eq_innerBound (hw : st.WellFormed) (hg : st.life.Good small) (hs : s ∈ st.services)
    (hp : st.phase s = .stopped) : st.innerSpec s = st.innerBound s := by
  refine List.countP_congr fun t ht => ?_
  rw [decide_eq_true_eq, decide_eq_true_eq]
  refine and_congr_right fun hm => and_iff_left_of_imp fun ho => ?_
  have hcl : st.cluster t = st.cluster s := by
    rw [hw.cluster_eq ht, if_pos hm, ho]
  have hstopped : st.phase t = .stopped := (hg.stopped hs hp).2 t ht hcl
  rw [hstopped]
  decide

/-- A member whose initialisation leaves the counters exact had room. -/
lemma InnerCounted.keeps_of_exact (hi : st.InnerCounted kept) (hg : st.life.Good small)
    (hs : st.CanInit s) (hexact : (st.init s).InnerExact) : (Op.init s).KeepsInner st := by
  intro hm
  have htop : (st.init s).toTopology = st.toTopology.insert s :=
    congrArg (·.toTopology) (init_wires st s)
  have hmem : (st.layout.parent s).owner ∈ (st.init s).services := by
    rw [htop]
    exact List.mem_append_left _ hs.2.1
  have hcounted := hexact.counted _ hmem
  rw [(init_innerSpec hg hs _).1, if_pos ⟨hm, rfl⟩,
    innerSpec_eq_innerBound hi.wf hg hs.2.1 (hs.2.2.2 hm)] at hcounted
  rw [← hcounted]
  exact UInt16.toNat_lt _

/-- What holds along the runs in which there is room. -/
structure InnerSound (st : State) : Prop where
  counted : st.InnerCounted True
  sound : st.life.Sound False True []

end State

/-- Among the runs in which the members of every cluster can be counted, the counters are exact and
never decremented at zero in exactly those that initialise no member below a service which has
`2 ^ 16 - 1` of them. -/
theorem inner_deps_counted_iff {L : Layout} {ops : List Op}
    (h : (system L).Admissible (fun st op => op.KeepsSmall st) (.initial L) ops) :
    (system L).Always State.InnerExact (fun st op => op.RunsOutOfInner st = false) (.initial L)
      ops ↔ (system L).Admissible (fun st op => op.KeepsInner st) (.initial L) ops := by
  have hinit : State.InnerSound (.initial L) :=
    ⟨State.initial_innerCounted L True, initial_sound L False True⟩
  refine Machine.always_iff_given hinit h (fun st hst => hst.counted.exact trivial)
    (fun st op hst hp _ _ => hst.counted.runsOut hst.sound hp) (fun st op hst hp hfew hk => ?_)
    fun st op hst hp _ _ hexact => ?_
  · exact ⟨State.exec_innerCounted hst.counted hst.sound hp fun _ => hk,
      exec_sound hst.sound hp False.elim fun _ => hfew⟩
  · cases op with
    | init s => exact hst.counted.keeps_of_exact hst.sound.good hp hexact
    | _ => trivial

/-- Service 1 is a child of the root, and all others are members below it. -/
def Layout.fan : Layout := small fun s => if s = 1 then exportOf 0 else importOf 1

/-- A member is started, and the service above it after that. -/
def memberRun : List Op :=
  [.init 1, .init 2, .run, .requestStart 1 .manual ⟨0, .start⟩, .process true, .process true]

theorem inner_deps_counted_memberRun :
    (State.after .fan memberRun).phase 1 = .running ∧
      (system .fan).Always State.InnerExact (fun st op => op.RunsOutOfInner st = false)
        (.initial .fan) memberRun :=
  ⟨by decide +kernel, (inner_deps_counted_iff (by decide +kernel)).2 (by decide +kernel)⟩

/-- Service 1 is requested before members are initialised below it. The first one makes it wait. -/
def memberInits (n : Nat) : List Op :=
  [.init 1, .run, .requestStart 1 .manual ⟨0, .start⟩, .init 2, .process false] ++
    (List.range n).map fun i => .init (i + 3)

/-- The state after that: all services but the root are stopped, and each member is missed. -/
structure MembersIn (n : Nat) (st : State) : Prop where
  layout : st.layout = .fan
  services : st.services = List.range (n + 3)
  root : st.phase 0 = .running
  stopped : ∀ s, s ≠ 0 → s < n + 3 → st.phase s = .stopped
  fresh : ∀ s, n + 3 ≤ s → st.phase s = .uninitialized
  missing : st.innerSpec 1 = n + 1

lemma Layout.fan_parent (n : Nat) : Layout.fan.parent (n + 2) = importOf 1 := by
  simp [fan, small]

lemma MembersIn.zero : MembersIn 0 (State.after .fan (memberInits 0)) where
  layout := rfl
  services := by decide +kernel
  root := by decide +kernel
  stopped s hs hlt := by
    obtain rfl | rfl : s = 1 ∨ s = 2 := by omega
    · decide +kernel
    · decide +kernel
  fresh s hs := by
    obtain ⟨s, rfl⟩ := Nat.exists_eq_add_of_le' hs
    rfl
  missing := by decide +kernel

lemma MembersIn.canInit {n : Nat} {st : State} (h : MembersIn n st) : st.CanInit (n + 3) := by
  have hparent : st.layout.parent (n + 3) = Layout.importOf 1 := by
    rw [h.layout, Layout.fan_parent]
  have howner : (st.layout.parent (n + 3)).owner = 1 := by
    rw [hparent]
    rfl
  refine ⟨h.fresh _ le_rfl, ?_, ?_, fun _ => ?_⟩
  · rw [howner, h.services]
    exact List.mem_range.2 (by omega)
  · rw [howner, hparent, h.layout]
    simp [Layout.fan, Layout.small, Layout.importOf]
  · rw [howner]
    exact h.stopped 1 one_ne_zero (by omega)

lemma MembersIn.succ {n : Nat} {st : State} {small : Prop} (h : MembersIn n st)
    (hg : st.life.Good small) : MembersIn (n + 1) (st.init (n + 3)) := by
  have hw := State.init_wires st (n + 3)
  have htop : (st.init (n + 3)).toTopology = st.toTopology.insert (n + 3) :=
    congrArg (·.toTopology) hw
  have hphase : (st.init (n + 3)).phase = Function.update st.phase (n + 3) .stopped :=
    congrArg (·.phase) hw
  refine ⟨?_, ?_, ?_, fun s hs hlt => ?_, fun s hs => ?_, ?_⟩
  · rw [htop]
    exact h.layout
  · rw [htop, Nat.add_right_comm, List.range_succ, ← h.services]
    rfl
  · rw [hphase, Function.update_of_ne (Nat.succ_ne_zero _).symm, h.root]
  · rw [hphase]
    by_cases hsn : s = n + 3
    · rw [hsn, Function.update_self]
    · rw [Function.update_of_ne hsn]
      exact h.stopped s hs (by omega)
  · have hsn : s ≠ n + 3 := by omega
    rw [hphase, Function.update_of_ne hsn]
    exact h.fresh s (by omega)
  · rw [(State.init_innerSpec hg h.canInit 1).1, h.missing, h.layout, Layout.fan_parent,
      Layout.isMember, Layout.fan_parent, if_pos ⟨rfl, rfl⟩]

lemma memberInits_succ (n : Nat) : memberInits (n + 1) = memberInits n ++ [.init (n + 3)] := by
  simp [memberInits, List.range_succ]

/-- By induction on the number of members. -/
lemma memberInits_run (n : Nat) :
    (system .fan).Admissible (fun _ _ => True) (.initial .fan) (memberInits n) ∧
      MembersIn n (State.after .fan (memberInits n)) := by
  induction n with
  | zero => exact ⟨by decide +kernel, .zero⟩
  | succ n ih =>
    obtain ⟨hrun, hin⟩ := ih
    have hg := (Reachable.sound (Machine.Reachable.run (.init rfl) hrun)).good
    have hinit : (system .fan).Admissible (fun _ _ => True)
        (State.after .fan (memberInits n)) [.init (n + 3)] := ⟨hin.canInit, trivial, trivial⟩
    rw [memberInits_succ, State.after_concat]
    exact ⟨hrun.append hinit, hin.succ hg⟩

/-- After `2 ^ 16` members the counter is zero, and none of them is running. -/
theorem memberInits_not_exact :
    ¬ ∀ ops : List Op, (system .fan).Admissible (fun _ _ => True) (.initial .fan) ops →
      (system .fan).Always State.InnerExact (fun st op => op.RunsOutOfInner st = false)
        (.initial .fan) ops := by
  intro hall
  obtain ⟨hrun, hin⟩ := memberInits_run (2 ^ 16 - 1)
  have hexact : (State.after .fan (memberInits (2 ^ 16 - 1))).InnerExact := (hall _ hrun).foldl
  have hone : 1 ∈ (State.after .fan (memberInits (2 ^ 16 - 1))).services := by
    rw [hin.services]
    exact List.mem_range.2 (by omega)
  have hcounted := hexact.counted 1 hone
  have hlt := UInt16.toNat_lt ((State.after .fan (memberInits (2 ^ 16 - 1))).innerDepsMissing 1)
  rw [hcounted, hin.missing] at hlt
  exact lt_irrefl _ hlt

end Idle
