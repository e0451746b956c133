import Idle.Core.Promises
import Idle.Core.Sample

/-!
# Phases and promises along every run

Every function of the core is a sequence of the changes of phases and promises studied so far, and
of changes that these do not depend on. `Sound` is kept by every handler.
-/

namespace Idle

open State

namespace Life

/-- What holds of the promises. They are conserved as long as `kept` holds, that is, until a
cluster is destroyed with promises that are not cancelled. -/
structure Told (kept : Prop) (inFlight : List Promise) (l : Life) : Prop where
  resolved : l.Resolved
  conserved : kept → l.Conserved inFlight

/-- What every handler keeps; `small` stands for runs in which `running_` can count the members of
every cluster. -/
structure Sound (kept small : Prop) (inFlight : List Promise) (l : Life) : Prop
    extends l.Told kept inFlight where
  good : l.Good small
  rests : l.RootRests

variable {l : Life} {h s : ServiceId} {kept small : Prop} {fl : List Promise} {p : Promise}

lemma Told.mapPhases (hl : l.Told kept fl) {f : Phases → Phases}
    (hf : (f l.toPhases).toServiceTree = l.toServiceTree) : (l.mapPhases f).Told kept fl := by
  have hheads : (l.mapPhases f).heads = l.heads := by
    simp [heads, Life.mapPhases, hf]
  refine ⟨⟨?_, ?_, hl.resolved.start_value, hl.resolved.stop_value⟩, fun hk => ?_⟩
  · rw [hheads]
    exact hl.resolved.start_target
  · rw [hheads]
    exact hl.resolved.stop_target
  · have hchained : (l.mapPhases f).chained = l.chained := by
      rw [chained, hheads]
      rfl
    unfold Conserved
    rw [hchained]
    exact hl.conserved hk

lemma Told.transitionTargetSet (hl : l.Told kept fl) (ht : l.IsTree) (hh : h ∈ l.heads)
    (target : Target) : (l.transitionTargetSet h target).Told kept fl :=
  ⟨hl.resolved.transitionTargetSet hh target,
    fun hk => (hl.conserved hk).transitionTargetSet ht hh target⟩

lemma Sound.transitionTargetSet (hl : l.Sound kept small fl) (hh : h ∈ l.heads) (target : Target) :
    (l.transitionTargetSet h target).Sound kept small fl where
  toTold := hl.toTold.transitionTargetSet hl.good.tree hh target
  good := by simpa using hl.good
  rests := by simpa using hl.rests

lemma Sound.transitionTargetCompleteIf (hl : l.Sound kept small fl) (hh : h ∈ l.heads)
    (target : Target)
    (hstart : target = .start → (l.phase h).isRunning = true)
    (hstop : target = .stop → l.running h = 0) :
    (l.transitionTargetCompleteIf h target).Sound kept small fl where
  resolved := hl.resolved.transitionTargetCompleteIf hh target hstart hstop
  conserved hk := (hl.conserved hk).transitionTargetCompleteIf hl.good.tree hh target
  good := by simpa using hl.good
  rests := by simpa using hl.rests

end Life

namespace State

variable {st : State} {me s h : ServiceId} {kept small : Prop} {fl : List Promise} {p : Promise}
variable {k : State → ServiceId → State}

/-! ### The life after each function -/

lemma lockMember_life (st : State) (s : ServiceId) :
    (st.lockMember s).life = st.life.mapPhases (·.transition s .stopped .locked) := by
  unfold lockMember
  rw [callOnOuterOutgoingIncrement_life]
  rfl

lemma foldl_mapPhases (f : Phases → ServiceId → Phases) {g : State → ServiceId → State}
    (hg : ∀ st s, (g st s).life = st.life.mapPhases (f · s)) (ms : List ServiceId) (st : State) :
    (ms.foldl g st).life = st.life.mapPhases fun l => ms.foldl f l := by
  induction ms generalizing st with
  | nil => rfl
  | cons m ms ih => rw [List.foldl_cons, ih, hg]; rfl

lemma doLockCluster_life (ht : st.IsTree) (hh : h ∈ st.services) (hhh : st.cluster h = h) :
    (st.doLockCluster h).life = st.life.mapPhases (·.lock h) := by
  -- first all members are locked, then all are counted as running
  have hms := fun m (hm : m ∈ st.clusterMembers h) => ((ht.mem_clusterMembers hh hhh).1 hm).2
  unfold doLockCluster
  simp only
  rw [foldl_mapPhases Phases.runningIncrement (fun _ _ => rfl), foldl_mapPhases _ lockMember_life]
  simp only [Life.mapPhases, Phases.foldl_transition (ht.nodup_clusterMembers h)]
  rw [Phases.foldl_runningIncrement (h := h) hms]
  rfl

lemma doStartEager_life_locked (hp : st.phase me = .locked) :
    (st.doStartEager me).life = st.life.mapPhases (·.transition me .locked .starting) := by
  simp only [doStartEager, hp, Phase.isLocked_locked, if_true, callOnInnerOutgoingIncrement_life]
  rfl

lemma doStartEager_life_stopped (ht : st.IsTree) (hs : me ∈ st.services)
    (hp : st.phase me = .stopped) :
    (st.doStartEager me).life = st.life.mapPhases fun l =>
      (l.lock (l.cluster me)).transition me .locked .starting := by
  have hlock := doLockCluster_life ht (ht.cluster_mem hs).1 (ht.cluster_cluster hs)
  simp only [doStartEager, hp, Phase.isLocked_stopped, callOnInnerOutgoingIncrement_life]
  generalize st.doLockCluster (st.cluster me) = st' at hlock
  have : ({ st' with toCore := (st'.toCore.transition me .locked .starting).incUses me } :
      State).life = st'.life.mapPhases (·.transition me .locked .starting) := rfl
  simp only [Bool.false_eq_true, if_false]
  rw [this, hlock]
  rfl

lemma trySetServiceStopping_life {st' : State} (h : st.trySetServiceStopping me = some st') :
    st'.life = st.life.mapPhases (·.transition me .running .stopping) := by
  unfold trySetServiceStopping at h
  split at h
  · cases h; rfl
  · cases h

lemma transitionTargetSet_life (st : State) (me : ServiceId) (target : Target) :
    (st.transitionTargetSet me target).life =
      st.life.transitionTargetSet (st.cluster me) target := by
  have htarget : st.life.target = st.target := rfl
  simp only [transitionTargetSet, Life.transitionTargetSet, htarget]
  by_cases h₁ : st.target (st.cluster me) = target
  · rw [if_neg (not_not.2 h₁), if_pos h₁]
  · rw [if_pos h₁, if_neg h₁]
    by_cases h₂ : st.target (st.cluster me) = .none
    · rw [if_neg (not_not.2 h₂), if_pos h₂]
      rfl
    · rw [if_pos h₂, if_neg h₂]
      rfl

lemma transitionTargetCompleteIf_life (st : State) (me : ServiceId) (target : Target) :
    (st.transitionTargetCompleteIf me target).life =
      st.life.transitionTargetCompleteIf (st.cluster me) target := by
  have htarget : st.life.target = st.target := rfl
  simp only [transitionTargetCompleteIf, Life.transitionTargetCompleteIf, htarget]
  split <;> rfl

lemma chainPromise_life (st : State) (me : ServiceId) (p : Promise) :
    (st.chainPromise me p).life = st.life.chain (st.cluster me) p := rfl

lemma doFinalizeCluster_life (st : State) (me : ServiceId) :
    (st.doFinalizeCluster me).life = st.life.transitionTargetCompleteIf (st.cluster me) .start := by
  unfold doFinalizeCluster
  rw [transitionTargetCompleteIf_life]
  rfl

lemma unlockMember_life (st : State) (s : ServiceId) :
    (st.unlockMember s).life = st.life.mapPhases (·.transition s .pending .stopped) := by
  have h := callOnOuterOutgoingDecrement_life st s
  unfold unlockMember
  simp only
  generalize st.callOnOuterOutgoingDecrement s = st' at h
  rw [← h]
  rfl

/-! ### Starting leaves the tree alone -/

/-- `do_start_eager` changes phases and `running_` only. -/
lemma doStartEager_proj {β : Type} {f : Life → β}
    (htransition : ∀ l s p q, f (l.mapPhases (·.transition s p q)) = f l)
    (hrunning : ∀ l s, f (l.mapPhases (·.runningIncrement s)) = f l) (st : State)
    (me : ServiceId) : f (st.doStartEager me).life = f st.life := by
  have hfoldl : ∀ (g : State → ServiceId → State), (∀ st s, f (g st s).life = f st.life) →
      ∀ (ms : List ServiceId) (st : State), f (ms.foldl g st).life = f st.life := by
    intro g hg ms
    induction ms with
    | nil => exact fun _ => rfl
    | cons m ms ih => exact fun st => (ih _).trans (hg st m)
  -- whether the cluster has to be locked first makes no difference to `f`
  have hlock : f (st.doLockCluster (st.cluster me)).life = f st.life := by
    unfold doLockCluster
    simp only
    rw [hfoldl callOnClusterRunningIncrement fun st s => hrunning st.life s,
      hfoldl lockMember fun st s => by rw [lockMember_life, htransition]]
  have hif : f (if (st.phase me).isLocked then st
      else st.doLockCluster (st.cluster me)).life = f st.life := by
    split
    · rfl
    · exact hlock
  unfold doStartEager
  simp only
  rw [callOnInnerOutgoingIncrement_life]
  generalize (if (st.phase me).isLocked then st else st.doLockCluster (st.cluster me)) = st' at hif
  exact (htransition st'.life me .locked .starting).trans hif

lemma doStartEager_tree (st : State) (me : ServiceId) :
    (st.doStartEager me).toServiceTree = st.toServiceTree :=
  doStartEager_proj (f := fun l => l.toServiceTree) (fun _ _ _ _ => rfl) (fun _ _ => rfl) st me

/-- `post_start_actions` is a phase change, after which a head may be finalised. -/
lemma postStartActions_keeps {Q : Life → Prop} (hk : ∀ st s, Q st.life → Q (k st s).life)
    (hQ : Q (st.life.mapPhases (·.transition me .starting .running)))
    (hfinal : ∀ st' : State, Q st'.life → st'.layout.isClusterHead me = true →
      Q (st'.life.transitionTargetCompleteIf (st'.cluster me) .start)) :
    Q (st.postStartActions k me).life := by
  have hreq : Q ((({ st with toCore := st.toCore.transition me .starting .running } :
      State).callOnOuterDelayedOutgoingIncrement me).callOnRequiredDecrement k me).life := by
    refine callOnRequiredDecrement_keeps hk ?_
    rw [callOnOuterDelayedOutgoingIncrement_life]
    exact hQ
  simp only [postStartActions]
  generalize (({ st with toCore := st.toCore.transition me .starting .running } :
    State).callOnOuterDelayedOutgoingIncrement me).callOnRequiredDecrement k me = st' at hreq
  split
  · split
    · rename_i hhead
      rw [doFinalizeCluster_life]
      exact hfinal st' hreq hhead
    · exact hreq
  · exact hreq

lemma postStartActions_tree {t : ServiceTree}
    (hk : ∀ st s, st.toServiceTree = t → (k st s).toServiceTree = t)
    (ht : st.toServiceTree = t) : (st.postStartActions k me).toServiceTree = t := by
  refine postStartActions_keeps (Q := fun l => l.toServiceTree = t) hk ht fun st' ht' _ => ?_
  rw [Life.transitionTargetCompleteIf_toPhases]
  exact ht'

lemma onServiceStartable_tree (st : State) (s : ServiceId) :
    (st.onServiceStartable s).toServiceTree = st.toServiceTree := by
  -- the only service that a report starts is the root
  have hset := congrArg (fun l => l.toServiceTree) (setOverride_life st st.layout.root .start)
  unfold onServiceStartable startRoot
  simp only
  generalize st.setOverride st.layout.root .start = st' at hset
  have hpost : ((st'.doStartEager st'.layout.root).postStartActions pushUp
      (st'.doStartEager st'.layout.root).layout.root).toServiceTree = st.toServiceTree :=
    postStartActions_tree (fun _ _ h => h) ((doStartEager_tree st' st'.layout.root).trans hset)
  generalize (st'.doStartEager st'.layout.root).postStartActions pushUp
    (st'.doStartEager st'.layout.root).layout.root = st₂ at hpost
  by_cases h : s ≠ st.layout.root ∧ (st.phase st.layout.root).isRunning = false
  · rw [if_pos h]
    exact hpost
  · rw [if_neg h]
    rfl

/-! ### Starting -/

/-- The head of the cluster of an initialised service. -/
lemma Life.Sound.cluster_mem_heads {l : Life} (hl : l.Good small) (hs : s ∈ l.services) :
    l.cluster s ∈ l.heads :=
  Life.mem_heads.2 ⟨(hl.tree.cluster_mem hs).1, hl.tree.cluster_cluster hs⟩

lemma doStartEager_spec (hg : st.life.Good small) (htold : st.life.Told kept fl)
    (hs : me ∈ st.services) (hp : st.phase me = .locked ∨ st.phase me = .stopped) :
    (st.doStartEager me).life.Good small ∧ (st.doStartEager me).life.Told kept fl ∧
      (st.doStartEager me).toServiceTree = st.toServiceTree ∧
      (st.doStartEager me).phase me = .starting ∧
      ∀ t ∈ st.services, st.cluster t ≠ st.cluster me →
        (st.doStartEager me).phase t = st.phase t := by
  rcases hp with hp | hp
  -- the cluster was locked before, by another member of it
  · have hlife := doStartEager_life_locked hp
    have hphase : (st.doStartEager me).phase = (st.doStartEager me).life.phase := rfl
    have htree : (st.doStartEager me).toServiceTree = (st.doStartEager me).life.toServiceTree := rfl
    rw [hphase, htree, hlife]
    refine ⟨hg.advance hs hp rfl (by decide) (by decide) (by decide), htold.mapPhases rfl, rfl,
      by simp [Life.mapPhases, Phases.transition], fun t _ ht => ?_⟩
    have : t ≠ me := fun h => ht (h ▸ rfl)
    simp [Life.mapPhases, Phases.transition, this, life]
  -- the whole cluster is locked together with its first member
  · have hlife := doStartEager_life_stopped hg.tree hs hp
    have hphase : (st.doStartEager me).phase = (st.doStartEager me).life.phase := rfl
    have htree : (st.doStartEager me).toServiceTree = (st.doStartEager me).life.toServiceTree := rfl
    obtain ⟨hh, hhh⟩ := Life.mem_heads.1 (Life.Sound.cluster_mem_heads hg hs)
    have hmem := fun t => hg.tree.mem_clusterMembers (t := t) hh hhh
    have hlocked := hg.lock hh hhh ((hg.stopped hs hp).2 _ hh hhh)
    have hp' : (st.life.lock (st.cluster me)).phase me = .locked := by
      have : me ∈ st.life.clusterMembers (st.life.cluster me) := (hmem me).2 ⟨hs, rfl⟩
      exact if_pos this
    rw [hphase, htree, hlife]
    refine ⟨hlocked.advance hs hp' rfl (by decide) (by decide) (by decide),
      htold.mapPhases rfl, rfl, by simp [Life.mapPhases, Phases.transition], fun t _ ht => ?_⟩
    have htm : t ≠ me := fun h => ht (h ▸ rfl)
    have htc : t ∉ st.life.clusterMembers (st.life.cluster me) := fun h => ht ((hmem t).1 h).2
    simp only [Life.mapPhases, Phases.transition, Function.update_of_ne htm]
    exact if_neg htc

/-- `post_start_actions`, whatever else it starts. -/
lemma postStartActions_sound
    (hk : ∀ st s, st.life.Sound kept small fl ∧ st.life.phase me = .running →
      (k st s).life.Sound kept small fl ∧ (k st s).life.phase me = .running)
    (hg : st.life.Good small) (htold : st.life.Told kept fl) (hs : me ∈ st.services)
    (hp : st.phase me = .starting) (hr : me = st.layout.root ∨ st.life.RootRests) :
    (st.postStartActions k me).life.Sound kept small fl ∧
      (st.postStartActions k me).life.phase me = .running := by
  refine postStartActions_keeps (Q := fun l => l.Sound kept small fl ∧ l.phase me = .running)
    hk ?_ ?_
  · -- the root rests again once it is running; if another service starts, it rested all along
    refine ⟨⟨htold.mapPhases rfl, hg.advance hs hp rfl (by decide) (by decide) (by decide), ?_⟩,
      by simp [Life.mapPhases, Phases.transition]⟩
    by_cases hroot : me = st.layout.root
    · exact .inr (by simp [Life.mapPhases, Phases.transition, life, ← hroot])
    · simpa [Phases.RootRests, Life.mapPhases, Phases.transition, life, Ne.symm hroot]
        using hr.resolve_left hroot
  · rintro st' ⟨hsound, hrun⟩ hhead
    have hmem : me ∈ st'.life.services := by simp [hsound.good.initialized, hrun, Phase.next?]
    have hcl : st'.life.cluster me = me := hsound.good.tree.cluster_of_isClusterHead hmem hhead
    refine ⟨hsound.transitionTargetCompleteIf (Life.Sound.cluster_mem_heads hsound.good hmem) _
      (fun _ => ?_) (by simp), by simpa using hrun⟩
    rw [hcl, hrun, Phase.isRunning_running]

/-- Nothing happened to the services themselves, nor to `s`. -/
def Life.Unmoved (l₀ : Life) (s : ServiceId) (l : Life) : Prop :=
  l.toServiceTree = l₀.toServiceTree ∧ l.phase s = l₀.phase s ∧ l.target s = l₀.target s ∧
    l.promise s = l₀.promise s

lemma Life.Unmoved.transitionTargetCompleteIf {l₀ l : Life} {target : Target}
    (hl : Life.Unmoved l₀ s l) (hs : s ≠ h) :
    Life.Unmoved l₀ s (l.transitionTargetCompleteIf h target) := by
  unfold Life.transitionTargetCompleteIf
  split
  · simpa [Life.Unmoved, Life.complete, Life.setTarget, hs] using hl
  · exact hl

lemma postStartActions_unmoved {l₀ : Life}
    (hk : ∀ st t, Life.Unmoved l₀ s st.life → Life.Unmoved l₀ s (k st t).life) (hs : s ≠ me)
    (hcl : l₀.cluster me = me) (hl : Life.Unmoved l₀ s st.life) :
    Life.Unmoved l₀ s (st.postStartActions k me).life := by
  refine postStartActions_keeps (Q := Life.Unmoved l₀ s) hk ?_ fun st' hu _ => ?_
  · simpa [Life.Unmoved, Life.mapPhases, Phases.transition, hs] using hl
  · refine hu.transitionTargetCompleteIf ?_
    have : st'.cluster me = l₀.cluster me := congrArg (fun t => t.cluster me) hu.1
    rwa [this, hcl]

/-- `start_root` -/
lemma startRoot_sound {r : ServiceId}
    (hk : ∀ st s, st.life.Sound kept small fl ∧ st.life.phase r = .running →
      (k st s).life.Sound kept small fl ∧ (k st s).life.phase r = .running)
    (hl : st.life.Sound kept small fl) (hroot : st.layout.root = r) (hr : st.phase r ≠ .running) :
    (st.startRoot k).life.Sound kept small fl := by
  subst hroot
  have hlife := setOverride_life st st.layout.root .start
  simp only [startRoot]
  generalize st.setOverride st.layout.root .start = st' at hlife
  have hroot : st'.layout.root = st.layout.root := congrArg (fun l => l.layout.root) hlife
  have hsound : st'.life.Sound kept small fl := hlife ▸ hl
  -- the root is never seen half-way, so it is stopped if it is not running
  have hphase : st'.phase st.layout.root = .stopped := by
    have := hl.rests.resolve_right hr
    exact (congrArg (fun l => l.phase st.layout.root) hlife).trans this
  have hmem : st.layout.root ∈ st'.services := hroot ▸ hsound.good.tree.root_mem
  rw [hroot]
  obtain ⟨hg, htold, htree, hp, -⟩ :=
    doStartEager_spec hsound.good hsound.toTold hmem (.inr hphase)
  have hroot' : (st'.doStartEager st.layout.root).layout.root = st.layout.root :=
    (congrArg (fun t => t.layout.root) htree).trans hroot
  rw [hroot']
  exact (postStartActions_sound hk hg htold (htree ▸ hmem) hp (.inl hroot'.symm)).1

/-- `on_service_startable` -/
lemma onServiceStartable_sound (hl : st.life.Sound kept small fl) :
    (st.onServiceStartable s).life.Sound kept small fl := by
  unfold onServiceStartable
  simp only [pushUp_life]
  split
  · rename_i h
    refine startRoot_sound (fun st s h => h) hl rfl fun hr => ?_
    simp [hr] at h
  · exact hl

/-- `on_service_startable` starts nothing but the root. -/
lemma onServiceStartable_unmoved {l₀ : Life} {t : ServiceId} (hl : st.life.Sound kept small fl)
    (hs : s ∈ st.services) (hr : s ≠ st.layout.root) (hu : Life.Unmoved l₀ s st.life) :
    Life.Unmoved l₀ s (st.onServiceStartable t).life := by
  unfold onServiceStartable
  simp only [pushUp_life]
  split
  · rename_i hroot
    have hlife := setOverride_life st st.layout.root .start
    simp only [startRoot]
    generalize st.setOverride st.layout.root .start = st' at hlife
    have hsound : st'.life.Sound kept small fl := hlife ▸ hl
    have hlayout : st'.layout = st.layout := congrArg (fun l => l.layout) hlife
    have hmem : s ∈ st'.services := by
      have : st'.services = st.services := congrArg (fun l => l.services) hlife
      rwa [this]
    -- the cluster of the root is the root alone, so starting it leaves `s` alone
    have hcl : st'.cluster s ≠ st'.cluster st'.layout.root := by
      have hc : st'.cluster st'.layout.root = st'.layout.root := hsound.good.tree.cluster_root
      rw [hc]
      exact fun heq => hr (((hsound.good.tree.cluster_eq_root hmem).1 heq).trans
        (congrArg Layout.root hlayout))
    have hstopped : st'.phase st'.layout.root = .stopped := by
      refine hsound.rests.resolve_right fun hrun => ?_
      have hrun' : st.life.phase st.life.layout.root = .running := hlife ▸ hrun
      have hrun'' : st.phase st.layout.root = .running := hrun'
      simp [hrun''] at hroot
    have hrm : st'.layout.root ∈ st'.services := hsound.good.tree.root_mem
    obtain ⟨-, -, htree, -, hphase⟩ :=
      doStartEager_spec hsound.good hsound.toTold hrm (.inr hstopped)
    have hu' : Life.Unmoved l₀ s st'.life := hlife ▸ hu
    have hstart : (st'.doStartEager st'.layout.root).life.target = st'.life.target ∧
        (st'.doStartEager st'.layout.root).life.promise = st'.life.promise := by
      rw [doStartEager_life_stopped hsound.good.tree hrm hstopped]
      exact ⟨rfl, rfl⟩
    have hlayout' : (st'.doStartEager st'.layout.root).layout.root = st'.layout.root :=
      congrArg (fun t => t.layout.root) htree
    rw [hlayout']
    refine postStartActions_unmoved (fun _ _ h => h) ?_ ?_ ⟨htree.trans hu'.1, ?_, ?_, ?_⟩
    · exact fun heq => hr (heq.trans (congrArg Layout.root hlayout))
    · have : l₀.cluster = st'.cluster := congrArg (fun t => t.cluster) hu'.1.symm
      rw [this]
      exact hsound.good.tree.cluster_root
    · exact (hphase s hmem hcl).trans hu'.2.1
    · exact (congrFun hstart.1 s).trans hu'.2.2.1
    · exact (congrFun hstart.2 s).trans hu'.2.2.2
  · exact hu

lemma onServiceStartable_running (hl : st.life.Sound kept small fl) (hp : st.phase me = .running) :
    (st.onServiceStartable s).life.phase me = .running := by
  by_cases hme : me = st.layout.root
  · subst hme
    unfold onServiceStartable
    rw [if_neg (by simp [hp])]
    exact hp
  · have hmem : me ∈ st.services := by
      have := hl.good.initialized me
      simpa [life, hp, Phase.next?] using this
    have := onServiceStartable_unmoved (t := s) hl hmem hme ⟨rfl, rfl, rfl, rfl⟩
    exact this.2.1.trans hp

/-! ### Stopping -/

/-- `do_unlock_cluster`, after `running_` came to zero. -/
lemma doUnlockCluster_sound
    (hk : ∀ st s, st.life.Sound kept small fl → (k st s).life.Sound kept small fl)
    (hsound : (st.life.mapPhases fun l =>
      l.transitions (l.clusterMembers h) .pending .stopped).Sound kept small fl)
    (hh : h ∈ st.life.heads) (hrun : st.running h = 0) :
    (st.doUnlockCluster k h).life.Sound kept small fl := by
  have hlife : ((st.clusterMembers h).foldl unlockMember st).life =
      st.life.mapPhases fun l => l.transitions (l.clusterMembers h) .pending .stopped := by
    have hnodup : (st.clusterMembers h).Nodup := hsound.good.tree.nodup_clusterMembers h
    rw [foldl_mapPhases _ unlockMember_life]
    simp only [Life.mapPhases, Phases.foldl_transition hnodup]
    rfl
  simp only [doUnlockCluster]
  generalize (st.clusterMembers h).foldl unlockMember st = st₁ at hlife
  rw [← hlife] at hsound
  have hhh : st₁.cluster h = h := by
    have : st₁.cluster h = st.life.cluster h := congrArg (fun l => l.cluster h) hlife
    exact this.trans (Life.mem_heads.1 hh).2
  have hh₁ : h ∈ st₁.life.heads := by rw [hlife]; exact hh
  have hrun₁ : st₁.life.running h = 0 := by rw [hlife]; exact hrun
  -- the promises of a stop are kept: nobody in the cluster is running
  have hsound₂ : (st₁.transitionTargetCompleteIf h .stop).life.Sound kept small fl := by
    rw [transitionTargetCompleteIf_life, hhh]
    exact hsound.transitionTargetCompleteIf hh₁ .stop (by simp) fun _ => hrun₁
  have hsound₃ : ((st₁.transitionTargetCompleteIf h .stop).doMarkClusterForStop k h
      false).life.Sound kept small fl := doMarkClusterForStop_keeps hk hsound₂
  generalize (st₁.transitionTargetCompleteIf h .stop).doMarkClusterForStop k h false = st₃
    at hsound₃
  split
  · exact hsound₃
  · exact hsound₃

lemma callOnClusterRunningDecrement_sound
    (hk : ∀ st s, st.life.Sound kept small fl → (k st s).life.Sound kept small fl) {l : Life}
    (hg : l.Good small) (htold : l.Told kept fl) (hs : me ∈ l.services)
    (hp : l.phase me = .stopping)
    (hr : me = l.layout.root ∨ l.RootRests)
    (hlife : st.life = l.mapPhases (·.transition me .stopping .pending)) :
    (st.callOnClusterRunningDecrement k me).life.Sound kept small fl := by
  have hcl : st.cluster me = l.cluster me := congrArg (fun l => l.cluster me) hlife
  have hrun : st.running = l.running := congrArg (fun l => l.running) hlife
  have hheads : l.cluster me ∈ l.heads := Life.Sound.cluster_mem_heads hg hs
  have hpend : (l.pend me).running (l.cluster me) = st.running (st.cluster me) - 1 := by
    simp [Phases.pend, hrun, hcl]
  simp only [callOnClusterRunningDecrement, Function.update_self, beq_iff_eq]
  -- the last member that gets pending unlocks the cluster; the root is always the last of its own
  split
  · rename_i h0
    have hgood := hg.pend_unlock hs hp (hpend.trans h0)
    refine doUnlockCluster_sound hk ?_ ?_ (by simpa using h0)
    · have hunlock : ((st.life.mapPhases fun x => { x with
            running := Function.update x.running (x.cluster me) (x.running (x.cluster me) - 1)
            epoch :=
              Function.update x.epoch (x.cluster me) (x.epoch (x.cluster me) + 1) }).mapPhases
            fun x => x.transitions (x.clusterMembers (st.cluster me)) .pending .stopped) =
          l.mapPhases fun x => (x.pend me).unlock (x.cluster me) := by
        rw [hlife, hcl]
        rfl
      exact cast (congrArg _ hunlock.symm)
        ⟨htold.mapPhases rfl, hgood, Phases.RootRests.unlock hg hs hr⟩
    · rw [hcl]
      exact cast (congrArg (fun l' => l.cluster me ∈ l'.heads) hlife.symm) hheads
  · rename_i h0
    have hne : me ≠ l.layout.root := by
      rintro rfl
      have hroot := hg.pend_root hp
      have hcl' : l.cluster l.layout.root = l.layout.root := hg.tree.cluster_root
      rw [hcl'] at hpend
      exact h0 (hpend.symm.trans hroot)
    have hpend' : (st.life.mapPhases fun x => { x with
          running := Function.update x.running (x.cluster me) (x.running (x.cluster me) - 1) }) =
        l.mapPhases (·.pend me) := by
      rw [hlife]
      rfl
    exact cast (congrArg _ hpend'.symm) ⟨htold.mapPhases rfl,
      hg.pend hs hp (by rw [hpend]; exact h0), (hr.resolve_left hne).pend hne⟩

/-- `post_stop_actions` -/
lemma postStopActions_sound
    (hk : ∀ st s, st.life.Sound kept small fl → (k st s).life.Sound kept small fl)
    (hg : st.life.Good small) (htold : st.life.Told kept fl) (hs : me ∈ st.services)
    (hp : st.phase me = .stopping) (hr : me = st.layout.root ∨ st.life.RootRests) :
    (st.postStopActions k me).life.Sound kept small fl := by
  have hlife := callOnInnerOutgoingDecrement_life st me
  simp only [postStopActions]
  generalize st.callOnInnerOutgoingDecrement me = st' at hlife
  refine callOnClusterRunningDecrement_sound hk hg htold hs hp hr ?_
  rw [← hlife]
  rfl

/-! ### The handlers -/

lemma started_sound (hl : st.life.Sound kept small fl) (hs : me ∈ st.services)
    (hp : st.phase me = .starting) :
    (st.postStartActions onServiceStartable me).life.Sound kept small fl :=
  (postStartActions_sound
    (fun _ _ h => ⟨onServiceStartable_sound h.1, onServiceStartable_running h.1 h.2⟩)
    hl.good hl.toTold hs hp (.inr hl.rests)).1

lemma stopped_sound (hl : st.life.Sound kept small fl) (hs : me ∈ st.services)
    (hp : st.phase me = .stopping) :
    (st.postStopActions onServiceStartable me).life.Sound kept small fl :=
  postStopActions_sound (fun _ _ => onServiceStartable_sound) hl.good hl.toTold hs hp
    (.inr hl.rests)

lemma run_sound (hl : st.life.Sound kept small fl) : st.run.life.Sound kept small fl := by
  unfold run
  split
  · exact hl
  · rename_i hr
    refine startRoot_sound (r := st.layout.root)
      (fun _ _ h => ⟨onServiceStartable_sound h.1, onServiceStartable_running h.1 h.2⟩) hl rfl ?_
    simpa using hr

lemma isStartable_phase (h : st.isStartable me = true) :
    st.phase me = .locked ∨ st.phase me = .stopped := by
  simp only [Core.isStartable, Bool.and_eq_true, Bool.or_eq_true, beq_iff_eq] at h
  exact h.2.imp id And.left

lemma Life.Sound.mem_services {l : Life} (hl : l.Good small) (hp : (l.phase s).next?.isSome) :
    s ∈ l.services := (hl.initialized s).2 hp

lemma tryStartServiceInplace_sound {ready : Bool} (hl : st.life.Sound kept small fl)
    (h : st.isStartable me = true) (hready : me = st.layout.root → ready = true) :
    (st.tryStartServiceInplace me ready).life.Sound kept small fl := by
  have hphase := isStartable_phase h
  have hs : me ∈ st.services := by
    refine Life.Sound.mem_services hl.good ?_
    change (st.phase me).next?.isSome = true
    rcases hphase with hp | hp <;> simp [hp, Phase.next?]
  obtain ⟨hg, htold, htree, hp, hothers⟩ := doStartEager_spec hl.good hl.toTold hs hphase
  -- the root is not in the cluster of any other service
  have hroot : me = (st.doStartEager me).layout.root ∨ (st.doStartEager me).life.RootRests := by
    by_cases hr : me = st.layout.root
    · exact .inl (hr.trans (congrArg (fun t => t.layout.root) htree.symm))
    · refine .inr ?_
      have hrm : st.layout.root ∈ st.services := hl.good.tree.root_mem
      have hne : st.cluster st.layout.root ≠ st.cluster me := by
        have hc : st.cluster st.layout.root = st.layout.root := hl.good.tree.cluster_root
        rw [hc]
        exact fun heq => hr ((hl.good.tree.cluster_eq_root hs).1 heq.symm)
      have hphase := hothers _ hrm hne
      have : (st.doStartEager me).layout = st.layout := congrArg (fun t => t.layout) htree
      change (st.doStartEager me).phase (st.doStartEager me).layout.root = _ ∨
        (st.doStartEager me).phase (st.doStartEager me).layout.root = _
      rw [this, hphase]
      exact hl.rests
  unfold tryStartServiceInplace
  simp only
  split
  · exact (postStartActions_sound
      (fun _ _ h => ⟨onServiceStartable_sound h.1, onServiceStartable_running h.1 h.2⟩)
      hg htold (htree ▸ hs) hp hroot).1
  · rename_i hnot
    refine ⟨htold, hg, hroot.resolve_left fun hr => hnot (hready ?_)⟩
    exact hr.trans (congrArg (fun t => t.layout.root) htree)

lemma tryStopServiceInplace_sound {ready : Bool} (hl : st.life.Sound kept small fl)
    (h : st.isStoppable me = true) (hready : me = st.layout.root → ready = true) {st' : State}
    (hst : st.trySetServiceStopping me = some st') :
    (st'.tryStopServiceInplace me ready).life.Sound kept small fl := by
  have hp : st.phase me = .running := by
    simp only [Core.isStoppable, Bool.and_eq_true, Phase.isRunning_iff] at h
    exact h.1
  have hs : me ∈ st.services := by
    refine Life.Sound.mem_services hl.good ?_
    change (st.phase me).next?.isSome = true
    simp [hp, Phase.next?]
  -- `try_set_service_stopping` has changed the phase, and stopping eagerly only tells others
  have hlife : (st'.doStopEager me).life = st.life.mapPhases (·.transition me .running .stopping) :=
    (doStopEager_life st' me).trans (trySetServiceStopping_life hst)
  have hg := hl.good.advance hs hp (q := .stopping) rfl (by decide) (by decide) (by decide)
  have htold : (st.life.mapPhases (·.transition me .running .stopping)).Told kept fl :=
    hl.toTold.mapPhases rfl
  have hroot : me = st.layout.root ∨
      (st.life.mapPhases (·.transition me .running .stopping)).RootRests := by
    by_cases hr : me = st.layout.root
    · exact .inl hr
    · refine .inr ?_
      simpa [Phases.RootRests, Life.mapPhases, Phases.transition, life, Ne.symm hr] using hl.rests
  unfold tryStopServiceInplace
  simp only
  generalize st'.doStopEager me = st₂ at hlife
  have hlayout : st₂.layout = st.layout := congrArg (fun l => l.layout) hlife
  have hp₂ : st₂.phase me = .stopping := by
    have : st₂.phase me = Function.update st.phase me .stopping me :=
      congrArg (fun l => l.phase me) hlife
    simpa using this
  have hs₂ : me ∈ st₂.services := by
    have : st₂.services = st.services := congrArg (fun l => l.services) hlife
    rwa [this]
  split
  · refine postStopActions_sound (fun _ _ => onServiceStartable_sound) ?_ ?_ hs₂ hp₂ ?_
    · rw [hlife]; exact hg
    · rw [hlife]; exact htold
    · rw [hlayout, hlife]; exact hroot
  · rename_i hnot
    rw [hlife]
    exact ⟨htold, hg, hroot.resolve_left fun hr => hnot (hready hr)⟩

lemma process_sound {ready : Bool} (hl : st.life.Sound kept small fl)
    (hready : st.pop.map Prod.fst = some st.layout.root → ready = true) :
    (st.process ready).life.Sound kept small fl := by
  unfold process
  split
  · -- the hooks of the root complete at once
    rename_i changing st' hpop
    have hlife := pop_life hpop
    have hroot : st'.layout.root = st.layout.root := congrArg (fun l => l.layout.root) hlife
    have hl' : st'.life.Sound kept small fl := hlife ▸ hl
    have hready' : changing = st'.layout.root → ready = true := fun h =>
      hready (by rw [hpop, ← hroot, ← h]; rfl)
    unfold processService
    split
    · split
      · split
        · rename_i hstop _ _ hset
          exact tryStopServiceInplace_sound hl' hstop hready' hset
        · exact hl'
      · exact hl'
    · split
      · split
        · rename_i hstart
          exact tryStartServiceInplace_sound hl' hstart hready'
        · exact hl'
      · exact hl'
  · exact hl

lemma init_life (st : State) (s : ServiceId) : (st.init s).life = st.life.insert s := by
  unfold init construct
  simp only [onServiceAdd_life]
  by_cases hh : st.layout.isClusterHead s = true
  · simp [hh, life, Life.insert, Life.mapPhases, Phases.insert]
    rfl
  · simp [hh, life, Life.insert, Life.mapPhases, Phases.insert]
    rfl

lemma init_sound (hl : st.life.Sound kept small fl) (hs : st.CanInit s)
    (hfew : small → st.layout.isMember s = true →
      st.members (st.cluster (st.layout.parent s).owner) + 1 < 2 ^ 26) :
    (st.init s).life.Sound kept small fl := by
  obtain ⟨hp, ho, hparts, hm⟩ := hs
  have hns : s ∉ st.life.services := by
    rw [hl.good.initialized]
    simp [life, hp, Phase.next?]
  have hne : st.life.layout.root ≠ s := fun h => hns (h ▸ hl.good.tree.root_mem)
  rw [init_life]
  refine ⟨⟨hl.resolved.insert hl.good.tree hns ho,
    fun hk => (hl.conserved hk).insert hl.good.tree hns ho⟩,
    hl.good.insert hp ho hparts hm hfew, ?_⟩
  simpa [Phases.RootRests, Life.insert, Life.mapPhases, Phases.insert, hne] using hl.rests

lemma destroy_life (st : State) (s : ServiceId) :
    (st.destroy k s).life = ((if st.layout.isClusterHead s then st.transitionTargetSet s .none
      else st).onServiceDel k s).life.erase s := by
  simp only [destroy]
  generalize (if st.layout.isClusterHead s then st.transitionTargetSet s .none
      else st).onServiceDel k s = st'
  simp only [Life.erase, Life.mapPhases, Phases.erase]
  by_cases hh : st'.layout.isClusterHead s = true
  · simp [hh, life, eraseFromQueue]
  · simp [hh, life, eraseFromQueue]

lemma destroy_sound (hl : st.life.Sound kept small fl) (hs : st.CanDestroy s)
    (hkept : kept → st.layout.isClusterHead s = true → st.target s = .none → st.promise s = []) :
    (st.destroy onServiceStartable s).life.Sound kept small fl := by
  obtain ⟨hmem, hr, hp, hchild, -⟩ := hs
  have hhead : st.layout.isClusterHead s = true → st.cluster s = s :=
    hl.good.tree.cluster_of_isClusterHead hmem
  -- after its target was reset, nothing is chained to the cluster of a head
  obtain ⟨st₁, hst₁, htree₁, hphase₁, hl₁, hpromise₁⟩ : ∃ st₁,
      st₁ = (if st.layout.isClusterHead s then st.transitionTargetSet s .none else st) ∧
      st₁.toServiceTree = st.toServiceTree ∧ st₁.phase s = st.phase s ∧
      st₁.life.Sound kept small fl ∧
      (kept → st.layout.isClusterHead s = true → st₁.promise s = []) := by
    refine ⟨_, rfl, ?_⟩
    split
    · rename_i hh
      have hlife := transitionTargetSet_life st s .none
      rw [hhead hh] at hlife
      have hphases : (st.transitionTargetSet s .none).life.toPhases = st.life.toPhases := by
        rw [hlife, Life.transitionTargetSet_toPhases]
      refine ⟨congrArg (fun l => l.toServiceTree) hphases, congrArg (fun l => l.phase s) hphases,
        hlife ▸ hl.transitionTargetSet (Life.mem_heads.2 ⟨hmem, hhead hh⟩) .none, fun hk _ => ?_⟩
      change (st.transitionTargetSet s .none).life.promise s = []
      rw [hlife]
      exact Life.transitionTargetSet_none_promise (hkept hk hh)
    · rename_i hh
      exact ⟨rfl, rfl, hl, fun _ h => absurd h hh⟩
  -- the reports of `on_service_del` may start the root, but they leave the service itself alone
  have hdel : (st₁.onServiceDel onServiceStartable s).life.Sound kept small fl ∧
      Life.Unmoved st₁.life s (st₁.onServiceDel onServiceStartable s).life :=
    onServiceDel_keeps (Q := fun l => l.Sound kept small fl ∧ Life.Unmoved st₁.life s l)
    (fun st' t h => ⟨onServiceStartable_sound h.1, onServiceStartable_unmoved h.1
      (by
        have : st'.services = st₁.services := congrArg (fun t => t.services) h.2.1
        rw [this, htree₁]
        exact hmem)
      (by
        have : st'.layout = st₁.layout := congrArg (fun t => t.layout) h.2.1
        rw [this, htree₁]
        exact hr) h.2⟩)
    ⟨hl₁, rfl, rfl, rfl, rfl⟩
  rw [destroy_life, ← hst₁]
  generalize st₁.onServiceDel onServiceStartable s = st₂ at hdel
  obtain ⟨hl₂, htree₂, hphase₂, -, hpromise₂⟩ := hdel
  have htree : st₂.life.toServiceTree = st.toServiceTree := htree₂.trans htree₁
  have hphase : st₂.life.phase s = .stopped := (hphase₂.trans hphase₁).trans hp
  refine ⟨⟨hl₂.resolved.erase hl₂.good.tree,
    fun hk => (hl₂.conserved hk).erase hl₂.good.tree fun hcl => ?_⟩,
    hl₂.good.erase (by rw [htree]; exact hmem) (by rw [htree]; exact hr) hphase
      (by rw [htree]; exact hchild), ?_⟩
  · rw [htree] at hcl
    have hh : st.layout.isClusterHead s = true := (hl.good.tree.isClusterHead_iff hmem).2 hcl
    exact hpromise₂.trans (hpromise₁ hk hh)
  · have hne : st₂.life.layout.root ≠ s := by rw [htree]; exact hr.symm
    simpa [Phases.RootRests, Life.erase, Life.mapPhases, Phases.erase, hne] using hl₂.rests

/-! ### Requests -/

lemma setOverride_tree (st : State) (me : ServiceId) (mode : Override) :
    (st.setOverride me mode).toServiceTree = st.toServiceTree :=
  congrArg (fun l => l.toServiceTree) (setOverride_life st me mode)

lemma transitionTargetSet_tree (st : State) (me : ServiceId) (target : Target) :
    (st.transitionTargetSet me target).toServiceTree = st.toServiceTree := by
  have := congrArg (fun l => l.toServiceTree) (transitionTargetSet_life st me target)
  rwa [Life.transitionTargetSet_toPhases] at this

/-- One round of `stop_root`, with the tree it walks over. -/
lemma stopRootCluster_sound {replies : UsageId → ReleaseReply} {t : ServiceTree}
    (hl : st.life.Sound kept small fl ∧ st.life.toServiceTree = t) (hh : h ∈ t.services)
    (hhh : t.cluster h = h) :
    (st.stopRootCluster replies h).life.Sound kept small fl ∧
      (st.stopRootCluster replies h).life.toServiceTree = t := by
  have hk : ∀ (st : State) s, st.life.Sound kept small fl ∧ st.life.toServiceTree = t →
      (st.onServiceStartable s).life.Sound kept small fl ∧
        (st.onServiceStartable s).life.toServiceTree = t :=
    fun st s h => ⟨onServiceStartable_sound h.1, (onServiceStartable_tree st s).trans h.2⟩
  -- a promise to start is cancelled before the cluster is marked
  have h₁ : ∀ st : State, st.life.Sound kept small fl ∧ st.life.toServiceTree = t →
      (st.transitionTargetSet h .none).life.Sound kept small fl ∧
        (st.transitionTargetSet h .none).life.toServiceTree = t := by
    rintro st ⟨hl, ht⟩
    have hcl : st.cluster h = h := by
      have : st.cluster h = t.cluster h := congrArg (fun t => t.cluster h) ht
      exact this.trans hhh
    refine ⟨?_, (transitionTargetSet_tree st h .none).trans ht⟩
    rw [transitionTargetSet_life, hcl]
    refine hl.transitionTargetSet (Life.mem_heads.2 ⟨?_, ?_⟩) .none
    · rw [ht]; exact hh
    · rw [ht]; exact hhh
  have h₂ : (if (st.phase h).isLocked then st.releaseWeakUsages replies h else st).life.Sound
        kept small fl ∧
      (if (st.phase h).isLocked then st.releaseWeakUsages replies h
        else st).life.toServiceTree = t :=
    ite_keeps (Q := fun l => l.Sound kept small fl ∧ l.toServiceTree = t)
      (releaseWeakUsages_keeps (Q := fun l => l.Sound kept small fl ∧ l.toServiceTree = t) hk) hl
  simp only [stopRootCluster]
  generalize (if (st.phase h).isLocked then st.releaseWeakUsages replies h else st) = st₁ at h₂
  have h₃ := h₁ (st₁.setOverride h .none) (by rwa [setOverride_life])
  generalize ((st₁.setOverride h .none).transitionTargetSet h .none) = st₂ at h₃
  split
  · have h₄ : ((st₂.doMarkClusterForStart h false).doMarkClusterForStop onServiceStartable h
          true).life.Sound kept small fl ∧ ((st₂.doMarkClusterForStart h false).doMarkClusterForStop
          onServiceStartable h true).life.toServiceTree = t :=
      doMarkClusterForStop_keeps (Q := fun l => l.Sound kept small fl ∧ l.toServiceTree = t) hk h₃
    split
    · exact h₄
    · exact h₄
  · exact h₃

lemma onServiceStopRequest_sound {replies : UsageId → ReleaseReply}
    (hl : st.life.Sound kept small fl) :
    (st.onServiceStopRequest replies s).life.Sound kept small fl ∧
      (st.onServiceStopRequest replies s).life.toServiceTree = st.toServiceTree := by
  unfold onServiceStopRequest
  split
  · unfold stopRoot
    split
    · exact ⟨hl, rfl⟩
    · -- the walk was taken before the loop, and the tree does not change in it
      split
      · exact ⟨hl, rfl⟩
      · refine List.foldlRecOn (motive := fun st' : State =>
          st'.life.Sound kept small fl ∧ st'.life.toServiceTree = st.toServiceTree)
          st.clusters (stopRootCluster replies) (b := { st with down := [], up := [] }) ⟨hl, rfl⟩
          fun st' h' h hh => ?_
        obtain ⟨hmem, hhead⟩ := List.mem_filter.1 hh
        have hmem : h ∈ st.services := hl.good.tree.mem_transitiveServices.1 hmem
        exact stopRootCluster_sound h' hmem (hl.good.tree.cluster_of_isClusterHead hmem hhead)
  · exact stopSearch_dfs_keeps
      (Q := fun l => l.Sound kept small fl ∧ l.toServiceTree = st.toServiceTree)
      (fun st' s h => ⟨onServiceStartable_sound h.1, (onServiceStartable_tree st' s).trans h.2⟩)
      ⟨hl, rfl⟩

lemma reach_sound (hl : st.life.Sound kept small []) (hp : p ∉ st.reached) :
    ({ st with reached := st.reached ++ [p] } : State).life.Sound kept small [p] :=
  ⟨⟨⟨hl.resolved.start_target, hl.resolved.stop_target, hl.resolved.start_value,
    hl.resolved.stop_value⟩, fun hk => (hl.conserved hk).reach hp⟩, hl.good, hl.rests⟩

lemma completeNow_sound {outcome : Outcome} (hl : st.life.Sound kept small [p])
    (hstart : outcome = .value → p.kind = .start →
      (st.phase (st.cluster me)).isRunning = true)
    (hstop : outcome = .value → p.kind = .stop → st.running (st.cluster me) = 0) :
    (st.completeNow me p outcome).life.Sound kept small [] :=
  ⟨⟨hl.resolved.completeNow hstart hstop, fun hk => (hl.conserved hk).completeNow rfl⟩, hl.good,
    hl.rests⟩

lemma chainPromise_sound (hl : st.life.Sound kept small [p]) (hs : s ∈ st.services)
    (hstart : p.kind = .start → st.target (st.cluster s) = .start)
    (hstop : p.kind = .stop → st.target (st.cluster s) = .stop) :
    (st.chainPromise s p).life.Sound kept small [] :=
  ⟨⟨hl.resolved.chain hstart hstop, fun hk => (hl.conserved hk).chain hl.good.tree
    (Life.Sound.cluster_mem_heads hl.good hs)⟩, hl.good, hl.rests⟩

/-- The end of a request: the cluster gets its target and the promise. -/
lemma retarget_sound {target : Target} (hl : st.life.Sound kept small [p]) (hs : s ∈ st.services)
    (hcl : st.cluster s = s) (hstart : p.kind = .start → target = .start)
    (hstop : p.kind = .stop → target = .stop) :
    ((st.transitionTargetSet s target).chainPromise s p).life.Sound kept small [] := by
  have htree := transitionTargetSet_tree st s target
  have htarget : (st.transitionTargetSet s target).life.target s = target := by
    rw [transitionTargetSet_life, hcl, Life.transitionTargetSet_target]
  have hsound : (st.transitionTargetSet s target).life.Sound kept small [p] := by
    rw [transitionTargetSet_life, hcl]
    exact hl.transitionTargetSet (Life.mem_heads.2 ⟨hs, hcl⟩) target
  generalize st.transitionTargetSet s target = st' at htree htarget hsound
  have hcl' : st'.cluster s = s := by rw [htree]; exact hcl
  have htarget' : st'.target (st'.cluster s) = target := by rw [hcl']; exact htarget
  refine chainPromise_sound hsound (by rw [htree]; exact hs) (fun hk => ?_) (fun hk => ?_)
  · rw [htarget', hstart hk]
  · rw [htarget', hstop hk]

lemma requestStart_sound {reason : Reason} (hl : st.life.Sound kept small [])
    (hr : st.CanRequest s p .start) : (st.requestStart s reason p).life.Sound kept small [] := by
  obtain ⟨hhead, hnew, hkind⟩ := hr
  have h₁ := reach_sound hl hnew
  simp only [requestStart]
  by_cases hs : s ∈ st.services
  · rw [if_neg (not_not.2 hs)]
    have hcl : st.cluster s = s := hl.good.tree.cluster_of_isClusterHead hs hhead
    generalize hst₁ : ({ st with reached := st.reached ++ [p] } : State) = st₁ at h₁
    have h₂ : (if reason = .manual then st₁.setOverride s .start
        else st₁).life.Sound kept small [p] :=
      ite_keeps (fun h => by rwa [setOverride_life]) h₁
    have htree : (if reason = .manual then st₁.setOverride s .start else st₁).toServiceTree =
        st.toServiceTree := by
      rw [← hst₁]
      split
      · exact setOverride_tree _ _ _
      · rfl
    generalize (if reason = .manual then st₁.setOverride s .start else st₁) = st₂ at h₂ htree
    have hcl₂ : st₂.cluster s = s := by rw [htree]; exact hcl
    split
    · rename_i hrun
      exact completeNow_sound h₂ (fun _ _ => by rwa [hcl₂]) (by simp [hkind])
    · have hlife := onServiceStartRequest_life st₂ s
      generalize st₂.onServiceStartRequest s = st₃ at hlife
      have htree₃ : st₃.toServiceTree = st.toServiceTree :=
        (congrArg (fun l => l.toServiceTree) hlife).trans htree
      exact retarget_sound (hlife ▸ h₂) (by rw [htree₃]; exact hs) (by rw [htree₃]; exact hcl)
        (fun _ => rfl) (by simp [hkind])
  · rw [if_pos hs]
    exact completeNow_sound h₁ (by simp) (by simp)

lemma requestStop_sound {replies : UsageId → ReleaseReply} (hl : st.life.Sound kept small [])
    (hr : st.CanRequest s p .stop) : (st.requestStop replies s p).life.Sound kept small [] := by
  obtain ⟨hhead, hnew, hkind⟩ := hr
  have h₁ := reach_sound hl hnew
  simp only [requestStop]
  by_cases hs : s ∈ st.services
  · rw [if_neg (not_not.2 hs)]
    have hcl : st.cluster s = s := hl.good.tree.cluster_of_isClusterHead hs hhead
    generalize hst₁ : ({ st with reached := st.reached ++ [p] } : State) = st₁ at h₁
    have h₂ : (st₁.setOverride s .none).life.Sound kept small [p] := by rwa [setOverride_life]
    have htree : (st₁.setOverride s .none).toServiceTree = st.toServiceTree := by
      rw [← hst₁]
      exact setOverride_tree _ _ _
    generalize st₁.setOverride s .none = st₂ at h₂ htree
    have hcl₂ : st₂.cluster s = s := by rw [htree]; exact hcl
    split
    · rename_i hrun
      exact completeNow_sound h₂ (by simp [hkind])
        (fun _ _ => by simpa [Core.isClusterStopped] using hrun)
    · obtain ⟨h₃, htree₃⟩ : (st₂.onServiceStopRequest replies s).life.Sound kept small [p] ∧
          (st₂.onServiceStopRequest replies s).life.toServiceTree = st₂.toServiceTree :=
        onServiceStopRequest_sound h₂
      generalize st₂.onServiceStopRequest replies s = st₃ at h₃ htree₃
      have htree₃ : st₃.toServiceTree = st.toServiceTree := htree₃.trans htree
      exact retarget_sound h₃ (by rw [htree₃]; exact hs) (by rw [htree₃]; exact hcl)
        (by simp [hkind]) (fun _ => rfl)
  · rw [if_pos hs]
    exact completeNow_sound h₁ (by simp) (by simp)

lemma requestObserve_sound (hl : st.life.Sound kept small []) (hr : st.CanRequest s p .observe) :
    (st.requestObserve s p).life.Sound kept small [] := by
  obtain ⟨-, hnew, hkind⟩ := hr
  have h₁ := reach_sound hl hnew
  simp only [requestObserve]
  by_cases hs : s ∈ st.services
  · rw [if_neg (not_not.2 hs)]
    exact chainPromise_sound h₁ hs (by simp [hkind]) (by simp [hkind])
  · rw [if_pos hs]
    exact completeNow_sound h₁ (by simp) (by simp)

lemma immediateStop_sound {replies : UsageId → ReleaseReply} (hl : st.life.Sound kept small fl) :
    (st.immediateStop replies s).life.Sound kept small fl := by
  unfold immediateStop
  split
  · exact (onServiceStopRequest_sound (by rwa [setOverride_life])).1
  · exact hl

lemma runPosted_sound {work : Posted} (hl : st.life.Sound kept small fl) :
    (st.runPosted work).life.Sound kept small fl := by
  unfold runPosted
  simp only
  cases work with
  | restart head =>
    refine ite_keeps (fun h => ?_) hl
    exact checkAnyInClusterStartable_keeps (fun _ _ => onServiceStartable_sound) h
  | reachedNoExternalUse s current =>
    exact ite_keeps (fun h => by rwa [onOutgoingReachedNoExternalUse_life]) hl

end State

/-! ### Every run -/

/-- No cluster is destroyed while promises are chained to it that nothing cancels. -/
def KeepsPromises (st : State) : Op → Prop
  | .destroy s => st.layout.isClusterHead s = true → st.target s = .none → st.promise s = []
  | _ => True

instance (st : State) : (op : Op) → Decidable (KeepsPromises st op)
  | .destroy s => inferInstanceAs (Decidable (st.layout.isClusterHead s = true → _ → _))
  | .init _ | .connect _ | .disconnect _ | .setSatisfied _ _ | .requestStart _ _ _
  | .requestStop _ _ _ | .requestObserve _ _ | .immediateStop _ _ | .process _ | .started _
  | .stopped _ | .posted _ | .run | .tryUse _ | .incUse _ | .decUse _ _ => .isTrue trivial

/-- No cluster gets more members than `running_` can count. -/
def Op.KeepsSmall (st : State) : Op → Prop
  | init s => st.layout.isMember s = true →
      st.members (st.cluster (st.layout.parent s).owner) + 1 < 2 ^ 26
  | _ => True

instance (st : State) : (op : Op) → Decidable (op.KeepsSmall st)
  | .init s => inferInstanceAs (Decidable (st.layout.isMember s = true → _))
  | .destroy _ | .connect _ | .disconnect _ | .setSatisfied _ _ | .requestStart _ _ _
  | .requestStop _ _ _ | .requestObserve _ _ | .immediateStop _ _ | .process _ | .started _
  | .stopped _ | .posted _ | .run | .tryUse _ | .incUse _ | .decUse _ _ => .isTrue trivial

lemma initial_sound (L : Layout) (kept small : Prop) :
    (State.initial L).life.Sound kept small [] where
  resolved := ⟨by simp [State.initial, State.life], by simp [State.initial, State.life],
    by simp [State.initial, State.life], by simp [State.initial, State.life]⟩
  conserved := by
    simp [State.initial, State.life, Life.Conserved, Life.chained]
  rests := .inl (by simp [State.initial, State.life])
  good := by
    refine ⟨⟨ServiceTree.IsTree.initial L, fun s => ?_, by simp [State.initial, State.life],
      by simp [State.initial, State.life], by simp [State.initial, State.life], ?_⟩, ?_, ?_, ?_,
      fun _ _ => rfl⟩
    · by_cases hs : s = L.root <;> simp [State.initial, State.life, hs, Phase.next?]
    · simp [State.initial, State.life, replay]
    · intro _ h _ _
      exact (List.countP_le_length).trans_lt (by simp [State.initial, State.life])
    · intro h hh _
      refine .inl ⟨rfl, ?_⟩
      simp [State.initial, State.life]
    · simp [State.initial, State.life, returns]

/-- Every handler keeps the phases coherent and, if it keeps promises, the promises too. -/
theorem exec_sound {st : State} {op : Op} {kept small : Prop} (hl : st.life.Sound kept small [])
    (hp : op.Pre st) (hk : kept → KeepsPromises st op) (hfew : small → op.KeepsSmall st) :
    (op.exec st).life.Sound kept small [] := by
  have hstart : ∀ (st : State) (s : ServiceId), st.life.Sound kept small [] →
      (st.onServiceStartable s).life.Sound kept small [] := fun _ _ => onServiceStartable_sound
  cases op with
  | init s => exact init_sound hl hp hfew
  | destroy s => exact destroy_sound hl hp hk
  | connect use => simpa [Op.exec] using hl
  | disconnect use => exact disconnect_keeps hstart hl
  | setSatisfied imp satisfied => exact setSatisfied_keeps hstart hl
  | requestStart s reason promise => exact requestStart_sound hl hp
  | requestStop replies s promise => exact requestStop_sound hl hp
  | requestObserve s promise => exact requestObserve_sound hl hp
  | immediateStop replies s => exact immediateStop_sound hl
  | process ready => exact process_sound hl hp
  | started s => exact started_sound hl hp.1 hp.2
  | stopped s => exact stopped_sound hl hp.1 hp.2
  | posted work => exact runPosted_sound hl
  | run => exact run_sound hl
  | tryUse s => simpa [Op.exec] using hl
  | incUse s => exact hl
  | decUse s onEventLoop => simpa [Op.exec] using hl

theorem Reachable.sound {L : Layout} {st : State} (h : Reachable L st) :
    st.life.Sound False False [] := by
  refine Machine.Reachable.invariant (P := fun st => st.life.Sound False False []) h ?_ ?_
  · rintro st rfl
    exact initial_sound L False False
  · exact fun st op _ hl hp _ => exec_sound hl hp False.elim False.elim

/-- The states of runs in which `running_` can count the members of every cluster. -/
def Reached (L : Layout) (st : State) : Prop :=
  (system L).Reachable (fun st op => op.KeepsSmall st) st

theorem Reached.sound {L : Layout} {st : State} (h : Reached L st) :
    st.life.Sound False True [] := by
  refine Machine.Reachable.invariant (P := fun st => st.life.Sound False True []) h ?_ ?_
  · rintro st rfl
    exact initial_sound L False True
  · exact fun st op _ hl hp hk => exec_sound hl hp False.elim fun _ => hk

/-- A service is started while the root is running. -/
def startingRun : List Op :=
  [.init 1, .run, .requestStart 1 .manual ⟨0, .start⟩, .process false]

end Idle
