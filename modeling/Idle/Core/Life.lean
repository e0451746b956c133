import Idle.Core.Step
import Idle.Core.Tree

/-!
# The life of services

Most functions of `ServiceImpl` move counters, marks and the queue, which neither the phases nor
the promises depend on. `Life` is what remains when these are forgotten. The functions that report
services as startable may start the root; they keep every property of the life that this start
keeps.
-/

namespace Idle

/-- The phases of the services and what is counted about them. -/
structure Phases extends ServiceTree where
  phase : ServiceId → Phase
  running : ServiceId → BitVec 26
  epoch : ServiceId → Nat
  changes : List PhaseChange

/-- Phases and promises. -/
structure Life extends Phases where
  target : ServiceId → Target
  promise : ServiceId → List Promise
  reached : List Promise
  completed : List Completion

namespace State

def life (st : State) : Life where
  toServiceTree := st.toServiceTree
  phase := st.phase
  running := st.running
  epoch := st.epoch
  changes := st.changes
  target := st.target
  promise := st.promise
  reached := st.reached
  completed := st.completed

variable {st : State} {s me : ServiceId}

/-! ### Functions that leave the life alone -/

lemma foldl_life {α : Type} {f : State → α → State} (hf : ∀ st x, (f st x).life = st.life)
    (l : List α) (st : State) : (l.foldl f st).life = st.life := by
  induction l generalizing st with
  | nil => rfl
  | cons x l ih => rw [List.foldl_cons, ih, hf]

@[simp] lemma pushUp_life (st : State) (s : ServiceId) : (st.pushUp s).life = st.life := rfl

@[simp] lemma pushDown_life (st : State) (s : ServiceId) : (st.pushDown s).life = st.life := rfl

@[simp] lemma eraseFromQueue_life (st : State) (s : ServiceId) :
    (st.eraseFromQueue s).life = st.life := rfl

lemma pop_life {st st' : State} (h : st.pop = some (s, st')) : st'.life = st.life := by
  unfold pop at h
  split at h
  · cases h; rfl
  · split at h
    · cases h; rfl
    · cases h

@[simp] lemma checkStoppable_life (st : State) (me : ServiceId) :
    (st.checkStoppable me).life = st.life := by
  unfold checkStoppable
  split <;> simp

@[simp] lemma onOutgoingReachedNoExternalUse_life (st : State) (me : ServiceId) (n : UInt32) :
    (st.onOutgoingReachedNoExternalUse me n).life = st.life := by
  unfold onOutgoingReachedNoExternalUse
  split <;> simp

@[simp] lemma onOutgoingIncrement_life (st : State) (me : ServiceId) :
    (st.onOutgoingIncrement me).life = st.life := rfl

@[simp] lemma onOutgoingDecrement_life (st : State) (me : ServiceId) :
    (st.onOutgoingDecrement me).life = st.life := by
  unfold onOutgoingDecrement
  simp only
  split
  · rw [onOutgoingReachedNoExternalUse_life]; rfl
  · rfl

@[simp] lemma callOnOuterOutgoingIncrement_life (st : State) (me : ServiceId) :
    (st.callOnOuterOutgoingIncrement me).life = st.life := by
  unfold callOnOuterOutgoingIncrement
  simp only
  split
  · rw [onOutgoingIncrement_life]
    exact foldl_life (fun st e => by split <;> simp) _ _
  · exact foldl_life (fun st e => by split <;> simp) _ _

@[simp] lemma callOnOuterDelayedOutgoingIncrement_life (st : State) (me : ServiceId) :
    (st.callOnOuterDelayedOutgoingIncrement me).life = st.life :=
  foldl_life (fun st e => by split <;> simp) _ _

@[simp] lemma callOnOuterOutgoingDecrement_life (st : State) (me : ServiceId) :
    (st.callOnOuterOutgoingDecrement me).life = st.life := by
  unfold callOnOuterOutgoingDecrement
  simp only
  split
  · rw [onOutgoingDecrement_life]
    exact foldl_life (fun st e => by split <;> simp) _ _
  · exact foldl_life (fun st e => by split <;> simp) _ _

@[simp] lemma callOnInnerOutgoingIncrement_life (st : State) (me : ServiceId) :
    (st.callOnInnerOutgoingIncrement me).life = st.life :=
  foldl_life (fun st e => by simp) _ _

@[simp] lemma callOnInnerOutgoingDecrement_life (st : State) (me : ServiceId) :
    (st.callOnInnerOutgoingDecrement me).life = st.life :=
  foldl_life (fun st e => by simp) _ _

@[simp] lemma tryUse_life (st : State) (me : ServiceId) : (st.tryUse me).1.life = st.life := by
  unfold tryUse
  split <;> rfl

@[simp] lemma incUse_life (st : State) (me : ServiceId) : (st.incUse me).life = st.life := rfl

@[simp] lemma decUse_life (st : State) (me : ServiceId) (b : Bool) :
    (st.decUse me b).life = st.life := by
  unfold decUse
  simp only
  split
  · split
    · rw [onOutgoingReachedNoExternalUse_life]; rfl
    · rfl
  · rfl

/-! The push functions change the counters and the queue only. -/

/-- The states differ in `pushes_` and in the queue of services to be stopped. -/
def PushFrame (st st' : State) : Prop :=
  ∃ pushes down, st' = { st with pushes := pushes, down := down }

lemma PushFrame.trans {st₁ st₂ st₃ : State} (h₁ : PushFrame st₁ st₂) (h₂ : PushFrame st₂ st₃) :
    PushFrame st₁ st₃ := by
  obtain ⟨p₁, d₁, rfl⟩ := h₁
  obtain ⟨p₂, d₂, rfl⟩ := h₂
  exact ⟨p₂, d₂, rfl⟩

lemma checkStoppable_frame (st : State) (me : ServiceId) : PushFrame st (st.checkStoppable me) := by
  unfold checkStoppable
  split
  · exact ⟨_, _, rfl⟩
  · exact ⟨_, _, rfl⟩

lemma pushesDecrementVisit_frame (st : State) (v : ServiceId) :
    PushFrame st (st.pushesDecrementVisit v).2 := by
  unfold pushesDecrementVisit
  simp only
  split
  · exact PushFrame.trans ⟨_, _, rfl⟩ (checkStoppable_frame _ v)
  · exact ⟨_, _, rfl⟩

lemma callOnClusterPushesIncrement_frame (st : State) (me : ServiceId)
    (ancestor : Option ServiceId) : PushFrame st (st.callOnClusterPushesIncrement me ancestor) := by
  unfold callOnClusterPushesIncrement
  simp only
  split
  · refine Search.dfs_keeps (g := pushSearch pushesIncrementVisit) (P := PushFrame st) ?_
      (fun _ _ h => h) ⟨_, _, rfl⟩
    exact fun x v h => h.trans ⟨_, _, rfl⟩
  · exact ⟨_, _, rfl⟩

lemma callOnClusterPushesDecrement_frame (st : State) (me : ServiceId)
    (ancestor : Option ServiceId) : PushFrame st (st.callOnClusterPushesDecrement me ancestor) := by
  unfold callOnClusterPushesDecrement
  simp only
  split
  · refine Search.dfs_keeps (g := pushSearch pushesDecrementVisit) (P := PushFrame st) ?_
      (fun _ _ h => h) ⟨_, _, rfl⟩
    exact fun x v h => h.trans (pushesDecrementVisit_frame x v)
  · exact ⟨_, _, rfl⟩

lemma setOverride_frame (st : State) (me : ServiceId) (mode : Override) :
    ∃ override pushes down, st.setOverride me mode =
      { st with override := override, pushes := pushes, down := down } := by
  unfold setOverride
  simp only
  split
  · split
    · obtain ⟨p, d, h⟩ := callOnClusterPushesIncrement_frame
        { st with override := Function.update st.override (st.cluster me) mode } me none
      exact ⟨_, p, d, h⟩
    · obtain ⟨p, d, h⟩ := callOnClusterPushesDecrement_frame
        { st with override := Function.update st.override (st.cluster me) mode } me none
      exact ⟨_, p, d, h⟩
  · exact ⟨_, _, _, rfl⟩

@[simp] lemma callOnClusterPushesIncrement_life (st : State) (me : ServiceId)
    (ancestor : Option ServiceId) :
    (st.callOnClusterPushesIncrement me ancestor).life = st.life := by
  obtain ⟨p, d, h⟩ := callOnClusterPushesIncrement_frame st me ancestor
  rw [h]
  rfl

@[simp] lemma callOnClusterPushesDecrement_life (st : State) (me : ServiceId)
    (ancestor : Option ServiceId) :
    (st.callOnClusterPushesDecrement me ancestor).life = st.life := by
  obtain ⟨p, d, h⟩ := callOnClusterPushesDecrement_frame st me ancestor
  rw [h]
  rfl

@[simp] lemma setOverride_life (st : State) (me : ServiceId) (mode : Override) :
    (st.setOverride me mode).life = st.life := by
  obtain ⟨o, p, d, h⟩ := setOverride_frame st me mode
  rw [h]
  rfl

@[simp] lemma doMarkClusterForStart_life (st : State) (me : ServiceId) (set : Bool) :
    (st.doMarkClusterForStart me set).life = st.life := rfl

@[simp] lemma onOuterRequiredIncrement_life (st : State) (me : ServiceId) :
    (st.onOuterRequiredIncrement me).life = st.life := rfl

@[simp] lemma onInnerRequiredIncrement_life (st : State) (me : ServiceId) :
    (st.onInnerRequiredIncrement me).life = st.life := rfl

@[simp] lemma callOnRequiredIncrement_life (st : State) (me : ServiceId) :
    (st.callOnRequiredIncrement me).life = st.life := by
  unfold callOnRequiredIncrement
  split
  · simp only
    rw [foldl_life (fun st e => by simp), foldl_life (fun st e => by simp)]
  · exact foldl_life (fun st e => by simp) _ _

@[simp] lemma onClusterPullsIncrement_life (st : State) (me : ServiceId) :
    (st.onClusterPullsIncrement me).life = st.life := rfl

@[simp] lemma callOnClusterPullsIncrement_life (st : State) (me : ServiceId) :
    (st.callOnClusterPullsIncrement me).life = st.life :=
  foldl_life (fun st e => by simp) _ _

@[simp] lemma doStopEager_life (st : State) (me : ServiceId) :
    (st.doStopEager me).life = st.life := callOnRequiredIncrement_life st me

@[simp] lemma insertIntoQueueIfStartable_life (st : State) (s : ServiceId) :
    (st.insertIntoQueueIfStartable s).life = st.life := by
  unfold insertIntoQueueIfStartable
  split
  · exact foldl_life (fun st e => by split <;> simp) _ _
  · rfl

@[simp] lemma onServiceStartRequest_life (st : State) (s : ServiceId) :
    (st.onServiceStartRequest s).life = st.life := by
  refine Search.dfs_keeps (P := fun x : State => x.life = st.life) ?_ ?_ rfl
  · intro x v h
    simpa [startSearch] using h
  · intro x e h
    simp only [startSearch]
    split <;> simpa using h

@[simp] lemma insertIntoQueueIfStoppable_life (st : State) (s : ServiceId) :
    (st.insertIntoQueueIfStoppable s).life = st.life := by
  unfold insertIntoQueueIfStoppable
  split <;> simp

@[simp] lemma onUsageConnected_life (st : State) (use : Usage) :
    (st.onUsageConnected use).life = st.life := by
  unfold onUsageConnected
  simp only
  split <;> split <;> split <;> split <;> simp

@[simp] lemma connect_life (st : State) (use : Usage) : (st.connect use).life = st.life := by
  unfold connect
  rw [onUsageConnected_life]
  rfl

@[simp] lemma onServiceAdd_life (st : State) (me : ServiceId) :
    (st.onServiceAdd me).life = st.life := by
  have h : (List.foldl
      (fun st e =>
        if !(st.phase (e.source st.layout)).isRunning &&
            (st.phase (e.source st.layout)).isInitializedUnsafe then
          st.onOuterRequiredIncrement me
        else st) (st.callOnRequiredIncrement me)
        ((st.callOnRequiredIncrement me).inEdges .strongUsageGraph me)).life = st.life := by
    rw [foldl_life (fun st e => by split <;> simp), callOnRequiredIncrement_life]
  unfold onServiceAdd
  simp only
  split
  · split
    · rw [onOuterRequiredIncrement_life, h]
    · exact h
  · exact h

/-! ### Functions that report startable services -/

section Startable

variable {Q : Life → Prop} {k : State → ServiceId → State}

lemma foldl_keeps {α : Type} {f : State → α → State}
    (hf : ∀ st x, Q st.life → Q (f st x).life) (l : List α) (h : Q st.life) :
    Q (l.foldl f st).life :=
  List.foldlRecOn (motive := fun st => Q st.life) l f h fun st h x _ => hf st x h

lemma ite_keeps {c : Prop} [Decidable c] {st' : State} (hf : Q st.life → Q st'.life)
    (h : Q st.life) : Q (if c then st' else st).life := by
  split
  · exact hf h
  · exact h

variable (hk : ∀ st s, Q st.life → Q (k st s).life)
include hk

lemma checkAnyInClusterStartable_keeps (h : Q st.life) :
    Q (st.checkAnyInClusterStartable k me).life := by
  unfold checkAnyInClusterStartable
  split
  · refine foldl_keeps ?_ _ h
    intro st s h
    split
    · exact hk _ _ h
    · exact h
  · exact h

lemma checkInnerStartable_keeps (h : Q st.life) : Q (st.checkInnerStartable k me).life := by
  unfold checkInnerStartable
  split
  · exact hk _ _ h
  · exact h

lemma onOuterRequiredDecrement_keeps (h : Q st.life) :
    Q (st.onOuterRequiredDecrement k me).life := by
  unfold onOuterRequiredDecrement
  simp only
  split
  · exact checkAnyInClusterStartable_keeps hk h
  · exact h

lemma onInnerRequiredDecrement_keeps (h : Q st.life) :
    Q (st.onInnerRequiredDecrement k me).life := by
  unfold onInnerRequiredDecrement
  simp only
  split
  · exact checkInnerStartable_keeps hk h
  · exact h

lemma callOnRequiredDecrement_keeps (h : Q st.life) :
    Q (st.callOnRequiredDecrement k me).life := by
  unfold callOnRequiredDecrement
  split
  · refine foldl_keeps (fun st e h => onOuterRequiredDecrement_keeps hk h) _ ?_
    exact foldl_keeps (fun st e h => onInnerRequiredDecrement_keeps hk h) _ h
  · exact foldl_keeps (fun st e h => onOuterRequiredDecrement_keeps hk h) _ h

lemma onClusterPullsDecrement_keeps (h : Q st.life) :
    Q (st.onClusterPullsDecrement k me).life := by
  unfold onClusterPullsDecrement
  simp only
  split
  · exact checkAnyInClusterStartable_keeps hk h
  · exact h

lemma doMarkClusterForStop_keeps {set : Bool} (h : Q st.life) :
    Q (st.doMarkClusterForStop k me set).life := by
  unfold doMarkClusterForStop
  split
  · split
    · rw [callOnClusterPullsIncrement_life]
      exact h
    · exact foldl_keeps (fun st e h => onClusterPullsDecrement_keeps hk h) _ h
  · exact h

lemma onUsageDisconnect_keeps {use : Usage} (h : Q st.life) :
    Q (st.onUsageDisconnect k use).life := by
  refine ite_keeps (fun h => by rwa [onOutgoingDecrement_life]) ?_
  refine ite_keeps (fun h => onOuterRequiredDecrement_keeps hk h) ?_
  refine ite_keeps (fun h => by rwa [callOnClusterPushesDecrement_life]) ?_
  exact ite_keeps (fun h => onClusterPullsDecrement_keeps hk h) h

lemma disconnect_keeps {use : Usage} (h : Q st.life) : Q (st.disconnect k use).life := by
  have h' : Q (st.onUsageDisconnect k use).life := onUsageDisconnect_keeps hk h
  unfold disconnect
  generalize st.onUsageDisconnect k use = st' at h'
  exact h'

lemma setSatisfied_keeps {imp : Part} {satisfied : Bool} (h : Q st.life) :
    Q (st.setSatisfied k imp satisfied).life := by
  refine ite_keeps (fun h => ?_) h
  split
  · exact onOuterRequiredDecrement_keeps hk h
  · exact h

lemma onServiceDel_keeps (h : Q st.life) : Q (st.onServiceDel k me).life := by
  refine callOnRequiredDecrement_keeps hk ?_
  split
  · refine doMarkClusterForStop_keeps hk ?_
    rwa [setOverride_life]
  · refine ite_keeps (foldl_keeps (fun st e h => onClusterPullsDecrement_keeps hk h) _) ?_
    refine ite_keeps (foldl_keeps (fun st e h => ?_) _) h
    rwa [callOnClusterPushesDecrement_life]

end Startable

/-! ### Functions of the scheduler -/

section Scheduler

variable {Q : Life → Prop} (hk : ∀ st s, Q st.life → Q (onServiceStartable st s).life)
include hk

lemma requestRelease_keeps {replies : UsageId → ReleaseReply} {use : Usage} (h : Q st.life) :
    Q (st.requestRelease replies use).2.life := by
  unfold requestRelease
  split
  · exact h
  · split
    · exact h
    · exact disconnect_keeps hk h
    · exact h

lemma stopSearch_dfs_keeps {replies : UsageId → ReleaseReply} {fuel : Nat} {d : DFSData ServiceId}
    (h : Q st.life) : Q ((stopSearch replies).dfs fuel s d st).2.life := by
  refine Search.dfs_keeps (P := fun st : State => Q st.life) (fun st v h => ?_) (fun st e h => ?_) h
  · simp only [stopSearch, insertIntoQueueIfStoppable_life]
    exact doMarkClusterForStop_keeps hk h
  · simp only [stopSearch, stopFilter]
    split
    · rename_i use
      have hr : Q (st.requestRelease replies use).2.life := requestRelease_keeps hk h
      split
      · split
        all_goals
          rename_i heq
          rw [heq] at hr
          exact hr
      · exact h
    · exact h

lemma releaseWeakUsages_keeps {replies : UsageId → ReleaseReply} (h : Q st.life) :
    Q (st.releaseWeakUsages replies s).life :=
  foldl_keeps (fun _ _ h => ite_keeps (fun h => requestRelease_keeps hk h) h) _ h

end Scheduler

end State

end Idle
