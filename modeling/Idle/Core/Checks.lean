import Idle.Core.Reports

/-!
# What enters the queue to be stopped

Uses and pushes are counted all over the core. Where a counter falls, the services that can be
stopped then enter `down_`; where it rises, nothing is checked.
-/

namespace Idle

namespace State

variable {st st' st'' : State} {s h me : ServiceId}

/-- A service with a single use left that shall be stopped. -/
def Ends (st : State) (s : ServiceId) : Prop :=
  st.phase s = .running ∧ st.uses s = 1 ∧ st.shallClusterStop s = true

/-- Uses and pushes change, and running services enter `down_`. -/
structure Checks (st st' : State) : Prop where
  frame : ∃ uses ranOut pushes down, st' = { st with
    toCore := { st.toCore with uses := uses, usesRanOut := ranOut }
    pushes := pushes
    down := down }
  down_mono : ∀ s ∈ st.down, s ∈ st'.down
  down_new : ∀ s ∈ st'.down, s ∈ st.down ∨ st.phase s = .running
  down_nodup : st.down.Nodup → st'.down.Nodup

/-- Uses fall; what can be stopped by that enters `down_`. -/
structure Drops (st st' : State) : Prop extends Checks st st' where
  pushes : st'.pushes = st.pushes
  ends : ∀ s, st'.Ends s → st.Ends s ∨ s ∈ st'.down

/-! ### Checks -/

lemma Checks.refl (st : State) : Checks st st :=
  ⟨⟨_, _, _, _, rfl⟩, fun _ h => h, fun _ h => .inl h, fun h => h⟩

lemma Checks.trans (h₁ : Checks st st') (h₂ : Checks st' st'') : Checks st st'' := by
  obtain ⟨u, r, p, d, rfl⟩ := h₁.frame
  obtain ⟨u', r', p', d', rfl⟩ := h₂.frame
  refine ⟨⟨_, _, _, _, rfl⟩, fun s hs => h₂.down_mono s (h₁.down_mono s hs), fun s hs => ?_,
    fun hq => h₂.down_nodup (h₁.down_nodup hq)⟩
  exact (h₂.down_new s hs).elim (h₁.down_new s) .inr

lemma Checks.topology (h : Checks st st') : st'.toTopology = st.toTopology := by
  obtain ⟨u, r, p, d, rfl⟩ := h.frame
  rfl

lemma Checks.phase (h : Checks st st') : st'.phase = st.phase := by
  obtain ⟨u, r, p, d, rfl⟩ := h.frame
  rfl

lemma Checks.up (h : Checks st st') : st'.up = st.up := by
  obtain ⟨u, r, p, d, rfl⟩ := h.frame
  rfl

lemma Drops.refl (st : State) : Drops st st := ⟨.refl st, rfl, fun _ => .inl⟩

lemma Drops.trans (h₁ : Drops st st') (h₂ : Drops st' st'') : Drops st st'' where
  toChecks := h₁.toChecks.trans h₂.toChecks
  pushes := h₂.pushes.trans h₁.pushes
  ends s hs := by
    rcases h₂.ends s hs with hs | hs
    · exact (h₁.ends s hs).imp_right (h₂.down_mono s)
    · exact .inr hs

lemma Drops.foldl {α : Type} {f : State → α → State} (hf : ∀ x a, Drops x (f x a)) (l : List α)
    (st : State) : Drops st (l.foldl f st) :=
  List.foldlRecOn (motive := fun x : State => Drops st x) l f (.refl st)
    fun x h a _ => h.trans (hf x a)

/-- Nothing but the counters and `down_` is looked at. -/
lemma Drops.shallClusterStop (h : Drops st st') : st'.shallClusterStop = st.shallClusterStop := by
  have hp := h.pushes
  obtain ⟨u, r, p, d, rfl⟩ := h.frame
  funext s
  have hp : p = st.pushes := hp
  subst hp
  rfl

/-! ### Uses that fall -/

lemma isStoppable_of_uses (hp : st.phase s = .running) (hu : st.uses s = 1) :
    st.isStoppable s = true := by
  simp [Core.isStoppable, Core.hasNoExternalUses, hp, hu]

lemma checkStoppable_drops (st : State) (me : ServiceId) :
    Drops st (st.checkStoppable me) ∧ (st.Ends me → me ∈ (st.checkStoppable me).down) := by
  unfold checkStoppable
  by_cases hc : (st.isStoppable me && st.shallClusterStop me) = true
  · rw [if_pos hc]
    have hrun : st.phase me = .running := by
      simp only [Core.isStoppable, Bool.and_eq_true, Phase.isRunning_iff] at hc
      exact hc.1.1
    refine ⟨⟨⟨⟨_, _, _, _, rfl⟩, fun s hs => mem_insertSorted.2 (.inr hs), fun s hs => ?_,
      fun hq => nodup_insertSorted hq me⟩, rfl, fun s hs => .inl hs⟩,
      fun _ => mem_insertSorted.2 (.inl rfl)⟩
    rcases mem_insertSorted.1 hs with rfl | hs
    · exact .inr hrun
    · exact .inl hs
  · rw [if_neg hc]
    refine ⟨.refl st, fun hends => absurd ?_ hc⟩
    rw [isStoppable_of_uses hends.1 hends.2.1, hends.2.2]
    rfl

lemma onOutgoingReachedNoExternalUse_drops (st : State) (me : ServiceId) (n : UInt32) :
    Drops st (st.onOutgoingReachedNoExternalUse me n) ∧
      (n = 1 → st.Ends me → me ∈ (st.onOutgoingReachedNoExternalUse me n).down) := by
  unfold onOutgoingReachedNoExternalUse
  split
  · exact ⟨(checkStoppable_drops st me).1, fun _ => (checkStoppable_drops st me).2⟩
  · rename_i hn
    exact ⟨(checkStoppable_drops st _).1, fun h => absurd (beq_iff_eq.2 h) hn⟩

/-- A single decrement reaches the check with the use that remains. -/
lemma onOutgoingDecrement_drops (st : State) (me : ServiceId) :
    Drops st (st.onOutgoingDecrement me) := by
  have hother : ∀ s, s ≠ me → ({ st with toCore := st.toCore.decUses me } : State).Ends s →
      st.Ends s := by
    intro s hs hends
    have huses : ({ st with toCore := st.toCore.decUses me } : State).uses s = st.uses s :=
      Function.update_of_ne hs _ _
    exact ⟨hends.1, huses ▸ hends.2.1, hends.2.2⟩
  have heq : st.onOutgoingDecrement me =
      if ({ st with toCore := st.toCore.decUses me } : State).hasNoExternalUses me
          (st.uses me - 1) then
        ({ st with toCore := st.toCore.decUses me } : State).onOutgoingReachedNoExternalUse me
          (st.uses me - 1)
      else { st with toCore := st.toCore.decUses me } := rfl
  have huses : ({ st with toCore := st.toCore.decUses me } : State).uses me = st.uses me - 1 :=
    Function.update_self ..
  have hframe : Checks st ({ st with toCore := st.toCore.decUses me } : State) :=
    ⟨⟨_, _, _, _, rfl⟩, fun _ h => h, fun _ h => .inl h, fun h => h⟩
  have hpushes : ({ st with toCore := st.toCore.decUses me } : State).pushes = st.pushes := rfl
  generalize ({ st with toCore := st.toCore.decUses me } : State) = st₁ at *
  rw [heq]
  split
  · obtain ⟨hdrops, hmem⟩ := onOutgoingReachedNoExternalUse_drops st₁ me (st.uses me - 1)
    refine ⟨hframe.trans hdrops.toChecks, hdrops.pushes.trans hpushes, fun s hs => ?_⟩
    rcases hdrops.ends s hs with hends | hdown
    · by_cases hme : s = me
      · rw [hme] at hends ⊢
        exact .inr (hmem (huses ▸ hends.2.1) hends)
      · exact .inl (hother s hme hends)
    · exact .inr hdown
  · rename_i hnot
    refine ⟨hframe, hpushes, fun s hs => .inl ?_⟩
    by_cases hme : s = me
    · subst hme
      refine absurd ?_ hnot
      simp [Core.hasNoExternalUses, ← huses, hs.2.1]
    · exact hother s hme hs

lemma callOnOuterOutgoingDecrement_drops (st : State) (me : ServiceId) :
    Drops st (st.callOnOuterOutgoingDecrement me) := by
  have hfold := Drops.foldl (f := fun st e =>
    if (st.phase (Edge.source st.layout e)).isRunning then
      st.onOutgoingDecrement (Edge.source st.layout e)
    else st) (fun x e => by
      split
      · exact onOutgoingDecrement_drops x _
      · exact .refl x) (st.inEdges .externalGraph me) st
  unfold callOnOuterOutgoingDecrement
  simp only
  split
  · exact hfold.trans (onOutgoingDecrement_drops _ _)
  · exact hfold

lemma callOnInnerOutgoingDecrement_drops (st : State) (me : ServiceId) :
    Drops st (st.callOnInnerOutgoingDecrement me) :=
  Drops.foldl (fun x _ => onOutgoingDecrement_drops x _) _ st

/-! ### Pushes -/

lemma pushes_checks (st : State) (pushes : ServiceId → UInt16) :
    Checks st { st with pushes := pushes } :=
  ⟨⟨_, _, _, _, rfl⟩, fun _ h => h, fun _ h => .inl h, fun h => h⟩

lemma callOnClusterPushesIncrement_checks (st : State) (me : ServiceId)
    (ancestor : Option ServiceId) : Checks st (st.callOnClusterPushesIncrement me ancestor) := by
  unfold callOnClusterPushesIncrement
  simp only
  split
  · refine Search.dfs_keeps (g := pushSearch pushesIncrementVisit) (P := Checks st) ?_
      (fun _ _ h => h) (.refl st)
    exact fun x v h => h.trans (pushes_checks x _)
  · exact pushes_checks st _

lemma callOnClusterPushesDecrement_checks (st : State) (me : ServiceId)
    (ancestor : Option ServiceId) : Checks st (st.callOnClusterPushesDecrement me ancestor) := by
  unfold callOnClusterPushesDecrement
  simp only
  split
  · refine Search.dfs_keeps (g := pushSearch pushesDecrementVisit) (P := Checks st) ?_
      (fun _ _ h => h) (.refl st)
    intro x v h
    refine h.trans ?_
    simp only [pushSearch, pushesDecrementVisit]
    split
    · exact (pushes_checks x _).trans (checkStoppable_drops _ v).1.toChecks
    · exact pushes_checks x _
  · exact pushes_checks st _

lemma setOverride_checks (st : State) (me : ServiceId) (mode : Override) :
    ∃ override, Checks { st with override := override } (st.setOverride me mode) := by
  unfold setOverride
  simp only
  split
  · split
    · exact ⟨_, callOnClusterPushesIncrement_checks _ me none⟩
    · exact ⟨_, callOnClusterPushesDecrement_checks _ me none⟩
  · exact ⟨st.override, .refl st⟩

/-! ### Counters that rise -/

/-- Phases, uses and `running_` change, as they do when services are locked and started. -/
def StartFrame (st st' : State) : Prop :=
  ∃ phase uses held changes running, st' = { st with
    toCore := { st.toCore with
      phase := phase, uses := uses, held := held, changes := changes, running := running } }

/-- Only the counters of what is missing change. -/
def MissFrame (st st' : State) : Prop :=
  ∃ inner outer, st' = { st with
    toCore := { st.toCore with innerDepsMissing := inner, outerDepsMissing := outer } }

/-- Only the pulls change. -/
def PullFrame (st st' : State) : Prop :=
  ∃ pulls, st' = { st with pulls := pulls }

lemma StartFrame.refl (st : State) : StartFrame st st := ⟨_, _, _, _, _, rfl⟩

lemma StartFrame.trans (h₁ : StartFrame st st') (h₂ : StartFrame st' st'') :
    StartFrame st st'' := by
  obtain ⟨p, u, h, c, r, rfl⟩ := h₁
  obtain ⟨p', u', h', c', r', rfl⟩ := h₂
  exact ⟨_, _, _, _, _, rfl⟩

lemma StartFrame.foldl {α : Type} {f : State → α → State} (hf : ∀ x a, StartFrame x (f x a))
    (l : List α) (st : State) : StartFrame st (l.foldl f st) :=
  List.foldlRecOn (motive := fun x : State => StartFrame st x) l f (.refl st)
    fun x h a _ => h.trans (hf x a)

lemma MissFrame.trans (h₁ : MissFrame st st') (h₂ : MissFrame st' st'') : MissFrame st st'' := by
  obtain ⟨i, o, rfl⟩ := h₁
  obtain ⟨i', o', rfl⟩ := h₂
  exact ⟨_, _, rfl⟩

lemma MissFrame.foldl {α : Type} {f : State → α → State} (hf : ∀ x a, MissFrame x (f x a))
    (l : List α) (st : State) : MissFrame st (l.foldl f st) :=
  List.foldlRecOn (motive := fun x : State => MissFrame st x) l f ⟨_, _, rfl⟩
    fun x h a _ => h.trans (hf x a)

lemma callOnOuterOutgoingIncrement_frame (st : State) (me : ServiceId) :
    StartFrame st (st.callOnOuterOutgoingIncrement me) := by
  have hfold := StartFrame.foldl (f := fun st e =>
    if Edge.isWeak e && !(st.phase (Edge.source st.layout e)).isRunning then st
    else st.onOutgoingIncrement (Edge.source st.layout e)) (fun x e => by
      split
      · exact .refl x
      · exact ⟨_, _, _, _, _, rfl⟩) (st.inEdges .externalGraph me) st
  unfold callOnOuterOutgoingIncrement
  simp only
  split
  · exact hfold.trans ⟨_, _, _, _, _, rfl⟩
  · exact hfold

lemma callOnOuterDelayedOutgoingIncrement_frame (st : State) (me : ServiceId) :
    StartFrame st (st.callOnOuterDelayedOutgoingIncrement me) := by
  refine StartFrame.foldl (fun x e => ?_) _ st
  split
  · exact ⟨_, _, _, _, _, rfl⟩
  · exact .refl x

lemma callOnInnerOutgoingIncrement_frame (st : State) (me : ServiceId) :
    StartFrame st (st.callOnInnerOutgoingIncrement me) :=
  StartFrame.foldl (fun _ _ => ⟨_, _, _, _, _, rfl⟩) _ st

lemma lockMember_frame (st : State) (s : ServiceId) : StartFrame st (st.lockMember s) :=
  StartFrame.trans ⟨_, _, _, _, _, rfl⟩ (callOnOuterOutgoingIncrement_frame _ s)

lemma doLockCluster_frame (st : State) (h : ServiceId) : StartFrame st (st.doLockCluster h) :=
  (StartFrame.foldl lockMember_frame _ st).trans
    (StartFrame.foldl (fun _ _ => ⟨_, _, _, _, _, rfl⟩) _ _)

lemma doStartEager_frame (st : State) (me : ServiceId) : StartFrame st (st.doStartEager me) := by
  have hlock : StartFrame st (if (st.phase me).isLocked then st
      else st.doLockCluster (st.cluster me)) := by
    split
    · exact .refl st
    · exact doLockCluster_frame st _
  unfold doStartEager
  simp only
  generalize (if (st.phase me).isLocked then st else st.doLockCluster (st.cluster me)) = st₁
    at hlock
  refine hlock.trans (StartFrame.trans ?_ (callOnInnerOutgoingIncrement_frame _ me))
  exact ⟨_, _, _, _, _, rfl⟩

lemma callOnRequiredIncrement_frame (st : State) (me : ServiceId) :
    MissFrame st (st.callOnRequiredIncrement me) := by
  unfold callOnRequiredIncrement
  split
  · exact (MissFrame.foldl (fun _ _ => ⟨_, _, rfl⟩) _ st).trans
      (MissFrame.foldl (fun _ _ => ⟨_, _, rfl⟩) _ _)
  · exact MissFrame.foldl (fun _ _ => ⟨_, _, rfl⟩) _ st

lemma onServiceAdd_frame (st : State) (me : ServiceId) : MissFrame st (st.onServiceAdd me) := by
  have hfold := (callOnRequiredIncrement_frame st me).trans (MissFrame.foldl (f := fun st e =>
    if !(st.phase (Edge.source st.layout e)).isRunning &&
        (st.phase (Edge.source st.layout e)).isInitializedUnsafe then
      st.onOuterRequiredIncrement me
    else st) (fun x e => by
      split
      · exact ⟨_, _, rfl⟩
      · exact ⟨_, _, rfl⟩) ((st.callOnRequiredIncrement me).inEdges .strongUsageGraph me) _)
  unfold onServiceAdd
  simp only
  split
  · split
    · exact hfold.trans ⟨_, _, rfl⟩
    · exact hfold
  · exact hfold

lemma callOnClusterPullsIncrement_frame (st : State) (h : ServiceId) :
    PullFrame st (st.callOnClusterPullsIncrement h) :=
  List.foldlRecOn (motive := fun x : State => PullFrame st x) _ _ ⟨_, rfl⟩ fun x hx _ _ => by
    obtain ⟨p, rfl⟩ := hx
    exact ⟨_, rfl⟩

end State

end Idle
