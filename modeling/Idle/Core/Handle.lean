import Idle.Core.History
import Idle.Core.Ordering

/-!
# Uses and handles

A `Use` keeps a service from stopping. A `Handle` remembers the epoch of the cluster of a service,
and gives out a `Use` as long as the epoch is the same. Because a cluster is unlocked as a whole,
and its epoch moves when it is, a service that is usable in an epoch was usable in it all the time.
-/

namespace Idle

/-- `Handle<T>`; its copies are equal to it. -/
structure Handle where
  service : ServiceId
  epoch : Nat

/-- `handleOf` -/
def State.handleOf (st : State) (actor : ServiceId) : Handle := ⟨actor, st.epoch (st.cluster actor)⟩

/-- `Handle::lock`. Whether `lockRef` obtains a reference depends on the strong references to the
service, and is passed in. A `Use` of another epoch is dropped. -/
def Handle.lock (h : Handle) (st : State) (locked onEventLoop : Bool) : State × Bool :=
  if locked then
    match st.tryUse h.service with
    | (st, true) =>
      if st.epoch (st.cluster h.service) == h.epoch then (st, true)
      else (st.decUse h.service onEventLoop, false)
    | (st, false) => (st, false)
  else (st, false)

/-! ### Histories without returns -/

lemma PhaseChange.replay?_eq_some {p q : Phase} {ch : PhaseChange} (h : ch.replay? p = some q) :
    ch.source = p ∧ p.next? = some ch.target ∧ ch.target = q := by
  unfold PhaseChange.replay? at h
  split at h
  · rename_i hmatch
    exact ⟨hmatch.2.1, hmatch.2.2, Option.some.inj h⟩
  · cases h

/-- What stopped without a return has not started again. -/
lemma stopped_of_foldlM {changes : List PhaseChange} {p q : Phase}
    (hp : p = .stopping ∨ p = .pending)
    (hq : changes.foldlM (fun p ch => ch.replay? p) p = some q)
    (hreturn : ∀ ch ∈ changes, ¬ (ch.source = .pending ∧ ch.target = .stopped)) :
    q.isUsable = false := by
  induction changes generalizing p with
  | nil =>
    obtain rfl : p = q := by simpa using hq
    rcases hp with rfl | rfl <;> rfl
  | cons ch changes ih =>
    obtain ⟨r, hr, hrest⟩ := Option.bind_eq_some_iff.1 hq
    obtain ⟨hsource, hnext, rfl⟩ := PhaseChange.replay?_eq_some hr
    refine ih (.inr ?_) hrest fun c hc => hreturn c (List.mem_cons_of_mem _ hc)
    rcases hp with rfl | rfl
    · exact (Option.some.inj hnext).symm
    · exact absurd ⟨hsource, (Option.some.inj hnext).symm⟩ (hreturn ch List.mem_cons_self)

/-- What is usable in the end, without a return, was usable all the time. -/
lemma usable_of_foldlM {changes : List PhaseChange} {p q : Phase} (hp : p.isUsable = true)
    (hq : changes.foldlM (fun p ch => ch.replay? p) p = some q) (husable : q.isUsable = true)
    (hreturn : ∀ ch ∈ changes, ¬ (ch.source = .pending ∧ ch.target = .stopped)) :
    ∀ ch ∈ changes, ch.target.isUsable = true := by
  induction changes generalizing p with
  | nil => exact fun ch hch => absurd hch List.not_mem_nil
  | cons ch changes ih =>
    obtain ⟨r, hr, hrest⟩ := Option.bind_eq_some_iff.1 hq
    obtain ⟨-, hnext, rfl⟩ := PhaseChange.replay?_eq_some hr
    have hreturns := fun c hc => hreturn c (List.mem_cons_of_mem _ hc)
    have htarget : ch.target.isUsable = true := by
      cases p with
      | starting => rw [← Option.some.inj hnext]; rfl
      | running =>
        have hstopped := stopped_of_foldlM (.inl (Option.some.inj hnext).symm) hrest hreturns
        exact absurd husable (by simp [hstopped])
      | _ => exact absurd hp (by decide)
    intro c hc
    rcases List.mem_cons.1 hc with rfl | hc
    · exact htarget
    · exact ih htarget hrest hreturns c hc

lemma replay_append {s : ServiceId} {a b : List PhaseChange} {p q : Phase}
    (ha : replay s a = some p) (hab : replay s (a ++ b) = some q) :
    (b.filter fun ch => ch.service = s).foldlM (fun p ch => ch.replay? p) p = some q := by
  unfold replay at ha hab
  rw [List.filter_append, List.foldlM_append, ha] at hab
  exact hab

/-! ### Epochs -/

variable {L : Layout} {st st' : State} {s : ServiceId} {ops : List Op}

lemma Phase.isUsable_iff {p : Phase} : p.isUsable = true ↔ p = .starting ∨ p = .running := by
  cases p <;> simp [Phase.isUsable, Phase.isBetween, Phase.index]

lemma mem_services_of_isUsable (hg : st.life.Good True) (hs : (st.phase s).isUsable = true) :
    s ∈ st.services := by
  refine (hg.initialized s).2 ?_
  change (st.phase s).next?.isSome = true
  rcases Phase.isUsable_iff.1 hs with hp | hp
  · rw [hp]
    rfl
  · rw [hp]
    rfl

/-- A usable service has changed its phase before. -/
lemma exists_change_of_isUsable (hg : st.life.Good True) (hs : (st.phase s).isUsable = true) :
    ∃ ch ∈ st.changes, ch.service = s := by
  by_contra hnone
  have hreplay : replay s st.changes = some (st.phase s) :=
    hg.replay_eq trivial s (mem_services_of_isUsable hg hs)
  rw [Phases.replay_eq_stopped fun ch hch hs => hnone ⟨ch, hch, hs⟩] at hreplay
  have hp : st.phase s = .stopped := (Option.some.inj hreplay).symm
  rw [hp] at hs
  exact absurd hs (by decide)

section Between

variable {changes : List PhaseChange} (hg : st.life.Good True) (hg' : st'.life.Good True)
  (hchanges : st'.changes = st.changes ++ changes)
  (hs : (st.phase s).isUsable = true) (hs' : (st'.phase s).isUsable = true)
include hg hg' hchanges hs hs'

lemma replay_between : (changes.filter fun ch => ch.service = s).foldlM
    (fun p ch => ch.replay? p) (st.phase s) = some (st'.phase s) := by
  have hreplay : replay s st.changes = some (st.phase s) :=
    hg.replay_eq trivial s (mem_services_of_isUsable hg hs)
  have hreplay' : replay s st'.changes = some (st'.phase s) :=
    hg'.replay_eq trivial s (mem_services_of_isUsable hg' hs')
  exact replay_append hreplay (hchanges ▸ hreplay')

variable (hfollows : st.life.Follows st'.life)
  (hepoch : st'.epoch (st'.cluster s) = st.epoch (st.cluster s))
include hfollows hepoch

/-- A member returns as often as the epoch of its cluster moves. -/
lemma returns_eq_of_epoch : returns s changes = 0 := by
  have hmem := mem_services_of_isUsable hg hs
  have hmem' := mem_services_of_isUsable hg' hs'
  have hcluster : st'.cluster s = st.cluster s := by
    refine hfollows.cluster s fun hun => ?_
    have hun : st.phase s = .uninitialized := hun
    rw [hun] at hs
    exact absurd hs (by decide)
  obtain ⟨ch, hch, hservice⟩ := exists_change_of_isUsable hg hs
  have hhead : st.epoch (st.cluster s) = returns (st.cluster s) st.changes :=
    hg.epoch_eq _ (hg.tree.cluster_mem hmem).1 (hg.tree.cluster_cluster hmem)
  have hhead' : st'.epoch (st'.cluster s) = returns (st'.cluster s) st'.changes :=
    hg'.epoch_eq _ (hg'.tree.cluster_mem hmem').1 (hg'.tree.cluster_cluster hmem')
  have htogether : Together s (st.cluster s) st.changes := hg.together s hmem
  have htogether' : Together s (st'.cluster s) st'.changes := hg'.together s hmem'
  unfold Together at htogether htogether'
  rw [hhead, hhead', hcluster, hchanges, Phases.returns_append] at hepoch
  rw [hcluster, hchanges, Phases.before_append_of_mem hch hservice, Phases.returns_append,
    Phases.returns_append] at htogether'
  omega

/-- A service that is usable twice in an epoch was usable all the time in between. -/
lemma usable_between : ∀ ch ∈ changes, ch.service = s → ch.target.isUsable = true := by
  have hreturns := returns_eq_of_epoch hg hg' hchanges hs hs' hfollows hepoch
  have hreplay := replay_between hg hg' hchanges hs hs'
  have husable := usable_of_foldlM hs hreplay hs' fun ch hch hreturn => by
    obtain ⟨hch, hservice⟩ := List.mem_filter.1 hch
    rw [returns, List.countP_eq_zero] at hreturns
    exact hreturns ch hch (by simpa using ⟨of_decide_eq_true hservice, hreturn⟩)
  exact fun ch hch hservice => husable ch (List.mem_filter.2 ⟨hch, by simpa using hservice⟩)

end Between

/-! ### Uses -/

/-- A `Use` is on a usable service, and no service begins to stop before all are gone. -/
structure State.UsesHeld (st : State) : Prop where
  usable : ∀ s, st.handles s ≠ 0 → (st.phase s).isUsable = true
  stopping : ∀ s st', st.trySetServiceStopping s = some st' → st.handles s = 0

/-- The service is usable, and what it changed to since was usable. -/
structure State.StaysUsable (st st' : State) (s : ServiceId) : Prop where
  first : (st.phase s).isUsable = true
  last : (st'.phase s).isUsable = true
  between : ∀ ch ∈ st'.changes.drop st.changes.length, ch.service = s → ch.target.isUsable = true

namespace Core.Balanced

variable {c : Core} {extra : ServiceId → Nat}

lemma isUsable_of_uses (hc : c.Balanced extra) (hu : c.uses s ≠ 0) :
    (c.phase s).isUsable = true := by
  by_contra hp
  refine hu ?_
  rw [hc.uses_eq s, Core.usesSpec_eq_zero]
  · rfl
  · exact fun hs => hp (Phase.isUsable_iff.2 (.inl hs))
  · exact fun hr => hp (Phase.isUsable_iff.2 (.inr hr))

/-- A service that is used once has no `Use` besides its own. -/
lemma handles_of_uses (hc : c.Balanced extra) (hu : c.uses s = 1) : c.handles s = 0 := by
  have hp := hc.isUsable_of_uses (s := s) (by simp [hu])
  have hmem : s ∈ c.services := by
    refine (hc.initialized s).2 ?_
    rcases Phase.isUsable_iff.1 hp with hp | hp
    · rw [hp]
      rfl
    · rw [hp]
      rfl
  have hspec := hc.uses_toNat hmem
  rw [hu] at hspec
  change 1 = _ at hspec
  rcases Phase.isUsable_iff.1 hp with hp | hp
  · rw [Core.usesSpec_starting hp] at hspec
    omega
  · rw [Core.usesSpec_running hp] at hspec
    omega

end Core.Balanced

lemma Core.Balanced.usesHeld {extra : ServiceId → Nat} (hc : st.toCore.Balanced extra) :
    st.UsesHeld where
  usable s hs := by
    by_contra hp
    exact hs (hc.handles_eq s (Bool.eq_false_iff.2 hp))
  stopping s st' hset := hc.handles_of_uses (State.trySetServiceStopping_eq hset).1

/-- A handle that gives out a `Use` found a use and its own epoch, and took a use. -/
lemma Handle.lock_eq_true {h : Handle} {locked onEventLoop : Bool}
    (hlock : (h.lock st locked onEventLoop).2 = true) :
    st.uses h.service ≠ 0 ∧ st.epoch (st.cluster h.service) = h.epoch ∧
      (h.lock st locked onEventLoop).1 = Op.exec st (.tryUse h.service) := by
  unfold Handle.lock at hlock ⊢
  cases locked with
  | false => exact absurd hlock (by simp)
  | true =>
    by_cases hu : st.uses h.service = 0
    · simp [State.tryUse, hu] at hlock
    · by_cases hepoch : st.epoch (st.cluster h.service) = h.epoch
      · refine ⟨hu, hepoch, ?_⟩
        simp [State.tryUse, Op.exec, hu, hepoch, Core.incUses]
      · simp [State.tryUse, hu, hepoch, Core.incUses] at hlock

/-- As long as the counters are kept, a handle gives out a `Use` only if the service has been usable
since its creation, and the `Use` is counted. -/
theorem handles_safe (hst : (system L).Reachable (fun st op => op.KeepsCount st) st) :
    st.UsesHeld ∧ ∀ s ops locked onEventLoop, (st.phase s).isUsable = true →
      (system L).Admissible (fun st op => op.KeepsCount st) st ops →
      ((st.handleOf s).lock (ops.foldl (system L).step st) locked onEventLoop).2 = true →
      st.StaysUsable (ops.foldl (system L).step st) s ∧
        ((st.handleOf s).lock (ops.foldl (system L).step st) locked onEventLoop).1 =
          Op.exec (ops.foldl (system L).step st) (.tryUse s) := by
  obtain ⟨⟨extra, hc⟩, hsound⟩ := reachable_balanced hst
  refine ⟨hc.usesHeld, fun s ops locked onEventLoop hs hops hlock => ?_⟩
  have hfollows := follows_run hops
  have hst' := hst.run hops
  generalize ops.foldl (system L).step st = st' at hfollows hst' hlock ⊢
  obtain ⟨⟨extra', hc'⟩, hsound'⟩ := reachable_balanced hst'
  obtain ⟨huses, hepoch, hstep⟩ := Handle.lock_eq_true hlock
  have hs' : (st'.phase s).isUsable = true := hc'.isUsable_of_uses huses
  obtain ⟨changes, hchanges⟩ := hfollows.history
  have hchanges : st'.changes = st.changes ++ changes := hchanges.symm
  refine ⟨⟨hs, hs', ?_⟩, hstep⟩
  rw [hchanges, List.drop_left]
  exact usable_between hsound.good hsound'.good hchanges hs hs' hfollows hepoch

/-- A handle on a starting service is locked after its start. -/
theorem handles_safe_startingRun :
    (((State.after .flat startingRun).handleOf 1).lock
      (State.after .flat (startingRun ++ [.started 1])) true true).2 = true ∧
    (State.after .flat startingRun).UsesHeld ∧
    (State.after .flat startingRun).StaysUsable
      (State.after .flat (startingRun ++ [.started 1])) 1 := by
  have hreach : (system .flat).Reachable (fun st op => op.KeepsCount st)
      (State.after .flat startingRun) := Machine.Reachable.run (.init rfl) (by decide +kernel)
  have hsafe := handles_safe hreach
  exact ⟨by decide +kernel, hsafe.1, (hsafe.2 1 [.started 1] true true (by decide +kernel)
    (by decide +kernel) (by decide +kernel)).1⟩

/-- A weak usage of service 3 by service 5. -/
def weakUsage35 : Usage := ⟨2, Layout.exportOf 3, Layout.importOf 5, true⟩

/-- Service 3 runs for service 5, which only uses it weakly. -/
def supportedRun : List Op :=
  [.init 1, .init 2, .init 3, .init 4, .init 5, .connect weakUsage14, .connect strongUsage34,
    .connect weakUsage35, .run, .requestStart 5 .manual ⟨0, .start⟩, .process true, .process true]

/-- Service 3 begins to stop, and service 4 is taken for startable when service 1 is running. -/
def lateUserRun : List Op :=
  [.disconnect weakUsage35, .process false, .requestStart 4 .manual ⟨1, .start⟩, .process true,
    .process false]

/-- The handle gives out a `Use` of service 3 while it stops. -/
theorem lateUserRun_not_safe :
    Reachable .nested (State.after .nested supportedRun) ∧
    ((State.after .nested supportedRun).phase 3).isUsable = true ∧
    (system .nested).Admissible (fun _ _ => True) (State.after .nested supportedRun) lateUserRun ∧
    (((State.after .nested supportedRun).handleOf 3).lock
      (State.after .nested (supportedRun ++ lateUserRun)) true true).2 = true ∧
    ¬ (State.after .nested supportedRun).StaysUsable
      (State.after .nested (supportedRun ++ lateUserRun)) 3 ∧
    Reachable .nested (State.after .nested (supportedRun ++ lateUserRun ++ [.tryUse 3])) ∧
    ¬ (State.after .nested (supportedRun ++ lateUserRun ++ [.tryUse 3])).UsesHeld := by
  refine ⟨Machine.Reachable.run (.init rfl) (by decide +kernel), by decide +kernel,
    by decide +kernel, by decide +kernel, fun h => ?_,
    Machine.Reachable.run (.init rfl) (by decide +kernel), fun h => ?_⟩
  · exact absurd h.last (by decide +kernel)
  · exact absurd (h.usable 3 (by decide +kernel)) (by decide +kernel)

end Idle
