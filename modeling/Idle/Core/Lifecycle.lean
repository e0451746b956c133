import Idle.Core.Life
import Idle.Library.Count

/-!
# The phases of a cluster

Every member of a cluster runs through the cycle of `Phase.next?`, the members together: a cluster
is locked and unlocked as a whole, and `running_` counts the members that did not reach `pending`.
The history of phase changes is replayed to state that no member ever leaves the cycle. This takes
clusters whose members `running_` can count: in a cluster of `2 ^ 26` members or more the counter
wraps, and it is unlocked while some of its members still run.
-/

namespace Idle

/-- Continue a replay with a change, which has to name the phase it starts from. -/
def PhaseChange.replay? (p : Phase) (ch : PhaseChange) : Option Phase :=
  if ch.phase = ch.source ∧ ch.source = p ∧ p.next? = some ch.target then some ch.target else none

/-- Replay the changes of a service from its initialisation on. -/
def replay (s : ServiceId) (changes : List PhaseChange) : Option Phase :=
  (changes.filter fun ch => ch.service = s).foldlM PhaseChange.replay? .stopped

/-- How often a service returned to `stopped`. -/
def returns (s : ServiceId) (changes : List PhaseChange) : Nat :=
  changes.countP fun ch => ch.service = s ∧ ch.source = .pending ∧ ch.target = .stopped

/-- What happened before the first change of a service. -/
def before (s : ServiceId) (changes : List PhaseChange) : List PhaseChange :=
  changes.takeWhile fun ch => ch.service ≠ s

/-- Since its first change, a service returned to `stopped` whenever the head did. -/
def Together (s h : ServiceId) (changes : List PhaseChange) : Prop :=
  returns h changes = returns s changes + returns h (before s changes)

/-- The number of the members of a cluster. -/
def ServiceTree.members (t : ServiceTree) (h : ServiceId) : Nat :=
  t.services.countP fun s => t.cluster s = h

namespace Phases

/-- The two states of a cluster: completely stopped, or completely locked. If the members can be
counted, as those of the root can, `running_` does so. -/
def Coherent (small : Prop) (l : Phases) (h : ServiceId) : Prop :=
  (l.running h = 0 ∧ ∀ s ∈ l.services, l.cluster s = h → l.phase s = .stopped) ∨
  ((∀ s ∈ l.services, l.cluster s = h → (l.phase s).isLocked = true) ∧
    (small ∨ h = l.layout.root → l.running h ≠ 0 ∧
      (l.running h).toNat = l.services.countP fun s => l.cluster s = h ∧ l.phase s ≠ .pending))

/-- The history explains the phases, as long as all clusters are small. -/
structure Logged (small : Prop) (l : Phases) : Prop where
  tree : l.IsTree
  initialized : ∀ s, s ∈ l.services ↔ (l.phase s).next?.isSome
  fresh : ∀ s, l.phase s = .uninitialized → ∀ ch ∈ l.changes, ch.service ≠ s
  unchanged : ∀ s ∈ l.services, (∀ ch ∈ l.changes, ch.service ≠ s) → l.phase s = .stopped
  matching : small → ∀ ch ∈ l.changes, ch.phase = ch.source ∧ ch.source.next? = some ch.target
  replay_eq : small → ∀ s ∈ l.services, replay s l.changes = some (l.phase s)

/-- What holds of the phases between any two phase changes of different clusters. -/
structure Good (small : Prop) (l : Phases) : Prop extends l.Logged small where
  few : small → ∀ h ∈ l.services, l.cluster h = h → l.members h < 2 ^ 26
  coherent : ∀ h ∈ l.services, l.cluster h = h → l.Coherent small h
  epoch_eq : ∀ h ∈ l.services, l.cluster h = h → l.epoch h = returns h l.changes
  together : ∀ s ∈ l.services, Together s (l.cluster s) l.changes

/-- The hooks of the root are ready at once, so that it is never seen half-way. -/
def RootRests (l : Phases) : Prop :=
  l.phase l.layout.root = .stopped ∨ l.phase l.layout.root = .running

variable {l : Phases} {small : Prop} {s t h : ServiceId} {p q : Phase} {ms : List ServiceId}

/-! ### Phase changes -/

/-- `do_transition_phase` -/
def transition (l : Phases) (s : ServiceId) (source target : Phase) : Phases :=
  { l with
    phase := Function.update l.phase s target
    changes := l.changes ++ [⟨s, l.phase s, source, target⟩] }

/-- The same phase change of several services. -/
def transitions (l : Phases) (ms : List ServiceId) (source target : Phase) : Phases :=
  { l with
    phase := fun s => if s ∈ ms then target else l.phase s
    changes := l.changes ++ ms.map fun s => ⟨s, l.phase s, source, target⟩ }

lemma foldl_transition (hms : ms.Nodup) :
    ms.foldl (fun l s => l.transition s p q) l = l.transitions ms p q := by
  induction ms generalizing l with
  | nil => simp [transitions]
  | cons m ms ih =>
    obtain ⟨hm, hms⟩ := List.nodup_cons.1 hms
    rw [List.foldl_cons, ih hms]
    have hmap : ms.map (fun s => (⟨s, Function.update l.phase m q s, p, q⟩ : PhaseChange)) =
        ms.map fun s => ⟨s, l.phase s, p, q⟩ := by
      refine List.map_congr_left fun s hs => ?_
      have hsm : s ≠ m := fun h => hm (h ▸ hs)
      rw [Function.update_of_ne hsm]
    have hphase : (fun s => if s ∈ ms then q else Function.update l.phase m q s) =
        fun s => if s ∈ m :: ms then q else l.phase s := by
      funext s
      by_cases hsm : s = m <;> simp [hsm]
    simp [transitions, transition, hmap, hphase]

lemma replay_append_self {changes : List PhaseChange} (hp : replay s changes = some p)
    (hpq : p.next? = some q) : replay s (changes ++ [⟨s, p, p, q⟩]) = some q := by
  unfold replay at hp ⊢
  simp [List.filter_append, List.foldlM_append, hp, PhaseChange.replay?, hpq]

lemma replay_eq_stopped {changes : List PhaseChange} (h : ∀ ch ∈ changes, ch.service ≠ s) :
    replay s changes = some .stopped := by
  have : changes.filter (fun ch => ch.service = s) = [] := by simpa using h
  simp [replay, this]

lemma replay_append_of_ne {changes : List PhaseChange} {ch : PhaseChange}
    (hs : ch.service ≠ s) : replay s (changes ++ [ch]) = replay s changes := by
  simp [replay, List.filter_append, hs]

lemma Logged.transition (hl : l.Logged small) (hs : s ∈ l.services) (hp : small → l.phase s = p)
    (hpq : p.next? = some q) (hq : q.next?.isSome) : (l.transition s p q).Logged small where
  tree := hl.tree
  initialized t := by
    by_cases hts : t = s
    · subst hts
      simp [Phases.transition, hs, hq]
    · simpa [Phases.transition, Function.update_of_ne hts] using hl.initialized t
  fresh t ht ch hch := by
    by_cases hts : t = s
    · subst hts
      simp only [Phases.transition, Function.update_self] at ht
      simp [ht, Phase.next?] at hq
    · simp only [Phases.transition, Function.update_of_ne hts] at ht
      rcases List.mem_append.1 hch with hch | hch
      · exact hl.fresh t ht ch hch
      · rw [List.mem_singleton.1 hch]
        exact Ne.symm hts
  unchanged t ht hnone := by
    have hts : t ≠ s := by
      rintro rfl
      exact hnone _ (List.mem_append_right _ (List.mem_singleton_self _)) rfl
    simp only [Phases.transition, Function.update_of_ne hts]
    exact hl.unchanged t ht fun ch hch => hnone ch (List.mem_append_left _ hch)
  matching hsmall ch hch := by
    rcases List.mem_append.1 hch with hch | hch
    · exact hl.matching hsmall ch hch
    · rw [List.mem_singleton.1 hch]
      exact ⟨hp hsmall, hpq⟩
  replay_eq hsmall t ht := by
    by_cases hts : t = s
    · subst hts
      simp only [Phases.transition, Function.update_self, hp hsmall]
      exact replay_append_self (hp hsmall ▸ hl.replay_eq hsmall t ht) hpq
    · simp only [Phases.transition, Function.update_of_ne hts]
      rw [replay_append_of_ne (Ne.symm hts)]
      exact hl.replay_eq hsmall t ht

lemma Logged.transitions (hl : l.Logged small) (hms : ms.Nodup) (hm : ∀ s ∈ ms, s ∈ l.services)
    (hp : small → ∀ s ∈ ms, l.phase s = p) (hpq : p.next? = some q) (hq : q.next?.isSome) :
    (l.transitions ms p q).Logged small := by
  rw [← foldl_transition hms]
  induction ms generalizing l with
  | nil => exact hl
  | cons m ms ih =>
    obtain ⟨hmm, hms⟩ := List.nodup_cons.1 hms
    refine ih (hl.transition (hm m List.mem_cons_self) (fun hsmall => hp hsmall m
      List.mem_cons_self) hpq hq) hms (fun s hs => hm s (List.mem_cons_of_mem _ hs))
      fun hsmall s hs => ?_
    have hsm : s ≠ m := fun h => hmm (h ▸ hs)
    simpa [Phases.transition, Function.update_of_ne hsm] using
      hp hsmall s (List.mem_cons_of_mem _ hs)

/-! ### Counting returns -/

lemma returns_append (s : ServiceId) (a b : List PhaseChange) :
    returns s (a ++ b) = returns s a + returns s b := by
  simp [returns]

lemma returns_map_of_ne (hq : q ≠ .stopped) (s : ServiceId) (f : ServiceId → Phase) :
    returns s (ms.map fun m => ⟨m, f m, p, q⟩) = 0 := by
  simp [returns, hq]

lemma returns_map_unlock (hms : ms.Nodup) (hs : s ∈ ms) (f : ServiceId → Phase) :
    returns s (ms.map fun m => ⟨m, f m, .pending, .stopped⟩) = 1 := by
  rw [returns, List.countP_map]
  exact (List.countP_congr fun m _ => by simp).trans (List.count_eq_one_of_mem hms hs)

lemma returns_map_of_not_mem (hs : s ∉ ms) (f : ServiceId → Phase) :
    returns s (ms.map fun m => ⟨m, f m, p, q⟩) = 0 := by
  simp only [returns, List.countP_eq_zero, List.mem_map]
  rintro _ ⟨m, hm, rfl⟩
  simp only [decide_eq_true_eq, not_and]
  exact fun h => absurd hm (h ▸ hs)

lemma returns_eq_zero {changes : List PhaseChange} (h : ∀ ch ∈ changes, ch.service ≠ s) :
    returns s changes = 0 := by
  rw [returns, List.countP_eq_zero]
  intro ch hch
  simp [h ch hch]

lemma before_append {a : List PhaseChange} (h : ∀ ch ∈ a, ch.service ≠ s) (b : List PhaseChange) :
    before s (a ++ b) = a ++ before s b :=
  List.takeWhile_append_of_pos fun ch hch => by simp [h ch hch]

/-- What happened before the first change stays the same after it. -/
lemma before_append_of_mem {a : List PhaseChange} {ch : PhaseChange} (hch : ch ∈ a)
    (hs : ch.service = s) (b : List PhaseChange) : before s (a ++ b) = before s a := by
  induction a with
  | nil => exact absurd hch List.not_mem_nil
  | cons c a ih =>
    unfold before at ih ⊢
    by_cases hc : c.service = s
    · simp [hc]
    · have hmem : ch ∈ a := (List.mem_cons.1 hch).resolve_left fun h => hc (h ▸ hs)
      rw [List.cons_append, List.takeWhile_cons_of_pos (by simp [hc]),
        List.takeWhile_cons_of_pos (by simp [hc]), ih hmem]

/-- The history goes on with changes that the service and the head share. -/
lemma together_append {a b : List PhaseChange} (ha : Together s h a)
    (hb : returns h b = returns s b)
    (hcase : (∃ ch ∈ a, ch.service = s) ∨ returns h b = 0) : Together s h (a ++ b) := by
  unfold Together at ha ⊢
  rw [returns_append, returns_append, ha]
  by_cases hmem : ∃ ch ∈ a, ch.service = s
  · obtain ⟨ch, hch, hs⟩ := hmem
    rw [before_append_of_mem hch hs]
    omega
  · have hnone : ∀ ch ∈ a, ch.service ≠ s := fun ch hch hs => hmem ⟨ch, hch, hs⟩
    have hle : returns h (before s b) ≤ returns h b := (List.takeWhile_sublist _).countP_le
    have hself : before s a = a := by simpa [before] using before_append hnone []
    have := hcase.resolve_left hmem
    rw [before_append hnone, returns_append, hself]
    omega

/-! ### One member moves on -/

lemma Coherent.congr {l' : Phases} (hl : l.Coherent small h) (hlayout : l'.layout = l.layout)
    (hservices : l'.services = l.services) (hcluster : l'.cluster = l.cluster)
    (hrunning : l'.running h = l.running h)
    (hphase : ∀ s ∈ l.services, l.cluster s = h → l'.phase s = l.phase s) :
    l'.Coherent small h := by
  unfold Coherent
  rw [hlayout, hservices, hcluster, hrunning]
  have hcount : (l.services.countP fun s => decide (l.cluster s = h ∧ l'.phase s ≠ .pending)) =
      l.services.countP fun s => l.cluster s = h ∧ l.phase s ≠ .pending := by
    refine List.countP_congr fun s hs => ?_
    by_cases hsh : l.cluster s = h
    · simp [hphase s hs hsh]
    · simp [hsh]
  rw [hcount]
  refine hl.imp ?_ ?_
  · rintro ⟨hr, hall⟩
    exact ⟨hr, fun s hs hsh => (hphase s hs hsh).trans (hall s hs hsh)⟩
  · rintro ⟨hall, hc⟩
    exact ⟨fun s hs hsh => (hphase s hs hsh).symm ▸ hall s hs hsh, hc⟩

/-- A cluster with a stopped member is completely stopped. -/
lemma Good.stopped (hl : l.Good small) (hs : s ∈ l.services) (hp : l.phase s = .stopped) :
    l.running (l.cluster s) = 0 ∧
      ∀ t ∈ l.services, l.cluster t = l.cluster s → l.phase t = .stopped := by
  obtain hc | ⟨hc, -⟩ :=
    hl.coherent _ (hl.tree.cluster_mem hs).1 (hl.tree.cluster_cluster hs)
  · exact hc
  · have := hc s hs rfl
    simp [hp] at this

/-- A cluster with a locked member is completely locked. -/
lemma Good.locked (hl : l.Good small) (hs : s ∈ l.services) (hp : l.phase s ≠ .stopped) :
    (∀ t ∈ l.services, l.cluster t = l.cluster s → (l.phase t).isLocked = true) ∧
      (small ∨ l.cluster s = l.layout.root → l.running (l.cluster s) ≠ 0 ∧
        (l.running (l.cluster s)).toNat =
          l.services.countP fun t => l.cluster t = l.cluster s ∧ l.phase t ≠ .pending) := by
  obtain ⟨-, hc⟩ | hc :=
    hl.coherent _ (hl.tree.cluster_mem hs).1 (hl.tree.cluster_cluster hs)
  · exact absurd (hc s hs rfl) hp
  · exact hc

/-- The root is the only member of its cluster. -/
lemma members_root_le (ht : l.IsTree) : l.members l.layout.root ≤ 1 := by
  calc l.members l.layout.root
      ≤ l.services.countP (· == l.layout.root) := by
        refine List.countP_mono_left fun t hmem hcl => ?_
        simpa using (ht.cluster_eq_root hmem).1 (of_decide_eq_true hcl)
    _ ≤ 1 := List.nodup_iff_count_le_one.1 ht.nodup _

lemma Good.members_lt (hl : l.Good small) (hh : h ∈ l.services) (hhh : l.cluster h = h)
    (hsmall : small ∨ h = l.layout.root) : l.members h < 2 ^ 26 := by
  rcases hsmall with hsmall | rfl
  · exact hl.few hsmall h hh hhh
  · exact (members_root_le hl.tree).trans_lt (by decide)

/-- The steps from `locked` to `stopping` concern the member alone. -/
lemma Good.advance (hl : l.Good small) (hs : s ∈ l.services) (hp : l.phase s = p)
    (hpq : p.next? = some q) (hstopped : p ≠ .stopped) (hpending : p ≠ .pending)
    (hq : q ≠ .pending) : (l.transition s p q).Good small := by
  have hq' : q.next?.isSome ∧ q.isLocked = true ∧ q ≠ .stopped := by
    cases p <;> simp_all [Phase.next?] <;> subst hpq <;> decide
  refine ⟨hl.toLogged.transition hs (fun _ => hp) hpq hq'.1, hl.few, ?_, ?_, ?_⟩
  · intro h hh hhh
    by_cases hsh : l.cluster s = h
    · obtain ⟨hall, hc⟩ := hl.locked hs (hp ▸ hstopped)
      rw [hsh] at hall hc
      refine .inr ⟨?_, fun hsmall => (hc hsmall).imp id fun hc => hc.trans (List.countP_congr ?_)⟩
      · intro t ht hth
        by_cases hts : t = s
        · subst hts
          simpa [transition] using hq'.2.1
        · simpa [transition, Function.update_of_ne hts] using hall t ht hth
      · intro t _
        by_cases hts : t = s
        · subst hts
          simp [transition, hp, hpending, hq]
        · simp [transition, Function.update_of_ne hts]
    · refine (hl.coherent h hh hhh).congr rfl rfl rfl rfl fun t _ hth => ?_
      have hts : t ≠ s := fun heq => hsh (heq ▸ hth)
      simp [transition, Function.update_of_ne hts]
  · intro h hh hhh
    have : returns h (l.transition s p q).changes = returns h l.changes := by
      rw [transition, returns_append]
      simp [returns, hq'.2.2]
    rw [this]
    exact hl.epoch_eq h hh hhh
  · intro t ht
    refine together_append (hl.together t ht) ?_ (.inr ?_)
    · simp [returns, hq'.2.2]
    · simp [returns, hq'.2.2]

/-! ### A cluster is locked, and unlocked -/

/-- `call_on_cluster_running_increment` -/
def runningIncrement (l : Phases) (s : ServiceId) : Phases :=
  { l with running := Function.update l.running (l.cluster s) (l.running (l.cluster s) + 1) }

lemma foldl_runningIncrement (hms : ∀ m ∈ ms, l.cluster m = h) :
    ms.foldl runningIncrement l = { l with
      running := Function.update l.running h (l.running h + BitVec.ofNat 26 ms.length) } := by
  induction ms generalizing l with
  | nil => simp
  | cons m ms ih =>
    have hm := hms m List.mem_cons_self
    have hms' : ∀ x ∈ ms, (l.runningIncrement m).cluster x = h :=
      fun x hx => hms x (List.mem_cons_of_mem _ hx)
    rw [List.foldl_cons, ih hms']
    have hsum : l.running h + 1#26 + BitVec.ofNat 26 ms.length =
        l.running h + BitVec.ofNat 26 (ms.length + 1) := by
      rw [BitVec.add_assoc, BitVec.ofNat_add, BitVec.add_comm 1#26]
    simp [runningIncrement, hm, hsum]

/-- `do_lock_cluster` -/
def lock (l : Phases) (h : ServiceId) : Phases :=
  { l.transitions (l.clusterMembers h) .stopped .locked with
    running := Function.update l.running h
      (l.running h + BitVec.ofNat 26 (l.clusterMembers h).length) }

lemma length_clusterMembers (ht : l.IsTree) (hh : h ∈ l.services) (hhh : l.cluster h = h) :
    (l.clusterMembers h).length = l.members h := by
  rw [(ht.clusterMembers_perm hh hhh).length_eq, ServiceTree.members, List.countP_eq_length_filter]

lemma Good.lock (hl : l.Good small) (hh : h ∈ l.services) (hhh : l.cluster h = h)
    (hp : l.phase h = .stopped) : (l.lock h).Good small := by
  obtain ⟨hrun, hall⟩ := hl.stopped hh hp
  rw [hhh] at hrun hall
  have hmem := fun s => hl.tree.mem_clusterMembers (t := s) hh hhh
  have hlogged : (l.transitions (l.clusterMembers h) .stopped .locked).Logged small :=
    hl.toLogged.transitions (hl.tree.nodup_clusterMembers h) (fun s hs => ((hmem s).1 hs).1)
      (fun _ s hs => hall s ((hmem s).1 hs).1 ((hmem s).1 hs).2) rfl rfl
  refine ⟨⟨hlogged.tree, hlogged.initialized, hlogged.fresh, hlogged.unchanged, hlogged.matching,
    hlogged.replay_eq⟩, hl.few, ?_, ?_, ?_⟩
  · intro g hg hgg
    by_cases hgh : g = h
    · subst hgh
      refine .inr ⟨fun s hs hsg => ?_, fun hsmall => ?_⟩
      · simp [Phases.lock, Phases.transitions, (hmem s).2 ⟨hs, hsg⟩]
      · -- the members can be counted, so `running_` is their number
        have hlt : l.members g < 2 ^ 26 := hl.members_lt hh hhh hsmall
        have hpos : 0 < l.members g := List.countP_pos_iff.2 ⟨g, hh, by simpa using hhh⟩
        have hnat : ((l.lock g).running g).toNat = l.members g := by
          rw [show (l.lock g).running g = _ from Function.update_self .., hrun,
            length_clusterMembers hl.tree hh hhh, BitVec.ofNat_eq_ofNat, BitVec.zero_add,
            BitVec.toNat_ofNat, Nat.mod_eq_of_lt hlt]
        refine ⟨fun h0 => ?_, hnat.trans (List.countP_congr fun s hs => ?_)⟩
        · rw [h0] at hnat
          exact absurd hnat.symm hpos.ne'
        · by_cases hsg : l.cluster s = g
          · simp [Phases.lock, Phases.transitions, hsg, (hmem s).2 ⟨hs, hsg⟩]
          · simp [Phases.lock, Phases.transitions, hsg]
    · refine (hl.coherent g hg hgg).congr rfl rfl rfl (by simp [Phases.lock, hgh])
        fun s hs hsg => ?_
      have : s ∉ l.clusterMembers h := fun hs' => hgh (hsg.symm.trans ((hmem s).1 hs').2)
      simp [Phases.lock, Phases.transitions, this]
  · intro g hg hgg
    simp only [Phases.lock, Phases.transitions]
    rw [returns_append, returns_map_of_ne (by decide)]
    exact hl.epoch_eq g hg hgg
  · intro t ht
    refine together_append (hl.together t ht) ?_ (.inr (returns_map_of_ne (by decide) _ _))
    rw [returns_map_of_ne (by decide), returns_map_of_ne (by decide)]

/-- `on_service_pending`: the member leaves `stopping` and is no longer counted as running. -/
def pend (l : Phases) (s : ServiceId) : Phases :=
  { l.transition s .stopping .pending with
    running := Function.update l.running (l.cluster s) (l.running (l.cluster s) - 1) }

/-- `do_unlock_cluster` with the epoch that precedes it. -/
def unlock (l : Phases) (h : ServiceId) : Phases :=
  { l.transitions (l.clusterMembers h) .pending .stopped with
    epoch := Function.update l.epoch h (l.epoch h + 1) }

/-- What is true of a cluster when one of its members reaches `pending`. -/
lemma Good.pend_count (hl : l.Good small) (hs : s ∈ l.services) (hp : l.phase s = .stopping) :
    (l.pend s).Logged small ∧
      (∀ t ∈ l.services, l.cluster t = l.cluster s → ((l.pend s).phase t).isLocked = true) ∧
      (small ∨ l.cluster s = l.layout.root → ((l.pend s).running (l.cluster s)).toNat =
        l.services.countP fun t => l.cluster t = l.cluster s ∧ (l.pend s).phase t ≠ .pending) := by
  obtain ⟨hall, hc⟩ := hl.locked hs (by simp [hp])
  have hlogged := hl.toLogged.transition hs (fun _ => hp) (q := .pending) rfl rfl
  refine ⟨⟨hlogged.tree, hlogged.initialized, hlogged.fresh, hlogged.unchanged, hlogged.matching,
    hlogged.replay_eq⟩, ?_, fun hsmall => ?_⟩
  · intro t ht hth
    by_cases hts : t = s
    · subst hts
      simp [pend, transition]
    · simpa [pend, transition, Function.update_of_ne hts] using hall t ht hth
  · obtain ⟨hne, hc⟩ := hc hsmall
    have := List.countP_eq_succ_of_nodup hl.tree.nodup hs
      (p := fun t => decide (l.cluster t = l.cluster s ∧ l.phase t ≠ .pending))
      (q := fun t => decide (l.cluster t = l.cluster s ∧ (l.pend s).phase t ≠ .pending))
      (by simp [hp]) (by simp [pend, transition])
      (fun t _ hts => by simp [pend, transition, Function.update_of_ne hts])
    have hsub : (l.running (l.cluster s) - 1).toNat = (l.running (l.cluster s)).toNat - 1 :=
      BitVec.toNat_sub_of_le (by bv_omega)
    simp only [pend, Function.update_self] at this ⊢
    omega

/-- In a cluster whose members can be counted, the last one to reach `pending` leaves none
behind. -/
lemma Good.all_pending (hl : l.Good small) (hs : s ∈ l.services) (hp : l.phase s = .stopping)
    (hsmall : small ∨ l.cluster s = l.layout.root) (hr : (l.pend s).running (l.cluster s) = 0)
    (ht : t ∈ l.services) (hts : l.cluster t = l.cluster s) : (l.pend s).phase t = .pending := by
  have hc := ((hl.pend_count hs hp).2.2 hsmall).symm.trans (congrArg BitVec.toNat hr)
  simpa [hts] using List.countP_eq_zero.1 hc t ht

lemma Good.pend_others (hl : l.Good small) (hg : h ∈ l.services) (hgg : l.cluster h = h)
    (hgs : l.cluster s ≠ h) : (l.pend s).Coherent small h := by
  refine (hl.coherent h hg hgg).congr rfl rfl rfl (by simp [pend, transition, Ne.symm hgs]) ?_
  intro t _ hth
  have hts : t ≠ s := fun heq => hgs (heq ▸ hth)
  simp [pend, transition, Function.update_of_ne hts]

lemma Good.pend_epoch (hl : l.Good small) (hg : h ∈ l.services) (hgg : l.cluster h = h) :
    (l.pend s).epoch h = returns h (l.pend s).changes := by
  have : returns h (l.pend s).changes = returns h l.changes := by
    simp only [pend, transition]
    rw [returns_append]
    simp [returns]
  rw [this]
  exact hl.epoch_eq h hg hgg

lemma Good.pend_together (hl : l.Good small) (ht : t ∈ l.services) :
    Together t (l.cluster t) (l.pend s).changes := by
  refine together_append (hl.together t ht) ?_ (.inr ?_)
  · simp [returns]
  · simp [returns]

/-- Other members are still to be stopped. -/
lemma Good.pend (hl : l.Good small) (hs : s ∈ l.services) (hp : l.phase s = .stopping)
    (hr : (l.pend s).running (l.cluster s) ≠ 0) : (l.pend s).Good small := by
  obtain ⟨hlogged, hall, hc⟩ := hl.pend_count hs hp
  refine ⟨hlogged, hl.few, fun h hh hhh => ?_, fun h hh hhh => hl.pend_epoch hh hhh,
    fun t ht => hl.pend_together ht⟩
  by_cases hsh : l.cluster s = h
  · subst hsh
    exact .inr ⟨hall, fun hsmall => ⟨hr, hc hsmall⟩⟩
  · exact hl.pend_others hh hhh hsh

/-- `running_` has come to zero, with the last member that it counts. -/
lemma Good.pend_unlock (hl : l.Good small) (hs : s ∈ l.services) (hp : l.phase s = .stopping)
    (hr : (l.pend s).running (l.cluster s) = 0) :
    ((l.pend s).unlock (l.cluster s)).Good small := by
  obtain ⟨hlogged, hall, -⟩ := hl.pend_count hs hp
  -- the members that are left are all pending
  have hpend := fun hsmall t ht hts =>
    hl.all_pending hs hp (t := t) (.inl hsmall : small ∨ _) hr ht hts
  have hmem := fun t => hl.tree.mem_clusterMembers (t := t) (hl.tree.cluster_mem hs).1
    (hl.tree.cluster_cluster hs)
  have hothers := fun g hg hgg => hl.pend_others (h := g) (s := s) hg hgg
  have htogether := fun t (ht : t ∈ l.services) => hl.pend_together (s := s) ht
  generalize l.cluster s = h at *
  have hunlock : ((l.pend s).transitions (l.clusterMembers h) .pending .stopped).Logged small :=
    hlogged.transitions (hl.tree.nodup_clusterMembers h) (fun t ht => ((hmem t).1 ht).1)
      (fun hsmall t ht => hpend hsmall t ((hmem t).1 ht).1 ((hmem t).1 ht).2) rfl rfl
  refine ⟨⟨hunlock.tree, hunlock.initialized, hunlock.fresh, hunlock.unchanged, hunlock.matching,
    hunlock.replay_eq⟩, hl.few, ?_, ?_, ?_⟩
  · intro g hg hgg
    by_cases hgh : g = h
    · -- the unlocked cluster rests
      subst hgh
      refine .inl ⟨hr, fun t ht hth => ?_⟩
      have : t ∈ (l.pend s).clusterMembers g := (hmem t).2 ⟨ht, hth⟩
      simp [unlock, Phases.transitions, this]
    · -- no member of another cluster is touched
      refine (hothers g hg hgg (Ne.symm hgh)).congr rfl rfl rfl rfl fun t _ htg => ?_
      have : t ∉ (l.pend s).clusterMembers h := fun ht => hgh (htg.symm.trans ((hmem t).1 ht).2)
      simp [unlock, Phases.transitions, this]
  · intro g hg hgg
    simp only [unlock, Phases.transitions]
    rw [returns_append]
    by_cases hgh : g = h
    · -- the epoch has advanced with the last pending member, and the head returns once
      subst hgh
      have : g ∈ (l.pend s).clusterMembers g := (hmem g).2 ⟨hg, hgg⟩
      rw [returns_map_unlock (hlogged.tree.nodup_clusterMembers g) this, Function.update_self,
        hl.pend_epoch hg hgg]
    · have : g ∉ (l.pend s).clusterMembers h :=
        fun ht => hgh (hgg.symm.trans ((hmem g).1 ht).2)
      rw [returns_map_of_not_mem this, Function.update_of_ne hgh, hl.pend_epoch hg hgg]
      rfl
  · intro t ht
    by_cases hth : l.cluster t = h
    · -- the members return with the head, and each has changed its phase before
      have hnodup := hlogged.tree.nodup_clusterMembers h
      have htm : t ∈ (l.pend s).clusterMembers h := (hmem t).2 ⟨ht, hth⟩
      have hhm : h ∈ (l.pend s).clusterMembers h := by
        refine (hmem h).2 ⟨hth ▸ (hl.tree.cluster_mem ht).1, ?_⟩
        rw [← hth]
        exact hl.tree.cluster_cluster ht
      refine together_append (htogether t ht) ?_ (.inl ?_)
      · change returns (l.cluster t) _ = _
        rw [hth, returns_map_unlock hnodup hhm, returns_map_unlock hnodup htm]
      · by_contra hnone
        have hlocked := hall t ht hth
        rw [hlogged.unchanged t ht fun ch hch hs => hnone ⟨ch, hch, hs⟩] at hlocked
        exact absurd hlocked (by decide)
    · -- nothing of its cluster is unlocked
      have htm : t ∉ (l.pend s).clusterMembers h := fun h' => hth ((hmem t).1 h').2
      have hcm : l.cluster t ∉ (l.pend s).clusterMembers h := by
        intro h'
        have := ((hmem _).1 h').2
        rw [hl.tree.cluster_cluster ht] at this
        exact hth this
      have hzero := returns_map_of_not_mem (p := .pending) (q := .stopped) hcm (l.pend s).phase
      refine together_append (htogether t ht) ?_ (.inr hzero)
      exact hzero.trans (returns_map_of_not_mem htm _).symm

/-! ### The root -/

/-- The root is the only member of its cluster. -/
lemma Good.pend_root (hl : l.Good small) (hp : l.phase l.layout.root = .stopping) :
    (l.pend l.layout.root).running l.layout.root = 0 := by
  have hc := (hl.pend_count hl.tree.root_mem hp).2.2 (.inr hl.tree.cluster_root)
  rw [hl.tree.cluster_root] at hc
  have hzero : (l.services.countP fun t => decide
      (l.cluster t = l.layout.root ∧ (l.pend l.layout.root).phase t ≠ .pending)) = 0 := by
    rw [List.countP_eq_zero]
    intro t ht h
    simp only [decide_eq_true_eq] at h
    rw [(hl.tree.cluster_eq_root ht).1 h.1] at h
    simp [Phases.pend, transition] at h
  rw [hzero] at hc
  exact BitVec.eq_of_toNat_eq hc

lemma RootRests.pend (hr : l.RootRests) (hs : s ≠ l.layout.root) : (l.pend s).RootRests := by
  simpa [RootRests, Phases.pend, transition, Ne.symm hs] using hr

/-- Unlocking the cluster of the root brings it to rest; the others do not touch it. -/
lemma RootRests.unlock (hl : l.Good small) (hs : s ∈ l.services)
    (hr : s = l.layout.root ∨ l.RootRests) : ((l.pend s).unlock (l.cluster s)).RootRests := by
  have hmem := hl.tree.mem_clusterMembers (t := l.layout.root) (hl.tree.cluster_mem hs).1
    (hl.tree.cluster_cluster hs)
  by_cases hsr : s = l.layout.root
  · have : l.layout.root ∈ (l.pend s).clusterMembers (l.cluster s) :=
      hmem.2 ⟨hl.tree.root_mem, by rw [hsr]⟩
    exact .inl (if_pos this)
  · have hnot : l.layout.root ∉ (l.pend s).clusterMembers (l.cluster s) := by
      intro h
      have := (hmem.1 h).2
      rw [hl.tree.cluster_root] at this
      exact hsr ((hl.tree.cluster_eq_root hs).1 this.symm)
    have hphase : ((l.pend s).unlock (l.cluster s)).phase l.layout.root =
        (l.pend s).phase l.layout.root := if_neg hnot
    unfold RootRests
    have := (hr.resolve_left hsr).pend hsr
    exact hphase ▸ this

/-! ### Services come and go -/

/-- A service enters `stopped`; a head brings a new cluster with it. -/
def insert (l : Phases) (s : ServiceId) : Phases :=
  { l with
    services := l.services ++ [s]
    cluster := Function.update l.cluster s
      (if l.layout.isMember s then l.cluster (l.layout.parent s).owner else s)
    phase := Function.update l.phase s .stopped
    running := if l.layout.isClusterHead s then Function.update l.running s 0 else l.running
    epoch := if l.layout.isClusterHead s then Function.update l.epoch s 0 else l.epoch }

lemma Good.insert (hl : l.Good small) (hs : l.phase s = .uninitialized)
    (ho : (l.layout.parent s).owner ∈ l.services)
    (hp : l.layout.parent s ∈ l.layout.parts (l.layout.parent s).owner)
    (hm : l.layout.isMember s = true → l.phase (l.layout.parent s).owner = .stopped)
    (hfew : small → l.layout.isMember s = true →
      l.members (l.cluster (l.layout.parent s).owner) + 1 < 2 ^ 26) :
    (l.insert s).Good small := by
  have hns : s ∉ l.services := by simp [hl.initialized, hs, Phase.next?]
  have hne : ∀ t ∈ l.services, t ≠ s := fun t ht heq => hns (heq ▸ ht)
  have hcl : ∀ t ∈ l.services, l.cluster t ≠ s := fun t ht => hne _ (hl.tree.cluster_mem ht).1
  have hreplay : replay s l.changes = some .stopped := replay_eq_stopped (hl.fresh s hs)
  -- the members of a cluster other than `s` are the old ones
  have hcluster : ∀ t ∈ l.services, (l.insert s).cluster t = l.cluster t := fun t ht => by
    simp [Phases.insert, hne t ht]
  have hphase : ∀ t ∈ l.services, (l.insert s).phase t = l.phase t := fun t ht => by
    simp [Phases.insert, hne t ht]
  have hmembers : ∀ h, (l.insert s).members h =
      l.members h + if (l.insert s).cluster s = h then 1 else 0 := by
    intro h
    have hold : (l.services.countP fun t => decide ((l.insert s).cluster t = h)) =
        l.members h := List.countP_congr fun t ht => by rw [hcluster t ht]
    have hservices : (l.insert s).services = l.services ++ [s] := rfl
    rw [ServiceTree.members, hservices, List.countP_append, hold]
    simp [List.countP_singleton]
  refine ⟨⟨hl.tree.insert hns ho hp, ?_, ?_, ?_, hl.matching, ?_⟩, ?_, ?_, ?_, ?_⟩
  · intro t
    by_cases hts : t = s
    · simp [Phases.insert, hts, Phase.next?]
    · simpa [Phases.insert, hts] using hl.initialized t
  · intro t ht
    by_cases hts : t = s
    · simp [Phases.insert, hts] at ht
    · exact hl.fresh t (by simpa [Phases.insert, hts] using ht)
  · intro t ht hnone
    rcases List.mem_append.1 ht with ht | ht
    · rw [hphase t ht]
      exact hl.unchanged t ht hnone
    · rw [List.mem_singleton.1 ht]
      simp [Phases.insert]
  · intro hsmall t ht
    rcases List.mem_append.1 ht with ht | ht
    · rw [hphase t ht]
      exact hl.replay_eq hsmall t ht
    · rw [List.mem_singleton.1 ht]
      simpa [Phases.insert] using hreplay
  · intro hsmall h hh hhh
    rw [hmembers]
    by_cases hmem : l.layout.isMember s = true
    · have hcs : (l.insert s).cluster s = l.cluster (l.layout.parent s).owner := by
        simp [Phases.insert, hmem]
      rcases List.mem_append.1 hh with hh | hh
      · rw [hcluster h hh] at hhh
        split_ifs with hsh
        · rw [← hsh, hcs]
          exact hfew hsmall hmem
        · exact hl.few hsmall h hh hhh
      · rw [List.mem_singleton.1 hh, hcs] at hhh
        exact absurd hhh (hcl _ ho)
    · have hcs : (l.insert s).cluster s = s := by simp [Phases.insert, hmem]
      rcases List.mem_append.1 hh with hh | hh
      · rw [hcluster h hh] at hhh
        rw [hcs, if_neg (hne h hh).symm]
        exact hl.few hsmall h hh hhh
      · -- the head of a new cluster is alone in it
        rw [List.mem_singleton.1 hh, hcs, if_pos rfl]
        have hzero : l.members s = 0 :=
          List.countP_eq_zero.2 fun t ht h => hcl t ht (of_decide_eq_true h)
        rw [hzero]
        decide
  · intro h hh hhh
    rcases List.mem_append.1 hh with hh | hh
    · have hrun : (l.insert s).running h = l.running h := by
        simp only [Phases.insert]
        split <;> simp [hne h hh]
      rw [hcluster h hh] at hhh
      by_cases hsh : (l.insert s).cluster s = h
      · -- `s` enters the cluster of its owner, which is stopped
        have hmem : l.layout.isMember s = true := by
          by_contra hmem
          simp only [Phases.insert, hmem, Function.update_self] at hsh
          exact hne h hh hsh.symm
        have hso : l.cluster (l.layout.parent s).owner = h := by
          simpa [Phases.insert, hmem] using hsh
        obtain ⟨hr, hall⟩ := hl.stopped ho (hm hmem)
        refine .inl ⟨hrun.trans (hso ▸ hr), fun t ht hth => ?_⟩
        rcases List.mem_append.1 ht with ht | ht
        · rw [hphase t ht]
          exact hall t ht (((hcluster t ht).symm.trans hth).trans hso.symm)
        · rw [List.mem_singleton.1 ht]
          simp [Phases.insert]
      · have hcount : ((l.insert s).services.countP fun t =>
            (l.insert s).cluster t = h ∧ (l.insert s).phase t ≠ .pending) =
              l.services.countP fun t => l.cluster t = h ∧ l.phase t ≠ .pending := by
          have : (l.insert s).services = l.services ++ [s] := rfl
          rw [this, List.countP_append]
          simp only [List.countP_singleton, hsh, false_and, decide_false, Bool.false_eq_true,
            if_false, add_zero]
          exact List.countP_congr fun t ht => by rw [hcluster t ht, hphase t ht]
        unfold Coherent
        rw [hcount, hrun]
        have hmem : ∀ t ∈ (l.insert s).services, (l.insert s).cluster t = h → t ∈ l.services := by
          intro t ht hth
          rcases List.mem_append.1 ht with ht | ht
          · exact ht
          · exact absurd (List.mem_singleton.1 ht ▸ hth) hsh
        refine (hl.coherent h hh hhh).imp ?_ ?_
        · rintro ⟨hr, hall⟩
          refine ⟨hr, fun t ht hth => ?_⟩
          have ht' := hmem t ht hth
          rw [hphase t ht']
          exact hall t ht' ((hcluster t ht').symm.trans hth)
        · rintro ⟨hall, hc⟩
          refine ⟨fun t ht hth => ?_, hc⟩
          have ht' := hmem t ht hth
          rw [hphase t ht']
          exact hall t ht' ((hcluster t ht').symm.trans hth)
    · -- the new cluster consists of `s` alone
      rw [List.mem_singleton.1 hh] at hhh ⊢
      have hhead : l.layout.isClusterHead s = true := by
        by_contra hhead
        have hmem : l.layout.isMember s = true := by
          simpa [Layout.isClusterHead, Layout.isMember] using hhead
        refine hcl _ ho ?_
        simpa [Phases.insert, hmem] using hhh
      refine .inl ⟨by simp [Phases.insert, hhead], fun t ht hth => ?_⟩
      rcases List.mem_append.1 ht with ht | ht
      · exact absurd ((hcluster t ht).symm.trans hth) (hcl t ht)
      · rw [List.mem_singleton.1 ht]
        simp [Phases.insert]
  · intro h hh hhh
    rcases List.mem_append.1 hh with hh | hh
    · rw [hcluster h hh] at hhh
      have : (l.insert s).epoch h = l.epoch h := by
        simp only [Phases.insert]
        split <;> simp [hne h hh]
      exact this.trans (hl.epoch_eq h hh hhh)
    · rw [List.mem_singleton.1 hh] at hhh ⊢
      have hhead : l.layout.isClusterHead s = true := by
        by_contra hhead
        have hmem : l.layout.isMember s = true := by
          simpa [Layout.isClusterHead, Layout.isMember] using hhead
        refine hcl _ ho ?_
        simpa [Phases.insert, hmem] using hhh
      have hret : returns s l.changes = 0 := returns_eq_zero (hl.fresh s hs)
      simp [Phases.insert, hhead, hret]
  · intro t ht
    rcases List.mem_append.1 ht with ht | ht
    · rw [hcluster t ht]
      exact hl.together t ht
    · -- nothing happened to the new service yet
      rw [List.mem_singleton.1 ht]
      unfold Together
      have hself : before s l.changes = l.changes := by
        simpa [before] using before_append (hl.fresh s hs) []
      have hchanges : (l.insert s).changes = l.changes := rfl
      rw [hchanges, hself, returns_eq_zero (hl.fresh s hs), Nat.zero_add]

/-- A service is gone. -/
def erase (l : Phases) (s : ServiceId) : Phases :=
  { l with
    services := l.services.erase s
    phase := Function.update l.phase s .destroyed }

lemma Good.erase (hl : l.Good small) (hs : s ∈ l.services) (hr : s ≠ l.layout.root)
    (hp : l.phase s = .stopped)
    (hchild : ∀ t ∈ l.services, t ≠ l.layout.root → (l.layout.parent t).owner ≠ s) :
    (l.erase s).Good small := by
  have hmem : ∀ t, t ∈ (l.erase s).services ↔ t ≠ s ∧ t ∈ l.services :=
    fun t => hl.tree.nodup.mem_erase_iff
  have hphase : ∀ t ∈ (l.erase s).services, (l.erase s).phase t = l.phase t := fun t ht => by
    simp [Phases.erase, ((hmem t).1 ht).1]
  refine ⟨⟨hl.tree.erase hr hchild, ?_, ?_, fun t ht hnone => ?_, hl.matching, ?_⟩,
    fun hsmall h hh hhh => ?_, ?_, ?_, fun t ht => hl.together t ((hmem t).1 ht).2⟩
  · intro t
    rw [hmem]
    by_cases hts : t = s
    · simp [Phases.erase, hts, Phase.next?]
    · simpa [Phases.erase, hts] using hl.initialized t
  · intro t ht
    by_cases hts : t = s
    · simp [Phases.erase, hts] at ht
    · exact hl.fresh t (by simpa [Phases.erase, hts] using ht)
  · rw [hphase t ht]
    exact hl.unchanged t ((hmem t).1 ht).2 hnone
  · intro hsmall t ht
    rw [hphase t ht]
    exact hl.replay_eq hsmall t ((hmem t).1 ht).2
  · exact (List.erase_sublist.countP_le).trans_lt (hl.few hsmall h ((hmem h).1 hh).2 hhh)
  · intro h hh hhh
    obtain ⟨hr', hall⟩ | ⟨hall, hc⟩ := hl.coherent h ((hmem h).1 hh).2 hhh
    · refine .inl ⟨hr', fun t ht hth => ?_⟩
      rw [hphase t ht]
      exact hall t ((hmem t).1 ht).2 hth
    · -- a locked cluster does not contain the stopped service
      have hsh : l.cluster s ≠ h := fun hsh => by
        have := hall s hs hsh
        simp [hp] at this
      refine .inr ⟨fun t ht hth => ?_, fun hsmall => ⟨(hc hsmall).1, ?_⟩⟩
      · rw [hphase t ht]
        exact hall t ((hmem t).1 ht).2 hth
      · calc (l.running h).toNat
            = l.services.countP fun t => l.cluster t = h ∧ l.phase t ≠ .pending := (hc hsmall).2
          _ = (l.erase s).services.countP fun t => l.cluster t = h ∧ l.phase t ≠ .pending := by
            rw [(List.perm_cons_erase hs).countP_eq, List.countP_cons]
            simp [hsh, Phases.erase]
          _ = (l.erase s).services.countP fun t =>
              (l.erase s).cluster t = h ∧ (l.erase s).phase t ≠ .pending :=
            List.countP_congr fun t ht => by rw [hphase t ht]; rfl
  · intro h hh hhh
    exact hl.epoch_eq h ((hmem h).1 hh).2 hhh

end Phases

end Idle
