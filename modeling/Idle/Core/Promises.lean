import Idle.Core.Lifecycle

/-!
# Promises

A promise that reached its handler is chained to its cluster until it is completed. The target of
the cluster tells which promises may be chained to it, and with it in which state they are
resolved.
-/

namespace Idle

namespace Life

/-- Change the phases only. -/
def mapPhases (l : Life) (f : Phases → Phases) : Life := { l with toPhases := f l.toPhases }

/-- The heads of all clusters. -/
def heads (l : Life) : List ServiceId := l.services.filter fun h => l.cluster h = h

/-- The promises chained to some cluster. -/
def chained (l : Life) : List Promise := l.heads.flatMap l.promise

/-- The promises chained to a cluster fit its target, and every promise was resolved in the state
that it promises. -/
structure Resolved (l : Life) : Prop where
  start_target : ∀ h ∈ l.heads, ∀ p ∈ l.promise h, p.kind = .start → l.target h = .start
  stop_target : ∀ h ∈ l.heads, ∀ p ∈ l.promise h, p.kind = .stop → l.target h = .stop
  start_value : ∀ c ∈ l.completed, c.outcome = .value → c.promise.kind = .start →
    c.headRunning = true
  stop_value : ∀ c ∈ l.completed, c.outcome = .value → c.promise.kind = .stop → c.running = 0

/-- Every promise that was reached is completed, chained, or still held by its handler. -/
def Conserved (inFlight : List Promise) (l : Life) : Prop :=
  l.reached.Nodup ∧
    l.reached.Perm (l.completed.map Completion.promise ++ l.chained ++ inFlight)

variable {l : Life} {h s : ServiceId} {p : Promise} {fl : List Promise}

lemma mem_heads : h ∈ l.heads ↔ h ∈ l.services ∧ l.cluster h = h := by simp [heads]

lemma nodup_heads (hl : l.IsTree) : l.heads.Nodup := hl.nodup.filter _

/-! ### Completing -/

/-- Complete all promises of a cluster. -/
def complete (l : Life) (h : ServiceId) (outcome : Outcome) : Life :=
  { l with
    promise := Function.update l.promise h []
    completed := l.completed ++ (l.promise h).map fun p =>
      ⟨p, outcome, (l.phase h).isRunning, l.running h⟩ }

/-- Set the target of a cluster. -/
def setTarget (l : Life) (h : ServiceId) (target : Target) : Life :=
  { l with target := Function.update l.target h target }

lemma flatMap_update_nil {hs : List ServiceId} (f : ServiceId → List Promise)
    (hnodup : hs.Nodup) (hmem : h ∈ hs) :
    (f h ++ hs.flatMap (Function.update f h [])).Perm (hs.flatMap f) := by
  have hperm := List.perm_cons_erase hmem
  have herase : (hs.erase h).flatMap (Function.update f h []) = (hs.erase h).flatMap f := by
    refine List.flatMap_congr fun x hx => ?_
    rw [Function.update_of_ne ((hnodup.mem_erase_iff).1 hx).1]
  refine ((hperm.flatMap_right _).append_left _).trans ?_
  simpa [herase] using (hperm.flatMap_right f).symm

lemma Conserved.complete (hc : l.Conserved fl) (ht : l.IsTree) (hh : h ∈ l.heads)
    (outcome : Outcome) : (l.complete h outcome).Conserved fl := by
  refine ⟨hc.1, hc.2.trans ?_⟩
  have hflat := flatMap_update_nil l.promise (nodup_heads ht) hh
  have hmap : ((l.promise h).map fun p => (⟨p, outcome, (l.phase h).isRunning, l.running h⟩ :
      Completion)).map Completion.promise = l.promise h := by
    simp [Function.comp_def]
  simp only [Life.complete, chained, List.map_append, hmap]
  refine List.Perm.append_right _ ?_
  rw [List.append_assoc]
  exact hflat.symm.append_left _

/-- Promises that are cancelled promise nothing. -/
lemma Resolved.cancel (hl : l.Resolved) : (l.complete h .canceled).Resolved where
  start_target g hg p hp hk := by
    by_cases hgh : g = h
    · simp [complete, hgh] at hp
    · exact hl.start_target g hg p (by simpa [complete, hgh] using hp) hk
  stop_target g hg p hp hk := by
    by_cases hgh : g = h
    · simp [complete, hgh] at hp
    · exact hl.stop_target g hg p (by simpa [complete, hgh] using hp) hk
  start_value c hc := by
    rcases List.mem_append.1 hc with hc | hc
    · exact hl.start_value c hc
    · obtain ⟨p, -, rfl⟩ := List.mem_map.1 hc
      simp
  stop_value c hc := by
    rcases List.mem_append.1 hc with hc | hc
    · exact hl.stop_value c hc
    · obtain ⟨p, -, rfl⟩ := List.mem_map.1 hc
      simp

/-- Without promises of a request, the target may change. -/
lemma Resolved.setTarget (hl : l.Resolved) (hp : ∀ p ∈ l.promise h, p.kind = .observe)
    (target : Target) : (l.setTarget h target).Resolved where
  start_target g hg p hpg hk := by
    by_cases hgh : g = h
    · simp [hp p (hgh ▸ hpg)] at hk
    · simpa [Life.setTarget, hgh] using hl.start_target g hg p hpg hk
  stop_target g hg p hpg hk := by
    by_cases hgh : g = h
    · simp [hp p (hgh ▸ hpg)] at hk
    · simpa [Life.setTarget, hgh] using hl.stop_target g hg p hpg hk
  start_value := hl.start_value
  stop_value := hl.stop_value

/-- A resolved promise of a request has the target of its cluster. -/
lemma Resolved.resolve (hl : l.Resolved) (hh : h ∈ l.heads)
    (hstart : l.target h = .start → (l.phase h).isRunning = true)
    (hstop : l.target h = .stop → l.running h = 0) : (l.complete h .value).Resolved where
  start_target := hl.cancel.start_target
  stop_target := hl.cancel.stop_target
  start_value c hc := by
    rcases List.mem_append.1 hc with hc | hc
    · exact hl.start_value c hc
    · obtain ⟨p, hp, rfl⟩ := List.mem_map.1 hc
      exact fun _ hk => hstart (hl.start_target h hh p hp hk)
  stop_value c hc := by
    rcases List.mem_append.1 hc with hc | hc
    · exact hl.stop_value c hc
    · obtain ⟨p, hp, rfl⟩ := List.mem_map.1 hc
      exact fun _ hk => hstop (hl.stop_target h hh p hp hk)

/-! ### Targets -/

/-- `transition_target_set` -/
def transitionTargetSet (l : Life) (h : ServiceId) (target : Target) : Life :=
  if l.target h = target then l
  else if l.target h = .none then l.setTarget h target
  else (l.complete h .canceled).setTarget h target

/-- `transition_target_complete_if` -/
def transitionTargetCompleteIf (l : Life) (h : ServiceId) (target : Target) : Life :=
  if l.target h = target then (l.complete h .value).setTarget h .none else l

lemma Resolved.observe (hl : l.Resolved) (hh : h ∈ l.heads) (ht : l.target h = .none) :
    ∀ p ∈ l.promise h, p.kind = .observe := by
  intro p hp
  cases hk : p.kind with
  | start => simp [hl.start_target h hh p hp hk] at ht
  | stop => simp [hl.stop_target h hh p hp hk] at ht
  | observe => rfl

lemma Resolved.transitionTargetSet (hl : l.Resolved) (hh : h ∈ l.heads) (target : Target) :
    (l.transitionTargetSet h target).Resolved := by
  unfold Life.transitionTargetSet
  split
  · exact hl
  · split
    · rename_i ht
      exact hl.setTarget (hl.observe hh ht) target
    · exact hl.cancel.setTarget (by simp [complete]) target

lemma Resolved.transitionTargetCompleteIf (hl : l.Resolved) (hh : h ∈ l.heads) (target : Target)
    (hstart : target = .start → (l.phase h).isRunning = true)
    (hstop : target = .stop → l.running h = 0) :
    (l.transitionTargetCompleteIf h target).Resolved := by
  unfold Life.transitionTargetCompleteIf
  split
  · rename_i ht
    refine (hl.resolve hh (fun h' => hstart (ht ▸ h')) (fun h' => hstop (ht ▸ h'))).setTarget ?_ _
    simp [complete]
  · exact hl

lemma Conserved.transitionTargetSet (hc : l.Conserved fl) (ht : l.IsTree) (hh : h ∈ l.heads)
    (target : Target) : (l.transitionTargetSet h target).Conserved fl := by
  unfold Life.transitionTargetSet
  split
  · exact hc
  · split
    · exact hc
    · exact hc.complete ht hh .canceled

lemma Conserved.transitionTargetCompleteIf (hc : l.Conserved fl) (ht : l.IsTree)
    (hh : h ∈ l.heads) (target : Target) :
    (l.transitionTargetCompleteIf h target).Conserved fl := by
  unfold Life.transitionTargetCompleteIf
  split
  · exact hc.complete ht hh .value
  · exact hc

@[simp] lemma transitionTargetSet_toPhases (l : Life) (h : ServiceId) (target : Target) :
    (l.transitionTargetSet h target).toPhases = l.toPhases := by
  unfold transitionTargetSet
  split
  · rfl
  · split <;> rfl

@[simp] lemma transitionTargetCompleteIf_toPhases (l : Life) (h : ServiceId) (target : Target) :
    (l.transitionTargetCompleteIf h target).toPhases = l.toPhases := by
  unfold transitionTargetCompleteIf
  split <;> rfl

@[simp] lemma transitionTargetSet_target (l : Life) (h : ServiceId) (target : Target) :
    (l.transitionTargetSet h target).target h = target := by
  unfold transitionTargetSet
  split
  · assumption
  · split <;> simp [setTarget]

/-- Resetting the target cancels everything that is chained for it. -/
lemma transitionTargetSet_none_promise (hp : l.target h = .none → l.promise h = []) :
    (l.transitionTargetSet h .none).promise h = [] := by
  unfold transitionTargetSet
  split
  · rename_i htarget
    exact hp htarget
  · simp [complete, setTarget]

/-! ### Chaining -/

/-- `chain_promise` -/
def chain (l : Life) (h : ServiceId) (p : Promise) : Life :=
  { l with promise := Function.update l.promise h (l.promise h ++ [p]) }

lemma Resolved.chain (hl : l.Resolved) (hstart : p.kind = .start → l.target h = .start)
    (hstop : p.kind = .stop → l.target h = .stop) : (l.chain h p).Resolved where
  start_target g hg q hq hk := by
    by_cases hgh : g = h
    · subst hgh
      have hq : q ∈ l.promise g ∨ q = p := by simpa [Life.chain] using hq
      rcases hq with hq | rfl
      · exact hl.start_target g hg q hq hk
      · exact hstart hk
    · exact hl.start_target g hg q (by simpa [Life.chain, hgh] using hq) hk
  stop_target g hg q hq hk := by
    by_cases hgh : g = h
    · subst hgh
      have hq : q ∈ l.promise g ∨ q = p := by simpa [Life.chain] using hq
      rcases hq with hq | rfl
      · exact hl.stop_target g hg q hq hk
      · exact hstop hk
    · exact hl.stop_target g hg q (by simpa [Life.chain, hgh] using hq) hk
  start_value := hl.start_value
  stop_value := hl.stop_value

/-- The handler hands its promise over to the cluster. -/
lemma Conserved.chain (hc : l.Conserved [p]) (ht : l.IsTree) (hh : h ∈ l.heads) :
    (l.chain h p).Conserved [] := by
  refine ⟨hc.1, hc.2.trans ?_⟩
  have h₁ := flatMap_update_nil l.promise (nodup_heads ht) hh
  have h₂ := flatMap_update_nil (l.chain h p).promise (nodup_heads ht) hh
  simp only [Life.chain, Function.update_self, Function.update_idem] at h₂
  simp only [Life.chain, chained, heads, List.append_nil, List.append_assoc] at h₁ h₂ ⊢
  refine List.Perm.append_left _ ((h₁.symm.append_right _).trans (List.Perm.trans ?_ h₂))
  rw [List.append_assoc]
  exact List.perm_append_comm.append_left _

/-- The handler completes its promise itself. -/
lemma Conserved.completeNow (hc : l.Conserved [p]) {c : Completion} (hp : c.promise = p) :
    ({ l with completed := l.completed ++ [c] } : Life).Conserved [] := by
  refine ⟨hc.1, hc.2.trans ?_⟩
  simp only [List.map_append, List.map_cons, List.map_nil, hp, List.append_nil, List.append_assoc,
    chained, heads]
  exact List.perm_append_comm.append_left _

lemma Resolved.completeNow (hl : l.Resolved) {c : Completion}
    (hstart : c.outcome = .value → c.promise.kind = .start → c.headRunning = true)
    (hstop : c.outcome = .value → c.promise.kind = .stop → c.running = 0) :
    ({ l with completed := l.completed ++ [c] } : Life).Resolved where
  start_target := hl.start_target
  stop_target := hl.stop_target
  start_value d hd := by
    rcases List.mem_append.1 hd with hd | hd
    · exact hl.start_value d hd
    · exact List.mem_singleton.1 hd ▸ hstart
  stop_value d hd := by
    rcases List.mem_append.1 hd with hd | hd
    · exact hl.stop_value d hd
    · exact List.mem_singleton.1 hd ▸ hstop

/-! ### Services come and go -/

/-- A service enters; a head brings a new cluster without promises. -/
def insert (l : Life) (s : ServiceId) : Life :=
  { l.mapPhases (·.insert s) with
    target := if l.layout.isClusterHead s then Function.update l.target s .none else l.target
    promise := if l.layout.isClusterHead s then Function.update l.promise s [] else l.promise }

/-- The heads after `insert`, and what is chained to them. -/
lemma insert_heads (ht : l.IsTree) (hs : s ∉ l.services)
    (ho : (l.layout.parent s).owner ∈ l.services) :
    (l.insert s).heads = l.heads ++ (if l.layout.isClusterHead s then [s] else []) := by
  have hne : ∀ t ∈ l.services, t ≠ s := fun t ht heq => hs (heq ▸ ht)
  have hold : l.services.filter (fun t => (l.insert s).cluster t = t) = l.heads := by
    refine List.filter_congr fun t ht => ?_
    simp [Life.insert, Life.mapPhases, Phases.insert, hne t ht]
  have hnew : (l.insert s).cluster s = s ↔ l.layout.isClusterHead s = true := by
    have hcl := hne _ (ht.cluster_mem ho).1
    by_cases hm : (l.layout.parent s).isImport = true <;>
      simp [Life.insert, Life.mapPhases, Phases.insert, Layout.isMember, Layout.isClusterHead, hm,
        hcl]
  calc (l.insert s).heads
      = (l.services ++ [s]).filter fun t => (l.insert s).cluster t = t := rfl
    _ = l.heads ++ (if l.layout.isClusterHead s then [s] else []) := by
      rw [List.filter_append, hold]
      by_cases hh : l.layout.isClusterHead s = true
      · simp [hnew.2 hh, hh]
      · simp [mt hnew.1 hh, hh]

lemma insert_promise (hs : s ∉ l.services) (hh : h ∈ l.heads) :
    (l.insert s).promise h = l.promise h ∧ (l.insert s).target h = l.target h := by
  have : h ≠ s := fun heq => hs (heq ▸ (mem_heads.1 hh).1)
  constructor <;> simp only [Life.insert] <;> split <;> simp [this]

lemma Resolved.insert (hl : l.Resolved) (ht : l.IsTree) (hs : s ∉ l.services)
    (ho : (l.layout.parent s).owner ∈ l.services) : (l.insert s).Resolved := by
  have hold : ∀ h ∈ (l.insert s).heads, ∀ p ∈ (l.insert s).promise h,
      h ∈ l.heads ∧ p ∈ l.promise h := by
    intro h hh p hp
    rw [insert_heads ht hs ho] at hh
    rcases List.mem_append.1 hh with hh | hh
    · exact ⟨hh, (insert_promise hs hh).1 ▸ hp⟩
    · split at hh
      · rename_i hhead
        rw [List.mem_singleton.1 hh] at hp
        simp [Life.insert, hhead] at hp
      · simp at hh
  refine ⟨fun h hh p hp hk => ?_, fun h hh p hp hk => ?_, hl.start_value, hl.stop_value⟩
  · obtain ⟨hh, hp⟩ := hold h hh p hp
    exact (insert_promise hs hh).2.trans (hl.start_target h hh p hp hk)
  · obtain ⟨hh, hp⟩ := hold h hh p hp
    exact (insert_promise hs hh).2.trans (hl.stop_target h hh p hp hk)

lemma Conserved.insert (hc : l.Conserved fl) (ht : l.IsTree) (hs : s ∉ l.services)
    (ho : (l.layout.parent s).owner ∈ l.services) : (l.insert s).Conserved fl := by
  have hchained : (l.insert s).chained = l.chained := by
    rw [chained, insert_heads ht hs ho, List.flatMap_append,
      List.flatMap_congr fun h hh => (insert_promise hs hh).1]
    by_cases hh : l.layout.isClusterHead s = true <;> simp [hh, chained, Life.insert]
  refine ⟨hc.1, ?_⟩
  rw [hchained]
  exact hc.2

/-- A service leaves; with a head, everything that is still chained to its cluster is gone. -/
def erase (l : Life) (s : ServiceId) : Life :=
  { l.mapPhases (·.erase s) with
    promise := if l.layout.isClusterHead s then Function.update l.promise s [] else l.promise }

lemma mem_erase_heads (ht : l.IsTree) : h ∈ (l.erase s).heads ↔ h ≠ s ∧ h ∈ l.heads := by
  rw [mem_heads, mem_heads, ← and_assoc]
  exact and_congr_left fun _ => ht.nodup.mem_erase_iff

lemma erase_promise (hh : h ≠ s) : (l.erase s).promise h = l.promise h := by
  simp only [Life.erase]
  split <;> simp [hh]

lemma Resolved.erase (hl : l.Resolved) (ht : l.IsTree) : (l.erase s).Resolved := by
  refine ⟨fun h hh p hp hk => ?_, fun h hh p hp hk => ?_, hl.start_value, hl.stop_value⟩
  · obtain ⟨hne, hh⟩ := (mem_erase_heads ht).1 hh
    exact hl.start_target h hh p (erase_promise hne ▸ hp) hk
  · obtain ⟨hne, hh⟩ := (mem_erase_heads ht).1 hh
    exact hl.stop_target h hh p (erase_promise hne ▸ hp) hk

/-- Nothing is lost when nothing is chained to the cluster of a head. -/
lemma Conserved.erase (hc : l.Conserved fl) (ht : l.IsTree)
    (hs : l.cluster s = s → l.promise s = []) : (l.erase s).Conserved fl := by
  refine ⟨hc.1, hc.2.trans (List.Perm.append_right _ (List.Perm.append_left _ ?_))⟩
  have hheads : (l.erase s).heads = l.heads.erase s := by
    have : (l.services.erase s).filter (fun h => decide (l.cluster h = h)) =
        (l.services.filter fun h => l.cluster h = h).erase s := by
      rw [ht.nodup.erase_eq_filter, (ht.nodup.filter _).erase_eq_filter, List.filter_filter,
        List.filter_filter]
      exact List.filter_congr fun _ _ => Bool.and_comm _ _
    exact this
  have hpromise : (l.heads.erase s).flatMap (l.erase s).promise =
      (l.heads.erase s).flatMap l.promise :=
    List.flatMap_congr fun h hh =>
      erase_promise (((nodup_heads ht).mem_erase_iff).1 hh).1
  rw [chained, chained, hheads, hpromise]
  by_cases hmem : s ∈ l.heads
  · refine ((List.perm_cons_erase hmem).flatMap_right _).trans ?_
    simp [hs (mem_heads.1 hmem).2]
  · rw [List.erase_of_not_mem hmem]

/-! ### Requests -/

/-- A request reaches its handler. -/
lemma Conserved.reach (hc : l.Conserved []) (hp : p ∉ l.reached) :
    ({ l with reached := l.reached ++ [p] } : Life).Conserved [p] := by
  refine ⟨?_, ?_⟩
  · simpa using hc.1.append (List.nodup_singleton p) (by simpa using hp)
  · simpa [chained, heads] using hc.2.append_right [p]

end Life

end Idle
