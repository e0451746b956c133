import Idle.Parts.Passed

/-!
# What a dynamic dependency prefers

The preferred interface is better than the active one, a running one is on offer, and an unlocked
part uses one of the best interfaces there are. The part only ensures the last of these at an unlock
if nothing that it has passed over is better than its choice.
-/

namespace Idle

namespace DynDependency

variable {ι : Type*} [DecidableEq ι] {R : Ranking ι}

/-- What a dynamic dependency prefers. -/
structure Prefers (R : Ranking ι) (interfaces : List ι) (running : ι → Bool) (d : DynDependency ι) :
    Prop where
  greater : ∀ p ∈ d.pref.ptr, ∀ a ∈ d.active.ptr, R.Greater p a
  offered : ∀ p ∈ d.pref.ptr, running p = true → d.pending = true
  best : d.isLocked = false → ∀ a ∈ d.active.ptr, ∀ i ∈ interfaces, ¬R.Greater i a
  nil_of_none : d.isSubscribed = true → d.active.ptr = none → interfaces = []

namespace Prefers

variable {interfaces : List ι} {running : ι → Bool} {d : DynDependency ι} {i : ι}

omit [DecidableEq ι] in
/-- Nothing is preferred. -/
lemma of_none (hp : d.pref.ptr = none)
    (hbest : d.isLocked = false → ∀ a ∈ d.active.ptr, ∀ i ∈ interfaces, ¬R.Greater i a)
    (hnil : d.isSubscribed = true → d.active.ptr = none → interfaces = []) :
    d.Prefers R interfaces running :=
  ⟨by simp [hp], by simp [hp], hbest, hnil⟩

section Order

variable [IsStrictWeakOrder ι R.Greater]

lemma onPartInit (hs : R.Sorted interfaces) (canSwap : Option ι → Option ι → Bool) :
    (DynDependency.onPartInit interfaces canSwap).Prefers R interfaces running := by
  cases h : interfaces.head? with
  | none =>
    have hd : DynDependency.onPartInit interfaces canSwap = setSatisfied ⟨.empty, .empty, false,
        none, false, true, .stopped, 0, canSwap, [], [], [], false⟩ false := by
      simp [DynDependency.onPartInit, h]
    rw [hd]
    exact .of_none rfl (fun _ a ha => absurd ha (Option.not_mem_none a)) fun _ _ =>
      List.head?_eq_none_iff.1 h
  | some front =>
    have hd : DynDependency.onPartInit interfaces canSwap = activate ⟨.empty, .empty, false,
        none, false, true, .stopped, 0, canSwap, [], [], [], false⟩ front := by
      simp [DynDependency.onPartInit, h]
    rw [hd]
    refine .of_none rfl (fun _ a ha j hj => ?_) fun _ hn => absurd hn (Option.some_ne_none front)
    obtain rfl : front = a := Option.some.inj ha
    exact hs.not_greater_front h hj

/-- A new interface is not running yet. -/
lemma onSubscribedCreated (h : d.Prefers R interfaces running) (hw : d.Wired running)
    (hs : d.isSubscribed = true) (hi : running i = false) :
    (d.onSubscribedCreated R i (running i)).Prefers R (R.insertSorted i interfaces) running := by
  have hgt : ∀ {c}, d.current = some c → d.keeps R i = false → R.Greater i c := by
    intro c hc hk
    simpa [keeps, hc, Ranking.Greater] using hk
  -- it is left out of account, or preferred, or used at once
  rcases onSubscribedCreated_cases R i (running i) d with ⟨hk, e⟩ | ⟨hk, hl, hpend, e⟩ | ⟨hk, hl, e⟩
  · rw [e]
    refine ⟨h.greater, h.offered, fun hl a ha j hj => ?_, fun hs hn => ?_⟩
    · rcases Ranking.mem_insertSorted.1 hj with rfl | hj
      · have hk := hk.resolve_right (by simp [hl])
        have hcur : d.current = some a := by simpa [current, hl] using ha
        simpa [keeps, hcur, Ranking.Greater] using hk
      · exact h.best hl a ha j hj
    · rcases hk with hk | hl
      · have hl : d.isLocked = false := by
          by_contra hl
          have := hw.active_of_isLocked (by simpa using hl)
          simp [hn] at this
        simp [keeps, current, hl, hn] at hk
      · have := hw.active_of_isLocked hl
        simp [hn] at this
  · rw [e, hi, if_neg (by simp)]
    refine ⟨fun p hp a ha => ?_, fun p hp hr => ?_, fun hn => absurd (hl.symm.trans hn) (by simp),
      fun _ hn => ?_⟩
    · obtain rfl : i = p := by simpa using hp
      cases hpref : d.pref.ptr with
      | none => exact hgt (by simpa [current, hl, hpref] using ha) hk
      | some q =>
        have hq := h.greater q hpref a ha
        exact (hgt (by simp [current, hl, hpref]) hk).trans hq
    · obtain rfl : i = p := by simpa using hp
      exact absurd (hi.symm.trans hr) (by simp)
    · have := hw.active_of_isLocked hl
      simp [show d.active.ptr = none from hn] at this
  · rw [e]
    refine .of_none (hw.pref_of_unlocked hl) (fun _ a ha j hj hgt' => ?_) fun _ hn =>
      absurd hn (Option.some_ne_none i)
    obtain rfl : i = a := by simpa using ha
    rcases Ranking.mem_insertSorted.1 hj with rfl | hj
    · exact Ranking.Greater.irrefl _ hgt'
    · -- the one given up for `i` was at least as good as `j`
      cases hact : d.active.ptr with
      | none => simp [h.nil_of_none hs hact] at hj
      | some b =>
        have hib := hgt (c := b) (by simp [current, hl, hact]) hk
        exact h.best hl b hact j hj (hgt'.trans hib)

/-- A destroyed interface is no better than what takes its place. -/
lemma destroy (h : d.Prefers R interfaces running) (hw : d.Wired running) (hs : R.Sorted interfaces)
    (i : ι) :
    ((d.usagesOf i).foldl (fun d _ => d.onUsedDestroy (interfaces.erase i)) d).Prefers R
      (interfaces.erase i) running := by
  rw [hw.foldl_onUsedDestroy]
  split_ifs with ha
  · refine .of_none (hw.pref_of_unlocked ha.1) (fun _ a hf j hj => ?_) fun _ hn => ?_
    · exact (hs.erase i).not_greater_front hf hj
    · exact List.head?_eq_none_iff.1 hn
  · exact ⟨h.greater, h.offered, fun hl a ha j hj => h.best hl a ha j (List.mem_of_mem_erase hj),
      fun hsub hn => by simp [h.nil_of_none hsub hn]⟩

end Order

lemma start (h : d.Prefers R interfaces running) (hw : d.Wired running) (hi : running i = false) :
    ((d.usagesOf i).foldl (fun d _ => if d.isLocked then d.onUsedStarted else d) d).Prefers R
      interfaces (Function.update running i true) := by
  rw [hw.foldl_onUsedStarted hi]
  split_ifs with hp
  · exact ⟨h.greater, fun _ _ _ => rfl, h.best, h.nil_of_none⟩
  · refine ⟨h.greater, fun p hp' hr => ?_, h.best, h.nil_of_none⟩
    have hne : p ≠ i := by
      rintro rfl
      exact hp ⟨hw.isLocked_of_pref (by simp [show d.pref.ptr = some p from hp']), hp'⟩
    exact h.offered p hp' (by simpa [hne] using hr)

lemma stop (h : d.Prefers R interfaces running) (i : ι) :
    d.Prefers R interfaces (Function.update running i false) := by
  refine ⟨h.greater, fun p hp hr => ?_, h.best, h.nil_of_none⟩
  by_cases hpi : p = i
  · simp [hpi] at hr
  · exact h.offered p hp (by simpa [hpi] using hr)

/-- What happens to the owner. At an unlock nothing may be better than what has been chosen. -/
lemma own (h : d.Prefers R interfaces running) (hw : d.Wired running) {op : OwnerOp}
    (hpre : d.OwnPre running op)
    (hunlock : op = .unlock → ∀ c ∈ d.current, ∀ i ∈ interfaces, ¬R.Greater i c) :
    (d.own op).Prefers R interfaces running := by
  cases op with
  | destroy =>
    have hp : d.phase = .stopped := hpre.1
    have hw' := hw.own hpre
    have hact : (d.own .destroy).active.ptr = none := hw'.unsubscribed rfl
    exact .of_none (hw'.pref_of_unlocked rfl) (fun _ a ha => by simp [hact] at ha)
      fun hn => by cases hn
  | lock =>
    have hp : d.phase = .stopped := hpre.1
    have hl : d.isLocked = false := by simp [isLocked, hp]
    have hs : d.isSubscribed = true := by simp [isSubscribed, hp, Phase.isInitializedUnsafe]
    exact .of_none (hw.pref_of_unlocked hl) (fun hn => by cases hn) fun _ hn =>
      h.nil_of_none hs hn
  | move p =>
    obtain ⟨⟨hl, hp⟩, -⟩ := hpre
    exact ⟨h.greater, h.offered, fun hn => absurd (hp.symm.trans hn) (by simp), fun _ hn =>
      h.nil_of_none (Phase.isInitializedUnsafe_of_isLocked hl) hn⟩
  | unlock =>
    have hp : d.phase = .pending := hpre.1
    have hl : d.isLocked = true := by simp [isLocked, hp]
    have hcur := hw.current_isSome hl
    rw [show d.own .unlock = _ from hw.unlock_eq hl]
    refine .of_none rfl (fun _ => hunlock rfl) fun _ hn => ?_
    simp [show d.current = none from hn] at hcur

/-- The interface that takes the place of a released one is better than the active one, too, and it
is not running. -/
lemma release (h : d.Prefers R interfaces running) (hw : d.Wired running) {exp : ι}
    (hne : d.active.ptr ≠ some exp ∨ d.pref.ptr ≠ some exp)
    (hnext : d.pending = false → d.pref.ptr = some exp →
      ∀ r ∈ d.reselectPreferred exp interfaces, d.canSwap (some exp) (some r) = true →
        running r = false ∧ ∀ a ∈ d.active.ptr, R.Greater r a) :
    (d.onReleaseRequest interfaces exp).2.Prefers R interfaces running := by
  rcases hw.onReleaseRequest_cases interfaces exp with e | ⟨hpend, hp, hcan, e⟩
  · rw [e]
    exact h
  · have hact : some exp ≠ d.active.ptr := fun e => (hne.resolve_right (fun hn => hn hp)) e.symm
    have hget : d.getNextPreferred interfaces exp = d.reselectPreferred exp interfaces := by
      simp [getNextPreferred, hact]
    rw [e, hget]
    rw [hget] at hcan
    have hnext := hnext hpend hp
    refine ⟨fun r hr a ha => ?_, fun r hr hrun => ?_, h.best, h.nil_of_none⟩
    · exact (hnext r hr (by rw [← show _ = some r from hr]; exact hcan)).2 a ha
    · have := (hnext r hr (by rw [← show _ = some r from hr]; exact hcan)).1
      exact absurd (this.symm.trans hrun) (by simp)

/-! ### Swaps -/

lemma finalize (hl : d.isLocked = true) (ha : d.pref.ptr.isSome = true) :
    (d.finalize interfaces).Prefers R interfaces running := by
  have hd : (d.finalize interfaces).phase = d.phase ∧ (d.finalize interfaces).pref.ptr = none ∧
      (d.finalize interfaces).active.ptr = d.pref.ptr := by
    simp only [DynDependency.finalize]
    split_ifs <;> exact ⟨rfl, rfl, rfl⟩
  refine .of_none hd.2.1 (fun hn => ?_) fun _ hn => ?_
  · rw [isLocked, hd.1] at hn
    exact absurd (hl.symm.trans hn) (by simp)
  · rw [hd.2.2] at hn
    simp [hn] at ha

omit [DecidableEq ι] in
lemma setTasks (h : d.Prefers R interfaces running) {offers actions : List (SwapAction ι)}
    {finalizers : List Nat} {userspace : Option ι} :
    Prefers R interfaces running { d with offers, actions, finalizers, userspace } :=
  ⟨h.greater, h.offered, h.best, h.nil_of_none⟩

omit [DecidableEq ι] in
lemma onSwap (h : d.Prefers R interfaces running) (k : Nat) :
    (d.onSwap k).Prefers R interfaces running := by
  cases hk : d.offers[k]? with
  | none => simpa [DynDependency.onSwap, hk] using h
  | some a =>
    simp only [DynDependency.onSwap, hk]
    split_ifs
    · exact h.setTasks
    · exact h.setTasks

lemma apply (h : d.Prefers R interfaces running) (hw : d.Wired running) (k : Nat)
    (isOnEventLoop : Bool) : (d.apply interfaces k isOnEventLoop).Prefers R interfaces running := by
  cases hk : d.actions[k]? with
  | none => simpa [DynDependency.apply, hk] using h
  | some a =>
    simp only [DynDependency.apply, hk]
    split_ifs with hv
    · have hpend := (hw.pending_of_action hk (Wired.epoch_eq_of_isHandleValid hv)).1
      have hp := hw.pref_of_pending hpend
      exact finalize (hw.isLocked_of_pref hp) hp
    · exact h.setTasks
    · exact h.setTasks

lemma runFinalizer (h : d.Prefers R interfaces running) (hw : d.Wired running) (k : Nat) :
    (d.runFinalizer interfaces k).Prefers R interfaces running := by
  cases hk : d.finalizers[k]? with
  | none => simpa [DynDependency.runFinalizer, hk] using h
  | some e =>
    simp only [DynDependency.runFinalizer, hk]
    split_ifs with hv
    · have hpend := (hw.pending_of_finalizer hk (Wired.epoch_eq_of_isHandleValid hv)).1
      have hp := hw.pref_of_pending hpend
      exact finalize (hw.isLocked_of_pref hp) hp
    · exact h.setTasks

end Prefers

end DynDependency

namespace System

variable {ι : Type*} [DecidableEq ι] {R : Ranking ι} {st : System ι}

/-- When a part is unlocked, nothing that it has passed over and that is still registered is better
than what it has chosen. When it gives up the preferred interface, the one that comes before the
others is the active one, or it has not been started and is not of the same priority. -/
def OverlooksNothing (R : Ranking ι) (s : System ι × (Nat → List ι)) : Op ι → Prop
  | .dynDependency n (.own .unlock) => ∀ d ∈ s.1.dynDependency[n]?, ∀ c ∈ d.current,
      ∀ i ∈ s.2 n, i ∈ s.1.interfaces → R.greater i c = false
  | .dynDependency n (.release exp) => ∀ d ∈ s.1.dynDependency[n]?, d.pending = false →
      d.pref.ptr = some exp → ∀ i ∈ s.1.interfaces, i ≠ exp →
      (∀ j ∈ s.1.interfaces, j ≠ exp → R.greaterPred j i = false) → some i ≠ d.active.ptr →
      d.canSwap (some exp) (some i) = true →
      s.1.running i = false ∧ ∀ a ∈ d.active.ptr, ¬R.Ties i a
  | _ => True

/-- All dynamic dependencies have their preferences right. -/
def AllPrefer (R : Ranking ι) (st : System ι) : Prop :=
  ∀ d ∈ st.dynDependency, d.Prefers R st.interfaces st.running

section Order

variable [IsStrictWeakOrder ι R.Greater]

lemma stepDyn_prefers {hist : Nat → List ι} {n : Nat} {d : DynDependency ι}
    (hd : st.dynDependency[n]? = some d) (h : d.Prefers R st.interfaces st.running)
    (hacc : d.Accounts R st.interfaces (hist n)) (hreg : Registered R st) (hw : d.Wired st.running)
    {op : DynOp ι} (hpre : st.DynPre d op)
    (hcond : OverlooksNothing R (st, hist) (.dynDependency n op)) :
    (st.stepDyn op d).Prefers R st.interfaces st.running := by
  cases op with
  | own op =>
    refine h.own hw hpre fun hop c hc i hi hgt => ?_
    subst hop
    have hf : R.greater i c = false := hcond d hd c hc i (hacc.mem_passed hw hc hi hgt) hi
    exact absurd (hf.symm.trans hgt) (by simp)
  | setCanSwap canSwap => exact ⟨h.greater, h.offered, h.best, h.nil_of_none⟩
  | release exp =>
    have hne : d.active.ptr ≠ some exp ∨ d.pref.ptr ≠ some exp := by
      by_contra hboth
      obtain ⟨ha, hp⟩ := not_or.1 hboth
      exact Ranking.Greater.irrefl exp (h.greater exp (not_not.1 hp) exp (not_not.1 ha))
    refine h.release hw hne fun hpend hp r hr hcan => ?_
    have hs : R.Sorted (st.interfaces.filter fun i => i ≠ exp) := List.Pairwise.filter _ hreg.sorted
    obtain ⟨hfront, hract⟩ :=
      Option.filter_eq_some_iff.1 ((d.reselectPreferred_eq ..).symm.trans hr)
    have hmem := List.mem_filter.1 (List.mem_of_mem_head? hfront)
    have hfirst := (hs.head?_eq_iff (List.mem_of_mem_head? hfront)).1 hfront
    obtain ⟨hrun, hties⟩ := hcond d hd hpend hp r hmem.1 (by simpa using hmem.2)
      (fun j hj hne => hfirst j (List.mem_filter.2 ⟨hj, by simpa using hne⟩))
      (by simpa using hract) hcan
    refine ⟨hrun, fun a ha => ?_⟩
    -- the active one is registered, too, and comes later
    have hl := hw.isLocked_of_pref (by simp [hp])
    have hamem : a ∈ st.interfaces := (hreg.mem_iff a).2 (hreg.alive a (hw.active_running hl a ha))
    have haexp : a ≠ exp := by
      rintro rfl
      exact hne.elim (fun h => h ha) fun h => h hp
    have hra : a ≠ r := by
      rintro rfl
      exact of_decide_eq_true hract ha.symm
    have hbefore := hs.greaterPred_front hfront
      (List.mem_filter.2 ⟨hamem, by simpa using haexp⟩) hra
    obtain ⟨-, hgt | ⟨hn, -⟩⟩ := Ranking.greaterPred_iff.1 hbefore
    · exact hgt
    · by_contra hn'
      exact hties a ha ⟨hn', hn⟩
  | onSwap k => exact h.onSwap k
  | apply k isOnEventLoop => exact h.apply hw k isOnEventLoop
  | runFinalizer k => exact h.runFinalizer hw k

lemma AllPrefer.step {hist : Nat → List ι} (h : AllPrefer R st) (hacc : AllAccount R st hist)
    (hreg : Registered R st) (hw : st.AllWired) {op : Op ι} (hpre : Pre R st op)
    (hcond : OverlooksNothing R (st, hist) op) : AllPrefer R (st.step R op) := by
  cases op with
  | create i =>
    have hi : st.running i = false := by
      by_contra hr
      have := hreg.alive i (by simpa using hr)
      simp [hpre.1] at this
    intro d' hd'
    obtain ⟨d, hd, rfl⟩ := List.mem_map.1 hd'
    split_ifs with hs
    · exact (h d hd).onSubscribedCreated (hw d hd) hs hi
    · -- who is not subscribed is not locked either and uses nothing
      have hact := (hw d hd).unsubscribed (by simpa using hs)
      have hl : d.isLocked = false := by
        by_contra hl
        exact hs (Phase.isInitializedUnsafe_of_isLocked
            (by simpa [DynDependency.isLocked] using hl))
      exact .of_none ((hw d hd).pref_of_unlocked hl) (fun _ a ha => by simp [hact] at ha)
        fun hn => absurd hn hs
  | destroy i =>
    intro d' hd'
    obtain ⟨d, hd, rfl⟩ := List.mem_map.1 hd'
    exact (h d hd).destroy (hw d hd) hreg.sorted i
  | start i =>
    intro d' hd'
    obtain ⟨d, hd, rfl⟩ := List.mem_map.1 hd'
    exact (h d hd).start (hw d hd) hpre.2
  | stop i => exact fun d hd => (h d hd).stop i
  | addDynDependency canSwap =>
    intro d hd
    rcases List.mem_append.1 hd with hd | hd
    · exact h d hd
    · obtain rfl := List.mem_singleton.1 hd
      exact .onPartInit hreg.sorted _
  | dynDependency n op =>
    intro d' hd'
    rcases mem_modify hd' with hd | ⟨d, hd, rfl⟩
    · exact h d' hd
    · -- at an unlock nothing that was passed over is better, by `OverlooksNothing`
      obtain ⟨d₁, hd₁, hdyn⟩ := hpre
      obtain rfl : d = d₁ := by simpa [hd] using hd₁
      have hm := List.mem_of_getElem? hd
      exact stepDyn_prefers hd (h d hm) (hacc n d hd) hreg (hw d hm) hdyn hcond
  | unlocked | addDependency | dependency | addDynDependencies | dynDependencies => exact h

end Order

instance (R : Ranking ι) (s : System ι × (Nat → List ι)) :
    (op : Op ι) → Decidable (OverlooksNothing R s op)
  | .dynDependency n (.own .unlock) => inferInstanceAs (Decidable
      (∀ d ∈ s.1.dynDependency[n]?, ∀ c ∈ d.current, ∀ i ∈ s.2 n, i ∈ s.1.interfaces →
        R.greater i c = false))
  | .dynDependency n (.release exp) => inferInstanceAs (Decidable
      (∀ d ∈ s.1.dynDependency[n]?, d.pending = false → d.pref.ptr = some exp →
        ∀ i ∈ s.1.interfaces, i ≠ exp →
        (∀ j ∈ s.1.interfaces, j ≠ exp → R.greaterPred j i = false) → some i ≠ d.active.ptr →
        d.canSwap (some exp) (some i) = true →
        s.1.running i = false ∧ ∀ a ∈ d.active.ptr, ¬R.Ties i a))
  | .dynDependency _ (.own .destroy) | .dynDependency _ (.own .lock)
  | .dynDependency _ (.own (.move _)) | .dynDependency _ (.setCanSwap _)
  | .dynDependency _ (.onSwap _) | .dynDependency _ (.apply _ _)
  | .dynDependency _ (.runFinalizer _) | .create _ | .destroy _ | .start _ | .stop _ | .unlocked _
  | .addDependency | .dependency _ _ | .addDynDependency _ | .addDynDependencies _
  | .dynDependencies _ _ => .isTrue trivial

end System

end Idle
