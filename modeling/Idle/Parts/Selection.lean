import Idle.Parts.System

/-!
# Dependencies point to the best provider

Every dependency follows its registry as long as its owner is not locked, whatever happens to the
interfaces and to the other parts.
-/

namespace Idle

namespace Dependency

variable {ι : Type*} [DecidableEq ι] {R : Ranking ι}

/-- What is known of a dependency in every state of a run. -/
structure Sound (R : Ranking ι) (interfaces : List ι) (running : ι → Bool) (d : Dependency ι) :
    Prop where
  follows : d.isSubscribed = true → Follows R interfaces d
  running : d.isLocked = true → ∀ i ∈ d.ref.ptr, running i = true
  empty : d.isSubscribed = false → d.ref = .empty

namespace Sound

variable {interfaces : List ι} {running : ι → Bool} {d : Dependency ι} {i : ι}

omit [DecidableEq ι] in
lemma connected_eq (h : Sound R interfaces running d) : d.ref.connected = d.ref.ptr := by
  by_cases hs : d.isSubscribed = true
  · exact (h.follows hs).connected
  · simp [h.empty (by simpa using hs)]

omit [DecidableEq ι] in
lemma isSubscribed_of_connected (h : Sound R interfaces running d) (hi : d.ref.connected = some i) :
    d.isSubscribed = true := by
  by_contra hs
  simp [h.empty (by simpa using hs)] at hi

lemma onPartInit [IsStrictWeakOrder ι R.Greater] (hs : R.Sorted interfaces) :
    Sound R interfaces running (Dependency.onPartInit interfaces) := by
  have hp : (Dependency.onPartInit interfaces).phase = .stopped := by
    cases h : interfaces.head? <;> simp [Dependency.onPartInit, h, setSatisfied, select]
  refine ⟨fun _ => .onPartInit hs, fun hl => ?_, fun hn => ?_⟩
  · simp [isLocked, hp] at hl
  · simp [isSubscribed, hp, Phase.isInitializedUnsafe] at hn

omit [DecidableEq ι] in
lemma onSubscribedCreated_phase (d : Dependency ι) (i : ι) :
    (d.onSubscribedCreated R i).phase = d.phase := by
  simp only [Dependency.onSubscribedCreated]
  split_ifs <;> rfl

lemma onSubscribedCreated [IsStrictWeakOrder ι R.Greater] (h : Sound R interfaces running d)
    (hs : d.isSubscribed = true) :
    Sound R (R.insertSorted i interfaces) running (d.onSubscribedCreated R i) := by
  have hp := onSubscribedCreated_phase (R := R) d i
  refine ⟨fun _ => (h.follows hs).onSubscribedCreated i, fun hl => ?_, fun hn => ?_⟩
  · have hl : d.isLocked = true := by rwa [isLocked, hp] at hl
    rw [onSubscribedCreated_of_isLocked R hl i]
    exact h.running hl
  · rw [isSubscribed, hp] at hn
    exact absurd (hs.symm.trans hn) (by simp)

omit [DecidableEq ι] in
lemma insertSorted (h : Sound R interfaces running d) (hs : d.isSubscribed = false) (l : List ι) :
    Sound R l running d :=
  ⟨fun hn => absurd (hs.symm.trans hn) (by simp), h.running, h.empty⟩

/-- A locked dependency does not lose its interface, which is running. -/
lemma onUsedDestroy [IsStrictWeakOrder ι R.Greater] (h : Sound R interfaces running d)
    (hsort : R.Sorted interfaces) (hi : d.ref.connected = some i) (hr : running i = false) :
    Sound R (interfaces.erase i) running (d.onUsedDestroy (interfaces.erase i)) := by
  have hs := h.isSubscribed_of_connected hi
  have hl : d.isLocked = false := by
    by_contra hl
    have := h.running (by simpa using hl) i (h.connected_eq ▸ hi)
    simp [hr] at this
  have hp : (d.onUsedDestroy (interfaces.erase i)).phase = d.phase := by
    cases hh : (interfaces.erase i).head? <;>
      simp [Dependency.onUsedDestroy, hh, setSatisfied, select, disconnect]
  refine ⟨fun _ => .onUsedDestroy hl (hsort.erase i), fun hn => ?_, fun hn => ?_⟩
  · rw [isLocked, hp] at hn
    exact absurd (hl.symm.trans hn) (by simp)
  · rw [isSubscribed, hp] at hn
    exact absurd (hs.symm.trans hn) (by simp)

lemma erase (h : Sound R interfaces running d) (hi : d.ref.connected ≠ some i) :
    Sound R (interfaces.erase i) running d :=
  ⟨fun hs => (h.follows hs).erase (h.connected_eq ▸ hi), h.running, h.empty⟩

lemma setRunning (h : Sound R interfaces running d) (b : Bool)
    (hi : b = false → d.isLocked = true → d.ref.connected ≠ some i) :
    Sound R interfaces (Function.update running i b) d := by
  refine ⟨h.follows, fun hl j hj => ?_, h.empty⟩
  by_cases hji : j = i
  · subst hji
    cases b with
    | true => simp
    | false => exact absurd (h.connected_eq.trans hj) (hi rfl hl)
  · simpa [hji] using h.running hl j hj

omit [DecidableEq ι] in
lemma setLocked (h : Sound R interfaces running d) (hs : d.isSubscribed = true)
    (hsome : d.ref.ptr.isSome = true) (hrun : ∀ i ∈ d.ref.ptr, running i = true) {p : Phase}
    (hp : p.isLocked = true) : Sound R interfaces running { d with phase := p } :=
  ⟨fun _ => (h.follows hs).setPhase hsome hp, fun _ => hrun, fun hn =>
    absurd ((Phase.isInitializedUnsafe_of_isLocked hp).symm.trans hn) (by simp)⟩

/-- What happens to the owner. -/
lemma own [IsStrictWeakOrder ι R.Greater] (h : Sound R interfaces running d)
    (hsort : R.Sorted interfaces) {op : OwnerOp} (hpre : d.OwnPre running op) :
    Sound R interfaces running (d.own R interfaces op) := by
  cases op with
  | destroy =>
    refine ⟨fun hn => ?_, fun hn => ?_, fun _ => ?_⟩
    · simp [Dependency.own, isSubscribed, Phase.isInitializedUnsafe] at hn
    · exact absurd hn
        (by simp [Dependency.own, isLocked, Phase.isLocked, Phase.isBetween, Phase.index])
    · have hc := h.connected_eq
      cases hr : d.ref with
      | mk ptr connected =>
        cases ptr <;> simp_all [Dependency.own, onPartDestroy, Link.disconnect, Link.reset,
            Link.empty]
  | lock =>
    obtain ⟨hp, hsat, hrun⟩ := hpre
    have hs : d.isSubscribed = true := by
      rw [isSubscribed, show d.phase = .stopped from hp]
      rfl
    have hf := h.follows hs
    exact h.setLocked hs (hf.satisfied.symm.trans hsat) (h.connected_eq ▸ hrun) rfl
  | move p =>
    obtain ⟨⟨hl, hp⟩, -⟩ := hpre
    have hs : d.isSubscribed = true := Phase.isInitializedUnsafe_of_isLocked hl
    exact h.setLocked hs ((h.follows hs).isSome_of_isLocked hl) (h.running hl) hp
  | unlock =>
    obtain ⟨hp, -⟩ := hpre
    have hl : d.isLocked = true := by
      rw [isLocked, show d.phase = .pending from hp]
      rfl
    have hs : d.isSubscribed = true := Phase.isInitializedUnsafe_of_isLocked hl
    refine ⟨fun _ => (h.follows hs).onImportUnlock hl hsort, fun hn => ?_, fun hn => ?_⟩
    · simp [Dependency.own, isLocked] at hn
    · simp [Dependency.own, isSubscribed, Phase.isInitializedUnsafe] at hn

end Sound

end Dependency

namespace System

variable {ι : Type*} [DecidableEq ι] {R : Ranking ι} {st : System ι}

/-- All dependencies are sound. -/
def DependenciesSound (R : Ranking ι) (st : System ι) : Prop :=
  ∀ d ∈ st.dependency, d.Sound R st.interfaces st.running

section Step

variable [IsStrictWeakOrder ι R.Greater]

lemma DependenciesSound.step (h : DependenciesSound R st) (hreg : Registered R st) {op : Op ι}
    (hpre : Pre R st op) : DependenciesSound R (st.step R op) := by
  cases op with
  | create i =>
    intro d' hd'
    obtain ⟨d, hd, rfl⟩ := List.mem_map.1 hd'
    by_cases hs : d.isSubscribed = true
    · rw [if_pos hs]
      exact (h d hd).onSubscribedCreated hs
    · rw [if_neg hs]
      exact (h d hd).insertSorted (by simpa using hs) _
  | destroy i =>
    intro d' hd'
    obtain ⟨d, hd, rfl⟩ := List.mem_map.1 hd'
    by_cases hi : d.ref.connected = some i
    · rw [if_pos hi]
      exact (h d hd).onUsedDestroy hreg.sorted hi hpre.2
    · rw [if_neg hi]
      exact (h d hd).erase hi
  | start i => exact fun d hd => (h d hd).setRunning true fun hn => by cases hn
  | stop i => exact fun d hd => (h d hd).setRunning false fun _ hl => hpre.2.1 d hd hl
  | addDependency =>
    intro d hd
    rcases List.mem_append.1 hd with hd | hd
    · exact h d hd
    · obtain rfl := List.mem_singleton.1 hd
      exact .onPartInit hreg.sorted
  | dependency n op =>
    intro d' hd'
    rcases mem_modify hd' with hd | ⟨d, hd, rfl⟩
    · exact h d' hd
    · obtain ⟨d₁, hd₁, hown⟩ := hpre
      obtain rfl : d = d₁ := by simpa [hd] using hd₁
      exact (h d (List.mem_of_getElem? hd)).own hreg.sorted hown
  | unlocked | addDynDependency | dynDependency | addDynDependencies | dynDependencies => exact h

lemma DependenciesSound.of_reachable {cond : System ι → Op ι → Prop}
    (h : (machine R).Reachable cond st) : DependenciesSound R st :=
  h.invariant (fun _ hst => by rw [show _ = empty from hst]; exact fun d hd => nomatch hd)
    fun _ _ hr hd hpre _ => hd.step (.of_reachable hr) hpre.2

end Step

/-- While its owner is locked, no step changes what a dependency points to. -/
lemma step_ref_of_isLocked {op : Op ι} (hpre : Pre R st op) {n : Nat} {d d' : Dependency ι}
    (hs : d.Sound R st.interfaces st.running) (hd : st.dependency[n]? = some d)
    (hd' : (st.step R op).dependency[n]? = some d') (hl : d.isLocked = true)
    (hl' : d'.isLocked = true) : d'.ref.ptr = d.ref.ptr := by
  cases op with
  | create i =>
    simp only [System.step, onInterfaceCreate, List.getElem?_map, hd, Option.map_some,
      Option.some.injEq] at hd'
    rw [← hd', Dependency.onSubscribedCreated_of_isLocked R hl]
    simp
  | destroy i =>
    simp only [System.step, onInterfaceDestroy, List.getElem?_map, hd, Option.map_some,
      Option.some.injEq] at hd'
    -- what a locked part uses is running, so it is not what ends
    have hi : d.ref.connected ≠ some i := by
      intro hi
      have := hs.running hl i (hs.connected_eq ▸ hi)
      simp [hpre.2] at this
    rw [← hd', if_neg hi]
  | addDependency =>
    have hn : n < st.dependency.length := (List.getElem?_eq_some_iff.1 hd).1
    simp only [System.step, List.getElem?_append_left hn, hd, Option.some.injEq] at hd'
    rw [hd']
  | dependency m op =>
    simp only [System.step, List.getElem?_modify] at hd'
    by_cases hm : m = n
    · -- the other steps of the owner do not leave it locked before and after
      subst hm
      simp only [if_true, hd, Option.map_eq_map, Option.map_some, Option.some.injEq] at hd'
      obtain ⟨d₁, hd₁, hown, -⟩ := hpre
      obtain rfl : d = d₁ := by simpa [hd] using hd₁
      cases op with
      | destroy =>
        rw [← hd'] at hl'
        exact absurd hl' (by simp [Dependency.own, Dependency.isLocked, Phase.isLocked,
          Phase.isBetween, Phase.index])
      | lock =>
        rw [Dependency.isLocked, show d.phase = .stopped from hown] at hl
        simp at hl
      | move p => rw [← hd']; rfl
      | unlock =>
        rw [← hd'] at hl'
        simp [Dependency.own, Dependency.isLocked] at hl'
    · obtain rfl : d = d' := by simpa [hm, hd] using hd'
      rfl
  | start | stop | unlocked | addDynDependency | dynDependency | addDynDependencies
  | dynDependencies =>
    obtain rfl : d = d' := Option.some.inj (hd.symm.trans hd')
    rfl

/-- The registry holds the published interfaces in their order. An unlocked dependency points to
one of the highest priority among them, and a locked one keeps to what it points to. -/
theorem dependency_follows [IsStrictWeakOrder ι R.Greater]
    (h : (machine R).Reachable (fun _ _ => True) st) :
    ((∀ i, i ∈ st.interfaces ↔ st.alive i = true) ∧
      st.interfaces.Pairwise fun i j => R.greaterPred i j = true) ∧
    (∀ d ∈ st.dependency, d.isSubscribed = true → d.isLocked = false →
      (d.ref.ptr = none ∧ d.satisfied = false ↔ st.interfaces = []) ∧
      (st.interfaces ≠ [] → ∃ ref ∈ st.interfaces, d.ref.ptr = some ref ∧
        d.ref.connected = some ref ∧ d.satisfied = true ∧
        ∀ i ∈ st.interfaces, R.greater i ref = false)) ∧
    ∀ op, Pre R st op → ∀ (n : Nat) (d d' : Dependency ι), st.dependency[n]? = some d →
      (st.step R op).dependency[n]? = some d' → d.isLocked = true → d'.isLocked = true →
      d'.ref.ptr = d.ref.ptr := by
  have hreg := Registered.of_reachable h
  have hdep := DependenciesSound.of_reachable h
  refine ⟨⟨hreg.mem_iff, hreg.sorted⟩, fun d hd hs hl => ?_, fun op hpre n d d' hd hd' hl hl' =>
    step_ref_of_isLocked hpre (hdep d (List.mem_of_getElem? hd)) hd hd' hl hl'⟩
  have hf := (hdep d hd).follows hs
  refine ⟨⟨fun hn => hf.nil_of_none hn.1, fun hnil => ?_⟩, fun hne => ?_⟩
  · have hn : d.ref.ptr = none := by
      cases hr : d.ref.ptr with
      | none => rfl
      | some ref => simpa [hnil] using hf.registered ref hr
    exact ⟨hn, by rw [hf.satisfied, hn]; rfl⟩
  · cases hr : d.ref.ptr with
    | none => exact absurd (hf.nil_of_none hr) hne
    | some ref =>
      refine ⟨ref, hf.registered ref hr, rfl, hf.connected.trans hr, ?_, fun i hi => ?_⟩
      · rw [hf.satisfied, hr]
        rfl
      · simpa [Ranking.Greater] using hf.best hl ref hr i hi

/-- A better interface is published while the owner of the dependency is locked. -/
def overtakenRun : List (Op Nat) :=
  [.create 1, .start 1, .addDependency, .dependency 0 .lock, .dependency 0 (.move .running),
    .create 2, .dependency 0 (.move .pending), .dependency 0 .unlock]

theorem dependency_follows_overtakenRun :
    let st := overtakenRun.foldl (machine .byNumber).step empty
    st.interfaces = [2, 1] ∧ st.dependency.length = 1 ∧
      ∀ d ∈ st.dependency, d.isSubscribed = true → d.isLocked = false →
        ∃ ref ∈ st.interfaces, d.ref.connected = some ref ∧
          ∀ i ∈ st.interfaces, Ranking.byNumber.greater i ref = false := by
  have hreach : (machine .byNumber).Reachable (fun _ _ => True)
      (overtakenRun.foldl (machine .byNumber).step empty) :=
    .run (.init rfl) (by decide)
  refine ⟨by decide, by decide, fun d hd hs hl => ?_⟩
  obtain ⟨-, hdep, -⟩ := dependency_follows hreach
  obtain ⟨ref, hm, -, hc, -, hbest⟩ := (hdep d hd hs hl).2 (by decide)
  exact ⟨ref, hm, hc, hbest⟩

end System

end Idle
