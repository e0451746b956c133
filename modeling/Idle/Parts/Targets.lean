import Idle.Parts.Release

/-!
# The targets of swaps

A posted swap of the present epoch leads to the interface that is preferred, since nothing else is
preferred until it is done.
-/

namespace Idle

namespace DynDependency

variable {ι : Type*} {running : ι → Bool} {interfaces : List ι} {d : DynDependency ι} {i exp : ι}

/-- The offers of the present epoch lead to the preferred interface. -/
def Aimed (d : DynDependency ι) : Prop :=
  ∀ a ∈ d.offers, a.epoch = d.epoch → a.target = d.pref.ptr

lemma Wired.epoch_ne_of_liveTasks (hlive : d.liveTasks = 0) {a : SwapAction ι}
    (ha : a ∈ d.offers) : a.epoch ≠ d.epoch := by
  simp only [liveTasks, Nat.add_eq_zero_iff, List.countP_eq_zero] at hlive
  simpa using hlive.1.1 a ha

lemma Wired.liveTasks_eq_zero (h : d.Wired running) (hpend : d.pending = false) :
    d.liveTasks = 0 := by
  simpa [hpend] using h.liveTasks_le

namespace Aimed

/-- Without a live task any interface may be preferred. -/
lemma of_liveTasks (hlive : d.liveTasks = 0) {d' : DynDependency ι} (ho : d'.offers = d.offers)
    (he : d'.epoch = d.epoch) : d'.Aimed := by
  intro a ha hepoch
  rw [ho] at ha
  exact absurd (hepoch.trans he) (Wired.epoch_ne_of_liveTasks hlive ha)

lemma offerSwap (h : d.Aimed) : d.offerSwap.Aimed := by
  intro a ha hepoch
  rcases List.mem_append.1 ha with ha | ha
  · exact h a ha hepoch
  · obtain rfl := List.mem_singleton.1 ha
    rfl

lemma onSubscribedCreated (h : d.Aimed) (hw : d.Wired running) (R : Ranking ι) (isRunning : Bool) :
    (d.onSubscribedCreated R i isRunning).Aimed := by
  rcases onSubscribedCreated_cases R i isRunning d with ⟨-, e⟩ | ⟨-, -, hpend, e⟩ | ⟨-, -, e⟩
  · rw [e]
    exact h
  · have hlive := hw.liveTasks_eq_zero hpend
    rw [e]
    split_ifs
    · exact offerSwap (of_liveTasks hlive rfl rfl)
    · exact of_liveTasks hlive rfl rfl
  · rw [e]
    exact h

variable [DecidableEq ι]

lemma destroy (h : d.Aimed) (hw : d.Wired running) (interfaces : List ι) :
    ((d.usagesOf i).foldl (fun d _ => d.onUsedDestroy interfaces) d).Aimed := by
  rw [hw.foldl_onUsedDestroy]
  split_ifs <;> exact h

lemma start (h : d.Aimed) (hw : d.Wired running) (hi : running i = false) :
    ((d.usagesOf i).foldl (fun d _ => if d.isLocked then d.onUsedStarted else d) d).Aimed := by
  rw [hw.foldl_onUsedStarted hi]
  split_ifs
  · exact h.offerSwap
  · exact h

omit [DecidableEq ι] in
lemma own (h : d.Aimed) (hw : d.Wired running) {op : OwnerOp} (hpre : d.OwnPre running op) :
    (d.own op).Aimed := by
  cases op with
  | destroy =>
    intro a ha hepoch
    simp only [DynDependency.own, DynDependency.onPartDestroy] at ha hepoch ⊢
    split_ifs at ha hepoch ⊢ <;> exact h a ha hepoch
  | lock | move => exact h
  | unlock =>
    have hl : d.isLocked = true := by simp [isLocked, show d.phase = .pending from hpre.1]
    rw [show d.own .unlock = _ from hw.unlock_eq hl]
    intro a ha hepoch
    exact absurd hepoch (Nat.lt_succ_of_le (hw.epoch_le.1 a ha)).ne

lemma release (h : d.Aimed) (hw : d.Wired running) (exp : ι) :
    (d.onReleaseRequest interfaces exp).2.Aimed := by
  rcases hw.onReleaseRequest_cases interfaces exp with e | ⟨hpend, -, -, e⟩
  · rw [e]
    exact h
  · rw [e]
    exact of_liveTasks (hw.liveTasks_eq_zero hpend) rfl rfl

omit [DecidableEq ι] in
lemma onSwap (h : d.Aimed) (k : Nat) : (d.onSwap k).Aimed := by
  have herase : Aimed { d with offers := d.offers.eraseIdx k } :=
    fun a ha => h a (List.mem_of_mem_eraseIdx ha)
  unfold DynDependency.onSwap
  split
  · exact h
  · simp only
    split_ifs <;> exact herase

lemma finalize (hlive : d.liveTasks = 0) : (d.finalize interfaces).Aimed := by
  refine of_liveTasks hlive ?_ ?_
  · simp only [DynDependency.finalize]
    split_ifs <;> rfl
  · simp only [DynDependency.finalize]
    split_ifs <;> rfl

lemma apply (h : d.Aimed) (hw : d.Wired running) (k : Nat) (isOnEventLoop : Bool) :
    (d.apply interfaces k isOnEventLoop).Aimed := by
  cases hk : d.actions[k]? with
  | none => simpa [DynDependency.apply, hk] using h
  | some a =>
    simp only [DynDependency.apply, hk]
    split_ifs with hv
    · exact finalize (hw.pending_of_action hk (Wired.epoch_eq_of_isHandleValid hv)).2
    · exact h
    · exact h

lemma runFinalizer (h : d.Aimed) (hw : d.Wired running) (k : Nat) :
    (d.runFinalizer interfaces k).Aimed := by
  cases hk : d.finalizers[k]? with
  | none => simpa [DynDependency.runFinalizer, hk] using h
  | some e =>
    simp only [DynDependency.runFinalizer, hk]
    split_ifs with hv
    · exact finalize (hw.pending_of_finalizer hk (Wired.epoch_eq_of_isHandleValid hv)).2
    · exact h

end Aimed

/-! ### What is preferred -/

/-- Only a new interface that `canSwap` agrees to becomes preferred. -/
lemma onSubscribedCreated_pref (R : Ranking ι) (i : ι) (isRunning : Bool) (d : DynDependency ι) :
    (d.onSubscribedCreated R i isRunning).pref.ptr = d.pref.ptr ∨
    ((d.onSubscribedCreated R i isRunning).pref.ptr = some i ∧ d.isLocked = true ∧
      d.pending = false ∧ d.canSwap d.active.ptr (some i) = true) := by
  rcases onSubscribedCreated_cases R i isRunning d with ⟨-, e⟩ | ⟨hk, hl, hpend, e⟩ | ⟨-, -, e⟩
  · exact .inl (by rw [e])
  · by_cases hcan : d.canSwap d.active.ptr (some i) = true
    · refine .inr ⟨?_, hl, hpend, hcan⟩
      rw [e]
      split_ifs <;> rfl
    · exact .inl (by simp [onSubscribedCreated, hk, hl, hpend, hcan])
  · exact .inl (by rw [e])

section Events

variable [DecidableEq ι]

lemma reselectPreferred_mem {r : ι} (h : d.reselectPreferred exp interfaces = some r) :
    r ∈ interfaces := by
  induction interfaces with
  | nil => cases h
  | cons available rest ih =>
    simp only [reselectPreferred] at h
    split_ifs at h
    · exact List.mem_cons_of_mem _ (ih h)
    · obtain rfl := Option.some.inj h
      exact List.mem_cons_self

lemma finalize_pref (interfaces : List ι) (d : DynDependency ι) :
    (d.finalize interfaces).pref.ptr = none := by
  simp only [DynDependency.finalize]
  split_ifs <;> rfl

omit [DecidableEq ι] in
lemma onSwap_pref (k : Nat) (d : DynDependency ι) : (d.onSwap k).pref.ptr = d.pref.ptr := by
  unfold onSwap
  split
  · rfl
  · simp only
    split_ifs <;> rfl

lemma apply_pref (interfaces : List ι) (k : Nat) (isOnEventLoop : Bool) (d : DynDependency ι) :
    (d.apply interfaces k isOnEventLoop).pref.ptr = none ∨
      (d.apply interfaces k isOnEventLoop).pref.ptr = d.pref.ptr := by
  unfold apply
  split
  · exact .inr rfl
  · simp only
    split_ifs
    · exact .inl (finalize_pref _ _)
    · exact .inr rfl
    · exact .inr rfl

lemma runFinalizer_pref (interfaces : List ι) (k : Nat) (d : DynDependency ι) :
    (d.runFinalizer interfaces k).pref.ptr = none ∨
      (d.runFinalizer interfaces k).pref.ptr = d.pref.ptr := by
  unfold runFinalizer
  split
  · exact .inr rfl
  · simp only
    split_ifs
    · exact .inl (finalize_pref _ _)
    · exact .inr rfl

lemma Wired.own_pref (h : d.Wired running) {op : OwnerOp} (hpre : d.OwnPre running op) :
    (d.own op).pref.ptr = none ∨ (d.own op).pref.ptr = d.pref.ptr := by
  cases op with
  | destroy => exact .inl ((h.own hpre).pref_of_unlocked rfl)
  | lock | move => exact .inr rfl
  | unlock => exact .inl ((h.own hpre).pref_of_unlocked rfl)

/-- A released interface is only replaced by one that `canSwap` agrees to. -/
lemma Wired.release_pref (h : d.Wired running) (hne : d.Apart) (interfaces : List ι) (exp : ι) :
    (d.onReleaseRequest interfaces exp).2.pref.ptr = d.pref.ptr ∨
    ∃ next, (d.onReleaseRequest interfaces exp).2.pref.ptr = next ∧ d.pref.ptr = some exp ∧
      d.canSwap (some exp) next = true ∧ ∀ r ∈ next, r ∈ interfaces := by
  rcases h.onReleaseRequest_cases interfaces exp with e | ⟨-, hp, hcan, e⟩
  · exact .inl (by rw [e])
  · refine .inr ⟨d.getNextPreferred interfaces exp, by rw [e], hp, hcan, fun r hr => ?_⟩
    have hact : some exp ≠ d.active.ptr := (hne exp hp).symm
    have hnext : d.getNextPreferred interfaces exp = d.reselectPreferred exp interfaces :=
      if_neg hact
    rw [hnext] at hr
    exact reselectPreferred_mem hr

end Events

end DynDependency

namespace System

variable {ι : Type*} [DecidableEq ι] {R : Ranking ι} {st : System ι}

lemma aimed_of_reachable [IsStrictWeakOrder ι R.Greater] {cond : System ι → Op ι → Prop}
    (h : (machine R).Reachable cond st) : ∀ d ∈ st.dynDependency, d.Aimed := by
  refine forall_of_reachable h (fun interfaces canSwap => ?_)
    (fun hw _ hd => hd.onSubscribedCreated hw R _) (fun interfaces hw hd => hd.destroy hw _)
    (fun hw hi hd => hd.start hw hi) fun {st d op} hw hpre hd => ?_
  · intro a ha
    simp only [DynDependency.onPartInit] at ha
    split at ha <;> cases ha
  · cases op with
    | own op => exact hd.own hw hpre
    | setCanSwap canSwap => exact hd
    | release exp => exact hd.release hw exp
    | onSwap k => exact hd.onSwap k
    | apply k isOnEventLoop => exact hd.apply hw k isOnEventLoop
    | runFinalizer k => exact hd.runFinalizer hw k

/-- What an operation can do to the preferred interface of a part: nothing, drop it, or prefer
another one that `canSwap` agrees to. -/
theorem pref_step [IsStrictWeakOrder ι R.Greater] {cond : System ι → Op ι → Prop}
    (h : (machine R).Reachable cond st) {op : Op ι} (hpre : Pre R st op) {n : ℕ}
    {d' : DynDependency ι} (hd' : (st.step R op).dynDependency[n]? = some d') :
    d'.pref.ptr = none ∨ ∃ d, st.dynDependency[n]? = some d ∧
      (d'.pref.ptr = d.pref.ptr ∨
      (∃ i, op = .create i ∧ d'.pref.ptr = some i ∧ d.isLocked = true ∧ d.pending = false ∧
        d.canSwap d.active.ptr (some i) = true) ∨
      ∃ exp, d.pref.ptr = some exp ∧ d.canSwap (some exp) d'.pref.ptr = true ∧
        ∀ r ∈ d'.pref.ptr, r ∈ st.interfaces) := by
  have hw := AllWired.of_reachable h
  cases op with
  -- only a publication, a release and the end of a swap have to do with what is preferred
  | create i =>
    have hd' : (st.dynDependency.map fun d =>
        if d.isSubscribed then d.onSubscribedCreated R i (st.running i) else d)[n]? = some d' := hd'
    rw [List.getElem?_map] at hd'
    obtain ⟨d, hd, rfl⟩ := Option.map_eq_some_iff.1 hd'
    refine .inr ⟨d, hd, ?_⟩
    split_ifs
    · rcases DynDependency.onSubscribedCreated_pref R i (st.running i) d with e | ⟨e, hrest⟩
      · exact .inl e
      · exact .inr (.inl ⟨i, rfl, e, hrest⟩)
    · exact .inl rfl
  | destroy i =>
    have hd' : (st.dynDependency.map fun d => (d.usagesOf i).foldl
        (fun d _ => d.onUsedDestroy (st.interfaces.erase i)) d)[n]? = some d' := hd'
    rw [List.getElem?_map] at hd'
    obtain ⟨d, hd, rfl⟩ := Option.map_eq_some_iff.1 hd'
    refine .inr ⟨d, hd, .inl ?_⟩
    rw [(hw d (List.mem_of_getElem? hd)).foldl_onUsedDestroy]
    split_ifs <;> rfl
  | start i =>
    have hd' : (st.dynDependency.map fun d => (d.usagesOf i).foldl
        (fun d _ => if d.isLocked then d.onUsedStarted else d) d)[n]? = some d' := hd'
    rw [List.getElem?_map] at hd'
    obtain ⟨d, hd, rfl⟩ := Option.map_eq_some_iff.1 hd'
    refine .inr ⟨d, hd, .inl ?_⟩
    rw [(hw d (List.mem_of_getElem? hd)).foldl_onUsedStarted hpre.2]
    split_ifs <;> rfl
  | addDynDependency canSwap =>
    have hd' : (st.dynDependency ++ [.onPartInit st.interfaces canSwap])[n]? = some d' := hd'
    rw [List.getElem?_append] at hd'
    split_ifs at hd'
    · exact .inr ⟨d', hd', .inl rfl⟩
    · obtain rfl := List.mem_singleton.1 (List.mem_of_getElem? hd')
      refine .inl ?_
      simp only [DynDependency.onPartInit]
      split <;> rfl
  | dynDependency m op =>
    have hd' : (st.dynDependency.modify m (st.stepDyn op))[n]? = some d' := hd'
    rw [List.getElem?_modify] at hd'
    obtain ⟨d, hd, rfl⟩ := Option.map_eq_some_iff.1 hd'
    split_ifs with hmn
    · -- most operations of the part keep the preference or drop it
      subst hmn
      obtain ⟨d₁, hd₁, hdyn⟩ := hpre
      obtain rfl : d = d₁ := by simpa [hd] using hd₁
      have hm := List.mem_of_getElem? hd
      have hkeep : ∀ {p : Option ι}, p = none ∨ p = d.pref.ptr → p = none ∨
          ∃ d₁, st.dynDependency[m]? = some d₁ ∧ p = d₁.pref.ptr := by
        rintro p (hp | hp)
        · exact .inl hp
        · exact .inr ⟨d, hd, hp⟩
      cases op with
      | own op =>
        rcases hkeep ((hw d hm).own_pref hdyn) with hp | ⟨d₁, hd₁, hp⟩
        · exact .inl hp
        · exact .inr ⟨d₁, hd₁, .inl hp⟩
      | setCanSwap canSwap => exact .inr ⟨d, hd, .inl rfl⟩
      | release exp =>
        refine .inr ⟨d, hd, ?_⟩
        rcases (hw d hm).release_pref (apart_of_reachable h d hm) st.interfaces exp with
          e | ⟨next, e, hrest⟩
        · exact .inl e
        · exact .inr (.inr ⟨exp, e ▸ hrest⟩)
      | onSwap k => exact .inr ⟨d, hd, .inl (d.onSwap_pref k)⟩
      | apply k isOnEventLoop =>
        rcases hkeep (d.apply_pref st.interfaces k isOnEventLoop) with hp | ⟨d₁, hd₁, hp⟩
        · exact .inl hp
        · exact .inr ⟨d₁, hd₁, .inl hp⟩
      | runFinalizer k =>
        rcases hkeep (d.runFinalizer_pref st.interfaces k) with hp | ⟨d₁, hd₁, hp⟩
        · exact .inl hp
        · exact .inr ⟨d₁, hd₁, .inl hp⟩
    · exact .inr ⟨d, hd, .inl rfl⟩
  | stop | unlocked | addDependency | dependency | addDynDependencies | dynDependencies =>
    exact .inr ⟨d', hd', .inl rfl⟩

end System

end Idle
