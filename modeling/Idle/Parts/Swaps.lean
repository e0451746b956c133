import Idle.Parts.System

/-!
# Swaps of dynamic dependencies

The two usages, the pending flag and the tasks of a `DynDependency` belong together in every state
of a run: an offer is in flight only while a swap is pending, and there is only one of them in an
epoch.
-/

namespace Idle

namespace DynDependency

variable {ι : Type*}

/-- What `onSubscribedCreated` can do: nothing, prefer the new interface, or use it at once. -/
lemma onSubscribedCreated_cases (R : Ranking ι) (i : ι) (isRunning : Bool) (d : DynDependency ι) :
    ((d.keeps R i = true ∨ d.isLocked = true) ∧ d.onSubscribedCreated R i isRunning = d) ∨
    (d.keeps R i = false ∧ d.isLocked = true ∧ d.pending = false ∧
      d.onSubscribedCreated R i isRunning =
        if isRunning then offerSwap { d with pref := ⟨some i, some i⟩, chained := true }
        else { d with pref := ⟨some i, some i⟩, chained := true }) ∨
    (d.keeps R i = false ∧ d.isLocked = false ∧
      d.onSubscribedCreated R i isRunning =
        { d with active := ⟨some i, some i⟩, satisfied := true }) := by
  by_cases hk : d.keeps R i = true
  · exact .inl ⟨.inl hk, by simp [onSubscribedCreated, hk]⟩
  · have hk : d.keeps R i = false := by simpa using hk
    by_cases hl : d.isLocked = true
    · by_cases hpend : d.pending = true
      · exact .inl ⟨.inr hl, by simp [onSubscribedCreated, hk, hl, hpend]⟩
      · have hpend : d.pending = false := by simpa using hpend
        by_cases hcan : d.canSwap d.active.ptr (some i) = true
        · refine .inr (.inl ⟨hk, hl, hpend, ?_⟩)
          cases hp : d.pref.ptr <;>
            simp [onSubscribedCreated, hk, hl, hpend, hcan, hp, dropPref, Link.set, Link.connect]
        · exact .inl ⟨.inr hl, by simp [onSubscribedCreated, hk, hl, hpend, hcan]⟩
    · have hl : d.isLocked = false := by simpa using hl
      refine .inr (.inr ⟨hk, hl, ?_⟩)
      cases ha : d.active.ptr <;>
        simp [onSubscribedCreated, hk, hl, ha, activate, setSatisfied, Link.set, Link.connect]

/-- The tasks and actions whose handle is of the present epoch. -/
def liveTasks (d : DynDependency ι) : Nat :=
  d.offers.countP (·.epoch == d.epoch) + d.actions.countP (·.epoch == d.epoch) +
    d.finalizers.countP (· == d.epoch)

/-- What holds of a dynamic dependency in every state of a run. -/
structure Wired (running : ι → Bool) (d : DynDependency ι) : Prop where
  active_connected : d.active.connected = d.active.ptr
  pref_connected : d.pref.connected = d.pref.ptr
  chained : d.chained = d.pref.ptr.isSome
  isLocked_of_pref : d.pref.ptr.isSome = true → d.isLocked = true
  active_of_isLocked : d.isLocked = true → d.active.ptr.isSome = true
  satisfied : d.isSubscribed = true → d.satisfied = d.active.ptr.isSome
  unsubscribed : d.isSubscribed = false → d.active.ptr = none
  pref_of_pending : d.pending = true → d.pref.ptr.isSome = true
  active_running : d.isLocked = true → ∀ i ∈ d.active.ptr, running i = true
  pref_running : d.pending = true → ∀ i ∈ d.pref.ptr, running i = true
  liveTasks_le : d.liveTasks ≤ if d.pending then 1 else 0
  epoch_le : (∀ a ∈ d.offers, a.epoch ≤ d.epoch) ∧ (∀ a ∈ d.actions, a.epoch ≤ d.epoch) ∧
    ∀ e ∈ d.finalizers, e ≤ d.epoch

namespace Wired

variable {running : ι → Bool} {d : DynDependency ι} {i : ι}

lemma pref_of_unlocked (h : d.Wired running) (hl : d.isLocked = false) : d.pref.ptr = none := by
  by_contra hp
  have := h.isLocked_of_pref (Option.isSome_iff_ne_none.2 hp)
  simp [hl] at this

lemma pending_of_unlocked (h : d.Wired running) (hl : d.isLocked = false) : d.pending = false := by
  by_contra hp
  have := h.isLocked_of_pref (h.pref_of_pending (by simpa using hp))
  simp [hl] at this

lemma onPartInit (interfaces : List ι) (canSwap : Option ι → Option ι → Bool) :
    (DynDependency.onPartInit interfaces canSwap).Wired running := by
  cases h : interfaces.head? with
  | none =>
    constructor <;> simp [DynDependency.onPartInit, h, setSatisfied, isLocked, isSubscribed,
      Phase.isInitializedUnsafe, liveTasks]
  | some front =>
    constructor <;> simp [DynDependency.onPartInit, h, activate, isLocked, isSubscribed,
      Phase.isInitializedUnsafe, liveTasks]

lemma offerSwap (h : d.Wired running) (hpend : d.pending = false) (hp : d.pref.ptr.isSome = true)
    (hrun : ∀ i ∈ d.pref.ptr, running i = true) : d.offerSwap.Wired running where
  active_connected := h.active_connected
  pref_connected := h.pref_connected
  chained := h.chained
  isLocked_of_pref := h.isLocked_of_pref
  active_of_isLocked := h.active_of_isLocked
  satisfied := h.satisfied
  unsubscribed := h.unsubscribed
  pref_of_pending _ := hp
  active_running := h.active_running
  pref_running _ := hrun
  liveTasks_le := by
    have h₀ : d.liveTasks = 0 := by simpa [hpend] using h.liveTasks_le
    have h₁ : d.offerSwap.liveTasks = d.liveTasks + 1 := by
      simp only [liveTasks, DynDependency.offerSwap, List.countP_append, List.countP_singleton,
        beq_self_eq_true, if_true]
      omega
    rw [h₁, h₀]
    rfl
  epoch_le := by
    obtain ⟨h₁, h₂, h₃⟩ := h.epoch_le
    refine ⟨fun a ha => ?_, h₂, h₃⟩
    rcases List.mem_append.1 ha with ha | ha
    · exact h₁ a ha
    · obtain rfl := List.mem_singleton.1 ha
      exact le_rfl

/-- The preferred usage is set anew while no swap is pending. -/
lemma setPref (h : d.Wired running) (hl : d.isLocked = true) (hpend : d.pending = false)
    (pref : Link ι) (hp : pref.connected = pref.ptr) :
    Wired running { d with pref, chained := pref.ptr.isSome } where
  active_connected := h.active_connected
  pref_connected := hp
  chained := rfl
  isLocked_of_pref _ := hl
  active_of_isLocked := h.active_of_isLocked
  satisfied := h.satisfied
  unsubscribed := h.unsubscribed
  pref_of_pending hn := by simp [hpend] at hn
  active_running := h.active_running
  pref_running hn := by simp [hpend] at hn
  liveTasks_le := h.liveTasks_le
  epoch_le := h.epoch_le

/-- The active usage is set anew while the owner is not locked. -/
lemma setActive (h : d.Wired running) (hl : d.isLocked = false) (hs : d.isSubscribed = true)
    (active : Link ι) (ha : active.connected = active.ptr) :
    Wired running { d with active, satisfied := active.ptr.isSome } where
  active_connected := ha
  pref_connected := h.pref_connected
  chained := h.chained
  isLocked_of_pref := h.isLocked_of_pref
  active_of_isLocked hn := absurd (hl.symm.trans hn) (by simp)
  satisfied _ := rfl
  unsubscribed hn := absurd (hs.symm.trans hn) (by simp)
  pref_of_pending := h.pref_of_pending
  active_running hn := absurd (hl.symm.trans hn) (by simp)
  pref_running := h.pref_running
  liveTasks_le := h.liveTasks_le
  epoch_le := h.epoch_le

lemma onSubscribedCreated (h : d.Wired running) (hs : d.isSubscribed = true) (R : Ranking ι)
    (i : ι) :
    (d.onSubscribedCreated R i (running i)).Wired running := by
  rcases onSubscribedCreated_cases R i (running i) d with ⟨-, e⟩ | ⟨-, hl, hpend, e⟩ | ⟨-, hl, e⟩
  · rw [e]
    exact h
  · have hset := h.setPref hl hpend ⟨some i, some i⟩ rfl
    rw [e]
    split_ifs with hrun
    · exact hset.offerSwap hpend rfl (by simpa using hrun)
    · exact hset
  · rw [e]
    exact h.setActive hl hs ⟨some i, some i⟩ rfl

section Usages

variable [DecidableEq ι]

lemma setRunning (h : d.Wired running) (b : Bool)
    (hi : b = false → d.isLocked = true → d.usagesOf i = []) :
    d.Wired (Function.update running i b) := by
  have hne : b = false → d.isLocked = true → d.active.ptr ≠ some i ∧ d.pref.ptr ≠ some i := by
    intro hb hl
    have := hi hb hl
    rw [← h.active_connected, ← h.pref_connected]
    simpa [usagesOf] using this
  refine { h with active_running := fun hl j hj => ?_, pref_running := fun hp j hj => ?_ }
  · by_cases hji : j = i
    · subst hji
      cases b with
      | true => simp
      | false => exact absurd hj (hne rfl hl).1
    · simpa [hji] using h.active_running hl j hj
  · by_cases hji : j = i
    · subst hji
      cases b with
      | true => simp
      | false => exact absurd hj (hne rfl (h.isLocked_of_pref (h.pref_of_pending hp))).2
    · simpa [hji] using h.pref_running hp j hj

/-- The start of an interface reaches a locked part through its preferred usage only. -/
lemma foldl_onUsedStarted (h : d.Wired running) (hi : running i = false) :
    (d.usagesOf i).foldl (fun d _ => if d.isLocked then d.onUsedStarted else d) d =
      if d.isLocked ∧ d.pref.ptr = some i then d.offerSwap else d := by
  by_cases hl : d.isLocked = true
  · have ha : d.active.connected ≠ some i := by
      rw [h.active_connected]
      intro ha
      have := h.active_running hl i ha
      simp [hi] at this
    by_cases hp : d.pref.ptr = some i
    · have hp' := h.pref_connected.trans hp
      simp [usagesOf, ha, hp', hl, hp, onUsedStarted]
    · have hp' : d.pref.connected ≠ some i := h.pref_connected ▸ hp
      simp [usagesOf, ha, hp', hp]
  · have hfix : ∀ l : List (Link ι),
        l.foldl (fun d _ => if d.isLocked then d.onUsedStarted else d) d = d := by
      intro l
      induction l with
      | nil => rfl
      | cons a l ih => simpa [hl] using ih
    rw [hfix, if_neg (by simp [hl])]

lemma start (h : d.Wired running) (hi : running i = false) :
    ((d.usagesOf i).foldl (fun d _ => if d.isLocked then d.onUsedStarted else d) d).Wired
      (Function.update running i true) := by
  have h' := h.setRunning (i := i) true (fun hn => by cases hn)
  rw [h.foldl_onUsedStarted hi]
  split_ifs with hp
  · have hpend : d.pending = false := by
      by_contra hn
      have := h.pref_running (by simpa using hn) i hp.2
      simp [hi] at this
    refine h'.offerSwap hpend (by simp [hp.2]) fun j hj => ?_
    obtain rfl : i = j := by simpa [hp.2] using hj
    simp
  · exact h'

/-- The end of an interface reaches an unlocked part through its active usage only; a locked part
does not react. -/
lemma foldl_onUsedDestroy (h : d.Wired running) (interfaces : List ι) :
    (d.usagesOf i).foldl (fun d _ => d.onUsedDestroy interfaces) d =
      if d.isLocked = false ∧ d.active.ptr = some i then
        { d with
          active := ⟨interfaces.head?, interfaces.head?⟩
          satisfied := interfaces.head?.isSome }
      else d := by
  by_cases hl : d.isLocked = true
  · have hfix : ∀ l : List (Link ι), l.foldl (fun d _ => d.onUsedDestroy interfaces) d = d := by
      intro l
      induction l with
      | nil => rfl
      | cons a l ih => simpa [onUsedDestroy, hl] using ih
    rw [hfix, if_neg (by simp [hl])]
  · have hl : d.isLocked = false := by simpa using hl
    have hp : d.pref.connected ≠ some i := by
      rw [h.pref_connected, h.pref_of_unlocked hl]
      simp
    by_cases ha : d.active.ptr = some i
    · have ha' := h.active_connected.trans ha
      have hsat : d.satisfied = true := by
        have hs : d.isSubscribed = true := by
          by_contra hn
          simp [h.unsubscribed (by simpa using hn)] at ha
        simp [h.satisfied hs, ha]
      rw [if_pos ⟨hl, ha⟩]
      cases hf : interfaces.head? with
      | none =>
        simp [usagesOf, ha', hp, onUsedDestroy, hl, hf, setSatisfied, Link.disconnect, Link.reset]
      | some front =>
        simp [usagesOf, ha', hp, onUsedDestroy, hl, hf, activate, Link.set, Link.connect, hsat]
    · have ha' : d.active.connected ≠ some i := h.active_connected ▸ ha
      simp [usagesOf, ha', hp, ha]

lemma destroy (h : d.Wired running) (interfaces : List ι) :
    ((d.usagesOf i).foldl (fun d _ => d.onUsedDestroy interfaces) d).Wired running := by
  rw [h.foldl_onUsedDestroy]
  split_ifs with ha
  · have hs : d.isSubscribed = true := by
      by_contra hn
      simp [h.unsubscribed (by simpa using hn)] at ha
    exact h.setActive ha.1 hs ⟨interfaces.head?, interfaces.head?⟩ rfl
  · exact h

end Usages

/-! ### The owner -/

lemma setPhase (h : d.Wired running) {p : Phase} (hp : p.isLocked = true)
    (hs : d.isSubscribed = true) (ha : d.active.ptr.isSome = true)
    (hrun : ∀ i ∈ d.active.ptr, running i = true) (userspace : Option ι) :
    Wired running { d with phase := p, userspace } where
  active_connected := h.active_connected
  pref_connected := h.pref_connected
  chained := h.chained
  isLocked_of_pref _ := hp
  active_of_isLocked _ := ha
  satisfied _ := h.satisfied hs
  unsubscribed hn := absurd ((Phase.isInitializedUnsafe_of_isLocked hp).symm.trans hn) (by simp)
  pref_of_pending := h.pref_of_pending
  active_running _ := hrun
  pref_running := h.pref_running
  liveTasks_le := h.liveTasks_le
  epoch_le := h.epoch_le

lemma onPartDestroy (h : d.Wired running) (hl : d.isLocked = false) :
    Wired running { d.onPartDestroy with phase := .destroyed } := by
  have hp := h.pref_of_unlocked hl
  have hpend := h.pending_of_unlocked hl
  have e : d.onPartDestroy = { d with active := ⟨none, none⟩ } := by
    cases ha : d.active.ptr with
    | none =>
      rw [← Link.eq_mk h.active_connected ha]
      simp [DynDependency.onPartDestroy, ha]
    | some i => simp [DynDependency.onPartDestroy, ha, Link.disconnect, Link.reset]
  rw [e]
  exact
    { active_connected := rfl
      pref_connected := h.pref_connected
      chained := h.chained
      isLocked_of_pref := fun hn => by simp [hp] at hn
      active_of_isLocked := fun hn => by cases hn
      satisfied := fun hn => by cases hn
      unsubscribed := fun _ => rfl
      pref_of_pending := h.pref_of_pending
      active_running := fun hn => by cases hn
      pref_running := h.pref_running
      liveTasks_le := h.liveTasks_le
      epoch_le := h.epoch_le }

/-- What an unlock leaves: the preferred interface if there is one. -/
lemma unlock_eq (h : d.Wired running) (hl : d.isLocked = true) :
    ({ DynDependency.onImportUnlock { d with epoch := d.epoch + 1 } with phase := .stopped } :
      DynDependency ι) =
    { d with
      active := ⟨d.current, d.current⟩, pref := ⟨none, none⟩, chained := false, userspace := none
      pending := false, phase := .stopped, epoch := d.epoch + 1 } := by
  cases hp : d.pref.ptr with
  | none =>
    rw [show d.current = d.active.ptr by simp [current, hp], ← Link.eq_mk h.active_connected rfl,
      ← Link.eq_mk h.pref_connected hp]
    simp [DynDependency.onImportUnlock, store, hp, h.chained]
  | some p =>
    simp [DynDependency.onImportUnlock, store, promote, dropPref, hp, current, hl, Link.disconnect,
      Link.connect, Link.reset]

lemma current_isSome (h : d.Wired running) (hl : d.isLocked = true) : d.current.isSome = true := by
  simp only [current, hl, Bool.true_and]
  split_ifs with hp
  · exact hp
  · exact h.active_of_isLocked hl

/-- No task of the epoch that ends survives it. -/
lemma onImportUnlock (h : d.Wired running) (hl : d.isLocked = true) :
    Wired running
      { DynDependency.onImportUnlock { d with epoch := d.epoch + 1 } with phase := .stopped } := by
  have hs : d.isSubscribed = true := Phase.isInitializedUnsafe_of_isLocked hl
  obtain ⟨h₁, h₂, h₃⟩ := h.epoch_le
  rw [h.unlock_eq hl]
  refine
    { active_connected := rfl
      pref_connected := rfl
      chained := rfl
      isLocked_of_pref := fun hn => by cases hn
      active_of_isLocked := fun hn => by cases hn
      satisfied := fun _ => ?_
      unsubscribed := fun hn => by cases hn
      pref_of_pending := fun hn => by cases hn
      active_running := fun hn => by cases hn
      pref_running := fun hn => by cases hn
      liveTasks_le := ?_
      epoch_le := ⟨fun a ha => (h₁ a ha).trans (Nat.le_succ _),
        fun a ha => (h₂ a ha).trans (Nat.le_succ _), fun e he => (h₃ e he).trans (Nat.le_succ _)⟩ }
  · exact (h.satisfied hs).trans ((h.active_of_isLocked hl).trans (h.current_isSome hl).symm)
  · have h₁' : d.offers.countP (·.epoch == d.epoch + 1) = 0 :=
      List.countP_eq_zero.2 fun a ha => by simpa using (Nat.lt_succ_of_le (h₁ a ha)).ne
    have h₂' : d.actions.countP (·.epoch == d.epoch + 1) = 0 :=
      List.countP_eq_zero.2 fun a ha => by simpa using (Nat.lt_succ_of_le (h₂ a ha)).ne
    have h₃' : d.finalizers.countP (· == d.epoch + 1) = 0 :=
      List.countP_eq_zero.2 fun e he => by simpa using (Nat.lt_succ_of_le (h₃ e he)).ne
    simp only [liveTasks, h₁', h₂', h₃']
    exact Nat.zero_le _

/-- What happens to the owner. -/
lemma own [DecidableEq ι] (h : d.Wired running) {op : OwnerOp} (hpre : d.OwnPre running op) :
    (d.own op).Wired running := by
  cases op with
  | destroy =>
    have hp : d.phase = .stopped := hpre.1
    exact h.onPartDestroy (by simp [isLocked, hp])
  | lock =>
    obtain ⟨hp, hsat, hrun⟩ := hpre
    have hp : d.phase = .stopped := hp
    have hs : d.isSubscribed = true := by simp [isSubscribed, hp, Phase.isInitializedUnsafe]
    rw [h.active_connected] at hrun
    exact h.setPhase rfl hs ((h.satisfied hs).symm.trans hsat) hrun d.active.ptr
  | move p =>
    obtain ⟨⟨hl, hp⟩, -⟩ := hpre
    have hs : d.isSubscribed = true := Phase.isInitializedUnsafe_of_isLocked hl
    exact h.setPhase hp hs (h.active_of_isLocked hl) (h.active_running hl) d.userspace
  | unlock =>
    have hp : d.phase = .pending := hpre.1
    exact h.onImportUnlock (by simp [isLocked, hp])

/-! ### Releases and swaps -/

section Tasks

variable [DecidableEq ι] {interfaces : List ι}

/-- A release request does nothing, or it replaces the preferred interface. -/
lemma onReleaseRequest_cases (h : d.Wired running) (interfaces : List ι) (exp : ι) :
    (d.onReleaseRequest interfaces exp).2 = d ∨
    (d.pending = false ∧ d.pref.ptr = some exp ∧
      d.canSwap (some exp) (d.getNextPreferred interfaces exp) = true ∧
      (d.onReleaseRequest interfaces exp).2 =
        { d with
          pref := ⟨d.getNextPreferred interfaces exp, d.getNextPreferred interfaces exp⟩
          chained := (d.getNextPreferred interfaces exp).isSome }) := by
  by_cases hpend : d.pending = true
  · exact .inl (by simp [onReleaseRequest, hpend])
  · by_cases hcan : d.canSwap (some exp) (d.getNextPreferred interfaces exp) = true
    · by_cases hp : d.pref.ptr = some exp
      · refine .inr ⟨by simpa using hpend, hp, hcan, ?_⟩
        have hc : d.chained = true := by simp [h.chained, hp]
        cases hr : d.getNextPreferred interfaces exp <;>
          simp_all [onReleaseRequest, reconnectPreferred, Link.disconnect, Link.set, Link.connect,
            Link.reset]
      · exact .inl (by simp [onReleaseRequest, hpend, hcan, eq_comm, hp])
    · exact .inl (by simp [onReleaseRequest, hpend, hcan])

lemma onReleaseRequest (h : d.Wired running) (exp : ι) :
    (d.onReleaseRequest interfaces exp).2.Wired running := by
  rcases h.onReleaseRequest_cases interfaces exp with e | ⟨hpend, hp, -, e⟩
  · rw [e]
    exact h
  · rw [e]
    exact h.setPref (h.isLocked_of_pref (by simp [hp])) hpend _ rfl

/-- A task or an action is taken from its list. -/
lemma countP_eraseIdx {α : Type*} {l : List α} {k : Nat} {a : α} (hk : l[k]? = some a)
    (p : α → Bool) : l.countP p = (l.eraseIdx k).countP p + if p a then 1 else 0 := by
  obtain ⟨hlt, rfl⟩ := List.getElem?_eq_some_iff.1 hk
  rw [← (List.getElem_cons_eraseIdx_perm hlt).countP_eq p, List.countP_cons]

/-- `finalize` is called for the only task of the epoch. -/
lemma finalize (h : d.Wired running) (hpend : d.pending = true) (hlive : d.liveTasks = 0) :
    (d.finalize interfaces).Wired running := by
  have hp := h.pref_of_pending hpend
  have hl := h.isLocked_of_pref hp
  have hs : d.isSubscribed = true := Phase.isInitializedUnsafe_of_isLocked hl
  have hw : Wired running { d with
      active := ⟨d.pref.ptr, d.pref.ptr⟩, pref := ⟨none, none⟩, chained := false
      pending := false } :=
    { active_connected := rfl
      pref_connected := rfl
      chained := rfl
      isLocked_of_pref := fun _ => hl
      active_of_isLocked := fun _ => hp
      satisfied := fun _ => (h.satisfied hs).trans ((h.active_of_isLocked hl).trans hp.symm)
      unsubscribed := fun hn => absurd (hs.symm.trans hn) (by simp)
      pref_of_pending := fun hn => by cases hn
      active_running := fun _ => h.pref_running hpend
      pref_running := fun hn => by cases hn
      liveTasks_le := hlive.le
      epoch_le := h.epoch_le }
  simp only [DynDependency.finalize]
  split_ifs
  · exact { hw with }
  · exact hw

omit [DecidableEq ι] in
/-- Fewer tasks are as good. -/
lemma setTasks (h : d.Wired running) {offers actions : List (SwapAction ι)} {finalizers : List Nat}
    (hlive : liveTasks { d with offers, actions, finalizers } ≤ d.liveTasks)
    (ho : ∀ a ∈ offers, a.epoch ≤ d.epoch) (ha : ∀ a ∈ actions, a.epoch ≤ d.epoch)
    (hf : ∀ e ∈ finalizers, e ≤ d.epoch) : Wired running { d with offers, actions, finalizers } :=
  { h with liveTasks_le := hlive.trans h.liveTasks_le, epoch_le := ⟨ho, ha, hf⟩ }

omit [DecidableEq ι] in
lemma pending_of_liveTasks (h : d.Wired running) (hlive : 0 < d.liveTasks) :
    d.pending = true ∧ d.liveTasks = 1 := by
  have := h.liveTasks_le
  by_cases hp : d.pending = true
  · simp only [hp, if_true] at this
    exact ⟨hp, by omega⟩
  · simp [hp] at this
    omega

omit [DecidableEq ι] in
lemma epoch_eq_of_isHandleValid {e : Nat} (hv : d.isHandleValid e = true) : e = d.epoch := by
  simp only [isHandleValid, Bool.and_eq_true, beq_iff_eq] at hv
  exact hv.2.symm

omit [DecidableEq ι] in
lemma store (h : d.Wired running) (preferred : Option ι) : (d.store preferred).Wired running :=
  { h with }

omit [DecidableEq ι] in
/-- A valid action is the only live task, and its swap is pending. -/
lemma pending_of_action (h : d.Wired running) {k : Nat} {a : SwapAction ι}
    (hk : d.actions[k]? = some a) (he : a.epoch = d.epoch) :
    d.pending = true ∧ liveTasks { d with actions := d.actions.eraseIdx k } = 0 := by
  have hcount := countP_eraseIdx hk (·.epoch == d.epoch)
  simp only [he, beq_self_eq_true, if_true] at hcount
  obtain ⟨hpend, hlive⟩ := h.pending_of_liveTasks (by simp only [liveTasks]; omega)
  refine ⟨hpend, ?_⟩
  simp only [liveTasks] at hlive ⊢
  omega

omit [DecidableEq ι] in
lemma pending_of_finalizer (h : d.Wired running) {k e : Nat} (hk : d.finalizers[k]? = some e)
    (he : e = d.epoch) :
    d.pending = true ∧ liveTasks { d with finalizers := d.finalizers.eraseIdx k } = 0 := by
  have hcount := countP_eraseIdx hk (· == d.epoch)
  simp only [he, beq_self_eq_true, if_true] at hcount
  obtain ⟨hpend, hlive⟩ := h.pending_of_liveTasks (by simp only [liveTasks]; omega)
  refine ⟨hpend, ?_⟩
  simp only [liveTasks] at hlive ⊢
  omega

omit [DecidableEq ι] in
lemma onSwap (h : d.Wired running) (k : Nat) : (d.onSwap k).Wired running := by
  obtain ⟨h₁, h₂, h₃⟩ := h.epoch_le
  cases hk : d.offers[k]? with
  | none => simpa [DynDependency.onSwap, hk] using h
  | some a =>
    have hcount := countP_eraseIdx hk (·.epoch == d.epoch)
    have ho : ∀ b ∈ d.offers.eraseIdx k, b.epoch ≤ d.epoch :=
      fun b hb => h₁ b (List.mem_of_mem_eraseIdx hb)
    simp only [DynDependency.onSwap, hk]
    split_ifs with hv
    · refine h.setTasks ?_ ho (fun b hb => ?_) h₃
      · simp only [liveTasks, List.countP_append, List.countP_singleton]
        omega
      · rcases List.mem_append.1 hb with hb | hb
        · exact h₂ b hb
        · obtain rfl := List.mem_singleton.1 hb
          exact h₁ b (List.mem_of_getElem? hk)
    · refine h.setTasks ?_ ho h₂ h₃
      simp only [liveTasks]
      omega

lemma apply (h : d.Wired running) (k : Nat) (isOnEventLoop : Bool) :
    (d.apply interfaces k isOnEventLoop).Wired running := by
  obtain ⟨h₁, h₂, h₃⟩ := h.epoch_le
  cases hk : d.actions[k]? with
  | none => simpa [DynDependency.apply, hk] using h
  | some a =>
    have hcount := countP_eraseIdx hk (·.epoch == d.epoch)
    have ha : ∀ b ∈ d.actions.eraseIdx k, b.epoch ≤ d.epoch :=
      fun b hb => h₂ b (List.mem_of_mem_eraseIdx hb)
    have hw : Wired running { d with actions := d.actions.eraseIdx k } := by
      refine h.setTasks ?_ h₁ ha h₃
      simp only [liveTasks]
      omega
    simp only [DynDependency.apply, hk]
    split_ifs with hv hon
    · obtain ⟨hpend, hlive⟩ := h.pending_of_action hk (epoch_eq_of_isHandleValid hv)
      exact (hw.store a.target).finalize hpend hlive
    · have he := epoch_eq_of_isHandleValid hv
      have hf : Wired running { d with
          actions := d.actions.eraseIdx k, finalizers := d.finalizers ++ [a.epoch] } := by
        refine h.setTasks ?_ h₁ ha fun e he' => ?_
        · simp only [liveTasks, List.countP_append, List.countP_singleton, he] at hcount ⊢
          omega
        · rcases List.mem_append.1 he' with he' | he'
          · exact h₃ e he'
          · obtain rfl := List.mem_singleton.1 he'
            exact h₂ a (List.mem_of_getElem? hk)
      exact hf.store a.target
    · exact hw

lemma runFinalizer (h : d.Wired running) (k : Nat) :
    (d.runFinalizer interfaces k).Wired running := by
  obtain ⟨h₁, h₂, h₃⟩ := h.epoch_le
  cases hk : d.finalizers[k]? with
  | none => simpa [DynDependency.runFinalizer, hk] using h
  | some e =>
    have hcount := countP_eraseIdx hk (· == d.epoch)
    have hw : Wired running { d with finalizers := d.finalizers.eraseIdx k } := by
      refine h.setTasks ?_ h₁ h₂ fun e he => h₃ e (List.mem_of_mem_eraseIdx he)
      simp only [liveTasks]
      omega
    simp only [DynDependency.runFinalizer, hk]
    split_ifs with hv
    · obtain ⟨hpend, hlive⟩ := h.pending_of_finalizer hk (epoch_eq_of_isHandleValid hv)
      exact hw.finalize hpend hlive
    · exact hw

end Tasks

end Wired

end DynDependency

namespace System

variable {ι : Type*} [DecidableEq ι] {R : Ranking ι} {st : System ι}

/-- All dynamic dependencies are wired. -/
def AllWired (st : System ι) : Prop := ∀ d ∈ st.dynDependency, d.Wired st.running

lemma stepDyn_wired {d : DynDependency ι} (h : d.Wired st.running) {op : DynOp ι}
    (hpre : st.DynPre d op) : (st.stepDyn op d).Wired st.running := by
  cases op with
  | own op => exact h.own hpre
  | setCanSwap canSwap => exact { h with }
  | release exp => exact h.onReleaseRequest exp
  | onSwap k => exact h.onSwap k
  | apply k isOnEventLoop => exact h.apply k isOnEventLoop
  | runFinalizer k => exact h.runFinalizer k

lemma AllWired.step (h : st.AllWired) {op : Op ι} (hpre : Pre R st op) :
    (st.step R op).AllWired := by
  cases op with
  | create i =>
    intro d' hd'
    obtain ⟨d, hd, rfl⟩ := List.mem_map.1 hd'
    split_ifs with hs
    · exact (h d hd).onSubscribedCreated hs R i
    · exact h d hd
  | destroy i =>
    intro d' hd'
    obtain ⟨d, hd, rfl⟩ := List.mem_map.1 hd'
    exact (h d hd).destroy _
  | start i =>
    intro d' hd'
    obtain ⟨d, hd, rfl⟩ := List.mem_map.1 hd'
    exact (h d hd).start hpre.2
  | stop i => exact fun d hd => (h d hd).setRunning false fun _ hl => hpre.2.2.1 d hd hl
  | addDynDependency canSwap =>
    intro d hd
    rcases List.mem_append.1 hd with hd | hd
    · exact h d hd
    · obtain rfl := List.mem_singleton.1 hd
      exact .onPartInit _ _
  | dynDependency n op =>
    intro d' hd'
    rcases mem_modify hd' with hd | ⟨d, hd, rfl⟩
    · exact h d' hd
    · obtain ⟨d₁, hd₁, hdyn⟩ := hpre
      obtain rfl : d = d₁ := by simpa [hd] using hd₁
      exact stepDyn_wired (h d (List.mem_of_getElem? hd)) hdyn
  | unlocked | addDependency | dependency | addDynDependencies | dynDependencies => exact h

lemma AllWired.of_reachable {cond : System ι → Op ι → Prop} (h : (machine R).Reachable cond st) :
    st.AllWired :=
  h.invariant (fun _ hst => by rw [show _ = empty from hst]; exact fun d hd => nomatch hd)
    fun _ _ _ hd hpre _ => hd.step hpre.2

/-- What the events of a wired part keep holds of every dynamic dependency in a run. -/
theorem forall_of_reachable [IsStrictWeakOrder ι R.Greater] {cond : System ι → Op ι → Prop}
    {Q : DynDependency ι → Prop} (h : (machine R).Reachable cond st)
    (hinit : ∀ interfaces canSwap, Q (.onPartInit interfaces canSwap))
    (hcreate : ∀ {running d i}, d.Wired running → running i = false → Q d →
      Q (d.onSubscribedCreated R i (running i)))
    (hdestroy : ∀ {running : ι → Bool} {d i} interfaces, d.Wired running → Q d →
      Q ((d.usagesOf i).foldl (fun d _ => d.onUsedDestroy interfaces) d))
    (hstart : ∀ {running d i}, d.Wired running → running i = false → Q d →
      Q ((d.usagesOf i).foldl (fun d _ => if d.isLocked then d.onUsedStarted else d) d))
    (hown : ∀ {st : System ι} {d op}, d.Wired st.running → st.DynPre d op → Q d →
      Q (st.stepDyn op d)) : ∀ d ∈ st.dynDependency, Q d := by
  refine h.invariant (P := fun st => ∀ d ∈ st.dynDependency, Q d) (fun _ hst => ?_)
    fun st op hr hall hpre _ => ?_
  · rw [show _ = empty from hst]
    exact fun d hd => nomatch hd
  have hw := AllWired.of_reachable hr
  have hpre : Pre R st op := hpre.2
  -- the part is wired before each event, which is all that the events ask for
  cases op with
  | create i =>
    -- what is published only now cannot be running
    have hi : st.running i = false := by
      by_contra hn
      have halive := (Registered.of_reachable hr).alive i (by simpa using hn)
      exact absurd (hpre.1.symm.trans halive) Bool.false_ne_true
    intro d' hd'
    obtain ⟨d, hd, rfl⟩ := List.mem_map.1 hd'
    split_ifs
    · exact hcreate (hw d hd) hi (hall d hd)
    · exact hall d hd
  | destroy i =>
    intro d' hd'
    obtain ⟨d, hd, rfl⟩ := List.mem_map.1 hd'
    exact hdestroy _ (hw d hd) (hall d hd)
  | start i =>
    intro d' hd'
    obtain ⟨d, hd, rfl⟩ := List.mem_map.1 hd'
    exact hstart (hw d hd) hpre.2 (hall d hd)
  | addDynDependency canSwap =>
    intro d hd
    rcases List.mem_append.1 hd with hd | hd
    · exact hall d hd
    · obtain rfl := List.mem_singleton.1 hd
      exact hinit _ _
  | dynDependency n op =>
    intro d' hd'
    rcases mem_modify hd' with hd | ⟨d, hd, rfl⟩
    · exact hall d' hd
    · obtain ⟨d₁, hd₁, hdyn⟩ := hpre
      obtain rfl : d = d₁ := by simpa [hd] using hd₁
      have hm := List.mem_of_getElem? hd
      exact hown (hw d hm) hdyn (hall d hm)
  | stop | unlocked | addDependency | dependency | addDynDependencies | dynDependencies =>
    exact hall

/-! ### Swaps complete -/

end System

end Idle
