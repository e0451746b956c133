import Idle.Parts.Swaps

/-!
# Releases that are promised

A `DynDependency` answers `ReleaseReply::Later` for its active interface whenever `canSwap` agrees,
also if there is nothing that it could be swapped for. Nothing is posted then and no swap follows.
-/

namespace Idle

namespace DynDependency

variable {ι : Type*} {running : ι → Bool} {interfaces : List ι} {d : DynDependency ι} {i exp : ι}

/-- The two usages are of different interfaces. -/
def Apart (d : DynDependency ι) : Prop := ∀ p ∈ d.pref.ptr, d.active.ptr ≠ some p

namespace Apart

lemma of_none (hp : d.pref.ptr = none) : d.Apart := by
  intro p hpp
  rw [hp] at hpp
  cases hpp

lemma of_unlocked (h : d.Wired running) (hl : d.isLocked = false) : d.Apart :=
  of_none (h.pref_of_unlocked hl)

/-- The new interface is not running, so it is not the active one of a locked part. -/
lemma onSubscribedCreated (h : d.Apart) (hw : d.Wired running) (R : Ranking ι)
    (hi : running i = false) : (d.onSubscribedCreated R i (running i)).Apart := by
  rcases onSubscribedCreated_cases R i (running i) d with ⟨-, e⟩ | ⟨-, hl, -, e⟩ | ⟨-, hl, e⟩
  · rw [e]
    exact h
  · rw [e, hi, if_neg Bool.false_ne_true]
    intro p hp hact
    obtain rfl : i = p := Option.some.inj hp
    exact absurd (hi.symm.trans (hw.active_running hl i hact)) Bool.false_ne_true
  · rw [e]
    exact of_none (hw.pref_of_unlocked hl)

variable [DecidableEq ι]

lemma destroy (h : d.Apart) (hw : d.Wired running) (interfaces : List ι) :
    ((d.usagesOf i).foldl (fun d _ => d.onUsedDestroy interfaces) d).Apart := by
  rw [hw.foldl_onUsedDestroy]
  split_ifs with ha
  · exact of_none (hw.pref_of_unlocked ha.1)
  · exact h

lemma start (h : d.Apart) (hw : d.Wired running) (hi : running i = false) :
    ((d.usagesOf i).foldl (fun d _ => if d.isLocked then d.onUsedStarted else d) d).Apart := by
  rw [hw.foldl_onUsedStarted hi]
  split_ifs <;> exact h

lemma own (h : d.Apart) (hw : d.Wired running) {op : OwnerOp} (hpre : d.OwnPre running op) :
    (d.own op).Apart := by
  cases op with
  | destroy => exact of_unlocked (hw.own hpre) rfl
  | lock | move => exact h
  | unlock => exact of_unlocked (hw.own hpre) rfl

lemma reselectPreferred_ne {r : ι} (h : d.reselectPreferred exp interfaces = some r) :
    d.active.ptr ≠ some r := by
  induction interfaces with
  | nil => cases h
  | cons available rest ih =>
    simp only [reselectPreferred] at h
    split_ifs at h with hexp hact
    · exact ih h
    · obtain rfl := Option.some.inj h
      exact fun e => hact e.symm

/-- The search for a replacement stops at the active interface. -/
lemma release (h : d.Apart) (hw : d.Wired running) (exp : ι) :
    (d.onReleaseRequest interfaces exp).2.Apart := by
  rcases hw.onReleaseRequest_cases interfaces exp with e | ⟨-, hp, -, e⟩
  · rw [e]
    exact h
  · have hact : some exp ≠ d.active.ptr := (h exp hp).symm
    have hnext : d.getNextPreferred interfaces exp = d.reselectPreferred exp interfaces :=
      if_neg hact
    rw [e, hnext]
    exact fun p hp => reselectPreferred_ne (d := d) hp

lemma finalize (interfaces : List ι) (d : DynDependency ι) : (d.finalize interfaces).Apart := by
  refine of_none ?_
  simp only [DynDependency.finalize]
  split_ifs <;> rfl

omit [DecidableEq ι] in
lemma onSwap (h : d.Apart) (k : Nat) : (d.onSwap k).Apart := by
  unfold DynDependency.onSwap
  split
  · exact h
  · simp only
    split_ifs <;> exact h

lemma apply (h : d.Apart) (k : Nat) (isOnEventLoop : Bool) :
    (d.apply interfaces k isOnEventLoop).Apart := by
  unfold DynDependency.apply
  split
  · exact h
  · simp only
    split_ifs
    · exact finalize _ _
    · exact h
    · exact h

lemma runFinalizer (h : d.Apart) (k : Nat) : (d.runFinalizer interfaces k).Apart := by
  unfold DynDependency.runFinalizer
  split
  · exact h
  · simp only
    split_ifs
    · exact finalize _ _
    · exact h

end Apart

/-! ### Replies -/

variable [DecidableEq ι]

/-- A usage of `exp` that is to be released has a replacement that exists, and neither the swap nor
the unlock of the owner leaves a usage of `exp`. -/
structure IsBacked (interfaces : List ι) (exp : ι) (d : DynDependency ι) : Prop where
  replacement : ∃ p, d.pref = ⟨some p, some p⟩ ∧ p ≠ exp ∧ p ∈ interfaces
  swap : (d.finalize interfaces).usagesOf exp = []
  unlock : (d.own .unlock).usagesOf exp = []

omit [DecidableEq ι] in
lemma Wired.pref_eq (h : d.Wired running) {p : ι} (hp : d.pref.ptr = some p) :
    d.pref = ⟨some p, some p⟩ := Link.eq_mk h.pref_connected hp

lemma IsBacked.of_pref {p : ι} (hw : d.Wired running) (hp : d.pref.ptr = some p) (hne : p ≠ exp)
    (hmem : p ∈ interfaces) : IsBacked interfaces exp d where
  replacement := ⟨p, hw.pref_eq hp, hne, hmem⟩
  swap := by
    have hpref : some p ≠ some exp := fun e => hne (Option.some.inj e)
    simp only [DynDependency.finalize]
    split_ifs <;> simpa [usagesOf, promote, dropPref, hp] using hne
  unlock := by
    have hl := hw.isLocked_of_pref (by simp [hp])
    have hcur : d.current = some p := by simp [current, hl, hp]
    rw [show d.own .unlock = _ from hw.unlock_eq hl, hcur]
    simpa [usagesOf] using hne

/-- Only the active interface is released later. -/
lemma onReleaseRequest_later_iff (hw : d.Wired running) (ha : d.Apart)
    (hexp : d.usagesOf exp ≠ []) :
    (d.onReleaseRequest interfaces exp).1 = .later ↔
      d.active.ptr = some exp ∧ (d.pending = true ∨ d.canSwap (some exp) d.pref.ptr = true) := by
  have hor : d.active.ptr = some exp ∨ d.pref.ptr = some exp := by
    rw [← hw.active_connected, ← hw.pref_connected]
    by_contra! hn
    exact hexp (by simp [usagesOf, hn.1, hn.2])
  by_cases hact : d.active.ptr = some exp
  · have hp : ¬ some exp = d.pref.ptr := fun hp => ha exp hp.symm hact
    by_cases hpend : d.pending = true
    · simp [onReleaseRequest, hpend, hact]
    · by_cases hcan : d.canSwap (some exp) d.pref.ptr = true
      · simp [onReleaseRequest, getNextPreferred, hpend, hact, hcan, hp]
      · simp [onReleaseRequest, getNextPreferred, hpend, hact, hcan]
  · have hp := hor.resolve_left hact
    have hact' : ¬ some exp = d.active.ptr := fun e => hact e.symm
    refine iff_of_false (fun hlater => ?_) fun h => hact h.1
    simp only [onReleaseRequest, hact', hp, if_true, if_false] at hlater
    split_ifs at hlater

end DynDependency

namespace System

variable {ι : Type*} [DecidableEq ι] {R : Ranking ι} {st : System ι}

/-- The two usages of every dynamic dependency are of different interfaces. -/
lemma apart_of_reachable [IsStrictWeakOrder ι R.Greater] {cond : System ι → Op ι → Prop}
    (h : (machine R).Reachable cond st) : ∀ d ∈ st.dynDependency, d.Apart := by
  refine forall_of_reachable h (fun interfaces canSwap => ?_)
    (fun hw hi hd => hd.onSubscribedCreated hw R hi) (fun interfaces hw hd => hd.destroy hw _)
    (fun hw hi hd => hd.start hw hi) fun {st d op} hw hpre hd => ?_
  · have hw : (DynDependency.onPartInit interfaces canSwap).Wired st.running := .onPartInit _ _
    refine .of_unlocked hw ?_
    simp only [DynDependency.onPartInit]
    split <;> rfl
  · cases op with
    | own op => exact hd.own hw hpre
    | setCanSwap canSwap => exact hd
    | release exp => exact hd.release hw exp
    | onSwap k => exact hd.onSwap k
    | apply k isOnEventLoop => exact hd.apply k isOnEventLoop
    | runFinalizer k => exact hd.runFinalizer k

/-- The later release that a locked part promises is backed if and only if a swap is pending, or
there is a preferred interface that still exists, unless `canSwap` refuses. -/
theorem later_isBacked_iff [IsStrictWeakOrder ι R.Greater]
    (h : (machine R).Reachable (fun _ _ => True) st)
    {d : DynDependency ι} (hd : d ∈ st.dynDependency) {exp : ι} (hexp : d.usagesOf exp ≠ []) :
    ((d.onReleaseRequest st.interfaces exp).1 = .later →
      (d.onReleaseRequest st.interfaces exp).2.IsBacked st.interfaces exp) ↔
    (d.active.ptr = some exp → d.pending = false → d.canSwap (some exp) d.pref.ptr = true →
      ∃ p ∈ d.pref.ptr, p ∈ st.interfaces) := by
  have hw := AllWired.of_reachable h d hd
  have ha := apart_of_reachable h d hd
  have hreg := Registered.of_reachable h
  have hstate : d.active.ptr = some exp → (d.onReleaseRequest st.interfaces exp).2 = d := by
    intro hact
    rcases hw.onReleaseRequest_cases st.interfaces exp with e | ⟨-, hp, -⟩
    · exact e
    · exact absurd hact (ha exp hp)
  rw [DynDependency.onReleaseRequest_later_iff hw ha hexp]
  constructor
  · intro hback hact hpend hcan
    have hb := hback ⟨hact, .inr hcan⟩
    rw [hstate hact] at hb
    obtain ⟨p, hp, -, hmem⟩ := hb.replacement
    exact ⟨p, by rw [hp]; rfl, hmem⟩
  · rintro hcond ⟨hact, hlater⟩
    rw [hstate hact]
    have hpref : ∃ p ∈ d.pref.ptr, p ∈ st.interfaces := by
      by_cases hpend : d.pending = true
      · obtain ⟨p, hp⟩ := Option.isSome_iff_exists.1 (hw.pref_of_pending hpend)
        exact ⟨p, hp, (hreg.mem_iff p).2 (hreg.alive p (hw.pref_running hpend p hp))⟩
      · exact hcond hact (by simpa using hpend) (hlater.resolve_left hpend)
    obtain ⟨p, hp, hmem⟩ := hpref
    refine .of_pref hw hp ?_ hmem
    rintro rfl
    exact ha p hp hact

/-- The active interface is requested while a better one is not running yet. -/
theorem later_isBacked_preferringRun :
    let st := [Op.create 1, .start 1, .addDynDependency fun _ _ => true,
      .dynDependency 0 (.own .lock), .dynDependency 0 (.own (.move .running)),
      .create 2].foldl (machine .byNumber).step empty
    ∃ d ∈ st.dynDependency, (d.onReleaseRequest st.interfaces 1).1 = .later ∧
      (d.onReleaseRequest st.interfaces 1).2.IsBacked st.interfaces 1 := by
  intro st
  have hreach : (machine .byNumber).Reachable (fun _ _ => True) st := .run (.init rfl) (by decide)
  obtain ⟨d, hd, hexp, hlater, hpref⟩ : ∃ d ∈ st.dynDependency, d.usagesOf 1 ≠ [] ∧
      (d.onReleaseRequest st.interfaces 1).1 = .later ∧ ∃ p ∈ d.pref.ptr, p ∈ st.interfaces := by
    decide
  exact ⟨d, hd, hlater, (later_isBacked_iff hreach hd hexp).2 (fun _ _ _ => hpref) hlater⟩

/-- The active interface is requested while there is no other. -/
def lonelyRun : List (Op Nat) :=
  [.create 1, .start 1, .addDynDependency fun _ _ => true, .dynDependency 0 (.own .lock),
    .dynDependency 0 (.own (.move .running))]

theorem lonelyRun_promises :
    ∃ st, (machine .byNumber).Reachable (fun _ _ => True) st ∧ ∃ d ∈ st.dynDependency,
      d.isLocked = true ∧ d.usagesOf 1 ≠ [] ∧
      (d.onReleaseRequest st.interfaces 1).1 = .later ∧
      (d.onReleaseRequest st.interfaces 1).2.pending = false ∧
      (d.onReleaseRequest st.interfaces 1).2.pref.connected = none := by
  refine ⟨lonelyRun.foldl (machine .byNumber).step empty, .run (.init rfl) ?_, ?_⟩
  · decide
  · decide

end System

end Idle
