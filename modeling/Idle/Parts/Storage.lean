import Idle.Parts.System

/-!
# The storage of a set of dependencies

What a `DynDependencies` part keeps of each interface fits together in every state of a run, and the
storage of the user holds what it should after the owner has been locked or unlocked.
-/

namespace Idle

namespace DynDependencies

variable {ι : Type*} [DecidableEq ι] {d : DynDependencies ι} {i : ι}

lemma Good.of_cell {d' : DynDependencies ι} (h : d.Good) (hc : ∀ i, d'.cell i = d.cell i) :
    d'.Good := fun i => hc i ▸ h i

lemma Good.used_pos_of_isUsing (h : d.Good) (hi : d.isUsing i = true) : 0 < (d.cell i).used := by
  simp only [isUsing, Bool.and_eq_true, decide_eq_true_eq] at hi
  exact ((h i).connected (mem_keys_iff.1 hi.1)).2 hi.2

lemma Good.used_eq_of_not_isUsing (h : d.Good) (hi : d.isUsing i = false) :
    (d.cell i).used = 0 := by
  by_contra hu
  have hu : 0 < (d.cell i).used := Nat.pos_of_ne_zero hu
  have hk := (h i).keys_pos hu
  have hc := ((h i).connected hk).1 hu
  have : d.isUsing i = true := by
    simp only [isUsing, Bool.and_eq_true, decide_eq_true_eq]
    exact ⟨mem_keys_iff.2 hk, hc⟩
  simp [this] at hi

lemma Good.processAvailability (h : d.Good) (i : ι) : (d.processAvailability i).Good :=
  (d.processAvailability_actsOn i).good h ((h i).processAvailability _ _ _)

/-- Both events of a destruction, as far as the part gets them. -/
lemma Good.destroy (h : d.Good) (i : ι) :
    Good (let d := if d.isUsing i then d.onUsedDestroy i else d
      if d.isSubscribed then d.onSubscribedDestroy i else d) := by
  have hd : ∀ {d : DynDependencies ι}, d.Good → (d.cell i).used = 0 →
      Good (if d.isSubscribed then d.onSubscribedDestroy i else d) := by
    intro d hd hu
    split_ifs
    · exact (d.erase_actsOn i).good hd ((hd i).erase hu)
    · exact hd
  by_cases hi : d.isUsing i = true
  · simp only [hi, if_true]
    have hact := d.onUsedDestroy_actsOn i
    refine hd (hact.good h ((h i).onUsedDestroy ((h i).keys_pos (h.used_pos_of_isUsing hi)))) ?_
    rw [hact.2.2 i, if_pos rfl]
    exact onUsedDestroy_used_eq (h i)
  · simp only [hi]
    exact hd h (h.used_eq_of_not_isUsing (by simpa using hi))

lemma Good.own (h : d.Good) (running : ι → Bool) (op : OwnerOp) : (d.own running op).Good := by
  cases op with
  | destroy => exact h.onPartDestroy.of_cell fun _ => rfl
  | lock =>
    have hl : Good { d with phase := .locked } := h.of_cell fun _ => rfl
    exact hl.onImportLock running
  | move p => exact h.of_cell fun _ => rfl
  | unlock => exact h.onImportUnlock.of_cell fun _ => rfl

/-- After the lock the storage holds the running ones of the connected interfaces. -/
lemma Good.stored_onImportLock (h : d.Good) (running : ι → Bool) (i : ι) :
    (d.onImportLock running).storage i = true ↔
      i ∈ (d.onImportLock running).used ∧ running i = true := by
  have hcell := onImportLock_cell h running i
  have hstored := (h.onImportLock running i).stored
  rw [mem_used_iff, show (d.onImportLock running).storage i =
    ((d.onImportLock running).cell i).stored from rfl, hstored, hcell]
  by_cases hu : i ∈ d.used
  · have hu' := mem_used_iff.1 hu
    have hk := (h i).keys_pos hu'
    by_cases hr : running i = true
    · simp [hu, hr, Cell.lockUsage, hk, hu']
    · simp [hu, hr, Cell.lockUsage]
  · have hu' : (d.cell i).used = 0 := by simpa [mem_used_iff] using hu
    simp only [hu, if_false, hu', lt_irrefl, false_and, iff_false, not_and, not_not]
    exact fun hk => (h i).erased hk hu'

/-- After the unlock every entry is connected and in the storage. -/
lemma Good.inserted_onImportUnlock (h : d.Good) (hi : i ∈ d.onImportUnlock.keys) :
    i ∈ d.onImportUnlock.used ∧ (d.onImportUnlock.usage i).isConnected = true ∧
      (d.onImportUnlock.usage i).storageState = .inserted := by
  have hcell := onImportUnlock_cell h i
  have hgood := h.onImportUnlock i
  have hkeys : i ∈ d.keys := by
    by_contra hn
    rw [mem_keys_iff, hcell, if_neg hn] at hi
    exact hn (mem_keys_iff.2 hi)
  rw [if_pos hkeys] at hcell
  have hused : 0 < (d.onImportUnlock.cell i).used := by
    rw [hcell, Cell.unlockUsage, Cell.insertIntoStorage_used]
    split_ifs with hu
    · exact hu
    · exact Nat.succ_pos _
  refine ⟨mem_used_iff.2 hused, (hgood.connected (mem_keys_iff.1 hi)).1 hused, ?_⟩
  rw [show d.onImportUnlock.usage i = (d.onImportUnlock.cell i).usage from rfl, hcell]
  exact Cell.insertIntoStorage_state

end DynDependencies

namespace System

variable {ι : Type*} [DecidableEq ι] {R : Ranking ι} {st : System ι}

lemma stepSet_good {d : DynDependencies ι} (h : d.Good) {op : SetOp ι} (hpre : st.SetPre d op) :
    (st.stepSet op d).Good := by
  cases op with
  | own op => exact h.own st.running op
  | setHooks hooks => exact h.of_cell fun _ => rfl
  | release exp =>
    exact (d.onReleaseRequest_actsOn exp).good h
      ((h exp).onReleaseRequest ((h exp).keys_pos (h.used_pos_of_isUsing hpre)) _)
  | acquireUsage dep =>
    by_cases hl : d.isLocked = true
    · exact (DynDependencies.doAcquireUsage_actsOn hl dep).good h ((h dep).doAcquireUsage _)
    · simpa [stepSet, DynDependencies.doAcquireUsage, hl] using h
  | releaseUsage dep =>
    by_cases hl : d.isLocked = true
    · exact (DynDependencies.doReleaseUsage_actsOn hl dep).good h (h dep).doReleaseUsage
    · simpa [stepSet, DynDependencies.doReleaseUsage, hl] using h

/-- All sets of dependencies are good. -/
def SetsGood (st : System ι) : Prop := ∀ d ∈ st.dynDependencies, d.Good

lemma SetsGood.step (h : SetsGood st) {op : Op ι} (hpre : Pre R st op) :
    SetsGood (st.step R op) := by
  cases op with
  | create i =>
    intro d' hd'
    obtain ⟨d, hd, rfl⟩ := List.mem_map.1 hd'
    split_ifs
    · exact (h d hd).processAvailability i
    · exact h d hd
  | destroy i =>
    intro d' hd'
    obtain ⟨d, hd, rfl⟩ := List.mem_map.1 hd'
    exact (h d hd).destroy i
  | start i =>
    intro d' hd'
    obtain ⟨d, hd, rfl⟩ := List.mem_map.1 hd'
    split_ifs with hi
    · -- the start of an interface concerns the parts that use it
      have hu := (h d hd).used_pos_of_isUsing (Bool.and_eq_true _ _ ▸ hi).1
      exact (d.onUsedStarted_actsOn i).good (h d hd) ((h d hd i).onUsedStarted hu _)
    · exact h d hd
  | unlocked i =>
    intro d' hd'
    obtain ⟨d, hd, rfl⟩ := List.mem_map.1 hd'
    split_ifs
    · exact (h d hd).processAvailability i
    · exact h d hd
  | addDynDependencies hooks =>
    intro d hd
    rcases List.mem_append.1 hd with hd | hd
    · exact h d hd
    · obtain rfl := List.mem_singleton.1 hd
      exact .onPartInit _ _
  | dynDependencies n op =>
    intro d' hd'
    rcases mem_modify hd' with hd | ⟨d, hd, rfl⟩
    · exact h d' hd
    · obtain ⟨d₁, hd₁, hset⟩ := hpre
      obtain rfl : d = d₁ := by simpa [hd] using hd₁
      exact stepSet_good (h d (List.mem_of_getElem? hd)) hset
  | stop | addDependency | dependency | addDynDependency | dynDependency => exact h

lemma SetsGood.of_reachable {cond : System ι → Op ι → Prop} (h : (machine R).Reachable cond st) :
    SetsGood st :=
  h.invariant (fun _ hst => by rw [show _ = empty from hst]; exact fun d hd => nomatch hd)
    fun _ _ _ hd hpre _ => hd.step hpre.2

/-- The usage and storage protocol of a set of dependencies. -/
theorem dynDependencies_protocol (h : (machine R).Reachable (fun _ _ => True) st) {n : Nat}
    {d : DynDependencies ι} (hd : st.dynDependencies[n]? = some d) :
    (∀ i, (i ∈ d.keys → (i ∈ d.used ↔ (d.usage i).isConnected = true)) ∧
      (i ∈ d.used → i ∈ d.keys)) ∧
    (Pre R st (.dynDependencies n (.own .lock)) →
      ∀ d' ∈ (st.step R (.dynDependencies n (.own .lock))).dynDependencies[n]?,
      ∀ i, d'.storage i = true ↔ i ∈ d'.used ∧ st.running i = true) ∧
    (Pre R st (.dynDependencies n (.own .unlock)) →
      ∀ d' ∈ (st.step R (.dynDependencies n (.own .unlock))).dynDependencies[n]?,
      ∀ i ∈ d'.keys, i ∈ d'.used ∧ (d'.usage i).isConnected = true ∧
        (d'.usage i).storageState = .inserted) ∧
    ∀ i, DynDependencies.Alternating (d.history i) := by
  have hgood := SetsGood.of_reachable h d (List.mem_of_getElem? hd)
  refine ⟨fun i => ⟨fun hk => ?_, fun hu => ?_⟩, fun _ d' hd' i => ?_, fun _ d' hd' i hi => ?_,
    fun i => (hgood i).alternating⟩
  · rw [DynDependencies.mem_used_iff]
    exact (hgood i).connected (DynDependencies.mem_keys_iff.1 hk)
  · exact DynDependencies.mem_keys_iff.2 ((hgood i).keys_pos (DynDependencies.mem_used_iff.1 hu))
  · obtain rfl : d.own st.running .lock = d' := by simpa [step, hd, stepSet] using hd'
    have hl : DynDependencies.Good { d with phase := .locked } := hgood.of_cell fun _ => rfl
    exact hl.stored_onImportLock st.running i
  · obtain rfl : d.own st.running .unlock = d' := by simpa [step, hd, stepSet] using hd'
    exact hgood.inserted_onImportUnlock hi

/-- Hooks that use everything weakly and at once. -/
def eagerHooks : DependenciesHooks Nat where
  onInspect _ := ⟨false, true⟩
  onUseOffer _ := .useNowAndInsert
  onReleaseRequest _ := .now

/-- Of two interfaces only the first one is running. -/
def mixedRun : List (Op Nat) :=
  [.create 1, .start 1, .addDynDependencies eagerHooks, .create 2]

theorem dynDependencies_protocol_mixedRun :
    let st := mixedRun.foldl (machine .byNumber).step empty
    let st' := st.step .byNumber (.dynDependencies 0 (.own .lock))
    (∃ d ∈ st'.dynDependencies[0]?, d.used = [1, 2] ∧ d.storage 1 = true) ∧
      ∀ d ∈ st'.dynDependencies[0]?, ∀ i, d.storage i = true ↔ i ∈ d.used ∧
        st.running i = true := by
  have hreach : (machine .byNumber).Reachable (fun _ _ => True)
      (mixedRun.foldl (machine .byNumber).step empty) :=
    .run (.init rfl) (by decide)
  obtain ⟨d, hd⟩ : ∃ d, (mixedRun.foldl (machine .byNumber).step empty).dynDependencies[0]? =
      some d :=
    Option.isSome_iff_exists.1 (by decide)
  exact ⟨by decide, (dynDependencies_protocol hreach hd).2.1 (by decide)⟩

end System

end Idle
