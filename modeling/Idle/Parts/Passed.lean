import Idle.Parts.Release

/-!
# What a dynamic dependency has passed over

While its owner is locked a dynamic dependency may leave a new interface out of account: the
interface is no better than the one chosen, a swap is pending, or `canSwap` refuses. It also gives
up the preferred interface when asked to. These are recorded beside the run. No other interface can
come before the chosen one, which tells when a swap completes.
-/

namespace Idle

namespace Ranking

variable {ι : Type*} [DecidableEq ι] {R : Ranking ι} {i j : ι} {l : List ι}

/-- The two are of the same priority. -/
def Ties (R : Ranking ι) (i j : ι) : Prop := ¬R.Greater i j ∧ ¬R.Greater j i

omit [DecidableEq ι] in
instance (R : Ranking ι) (i j : ι) : Decidable (R.Ties i j) :=
  inferInstanceAs (Decidable (¬R.greater i j = true ∧ ¬R.greater j i = true))

lemma greaterPred_self (i : ι) : R.greaterPred i i = false := by
  simp [greaterPred]

lemma Greater.greaterPred [IsStrictWeakOrder ι R.Greater] (h : R.Greater i j) :
    R.greaterPred i j = true := by
  refine greaterPred_iff.2 ⟨?_, .inl h⟩
  rintro rfl
  exact Greater.irrefl i h

/-- The first interface comes before the others. -/
lemma Sorted.greaterPred_front (hl : R.Sorted l) (hfront : l.head? = some i) (hj : j ∈ l)
    (hne : j ≠ i) : R.greaterPred i j = true := by
  cases l with
  | nil => cases hj
  | cons a l =>
    obtain rfl : a = i := by simpa using hfront
    exact (List.pairwise_cons.1 hl).1 j ((List.mem_cons.1 hj).resolve_left hne)

lemma greaterPred_asymm [IsStrictWeakOrder ι R.Greater] (h : R.greaterPred i j = true) :
    R.greaterPred j i = false := by
  by_contra hn
  have := greaterPred_trans h (by simpa using hn)
  simp [greaterPred_self] at this

/-- An interface is the first one if none comes before it. -/
lemma Sorted.head?_eq_iff [IsStrictWeakOrder ι R.Greater] (hl : R.Sorted l) (hi : i ∈ l) :
    l.head? = some i ↔ ∀ j ∈ l, R.greaterPred j i = false := by
  constructor
  · intro hfront j hj
    by_cases hji : j = i
    · rw [hji, greaterPred_self]
    · exact greaterPred_asymm (hl.greaterPred_front hfront hj hji)
  · intro hall
    obtain ⟨front, hfront⟩ : ∃ front, l.head? = some front := by
      cases l with
      | nil => cases hi
      | cons a l => exact ⟨a, rfl⟩
    by_cases hne : i = front
    · rw [hne, hfront]
    · have h₁ := hl.greaterPred_front hfront hi hne
      have h₂ := hall front (List.mem_of_mem_head? hfront)
      exact absurd (h₁.symm.trans h₂) (by simp)

end Ranking

namespace DynDependency

variable {ι : Type*}

/-- The part leaves the new interface out of account, which it only does while its owner is
locked. -/
def passesOver (R : Ranking ι) (i : ι) (d : DynDependency ι) : Bool :=
  d.isLocked && (d.keeps R i || d.pending || !d.canSwap d.active.ptr (some i))

lemma onSubscribedCreated_of_passesOver {R : Ranking ι} {i : ι} {d : DynDependency ι}
    (h : d.passesOver R i = true) (isRunning : Bool) : d.onSubscribedCreated R i isRunning = d := by
  simp only [passesOver, Bool.and_eq_true, Bool.or_eq_true, Bool.not_eq_true'] at h
  obtain ⟨hl, (hk | hpend) | hcan⟩ := h
  · simp [onSubscribedCreated, hk]
  · simp [onSubscribedCreated, hl, hpend]
  · simp [onSubscribedCreated, hl, hcan]

/-- What a locked part does not leave out of account it prefers. -/
lemma onSubscribedCreated_of_not_passesOver {R : Ranking ι} {i : ι} {d : DynDependency ι}
    (hl : d.isLocked = true) (h : d.passesOver R i = false) (isRunning : Bool) :
    d.keeps R i = false ∧ (d.onSubscribedCreated R i isRunning).pref.ptr = some i ∧
      (d.onSubscribedCreated R i isRunning).active = d.active := by
  simp only [passesOver, hl, Bool.true_and, Bool.or_eq_false_iff, Bool.not_eq_false'] at h
  obtain ⟨⟨hk, hpend⟩, hcan⟩ := h
  refine ⟨hk, ?_⟩
  cases hp : d.pref.ptr <;> cases isRunning <;>
    simp [onSubscribedCreated, hk, hl, hpend, hcan, hp, dropPref, offerSwap, Link.set, Link.connect]

/-- The loop takes the first other interface, unless it is the active one. -/
lemma reselectPreferred_eq [DecidableEq ι] (d : DynDependency ι) (exp : ι) (interfaces : List ι) :
    d.reselectPreferred exp interfaces =
      (interfaces.filter fun i => i ≠ exp).head?.filter fun i => some i ≠ d.active.ptr := by
  induction interfaces with
  | nil => rfl
  | cons available rest ih =>
    by_cases he : available = exp
    · simpa [reselectPreferred, he] using ih
    · by_cases ha : some available = d.active.ptr
      · simp [reselectPreferred, he, ← ha, Option.filter]
      · simp [reselectPreferred, he, ha, Option.filter]

variable [DecidableEq ι] {R : Ranking ι}

/-- Whatever comes before the choice of the part has been passed over. -/
structure Accounts (R : Ranking ι) (interfaces passed : List ι) (d : DynDependency ι) : Prop where
  pref : ∀ p ∈ d.pref.ptr, ∀ i ∈ interfaces, R.greaterPred i p = true → i ∈ passed
  active : d.pref.ptr = none → ∀ a ∈ d.active.ptr, ∀ i ∈ interfaces, R.Greater i a → i ∈ passed
  nil_of_none : d.isSubscribed = true → d.active.ptr = none → interfaces = []

namespace Accounts

variable {interfaces passed : List ι} {running : ι → Bool} {d : DynDependency ι} {i : ι}

lemma of_none (hp : d.pref.ptr = none)
    (ha : ∀ a ∈ d.active.ptr, ∀ i ∈ interfaces, R.Greater i a → i ∈ passed)
    (hnil : d.isSubscribed = true → d.active.ptr = none → interfaces = []) :
    d.Accounts R interfaces passed :=
  ⟨by simp [hp], fun _ => ha, hnil⟩

/-- A destroyed part has no choice. -/
lemma of_unsubscribed (hw : d.Wired running) (hs : d.isSubscribed = false) :
    d.Accounts R interfaces passed := by
  have hl : d.isLocked = false := by
    by_contra hl
    have := Phase.isInitializedUnsafe_of_isLocked (p := d.phase) (by simpa [isLocked] using hl)
    exact absurd (hs.symm.trans this) (by simp)
  exact .of_none (hw.pref_of_unlocked hl) (by simp [hw.unsubscribed hs])
    fun hn => absurd (hs.symm.trans hn) (by simp)

section Order

variable [IsStrictWeakOrder ι R.Greater]

/-- What is better than the current choice has been passed over. -/
lemma mem_passed (h : d.Accounts R interfaces passed) (hw : d.Wired running) {c : ι}
    (hc : d.current = some c) (hi : i ∈ interfaces) (hgt : R.Greater i c) : i ∈ passed := by
  cases hp : d.pref.ptr with
  | none =>
    have ha : d.active.ptr = some c := by simpa [current, hp] using hc
    exact h.active hp c ha i hi hgt
  | some p =>
    have hl := hw.isLocked_of_pref (by simp [hp])
    obtain rfl : p = c := by simpa [current, hp, hl] using hc
    exact h.pref p hp i hi hgt.greaterPred

lemma onPartInit (hs : R.Sorted interfaces) (canSwap : Option ι → Option ι → Bool) :
    (DynDependency.onPartInit interfaces canSwap).Accounts R interfaces passed := by
  have hd : (DynDependency.onPartInit interfaces canSwap).pref.ptr = none ∧
      (DynDependency.onPartInit interfaces canSwap).active.ptr = interfaces.head? := by
    cases h : interfaces.head? <;>
      simp [DynDependency.onPartInit, h, activate, setSatisfied, Link.set, Link.connect]
  refine .of_none hd.1 (fun a ha j hj hgt => ?_) fun _ hn => ?_
  · exact absurd hgt (hs.not_greater_front (hd.2.symm.trans ha) hj)
  · exact List.head?_eq_none_iff.1 (hd.2.symm.trans hn)

/-- The new choice is better than the last one, so that what comes before it has come before that
one, too. -/
lemma of_greater (h : d.Accounts R interfaces passed) (hw : d.Wired running)
    (hs : d.isSubscribed = true) (hk : d.keeps R i = false) {j : ι} (hj : j ∈ interfaces)
    (hji : R.greaterPred j i = true) : j ∈ passed := by
  cases hc : d.current with
  | none =>
    have ha : d.active.ptr = none := by
      by_cases hp : d.pref.ptr.isSome = true
      · simpa [hc] using hw.current_isSome (hw.isLocked_of_pref hp)
      · simpa [current, hp] using hc
    simp [h.nil_of_none hs ha] at hj
  | some c =>
    have hic : R.Greater i c := by simpa [keeps, hc, Ranking.Greater] using hk
    have hij : ¬R.Greater i j := by
      obtain ⟨-, hgt | ⟨hn, -⟩⟩ := Ranking.greaterPred_iff.1 hji
      · exact hgt.asymm
      · exact hn
    exact h.mem_passed hw hc hj (hic.of_not_greater_right hij)

lemma onSubscribedCreated (h : d.Accounts R interfaces passed) (hw : d.Wired running)
    (hs : d.isSubscribed = true) (i : ι) :
    (d.onSubscribedCreated R i (running i)).Accounts R (R.insertSorted i interfaces)
      (if d.passesOver R i then i :: passed else passed) := by
  by_cases hpass : d.passesOver R i = true
  · -- nothing changes, and the new interface is recorded
    have hl : d.isLocked = true := (Bool.and_eq_true _ _ ▸ hpass).1
    have hact := hw.active_of_isLocked hl
    rw [onSubscribedCreated_of_passesOver hpass, if_pos hpass]
    refine ⟨fun p hp j hj hgt => ?_, fun hp a ha j hj hgt => ?_, fun _ hn => by simp [hn] at hact⟩
    · rcases Ranking.mem_insertSorted.1 hj with rfl | hj
      · exact List.mem_cons_self
      · exact List.mem_cons_of_mem _ (h.pref p hp j hj hgt)
    · rcases Ranking.mem_insertSorted.1 hj with rfl | hj
      · exact List.mem_cons_self
      · exact List.mem_cons_of_mem _ (h.active hp a ha j hj hgt)
  · -- a locked part prefers the new interface now, an unlocked one uses the better one
    have hpass : d.passesOver R i = false := by simpa using hpass
    rw [if_neg (by simp [hpass])]
    by_cases hl : d.isLocked = true
    · obtain ⟨hk, hpref, hact⟩ := onSubscribedCreated_of_not_passesOver hl hpass (running i)
      have hsome := hw.active_of_isLocked hl
      refine ⟨fun p hp j hj hgt => ?_, fun hn => by simp [hpref] at hn, fun _ hn => ?_⟩
      · obtain rfl : i = p := Option.some.inj (hpref.symm.trans hp)
        rcases Ranking.mem_insertSorted.1 hj with rfl | hj
        · simp [Ranking.greaterPred_self] at hgt
        · exact h.of_greater hw hs hk hj hgt
      · simp [hact ▸ hn] at hsome
    · have hl : d.isLocked = false := by simpa using hl
      have hp := hw.pref_of_unlocked hl
      rcases onSubscribedCreated_cases R i (running i) d with ⟨hk, e⟩ | ⟨-, hl', -⟩ | ⟨hk, -, e⟩
      · have hk := hk.resolve_right (by simp [hl])
        rw [e]
        refine .of_none hp (fun a ha j hj hgt => ?_) fun _ hn => ?_
        · rcases Ranking.mem_insertSorted.1 hj with rfl | hj
          · have hc : d.current = some a := by simpa [current, hp] using ha
            exact absurd hgt (by simpa [keeps, hc, Ranking.Greater] using hk)
          · exact h.active hp a ha j hj hgt
        · simp [keeps, current, hp, hn] at hk
      · exact absurd (hl.symm.trans hl') (by simp)
      · rw [e]
        refine .of_none hp (fun a ha j hj hgt => ?_) fun _ hn => absurd hn (Option.some_ne_none i)
        obtain rfl : i = a := Option.some.inj ha
        rcases Ranking.mem_insertSorted.1 hj with rfl | hj
        · exact absurd hgt (Ranking.Greater.irrefl _)
        · exact h.of_greater hw hs hk hj hgt.greaterPred

/-- What is first now has nothing before it. -/
lemma destroy (h : d.Accounts R interfaces passed) (hw : d.Wired running) (hs : R.Sorted interfaces)
    (i : ι) :
    ((d.usagesOf i).foldl (fun d _ => d.onUsedDestroy (interfaces.erase i)) d).Accounts R
      (interfaces.erase i) passed := by
  rw [hw.foldl_onUsedDestroy]
  split_ifs with ha
  · refine .of_none (hw.pref_of_unlocked ha.1) (fun a hf j hj hgt => ?_) fun _ hn => ?_
    · exact absurd hgt ((hs.erase i).not_greater_front hf hj)
    · exact List.head?_eq_none_iff.1 hn
  · exact ⟨fun p hp j hj => h.pref p hp j (List.mem_of_mem_erase hj),
      fun hp a ha j hj => h.active hp a ha j (List.mem_of_mem_erase hj),
      fun hsub hn => by simp [h.nil_of_none hsub hn]⟩

lemma own (h : d.Accounts R interfaces passed) (hw : d.Wired running) {op : OwnerOp}
    (hpre : d.OwnPre running op) : (d.own op).Accounts R interfaces passed := by
  cases op with
  | destroy => exact .of_unsubscribed (hw.own hpre) rfl
  | lock =>
    have hp : d.phase = .stopped := hpre.1
    have hs : d.isSubscribed = true := by simp [isSubscribed, hp, Phase.isInitializedUnsafe]
    exact ⟨h.pref, h.active, fun _ => h.nil_of_none hs⟩
  | move p =>
    have hs : d.isSubscribed = true := Phase.isInitializedUnsafe_of_isLocked hpre.1.1
    exact ⟨h.pref, h.active, fun _ => h.nil_of_none hs⟩
  | unlock =>
    have hp : d.phase = .pending := hpre.1
    have hl : d.isLocked = true := by simp [isLocked, hp]
    have hcur := hw.current_isSome hl
    rw [show d.own .unlock = _ from hw.unlock_eq hl]
    refine .of_none rfl (fun c hc i hi => h.mem_passed hw hc hi) fun _ hn => ?_
    simp [show d.current = none from hn] at hcur

/-- Only the released interface can come before the one that takes its place. -/
lemma release (h : d.Accounts R interfaces passed) (hw : d.Wired running) (hapart : d.Apart)
    (hs : R.Sorted interfaces) (hact : ∀ a ∈ d.active.ptr, a ∈ interfaces) (exp : ι) :
    (d.onReleaseRequest interfaces exp).2.Accounts R interfaces
      (if d.pref.ptr = some exp then exp :: passed else passed) := by
  -- either nothing is reselected, or the first of the others is preferred
  rcases hw.onReleaseRequest_cases interfaces exp with e | ⟨hpend, hp, hcan, e⟩
  · rw [e]
    split_ifs
    · exact ⟨fun p hp j hj hgt => List.mem_cons_of_mem _ (h.pref p hp j hj hgt),
        fun hp a ha j hj hgt => List.mem_cons_of_mem _ (h.active hp a ha j hj hgt), h.nil_of_none⟩
    · exact h
  · have hne : some exp ≠ d.active.ptr := (hapart exp hp).symm
    have hnext : d.getNextPreferred interfaces exp =
        (interfaces.filter fun i => i ≠ exp).head?.filter fun i => some i ≠ d.active.ptr := by
      rw [← reselectPreferred_eq]
      exact if_neg hne
    have hs' : R.Sorted (interfaces.filter fun i => i ≠ exp) := List.Pairwise.filter _ hs
    have hmem : ∀ {j}, j ∈ interfaces → j ≠ exp → j ∈ interfaces.filter fun i => i ≠ exp :=
      fun hj hn => List.mem_filter.2 ⟨hj, by simpa using hn⟩
    obtain ⟨a, ha⟩ := Option.isSome_iff_exists.1
      (hw.active_of_isLocked (hw.isLocked_of_pref (by simp [hp])))
    have haexp : a ≠ exp := by
      rintro rfl
      exact hne ha.symm
    rw [e, if_pos hp]
    refine ⟨fun r hr j hj hgt => ?_, fun hr b hb j hj hgt => ?_, fun _ hn => ?_⟩
    · have hfront := (Option.filter_eq_some_iff.1 (hnext.symm.trans hr)).1
      by_contra hj'
      obtain ⟨hjexp, -⟩ := not_or.1 (fun h => hj' (List.mem_cons.2 h))
      by_cases hjr : j = r
      · simp [hjr, Ranking.greaterPred_self] at hgt
      · have := Ranking.greaterPred_asymm (hs'.greaterPred_front hfront (hmem hj hjexp) hjr)
        exact absurd (this.symm.trans hgt) (by simp)
    · -- nothing is preferred only if the active one is the first of the others
      obtain rfl : a = b := Option.some.inj (ha.symm.trans hb)
      have hfront : (interfaces.filter fun i => i ≠ exp).head? = some a := by
        obtain ⟨f, hf⟩ : ∃ f, (interfaces.filter fun i => i ≠ exp).head? = some f := by
          cases hl : interfaces.filter fun i => i ≠ exp with
          | nil => exact absurd (hl ▸ hmem (hact a ha) haexp) (List.not_mem_nil)
          | cons f l => exact ⟨f, rfl⟩
        have hn := Option.filter_eq_none_iff.1 (hnext.symm.trans hr) f hf
        rw [hf, ← ha]
        simpa using hn
      by_contra hj'
      obtain ⟨hjexp, -⟩ := not_or.1 (fun h => hj' (List.mem_cons.2 h))
      exact hs'.not_greater_front hfront (hmem hj hjexp) hgt
    · simp [ha] at hn

end Order

/-- Only the choice matters. -/
lemma of_eq (h : d.Accounts R interfaces passed) {d' : DynDependency ι}
    (hp : d'.pref.ptr = d.pref.ptr) (ha : d'.active.ptr = d.active.ptr)
    (hs : d'.phase = d.phase) : d'.Accounts R interfaces passed := by
  refine ⟨by rw [hp]; exact h.pref, by rw [hp, ha]; exact h.active, ?_⟩
  rw [ha, isSubscribed, hs]
  exact h.nil_of_none

lemma start (h : d.Accounts R interfaces passed) (hw : d.Wired running) (hi : running i = false) :
    ((d.usagesOf i).foldl (fun d _ => if d.isLocked then d.onUsedStarted else d) d).Accounts R
      interfaces passed := by
  rw [hw.foldl_onUsedStarted hi]
  split_ifs
  · exact h.of_eq rfl rfl rfl
  · exact h

lemma finalize [IsStrictWeakOrder ι R.Greater] (h : d.Accounts R interfaces passed)
    (hp : d.pref.ptr.isSome = true) : (d.finalize interfaces).Accounts R interfaces passed := by
  have hd : (d.finalize interfaces).pref.ptr = none ∧
      (d.finalize interfaces).active.ptr = d.pref.ptr := by
    simp only [DynDependency.finalize]
    split_ifs <;> exact ⟨rfl, rfl⟩
  refine .of_none hd.1 (fun a ha j hj hgt => ?_) fun _ hn => ?_
  · exact h.pref a (hd.2.symm.trans ha) j hj hgt.greaterPred
  · simp [hd.2 ▸ hn] at hp

lemma onSwap (h : d.Accounts R interfaces passed) (k : Nat) :
    (d.onSwap k).Accounts R interfaces passed := by
  cases hk : d.offers[k]? with
  | none => simpa [DynDependency.onSwap, hk] using h
  | some a =>
    simp only [DynDependency.onSwap, hk]
    split_ifs <;> exact h.of_eq rfl rfl rfl

lemma apply [IsStrictWeakOrder ι R.Greater] (h : d.Accounts R interfaces passed)
    (hw : d.Wired running) (k : Nat) (isOnEventLoop : Bool) :
    (d.apply interfaces k isOnEventLoop).Accounts R interfaces passed := by
  cases hk : d.actions[k]? with
  | none => simpa [DynDependency.apply, hk] using h
  | some a =>
    simp only [DynDependency.apply, hk]
    split_ifs with hv
    · have hpend := (hw.pending_of_action hk (Wired.epoch_eq_of_isHandleValid hv)).1
      exact finalize (h.of_eq rfl rfl rfl) (hw.pref_of_pending hpend)
    · exact h.of_eq rfl rfl rfl
    · exact h.of_eq rfl rfl rfl

lemma runFinalizer [IsStrictWeakOrder ι R.Greater] (h : d.Accounts R interfaces passed)
    (hw : d.Wired running) (k : Nat) :
    (d.runFinalizer interfaces k).Accounts R interfaces passed := by
  cases hk : d.finalizers[k]? with
  | none => simpa [DynDependency.runFinalizer, hk] using h
  | some e =>
    simp only [DynDependency.runFinalizer, hk]
    split_ifs with hv
    · have hpend := (hw.pending_of_finalizer hk (Wired.epoch_eq_of_isHandleValid hv)).1
      exact finalize (h.of_eq rfl rfl rfl) (hw.pref_of_pending hpend)
    · exact h.of_eq rfl rfl rfl

end Accounts

end DynDependency

namespace System

variable {ι : Type*} [DecidableEq ι] (R : Ranking ι)

/-! ### The history of a run -/

/-- An interface is passed over when it is published, or its release is requested while it is
preferred. -/
def passed (st : System ι) (op : Op ι) (hist : Nat → List ι) (n : Nat) : List ι :=
  match op with
  | .create i => if st.dynDependency[n]?.any (·.passesOver R i) then i :: hist n else hist n
  | .dynDependency m (.release exp) =>
    if m = n ∧ st.dynDependency[n]?.any fun d => d.pref.ptr = some exp then exp :: hist n
    else hist n
  | _ => hist n

/-- The system, with what each of its dynamic dependencies has passed over since it exists. -/
def watched : Machine (System ι × (Nat → List ι)) (Op ι) :=
  (machine R).watched (fun _ => []) (passed R)

instance (s : System ι × (Nat → List ι)) (op : Op ι) : Decidable ((watched R).pre s op) :=
  inferInstanceAs (Decidable ((machine R).pre s.1 op))

variable {R} {st : System ι} {hist : Nat → List ι}

/-- Every dynamic dependency accounts for what it has not chosen. -/
def AllAccount (R : Ranking ι) (st : System ι) (hist : Nat → List ι) : Prop :=
  ∀ (n : Nat) (d : DynDependency ι), st.dynDependency[n]? = some d →
    d.Accounts R st.interfaces (hist n)

variable [IsStrictWeakOrder ι R.Greater]

lemma stepDyn_accounts (hreg : Registered R st) {d : DynDependency ι} {passed : List ι}
    (h : d.Accounts R st.interfaces passed) (hw : d.Wired st.running) (hapart : d.Apart)
    {op : DynOp ι} (hpre : st.DynPre d op) :
    (st.stepDyn op d).Accounts R st.interfaces
      (match op with
        | .release exp => if d.pref.ptr = some exp then exp :: passed else passed
        | _ => passed) := by
  cases op with
  | own op => exact h.own hw hpre
  | setCanSwap canSwap => exact h.of_eq rfl rfl rfl
  | release exp =>
    by_cases hp : d.pref.ptr = some exp
    · have hl := hw.isLocked_of_pref (by simp [hp])
      exact h.release hw hapart hreg.sorted
        (fun a ha => (hreg.mem_iff a).2 (hreg.alive a (hw.active_running hl a ha))) exp
    · rcases hw.onReleaseRequest_cases st.interfaces exp with e | ⟨-, hp', -⟩
      · rw [show st.stepDyn (.release exp) d = d from e]
        simpa [hp] using h
      · exact absurd hp' hp
  | onSwap k => exact h.onSwap k
  | apply k isOnEventLoop => exact h.apply hw k isOnEventLoop
  | runFinalizer k => exact h.runFinalizer hw k

lemma AllAccount.step (h : AllAccount R st hist) (hreg : Registered R st) (hw : st.AllWired)
    (hapart : ∀ d ∈ st.dynDependency, d.Apart) {op : Op ι} (hpre : Pre R st op) :
    AllAccount R (st.step R op) (passed R st op hist) := by
  intro n d' hd'
  cases op with
  | create i =>
    have hd' : (st.dynDependency.map fun d =>
        if d.isSubscribed then d.onSubscribedCreated R i (st.running i) else d)[n]? = some d' := hd'
    rw [List.getElem?_map] at hd'
    obtain ⟨d, hd, rfl⟩ := Option.map_eq_some_iff.1 hd'
    have hm := List.mem_of_getElem? hd
    change DynDependency.Accounts R (R.insertSorted i st.interfaces) _ _
    -- whoever is not subscribed uses nothing yet
    by_cases hs : d.isSubscribed = true
    · have hacc := (h n d hd).onSubscribedCreated (hw d hm) hs i
      rw [if_pos hs]
      simpa [passed, hd] using hacc
    · rw [if_neg hs]
      exact .of_unsubscribed (hw d hm) (by simpa using hs)
  | destroy i =>
    have hd' : (st.dynDependency.map fun d => (d.usagesOf i).foldl
        (fun d _ => d.onUsedDestroy (st.interfaces.erase i)) d)[n]? = some d' := hd'
    rw [List.getElem?_map] at hd'
    obtain ⟨d, hd, rfl⟩ := Option.map_eq_some_iff.1 hd'
    exact (h n d hd).destroy (hw d (List.mem_of_getElem? hd)) hreg.sorted i
  | start i =>
    have hd' : (st.dynDependency.map fun d => (d.usagesOf i).foldl
        (fun d _ => if d.isLocked then d.onUsedStarted else d) d)[n]? = some d' := hd'
    rw [List.getElem?_map] at hd'
    obtain ⟨d, hd, rfl⟩ := Option.map_eq_some_iff.1 hd'
    exact (h n d hd).start (hw d (List.mem_of_getElem? hd)) hpre.2
  | addDynDependency canSwap =>
    have hd' : (st.dynDependency ++ [.onPartInit st.interfaces canSwap])[n]? = some d' := hd'
    rw [List.getElem?_append] at hd'
    split_ifs at hd'
    · exact h n d' hd'
    · obtain rfl := List.mem_singleton.1 (List.mem_of_getElem? hd')
      exact .onPartInit hreg.sorted _
  | dynDependency m op =>
    have hd' : (st.dynDependency.modify m (st.stepDyn op))[n]? = some d' := hd'
    rw [List.getElem?_modify] at hd'
    obtain ⟨d, hd, rfl⟩ := Option.map_eq_some_iff.1 hd'
    have hm := List.mem_of_getElem? hd
    change DynDependency.Accounts R st.interfaces _ _
    -- a release passes over for the part it is asked of only
    by_cases hmn : m = n
    · subst hmn
      obtain ⟨d₁, hd₁, hdyn⟩ := hpre
      obtain rfl : d = d₁ := by simpa [hd] using hd₁
      have hacc := stepDyn_accounts hreg (h m d hd) (hw d hm) (hapart d hm) hdyn
      cases op <;> simpa [passed, hd] using hacc
    · rw [if_neg hmn]
      cases op <;> simpa [passed, hmn] using h n d hd
  | stop | unlocked | addDependency | dependency | addDynDependencies | dynDependencies =>
    exact h n d' hd'

lemma AllAccount.of_reachable {cond : System ι × (Nat → List ι) → Op ι → Prop}
    {s : System ι × (Nat → List ι)} (h : (watched R).Reachable cond s) :
    AllAccount R s.1 s.2 := by
  refine h.invariant (P := fun s => AllAccount R s.1 s.2) (fun s hs => ?_)
    fun s op hr hall hpre _ => ?_
  · intro n d hd
    rw [show s.1 = empty from hs.1] at hd
    cases hd
  · have hr : (machine R).Reachable (fun _ _ => True) s.1 := hr.fst fun _ _ _ => trivial
    exact hall.step (.of_reachable hr) (.of_reachable hr) (apart_of_reachable hr) hpre.2

/-! ### Swaps complete -/

end System

end Idle
