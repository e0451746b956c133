import Idle.Core.State
import Idle.Library.Machine
import Idle.Parts.Registry

/-!
# Singletons

A `Singleton` is an import that is only satisfied while its own interface is the first one of the
registry and no other service that owns such an interface is locked. It only hears of its siblings
through the events of the registry.
-/

namespace Idle

/-- The services that own an interface of one id and a `Singleton` part that guards it. A service
stands for its interface. -/
structure Singletons (ι : Type*) where
  /-- `RegistryImpl::interfaces_` -/
  interfaces : List ι
  /-- `RegistryImpl::subscribers_`, as the services whose singletons are subscribed. -/
  subscribers : List ι
  /-- `Import::satisfied_` of the singleton -/
  satisfied : ι → Bool
  phase : ι → Phase

namespace Singletons

variable {ι : Type*} [DecidableEq ι]

def setSatisfied (st : Singletons ι) (excluded : ι) (satisfied : Bool) : Singletons ι :=
  { st with satisfied := Function.update st.satisfied excluded satisfied }

def isLocked (st : Singletons ι) (s : ι) : Bool := (st.phase s).isLocked

def isTopPriorityInterface (st : Singletons ι) (excluded : ι) : Bool :=
  (previous excluded st.interfaces).isNone

def isAnySiblingLocked (st : Singletons ι) : Bool := st.interfaces.any st.isLocked

/-! ### The events a singleton hears of -/

def onSubscribedCreated (st : Singletons ι) (excluded subscribed : ι) : Singletons ι :=
  if st.satisfied excluded then
    if subscribed = excluded then
      if st.isAnySiblingLocked || !st.isTopPriorityInterface excluded then
        st.setSatisfied excluded false
      else st
    else if !st.isTopPriorityInterface excluded then st.setSatisfied excluded false
    else st
  else st

def onSubscribedDestroy (st : Singletons ι) (excluded : ι) : Singletons ι :=
  if !st.satisfied excluded && st.isTopPriorityInterface excluded then
    st.setSatisfied excluded true
  else st

def onSubscribedUnlocked (st : Singletons ι) (excluded subscribed : ι) : Singletons ι :=
  if subscribed ≠ excluded then
    if !st.satisfied excluded && st.isTopPriorityInterface excluded then
      st.setSatisfied excluded true
    else st
  else if !st.isTopPriorityInterface excluded then st.setSatisfied excluded false
  else st

/-! ### The registry -/

def onInterfaceCreate (R : Ranking ι) (st : Singletons ι) (inter : ι) : Singletons ι :=
  st.subscribers.foldl (fun st sub => st.onSubscribedCreated sub inter)
    { st with interfaces := R.insertSorted inter st.interfaces }

def onInterfaceDestroy (st : Singletons ι) (inter : ι) : Singletons ι :=
  st.subscribers.foldl (fun st sub => st.onSubscribedDestroy sub)
    { st with interfaces := st.interfaces.erase inter }

def onInterfaceUnlock (st : Singletons ι) (inter : ι) : Singletons ι :=
  st.subscribers.foldl (fun st sub => st.onSubscribedUnlocked sub inter) st

/-! ### The services -/

def setPhase (st : Singletons ι) (s : ι) (p : Phase) : Singletons ι :=
  { st with phase := Function.update st.phase s p }

/-- What `Service::init` does to the singletons. The interface of a hidden service is not
published. -/
def init (R : Ranking ι) (hidden : ι → Bool) (st : Singletons ι) (s : ι) : Singletons ι :=
  let st := st.setPhase s .stopped
  let st := { st with subscribers := st.subscribers ++ [s] }
  if hidden s then st else st.onInterfaceCreate R s

/-- What `Service::destroy` does to the singletons. -/
def destroy (hidden : ι → Bool) (st : Singletons ι) (s : ι) : Singletons ι :=
  let st := if hidden s then st else st.onInterfaceDestroy s
  let st := { st with subscribers := st.subscribers.erase s }
  st.setPhase s .destroyed

/-- The transition of `do_lock_cluster`; the event of the registry only meets an assertion. -/
def lock (st : Singletons ι) (s : ι) : Singletons ι := st.setPhase s .locked

/-- The transition of `do_unlock_cluster` and the event after it. Only a head has its interfaces in
the registry. -/
def unlock (hidden : ι → Bool) (st : Singletons ι) (s : ι) : Singletons ι :=
  let st := st.setPhase s .stopped
  if hidden s then st else st.onInterfaceUnlock s

/-- The operations on the services; `move` stands for the transitions of a locked service that
leave it locked. -/
inductive Op (ι : Type*) where
  | create (s : ι)
  | destroy (s : ι)
  | lock (s : ι)
  | move (s : ι) (p : Phase)
  | unlock (s : ι)

def step (R : Ranking ι) (hidden : ι → Bool) (st : Singletons ι) : Op ι → Singletons ι
  | .create s => st.init R hidden s
  | .destroy s => st.destroy hidden s
  | .lock s => st.lock s
  | .move s p => st.setPhase s p
  | .unlock s => st.unlock hidden s

/-- What the callers of an operation ensure. A cluster is locked only when its imports, and so its
singleton, are satisfied. -/
def Pre (R : Ranking ι) (st : Singletons ι) : Op ι → Prop
  | .create s => st.phase s = .uninitialized ∧ ∀ t ∈ st.interfaces, R.address t ≠ R.address s
  | .destroy s => st.phase s = .stopped
  | .lock s => st.phase s = .stopped ∧ st.satisfied s = true
  | .move s p => st.isLocked s = true ∧ p.isLocked = true
  | .unlock s => st.phase s = .pending

/-- No service exists yet. -/
def empty : Singletons ι :=
  { interfaces := [], subscribers := [], satisfied := fun _ => true
    phase := fun _ => .uninitialized }

/-- The services of one interface id over their lives. -/
def machine (R : Ranking ι) (hidden : ι → Bool) : Machine (Singletons ι) (Op ι) where
  init st := st = empty
  pre := Pre R
  step := step R hidden

/-- A service that is locked has published its interface, and the one that comes first after an
interface has left is satisfied already unless no other service is locked. -/
def Settled (hidden : ι → Bool) (st : Singletons ι) : Op ι → Prop
  | .lock s => hidden s = false
  | .destroy s => hidden s = false → ∀ t ∈ (st.interfaces.erase s).head?,
      st.satisfied t = false → ∀ u ∈ st.interfaces, st.isLocked u = true → u = t
  | _ => True

/-! ### A round of events -/

section Events

variable {st : Singletons ι} {s t : ι}

/-- Every singleton of the list answers an event by its own bit. -/
lemma foldl_answer (st : Singletons ι) (f : Singletons ι → ι → Singletons ι)
    (answer : ι → Bool → Bool)
    (hf : ∀ satisfied s, f { st with satisfied } s =
      { st with satisfied := Function.update satisfied s (answer s (satisfied s)) })
    (satisfied : ι → Bool) {l : List ι} (hl : l.Nodup) :
    l.foldl f { st with satisfied } =
      { st with satisfied := fun s => if s ∈ l then answer s (satisfied s) else satisfied s } := by
  induction l generalizing satisfied with
  | nil => simp
  | cons a l ih =>
    obtain ⟨ha, hl⟩ := List.nodup_cons.1 hl
    rw [List.foldl_cons, hf, ih _ hl]
    congr 1
    funext s
    by_cases hs : s = a
    · subst hs
      simp [ha]
    · simp [hs]

@[simp]
lemma isTopPriorityInterface_with (satisfied : ι → Bool) :
    isTopPriorityInterface { st with satisfied } s = st.isTopPriorityInterface s :=
  rfl

omit [DecidableEq ι] in
@[simp]
lemma isAnySiblingLocked_with (satisfied : ι → Bool) :
    isAnySiblingLocked { st with satisfied } = st.isAnySiblingLocked :=
  rfl

/-- The bit that `onSubscribedCreated` leaves. -/
def createdAnswer (st : Singletons ι) (inter s : ι) (satisfied : Bool) : Bool :=
  satisfied && st.isTopPriorityInterface s && !(decide (inter = s) && st.isAnySiblingLocked)

/-- The bit that `onSubscribedDestroy` leaves. -/
def destroyAnswer (st : Singletons ι) (s : ι) (satisfied : Bool) : Bool :=
  satisfied || st.isTopPriorityInterface s

/-- The bit that `onSubscribedUnlocked` leaves. -/
def unlockedAnswer (st : Singletons ι) (inter s : ι) (satisfied : Bool) : Bool :=
  if inter = s then satisfied && st.isTopPriorityInterface s
  else satisfied || st.isTopPriorityInterface s

lemma onSubscribedCreated_answer (st : Singletons ι) (inter : ι) (satisfied : ι → Bool) (s : ι) :
    onSubscribedCreated { st with satisfied } s inter =
      { st with satisfied :=
        Function.update satisfied s (st.createdAnswer inter s (satisfied s)) } := by
  by_cases h : satisfied s = true
  · by_cases ht : st.isTopPriorityInterface s = true
    · by_cases hs : inter = s
      · by_cases ha : st.isAnySiblingLocked = true <;>
          simp [onSubscribedCreated, createdAnswer, setSatisfied, h, ht, hs, ha]
      · simp [onSubscribedCreated, createdAnswer, h, ht, hs]
    · simp [onSubscribedCreated, createdAnswer, setSatisfied, h, ht]
  · simp [onSubscribedCreated, createdAnswer, h]

lemma onSubscribedDestroy_answer (st : Singletons ι) (satisfied : ι → Bool) (s : ι) :
    onSubscribedDestroy { st with satisfied } s =
      { st with satisfied :=
        Function.update satisfied s (st.destroyAnswer s (satisfied s)) } := by
  by_cases h : satisfied s = true
  · simp [onSubscribedDestroy, destroyAnswer, h]
  · by_cases ht : st.isTopPriorityInterface s = true <;>
      simp [onSubscribedDestroy, destroyAnswer, setSatisfied, h, ht]

lemma onSubscribedUnlocked_answer (st : Singletons ι) (inter : ι) (satisfied : ι → Bool) (s : ι) :
    onSubscribedUnlocked { st with satisfied } s inter =
      { st with satisfied :=
        Function.update satisfied s (st.unlockedAnswer inter s (satisfied s)) } := by
  by_cases hs : inter = s
  · by_cases ht : st.isTopPriorityInterface s = true <;>
      simp [onSubscribedUnlocked, unlockedAnswer, setSatisfied, hs, ht]
  · by_cases h : satisfied s = true
    · simp [onSubscribedUnlocked, unlockedAnswer, hs, h]
    · by_cases ht : st.isTopPriorityInterface s = true <;>
        simp [onSubscribedUnlocked, unlockedAnswer, setSatisfied, hs, h, ht]

lemma onInterfaceCreate_eq (R : Ranking ι) (hnd : st.subscribers.Nodup) (inter : ι) :
    let st' := { st with interfaces := R.insertSorted inter st.interfaces }
    st.onInterfaceCreate R inter =
      { st' with satisfied := fun s => if s ∈ st.subscribers then
          st'.createdAnswer inter s (st.satisfied s) else st.satisfied s } := by
  intro st'
  exact foldl_answer st' _ _ (onSubscribedCreated_answer st' inter) st.satisfied hnd

lemma onInterfaceDestroy_eq (hnd : st.subscribers.Nodup) (inter : ι) :
    let st' := { st with interfaces := st.interfaces.erase inter }
    st.onInterfaceDestroy inter =
      { st' with satisfied := fun s => if s ∈ st.subscribers then
          st'.destroyAnswer s (st.satisfied s) else st.satisfied s } := by
  intro st'
  exact foldl_answer st' _ _ (onSubscribedDestroy_answer st') st.satisfied hnd

lemma onInterfaceUnlock_eq (hnd : st.subscribers.Nodup) (inter : ι) :
    st.onInterfaceUnlock inter =
      { st with satisfied := fun s => if s ∈ st.subscribers then
          st.unlockedAnswer inter s (st.satisfied s) else st.satisfied s } :=
  foldl_answer st _ _ (onSubscribedUnlocked_answer st inter) st.satisfied hnd

lemma mem_tail_of_mem_tail_erase {l : List ι} (h : t ∈ (l.erase s).tail) : t ∈ l.tail := by
  cases l with
  | nil => simp at h
  | cons a l =>
    by_cases ha : a = s
    · rw [ha, List.erase_cons_head] at h
      exact List.mem_of_mem_tail h
    · rw [List.erase_cons_tail (by simpa using ha)] at h
      exact List.mem_of_mem_erase h

omit [DecidableEq ι] in
lemma head?_of_not_mem_tail {l : List ι} (h : t ∈ l) (ht : t ∉ l.tail) : l.head? = some t := by
  cases l with
  | nil => simp at h
  | cons a l =>
    obtain rfl : t = a := (List.mem_cons.1 h).resolve_right ht
    rfl

lemma isTopPriorityInterface_iff :
    st.isTopPriorityInterface s = true ↔ s ∉ st.interfaces.tail := by
  rw [isTopPriorityInterface, Option.isNone_iff_eq_none, previous_eq_none_iff]

/-- At most one registered interface is the first one. -/
lemma isTopPriorityInterface_unique (hs : st.isTopPriorityInterface s = true)
    (hs' : s ∈ st.interfaces) (ht : st.isTopPriorityInterface t = true)
    (ht' : t ∈ st.interfaces) : s = t := by
  rw [isTopPriorityInterface_iff] at hs ht
  cases h : st.interfaces with
  | nil => simp [h] at hs'
  | cons a l =>
    rw [h] at hs hs' ht ht'
    have hsa : s = a := (List.mem_cons.1 hs').resolve_right hs
    have hta : t = a := (List.mem_cons.1 ht').resolve_right ht
    rw [hsa, hta]

lemma init_eq {R : Ranking ι} {hidden : ι → Bool} (hs : hidden s = false)
    (hnd : (st.subscribers ++ [s]).Nodup) :
    let st' : Singletons ι :=
      { interfaces := R.insertSorted s st.interfaces, subscribers := st.subscribers ++ [s]
        satisfied := st.satisfied, phase := (st.setPhase s .stopped).phase }
    st.init R hidden s =
      { st' with satisfied := fun t => if t ∈ st'.subscribers then
          st'.createdAnswer s t (st.satisfied t) else st.satisfied t } := by
  intro st'
  simp only [init, hs]
  exact onInterfaceCreate_eq R hnd s

lemma destroy_eq {hidden : ι → Bool} (hs : hidden s = false) (hnd : st.subscribers.Nodup) :
    let st' : Singletons ι :=
      { interfaces := st.interfaces.erase s, subscribers := st.subscribers.erase s
        satisfied := st.satisfied, phase := (st.setPhase s .destroyed).phase }
    st.destroy hidden s =
      { st' with satisfied := fun t => if t ∈ st.subscribers then
          st'.destroyAnswer t (st.satisfied t) else st.satisfied t } := by
  intro st'
  simp only [destroy, hs]
  rw [if_neg (by simp), onInterfaceDestroy_eq hnd s]
  rfl

end Events

/-! ### Exclusion -/

/-- What keeps the services apart. A service that may be locked is the first one, and no other one
is locked then. -/
structure Exclusive (hidden : ι → Bool) (st : Singletons ι) : Prop where
  visible : ∀ s, st.isLocked s = true → hidden s = false
  nodup : st.subscribers.Nodup
  registered : ∀ s, s ∈ st.interfaces ↔ s ∈ st.subscribers ∧ hidden s = false
  subscribed : ∀ s, s ∈ st.subscribers ↔ st.phase s ≠ .uninitialized ∧ st.phase s ≠ .destroyed
  distinct : st.interfaces.Nodup
  free : ∀ s ∈ st.interfaces, st.satisfied s = true → st.isLocked s = false →
    st.isTopPriorityInterface s = true ∧ ∀ t, st.isLocked t = false
  alone : ∀ s t, st.isLocked s = true → st.isLocked t = true → s = t

namespace Exclusive

variable {R : Ranking ι} {hidden : ι → Bool} {st : Singletons ι} {s t : ι}

lemma empty : Exclusive hidden (Singletons.empty : Singletons ι) where
  visible s hs := by simp [Singletons.empty, isLocked] at hs; cases hs
  nodup := List.nodup_nil
  registered s := by simp [Singletons.empty]
  subscribed s := by simp [Singletons.empty]
  distinct := List.nodup_nil
  free s hs := by simp [Singletons.empty] at hs
  alone s t hs := by simp [Singletons.empty, isLocked] at hs; cases hs

lemma mem_of_isLocked (h : Exclusive hidden st) (hs : st.isLocked s = true) :
    s ∈ st.interfaces := by
  refine (h.registered s).2 ⟨(h.subscribed s).2 ?_, h.visible s hs⟩
  constructor <;> intro hp <;> simp [isLocked, hp] at hs <;> cases hs

lemma not_mem_of_uninitialized (h : Exclusive hidden st) (hs : st.phase s = .uninitialized) :
    s ∉ st.subscribers :=
  fun hm => ((h.subscribed s).1 hm).1 hs

lemma mem_subscribers (h : Exclusive hidden st) (hs : s ∈ st.interfaces) : s ∈ st.subscribers :=
  ((h.registered s).1 hs).1

lemma isLocked_setPhase_eq (hs : st.isLocked s = false) {p : Phase} (hp : p.isLocked = false)
    (t : ι) :
    (st.setPhase s p).isLocked t = st.isLocked t := by
  by_cases ht : t = s
  · subst ht
    simpa [isLocked, setPhase, hp] using hs.symm
  · simp [isLocked, setPhase, ht]

omit [DecidableEq ι] in
lemma isLocked_eq_false_of_phase {p : Phase} (hs : st.phase s = p) (hp : p.isLocked = false) :
    st.isLocked s = false := by
  rw [isLocked, hs, hp]

/-- Nobody hears of a hidden service. -/
lemma init_hidden (h : Exclusive hidden st) (hp : st.phase s = .uninitialized)
    (hs : hidden s = true) : Exclusive hidden (st.init R hidden s) := by
  have hsub := h.not_mem_of_uninitialized hp
  have hlock := isLocked_setPhase_eq (isLocked_eq_false_of_phase hp rfl) (p := .stopped) rfl
  simp only [Singletons.init, hs, if_true]
  refine ⟨fun t ht => h.visible t ((hlock t).symm.trans ht),
    h.nodup.append (List.nodup_singleton s) (by simpa), fun t => ?_, fun t => ?_, h.distinct,
    fun t ht hsat hun => ?_, fun t u ht hu => ?_⟩
  · by_cases ht : t = s
    · simpa [setPhase, ht, hs] using fun hm => hsub (h.mem_subscribers hm)
    · simpa [setPhase, ht] using h.registered t
  · by_cases ht : t = s
    · simp [setPhase, ht]
    · simpa [setPhase, ht] using h.subscribed t
  · obtain ⟨htop, hnone⟩ := h.free t ht hsat ((hlock t).symm.trans hun)
    exact ⟨htop, fun u => (hlock u).trans (hnone u)⟩
  · exact h.alone t u ((hlock t).symm.trans ht) ((hlock u).symm.trans hu)

/-- The new interface hears of itself last, when it is in the list. -/
lemma init_visible (h : Exclusive hidden st) (hp : st.phase s = .uninitialized)
    (hs : hidden s = false) : Exclusive hidden (st.init R hidden s) := by
  have hsub := h.not_mem_of_uninitialized hp
  have hmem : s ∉ st.interfaces := fun hm => hsub (h.mem_subscribers hm)
  have hnd : (st.subscribers ++ [s]).Nodup := h.nodup.append (List.nodup_singleton s) (by simpa)
  have hlock := isLocked_setPhase_eq (isLocked_eq_false_of_phase hp rfl) (p := .stopped) rfl
  rw [init_eq hs hnd]
  refine ⟨fun t ht => h.visible t ((hlock t).symm.trans ht), hnd, fun t => ?_, fun t => ?_, ?_,
    fun t ht hsat hun => ?_, fun t u ht hu => ?_⟩
  · by_cases ht : t = s
    · simp [ht, hs]
    · simpa [ht] using h.registered t
  · by_cases ht : t = s
    · simp [setPhase, ht]
    · simpa [setPhase, ht] using h.subscribed t
  · exact Ranking.nodup_insertSorted h.distinct hmem
  · -- a singleton that is satisfied afterwards is the first one and was not kept back
    have ht' : t = s ∨ t ∈ st.interfaces := by simpa using ht
    have hin : t ∈ st.subscribers ++ [s] := by
      rcases ht' with rfl | ht'
      · simp
      · exact List.mem_append_left _ (h.mem_subscribers ht')
    simp only [hin, if_true, createdAnswer, Bool.and_eq_true] at hsat
    obtain ⟨⟨hsat, htop⟩, hany⟩ := hsat
    refine ⟨htop, fun u => ?_⟩
    by_cases hts : s = t
    · -- the singleton has looked at all of its siblings
      have hnone : ∀ u ∈ R.insertSorted s st.interfaces,
          (st.setPhase s .stopped).isLocked u = false := by
        simpa [hts, isAnySiblingLocked, isLocked] using hany
      by_cases hu : st.isLocked u = true
      · exact hnone u (by simp [h.mem_of_isLocked hu])
      · exact (hlock u).trans (by simpa using hu)
    · have ht' : t ∈ st.interfaces := ht'.resolve_left fun e => hts e.symm
      exact (hlock u).trans ((h.free t ht' hsat ((hlock t).symm.trans hun)).2 u)
  · exact h.alone t u ((hlock t).symm.trans ht) ((hlock u).symm.trans hu)

lemma init (h : Exclusive hidden st) (hp : st.phase s = .uninitialized) :
    Exclusive hidden (st.init R hidden s) := by
  cases hs : hidden s with
  | true => exact h.init_hidden hp hs
  | false => exact h.init_visible hp hs

lemma mem_of_stopped (h : Exclusive hidden st) (hs : st.phase s = .stopped) :
    s ∈ st.subscribers := by
  simp [h.subscribed, hs]

lemma destroy_hidden (h : Exclusive hidden st) (hp : st.phase s = .stopped)
    (hs : hidden s = true) : Exclusive hidden (st.destroy hidden s) := by
  have hlock := isLocked_setPhase_eq (isLocked_eq_false_of_phase hp rfl) (p := .destroyed) rfl
  simp only [Singletons.destroy, hs, if_true]
  refine ⟨fun t ht => h.visible t ((hlock t).symm.trans ht), h.nodup.erase s, fun t => ?_,
    fun t => ?_, h.distinct, fun t ht hsat hun => ?_, fun t u ht hu => ?_⟩
  · by_cases ht : t = s
    · simpa [setPhase, ht, hs] using h.registered s
    · simpa [setPhase, ht, h.nodup.mem_erase_iff] using h.registered t
  · by_cases ht : t = s
    · simp [setPhase, ht, h.nodup.mem_erase_iff]
    · simpa [setPhase, ht, h.nodup.mem_erase_iff] using h.subscribed t
  · obtain ⟨htop, hnone⟩ := h.free t ht hsat ((hlock t).symm.trans hun)
    exact ⟨htop, fun u => (hlock u).trans (hnone u)⟩
  · exact h.alone t u ((hlock t).symm.trans ht) ((hlock u).symm.trans hu)

/-- The singletons that the destruction of `s` makes satisfied are first in the list. -/
lemma destroy_visible (h : Exclusive hidden st) (hp : st.phase s = .stopped)
    (hs : hidden s = false) (hset : Settled hidden st (.destroy s)) :
    Exclusive hidden (st.destroy hidden s) := by
  have hlock := isLocked_setPhase_eq (isLocked_eq_false_of_phase hp rfl) (p := .destroyed) rfl
  rw [destroy_eq hs h.nodup]
  have herase : ∀ t, t ∈ st.interfaces.erase s ↔ t ≠ s ∧ t ∈ st.interfaces :=
    fun t => h.distinct.mem_erase_iff
  refine ⟨fun t ht => h.visible t ((hlock t).symm.trans ht), h.nodup.erase s, fun t => ?_,
    fun t => ?_, h.distinct.erase s, fun t ht hsat hun => ?_, fun t u ht hu => ?_⟩
  · simp [herase, h.nodup.mem_erase_iff, h.registered, and_assoc]
  · by_cases ht : t = s
    · simp [setPhase, ht, h.nodup.mem_erase_iff]
    · simpa [setPhase, ht, h.nodup.mem_erase_iff] using h.subscribed t
  · obtain ⟨-, ht'⟩ := (herase t).1 ht
    have hun' := (hlock t).symm.trans hun
    by_cases hsat' : st.satisfied t = true
    · obtain ⟨htop, hnone⟩ := h.free t ht' hsat' hun'
      refine ⟨?_, fun u => (hlock u).trans (hnone u)⟩
      rw [isTopPriorityInterface_iff] at htop ⊢
      exact fun hm => htop (mem_tail_of_mem_tail_erase hm)
    · -- the condition speaks of the new first interface
      simp only [h.mem_subscribers ht', if_true, destroyAnswer, hsat', Bool.false_or] at hsat
      refine ⟨hsat, fun u => (hlock u).trans ?_⟩
      have hfront := head?_of_not_mem_tail ht (isTopPriorityInterface_iff.1 hsat)
      by_contra hu
      have hu : st.isLocked u = true := by simpa using hu
      have hut := hset hs t hfront (by simpa using hsat') u (h.mem_of_isLocked hu) hu
      simp [hut, hun'] at hu
  · exact h.alone t u ((hlock t).symm.trans ht) ((hlock u).symm.trans hu)

lemma destroy (h : Exclusive hidden st) (hp : st.phase s = .stopped)
    (hset : Settled hidden st (.destroy s)) : Exclusive hidden (st.destroy hidden s) := by
  cases hs : hidden s with
  | true => exact h.destroy_hidden hp hs
  | false => exact h.destroy_visible hp hs hset

lemma lock (h : Exclusive hidden st) (hp : st.phase s = .stopped) (hsat : st.satisfied s = true)
    (hs : hidden s = false) : Exclusive hidden (st.lock s) := by
  have hmem := (h.registered s).2 ⟨h.mem_of_stopped hp, hs⟩
  obtain ⟨htop, hnone⟩ := h.free s hmem hsat (isLocked_eq_false_of_phase hp rfl)
  have hlock : ∀ t, (st.lock s).isLocked t = true → t = s := by
    intro t ht
    by_contra hts
    have := hnone t
    simp_all [isLocked, Singletons.lock, setPhase]
  refine ⟨fun t ht => hlock t ht ▸ hs, h.nodup, h.registered, fun t => ?_, h.distinct,
    fun t ht hsat' hun => ?_, fun t u ht hu => (hlock t ht).trans (hlock u hu).symm⟩
  · by_cases ht : t = s
    · subst ht
      simpa [Singletons.lock, setPhase] using h.mem_of_stopped hp
    · simpa [Singletons.lock, setPhase, ht] using h.subscribed t
  · -- another satisfied singleton would be the first one too
    exfalso
    have hts : t ≠ s := by
      rintro rfl
      simp [isLocked, Singletons.lock, setPhase] at hun
    exact hts (isTopPriorityInterface_unique (h.free t ht hsat' (hnone t)).1 ht htop hmem)

/-- A locked service that stays locked. -/
lemma move (h : Exclusive hidden st) (hs : st.isLocked s = true) {p : Phase}
    (hp : p.isLocked = true) :
    Exclusive hidden (st.setPhase s p) := by
  have hlock : ∀ t, (st.setPhase s p).isLocked t = st.isLocked t := by
    intro t
    by_cases ht : t = s
    · subst ht
      simpa [isLocked, setPhase, hp] using hs.symm
    · simp [isLocked, setPhase, ht]
  refine ⟨fun t ht => h.visible t ((hlock t).symm.trans ht), h.nodup, h.registered, fun t => ?_,
    h.distinct, fun t ht hsat hun => ?_,
    fun t u ht hu => h.alone t u ((hlock t).symm.trans ht) ((hlock u).symm.trans hu)⟩
  · by_cases ht : t = s
    · subst ht
      have : p ≠ .uninitialized ∧ p ≠ .destroyed := by
        cases p <;> simp_all [Phase.isLocked] <;> cases hp
      simpa [setPhase, this] using h.mem_subscribers (h.mem_of_isLocked hs)
    · simpa [setPhase, ht] using h.subscribed t
  · obtain ⟨htop, hnone⟩ := h.free t ht hsat ((hlock t).symm.trans hun)
    exact ⟨htop, fun u => (hlock u).trans (hnone u)⟩

/-- After the only locked service has been unlocked, whoever is first may be locked. -/
lemma unlock (h : Exclusive hidden st) (hp : st.phase s = .pending) :
    Exclusive hidden (st.unlock hidden s) := by
  have hs : st.isLocked s = true := by simp [isLocked, hp]
  have hmem := h.mem_of_isLocked hs
  have hnone : ∀ t, (st.setPhase s .stopped).isLocked t = false := by
    intro t
    by_cases hts : t = s
    · simp [isLocked, setPhase, hts]
    · by_contra ht
      have ht : st.isLocked t = true := by simpa [isLocked, setPhase, hts] using ht
      exact hts (h.alone t s ht hs)
  have e : st.unlock hidden s = (st.setPhase s .stopped).onInterfaceUnlock s := by
    simp [Singletons.unlock, h.visible s hs]
  have hnd : (st.setPhase s .stopped).subscribers.Nodup := h.nodup
  rw [e, onInterfaceUnlock_eq hnd]
  refine ⟨fun t ht => absurd ((hnone t).symm.trans ht) (by simp), h.nodup, h.registered,
    fun t => ?_, h.distinct, fun t ht hsat hun => ?_,
    fun t u ht hu => absurd ((hnone t).symm.trans ht) (by simp)⟩
  · by_cases ht : t = s
    · subst ht
      simpa [setPhase] using h.mem_subscribers hmem
    · simpa [setPhase, ht] using h.subscribed t
  · refine ⟨?_, hnone⟩
    have hin : t ∈ (st.setPhase s .stopped).subscribers := h.mem_subscribers ht
    simp only [hin, if_true, unlockedAnswer] at hsat
    by_cases hst : s = t
    · simp only [hst, if_true, Bool.and_eq_true] at hsat
      exact hsat.2
    · -- while `s` was locked no other singleton was satisfied
      simp only [hst, if_false, Bool.or_eq_true] at hsat
      refine hsat.resolve_left fun hsat => ?_
      have hun' : st.isLocked t = false := by
        by_contra hl
        exact hst (h.alone s t hs (by simpa using hl))
      exact absurd ((h.free t ht hsat hun').2 s) (by simp [hs])

/-- One step of a run. -/
lemma step (h : Exclusive hidden st) {op : Op ι} (hpre : Pre R st op)
    (hset : Settled hidden st op) : Exclusive hidden (st.step R hidden op) := by
  cases op with
  | create s => exact h.init hpre.1
  | destroy s => exact h.destroy hpre hset
  | lock s => exact h.lock hpre.1 hpre.2 hset
  | move s p => exact h.move hpre.1 hpre.2
  | unlock s => exact h.unlock hpre

end Exclusive

/-- In a run that locks no hidden service, and whose destructions leave no locked service behind a
newly satisfied one, at most one of the services is in a phase between locked and pending. -/
theorem locked_unique {R : Ranking ι} {hidden : ι → Bool} {st : Singletons ι}
    (h : (machine R hidden).Reachable (Settled hidden) st) {s t : ι}
    (hs : (st.phase s).isLocked = true) (ht : (st.phase t).isLocked = true) : s = t := by
  have hex : Exclusive hidden st := h.invariant (fun st hst => hst ▸ Exclusive.empty)
    fun st op _ hex hpre hset => hex.step hpre hset
  exact hex.alone s t hs ht

/-! ### Two runs -/

instance Pre.decidable (R : Ranking ι) (st : Singletons ι) : (op : Op ι) → Decidable (Pre R st op)
  | .create _ => inferInstanceAs (Decidable (_ ∧ _))
  | .destroy _ => inferInstanceAs (Decidable (_ = _))
  | .lock _ => inferInstanceAs (Decidable (_ ∧ _))
  | .move _ _ => inferInstanceAs (Decidable (_ ∧ _))
  | .unlock _ => inferInstanceAs (Decidable (_ = _))

instance machine.decidablePre (R : Ranking ι) (hidden : ι → Bool) (st : Singletons ι) (op : Op ι) :
    Decidable ((machine R hidden).pre st op) :=
  Pre.decidable R st op

instance Settled.decidable (hidden : ι → Bool) (st : Singletons ι) :
    (op : Op ι) → Decidable (Settled hidden st op)
  | .create _ => .isTrue trivial
  | .destroy s => inferInstanceAs (Decidable (_ → ∀ t ∈ (st.interfaces.erase s).head?, _))
  | .lock _ => inferInstanceAs (Decidable (_ = _))
  | .move _ _ => .isTrue trivial
  | .unlock _ => .isTrue trivial

/-- Service 1 is locked when the preferred service 2 appears, and hands over to it. -/
def handoverRun : List (Op Nat) :=
  [.create 1, .lock 1, .move 1 .running, .create 2, .move 1 .pending, .unlock 1, .lock 2,
    .destroy 1]

theorem locked_unique_handoverRun :
    let st := handoverRun.foldl (machine Ranking.byNumber fun _ => false).step empty
    (st.phase 2).isLocked = true ∧ ∀ s, (st.phase s).isLocked = true → s = 2 := by
  have hlocked :
      ((handoverRun.foldl (machine Ranking.byNumber fun _ => false).step empty).phase 2).isLocked =
        true := by
    decide
  have hreach : (machine Ranking.byNumber fun _ => false).Reachable (Settled fun _ => false)
      (handoverRun.foldl (machine Ranking.byNumber fun _ => false).step empty) :=
    .run (.init rfl) (by decide)
  exact ⟨hlocked, fun s hs => locked_unique hreach hs hlocked⟩

/-- Service 2 is locked when the preferred service 3 appears; then service 1 comes and goes. -/
def bystanderRun : List (Op Nat) :=
  [.create 2, .lock 2, .create 3, .create 1, .destroy 1, .lock 3]

theorem bystanderRun_locks_two :
    ∃ st, (machine Ranking.byNumber fun _ => false).Reachable (fun _ _ => True) st ∧
      (st.phase 2).isLocked = true ∧ (st.phase 3).isLocked = true := by
  refine ⟨bystanderRun.foldl (machine Ranking.byNumber fun _ => false).step empty, ?_, ?_, ?_⟩
  · exact .run (.init rfl) (by decide)
  · decide
  · decide

end Singletons

end Idle
