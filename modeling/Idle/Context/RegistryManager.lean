import Idle.Library.Machine
import Idle.Parts.Registry

/-!
# The registry manager

`RegistryManager` creates the registry of an id when it is asked for and keeps a weak reference to
it. The last one who lets go of a registry may be on any thread, so its entry is cleaned up later,
by a work on the event loop, and another registry may have been created for the id in between. To
whoever publishes and subscribes this looks like one registry for each id that is always there.
-/

namespace Idle

/-- `RegistryImpl`: no two of them are created with the same number. -/
structure RegistryImpl (ι : Type) where
  number : Nat
  id : ι
  deriving DecidableEq, Repr

/-- An interface, a subscriber or anything else with a `registry_entry_`. -/
abbrev RegistryUser := Nat

/-- The lists `interfaces_` and `subscribers_` of a registry. -/
structure RegistryLists where
  interfaces : List RegistryUser := []
  subscribers : List RegistryUser := []
  deriving DecidableEq, Repr

/-- What a user does to the lists of its registry. -/
inductive RegistryUse where
  | onInterfaceCreate
  | onInterfaceDestroy
  | subscriberAdd
  | subscriberDel
  deriving DecidableEq, Repr

namespace RegistryUse

/-- The new interface is sorted in, a subscriber is added at the end. -/
def apply (R : Ranking RegistryUser) (user : RegistryUser) (l : RegistryLists) :
    RegistryUse → RegistryLists
  | onInterfaceCreate => { l with interfaces := R.insertSorted user l.interfaces }
  | onInterfaceDestroy => { l with interfaces := l.interfaces.erase user }
  | subscriberAdd => { l with subscribers := l.subscribers ++ [user] }
  | subscriberDel => { l with subscribers := l.subscribers.erase user }

/-- The assertions about `contains_unsafe`. -/
def Asserts (user : RegistryUser) (l : RegistryLists) : RegistryUse → Prop
  | onInterfaceCreate => user ∉ l.interfaces
  | subscriberAdd => user ∉ l.subscribers
  | _ => True

instance (user : RegistryUser) (l : RegistryLists) :
    (u : RegistryUse) → Decidable (u.Asserts user l)
  | onInterfaceCreate => inferInstanceAs (Decidable (user ∉ l.interfaces))
  | subscriberAdd => inferInstanceAs (Decidable (user ∉ l.subscribers))
  | onInterfaceDestroy | subscriberDel => .isTrue trivial

end RegistryUse

/-- Whether a user is in one of the lists. -/
def RegistryLists.Mem (user : RegistryUser) (l : RegistryLists) : Prop :=
  user ∈ l.interfaces ∨ user ∈ l.subscribers

instance (user : RegistryUser) (l : RegistryLists) : Decidable (l.Mem user) :=
  inferInstanceAs (Decidable (_ ∨ _))

/-- `RegistryManager` with its registries, and who refers to them. -/
structure RegistryManager (ι : Type) where
  /-- The weak references of `entries_`. -/
  entries : ι → Option (RegistryImpl ι)
  created : Nat
  registryEntry : RegistryUser → Option (RegistryImpl ι)
  /-- The strong references to a registry. -/
  owners : RegistryImpl ι → List RegistryUser
  lists : RegistryImpl ι → RegistryLists
  /-- The registries that have lost their last owner and whose destructor has not run yet. -/
  expired : List (RegistryImpl ι)
  /-- The works that were posted by destructors. -/
  posted : List ι

inductive RegistryManagerOp (ι : Type) where
  /-- `registry_entry_ = find(id)` -/
  | find (user : RegistryUser) (id : ι)
  | use (user : RegistryUser) (u : RegistryUse)
  /-- `registry_entry_.reset()` -/
  | reset (user : RegistryUser)
  /-- `~RegistryImpl`, on the event loop or on another thread. -/
  | destruct (registry : RegistryImpl ι) (onEventLoop : Bool)
  /-- A posted work runs. -/
  | cleanup (id : ι)
  deriving DecidableEq, Repr

namespace RegistryManager

variable {ι : Type} [DecidableEq ι] (m : RegistryManager ι)

def initial (ι : Type) : RegistryManager ι :=
  ⟨fun _ => none, 0, fun _ => none, fun _ => [], fun _ => {}, [], []⟩

/-- Whether a weak reference can be locked. -/
def IsAlive (r : RegistryImpl ι) : Prop := m.owners r ≠ []

instance (r : RegistryImpl ι) : Decidable (m.IsAlive r) := inferInstanceAs (Decidable (_ ≠ _))

/-- `user` takes a strong reference. -/
def acquire (user : RegistryUser) (r : RegistryImpl ι) : RegistryManager ι :=
  { m with
    registryEntry := Function.update m.registryEntry user (some r)
    owners := Function.update m.owners r (user :: m.owners r) }

/-- `make_ref<RegistryImpl>`, which is stored in the entry. -/
def create (id : ι) : RegistryManager ι :=
  { m with
    entries := Function.update m.entries id (some ⟨m.created, id⟩)
    created := m.created + 1
    lists := Function.update m.lists ⟨m.created, id⟩ {} }

/-- `findImpl` -/
def find (user : RegistryUser) (id : ι) : RegistryManager ι :=
  match m.entries id with
  | some entry =>
    if m.IsAlive entry then m.acquire user entry else (m.create id).acquire user ⟨m.created, id⟩
  | none => (m.create id).acquire user ⟨m.created, id⟩

def use (R : Ranking RegistryUser) (user : RegistryUser) (u : RegistryUse) : RegistryManager ι :=
  match m.registryEntry user with
  | some r => { m with lists := Function.update m.lists r (u.apply R user (m.lists r)) }
  | none => m

/-- The destructor is about to run if there is no owner left. -/
def expire (r : RegistryImpl ι) : RegistryManager ι :=
  if m.IsAlive r then m else { m with expired := r :: m.expired }

/-- The reference of `user` to `r` is dropped. -/
def release (user : RegistryUser) (r : RegistryImpl ι) : RegistryManager ι :=
  { m with
    registryEntry := Function.update m.registryEntry user none
    owners := Function.update m.owners r ((m.owners r).erase user) }

def reset (user : RegistryUser) : RegistryManager ι :=
  match m.registryEntry user with
  | some r => (m.release user r).expire r
  | none => m

/-- `onRegistryEntryDestroy` -/
def onRegistryEntryDestroy (id : ι) : RegistryManager ι :=
  match m.entries id with
  | some entry =>
    if m.IsAlive entry then m else { m with entries := Function.update m.entries id none }
  | none => m

/-- `~RegistryImpl` dispatches the cleanup, which is to run it at once on the event loop. -/
def destruct (r : RegistryImpl ι) (onEventLoop : Bool) : RegistryManager ι :=
  let m := { m with expired := m.expired.erase r }
  if onEventLoop then m.onRegistryEntryDestroy r.id else { m with posted := m.posted ++ [r.id] }

def cleanup (id : ι) : RegistryManager ι :=
  { m with posted := m.posted.erase id }.onRegistryEntryDestroy id

end RegistryManager

/-! ### One registry for each id -/

/-- What the users of the manager rely on: every id has its lists, from the beginning to the end. -/
structure Registries (ι : Type) where
  subject : RegistryUser → Option ι
  lists : ι → RegistryLists

/-- The manager, next to what it is for. -/
structure RegistryRun (ι : Type) where
  manager : RegistryManager ι
  registries : Registries ι

namespace RegistryManagerOp

variable {ι : Type} [DecidableEq ι]

/-- The registries do not depend on when one of them is created, destructed or cleaned up. -/
def apply (R : Ranking RegistryUser) (s : Registries ι) : RegistryManagerOp ι → Registries ι
  | find user id => { s with subject := Function.update s.subject user (some id) }
  | use user u =>
    match s.subject user with
    | some id => { s with lists := Function.update s.lists id (u.apply R user (s.lists id)) }
    | none => s
  | reset user => { s with subject := Function.update s.subject user none }
  | destruct _ _ | cleanup _ => s

def exec (R : Ranking RegistryUser) (m : RegistryManager ι) :
    RegistryManagerOp ι → RegistryManager ι
  | find user id => m.find user id
  | use user u => m.use R user u
  | reset user => m.reset user
  | destruct r onEventLoop => m.destruct r onEventLoop
  | cleanup id => m.cleanup id

/-- A user finds a registry before it uses it, and lets go of it when it is in none of its lists. -/
def Pre (m : RegistryManager ι) : RegistryManagerOp ι → Prop
  | find user _ => m.registryEntry user = none
  | use user u => ∃ r ∈ m.registryEntry user, u.Asserts user (m.lists r)
  | reset user => ∃ r ∈ m.registryEntry user, ¬(m.lists r).Mem user
  | destruct r _ => r ∈ m.expired
  | cleanup id => id ∈ m.posted

instance (m : RegistryManager ι) : (op : RegistryManagerOp ι) → Decidable (op.Pre m)
  | find _ _ => inferInstanceAs (Decidable (_ = _))
  | use user u =>
    inferInstanceAs (Decidable (∃ r ∈ m.registryEntry user, u.Asserts user (m.lists r)))
  | reset user =>
    inferInstanceAs (Decidable (∃ r ∈ m.registryEntry user, ¬(m.lists r).Mem user))
  | destruct _ _ => inferInstanceAs (Decidable (_ ∈ _))
  | cleanup _ => inferInstanceAs (Decidable (_ ∈ _))

end RegistryManagerOp

/-- All orders in which registries are found, used, let go and cleaned up. -/
def registryRuns (ι : Type) [DecidableEq ι] (R : Ranking RegistryUser) :
    Machine (RegistryRun ι) (RegistryManagerOp ι) where
  init s := s = ⟨.initial ι, fun _ => none, fun _ => {}⟩
  pre s op := op.Pre s.manager
  step s op := ⟨op.exec R s.manager, op.apply R s.registries⟩

instance {ι : Type} [DecidableEq ι] (R : Ranking RegistryUser) (s : RegistryRun ι)
    (op : RegistryManagerOp ι) : Decidable ((registryRuns ι R).pre s op) :=
  inferInstanceAs (Decidable (op.Pre s.manager))

/-! ### The weak references -/

namespace RegistryManager

variable {ι : Type} {m : RegistryManager ι} {user other : RegistryUser} {id : ι}
  {r r' : RegistryImpl ι}

/-- A registry that is referred to is the one of its entry. -/
structure Valid (m : RegistryManager ι) : Prop where
  owned (user : RegistryUser) (r : RegistryImpl ι) :
    user ∈ m.owners r ↔ m.registryEntry user = some r
  nodup (r : RegistryImpl ι) : (m.owners r).Nodup
  entry (r : RegistryImpl ι) : m.IsAlive r → m.entries r.id = some r
  id_eq (id : ι) (r : RegistryImpl ι) : m.entries id = some r → r.id = id
  numbered (r : RegistryImpl ι) : m.IsAlive r ∨ r ∈ m.expired → r.number < m.created
  dead (r : RegistryImpl ι) : r ∈ m.expired → ¬m.IsAlive r

/-- An entry that cannot be locked is going to be looked at by a destructor or by a work. -/
def Tidy (m : RegistryManager ι) : Prop :=
  ∀ id r, m.entries id = some r → m.IsAlive r ∨ r ∈ m.expired ∨ id ∈ m.posted

lemma valid_initial : (initial ι).Valid := by
  constructor <;> simp [initial, IsAlive]

lemma tidy_initial : (initial ι).Tidy := by
  simp [Tidy, initial]

lemma Valid.isAlive_iff (h : m.Valid) : m.IsAlive r ↔ ∃ user, m.registryEntry user = some r := by
  simp only [IsAlive, ne_eq, List.eq_nil_iff_forall_not_mem, not_forall, not_not, h.owned]

lemma Valid.isAlive (h : m.Valid) (hr : m.registryEntry user = some r) : m.IsAlive r :=
  h.isAlive_iff.2 ⟨user, hr⟩

/-- Who refers to registries of one id refers to one registry. -/
lemma Valid.eq_of_id (h : m.Valid) (hr : m.IsAlive r) (hr' : m.IsAlive r') (hid : r.id = r'.id) :
    r = r' := by
  have h₁ := h.entry r hr
  rw [hid, h.entry r' hr'] at h₁
  exact (Option.some.inj h₁).symm

variable [DecidableEq ι]

lemma isAlive_acquire : (m.acquire user r).IsAlive r' ↔ r' = r ∨ m.IsAlive r' := by
  by_cases hr : r' = r
  · subst hr
    simp [acquire, IsAlive]
  · simp [acquire, IsAlive, hr]

lemma Valid.acquire (h : m.Valid) (hu : m.registryEntry user = none)
    (hr : m.entries r.id = some r) (hn : r.number < m.created) (hd : r ∉ m.expired) :
    (m.acquire user r).Valid where
  owned := by
    intro u x
    have hown := h.owned u x
    simp only [RegistryManager.acquire, Function.update_apply]
    grind
  nodup := by
    intro x
    have hnot : user ∉ m.owners r := by simp [h.owned, hu]
    simp only [RegistryManager.acquire, Function.update_apply]
    split
    · exact List.nodup_cons.2 ⟨hnot, h.nodup r⟩
    · exact h.nodup x
  entry := by
    intro x hx
    obtain rfl | hx := isAlive_acquire.1 hx
    · exact hr
    · exact h.entry x hx
  id_eq := h.id_eq
  numbered := by
    rintro x (hx | hx)
    · obtain rfl | hx := isAlive_acquire.1 hx
      · exact hn
      · exact h.numbered x (.inl hx)
    · exact h.numbered x (.inr hx)
  dead := by
    intro x hx hal
    obtain rfl | hal := isAlive_acquire.1 hal
    · exact hd hx
    · exact h.dead x hx hal

/-- A registry is only created if none of the id is referred to. -/
lemma Valid.create (h : m.Valid) (hid : ∀ r, m.entries id = some r → ¬m.IsAlive r) :
    (m.create id).Valid where
  owned := h.owned
  nodup := h.nodup
  entry := by
    intro x hx
    have hne : x.id ≠ id := by
      rintro rfl
      exact hid x (h.entry x hx) hx
    simp only [RegistryManager.create, Function.update_of_ne hne]
    exact h.entry x hx
  id_eq := by
    intro i x hx
    have := h.id_eq i x
    simp only [RegistryManager.create, Function.update_apply] at hx
    grind
  numbered := fun x hx => (h.numbered x hx).trans (Nat.lt_succ_self _)
  dead := h.dead

/-- What `find` does: it takes a reference to the registry of the entry, or to a new one. -/
lemma find_cases (m : RegistryManager ι) (user : RegistryUser) (id : ι) :
    (∃ r, m.entries id = some r ∧ m.IsAlive r ∧ m.find user id = m.acquire user r) ∨
      (∀ r, m.entries id = some r → ¬m.IsAlive r) ∧
        m.find user id = (m.create id).acquire user ⟨m.created, id⟩ := by
  simp only [find]
  split
  next entry he =>
    by_cases hal : m.IsAlive entry
    · exact .inl ⟨entry, he, hal, by simp [hal]⟩
    · refine .inr ⟨?_, by simp [hal]⟩
      intro r hr
      rw [he] at hr
      exact Option.some.inj hr ▸ hal
  next he => exact .inr ⟨by simp [he], rfl⟩

lemma find_registryEntry_of_ne (m : RegistryManager ι) (id : ι) (h : other ≠ user) :
    (m.find user id).registryEntry other = m.registryEntry other := by
  obtain ⟨r, -, -, heq⟩ | ⟨-, heq⟩ := m.find_cases user id <;> rw [heq] <;>
    simp [RegistryManager.acquire, create, h]

lemma Valid.find (h : m.Valid) (hu : m.registryEntry user = none) : (m.find user id).Valid := by
  obtain ⟨r, hr, hal, heq⟩ | ⟨hdead, heq⟩ := m.find_cases user id
  · rw [heq]
    refine h.acquire hu ?_ (h.numbered r (.inl hal)) fun hx => h.dead r hx hal
    rw [h.id_eq id r hr]
    exact hr
  · rw [heq]
    refine (h.create hdead).acquire hu (by simp [RegistryManager.create])
      (Nat.lt_succ_self _) fun hx => ?_
    exact (h.numbered ⟨m.created, id⟩ (.inr hx)).false

lemma Tidy.find (h : m.Tidy) : (m.find user id).Tidy := by
  obtain ⟨r, -, -, heq⟩ | ⟨-, heq⟩ := m.find_cases user id
  · rw [heq]
    intro i x hx
    obtain hx | hx := h i x hx
    · exact .inl (isAlive_acquire.2 (.inr hx))
    · exact .inr hx
  · rw [heq]
    intro i x hx
    have hx' := h i x
    rw [isAlive_acquire]
    simp only [acquire, create, Function.update_apply] at hx
    split at hx
    · exact .inl (.inl (Option.some.inj hx).symm)
    · obtain hx | hx := hx' hx
      · exact .inl (.inr hx)
      · exact .inr hx

lemma isAlive_of_release (hr : (m.release user r).IsAlive r') : m.IsAlive r' := by
  intro hnil
  refine hr ?_
  by_cases h : r' = r
  · subst h
    simp [release, hnil]
  · simpa [release, h] using hnil

lemma Valid.release (h : m.Valid) (hr : m.registryEntry user = some r) :
    (m.release user r).Valid where
  owned := by
    intro u x
    have hown := h.owned u x
    have her := (h.nodup r).mem_erase_iff (a := user) (b := u)
    simp only [RegistryManager.release, Function.update_apply]
    grind
  nodup := by
    intro x
    simp only [RegistryManager.release, Function.update_apply]
    split
    · exact (h.nodup r).erase user
    · exact h.nodup x
  entry := fun x hx => h.entry x (isAlive_of_release hx)
  id_eq := h.id_eq
  numbered := fun x hx => h.numbered x (hx.imp_left isAlive_of_release)
  dead := fun x hx hal => h.dead x hx (isAlive_of_release hal)

omit [DecidableEq ι] in
lemma Valid.expire (h : m.Valid) (hn : r.number < m.created) : (m.expire r).Valid := by
  simp only [RegistryManager.expire]
  split
  next => exact h
  next hal =>
    refine ⟨h.owned, h.nodup, h.entry, h.id_eq, fun x hx => ?_, fun x hx => ?_⟩
    · obtain hx | hx := hx
      · exact h.numbered x (.inl hx)
      · obtain rfl | hx := List.mem_cons.1 hx
        · exact hn
        · exact h.numbered x (.inr hx)
    · obtain rfl | hx := List.mem_cons.1 hx
      · exact hal
      · exact h.dead x hx

lemma Valid.reset (h : m.Valid) : (m.reset user).Valid := by
  simp only [RegistryManager.reset]
  split
  next r hr => exact (h.release hr).expire (h.numbered r (.inl (h.isAlive hr)))
  next => exact h

/-- Nothing but the registry that is let go loses its last owner. -/
lemma isAlive_release_of_ne (hr : r' ≠ r) : (m.release user r).IsAlive r' ↔ m.IsAlive r' := by
  simp [release, IsAlive, hr]

lemma Tidy.reset (h : m.Tidy) : (m.reset user).Tidy := by
  simp only [RegistryManager.reset]
  split
  next r hr =>
    intro i x hx
    simp only [expire] at hx ⊢
    split at hx
    next hal =>
      rw [if_pos hal]
      by_cases hxr : x = r
      · exact .inl (hxr ▸ hal)
      · exact (h i x hx).imp_left (isAlive_release_of_ne hxr).2
    next hal =>
      rw [if_neg hal]
      by_cases hxr : x = r
      · exact .inr (.inl (hxr ▸ List.mem_cons_self))
      · obtain hx | hx | hx := h i x hx
        · exact .inl ((isAlive_release_of_ne hxr).2 hx)
        · exact .inr (.inl (List.mem_cons_of_mem r hx))
        · exact .inr (.inr hx)
  next => exact h

/-! ### The cleanup -/

/-- An entry is only dropped if it cannot be locked. -/
lemma onRegistryEntryDestroy_cases (m : RegistryManager ι) (id : ι) :
    m.onRegistryEntryDestroy id = m ∧ (∀ r, m.entries id = some r → m.IsAlive r) ∨
      (∃ r, m.entries id = some r ∧ ¬m.IsAlive r) ∧ m.onRegistryEntryDestroy id =
        { m with entries := Function.update m.entries id none } := by
  simp only [onRegistryEntryDestroy]
  split
  next entry he =>
    by_cases hal : m.IsAlive entry
    · refine .inl ⟨by simp [hal], fun r hr => ?_⟩
      rw [he] at hr
      exact Option.some.inj hr ▸ hal
    · exact .inr ⟨⟨entry, he, hal⟩, by simp [hal]⟩
  next he => exact .inl ⟨rfl, by simp [he]⟩

lemma Valid.onRegistryEntryDestroy (h : m.Valid) : (m.onRegistryEntryDestroy id).Valid := by
  obtain ⟨heq, -⟩ | ⟨⟨r, hr, hdead⟩, heq⟩ := m.onRegistryEntryDestroy_cases id
  · rw [heq]
    exact h
  · rw [heq]
    refine ⟨h.owned, h.nodup, fun x hx => ?_, fun i x hx => ?_, h.numbered, h.dead⟩
    · have hne : x.id ≠ id := by
        intro hid
        have hx' := h.entry x hx
        rw [hid, hr] at hx'
        exact hdead (Option.some.inj hx' ▸ hx)
      simp only [Function.update_of_ne hne]
      exact h.entry x hx
    · simp only [Function.update_apply] at hx
      split at hx
      next => cases hx
      next => exact h.id_eq i x hx

/-- Whatever else was to look at the entry of `id` is not needed any more. -/
lemma Tidy.onRegistryEntryDestroy
    (h : ∀ i r, m.entries i = some r → i = id ∨ m.IsAlive r ∨ r ∈ m.expired ∨ i ∈ m.posted) :
    (m.onRegistryEntryDestroy id).Tidy := by
  obtain ⟨heq, hal⟩ | ⟨-, heq⟩ := m.onRegistryEntryDestroy_cases id
  · rw [heq]
    intro i x hx
    obtain rfl | hx' := h i x hx
    · exact .inl (hal x hx)
    · exact hx'
  · rw [heq]
    intro i x hx
    simp only [Function.update_apply] at hx
    split at hx
    next => cases hx
    next hne => exact (h i x hx).resolve_left hne

omit [DecidableEq ι] in
/-- The pending works do not matter to the references. -/
lemma Valid.mono (h : m.Valid) {expired : List (RegistryImpl ι)} (hexp : expired ⊆ m.expired)
    (posted : List ι) : { m with expired, posted }.Valid :=
  ⟨h.owned, h.nodup, h.entry, h.id_eq, fun r hr => h.numbered r (hr.imp_right (@hexp r)),
    fun r hr => h.dead r (hexp hr)⟩

lemma Valid.destruct (h : m.Valid) (onEventLoop : Bool) : (m.destruct r onEventLoop).Valid := by
  have hsub : m.expired.erase r ⊆ m.expired := List.erase_subset
  cases onEventLoop with
  | true => exact (h.mono hsub m.posted).onRegistryEntryDestroy
  | false => exact h.mono hsub (m.posted ++ [r.id])

lemma Tidy.destruct (ht : m.Tidy) (h : m.Valid) (onEventLoop : Bool) :
    (m.destruct r onEventLoop).Tidy := by
  have hrest : ∀ i x, m.entries i = some x →
      i = r.id ∨ m.IsAlive x ∨ x ∈ m.expired.erase r ∨ i ∈ m.posted := by
    intro i x hx
    by_cases hxr : x = r
    · exact .inl (hxr ▸ (h.id_eq i x hx).symm)
    · rw [List.mem_erase_of_ne hxr]
      exact .inr (ht i x hx)
  cases onEventLoop with
  | true => exact Tidy.onRegistryEntryDestroy hrest
  | false =>
    intro i x hx
    obtain rfl | hx | hx | hx := hrest i x hx
    · exact .inr (.inr (List.mem_append_right m.posted (List.mem_singleton_self r.id)))
    · exact .inl hx
    · exact .inr (.inl hx)
    · exact .inr (.inr (List.mem_append_left _ hx))

lemma Valid.cleanup (h : m.Valid) : (m.cleanup id).Valid :=
  (h.mono (List.Subset.refl _) (m.posted.erase id)).onRegistryEntryDestroy

lemma Tidy.cleanup (ht : m.Tidy) : (m.cleanup id).Tidy := by
  refine Tidy.onRegistryEntryDestroy fun i x hx => ?_
  by_cases hi : i = id
  · exact .inl hi
  · obtain hx | hx | hx := ht i x hx
    · exact .inr (.inl hx)
    · exact .inr (.inr (.inl hx))
    · exact .inr (.inr (.inr ((List.mem_erase_of_ne hi).2 hx)))

lemma Valid.use (h : m.Valid) {R : Ranking RegistryUser} {u : RegistryUse} :
    (m.use R user u).Valid := by
  simp only [RegistryManager.use]
  split
  next => exact ⟨h.owned, h.nodup, h.entry, h.id_eq, h.numbered, h.dead⟩
  next => exact h

lemma Tidy.use (h : m.Tidy) {R : Ranking RegistryUser} {u : RegistryUse} :
    (m.use R user u).Tidy := by
  simp only [RegistryManager.use]
  split <;> exact h

end RegistryManager

namespace RegistryManagerOp

open RegistryManager

variable {ι : Type} [DecidableEq ι] {m : RegistryManager ι}

lemma exec_valid {R : Ranking RegistryUser} (h : m.Valid) (op : RegistryManagerOp ι)
    (hpre : op.Pre m) : (op.exec R m).Valid := by
  cases op with
  | find user id => exact h.find hpre
  | use user u => exact h.use
  | reset user => exact h.reset
  | destruct r onEventLoop => exact h.destruct onEventLoop
  | cleanup id => exact h.cleanup

lemma exec_tidy {R : Ranking RegistryUser} (ht : m.Tidy) (h : m.Valid) (op : RegistryManagerOp ι) :
    (op.exec R m).Tidy := by
  cases op with
  | find user id => exact ht.find
  | use user u => exact ht.use
  | reset user => exact ht.reset
  | destruct r onEventLoop => exact ht.destruct h onEventLoop
  | cleanup id => exact ht.cleanup

end RegistryManagerOp

/-! ### The manager simulates its registries -/

namespace RegistryUse

lemma mem_of_mem_apply {R : Ranking RegistryUser} {user other : RegistryUser} {l : RegistryLists}
    {u : RegistryUse} (h : (u.apply R user l).Mem other) : other = user ∨ l.Mem other := by
  cases u with
  | onInterfaceCreate =>
    obtain h | h := h
    · exact (Ranking.mem_insertSorted.1 h).imp_right .inl
    · exact .inr (.inr h)
  | onInterfaceDestroy => exact .inr (h.imp_left List.mem_of_mem_erase)
  | subscriberAdd =>
    obtain h | h := h
    · exact .inr (.inl h)
    · obtain h | h := List.mem_append.1 h
      · exact .inr (.inr h)
      · exact .inl (List.mem_singleton.1 h)
  | subscriberDel => exact .inr (h.imp_right List.mem_of_mem_erase)

end RegistryUse

namespace RegistryManager

variable {ι : Type} {m m' : RegistryManager ι} {s : Registries ι} {user : RegistryUser} {id : ι}
  {r : RegistryImpl ι}

/-- Every user has the registry of its id, with the lists of the id. -/
structure Represents (m : RegistryManager ι) (s : Registries ι) : Prop where
  subject (user : RegistryUser) : s.subject user = (m.registryEntry user).map RegistryImpl.id
  lists (r : RegistryImpl ι) : m.IsAlive r → m.lists r = s.lists r.id
  member (id : ι) (user : RegistryUser) : (s.lists id).Mem user → s.subject user = some id

lemma represents_initial : (initial ι).Represents ⟨fun _ => none, fun _ => {}⟩ := by
  constructor <;> simp [initial, IsAlive, RegistryLists.Mem]

lemma Represents.congr (h : m.Represents s) (hentry : m'.registryEntry = m.registryEntry)
    (howners : m'.owners = m.owners) (hlists : m'.lists = m.lists) : m'.Represents s where
  subject user := hentry ▸ h.subject user
  lists r hr := by
    rw [IsAlive, howners] at hr
    rw [hlists]
    exact h.lists r hr
  member := h.member

/-- Without a registry the lists of an id are those of a new one. -/
lemma Represents.lists_eq_of_dead (h : m.Represents s) (hv : m.Valid)
    (hdead : ∀ r, m.entries id = some r → ¬m.IsAlive r) : s.lists id = {} := by
  have hnot : ∀ user, ¬(s.lists id).Mem user := by
    intro user hmem
    have hsub := h.member id user hmem
    rw [h.subject, Option.map_eq_some_iff] at hsub
    obtain ⟨r, hr, rfl⟩ := hsub
    have hal := hv.isAlive hr
    exact hdead r (hv.entry r hal) hal
  have hint := List.eq_nil_iff_forall_not_mem.2 fun user hu => hnot user (.inl hu)
  have hsub := List.eq_nil_iff_forall_not_mem.2 fun user hu => hnot user (.inr hu)
  cases hl : s.lists id with
  | mk interfaces subscribers =>
    rw [hl] at hint hsub
    simp_all

variable [DecidableEq ι]

lemma Represents.acquire (h : m.Represents s) (hu : m.registryEntry user = none)
    (hl : m.lists r = s.lists r.id) : (m.acquire user r).Represents
      { s with subject := Function.update s.subject user (some r.id) } where
  subject other := by
    by_cases ho : other = user
    · subst ho
      simp [RegistryManager.acquire]
    · simpa [RegistryManager.acquire, ho] using h.subject other
  lists x hx := by
    obtain rfl | hx := isAlive_acquire.1 hx
    · exact hl
    · exact h.lists x hx
  member i other hmem := by
    have hsub := h.member i other hmem
    have ho : other ≠ user := by
      rintro rfl
      simp [h.subject, hu] at hsub
    simpa [ho] using hsub

lemma Represents.create (h : m.Represents s) (hv : m.Valid) : (m.create id).Represents s where
  subject := h.subject
  lists x hx := by
    have hne : x ≠ ⟨m.created, id⟩ := by
      rintro rfl
      exact (hv.numbered _ (.inl hx)).false
    simp only [RegistryManager.create, Function.update_of_ne hne]
    exact h.lists x hx
  member := h.member

lemma Represents.find (h : m.Represents s) (hv : m.Valid) (hu : m.registryEntry user = none) :
    (m.find user id).Represents
      { s with subject := Function.update s.subject user (some id) } := by
  obtain ⟨r, hr, hal, heq⟩ | ⟨hdead, heq⟩ := m.find_cases user id
  · rw [heq]
    obtain rfl := hv.id_eq id r hr
    exact h.acquire hu (h.lists r hal)
  · rw [heq]
    refine (h.create hv).acquire hu ?_
    rw [h.lists_eq_of_dead hv hdead]
    simp [RegistryManager.create]

lemma Represents.use (h : m.Represents s) (hv : m.Valid) {R : Ranking RegistryUser}
    {u : RegistryUse} (hr : m.registryEntry user = some r) : (m.use R user u).Represents
      { s with lists := Function.update s.lists r.id (u.apply R user (s.lists r.id)) } := by
  have hal := hv.isAlive hr
  simp only [RegistryManager.use, hr]
  refine ⟨h.subject, fun x hx => ?_, fun i other hmem => ?_⟩
  · by_cases hxr : x = r
    · subst hxr
      simp [h.lists x hx]
    · have hid : x.id ≠ r.id := fun hid => hxr (hv.eq_of_id hx hal hid)
      simp only [Function.update_of_ne hxr, Function.update_of_ne hid]
      exact h.lists x hx
  · by_cases hi : i = r.id
    · subst hi
      simp only [Function.update_self] at hmem
      obtain rfl | hmem := RegistryUse.mem_of_mem_apply hmem
      · simp [h.subject, hr]
      · exact h.member r.id other hmem
    · simp only [Function.update_of_ne hi] at hmem
      exact h.member i other hmem

lemma Represents.release (h : m.Represents s) (hv : m.Valid)
    (hr : m.registryEntry user = some r) (hmem : ¬(m.lists r).Mem user) :
    (m.release user r).Represents { s with subject := Function.update s.subject user none } where
  subject other := by
    by_cases ho : other = user
    · subst ho
      simp [RegistryManager.release]
    · simpa [RegistryManager.release, ho] using h.subject other
  lists x hx := h.lists x (isAlive_of_release hx)
  member i other hother := by
    have hsub := h.member i other hother
    have ho : other ≠ user := by
      rintro rfl
      rw [h.subject, hr] at hsub
      obtain rfl := Option.some.inj hsub
      rw [h.lists r (hv.isAlive hr)] at hmem
      exact hmem hother
    simpa [ho] using hsub

omit [DecidableEq ι] in
lemma Represents.expire (h : m.Represents s) : (m.expire r).Represents s := by
  simp only [RegistryManager.expire]
  split
  next => exact h
  next => exact h.congr rfl rfl rfl

lemma Represents.onRegistryEntryDestroy (h : m.Represents s) :
    (m.onRegistryEntryDestroy id).Represents s := by
  obtain ⟨heq, -⟩ | ⟨-, heq⟩ := m.onRegistryEntryDestroy_cases id
  · rw [heq]
    exact h
  · rw [heq]
    exact h.congr rfl rfl rfl

lemma Represents.destruct (h : m.Represents s) (onEventLoop : Bool) :
    (m.destruct r onEventLoop).Represents s := by
  have h' : { m with expired := m.expired.erase r }.Represents s := h.congr rfl rfl rfl
  cases onEventLoop with
  | true => exact h'.onRegistryEntryDestroy
  | false => exact h'.congr rfl rfl rfl

lemma Represents.cleanup (h : m.Represents s) : (m.cleanup id).Represents s := by
  have h' : { m with posted := m.posted.erase id }.Represents s := h.congr rfl rfl rfl
  exact h'.onRegistryEntryDestroy

end RegistryManager

namespace RegistryManagerOp

open RegistryManager

variable {ι : Type} [DecidableEq ι] {m : RegistryManager ι} {s : Registries ι}

/-- The step of the simulation. -/
lemma exec_represents {R : Ranking RegistryUser} (h : m.Represents s) (hv : m.Valid)
    (op : RegistryManagerOp ι) (hpre : op.Pre m) : (op.exec R m).Represents (op.apply R s) := by
  cases op with
  | find user id => exact h.find hv hpre
  | use user u =>
    obtain ⟨r, hr, -⟩ := hpre
    simp only [apply, h.subject, Option.mem_def.1 hr, Option.map_some]
    exact h.use hv hr
  | reset user =>
    obtain ⟨r, hr, hmem⟩ := hpre
    simp only [exec, RegistryManager.reset, Option.mem_def.1 hr]
    exact (h.release hv hr hmem).expire
  | destruct r onEventLoop => exact h.destruct onEventLoop
  | cleanup id => exact h.cleanup

end RegistryManagerOp

/-- The invariant of all runs. -/
structure RegistryRun.Canonical {ι : Type} (s : RegistryRun ι) : Prop where
  valid : s.manager.Valid
  tidy : s.manager.Tidy
  represents : s.manager.Represents s.registries

section Runs

variable {ι : Type} [DecidableEq ι] {R : Ranking RegistryUser} {s : RegistryRun ι}

lemma RegistryRun.Canonical.step (h : s.Canonical) (op : RegistryManagerOp ι)
    (hpre : op.Pre s.manager) : ((registryRuns ι R).step s op).Canonical where
  valid := op.exec_valid h.valid hpre
  tidy := op.exec_tidy h.tidy h.valid
  represents := op.exec_represents h.represents h.valid hpre

lemma canonical_of_reachable (h : (registryRuns ι R).Reachable (fun _ _ => True) s) :
    s.Canonical := by
  refine h.invariant (P := RegistryRun.Canonical) ?_ fun st op _ hst hpre _ => hst.step op hpre
  rintro _ rfl
  exact ⟨RegistryManager.valid_initial, RegistryManager.tidy_initial,
    RegistryManager.represents_initial⟩

/-- Whoever refers to a registry shares it with all others of its id, and finds in it what was done
under the id, whenever the registries of the id were created, destructed and cleaned up. What `find`
returns is that registry, none is returned or used that is to be destructed, and there are no other
entries left as soon as nothing is pending. -/
theorem registries_canonical (h : (registryRuns ι R).Reachable (fun _ _ => True) s) :
    (∀ user, s.registries.subject user = (s.manager.registryEntry user).map RegistryImpl.id) ∧
      (∀ user r, s.manager.registryEntry user = some r → s.manager.entries r.id = some r ∧
        s.manager.lists r = s.registries.lists r.id ∧ r ∉ s.manager.expired) ∧
      (∀ user id, s.manager.registryEntry user = none → ∃ r,
        (s.manager.find user id).registryEntry user = some r ∧ r.id = id ∧
          (s.manager.find user id).lists r = s.registries.lists id ∧
          r ∉ (s.manager.find user id).expired ∧
          ∀ other r', s.manager.registryEntry other = some r' → r'.id = id → r' = r) ∧
      (s.manager.expired = [] → s.manager.posted = [] →
        ∀ id r, s.manager.entries id = some r → ∃ user, s.manager.registryEntry user = some r) := by
  have hc := canonical_of_reachable h
  refine ⟨hc.represents.subject, fun user r hr => ?_, fun user id hu => ?_,
    fun hexp hpos id r hr => ?_⟩
  · have hal := hc.valid.isAlive hr
    exact ⟨hc.valid.entry r hal, hc.represents.lists r hal, fun hx => hc.valid.dead r hx hal⟩
  · obtain ⟨hv, -, hrep⟩ := hc.step (R := R) (.find user id) hu
    have hsub := hrep.subject user
    rw [show ((registryRuns ι R).step s (.find user id)).registries.subject user = some id from
      Function.update_self .., eq_comm, Option.map_eq_some_iff] at hsub
    obtain ⟨r, hr, rfl⟩ := hsub
    have hal := hv.isAlive hr
    refine ⟨r, hr, rfl, hrep.lists r hal, fun hx => hv.dead r hx hal, fun other r' hr' hid => ?_⟩
    have ho : other ≠ user := by
      rintro rfl
      simp [hu] at hr'
    have hr'' := s.manager.find_registryEntry_of_ne r.id ho
    rw [hr'] at hr''
    exact hv.eq_of_id (hv.isAlive hr'') hal hid
  · obtain hal | hx | hx := hc.tidy id r hr
    · exact hc.valid.isAlive_iff.1 hal
    · simp [hexp] at hx
    · simp [hpos] at hx

end Runs

/-- A user comes while the registry of the last one is destructed on another thread. -/
def recreationRun : List (RegistryManagerOp Bool) :=
  [.find 0 true, .use 0 .onInterfaceCreate, .find 1 true, .use 1 .subscriberAdd,
    .use 0 .onInterfaceDestroy, .reset 0, .use 1 .subscriberDel, .reset 1,
    .destruct ⟨0, true⟩ false, .find 2 true, .use 2 .onInterfaceCreate, .cleanup true,
    .find 3 true, .use 3 .onInterfaceCreate]

/-- The latest interface is the first one. -/
def latestFirst : Ranking RegistryUser := ⟨fun i j => decide (j < i), id⟩

def recreated : RegistryRun Bool :=
  recreationRun.foldl (registryRuns Bool latestFirst).step
    ⟨.initial Bool, fun _ => none, fun _ => {}⟩

theorem registries_canonical_recreated :
    recreated.manager.registryEntry 2 = some ⟨1, true⟩ ∧
      recreated.manager.entries true = some ⟨1, true⟩ ∧
      recreated.manager.lists ⟨1, true⟩ = recreated.registries.lists true ∧
      recreated.registries.lists true = ⟨[3, 2], []⟩ := by
  have h := registries_canonical (R := latestFirst) (s := recreated)
    (Machine.Reachable.run (.init rfl) (by decide +kernel))
  have hr : recreated.manager.registryEntry 2 = some ⟨1, true⟩ := by decide +kernel
  obtain ⟨hentry, hlists, -⟩ := h.2.1 2 ⟨1, true⟩ hr
  exact ⟨hr, hentry, hlists, by decide +kernel⟩

end Idle
