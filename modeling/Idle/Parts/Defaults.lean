import Idle.Library.Iteration
import Idle.Parts.System

/-!
# Defaults

A `Dependency` and a `DynDependency` may be able to create a default, a service that publishes an
interface for them. They do so when the registry is empty: when the part is initialised, and when
the interface that they use ends. In the latter case the default is published inside the loop over
the users of the one that ends, and every user that prefers it leaves the list that is gone through.

So the end of an interface is modelled here once more, with the intrusive lists. As long as the loop
stays in its list, it does what the `System` does when one interface ends and the other one is
published after that. The service of a default is taken to have no part that depends on this
registry.
-/

namespace Idle

variable {ι : Type*}

/-- A part around the registry, by its place. -/
inductive PartId where
  | dependency (n : Nat)
  | dynDependency (n : Nat)
  | dynDependencies (n : Nat)
  deriving DecidableEq, Repr

/-- A usage of a part. One of a set of dependencies is the entry of the interface it uses. -/
inductive User (ι : Type*) where
  | ref (n : Nat)
  | active (n : Nat)
  | pref (n : Nat)
  | entry (n : Nat) (used : ι)
  deriving DecidableEq, Repr

namespace User

/-- The usage is one of a set of dependencies. -/
def isEntry : User ι → Bool
  | entry _ _ => true
  | _ => false

def part : User ι → PartId
  | ref n => .dependency n
  | active n | pref n => .dynDependency n
  | entry n _ => .dynDependencies n

/-- The usage that the hook of an unlocked part disconnects. -/
def dropped : User ι → User ι
  | pref n => active n
  | u => u

/-- The usages of a part that an interface can come to be used by. -/
def ofPart (inter : ι) : PartId → List (User ι)
  | .dependency n => [ref n]
  | .dynDependency n => [active n, pref n]
  | .dynDependencies n => [entry n inter]

lemma mem_ofPart {inter : ι} {p : PartId} {u : User ι} : u ∈ ofPart inter p ↔
    u.part = p ∧ ∀ n used, u = entry n used → used = inter := by
  cases p <;> cases u <;> simp [ofPart, part]

end User

/-- Which parts can create a default, and which interfaces belong to one. -/
structure Defaults (ι : Type*) where
  /-- `hasDefault` -/
  hasDefault : PartId → Bool
  /-- `owner().state().isDefaultCreated()` -/
  isDefaultCreated : ι → Bool

namespace Defaults

/-- `hasDefault` of the part that a usage belongs to; a set of dependencies has no default. -/
def hasDefaultOf (E : Defaults ι) : User ι → Bool
  | .ref n => E.hasDefault (.dependency n)
  | .active n | .pref n => E.hasDefault (.dynDependency n)
  | .entry _ _ => false

/-- The usage behind the first one whose part can create a default. -/
def behindCreator (E : Defaults ι) : List (User ι) → Option (User ι)
  | [] => none
  | u :: l => if E.hasDefaultOf u then l.head? else E.behindCreator l

end Defaults

namespace System

variable [DecidableEq ι]

/-- The interface whose `dependent_users_` a usage is linked into. -/
def target (st : System ι) : User ι → Option ι
  | .ref n => st.dependency[n]?.bind (·.ref.connected)
  | .active n => st.dynDependency[n]?.bind (·.active.connected)
  | .pref n => st.dynDependency[n]?.bind (·.pref.connected)
  | .entry n used =>
    st.dynDependencies[n]?.bind fun d => if d.isUsing used then some used else none

def isSubscribed (st : System ι) : PartId → Bool
  | .dependency n => st.dependency[n]?.any (·.isSubscribed)
  | .dynDependency n => st.dynDependency[n]?.any (·.isSubscribed)
  | .dynDependencies n => st.dynDependencies[n]?.any (·.isSubscribed)

def parts (st : System ι) : List PartId :=
  (List.range st.dependency.length).map .dependency ++
    (List.range st.dynDependency.length).map .dynDependency ++
    (List.range st.dynDependencies.length).map .dynDependencies

/-- The usages in the `dependent_users_` of an interface, part by part. -/
def dependentUsers (st : System ι) (i : ι) : List (User ι) :=
  (st.parts.flatMap (User.ofPart i)).filter (st.target · = some i)

/-- The parts in `subscribers_`, kind by kind. -/
def subscribers (st : System ι) : List PartId := st.parts.filter st.isSubscribed

end System

/-- `UsageImpl::onUsedDestroy` of the entry of `used`, when it is told of the end of `exp`. -/
def DynDependencies.onUsageDestroy [DecidableEq ι] (used exp : ι) (d : DynDependencies ι) :
    DynDependencies ι :=
  let d :=
    if (d.usage used).storageState ≠ .erased then
      (d.usageSetStorageState used .erased).record exp .doErase false
    else d
  (d.usageDisconnect used).erase used

namespace System

variable [DecidableEq ι]

/-- The usage belongs to a locked `DynDependency`. -/
def isHeld (st : System ι) : User ι → Bool
  | .active n | .pref n => st.dynDependency[n]?.any (·.isLocked)
  | _ => false

/-- The hook `onUsedDestroy` of a usage of `exp`, up to the creation of a default. -/
def tell (exp : ι) (st : System ι) : User ι → System ι
  | .ref n => { st with dependency := st.dependency.modify n (·.onUsedDestroy st.interfaces) }
  | .active n | .pref n =>
    { st with dynDependency := st.dynDependency.modify n (·.onUsedDestroy st.interfaces) }
  | .entry n used =>
    { st with dynDependencies := st.dynDependencies.modify n (·.onUsageDestroy used exp) }

end System

/-- An interface ends. The lists have the order in which the usages were connected and the parts
subscribed; every order is considered. -/
structure Ending (ι : Type*) where
  inter : ι
  /-- The `dependent_users_` of the interface -/
  users : List (User ι)
  /-- `subscribers_` -/
  subscribers : List PartId
  /-- The interface that `createDefault` makes if it is called -/
  created : ι

/-- The parts during the loop of `onInterfaceDestroy`, with the lists that their usages are in. -/
structure DestroyLoop (ι : Type*) where
  system : System ι
  /-- `dependent_users_` -/
  users : ι → List (User ι)

namespace DestroyLoop

variable [DecidableEq ι]

/-- The next element of the intrusive list that a usage is in. -/
def next (w : DestroyLoop ι) (u : User ι) : Option (User ι) :=
  (w.system.target u).bind fun t => ((w.users t).after (· == u)).head?

/-- The usages `us` have left the lists that they were in. Those that are connected enter the lists
of what they use now, at the back. -/
def relink (w : DestroyLoop ι) (st : System ι) (us : List (User ι)) : DestroyLoop ι where
  system := st
  users j := (w.users j).filter (fun u => u ∉ us) ++ us.filter (fun u => st.target u = some j)

section Callback

variable (E : Defaults ι) (R : Ranking ι) (e : Ending ι)

/-- `setDefault`: the new service publishes its interface, and one subscriber after the other is
told of it. -/
def setDefault (w : DestroyLoop ι) : DestroyLoop ι :=
  let st := w.system.step R (.create e.created)
  w.relink st ((e.subscribers.flatMap (User.ofPart e.created)).filter fun u =>
    st.target u ≠ w.system.target u)

/-- The test of `onUsedDestroy` for a default. -/
def createsDefault (w : DestroyLoop ι) (u : User ι) : Bool :=
  w.system.interfaces.isEmpty && !E.isDefaultCreated e.inter && E.hasDefaultOf u

/-- `ServiceImpl::used_destroy`, the hook `onUsedDestroy` of a usage. -/
def usedDestroy (w : DestroyLoop ι) (u : User ι) : DestroyLoop ι :=
  -- a locked `DynDependency` selects another interface to prefer and does not use it
  if w.system.isHeld u then w
  else
    let w' := w.relink (w.system.tell e.inter u) [u.dropped]
    if createsDefault E e w u then w'.setDefault R e else w'

end Callback

end DestroyLoop

namespace System

variable [DecidableEq ι] (E : Defaults ι) (R : Ranking ι)

/-- `interfaces_.erase(inter)` -/
def withdraw (inter : ι) (st : System ι) : System ι :=
  { st with
    alive := Function.update st.alive inter false
    interfaces := st.interfaces.erase inter }

/-- `callSubscribedDestroyed` of every subscriber -/
def callSubscribedDestroyed (inter : ι) (st : System ι) : System ι :=
  { st with
    dynDependencies := st.dynDependencies.map fun d =>
      if d.isSubscribed then d.onSubscribedDestroy inter else d }

@[simp] lemma interfaces_callSubscribedDestroyed (i : ι) (st : System ι) :
    (st.callSubscribedDestroyed i).interfaces = st.interfaces := rfl
@[simp] lemma alive_callSubscribedDestroyed (i : ι) (st : System ι) :
    (st.callSubscribedDestroyed i).alive = st.alive := rfl
@[simp] lemma running_callSubscribedDestroyed (i : ι) (st : System ι) :
    (st.callSubscribedDestroyed i).running = st.running := rfl
@[simp] lemma dependency_callSubscribedDestroyed (i : ι) (st : System ι) :
    (st.callSubscribedDestroyed i).dependency = st.dependency := rfl
@[simp] lemma dynDependency_callSubscribedDestroyed (i : ι) (st : System ι) :
    (st.callSubscribedDestroyed i).dynDependency = st.dynDependency := rfl

/-- The interface has left the registry, and the loop begins. -/
def startLoop (st : System ι) (e : Ending ι) : DestroyLoop ι :=
  { system := st.withdraw e.inter
    users := Function.update st.dependentUsers e.inter e.users }

/-- `RegistryImpl::onInterfaceDestroy`; no result when the fuel does not suffice for the loop. -/
def endInterface (e : Ending ι) (fuel : Nat) (st : System ι) : Option (DestroyLoop ι) :=
  (stableForEach DestroyLoop.next (DestroyLoop.usedDestroy E R e) fuel (st.startLoop e)
    e.users.head?).map
      fun w => { w with system := w.system.callSubscribedDestroyed e.inter }

/-! ### Runs -/

/-- No default can come of the operation. -/
def Op.IsPlain : Op ι → Prop
  | .destroy _ | .addDependency | .addDynDependency _ => False
  | _ => True

/-- What happens around a registry whose parts can create defaults; `created` is the interface that
a default publishes if one is created. -/
inductive DefaultOp (ι : Type*) where
  | plain (op : Op ι)
  | addDependency (created : ι)
  | addDynDependency (canSwap : Option ι → Option ι → Bool) (created : ι)
  | destroy (e : Ending ι) (fuel : Nat)

/-- The branch of `onPartInit` for a default. -/
def initDefault (part : PartId) (created : ι) (st : System ι) : System ι :=
  if st.interfaces.isEmpty && E.hasDefault part then st.step R (.create created) else st

def stepDefault (st : System ι) : DefaultOp ι → System ι
  | .plain op => st.step R op
  | .addDependency created =>
    (st.step R .addDependency).initDefault E R (.dependency st.dependency.length) created
  | .addDynDependency canSwap created =>
    (st.step R (.addDynDependency canSwap)).initDefault E R
      (.dynDependency st.dynDependency.length) created
  | .destroy e fuel => (st.endInterface E R e fuel).elim st (·.system)

/-- The interface of a default that has just been created -/
def IsFresh (st : System ι) (created : ι) : Prop :=
  E.isDefaultCreated created = true ∧ Pre R st (.create created)

/-- The end of the interface makes a part create a default. -/
def CreatesDefault (st : System ι) (e : Ending ι) : Prop :=
  st.interfaces.erase e.inter = [] ∧ E.isDefaultCreated e.inter = false ∧
    ∃ u ∈ e.users, E.hasDefaultOf u = true

/-- What the callers of `onInterfaceDestroy` ensure. -/
def EndPre (st : System ι) (e : Ending ι) : Prop :=
  Pre R st (.destroy e.inter) ∧ e.users.Perm (st.dependentUsers e.inter) ∧
    e.subscribers.Perm st.subscribers ∧ (st.CreatesDefault E e → st.IsFresh E R e.created)

def PreDefault (st : System ι) : DefaultOp ι → Prop
  | .plain op => op.IsPlain ∧ Pre R st op
  | .addDependency created => st.interfaces = [] →
      E.hasDefault (.dependency st.dependency.length) = true → st.IsFresh E R created
  | .addDynDependency _ created => st.interfaces = [] →
      E.hasDefault (.dynDependency st.dynDependency.length) = true → st.IsFresh E R created
  | .destroy e fuel => st.EndPre E R e ∧ (st.endInterface E R e fuel).isSome = true

/-- The parts and the interfaces of one id over their lives, with defaults. -/
def withDefaults : Machine (System ι) (DefaultOp ι) where
  init st := st = empty
  pre st op := st.IsUp ∧ st.PreDefault E R op
  step := stepDefault E R

/-- The default that the end of the interface creates takes the usage along that the loop comes to
next: one of a `Dependency` or of a `DynDependency`, as it is preferred to the interface that
ends. -/
def Strays (st : System ι) (e : Ending ι) : Prop :=
  st.CreatesDefault E e ∧ R.Greater e.created e.inter ∧
    ∃ v ∈ E.behindCreator e.users, v.isEntry = false

/-- The loop of `onInterfaceDestroy` does not leave its list. -/
def KeepsList (st : System ι) : DefaultOp ι → Prop
  | .destroy e _ => ¬st.Strays E R e
  | _ => True

section Decidable

variable (st : System ι)

instance : (op : Op ι) → Decidable op.IsPlain
  | .create _ | .start _ | .stop _ | .unlocked _ | .dependency _ _ | .dynDependency _ _
  | .addDynDependencies _ | .dynDependencies _ _ => .isTrue trivial
  | .destroy _ | .addDependency | .addDynDependency _ => .isFalse id

instance (created : ι) : Decidable (st.IsFresh E R created) :=
  inferInstanceAs (Decidable (_ ∧ _))

instance (e : Ending ι) : Decidable (st.CreatesDefault E e) :=
  inferInstanceAs (Decidable (_ ∧ _ ∧ _))

instance (e : Ending ι) : Decidable (st.EndPre E R e) :=
  inferInstanceAs (Decidable (_ ∧ _ ∧ _ ∧ (_ → _)))

instance : (op : DefaultOp ι) → Decidable (st.PreDefault E R op)
  | .plain _ => inferInstanceAs (Decidable (_ ∧ _))
  | .addDependency _ | .addDynDependency _ _ => inferInstanceAs (Decidable (_ → _ → _))
  | .destroy _ _ => inferInstanceAs (Decidable (_ ∧ _))

instance (op : DefaultOp ι) : Decidable ((withDefaults E R).pre st op) :=
  inferInstanceAs (Decidable (_ ∧ _))

instance (e : Ending ι) : Decidable (st.Strays E R e) :=
  inferInstanceAs (Decidable (_ ∧ (_ = _) ∧ ∃ v ∈ E.behindCreator e.users, _))

instance : (op : DefaultOp ι) → Decidable (st.KeepsList E R op)
  | .destroy _ _ => inferInstanceAs (Decidable (¬_))
  | .plain _ | .addDependency _ | .addDynDependency _ _ => .isTrue trivial

end Decidable

end System

/-! ### What the parts do -/

namespace Dependency

variable {d : Dependency ι} {i j : ι} {R : Ranking ι}

lemma ref_onUsedDestroy (d : Dependency ι) (is : List ι) :
    (d.onUsedDestroy is).ref = ⟨is.head?, is.head?⟩ := by
  cases is <;> rfl

/-- A dependency whose interface ended takes the new one. -/
lemma onSubscribedCreated_onUsedDestroy (hl : d.isLocked = false) :
    (d.onUsedDestroy []).onSubscribedCreated R j = d.onUsedDestroy [j] := by
  have hl : (d.onUsedDestroy []).isLocked = false := hl
  rw [onSubscribedCreated, if_neg (by simp [keeps, ref_onUsedDestroy]), hl]
  rfl

/-- A dependency whose interface is about to end prefers the new one or does not. -/
lemma onSubscribedCreated_of_ptr (hl : d.isLocked = false) (hp : d.ref.ptr = some i) :
    d.onSubscribedCreated R j = if R.greater j i then d.onUsedDestroy [j] else d := by
  by_cases hg : R.greater j i = true
  · rw [onSubscribedCreated, if_neg (by simp [keeps, hp, hg]), hl, hp, if_pos hg]
    rfl
  · rw [onSubscribedCreated, if_pos (by simp [keeps, hp, hg]), if_neg hg]

lemma ref_onSubscribedCreated (d : Dependency ι) (j : ι) :
    (d.onSubscribedCreated R j).ref = d.ref ∨
      (d.onSubscribedCreated R j).ref = ⟨some j, some j⟩ := by
  unfold onSubscribedCreated
  split_ifs
  · exact .inl rfl
  · exact .inr rfl
  · exact .inr rfl
  · exact .inl rfl

end Dependency

namespace DynDependency

variable {d : DynDependency ι} {i j : ι} {R : Ranking ι} {b : Bool}

lemma phase_onUsedDestroy (d : DynDependency ι) (is : List ι) :
    (d.onUsedDestroy is).phase = d.phase := by
  unfold DynDependency.onUsedDestroy
  cases is <;> split_ifs <;> rfl

lemma pref_onUsedDestroy (d : DynDependency ι) (is : List ι) :
    (d.onUsedDestroy is).pref = d.pref := by
  unfold DynDependency.onUsedDestroy
  cases is <;> split_ifs <;> rfl

lemma aborted_onUsedDestroy (d : DynDependency ι) (is : List ι) :
    (d.onUsedDestroy is).aborted = d.aborted := by
  unfold DynDependency.onUsedDestroy
  cases is <;> split_ifs <;> rfl

lemma active_onUsedDestroy {d : DynDependency ι} (hl : d.isLocked = false) (is : List ι) :
    (d.onUsedDestroy is).active = ⟨is.head?, is.head?⟩ := by
  unfold DynDependency.onUsedDestroy
  rw [if_neg (by simp [hl])]
  cases is <;> rfl

lemma onUsedDestroy_eq (hl : d.isLocked = false) (hs : d.satisfied = true) (is : List ι) :
    d.onUsedDestroy is =
      { d with active := ⟨is.head?, is.head?⟩, satisfied := is.head?.isSome } := by
  rw [onUsedDestroy, if_neg (by simp [hl])]
  cases is with
  | nil => rfl
  | cons i is =>
    rw [List.head?_cons, Option.isSome_some, ← hs]
    rfl

lemma onSubscribedCreated_onUsedDestroy (hl : d.isLocked = false) (hs : d.satisfied = true) :
    (d.onUsedDestroy []).onSubscribedCreated R j b = d.onUsedDestroy [j] := by
  rw [onUsedDestroy_eq hl hs, onUsedDestroy_eq hl hs]
  have hk : keeps R { d with active := ⟨none, none⟩, satisfied := false } j = false := by
    simp [keeps, current, isLocked, show d.phase.isLocked = false from hl]
  simp [onSubscribedCreated, hk, isLocked, show d.phase.isLocked = false from hl, activate,
    setSatisfied, Link.set, Link.connect]

lemma onSubscribedCreated_of_ptr (hl : d.isLocked = false) (hs : d.satisfied = true)
    (hp : d.active.ptr = some i) :
    d.onSubscribedCreated R j b = if R.greater j i then d.onUsedDestroy [j] else d := by
  have hk : d.keeps R j = !R.greater j i := by simp [keeps, current, hl, hp]
  by_cases hg : R.greater j i = true
  · rw [onUsedDestroy_eq hl hs, if_pos hg, onSubscribedCreated, if_neg (by simp [hk, hg])]
    simp [hl, hp, activate, setSatisfied, Link.set, Link.connect]
  · rw [onSubscribedCreated, if_pos (by simp [hk, hg]), if_neg hg]

lemma phase_onSubscribedCreated (d : DynDependency ι) (j : ι) (b : Bool) :
    (d.onSubscribedCreated R j b).phase = d.phase := by
  unfold onSubscribedCreated
  split_ifs <;> rfl

lemma active_onSubscribedCreated (d : DynDependency ι) (j : ι) (b : Bool) :
    (d.onSubscribedCreated R j b).active = d.active ∨
      (d.onSubscribedCreated R j b).active = ⟨some j, some j⟩ := by
  unfold onSubscribedCreated
  split_ifs <;> first | exact .inl rfl | exact .inr rfl

lemma pref_onSubscribedCreated (d : DynDependency ι) (j : ι) (b : Bool) :
    (d.onSubscribedCreated R j b).pref = d.pref ∨
      (d.onSubscribedCreated R j b).pref = ⟨some j, some j⟩ := by
  unfold onSubscribedCreated
  split_ifs <;> first | exact .inl rfl | exact .inr rfl

end DynDependency

namespace DynDependencies

variable [DecidableEq ι] {d : DynDependencies ι} {i j : ι}

lemma keys_onUsedDestroy (d : DynDependencies ι) (i : ι) :
    (d.onUsedDestroy i).keys = d.keys.erase i := by
  simp only [DynDependencies.onUsedDestroy, DynDependencies.erase,
    DynDependencies.usageDisconnect, DynDependencies.usageEraseFromStorage]
  split_ifs <;> rfl

/-- The operation `F` does not touch what the part keeps of `j`. -/
structure Apart (F : DynDependencies ι → DynDependencies ι) (j : ι) : Prop where
  hooks d : (F d).hooks = d.hooks
  phase d : (F d).phase = d.phase
  mem_keys d : j ∈ (F d).keys ↔ j ∈ d.keys
  mem_used d : j ∈ (F d).used ↔ j ∈ d.used
  usage d : (F d).usage j = d.usage j
  modify d f : F (d.modify j f) = (F d).modify j f
  addKey d : F { d with keys := d.keys ++ [j] } = { F d with keys := (F d).keys ++ [j] }
  addUsed d : F { d with used := d.used ++ [j] } = { F d with used := (F d).used ++ [j] }
  record d e b : F (d.record j e b) = (F d).record j e b

namespace Apart

variable {F G : DynDependencies ι → DynDependencies ι}

lemma comp (hG : Apart G j) (hF : Apart F j) : Apart (G ∘ F) j where
  hooks d := (hG.hooks _).trans (hF.hooks d)
  phase d := (hG.phase _).trans (hF.phase d)
  mem_keys d := (hG.mem_keys _).trans (hF.mem_keys d)
  mem_used d := (hG.mem_used _).trans (hF.mem_used d)
  usage d := (hG.usage _).trans (hF.usage d)
  modify d f := by simp only [Function.comp_apply, hF.modify, hG.modify]
  addKey d := by simp only [Function.comp_apply, hF.addKey, hG.addKey]
  addUsed d := by simp only [Function.comp_apply, hF.addUsed, hG.addUsed]
  record d e b := by simp only [Function.comp_apply, hF.record, hG.record]

lemma insert (hF : Apart F j) (d : DynDependencies ι) (flags : DependenciesFlags) :
    F (d.insert j flags) = (F d).insert j flags := by
  unfold DynDependencies.insert
  by_cases hk : j ∈ d.keys
  · rw [if_pos hk, if_pos ((hF.mem_keys d).2 hk)]
  · rw [if_neg hk, if_neg fun h => hk ((hF.mem_keys d).1 h), ← hF.modify]
    exact hF.addKey _

lemma usageConnect (hF : Apart F j) (d : DynDependencies ι) :
    F (d.usageConnect j) = (F d).usageConnect j := by
  unfold DynDependencies.usageConnect
  rw [hF.modify, hF.addUsed]

lemma usageSetReply (hF : Apart F j) (d : DynDependencies ι) (reply : UseReply) :
    F (d.usageSetReply j reply) = (F d).usageSetReply j reply :=
  hF.modify d _

lemma usageInsertIntoStorage (hF : Apart F j) (d : DynDependencies ι) :
    F (d.usageInsertIntoStorage j) = (F d).usageInsertIntoStorage j := by
  unfold DynDependencies.usageInsertIntoStorage usageSetStorageState
  rw [hF.usage]
  split_ifs
  · rw [hF.record, hF.modify]
  · rfl

/-- A new interface finds the part as if the other one were still there. -/
lemma processAvailability (hF : Apart F j) (d : DynDependencies ι) :
    F (d.processAvailability j) = (F d).processAvailability j := by
  have hu : ∀ d, (F d).usageIsConnected j = d.usageIsConnected j := fun d => by
    simp only [usageIsConnected, hF.mem_used]
  have hl : ∀ d, (F d).isLocked = d.isLocked := fun d => by simp only [isLocked, hF.phase]
  unfold DynDependencies.processAvailability
  simp only [hF.hooks, ← hF.insert, hu, hl]
  split_ifs
  · rfl
  · rfl
  · exact hF.usageConnect _
  · cases (d.insert j (d.hooks.onInspect j)).hooks.onUseOffer j with
    | useNowAndInsert => simp only [processOffer, hF.usageInsertIntoStorage, hF.usageConnect]
    | useLater => simp only [processOffer, hF.usageConnect]
    | useLaterAndNotify | useLaterAndInsert =>
      simp only [processOffer, hF.usageConnect, hF.usageSetReply]
    | useNever => exact hF.usageSetReply _ _

end Apart

lemma erase_append_singleton {l : List ι} (h : j ≠ i) :
    (l ++ [j]).erase i = l.erase i ++ [j] := by
  rw [List.erase_append]
  split_ifs with hi
  · rfl
  · rw [List.erase_of_not_mem hi, List.erase_of_not_mem (by simpa using h.symm)]

lemma erase_apart (h : j ≠ i) : Apart (·.erase i) j where
  hooks d := rfl
  phase d := rfl
  mem_keys d := List.mem_erase_of_ne h
  mem_used d := Iff.rfl
  usage d := rfl
  modify d f := rfl
  addKey d := by simp only [erase, erase_append_singleton h]
  addUsed d := rfl
  record d e b := rfl

lemma modify_apart (h : j ≠ i) (f : UsageImpl → UsageImpl) : Apart (·.modify i f) j where
  hooks d := rfl
  phase d := rfl
  mem_keys d := Iff.rfl
  mem_used d := Iff.rfl
  usage d := Function.update_of_ne h _ _
  modify d g := by
    simp only [modify, Function.update_of_ne h, Function.update_of_ne h.symm,
      Function.update_comm h]
  addKey d := rfl
  addUsed d := rfl
  record d e b := rfl

lemma usageDisconnect_apart (h : j ≠ i) : Apart (·.usageDisconnect i) j :=
  have hd : Apart (fun d : DynDependencies ι => { d with used := d.used.erase i }) j :=
    { hooks := fun d => rfl
      phase := fun d => rfl
      mem_keys := fun d => Iff.rfl
      mem_used := fun d => List.mem_erase_of_ne h
      usage := fun d => rfl
      modify := fun d f => rfl
      addKey := fun d => rfl
      addUsed := fun d => by simp only [erase_append_singleton h]
      record := fun d e b => rfl }
  hd.comp (modify_apart h _)

/-- The operation is made or not, as the phase and the entry of another interface tell. -/
lemma Apart.ite {F : DynDependencies ι → DynDependencies ι} (hF : Apart F j) (h : j ≠ i)
    (p : Phase → UsageImpl → Prop) [∀ phase use, Decidable (p phase use)] :
    Apart (fun d => if p d.phase (d.usage i) then F d else d) j := by
  have hi : ∀ (d : DynDependencies ι) f, (d.modify j f).usage i = d.usage i := fun d f =>
    Function.update_of_ne h.symm _ _
  constructor
  case hooks => exact fun d => by split_ifs; exacts [hF.hooks d, rfl]
  case phase => exact fun d => by split_ifs; exacts [hF.phase d, rfl]
  case mem_keys => exact fun d => by split_ifs; exacts [hF.mem_keys d, Iff.rfl]
  case mem_used => exact fun d => by split_ifs; exacts [hF.mem_used d, Iff.rfl]
  case usage => exact fun d => by split_ifs; exacts [hF.usage d, rfl]
  case modify =>
    intro d f
    rw [hi, show (d.modify j f).phase = d.phase from rfl]
    split_ifs
    exacts [hF.modify d f, rfl]
  case addKey => exact fun d => by split_ifs; exacts [hF.addKey d, rfl]
  case addUsed => exact fun d => by split_ifs; exacts [hF.addUsed d, rfl]
  case record =>
    intro d e b
    rw [show (d.record j e b).usage i = d.usage i from rfl,
      show (d.record j e b).phase = d.phase from rfl]
    split_ifs
    exacts [hF.record d e b, rfl]

lemma usageEraseFromStorage_apart (h : j ≠ i) : Apart (·.usageEraseFromStorage i) j := by
  have hrec : Apart (fun d : DynDependencies ι => d.record i .doErase false) j :=
    { hooks := fun d => rfl
      phase := fun d => rfl
      mem_keys := fun d => Iff.rfl
      mem_used := fun d => Iff.rfl
      usage := fun d => rfl
      modify := fun d f => rfl
      addKey := fun d => rfl
      addUsed := fun d => rfl
      record := fun d e b => by
        simp only [record, Function.update_of_ne h, Function.update_of_ne h.symm,
          Function.update_comm h] }
  exact (hrec.comp (modify_apart h _)).ite h fun _ use => use.storageState ≠ .erased

lemma onUsedDestroy_apart (h : j ≠ i) : Apart (·.onUsedDestroy i) j :=
  (erase_apart h).comp ((usageDisconnect_apart h).comp (usageEraseFromStorage_apart h))

end DynDependencies

end Idle
