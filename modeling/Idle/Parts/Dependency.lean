import Idle.Core.State
import Idle.Parts.Registry

/-!
# Dependencies

A `Dependency` points to the interface of the highest priority that its registry knows of. It
follows the registry while its owner is not locked and makes up for what it missed when the owner is
unlocked. The defaults that a part may create for itself are added in `Idle.Parts.Defaults`.
-/

namespace Idle

variable {ι : Type*}

/-! ### Usages -/

/-- A usage that a part owns. Its connected state is the export whose `dependent_users_`, an
intrusive list, the usage is linked into. -/
structure Link (ι : Type*) where
  /-- `ref_`, and `used()` -/
  ptr : Option ι
  connected : Option ι
  deriving DecidableEq, Repr

namespace Link

def empty : Link ι := ⟨none, none⟩

/-- `ref_ = reference_of(inter)` -/
def set (l : Link ι) (inter : ι) : Link ι := { l with ptr := some inter }

/-- `ref_.reset()` -/
def reset (l : Link ι) : Link ι := { l with ptr := none }

/-- `Usage::connect` -/
def connect (l : Link ι) : Link ι := { l with connected := l.ptr }

/-- `Usage::disconnect` -/
def disconnect (l : Link ι) : Link ι := { l with connected := none }

lemma eq_mk {l : Link ι} (h : l.connected = l.ptr) {p : Option ι} (hp : l.ptr = p) :
    l = ⟨p, p⟩ := by
  cases l
  simp_all

@[simp] lemma empty_ptr : (empty : Link ι).ptr = none := rfl
@[simp] lemma empty_connected : (empty : Link ι).connected = none := rfl
@[simp] lemma set_ptr (l : Link ι) (i : ι) : (l.set i).ptr = some i := rfl
@[simp] lemma set_connected (l : Link ι) (i : ι) : (l.set i).connected = l.connected := rfl
@[simp] lemma reset_ptr (l : Link ι) : l.reset.ptr = none := rfl
@[simp] lemma reset_connected (l : Link ι) : l.reset.connected = l.connected := rfl
@[simp] lemma connect_ptr (l : Link ι) : l.connect.ptr = l.ptr := rfl
@[simp] lemma connect_connected (l : Link ι) : l.connect.connected = l.ptr := rfl
@[simp] lemma disconnect_ptr (l : Link ι) : l.disconnect.ptr = l.ptr := rfl
@[simp] lemma disconnect_connected (l : Link ι) : l.disconnect.connected = none := rfl

end Link

/-! ### The part -/

/-- `DependencyBase`, with the phase of its owner. -/
structure Dependency (ι : Type*) where
  ref : Link ι
  /-- `Import::satisfied_` -/
  satisfied : Bool
  phase : Phase

namespace Dependency

def isLocked (d : Dependency ι) : Bool := d.phase.isLocked

def setSatisfied (d : Dependency ι) (satisfied : Bool) : Dependency ι := { d with satisfied }

def disconnect (d : Dependency ι) : Dependency ι := { d with ref := d.ref.disconnect }

/-- `ref_ = reference_of(inter); connect();` -/
def select (d : Dependency ι) (inter : ι) : Dependency ι :=
  { d with ref := (d.ref.set inter).connect }

/-- `DependencyBase::onPartInit` of a new part. -/
def onPartInit (interfaces : List ι) : Dependency ι :=
  let d : Dependency ι := { ref := .empty, satisfied := true, phase := .stopped }
  match interfaces.head? with
  | some front => d.select front
  | none => d.setSatisfied false

def onPartDestroy (d : Dependency ι) : Dependency ι :=
  if d.ref.ptr.isSome then { d with ref := d.ref.disconnect.reset } else d

variable [DecidableEq ι] (R : Ranking ι)

/-- `registry_contains_higher_priority`; an empty registry has been ruled out by its callers. -/
def registryContainsHigherPriority (interfaces : List ι) (current : ι) : Bool :=
  match interfaces.head? with
  | some first => first != current && R.greater first current
  | none => false

def onImportUnlock (interfaces : List ι) (d : Dependency ι) : Dependency ι :=
  match d.ref.ptr, interfaces.head? with
  | some ref, some front =>
    if registryContainsHigherPriority R interfaces ref then
      (((d.setSatisfied false).disconnect).select front).setSatisfied true
    else d
  | _, _ => d

omit [DecidableEq ι] in
/-- The test that `onSubscribedCreated` begins with. -/
def keeps (d : Dependency ι) (inter : ι) : Bool :=
  match d.ref.ptr with
  | some ref => !R.greater inter ref
  | none => false

def onSubscribedCreated (inter : ι) (d : Dependency ι) : Dependency ι :=
  if d.keeps R inter then d
  else if !d.isLocked then
    let d := if d.ref.ptr.isSome then (d.setSatisfied false).disconnect else d
    (d.select inter).setSatisfied true
  else d

/-- `DependencyBase::onUsedDestroy` up to the creation of a default; the registry does not hold the
export any more. -/
def onUsedDestroy (interfaces : List ι) (d : Dependency ι) : Dependency ι :=
  let d := (d.setSatisfied false).disconnect
  let d := { d with ref := d.ref.reset }
  match interfaces.head? with
  | some front => (d.select front).setSatisfied true
  | none => d

omit [DecidableEq ι] in
lemma onSubscribedCreated_of_isLocked {d : Dependency ι} (hl : d.isLocked = true) (i : ι) :
    d.onSubscribedCreated R i = d := by
  simp [onSubscribedCreated, hl]

/-! ### What a dependency keeps -/

/-- An initialised dependency follows the registry. -/
structure Follows (interfaces : List ι) (d : Dependency ι) : Prop where
  connected : d.ref.connected = d.ref.ptr
  satisfied : d.satisfied = d.ref.ptr.isSome
  registered : ∀ ref ∈ d.ref.ptr, ref ∈ interfaces
  nil_of_none : d.ref.ptr = none → interfaces = []
  isSome_of_isLocked : d.isLocked = true → d.ref.ptr.isSome = true
  best : d.isLocked = false → ∀ ref ∈ d.ref.ptr, ∀ i ∈ interfaces, ¬R.Greater i ref

namespace Follows

variable {R} {interfaces : List ι} {d : Dependency ι} {i ref : ι}

omit [DecidableEq ι] in
lemma select (d : Dependency ι) (hm : ref ∈ interfaces)
    (hbest : ∀ i ∈ interfaces, ¬R.Greater i ref) :
    Follows R interfaces ((d.select ref).setSatisfied true) where
  connected := rfl
  satisfied := rfl
  registered r hr := by
    obtain rfl : ref = r := by simpa [Dependency.select, Dependency.setSatisfied] using hr
    exact hm
  nil_of_none h := by simp [Dependency.select, Dependency.setSatisfied] at h
  isSome_of_isLocked _ := rfl
  best _ r hr := by
    obtain rfl : ref = r := by simpa [Dependency.select, Dependency.setSatisfied] using hr
    exact hbest

variable [IsStrictWeakOrder ι R.Greater]

lemma onPartInit (hs : R.Sorted interfaces) :
    Follows R interfaces (Dependency.onPartInit interfaces) := by
  cases h : interfaces.head? with
  | none =>
    obtain rfl : interfaces = [] := by simpa using h
    constructor <;> simp [Dependency.onPartInit, Dependency.setSatisfied, Dependency.isLocked]
  | some front =>
    simp only [Dependency.onPartInit, h]
    exact select _ (List.mem_of_mem_head? h) fun i hi => hs.not_greater_front h hi

/-- While its owner is locked the dependency ignores the new interface. -/
lemma onSubscribedCreated (h : Follows R interfaces d) (i : ι) :
    Follows R (R.insertSorted i interfaces) (d.onSubscribedCreated R i) := by
  by_cases hk : d.keeps R i = true
  · obtain ⟨ref, href⟩ : ∃ ref, d.ref.ptr = some ref := by
      cases hr : d.ref.ptr with
      | none => simp [keeps, hr] at hk
      | some ref => exact ⟨ref, rfl⟩
    have hng : ¬R.Greater i ref := by simpa [keeps, href, Ranking.Greater] using hk
    simp only [Dependency.onSubscribedCreated, hk, if_true]
    exact ⟨h.connected, h.satisfied, fun r hr => by simp [h.registered r hr],
      fun hn => by simp [href] at hn, h.isSome_of_isLocked, fun hl r hr j hj => by
        obtain rfl : ref = r := by simpa [href] using hr
        rcases Ranking.mem_insertSorted.1 hj with rfl | hj
        · exact hng
        · exact h.best hl ref hr j hj⟩
  · by_cases hl : d.isLocked = true
    · have hsome := h.isSome_of_isLocked hl
      rw [onSubscribedCreated_of_isLocked R hl i]
      exact ⟨h.connected, h.satisfied, fun r hr => by simp [h.registered r hr],
        fun hn => by simp [hn] at hsome, h.isSome_of_isLocked, fun hn => by simp [hl] at hn⟩
    · have hl : d.isLocked = false := by simpa using hl
      simp only [Dependency.onSubscribedCreated, hk, hl]
      refine select _ (by simp) fun j hj hgt => ?_
      rcases Ranking.mem_insertSorted.1 hj with rfl | hj
      · exact Ranking.Greater.irrefl _ hgt
      · -- what the dependency gave up for `i` was at least as good as `j`
        cases hr : d.ref.ptr with
        | none => simp [h.nil_of_none hr] at hj
        | some ref =>
          have hi : R.Greater i ref := by simpa [keeps, hr, Ranking.Greater] using hk
          exact h.best hl ref (by simp [hr]) j hj (hgt.trans hi)

omit [IsStrictWeakOrder ι R.Greater] in
/-- Another interface is destroyed. -/
lemma erase (h : Follows R interfaces d) (hi : d.ref.ptr ≠ some i) :
    Follows R (interfaces.erase i) d where
  connected := h.connected
  satisfied := h.satisfied
  registered ref hr := by
    have hne : ref ≠ i := by
      rintro rfl
      exact hi hr
    exact (List.mem_erase_of_ne hne).2 (h.registered ref hr)
  nil_of_none hn := by simp [h.nil_of_none hn]
  isSome_of_isLocked := h.isSome_of_isLocked
  best hl ref hr j hj := h.best hl ref hr j (List.mem_of_mem_erase hj)

lemma onUsedDestroy (hl : d.isLocked = false) (hs : R.Sorted interfaces) :
    Follows R interfaces (d.onUsedDestroy interfaces) := by
  cases hf : interfaces.head? with
  | none =>
    obtain rfl : interfaces = [] := by simpa using hf
    constructor <;> simp [Dependency.onUsedDestroy, Dependency.setSatisfied, Dependency.disconnect,
      Dependency.isLocked]
    simpa [Dependency.isLocked] using hl
  | some front =>
    simp only [Dependency.onUsedDestroy, hf]
    exact select _ (List.mem_of_mem_head? hf) fun i hi => hs.not_greater_front hf hi

omit [IsStrictWeakOrder ι R.Greater] [DecidableEq ι] in
/-- The owner gets locked, or moves on while it is locked. -/
lemma setPhase (h : Follows R interfaces d) (hsome : d.ref.ptr.isSome = true) {p : Phase}
    (hp : p.isLocked = true) : Follows R interfaces { d with phase := p } :=
  ⟨h.connected, h.satisfied, h.registered, h.nil_of_none, fun _ => hsome,
    fun hl => absurd (hp.symm.trans hl) (by simp)⟩

/-- What was missed while the owner was locked is made up for. -/
lemma onImportUnlock (h : Follows R interfaces d) (hl : d.isLocked = true)
    (hs : R.Sorted interfaces) :
    Follows R interfaces { d.onImportUnlock R interfaces with phase := .stopped } := by
  obtain ⟨ref, href⟩ := Option.isSome_iff_exists.1 (h.isSome_of_isLocked hl)
  have hmem := h.registered ref href
  obtain ⟨front, hf⟩ : ∃ front, interfaces.head? = some front := by
    cases hf : interfaces.head? with
    | none => simp [List.head?_eq_none_iff.1 hf] at hmem
    | some front => exact ⟨front, rfl⟩
  by_cases hh : registryContainsHigherPriority R interfaces ref = true
  · simp only [Dependency.onImportUnlock, href, hf, hh, if_true]
    exact select { d with phase := .stopped } (List.mem_of_mem_head? hf)
      fun i hi => hs.not_greater_front hf hi
  · have e : d.onImportUnlock R interfaces = d := by simp [Dependency.onImportUnlock, href, hf, hh]
    rw [e]
    refine ⟨h.connected, h.satisfied, h.registered, h.nil_of_none, fun _ => ?_, ?_⟩
    · simp [href]
    intro _ r hr i hi hgt
    obtain rfl : ref = r := by simpa [href] using hr
    -- an interface above `ref` would have the front of the list above `ref` as well
    have hfront : R.Greater front ref :=
      hgt.of_not_greater_right (hs.not_greater_front hf hi)
    have hne : front ≠ ref := by
      rintro rfl
      exact Ranking.Greater.irrefl _ hfront
    exact hh (by simpa [registryContainsHigherPriority, hf, hne, Ranking.Greater] using hfront)

end Follows

end Dependency

end Idle
