import Idle.Library.Machine

/-!
# Counted references

Strong and weak references share the control block of an object: `counter_base` moves the counter
of its tag whenever it takes or drops a block, and `atomic_cb` calls `on_unique`, `on_destruct` and
`on_deallocate` when a counter falls to what they are about. References are constructed, assigned,
released and dropped in any order.
-/

namespace Idle

/-- `strong_arg_t` and `weak_arg_t` -/
inductive CounterTag where
  | strong
  | weak
  deriving DecidableEq, Repr

/-- The number of values of `std::uint_least32_t`. -/
@[irreducible] def counterRange : Nat := 2 ^ 32

lemma counterRange_pos : 0 < counterRange := by
  unfold counterRange
  exact Nat.two_pow_pos 32

/-- `atomic_cb` -/
structure ControlBlock where
  /-- `strong_`, which has 32 bits. -/
  strong : Nat
  /-- `weak_`, the same -/
  weak : Nat
  /-- History: calls of `on_destruct`. -/
  destructed : Nat
  /-- History: calls of `on_deallocate`. -/
  deallocated : Nat
  /-- History: `on_unique` was called in the last operation. -/
  unique : Bool
  /-- History: accesses after `on_deallocate`. -/
  touched : Nat
  deriving DecidableEq, Repr

namespace ControlBlock

def initial : ControlBlock where
  strong := 1
  weak := 1
  destructed := 0
  deallocated := 0
  unique := false
  touched := 0

def load (cb : ControlBlock) : CounterTag → Nat
  | .strong => cb.strong
  | .weak => cb.weak

/-- Note an access. -/
def touch (cb : ControlBlock) : ControlBlock :=
  { cb with touched := cb.touched + if 0 < cb.deallocated then 1 else 0 }

def increase (cb : ControlBlock) : CounterTag → ControlBlock
  | .strong => { cb.touch with strong := (cb.strong + 1) % counterRange }
  | .weak => { cb.touch with weak := (cb.weak + 1) % counterRange }

/-- `try_increase`, which has an effect if the counter is not zero. -/
def tryIncrease (cb : ControlBlock) : ControlBlock :=
  if cb.strong ≠ 0 then { cb.touch with strong := (cb.strong + 1) % counterRange } else cb.touch

/-- `decrease(weak_arg_t)` -/
def decreaseWeak (cb : ControlBlock) : ControlBlock :=
  { cb.touch with
    weak := (cb.weak + (counterRange - 1)) % counterRange
    deallocated := cb.deallocated + if cb.weak = 1 then 1 else 0 }

/-- `decrease(strong_arg_t)` -/
def decreaseStrong (cb : ControlBlock) : ControlBlock :=
  let previous := cb.strong
  let cb := { cb.touch with strong := (cb.strong + (counterRange - 1)) % counterRange }
  if previous = 1 then ({ cb with destructed := cb.destructed + 1 }).decreaseWeak
  else if previous = 2 then { cb with unique := true }
  else cb

def decrease (cb : ControlBlock) : CounterTag → ControlBlock
  | .strong => cb.decreaseStrong
  | .weak => cb.decreaseWeak

end ControlBlock

/-- `ref_base` or `weak_base`: an object, named by its control block, and the block that is held. -/
structure Ref (β : Type) where
  ptr : Option β
  block : Option β
  deriving DecidableEq, Repr

/-- The references of a program and the control blocks. -/
structure RefState (β : Type) where
  cb : β → ControlBlock
  /-- All references in the order of their construction; a destroyed one leaves a gap. -/
  refs : CounterTag → List (Option (Ref β))
  /-- History: how often a block was released and not adopted yet. -/
  released : CounterTag → β → Nat

/-- What is done with references. -/
inductive RefOp (β : Type) where
  /-- Construct from a block without counting. -/
  | adopt (tag : CounterTag) (block : β)
  /-- Construct from a pointer, or by default, without a block. -/
  | observe (tag : CounterTag) (ptr : Option β)
  | copy (tag : CounterTag) (right : Nat)
  | move (tag : CounterTag) (right : Nat)
  | copyAssign (tag : CounterTag) (me right : Nat)
  | moveAssign (tag : CounterTag) (me right : Nat)
  | reset (tag : CounterTag) (me : Nat)
  | destroy (tag : CounterTag) (me : Nat)
  | release (tag : CounterTag) (me : Nat)
  | disown (me : Nat)
  | tryAcquire (me : Nat)
  /-- `weak()`, and the conversion to `weak_base` -/
  | weaken (right : Nat)
  /-- Assign a strong reference to a weak one. -/
  | assignWeak (me right : Nat)
  | lock (me : Nat)
  deriving DecidableEq, Repr

namespace RefState

variable {β : Type} [DecidableEq β]

/-- New control blocks, each with the reference of its creator, which is not adopted yet. -/
def initial : RefState β where
  cb _ := .initial
  refs _ := []
  released tag _ := if tag = .strong then 1 else 0

def ref (st : RefState β) (tag : CounterTag) (i : Nat) : Option (Ref β) := (st.refs tag)[i]?.join

def ptrOf (st : RefState β) (tag : CounterTag) (i : Nat) : Option β := (st.ref tag i).bind Ref.ptr

def blockOf (st : RefState β) (tag : CounterTag) (i : Nat) : Option β :=
  (st.ref tag i).bind Ref.block

def setRef (st : RefState β) (tag : CounterTag) (i : Nat) (r : Option (Ref β)) : RefState β :=
  { st with refs := Function.update st.refs tag ((st.refs tag).set i r) }

def addRef (st : RefState β) (tag : CounterTag) (r : Ref β) : RefState β :=
  { st with refs := Function.update st.refs tag (st.refs tag ++ [some r]) }

def setPtr (st : RefState β) (tag : CounterTag) (i : Nat) (ptr : Option β) : RefState β :=
  st.setRef tag i ((st.ref tag i).map fun r => { r with ptr := ptr })

def setBlock (st : RefState β) (tag : CounterTag) (i : Nat) (block : Option β) : RefState β :=
  st.setRef tag i ((st.ref tag i).map fun r => { r with block := block })

def setCb (st : RefState β) (block : β) (cb : ControlBlock) : RefState β :=
  { st with cb := Function.update st.cb block cb }

/-- `if (block_) { block_->increase(Tag{}); }` -/
def increase (st : RefState β) (tag : CounterTag) : Option β → RefState β
  | some block => st.setCb block ((st.cb block).increase tag)
  | none => st

def decrease (st : RefState β) (tag : CounterTag) : Option β → RefState β
  | some block => st.setCb block ((st.cb block).decrease tag)
  | none => st

/-- `counter_base& operator=(ControlBlock* block)` -/
def assignBlock (st : RefState β) (tag : CounterTag) (me : Nat) (block : Option β) : RefState β :=
  let old := st.blockOf tag me
  ((st.setBlock tag me block).decrease tag old).increase tag block

def copy (st : RefState β) (tag : CounterTag) (right : Nat) : RefState β :=
  (st.addRef tag ⟨st.ptrOf tag right, st.blockOf tag right⟩).increase tag (st.blockOf tag right)

def move (st : RefState β) (tag : CounterTag) (right : Nat) : RefState β :=
  (st.addRef tag ⟨st.ptrOf tag right, st.blockOf tag right⟩).setRef tag right (some ⟨none, none⟩)

/-- `operator=` of a constant reference, for the pointer and then for the counter. -/
def copyAssign (st : RefState β) (tag : CounterTag) (me right : Nat) : RefState β :=
  let st := st.setPtr tag me (st.ptrOf tag right)
  st.assignBlock tag me (st.blockOf tag right)

def moveAssign (st : RefState β) (tag : CounterTag) (me right : Nat) : RefState β :=
  let ptr := st.ptrOf tag right
  let st := (st.setPtr tag right none).setPtr tag me ptr
  let old := st.blockOf tag me
  let st := (st.setBlock tag me (st.blockOf tag right)).decrease tag old
  st.setBlock tag right none

/-- `counter_base::reset` -/
def resetBlock (st : RefState β) (tag : CounterTag) (me : Nat) : RefState β :=
  let old := st.blockOf tag me
  (st.setBlock tag me none).decrease tag old

def reset (st : RefState β) (tag : CounterTag) (me : Nat) : RefState β :=
  (st.setPtr tag me none).resetBlock tag me

def destroy (st : RefState β) (tag : CounterTag) (me : Nat) : RefState β :=
  let old := st.blockOf tag me
  (st.setRef tag me none).decrease tag old

/-- `release`; a `weak_base` keeps its pointer. -/
def release (st : RefState β) (tag : CounterTag) (me : Nat) : RefState β :=
  let old := st.blockOf tag me
  let st := if tag = .strong then st.setPtr tag me none else st
  let st := st.setBlock tag me none
  match old with
  | some block =>
    { st with
      released := Function.update st.released tag
        (Function.update (st.released tag) block (st.released tag block + 1)) }
  | none => st

def adopt (st : RefState β) (tag : CounterTag) (block : β) : RefState β :=
  let st := st.addRef tag ⟨some block, some block⟩
  { st with
    released := Function.update st.released tag
      (Function.update (st.released tag) block (st.released tag block - 1)) }

/-- `try_acquire`: the counter of the object is move assigned to the one of the reference, which
holds none. -/
def tryAcquire (st : RefState β) (me : Nat) : RefState β :=
  match st.ptrOf .strong me, st.blockOf .strong me with
  | some ptr, none => (st.increase .strong (some ptr)).setBlock .strong me (some ptr)
  | _, _ => st

def weaken (st : RefState β) (right : Nat) : RefState β :=
  (st.addRef .weak ⟨st.ptrOf .strong right, st.blockOf .strong right⟩).increase .weak
    (st.blockOf .strong right)

def assignWeak (st : RefState β) (me right : Nat) : RefState β :=
  let st := st.setPtr .weak me (st.ptrOf .strong right)
  st.assignBlock .weak me (st.blockOf .strong right)

/-- `lock`, whose result is a new reference. -/
def lock (st : RefState β) (me : Nat) : RefState β :=
  match st.ptrOf .weak me, st.blockOf .weak me with
  | some ptr, some block =>
    let strong := (st.cb block).strong
    let st := st.setCb block (st.cb block).tryIncrease
    if strong ≠ 0 then st.addRef .strong ⟨some ptr, some block⟩
    else st.addRef .strong ⟨none, none⟩
  | some ptr, none => st.addRef .strong ⟨some ptr, none⟩
  | none, _ => st.addRef .strong ⟨none, none⟩

/-- A new operation begins. -/
def clear (st : RefState β) : RefState β :=
  { st with cb := fun block => { st.cb block with unique := false } }

/-- The references that hold a block, and those that were released and not adopted yet. -/
def held (st : RefState β) (tag : CounterTag) (block : β) : Nat :=
  ((st.refs tag).map (·.bind Ref.block)).count (some block) + st.released tag block

end RefState

namespace RefOp

open RefState

variable {β : Type} [DecidableEq β]

/-- Operations are called on references that there are, adopt what was released, and acquire what
is alive. -/
def Pre (st : RefState β) : RefOp β → Prop
  | adopt tag block => 0 < st.released tag block
  | observe _ _ => True
  | copy tag right | move tag right => (st.ref tag right).isSome = true
  | copyAssign tag me right | moveAssign tag me right =>
    (st.ref tag me).isSome = true ∧ (st.ref tag right).isSome = true
  | reset tag me | destroy tag me | release tag me => (st.ref tag me).isSome = true
  | disown me => (st.ref .strong me).isSome = true
  | tryAcquire me => (st.ref .strong me).isSome = true ∧
      (st.blockOf .strong me = none → ∀ ptr ∈ st.ptrOf .strong me, 0 < st.held .strong ptr)
  | weaken right => (st.ref .strong right).isSome = true
  | assignWeak me right => (st.ref .weak me).isSome = true ∧ (st.ref .strong right).isSome = true
  | lock me => (st.ref .weak me).isSome = true

def exec (st : RefState β) (op : RefOp β) : RefState β :=
  let st := st.clear
  match op with
  | adopt tag block => st.adopt tag block
  | observe tag ptr => st.addRef tag ⟨ptr, none⟩
  | copy tag right => st.copy tag right
  | move tag right => st.move tag right
  | copyAssign tag me right => st.copyAssign tag me right
  | moveAssign tag me right => st.moveAssign tag me right
  | reset tag me => st.reset tag me
  | destroy tag me => st.destroy tag me
  | release tag me => st.release tag me
  | disown me => st.resetBlock .strong me
  | tryAcquire me => st.tryAcquire me
  | weaken right => st.weaken right
  | assignWeak me right => st.assignWeak me right
  | lock me => st.lock me

end RefOp

/-- All references of a program. -/
def references (β : Type) [DecidableEq β] : Machine (RefState β) (RefOp β) where
  init st := st = .initial
  pre := RefOp.Pre
  step := RefOp.exec

namespace RefState

variable {β : Type} [DecidableEq β]

/-- The counters count the references, and the callbacks are called as they are documented. -/
structure Counts (st : RefState β) : Prop where
  strong_eq : ∀ b, (st.cb b).strong = st.held .strong b
  weak_eq : ∀ b, (st.cb b).weak =
    st.held .weak b + if (st.cb b).strong ≠ 0 then 1 else 0
  destructed_eq : ∀ b, (st.cb b).destructed = if st.held .strong b = 0 then 1 else 0
  deallocated_eq : ∀ b, (st.cb b).deallocated =
    if st.held .strong b = 0 ∧ st.held .weak b = 0 then 1 else 0
  unique : ∀ b, (st.cb b).unique = true → st.held .strong b = 1
  untouched : ∀ b, (st.cb b).touched = 0

/-- A reference is not assigned another one to its block unless enough references remain in
between, and no counter overflows. -/
def KeepsCount (st : RefState β) : RefOp β → Prop
  | .copyAssign tag me right => ∀ b, st.blockOf tag right = some b →
      if st.blockOf tag me = some b then (if tag = .strong then 3 else 2) ≤ (st.cb b).load tag
      else (st.cb b).load tag + 1 < counterRange
  | .copy tag right => ∀ b, st.blockOf tag right = some b → (st.cb b).load tag + 1 < counterRange
  | .tryAcquire me => st.blockOf .strong me = none → ∀ b, st.ptrOf .strong me = some b →
      (st.cb b).strong + 1 < counterRange
  | .weaken right => ∀ b, st.blockOf .strong right = some b → (st.cb b).weak + 1 < counterRange
  | .assignWeak me right => ∀ b, st.blockOf .strong right = some b →
      st.blockOf .weak me ≠ some b → (st.cb b).weak + 1 < counterRange
  | .lock me => ∀ b, st.blockOf .weak me = some b → (st.cb b).strong + 1 < counterRange
  | _ => True

end RefState

/-! ### One control block -/

namespace ControlBlock

variable {cb : ControlBlock} {s w : Nat}

/-- Subtracting one, as it is done without a sign. -/
lemma add_pred_mod {n : Nat} (h : n < counterRange) :
    (n + 1 + (counterRange - 1)) % counterRange = n := by
  have hpos := counterRange_pos
  have heq : n + 1 + (counterRange - 1) = n + counterRange := by omega
  rw [heq, Nat.add_mod_right, Nat.mod_eq_of_lt h]

/-- A control block with so many strong and weak references. -/
structure Counted (cb : ControlBlock) (s w : Nat) : Prop where
  strong_eq : cb.strong = s
  weak_eq : cb.weak = w + if s ≠ 0 then 1 else 0
  strong_lt : cb.strong < counterRange
  weak_lt : cb.weak < counterRange
  destructed_eq : cb.destructed = if s = 0 then 1 else 0
  deallocated_eq : cb.deallocated = if s = 0 ∧ w = 0 then 1 else 0
  untouched : cb.touched = 0

lemma touch_of_deallocated_eq_zero (h : cb.deallocated = 0) : cb.touch = cb := by
  obtain ⟨strong, weak, destructed, deallocated, unique, touched⟩ := cb
  simp only at h
  subst h
  rfl

/-- What is held by a reference is not deallocated yet. -/
lemma Counted.touch_eq (h : cb.Counted s w) (halive : 0 < s ∨ 0 < w) : cb.touch = cb := by
  have hnot : ¬ (s = 0 ∧ w = 0) := by omega
  exact touch_of_deallocated_eq_zero (h.deallocated_eq.trans (if_neg hnot))

lemma Counted.increase_strong (h : cb.Counted s w) (hs : 0 < s)
    (hlt : cb.strong + 1 < counterRange) :
    (cb.increase .strong).Counted (s + 1) w := by
  have hmod : (cb.strong + 1) % counterRange = s + 1 := by
    rw [Nat.mod_eq_of_lt hlt, h.strong_eq]
  have hne : s ≠ 0 := hs.ne'
  simp only [increase, h.touch_eq (.inl hs), hmod]
  refine ⟨rfl, ?_, ?_, h.weak_lt, ?_, ?_, h.untouched⟩
  · simpa [hne] using h.weak_eq
  · exact h.strong_eq ▸ hlt
  · simpa [hne] using h.destructed_eq
  · simpa [hne] using h.deallocated_eq

lemma Counted.increase_weak (h : cb.Counted s w) (halive : 0 < s ∨ 0 < w)
    (hlt : cb.weak + 1 < counterRange) : (cb.increase .weak).Counted s (w + 1) := by
  have hnot : ¬ (s = 0 ∧ w = 0) := by omega
  have hweak := h.weak_eq
  have hdeallocated := h.deallocated_eq
  rw [if_neg hnot] at hdeallocated
  simp only [increase, h.touch_eq halive, Nat.mod_eq_of_lt hlt]
  refine ⟨h.strong_eq, ?_, h.strong_lt, hlt, h.destructed_eq, ?_, h.untouched⟩
  · change cb.weak + 1 = _
    omega
  · change cb.deallocated = _
    simpa using hdeallocated

lemma Counted.decreaseWeak (h : cb.Counted s (w + 1)) : cb.decreaseWeak.Counted s w := by
  have hweak : cb.weak = (w + if s ≠ 0 then 1 else 0) + 1 := by
    have := h.weak_eq
    omega
  have hlt := h.weak_lt
  have hmod : (cb.weak + (counterRange - 1)) % counterRange = w + if s ≠ 0 then 1 else 0 := by
    rw [hweak] at hlt ⊢
    exact add_pred_mod (by omega)
  have hdeallocated : cb.deallocated = 0 := by simpa using h.deallocated_eq
  have hiff : cb.weak = 1 ↔ s = 0 ∧ w = 0 := by
    rw [hweak]
    split <;> omega
  simp only [ControlBlock.decreaseWeak, h.touch_eq (.inr w.succ_pos), hmod]
  refine ⟨h.strong_eq, rfl, h.strong_lt, ?_, h.destructed_eq, ?_, h.untouched⟩
  · simp only
    omega
  · simp only [hdeallocated, Nat.zero_add, hiff]

/-- The last strong reference gives up the weak one that all of them share. -/
lemma decreaseStrong_of_eq_one (h : cb.strong = 1) (hd : cb.deallocated = 0) :
    cb.decreaseStrong =
      ({ cb with strong := 0, destructed := cb.destructed + 1 } : ControlBlock).decreaseWeak := by
  have hmod : (cb.strong + (counterRange - 1)) % counterRange = 0 := by
    rw [h]
    exact add_pred_mod counterRange_pos
  simp only [ControlBlock.decreaseStrong, touch_of_deallocated_eq_zero hd, hmod, if_pos h]

lemma decreaseStrong_of_ne_one (h : cb.strong = s + 1) (hs : 0 < s) (hlt : cb.strong < counterRange)
    (hd : cb.deallocated = 0) :
    ∃ u, cb.decreaseStrong = { cb with strong := s, unique := u } := by
  have hmod : (cb.strong + (counterRange - 1)) % counterRange = s := by
    rw [h] at hlt ⊢
    exact add_pred_mod (by omega)
  have hne : ¬ cb.strong = 1 := by omega
  simp only [ControlBlock.decreaseStrong, touch_of_deallocated_eq_zero hd, hmod, if_neg hne]
  split
  · exact ⟨true, rfl⟩
  · exact ⟨cb.unique, rfl⟩

lemma Counted.decreaseStrong (h : cb.Counted (s + 1) w) : cb.decreaseStrong.Counted s w := by
  have hweak : cb.weak = w + 1 := h.weak_eq
  have hdestructed : cb.destructed = 0 := h.destructed_eq
  have hdeallocated : cb.deallocated = 0 := by simpa using h.deallocated_eq
  have hlt := h.strong_lt
  rw [h.strong_eq] at hlt
  rcases Nat.eq_zero_or_pos s with rfl | hs
  · -- without strong references the shared weak one counts like any other
    rw [decreaseStrong_of_eq_one h.strong_eq hdeallocated]
    refine Counted.decreaseWeak ⟨rfl, hweak, counterRange_pos, h.weak_lt, ?_, ?_, h.untouched⟩
    · simp [hdestructed]
    · simpa using hdeallocated
  · obtain ⟨u, heq⟩ := decreaseStrong_of_ne_one h.strong_eq hs h.strong_lt hdeallocated
    have hne : s ≠ 0 := hs.ne'
    have hs_lt : s < counterRange := by omega
    rw [heq]
    refine ⟨rfl, ?_, hs_lt, h.weak_lt, ?_, ?_, h.untouched⟩
    · simpa [hne] using hweak
    · simpa [hne] using hdestructed
    · simpa [hne] using hdeallocated

lemma unique_increase (cb : ControlBlock) (tag : CounterTag) :
    (cb.increase tag).unique = cb.unique := by
  cases tag with
  | strong => simp only [increase, touch]
  | weak => simp only [increase, touch]

lemma unique_decreaseWeak (cb : ControlBlock) : cb.decreaseWeak.unique = cb.unique := by
  unfold ControlBlock.decreaseWeak touch
  dsimp only

lemma unique_decreaseStrong (h : cb.decreaseStrong.unique = true) :
    cb.unique = true ∨ cb.strong = 2 := by
  by_cases hone : cb.strong = 1
  · simp only [ControlBlock.decreaseStrong, if_pos hone, unique_decreaseWeak] at h
    exact .inl h
  · by_cases htwo : cb.strong = 2
    · exact .inr htwo
    · simp only [ControlBlock.decreaseStrong, if_neg hone, if_neg htwo] at h
      exact .inl h

end ControlBlock

/-! ### What holds a block -/

namespace RefState

variable {β : Type} [DecidableEq β] {st st' : RefState β} {tag t : CounterTag} {i j : Nat} {b : β}

omit [DecidableEq β] in
lemma lt_of_isSome (h : (st.ref tag i).isSome = true) : i < (st.refs tag).length := by
  by_contra hge
  simp [ref, List.getElem?_eq_none (Nat.le_of_not_lt hge)] at h

/-- A block is held by what was put into a place instead of what was there. -/
lemma held_setRef (h : (st.ref tag i).isSome = true) (r : Option (Ref β)) (t : CounterTag) (b : β) :
    (st.setRef tag i r).held t b + (if t = tag ∧ st.blockOf tag i = some b then 1 else 0) =
      st.held t b + if t = tag ∧ r.bind Ref.block = some b then 1 else 0 := by
  by_cases ht : t = tag
  · subst ht
    have hlt := lt_of_isSome h
    have hblock : st.blockOf t i = ((st.refs t)[i]).bind Ref.block := by
      simp [blockOf, ref, List.getElem?_eq_getElem hlt]
    have hmem : (if st.blockOf t i = some b then 1 else 0) ≤
        ((st.refs t).map (·.bind Ref.block)).count (some b) := by
      split
      · rename_i heq
        refine List.one_le_count_iff.2 (List.mem_map.2 ⟨_, List.getElem_mem hlt, ?_⟩)
        rw [← hblock, heq]
      · exact Nat.zero_le _
    simp only [held, setRef, Function.update_self, List.map_set, true_and]
    rw [List.count_set (by simpa using hlt)]
    simp only [List.getElem_map, beq_iff_eq, ← hblock]
    omega
  · simp only [held, setRef, Function.update_of_ne ht, ht, false_and, if_false]

lemma held_addRef (st : RefState β) (tag : CounterTag) (r : Ref β) (t : CounterTag) (b : β) :
    (st.addRef tag r).held t b = st.held t b + if t = tag ∧ r.block = some b then 1 else 0 := by
  by_cases ht : t = tag
  · subst ht
    simp only [held, addRef, Function.update_self, List.map_append, List.count_append,
      List.map_cons,
      List.map_nil, List.count_singleton, Option.bind_some, beq_iff_eq, true_and]
    omega
  · simp only [held, addRef, Function.update_of_ne ht, ht, false_and, if_false, Nat.add_zero]

/-- What holds a block is counted. -/
lemma held_pos (h : st.blockOf tag i = some b) : 0 < st.held tag b := by
  obtain ⟨r, hr, hblock⟩ := Option.bind_eq_some_iff.1 h
  have hmem : some r ∈ st.refs tag := List.mem_of_getElem? (Option.join_eq_some_iff.1 hr)
  refine Nat.add_pos_left (List.count_pos_iff.2 (List.mem_map.2 ⟨_, hmem, ?_⟩)) _
  exact hblock

omit [DecidableEq β] in
lemma ref_setRef_self (h : (st.ref tag i).isSome = true) (r : Option (Ref β)) :
    (st.setRef tag i r).ref tag i = r := by
  simp [ref, setRef, lt_of_isSome h]

omit [DecidableEq β] in
lemma ref_setRef_of_ne (r : Option (Ref β)) (h : ¬ (t = tag ∧ j = i)) :
    (st.setRef tag i r).ref t j = st.ref t j := by
  by_cases ht : t = tag
  · subst ht
    have hji : i ≠ j := fun heq => h ⟨rfl, heq.symm⟩
    simp [ref, setRef, hji]
  · simp [ref, setRef, Function.update_of_ne ht]

omit [DecidableEq β] in
/-- Setting a pointer changes no block. -/
lemma blockOf_setPtr (h : (st.ref tag i).isSome = true) (ptr : Option β) (t : CounterTag)
    (j : Nat) : (st.setPtr tag i ptr).blockOf t j = st.blockOf t j := by
  unfold blockOf setPtr
  by_cases heq : t = tag ∧ j = i
  · obtain ⟨rfl, rfl⟩ := heq
    rw [ref_setRef_self h]
    cases st.ref t j <;> rfl
  · rw [ref_setRef_of_ne _ heq]

omit [DecidableEq β] in
lemma ref_setPtr_isSome (h : (st.ref tag i).isSome = true) (ptr : Option β) (t : CounterTag)
    (j : Nat) : ((st.setPtr tag i ptr).ref t j).isSome = (st.ref t j).isSome := by
  unfold setPtr
  by_cases heq : t = tag ∧ j = i
  · obtain ⟨rfl, rfl⟩ := heq
    rw [ref_setRef_self h]
    cases st.ref t j <;> rfl
  · rw [ref_setRef_of_ne _ heq]

lemma held_setPtr (h : (st.ref tag i).isSome = true) (ptr : Option β) (t : CounterTag) (b : β) :
    (st.setPtr tag i ptr).held t b = st.held t b := by
  have hset := held_setRef h ((st.ref tag i).map fun r => { r with ptr := ptr }) t b
  have hblock : ((st.ref tag i).map fun r => { r with ptr := ptr }).bind Ref.block =
      st.blockOf tag i := by
    unfold blockOf
    cases st.ref tag i <;> rfl
  rw [hblock] at hset
  exact Nat.add_right_cancel hset

lemma held_setBlock (h : (st.ref tag i).isSome = true) (o : Option β) (t : CounterTag) (b : β) :
    (st.setBlock tag i o).held t b + (if t = tag ∧ st.blockOf tag i = some b then 1 else 0) =
      st.held t b + if t = tag ∧ o = some b then 1 else 0 := by
  have hset := held_setRef h ((st.ref tag i).map fun r => { r with block := o }) t b
  have hblock : ((st.ref tag i).map fun r => { r with block := o }).bind Ref.block = o := by
    obtain ⟨r, hr⟩ := Option.isSome_iff_exists.1 h
    rw [hr]
    rfl
  rw [hblock] at hset
  exact hset

lemma cb_increase (st : RefState β) (tag : CounterTag) (o : Option β) (b : β) :
    (st.increase tag o).cb b = if o = some b then (st.cb b).increase tag else st.cb b := by
  cases o with
  | none => simp [increase]
  | some c =>
    by_cases hc : c = b
    · subst hc
      simp [increase, setCb]
    · simp [increase, setCb, hc, Function.update_of_ne (Ne.symm hc)]

lemma cb_decrease (st : RefState β) (tag : CounterTag) (o : Option β) (b : β) :
    (st.decrease tag o).cb b = if o = some b then (st.cb b).decrease tag else st.cb b := by
  cases o with
  | none => simp [decrease]
  | some c =>
    by_cases hc : c = b
    · subst hc
      simp [decrease, setCb]
    · simp [decrease, setCb, hc, Function.update_of_ne (Ne.symm hc)]

lemma held_increase (st : RefState β) (tag : CounterTag) (o : Option β) :
    (st.increase tag o).held = st.held := by
  cases o <;> rfl

lemma held_decrease (st : RefState β) (tag : CounterTag) (o : Option β) :
    (st.decrease tag o).held = st.held := by
  cases o <;> rfl

/-! ### One operation -/

/-- The counters count the references. -/
structure Tracked (st : RefState β) : Prop where
  counted : ∀ b, (st.cb b).Counted (st.held .strong b) (st.held .weak b)
  unique : ∀ b, (st.cb b).unique = true → st.held .strong b = 1

/-- No callback was called in this operation so far. -/
structure Ready (st : RefState β) : Prop where
  counted : ∀ b, (st.cb b).Counted (st.held .strong b) (st.held .weak b)
  unique : ∀ b, (st.cb b).unique = false

lemma Tracked.clear (h : st.Tracked) : st.clear.Ready where
  counted b := by
    have hb := h.counted b
    exact ⟨hb.strong_eq, hb.weak_eq, hb.strong_lt, hb.weak_lt, hb.destructed_eq, hb.deallocated_eq,
      hb.untouched⟩
  unique _ := rfl

end RefState

namespace ControlBlock

variable {cb : ControlBlock} {s s' w w' : Nat} {dec inc : Prop} [Decidable dec] [Decidable inc]

/-- Strong references that give up a block and then take it. In between it is not unique. -/
lemma Counted.exchange_strong (h : cb.Counted s w) (hu : cb.unique = false)
    (hs : s' + (if dec then 1 else 0) = s + if inc then 1 else 0) (hdec : dec → 0 < s)
    (hboth : dec → inc → 3 ≤ s) (hinc : ¬ dec → inc → 0 < s ∧ cb.strong + 1 < counterRange) :
    (if inc then (if dec then cb.decreaseStrong else cb).increase .strong
      else if dec then cb.decreaseStrong else cb).Counted s' w ∧
    ((if inc then (if dec then cb.decreaseStrong else cb).increase .strong
      else if dec then cb.decreaseStrong else cb).unique = true → s' = 1) := by
  by_cases hd : dec
  · obtain ⟨n, rfl⟩ := Nat.exists_eq_succ_of_ne_zero (hdec hd).ne'
    have hcounted : cb.decreaseStrong.Counted n w := h.decreaseStrong
    have hunique : cb.decreaseStrong.unique = true → n = 1 := by
      intro hone
      rcases unique_decreaseStrong hone with htrue | htwo
      · exact absurd (hu.symm.trans htrue) (by simp)
      · have := h.strong_eq
        omega
    by_cases hi : inc
    · have hthree := hboth hd hi
      have hlt := h.strong_lt
      rw [h.strong_eq] at hlt
      simp only [hd, hi, if_true] at hs ⊢
      have hs' : s' = n + 1 := by omega
      subst hs'
      refine ⟨hcounted.increase_strong (by omega) ?_, fun hone => ?_⟩
      · rw [hcounted.strong_eq]
        omega
      · rw [unique_increase] at hone
        have := hunique hone
        omega
    · simp only [hd, hi, if_true, if_false] at hs ⊢
      have hs' : s' = n := by omega
      subst hs'
      exact ⟨hcounted, hunique⟩
  · by_cases hi : inc
    · obtain ⟨hpos, hlt⟩ := hinc hd hi
      simp only [hd, hi, if_true, if_false, Nat.add_zero] at hs ⊢
      subst hs
      refine ⟨h.increase_strong hpos hlt, fun hone => ?_⟩
      rw [unique_increase] at hone
      exact absurd (hu.symm.trans hone) (by simp)
    · simp only [hd, hi, if_false, Nat.add_zero] at hs ⊢
      subst hs
      exact ⟨h, fun hone => absurd (hu.symm.trans hone) (by simp)⟩

lemma Counted.exchange_weak (h : cb.Counted s w) (hu : cb.unique = false)
    (hw : w' + (if dec then 1 else 0) = w + if inc then 1 else 0) (hdec : dec → 0 < w)
    (hboth : dec → inc → 2 ≤ cb.weak)
    (hinc : ¬ dec → inc → (0 < s ∨ 0 < w) ∧ cb.weak + 1 < counterRange) :
    (if inc then (if dec then cb.decreaseWeak else cb).increase .weak
      else if dec then cb.decreaseWeak else cb).Counted s w' ∧
    (if inc then (if dec then cb.decreaseWeak else cb).increase .weak
      else if dec then cb.decreaseWeak else cb).unique = false := by
  by_cases hd : dec
  · obtain ⟨n, rfl⟩ := Nat.exists_eq_succ_of_ne_zero (hdec hd).ne'
    have hcounted : cb.decreaseWeak.Counted s n := h.decreaseWeak
    by_cases hi : inc
    · have htwo := hboth hd hi
      have hlt := h.weak_lt
      have hweak := h.weak_eq
      have hweak' := hcounted.weak_eq
      simp only [hd, hi, if_true] at hw ⊢
      have hw' : w' = n + 1 := by omega
      subst hw'
      refine ⟨hcounted.increase_weak ?_ (by omega), ?_⟩
      · by_cases hs : s = 0
        · simp only [hs, ne_eq, not_true_eq_false, if_false] at hweak
          omega
        · omega
      · rw [unique_increase, unique_decreaseWeak, hu]
    · simp only [hd, hi, if_true, if_false] at hw ⊢
      have hw' : w' = n := by omega
      subst hw'
      exact ⟨hcounted, by rw [unique_decreaseWeak, hu]⟩
  · by_cases hi : inc
    · obtain ⟨halive, hlt⟩ := hinc hd hi
      simp only [hd, hi, if_true, if_false, Nat.add_zero] at hw ⊢
      subst hw
      exact ⟨h.increase_weak halive hlt, by rw [unique_increase, hu]⟩
    · simp only [hd, hi, if_false, Nat.add_zero] at hw ⊢
      subst hw
      exact ⟨h, hu⟩

end ControlBlock

namespace RefState

variable {β : Type} [DecidableEq β] {st st' : RefState β} {tag : CounterTag} {i j : Nat} {b : β}

/-- One reference gives up a block and then another one takes one. -/
lemma Ready.exchange (h : st.Ready) (tag : CounterTag) (dec inc : Option β)
    (hcb : ∀ b, st'.cb b = ((st.decrease tag dec).increase tag inc).cb b)
    (hheld : ∀ t b, st'.held t b + (if t = tag ∧ dec = some b then 1 else 0) =
      st.held t b + if t = tag ∧ inc = some b then 1 else 0)
    (hdec : ∀ b, dec = some b → 0 < st.held tag b)
    (hboth : ∀ b, dec = some b → inc = some b →
      (if tag = .strong then 3 else 2) ≤ (st.cb b).load tag)
    (hinc : ∀ b, dec ≠ some b → inc = some b → (0 < st.held .strong b ∨ 0 < st.held tag b) ∧
      (st.cb b).load tag + 1 < counterRange) : st'.Tracked := by
  have hblock (b : β) : (st'.cb b).Counted (st'.held .strong b) (st'.held .weak b) ∧
      ((st'.cb b).unique = true → st'.held .strong b = 1) := by
    have hstrong := hheld .strong b
    have hweak := hheld .weak b
    rw [hcb, cb_increase, cb_decrease]
    cases tag with
    | strong =>
      simp only [true_and, reduceCtorEq, false_and, if_false, Nat.add_zero] at hstrong hweak
      rw [hweak]
      refine (h.counted b).exchange_strong (h.unique b) hstrong (hdec b) (fun hd hi => ?_)
        fun hd hi => ?_
      · have hthree := hboth b hd hi
        rw [if_pos rfl, ControlBlock.load, (h.counted b).strong_eq] at hthree
        exact hthree
      · obtain ⟨halive, hlt⟩ := hinc b hd hi
        exact ⟨halive.elim id id, hlt⟩
    | weak =>
      simp only [true_and, reduceCtorEq, false_and, if_false, Nat.add_zero] at hstrong hweak
      rw [hstrong]
      obtain ⟨hcounted, hunique⟩ := (h.counted b).exchange_weak (h.unique b) hweak (hdec b)
        (fun hd hi => hboth b hd hi) fun hd hi => hinc b hd hi
      exact ⟨hcounted, fun hone => absurd (hunique.symm.trans hone) (by simp)⟩
  exact ⟨fun b => (hblock b).1, fun b => (hblock b).2⟩

omit [DecidableEq β] in
lemma ref_addRef (h : (st.ref t j).isSome = true) (r : Ref β) :
    (st.addRef tag r).ref t j = st.ref t j := by
  by_cases ht : t = tag
  · subst ht
    simp [ref, addRef, List.getElem?_append_left (lt_of_isSome h)]
  · simp [ref, addRef, Function.update_of_ne ht]

/-- What neither counts nor changes the number of references. -/
lemma Ready.of_held_eq (h : st.Ready) (hcb : st'.cb = st.cb)
    (hheld : ∀ t b, st'.held t b = st.held t b) : st'.Tracked := by
  refine h.exchange .strong none none (fun b => by rw [hcb]; rfl)
    (fun t b => ?_) nofun nofun nofun
  simp [hheld]

lemma Ready.adopt {block : β} (h : st.Ready) (hpos : 0 < st.released tag block) :
    (st.adopt tag block).Tracked := by
  refine h.of_held_eq rfl fun t b => ?_
  by_cases ht : t = tag
  · subst ht
    by_cases hb : block = b
    · subst hb
      simp [RefState.adopt, held, addRef]
      omega
    · have hne : b ≠ block := Ne.symm hb
      simp [RefState.adopt, held, addRef, hb, Function.update_of_ne hne]
  · simp [RefState.adopt, held, addRef, Function.update_of_ne ht]

lemma Ready.observe (h : st.Ready) (ptr : Option β) : (st.addRef tag ⟨ptr, none⟩).Tracked := by
  refine h.of_held_eq rfl fun t b => ?_
  rw [held_addRef]
  simp

lemma Ready.copy (h : st.Ready) (hlt : ∀ b, st.blockOf tag j = some b →
    (st.cb b).load tag + 1 < counterRange) : (st.copy tag j).Tracked := by
  refine h.exchange tag none (st.blockOf tag j) (fun b => ?_) (fun t b => ?_) nofun
    nofun fun b _ hb => ⟨.inr (held_pos hb), hlt b hb⟩
  · rw [RefState.copy, cb_increase, cb_increase]
    rfl
  · rw [RefState.copy, held_increase, held_addRef]
    simp

lemma Ready.move (h : st.Ready) (hj : (st.ref tag j).isSome = true) :
    (st.move tag j).Tracked := by
  refine h.of_held_eq rfl fun t b => ?_
  have href (r : Ref β) : (st.addRef tag r).ref tag j = st.ref tag j := ref_addRef hj r
  have hadd := held_addRef st tag ⟨st.ptrOf tag j, st.blockOf tag j⟩ t b
  have hsome : ((st.addRef tag ⟨st.ptrOf tag j, st.blockOf tag j⟩).ref tag j).isSome = true := by
    rw [href]
    exact hj
  have hblock : (st.addRef tag ⟨st.ptrOf tag j, st.blockOf tag j⟩).blockOf tag j =
      st.blockOf tag j := congrArg (·.bind Ref.block) (href _)
  have hset := held_setRef hsome (some ⟨none, none⟩) t b
  rw [hblock, hadd] at hset
  simpa [RefState.move] using hset

/-- The block of a reference is replaced. -/
lemma Ready.assignBlock (h : st.Ready) {o : Option β} (hi : (st.ref tag i).isSome = true)
    (hboth : ∀ b, st.blockOf tag i = some b → o = some b →
      (if tag = .strong then 3 else 2) ≤ (st.cb b).load tag)
    (hinc : ∀ b, st.blockOf tag i ≠ some b → o = some b →
      (0 < st.held .strong b ∨ 0 < st.held tag b) ∧ (st.cb b).load tag + 1 < counterRange) :
    (st.assignBlock tag i o).Tracked := by
  refine h.exchange tag (st.blockOf tag i) o (fun b => ?_) (fun t b => ?_)
    (fun b => held_pos) hboth hinc
  · rw [RefState.assignBlock, cb_increase, cb_decrease, cb_increase, cb_decrease]
    rfl
  · rw [RefState.assignBlock, held_increase, held_decrease]
    exact held_setBlock hi o t b

lemma Ready.setPtr (h : st.Ready) (hi : (st.ref tag i).isSome = true) (ptr : Option β) :
    (st.setPtr tag i ptr).Ready where
  counted b := by
    rw [held_setPtr hi, held_setPtr hi]
    exact h.counted b
  unique := h.unique

lemma Ready.copyAssign (h : st.Ready) (hi : (st.ref tag i).isSome = true)
    (hcond : ∀ b, st.blockOf tag j = some b →
      if st.blockOf tag i = some b then (if tag = .strong then 3 else 2) ≤ (st.cb b).load tag
      else (st.cb b).load tag + 1 < counterRange) : (st.copyAssign tag i j).Tracked := by
  have hready := h.setPtr hi (st.ptrOf tag j)
  have hblock := blockOf_setPtr hi (st.ptrOf tag j)
  refine hready.assignBlock ((ref_setPtr_isSome hi _ tag i).trans hi) (fun b hb ho => ?_)
    fun b hb ho => ?_
  · rw [hblock] at hb ho
    have := hcond b ho
    rwa [if_pos hb] at this
  · rw [hblock] at hb ho
    have := hcond b ho
    rw [if_neg hb] at this
    rw [held_setPtr hi, held_setPtr hi]
    exact ⟨.inr (held_pos ho), this⟩

/-- Giving up a block. -/
lemma Ready.resetBlock (h : st.Ready) (hi : (st.ref tag i).isSome = true) :
    (st.resetBlock tag i).Tracked := by
  refine h.exchange tag (st.blockOf tag i) none (fun b => ?_) (fun t b => ?_)
    (fun b => held_pos) nofun nofun
  · rw [RefState.resetBlock, cb_decrease, cb_increase, cb_decrease]
    rfl
  · rw [RefState.resetBlock, held_decrease]
    exact held_setBlock hi none t b

lemma Ready.reset (h : st.Ready) (hi : (st.ref tag i).isSome = true) :
    (st.reset tag i).Tracked :=
  (h.setPtr hi none).resetBlock ((ref_setPtr_isSome hi none tag i).trans hi)

lemma Ready.destroy (h : st.Ready) (hi : (st.ref tag i).isSome = true) :
    (st.destroy tag i).Tracked := by
  refine h.exchange tag (st.blockOf tag i) none (fun b => ?_) (fun t b => ?_)
    (fun b => held_pos) nofun nofun
  · rw [RefState.destroy, cb_decrease, cb_increase, cb_decrease]
    rfl
  · rw [RefState.destroy, held_decrease]
    exact held_setRef hi none t b

/-- Moving takes the place of one of the two references, whether or not they are the same. -/
lemma Ready.moveAssign (h : st.Ready) (hi : (st.ref tag i).isSome = true)
    (hj : (st.ref tag j).isSome = true) : (st.moveAssign tag i j).Tracked := by
  have hready := (h.setPtr hj none).setPtr ((ref_setPtr_isSome hj none tag i).trans hi)
    (st.ptrOf tag j)
  have hsome (k : Nat) : (((st.setPtr tag j none).setPtr tag i (st.ptrOf tag j)).ref tag k).isSome =
      (st.ref tag k).isSome :=
    (ref_setPtr_isSome ((ref_setPtr_isSome hj none tag i).trans hi) _ tag k).trans
      (ref_setPtr_isSome hj none tag k)
  unfold RefState.moveAssign
  simp only
  generalize (st.setPtr tag j none).setPtr tag i (st.ptrOf tag j) = u at hready hsome ⊢
  have hui := (hsome i).trans hi
  have huj := (hsome j).trans hj
  -- whichever reference it is, `right` holds the block when it lets go of it
  have hright : (u.setBlock tag i (u.blockOf tag j)).blockOf tag j = u.blockOf tag j := by
    unfold setBlock blockOf
    by_cases hji : j = i
    · subst hji
      rw [ref_setRef_self huj]
      obtain ⟨r, hr⟩ := Option.isSome_iff_exists.1 huj
      rw [hr]
      rfl
    · rw [ref_setRef_of_ne _ fun heq => hji heq.2]
  have hrightsome : ((u.setBlock tag i (u.blockOf tag j)).ref tag j).isSome = true := by
    unfold setBlock
    by_cases hji : j = i
    · subst hji
      rw [ref_setRef_self huj, Option.isSome_map]
      exact huj
    · rw [ref_setRef_of_ne _ fun heq => hji heq.2]
      exact huj
  refine hready.exchange tag (u.blockOf tag i) none (fun b => ?_) (fun t b => ?_)
    (fun b => held_pos) nofun nofun
  · rw [cb_increase, cb_decrease]
    exact cb_decrease _ _ _ _
  · have hfirst := held_setBlock hui (u.blockOf tag j) t b
    have hswap : ((u.setBlock tag i (u.blockOf tag j)).decrease tag
        (u.blockOf tag i)).setBlock tag j
        none = ((u.setBlock tag i (u.blockOf tag j)).setBlock tag j none).decrease tag
          (u.blockOf tag i) := by
      cases u.blockOf tag i <;> rfl
    have hsecond := held_setBlock hrightsome none t b
    rw [hright] at hsecond
    rw [hswap, held_decrease]
    simp only [reduceCtorEq, and_false, if_false, Nat.add_zero] at hsecond ⊢
    omega

lemma Ready.release (h : st.Ready) (hi : (st.ref tag i).isSome = true) :
    (st.release tag i).Tracked := by
  have hptr : (if tag = .strong then st.setPtr tag i none else st).Ready ∧
      ((if tag = .strong then st.setPtr tag i none else st).ref tag i).isSome = true ∧
      (if tag = .strong then st.setPtr tag i none else st).blockOf tag i = st.blockOf tag i := by
    split
    · exact ⟨h.setPtr hi none, (ref_setPtr_isSome hi none tag i).trans hi,
        blockOf_setPtr hi none tag i⟩
    · exact ⟨h, hi, rfl⟩
  unfold RefState.release
  simp only
  generalize (if tag = .strong then st.setPtr tag i none else st) = u at hptr ⊢
  obtain ⟨hu, hui, hblock⟩ := hptr
  rw [← hblock]
  have hset (t : CounterTag) (b : β) := held_setBlock hui none t b
  simp only [reduceCtorEq, and_false, if_false, Nat.add_zero] at hset
  cases ho : u.blockOf tag i with
  | none =>
    refine hu.of_held_eq rfl fun t b => ?_
    have := hset t b
    simpa [ho] using this
  | some block =>
    refine hu.of_held_eq rfl fun t b => ?_
    rw [← hset t b, ho]
    by_cases ht : t = tag
    · subst ht
      by_cases hb : block = b
      · subst hb
        simp only [held, Function.update_self, true_and, if_true]
        exact (Nat.add_assoc _ _ _).symm
      · have hne : b ≠ block := Ne.symm hb
        simp [held, hb, Function.update_of_ne hne]
    · simp [held, ht]

lemma Ready.tryAcquire (h : st.Ready) (hi : (st.ref .strong i).isSome = true)
    (halive : st.blockOf .strong i = none → ∀ b ∈ st.ptrOf .strong i, 0 < st.held .strong b)
    (hlt : st.blockOf .strong i = none → ∀ b, st.ptrOf .strong i = some b →
      (st.cb b).strong + 1 < counterRange) : (st.tryAcquire i).Tracked := by
  unfold RefState.tryAcquire
  split
  · rename_i ptr hptr hblock
    refine h.exchange .strong none (some ptr) (fun b => ?_) (fun t b => ?_) nofun nofun
      fun b _ hb => ?_
    · rfl
    · have hset := held_setBlock hi (some ptr) t b
      rw [hblock] at hset
      exact hset
    · obtain rfl := Option.some.inj hb
      exact ⟨.inl (halive hblock ptr hptr), hlt hblock ptr hptr⟩
  · exact h.of_held_eq rfl fun _ _ => rfl

lemma Ready.weaken (h : st.Ready) (hlt : ∀ b, st.blockOf .strong j = some b →
    (st.cb b).weak + 1 < counterRange) : (st.weaken j).Tracked := by
  refine h.exchange .weak none (st.blockOf .strong j) (fun b => ?_) (fun t b => ?_) nofun
    nofun fun b _ hb => ⟨.inl (held_pos hb), hlt b hb⟩
  · rw [RefState.weaken, cb_increase, cb_increase]
    rfl
  · rw [RefState.weaken, held_increase, held_addRef]
    simp

/-- A strong reference to the block keeps its weak counter from falling to zero. -/
lemma Ready.assignWeak (h : st.Ready) (hi : (st.ref .weak i).isSome = true)
    (hlt : ∀ b, st.blockOf .strong j = some b → st.blockOf .weak i ≠ some b →
      (st.cb b).weak + 1 < counterRange) : (st.assignWeak i j).Tracked := by
  have hready := h.setPtr hi (st.ptrOf .strong j)
  have hblock := blockOf_setPtr hi (st.ptrOf .strong j)
  refine hready.assignBlock ((ref_setPtr_isSome hi _ .weak i).trans hi) (fun b hb ho => ?_)
    fun b hb ho => ?_
  · rw [hblock] at hb ho
    have hstrong := held_pos ho
    have hweak := held_pos hb
    have heq := (h.counted b).weak_eq
    rw [if_pos (show st.held .strong b ≠ 0 from hstrong.ne')] at heq
    change 2 ≤ (st.cb b).weak
    omega
  · rw [hblock] at hb ho
    rw [held_setPtr hi, held_setPtr hi]
    exact ⟨.inl (held_pos ho), hlt b ho hb⟩

lemma Ready.lock (h : st.Ready) (hlt : ∀ b, st.blockOf .weak i = some b →
    (st.cb b).strong + 1 < counterRange) : (st.lock i).Tracked := by
  unfold RefState.lock
  split
  · rename_i ptr block hptr hblock
    have hweak := held_pos hblock
    by_cases hstrong : (st.cb block).strong ≠ 0
    · have htry : (st.cb block).tryIncrease = (st.cb block).increase .strong := if_pos hstrong
      simp only [if_pos hstrong, htry]
      refine h.exchange .strong none (some block) (fun b => ?_) (fun t b => ?_) nofun nofun
        fun b _ hb => ?_
      · rfl
      · rw [held_addRef]
        simp [held, setCb]
      · obtain rfl := Option.some.inj hb
        rw [(h.counted block).strong_eq] at hstrong
        exact ⟨.inl (Nat.pos_of_ne_zero hstrong), hlt block hblock⟩
    · have htry : (st.cb block).tryIncrease = st.cb block :=
        (if_neg hstrong).trans ((h.counted block).touch_eq (.inr hweak))
      simp only [if_neg hstrong, htry]
      refine h.of_held_eq ?_ fun t b => ?_
      · exact Function.update_eq_self block st.cb
      · rw [held_addRef]
        simp [held, setCb]
  · rename_i ptr hptr hblock
    exact h.observe _
  · exact h.observe _

theorem Tracked.exec {op : RefOp β} (h : st.Tracked) (hpre : op.Pre st) (hop : st.KeepsCount op) :
    (op.exec st).Tracked := by
  have hready := h.clear
  cases op with
  | adopt tag block => exact hready.adopt hpre
  | observe tag ptr => exact hready.observe ptr
  | copy tag right => exact hready.copy hop
  | move tag right => exact hready.move hpre
  | copyAssign tag me right => exact hready.copyAssign hpre.1 hop
  | moveAssign tag me right => exact hready.moveAssign hpre.1 hpre.2
  | reset tag me => exact hready.reset hpre
  | destroy tag me => exact hready.destroy hpre
  | release tag me => exact hready.release hpre
  | disown me => exact hready.resetBlock hpre
  | tryAcquire me => exact hready.tryAcquire hpre.1 hpre.2 hop
  | weaken right => exact hready.weaken hop
  | assignWeak me right => exact hready.assignWeak hpre.1 hop
  | lock me => exact hready.lock hop

lemma tracked_initial : (initial : RefState β).Tracked := by
  refine ⟨fun b => ?_, fun b hb => absurd hb (by simp [initial, ControlBlock.initial])⟩
  have hrange : 1 < counterRange := by
    unfold counterRange
    norm_num
  exact ⟨rfl, rfl, hrange, hrange, rfl, rfl, rfl⟩

lemma Tracked.counts (h : st.Tracked) : st.Counts where
  strong_eq b := (h.counted b).strong_eq
  weak_eq b := by
    rw [(h.counted b).strong_eq]
    exact (h.counted b).weak_eq
  destructed_eq b := (h.counted b).destructed_eq
  deallocated_eq b := (h.counted b).deallocated_eq
  unique := h.unique
  untouched b := (h.counted b).untouched

end RefState

open RefState

/-- The counters count the references in every run in which no reference is assigned another one
to its block while there are too few of them, and no counter overflows. -/
theorem references_count {β : Type} [DecidableEq β] {st : RefState β}
    (h : (references β).Reachable KeepsCount st) : st.Counts := by
  have htracked : st.Tracked := by
    refine h.invariant ?_ fun _ _ _ hst hpre hop => hst.exec hpre hop
    rintro st rfl
    exact tracked_initial
  exact htracked.counts

instance {β : Type} [DecidableEq β] [Fintype β] (st : RefState β) :
    (op : RefOp β) → Decidable (op.Pre st)
  | .observe _ _ => .isTrue trivial
  | .tryAcquire _ => inferInstanceAs (Decidable (_ ∧ (_ → ∀ ptr, _ → _)))
  | .adopt _ _ | .copy _ _ | .move _ _ | .copyAssign _ _ _ | .moveAssign _ _ _ | .reset _ _
  | .destroy _ _ | .release _ _ | .disown _ | .weaken _ | .assignWeak _ _ | .lock _ => by
    unfold RefOp.Pre
    infer_instance

instance {β : Type} [DecidableEq β] [Fintype β] (st : RefState β) (op : RefOp β) :
    Decidable ((references β).pre st op) :=
  inferInstanceAs (Decidable (op.Pre st))

instance {β : Type} [DecidableEq β] [Fintype β] (st : RefState β) :
    (op : RefOp β) → Decidable (st.KeepsCount op)
  | .copyAssign _ _ _ => inferInstanceAs (Decidable (∀ b, _ → ite _ _ _))
  | .copy _ _ | .tryAcquire _ | .weaken _ | .assignWeak _ _ | .lock _ => by
    unfold KeepsCount
    infer_instance
  | .adopt _ _ | .observe _ _ | .move _ _ | .moveAssign _ _ _ | .reset _ _ | .destroy _ _
  | .release _ _ | .disown _ => .isTrue trivial

/-- Two objects change hands, one of them is locked and both are dropped. -/
def lockRun : List (RefOp Bool) :=
  [.adopt .strong true, .adopt .strong false, .copy .strong 0, .weaken 0, .copyAssign .strong 1 2,
    .lock 0, .moveAssign .strong 0 0, .tryAcquire 0, .release .strong 2, .adopt .strong true,
    .reset .strong 0, .reset .strong 1, .destroy .strong 3, .destroy .strong 4, .lock 0,
    .destroy .weak 0]

/-- A reference is assigned to itself. -/
def selfAssignRun : List (RefOp Unit) := [.adopt .strong (), .copyAssign .strong 0 0]

theorem references_count_lockRun :
    ((lockRun.foldl RefOp.exec .initial).cb true).deallocated = 1 ∧
      (lockRun.foldl RefOp.exec .initial).Counts := by
  have h : (references Bool).Reachable KeepsCount (lockRun.foldl RefOp.exec .initial) :=
    Machine.Reachable.run (.init rfl) (by decide +kernel)
  exact ⟨by decide +kernel, references_count h⟩

/-- The object is destructed and its block deallocated while the reference is there. -/
theorem selfAssignRun_not_counts :
    (references Unit).Reachable (fun _ _ => True)
        (selfAssignRun.foldl RefOp.exec .initial) ∧
      ¬ (selfAssignRun.foldl RefOp.exec .initial).Counts := by
  refine ⟨Machine.Reachable.run (.init rfl) (by decide +kernel), fun h => ?_⟩
  have htouched := h.untouched ()
  revert htouched
  decide +kernel

end Idle
