import Idle.Library.Chain
import Idle.Library.Machine
import Mathlib.Tactic

/-!
# Intrusive lists

The nodes of an `intrusive_list` are objects with a link to the next and to the previous one; the
list has its first and its last node and a counter. `connect` and `disconnect` edit the links of
nodes that have no list, so that these form chains as well. Every operation is an insertion of a
node into a chain or the removal of a node from one, and refines the same operation on sequences.
-/

namespace Idle

open Chain

/-- `intrusive_list` -/
structure IntrusiveList (N : Type*) where
  first : Option N
  last : Option N
  size : BitVec 64

/-- The list of a sequence of nodes. -/
def IntrusiveList.ofSeq {N : Type*} (seq : List N) : IntrusiveList N :=
  ⟨seq.head?, seq.getLast?, BitVec.ofNat 64 seq.length⟩

/-- The links of all nodes, and all lists. -/
structure Lists (ι N : Type*) where
  next : N → Option N
  previous : N → Option N
  list : ι → IntrusiveList N

namespace Lists

variable {ι N : Type*} [DecidableEq ι] [DecidableEq N]

def initial : Lists ι N where
  next _ := none
  previous _ := none
  list _ := ⟨none, none, 0⟩

def setNext (st : Lists ι N) (x : N) (next : Option N) : Lists ι N :=
  { st with next := Function.update st.next x next }

def setPrevious (st : Lists ι N) (x : N) (previous : Option N) : Lists ι N :=
  { st with previous := Function.update st.previous x previous }

def setList (st : Lists ι N) (l : ι) (list : IntrusiveList N) : Lists ι N :=
  { st with list := Function.update st.list l list }

def isInsertedInAnyUnsafe (st : Lists ι N) (value : N) : Bool :=
  (st.next value).isSome || (st.previous value).isSome

def isFirst (st : Lists ι N) (l : ι) (value : N) : Bool := (st.list l).first = some value

def isLast (st : Lists ι N) (l : ι) (value : N) : Bool := (st.list l).last = some value

def containsUnsafe (st : Lists ι N) (l : ι) (value : N) : Bool :=
  st.isInsertedInAnyUnsafe value || st.isFirst l value

def nodeInsertBetween (st : Lists ι N) (node : N) (left right : Option N) : Lists ι N :=
  let st := match left with
    | some left => (st.setPrevious node (some left)).setNext left (some node)
    | none => st
  match right with
  | some right => (st.setNext node (some right)).setPrevious right (some node)
  | none => st

def insertBetween (st : Lists ι N) (l : ι) (value : N) (left right : Option N) : Lists ι N :=
  let list := st.list l
  let first := if list.first = none ∨ right.any (st.isFirst l) then some value else list.first
  let last := if list.first = none ∨ left.any (st.isLast l) then some value else list.last
  (st.setList l ⟨first, last, list.size + 1⟩).nodeInsertBetween value left right

def pushFront (st : Lists ι N) (l : ι) (value : N) : Lists ι N :=
  st.insertBetween l value none (st.list l).first

def pushBack (st : Lists ι N) (l : ι) (value : N) : Lists ι N :=
  st.insertBetween l value (st.list l).last none

/-- `insert`, before an iterator; the end is `none`. -/
def insert (st : Lists ι N) (l : ι) (pos : Option N) (value : N) : Lists ι N :=
  match pos with
  | none => st.pushBack l value
  | some pos => st.insertBetween l value (st.previous pos) (some pos)

def disconnect (st : Lists ι N) (element : N) : Lists ι N :=
  let next := st.next element
  let previous := st.previous element
  let st := match previous with
    | some previous => st.setNext previous next
    | none => st
  let st := match next with
    | some next => st.setPrevious next previous
    | none => st
  (st.setPrevious element none).setNext element none

/-- What `erase` returns, and the lists after that. -/
def erase (st : Lists ι N) (l : ι) (value : N) : Bool × Lists ι N :=
  let list := st.list l
  if st.isInsertedInAnyUnsafe value then
    let first := if st.isFirst l value then st.next value else list.first
    let last := if st.isLast l value then st.previous value else list.last
    (true, (st.setList l ⟨first, last, list.size - 1⟩).disconnect value)
  else if st.isFirst l value then (true, st.setList l ⟨none, none, list.size - 1⟩)
  else (false, st)

/-- `erase`, for a range of iterators, with a bound of its loop. -/
def eraseRange (l : ι) (last : Option N) : Nat → Option N → Lists ι N → Option (Lists ι N)
  | 0, pos, st => if pos = last then some st else none
  | n + 1, pos, st =>
    if pos = last then some st
    else
      match pos with
      | none => none
      | some current => eraseRange l last n (st.next current) (st.erase l current).2

/-- `connect`, of two nodes -/
def connect (st : Lists ι N) (left right : N) : Lists ι N :=
  st.nodeInsertBetween right (some left) none

/-- `connect`, of a node between two others -/
def connectBetween (st : Lists ι N) (between left right : N) : Lists ι N :=
  st.nodeInsertBetween between (some left) (some right)

end Lists

inductive ListOp (ι N : Type*) where
  | pushFront (l : ι) (value : N)
  | pushBack (l : ι) (value : N)
  | insert (l : ι) (pos : Option N) (value : N)
  | erase (l : ι) (value : N)
  | eraseRange (l : ι) (pos last : Option N)
  | clear (l : ι)
  | connect (left right : N)
  | connectBetween (between left right : N)
  | disconnect (element : N)

namespace ListOp

variable {ι N : Type*} [DecidableEq ι] [DecidableEq N]

/-- A loop over a range has as many rounds as the list has nodes, at most. -/
def exec (st : Lists ι N) : ListOp ι N → Lists ι N
  | pushFront l value => st.pushFront l value
  | pushBack l value => st.pushBack l value
  | insert l pos value => st.insert l pos value
  | erase l value => (st.erase l value).2
  | eraseRange l pos last => (Lists.eraseRange l last (st.list l).size.toNat pos st).getD st
  | clear l =>
    (Lists.eraseRange l none (st.list l).size.toNat (st.list l).first st).getD st
  | connect left right => st.connect left right
  | connectBetween between left right => st.connectBetween between left right
  | disconnect element => st.disconnect element

end ListOp

/-! ### Sequences -/

/-- The chains that nodes are in, with the sequences of the lists. A node that is in no list and not
connected is a chain of its own. -/
structure Sequences (ι N : Type*) where
  chains : Set (List N)
  seq : ι → List N

namespace Sequences

variable {ι N : Type*} [DecidableEq ι] [DecidableEq N]

def initial : Sequences ι N where
  chains := {c | ∃ v, c = [v]}
  seq _ := []

/-- A node is in no list, and not connected. -/
def Free (A : Sequences ι N) (v : N) : Prop := [v] ∈ A.chains ∧ ∀ l, v ∉ A.seq l

/-- A chain has no list. -/
def Loose (A : Sequences ι N) (c : List N) : Prop := c ∈ A.chains ∧ ∀ l, A.seq l ≠ c

/-- The chain of a node. -/
noncomputable def chainOf (A : Sequences ι N) (v : N) : List N :=
  open scoped Classical in
  if h : ∃ c ∈ A.chains, v ∈ c then h.choose else []

def put (A : Sequences ι N) (l : ι) (xs : List N) (v : N) (ys : List N) : Sequences ι N where
  chains := insertChain A.chains xs v ys
  seq := Function.update A.seq l (xs ++ v :: ys)

def take (A : Sequences ι N) (l : ι) (xs : List N) (v : N) (ys : List N) : Sequences ι N where
  chains := removeChain A.chains xs v ys
  seq := Function.update A.seq l (xs ++ ys)

/-- What is before an iterator. The end is `none`. -/
def before (c : List N) (pos : Option N) : List N := c.takeWhile (some · ≠ pos)

/-- What is from an iterator on. -/
def onward (c : List N) (pos : Option N) : List N := c.dropWhile (some · ≠ pos)

def erase (A : Sequences ι N) (l : ι) (v : N) : Sequences ι N :=
  if v ∈ A.seq l then
    A.take l (before (A.seq l) (some v)) v (onward (A.seq l) (some v)).tail
  else A

/-- What an operation does to sequences. -/
noncomputable def exec (A : Sequences ι N) : ListOp ι N → Sequences ι N
  | .pushFront l v => A.put l [] v (A.seq l)
  | .pushBack l v => A.put l (A.seq l) v []
  | .insert l pos v => A.put l (before (A.seq l) pos) v (onward (A.seq l) pos)
  | .erase l v => A.erase l v
  | .eraseRange l pos last => (before (onward (A.seq l) pos) last).foldl (·.erase l ·) A
  | .clear l => (A.seq l).foldl (·.erase l ·) A
  | .connect left right => { A with chains := insertChain A.chains (A.chainOf left) right [] }
  | .connectBetween between _ right =>
    { A with
      chains := insertChain A.chains (before (A.chainOf right) (some right)) between
        (onward (A.chainOf right) (some right)) }
  | .disconnect element =>
    { A with
      chains := removeChain A.chains (before (A.chainOf element) (some element)) element
        (onward (A.chainOf element) (some element)).tail }

/-- Only a node that is in no list is inserted, and only a node of the list or of none is erased.
The nodes that are connected and disconnected have no list; those that a node is connected to are
the end of a chain, or neighbours. -/
def Pre (A : Sequences ι N) : ListOp ι N → Prop
  | .pushFront _ v | .pushBack _ v => A.Free v
  | .insert l pos v => A.Free v ∧ ∀ p ∈ pos, p ∈ A.seq l
  | .erase l v => v ∈ A.seq l ∨ A.Free v
  | .eraseRange l pos last => ∃ xs mid ys, A.seq l = xs ++ (mid ++ ys) ∧
      pos = (mid ++ ys).head? ∧ last = ys.head?
  | .clear _ => True
  | .connect left right => A.Free right ∧ left ≠ right ∧ ∃ xs, A.Loose (xs ++ [left])
  | .connectBetween between left right =>
    A.Free between ∧ ∃ xs ys, A.Loose (xs ++ left :: right :: ys)
  | .disconnect element => ∃ c, A.Loose c ∧ element ∈ c

variable {A : Sequences ι N} {l : ι} {v : N} {xs ys : List N}

omit [DecidableEq N] in
lemma Free.put {w : N} (h : A.Free w) (hw : w ∉ xs ++ v :: ys) : (A.put l xs v ys).Free w := by
  refine ⟨.inr ⟨h.1, fun heq => hw ?_, fun heq => hw ?_⟩, fun l' hmem => ?_⟩
  · have hmem : w ∈ xs ++ ys := heq ▸ List.mem_singleton_self w
    exact mem_middle.2 (.inr hmem)
  · rw [List.singleton_inj.1 heq]
    exact List.mem_append_right xs List.mem_cons_self
  · by_cases heq : l' = l
    · subst heq
      have hself : (A.put l' xs v ys).seq l' = xs ++ v :: ys := Function.update_self ..
      exact hw (hself ▸ hmem)
    · have hother : (A.put l xs v ys).seq l' = A.seq l' := Function.update_of_ne heq ..
      exact h.2 l' (hother ▸ hmem)

omit [DecidableEq ι] [DecidableEq N] in
/-- A free node is a chain that has no list. -/
lemma Free.loose (h : A.Free v) : A.Loose [v] :=
  ⟨h.1, fun l heq => h.2 l (heq ▸ List.mem_singleton_self v)⟩

/-- A sequence without repetition is split at an iterator. -/
lemma before_onward (h : (xs ++ ys).Nodup) :
    before (xs ++ ys) ys.head? = xs ∧ onward (xs ++ ys) ys.head? = ys := by
  have hne : ∀ x ∈ xs, decide (some x ≠ ys.head?) = true := fun x hx => by
    refine decide_eq_true fun heq => ?_
    exact (List.nodup_append.1 h).2.2 x hx x (List.mem_of_head? heq.symm) rfl
  rw [before, onward, List.takeWhile_append_of_pos hne, List.dropWhile_append_of_pos hne]
  cases ys with
  | nil => simp
  | cons y ys => simp

lemma erase_eq (h : A.seq l = xs ++ v :: ys) (hnodup : (A.seq l).Nodup) :
    A.erase l v = A.take l xs v ys := by
  obtain ⟨hbefore, honward⟩ := before_onward (h ▸ hnodup)
  rw [List.head?_cons, ← h] at hbefore honward
  rw [erase, if_pos (by simp [h]), hbefore, honward, List.tail_cons]

end Sequences

/-! ### The links of the chains -/

namespace Lists

variable {ι N : Type*} [DecidableEq N] {st : Lists ι N} {v : N} {xs ys : List N}

/-- What the first node is with another one in the list. -/
lemma head?_put (h : (xs ++ ys).Nodup) :
    (if (xs ++ ys).head? = none ∨ ys.head?.any (fun b => (xs ++ ys).head? = some b) then some v
      else (xs ++ ys).head?) = (xs ++ v :: ys).head? := by
  cases xs with
  | nil => cases ys <;> simp
  | cons a xs =>
    cases ys with
    | nil => simp
    | cons b ys =>
      have hne : a ≠ b := fun heq => (List.nodup_cons.1 h).1 (by simp [heq])
      simp [hne]

/-- What the last node is with another one in the list. -/
lemma getLast?_put (h : (xs ++ ys).Nodup) :
    (if (xs ++ ys).head? = none ∨ xs.getLast?.any (fun a => (xs ++ ys).getLast? = some a)
      then some v else (xs ++ ys).getLast?) = (xs ++ v :: ys).getLast? := by
  have hnil : (xs ++ ys).head? = none ↔ (xs ++ ys).getLast? = none := by
    rw [List.head?_eq_none_iff, List.getLast?_eq_none_iff]
  have hnodup : (ys.reverse ++ xs.reverse).Nodup := by
    rw [← List.reverse_append]
    exact List.nodup_reverse.2 h
  have hput := head?_put (v := v) hnodup
  simpa only [hnil, ← reverse_middle, ← List.reverse_append, List.head?_reverse] using hput

/-- What the first node is without a node of the list. -/
lemma head?_take (h : v ∉ xs) :
    (if (xs ++ v :: ys).head? = some v then ys.head? else (xs ++ v :: ys).head?) =
      (xs ++ ys).head? := by
  cases xs with
  | nil => simp
  | cons a xs =>
    have hne : a ≠ v := fun heq => h (by simp [heq])
    simp [hne]

/-- What the last node is without a node of the list. -/
lemma getLast?_take (h : v ∉ ys) :
    (if (xs ++ v :: ys).getLast? = some v then xs.getLast? else (xs ++ v :: ys).getLast?) =
      (xs ++ ys).getLast? := by
  have hnot : v ∉ ys.reverse := mt List.mem_reverse.1 h
  have htake := (head?_take hnot : _ = (ys.reverse ++ xs.reverse).head?)
  rwa [← reverse_middle, ← List.reverse_append, List.head?_reverse, List.head?_reverse,
    List.head?_reverse] at htake

@[simp]
lemma nodeInsertBetween_list (left right : Option N) :
    (st.nodeInsertBetween v left right).list = st.list := by
  cases left <;> cases right <;> rfl

@[simp]
lemma disconnect_list : (st.disconnect v).list = st.list := by
  unfold disconnect
  cases st.previous v <;> cases st.next v <;> rfl

omit [DecidableEq N] in
/-- The counter with one node more. -/
lemma ofNat_length_middle :
    BitVec.ofNat 64 (xs ++ v :: ys).length = BitVec.ofNat 64 (xs ++ ys).length + 1 := by
  have hlength : (xs ++ v :: ys).length = (xs ++ ys).length + 1 := by
    simp [Nat.add_assoc]
  rw [hlength, BitVec.ofNat_add]
  rfl

/-- A node without links is put between two others, or at an end. -/
lemma nodeInsertBetween_inserted (st : Lists ι N) (hnext : st.next v = none)
    (hprevious : st.previous v = none) (hv : v ∉ xs ++ ys) :
    Inserted st.next st.previous (st.nodeInsertBetween v xs.getLast? ys.head?).next
      (st.nodeInsertBetween v xs.getLast? ys.head?).previous xs v ys := by
  have hleft : ∀ a, xs.getLast? = some a → a ≠ v := fun a ha heq =>
    hv (List.mem_append_left ys (heq ▸ List.mem_of_getLast? ha))
  have hright : ∀ b, ys.head? = some b → b ≠ v := fun b hb heq =>
    hv (List.mem_append_right xs (heq ▸ List.mem_of_head? hb))
  constructor
  · intro x
    cases hx : xs.getLast? <;> cases hy : ys.head? <;>
      simp only [nodeInsertBetween, setNext, setPrevious, Function.update_apply] <;> grind
  · intro x
    cases hx : xs.getLast? <;> cases hy : ys.head? <;>
      simp only [nodeInsertBetween, setNext, setPrevious, Function.update_apply] <;> grind

/-- A node is taken from between its neighbours. -/
lemma disconnect_removed (st : Lists ι N) (hnext : st.next v = ys.head?)
    (hprevious : st.previous v = xs.getLast?) (hv : v ∉ xs ++ ys) :
    Removed st.next st.previous (st.disconnect v).next (st.disconnect v).previous xs v ys := by
  have hleft : ∀ a, xs.getLast? = some a → a ≠ v := fun a ha heq =>
    hv (List.mem_append_left ys (heq ▸ List.mem_of_getLast? ha))
  have hright : ∀ b, ys.head? = some b → b ≠ v := fun b hb heq =>
    hv (List.mem_append_right xs (heq ▸ List.mem_of_head? hb))
  rw [disconnect, hnext, hprevious]
  constructor
  · intro x
    cases hx : xs.getLast? <;> cases hy : ys.head? <;>
      simp only [setNext, setPrevious, Function.update_apply] <;> grind
  · intro x
    cases hx : xs.getLast? <;> cases hy : ys.head? <;>
      simp only [setNext, setPrevious, Function.update_apply] <;> grind

/-- The sequences of the lists are linked, with the first and the last node of each. -/
structure Represents (st : Lists ι N) (A : Sequences ι N) : Prop where
  chained : Chained st.next st.previous A.chains
  seq_mem : ∀ l, A.seq l = [] ∨ A.seq l ∈ A.chains
  disjoint : ∀ l l' v, v ∈ A.seq l → v ∈ A.seq l' → l = l'
  list_eq : ∀ l, st.list l = .ofSeq (A.seq l)

namespace Represents

variable {A : Sequences ι N} {l : ι}

lemma seq_chain (h : Represents st A) (hv : v ∈ A.seq l) : A.seq l ∈ A.chains :=
  (h.seq_mem l).resolve_left (List.ne_nil_of_mem hv)

lemma seq_nodup (h : Represents st A) (l : ι) : (A.seq l).Nodup := by
  rcases h.seq_mem l with heq | hmem
  · exact heq ▸ List.nodup_nil
  · exact h.chained.nodup _ hmem

lemma first_eq (h : Represents st A) : (st.list l).first = (A.seq l).head? :=
  congrArg IntrusiveList.first (h.list_eq l)

lemma last_eq (h : Represents st A) : (st.list l).last = (A.seq l).getLast? :=
  congrArg IntrusiveList.last (h.list_eq l)

/-- The counter is the length of the sequence. -/
lemma size_toNat (h : Represents st A) (hl : (A.seq l).length < 2 ^ 64) :
    (st.list l).size.toNat = (A.seq l).length := by
  rw [h.list_eq, IntrusiveList.ofSeq, BitVec.toNat_ofNat, Nat.mod_eq_of_lt hl]

/-- The nodes next to a node of a list. -/
lemma links (h : Represents st A) {c : List N} (hc : c ∈ A.chains) (heq : c = xs ++ v :: ys) :
    st.next v = ys.head? ∧ st.previous v = xs.getLast? := by
  subst heq
  have hlinked := h.chained.linked _ hc
  have hnot := notMem_of_nodup_middle (h.chained.nodup _ hc)
  have hmem : v ∈ xs ++ v :: ys := List.mem_append_right xs List.mem_cons_self
  refine ⟨?_, ?_⟩
  · rw [hlinked.next_eq v hmem, after_append_cons fun hxs => hnot (List.mem_append_left ys hxs)]
  · have hys : v ∉ ys.reverse := fun hys =>
      hnot (List.mem_append_right xs (List.mem_reverse.1 hys))
    rw [hlinked.previous_eq v hmem, reverse_middle, after_append_cons hys, List.head?_reverse]

lemma free_links (h : Represents st A) (hv : A.Free v) :
    st.next v = none ∧ st.previous v = none :=
  h.links hv.1 (List.nil_append [v]).symm

/-- The chain of a node has no other nodes than it when it is free. -/
lemma notMem_of_free (h : Represents st A) (hv : A.Free v) {c : List N} (hc : c ∈ A.chains)
    (hne : c ≠ [v]) : v ∉ c := fun hmem =>
  hne (h.chained.eq_of_mem c hc _ hv.1 v hmem (List.mem_singleton_self v))

/-- Two lists have different chains. -/
lemma seq_ne (h : Represents st A) {l' : ι} (hne : l' ≠ l) (hchain : A.seq l' ∈ A.chains) :
    A.seq l' ≠ A.seq l := by
  intro heq
  obtain ⟨x, hx⟩ := List.exists_mem_of_ne_nil _ fun hnil => h.chained.nil_notMem (hnil ▸ hchain)
  exact hne (h.disjoint l' l x hx (heq ▸ hx))

/-- An iterator of a list splits its sequence. -/
lemma exists_split (h : Represents st A) {pos : Option N} (hpos : ∀ p ∈ pos, p ∈ A.seq l) :
    ∃ xs ys, A.seq l = xs ++ ys ∧ pos = ys.head? ∧
      Sequences.before (A.seq l) pos = xs ∧ Sequences.onward (A.seq l) pos = ys := by
  obtain ⟨xs, ys, hl, rfl⟩ : ∃ xs ys, A.seq l = xs ++ ys ∧ pos = ys.head? := by
    cases pos with
    | none => exact ⟨A.seq l, [], (List.append_nil _).symm, rfl⟩
    | some p =>
      obtain ⟨xs, ys, hl⟩ := List.append_of_mem (hpos p rfl)
      exact ⟨xs, p :: ys, hl, rfl⟩
  have hnodup := h.seq_nodup l
  rw [hl] at hnodup ⊢
  exact ⟨xs, ys, rfl, rfl, Sequences.before_onward hnodup⟩

/-! ### Nodes that have no list -/

variable {c : List N}

lemma chainOf_eq (h : Represents st A) (hc : c ∈ A.chains) (hv : v ∈ c) : A.chainOf v = c := by
  have hex : ∃ c ∈ A.chains, v ∈ c := ⟨c, hc, hv⟩
  rw [Sequences.chainOf, dif_pos hex]
  exact h.chained.eq_of_mem _ hex.choose_spec.1 c hc v hex.choose_spec.2 hv

/-- A free node is connected to a chain. -/
lemma connect (h : Represents st A) (hv : A.Free v) (hc : A.Loose (xs ++ ys))
    (hnot : v ∉ xs ++ ys) :
    Represents (st.nodeInsertBetween v xs.getLast? ys.head?)
      { A with chains := insertChain A.chains xs v ys } := by
  obtain ⟨hnext, hprevious⟩ := h.free_links hv
  refine ⟨?_, fun l => ?_, h.disjoint, ?_⟩
  · have hinserted := nodeInsertBetween_inserted st hnext hprevious hnot
    exact h.chained.insert hinserted (.inr hc.1) hv.1 hnot
  · refine (h.seq_mem l).imp_right fun hl => .inr ⟨hl, hc.2 l, fun heq => ?_⟩
    exact hv.2 l (heq ▸ List.mem_singleton_self v)
  · rw [nodeInsertBetween_list]
    exact h.list_eq

/-- A node is disconnected. -/
lemma disconnect (h : Represents st A) (hc : A.Loose (xs ++ v :: ys)) :
    Represents (st.disconnect v) { A with chains := removeChain A.chains xs v ys } := by
  obtain ⟨hnext, hprevious⟩ := h.links hc.1 rfl
  have hnot := notMem_of_nodup_middle (h.chained.nodup _ hc.1)
  refine ⟨?_, fun l => ?_, h.disjoint, ?_⟩
  · exact h.chained.remove (disconnect_removed st hnext hprevious hnot) hc.1
  · exact (h.seq_mem l).imp_right fun hl => .inr (.inr ⟨hl, hc.2 l⟩)
  · rw [disconnect_list]
    exact h.list_eq

/-! ### Nodes of a list -/

variable [DecidableEq ι]

/-- One list gets another sequence, of nodes that no other list has. -/
lemma update (h : Represents st A) {st' : Lists ι N} {chains : Set (List N)} {seq : List N}
    (hchained : Chained st'.next st'.previous chains) (hseq : seq = [] ∨ seq ∈ chains)
    (hkept : ∀ l', l' ≠ l → A.seq l' ∈ A.chains → A.seq l' ∈ chains)
    (hmem : ∀ x ∈ seq, x ∈ A.seq l ∨ ∀ l', x ∉ A.seq l')
    (hlist : st'.list = Function.update st.list l (.ofSeq seq)) :
    Represents st' ⟨chains, Function.update A.seq l seq⟩ := by
  generalize hA : (⟨chains, Function.update A.seq l seq⟩ : Sequences ι N) = A'
  have hchains : A'.chains = chains := hA ▸ rfl
  have hself : A'.seq l = seq := by
    subst hA
    exact Function.update_self ..
  have hother : ∀ l', l' ≠ l → A'.seq l' = A.seq l' := fun l' hne => by
    subst hA
    exact Function.update_of_ne hne ..
  have hnot : ∀ l', l' ≠ l → ∀ x ∈ seq, x ∉ A.seq l' := fun l' hne x hx hx' =>
    (hmem x hx).elim (fun hl => hne (h.disjoint l' l x hx' hl)) fun hnone => hnone l' hx'
  refine ⟨hchains ▸ hchained, fun l' => ?_, fun l₁ l₂ x hx₁ hx₂ => ?_, fun l' => ?_⟩
  · rw [hchains]
    by_cases heq : l' = l
    · rwa [heq, hself]
    · rw [hother l' heq]
      exact (h.seq_mem l').imp_right (hkept l' heq)
  · by_cases heq₁ : l₁ = l <;> by_cases heq₂ : l₂ = l
    · rw [heq₁, heq₂]
    · rw [heq₁, hself] at hx₁
      rw [hother l₂ heq₂] at hx₂
      exact absurd hx₂ (hnot l₂ heq₂ x hx₁)
    · rw [heq₂, hself] at hx₂
      rw [hother l₁ heq₁] at hx₁
      exact absurd hx₁ (hnot l₁ heq₁ x hx₂)
    · rw [hother l₁ heq₁] at hx₁
      rw [hother l₂ heq₂] at hx₂
      exact h.disjoint l₁ l₂ x hx₁ hx₂
  · rw [hlist]
    by_cases heq : l' = l
    · rw [heq, Function.update_self, hself]
    · rw [Function.update_of_ne heq, hother l' heq, h.list_eq]

/-- A free node is put into a list. -/
theorem put (h : Represents st A) (hv : A.Free v) (hl : A.seq l = xs ++ ys) :
    Represents (st.insertBetween l v xs.getLast? ys.head?) (A.put l xs v ys) := by
  have hnot : v ∉ xs ++ ys := hl ▸ hv.2 l
  have hnodup : (xs ++ ys).Nodup := hl ▸ h.seq_nodup l
  have hchain : xs ++ ys = [] ∨ xs ++ ys ∈ A.chains := hl ▸ h.seq_mem l
  obtain ⟨hnext, hprevious⟩ := h.free_links hv
  have hfirst : st.isFirst l = fun b => decide ((xs ++ ys).head? = some b) := by
    funext b
    rw [isFirst, h.list_eq, hl, IntrusiveList.ofSeq]
  have hlast : st.isLast l = fun b => decide ((xs ++ ys).getLast? = some b) := by
    funext b
    rw [isLast, h.list_eq, hl, IntrusiveList.ofSeq]
  refine h.update ?_ (.inr (.inl rfl)) (fun l' hne hc => .inr ⟨hc, ?_, fun heq => ?_⟩)
    (fun x hx => ?_) ?_
  · refine h.chained.insert ?_ hchain hv.1 hnot
    exact nodeInsertBetween_inserted (st.setList l _) hnext hprevious hnot
  · exact hl ▸ h.seq_ne hne hc
  · exact hv.2 l' (heq ▸ List.mem_singleton_self v)
  · rcases mem_middle.1 hx with rfl | hx
    · exact .inr hv.2
    · exact .inl (hl ▸ hx)
  · rw [insertBetween, nodeInsertBetween_list, setList]
    refine congrArg (Function.update st.list l) ?_
    simp only [hfirst, hlast, h.list_eq, hl, IntrusiveList.ofSeq]
    rw [head?_put hnodup, getLast?_put hnodup, ofNat_length_middle]

/-- A node is taken from a list. -/
theorem take (h : Represents st A) (hl : A.seq l = xs ++ v :: ys) :
    (st.erase l v).1 = true ∧ Represents (st.erase l v).2 (A.take l xs v ys) := by
  have hchain : xs ++ v :: ys ∈ A.chains := hl ▸ h.seq_chain (v := v) (by simp [hl])
  have hnodup : (xs ++ v :: ys).Nodup := hl ▸ h.seq_nodup l
  have hnot := notMem_of_nodup_middle hnodup
  obtain ⟨hnext, hprevious⟩ := h.links hchain rfl
  have hlist : ∀ st', st'.list = Function.update st.list l (.ofSeq (xs ++ ys)) →
      Removed st.next st.previous st'.next st'.previous xs v ys →
      Represents st' (A.take l xs v ys) := by
    intro st' hlist hremoved
    refine h.update (h.chained.remove hremoved hchain) ?_ (fun l' hne hc => .inr (.inr ⟨hc, ?_⟩))
      (fun x hx => .inl ?_) hlist
    · by_cases hnil : xs ++ ys = []
      · exact .inl hnil
      · exact .inr (.inr (.inl ⟨rfl, hnil⟩))
    · exact hl ▸ h.seq_ne hne hc
    · exact hl ▸ mem_middle.2 (.inr hx)
  have hsize : BitVec.ofNat 64 (xs ++ v :: ys).length - 1 = BitVec.ofNat 64 (xs ++ ys).length := by
    rw [ofNat_length_middle, BitVec.add_sub_cancel]
  have hfirst : st.isFirst l v = decide ((xs ++ v :: ys).head? = some v) := by
    rw [isFirst, h.list_eq, hl, IntrusiveList.ofSeq]
  have hlast : st.isLast l v = decide ((xs ++ v :: ys).getLast? = some v) := by
    rw [isLast, h.list_eq, hl, IntrusiveList.ofSeq]
  rw [erase]
  split
  · refine ⟨rfl, hlist _ ?_ (disconnect_removed (st.setList l _) hnext hprevious hnot)⟩
    rw [disconnect_list, setList]
    refine congrArg (Function.update st.list l) ?_
    simp only [hfirst, hlast, decide_eq_true_eq, hnext, hprevious, h.list_eq, hl,
      IntrusiveList.ofSeq, hsize]
    rw [head?_take fun hxs => hnot (List.mem_append_left ys hxs),
      getLast?_take fun hys => hnot (List.mem_append_right xs hys)]
  · -- it is the only node of the list
    rename_i halone
    simp only [isInsertedInAnyUnsafe, hnext, hprevious, Bool.or_eq_true, not_or,
      Option.not_isSome_iff_eq_none, List.head?_eq_none_iff, List.getLast?_eq_none_iff] at halone
    obtain ⟨rfl, rfl⟩ := halone
    rw [if_pos (by simp [hfirst])]
    refine ⟨rfl, hlist _ ?_ (.alone hnext hprevious)⟩
    rw [setList, h.list_eq, hl, IntrusiveList.ofSeq, hsize]
    rfl

/-- A free node is not taken from a list. -/
lemma erase_free (h : Represents st A) (hv : A.Free v) : st.erase l v = (false, st) := by
  obtain ⟨hnext, hprevious⟩ := h.free_links hv
  have hfirst : ¬st.isFirst l v = true := by
    rw [isFirst, h.list_eq, IntrusiveList.ofSeq, decide_eq_true_eq]
    exact fun heq => hv.2 l (List.mem_of_head? heq)
  rw [erase, if_neg (by simp [isInsertedInAnyUnsafe, hnext, hprevious]), if_neg hfirst]

/-- A loop over a part of a list takes its nodes, one after the other. -/
theorem eraseRange (h : Represents st A) {mid : List N} (hl : A.seq l = xs ++ (mid ++ ys)) {n : Nat}
    (hn : mid.length ≤ n) :
    ∃ st', Lists.eraseRange l ys.head? n (mid ++ ys).head? st = some st' ∧
      Represents st' (mid.foldl (·.erase l ·) A) := by
  induction mid generalizing st A n with
  | nil => exact ⟨st, by cases n <;> simp [Lists.eraseRange], h⟩
  | cons v mid ih =>
    cases n with
    | zero => simp at hn
    | succ n =>
      have hv : v ∈ A.seq l := by simp [hl]
      have hnodup := h.seq_nodup l
      have hne : ¬some v = ys.head? := by
        intro heq
        have hmem : v ∈ mid ++ ys := List.mem_append_right mid (List.mem_of_head? heq.symm)
        rw [hl, List.cons_append] at hnodup
        exact (List.nodup_cons.1 (List.nodup_append.1 hnodup).2.1).1 hmem
      obtain ⟨hnext, -⟩ := h.links (h.seq_chain hv) hl
      obtain ⟨-, htake⟩ := h.take hl
      rw [List.foldl_cons, Sequences.erase_eq hl hnodup, List.cons_append, List.head?_cons,
        Lists.eraseRange, if_neg hne]
      simp only [hnext]
      refine ih htake ?_ (Nat.le_of_succ_le_succ hn)
      exact Function.update_self ..

/-- A node is put before an iterator. -/
lemma insert (h : Represents st A) (hv : A.Free v) {pos : Option N}
    (hpos : ∀ p ∈ pos, p ∈ A.seq l) :
    Represents (st.insert l pos v)
      (A.put l (Sequences.before (A.seq l) pos) v (Sequences.onward (A.seq l) pos)) := by
  obtain ⟨xs, ys, hl, hhead, hbefore, honward⟩ := h.exists_split hpos
  have hput := h.put hv hl
  rw [hbefore, honward]
  cases ys with
  | nil =>
    subst hhead
    rw [List.append_nil] at hl
    rwa [← hl, ← h.last_eq, hl] at hput
  | cons p ys =>
    subst hhead
    obtain ⟨-, hprevious⟩ := h.links (h.seq_chain (v := p) (by simp [hl])) hl
    rwa [← hprevious] at hput

/-- An operation does to the lists what it does to their sequences. -/
theorem exec (h : Represents st A) (hlength : ∀ l, (A.seq l).length < 2 ^ 64) {op : ListOp ι N}
    (hpre : A.Pre op) : Represents (op.exec st) (A.exec op) := by
  cases op with
  | pushFront l v =>
    have hput := h.put hpre (List.nil_append (A.seq l)).symm
    rwa [← h.first_eq] at hput
  | pushBack l v =>
    have hput := h.put hpre (List.append_nil (A.seq l)).symm
    rwa [← h.last_eq] at hput
  | insert l pos v => exact h.insert hpre.1 hpre.2
  | erase l v =>
    by_cases hv : v ∈ A.seq l
    · obtain ⟨xs, ys, hl⟩ := List.append_of_mem hv
      have htake := (h.take hl).2
      rwa [← Sequences.erase_eq hl (h.seq_nodup l)] at htake
    · have hfree : A.Free v := hpre.resolve_left hv
      rw [ListOp.exec, h.erase_free hfree, Sequences.exec, Sequences.erase, if_neg hv]
      exact h
  | eraseRange l pos last =>
    obtain ⟨xs, mid, ys, hl, rfl, rfl⟩ := hpre
    have hnodup := h.seq_nodup l
    rw [hl] at hnodup
    have hn : mid.length ≤ (st.list l).size.toNat := by
      rw [h.size_toNat (hlength l), hl, List.length_append, List.length_append]
      exact le_add_left (Nat.le_add_right _ _)
    obtain ⟨st', heq, h'⟩ := h.eraseRange hl hn
    have honward := (Sequences.before_onward hnodup).2
    have hbefore := (Sequences.before_onward (List.nodup_append.1 hnodup).2.1).1
    rw [ListOp.exec, heq, Sequences.exec, hl, honward, hbefore]
    exact h'
  | clear l =>
    have hl : A.seq l = [] ++ (A.seq l ++ []) := by simp
    obtain ⟨st', heq, h'⟩ := h.eraseRange (n := (st.list l).size.toNat) hl
      (h.size_toNat (hlength l)).ge
    rw [List.append_nil, List.head?_nil] at heq
    rw [ListOp.exec, h.first_eq, heq]
    exact h'
  | connect left right =>
    obtain ⟨hfree, hne, xs, hc⟩ := hpre
    have hnot : right ∉ xs ++ [left] := by
      refine h.notMem_of_free hfree hc.1 fun heq => hne ?_
      have hlast := congrArg List.getLast? heq
      simpa using hlast
    have hchain := h.chainOf_eq hc.1 (List.mem_append_right xs (List.mem_singleton_self left))
    rw [← List.append_nil (xs ++ [left])] at hc hnot
    have hconnect := h.connect hfree hc hnot
    rw [List.getLast?_concat] at hconnect
    rw [ListOp.exec, Sequences.exec, hchain]
    exact hconnect
  | connectBetween between left right =>
    obtain ⟨hfree, xs, ys, hc⟩ := hpre
    have hsplit : xs ++ left :: right :: ys = (xs ++ [left]) ++ (right :: ys) := by simp
    rw [hsplit] at hc
    have hnot : between ∉ (xs ++ [left]) ++ (right :: ys) := by
      refine h.notMem_of_free hfree hc.1 fun heq => ?_
      have hlength := congrArg List.length heq
      simp only [List.length_append, List.length_cons, List.length_nil] at hlength
      omega
    have hconnect := h.connect hfree hc hnot
    obtain ⟨hbefore, honward⟩ := Sequences.before_onward (h.chained.nodup _ hc.1)
    rw [List.getLast?_concat, List.head?_cons] at hconnect
    rw [List.head?_cons] at hbefore honward
    rw [ListOp.exec, Sequences.exec, h.chainOf_eq hc.1 (by simp), hbefore, honward]
    exact hconnect
  | disconnect element =>
    obtain ⟨c, hc, hmem⟩ := hpre
    obtain ⟨xs, ys, rfl⟩ := List.append_of_mem hmem
    obtain ⟨hbefore, honward⟩ := Sequences.before_onward (h.chained.nodup _ hc.1)
    rw [List.head?_cons] at hbefore honward
    rw [ListOp.exec, Sequences.exec, h.chainOf_eq hc.1 hmem, hbefore, honward, List.tail_cons]
    exact h.disconnect hc

omit [DecidableEq ι] in
/-- No node is in a list, and none is connected. -/
lemma initial : Represents (.initial : Lists ι N) .initial := by
  refine ⟨⟨?_, ?_, ?_, fun x => ⟨[x], ⟨x, rfl⟩, List.mem_singleton_self x⟩, ?_⟩, fun _ => .inl rfl,
    fun _ _ _ hv => absurd hv List.not_mem_nil, fun _ => rfl⟩
  · rintro ⟨v, heq⟩
    simp at heq
  · rintro _ ⟨v, rfl⟩
    exact List.nodup_singleton v
  · rintro _ ⟨v, rfl⟩ _ ⟨w, rfl⟩ x hv hw
    rw [← List.mem_singleton.1 hv, ← List.mem_singleton.1 hw]
  · rintro _ ⟨v, rfl⟩
    exact linked_singleton_iff.2 ⟨rfl, rfl⟩

end Represents

/-! ### Runs -/

/-- What is seen of a list that has the nodes of a sequence. -/
structure Shows (st : Lists ι N) (l : ι) (seq : List N) : Prop where
  forward : ∀ n, seq.length ≤ n → follow st.next n (st.list l).first = seq
  backward : ∀ n, seq.length ≤ n → follow st.previous n (st.list l).last = seq.reverse
  first_eq : (st.list l).first = seq.head?
  last_eq : (st.list l).last = seq.getLast?
  size_eq : (st.list l).size.toNat = seq.length

variable [DecidableEq ι]

/-- The lists have their sequences, and say of which nodes these are. The chains of the other nodes
are linked as well. -/
structure Agrees (st : Lists ι N) (A : Sequences ι N) : Prop where
  shows : ∀ l, st.Shows l (A.seq l)
  disjoint : ∀ l l' v, v ∈ A.seq l → v ∈ A.seq l' → l = l'
  chain_forward : ∀ c ∈ A.chains, ∀ n, c.length ≤ n → follow st.next n c.head? = c
  chain_backward : ∀ c ∈ A.chains, ∀ n, c.length ≤ n → follow st.previous n c.getLast? = c.reverse
  outside : ∀ v, (∀ l, v ∉ A.seq l) → (∀ c, A.Loose c → v ∈ c → c = [v]) →
    st.next v = none ∧ st.previous v = none
  erase_iff : ∀ l v, v ∈ A.seq l ∨ A.Free v → ((st.erase l v).1 = true ↔ v ∈ A.seq l)
  containsUnsafe_iff : ∀ l v, v ∈ A.seq l ∨ A.Free v →
    (st.containsUnsafe l v = true ↔ v ∈ A.seq l)

lemma erase_eq_containsUnsafe (l : ι) (v : N) : (st.erase l v).1 = st.containsUnsafe l v := by
  rw [erase, containsUnsafe]
  split
  · rename_i hinserted
    rw [hinserted, Bool.true_or]
  · rename_i hinserted
    rw [Bool.eq_false_of_not_eq_true hinserted, Bool.false_or]
    split
    · rename_i hfirst
      exact hfirst.symm
    · rename_i hfirst
      exact (Bool.eq_false_of_not_eq_true hfirst).symm

namespace Represents

variable {A : Sequences ι N} {l : ι}

omit [DecidableEq ι] in
lemma shows (h : Represents st A) (hlength : (A.seq l).length < 2 ^ 64) :
    st.Shows l (A.seq l) := by
  have hlinked : Linked st.next st.previous (A.seq l) := by
    rcases h.seq_mem l with heq | hmem
    · rw [heq]
      exact ⟨nofun, nofun⟩
    · exact h.chained.linked _ hmem
  refine ⟨fun n hn => ?_, fun n hn => ?_, h.first_eq, h.last_eq, h.size_toNat hlength⟩
  · rw [h.first_eq, hlinked.follow_next (h.seq_nodup l) hn]
  · rw [h.last_eq, hlinked.follow_previous (h.seq_nodup l) hn]

lemma erase_iff (h : Represents st A) (hv : v ∈ A.seq l ∨ A.Free v) :
    (st.erase l v).1 = true ↔ v ∈ A.seq l := by
  constructor
  · intro herase
    refine hv.resolve_right fun hfree => ?_
    rw [h.erase_free hfree] at herase
    exact absurd herase Bool.false_ne_true
  · intro hmem
    obtain ⟨xs, ys, hl⟩ := List.append_of_mem hmem
    exact (h.take hl).1

lemma agrees (h : Represents st A) (hlength : ∀ l, (A.seq l).length < 2 ^ 64) : Agrees st A where
  shows l := h.shows (hlength l)
  disjoint := h.disjoint
  chain_forward c hc n hn := (h.chained.linked c hc).follow_next (h.chained.nodup c hc) hn
  chain_backward c hc n hn := (h.chained.linked c hc).follow_previous (h.chained.nodup c hc) hn
  outside v hseq hloose := by
    obtain ⟨c, hc, hmem⟩ := h.chained.covers v
    have hne : ∀ l, A.seq l ≠ c := fun l heq => hseq l (heq ▸ hmem)
    exact h.free_links ⟨hloose c ⟨hc, hne⟩ hmem ▸ hc, hseq⟩
  erase_iff l v hv := h.erase_iff hv
  containsUnsafe_iff l v hv := by
    rw [← erase_eq_containsUnsafe]
    exact h.erase_iff hv

end Represents

end Lists

/-- The lists, and what they are to have. -/
noncomputable def lists (ι N : Type*) [DecidableEq ι] [DecidableEq N] :
    Machine (Lists ι N × Sequences ι N) (ListOp ι N) where
  init c := c = (.initial, .initial)
  pre c op := c.2.Pre op
  step c op := (op.exec c.1, c.2.exec op)

/-- Where a node is. A null pointer is no node. -/
abbrev Address := {p : BitVec 64 // p ≠ 0}

lemma Address.length_lt {l : List Address} (h : l.Nodup) : l.length < 2 ^ 64 := by
  have hmap : (l.map fun p => p.1.toFin).Nodup :=
    h.map fun p q heq => Subtype.ext (BitVec.toFin_inj.1 heq)
  have hzero : 0 ∉ l.map fun p => p.1.toFin := by
    intro hmem
    obtain ⟨p, -, heq⟩ := List.mem_map.1 hmem
    exact p.2 (BitVec.toFin_inj.1 heq)
  have hcard := (List.nodup_cons.2 ⟨hzero, hmap⟩).length_le_card
  rw [Fintype.card_fin, List.length_cons, List.length_map] at hcard
  exact hcard

/-- In every run the lists have the nodes that the operations put into them, in this order. -/
theorem lists_agree {ι : Type*} [DecidableEq ι] {c : Lists ι Address × Sequences ι Address}
    (h : (lists ι Address).Reachable (fun _ _ => True) c) : c.1.Agrees c.2 := by
  have hlength : ∀ {c : Lists ι Address × Sequences ι Address}, c.1.Represents c.2 →
      ∀ l, (c.2.seq l).length < 2 ^ 64 := fun hc l => Address.length_lt (hc.seq_nodup l)
  have hc : c.1.Represents c.2 := by
    refine h.invariant (P := fun c => c.1.Represents c.2) ?_ fun c op _ hc hpre _ => ?_
    · rintro _ rfl
      exact .initial
    · exact hc.exec (hlength hc) hpre
  exact hc.agrees (hlength hc)

def node (p : Fin 15) : Address :=
  ⟨.ofNat 64 (p + 1), by revert p; decide⟩

/-- A list gets two nodes, two others are connected, and one is taken from the list. -/
def listRun : List (ListOp Unit Address) :=
  [.pushBack () (node 0), .pushFront () (node 1), .connect (node 2) (node 3), .erase () (node 0)]

theorem lists_agree_listRun :
    Lists.Agrees (listRun.foldl (lists Unit Address).step (.initial, .initial)).1
      (listRun.foldl (lists Unit Address).step (.initial, .initial)).2 := by
  have hfree : ∀ v, (Sequences.initial : Sequences Unit Address).Free v := fun v =>
    ⟨⟨v, rfl⟩, fun _ => List.not_mem_nil⟩
  have hone : ∀ v, v ∉ [node 0] → (Sequences.initial.put () [] (node 0) []).Free v := fun v hv =>
    (hfree v).put hv
  have htwo : ∀ v, v ∉ [node 0] → v ∉ [node 1, node 0] →
      ((Sequences.initial.put () [] (node 0) []).put () [] (node 1) [node 0]).Free v :=
    fun v hv hv' => (hone v hv).put hv'
  refine lists_agree (.run (.init rfl) ⟨hfree _, trivial, hone _ (by decide), trivial,
    ⟨htwo _ (by decide) (by decide), by decide, [], ?_⟩, trivial, .inl ?_, trivial, trivial⟩)
  · exact (htwo _ (by decide) (by decide)).loose
  · exact List.mem_cons_of_mem _ (List.mem_singleton_self _)

/-- One list gets three nodes. -/
def threeNodes : Lists Bool Address :=
  [.pushBack true (node 0), .pushBack true (node 1), .pushBack true (node 2)].foldl ListOp.exec
    .initial

/-- When a node of a list is disconnected, the list counts one node too many. The other list is
empty, and yet it erases a node. -/
theorem foreign_node_not_counted :
    (¬∃ seq, (threeNodes.disconnect (node 1)).Shows true seq) ∧
      threeNodes.Shows false [] ∧ (threeNodes.erase false (node 1)).1 = true := by
  refine ⟨?_, ⟨fun n _ => ?_, fun n _ => ?_, rfl, rfl, rfl⟩, by decide⟩
  · rintro ⟨seq, hshows⟩
    have hsize : 3 = seq.length := hshows.size_eq
    have hforward := hshows.forward 3 hsize.ge
    have hfollow : follow (threeNodes.disconnect (node 1)).next 3
        ((threeNodes.disconnect (node 1)).list true).first = [node 0, node 2] := by decide
    rw [hfollow] at hforward
    simp [← hforward] at hsize
  · cases n <;> rfl
  · cases n <;> rfl

end Idle
