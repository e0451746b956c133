import Mathlib.Data.List.Infix
import Mathlib.Order.Bounds.Basic
import Mathlib.Tactic

/-!
# Searching in spans

`Span` and `StringView` search with loops over positions of 64 bits, and a read outside the elements
is undefined. The loops are two, one upwards and one downwards; each search is one of them with its
own bounds. The upward search of a sequence does not try the last position, and the downward search
of a value not the first one.
-/

namespace Idle

/-- `dynamic_extent` -/
def npos : Nat := 2 ^ 64 - 1

/-- The loop `for (; pos < last; ++pos)`, where `test` is `none` if it reads outside. -/
def searchUp (test : Nat → Option Bool) (last pos : Nat) : Option Nat :=
  if pos < last then
    match test pos with
    | none => none
    | some true => some pos
    | some false => searchUp test last (pos + 1)
  else some npos
termination_by last - pos

/-- The loop `for (; pos > 0; --pos)` -/
def searchDown (test : Nat → Option Bool) : Nat → Option Nat
  | 0 => some npos
  | pos + 1 =>
    match test (pos + 1) with
    | none => none
    | some true => some (pos + 1)
    | some false => searchDown test pos

/-- The elements of a `Span`. They end at an address and do not begin at the null one, so their
number is not `npos`. -/
structure View (α : Type*) where
  elements : List α
  size_lt : elements.length < npos

namespace View

variable {α : Type*} [DecidableEq α]

def size (s : View α) : Nat := s.elements.length

/-- `operator[]` -/
def at? (s : View α) (idx : Nat) : Option α := s.elements[idx]?

/-- `Span::find` -/
def find (s : View α) (value : α) (pos : Nat) : Option Nat :=
  searchUp (fun pos => (s.at? pos).map (· = value)) s.size pos

/-- `Span::rfind`; `size() - 1` has 64 bits. -/
def rfind (s : View α) (value : α) (pos : Nat) : Option Nat :=
  searchDown (fun pos => (s.at? pos).map (· = value))
    (if s.size ≤ pos then (s.size + 2 ^ 64 - 1) % 2 ^ 64 else pos)

/-- The loop of `StringView::is_subseq` -/
def isSubseqLoop (s seq : View α) (pos off : Nat) : Option Bool :=
  if off < seq.size then
    match s.at? (pos + off), seq.at? off with
    | some a, some b => if a ≠ b then some false else isSubseqLoop s seq pos (off + 1)
    | _, _ => none
  else some true
termination_by seq.size - off

def isSubseq (s seq : View α) (pos : Nat) : Option Bool := isSubseqLoop s seq pos 0

/-- `StringView::find`; `size() - pos` and `size() - seq_size` have 64 bits. -/
def findSeq (s seq : View α) (pos : Nat) : Option Nat :=
  if seq.size = 0 then some pos
  else if (s.size + 2 ^ 64 - pos) % 2 ^ 64 < seq.size then some npos
  else searchUp (s.isSubseq seq) ((s.size + 2 ^ 64 - seq.size) % 2 ^ 64) pos

/-- The sequence occurs at a position. -/
def OccursAt (s seq : View α) (pos : Nat) : Prop := seq.elements <+: s.elements.drop pos

instance (s seq : View α) : DecidablePred (s.OccursAt seq) := fun _ =>
  inferInstanceAs (Decidable (_ <+: _))

end View

/-- A search returns the least position of a set, and `npos` if there is none. -/
def FindsFirst (r : Option Nat) (S : Set Nat) : Prop :=
  ∃ k, r = some k ∧ (k = npos ↔ S = ∅) ∧ (k ≠ npos → IsLeast S k)

/-- A search returns the greatest position of a set, and `npos` if there is none. -/
def FindsLast (r : Option Nat) (S : Set Nat) : Prop :=
  ∃ k, r = some k ∧ (k = npos ↔ S = ∅) ∧ (k ≠ npos → IsGreatest S k)

/-! ### The loops -/

section

variable {S : Set Nat} {r : Option Nat} {k : Nat} {test : Nat → Option Bool} {last pos : Nat}

lemma FindsFirst.of_empty : FindsFirst (some npos) ∅ :=
  ⟨npos, rfl, by simp, fun h => absurd rfl h⟩

lemma FindsFirst.of_isLeast (h : IsLeast S k) (hk : k < npos) : FindsFirst (some k) S :=
  ⟨k, rfl, ⟨fun heq => absurd heq hk.ne, fun heq => absurd (heq ▸ h.1) (Set.notMem_empty k)⟩,
    fun _ => h⟩

lemma FindsLast.of_empty : FindsLast (some npos) ∅ :=
  ⟨npos, rfl, by simp, fun h => absurd rfl h⟩

lemma FindsLast.of_isGreatest (h : IsGreatest S k) (hk : k < npos) : FindsLast (some k) S :=
  ⟨k, rfl, ⟨fun heq => absurd heq hk.ne, fun heq => absurd (heq ▸ h.1) (Set.notMem_empty k)⟩,
    fun _ => h⟩

/-- A search that stops before the last position of a set misses it if it is the only one. -/
lemma FindsFirst.insert_iff (h : FindsFirst r S) (hk : ∀ j ∈ S, j < k) (hnpos : k < npos) :
    FindsFirst r (insert k S) ↔ S.Nonempty := by
  obtain ⟨m, rfl, hempty, hleast⟩ := h
  constructor
  · rintro ⟨m', heq, hempty', -⟩
    obtain rfl := Option.some.inj heq
    have hne : m ≠ npos := fun heq => (Set.insert_nonempty k S).ne_empty (hempty'.1 heq)
    exact ⟨m, (hleast hne).1⟩
  · intro hne
    have hm : IsLeast S m := hleast fun heq => hne.ne_empty (hempty.1 heq)
    refine .of_isLeast ⟨.inr hm.1, ?_⟩ ((hk m hm.1).trans hnpos)
    rintro j (rfl | hj)
    · exact (hk m hm.1).le
    · exact hm.2 hj

/-- A search that stops before the first position of a set misses it if it is the only one. -/
lemma FindsLast.insert_iff (h : FindsLast r S) (hk : ∀ j ∈ S, k < j) (hnpos : ∀ j ∈ S, j < npos) :
    FindsLast r (insert k S) ↔ S.Nonempty := by
  obtain ⟨m, rfl, hempty, hgreatest⟩ := h
  constructor
  · rintro ⟨m', heq, hempty', -⟩
    obtain rfl := Option.some.inj heq
    have hne : m ≠ npos := fun heq => (Set.insert_nonempty k S).ne_empty (hempty'.1 heq)
    exact ⟨m, (hgreatest hne).1⟩
  · intro hne
    have hm : IsGreatest S m := hgreatest fun heq => hne.ne_empty (hempty.1 heq)
    refine .of_isGreatest ⟨.inr hm.1, ?_⟩ (hnpos m hm.1)
    rintro j (rfl | hj)
    · exact (hk m hm.1).le
    · exact hm.2 hj

/-- The loop finds the first position that passes the test. -/
lemma searchUp_findsFirst {P : Nat → Prop} [DecidablePred P] (hlast : last ≤ npos)
    (htest : ∀ i, pos ≤ i → i < last → test i = some (decide (P i))) :
    FindsFirst (searchUp test last pos) {i | pos ≤ i ∧ i < last ∧ P i} := by
  fun_induction searchUp test last pos with
  | case1 pos hlt hread => simp [htest pos le_rfl hlt] at hread
  | case2 pos hlt htrue =>
    rw [htest pos le_rfl hlt] at htrue
    have hP : P pos := by simpa using htrue
    exact .of_isLeast ⟨⟨le_rfl, hlt, hP⟩, fun i hi => hi.1⟩ (hlt.trans_le hlast)
  | case3 pos hlt hfalse ih =>
    rw [htest pos le_rfl hlt] at hfalse
    have hP : ¬ P pos := by simpa using hfalse
    have heq : {i | pos ≤ i ∧ i < last ∧ P i} = {i | pos + 1 ≤ i ∧ i < last ∧ P i} := by
      ext i
      refine ⟨fun ⟨hle, hi, hPi⟩ => ⟨?_, hi, hPi⟩, fun ⟨hle, hi, hPi⟩ => ⟨by omega, hi, hPi⟩⟩
      exact Nat.lt_of_le_of_ne hle fun heq => hP (heq ▸ hPi)
    rw [heq]
    exact ih fun i hle hi => htest i (by omega) hi
  | case4 pos hge =>
    have heq : {i | pos ≤ i ∧ i < last ∧ P i} = ∅ :=
      Set.eq_empty_iff_forall_notMem.2 fun i ⟨hle, hi, _⟩ => hge (by omega)
    rw [heq]
    exact .of_empty

/-- The loop finds the last position that passes the test, except for the first one. -/
lemma searchDown_findsLast {P : Nat → Prop} [DecidablePred P] (hpos : pos < npos)
    (htest : ∀ i, i ≤ pos → test i = some (decide (P i))) :
    FindsLast (searchDown test pos) {i | 0 < i ∧ i ≤ pos ∧ P i} := by
  induction pos with
  | zero =>
    have heq : {i | 0 < i ∧ i ≤ 0 ∧ P i} = ∅ :=
      Set.eq_empty_iff_forall_notMem.2 fun i ⟨hi, hle, _⟩ => by omega
    rw [heq]
    exact .of_empty
  | succ pos ih =>
    rw [searchDown, htest (pos + 1) le_rfl]
    by_cases hP : P (pos + 1)
    · rw [decide_eq_true hP]
      exact .of_isGreatest ⟨⟨Nat.succ_pos pos, le_rfl, hP⟩, fun i hi => hi.2.1⟩ hpos
    · rw [decide_eq_false hP]
      have heq : {i | 0 < i ∧ i ≤ pos + 1 ∧ P i} = {i | 0 < i ∧ i ≤ pos ∧ P i} := by
        ext i
        refine ⟨fun ⟨hi, hle, hPi⟩ => ⟨hi, ?_, hPi⟩, fun ⟨hi, hle, hPi⟩ => ⟨hi, by omega, hPi⟩⟩
        exact Nat.lt_succ_iff.1 (Nat.lt_of_le_of_ne hle fun heq : i = pos + 1 => hP (heq ▸ hPi))
      rw [heq]
      exact ih (by omega) fun i hi => htest i (by omega)

end

namespace View

variable {α : Type*} [DecidableEq α] {s seq : View α} {value : α} {pos off : Nat}

/-! ### The searches -/

lemma at?_map_eq {i : Nat} (h : i < s.size) :
    (s.at? i).map (fun a => decide (a = value)) = some (decide (s.at? i = some value)) := by
  rw [at?, List.getElem?_eq_getElem h]
  simp

/-- `find` returns the first position of a value. -/
lemma find_findsFirst (s : View α) (value : α) (pos : Nat) :
    FindsFirst (s.find value pos) {j | pos ≤ j ∧ s.at? j = some value} := by
  have heq : {j | pos ≤ j ∧ s.at? j = some value} =
      {j | pos ≤ j ∧ j < s.size ∧ s.at? j = some value} := by
    ext j
    refine ⟨fun ⟨hle, hj⟩ => ⟨hle, ?_, hj⟩, fun ⟨hle, _, hj⟩ => ⟨hle, hj⟩⟩
    exact (List.getElem?_eq_some_iff.1 hj).1
  rw [heq]
  exact searchUp_findsFirst s.size_lt.le fun i _ hi => at?_map_eq hi

/-- `rfind` looks at every position but the first one, where it begins to read outside if there are
no elements. -/
lemma rfind_findsLast (hs : s.size ≠ 0) :
    FindsLast (s.rfind value pos) {j | 0 < j ∧ j ≤ pos ∧ s.at? j = some value} := by
  have hlt : s.size < npos := s.size_lt
  have hmod : (s.size + 2 ^ 64 - 1) % 2 ^ 64 = s.size - 1 := by
    unfold npos at hlt
    omega
  have heq : {j | 0 < j ∧ j ≤ pos ∧ s.at? j = some value} =
      {j | 0 < j ∧ j ≤ (if s.size ≤ pos then s.size - 1 else pos) ∧ s.at? j = some value} := by
    ext j
    refine ⟨fun ⟨h0, hle, hj⟩ => ⟨h0, ?_, hj⟩, fun ⟨h0, hle, hj⟩ => ⟨h0, ?_, hj⟩⟩
    · have hsize : j < s.size := (List.getElem?_eq_some_iff.1 hj).1
      split <;> omega
    · split at hle <;> omega
  rw [heq, rfind, hmod]
  refine searchDown_findsLast ?_ fun i hi => at?_map_eq ?_
  · split <;> omega
  · split at hi <;> omega

/-- An empty span is read at the last position of 64 bits. -/
lemma rfind_of_empty (hs : s.size = 0) (pos : Nat) : s.rfind value pos = none := by
  have hnil : s.elements = [] := List.length_eq_zero_iff.1 hs
  have hread : s.at? (2 ^ 64 - 1) = none := by rw [at?, hnil, List.getElem?_nil]
  rw [rfind, if_pos (hs ▸ Nat.zero_le pos), hs]
  rw [show (0 + 2 ^ 64 - 1) % 2 ^ 64 = (2 ^ 64 - 2) + 1 by norm_num, searchDown]
  rw [show 2 ^ 64 - 2 + 1 = 2 ^ 64 - 1 by norm_num, hread]
  rfl

lemma isSubseqLoop_eq (h : pos + seq.size ≤ s.size) :
    isSubseqLoop s seq pos off =
      some (decide (seq.elements.drop off <+: s.elements.drop (pos + off))) := by
  fun_induction isSubseqLoop s seq pos off with
  | case1 off hlt a b ha hb hne =>
    obtain ⟨hi, rfl⟩ := List.getElem?_eq_some_iff.1 ha
    obtain ⟨hj, rfl⟩ := List.getElem?_eq_some_iff.1 hb
    refine congrArg some (decide_eq_false ?_).symm
    rw [List.drop_eq_getElem_cons hi, List.drop_eq_getElem_cons hj, List.cons_prefix_cons]
    exact fun hprefix => hne hprefix.1.symm
  | case2 off hlt a b ha hb heq ih =>
    obtain ⟨hi, rfl⟩ := List.getElem?_eq_some_iff.1 ha
    obtain ⟨hj, rfl⟩ := List.getElem?_eq_some_iff.1 hb
    rw [ih]
    refine congrArg some (decide_eq_decide.2 ?_)
    rw [List.drop_eq_getElem_cons hi, List.drop_eq_getElem_cons hj, List.cons_prefix_cons]
    exact (and_iff_right (not_not.1 heq).symm).symm
  | case3 off hlt hread =>
    have hi : pos + off < s.elements.length := by
      unfold size at h hlt
      omega
    exact absurd (List.getElem?_eq_getElem hlt) (hread _ _ (List.getElem?_eq_getElem hi))
  | case4 off hge =>
    have hnil : seq.elements.drop off = [] := List.drop_eq_nil_of_le (not_lt.1 hge)
    simp [hnil]

lemma isSubseq_eq (h : pos + seq.size ≤ s.size) :
    s.isSubseq seq pos = some (decide (seq.elements <+: s.elements.drop pos)) := by
  rw [isSubseq, isSubseqLoop_eq h, List.drop_zero, Nat.add_zero]

omit [DecidableEq α] in
lemma OccursAt.le (h : s.OccursAt seq pos) (hseq : seq.size ≠ 0) : pos + seq.size ≤ s.size := by
  have hle := h.length_le
  rw [List.length_drop] at hle
  unfold size at hseq ⊢
  omega

/-- `find` tries every position of a sequence but the last possible one. -/
lemma findSeq_findsFirst (hpos : pos ≤ s.size) (hseq : seq.size ≠ 0) :
    FindsFirst (s.findSeq seq pos)
      {j | pos ≤ j ∧ j < s.size - seq.size ∧ s.OccursAt seq j} := by
  have hlt : s.size < npos := s.size_lt
  have hmod : (s.size + 2 ^ 64 - pos) % 2 ^ 64 = s.size - pos := by
    unfold npos at hlt
    omega
  rw [findSeq, if_neg hseq, hmod]
  split
  · have heq : {j | pos ≤ j ∧ j < s.size - seq.size ∧ s.OccursAt seq j} = ∅ :=
      Set.eq_empty_iff_forall_notMem.2 fun j ⟨hle, hj, _⟩ => by omega
    rw [heq]
    exact .of_empty
  · have hmod' : (s.size + 2 ^ 64 - seq.size) % 2 ^ 64 = s.size - seq.size := by
      unfold npos at hlt
      omega
    rw [hmod']
    exact searchUp_findsFirst (by omega) fun i _ hi => isSubseq_eq (by omega)

/-- `find` meets its specification unless a sequence is found at the end and nowhere before. -/
lemma findSeq_iff (hpos : pos ≤ s.size) :
    FindsFirst (s.findSeq seq pos) {j | pos ≤ j ∧ s.OccursAt seq j} ↔
      (seq.size ≠ 0 → pos + seq.size ≤ s.size → s.OccursAt seq (s.size - seq.size) →
        ∃ j, pos ≤ j ∧ j < s.size - seq.size ∧ s.OccursAt seq j) := by
  by_cases hseq : seq.size = 0
  · have hoccurs : s.OccursAt seq pos := by
      rw [OccursAt, List.length_eq_zero_iff.1 hseq]
      exact List.nil_prefix
    rw [findSeq, if_pos hseq]
    refine iff_of_true ?_ fun hne => absurd hseq hne
    exact .of_isLeast ⟨⟨le_rfl, hoccurs⟩, fun j hj => hj.1⟩ (hpos.trans_lt s.size_lt)
  have hfound := findSeq_findsFirst hpos hseq
  by_cases hend : pos + seq.size ≤ s.size ∧ s.OccursAt seq (s.size - seq.size)
  · have heq : {j | pos ≤ j ∧ s.OccursAt seq j} = insert (s.size - seq.size)
        {j | pos ≤ j ∧ j < s.size - seq.size ∧ s.OccursAt seq j} := by
      ext j
      constructor
      · rintro ⟨hle, hj⟩
        have hbound := hj.le hseq
        rcases Nat.lt_or_eq_of_le (Nat.le_sub_of_add_le hbound) with hlt | rfl
        · exact .inr ⟨hle, hlt, hj⟩
        · exact .inl rfl
      · rintro (rfl | ⟨hle, -, hj⟩)
        · exact ⟨Nat.le_sub_of_add_le hend.1, hend.2⟩
        · exact ⟨hle, hj⟩
    rw [heq, hfound.insert_iff (fun j hj => hj.2.1) ((Nat.sub_le _ _).trans_lt s.size_lt)]
    exact ⟨fun ⟨j, hj⟩ _ _ _ => ⟨j, hj⟩, fun h => h hseq hend.1 hend.2⟩
  · have heq : {j | pos ≤ j ∧ s.OccursAt seq j} =
        {j | pos ≤ j ∧ j < s.size - seq.size ∧ s.OccursAt seq j} := by
      ext j
      refine ⟨fun ⟨hle, hj⟩ => ⟨hle, ?_, hj⟩, fun ⟨hle, _, hj⟩ => ⟨hle, hj⟩⟩
      have hbound := hj.le hseq
      refine lt_of_le_of_ne (Nat.le_sub_of_add_le hbound) ?_
      rintro rfl
      exact hend ⟨by omega, hj⟩
    rw [heq]
    exact iff_of_true hfound fun _ hle hoccurs => absurd ⟨hle, hoccurs⟩ hend

/-- `rfind` meets its specification unless there are no elements, or a value is found at the
beginning and nowhere behind. -/
lemma rfind_iff (s : View α) (value : α) (pos : Nat) :
    FindsLast (s.rfind value pos) {j | j ≤ pos ∧ s.at? j = some value} ↔
      s.size ≠ 0 ∧ (s.at? 0 = some value → ∃ j, 0 < j ∧ j ≤ pos ∧ s.at? j = some value) := by
  by_cases hs : s.size = 0
  · rw [rfind_of_empty hs pos]
    refine iff_of_false ?_ fun h => h.1 hs
    rintro ⟨k, hk, -⟩
    cases hk
  rw [and_iff_right hs]
  have hfound : FindsLast (s.rfind value pos) {j | 0 < j ∧ j ≤ pos ∧ s.at? j = some value} :=
    rfind_findsLast hs
  by_cases hzero : s.at? 0 = some value
  · have heq : {j | j ≤ pos ∧ s.at? j = some value} =
        insert 0 {j | 0 < j ∧ j ≤ pos ∧ s.at? j = some value} := by
      ext j
      constructor
      · rintro ⟨hle, hj⟩
        rcases Nat.eq_zero_or_pos j with rfl | h0
        · exact .inl rfl
        · exact .inr ⟨h0, hle, hj⟩
      · rintro (rfl | ⟨-, hle, hj⟩)
        · exact ⟨Nat.zero_le pos, hzero⟩
        · exact ⟨hle, hj⟩
    rw [heq, hfound.insert_iff (fun j hj => hj.1) fun j hj =>
      (List.getElem?_eq_some_iff.1 hj.2.2).1.trans s.size_lt]
    exact ⟨fun ⟨j, hj⟩ _ => ⟨j, hj⟩, fun h => h hzero⟩
  · have heq : {j | j ≤ pos ∧ s.at? j = some value} =
        {j | 0 < j ∧ j ≤ pos ∧ s.at? j = some value} := by
      ext j
      refine ⟨fun ⟨hle, hj⟩ => ⟨Nat.pos_of_ne_zero ?_, hle, hj⟩, fun ⟨_, hle, hj⟩ => ⟨hle, hj⟩⟩
      rintro rfl
      exact hzero hj
    rw [heq]
    exact iff_of_true hfound fun h => absurd h hzero

/-- The three searches meet their specifications in just these cases, and then they read nothing
outside. -/
theorem searches_iff (s seq : View α) (value : α) {pos : Nat} (hpos : pos ≤ s.size) :
    (FindsFirst (s.findSeq seq pos) {j | pos ≤ j ∧ s.OccursAt seq j} ∧
      FindsFirst (s.find value pos) {j | pos ≤ j ∧ s.at? j = some value} ∧
      FindsLast (s.rfind value pos) {j | j ≤ pos ∧ s.at? j = some value}) ↔
    (seq.size ≠ 0 → pos + seq.size ≤ s.size → s.OccursAt seq (s.size - seq.size) →
        ∃ j, pos ≤ j ∧ j < s.size - seq.size ∧ s.OccursAt seq j) ∧
      s.size ≠ 0 ∧
        (s.at? 0 = some value → ∃ j, 0 < j ∧ j ≤ pos ∧ s.at? j = some value) := by
  rw [findSeq_iff hpos, rfind_iff s value pos, and_iff_right (s.find_findsFirst value pos)]

def letters : View Char := ⟨['a', 'a', 'b', 'a', 'b'], by norm_num [npos]⟩

def pair : View Char := ⟨['a', 'b'], by norm_num [npos]⟩

/-- The sequence and the value also occur where they are looked for. -/
theorem searches_letters :
    FindsFirst (letters.findSeq pair 1) {j | 1 ≤ j ∧ letters.OccursAt pair j} ∧
      FindsFirst (letters.find 'a' 1) {j | 1 ≤ j ∧ letters.at? j = some 'a'} ∧
      FindsLast (letters.rfind 'a' 1) {j | j ≤ 1 ∧ letters.at? j = some 'a'} :=
  (searches_iff letters pair 'a' (show 1 ≤ letters.size by decide)).2
    ⟨fun _ _ _ => ⟨1, by decide⟩, by decide, fun _ => ⟨1, by decide⟩⟩

/-- A text of one letter. -/
def letter : View Char := ⟨['a'], by norm_num [npos]⟩

/-- The letter is not found, neither as a sequence nor as a value. -/
theorem letter_not_found :
    ¬ ∀ (s seq : View Char) (value : Char) (pos : Nat), pos ≤ s.size →
      FindsFirst (s.findSeq seq pos) {j | pos ≤ j ∧ s.OccursAt seq j} ∧
        FindsFirst (s.find value pos) {j | pos ≤ j ∧ s.at? j = some value} ∧
        FindsLast (s.rfind value pos) {j | j ≤ pos ∧ s.at? j = some value} := by
  intro h
  obtain ⟨⟨k, hk, hempty, -⟩, -⟩ := h letter letter 'a' 0 (Nat.zero_le _)
  have hfind : letter.findSeq letter 0 = some npos := by
    simp [findSeq, searchUp, letter, size]
  obtain rfl := Option.some.inj (hfind.symm.trans hk)
  have hoccurs : letter.OccursAt letter 0 := by decide
  exact absurd (hempty.1 rfl) (Set.Nonempty.ne_empty ⟨0, le_rfl, hoccurs⟩)

end View

end Idle
