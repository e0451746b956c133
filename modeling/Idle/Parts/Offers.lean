import Idle.Parts.Storage

/-!
# Replies to offers

A `DynDependencies` part keeps one reply for each interface and acts by it when the interface is
started late. `UseNowAndInsert` and `UseLater` are not kept, nor is the reply that a late start asks
for, and a lock leaves the replies of the last epoch where they are. So the reply that is kept may
not be the most recent one.
-/

namespace Idle

/-- What is done for a used interface that is started late. -/
inductive LateStart where
  | insert
  | notify
  | ignore
  deriving DecidableEq, Repr

/-- The `switch` of `UsageImpl::onUsedStarted` -/
def UseReply.lateStart : UseReply → LateStart
  | useLaterAndNotify => .notify
  | useLaterAndInsert => .insert
  | _ => .ignore

/-- The most recent reply for an interface in the epoch of a lock, and whether the part has kept
it. -/
structure OfferRecord where
  latest : Option UseReply
  isKept : Bool
  deriving DecidableEq, Repr

namespace OfferRecord

/-- There was no offer in the epoch. -/
def empty : OfferRecord := ⟨none, false⟩

/-- An offer of `process_availability` is answered. -/
def offered (reply : UseReply) : OfferRecord :=
  ⟨some reply, decide (reply ≠ .useNowAndInsert ∧ reply ≠ .useLater)⟩

/-- The offer of a late start is answered; what is kept is still `UseLaterAndNotify`. -/
def started (reply : UseReply) : OfferRecord := ⟨some reply, decide (reply = .useLaterAndNotify)⟩

def lateStart (r : OfferRecord) : LateStart := (r.latest.map UseReply.lateStart).getD .ignore

end OfferRecord

namespace DynDependencies

variable {ι : Type*} [DecidableEq ι]

omit [DecidableEq ι] in
/-- What the part does when `exp` is started. -/
def lateStart (d : DynDependencies ι) (exp : ι) : LateStart := (d.usage exp).useReply.lateStart

lemma onUsedStarted_eq (d : DynDependencies ι) (exp : ι) :
    d.onUsedStarted exp = match d.lateStart exp with
      | .insert => d.usageInsertIntoStorage exp
      | .notify =>
        if d.hooks.onUseOffer exp = .useNowAndInsert then d.usageInsertIntoStorage exp else d
      | .ignore => d := by
  unfold onUsedStarted lateStart
  cases (d.usage exp).useReply <;> rfl

/-! ### The replies of an epoch -/

/-- The reply to the offer of `process_availability`, if there is one. -/
def offer (d : DynDependencies ι) (inter : ι) : Option UseReply :=
  if (d.hooks.onInspect inter).ignore || d.usageIsConnected inter || !d.isLocked then none
  else some (d.hooks.onUseOffer inter)

def recordOffer (d : DynDependencies ι) (inter : ι) (records : ι → OfferRecord) :
    ι → OfferRecord :=
  match d.offer inter with
  | some reply => Function.update records inter (.offered reply)
  | none => records

def recordStart (d : DynDependencies ι) (exp : ι) (records : ι → OfferRecord) : ι → OfferRecord :=
  if d.lateStart exp = .notify then
    Function.update records exp (.started (d.hooks.onUseOffer exp))
  else records

/-- A usage that is not running at the lock counts as answered by `UseLaterAndNotify`. -/
def recordLock (d : DynDependencies ι) (isRunning : ι → Bool) : ι → OfferRecord := fun i =>
  if i ∈ d.used ∧ isRunning i = false then ⟨some .useLaterAndNotify, true⟩ else .empty

end DynDependencies

namespace System

variable {ι : Type*} [DecidableEq ι] (R : Ranking ι)

/-- What an operation adds to the records of the `n`-th part `d`. -/
def record (st : System ι) (op : Op ι) (n : ℕ) (d : DynDependencies ι)
    (records : ι → OfferRecord) : ι → OfferRecord :=
  match op with
  | .create i | .unlocked i => if d.isSubscribed then d.recordOffer i records else records
  | .start i => if d.isUsing i && d.isLocked then d.recordStart i records else records
  | .destroy i => Function.update records i .empty
  | .dynDependencies m (.own .lock) => if m = n then d.recordLock st.running else records
  | .dynDependencies m (.own .unlock) => if m = n then fun _ => .empty else records
  | _ => records

def recordAll (st : System ι) (op : Op ι) (records : ℕ → ι → OfferRecord) :
    ℕ → ι → OfferRecord := fun n =>
  match st.dynDependencies[n]? with
  | some d => st.record op n d (records n)
  | none => records n

/-- The parts around one registry, with the replies of the present epochs. -/
def recordingMachine : Machine (System ι × (ℕ → ι → OfferRecord)) (Op ι) where
  init p := p = (empty, fun _ _ => .empty)
  pre p op := (machine R).pre p.1 op
  step p op := (p.1.step R op, p.1.recordAll op p.2)

instance (p : System ι × (ℕ → ι → OfferRecord)) (op : Op ι) :
    Decidable ((recordingMachine R).pre p op) :=
  inferInstanceAs (Decidable ((machine R).pre p.1 op))

variable {R} {p : System ι × (ℕ → ι → OfferRecord)}

lemma reachable_of_recording {cond : System ι × (ℕ → ι → OfferRecord) → Op ι → Prop}
    (h : (recordingMachine R).Reachable cond p) :
    (machine R).Reachable (fun _ _ => True) p.1 := by
  induction h with
  | init h => exact .init (congrArg Prod.fst h)
  | step _ hpre _ ih => exact ih.step hpre trivial

end System

/-! ### The reply that is kept -/

namespace DynDependencies

namespace Cell

variable {c c' : Cell} {r : OfferRecord}

/-- How the reply that is kept for an interface belongs to the most recent one. -/
structure Tracks (c : Cell) (r : OfferRecord) : Prop where
  new : c.keys = 0 → r = .empty
  kept : r.isKept = true → r.latest = some c.usage.useReply
  stale : r.isKept = false →
    r.lateStart = .ignore ∨ r.lateStart = .insert ∧ c.usage.useReply = .useLaterAndNotify

namespace Tracks

lemma empty (c : Cell) : c.Tracks .empty :=
  ⟨fun _ => rfl, fun h => absurd h Bool.false_ne_true, fun _ => .inl rfl⟩

lemma congr (h : c.Tracks r) (hk : c'.keys = c.keys)
    (hr : c'.usage.useReply = c.usage.useReply) : c'.Tracks r :=
  ⟨fun h0 => h.new (hk ▸ h0), hr ▸ h.kept, hr ▸ h.stale⟩

/-- A new entry begins without a reply. -/
lemma insert (h : c.Tracks r) (flags : DependenciesFlags) : (c.insert flags).Tracks r := by
  unfold Cell.insert
  split
  · exact h
  · rename_i hk
    rw [h.new (Nat.eq_zero_of_not_pos hk)]
    exact empty _

lemma offered (hk : 0 < c.keys) (reply : UseReply) :
    (c.processOffer reply).Tracks (.offered reply) := by
  have hkeys : (c.processOffer reply).keys = c.keys := by
    cases reply with
    | useNowAndInsert => simp [Cell.processOffer, Cell.connect]
    | _ => rfl
  refine ⟨fun h0 => absurd (hkeys.symm.trans h0) hk.ne', fun hkept => ?_, fun hstale => ?_⟩
  · cases reply with
    | useNowAndInsert | useLater => exact absurd hkept (by decide)
    | useNever | useLaterAndNotify | useLaterAndInsert => rfl
  · cases reply with
    | useNowAndInsert | useLater => exact .inl rfl
    | useNever | useLaterAndNotify | useLaterAndInsert => exact absurd hstale (by decide)

lemma started (hk : 0 < c.keys) (hr : c.usage.useReply = .useLaterAndNotify) (reply : UseReply) :
    c.Tracks (.started reply) := by
  refine ⟨fun h0 => absurd h0 hk.ne', fun hkept => ?_, fun hstale => ?_⟩
  · rw [hr]
    exact congrArg some (of_decide_eq_true hkept)
  · cases reply with
    | useLaterAndNotify => exact absurd hstale (by decide)
    | useLaterAndInsert => exact .inr ⟨rfl, hr⟩
    | _ => exact .inl rfl

/-- The part does the same by both replies just if the most recent one is kept, or the other one is
of no consequence. -/
lemma useReply_lateStart_iff (h : c.Tracks r) : c.usage.useReply.lateStart = r.lateStart ↔
    r.isKept = true ∨ (c.usage.useReply ≠ .useLaterAndNotify ∧
      c.usage.useReply ≠ .useLaterAndInsert) := by
  cases hr : r.isKept with
  | true =>
    have hlatest := h.kept hr
    simp [OfferRecord.lateStart, hlatest]
  | false =>
    obtain hign | ⟨hins, hnot⟩ := h.stale hr
    · rw [hign]
      cases c.usage.useReply <;> simp [UseReply.lateStart]
    · rw [hins, hnot]
      simp [UseReply.lateStart]

end Tracks

@[simp] lemma insertIntoStorage_useReply :
    c.insertIntoStorage.usage.useReply = c.usage.useReply := by
  unfold insertIntoStorage
  split <;> rfl

@[simp] lemma eraseFromStorage_useReply :
    c.eraseFromStorage.usage.useReply = c.usage.useReply := by
  unfold eraseFromStorage
  split <;> rfl

namespace Tracks

lemma onUsedStarted (h : c.Tracks r) (reply : UseReply) : (c.onUsedStarted reply).Tracks r := by
  unfold Cell.onUsedStarted
  split
  · split
    · exact h.congr insertIntoStorage_keys insertIntoStorage_useReply
    · exact h
  · exact h.congr insertIntoStorage_keys insertIntoStorage_useReply
  · exact h

lemma onReleaseRequest (h : c.Tracks r) (reply : ReleaseReply) :
    (c.onReleaseRequest reply).Tracks r := by
  unfold Cell.onReleaseRequest
  split
  · exact h.congr eraseFromStorage_keys eraseFromStorage_useReply
  · exact h

lemma doAcquireUsage (h : c.Tracks r) (flags : DependenciesFlags) :
    (c.doAcquireUsage flags).Tracks r := by
  simp only [Cell.doAcquireUsage]
  split <;> exact (h.insert flags).congr rfl rfl

lemma doReleaseUsage (h : c.Tracks r) : c.doReleaseUsage.Tracks r := by
  simp only [Cell.doReleaseUsage]
  split
  · split <;> exact h.congr rfl rfl
  · exact h

/-- A lock keeps the reply of a usage that is not running. -/
lemma lockUsage (hk : 0 < c.keys) :
    (c.lockUsage false).Tracks ⟨some .useLaterAndNotify, true⟩ := by
  refine ⟨fun h0 => ?_, fun _ => ?_, fun h => absurd h (by decide)⟩
  · have hkeys : (c.lockUsage false).keys = c.keys := eraseFromStorage_keys
    exact absurd (hkeys.symm.trans h0) hk.ne'
  · have hreply : (c.lockUsage false).usage.useReply = .useLaterAndNotify :=
      eraseFromStorage_useReply
    rw [hreply]

end Tracks

end Cell

variable {ι : Type*} [DecidableEq ι] {d d' : DynDependencies ι} {records : ι → OfferRecord} {i : ι}

/-- The part keeps track of the replies of the epoch. -/
def Tracks (d : DynDependencies ι) (records : ι → OfferRecord) : Prop :=
  d.isLocked = true → ∀ i, (d.cell i).Tracks (records i)

namespace Tracks

/-- An operation on one interface, with what it makes of its record. -/
lemma actsOn {g : Cell → Cell} (h : d.Tracks records) (hact : ActsOn d' d i g) {r : OfferRecord}
    (hg : d.isLocked = true → (d.cell i).Tracks (records i) → (g (d.cell i)).Tracks r) :
    d'.Tracks (Function.update records i r) := by
  intro hl j
  have hl' : d.isLocked = true := by rwa [isLocked, hact.2.1] at hl
  rw [hact.2.2 j]
  by_cases hj : j = i
  · rw [hj, if_pos rfl, Function.update_self]
    exact hg hl' (h hl' i)
  · rw [if_neg hj, Function.update_of_ne hj]
    exact h hl' j

lemma actsOn_same {g : Cell → Cell} (h : d.Tracks records) (hact : ActsOn d' d i g)
    (hg : (d.cell i).Tracks (records i) → (g (d.cell i)).Tracks (records i)) :
    d'.Tracks records := by
  have h' := h.actsOn hact fun _ => hg
  rwa [Function.update_eq_self] at h'

/-- An offer is answered, or none is made. -/
lemma processAvailability (h : d.Tracks records) (i : ι) :
    (d.processAvailability i).Tracks (d.recordOffer i records) := by
  have hact := d.processAvailability_actsOn i
  have hused : i ∈ d.used ↔ 0 < ((d.cell i).insert (d.hooks.onInspect i)).used := by
    rw [mem_used_iff]
    unfold Cell.insert
    split <;> rfl
  unfold recordOffer offer
  by_cases hig : (d.hooks.onInspect i).ignore = true
  · simp only [hig, Bool.true_or, if_true]
    refine h.actsOn_same hact fun hc => ?_
    simpa [Cell.processAvailability, hig] using hc
  · by_cases hu : i ∈ d.used
    · simp only [usageIsConnected, hu, decide_true, Bool.or_true, Bool.true_or, if_true]
      refine h.actsOn_same hact fun hc => ?_
      simpa [Cell.processAvailability, hig, hused.1 hu] using hc.insert (d.hooks.onInspect i)
    · by_cases hl : d.isLocked = true
      · have hu' : ¬ 0 < ((d.cell i).insert (d.hooks.onInspect i)).used := fun h => hu (hused.2 h)
        simp only [hig, usageIsConnected, hu, hl, decide_false, Bool.or_self, Bool.not_true,
          Bool.false_eq_true, if_false]
        refine h.actsOn hact fun _ _ => ?_
        simp only [Cell.processAvailability, hig, hu', hl, Bool.not_true, Bool.false_eq_true,
          if_false]
        exact .offered (Cell.Good.insert_keys_pos _ _) _
      · intro hn
        exact absurd (by rwa [isLocked, hact.2.1] at hn) hl

/-- The offer of a late start is only made where `UseLaterAndNotify` is kept. -/
lemma onUsedStarted (h : d.Tracks records) (hk : i ∈ d.keys) :
    (d.onUsedStarted i).Tracks (d.recordStart i records) := by
  have hact := d.onUsedStarted_actsOn i
  unfold recordStart
  split
  · rename_i hn
    have hr : (d.usage i).useReply = .useLaterAndNotify := by
      unfold lateStart at hn
      cases hu : (d.usage i).useReply with
      | useLaterAndNotify => rfl
      | _ => simp [hu, UseReply.lateStart] at hn
    refine h.actsOn hact fun _ _ => ?_
    exact (Cell.Tracks.started (mem_keys_iff.1 hk) hr _).onUsedStarted _
  · exact h.actsOn_same hact fun hc => hc.onUsedStarted _

lemma onImportLock (hd : d.Good) (isRunning : ι → Bool) :
    (d.onImportLock isRunning).Tracks (d.recordLock isRunning) := by
  intro _ i
  rw [onImportLock_cell hd]
  unfold recordLock
  split
  · rename_i hu
    have hk := (hd i).keys_pos (mem_used_iff.1 hu)
    cases hr : isRunning i with
    | true => simpa [hu] using Cell.Tracks.empty _
    | false => simpa [hu] using Cell.Tracks.lockUsage hk
  · rename_i hu
    simpa [hu] using Cell.Tracks.empty _

/-- The entry of an interface that is destroyed is gone, and its replies with it. -/
lemma destroy (h : d.Tracks records) (i : ι) :
    Tracks (let d := if d.isUsing i then d.onUsedDestroy i else d
      if d.isSubscribed then d.onSubscribedDestroy i else d)
      (Function.update records i .empty) := by
  have hfirst : Tracks (if d.isUsing i then d.onUsedDestroy i else d)
      (Function.update records i .empty) := by
    split
    · exact h.actsOn (d.onUsedDestroy_actsOn i) fun _ _ => .empty _
    · exact h.actsOn (.refl d i) fun _ _ => .empty _
  have hsecond : ∀ {d : DynDependencies ι}, d.Tracks (Function.update records i .empty) →
      Tracks (if d.isSubscribed then d.onSubscribedDestroy i else d)
        (Function.update records i .empty) := by
    intro d hd
    split
    · have herase := hd.actsOn (d.erase_actsOn i) (r := .empty) fun _ _ => .empty _
      rwa [Function.update_idem] at herase
    · exact hd
  exact hsecond hfirst

lemma of_unlocked (hl : d.isLocked = false) (records : ι → OfferRecord) : d.Tracks records :=
  fun h => absurd (hl.symm.trans h) Bool.false_ne_true

end Tracks

lemma onPartInit_isLocked (interfaces : List ι) (hooks : DependenciesHooks ι) :
    (onPartInit interfaces hooks).isLocked = false := by
  have hfold : ∀ (l : List ι) (d : DynDependencies ι), d.isLocked = false →
      (l.foldl (fun d inter => d.onSubscribedCreated inter) d).isLocked = false := by
    intro l
    induction l with
    | nil => exact fun d hd => hd
    | cons i l ih =>
      refine fun d hd => ih _ ?_
      have hphase : (d.onSubscribedCreated i).phase = d.phase :=
        (d.processAvailability_actsOn i).2.1
      rw [isLocked, hphase]
      exact hd
  exact hfold interfaces _ rfl

end DynDependencies

namespace System

variable {ι : Type*} [DecidableEq ι] {R : Ranking ι}
variable {p : System ι × (ℕ → ι → OfferRecord)} {st : System ι}

lemma stepSet_tracks {d : DynDependencies ι} {records : ι → OfferRecord} (h : d.Tracks records)
    (hd : d.Good) {n : ℕ} {op : SetOp ι} (hpre : st.SetPre d op) :
    (st.stepSet op d).Tracks (st.record (.dynDependencies n op) n d records) := by
  cases op with
  | own op =>
    cases op with
    | destroy => exact .of_unlocked rfl _
    -- the lock itself records an offer for every usage
    | lock =>
      have hl : DynDependencies.Good { d with phase := .locked } := hd.of_cell fun _ => rfl
      have hrec : st.record (.dynDependencies n (.own .lock)) n d records =
          d.recordLock st.running := if_pos rfl
      rw [hrec]
      exact DynDependencies.Tracks.onImportLock hl st.running
    | move p =>
      have hl : d.isLocked = true := hpre.1.1
      exact fun _ => h hl
    | unlock => exact .of_unlocked rfl _
  | setHooks hooks => exact h
  | release exp =>
    exact h.actsOn_same (d.onReleaseRequest_actsOn exp) fun hc => hc.onReleaseRequest _
  | acquireUsage dep =>
    by_cases hl : d.isLocked = true
    · exact h.actsOn_same (DynDependencies.doAcquireUsage_actsOn hl dep) fun hc =>
        hc.doAcquireUsage _
    · have hsame : st.stepSet (.acquireUsage dep) d = d := if_neg hl
      rw [hsame]
      exact h
  | releaseUsage dep =>
    by_cases hl : d.isLocked = true
    · exact h.actsOn_same (DynDependencies.doReleaseUsage_actsOn hl dep) fun hc =>
        hc.doReleaseUsage
    · have hsame : st.stepSet (.releaseUsage dep) d = d := if_neg hl
      rw [hsame]
      exact h

/-- All sets of dependencies keep track of the replies. -/
def SetsTrack (p : System ι × (ℕ → ι → OfferRecord)) : Prop :=
  ∀ n (d : DynDependencies ι), p.1.dynDependencies[n]? = some d → d.Tracks (p.2 n)

/-- An operation that concerns every part treats them one by one. -/
lemma SetsTrack.map {op : Op ι} {f : DynDependencies ι → DynDependencies ι}
    (hop : ∀ n (d : DynDependencies ι), p.1.dynDependencies[n]? = some d →
      (f d).Tracks (p.1.record op n d (p.2 n)))
    (hstep : (p.1.step R op).dynDependencies = p.1.dynDependencies.map f) :
    SetsTrack ((recordingMachine R).step p op) := by
  intro n d' hd'
  have hd' : (p.1.step R op).dynDependencies[n]? = some d' := hd'
  rw [hstep, List.getElem?_map] at hd'
  obtain ⟨d, hd, rfl⟩ := Option.map_eq_some_iff.1 hd'
  have hrec : ((recordingMachine R).step p op).2 n = p.1.record op n d (p.2 n) := by
    simp only [recordingMachine, recordAll, hd]
  rw [hrec]
  exact hop n d hd

lemma SetsTrack.step (h : SetsTrack p) (hgood : p.1.SetsGood) {op : Op ι} (hpre : Pre R p.1 op) :
    SetsTrack ((recordingMachine R).step p op) := by
  cases op with
  | create i =>
    refine SetsTrack.map (fun n d hd => ?_) rfl
    simp only [record]
    split_ifs
    · exact (h n d hd).processAvailability i
    · exact h n d hd
  | unlocked i =>
    refine SetsTrack.map (fun n d hd => ?_) rfl
    simp only [record]
    split_ifs
    · exact (h n d hd).processAvailability i
    · exact h n d hd
  | destroy i =>
    refine SetsTrack.map (fun n d hd => ?_) rfl
    exact (h n d hd).destroy i
  -- only a part that is locked and uses the interface is told of its start
  | start i =>
    refine SetsTrack.map (fun n d hd => ?_) rfl
    simp only [record]
    split_ifs with hi
    · have hu := (Bool.and_eq_true _ _ ▸ hi).1
      refine (h n d hd).onUsedStarted ?_
      simp only [DynDependencies.isUsing, Bool.and_eq_true, decide_eq_true_eq] at hu
      exact hu.1
    · exact h n d hd
  | addDynDependencies hooks =>
    intro n d hd
    have hd : (p.1.dynDependencies ++ [.onPartInit p.1.interfaces hooks])[n]? = some d := hd
    rw [List.getElem?_append] at hd
    split_ifs at hd
    · have hrec : ((recordingMachine R).step p (.addDynDependencies hooks)).2 n = p.2 n := by
        simp only [recordingMachine, recordAll, hd, record]
      rw [hrec]
      exact h n d hd
    · obtain rfl := List.mem_singleton.1 (List.mem_of_getElem? hd)
      exact .of_unlocked (DynDependencies.onPartInit_isLocked _ _) _
  | dynDependencies m op =>
    intro n d' hd'
    have hd' : (p.1.dynDependencies.modify m (p.1.stepSet op))[n]? = some d' := hd'
    rw [List.getElem?_modify] at hd'
    obtain ⟨d, hd, rfl⟩ := Option.map_eq_some_iff.1 hd'
    have hrec : ((recordingMachine R).step p (.dynDependencies m op)).2 n =
        p.1.record (.dynDependencies m op) n d (p.2 n) := by
      simp only [recordingMachine, recordAll, hd]
    rw [hrec]
    split_ifs with hmn
    · subst hmn
      obtain ⟨d₁, hd₁, hset⟩ := hpre
      obtain rfl : d = d₁ := by simpa [hd] using hd₁
      exact stepSet_tracks (h m d hd) (hgood d (List.mem_of_getElem? hd)) hset
    · -- what happens to another part is not recorded here
      have hsame : p.1.record (.dynDependencies m op) n d (p.2 n) = p.2 n := by
        cases op with
        | own op => cases op <;> simp [record, hmn]
        | _ => rfl
      rw [hsame]
      exact h n d hd
  | stop | addDependency | dependency | addDynDependency | dynDependency =>
    exact SetsTrack.map (f := id) (fun n d hd => h n d hd) (List.map_id _).symm

/-- A locked part acts by the most recent reply if and only if this is the reply that it has kept,
or what it has kept is neither `UseLaterAndNotify` nor `UseLaterAndInsert`. -/
theorem lateStart_eq_iff (h : (recordingMachine R).Reachable (fun _ _ => True) p) {n : ℕ}
    {d : DynDependencies ι} (hd : p.1.dynDependencies[n]? = some d) (hl : d.isLocked = true)
    (i : ι) :
    d.lateStart i = (p.2 n i).lateStart ↔
      (p.2 n i).isKept = true ∨ ((d.usage i).useReply ≠ .useLaterAndNotify ∧
        (d.usage i).useReply ≠ .useLaterAndInsert) := by
  have htrack : SetsTrack p := h.invariant (P := SetsTrack)
    (fun q hq => by rw [show q = _ from hq]; exact fun n d hd => nomatch hd)
    fun q op hr hq hpre _ => hq.step (.of_reachable (reachable_of_recording hr)) hpre.2
  exact (htrack n d hd hl i).useReply_lateStart_iff

/-- Hooks that use everything weakly and answer every offer with `reply`. -/
def answering (reply : UseReply) : DependenciesHooks Nat :=
  { eagerHooks with onUseOffer := fun _ => reply }

/-- An interface is published and offered while the owner is locked. -/
def offeredRun : List (Op Nat) :=
  [.addDynDependencies (answering .useLaterAndInsert), .dynDependencies 0 (.own .lock), .create 2]

theorem lateStart_eq_iff_offeredRun :
    let p := offeredRun.foldl (recordingMachine .byNumber).step (empty, fun _ _ => .empty)
    ∃ d ∈ p.1.dynDependencies[0]?, d.isUsing 2 = true ∧ (p.2 0 2).lateStart = .insert ∧
      d.lateStart 2 = .insert := by
  have hreach : (recordingMachine .byNumber).Reachable (fun _ _ => True)
      (offeredRun.foldl (recordingMachine .byNumber).step (empty, fun _ _ => .empty)) :=
    .run (.init rfl) (by decide)
  obtain ⟨d, hd, hl, hu⟩ : ∃ d ∈ (offeredRun.foldl (recordingMachine .byNumber).step
      (empty, fun _ _ => .empty)).1.dynDependencies[0]?,
      d.isLocked = true ∧ d.isUsing 2 = true := by decide
  have hgoverned := (lateStart_eq_iff hreach hd hl 2).2 (.inl (by decide))
  exact ⟨d, hd, hu, by decide, hgoverned.trans (by decide)⟩

/-- The interface is released, and `UseLater` is the reply to its next offer. -/
def staleRun : List (Op Nat) :=
  offeredRun ++ [.dynDependencies 0 (.release 2),
    .dynDependencies 0 (.setHooks (answering .useLater)), .unlocked 2]

theorem staleRun_inserts :
    ∃ p, (recordingMachine .byNumber).Reachable (fun _ _ => True) p ∧
      (recordingMachine .byNumber).pre p (.start 2) ∧
      (p.2 0 2).latest = some .useLater ∧ ∃ d ∈ p.1.dynDependencies[0]?,
        d.isLocked = true ∧ d.isUsing 2 = true ∧ d.lateStart 2 = .insert ∧
        d.storage 2 = false ∧ (d.onUsedStarted 2).storage 2 = true := by
  refine ⟨staleRun.foldl (recordingMachine .byNumber).step (empty, fun _ _ => .empty),
    .run (.init rfl) ?_, ?_⟩
  · decide
  · decide

end System

end Idle
