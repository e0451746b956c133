import Idle.Parts.Selection
import Idle.Parts.Storage
import Idle.Parts.Swaps
import Idle.Parts.Users

/-!
# What the end of an interface leaves behind

Once `onInterfaceDestroy` has returned, no part should know of the interface any more. A locked
`DynDependency` selects another interface to prefer when the preferred one goes, and forgets to use
it. Apart from that nothing is left, as long as the loop over the users stays in its list.
-/

namespace Idle

/-! ### Sets of dependencies -/

namespace DynDependencies

variable {ι : Type*} [DecidableEq ι] {d : DynDependencies ι} {i : ι}

/-- A part that is not initialised has no entries. -/
def IsCleared (d : DynDependencies ι) : Prop := d.isSubscribed = false → d.keys = []

lemma isUsing_eq_false (h : i ∉ d.keys) : d.isUsing i = false := by
  simp [isUsing, h]

omit [DecidableEq ι] in
lemma IsCleared.isSubscribed_of_mem (h : d.IsCleared) (hi : i ∈ d.keys) :
    d.isSubscribed = true := by
  by_contra hs
  simp [h (by simpa using hs)] at hi

lemma IsCleared.isSubscribed_of_isUsing (h : d.IsCleared) (hi : d.isUsing i = true) :
    d.isSubscribed = true := by
  simp only [isUsing, Bool.and_eq_true, decide_eq_true_eq] at hi
  exact h.isSubscribed_of_mem hi.1

omit [DecidableEq ι] in
lemma isCleared_of_isSubscribed (h : d.isSubscribed = true) : d.IsCleared :=
  fun hs => absurd (h.symm.trans hs) (by simp)

lemma ActsOn.isSubscribed {d' : DynDependencies ι} {g : Cell → Cell} (h : ActsOn d' d i g) :
    d'.isSubscribed = d.isSubscribed := by
  rw [DynDependencies.isSubscribed, h.2.1, DynDependencies.isSubscribed]

/-- An operation on the usage of one interface keeps an initialised part initialised. -/
lemma ActsOn.isCleared {d' : DynDependencies ι} {g : Cell → Cell} (h : ActsOn d' d i g)
    (hs : d.isSubscribed = true) : d'.IsCleared :=
  isCleared_of_isSubscribed (h.isSubscribed.trans hs)

/-- Whichever of the two events a part gets, the entry goes. -/
lemma IsCleared.not_mem_destroy (hc : d.IsCleared) (h : d.Good) (i : ι) :
    i ∉ (let d := if d.isUsing i then d.onUsedDestroy i else d
      if d.isSubscribed then d.onSubscribedDestroy i else d).keys := by
  have herase : ∀ {d : DynDependencies ι}, d.Good → i ∉ (d.onSubscribedDestroy i).keys :=
    fun hd => hd.nodup_keys.not_mem_erase
  by_cases hi : d.isUsing i = true
  · have hact := d.onUsedDestroy_actsOn i
    have hgood := hact.good h ((h i).onUsedDestroy ((h i).keys_pos (h.used_pos_of_isUsing hi)))
    have hs := hact.isSubscribed.trans (hc.isSubscribed_of_isUsing hi)
    simpa only [hi, if_true, hs] using herase hgood
  · by_cases hs : d.isSubscribed = true
    · simpa [hi, hs] using herase h
    · simp [hi, hs, hc (by simpa using hs)]

lemma IsCleared.destroy (hc : d.IsCleared) (i : ι) :
    IsCleared (let d := if d.isUsing i then d.onUsedDestroy i else d
      if d.isSubscribed then d.onSubscribedDestroy i else d) := by
  by_cases hs : d.isSubscribed = true
  · by_cases hi : d.isUsing i = true
    · have hs' := (d.onUsedDestroy_actsOn i).isSubscribed.trans hs
      simp only [hi, if_true, hs']
      exact (erase_actsOn _ i).isCleared hs'
    · simpa [hi, hs, onSubscribedDestroy] using (erase_actsOn d i).isCleared hs
  · have hi : d.isUsing i = false := isUsing_eq_false (by simp [hc (by simpa using hs)])
    simpa [hi, hs] using hc

lemma isCleared_own (h : d.Good) {running : ι → Bool} {op : OwnerOp} (hpre : d.OwnPre running op) :
    (d.own running op).IsCleared := by
  cases op with
  | destroy => exact fun _ => rfl
  | lock =>
    have hl : Good { d with phase := .locked } := h.of_cell fun _ => rfl
    have hp := (foldl_cell (lockUsage_actsOn running) hl.nodup_used { d with phase := .locked }).2.1
    refine isCleared_of_isSubscribed ?_
    rw [isSubscribed, show (d.own running .lock).phase = .locked from hp]
    rfl
  | move p => exact isCleared_of_isSubscribed (Phase.isInitializedUnsafe_of_isLocked hpre.1.2)
  | unlock => exact isCleared_of_isSubscribed rfl

end DynDependencies

namespace System

variable {ι : Type*} [DecidableEq ι] {R : Ranking ι} {st : System ι} {i : ι}

lemma stepSet_isCleared {d : DynDependencies ι} (hc : d.IsCleared) (h : d.Good) {op : SetOp ι}
    (hpre : st.SetPre d op) : (st.stepSet op d).IsCleared := by
  cases op with
  | own op => exact DynDependencies.isCleared_own h hpre
  | setHooks hooks => exact hc
  | release exp => exact (d.onReleaseRequest_actsOn exp).isCleared (hc.isSubscribed_of_isUsing hpre)
  | acquireUsage dep =>
    by_cases hl : d.isLocked = true
    · exact (DynDependencies.doAcquireUsage_actsOn hl dep).isCleared
        (Phase.isInitializedUnsafe_of_isLocked hl)
    · simpa [stepSet, DynDependencies.doAcquireUsage, hl] using hc
  | releaseUsage dep =>
    by_cases hl : d.isLocked = true
    · exact (DynDependencies.doReleaseUsage_actsOn hl dep).isCleared
        (Phase.isInitializedUnsafe_of_isLocked hl)
    · simpa [stepSet, DynDependencies.doReleaseUsage, hl] using hc

def SetsCleared (st : System ι) : Prop := ∀ d ∈ st.dynDependencies, d.IsCleared

lemma isSubscribed_onPartInit (interfaces : List ι) (hooks : DependenciesHooks ι) :
    (DynDependencies.onPartInit interfaces hooks).isSubscribed = true := by
  have hfold : ∀ (l : List ι) (d : DynDependencies ι),
      (l.foldl (fun d inter => d.onSubscribedCreated inter) d).isSubscribed = d.isSubscribed := by
    intro l
    induction l with
    | nil => exact fun d => rfl
    | cons a l ih => exact fun d => (ih _).trans (d.processAvailability_actsOn a).isSubscribed
  exact hfold interfaces _

lemma SetsCleared.step (hc : SetsCleared st) (h : SetsGood st) {op : Op ι} (hpre : Pre R st op) :
    SetsCleared (st.step R op) := by
  -- an offer is only made to a part that is subscribed
  have havail : ∀ d ∈ st.dynDependencies, ∀ i,
      (if d.isSubscribed then d.processAvailability i else d).IsCleared := by
    intro d hd i
    split_ifs with hs
    · exact (d.processAvailability_actsOn i).isCleared hs
    · exact hc d hd
  cases op with
  | create i =>
    intro d' hd'
    obtain ⟨d, hd, rfl⟩ := List.mem_map.1 hd'
    exact havail d hd i
  | destroy i =>
    intro d' hd'
    obtain ⟨d, hd, rfl⟩ := List.mem_map.1 hd'
    exact (hc d hd).destroy i
  | start i =>
    intro d' hd'
    obtain ⟨d, hd, rfl⟩ := List.mem_map.1 hd'
    split_ifs with hi
    · have hs := (hc d hd).isSubscribed_of_isUsing (Bool.and_eq_true _ _ ▸ hi).1
      exact (d.onUsedStarted_actsOn i).isCleared hs
    · exact hc d hd
  | unlocked i =>
    intro d' hd'
    obtain ⟨d, hd, rfl⟩ := List.mem_map.1 hd'
    exact havail d hd i
  | addDynDependencies hooks =>
    intro d hd
    rcases List.mem_append.1 hd with hd | hd
    · exact hc d hd
    · obtain rfl := List.mem_singleton.1 hd
      exact DynDependencies.isCleared_of_isSubscribed (isSubscribed_onPartInit _ _)
  | dynDependencies n op =>
    intro d' hd'
    rcases mem_modify hd' with hd | ⟨d, hd, rfl⟩
    · exact hc d' hd
    · obtain ⟨d₁, hd₁, hset⟩ := hpre
      obtain rfl : d = d₁ := by simpa [hd] using hd₁
      have hm := List.mem_of_getElem? hd
      exact stepSet_isCleared (hc d hm) (h d hm) hset
  | stop | addDependency | dependency | addDynDependency | dynDependency => exact hc

lemma SetsCleared.of_reachable {cond : System ι → Op ι → Prop} (h : (machine R).Reachable cond st) :
    SetsCleared st :=
  h.invariant (fun _ hst => by rw [show _ = empty from hst]; exact fun d hd => nomatch hd)
    fun _ _ hr hc hpre _ => hc.step (.of_reachable hr) hpre.2

end System

/-! ### The loop and the steps of the system -/

namespace System

variable {ι : Type*} [DecidableEq ι] {R : Ranking ι} {st st' : System ι} {i j : ι} {u : User ι}
  {l l₁ l₂ : List (User ι)}

omit [DecidableEq ι] in
lemma eq_of_parts (hinterfaces : st.interfaces = st'.interfaces) (halive : st.alive = st'.alive)
    (hrunning : st.running = st'.running)
    (hdep : ∀ n : ℕ, st.dependency[n]? = st'.dependency[n]?)
    (hdyn : ∀ n : ℕ, st.dynDependency[n]? = st'.dynDependency[n]?)
    (hset : ∀ n : ℕ, st.dynDependencies[n]? = st'.dynDependencies[n]?) : st = st' := by
  cases st
  cases st'
  simp only [mk.injEq]
  exact ⟨hinterfaces, halive, hrunning, List.ext_getElem? hdep, List.ext_getElem? hdyn,
    List.ext_getElem? hset⟩

@[simp] lemma alive_foldl_tell : (l.foldl (tell i) st).alive = st.alive := by
  induction l generalizing st with
  | nil => rfl
  | cons u l ih => exact ih.trans (by cases u <;> rfl)

@[simp] lemma running_foldl_tell : (l.foldl (tell i) st).running = st.running := by
  induction l generalizing st with
  | nil => rfl
  | cons u l ih => exact ih.trans (by cases u <;> rfl)

/-- What is known of the users of an interface that may be destroyed. -/
structure Ready (st : System ι) (i : ι) : Prop where
  dependency : ∀ d ∈ st.dependency, d.ref.connected = some i →
    d.isSubscribed = true ∧ d.isLocked = false ∧ d.ref = ⟨some i, some i⟩
  active : ∀ d ∈ st.dynDependency, d.active.connected = some i →
    d.isSubscribed = true ∧ d.isLocked = false ∧ d.satisfied = true ∧
      d.active = ⟨some i, some i⟩
  pref : ∀ d ∈ st.dynDependency, d.pref.connected = some i → d.isLocked = true
  entry : ∀ d ∈ st.dynDependencies, d.isUsing i = true → d.isSubscribed = true
  keys : ∀ d ∈ st.dynDependencies, d.keys.Nodup
  unregistered : i ∉ st.interfaces.erase i

lemma Ready.of_reachable [IsStrictWeakOrder ι R.Greater]
    (h : (machine R).Reachable (fun _ _ => True) st) (hrun : st.running i = false) :
    st.Ready i where
  dependency d hd hc := by
    have hsound := DependenciesSound.of_reachable h d hd
    have hptr := hsound.connected_eq ▸ hc
    refine ⟨hsound.isSubscribed_of_connected hc, ?_, Link.eq_mk hsound.connected_eq hptr⟩
    by_contra hl
    have := hsound.running (by simpa using hl) i hptr
    simp [hrun] at this
  active d hd hc := by
    have hw := AllWired.of_reachable h d hd
    have hptr := hw.active_connected ▸ hc
    have hs : d.isSubscribed = true := by
      by_contra hn
      simp [hw.unsubscribed (by simpa using hn)] at hptr
    refine ⟨hs, ?_, by simp [hw.satisfied hs, hptr], Link.eq_mk hw.active_connected hptr⟩
    by_contra hl
    have := hw.active_running (by simpa using hl) i hptr
    simp [hrun] at this
  pref d hd hc := by
    have hw := AllWired.of_reachable h d hd
    exact hw.isLocked_of_pref (by simp [hw.pref_connected ▸ hc])
  entry d hd hu := (SetsCleared.of_reachable h d hd).isSubscribed_of_isUsing hu
  keys d hd := (SetsGood.of_reachable h d hd).nodup_keys
  unregistered := (Registered.of_reachable h).sorted.nodup.not_mem_erase

namespace Ready

lemma leaving (h : st.Ready i) (hl : l.Perm (st.dependentUsers i)) :
    (st.withdraw i).Leaving i l where
  unregistered := h.unregistered
  nodup := hl.nodup_iff.2 nodup_dependentUsers
  target u hu := mem_dependentUsers.1 (hl.subset hu)
  held n hn := by
    obtain ⟨d, hd, hc⟩ := Option.bind_eq_some_iff.1 (mem_dependentUsers.1 (hl.subset hn))
    simp [isHeld, withdraw, hd, h.pref d (List.mem_of_getElem? hd) hc]
  keys := h.keys

lemma loose (h : st.Ready i) (hpref : ∀ d ∈ st.dynDependency, d.pref.connected ≠ some i)
    (hu : st.target u = some i) : (st.withdraw i).Loose i u := by
  cases u with
  | ref n =>
    obtain ⟨d, hd, hc⟩ := Option.bind_eq_some_iff.1 hu
    exact ⟨d, hd, h.dependency d (List.mem_of_getElem? hd) hc⟩
  | active n =>
    obtain ⟨d, hd, hc⟩ := Option.bind_eq_some_iff.1 hu
    exact ⟨d, hd, h.active d (List.mem_of_getElem? hd) hc⟩
  | pref n =>
    obtain ⟨d, hd, hc⟩ := Option.bind_eq_some_iff.1 hu
    exact absurd hc (hpref d (List.mem_of_getElem? hd))
  | entry n used =>
    obtain rfl := used_eq_of_target hu
    obtain ⟨d, hd, hc⟩ := Option.bind_eq_some_iff.1 hu
    split_ifs at hc with hu
    exact ⟨rfl, d, hd, h.entry d (List.mem_of_getElem? hd) hu, hu⟩

/-- What the destruction does to a `DynDependency`, as `tell` has it. -/
lemma foldl_onUsedDestroy (h : st.Ready i) {d : DynDependency ι} (hd : d ∈ st.dynDependency)
    (is : List ι) : (d.usagesOf i).foldl (fun d _ => d.onUsedDestroy is) d =
      if d.active.connected = some i then d.onUsedDestroy is else d := by
  by_cases hl : d.isLocked = true
  · have hfix : ∀ l : List (Link ι), l.foldl (fun d _ => d.onUsedDestroy is) d = d := by
      intro l
      induction l with
      | nil => rfl
      | cons a l ih => simpa [DynDependency.onUsedDestroy, hl] using ih
    rw [hfix, if_neg]
    intro hc
    exact absurd ((h.active d hd hc).2.1.symm.trans hl) Bool.false_ne_true
  · have hpref : d.pref.connected ≠ some i := fun hc => hl (h.pref d hd hc)
    split_ifs with hc <;> simp [DynDependency.usagesOf, hpref, hc]

/-- Every user is told, and no default is created. -/
lemma foldl_tell_eq (h : st.Ready i) (hl : l.Perm (st.dependentUsers i)) :
    (l.foldl (tell i) (st.withdraw i)).callSubscribedDestroyed i = st.step R (.destroy i) := by
  have hleave := h.leaving hl
  have hmem : ∀ u, u ∈ l ↔ st.target u = some i := fun u => hl.mem_iff.trans mem_dependentUsers
  refine eq_of_parts (by simp [step, onInterfaceDestroy, withdraw])
    (by simp [step, onInterfaceDestroy, withdraw]) (by simp [step, onInterfaceDestroy, withdraw])
    (fun n => ?_) (fun n => ?_) fun n => ?_
  · rw [dependency_callSubscribedDestroyed, dependency_foldl_tell hleave.nodup]
    simp only [step, onInterfaceDestroy, List.getElem?_map, withdraw]
    cases hd : st.dependency[n]? with
    | none => rfl
    | some d =>
      simp only [hmem, target, hd, Option.bind_some]
      rfl
  · rw [dynDependency_callSubscribedDestroyed, dynDependency_foldl_tell hleave.nodup hleave.held]
    simp only [step, onInterfaceDestroy, List.getElem?_map, withdraw]
    cases hd : st.dynDependency[n]? with
    | none => rfl
    | some d =>
      simp only [hmem, target, hd, Option.bind_some, Option.map_some]
      rw [h.foldl_onUsedDestroy (List.mem_of_getElem? hd)]
  · simp only [callSubscribedDestroyed, List.getElem?_map]
    rw [dynDependencies_foldl_tell hleave.nodup hleave.used]
    simp only [step, onInterfaceDestroy, List.getElem?_map, withdraw]
    cases hd : st.dynDependencies[n]? with
    | none => rfl
    | some d =>
      simp only [hmem, target, hd, Option.bind_some, Option.map_some]
      by_cases hu : d.isUsing i = true <;> simp [hu]

end Ready

end System

namespace DynDependencies

variable {ι : Type*} [DecidableEq ι] {i j : ι}
  {F : DynDependencies ι → DynDependencies ι}

/-- The new interface and the end of the other one do not meet. -/
lemma apart_created (hF : Apart F j) (d : DynDependencies ι) :
    F (if d.isSubscribed then d.onSubscribedCreated j else d) =
      if (F d).isSubscribed then (F d).onSubscribedCreated j else F d := by
  have hs : (F d).isSubscribed = d.isSubscribed := by rw [isSubscribed, hF.phase, isSubscribed]
  rw [hs]
  split_ifs
  · exact hF.processAvailability d
  · rfl

lemma subscribedDestroy_apart (h : j ≠ i) :
    Apart (fun d => if d.isSubscribed then d.onSubscribedDestroy i else d) j :=
  (erase_apart h).ite h fun phase _ => phase.isInitializedUnsafe = true

end DynDependencies

namespace System

variable {ι : Type*} [DecidableEq ι] {R : Ranking ι} {st : System ι} {l₁ l₂ : List (User ι)}
  {e : Ending ι}

namespace Ready

/-- A user that is told before the default is published takes it then. One that is told after that
has taken it already or takes it now. -/
lemma told_eq {α : Type*} (a : α) (told told' created : α → α) {m₁ m₂ m : Prop} [Decidable m₁]
    [Decidable m₂] [Decidable m] {g : Bool} (hm : m ↔ m₁ ∨ m₂) (hdisj : m₁ → ¬m₂)
    (h : m → created (told a) = told' a ∧ created a = if g then told' a else a) :
    (if m₂ ∧ g = false then told' (created (if m₁ then told a else a))
      else created (if m₁ then told a else a)) = created (if m then told a else a) := by
  by_cases h₁ : m₁
  · simp [h₁, hdisj h₁, hm]
  · by_cases h₂ : m₂
    · obtain ⟨ht, hc⟩ := h (hm.2 (.inr h₂))
      cases g <;> simp_all
    · simp [h₁, h₂, hm]

/-- Every user is told, and a default is published meanwhile. -/
lemma foldl_tell_create_eq (h : st.Ready e.inter)
    (hpref : ∀ d ∈ st.dynDependency, d.pref.connected ≠ some e.inter)
    (hl : (l₁ ++ l₂).Perm (st.dependentUsers e.inter)) (hempty : st.interfaces.erase e.inter = [])
    (hne : e.created ≠ e.inter) :
    ((l₂.filter (DestroyLoop.stays R e)).foldl (tell e.inter)
        ((l₁.foldl (tell e.inter) (st.withdraw e.inter)).step R
          (.create e.created))).callSubscribedDestroyed e.inter =
      (st.step R (.destroy e.inter)).step R (.create e.created) := by
  have hleave := h.leaving hl
  have hleave₁ := hleave.mono (List.sublist_append_left l₁ l₂)
  have hleave₂ := (hleave.mono (List.sublist_append_right l₁ l₂)).mono
    (List.filter_sublist (p := DestroyLoop.stays R e))
  have hdisj := (List.nodup_append.1 hleave.nodup).2.2
  have hmem : ∀ u, st.target u = some e.inter ↔ u ∈ l₁ ∨ u ∈ l₂ := fun u => by
    rw [← mem_dependentUsers, ← hl.mem_iff, List.mem_append]
  have hnopref : ∀ n, .pref n ∉ l₁ ++ l₂ := by
    intro n hn
    obtain ⟨d, hd, hc⟩ := Option.bind_eq_some_iff.1 (mem_dependentUsers.1 (hl.subset hn))
    exact hpref d (List.mem_of_getElem? hd) hc
  have hpref₂ : ∀ {st' : System ι} n, .pref n ∈ l₂.filter (DestroyLoop.stays R e) →
      st'.isHeld (.pref n : User ι) = true := fun n hn =>
    absurd (List.mem_append_right _ (List.mem_of_mem_filter hn)) (hnopref n)
  have hinterfaces : ((l₁.foldl (tell e.inter) (st.withdraw e.inter)).step R
      (.create e.created)).interfaces = [e.created] := by
    simp [step, onInterfaceCreate, withdraw, hempty, Ranking.insertSorted]
  -- part by part: each one is told before the publication, after it or not at all
  refine eq_of_parts ?_ ?_ ?_ (fun n => ?_) (fun n => ?_) fun n => ?_
  · rw [interfaces_callSubscribedDestroyed, interfaces_foldl_tell, hinterfaces]
    simp [step, onInterfaceCreate, onInterfaceDestroy, hempty, Ranking.insertSorted]
  · simp [step, onInterfaceCreate, onInterfaceDestroy, withdraw]
  · simp [step, onInterfaceCreate, onInterfaceDestroy, withdraw]
  · rw [dependency_callSubscribedDestroyed, dependency_foldl_tell hleave₂.nodup, hinterfaces]
    simp only [step, onInterfaceCreate, onInterfaceDestroy, List.getElem?_map,
      dependency_foldl_tell hleave₁.nodup, List.mem_filter, DestroyLoop.stays, User.isEntry,
      Bool.or_false, Bool.not_eq_eq_eq_not, Bool.not_true, withdraw, hempty]
    cases hd : st.dependency[n]? with
    | none => rfl
    | some d =>
      simp only [Option.map_some]
      refine congrArg some (told_eq d (·.onUsedDestroy []) (·.onUsedDestroy [e.created])
        (fun d => if d.isSubscribed then d.onSubscribedCreated R e.created else d)
        ((hmem (.ref n)).symm.trans ?_).symm (fun h₁ h₂ => hdisj _ h₁ _ h₂ rfl) fun hc => ?_)
      · simp [target, hd]
      · -- told before or after, it comes to use the new interface
        obtain ⟨hs, hl, href⟩ := h.dependency d (List.mem_of_getElem? hd) hc
        have hs' : (d.onUsedDestroy []).isSubscribed = true := hs
        simp only [hs, hs', if_true]
        exact ⟨Dependency.onSubscribedCreated_onUsedDestroy hl,
          Dependency.onSubscribedCreated_of_ptr hl (congrArg Link.ptr href)⟩
  · rw [dynDependency_callSubscribedDestroyed, dynDependency_foldl_tell hleave₂.nodup hpref₂,
      hinterfaces]
    simp only [step, onInterfaceCreate, onInterfaceDestroy, List.getElem?_map]
    rw [dynDependency_foldl_tell hleave₁.nodup hleave₁.held]
    simp only [List.mem_filter, DestroyLoop.stays, User.isEntry, Bool.or_false,
      Bool.not_eq_eq_eq_not, Bool.not_true, running_foldl_tell, withdraw, hempty]
    cases hd : st.dynDependency[n]? with
    | none => rfl
    | some d =>
      simp only [Option.map_some]
      rw [h.foldl_onUsedDestroy (List.mem_of_getElem? hd)]
      refine congrArg some (told_eq d (·.onUsedDestroy []) (·.onUsedDestroy [e.created])
        (fun d => if d.isSubscribed then
          d.onSubscribedCreated R e.created (st.running e.created) else d)
        ((hmem (.active n)).symm.trans ?_).symm (fun h₁ h₂ => hdisj _ h₁ _ h₂ rfl) fun hc => ?_)
      · simp [target, hd]
      · obtain ⟨hs, hl, hsat, hactive⟩ := h.active d (List.mem_of_getElem? hd) hc
        have hs' : (d.onUsedDestroy []).isSubscribed = true := by
          rw [DynDependency.isSubscribed, DynDependency.phase_onUsedDestroy]
          exact hs
        simp only [hs, hs', if_true]
        exact ⟨DynDependency.onSubscribedCreated_onUsedDestroy hl hsat,
          DynDependency.onSubscribedCreated_of_ptr hl hsat (congrArg Link.ptr hactive)⟩
  · simp only [callSubscribedDestroyed, List.getElem?_map]
    rw [dynDependencies_foldl_tell hleave₂.nodup fun n used hu => hleave.used n used
      (List.mem_append_right _ (List.mem_of_mem_filter hu))]
    simp only [step, onInterfaceCreate, onInterfaceDestroy, List.getElem?_map]
    rw [dynDependencies_foldl_tell hleave₁.nodup hleave₁.used]
    simp only [List.mem_filter, DestroyLoop.stays, User.isEntry, Bool.or_true, and_true, withdraw]
    cases hd : st.dynDependencies[n]? with
    | none => rfl
    | some d =>
      have hm : d.isUsing e.inter = true ↔ .entry n e.inter ∈ l₁ ∨ .entry n e.inter ∈ l₂ := by
        rw [← hmem]
        simp [target, hd]
      have hnot : .entry n e.inter ∈ l₁ → .entry n e.inter ∉ l₂ := fun h₁ h₂ =>
        hdisj _ h₁ _ h₂ rfl
      have hused := DynDependencies.apart_created (DynDependencies.onUsedDestroy_apart hne)
      have herase := DynDependencies.apart_created (DynDependencies.subscribedDestroy_apart hne)
      simp only [Option.map_some, Option.some.injEq]
      -- the entries of the two interfaces are apart, so the order does not matter
      by_cases h₁ : .entry n e.inter ∈ l₁
      · simp only [h₁, hnot h₁, if_true, if_false, hm.2 (.inl h₁)]
        exact herase _
      · by_cases h₂ : .entry n e.inter ∈ l₂
        · simp only [h₁, h₂, if_true, if_false, hm.2 (.inr h₂)]
          rw [hused]
          exact herase _
        · have hu : ¬d.isUsing e.inter = true := fun h => (hm.1 h).elim h₁ h₂
          simp only [h₁, h₂, if_false, hu]
          exact herase _

end Ready

end System

/-! ### Runs with defaults -/

namespace System

variable {ι : Type*} [DecidableEq ι] {E : Defaults ι} {R : Ranking ι} {st : System ι}
  {e : Ending ι} {i j : ι}

lemma isHeld_withdraw {u : User ι} : (st.withdraw i).isHeld u = st.isHeld u := by
  cases u <;> rfl

lemma endInterface_eq {w : DestroyLoop ι} {fuel : ℕ}
    (h : stableForEach DestroyLoop.next (DestroyLoop.usedDestroy E R e) fuel (st.startLoop e)
      e.users.head? = some w) :
    st.endInterface E R e fuel =
      some { w with system := w.system.callSubscribedDestroyed e.inter } := by
  rw [endInterface]
  exact congrArg (Option.map _) h

/-- The fuel does not decide what the loop leads to. -/
lemma endInterface_unique {w w' : DestroyLoop ι} {fuel fuel' : ℕ}
    (h : st.endInterface E R e fuel = some w) (h' : st.endInterface E R e fuel' = some w') :
    w = w' := by
  obtain ⟨v, hv, rfl⟩ := Option.map_eq_some_iff.1 h
  obtain ⟨v', hv', rfl⟩ := Option.map_eq_some_iff.1 h'
  rw [stableForEach_unique hv hv']

variable [IsStrictWeakOrder ι R.Greater]

/-- No locked part is left when the registry gets empty, so no usage is a preferred one. -/
lemma pref_ne_of_erase_eq_nil (h : (machine R).Reachable (fun _ _ => True) st)
    (hrun : st.running i = false) (hempty : st.interfaces.erase i = []) :
    ∀ d ∈ st.dynDependency, d.pref.connected ≠ some i := by
  intro d hd hc
  have hw := AllWired.of_reachable h d hd
  have hreg := Registered.of_reachable h
  have hl := hw.isLocked_of_pref (by simp [hw.pref_connected ▸ hc])
  obtain ⟨a, ha⟩ := Option.isSome_iff_exists.1 (hw.active_of_isLocked hl)
  have hrunning := hw.active_running hl a ha
  have hai : a ≠ i := by
    rintro rfl
    simp [hrun] at hrunning
  have hmem := (List.mem_erase_of_ne hai).2 ((hreg.mem_iff a).2 (hreg.alive a hrunning))
  rw [hempty] at hmem
  cases hmem

/-- The loop ends, and what it has done is the end of the interface and, if a default is created,
the publication after that. -/
theorem exists_endInterface (h : (machine R).Reachable (fun _ _ => True) st)
    (hpre : st.EndPre E R e) (hkeep : ¬st.Strays E R e) :
    ∃ w, st.endInterface E R e e.users.length = some w ∧
      w.users e.inter = e.users.filter (st.isHeld ·) ∧
      w.system = if st.CreatesDefault E e then
        (st.step R (.destroy e.inter)).step R (.create e.created)
      else st.step R (.destroy e.inter) := by
  obtain ⟨⟨halive, hrun⟩, husers, hsub, hfresh⟩ := hpre
  have hready := Ready.of_reachable h hrun
  have hleave := hready.leaving husers
  have hwusers : (st.startLoop e).users e.inter = e.users := Function.update_self ..
  by_cases hcreate : st.CreatesDefault E e
  · obtain ⟨hempty, hdefault, hex⟩ := hcreate
    obtain ⟨l₁, u, l, hsplit, h₁, hu⟩ := Defaults.exists_creator hex
    have hpref := pref_ne_of_erase_eq_nil h hrun hempty
    have hloose : ∀ v ∈ e.users, (st.withdraw e.inter).Loose e.inter v := fun v hv =>
      hready.loose hpref (mem_dependentUsers.1 (husers.subset hv))
    -- the loop goes on at a usage that the default does not take along
    have hstays : ∀ v ∈ l.head?, DestroyLoop.stays R e v = true := by
      intro v hv
      by_contra hs
      simp only [DestroyLoop.stays, Bool.not_eq_true, Bool.or_eq_false_iff, Bool.not_eq_eq_eq_not,
        Bool.not_false] at hs
      refine hkeep ⟨⟨hempty, hdefault, hex⟩, hs.1, v, ?_, hs.2⟩
      rw [hsplit, Defaults.behindCreator_append h₁ hu]
      exact hv
    have hne : e.created ≠ e.inter := by
      have hnew := (hfresh ⟨hempty, hdefault, hex⟩).2.1
      rintro he
      rw [he, halive] at hnew
      cases hnew
    obtain ⟨w, hloop, hsystem, hw⟩ := DestroyLoop.exists_stableForEach (E := E) (R := R) hempty
      hdefault hne hsplit h₁ hu hleave hloose
      (fun v hv => hsub.mem_iff.2 (hloose v hv).part_mem) hstays rfl hwusers
    refine ⟨_, endInterface_eq hloop, ?_, ?_⟩
    · refine hw.trans (List.filter_eq_nil_iff.2 fun v hv => ?_).symm
      simpa [isHeld_withdraw] using (hloose v hv).isHeld
    · rw [if_pos ⟨hempty, hdefault, hex⟩, hsystem]
      refine Ready.foldl_tell_create_eq hready hpref ?_ hempty hne
      rwa [List.append_assoc, List.singleton_append, ← hsplit]
  · -- no test for a default succeeds, so the loop only tells
    have hno : ∀ u ∈ e.users, ((st.withdraw e.inter).interfaces.isEmpty &&
        !E.isDefaultCreated e.inter && E.hasDefaultOf u) = false := by
      intro u hu
      by_contra hn
      simp only [Bool.not_eq_false, Bool.and_eq_true, List.isEmpty_iff, Bool.not_eq_true'] at hn
      exact hcreate ⟨hn.1.1, hn.1.2, u, hu, hn.2⟩
    obtain ⟨hloop, hsystem, hw⟩ := DestroyLoop.stableForEach_usedDestroy (R := R) []
      hleave (w := st.startLoop e) rfl hno (by simpa using hwusers)
      (by simpa using hleave.nodup) 0
    rw [List.append_nil, Nat.add_zero] at hloop
    refine ⟨_, endInterface_eq (hloop.trans rfl), ?_, ?_⟩
    · simpa only [isHeld_withdraw, List.append_nil] using hw
    · rw [if_neg hcreate, hsystem, hready.foldl_tell_eq husers]

omit [IsStrictWeakOrder ι R.Greater] in
/-- The default is still new when the interface has ended. -/
lemma IsFresh.pre_create (h : st.IsFresh E R j) (hempty : st.interfaces.erase i = []) :
    Pre R (st.step R (.destroy i)) (.create j) := by
  refine ⟨?_, ?_⟩
  · by_cases hji : j = i
    · simp [step, onInterfaceDestroy, hji]
    · simpa [step, onInterfaceDestroy, hji] using h.2.1
  · simp [step, onInterfaceDestroy, hempty]

omit [IsStrictWeakOrder ι R.Greater] in
lemma IsUp.destroy (h : st.IsUp) (hready : st.Ready i) : (st.step R (.destroy i)).IsUp := by
  intro d' hd'
  obtain ⟨d, hd, rfl⟩ := List.mem_map.1 hd'
  rw [hready.foldl_onUsedDestroy hd]
  split_ifs
  · rw [DynDependency.aborted_onUsedDestroy]
    exact h d hd
  · exact h d hd

omit [IsStrictWeakOrder ι R.Greater] in
lemma IsUp.addDynDependency (h : st.IsUp) (canSwap : Option ι → Option ι → Bool) :
    (st.step R (.addDynDependency canSwap)).IsUp := by
  intro d hd
  rcases List.mem_append.1 hd with hd | hd
  · exact h d hd
  · obtain rfl := List.mem_singleton.1 hd
    unfold DynDependency.onPartInit
    cases st.interfaces <;> rfl

omit [IsStrictWeakOrder ι R.Greater] in
lemma reachable_step {op : Op ι} (h : (machine R).Reachable (fun _ _ => True) st) (hup : st.IsUp)
    (hpre : Pre R st op) : (machine R).Reachable (fun _ _ => True) (st.step R op) :=
  h.step ⟨hup, hpre⟩ trivial

/-- A run with defaults that keeps to its lists is one of the system. -/
lemma reachable_of_withDefaults
    (h : (withDefaults E R).Reachable (KeepsList E R) st) :
    (machine R).Reachable (fun _ _ => True) st := by
  induction h with
  | init h => exact .init h
  | @step st op _ hpre hkeep ih =>
    obtain ⟨hup, hpre⟩ := hpre
    have hinit : ∀ {st' : System ι} {part created}, (machine R).Reachable (fun _ _ => True) st' →
        st'.IsUp → (st'.interfaces = [] → E.hasDefault part = true →
          Pre R st' (.create created)) →
        (machine R).Reachable (fun _ _ => True) (st'.initDefault E R part created) := by
      intro st' part created hr hup hfresh
      unfold initDefault
      split_ifs with hc
      · obtain ⟨he, hd⟩ := (Bool.and_eq_true _ _).mp hc
        exact reachable_step hr hup (hfresh (List.isEmpty_iff.1 he) hd)
      · exact hr
    cases op with
    | plain op => exact reachable_step ih hup hpre.2
    | addDependency created =>
      have hadd : Pre R st .addDependency := trivial
      exact hinit (reachable_step ih hup hadd) hup fun he hd => (hpre he hd).2
    | addDynDependency canSwap created =>
      have hadd : Pre R st (.addDynDependency canSwap) := trivial
      exact hinit (reachable_step ih hup hadd) (hup.addDynDependency canSwap)
        fun he hd => (hpre he hd).2
    -- the end of an interface is one operation, or two if it makes a default
    | destroy e fuel =>
      obtain ⟨w, hw, -, hsystem⟩ := exists_endInterface ih hpre.1 hkeep
      obtain ⟨w', hw'⟩ := Option.isSome_iff_exists.1 hpre.2
      have hdestroy := reachable_step ih hup hpre.1.1
      change (machine R).Reachable _ ((st.endInterface E R e fuel).elim st (·.system))
      rw [hw', ← endInterface_unique hw hw', Option.elim_some, hsystem]
      split_ifs with hc
      · exact reachable_step hdestroy (hup.destroy (.of_reachable ih hpre.1.1.2))
          ((hpre.1.2.2.2 hc).pre_create hc.1)
      · exact hdestroy

/-! ### What is left of an interface -/

/-- No part refers to the interface, neither through a connected usage nor by what it points to. -/
structure Forgets (st : System ι) (i : ι) : Prop where
  dependency : ∀ d ∈ st.dependency, d.ref.ptr ≠ some i ∧ d.ref.connected ≠ some i
  dynDependency : ∀ d ∈ st.dynDependency, (d.active.ptr ≠ some i ∧ d.active.connected ≠ some i) ∧
    d.pref.ptr ≠ some i ∧ d.pref.connected ≠ some i
  dynDependencies : ∀ d ∈ st.dynDependencies, i ∉ d.keys ∧ i ∉ d.used

omit [IsStrictWeakOrder ι R.Greater] in
/-- What the destruction leaves a `DynDependency` with. -/
lemma dynDependency_destroy {d : DynDependency ι} {running : ι → Bool} {interfaces : List ι}
    (hw : d.Wired running) (hrun : running i = false) (hi : i ∉ interfaces) :
    let d' := (d.usagesOf i).foldl (fun d _ => d.onUsedDestroy interfaces) d
    d'.active.ptr ≠ some i ∧ d'.pref.ptr = d.pref.ptr := by
  rw [hw.foldl_onUsedDestroy]
  by_cases ha : d.isLocked = false ∧ d.active.ptr = some i
  · rw [if_pos ha]
    refine ⟨fun hf => hi ?_, rfl⟩
    exact List.mem_of_mem_head? (l := interfaces) hf
  · rw [if_neg ha]
    refine ⟨fun hp => ?_, rfl⟩
    by_cases hl : d.isLocked = true
    · have := hw.active_running hl i hp
      simp [hrun] at this
    · exact ha ⟨by simpa using hl, hp⟩

omit [IsStrictWeakOrder ι R.Greater] in
/-- A new interface does not bring the old one back. -/
lemma Forgets.create (h : st.Forgets i) (hgood : SetsGood (st.step R (.create j))) (hji : j ≠ i) :
    (st.step R (.create j)).Forgets i := by
  have hnew : (⟨some j, some j⟩ : Link ι).ptr ≠ some i ∧
      (⟨some j, some j⟩ : Link ι).connected ≠ some i :=
    ⟨fun e => hji (Option.some.inj e), fun e => hji (Option.some.inj e)⟩
  refine ⟨fun d' hd' => ?_, fun d' hd' => ?_, fun d' hd' => ?_⟩
  · obtain ⟨d, hd, rfl⟩ := List.mem_map.1 hd'
    split_ifs
    · rcases d.ref_onSubscribedCreated (R := R) j with e | e
      · exact e ▸ h.dependency d hd
      · exact e ▸ hnew
    · exact h.dependency d hd
  · obtain ⟨d, hd, rfl⟩ := List.mem_map.1 hd'
    split_ifs
    · constructor
      · rcases d.active_onSubscribedCreated (R := R) j (st.running j) with e | e
        · exact e ▸ (h.dynDependency d hd).1
        · exact e ▸ hnew
      · rcases d.pref_onSubscribedCreated (R := R) j (st.running j) with e | e
        · exact e ▸ (h.dynDependency d hd).2
        · exact e ▸ hnew
    · exact h.dynDependency d hd
  · have hkeys : i ∉ d'.keys := by
      obtain ⟨d, hd, rfl⟩ := List.mem_map.1 hd'
      have hd := (h.dynDependencies d hd).1
      split_ifs
      · have hcell := (d.processAvailability_actsOn j).2.2 i
        rw [if_neg hji.symm] at hcell
        rwa [DynDependencies.onSubscribedCreated, DynDependencies.mem_keys_iff, hcell,
          ← DynDependencies.mem_keys_iff]
      · exact hd
    exact ⟨hkeys, fun hu => hkeys (DynDependencies.mem_keys_iff.2
      ((hgood d' hd' i).keys_pos (DynDependencies.mem_used_iff.1 hu)))⟩

/-- The users of `i` have gone, except those that a locked part prefers. -/
lemma forgets_destroy (h : (machine R).Reachable (fun _ _ => True) st) (hup : st.IsUp)
    (hpre : Pre R st (.destroy i)) (hpref : ∀ d ∈ st.dynDependency, d.pref.ptr ≠ some i) :
    (st.step R (.destroy i)).Forgets i := by
  have hreach := reachable_step h hup hpre
  have hgone : i ∉ (st.step R (.destroy i)).interfaces :=
    (Registered.of_reachable h).sorted.nodup.not_mem_erase
  have hdep := DependenciesSound.of_reachable hreach
  have hdyn := AllWired.of_reachable hreach
  have hset := SetsGood.of_reachable hreach
  refine ⟨fun d hd => ?_, fun d' hd' => ?_, fun d' hd' => ?_⟩
  · have hptr : d.ref.ptr ≠ some i := by
      intro hp
      by_cases hs : d.isSubscribed = true
      · exact hgone (((hdep d hd).follows hs).registered i hp)
      · simp [(hdep d hd).empty (by simpa using hs)] at hp
    exact ⟨hptr, (hdep d hd).connected_eq ▸ hptr⟩
  · have hw := hdyn d' hd'
    obtain ⟨d, hd, rfl⟩ := List.mem_map.1 hd'
    obtain ⟨ha, hp⟩ := dynDependency_destroy (AllWired.of_reachable h d hd) hpre.2 hgone
    have hp := hp ▸ hpref d hd
    exact ⟨⟨ha, hw.active_connected ▸ ha⟩, hp, hw.pref_connected ▸ hp⟩
  · have hkeys : i ∉ d'.keys := by
      obtain ⟨d, hd, rfl⟩ := List.mem_map.1 hd'
      exact (SetsCleared.of_reachable h d hd).not_mem_destroy (SetsGood.of_reachable h d hd) i
    exact ⟨hkeys, fun hu => hkeys (DynDependencies.mem_keys_iff.2
      ((hset d' hd' i).keys_pos (DynDependencies.mem_used_iff.1 hu)))⟩

/-- Once `onInterfaceDestroy` has returned, the list of the interface is empty and no part refers to
it. -/
structure IsForgotten (w : DestroyLoop ι) (i : ι) : Prop where
  users : w.users i = []
  system : w.system.Forgets i

/-- As long as no loop leaves its list, `onInterfaceDestroy` returns, and the interface is forgotten
provided that no part preferred it. -/
theorem destroy_isForgotten_iff (h : (withDefaults E R).Reachable (KeepsList E R) st)
    (hup : st.IsUp) (hpre : st.EndPre E R e) (hkeep : ¬st.Strays E R e) :
    (∃ fuel, (st.endInterface E R e fuel).isSome = true) ∧
      ∀ fuel, ∀ w ∈ st.endInterface E R e fuel,
        IsForgotten w e.inter ↔ ∀ d ∈ st.dynDependency, d.pref.ptr ≠ some e.inter := by
  have hreach := reachable_of_withDefaults h
  obtain ⟨w, hw, husers, hsystem⟩ := exists_endInterface hreach hpre hkeep
  refine ⟨⟨_, Option.isSome_iff_exists.2 ⟨w, hw⟩⟩, fun fuel w' hw' => ?_⟩
  obtain rfl := endInterface_unique hw hw'
  have hmem : ∀ u, u ∈ e.users ↔ st.target u = some e.inter := fun u =>
    hpre.2.1.mem_iff.trans mem_dependentUsers
  constructor
  · -- the usage of a preferred interface stays in the list
    intro hf d hd hp
    have hwired := AllWired.of_reachable hreach d hd
    obtain ⟨n, hn⟩ := List.mem_iff_getElem?.1 hd
    have hl := hwired.isLocked_of_pref (by simp [hp])
    have hmem : .pref n ∈ e.users.filter (st.isHeld ·) :=
      List.mem_filter.2 ⟨(hmem _).2 (by simp [target, hn, hwired.pref_connected, hp]),
        by simp [isHeld, hn, hl]⟩
    rw [← husers, hf.users] at hmem
    cases hmem
  · intro hpref
    have hforget := forgets_destroy hreach hup hpre.1 hpref
    refine ⟨?_, ?_⟩
    · rw [husers, List.filter_eq_nil_iff]
      intro u hu hheld
      have hready := Ready.of_reachable hreach hpre.1.2
      cases u with
      | active n =>
        obtain ⟨d, hd, hc⟩ := Option.bind_eq_some_iff.1 ((hmem _).1 hu)
        have hl := (hready.active d (List.mem_of_getElem? hd) hc).2.1
        simp [isHeld, hd, hl] at hheld
      | pref n =>
        obtain ⟨d, hd, hc⟩ := Option.bind_eq_some_iff.1 ((hmem _).1 hu)
        have hd := List.mem_of_getElem? hd
        exact hpref d hd ((AllWired.of_reachable hreach d hd).pref_connected ▸ hc)
      | ref | entry => cases hheld
    · rw [hsystem]
      split_ifs with hc
      · have hcreate := (hpre.2.2.2 hc).pre_create (i := e.inter) hc.1
        have hne : e.created ≠ e.inter := by
          have hnew := (hpre.2.2.2 hc).2.1
          rintro he
          rw [he, hpre.1.1] at hnew
          cases hnew
        have hr := reachable_step (reachable_step hreach hup hpre.1)
          (hup.destroy (.of_reachable hreach hpre.1.2)) hcreate
        exact hforget.create (.of_reachable hr) hne
      · exact hforget

/-- No part has a default. -/
def noDefaults : Defaults Nat := ⟨fun _ => false, fun _ => false⟩

/-- The preferred interface of a locked part is destroyed. -/
def danglingRun : List (DefaultOp Nat) :=
  [.plain (.create 1), .plain (.start 1), .addDynDependency (fun _ _ => true) 0,
    .plain (.dynDependency 0 (.own .lock)), .plain (.dynDependency 0 (.own (.move .running))),
    .plain (.create 2)]

theorem danglingRun_destroy :
    let st := danglingRun.foldl (withDefaults noDefaults .byNumber).step empty
    let e : Ending Nat := ⟨2, [.pref 0], [.dynDependency 0], 0⟩
    (withDefaults noDefaults .byNumber).Reachable (fun _ _ => True) st ∧ st.IsUp ∧
      st.EndPre noDefaults .byNumber e ∧
      ∃ w ∈ st.endInterface noDefaults .byNumber e 1, ¬IsForgotten w 2 := by
  refine ⟨.run (.init rfl) (by decide), by decide, by decide, _, rfl, fun hf => ?_⟩
  exact absurd hf.users (by decide)

/-- Dependencies create defaults, whose interfaces are the even ones. -/
def evenDefaults : Defaults Nat := ⟨fun p => p matches .dependency _, fun i => i % 2 == 0⟩

/-- Two dependencies and a set use the interface that is destroyed. -/
def usedRun : List (DefaultOp Nat) :=
  [.plain (.create 1), .addDependency 0, .addDependency 0,
    .plain (.addDynDependencies eagerHooks)]

/-- The first dependency publishes the default 2, which the second one prefers: the loop goes on
among the users of 2. -/
theorem usedRun_strays :
    let st := usedRun.foldl (withDefaults evenDefaults .byNumber).step empty
    let e : Ending Nat :=
      ⟨1, [.ref 0, .ref 1, .entry 0 1], [.dependency 0, .dependency 1, .dynDependencies 0], 2⟩
    st.EndPre evenDefaults .byNumber e ∧ (∀ d ∈ st.dynDependency, d.pref.ptr ≠ some 1) ∧
      ∃ w ∈ st.endInterface evenDefaults .byNumber e 4, ¬IsForgotten w 1 := by
  refine ⟨by decide, by decide, _, rfl, fun hf => ?_⟩
  exact absurd hf.users (by decide)

/-- No user prefers the default 0. -/
theorem destroy_isForgotten_iff_usedRun :
    let st := usedRun.foldl (withDefaults evenDefaults .byNumber).step empty
    let e : Ending Nat :=
      ⟨1, [.ref 0, .ref 1, .entry 0 1], [.dependency 0, .dependency 1, .dynDependencies 0], 0⟩
    st.CreatesDefault evenDefaults e ∧
      ∃ w ∈ st.endInterface evenDefaults .byNumber e 3, IsForgotten w 1 := by
  have hreach : (withDefaults evenDefaults .byNumber).Reachable (KeepsList evenDefaults .byNumber)
      (usedRun.foldl (withDefaults evenDefaults .byNumber).step empty) :=
    .run (.init rfl) (by decide)
  have hiff := (destroy_isForgotten_iff hreach (by decide)
    (e := ⟨1, [.ref 0, .ref 1, .entry 0 1], [.dependency 0, .dependency 1, .dynDependencies 0], 0⟩)
    (by decide) (by decide)).2 3
  exact ⟨by decide, _, rfl, (hiff _ rfl).2 (by decide)⟩

end System

end Idle
