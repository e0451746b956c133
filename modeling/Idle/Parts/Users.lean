import Idle.Parts.Defaults

/-!
# The loop over the users

What the loop of `onInterfaceDestroy` leads to: it tells each usage of its list once, and it stays
in the list as long as the usage that it comes to next is not taken out by the publication of a
default.
-/

namespace Idle

variable {ι : Type*}

/-! ### Telling the users -/

namespace System

variable [DecidableEq ι] {st : System ι} {i j : ι} {u v : User ι} {l : List (User ι)}

omit [DecidableEq ι] in
lemma mem_parts_iff {p : PartId} : p ∈ st.parts ↔ match p with
    | .dependency n => n < st.dependency.length
    | .dynDependency n => n < st.dynDependency.length
    | .dynDependencies n => n < st.dynDependencies.length := by
  cases p <;> simp [parts]

lemma used_eq_of_target {n : ℕ} (h : st.target (.entry n j) = some i) : j = i := by
  obtain ⟨d, -, h⟩ := Option.bind_eq_some_iff.1 h
  split_ifs at h
  exact Option.some.inj h

lemma mem_dependentUsers : u ∈ st.dependentUsers i ↔ st.target u = some i := by
  simp only [dependentUsers, List.mem_filter, List.mem_flatMap, decide_eq_true_eq,
    and_iff_right_iff_imp]
  intro h
  refine ⟨u.part, mem_parts_iff.2 ?_, User.mem_ofPart.2 ⟨rfl, ?_⟩⟩
  · cases u with
    | _ =>
      obtain ⟨d, hd, -⟩ := Option.bind_eq_some_iff.1 h
      exact (List.getElem?_eq_some_iff.1 hd).1
  · rintro n used rfl
    exact used_eq_of_target h

omit [DecidableEq ι] in
lemma nodup_parts : st.parts.Nodup := by
  have hinj : ∀ {f : ℕ → PartId} (n : ℕ), Function.Injective f → ((List.range n).map f).Nodup :=
    fun n hf => List.nodup_range.map hf
  refine (((hinj _ fun a b h => ?_).append (hinj _ fun a b h => ?_) ?_).append
    (hinj _ fun a b h => ?_) ?_)
  · exact PartId.dependency.inj h
  · exact PartId.dynDependency.inj h
  · simp [List.disjoint_left]
  · exact PartId.dynDependencies.inj h
  · simp only [List.disjoint_left, List.mem_append, List.mem_map]
    rintro p (⟨n, -, rfl⟩ | ⟨n, -, rfl⟩) ⟨m, -, h⟩ <;> cases h

lemma nodup_dependentUsers : (st.dependentUsers i).Nodup := by
  refine (List.nodup_flatMap.2 ⟨fun p _ => ?_, nodup_parts.imp fun {p q} hpq => ?_⟩).filter _
  · cases p <;> simp [User.ofPart]
  · exact fun u hp hq => hpq ((User.mem_ofPart.1 hp).1.symm.trans (User.mem_ofPart.1 hq).1)

end System



namespace System

variable [DecidableEq ι] {st st' : System ι} {i j : ι} {u v : User ι} {l : List (User ι)}

@[simp] lemma interfaces_tell : (st.tell i u).interfaces = st.interfaces := by
  cases u <;> rfl

@[simp] lemma interfaces_foldl_tell : (l.foldl (tell i) st).interfaces = st.interfaces := by
  induction l generalizing st with
  | nil => rfl
  | cons u l ih => exact ih.trans interfaces_tell

lemma isHeld_tell : (st.tell i u).isHeld v = st.isHeld v := by
  have hmodify : ∀ n m : ℕ, ((st.dynDependency.modify n (·.onUsedDestroy st.interfaces))[m]?.any
      DynDependency.isLocked) = st.dynDependency[m]?.any DynDependency.isLocked := by
    intro n m
    rw [List.getElem?_modify]
    cases st.dynDependency[m]? with
    | none => rfl
    | some d =>
      by_cases hn : n = m <;> simp [hn, DynDependency.isLocked, DynDependency.phase_onUsedDestroy]
  cases v <;> cases u <;> first | rfl | exact hmodify _ _

@[simp] lemma isHeld_foldl_tell : (l.foldl (tell i) st).isHeld v = st.isHeld v := by
  induction l generalizing st with
  | nil => rfl
  | cons u l ih => exact ih.trans isHeld_tell

/-- Each part of the loop is told once, by its own usage. -/
lemma foldl_tell_map {α : Type*} (get : System ι → Option α) {f : α → α} {x : User ι}
    {P : System ι → Prop} (hl : l.Nodup) (hP : P st) (hPtell : ∀ st u, P st → P (st.tell i u))
    (htell : ∀ st u, P st → u ∈ l →
      get (st.tell i u) = (get st).map fun a => if u = x then f a else a) :
    get (l.foldl (tell i) st) = (get st).map fun a => if x ∈ l then f a else a := by
  induction l generalizing st with
  | nil => simp
  | cons u l ih =>
    obtain ⟨hu, hl⟩ := List.nodup_cons.1 hl
    rw [List.foldl_cons, ih hl (hPtell st u hP) fun st v hP hv =>
      htell st v hP (List.mem_cons_of_mem _ hv), htell st u hP List.mem_cons_self, Option.map_map]
    congr 1
    funext a
    by_cases hx : u = x
    · subst hx
      simp [hu]
    · simp [hx, Ne.symm hx]

lemma dependency_foldl_tell (hl : l.Nodup) (n : ℕ) :
    (l.foldl (tell i) st).dependency[n]? = st.dependency[n]?.map fun d =>
      if .ref n ∈ l then d.onUsedDestroy st.interfaces else d := by
  refine foldl_tell_map (fun st => st.dependency[n]?)
    (P := fun st' => st'.interfaces = st.interfaces) hl rfl (fun _ _ h => interfaces_tell.trans h)
    fun st' u h _ => ?_
  cases u with
  | ref m =>
    simp only [tell, List.getElem?_modify, h, User.ref.injEq]
    rfl
  | _ => simp [tell]

lemma dynDependencies_foldl_tell (hl : l.Nodup) (hused : ∀ n used, .entry n used ∈ l → used = i)
    (n : ℕ) :
    (l.foldl (tell i) st).dynDependencies[n]? = st.dynDependencies[n]?.map fun d =>
      if .entry n i ∈ l then d.onUsedDestroy i else d := by
  refine foldl_tell_map (fun st => st.dynDependencies[n]?) (P := fun _ => True) hl trivial
    (fun _ _ _ => trivial) fun st' u _ hu => ?_
  cases u with
  | entry m used =>
    obtain rfl := hused m used hu
    simp only [tell, List.getElem?_modify, User.entry.injEq, and_true]
    rfl
  | _ => simp [tell]

/-- The preferred usages belong to locked parts, which do not react. -/
lemma dynDependency_foldl_tell (hl : l.Nodup)
    (hpref : ∀ n, .pref n ∈ l → st.isHeld (.pref n : User ι) = true) (n : ℕ) :
    (l.foldl (tell i) st).dynDependency[n]? = st.dynDependency[n]?.map fun d =>
      if .active n ∈ l then d.onUsedDestroy st.interfaces else d := by
  refine foldl_tell_map (fun st => st.dynDependency[n]?) (P := fun st' =>
      st'.interfaces = st.interfaces ∧ ∀ v, st'.isHeld v = st.isHeld v) hl ⟨rfl, fun _ => rfl⟩
    (fun _ _ h => ⟨interfaces_tell.trans h.1, fun v => isHeld_tell.trans (h.2 v)⟩)
    fun st' u h hu => ?_
  cases u with
  | active m =>
    simp only [tell, List.getElem?_modify, h.1, User.active.injEq]
    rfl
  | pref m =>
    have hm := (h.2 (.pref m)).trans (hpref m hu)
    simp only [tell, List.getElem?_modify, reduceCtorEq, if_false, Option.map_id']
    cases hd : st'.dynDependency[n]? with
    | none => rfl
    | some d =>
      by_cases hmn : m = n
      · subst hmn
        have hl : d.isLocked = true := by simpa [isHeld, hd] using hm
        simp [DynDependency.onUsedDestroy, hl]
      · simp [hmn]
  | _ => simp [tell]

/-- A locked `DynDependency` does not react. -/
lemma tell_of_isHeld (h : st.isHeld u = true) : st.tell i u = st := by
  have hmodify : ∀ n : ℕ, st.dynDependency[n]?.any DynDependency.isLocked = true →
      st.dynDependency.modify n (·.onUsedDestroy st.interfaces) = st.dynDependency := by
    intro n hn
    refine List.ext_getElem? fun m => ?_
    rw [List.getElem?_modify]
    cases hd : st.dynDependency[m]? with
    | none => rfl
    | some d =>
      by_cases hnm : n = m
      · subst hnm
        have hl : d.isLocked = true := by simpa [hd] using hn
        simp [DynDependency.onUsedDestroy, hl]
      · simp [hnm]
  cases u with
  | active n | pref n => simp only [tell, hmodify n h]
  | ref | entry => cases h

/-- A usage that has not been told stays where it is. -/
lemma target_foldl_tell (hl : l.Nodup) (hused : ∀ n used, .entry n used ∈ l → used = i)
    (hpref : ∀ n, .pref n ∈ l → st.isHeld (.pref n : User ι) = true) (hu : u ∉ l)
    (ht : st.target u = some i) : (l.foldl (tell i) st).target u = some i := by
  cases u with
  | ref n => simpa [target, dependency_foldl_tell hl, hu] using ht
  | active n => simpa [target, dynDependency_foldl_tell hl hpref, hu] using ht
  | pref n =>
    obtain ⟨d, hd, ht⟩ := Option.bind_eq_some_iff.1 ht
    simp only [target, dynDependency_foldl_tell hl hpref, hd, Option.map_some, Option.bind_some]
    split_ifs
    · rw [DynDependency.pref_onUsedDestroy, ht]
    · exact ht
  | entry n used =>
    obtain rfl := used_eq_of_target ht
    simpa [target, dynDependencies_foldl_tell hl hused, hu] using ht

/-- A usage that is told leaves the interface, which is not registered any more. -/
lemma target_tell (hi : i ∉ st.interfaces) (hkeys : ∀ d ∈ st.dynDependencies, d.keys.Nodup)
    (hheld : st.isHeld u = false) (hpref : ∀ n, u ≠ .pref n) (ht : st.target u = some i) :
    (st.tell i u).target u ≠ some i := by
  have hhead : st.interfaces.head? ≠ some i := fun h => hi (List.mem_of_mem_head? h)
  cases u with
  | ref n =>
    obtain ⟨d, hd, -⟩ := Option.bind_eq_some_iff.1 ht
    simp only [tell, target, List.getElem?_modify, hd, if_true, Option.map_eq_map, Option.map_some,
      Option.bind_some]
    rwa [Dependency.ref_onUsedDestroy]
  | active n =>
    obtain ⟨d, hd, -⟩ := Option.bind_eq_some_iff.1 ht
    have hl : d.isLocked = false := by simpa [isHeld, hd] using hheld
    simp only [tell, target, List.getElem?_modify, hd, if_true, Option.map_eq_map, Option.map_some,
      Option.bind_some]
    rwa [DynDependency.active_onUsedDestroy hl]
  | pref n => exact absurd rfl (hpref n)
  | entry n used =>
    obtain rfl := used_eq_of_target ht
    obtain ⟨d, hd, -⟩ := Option.bind_eq_some_iff.1 ht
    have hnot : used ∉ (d.onUsedDestroy used).keys := by
      rw [DynDependencies.keys_onUsedDestroy]
      exact (hkeys d (List.mem_of_getElem? hd)).not_mem_erase
    simp only [tell, target, List.getElem?_modify, hd, if_true, Option.map_eq_map, Option.map_some,
      Option.bind_some]
    change ¬(if (d.onUsedDestroy used).isUsing used then _ else _) = _
    simp [DynDependencies.isUsing, hnot]

/-- Usages of an interface that the registry does not hold any more. -/
structure Leaving (st : System ι) (i : ι) (l : List (User ι)) : Prop where
  unregistered : i ∉ st.interfaces
  nodup : l.Nodup
  target : ∀ u ∈ l, st.target u = some i
  held : ∀ n, .pref n ∈ l → st.isHeld (.pref n : User ι) = true
  keys : ∀ d ∈ st.dynDependencies, d.keys.Nodup

namespace Leaving

lemma used (h : Leaving st i l) : ∀ n used, .entry n used ∈ l → used = i :=
  fun _ _ hu => used_eq_of_target (h.target _ hu)

lemma mono {l' : List (User ι)} (h : Leaving st i l) (hl : l'.Sublist l) : Leaving st i l' :=
  ⟨h.unregistered, hl.nodup h.nodup, fun u hu => h.target u (hl.subset hu),
    fun n hn => h.held n (hl.subset hn), h.keys⟩

/-- Those that have been told leave the other ones alone. -/
lemma foldl_tell {l₁ l₂ : List (User ι)} (h : Leaving st i (l₁ ++ l₂)) :
    Leaving (l₁.foldl (tell i) st) i l₂ := by
  have h₁ := h.mono (List.sublist_append_left l₁ l₂)
  have h₂ := h.mono (List.sublist_append_right l₁ l₂)
  have hdisj := (List.nodup_append.1 h.nodup).2.2
  refine ⟨by simpa using h.unregistered, h₂.nodup, fun u hu => ?_, fun n hn => ?_, ?_⟩
  · exact target_foldl_tell h₁.nodup h₁.used h₁.held (fun hu₁ => hdisj u hu₁ u hu rfl)
      (h₂.target u hu)
  · exact isHeld_foldl_tell.trans (h₂.held n hn)
  · intro d' hd'
    obtain ⟨n, hn⟩ := List.mem_iff_getElem?.1 hd'
    rw [dynDependencies_foldl_tell h₁.nodup h₁.used] at hn
    obtain ⟨d, hd, rfl⟩ := Option.map_eq_some_iff.1 hn
    have hk := h.keys d (List.mem_of_getElem? hd)
    split_ifs
    · exact DynDependencies.keys_onUsedDestroy d i ▸ hk.erase i
    · exact hk

end Leaving

end System

namespace DestroyLoop

variable [DecidableEq ι] {E : Defaults ι} {R : Ranking ι} {e : Ending ι} {w : DestroyLoop ι}
  {l rest kept : List (User ι)}

/-- An unlocked part, or a set, takes its usage out of the list. -/
lemma relink_tell (kept rest : List (User ι)) {u : User ι}
    (hleave : w.system.Leaving e.inter (u :: l))
    (hheld : w.system.isHeld u = false) (husers : w.users e.inter = kept ++ u :: (l ++ rest))
    (hnd : (w.users e.inter).Nodup) :
    u.dropped = u ∧
      (w.relink (w.system.tell e.inter u) [u]).users e.inter = kept ++ (l ++ rest) := by
  have hu := List.mem_cons_self (a := u) (l := l)
  have hpref : ∀ n, u ≠ .pref n := by
    rintro n rfl
    simp [hleave.held n hu] at hheld
  have htarget := System.target_tell hleave.unregistered hleave.keys hheld hpref
    (hleave.target u hu)
  rw [husers] at hnd
  obtain ⟨-, hcons, hdisj⟩ := List.nodup_append.1 hnd
  obtain ⟨hrest, -⟩ := List.nodup_cons.1 hcons
  have hfilter : ∀ l' : List (User ι), u ∉ l' → l'.filter (fun v => v ∉ [u]) = l' := fun l' h =>
    List.filter_eq_self.2 fun v hv => by
      have : v ≠ u := fun e => h (e ▸ hv)
      simpa using this
  have hkept : u ∉ kept := fun h => hdisj u h u List.mem_cons_self rfl
  have hout : [u].filter (fun v => (w.system.tell e.inter u).target v = some e.inter) = [] := by
    simp [htarget]
  refine ⟨?_, ?_⟩
  · cases u with
    | pref n => exact absurd rfl (hpref n)
    | _ => rfl
  · simp only [relink, husers]
    rw [hout, List.filter_append, List.filter_cons_of_neg (by simp), hfilter kept hkept,
      hfilter _ hrest, List.append_nil]

/-- One call, in which no default is created. -/
lemma usedDestroy_eq {u : User ι} (hleave : w.system.Leaving e.inter (u :: l))
    (hno : createsDefault E e w u = false)
    (husers : w.users e.inter = kept ++ u :: (l ++ rest)) (hnd : (w.users e.inter).Nodup) :
    (usedDestroy E R e w u).system = w.system.tell e.inter u ∧
      (usedDestroy E R e w u).users e.inter =
        kept ++ [u].filter (w.system.isHeld ·) ++ (l ++ rest) := by
  by_cases hheld : w.system.isHeld u = true
  · rw [usedDestroy, if_pos hheld, System.tell_of_isHeld hheld, husers]
    simp [hheld]
  · have hheld : w.system.isHeld u = false := by simpa using hheld
    obtain ⟨hdropped, hrelink⟩ := relink_tell kept rest hleave hheld husers hnd
    rw [usedDestroy, if_neg (by simp [hheld])]
    simp only [hno, Bool.false_eq_true, if_false, hdropped]
    refine ⟨rfl, ?_⟩
    rw [hrelink]
    simp [hheld]

/-- The loop runs through usages for which no default is created. -/
lemma stableForEach_usedDestroy (rest : List (User ι)) {st : System ι}
    (hleave : st.Leaving e.inter l) (hw : w.system = st)
    (hno : ∀ u ∈ l, (st.interfaces.isEmpty && !E.isDefaultCreated e.inter && E.hasDefaultOf u) =
      false) (husers : w.users e.inter = l ++ rest) (hnd : (l ++ rest).Nodup) (n : ℕ) :
    stableForEach next (usedDestroy E R e) (l.length + n) w (l ++ rest).head? =
        stableForEach next (usedDestroy E R e) n (l.foldl (usedDestroy E R e) w) rest.head? ∧
      (l.foldl (usedDestroy E R e) w).system = l.foldl (System.tell e.inter) st ∧
      (l.foldl (usedDestroy E R e) w).users e.inter = l.filter (st.isHeld ·) ++ rest := by
  -- the invariant: `l₁` was told and left, apart from what is held, and `l₂` still stands
  let ahead (w : DestroyLoop ι) (l₂ : List (User ι)) : Prop :=
    ∃ l₁, l₁ ++ l₂ = l ∧ w.system = l₁.foldl (System.tell e.inter) st ∧
      w.users e.inter = l₁.filter (st.isHeld ·) ++ (l₂ ++ rest)
  have hleft : ∀ {w u l₂}, ahead w (u :: l₂) → w.system.Leaving e.inter (u :: l₂) ∧
      (w.users e.inter).Nodup := by
    rintro w u l₂ ⟨l₁, rfl, hsystem, husers⟩
    refine ⟨hsystem ▸ hleave.foldl_tell, husers ▸ hnd.sublist ?_⟩
    rw [List.append_assoc]
    exact List.filter_sublist.append_right _
  have hnext : ∀ w u l₂, ahead w (u :: l₂) → next w u = (l₂ ++ rest).head? := by
    intro w u l₂ hahead
    obtain ⟨hl, hn⟩ := hleft hahead
    obtain ⟨l₁, -, -, husers⟩ := hahead
    rw [next, hl.target u List.mem_cons_self, Option.bind_some, husers]
    rw [husers] at hn
    exact congrArg List.head? hn.after_append_cons
  have hcall : ∀ w u l₂, ahead w (u :: l₂) → ahead (usedDestroy E R e w u) l₂ := by
    intro w u l₂ hahead
    obtain ⟨hl, hn⟩ := hleft hahead
    obtain ⟨l₁, rfl, hsystem, husers⟩ := hahead
    have hcreate : createsDefault E e w u = false := by
      have := hno u (by simp)
      rwa [createsDefault, hsystem, System.interfaces_foldl_tell]
    obtain ⟨hs, hu⟩ := usedDestroy_eq (R := R) hl hcreate husers hn
    refine ⟨l₁ ++ [u], by simp, ?_, ?_⟩
    · rw [hs, hsystem, List.foldl_append]
      rfl
    · have hheld : ∀ v, w.system.isHeld v = st.isHeld v := fun v => by
        rw [hsystem, System.isHeld_foldl_tell]
      simp only [hu, hheld, List.filter_append]
  have hahead : ahead w l := ⟨[], rfl, hw, husers⟩
  obtain ⟨l₁, hl₁, hsystem, husers⟩ := ahead_foldl hcall hahead
  rw [List.append_nil] at hl₁
  subst hl₁
  exact ⟨stableForEach_append hnext hcall hahead n, hsystem, husers⟩

end DestroyLoop

namespace DynDependencies

variable [DecidableEq ι] {d : DynDependencies ι} {i j : ι}

lemma isUsing_processAvailability (h : j ≠ i) :
    (d.processAvailability j).isUsing i = d.isUsing i := by
  have hcell := (d.processAvailability_actsOn j).2.2 i
  rw [if_neg h.symm] at hcell
  have hkeys : i ∈ (d.processAvailability j).keys ↔ i ∈ d.keys := by
    rw [mem_keys_iff, mem_keys_iff, hcell]
  have husage : (d.processAvailability j).usage i = d.usage i := congrArg Cell.usage hcell
  simp only [isUsing, hkeys, husage]

lemma nodup_keys_processAvailability (h : d.keys.Nodup) : (d.processAvailability j).keys.Nodup := by
  have hinsert : ∀ flags, (d.insert j flags).keys.Nodup := by
    intro flags
    unfold insert
    split_ifs with hj
    · exact h
    · exact List.nodup_append.2 ⟨h, List.nodup_singleton j, fun a ha b hb => by
        rw [List.mem_singleton.1 hb]
        exact fun e => hj (e ▸ ha)⟩
  have hstorage : ∀ d : DynDependencies ι, (d.usageInsertIntoStorage j).keys = d.keys := by
    intro d
    unfold usageInsertIntoStorage
    split_ifs <;> rfl
  unfold processAvailability
  dsimp only
  split_ifs
  · exact h
  · exact hinsert _
  · exact hinsert _
  · cases (d.insert j (d.hooks.onInspect j)).hooks.onUseOffer j with
    | useNowAndInsert => exact (hstorage _).symm ▸ hinsert _
    | _ => exact hinsert _

end DynDependencies

namespace System

variable [DecidableEq ι] {R : Ranking ι} {st : System ι} {i j : ι} {u : User ι}
  {l : List (User ι)}

/-- A usage of `i` whose part reacts to the registry: one of an unlocked part, or an entry. -/
def Loose (st : System ι) (i : ι) : User ι → Prop
  | .ref n => ∃ d, st.dependency[n]? = some d ∧ d.isSubscribed = true ∧ d.isLocked = false ∧
      d.ref = ⟨some i, some i⟩
  | .active n => ∃ d, st.dynDependency[n]? = some d ∧ d.isSubscribed = true ∧
      d.isLocked = false ∧ d.satisfied = true ∧ d.active = ⟨some i, some i⟩
  | .pref _ => False
  | .entry n used => used = i ∧ ∃ d, st.dynDependencies[n]? = some d ∧ d.isSubscribed = true ∧
      d.isUsing i = true

namespace Loose

lemma target (h : st.Loose i u) : st.target u = some i := by
  cases u with
  | ref n =>
    obtain ⟨d, hd, -, -, href⟩ := h
    simp [System.target, hd, href]
  | active n =>
    obtain ⟨d, hd, -, -, -, hactive⟩ := h
    simp [System.target, hd, hactive]
  | pref n => exact h.elim
  | entry n used =>
    obtain ⟨rfl, d, hd, -, hu⟩ := h
    simp [System.target, hd, hu]

/-- The part has subscribed. -/
lemma part_mem (h : st.Loose i u) : u.part ∈ st.subscribers := by
  refine List.mem_filter.2 ⟨mem_parts_iff.2 ?_, ?_⟩
  · cases u with
    | ref n | active n =>
      obtain ⟨d, hd, -⟩ := h
      exact (List.getElem?_eq_some_iff.1 hd).1
    | pref n => exact h.elim
    | entry n used =>
      obtain ⟨-, d, hd, -⟩ := h
      exact (List.getElem?_eq_some_iff.1 hd).1
  · cases u with
    | ref n | active n =>
      obtain ⟨d, hd, hs, -⟩ := h
      simp [User.part, isSubscribed, hd, hs]
    | pref n => exact h.elim
    | entry n used =>
      obtain ⟨-, d, hd, hs, -⟩ := h
      simp [User.part, isSubscribed, hd, hs]

lemma isHeld (h : st.Loose i u) : st.isHeld u = false := by
  cases u with
  | active n =>
    obtain ⟨d, hd, -, hl, -⟩ := h
    simp [System.isHeld, hd, hl]
  | pref n => exact h.elim
  | _ => rfl

lemma foldl_tell (h : st.Loose i u) (hl : l.Nodup)
    (hused : ∀ n used, .entry n used ∈ l → used = i)
    (hpref : ∀ n, .pref n ∈ l → st.isHeld (.pref n : User ι) = true) (hu : u ∉ l) :
    (l.foldl (tell i) st).Loose i u := by
  cases u with
  | ref n =>
    obtain ⟨d, hd, h⟩ := h
    exact ⟨d, by simp [dependency_foldl_tell hl, hd, hu], h⟩
  | active n =>
    obtain ⟨d, hd, h⟩ := h
    exact ⟨d, by simp [dynDependency_foldl_tell hl hpref, hd, hu], h⟩
  | pref n => exact h
  | entry n used =>
    obtain ⟨rfl, d, hd, h⟩ := h
    exact ⟨rfl, d, by simp [dynDependencies_foldl_tell hl hused, hd, hu], h⟩

/-- A new interface takes those usages along that prefer it; sets keep the old one beside it. -/
lemma target_create (h : st.Loose i u) (hij : j ≠ i) :
    (st.step R (.create j)).target u =
      if R.greater j i && !u.isEntry then some j else some i := by
  cases u with
  | ref n =>
    obtain ⟨d, hd, hs, hl, href⟩ := h
    simp only [System.target, step, onInterfaceCreate, List.getElem?_map, hd, Option.map_some, hs,
      if_true, Option.bind_some, d.onSubscribedCreated_of_ptr hl (congrArg Link.ptr href),
      User.isEntry, Bool.not_false, Bool.and_true]
    split_ifs
    · rfl
    · rw [href]
  | active n =>
    obtain ⟨d, hd, hs, hl, hsat, hactive⟩ := h
    simp only [System.target, step, onInterfaceCreate, List.getElem?_map, hd, Option.map_some, hs,
      if_true, Option.bind_some,
      DynDependency.onSubscribedCreated_of_ptr hl hsat (congrArg Link.ptr hactive),
      User.isEntry, Bool.not_false, Bool.and_true]
    split_ifs
    · rw [DynDependency.active_onUsedDestroy hl]
      rfl
    · rw [hactive]
  | pref n => exact h.elim
  | entry n used =>
    obtain ⟨rfl, d, hd, hs, hu⟩ := h
    simp [System.target, step, onInterfaceCreate, hd, hs, User.isEntry,
      DynDependencies.onSubscribedCreated, DynDependencies.isUsing_processAvailability hij, hu]

end Loose

omit [DecidableEq ι] in
lemma connected_of_map {α : Type*} {as : List α} {f : α → α} {g : α → Link ι} {n : ℕ}
    (hij : j ≠ i) (hf : ∀ a, g (f a) = g a ∨ g (f a) = ⟨some j, some j⟩)
    (h : (as.map f)[n]?.bind (fun a => (g a).connected) = some i) :
    as[n]?.bind (fun a => (g a).connected) = some i := by
  obtain ⟨a', ha', h⟩ := Option.bind_eq_some_iff.1 h
  rw [List.getElem?_map] at ha'
  obtain ⟨a, ha, rfl⟩ := Option.map_eq_some_iff.1 ha'
  refine Option.bind_eq_some_iff.2 ⟨a, ha, ?_⟩
  rcases hf a with e | e
  · rwa [e] at h
  · rw [e] at h
    exact absurd (Option.some.inj h) hij

lemma isHeld_create : (st.step R (.create j)).isHeld u = st.isHeld u := by
  have hmap : ∀ n : ℕ, (st.step R (.create j)).dynDependency[n]?.any DynDependency.isLocked =
      st.dynDependency[n]?.any DynDependency.isLocked := by
    intro n
    simp only [step, onInterfaceCreate, List.getElem?_map]
    cases st.dynDependency[n]? with
    | none => rfl
    | some d =>
      simp only [Option.map_some, Option.any_some]
      split_ifs
      · rw [DynDependency.isLocked, DynDependency.phase_onSubscribedCreated]
        rfl
      · rfl
  cases u <;> first | rfl | exact hmap _

/-- A new interface brings no usage to another one. -/
lemma target_of_create (hij : j ≠ i) (h : (st.step R (.create j)).target u = some i) :
    st.target u = some i := by
  cases u with
  | ref n =>
    refine connected_of_map (g := Dependency.ref) hij (fun d => ?_) h
    split_ifs
    · exact d.ref_onSubscribedCreated j
    · exact .inl rfl
  | active n =>
    refine connected_of_map (g := DynDependency.active) hij (fun d => ?_) h
    split_ifs
    · exact d.active_onSubscribedCreated j _
    · exact .inl rfl
  | pref n =>
    refine connected_of_map (g := DynDependency.pref) hij (fun d => ?_) h
    split_ifs
    · exact d.pref_onSubscribedCreated j _
    · exact .inl rfl
  | entry n used =>
    obtain rfl := used_eq_of_target h
    obtain ⟨d', hd', h⟩ := Option.bind_eq_some_iff.1 h
    rw [step, onInterfaceCreate, List.getElem?_map] at hd'
    obtain ⟨d, hd, rfl⟩ := Option.map_eq_some_iff.1 hd'
    refine Option.bind_eq_some_iff.2 ⟨d, hd, ?_⟩
    split_ifs at h with hs hu hu
    · rw [if_pos]
      rwa [DynDependencies.onSubscribedCreated,
        DynDependencies.isUsing_processAvailability hij] at hu
    · rw [if_pos hu]

end System

namespace Defaults

variable {E : Defaults ι} {l₁ l : List (User ι)} {u : User ι}

lemma behindCreator_append (h₁ : ∀ u ∈ l₁, E.hasDefaultOf u = false)
    (hu : E.hasDefaultOf u = true) : E.behindCreator (l₁ ++ u :: l) = l.head? := by
  induction l₁ with
  | nil => simp [behindCreator, hu]
  | cons v l₁ ih =>
    rw [List.cons_append, behindCreator, if_neg (by simp [h₁ v List.mem_cons_self])]
    exact ih fun w hw => h₁ w (List.mem_cons_of_mem _ hw)

lemma exists_creator (h : ∃ u ∈ l, E.hasDefaultOf u = true) :
    ∃ l₁ u l₂, l = l₁ ++ u :: l₂ ∧ (∀ u ∈ l₁, E.hasDefaultOf u = false) ∧
      E.hasDefaultOf u = true := by
  induction l with
  | nil => simp at h
  | cons v l ih =>
    by_cases hv : E.hasDefaultOf v = true
    · exact ⟨[], v, l, rfl, by simp, hv⟩
    · have hv : E.hasDefaultOf v = false := by simpa using hv
      obtain ⟨l₁, u, l₂, rfl, h₁, hu⟩ := ih (by simpa [hv] using h)
      refine ⟨v :: l₁, u, l₂, rfl, fun w hw => ?_, hu⟩
      rcases List.mem_cons.1 hw with rfl | hw
      · exact hv
      · exact h₁ w hw

end Defaults

namespace DestroyLoop

variable [DecidableEq ι] {E : Defaults ι} {R : Ranking ι} {e : Ending ι} {w : DestroyLoop ι}
  {l₁ l : List (User ι)} {u : User ι}

/-- The usages that stay in the list when a default is published. -/
def stays (R : Ranking ι) (e : Ending ι) (u : User ι) : Bool :=
  !R.greater e.created e.inter || u.isEntry

lemma users_setDefault (hne : e.created ≠ e.inter)
    (hloose : ∀ u ∈ w.users e.inter, w.system.Loose e.inter u)
    (hsub : ∀ u ∈ w.users e.inter, u.part ∈ e.subscribers) :
    (w.setDefault R e).users e.inter = (w.users e.inter).filter (stays R e) := by
  let st := w.system.step R (.create e.created)
  let moved := (e.subscribers.flatMap (User.ofPart e.created)).filter fun u =>
    st.target u ≠ w.system.target u
  have hmoved : ∀ u, u ∈ moved ↔ u ∈ e.subscribers.flatMap (User.ofPart e.created) ∧
      st.target u ≠ w.system.target u := fun u => by simp [moved]
  -- what has moved uses the new interface
  have hout : moved.filter (fun u => st.target u = some e.inter) = [] := by
    refine List.filter_eq_nil_iff.2 fun u hu ht => ((hmoved u).1 hu).2 ?_
    have ht := of_decide_eq_true ht
    rw [ht, System.target_of_create hne ht]
  change (w.users e.inter).filter (fun u => u ∉ moved) ++ moved.filter _ = _
  rw [hout, List.append_nil]
  refine List.filter_congr fun u hu => ?_
  have hu' := hloose u hu
  have htarget := hu'.target_create (R := R) hne
  rw [Bool.eq_iff_iff, decide_eq_true_eq, hmoved, hu'.target, htarget]
  cases he : u.isEntry with
  | true => simp [stays, he]
  | false =>
    have hmem : u ∈ e.subscribers.flatMap (User.ofPart e.created) := by
      refine List.mem_flatMap.2 ⟨u.part, hsub u hu, User.mem_ofPart.2 ⟨rfl, ?_⟩⟩
      rintro n used rfl
      cases he
    cases hg : R.greater e.created e.inter <;> simp [stays, he, hg, hmem, hne]

/-- The loop stays in its list when the usage behind the one whose part creates a default does. -/
lemma exists_stableForEach {st : System ι} (hempty : st.interfaces = [])
    (hdefault : E.isDefaultCreated e.inter = false) (hne : e.created ≠ e.inter)
    (husers : e.users = l₁ ++ u :: l) (h₁ : ∀ v ∈ l₁, E.hasDefaultOf v = false)
    (hu : E.hasDefaultOf u = true) (hleave : st.Leaving e.inter e.users)
    (hloose : ∀ v ∈ e.users, st.Loose e.inter v) (hsub : ∀ v ∈ e.users, v.part ∈ e.subscribers)
    (hstays : ∀ v ∈ l.head?, stays R e v = true) (hw : w.system = st)
    (hwusers : w.users e.inter = e.users) :
    ∃ w', stableForEach next (usedDestroy E R e) e.users.length w e.users.head? = some w' ∧
      w'.system = (l.filter (stays R e)).foldl (System.tell e.inter)
        (((l₁ ++ [u]).foldl (System.tell e.inter) st).step R (.create e.created)) ∧
      w'.users e.inter = [] := by
  rw [husers] at hleave hloose hsub hwusers ⊢
  have hnot : ∀ v ∈ l₁, st.isHeld v = false := fun v hv =>
    (hloose v (List.mem_append_left _ hv)).isHeld
  -- up to the one that creates the default
  have hlen : (l₁ ++ u :: l).length = l₁.length + (l.length + 1) := by simp
  obtain ⟨hloop, hsystem, hwusers₁⟩ := stableForEach_usedDestroy (E := E) (R := R) (u :: l)
    (hleave.mono (List.sublist_append_left _ _)) hw
    (fun v hv => by simp [h₁ v hv]) hwusers hleave.nodup (l.length + 1)
  rw [hlen, hloop]
  set w₁ := l₁.foldl (usedDestroy E R e) w
  rw [List.filter_eq_nil_iff.2 (by simpa using hnot), List.nil_append] at hwusers₁
  have hleave₁ : w₁.system.Leaving e.inter (u :: l) := hsystem ▸ hleave.foldl_tell
  have hnd := hleave.nodup
  have hloose₁ : w₁.system.Loose e.inter u := by
    have hl₁ := hleave.mono (List.sublist_append_left l₁ (u :: l))
    rw [hsystem]
    exact (hloose u (by simp)).foldl_tell hl₁.nodup hl₁.used hl₁.held fun h =>
      (List.nodup_append.1 hnd).2.2 u h u List.mem_cons_self rfl
  have hnext : next w₁ u = l.head? := by
    have hnd₁ : ([] ++ u :: l).Nodup := hleave₁.nodup
    rw [next, hloose₁.target, Option.bind_some, hwusers₁]
    exact congrArg List.head? hnd₁.after_append_cons
  rw [List.head?_cons, stableForEach, hnext]
  -- the publication of the default
  have hcreate : createsDefault E e w₁ u = true := by
    simp [createsDefault, hsystem, hempty, hdefault, hu]
  obtain ⟨hdropped, hrelink⟩ := relink_tell [] [] (by simpa using hleave₁)
    hloose₁.isHeld (by simpa using hwusers₁) (hwusers₁ ▸ hleave₁.nodup)
  have hcall : usedDestroy E R e w₁ u =
      (w₁.relink (w₁.system.tell e.inter u) [u]).setDefault R e := by
    rw [usedDestroy, if_neg (by simp [hloose₁.isHeld]), hdropped]
    exact if_pos hcreate
  have htold : w₁.system.tell e.inter u = (l₁ ++ [u]).foldl (System.tell e.inter) st := by
    rw [List.foldl_append, ← hsystem]
    rfl
  have happend : l₁ ++ u :: l = (l₁ ++ [u]) ++ l := by simp
  rw [happend] at hleave hloose hnd hsub
  have hl₁ := hleave.mono (List.sublist_append_left (l₁ ++ [u]) l)
  have hloose₂ : ∀ v ∈ l, (w₁.system.tell e.inter u).Loose e.inter v := fun v hv => by
    rw [htold]
    exact (hloose v (List.mem_append_right _ hv)).foldl_tell hl₁.nodup hl₁.used hl₁.held fun h =>
      (List.nodup_append.1 hnd).2.2 v h v hv rfl
  have husers₂ : (usedDestroy E R e w₁ u).users e.inter = l.filter (stays R e) := by
    rw [hcall, users_setDefault hne, hrelink, List.nil_append, List.append_nil]
    · rw [hrelink]
      exact fun v hv => hloose₂ v (by simpa using hv)
    · rw [hrelink]
      exact fun v hv => hsub v (List.mem_append_right _ (by simpa using hv))
  have hsystem₂ : (usedDestroy E R e w₁ u).system =
      ((l₁ ++ [u]).foldl (System.tell e.inter) st).step R (.create e.created) := by
    rw [hcall, ← htold]
    rfl
  -- those that have stayed
  have hleave₂ : (usedDestroy E R e w₁ u).system.Leaving e.inter (l.filter (stays R e)) := by
    have hl := hleave.foldl_tell.mono (List.filter_sublist (p := stays R e))
    rw [hsystem₂]
    refine ⟨fun h => ?_, hl.nodup, fun v hv => ?_, fun n hn => ?_, fun d' hd' => ?_⟩
    · rcases Ranking.mem_insertSorted.1 h with h | h
      · exact hne h.symm
      · rw [System.interfaces_foldl_tell, hempty] at h
        cases h
    · obtain ⟨hv, hs⟩ := List.mem_filter.1 hv
      rw [← htold, (hloose₂ v hv).target_create hne, if_neg]
      intro h
      obtain ⟨hg, he⟩ := (Bool.and_eq_true _ _).mp h
      simp [stays, hg, show v.isEntry = false by simpa using he] at hs
    · exact System.isHeld_create.trans (hl.held n hn)
    · obtain ⟨d, hd, rfl⟩ := List.mem_map.1 hd'
      have hk := hl.keys d hd
      split_ifs
      · exact DynDependencies.nodup_keys_processAvailability hk
      · exact hk
  have hno : ∀ v ∈ l.filter (stays R e), ((usedDestroy E R e w₁ u).system.interfaces.isEmpty &&
      !E.isDefaultCreated e.inter && E.hasDefaultOf v) = false := by
    have : (usedDestroy E R e w₁ u).system.interfaces.isEmpty = false := by
      rw [hsystem₂, List.isEmpty_eq_false_iff]
      exact List.ne_nil_of_mem (Ranking.mem_insertSorted.2 (.inl rfl))
    simp [this]
  have hhead : l.head? = (l.filter (stays R e) ++ []).head? := by
    cases l with
    | nil => rfl
    | cons v l => rw [List.filter_cons_of_pos (hstays v rfl)]; rfl
  obtain ⟨k, hk⟩ := Nat.exists_eq_add_of_le (List.length_filter_le (stays R e) l)
  obtain ⟨hloop₂, hsystem₃, husers₃⟩ := stableForEach_usedDestroy (E := E) (R := R) []
    hleave₂ rfl hno (by simpa using husers₂) (by simpa using hleave₂.nodup) k
  refine ⟨(l.filter (stays R e)).foldl (usedDestroy E R e) (usedDestroy E R e w₁ u), ?_, ?_, ?_⟩
  · rw [hk, hhead, hloop₂]
    cases k <;> rfl
  · rw [hsystem₃, hsystem₂]
  · rw [husers₃, List.append_nil, List.filter_eq_nil_iff]
    intro v hv
    have := (hloose₂ v (List.mem_of_mem_filter hv)).isHeld
    rw [hsystem₂, System.isHeld_create, ← htold, this]
    simp

end DestroyLoop

end Idle
