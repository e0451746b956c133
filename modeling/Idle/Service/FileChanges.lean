import Idle.Service.FileWatcher

/-!
# What a map of file changes says

Between two deliveries a `FileWatcherImpl` keeps one operation for every path, which is meant to
summarise what happened to it. The events are those of a file system: a file is added where none
is, it is there when it is deleted, modified or moved, and a move replaces what is at its target.

A move from a path to another one is stored at the target only. The summary of the path the file
was moved from is right if something else happens to that path later, unless it is then taken
for a new file.
-/

namespace Idle

open FileWatcher

/-- What `efsw` calls `handleFileAction` with. -/
structure FileEvent where
  path : Path
  action : FileAction
  old : Path
  deriving DecidableEq, Repr

namespace FileEvent

/-- What can happen in a file system. -/
def Possible (fs : Path → Bool) (e : FileEvent) : Prop :=
  match e.action with
  | .add => fs e.path = false
  | .delete | .modified => fs e.path = true
  | .moved => fs e.old = true

/-- The files that are there after an event. -/
def apply (fs : Path → Bool) (e : FileEvent) : Path → Bool :=
  match e.action with
  | .add => Function.update fs e.path true
  | .delete => Function.update fs e.path false
  | .modified => fs
  | .moved => Function.update (Function.update fs e.old false) e.path true

/-- The events of an evolution of a file system. -/
def Consistent (fs : Path → Bool) : List FileEvent → Prop
  | [] => True
  | e :: es => e.Possible fs ∧ Consistent (e.apply fs) es

/-- The files that are there in the end. -/
def evolve (fs : Path → Bool) (es : List FileEvent) : Path → Bool := es.foldl apply fs

instance (fs : Path → Bool) (e : FileEvent) : Decidable (e.Possible fs) := by
  unfold Possible
  split <;> infer_instance

instance decidableConsistent : (fs : Path → Bool) → (es : List FileEvent) →
    Decidable (Consistent fs es)
  | _, [] => .isTrue trivial
  | fs, e :: es =>
    have := decidableConsistent (e.apply fs) es
    inferInstanceAs (Decidable (e.Possible fs ∧ Consistent (e.apply fs) es))

end FileEvent

namespace FileChange

/-- The operation that is stored for a path. -/
def operationOf (path : Path) (cs : List FileChange) : Option FileOperation :=
  (cs.find? fun c => c.path = path).map operation

/-- The changes say what became of every path that is not filtered out. -/
def Summarises (filter : Path → Bool) (fs₀ fs : Path → Bool) (cs : List FileChange) : Prop :=
  ∀ f, filter f = true →
    (fs f = true ↔ operationOf f cs = none ∧ fs₀ f = true ∨ operationOf f cs = some .added ∨
      operationOf f cs = some .modified ∨ ∃ old, operationOf f cs = some (.renamed old)) ∧
    (operationOf f cs = some .removed → fs f = false) ∧
    (operationOf f cs = some .added → fs₀ f = false)

end FileChange

/-- All events between two deliveries. -/
def FileWatcher.handleFileActions (fw : FileWatcher) (es : List FileEvent) : FileWatcher :=
  es.foldl (fun fw e => fw.handleFileAction e.path e.action e.old) fw

/-! ### What happens to one path -/

/-- What an event is for one of its paths. -/
inductive PathEvent where
  | added
  | removed
  | modified
  /-- Moved onto itself. -/
  | replaced
  | movedIn (old : Path)
  | movedOut
  deriving DecidableEq, Repr

namespace PathEvent

/-- The event of a path. A move over the border of the filter adds or removes a file. -/
def of (filter : Path → Bool) (f : Path) (e : FileEvent) : Option PathEvent :=
  match e.action with
  | .add => if e.path = f then some added else none
  | .delete => if e.path = f then some removed else none
  | .modified => if e.path = f then some modified else none
  | .moved =>
    if e.path = f then
      if filter e.old then if e.path = e.old then some replaced else some (movedIn e.old)
      else some added
    else if e.old = f then if filter e.path then some movedOut else some removed
    else none

/-- What is stored for the path. -/
def store (known : Option FileOperation) : PathEvent → Option FileOperation
  | added => some (if known.isSome then .modified else .added)
  | removed => some .removed
  | modified => some (if known = some .added then .added else .modified)
  | replaced => some .modified
  | movedIn old => some (.renamed old)
  | movedOut => known

/-- Whether the file is there afterwards. -/
def present : PathEvent → Bool → Bool
  | added, _ | movedIn _, _ => true
  | removed, _ | movedOut, _ => false
  | modified, there | replaced, there => there

/-- Whether the event can happen. -/
def Possible (there : Bool) : PathEvent → Prop
  | added | movedIn _ => True
  | removed | modified | replaced | movedOut => there = true

/-- The events of a path can happen one after the other. -/
def Consistent (there : Bool) : List PathEvent → Prop
  | [] => True
  | e :: es => e.Possible there ∧ Consistent (e.present there) es

/-- The path was added, maybe after a move away from it, and only modified since then. -/
def JustAdded (es : List PathEvent) : Prop :=
  ∃ n, es = added :: .replicate n modified ∨ es = movedOut :: added :: .replicate n modified

end PathEvent

/-- The last thing that happened to a path is not that it was moved to another path, and a path
that was there is not taken for a new one. -/
def FileEvent.Traceable (filter : Path → Bool) (fs₀ : Path → Bool) (es : List FileEvent) : Prop :=
  ∀ f, filter f = true →
    (es.filterMap (PathEvent.of filter f)).getLast? ≠ some .movedOut ∧
    ¬ (fs₀ f = true ∧ PathEvent.JustAdded (es.filterMap (PathEvent.of filter f)))

/-! ### From events to the events of a path -/

namespace FileChange

lemma operationOf_nil (f : Path) : operationOf f [] = none := rfl

lemma operationOf_record_self (f : Path) (n : Nat) (g : Option FileOperation → FileOperation)
    (cs : List FileChange) :
    operationOf f (record f n g cs) = some (g (operationOf f cs)) := by
  induction cs with
  | nil => simp [record, operationOf]
  | cons c cs ih =>
    by_cases hc : c.path = f
    · simp [record, operationOf, hc]
    · simpa [record, operationOf, hc] using ih

lemma operationOf_record_of_ne {f path : Path} (h : path ≠ f) (n : Nat)
    (g : Option FileOperation → FileOperation) (cs : List FileChange) :
    operationOf f (record path n g cs) = operationOf f cs := by
  induction cs with
  | nil => simp [record, operationOf, h]
  | cons c cs ih =>
    simp only [operationOf] at ih
    by_cases hc : c.path = path
    · simp [record, operationOf, hc, h]
    · simp only [record, if_neg hc, operationOf, List.find?_cons]
      split
      · rfl
      · exact ih

end FileChange

namespace FileWatcher

open FileChange

variable {fw : FileWatcher} {f : Path} {e : FileEvent}

lemma filter_handleFileAction (fw : FileWatcher) (e : FileEvent) :
    (fw.handleFileAction e.path e.action e.old).filter = fw.filter := by
  unfold handleFileAction
  split
  · unfold onFileAction
    simp only
    split <;> rfl
  · rfl

lemma changes_onFileAction (path old : Path) (action : FileAction) :
    (fw.onFileAction path action old).changes =
      FileChange.record path fw.recorded (merge path action old) fw.changes := by
  unfold onFileAction
  simp only
  split <;> rfl

lemma operationOf_onFileAction (path old : Path) (action : FileAction) :
    operationOf f (fw.onFileAction path action old).changes =
      if path = f then some (merge path action old (operationOf f fw.changes))
      else operationOf f fw.changes := by
  rw [changes_onFileAction]
  split
  · rename_i heq
    subst heq
    exact operationOf_record_self _ _ _ _
  · rename_i hne
    exact operationOf_record_of_ne hne _ _ _

/-- One event stores what its event for the path says. -/
lemma operationOf_handleFileAction (hf : fw.filter f = true) :
    operationOf f (fw.handleFileAction e.path e.action e.old).changes =
      ((PathEvent.of fw.filter f e).elim (operationOf f fw.changes)
        (PathEvent.store (operationOf f fw.changes))) := by
  obtain ⟨path, action, old⟩ := e
  unfold handleFileAction filterAction PathEvent.of
  cases action with
  | moved =>
    cases hp : fw.filter path with
    | true =>
      cases ho : fw.filter old with
      | true =>
        by_cases hpf : path = f
        · subst hpf
          by_cases hpo : path = old
          · simp [operationOf_onFileAction, merge, PathEvent.store, hpo]
          · simp [operationOf_onFileAction, merge, PathEvent.store, hpo]
        · by_cases hof : old = f
          · simp [operationOf_onFileAction, hpf, hof, PathEvent.store]
          · simp [operationOf_onFileAction, hpf, hof]
      | false =>
        have hof : old ≠ f := by
          rintro rfl
          exact absurd (hf.symm.trans ho) (by simp)
        by_cases hpf : path = f
        · simp [operationOf_onFileAction, merge, PathEvent.store, hpf]
        · simp [operationOf_onFileAction, hpf, hof]
    | false =>
      have hpf : path ≠ f := by
        rintro rfl
        exact absurd (hf.symm.trans hp) (by simp)
      cases ho : fw.filter old with
      | true =>
        by_cases hof : old = f
        · simp [operationOf_onFileAction, merge, PathEvent.store, hpf, hof]
        · simp [operationOf_onFileAction, hpf, hof]
      | false =>
        have hof : old ≠ f := by
          rintro rfl
          exact absurd (hf.symm.trans ho) (by simp)
        simp [hpf, hof]
  | add | delete | modified =>
    by_cases hpf : path = f
    · simp [operationOf_onFileAction, merge, PathEvent.store, hpf, hf]
    · cases hp : fw.filter path with
      | true => simp [operationOf_onFileAction, hpf]
      | false => simp [hpf]

lemma operationOf_handleFileActions (fw : FileWatcher) (hf : fw.filter f = true)
    (es : List FileEvent) : operationOf f (fw.handleFileActions es).changes =
      (es.filterMap (PathEvent.of fw.filter f)).foldl PathEvent.store
        (operationOf f fw.changes) := by
  induction es generalizing fw with
  | nil => rfl
  | cons e es ih =>
    have hfilter := fw.filter_handleFileAction e
    have hstep := operationOf_handleFileAction (e := e) hf
    have hrest := ih (fw.handleFileAction e.path e.action e.old) (by rw [hfilter, hf])
    rw [hfilter, hstep] at hrest
    refine hrest.trans ?_
    cases ho : PathEvent.of fw.filter f e with
    | none => rw [List.filterMap_cons_none ho, Option.elim_none]
    | some e' => rw [List.filterMap_cons_some ho, Option.elim_some, List.foldl_cons]

end FileWatcher

namespace PathEvent

variable {filter : Path → Bool} {f : Path} {fs : Path → Bool}

/-- One event does to the path what its event for the path says. -/
lemma apply_eq (hf : filter f = true) (e : FileEvent) (he : e.Possible fs) :
    e.apply fs f = (of filter f e).elim (fs f) (present · (fs f)) ∧
      ∀ e', of filter f e = some e' → e'.Possible (fs f) := by
  obtain ⟨path, action, old⟩ := e
  unfold FileEvent.apply of
  unfold FileEvent.Possible at he
  cases action with
  | moved =>
    by_cases hpf : path = f
    · subst hpf
      cases ho : filter old with
      | true =>
        by_cases hpo : path = old
        · subst hpo
          simp only at he
          simp [present, Possible, he]
        · simp [present, Possible, hpo]
      | false => simp [present, Possible]
    · by_cases hof : old = f
      · subst hof
        simp only at he
        cases hp : filter path with
        | true => simp [present, Possible, hpf, he, Function.update_of_ne (Ne.symm hpf)]
        | false => simp [present, Possible, hpf, he, Function.update_of_ne (Ne.symm hpf)]
      · simp [hpf, hof, Function.update_of_ne (Ne.symm hpf), Function.update_of_ne (Ne.symm hof)]
  | add =>
    by_cases hpf : path = f
    · simp [present, Possible, hpf]
    · simp [hpf, Function.update_of_ne (Ne.symm hpf)]
  | delete =>
    by_cases hpf : path = f
    · subst hpf
      simpa [present, Possible] using he
    · simp [hpf, Function.update_of_ne (Ne.symm hpf)]
  | modified =>
    by_cases hpf : path = f
    · subst hpf
      simpa [present, Possible] using he
    · simp [hpf]

lemma evolve_eq (hf : filter f = true) (es : List FileEvent) (fs : Path → Bool)
    (he : FileEvent.Consistent fs es) :
    FileEvent.evolve fs es f =
        (es.filterMap (of filter f)).foldl (fun there e => present e there) (fs f) ∧
      Consistent (fs f) (es.filterMap (of filter f)) := by
  induction es generalizing fs with
  | nil => exact ⟨rfl, trivial⟩
  | cons e es ih =>
    obtain ⟨happly, hpossible⟩ := apply_eq hf e he.1
    obtain ⟨hfold, hcons⟩ := ih (e.apply fs) he.2
    rw [happly] at hfold hcons
    cases ho : of filter f e with
    | none =>
      rw [ho, Option.elim_none] at hfold hcons
      rw [List.filterMap_cons_none ho]
      exact ⟨hfold, hcons⟩
    | some e' =>
      rw [ho, Option.elim_some] at hfold hcons
      rw [List.filterMap_cons_some ho, List.foldl_cons]
      exact ⟨hfold, hpossible e' ho, hcons⟩

/-! ### What is stored for one path -/

lemma consistent_append {there : Bool} {es : List PathEvent} {e : PathEvent} :
    Consistent there (es ++ [e]) ↔
      Consistent there es ∧ e.Possible (es.foldl (fun there e => present e there) there) := by
  induction es generalizing there with
  | nil => simp [Consistent]
  | cons e' es ih => simp only [List.cons_append, Consistent, ih, List.foldl_cons, and_assoc]

lemma not_justAdded_nil : ¬ JustAdded [] := by
  rintro ⟨n, h | h⟩ <;> cases h

lemma justAdded_append_iff {es : List PathEvent} {e : PathEvent} :
    JustAdded (es ++ [e]) ↔
      e = added ∧ (es = [] ∨ es = [movedOut]) ∨ e = modified ∧ JustAdded es := by
  constructor
  · rintro ⟨n, h⟩
    cases n with
    | zero =>
      refine .inl ?_
      rcases h with h | h
      · obtain ⟨hes, he⟩ := List.append_singleton_inj.1 (show es ++ [e] = [] ++ [added] from h)
        exact ⟨he, .inl hes⟩
      · obtain ⟨hes, he⟩ :=
          List.append_singleton_inj.1 (show es ++ [e] = [movedOut] ++ [added] from h)
        exact ⟨he, .inr hes⟩
    | succ n =>
      refine .inr ?_
      rw [List.replicate_succ', ← List.cons_append, ← List.cons_append] at h
      rcases h with h | h
      · obtain ⟨hes, he⟩ := List.append_singleton_inj.1 h
        exact ⟨he, n, .inl hes⟩
      · obtain ⟨hes, he⟩ := List.append_singleton_inj.1 h
        exact ⟨he, n, .inr hes⟩
  · rintro (⟨rfl, rfl | rfl⟩ | ⟨rfl, n, rfl | rfl⟩)
    · exact ⟨0, .inl rfl⟩
    · exact ⟨0, .inr rfl⟩
    · exact ⟨n + 1, .inl (by rw [List.replicate_succ', List.cons_append])⟩
    · exact ⟨n + 1, .inr (by rw [List.replicate_succ', List.cons_append, List.cons_append])⟩

/-- What is stored says that the path is there now. -/
def SaysPresent (there : Bool) (known : Option FileOperation) : Prop :=
  known = none ∧ there = true ∨ known = some .added ∨ known = some .modified ∨
    ∃ old, known = some (.renamed old)

/-- What is stored for a path, and whether it is there, after some of its events. -/
structure Summary (before : Bool) (es : List PathEvent) (known : Option FileOperation)
    (there : Bool) : Prop where
  movedOut : es.getLast? = some .movedOut → there = false ∧ SaysPresent before known
  there_iff : es.getLast? ≠ some .movedOut → (there = true ↔ SaysPresent before known)
  none_iff : known = none ↔ es = [] ∨ es = [.movedOut]
  removed : known = some .removed → there = false
  added : known = some .added → es.getLast? ≠ some .movedOut → JustAdded es
  justAdded : JustAdded es → known = some .added

namespace Summary

variable {before there : Bool} {es : List PathEvent} {known : Option FileOperation}

lemma nil (before : Bool) : Summary before [] none before := by
  refine ⟨nofun, fun _ => ?_, by simp, nofun, nofun, fun h => absurd h not_justAdded_nil⟩
  simp [SaysPresent]

/-- An event that stores that the path is there. -/
lemma store {e : PathEvent} (hsaid : SaysPresent before (e.store known))
    (hthere : e.present there = true) (he : e ≠ .movedOut) (hknown : (e.store known).isSome)
    (hadded : e.store known = some .added ↔ JustAdded (es ++ [e])) :
    Summary before (es ++ [e]) (e.store known) (e.present there) := by
  have hlast : (es ++ [e]).getLast? = some e := List.getLast?_concat
  refine ⟨fun h => ?_, fun _ => iff_of_true hthere hsaid, ?_, fun h => ?_, fun h _ => hadded.1 h,
    hadded.2⟩
  · exact absurd (Option.some.inj (hlast.symm.trans h)) he
  · refine iff_of_false (fun h => by simp [h] at hknown) ?_
    rintro (h | h)
    · simp at h
    · exact he (List.append_singleton_inj.1 (show es ++ [e] = [] ++ [.movedOut] from h)).2
  · rcases hsaid with h' | h' | h' | ⟨old, h'⟩
    · exact absurd (h.symm.trans h'.1) (by simp)
    · exact absurd (h.symm.trans h') (by simp)
    · exact absurd (h.symm.trans h') (by simp)
    · exact absurd (h.symm.trans h') (by simp)

lemma step (h : Summary before es known there) (e : PathEvent) (he : e.Possible there) :
    Summary before (es ++ [e]) (e.store known) (e.present there) := by
  -- a path that is there was not just moved away
  have hlast : there = true → es.getLast? ≠ some .movedOut := by
    rintro hthere hmoved
    exact absurd (hthere.symm.trans (h.movedOut hmoved).1) (by simp)
  cases e with
  | added =>
    refine store ?_ rfl nofun rfl ?_
    · cases known with
      | none => exact .inr (.inl rfl)
      | some op => exact .inr (.inr (.inl rfl))
    · rw [justAdded_append_iff, ← h.none_iff]
      cases known with
      | none => simp [PathEvent.store]
      | some op => simp [PathEvent.store]
  | removed =>
    have hnot : ¬ JustAdded (es ++ [.removed]) := by simp [justAdded_append_iff]
    refine ⟨fun hmoved => ?_, fun _ => ?_, ?_, fun _ => rfl, nofun, fun hj => absurd hj hnot⟩
    · simp at hmoved
    · simp [PathEvent.store, present, SaysPresent]
    · simp [PathEvent.store, List.append_eq_cons_iff]
  | modified =>
    have hthere : there = true := he
    refine store ?_ hthere nofun rfl ?_
    · by_cases hk : known = some .added
      · exact .inr (.inl (by simp [PathEvent.store, hk]))
      · exact .inr (.inr (.inl (by simp [PathEvent.store, hk])))
    · have hiff : known = some .added ↔ JustAdded es :=
        ⟨fun hk => h.added hk (hlast hthere), h.justAdded⟩
      rw [justAdded_append_iff, ← hiff]
      by_cases hk : known = some .added
      · simp [PathEvent.store, hk]
      · simp [PathEvent.store, hk]
  | replaced =>
    refine store (.inr (.inr (.inl rfl))) he nofun rfl ?_
    simp [justAdded_append_iff, PathEvent.store]
  | movedIn old =>
    refine store (.inr (.inr (.inr ⟨old, rfl⟩))) rfl nofun rfl ?_
    simp [justAdded_append_iff, PathEvent.store]
  | movedOut =>
    have hthere : there = true := he
    have hsaid := (h.there_iff (hlast hthere)).1 hthere
    have hend : (es ++ [PathEvent.movedOut]).getLast? = some .movedOut := List.getLast?_concat
    refine ⟨fun _ => ⟨rfl, hsaid⟩, fun hne => absurd hend hne, ?_, fun _ => rfl,
      fun _ hne => absurd hend hne, fun hj => ?_⟩
    · refine h.none_iff.trans ⟨?_, ?_⟩
      · rintro (rfl | rfl)
        · exact .inr rfl
        · exact absurd rfl (hlast hthere)
      · rintro (hes | hes)
        · simp at hes
        · exact .inl (List.append_singleton_inj.1
            (show es ++ [.movedOut] = [] ++ [.movedOut] from hes)).1
    · rcases justAdded_append_iff.1 hj with ⟨heq, -⟩ | ⟨heq, -⟩ <;> cases heq

/-- What is stored after all events of a path. -/
theorem run {before : Bool} {es : List PathEvent} (h : Consistent before es) :
    Summary before es (es.foldl PathEvent.store none)
      (es.foldl (fun there e => present e there) before) := by
  induction es using List.reverseRecOn with
  | nil => exact nil before
  | append_singleton es e ih =>
    obtain ⟨hes, he⟩ := consistent_append.1 h
    simp only [List.foldl_append, List.foldl_cons, List.foldl_nil]
    exact (ih hes).step e he

/-- The summary of a path is right unless it was moved away or is taken for a new one. -/
lemma correct_iff (h : Summary before es known there) :
    ((there = true ↔ SaysPresent before known) ∧ (known = some .removed → there = false) ∧
      (known = some .added → before = false)) ↔
    es.getLast? ≠ some .movedOut ∧ ¬ (before = true ∧ JustAdded es) := by
  constructor
  · rintro ⟨hthere, -, hadded⟩
    refine ⟨fun hmoved => ?_, fun ⟨hbefore, hj⟩ => ?_⟩
    · obtain ⟨hgone, hsaid⟩ := h.movedOut hmoved
      exact absurd (hgone.symm.trans (hthere.2 hsaid)) (by simp)
    · exact absurd (hbefore.symm.trans (hadded (h.justAdded hj))) (by simp)
  · rintro ⟨hlast, hnew⟩
    refine ⟨h.there_iff hlast, h.removed, fun hk => ?_⟩
    cases hb : before with
    | false => rfl
    | true => exact absurd ⟨hb, h.added hk hlast⟩ hnew

end Summary
end PathEvent

/-- The changes of consistent events are a summary of them exactly if no file is left moved to
another path, and none that was there is taken for a new one. -/
theorem handleFileActions_summarises_iff (fw : FileWatcher) (fs : Path → Bool)
    (es : List FileEvent) (hc : fw.changes = []) (he : FileEvent.Consistent fs es) :
    FileChange.Summarises fw.filter fs (FileEvent.evolve fs es) (fw.handleFileActions es).changes ↔
      FileEvent.Traceable fw.filter fs es := by
  refine forall₂_congr fun f hf => ?_
  obtain ⟨hevolve, hcons⟩ := PathEvent.evolve_eq hf es fs he
  have hstored := fw.operationOf_handleFileActions hf es
  rw [hc, FileChange.operationOf_nil] at hstored
  rw [hevolve, hstored]
  exact (PathEvent.Summary.run hcons).correct_iff

/-- A file is moved and then replaced, next to a move over the border of the filter. -/
def traceableEvents : List FileEvent :=
  [⟨['b'], .moved, ['a']⟩, ⟨['a'], .add, []⟩, ⟨['a'], .delete, []⟩, ⟨['x'], .moved, ['b']⟩]

/-- A file that is moved on. -/
def movedEvents : List FileEvent := [⟨['a'], .add, []⟩, ⟨['b'], .moved, ['a']⟩]

theorem handleFileActions_summarises_traceableEvents :
    FileChange.Summarises (fun f => f ≠ ['x']) (fun f => f = ['a'])
      (FileEvent.evolve (fun f => f = ['a']) traceableEvents)
      ((FileWatcher.initial (fun f => f ≠ ['x']) false).handleFileActions
        traceableEvents).changes := by
  refine (handleFileActions_summarises_iff (.initial (fun f => f ≠ ['x']) false) _ traceableEvents
    rfl (by decide)).2 fun f hf => ?_
  have hnew (e : PathEvent) (es : List PathEvent) (he : e ≠ .modified) (he' : e ≠ .added) :
      ¬ PathEvent.JustAdded (es ++ [e]) := by
    simp [PathEvent.justAdded_append_iff, he, he']
  by_cases ha : ['a'] = f
  · subst ha
    exact ⟨by decide, fun h => hnew .removed [.movedOut, .added] (by decide) (by decide) h.2⟩
  · by_cases hb : ['b'] = f
    · subst hb
      exact ⟨by decide, fun h => hnew .removed [.movedIn ['a']] (by decide) (by decide) h.2⟩
    · have hx : ['x'] ≠ f := by
        rintro rfl
        exact absurd hf (by decide)
      have hnone : traceableEvents.filterMap (PathEvent.of (fun f => f ≠ ['x']) f) = [] := by
        simp [traceableEvents, PathEvent.of, ha, hb, hx]
      change (traceableEvents.filterMap (PathEvent.of (fun f => f ≠ ['x']) f)).getLast? ≠ _ ∧
        ¬ (_ ∧
          PathEvent.JustAdded (traceableEvents.filterMap (PathEvent.of (fun f => f ≠ ['x']) f)))
      rw [hnone]
      exact ⟨nofun, fun h => PathEvent.not_justAdded_nil h.2⟩

/-- The file that was moved on is reported as added. -/
theorem movedEvents_not_summarised :
    ¬ ∀ (fw : FileWatcher) (fs : Path → Bool) (es : List FileEvent), fw.changes = [] →
      FileEvent.Consistent fs es →
      FileChange.Summarises fw.filter fs (FileEvent.evolve fs es)
        (fw.handleFileActions es).changes := by
  intro h
  have hsum := h (.initial (fun _ => true) false) (fun _ => false) movedEvents rfl (by decide)
  have hadded := (hsum ['a'] rfl).1.2 (.inr (.inl (by decide)))
  exact absurd hadded (by decide)

end Idle
