import Idle.Library.Machine
import Idle.Parts.Registry
import Mathlib.Data.List.Lex

/-!
# The table of commands

`DefaultCommandProcessor` keeps the published commands in a trie under their names. It fills the
trie from the registry when it is initialised, and then goes by the events of the registry, of which
it handles both in one way.
-/

namespace Idle

/-- `tsl::htrie_map`: an insertion does not replace what is stored under a key. -/
structure HtrieMap (ι : Type*) where
  Map : Type
  empty : Map
  lookup : Map → List Char → Option ι
  insertKs : Map → List Char → ι → Map
  longestPrefixKs : Map → List Char → Option (List Char × ι)
  lookup_empty (key : List Char) : lookup empty key = none
  lookup_insertKs (map : Map) (key : List Char) (value : ι) (key' : List Char) :
    lookup (insertKs map key value) key' =
      if key' = key then some ((lookup map key).getD value) else lookup map key'
  longestPrefixKs_some {map : Map} {line key : List Char} {value : ι} :
    longestPrefixKs map line = some (key, value) → lookup map key = some value ∧ key <+: line ∧
      ∀ key', (lookup map key').isSome → key' <+: line → key'.length ≤ key.length
  longestPrefixKs_none {map : Map} {line : List Char} :
    longestPrefixKs map line = none → ∀ key, key <+: line → lookup map key = none

/-- What `invoke` does for a command that it finds. -/
structure Dispatch (ι : Type*) where
  command : ι
  starts : Bool
  arguments : List Char
  deriving DecidableEq

/-- `DefaultCommandProcessor` and the registry of `Command`. -/
structure CommandProcessor {ι : Type*} (T : HtrieMap ι) where
  registry : List ι
  currentCommandName : ι → List Char
  isInitialized : Bool
  commands : T.Map

/-- What can happen to the commands and to the processor. -/
inductive CommandEvent (ι : Type*) where
  | created (command : ι) (name : List Char)
  | destroyed (command : ι)
  | onInit
  | onDestroy

namespace CommandProcessor

variable {ι : Type*} [DecidableEq ι] {T : HtrieMap ι}

def initial : CommandProcessor T where
  registry := []
  currentCommandName _ := []
  isInitialized := false
  commands := T.empty

/-- `Command::operator>` compares the names. -/
def ranking (address : ι → Nat) (name : ι → List Char) : Ranking ι where
  greater i j := decide (name i < name j)
  address := address

/-- `onInit`: all existing commands are populated. -/
def onInit (p : CommandProcessor T) : CommandProcessor T :=
  { p with
    commands := p.registry.foldl
      (fun map command => T.insertKs map (p.currentCommandName command) command) p.commands
    isInitialized := true }

def onDestroy (p : CommandProcessor T) : CommandProcessor T :=
  { p with commands := T.empty, isInitialized := false }

def onSubscribedCreated (p : CommandProcessor T) (subscribed : ι) : CommandProcessor T :=
  { p with commands := T.insertKs p.commands (p.currentCommandName subscribed) subscribed }

def onSubscribedDestroy (p : CommandProcessor T) (subscribed : ι) : CommandProcessor T :=
  { p with commands := T.insertKs p.commands (p.currentCommandName subscribed) subscribed }

def longestPrefixMatch (p : CommandProcessor T) (command : List Char) : Option ι :=
  (T.longestPrefixKs p.commands command).map Prod.snd

/-- `invoke`, which starts the owner of the command where it is not running. -/
def invoke (p : CommandProcessor T) (isRunning : ι → Bool) (args : List Char) :
    Option (Dispatch ι) :=
  (p.longestPrefixMatch args).map fun result =>
    { command := result
      starts := !isRunning result
      arguments := args.drop (p.currentCommandName result).length }

/-- A command gets its name before it is published, and is published before it is announced. -/
def step (address : ι → Nat) (p : CommandProcessor T) : CommandEvent ι → CommandProcessor T
  | .created command name =>
    let currentCommandName := Function.update p.currentCommandName command name
    let p := { p with
      currentCommandName
      registry := (ranking address currentCommandName).insertSorted command p.registry }
    if p.isInitialized then p.onSubscribedCreated command else p
  | .destroyed command =>
    let p := { p with registry := p.registry.erase command }
    if p.isInitialized then p.onSubscribedDestroy command else p
  | .onInit => p.onInit
  | .onDestroy => p.onDestroy

/-- The names of the commands that are published at one time are different. -/
def Pre (p : CommandProcessor T) : CommandEvent ι → Prop
  | .created command name =>
    command ∉ p.registry ∧ ∀ other ∈ p.registry, p.currentCommandName other ≠ name
  | .destroyed command => command ∈ p.registry
  | .onInit => p.isInitialized = false
  | .onDestroy => p.isInitialized = true

/-- The table mirrors the registry, and what is invoked is the published command that matches best.
-/
structure Mirrors (p : CommandProcessor T) : Prop where
  lookup_iff : ∀ name command, T.lookup p.commands name = some command ↔
    command ∈ p.registry ∧ p.currentCommandName command = name
  of_invoke : ∀ isRunning args dispatch, p.invoke isRunning args = some dispatch →
    dispatch.command ∈ p.registry ∧ p.currentCommandName dispatch.command <+: args ∧
    (∀ other ∈ p.registry, p.currentCommandName other <+: args →
      (p.currentCommandName other).length ≤ (p.currentCommandName dispatch.command).length) ∧
    p.currentCommandName dispatch.command ++ dispatch.arguments = args
  of_not_invoke : ∀ isRunning args, p.invoke isRunning args = none →
    ∀ command ∈ p.registry, ¬ p.currentCommandName command <+: args

/-- No command is destroyed while the processor is subscribed to the registry. -/
def KeepsCommand (p : CommandProcessor T) : CommandEvent ι → Prop
  | .destroyed _ => p.isInitialized = false
  | _ => True

end CommandProcessor

/-- The runs of a command processor. -/
def commandProcessors {ι : Type*} [DecidableEq ι] (T : HtrieMap ι) (address : ι → Nat) :
    Machine (CommandProcessor T) (CommandEvent ι) where
  init p := p = .initial
  pre := CommandProcessor.Pre
  step := CommandProcessor.step address

namespace CommandProcessor

variable {ι : Type*} {T : HtrieMap ι} {p : CommandProcessor T}

/-- The table has the commands of a list under their names. -/
def Lists (T : HtrieMap ι) (map : T.Map) (name : ι → List Char) (l : List ι) : Prop :=
  ∀ key command, T.lookup map key = some command ↔ command ∈ l ∧ name command = key

/-- Published commands are distinct, and so are their names; the table has them if it is in use. -/
structure InStep (p : CommandProcessor T) : Prop where
  nodup : p.registry.Nodup
  name_inj : ∀ i ∈ p.registry, ∀ j ∈ p.registry,
    p.currentCommandName i = p.currentCommandName j → i = j
  lists : Lists T p.commands p.currentCommandName (if p.isInitialized then p.registry else [])

/-! ### The table -/

lemma lists_empty (name : ι → List Char) : Lists T T.empty name [] := by
  intro key command
  simp [T.lookup_empty]

/-- A command whose name is new gets its entry. -/
lemma Lists.insertKs {map : T.Map} {name : ι → List Char} {l l' : List ι} {i : ι}
    (h : Lists T map name l) (hi : ∀ j ∈ l, name j ≠ name i)
    (hl : ∀ j, j ∈ l' ↔ j = i ∨ j ∈ l) : Lists T (T.insertKs map (name i) i) name l' := by
  intro key command
  have hnone : T.lookup map (name i) = none := by
    by_contra hne
    obtain ⟨j, hj⟩ := Option.ne_none_iff_exists'.1 hne
    obtain ⟨hmem, hname⟩ := (h _ _).1 hj
    exact hi j hmem hname
  rw [T.lookup_insertKs, hnone, hl]
  by_cases hkey : key = name i
  · subst hkey
    rw [if_pos rfl]
    constructor
    · rintro ⟨rfl⟩
      exact ⟨.inl rfl, rfl⟩
    · rintro ⟨rfl | hmem, hname⟩
      · rfl
      · exact absurd hname (hi command hmem)
  · rw [if_neg hkey, h key command]
    constructor
    · rintro ⟨hmem, hname⟩
      exact ⟨.inr hmem, hname⟩
    · rintro ⟨rfl | hmem, hname⟩
      · exact absurd hname.symm hkey
      · exact ⟨hmem, hname⟩

/-- The loop of `onInit`. -/
lemma Lists.foldl {map : T.Map} {name : ι → List Char} {l l' : List ι} (h : Lists T map name l)
    (hnodup : (l ++ l').Nodup)
    (hinj : ∀ i ∈ l ++ l', ∀ j ∈ l ++ l', name i = name j → i = j) :
    Lists T (l'.foldl (fun map i => T.insertKs map (name i) i) map) name (l ++ l') := by
  induction l' generalizing map l with
  | nil => simpa using h
  | cons i l' ih =>
    rw [List.foldl_cons, List.append_cons]
    rw [List.append_cons] at hnodup hinj
    refine ih (h.insertKs (fun j hj heq => ?_) (by simp [or_comm])) hnodup hinj
    obtain rfl := hinj j (by simp [hj]) i (by simp) heq
    exact (List.nodup_append'.1 (List.nodup_append'.1 hnodup).1).2.2 hj (by simp)

lemma Lists.congr {map : T.Map} {name name' : ι → List Char} {l : List ι} (h : Lists T map name l)
    (hname : ∀ i ∈ l, name i = name' i) : Lists T map name' l := by
  intro key command
  rw [h key command]
  exact and_congr_right fun hmem => by rw [hname command hmem]

/-- The best match in the table is the best match among the published commands. -/
lemma InStep.mirrors (h : p.InStep) (hinit : p.isInitialized = true) : p.Mirrors := by
  have hlists : Lists T p.commands p.currentCommandName p.registry := by
    simpa [hinit] using h.lists
  refine ⟨hlists, fun isRunning args dispatch hd => ?_, fun isRunning args hd i hi hpre => ?_⟩
  · obtain ⟨result, hresult, rfl⟩ := Option.map_eq_some_iff.1 hd
    obtain ⟨⟨key, command⟩, hkey, rfl⟩ := Option.map_eq_some_iff.1 hresult
    obtain ⟨hlookup, hpre, hmax⟩ := T.longestPrefixKs_some hkey
    obtain ⟨hmem, rfl⟩ := (hlists _ _).1 hlookup
    refine ⟨hmem, hpre, fun other hother hprefix => hmax _ ?_ hprefix, ?_⟩
    · rw [(hlists _ _).2 ⟨hother, rfl⟩]
      rfl
    · exact List.prefix_iff_eq_append.1 hpre
  · have hnone := Option.map_eq_none_iff.1 (Option.map_eq_none_iff.1 hd)
    have hlookup := T.longestPrefixKs_none hnone _ hpre
    rw [(hlists _ _).2 ⟨hi, rfl⟩] at hlookup
    cases hlookup

/-! ### The runs that destroy no command -/

lemma InStep.onInit (h : p.InStep) (hi : p.isInitialized = false) : p.onInit.InStep where
  nodup := h.nodup
  name_inj := h.name_inj
  lists := by
    have hlists : Lists T p.commands p.currentCommandName [] := by simpa [hi] using h.lists
    exact hlists.foldl h.nodup h.name_inj

lemma InStep.onDestroy (h : p.InStep) : p.onDestroy.InStep where
  nodup := h.nodup
  name_inj := h.name_inj
  lists := lists_empty _

variable [DecidableEq ι]

lemma InStep.created {address : ι → Nat} {i : ι} {name : List Char} (h : p.InStep)
    (hi : i ∉ p.registry) (hname : ∀ j ∈ p.registry, p.currentCommandName j ≠ name) :
    (step address p (.created i name)).InStep := by
  have hold : ∀ j ∈ p.registry,
      p.currentCommandName j = Function.update p.currentCommandName i name j := by
    intro j hj
    rw [Function.update_of_ne]
    rintro rfl
    exact hi hj
  have hnew : Function.update p.currentCommandName i name i = name := Function.update_self ..
  have hne : ∀ j ∈ p.registry, Function.update p.currentCommandName i name j ≠
      Function.update p.currentCommandName i name i := by
    intro j hj
    rw [hnew, ← hold j hj]
    exact hname j hj
  have hinj : ∀ j ∈ (ranking address (Function.update p.currentCommandName i name)).insertSorted i
        p.registry,
      ∀ k ∈ (ranking address (Function.update p.currentCommandName i name)).insertSorted i
        p.registry,
      Function.update p.currentCommandName i name j =
        Function.update p.currentCommandName i name k → j = k := by
    intro j hj k hk heq
    rcases Ranking.mem_insertSorted.1 hj with hji | hj
    · rcases Ranking.mem_insertSorted.1 hk with hki | hk
      · rw [hji, hki]
      · rw [hji] at heq
        exact absurd heq.symm (hne k hk)
    · rcases Ranking.mem_insertSorted.1 hk with hki | hk
      · rw [hki] at heq
        exact absurd heq (hne j hj)
      · rw [← hold j hj, ← hold k hk] at heq
        exact h.name_inj j hj k hk heq
  have hnodup := Ranking.nodup_insertSorted
    (R := ranking address (Function.update p.currentCommandName i name)) h.nodup hi
  unfold step
  cases hinit : p.isInitialized with
  | true =>
    have hlists : Lists T p.commands p.currentCommandName p.registry := by
      simpa [hinit] using h.lists
    refine ⟨hnodup, hinj, ?_⟩
    simp only [onSubscribedCreated, if_true]
    exact (hlists.congr hold).insertKs hne fun j => Ranking.mem_insertSorted
  | false =>
    have hlists : Lists T p.commands p.currentCommandName [] := by simpa [hinit] using h.lists
    refine ⟨hnodup, hinj, ?_⟩
    simp only [Bool.false_eq_true, if_false]
    exact hlists.congr nofun

lemma InStep.destroyed {address : ι → Nat} {i : ι} (h : p.InStep)
    (hinit : p.isInitialized = false) : (step address p (.destroyed i)).InStep := by
  have hlists : Lists T p.commands p.currentCommandName [] := by simpa [hinit] using h.lists
  unfold step
  simp only [hinit, Bool.false_eq_true, if_false]
  refine ⟨h.nodup.erase i, fun j hj k hk => ?_, ?_⟩
  · exact h.name_inj j (List.mem_of_mem_erase hj) k (List.mem_of_mem_erase hk)
  · simpa [hinit] using hlists

lemma InStep.step {address : ι → Nat} {a : CommandEvent ι} (h : p.InStep) (hpre : p.Pre a)
    (hc : p.KeepsCommand a) : (step address p a).InStep := by
  cases a with
  | created i name => exact h.created hpre.1 hpre.2
  | destroyed i => exact h.destroyed hc
  | onInit => exact h.onInit hpre
  | onDestroy => exact h.onDestroy

/-- The entry of a command that is destroyed stays. -/
lemma InStep.not_mirrors {address : ι → Nat} {i : ι} (h : p.InStep) (hi : i ∈ p.registry)
    (hinit : p.isInitialized = true) :
    ¬ (CommandProcessor.step address p (.destroyed i)).Mirrors := by
  intro hm
  have hlists : Lists T p.commands p.currentCommandName p.registry := by
    simpa [hinit] using h.lists
  have heq : CommandProcessor.step address p (.destroyed i) =
      onSubscribedDestroy { p with registry := p.registry.erase i } i := by
    simp [CommandProcessor.step, hinit]
  have hlookup := hm.lookup_iff (p.currentCommandName i) i
  rw [heq] at hlookup
  simp only [onSubscribedDestroy, T.lookup_insertKs, if_true,
    (hlists (p.currentCommandName i) i).2 ⟨hi, rfl⟩, Option.getD_some, true_iff] at hlookup
  exact h.nodup.not_mem_erase hlookup.1

end CommandProcessor

/-- The table is in step with the registry as long as no command is destroyed. -/
theorem commands_mirror_iff {ι : Type*} [DecidableEq ι] (T : HtrieMap ι) (address : ι → Nat)
    {as : List (CommandEvent ι)}
    (h : (commandProcessors T address).Admissible (fun _ _ => True) .initial as) :
    (commandProcessors T address).Always (fun p => p.isInitialized = true → p.Mirrors)
        (fun _ _ => True) .initial as ↔
      (commandProcessors T address).Admissible CommandProcessor.KeepsCommand .initial as := by
  have hinit : (CommandProcessor.initial : CommandProcessor T).InStep :=
    ⟨.nil, nofun, CommandProcessor.lists_empty _⟩
  refine Machine.always_iff hinit h (fun p hp => hp.mirrors) (fun _ _ _ _ _ => trivial)
    (fun p a hp hpre hc => hp.step hpre hc) fun p a hp hpre _ hm => ?_
  cases a with
  | destroyed i =>
    by_contra hrunning
    have hrunning : p.isInitialized = true := by
      simpa [CommandProcessor.KeepsCommand] using hrunning
    have hnot : ¬ (CommandProcessor.step address p (.destroyed i)).Mirrors :=
      hp.not_mirrors hpre hrunning
    refine hnot (hm ?_)
    simp [commandProcessors, CommandProcessor.step, hrunning, CommandProcessor.onSubscribedDestroy]
  | _ => trivial

namespace HtrieMap

variable {ι : Type}

/-- The entry of the longest prefix that has at most `n` characters. -/
def longestOf (map : List (List Char × ι)) (line : List Char) : Nat → Option (List Char × ι)
  | 0 => (map.lookup []).map (([], ·))
  | n + 1 => ((map.lookup (line.take (n + 1))).map ((line.take (n + 1), ·))).or
      (longestOf map line n)

lemma lookup_insert (map : List (List Char × ι)) (key : List Char) (value : ι)
    (key' : List Char) :
    (if (map.lookup key).isSome then map else (key, value) :: map).lookup key' =
      if key' = key then some ((map.lookup key).getD value) else map.lookup key' := by
  cases h : map.lookup key with
  | none =>
    by_cases hkey : key' = key
    · simp [hkey]
    · simp [hkey, List.lookup_cons, beq_eq_false_iff_ne.2 hkey]
  | some i =>
    by_cases hkey : key' = key
    · simp [hkey, h]
    · simp [hkey]

/-- Prefixes that are no longer than `n` are compared. -/
lemma longestOf_cases (map : List (List Char × ι)) (line : List Char) (n : Nat) :
    match longestOf map line n with
    | some (key, value) => map.lookup key = some value ∧ key <+: line ∧
        ∀ m ≤ n, (map.lookup (line.take m)).isSome → (line.take m).length ≤ key.length
    | none => ∀ m ≤ n, map.lookup (line.take m) = none := by
  induction n with
  | zero =>
    cases h : map.lookup [] with
    | none =>
      rw [longestOf, h]
      intro m hm
      obtain rfl := Nat.le_zero.1 hm
      exact h
    | some i => simp [longestOf, h]
  | succ n ih =>
    cases h : map.lookup (line.take (n + 1)) with
    | some i =>
      have heq : longestOf map line (n + 1) = some (line.take (n + 1), i) := by
        simp [longestOf, h]
      rw [heq]
      refine ⟨h, List.take_prefix _ _, fun m hm _ => ?_⟩
      simp only [List.length_take]
      omega
    | none =>
      have heq : longestOf map line (n + 1) = longestOf map line n := by simp [longestOf, h]
      rw [heq]
      cases hlongest : longestOf map line n with
      | some entry =>
        rw [hlongest] at ih
        refine ⟨ih.1, ih.2.1, fun m hm hsome => ?_⟩
        rcases Nat.le_succ_iff.1 hm with hm | rfl
        · exact ih.2.2 m hm hsome
        · simp [h] at hsome
      | none =>
        rw [hlongest] at ih
        intro m hm
        rcases Nat.le_succ_iff.1 hm with hm | rfl
        · exact ih m hm
        · exact h

lemma longestOf_some {map : List (List Char × ι)} {line key : List Char} {value : ι}
    (h : longestOf map line line.length = some (key, value)) :
    map.lookup key = some value ∧ key <+: line ∧
      ∀ key', (map.lookup key').isSome → key' <+: line → key'.length ≤ key.length := by
  have hcases := longestOf_cases map line line.length
  rw [h] at hcases
  refine ⟨hcases.1, hcases.2.1, fun key' hsome hpre => ?_⟩
  have htake := List.prefix_iff_eq_take.1 hpre
  rw [htake] at hsome ⊢
  exact hcases.2.2 _ hpre.length_le hsome

lemma longestOf_none {map : List (List Char × ι)} {line : List Char}
    (h : longestOf map line line.length = none) (key : List Char) (hpre : key <+: line) :
    map.lookup key = none := by
  have hcases := longestOf_cases map line line.length
  rw [h] at hcases
  rw [List.prefix_iff_eq_take.1 hpre]
  exact hcases _ hpre.length_le

/-- A list of entries. -/
def ofList (ι : Type) : HtrieMap ι where
  Map := List (List Char × ι)
  empty := []
  lookup map key := map.lookup key
  insertKs map key value := if (map.lookup key).isSome then map else (key, value) :: map
  longestPrefixKs map line := longestOf map line line.length
  lookup_empty _ := rfl
  lookup_insertKs map key value key' := lookup_insert map key value key'
  longestPrefixKs_some h := longestOf_some h
  longestPrefixKs_none h := longestOf_none h

end HtrieMap

/-- A command exists before the processor, a second one comes later. -/
def commandRun : List (CommandEvent Nat) :=
  [.created 0 ['a'], .onInit, .created 1 ['a', 'b'], .onDestroy, .destroyed 0]

theorem commands_mirror_commandRun :
    (commandProcessors (.ofList Nat) id).Always (fun p => p.isInitialized = true → p.Mirrors)
      (fun _ _ => True) .initial commandRun :=
  (commands_mirror_iff (.ofList Nat) id (by
    simp [commandRun, Machine.Admissible, commandProcessors, CommandProcessor.Pre,
      CommandProcessor.step, CommandProcessor.initial, CommandProcessor.onInit,
      CommandProcessor.onDestroy, CommandProcessor.onSubscribedCreated])).2 (by
    simp [commandRun, Machine.Admissible, commandProcessors, CommandProcessor.Pre,
      CommandProcessor.KeepsCommand,
      CommandProcessor.step, CommandProcessor.initial, CommandProcessor.onInit,
      CommandProcessor.onDestroy, CommandProcessor.onSubscribedCreated])

/-- The table keeps a command that is gone. -/
theorem destroyed_command_stays :
    ¬ ∀ as : List (CommandEvent Nat),
      (commandProcessors (.ofList Nat) id).Admissible (fun _ _ => True) .initial as →
        (commandProcessors (.ofList Nat) id).Always (fun p => p.isInitialized = true → p.Mirrors)
          (fun _ _ => True) .initial as := by
  intro h
  have hm := (h [.created 0 ['a'], .onInit, .destroyed 0] (by
    simp [Machine.Admissible, commandProcessors, CommandProcessor.Pre, CommandProcessor.step,
      CommandProcessor.initial, CommandProcessor.onInit])).foldl rfl
  have hmem := ((hm.lookup_iff ['a'] 0).1 rfl).1
  exact absurd hmem (by decide)

end Idle
