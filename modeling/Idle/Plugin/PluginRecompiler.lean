import Idle.Plugin.PluginLoader
import Mathlib.Data.List.DropRight
import Mathlib.Data.List.TakeWhile

/-!
# What is rebuilt

`watch_and_compile_impl` builds a single component where every change is the modification of a
source file that belongs to it, and otherwise everything. The component of a file is the first name
on its way from a workspace; a workspace is taken for one that has the file if its text begins the
text of the file. `relative()` is taken lexically.
-/

namespace Idle

namespace Path

/-- The names of an absolute path. -/
def elements (p : Path) : List Path := (p.splitOn '/').filter (· ≠ [])

/-- A path of these names. -/
def ofElements (names : List Path) : Path :=
  if names = [] then ['/'] else names.flatMap ('/' :: ·)

/-- An absolute path in normal form. -/
def IsNormal (p : Path) : Prop :=
  p = ofElements p.elements ∧ ∀ name ∈ p.elements, name ≠ ['.'] ∧ name ≠ ['.', '.']

instance : DecidablePred IsNormal := fun p =>
  inferInstanceAs (Decidable (p = ofElements p.elements ∧
    ∀ name ∈ p.elements, name ≠ ['.'] ∧ name ≠ ['.', '.']))

/-- `extension()` of a file name: from the last dot on. -/
def extension (name : Path) : Path :=
  if name = ['.'] ∨ name = ['.', '.'] then []
  else if '.' ∈ name then '.' :: name.rtakeWhile (· ≠ '.')
  else []

/-- `replace_extension({})` -/
def withoutExtension (name : Path) : Path := name.take (name.length - (extension name).length)

/-- `lexically_relative`, on the names of two absolute paths. -/
def lexicallyRelative : List Path → List Path → List Path
  | [], [] => [['.']]
  | name :: path, name' :: base =>
    if name = name' then lexicallyRelative path base
    else List.replicate (base.length + 1) ['.', '.'] ++ name :: path
  | path, base => List.replicate base.length ['.', '.'] ++ path

/-- The loop of `getComponentDir`: to the parent path as long as there is one. -/
def topParent (rel : List Path) : List Path :=
  if 1 < rel.length then topParent rel.dropLast else rel
termination_by rel.length
decreasing_by
  simp only [List.length_dropLast]
  omega

end Path

/-- `.*` and one of these endings. -/
def regexMatch (endings : List Path) (file : Path) : Bool :=
  endings.any fun ending =>
    ending.isSuffixOf file &&
      (file.take (file.length - ending.length)).all fun c => c ≠ '\n' && c ≠ '\r'

/-- The endings of `is_cxx_source_file`. -/
def cxxSourceEndings : List Path := [['.', 'c'], ['.', 'c', 'c'], ['.', 'c', 'p', 'p']]

/-- The endings of `is_cxx_file`. -/
def cxxEndings : List Path :=
  [['.', 'h'], ['.', 'h', 'h'], ['.', 'h', 'p', 'p']] ++ cxxSourceEndings

def isCxxFile (file : Path) : Bool := regexMatch cxxEndings file

def isCxxSourceFile (file : Path) : Bool := regexMatch cxxSourceEndings file

def isCmakeFile (file : Path) : Bool :=
  file.filename = ['C', 'M', 'a', 'k', 'e', 'L', 'i', 's', 't', 's', '.', 't', 'x', 't'] ||
    file.filename.extension = ['.', 'c', 'm', 'a', 'k', 'e']

def needsRegenerate (changes : List FileChange) : Bool :=
  changes.any fun change =>
    change.operation ≠ .modified || change.path.filename.extension = [] ||
      isCmakeFile change.path || !isCxxFile change.path.filename.extension

def isFileInWorkSpace (workspace file : Path) : Bool :=
  if file.length < workspace.length then false else workspace = file.take workspace.length

/-- `getComponentDir`: empty if the file is in no workspace. -/
def getComponentDir : List Path → Path → Path
  | [], _ => []
  | workspace :: workspaces, file =>
    if isFileInWorkSpace workspace file then
      let rel := (Path.topParent (Path.lexicallyRelative file.elements workspace.elements)).headD []
      if rel.extension ≠ [] then rel.withoutExtension else rel
    else getComponentDir workspaces file

def fileChangedThreshold : Nat := 5

/-- The loop of `getInstallComponent`. -/
def installComponentLoop (workspaces : List Path) : Path → List FileChange → Path
  | component, [] => component
  | component, change :: changes =>
    if change.operation ≠ .modified then []
    else if !isCxxSourceFile change.path then []
    else
      let current := getComponentDir workspaces change.path
      if current = [] then []
      else if component = [] then installComponentLoop workspaces current changes
      else if component ≠ current then []
      else installComponentLoop workspaces component changes

/-- `getInstallComponent`: empty if everything is to be installed. -/
def getInstallComponent (workspaces : List Path) (changes : List FileChange) : Path :=
  if workspaces = [] ∨ fileChangedThreshold < changes.length then []
  else installComponentLoop workspaces [] changes

/-- What is asked of the `PluginCompiler`. -/
inductive CompilerCall where
  | generate
  | buildInstall
  | build (component : Path)
  | installComponent (component : Path)
  deriving DecidableEq

/-- `watch_and_compile_impl`, once there are changes. -/
def watchAndCompile (workspaces : List Path) (forceRegenerate : Bool) (changes : List FileChange) :
    List CompilerCall :=
  if forceRegenerate || needsRegenerate changes then [.generate, .buildInstall]
  else
    let component := getInstallComponent workspaces changes
    if component = [] then [.buildInstall] else [.build component, .installComponent component]

/-! ### What a restricted build has to be -/

/-- A name below a workspace is the first one of the file, and the component without extension. -/
def Path.Below (workspace file component : Path) : Prop :=
  ∃ name rest, file.elements = workspace.elements ++ name :: rest ∧
    name.withoutExtension = component

/-- The modification of a file with one of these extensions. -/
def FileChange.Modifies (change : FileChange) (endings : List Path) : Prop :=
  change.operation = .modified ∧ change.path.filename.extension ∈ endings

/-- Only what changed is rebuilt, and that is rebuilt entirely. -/
structure RebuildsChanged (workspaces : List Path) (changes : List FileChange)
    (calls : List CompilerCall) : Prop where
  restricted : ∀ component, .build component ∈ calls ∨ .installComponent component ∈ calls →
    (∀ change ∈ changes, change.Modifies cxxSourceEndings ∧
      ∃ workspace ∈ workspaces, workspace.Below change.path component) ∧
    component ≠ ['.'] ∧ component ≠ ['.', '.']
  everything : (∃ component, .build component ∈ calls ∧ .installComponent component ∈ calls) ∨
    .buildInstall ∈ calls
  regenerates : (∃ change ∈ changes, ¬change.Modifies cxxEndings) → .generate ∈ calls

/-- The first workspace whose text begins the text of a file does not say which component the file
belongs to: the way to the file leads out of it, or nowhere, or its first name is nothing but dots
without its extension. -/
def Path.Misleads (workspaces : List Path) (file dots : Path) : Prop :=
  ∃ workspace ∈ workspaces.find? (isFileInWorkSpace · file),
    (dots = ['.', '.'] ∧ ¬workspace.elements <+: file.elements) ∨
    (dots = ['.'] ∧ workspace.elements = file.elements) ∨ workspace.Below file dots

/-! ### Names and extensions -/

namespace Path

lemma not_mem_of_mem_splitOn {l s : List Char} {a : Char} (h : s ∈ l.splitOn a) : a ∉ s := by
  induction hn : l.length using Nat.strong_induction_on generalizing l with
  | _ n ih =>
    by_cases ha : a ∈ l
    · obtain ⟨x, y, rfl, hx⟩ := List.eq_append_cons_of_mem ha
      rw [List.splitOn_append_cons_self_of_not_mem hx] at h
      rcases List.mem_cons.1 h with rfl | h
      · exact hx
      · refine ih y.length ?_ h rfl
        simp only [List.length_append, List.length_cons] at hn
        omega
    · rw [List.splitOn_eq_singleton ha, List.mem_singleton] at h
      rwa [h]

/-- What ends a path and has no slash ends its file name. -/
lemma IsNormal.suffix_filename {p ending : Path} (h : p.IsNormal) (hs : ending <:+ p)
    (hne : ending ≠ []) (hslash : '/' ∉ ending) :
    ending <:+ p.filename ∧ p.filename ∈ p.elements := by
  have hp := h.1
  rcases List.eq_nil_or_concat p.elements with hnil | ⟨names, name, hnames⟩
  · rw [hnil] at hp
    rw [hp] at hs
    obtain ⟨c, hc⟩ := List.exists_mem_of_ne_nil ending hne
    obtain rfl : c = '/' := List.mem_singleton.1 (hs.mem hc)
    exact absurd hc hslash
  · rw [List.concat_eq_append] at hnames
    have hmem : name ∈ p.elements := by simp [hnames]
    have htext : p = names.flatMap ('/' :: ·) ++ '/' :: name := by
      rw [hnames, ofElements, if_neg (by simp), List.flatMap_append] at hp
      simpa using hp
    have hnot : '/' ∉ name := not_mem_of_mem_splitOn (List.mem_filter.1 hmem).1
    have hfilename : p.filename = name := by
      rw [filename, htext, List.splitOn_append_cons_self, List.splitOn_eq_singleton hnot]
      simp
    rw [hfilename]
    refine ⟨?_, hmem⟩
    have hname : name <:+ p := ⟨names.flatMap ('/' :: ·) ++ ['/'], by rw [htext]; simp⟩
    rcases List.suffix_or_suffix_of_suffix hs hname with hsuffix | hsuffix
    · exact hsuffix
    · -- a longer ending would have the slash before the name
      by_cases heq : ending.length = name.length
      · rw [hsuffix.eq_of_length heq.symm]
      · have hlt : name.length + 1 ≤ ending.length := by
          have := hsuffix.length_le
          omega
        have hslashname : '/' :: name <:+ p := ⟨names.flatMap ('/' :: ·), htext.symm⟩
        have hcons := List.suffix_of_suffix_length_le hslashname hs (by simpa using hlt)
        exact absurd (hcons.mem List.mem_cons_self) hslash

/-- A name that ends with a dot and what has none has that for its extension. -/
lemma extension_of_suffix {name r : Path} (h : '.' :: r <:+ name) (hne : r ≠ []) (hr : '.' ∉ r) :
    extension name = '.' :: r := by
  obtain ⟨x, rfl⟩ := h
  have hdots : ¬(x ++ '.' :: r = ['.'] ∨ x ++ '.' :: r = ['.', '.']) := by
    obtain ⟨c, hc⟩ := List.exists_mem_of_ne_nil r hne
    have hdot : c ≠ '.' := fun heq => hr (heq ▸ hc)
    have hmem : c ∈ x ++ '.' :: r := by simp [hc]
    rintro (h | h)
    · rw [h] at hmem
      simp [hdot] at hmem
    · rw [h] at hmem
      simp [hdot] at hmem
  have htake : (x ++ '.' :: r).rtakeWhile (· ≠ '.') = r := by
    have hall : ∀ c ∈ r.reverse, decide (c ≠ '.') = true := by
      intro c hc
      have hdot : c ≠ '.' := fun heq => hr (heq ▸ List.mem_reverse.1 hc)
      exact decide_eq_true hdot
    rw [List.rtakeWhile, List.reverse_append, List.reverse_cons, List.append_assoc,
      List.takeWhile_append_of_pos hall]
    simp
  rw [extension, if_neg hdots, if_pos (by simp), htake]

/-- An extension is empty, or a dot and what has none. -/
lemma extension_cases (name : Path) :
    extension name = [] ∨ ∃ r, extension name = '.' :: r ∧ '.' ∉ r := by
  unfold extension
  split
  · exact .inl rfl
  · split
    · refine .inr ⟨_, rfl, fun h => ?_⟩
      have hdot := List.mem_rtakeWhile_imp h
      simp at hdot
    · exact .inl rfl

/-! ### The way from a workspace to a file -/

lemma topParent_eq (rel : List Path) : topParent rel = rel.take 1 := by
  induction hn : rel.length using Nat.strong_induction_on generalizing rel with
  | _ n ih =>
    rw [topParent]
    split
    · rw [ih _ (by simp; omega) _ rfl, List.dropLast_eq_take, List.take_take]
      congr 1
      omega
    · rw [List.take_of_length_le (by omega)]

@[simp]
lemma lexicallyRelative_self (path : List Path) : lexicallyRelative path path = [['.']] := by
  induction path with
  | nil => rfl
  | cons name path ih => rw [lexicallyRelative, if_pos rfl, ih]

/-- Below the base the way is what is left. -/
lemma lexicallyRelative_append (base : List Path) (name : Path) (rest : List Path) :
    lexicallyRelative (base ++ name :: rest) base = name :: rest := by
  induction base with
  | nil => rfl
  | cons b base ih => rw [List.cons_append, lexicallyRelative, if_pos rfl, ih]

/-- From anywhere else it begins by leaving the base. -/
lemma take_lexicallyRelative {path base : List Path} (h : ¬base <+: path) :
    (lexicallyRelative path base).take 1 = [['.', '.']] := by
  induction base generalizing path with
  | nil => exact absurd (List.nil_prefix) h
  | cons b base ih =>
    cases path with
    | nil => rfl
    | cons name path =>
      rw [lexicallyRelative]
      by_cases heq : name = b
      · subst heq
        rw [if_pos rfl]
        exact ih fun hpre => h (List.cons_prefix_cons.2 ⟨rfl, hpre⟩)
      · rw [if_neg heq]
        rfl

lemma withoutExtension_of_nil {name : Path} (h : name.extension = []) :
    name.withoutExtension = name := by
  rw [withoutExtension, h]
  exact List.take_of_length_le (Nat.le_refl _)

end Path

/-- The component that a workspace gives a file. -/
def componentIn (workspace file : Path) : Path :=
  ((Path.topParent (Path.lexicallyRelative file.elements workspace.elements)).headD
    []).withoutExtension

/-- The first workspace counts that is taken for one that has the file. -/
lemma getComponentDir_eq (workspaces : List Path) (file : Path) :
    getComponentDir workspaces file =
      ((workspaces.find? (isFileInWorkSpace · file)).map (componentIn · file)).getD [] := by
  induction workspaces with
  | nil => rfl
  | cons workspace workspaces ih =>
    rw [getComponentDir]
    cases h : isFileInWorkSpace workspace file with
    | true =>
      have hfind : (workspace :: workspaces).find? (isFileInWorkSpace · file) = some workspace :=
        List.find?_cons_of_pos h
      rw [hfind, if_pos rfl, Option.map_some, Option.getD_some, componentIn]
      simp only
      split
      · rfl
      · rw [Path.withoutExtension_of_nil (not_not.1 ‹_›)]
    | false =>
      rw [List.find?_cons_of_neg (by simp [h]), ← ih]
      simp

/-- What a workspace says of a file: it leads out, nowhere or to a name. -/
lemma componentIn_cases (workspace file : Path) :
    (¬workspace.elements <+: file.elements ∧ componentIn workspace file = ['.', '.']) ∨
    (workspace.elements = file.elements ∧ componentIn workspace file = ['.']) ∨
    workspace.Below file (componentIn workspace file) := by
  unfold componentIn
  rw [Path.topParent_eq]
  by_cases h : workspace.elements <+: file.elements
  · obtain ⟨rest, hrest⟩ := h
    cases rest with
    | nil =>
      rw [List.append_nil] at hrest
      refine .inr (.inl ⟨hrest, ?_⟩)
      rw [hrest, Path.lexicallyRelative_self]
      rfl
    | cons name rest =>
      refine .inr (.inr ⟨name, rest, hrest.symm, ?_⟩)
      rw [← hrest, Path.lexicallyRelative_append]
      rfl
  · refine .inl ⟨h, ?_⟩
    rw [Path.take_lexicallyRelative h]
    rfl

lemma componentIn_of_below {workspace file component : Path}
    (h : workspace.Below file component) : componentIn workspace file = component := by
  obtain ⟨name, rest, hfile, rfl⟩ := h
  rw [componentIn, Path.topParent_eq, hfile, Path.lexicallyRelative_append]
  rfl

/-- The files that mislead are those whose component is a row of dots. -/
lemma misleads_iff {workspaces : List Path} {file dots : Path}
    (h : dots = ['.'] ∨ dots = ['.', '.']) :
    Path.Misleads workspaces file dots ↔ getComponentDir workspaces file = dots := by
  have hne : dots ≠ [] := by rcases h with rfl | rfl <;> simp
  rw [getComponentDir_eq, Path.Misleads]
  cases workspaces.find? (isFileInWorkSpace · file) with
  | none => simpa using hne.symm
  | some workspace =>
    simp only [Option.mem_def, Option.some.injEq, exists_eq_left', Option.map_some,
      Option.getD_some]
    constructor
    · rintro (⟨rfl, hpre⟩ | ⟨rfl, heq⟩ | hbelow)
      · rcases componentIn_cases workspace file with ⟨-, h⟩ | ⟨heq, -⟩ | ⟨name, rest, heq, -⟩
        · exact h
        · exact absurd (heq ▸ List.prefix_refl _) hpre
        · exact absurd (heq ▸ List.prefix_append _ _) hpre
      · rcases componentIn_cases workspace file with ⟨hpre, -⟩ | ⟨-, h⟩ | ⟨name, rest, hfile, -⟩
        · exact absurd (heq ▸ List.prefix_refl _) hpre
        · exact h
        · have hlength := congrArg List.length (heq.trans hfile)
          simp at hlength
      · exact componentIn_of_below hbelow
    · rintro rfl
      rcases componentIn_cases workspace file with ⟨hpre, h⟩ | ⟨heq, h⟩ | hbelow
      · exact .inl ⟨h, hpre⟩
      · exact .inr (.inl ⟨h, heq⟩)
      · exact .inr (.inr hbelow)

/-- Any other component is that of a workspace. -/
lemma exists_below {workspaces : List Path} {file : Path}
    (hne : getComponentDir workspaces file ≠ [])
    (hdot : getComponentDir workspaces file ≠ ['.'])
    (hdots : getComponentDir workspaces file ≠ ['.', '.']) :
    ∃ workspace ∈ workspaces, workspace.Below file (getComponentDir workspaces file) := by
  rw [getComponentDir_eq] at *
  cases hfind : workspaces.find? (isFileInWorkSpace · file) with
  | none => simp [hfind] at hne
  | some workspace =>
    simp only [hfind, Option.map_some, Option.getD_some] at hdot hdots ⊢
    refine ⟨workspace, List.mem_of_find?_eq_some hfind, ?_⟩
    rcases componentIn_cases workspace file with ⟨-, h⟩ | ⟨-, h⟩ | hbelow
    · exact absurd h hdots
    · exact absurd h hdot
    · exact hbelow

/-! ### The fold over the changes -/

/-- A change that does not make the loop give up. -/
def FileChange.IsIn (change : FileChange) (workspaces : List Path) (component : Path) : Prop :=
  change.operation = .modified ∧ isCxxSourceFile change.path = true ∧
    getComponentDir workspaces change.path = component

/-- A component comes out of the loop if it is that of all changes, and of those before. -/
lemma installComponentLoop_eq_iff {workspaces : List Path} {component result : Path}
    (hresult : result ≠ []) {changes : List FileChange} (hne : component ≠ [] ∨ changes ≠ []) :
    installComponentLoop workspaces component changes = result ↔
      (component = [] ∨ component = result) ∧ ∀ change ∈ changes,
        change.IsIn workspaces result := by
  induction changes generalizing component with
  | nil =>
    have hcomponent : component ≠ [] := hne.resolve_right (by simp)
    simp [installComponentLoop, hcomponent]
  | cons change changes ih =>
    rw [installComponentLoop, List.forall_mem_cons]
    by_cases hop : change.operation = .modified
    · cases hsource : isCxxSourceFile change.path with
      | false => simp [hop, hresult.symm, FileChange.IsIn, hsource]
      | true =>
        by_cases hcurrent : getComponentDir workspaces change.path = []
        · simp [hop, hcurrent, hresult.symm, FileChange.IsIn]
        · simp only [hop, ne_eq, not_true_eq_false, if_false, Bool.not_true, Bool.false_eq_true,
            hcurrent, FileChange.IsIn, hsource, true_and]
          by_cases hcomponent : component = []
          · rw [if_pos hcomponent, ih (.inl hcurrent)]
            simp [hcurrent, hcomponent, FileChange.IsIn]
          · rw [if_neg hcomponent]
            by_cases heq : component = getComponentDir workspaces change.path
            · rw [if_neg (not_not.2 heq), ih (.inl hcomponent), ← heq]
              simp [hcomponent, FileChange.IsIn]
            · rw [if_pos heq]
              refine ⟨fun h => absurd h.symm hresult, fun h => ?_⟩
              exact absurd ((h.1.resolve_left hcomponent).trans h.2.1.symm) heq
    · simp [hop, hresult.symm, FileChange.IsIn]

/-! ### Endings -/

/-- The endings are a dot and what has neither a dot nor a slash. -/
lemma cxxEndings_cases {ending : Path} (h : ending ∈ cxxEndings) :
    ∃ r, ending = '.' :: r ∧ r ≠ [] ∧ '.' ∉ r ∧ '/' ∉ ending := by
  simp only [cxxEndings, cxxSourceEndings, List.cons_append, List.nil_append, List.mem_cons,
    List.not_mem_nil, or_false] at h
  rcases h with rfl | rfl | rfl | rfl | rfl | rfl <;> exact ⟨_, rfl, by simp, by simp, by simp⟩

lemma exists_suffix_of_regexMatch {endings : List Path} {file : Path}
    (h : regexMatch endings file = true) : ∃ ending ∈ endings, ending <:+ file := by
  obtain ⟨ending, hmem, hmatch⟩ := List.any_eq_true.1 h
  exact ⟨ending, hmem, List.isSuffixOf_iff_suffix.1 (Bool.and_eq_true_iff.1 hmatch).1⟩

/-- A source file is one by its extension. -/
lemma extension_mem_of_isCxxSourceFile {file : Path} (hnormal : file.IsNormal)
    (h : isCxxSourceFile file = true) : file.filename.extension ∈ cxxSourceEndings := by
  obtain ⟨ending, hmem, hsuffix⟩ := exists_suffix_of_regexMatch h
  obtain ⟨r, rfl, hne, hr, hslash⟩ := cxxEndings_cases (List.mem_append_right _ hmem)
  have hname := (hnormal.suffix_filename hsuffix (by simp) hslash).1
  rwa [Path.extension_of_suffix hname hne hr]

/-- An extension that matches is the ending itself. -/
lemma extension_mem_of_isCxxFile {name : Path} (h : isCxxFile name.extension = true) :
    name.extension ∈ cxxEndings := by
  obtain ⟨ending, hmem, hsuffix⟩ := exists_suffix_of_regexMatch h
  obtain ⟨r, rfl, -, -, -⟩ := cxxEndings_cases hmem
  rcases Path.extension_cases name with hnil | ⟨t, ht, hdot⟩
  · rw [hnil] at hsuffix
    exact absurd (List.suffix_nil.1 hsuffix) (by simp)
  · rw [ht] at hsuffix ⊢
    rcases List.suffix_cons_iff.1 hsuffix with heq | hsuffix
    · rwa [← heq]
    · exact absurd (hsuffix.mem List.mem_cons_self) hdot

lemma modifies_of_not_needsRegenerate {changes : List FileChange}
    (h : needsRegenerate changes = false) {change : FileChange} (hc : change ∈ changes) :
    change.Modifies cxxEndings := by
  have hany := List.any_eq_false.1 h change hc
  simp only [Bool.or_eq_true, decide_eq_true_eq, not_or, not_not, Bool.not_eq_true',
    Bool.not_eq_false, ne_eq] at hany
  exact ⟨hany.1.1.1, extension_mem_of_isCxxFile hany.2⟩

/-- Changes of source files alone need no regeneration. -/
lemma not_needsRegenerate {changes : List FileChange}
    (h : ∀ change ∈ changes, change.Modifies cxxSourceEndings) :
    needsRegenerate changes = false := by
  refine List.any_eq_false.2 fun change hc => ?_
  obtain ⟨hop, hext⟩ := h change hc
  have hcmake : isCmakeFile change.path = false := by
    unfold isCmakeFile
    rw [Bool.or_eq_false_iff]
    constructor
    · refine decide_eq_false fun heq => ?_
      rw [heq] at hext
      revert hext
      decide
    · refine decide_eq_false fun heq => ?_
      rw [heq] at hext
      revert hext
      decide
  have hcxx : isCxxFile change.path.filename.extension = true := by
    simp only [cxxSourceEndings, List.mem_cons, List.not_mem_nil, or_false] at hext
    rcases hext with heq | heq | heq <;> rw [heq] <;> decide
  have hne : change.path.filename.extension ≠ [] := by
    intro heq
    rw [heq] at hext
    revert hext
    decide
  simp [hop, hcmake, hcxx, hne]

/-! ### When only what changed is rebuilt -/

/-- What is restricted is so to the component of all changes. -/
lemma watchAndCompile_cases {workspaces : List Path} (forceRegenerate : Bool)
    {changes : List FileChange} (hne : changes ≠ []) :
    watchAndCompile workspaces forceRegenerate changes = [.generate, .buildInstall] ∨
    (needsRegenerate changes = false ∧
      watchAndCompile workspaces forceRegenerate changes = [.buildInstall]) ∨
    ∃ component, component ≠ [] ∧ forceRegenerate = false ∧ needsRegenerate changes = false ∧
      changes.length ≤ fileChangedThreshold ∧
      (∀ change ∈ changes, change.IsIn workspaces component) ∧
      watchAndCompile workspaces forceRegenerate changes =
        [.build component, .installComponent component] := by
  unfold watchAndCompile
  by_cases hregenerate : (forceRegenerate || needsRegenerate changes) = true
  · exact .inl (if_pos hregenerate)
  · obtain ⟨hforce, hneeds⟩ := Bool.or_eq_false_iff.1 (Bool.eq_false_of_not_eq_true hregenerate)
    rw [if_neg hregenerate]
    by_cases hcomponent : getInstallComponent workspaces changes = []
    · exact .inr (.inl ⟨hneeds, if_pos hcomponent⟩)
    · refine .inr (.inr ⟨_, hcomponent, hforce, hneeds, ?_⟩)
      have hcond : ¬(workspaces = [] ∨ fileChangedThreshold < changes.length) := by
        intro hcond
        exact hcomponent (if_pos hcond)
      have hloop : getInstallComponent workspaces changes =
          installComponentLoop workspaces [] changes := if_neg hcond
      refine ⟨Nat.le_of_not_lt (not_or.1 hcond).2, ?_, if_neg hcomponent⟩
      exact ((installComponentLoop_eq_iff hcomponent (.inr hne)).1 hloop.symm).2

/-- A component that all changes belong to is the one that is built. -/
lemma watchAndCompile_of_isIn {workspaces : List Path} {changes : List FileChange}
    {component : Path} (hcomponent : component ≠ []) (hne : changes ≠ [])
    (hlength : changes.length ≤ fileChangedThreshold)
    (hsource : ∀ change ∈ changes, change.Modifies cxxSourceEndings)
    (hin : ∀ change ∈ changes, change.IsIn workspaces component) :
    watchAndCompile workspaces false changes =
      [.build component, .installComponent component] := by
  have hworkspaces : workspaces ≠ [] := by
    rintro rfl
    obtain ⟨change, hc⟩ := List.exists_mem_of_ne_nil changes hne
    exact hcomponent (hin change hc).2.2.symm
  have hinstall : getInstallComponent workspaces changes = component := by
    rw [getInstallComponent, if_neg (not_or.2 ⟨hworkspaces, Nat.not_lt.2 hlength⟩)]
    exact (installComponentLoop_eq_iff hcomponent (.inr hne)).2 ⟨.inl rfl, hin⟩
  rw [watchAndCompile, not_needsRegenerate hsource, hinstall]
  simp [hcomponent]

lemma rebuildsChanged_generate (workspaces : List Path) (changes : List FileChange) :
    RebuildsChanged workspaces changes [.generate, .buildInstall] where
  restricted := by simp
  everything := .inr (by simp)
  regenerates _ := by simp

lemma rebuildsChanged_buildInstall (workspaces : List Path) {changes : List FileChange}
    (h : needsRegenerate changes = false) :
    RebuildsChanged workspaces changes [.buildInstall] where
  restricted := by simp
  everything := .inr (by simp)
  regenerates := fun ⟨_, hc, hnot⟩ => absurd (modifies_of_not_needsRegenerate h hc) hnot

/-- A restricted build is wrong exactly if the changes are few modifications of source files all of
which mislead to the same dots. -/
theorem watchAndCompile_rebuildsChanged_iff (workspaces : List Path) (forceRegenerate : Bool)
    {changes : List FileChange} (hne : changes ≠ [])
    (hnormal : ∀ change ∈ changes, change.path.IsNormal) :
    RebuildsChanged workspaces changes (watchAndCompile workspaces forceRegenerate changes) ↔
      forceRegenerate = true ∨ fileChangedThreshold < changes.length ∨
        ∀ dots, dots = ['.'] ∨ dots = ['.', '.'] → ∃ change ∈ changes,
          ¬(change.operation = .modified ∧ isCxxSourceFile change.path = true ∧
            Path.Misleads workspaces change.path dots) := by
  constructor
  · intro h
    by_contra hcond
    obtain ⟨hforce, hcond⟩ := not_or.1 hcond
    obtain ⟨hlength, hcond⟩ := not_or.1 hcond
    push Not at hcond
    obtain ⟨dots, hdots, hall⟩ := hcond
    have hin : ∀ change ∈ changes, change.IsIn workspaces dots := fun change hc =>
      ⟨(hall change hc).1, (hall change hc).2.1, (misleads_iff hdots).1 (hall change hc).2.2⟩
    have hsource : ∀ change ∈ changes, change.Modifies cxxSourceEndings := fun change hc =>
      ⟨(hin change hc).1, extension_mem_of_isCxxSourceFile (hnormal change hc) (hin change hc).2.1⟩
    have hdotsne : dots ≠ [] := by rcases hdots with rfl | rfl <;> simp
    rw [Bool.eq_false_of_not_eq_true hforce,
      watchAndCompile_of_isIn hdotsne hne (Nat.le_of_not_lt hlength) hsource hin] at h
    obtain ⟨-, hdot, hdotdot⟩ := h.restricted dots (.inl List.mem_cons_self)
    exact hdots.elim hdot hdotdot
  · intro hcond
    rcases watchAndCompile_cases forceRegenerate hne with heq | ⟨hneeds, heq⟩ |
      ⟨component, hcomponent, hforce, hneeds, hlength, hin, heq⟩
    · rw [heq]
      exact rebuildsChanged_generate workspaces changes
    · rw [heq]
      exact rebuildsChanged_buildInstall workspaces hneeds
    · have hcond := (hcond.resolve_left (by simp [hforce])).resolve_left (Nat.not_lt.2 hlength)
      have hnot : ¬(component = ['.'] ∨ component = ['.', '.']) := by
        intro hdots
        obtain ⟨change, hc, hmisleads⟩ := hcond component hdots
        obtain ⟨hop, hsource, hdir⟩ := hin change hc
        exact hmisleads ⟨hop, hsource, (misleads_iff hdots).2 hdir⟩
      obtain ⟨hdot, hdotdot⟩ := not_or.1 hnot
      rw [heq]
      refine ⟨fun c hc => ?_, .inl ⟨component, by simp⟩, fun ⟨change, hc, hnot⟩ =>
        absurd (modifies_of_not_needsRegenerate hneeds hc) hnot⟩
      obtain rfl : c = component := by simpa using hc
      refine ⟨fun change hmem => ?_, hdot, hdotdot⟩
      obtain ⟨hop, hsource, rfl⟩ := hin change hmem
      exact ⟨⟨hop, extension_mem_of_isCxxSourceFile (hnormal change hmem) hsource⟩,
        exists_below hcomponent hdot hdotdot⟩

/-- The modification of `x/y.cc` in a directory. -/
def sourceChange (directory : Path) : FileChange :=
  ⟨directory ++ ['/', 'x', '/', 'y', '.', 'c', 'c'], .modified, []⟩

theorem rebuildsChanged_sourceChange :
    RebuildsChanged [['/', 'w']] [sourceChange ['/', 'w']]
      (watchAndCompile [['/', 'w']] false [sourceChange ['/', 'w']]) := by
  refine (watchAndCompile_rebuildsChanged_iff [['/', 'w']] false (by simp) (by decide)).2
    (.inr (.inr fun dots hdots => ⟨_, List.mem_singleton_self _, fun h => ?_⟩))
  have hdir : getComponentDir [['/', 'w']] (sourceChange ['/', 'w']).path = dots :=
    (misleads_iff hdots).1 h.2.2
  have hfind : [['/', 'w']].find? (isFileInWorkSpace · (sourceChange ['/', 'w']).path) =
      some ['/', 'w'] := by decide
  have hbelow : Path.Below ['/', 'w'] (sourceChange ['/', 'w']).path ['x'] :=
    ⟨['x'], [['y', '.', 'c', 'c']], by decide, by decide⟩
  rw [getComponentDir_eq, hfind, Option.map_some, componentIn_of_below hbelow] at hdir
  rcases hdots with rfl | rfl <;> simp at hdir

/-- A file in a directory whose name only begins like that of a workspace. -/
theorem sibling_not_rebuildsChanged :
    ¬∀ (workspaces : List Path) (forceRegenerate : Bool) (changes : List FileChange),
      changes ≠ [] → (∀ workspace ∈ workspaces, workspace.IsNormal) →
      (∀ change ∈ changes, change.path.IsNormal) →
      RebuildsChanged workspaces changes (watchAndCompile workspaces forceRegenerate changes) := by
  intro h
  have hrebuilds := h [['/', 'w']] false [sourceChange ['/', 'w', 's']] (by simp) (by decide)
    (by decide)
  have hdir : getComponentDir [['/', 'w']] (sourceChange ['/', 'w', 's']).path = ['.', '.'] :=
    (misleads_iff (.inr rfl)).1 ⟨['/', 'w'], by decide, .inl ⟨rfl, by decide⟩⟩
  have hsource : ∀ change ∈ [sourceChange ['/', 'w', 's']], change.Modifies cxxSourceEndings := by
    intro change hc
    obtain rfl := List.mem_singleton.1 hc
    exact ⟨rfl, by decide⟩
  have hin : ∀ change ∈ [sourceChange ['/', 'w', 's']],
      change.IsIn [['/', 'w']] ['.', '.'] := by
    intro change hc
    obtain rfl := List.mem_singleton.1 hc
    exact ⟨rfl, by decide, hdir⟩
  rw [watchAndCompile_of_isIn (by simp) (by simp) (by decide) hsource hin] at hrebuilds
  exact (hrebuilds.restricted ['.', '.'] (.inl List.mem_cons_self)).2.2 rfl

end Idle
