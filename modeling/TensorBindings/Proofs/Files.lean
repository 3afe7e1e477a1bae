import Mathlib.Data.List.Basic
import TensorBindings.Files.Tree
import TensorBindings.Proofs.Fallible

/-!
Contract: what file operations do to a file tree.

Owns: when texts are read and written, what making directories and writing a text leave as it
was, and where paths lead afterwards.

All operations of a run keep the directories that there are. A path leads through directories
only, so it leads to the same place after the operations as before.
-/

set_option autoImplicit false

namespace TensorBindings

namespace Path

/-- A name for a file in a directory: one step that leads neither up nor nowhere. -/
structure IsFileName (name : String) : Prop where
  isStep : isStep name = true
  notParent : name ≠ ".."
  noSlash : '/' ∉ name.toList

instance (name : String) : Decidable (IsFileName name) :=
  decidable_of_iff (isStep name = true ∧ name ≠ ".." ∧ '/' ∉ name.toList)
    ⟨fun ⟨isStep, notParent, noSlash⟩ => ⟨isStep, notParent, noSlash⟩,
      fun isFileName => ⟨isFileName.isStep, isFileName.notParent, isFileName.noSlash⟩⟩

private theorem splitAt_of_not_mem {separator : Char} {chars : List Char}
    (apart : separator ∉ chars) :
    Text.splitAt separator chars = [chars] := by
  induction chars with
  | nil => rfl
  | cons first rest inductionHypothesis =>
      rw [List.mem_cons, not_or] at apart
      rw [Text.splitAt, if_neg (Ne.symm apart.1), inductionHypothesis apart.2]

private theorem rootOf_of_not_mem {chars : List Char} (apart : '/' ∉ chars) :
    rootOf chars = "" := by
  unfold rootOf
  split
  · simp at apart
  · simp at apart
  · simp at apart
  · rfl

/-- A file name is a path of one step. -/
theorem ofText_of_isFileName {name : String} (isFileName : IsFileName name) :
    ofText name = { steps := [name] } := by
  unfold ofText
  rw [rootOf_of_not_mem isFileName.noSlash, splitAt_of_not_mem isFileName.noSlash]
  simp [isFileName.isStep]

/-- In a directory a file name is one more step. -/
theorem join_ofText_of_isFileName {name : String} (isFileName : IsFileName name)
    (directory : Path) :
    directory.join (ofText name) = { directory with steps := directory.steps ++ [name] } := by
  rw [ofText_of_isFileName isFileName]
  rfl

end Path

namespace FileTree

/-! ### Nodes -/

private theorem node?_root (tree : FileTree) : tree.node? [] = some .directory := rfl

private theorem node?_put {location : Location} (below : location ≠ []) (tree : FileTree)
    (node : Node) :
    (tree.put location node).node? location = some node := by
  have gone : (tree.nodes.filter (·.1 != location)).find? (·.1 == location) = none := by
    rw [List.find?_eq_none]
    intro entry member
    have kept := List.of_mem_filter member
    simpa using kept
  rw [node?, if_neg below, put, List.find?_append, gone]
  simp

private theorem node?_put_of_ne {location other : Location} (different : other ≠ location)
    (tree : FileTree) (node : Node) :
    (tree.put location node).node? other = tree.node? other := by
  have kept : (tree.nodes.filter (·.1 != location)).find? (·.1 == other) =
      tree.nodes.find? (·.1 == other) := by
    rw [List.find?_filter]
    congr 1
    funext entry
    by_cases isOther : entry.1 = other
    · simp [isOther, different]
    · simp [isOther]
  unfold node? put
  rw [List.find?_append, kept]
  simp [different.symm]

/-! ### Paths -/

/-- Where a step leads from a directory. -/
def enter (here : Location) (step : String) : Location :=
  if step = ".." then here.dropLast else here ++ [step]

private theorem follow_cons_eq_ok_iff {tree : FileTree} {here there : Location} {step : String}
    {rest : List String} :
    tree.follow here (step :: rest) = .ok there ↔
      tree.node? here = some .directory ∧ step.utf8ByteSize ≤ Path.maxStepBytes ∧
        tree.follow (enter here step) rest = .ok there := by
  rw [follow]
  cases tree.node? here with
  | none => simp
  | some node =>
      cases node with
      | file text => simp
      | directory =>
          by_cases fits : step.utf8ByteSize ≤ Path.maxStepBytes
          · simp only [Nat.not_lt_of_le fits, if_false, fits, true_and, enter]
            split_ifs <;> rfl
          · simp [fits, Nat.lt_of_not_le fits]

private theorem follow_concat_eq_ok {tree : FileTree} {here there : Location} {steps : List String}
    {last : String} (followed : tree.follow here (steps ++ [last]) = .ok there) :
    ∃ directory, tree.follow here steps = .ok directory ∧ there = enter directory last := by
  induction steps generalizing here with
  | nil =>
      obtain ⟨_, _, ends⟩ := follow_cons_eq_ok_iff.mp followed
      exact ⟨here, rfl, (Except.ok.inj ends).symm⟩
  | cons step rest inductionHypothesis =>
      obtain ⟨isDirectory, fits, followedRest⟩ := follow_cons_eq_ok_iff.mp followed
      obtain ⟨directory, reached, ends⟩ := inductionHypothesis followedRest
      exact ⟨directory, follow_cons_eq_ok_iff.mpr ⟨isDirectory, fits, reached⟩, ends⟩

private theorem locate_eq_ok_iff {tree : FileTree} {path : Path} {location : Location} :
    tree.locate path = .ok location ↔
      path.toText.utf8ByteSize ≤ Path.maxBytes ∧
        tree.follow (if path.isAbsolute then [] else tree.workingDirectory) path.steps =
          .ok location := by
  unfold locate
  split_ifs with long <;> simp [Nat.not_le_of_lt, Nat.le_of_not_lt, *]

/-- Two file names in one directory lead to one place only if they are the same. -/
theorem locate_fileName_injective {tree : FileTree} {directory : Path} {left right : String}
    (leftName : Path.IsFileName left) (rightName : Path.IsFileName right) {location : Location}
    (ofLeft : tree.locate (directory.join (.ofText left)) = .ok location)
    (ofRight : tree.locate (directory.join (.ofText right)) = .ok location) : left = right := by
  rw [Path.join_ofText_of_isFileName leftName, locate_eq_ok_iff] at ofLeft
  rw [Path.join_ofText_of_isFileName rightName, locate_eq_ok_iff] at ofRight
  obtain ⟨here, reached, isLeft⟩ := follow_concat_eq_ok ofLeft.2
  obtain ⟨there, reachedAgain, isRight⟩ := follow_concat_eq_ok ofRight.2
  have same : here = there := Except.ok.inj (reached.symm.trans reachedAgain)
  rw [isRight, enter, if_neg rightName.notParent, enter, if_neg leftName.notParent, same] at isLeft
  simpa using isLeft.symm

/-! ### Reading and writing -/

theorem read_eq_ok_iff {tree : FileTree} {path : Path} {text : String} :
    tree.read path = .ok text ↔
      ∃ location, tree.locate path = .ok location ∧ tree.node? location = some (.file text) := by
  unfold read find
  cases tree.locate path with
  | error problem => simp
  | ok location =>
      cases standing : tree.node? location with
      | none => simp [standing]
      | some node => cases node <;> simp [standing]

/-- A text is written at every place that can be located and is no directory. -/
theorem write_eq_ok_iff {tree written : FileTree} {path : Path} {text : String} :
    tree.write path text = .ok written ↔
      ∃ location, tree.locate path = .ok location ∧ tree.node? location ≠ some .directory ∧
        tree.put location (.file text) = written := by
  unfold write find
  cases tree.locate path with
  | error problem => simp
  | ok location =>
      cases standing : tree.node? location with
      | none => simp [standing]
      | some node => cases node <;> simp [standing]

/-! ### Directories that stay -/

/-- Every directory is still one, and paths start at the same place. -/
structure KeepsDirectories (before after : FileTree) : Prop where
  workingDirectory : after.workingDirectory = before.workingDirectory
  directory : ∀ location, before.node? location = some .directory →
    after.node? location = some .directory

namespace KeepsDirectories

variable {before between after : FileTree}

theorem trans (first : KeepsDirectories before between) (second : KeepsDirectories between after) :
    KeepsDirectories before after where
  workingDirectory := second.workingDirectory.trans first.workingDirectory
  directory := fun location isDirectory =>
    second.directory location (first.directory location isDirectory)

theorem follow (keeps : KeepsDirectories before after) {here there : Location}
    {steps : List String} (followed : before.follow here steps = .ok there) :
    after.follow here steps = .ok there := by
  induction steps generalizing here with
  | nil => exact followed
  | cons step rest inductionHypothesis =>
      obtain ⟨isDirectory, fits, followedRest⟩ := follow_cons_eq_ok_iff.mp followed
      exact follow_cons_eq_ok_iff.mpr
        ⟨keeps.directory here isDirectory, fits, inductionHypothesis followedRest⟩

/-- A path leads where it led. -/
theorem locate (keeps : KeepsDirectories before after) {path : Path} {location : Location}
    (located : before.locate path = .ok location) : after.locate path = .ok location := by
  rw [locate_eq_ok_iff] at located ⊢
  rw [keeps.workingDirectory]
  exact ⟨located.1, keeps.follow located.2⟩

end KeepsDirectories

private theorem keepsDirectories_put {tree : FileTree} {location : Location}
    (noDirectory : tree.node? location ≠ some .directory) (node : Node) :
    KeepsDirectories tree (tree.put location node) where
  workingDirectory := rfl
  directory := by
    intro other isDirectory
    have different : other ≠ location := by
      rintro rfl
      exact noDirectory isDirectory
    rw [node?_put_of_ne different]
    exact isDirectory

/-- What a written text does: it is read where it was written, and nothing else changes. -/
theorem write_spec {tree written : FileTree} {path : Path} {text : String}
    (wrote : tree.write path text = .ok written) :
    ∃ location, tree.locate path = .ok location ∧ written.node? location = some (.file text) ∧
      (∀ other, other ≠ location → written.node? other = tree.node? other) ∧
      KeepsDirectories tree written := by
  obtain ⟨location, located, noDirectory, rfl⟩ := write_eq_ok_iff.mp wrote
  have below : location ≠ [] := by
    rintro rfl
    exact noDirectory tree.node?_root
  exact ⟨location, located, node?_put below tree _, fun _ different => node?_put_of_ne different _ _,
    keepsDirectories_put noDirectory _⟩

/-! ### New directories -/

/-- All that is new is a directory at a place where nothing was. -/
structure OnlyMakesDirectories (before after : FileTree) : Prop where
  workingDirectory : after.workingDirectory = before.workingDirectory
  node : ∀ location, after.node? location = before.node? location ∨
    (before.node? location = none ∧ after.node? location = some .directory)

namespace OnlyMakesDirectories

theorem refl (tree : FileTree) : OnlyMakesDirectories tree tree := ⟨rfl, fun _ => Or.inl rfl⟩

theorem trans {before between after : FileTree} (first : OnlyMakesDirectories before between)
    (second : OnlyMakesDirectories between after) : OnlyMakesDirectories before after where
  workingDirectory := second.workingDirectory.trans first.workingDirectory
  node := by
    intro location
    rcases second.node location with same | ⟨missing, made⟩
    · rw [same]
      exact first.node location
    · rcases first.node location with same | ⟨_, made⟩
      · exact Or.inr ⟨same ▸ missing, made⟩
      · rw [made] at missing
        cases missing

end OnlyMakesDirectories

private theorem onlyMakesDirectories_put {tree : FileTree} {location : Location}
    (missing : tree.node? location = none) :
    OnlyMakesDirectories tree (tree.put location .directory) where
  workingDirectory := rfl
  node := by
    intro other
    by_cases isNew : other = location
    · subst isNew
      have below : other ≠ [] := by
        rintro rfl
        cases missing
      exact Or.inr ⟨missing, node?_put below tree _⟩
    · exact Or.inl (node?_put_of_ne isNew tree _)

private theorem makeDirectory_eq_ok_iff {tree made : FileTree} {path : Path} :
    tree.makeDirectory path = .ok made ↔
      ∃ location, tree.locate path = .ok location ∧ tree.node? location = none ∧
        tree.put location .directory = made := by
  unfold makeDirectory find
  cases tree.locate path with
  | error problem => simp
  | ok location => cases standing : tree.node? location <;> simp [standing]

private theorem onlyMakesDirectories_of_ensureDirectory {tree made : FileTree} {path : Path}
    (ensured : tree.ensureDirectory path = .ok made) : OnlyMakesDirectories tree made := by
  unfold ensureDirectory at ensured
  split at ensured
  · next direct =>
      cases ensured
      obtain ⟨location, _, missing, rfl⟩ := makeDirectory_eq_ok_iff.mp direct
      exact onlyMakesDirectories_put missing
  · split_ifs at ensured
    cases ensured
    exact .refl tree

/-- However many directories above a directory are missing, all that is new is directories. -/
theorem onlyMakesDirectories_of_ensureSteps {tree made : FileTree} {root : String}
    {steps : List String} (ensured : tree.ensureSteps root steps = .ok made) :
    OnlyMakesDirectories tree made := by
  induction steps generalizing made with
  | nil => exact onlyMakesDirectories_of_ensureDirectory ensured
  | cons last above inductionHypothesis =>
      rw [ensureSteps] at ensured
      split at ensured
      · next direct =>
          cases ensured
          exact onlyMakesDirectories_of_ensureDirectory direct
      · split at ensured
        · split at ensured
          · next ofAbove =>
              exact (inductionHypothesis ofAbove).trans
                (onlyMakesDirectories_of_ensureDirectory ensured)
          · cases ensured
        · cases ensured

end FileTree

end TensorBindings
