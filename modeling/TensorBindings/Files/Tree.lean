import TensorBindings.Files.Error
import TensorBindings.Files.Path

/-!
Contract: a file system as a value.

Owns: a tree of directories and texts with a working directory, and the operations on it
that a run needs: to read a text, to make directories, and to write a text. Each gives
the problem for which the path cannot be used.

A file holds a text, not bytes: whatever a file holds can be decoded. There are no
permissions and no links, so that every text can be read and replaced, and no location
stands for another.

A path is followed step by step from an existing directory, so that a step after a missing
name is not found, and a step after a text is refused. Steps and paths have a greatest
length.
-/

set_option autoImplicit false

namespace TensorBindings

/-- Names of directories from the root down. -/
abbrev Location := List String

inductive Node where
  | directory
  | file (text : String)
deriving DecidableEq, Repr

structure FileTree where
  /-- What stands at each location; the root itself is a directory. -/
  nodes : List (Location × Node) := []
  workingDirectory : Location := []
deriving DecidableEq, Repr

namespace FileTree

def node? (tree : FileTree) (location : Location) : Option Node :=
  if location = [] then some .directory
  else (tree.nodes.find? (·.1 == location)).map (·.2)

/-- Put a node at a location, in place of what was there. -/
def put (tree : FileTree) (location : Location) (node : Node) : FileTree :=
  { tree with nodes := tree.nodes.filter (·.1 != location) ++ [(location, node)] }

/-- Follow steps from a location. The place where they lead need not exist. -/
def follow (tree : FileTree) (here : Location) : List String → Except FileProblem Location
  | [] => .ok here
  | step :: rest =>
      match tree.node? here with
      | none => .error .notFound
      | some (.file _) => .error .notADirectory
      | some .directory =>
          if Path.maxStepBytes < step.utf8ByteSize then .error .nameTooLong
          else if step = ".." then tree.follow here.dropLast rest else tree.follow (here ++ [step]) rest

def locate (tree : FileTree) (path : Path) : Except FileProblem Location :=
  if Path.maxBytes < path.toText.utf8ByteSize then .error .nameTooLong
  else tree.follow (if path.isAbsolute then [] else tree.workingDirectory) path.steps

/-- The location of a path and what stands there. -/
def find (tree : FileTree) (path : Path) : Except FileProblem (Location × Option Node) :=
  match tree.locate path with
  | .ok location => .ok (location, tree.node? location)
  | .error problem => .error problem

def isDirectory (tree : FileTree) (path : Path) : Bool :=
  match tree.find path with
  | .ok (_, some .directory) => true
  | _ => false

def read (tree : FileTree) (path : Path) : Except FileError String :=
  match tree.find path with
  | .ok (_, some (.file text)) => .ok text
  | .ok (_, some .directory) => .error ⟨.isADirectory, path.toText⟩
  | .ok (_, none) => .error ⟨.notFound, path.toText⟩
  | .error problem => .error ⟨problem, path.toText⟩

def write (tree : FileTree) (path : Path) (text : String) : Except FileError FileTree :=
  match tree.find path with
  | .ok (_, some .directory) => .error ⟨.isADirectory, path.toText⟩
  | .ok (location, _) => .ok (tree.put location (.file text))
  | .error problem => .error ⟨problem, path.toText⟩

/-- Make one directory in an existing one. -/
def makeDirectory (tree : FileTree) (path : Path) : Except FileError FileTree :=
  match tree.find path with
  | .ok (location, none) => .ok (tree.put location .directory)
  | .ok (_, some _) => .error ⟨.alreadyExists, path.toText⟩
  | .error problem => .error ⟨problem, path.toText⟩

/-- Make one directory, unless it is there. -/
def ensureDirectory (tree : FileTree) (path : Path) : Except FileError FileTree :=
  match tree.makeDirectory path with
  | .ok made => .ok made
  | .error error =>
      if error.problem ≠ .notFound ∧ tree.isDirectory path then .ok tree else .error error

/-- Make a directory with those above it, unless it is there; the steps of the path come
with the last one first. The directories above are made only if the first attempt does not
find them. -/
def ensureSteps (tree : FileTree) (root : String) : List String → Except FileError FileTree
  | [] => tree.ensureDirectory { root }
  | last :: above =>
      let path : Path := { root, steps := (last :: above).reverse }
      match tree.ensureDirectory path with
      | .ok made => .ok made
      | .error error =>
          if error.problem = .notFound then
            match tree.ensureSteps root above with
            | .ok made => made.ensureDirectory path
            | .error error => .error error
          else .error error

def ensureDirectories (tree : FileTree) (path : Path) : Except FileError FileTree :=
  tree.ensureSteps path.root path.steps.reverse

end FileTree

end TensorBindings
