import TensorBindings.Text.Quoted

/-!
Contract: failures of file operations.

Owns: the reasons for which a path cannot be used, and their report.
-/

set_option autoImplicit false

namespace TensorBindings

inductive FileProblem where
  | notFound
  | alreadyExists
  | notADirectory
  | isADirectory
  | nameTooLong
deriving DecidableEq, Repr

namespace FileProblem

def number : FileProblem → Nat
  | notFound => 2
  | alreadyExists => 17
  | notADirectory => 20
  | isADirectory => 21
  | nameTooLong => 36

def description : FileProblem → String
  | notFound => "No such file or directory"
  | alreadyExists => "File exists"
  | notADirectory => "Not a directory"
  | isADirectory => "Is a directory"
  | nameTooLong => "File name too long"

end FileProblem

structure FileError where
  problem : FileProblem
  path : String
deriving DecidableEq, Repr

def FileError.message (error : FileError) : String :=
  "[Errno " ++ toString error.problem.number ++ "] " ++ error.problem.description ++ ": " ++
    Text.quoted error.path

end TensorBindings
