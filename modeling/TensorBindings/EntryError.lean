import TensorBindings.SyntaxFault

/-!
Contract: why one entry of a table is skipped.

Owns: the causes, the category each belongs to, and its report. Such an error concerns
one declaration or one formula; all other entries are still processed.

Does not own: errors that stop a run (`Table.Error`).
-/

set_option autoImplicit false

namespace TensorBindings

inductive EntryError where
  /-- A type tag without a target type. -/
  | unsupportedType (tag : String)
  /-- A type tag that only a result can have. -/
  | unsupportedArgumentType (tag : String)
  /-- A method was asked for, and no argument can be its receiver. -/
  | missingReceiver (declaration : String)
  | noReturns (declaration : String)
  | unknownDeclaration (name : String)
  /-- Several declarations have the name, and none of them the argument types. -/
  | noMatchingOverload (candidates : Nat) (name : String) (typeTags : List String)
  /-- A formula for something that is no argument of its declaration. -/
  | unknownOutput (output declaration : String)
  /-- A formula calls a name that no formula can call. -/
  | unknownCallee (name : String)
  /-- A formula that uses the gradients of several results. -/
  | severalGradients (outputs : String)
  | duplicateOutput (output : String)
  | formulaSyntax (text : String) (fault : SyntaxFault)
  | headerSyntax (text : String) (fault : SyntaxFault)
deriving DecidableEq, Repr

namespace EntryError

/-- The category of an error in reports. -/
def code : EntryError → String
  | unsupportedType _ | unsupportedArgumentType _ => "UnsupportedType"
  | missingReceiver _ => "MissingSelf"
  | noReturns _ => "NoReturns"
  | unknownDeclaration _ => "UnknownDeclaration"
  | noMatchingOverload _ _ _ => "AmbiguousOrMissingOverload"
  | unknownOutput _ _ | unknownCallee _ => "MissingDependency"
  | severalGradients _ => "UnsupportedMultiGradShape"
  | duplicateOutput _ => "DuplicateOutput"
  | formulaSyntax _ _ | headerSyntax _ _ => "UnsupportedSyntax"

def message : EntryError → String
  | unsupportedType tag => "invalid type '" ++ tag ++ "'"
  | unsupportedArgumentType tag => "invalid argument type '" ++ tag ++ "'"
  | missingReceiver declaration =>
      "method of Tensor without a Tensor 'self' argument: " ++ declaration
  | noReturns declaration => "declaration '" ++ declaration ++ "' has no returns"
  | unknownDeclaration name => "no declaration named '" ++ name ++ "'"
  | noMatchingOverload candidates name typeTags =>
      "none of " ++ toString candidates ++ " overloads of '" ++ name ++ "' takes (" ++
        ", ".intercalate typeTags ++ ")"
  | unknownOutput output declaration =>
      "output '" ++ output ++ "' is not an argument of '" ++ declaration ++ "'"
  | unknownCallee name => "formula calls '" ++ name ++ "' which has no binding"
  | severalGradients outputs =>
      "body of '" ++ outputs ++ "' consumes several upstream gradients ('grads')"
  | duplicateOutput output =>
      "output '" ++ output ++ "' is differentiated by more than one body"
  | formulaSyntax text fault => "cannot parse formula '" ++ text ++ "': " ++ fault.label
  | headerSyntax text fault => "cannot parse formula header '" ++ text ++ "': " ++ fault.label

end EntryError

end TensorBindings
