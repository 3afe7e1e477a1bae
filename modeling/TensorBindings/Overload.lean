import TensorBindings.Header.Reader
import TensorBindings.Registry

/-!
Contract: the declaration that a header refers to.

Owns: the choice between declarations of one name. A single one is taken as it is. Of
several, the first one with the argument types of the header is taken, so that a later
declaration never displaces an earlier one that fits.
-/

set_option autoImplicit false

namespace TensorBindings

/-- The signature takes arguments of exactly these types. -/
def Signature.takes (signature : Signature) (types : List TargetType) : Bool :=
  signature.args.map (·.type) == types

namespace Registry

def resolve (registry : Registry) (header : Header) : Except EntryError Signature :=
  match registry.declared header.name with
  | [] => .error (.unknownDeclaration header.name)
  | [only] => .ok only
  | candidates => do
      let types ← header.typeTags.mapM TargetType.resolveArgument
      match candidates.find? (·.takes types) with
      | some signature => return signature
      | none => .error (.noMatchingOverload candidates.length header.name header.typeTags)

end Registry

end TensorBindings
