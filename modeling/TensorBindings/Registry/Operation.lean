import TensorBindings.Registry

/-!
Contract: a registry in use.

Owns: what can be done to a registry and asked of it, the answer to each, and the answers to
a whole sequence. A signature that comes too late is refused, and the registry stays as it
was. Asking for the display names of call sites may leave them behind in the registry; no
other question changes it.
-/

set_option autoImplicit false

namespace TensorBindings.Registry

inductive Operation where
  | register (signature : Signature)
  | freeze
  | isFrozen
  | size
  | entries
  | generated
  | declared (name : String)
  | isCallable (name : String)
  | callSites
deriving DecidableEq, Repr

inductive Answer where
  | done
  | refused (error : RegistryError)
  | truth (value : Bool)
  | count (value : Nat)
  | signatures (list : List Signature)
  | callSites (sites : CallSites)

/-- The registry after an operation, and the answer. -/
def perform (registry : Registry) : Operation → Registry × Answer
  | .register signature =>
      match registry.register signature with
      | .ok next => (next, .done)
      | .error error => (registry, .refused error)
  | .freeze => (registry.freeze, .done)
  | .isFrozen => (registry, .truth registry.frozen)
  | .size => (registry, .count registry.size)
  | .entries => (registry, .signatures registry.entries)
  | .generated => (registry, .signatures registry.generated)
  | .declared name => (registry, .signatures (registry.declared name))
  | .isCallable name => (registry, .truth (registry.isCallable name))
  | .callSites => (registry.keepCallSites, .callSites registry.callSites)

/-- The registry after a sequence of operations. -/
def performAll (registry : Registry) (operations : List Operation) : Registry :=
  operations.foldl (fun current operation => (current.perform operation).1) registry

/-- The answers to a sequence of operations. -/
def answers (registry : Registry) : List Operation → List Answer
  | [] => []
  | operation :: rest =>
      (registry.perform operation).2 :: answers (registry.perform operation).1 rest

end TensorBindings.Registry
