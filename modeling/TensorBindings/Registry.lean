import Std.Data.TreeMap
import TensorBindings.Signature.Basic

/-!
Contract: the registry of all signatures.

Owns: an ordered store of signatures, filled before it is frozen and only read after
that, with an index by engine name, an index by alias, and the display names for call
sites. Order matters: of several signatures the one registered first is preferred, and
bindings are written in this order.

The display names are collected when they are asked for. A frozen registry keeps them for
the next time; an open one does not, since it may still grow.

Helpers are known to call sites, but they are no declarations: no header refers to one.

Does not own: which of several declarations a header means (`Overload`).
-/

set_option autoImplicit false

namespace TensorBindings

/-- Display names for call sites, by the name that a formula calls. -/
structure CallSites where
  methods : Std.TreeMap String String := {}
  functions : Std.TreeMap String String := {}

namespace CallSites

/-- The display name for a called method; a name without an entry stays as it is. -/
def method (sites : CallSites) (name : String) : String := sites.methods.getD name name

def function (sites : CallSites) (name : String) : String := sites.functions.getD name name

/-- Add the display name of a signature, unless its engine name already has one. Methods
of the tensor type have no call sites. -/
def add (sites : CallSites) (signature : Signature) : CallSites :=
  match signature.invocation with
  | .method =>
      { sites with methods := sites.methods.insertIfNew signature.engineName signature.name }
  | .function =>
      { sites with functions := sites.functions.insertIfNew signature.engineName signature.name }
  | .onType => sites

def ofList (signatures : List Signature) : CallSites := signatures.foldl add {}

end CallSites

/-- Signatures by name, each list in order of registration. -/
abbrev NameIndex := Std.TreeMap String (List Signature)

namespace NameIndex

def named (index : NameIndex) (name : String) : List Signature := index.getD name []

def add (index : NameIndex) (name : String) (signature : Signature) : NameIndex :=
  index.insert name (index.named name ++ [signature])

end NameIndex

structure Registry where
  entries : List Signature := []
  byName : NameIndex := {}
  byAlias : NameIndex := {}
  frozen : Bool := false
  /-- The display names for call sites, if they were kept. -/
  keptSites? : Option CallSites := none

inductive RegistryError where
  | frozen (name : String)
deriving DecidableEq, Repr

def RegistryError.message : RegistryError → String
  | .frozen name => "cannot register '" ++ name ++ "': registry is frozen"

namespace Registry

/-- An empty alias is no alias. -/
def indexAlias (index : NameIndex) (signature : Signature) : NameIndex :=
  match signature.alias? with
  | some name => if name = "" then index else index.add name signature
  | none => index

/-- The registry with one more signature at its end. -/
def add (registry : Registry) (signature : Signature) : Registry :=
  { registry with
    entries := registry.entries ++ [signature]
    byName := registry.byName.add signature.engineName signature
    byAlias := indexAlias registry.byAlias signature }

def register (registry : Registry) (signature : Signature) : Except RegistryError Registry :=
  if registry.frozen then .error (.frozen signature.engineName) else .ok (registry.add signature)

def freeze (registry : Registry) : Registry := { registry with frozen := true }

def ofList (signatures : List Signature) : Registry := signatures.foldl add {}

/-- The frozen registry of helpers, then generated signatures. -/
def build (helpers generated : List Signature) : Registry := (ofList (helpers ++ generated)).freeze

def size (registry : Registry) : Nat := registry.entries.length

/-- The signatures that get a binding. -/
def generated (registry : Registry) : List Signature :=
  registry.entries.filter (!·.isHelper)

/-- The declarations with an engine name, or else those with it as their alias. -/
def declared (registry : Registry) (name : String) : List Signature :=
  let direct := (registry.byName.named name).filter (!·.isHelper)
  if direct.isEmpty then (registry.byAlias.named name).filter (!·.isHelper) else direct

/-- A formula may call the name. Methods of the tensor type are out of its reach. -/
def isCallable (registry : Registry) (name : String) : Bool :=
  (registry.byName.named name ++ registry.byAlias.named name).any (·.invocation != .onType)

/-- The display names for call sites. What was kept counts only in a frozen registry. -/
def callSites (registry : Registry) : CallSites :=
  match registry.keptSites?, registry.frozen with
  | some sites, true => sites
  | _, _ => .ofList registry.entries

/-- The registry after its display names were asked for. -/
def keepCallSites (registry : Registry) : Registry :=
  if registry.frozen then { registry with keptSites? := some registry.callSites } else registry

end Registry

end TensorBindings
