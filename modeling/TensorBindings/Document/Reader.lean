import TensorBindings.Document.Token

/-!
Contract: reading JSON documents.

Owns: the reader, a machine that takes one token at a time and keeps the lists and
records that are still open as a stack, and the report of a problem with the line and
column at which it stands. The problem reported is the first one in reading order.

Does not own: the division of documents into tokens (`Document.Token`).
-/

set_option autoImplicit false

namespace TensorBindings.Document

inductive Frame where
  | list (read : List Document)
  | record (fields : List (String × Document)) (key : String)
deriving Repr

inductive ReaderState where
  /-- A value has to come. -/
  | valueNeeded (stack : List Frame)
  /-- A list was opened. -/
  | listOpened (stack : List Frame)
  /-- A record was opened. -/
  | recordOpened (stack : List Frame)
  /-- A name of a record has to come. -/
  | nameNeeded (stack : List Frame) (fields : List (String × Document))
  /-- A name of a record was read. -/
  | nameRead (stack : List Frame) (fields : List (String × Document)) (key : String)
  /-- A value was read. -/
  | valueRead (stack : List Frame) (value : Document)
  | done (value : Document)
deriving Repr

namespace ReaderState

def stepValue (stack : List Frame) (placed : PlacedToken) : Except Fault ReaderState :=
  match placed.token with
  | .openList => .ok (.listOpened stack)
  | .openRecord => .ok (.recordOpened stack)
  | .scalar value => .ok (.valueRead stack value)
  | .text content => .ok (.valueRead stack (.text content))
  | .brokenText fault => .error fault
  | _ => .error ⟨.valueExpected, placed.position⟩

def stepName (stack : List Frame) (fields : List (String × Document)) (placed : PlacedToken) :
    Except Fault ReaderState :=
  match placed.token with
  | .text key => .ok (.nameRead stack fields key)
  | .brokenText fault => .error fault
  | _ => .error ⟨.nameExpected, placed.position⟩

def stepValueRead (stack : List Frame) (value : Document) (placed : PlacedToken) :
    Except Fault ReaderState :=
  match stack, placed.token with
  | [], .endOfText => .ok (.done value)
  | [], _ => .error ⟨.extraData, placed.position⟩
  | .list read :: below, .comma => .ok (.valueNeeded (.list (read ++ [value]) :: below))
  | .list read :: below, .closeList => .ok (.valueRead below (.list (read ++ [value])))
  | .record fields key :: below, .comma => .ok (.nameNeeded below (setField key value fields))
  | .record fields key :: below, .closeRecord =>
      .ok (.valueRead below (.record (setField key value fields)))
  | _ :: _, _ => .error ⟨.commaExpected, placed.position⟩

def step (state : ReaderState) (placed : PlacedToken) : Except Fault ReaderState :=
  match state, placed.token with
  | .valueNeeded stack, _ => stepValue stack placed
  | .listOpened stack, .closeList => .ok (.valueRead stack (.list []))
  | .listOpened stack, _ => stepValue (.list [] :: stack) placed
  | .recordOpened stack, .closeRecord => .ok (.valueRead stack (.record []))
  | .recordOpened stack, _ => stepName stack [] placed
  | .nameNeeded stack fields, _ => stepName stack fields placed
  | .nameRead stack fields key, .colon => .ok (.valueNeeded (.record fields key :: stack))
  | .nameRead _ _ _, _ => .error ⟨.colonExpected, placed.position⟩
  | .valueRead stack value, _ => stepValueRead stack value placed
  | .done _, _ => .error ⟨.extraData, placed.position⟩

end ReaderState

/-- The value of a token list, which ends in the end of its text. -/
def readTokens : ReaderState → List PlacedToken → Except Fault Document
  | .done value, [] => .ok value
  | _, [] => .error ⟨.valueExpected, 0⟩
  | state, placed :: rest =>
      match state.step placed with
      | .ok next => readTokens next rest
      | .error fault => .error fault

def readChars (cs : List Char) : Except Fault Document :=
  if cs.head? = some '\uFEFF' then .error ⟨.byteOrderMark, 0⟩
  else readTokens (.valueNeeded []) (tokens 0 cs)

/-- A problem of a document and its place, lines and columns counted from one. -/
structure ReadError where
  problem : Problem
  line : Nat
  column : Nat
  position : Nat
deriving DecidableEq, Repr

def Fault.locate (fault : Fault) (cs : List Char) : ReadError :=
  let before := cs.take fault.position
  { problem := fault.problem
    line := before.count '\n' + 1
    column := (before.reverse.takeWhile (· ≠ '\n')).length + 1
    position := fault.position }

def ReadError.message (error : ReadError) : String :=
  error.problem.description ++ ": line " ++ toString error.line ++ " column " ++
    toString error.column ++ " (char " ++ toString error.position ++ ")"

/-- The value that a text spells. -/
def parse (text : String) : Except ReadError Document :=
  match readChars text.toList with
  | .ok value => .ok value
  | .error fault => .error (fault.locate text.toList)

end TensorBindings.Document
