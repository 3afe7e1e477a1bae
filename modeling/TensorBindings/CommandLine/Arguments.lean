import TensorBindings.Text.Affix
import TensorBindings.Text.DecimalDigit
import TensorBindings.Text.Quoted

/-!
Contract: the words of a command line.

Owns: the options with their spellings, the request that words express, and the errors in
their use. Options may stand anywhere. A long option may be shortened as long as one
option begins that way; a value follows its option as the next word, after an equals sign,
or directly after a short option. Short options may share a word. After a double dash no
word is an option. The last of several uses of an option counts.

A double dash is never a value: where one is given as the value of an option, or as an
operand that has no double dash of its own beside it, no value is left.

Where parsers of command lines differ, the older ones are followed. They leave no value of
`--helpers=--` and `-o--`, of which newer ones take the double dash. They read `-h=o5` as `-h`
and `-o5`, where newer ones refuse a value for a flag. They refuse `-hx` for what follows the
flag, where newer ones obey the flag first.

Words are first sorted into options and operands, all of them, and then taken in order.
Missing operands are reported before words that were not used.
-/

set_option autoImplicit false

namespace TensorBindings.CommandLine

open TensorBindings.Text

inductive OptionName where
  | help
  | outDir
  | bindingsName
  | derivativesName
  | helpers
  | skipInplace
  | autogradBlocks
  | json
  | quiet
deriving DecidableEq, Repr

namespace OptionName

/-- The spellings of all options, in the order in which reports list them. -/
def spellings : List (String × OptionName) :=
  [("-h", help), ("--help", help), ("-o", outDir), ("--out-dir", outDir),
   ("--bindings-name", bindingsName), ("--derivatives-name", derivativesName),
   ("--helpers", helpers), ("--skip-inplace", skipInplace), ("--autograd-blocks", autogradBlocks),
   ("--json", json), ("--quiet", quiet)]

def ofSpelling? (word : String) : Option OptionName :=
  (spellings.find? (·.1 == word)).map (·.2)

def takesValue : OptionName → Bool
  | outDir | bindingsName | derivativesName | helpers => true
  | _ => false

/-- The option in reports: its spellings with slashes between them. -/
def label (option : OptionName) : String :=
  "/".intercalate ((spellings.filter (·.2 == option)).map (·.1))

end OptionName

inductive UsageError where
  | ambiguous (word : String) (candidates : List String)
  | valueMissing (option : OptionName)
  | valueIgnored (option : OptionName) (value : String)
  | operandsMissing (names : List String)
  | unrecognized (words : List String)
deriving DecidableEq, Repr

def UsageError.message : UsageError → String
  | .ambiguous word candidates =>
      "ambiguous option: " ++ word ++ " could match " ++ ", ".intercalate candidates
  | .valueMissing option => "argument " ++ option.label ++ ": expected one argument"
  | .valueIgnored option value =>
      "argument " ++ option.label ++ ": ignored explicit argument " ++ quoted value
  | .operandsMissing names =>
      "the following arguments are required: " ++ ", ".intercalate names
  | .unrecognized words => "unrecognized arguments: " ++ " ".intercalate words

/-! ### Sorting words -/

inductive Word where
  | operand (text : String)
  /-- The double dash. -/
  | separator
  /-- An option, with what follows its spelling in the same word. -/
  | option (name : OptionName) (isShort : Bool) (value? : Option String)
  | unknown (text : String)
deriving DecidableEq, Repr

/-- The parts before and after the first equals sign. -/
def splitValue (word : String) : String × Option String :=
  let name := word.toList.takeWhile (· ≠ '=')
  match word.toList.drop name.length with
  | _ :: value => (String.ofList name, some (String.ofList value))
  | [] => (word, none)

/-- A spelling with one dash. -/
def isShort (spelling : String) : Bool := !startsWith "--" spelling

/-- Digits, perhaps with a point among them that a digit follows. -/
def isUnsignedNumber (cs : List Char) : Bool :=
  match cs.dropWhile isDecimalDigit with
  | [] => !cs.isEmpty
  | '.' :: fraction => !fraction.isEmpty && fraction.all isDecimalDigit
  | _ => false

/-- A dash and a number; the word may end with a line feed. -/
def isNegativeNumber (word : String) : Bool :=
  match ((dropEnd? "\n" word).getD word).toList with
  | '-' :: rest => isUnsignedNumber rest
  | _ => false

/-- The options that a word may mean without being the spelling of one. -/
def candidates (word : String) : List (String × OptionName × Option String) :=
  match word.toList with
  | '-' :: '-' :: _ =>
      let (name, value?) := splitValue word
      (OptionName.spellings.filter fun (spelling, _) => startsWith name spelling).map
        fun (spelling, option) => (spelling, option, value?)
  | '-' :: letter :: value =>
      (OptionName.spellings.filter fun (spelling, _) => spelling = String.ofList ['-', letter]).map
        fun (spelling, option) => (spelling, option, some (String.ofList value))
  | _ => []

/-- The sense of a word that begins with a dash and is not the spelling of an option. -/
def classifyDashed (word : String) : Except UsageError Word :=
  let (name, value?) := splitValue word
  match value?, OptionName.ofSpelling? name with
  | some value, some option => .ok (.option option (isShort name) (some value))
  | _, _ =>
      match candidates word with
      | [(spelling, option, value?)] => .ok (.option option (isShort spelling) value?)
      | [] =>
          if isNegativeNumber word ∨ ' ' ∈ word.toList then .ok (.operand word)
          else .ok (.unknown word)
      | several => .error (.ambiguous word (several.map (·.1)))

def classify (word : String) : Except UsageError Word :=
  match OptionName.ofSpelling? word with
  | some option => .ok (.option option (isShort word) none)
  | none => if startsWith "-" word ∧ word ≠ "-" then classifyDashed word else .ok (.operand word)

def classifyAll : List String → Except UsageError (List Word)
  | [] => .ok []
  | word :: rest =>
      if word = "--" then .ok (.separator :: rest.map .operand)
      else do
        let first ← classify word
        let others ← classifyAll rest
        return first :: others

/-! ### Requests -/

/-- What a run is asked for. A path or a name is `none` if no value was left of it. -/
structure Request where
  declarations? : Option String
  derivatives? : Option String
  outDir? : Option String := some "torch"
  bindingsName? : Option String := some "declarations.nim"
  derivativesName? : Option String := some "derivatives.nim"
  /-- Helpers need not be given. -/
  helpers? : Option String := none
  skipInplace : Bool := false
  autogradBlocks : Bool := false
  json : Bool := false
  quiet : Bool := false
deriving DecidableEq, Repr

/-- The value that a text gives to an option. -/
def optionValue? (text : String) : Option String := if text = "--" then none else some text

def Request.setValue (request : Request) (value? : Option String) : OptionName → Request
  | .outDir => { request with outDir? := value? }
  | .bindingsName => { request with bindingsName? := value? }
  | .derivativesName => { request with derivativesName? := value? }
  | .helpers => { request with helpers? := value? }
  | _ => request

def Request.setFlag (request : Request) : OptionName → Request
  | .skipInplace => { request with skipInplace := true }
  | .autogradBlocks => { request with autogradBlocks := true }
  | .json => { request with json := true }
  | .quiet => { request with quiet := true }
  | _ => request

/-! ### Options that share a word -/

/-- Flags, and at their end an option that may have a value. -/
structure OptionGroup where
  flags : List OptionName := []
  last : OptionName
  value? : Option String := none
deriving DecidableEq, Repr

namespace OptionGroup

/-- The group that an option makes with the characters behind it. They are its value; after
a flag they have to be short options. -/
def ofShort (option : OptionName) : List Char → Except UsageError OptionGroup
  | [] => .ok { last := option }
  | letter :: rest =>
      if option.takesValue then
        .ok { last := option, value? := some (String.ofList (letter :: rest)) }
      else
        match OptionName.ofSpelling? (String.ofList ['-', letter]) with
        | some next => do
            let group ← ofShort next rest
            return { group with flags := option :: group.flags }
        | none => .error (.valueIgnored option (String.ofList (letter :: rest)))

/-- The group that an option makes with what follows it in its word. -/
def ofWord (option : OptionName) (isShort : Bool) : Option String → Except UsageError OptionGroup
  | none => .ok { last := option }
  | some value =>
      if option.takesValue then .ok { last := option, value? := some value }
      else if isShort ∧ value ≠ "" then ofShort option value.toList
      else .error (.valueIgnored option value)

/-- The value of the last option has to come with the next word. -/
def isOpen (group : OptionGroup) : Bool := group.last.takesValue && group.value?.isNone

def asksHelp (group : OptionGroup) : Bool := (group.last :: group.flags).contains .help

def apply (group : OptionGroup) (request : Request) : Request :=
  let flagged := group.flags.foldl Request.setFlag request
  match group.value? with
  | some value => flagged.setValue (optionValue? value) group.last
  | none => flagged.setFlag group.last

end OptionGroup

/-! ### Taking words in order -/

/-- The names of the operands. -/
def operandNames : List String := ["declarations", "derivatives"]

/-- The words taken so far. -/
structure Reading where
  /-- Options only; operands are kept apart until all are there. -/
  request : Request := { declarations? := none, derivatives? := none }
  operands : List (Option String) := []
  unused : List String := []
  /-- The options of the last word, if a value has to come. -/
  awaiting : Option OptionGroup := none
  /-- The word before was taken as an operand. -/
  afterOperand : Bool := false
  /-- A double dash was read that belongs to the next operand. -/
  separated : Bool := false

inductive Stop where
  | help
  | usage (error : UsageError)
deriving DecidableEq, Repr

namespace Reading

/-- All operands are there. -/
def isFull (reading : Reading) : Bool := operandNames.length ≤ reading.operands.length

/-- The value that a word gives as an operand. Of the double dashes of an operand one is
dropped, which is the word itself if none stands beside it. -/
def operandValue? (reading : Reading) (word : String) : Option String :=
  if reading.separated then some word else optionValue? word

def takeOperand (reading : Reading) (word : String) : Reading :=
  if reading.isFull then
    { reading with unused := reading.unused ++ [word], afterOperand := false }
  else
    { reading with
      operands := reading.operands ++ [reading.operandValue? word]
      afterOperand := true
      separated := false }

/-- A double dash belongs to the operand before it, or else to the one after it. -/
def takeSeparator (reading : Reading) : Reading :=
  if reading.afterOperand then { reading with afterOperand := false }
  else if reading.isFull then { reading with unused := reading.unused ++ ["--"] }
  else { reading with separated := true }

/-- Take options; those of one word count once all of them are complete. -/
def takeGroup (reading : Reading) (group : OptionGroup) : Except Stop Reading :=
  if group.isOpen then .ok { reading with awaiting := some group, afterOperand := false }
  else if group.asksHelp then .error .help
  else
    .ok { reading with
      request := group.apply reading.request
      awaiting := none
      afterOperand := false }

def step (reading : Reading) (word : Word) : Except Stop Reading :=
  match reading.awaiting, word with
  | some group, .operand value => reading.takeGroup { group with value? := some value }
  | some group, _ => .error (.usage (.valueMissing group.last))
  | none, .operand text => .ok (reading.takeOperand text)
  | none, .separator => .ok reading.takeSeparator
  | none, .option option isShort value? =>
      match OptionGroup.ofWord option isShort value? with
      | .ok group => reading.takeGroup group
      | .error error => .error (.usage error)
  | none, .unknown text =>
      .ok { reading with unused := reading.unused ++ [text], afterOperand := false }

/-- The request of all words. -/
def finish (reading : Reading) : Except Stop Request :=
  match reading.awaiting, reading.operands with
  | some group, _ => .error (.usage (.valueMissing group.last))
  | none, declarations? :: derivatives? :: _ =>
      if reading.unused.isEmpty then .ok { reading.request with declarations?, derivatives? }
      else .error (.usage (.unrecognized reading.unused))
  | none, operands => .error (.usage (.operandsMissing (operandNames.drop operands.length)))

end Reading

/-- The request that the words of a command line express. -/
def parse (words : List String) : Except Stop Request :=
  match classifyAll words with
  | .error error => .error (.usage error)
  | .ok words => do (← words.foldlM Reading.step {}).finish

end TensorBindings.CommandLine
