import TensorEngine.Text.Integer

/-!
# Command line arguments

The grammar of the command line. Options may stand before or after the command they belong to:
those of the program at either place, those of a command after its name. An option's value follows
it as the next argument, or behind an equals sign; a value that stands alone does not start with a
minus sign. Behind two minus signs every argument is a plain word.

## Main definitions

* `OptionForm`, `Token`, `scan`: options, and the words and options among arguments
* `Command`, `Invocation`, `parse`: commands, and what arguments ask for
-/

namespace TensorEngine.CommandLine

/-- An option: its long name, its letter if it has one, and whether it takes a value. -/
structure OptionForm where
  name : String
  letter : Option Char
  takesValue : Bool
  deriving DecidableEq, Repr

/-- An argument after scanning. An option without a value has an empty one. -/
inductive Token
  | word (text : String)
  | option (name value : String)
  deriving DecidableEq, Repr

/-- Why arguments do not ask for a command. -/
inductive Stop
  /-- They break the grammar. -/
  | usage
  /-- They ask for the version of the program. -/
  | version
  deriving DecidableEq, Repr

/-- The text may be a plain value: it is a single minus sign or does not start with one. -/
def isPlain (text : String) : Bool :=
  text = "-" || text.toList.head? != some '-'

/-- An option as an argument spells it, with the value behind it if there is one. -/
inductive Spelling
  | long (name : String) (value : Option String)
  | short (letter : Char) (value : Option String)
  deriving DecidableEq, Repr

/-- The part behind an equals sign. -/
def behindEquals : List Char → Option String
  | '=' :: value => some (String.ofList value)
  | _ => none

/-- How an argument that is not plain spells an option. -/
def spelling? : List Char → Option Spelling
  | '-' :: '-' :: rest =>
    some (.long (String.ofList (rest.takeWhile (· != '=')))
      (behindEquals (rest.dropWhile (· != '='))))
  | '-' :: letter :: [] => some (.short letter none)
  -- The equals sign between a letter and its value may be left out.
  | '-' :: letter :: '=' :: value => some (.short letter (some (String.ofList value)))
  | '-' :: letter :: value => some (.short letter (some (String.ofList value)))
  | _ => none

/-- The option that is spelled, and the value behind it. -/
def findOption (options : List OptionForm) : Spelling → Option (OptionForm × Option String)
  | .long name value => (options.find? (·.name == name)).map (·, value)
  | .short letter value => (options.find? (·.letter == some letter)).map (·, value)

/-- The first token of arguments, and the arguments behind it. -/
def firstToken (options : List OptionForm) (argument : String) (rest : List String) :
    Except Stop (Token × List String) :=
  if isPlain argument then .ok (.word argument, rest)
  else
    match (spelling? argument.toList).bind (findOption options) with
    | none => .error .usage
    | some (form, some value) =>
      if form.takesValue then .ok (.option form.name value, rest) else .error .usage
    | some (form, none) =>
      if form.takesValue then
        match rest with
        | value :: rest => if isPlain value then .ok (.option form.name value, rest)
          else .error .usage
        | [] => .error .usage
      else .ok (.option form.name "", rest)

/-- The tokens of at most `fuel` arguments. -/
def scanAtMost (options : List OptionForm) : (fuel : Nat) → List String → Except Stop (List Token)
  | 0, _ => .ok []
  | _, [] => .ok []
  | fuel + 1, argument :: rest =>
    -- No options follow.
    if argument = "--" then .ok (rest.map .word)
    else do
      let (token, rest) ← firstToken options argument rest
      let tokens ← scanAtMost options fuel rest
      return token :: tokens

/-- The tokens of arguments. Every token takes at least one of them. -/
def scan (options : List OptionForm) (arguments : List String) : Except Stop (List Token) :=
  scanAtMost options arguments.length arguments

/-- The values of an option, in their order. -/
def valuesOf (tokens : List Token) (name : String) : List String :=
  tokens.filterMap fun
    | .option other value => if other = name then some value else none
    | .word _ => none

/-- The plain words. -/
def wordsOf (tokens : List Token) : List String :=
  tokens.filterMap fun
    | .word text => some text
    | .option _ _ => none

/-- The value of an option that may be given once. -/
def single? (tokens : List Token) (name : String) : Except Stop (Option String) :=
  match valuesOf tokens name with
  | [] => .ok none
  | [value] => .ok (some value)
  | _ => .error .usage

/-- A path is not empty. -/
def path (text : String) : Except Stop String :=
  if text = "" then .error .usage else .ok text

/-- The path that an option gives. -/
def path? (tokens : List Token) (name : String) : Except Stop (Option String) := do
  match ← single? tokens name with
  | none => return none
  | some text => return some (← path text)

/-- The only word, a path. -/
def onlyPath (tokens : List Token) : Except Stop String :=
  match wordsOf tokens with
  | [text] => path text
  | _ => .error .usage

/-- What the program can be asked to do. -/
inductive Command
  | devices
  | compile (graph output : String) (config : Option String) (target : Int32)
      (dynamicShape : Bool)
  | inspect (engine : String)
  | run (engine inputs : String)
  deriving DecidableEq, Repr

/-- A command, and the capabilities of the devices it works with. -/
structure Invocation where
  devices : List String
  command : Command
  deriving DecidableEq, Repr

/-- The options of the program. -/
def programOptions : List OptionForm :=
  [⟨"log", none, true⟩, ⟨"device", none, true⟩]

/-- The options of a compilation. -/
def compileOptions : List OptionForm :=
  [⟨"output", some 'o', true⟩, ⟨"config", none, true⟩, ⟨"target", none, true⟩,
    ⟨"dynamic-shape", none, false⟩]

/-- The option of a run. -/
def runOptions : List OptionForm :=
  [⟨"inputs", none, true⟩]

/-- The device that an option gives. -/
def target (tokens : List Token) : Except Stop Int32 := do
  match ← single? tokens "target" with
  | none => return 0
  | some text => (Text.readInt32 text).mapError fun _ => Stop.usage

/-- The compilation that tokens ask for. -/
def compileCommand (tokens : List Token) : Except Stop Command := do
  let graph ← onlyPath tokens
  let output ← path? tokens "output"
  let config ← path? tokens "config"
  let target ← target tokens
  let dynamicShape ← single? tokens "dynamic-shape"
  return .compile graph (output.getD "model.engine") config target dynamicShape.isSome

/-- The run that tokens ask for. -/
def runCommand (tokens : List Token) : Except Stop Command := do
  let engine ← onlyPath tokens
  match ← path? tokens "inputs" with
  | some inputs => return .run engine inputs
  | none => throw .usage

/-- The listing of devices that tokens ask for. -/
def devicesCommand (tokens : List Token) : Except Stop Command :=
  if wordsOf tokens = [] then .ok .devices else .error .usage

/-- The options of a command, and how its tokens are read. -/
def commandForm? : String → Option (List OptionForm × (List Token → Except Stop Command))
  | "devices" => some ([], devicesCommand)
  | "compile" => some (compileOptions, compileCommand)
  | "inspect" => some ([], fun tokens => (onlyPath tokens).map .inspect)
  | "run" => some (runOptions, runCommand)
  | _ => none

/-- The capabilities of the devices when none are given. -/
def standardDevices : List String := ["8.6"]

/-- What the arguments behind a command's name ask for; `outer` are the devices that were given in
front of it. -/
def parseCommand (outer : List String) (name : String) (arguments : List String) :
    Except Stop Invocation :=
  match commandForm? name with
  | none => .error .usage
  | some (options, read) => do
    let tokens ← scan (programOptions ++ options) arguments
    -- A log level is accepted and changes nothing.
    let _ ← single? tokens "log"
    let command ← read tokens
    -- Devices behind the name of the command replace those in front of it.
    let devices :=
      match valuesOf tokens "device", outer with
      | [], [] => standardDevices
      | [], outer => outer
      | inner, _ => inner
    return ⟨devices, command⟩

/-- The argument asks for the version. -/
def asksForVersion (argument : String) : Bool :=
  argument = "--version" || ['-', 'V'].isPrefixOf argument.toList

/-- What at most `fuel` arguments ask for; `logged` tells whether a log level was given, and
`devices` which devices. -/
def parseAtMost : (fuel : Nat) → (logged : Bool) → (devices : List String) → List String →
    Except Stop Invocation
  | 0, _, _, _ => .error .usage
  | _, _, _, [] => .error .usage
  | fuel + 1, logged, devices, argument :: rest =>
    if asksForVersion argument then .error .version
    else if argument = "--" then .error .usage
    else do
      let (token, rest) ← firstToken programOptions argument rest
      match token with
      | .word name => parseCommand devices name rest
      | .option "log" _ =>
        if logged then throw .usage else parseAtMost fuel true devices rest
      | .option _ value => parseAtMost fuel logged (devices ++ [value]) rest

/-- What arguments ask for. -/
def parse (arguments : List String) : Except Stop Invocation :=
  parseAtMost arguments.length false [] arguments

end TensorEngine.CommandLine
