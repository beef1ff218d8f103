import SignalTree.CommandLine.Request

/-!
Reading a command line from left to right. The first argument that asks for help
or for the version, or that has no place, decides.
-/
namespace SignalTree.CommandLine

inductive Argument where
  | divider
  | long (name : String) (value : Option String)
  | letters (letters : List Char)
  | plain (text : String)
deriving DecidableEq

def Argument.ofText (text : String) : Argument :=
  match text.toList with
  | ['-', '-'] => divider
  | '-' :: '-' :: rest =>
    let name := String.ofList (rest.takeWhile (· != '='))
    match rest.dropWhile (· != '=') with
    | [] => long name none
    | _ :: value => long name (some (String.ofList value))
  | '-' :: letter :: rest => letters (letter :: rest)
  | _ => plain text

/-- Options with their values, each option at most once. A flag has an empty value. -/
abbrev Given := List (OptionName × String)

namespace Given

def add (given : Given) (option : OptionName) (value : String) : Except Ending Given :=
  match option with
  | .help => .error .help
  | .version => .error .version
  | _ =>
    if given.any (·.1 == option) then .error (.misuse (.repeated option))
    else if option.accepts value then .ok (given ++ [(option, value)])
    else .error (.misuse (.missingValue option))

def has (given : Given) (option : OptionName) : Bool := given.any (·.1 == option)

def text? (given : Given) (option : OptionName) : Option String := given.lookup option

def path? (given : Given) (option : OptionName) : Option FilePath :=
  (given.text? option).map FilePath.mk

end Given

/-- Letters behind one dash. The first one with a value takes what follows it, after an
optional equals sign, or else waits for the next argument. -/
def readLetters (scope : Scope) (given : Given) :
    List Char → Except Ending (Given × Option OptionName)
  | [] => .ok (given, none)
  | letter :: rest =>
    match scope.ofLetter? letter with
    | none => .error (.misuse (.unknownOption (String.ofList ['-', letter])))
    | some option =>
      if option.takesValue then
        match rest with
        | [] => .ok (given, some option)
        | '=' :: value | value => do
          return (← given.add option (String.ofList value), none)
      else do
        readLetters scope (← given.add option "") rest

def readLong (scope : Scope) (given : Given) (name : String) (value : Option String) :
    Except Ending (Given × Option OptionName) :=
  match scope.ofLong? name with
  | none => .error (.misuse (.unknownOption ("--" ++ name)))
  | some option =>
    match option.takesValue, value with
    | true, some value => do return (← given.add option value, none)
    | true, none => .ok (given, some option)
    | false, some _ => .error (.misuse (.unneededValue option))
    | false, none => do return (← given.add option "", none)

/-- Reads options up to the first argument that is none. `waiting` is an option
without its value; only a plain argument can be one. -/
def readOptions (scope : Scope) (given : Given) (waiting : Option OptionName) :
    List String → Except Ending (Given × List String)
  | [] =>
    match waiting with
    | some option => .error (.misuse (.missingValue option))
    | none => .ok (given, [])
  | text :: rest =>
    match waiting, Argument.ofText text with
    | some option, .plain value => do
      readOptions scope (← given.add option value) none rest
    | some option, _ => .error (.misuse (.missingValue option))
    | none, .plain _ => .ok (given, text :: rest)
    | none, .divider =>
      match rest with
      | [] => .ok (given, [])
      | extra :: _ => .error (.misuse (.surplus extra))
    | none, .long name value => do
      let (given, waiting) ← readLong scope given name value
      readOptions scope given waiting rest
    | none, .letters letters => do
      let (given, waiting) ← readLetters scope given letters
      readOptions scope given waiting rest

def readCommand (scope : Scope) (args : List String) : Except Ending Given := do
  match ← readOptions scope [] none args with
  | (given, []) => return given
  | (_, extra :: _) => .error (.misuse (.surplus extra))

def Sources.ofGiven (given : Given) : Sources := ⟨given.path? .input, given.path? .config⟩

def read (args : List String) : Except Ending Invocation := do
  match ← readOptions .program [] none args with
  | (_, []) => .error (.misuse .noCommand)
  | (before, "generate" :: rest) =>
    let given ← readCommand .generate rest
    return {
      verbose := before.has .verbose || given.has .verbose
      command := .generate (.ofGiven given) (given.path? .out) (given.text? .module)
        (given.has .noOp) }
  | (before, "inspect" :: rest) =>
    let given ← readCommand .inspect rest
    return {
      verbose := before.has .verbose || given.has .verbose
      command := .inspect (.ofGiven given) (given.path? .out) }
  | (_, "help" :: rest) =>
    match rest.find? (· ∉ ["generate", "inspect", "help"]) with
    | some name => .error (.misuse (.unknownCommand name))
    | none => .error .help
  | (_, name :: _) => .error (.misuse (.unknownCommand name))

end SignalTree.CommandLine
