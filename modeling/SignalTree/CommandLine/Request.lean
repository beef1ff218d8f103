import SignalTree.Workspace.FilePath

/-! What a command line asks for. -/
namespace SignalTree.CommandLine

structure Sources where
  input : Option FilePath
  config : Option FilePath
deriving DecidableEq

inductive Command where
  /-- Puts the module in its place, or only shows the settings. -/
  | generate (sources : Sources) (out : Option FilePath) (module : Option String) (noOp : Bool)
  /-- Shows the model, or writes it to a file. -/
  | inspect (sources : Sources) (out : Option FilePath)
deriving DecidableEq

structure Invocation where
  verbose : Bool
  command : Command
deriving DecidableEq

inductive OptionName where
  | verbose
  | version
  | help
  | input
  | config
  | out
  | module
  | noOp
deriving DecidableEq

namespace OptionName

def long : OptionName → String
  | verbose => "verbose"
  | version => "version"
  | help => "help"
  | input => "input"
  | config => "config"
  | out => "out"
  | module => "module"
  | noOp => "no-op"

def letter? : OptionName → Option Char
  | verbose => some 'v'
  | version => some 'V'
  | help => some 'h'
  | input => some 'i'
  | config => some 'c'
  | out => some 'o'
  | module => none
  | noOp => none

def takesValue : OptionName → Bool
  | input | config | out | module => true
  | verbose | version | help | noOp => false

def accepts (o : OptionName) (value : String) : Bool :=
  match o with
  | input | config | out => value != ""
  | _ => true

end OptionName

/-- The places on a command line where options stand: before the name of the
command, and after it. -/
inductive Scope where
  | program
  | generate
  | inspect
deriving DecidableEq

namespace Scope

def options : Scope → List OptionName
  | program => [.verbose, .version, .help]
  | generate => [.verbose, .help, .input, .config, .out, .module, .noOp]
  | inspect => [.verbose, .help, .input, .config, .out]

def ofLong? (scope : Scope) (name : String) : Option OptionName :=
  scope.options.find? (·.long == name)

def ofLetter? (scope : Scope) (letter : Char) : Option OptionName :=
  scope.options.find? (·.letter? == some letter)

end Scope

inductive Misuse where
  | unknownOption (text : String)
  | missingValue (option : OptionName)
  | unneededValue (option : OptionName)
  | repeated (option : OptionName)
  | surplus (text : String)
  | noCommand
  | unknownCommand (name : String)
deriving DecidableEq

def Misuse.message : Misuse → String
  | unknownOption text => s!"there is no option '{text}'"
  | missingValue option => s!"option '--{option.long}' needs a value"
  | unneededValue option => s!"option '--{option.long}' takes no value"
  | repeated option => s!"option '--{option.long}' is given twice"
  | surplus text => s!"unexpected argument '{text}'"
  | noCommand => "no command is given"
  | unknownCommand name => s!"there is no command '{name}'"

inductive Ending where
  | help
  | version
  | misuse (cause : Misuse)
deriving DecidableEq

end SignalTree.CommandLine
