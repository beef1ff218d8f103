import SignalTree.Run.Fault
import SignalTree.Toml.Document

/-!
Settings of a run: values from the command line over values from a settings file
over the defaults.
-/
namespace SignalTree

structure Preferences where
  input : Option FilePath
  out : Option FilePath
  module : Option String
deriving DecidableEq

structure Settings where
  inputDir : FilePath
  outputDir : FilePath
  module : String
deriving DecidableEq

namespace Preferences

def empty : Preferences := ⟨none, none, none⟩

def set (p : Preferences) : String × Toml → Except SettingsDefect Preferences
  | ("input", .string s) => .ok { p with input := some ⟨s⟩ }
  | ("out", .string s) => .ok { p with out := some ⟨s⟩ }
  | ("module", .string s) => .ok { p with module := some s }
  | (key, _) =>
    if key ∈ ["input", "out", "module"] then .error (.notAText key) else .error (.unknownKey key)

/-- Every key is optional, and there are no others. -/
def ofToml (text : String) : Except SettingsDefect Preferences :=
  match Toml.read? text with
  | some entries => entries.foldlM set empty
  | none => .error .malformed

end Preferences

namespace Settings

def default : Settings := ⟨⟨"vss"⟩, ⟨"generated"⟩, "vss"⟩

/-- A lower case letter or underscore, then more of those and digits. -/
def isModuleName (name : String) : Bool :=
  match name.toList with
  | [] => false
  | c :: rest => (c.isLower || c == '_') && rest.all fun d => d.isLower || d.isDigit || d == '_'

def resolve (file overrides : Preferences) : Except Fault Settings :=
  let settings : Settings := {
    inputDir := (overrides.input <|> file.input).getD default.inputDir
    outputDir := (overrides.out <|> file.out).getD default.outputDir
    module := (overrides.module <|> file.module).getD default.module }
  if isModuleName settings.module then .ok settings
  else .error (.configuration (.moduleName settings.module))

def moduleDir (s : Settings) : FilePath := s.outputDir.join s.module

end Settings

end SignalTree
