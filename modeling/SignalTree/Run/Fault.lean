import SignalTree.Definition.Format
import SignalTree.Workspace.OsError

/-! Why a run ends without a result. Every fault is fatal. -/
namespace SignalTree

inductive SettingsDefect where
  | unknownKey (key : String)
  | notAText (key : String)
  | malformed
deriving DecidableEq

/-- Names the setting first, a dot if it is the text as a whole. -/
def SettingsDefect.message : SettingsDefect → String
  | unknownKey key => s!"at key {key} → there is no such setting"
  | notAText key => s!"at key {key} → expected a string"
  | malformed => "at key . → the text is no TOML document"

/-- Nothing usable to work on. -/
inductive Misconfiguration where
  | unsupportedExtension (file : FilePath)
  | missingDirectory (dir : FilePath)
  | noDefinitions (dir : FilePath)
  | noNodes (dir : FilePath)
  | settings (file : FilePath) (defect : SettingsDefect)
  | moduleName (name : String)
deriving DecidableEq

def Misconfiguration.message : Misconfiguration → String
  | unsupportedExtension file => s!"file extension of '{file}' is not supported"
  | missingDirectory dir => s!"VSS definition directory '{dir}' does not exist"
  | noDefinitions dir =>
    let extensions := ", ".intercalate Format.allExtensions
    s!"no VSS definition files ({extensions}) found in '{dir}'"
  | noNodes dir => s!"definition files in '{dir}' declare no VSS nodes"
  | settings file defect => s!"{file}: {defect.message}"
  | moduleName name => s!"module name '{name}' is not a valid Rust module identifier"

inductive NameKind where
  | field
  | type
  | module
deriving DecidableEq

def NameKind.name : NameKind → String
  | field => "field"
  | type => "type"
  | module => "module"

/-- Names that cannot be given: to a path without a leaf, or to two things at
once. -/
inductive Violation where
  | unnameable (path : Path)
  | unitClash (path other : Path) (name : String)
  | nameClash (kind : NameKind) (name : String) (first second : Path)
  | fileClash (name : String)
deriving DecidableEq

def Violation.message : Violation → String
  | unnameable path => s!"no type name can be derived from '{path}'"
  | unitClash path other name => s!"'{path}' and '{other}' both map to type {name}"
  | nameClash kind name first second =>
    s!"'{first}' and '{second}' both map to {kind.name} `{name}`"
  | fileClash name => s!"two generated units share the file name '{name}'"

inductive Fault where
  | definition (file : FilePath) (defect : Defect)
  | configuration (cause : Misconfiguration)
  | invariant (cause : Violation)
  | io (path : FilePath) (error : OsError)
deriving DecidableEq

def Fault.message : Fault → String
  | definition file defect => s!"invalid VSS file '{file}': {defect.message}"
  | configuration cause => s!"configuration error: {cause.message}"
  | invariant cause => s!"internal invariant violated: {cause.message}"
  | io path error => s!"i/o error on '{path}': {error.message}"

end SignalTree
