import SignalTree.CommandLine.Arguments
import SignalTree.CommandLine.Dump
import SignalTree.Generate
import SignalTree.Model.Json

/-! Running a command line on some files. -/
namespace SignalTree.CommandLine

variable {m : Type → Type} [Monad m] [Files m]

structure Response where
  code : Nat
  stdout : String
  stderr : String
deriving DecidableEq

namespace Response

def success : Response := ⟨0, "", ""⟩

def output (text : String) : Response := ⟨0, text ++ "\n", ""⟩

def notice (text : String) : Response := ⟨0, "", text⟩

end Response

/-- Why a command fails: a fault of the run, or a model that cannot be written. -/
inductive Failure where
  | fault (fault : Fault)
  | create (dir : FilePath) (error : OsError)
  | write (file : FilePath) (error : OsError)
deriving DecidableEq

namespace Failure

def message : Failure → String
  | fault f => f.message
  | create dir _ => s!"failed to create {dir}"
  | write file _ => s!"failed to write {file}"

def cause? : Failure → Option OsError
  | fault (.io _ error) => some error
  | fault _ => none
  | create _ error => some error
  | write _ error => some error

def report (f : Failure) : String :=
  match f.cause? with
  | some error => s!"Error: {f.message}\n\nCaused by:\n    {error.message}\n"
  | none => s!"Error: {f.message}\n"

def response (f : Failure) : Response := ⟨1, "", f.report⟩

end Failure

def respond (r : Except Fault Response) : Response :=
  match r with
  | .ok response => response
  | .error fault => (Failure.fault fault).response

def versionText : String := "vss-codegen 0.1.0"

def usageText : String := "\n".intercalate [
  "Usage: vss-codegen [-v] generate [-i DIR] [-c FILE] [-o DIR] [--module NAME] [--no-op]",
  "       vss-codegen [-v] inspect [-i DIR] [-c FILE] [-o FILE]"]

def Ending.response : Ending → Response
  | help => .output usageText
  | version => .output versionText
  | misuse cause => ⟨2, "", s!"error: {cause.message}\n\n{usageText}\n"⟩

def Sources.settings (s : Sources) (out : Option FilePath) (module : Option String) :
    Job m Settings :=
  Settings.load s.config ⟨s.input, out, module⟩

def summary (r : Report) : String :=
  s!"generated {r.units} types from {r.nodes} nodes ({r.inputs.length} files) into {r.moduleDir}\n"

def createParent (file : FilePath) : m (Except Failure PUnit) :=
  match file.parent? with
  | some parent => do return (← Files.createDirectories parent).mapError (.create parent)
  | none => pure (.ok ⟨⟩)

def writeModel (file : FilePath) (contents : String) : m Response := do
  match ← createParent file with
  | .error failure => return failure.response
  | .ok _ =>
    match ← Files.writeText file contents with
    | .error e => return (Failure.write file e).response
    | .ok _ => return .success

/-- Runs a command and gives its response. The model of a failed run is not
written anywhere. -/
def Invocation.job (i : Invocation) : Job m Response :=
  match i.command with
  | .generate sources out module noOp => do
    let settings ← sources.settings out module
    if noOp then
      return .notice (i.dump.render ++ (dumpSettings settings).render)
    else
      let report ← generate settings
      return .notice (summary report)
  | .inspect sources out => do
    let settings ← sources.settings none none
    let model ← buildModel settings.inputDir
    let text := renderModel model.units
    match out with
    | some file => Job.lift (writeModel file text)
    | none => return .output text

structure Session where
  response : Response
  log : List Event

/-- Without the wish for more, only warnings are shown. -/
def shownEvents (verbose : Bool) (log : List Event) : List Event :=
  log.filter fun e => verbose || e.level = .warn

def run (args : List String) : m Session :=
  match read args with
  | .error ending => return ⟨ending.response, []⟩
  | .ok invocation => do
    let outcome ← (invocation.job : Job m Response).run
    return ⟨respond outcome.result, shownEvents invocation.verbose outcome.log⟩

end SignalTree.CommandLine
