import SignalTree.CommandLine.Request
import SignalTree.Settings.Basic
import SignalTree.Source.Code
import SignalTree.Text.Literal

/-! Command lines and settings as they are shown, one part a line. -/
namespace SignalTree.CommandLine

inductive Dump where
  | atom (text : String)
  | tuple (name : String) (parts : List Dump)
  | record (name : String) (parts : List (String × Dump))

namespace Dump

mutual

def code (before after : String) : Dump → Source.Code
  | atom text => .line (before ++ text ++ after)
  | tuple name parts => .block (before ++ name ++ "(") (tupleCode parts) (")" ++ after)
  | record name parts =>
    .block (before ++ name ++ " \x7b") (recordCode parts) ("\x7d" ++ after)

def tupleCode : List Dump → List Source.Code
  | [] => []
  | part :: rest => part.code "" "," :: tupleCode rest

def recordCode : List (String × Dump) → List Source.Code
  | [] => []
  | (name, part) :: rest => part.code (name ++ ": ") "," :: recordCode rest

end

def render (d : Dump) : String := Source.render [d.code "" ""]

def ofBool (b : Bool) : Dump := atom (if b then "true" else "false")

def ofText (s : String) : Dump := atom (Text.Literal.quote s)

def ofPath (p : FilePath) : Dump := ofText p.text

def ofOption (dump : α → Dump) : Option α → Dump
  | some a => tuple "Some" [dump a]
  | none => atom "None"

end Dump

def Sources.dump (s : Sources) : Dump := .record "InputSettings" [
  ("input", .ofOption .ofPath s.input),
  ("config", .ofOption .ofPath s.config)]

def Command.dump : Command → Dump
  | generate sources out module noOp => .tuple "Generate" [.record "GenerateOut" [
    ("input_settings", sources.dump),
    ("out", .ofOption .ofPath out),
    ("module", .ofOption .ofText module),
    ("no_op", .ofBool noOp)]]
  | inspect sources out => .tuple "Inspect" [.record "InspectOut" [
    ("input_settings", sources.dump),
    ("out", .ofOption .ofPath out)]]

def Invocation.dump (i : Invocation) : Dump := .record "CommandLineInterface" [
  ("verbose", .ofBool i.verbose),
  ("cmd", i.command.dump)]

def dumpSettings (s : Settings) : Dump := .record "GeneratorConfig" [
  ("input_dir", .ofPath s.inputDir),
  ("output_dir", .ofPath s.outputDir),
  ("module", .ofText s.module)]

end SignalTree.CommandLine
