import SignalTree.Run.Outcome
import SignalTree.Source.Clash
import SignalTree.Source.Index

/-! The files of a generated module. -/
namespace SignalTree

structure SourceFile where
  name : String
  contents : String
deriving DecidableEq

namespace Source

def indexFile : String := "mod.rs"

def unitFile (u : TypeUnit) : String := moduleName u.decl.name ++ ".rs"

/-- The file of a unit, unless two things in it would share a name. -/
def renderUnit (u : TypeUnit) : Outcome SourceFile := do
  checkUnit u
  Outcome.report (unitEvents u)
  return ⟨unitFile u, render (unitCode u)⟩

def renderIndex (units : List TypeUnit) (module : String) : SourceFile :=
  ⟨indexFile, render (indexCode (units.map (·.decl.name)) module)⟩

/-- The first name in a list that stood in it before. -/
def firstRepeated? (seen : List String) : List String → Option String
  | [] => none
  | name :: rest => if seen.contains name then some name else firstRepeated? (name :: seen) rest

def requireDistinct (files : List SourceFile) : Except Fault PUnit :=
  match firstRepeated? [] (files.map SourceFile.name) with
  | some name => .error (.invariant (.fileClash name))
  | none => .ok ⟨⟩

def renderModule (units : List TypeUnit) (module : String) : Outcome (List SourceFile) := do
  let files := (← units.mapM renderUnit) ++ [renderIndex units module]
  requireDistinct files
  return files

/-- All units and the index in one text, whether or not names clash. -/
def renderTogether (units : List TypeUnit) (module : String) : Outcome String := do
  Outcome.report (units.flatMap unitEvents)
  return render (units.flatMap unitCode ++ indexCode (units.map (·.decl.name)) module)

end Source

end SignalTree
