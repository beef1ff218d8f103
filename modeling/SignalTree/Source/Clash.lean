import SignalTree.Model.Basic
import SignalTree.Model.Name
import SignalTree.Run.Fault

/-!
Names that two things in one place would share. Fields share the struct of their
type; types and modules share the module they are declared in.
-/
namespace SignalTree.Source

/-- Names given so far in one place, with the path each was given to. -/
abbrev Claims := List (String × Path)

def claim (kind : NameKind) (taken : Claims) (name : String) (p : Path) : Except Fault Claims :=
  match taken.lookup name with
  | some first => .error (.invariant (.nameClash kind name first p))
  | none => .ok ((name, p) :: taken)

def checkFields (d : TypeDecl) : Except Fault PUnit := do
  let _ ← d.children.foldlM (fun taken c => claim .field taken (fieldName c.path) c.path)
    [(valueField, d.path)]

mutual

/-- Checks the fields of a type and the places that the types in it stand in.
`types` are the types that stand there already. -/
def checkDecl (types : Claims) (d : TypeDecl) : Except Fault PUnit := do
  checkFields d
  match d with
  | ⟨_, _, _, nested, _⟩ => checkNested types [] nested

/-- Types in one place, one after the other. A type that has types in it needs a
module beside it. -/
def checkNested (types modules : Claims) : List TypeDecl → Except Fault PUnit
  | [] => .ok ⟨⟩
  | d :: rest => do
    let types ← claim .type types d.name d.path
    let modules ← if d.nested.isEmpty then .ok modules
      else claim .module modules (moduleName d.name) d.path
    checkDecl [] d
    checkNested types modules rest

end

def checkUnit (u : TypeUnit) : Except Fault PUnit :=
  checkDecl [(u.decl.name, u.decl.path)] u.decl

end SignalTree.Source
