import SignalTree.Datatype.Literal
import SignalTree.Model.Name
import SignalTree.Source.Code

/-!
The items of a generated file and how they are written. Modules hold items of
their own, so a name is looked up relative to the module it stands in.
-/
namespace SignalTree.Source

def nodeTrait : String := "VssNode"

def childTrait : String := "VssChild"

/-- A type or trait, named through the modules that lead to it. -/
structure TypePath where
  modules : List String
  name : String
deriving DecidableEq

namespace TypePath

def upward : String := "super"

def text (p : TypePath) : String := "::".intercalate (p.modules ++ [p.name])

end TypePath

structure Field where
  name : String
  type : TypePath
deriving DecidableEq

structure Constant where
  name : String
  type : String
  literal : String
deriving DecidableEq

/-- A struct with its constants, its default and its traits. `depth` counts the
modules between it and the index module. -/
structure StructItem where
  docs : List String
  name : String
  value : ValueType
  fields : List Field
  constants : List Constant
  depth : Nat
  parent : Option TypePath
deriving DecidableEq

inductive Item where
  | struct (item : StructItem)
  | module (name : String) (items : List Item)

def openBrace : String := " \x7b"
def closeBrace : String := "\x7d"

def braces (head : String) (body : List Code) : Code :=
  .block (head ++ openBrace) body closeBrace

/-- A line of documentation. Trailing space would only clutter the file. -/
def docLine (text : String) : Code :=
  let cs := Text.trimEnd text.toList
  if cs.isEmpty then .line "///" else .line ("/// " ++ String.ofList cs)

def Constant.code (c : Constant) : Code :=
  .line ("pub const " ++ c.name ++ ": " ++ c.type ++ " = " ++ c.literal ++ ";")

namespace StructItem

def traitPath (s : StructItem) (name : String) : TypePath :=
  ⟨List.replicate s.depth TypePath.upward, name⟩

def declaration (s : StructItem) : Code :=
  braces ("pub struct " ++ s.name) <|
    .line ("pub " ++ valueField ++ ": " ++ s.value.rustType ++ ",") ::
      s.fields.map fun f => .line ("pub " ++ f.name ++ ": " ++ f.type.text ++ ",")

def constantImpl (s : StructItem) : Code :=
  braces ("impl " ++ s.name) (s.constants.map Constant.code)

def defaultImpl (s : StructItem) : Code :=
  braces ("impl Default for " ++ s.name) [
    braces "fn default() -> Self" [
      braces "Self" <|
        .line (valueField ++ ": " ++ s.value.defaultLiteral ++ ",") ::
          s.fields.map fun f => .line (f.name ++ ": Default::default(),")]]

def childList (s : StructItem) : Code :=
  if s.fields.isEmpty then .line "Vec::new()"
  else
    .block "vec!["
      (s.fields.map fun f =>
        .line ("&self." ++ f.name ++ " as &dyn " ++ (s.traitPath nodeTrait).text ++ ","))
      "]"

def nodeImpl (s : StructItem) : Code :=
  let trait := (s.traitPath nodeTrait).text
  braces ("impl " ++ trait ++ " for " ++ s.name) [
    braces "fn vss_path(&self) -> &'static str" [.line "Self::VSS_PATH"],
    .blank,
    braces ("fn children(&self) -> Vec<&dyn " ++ trait ++ ">") [s.childList]]

def parentImpl (s : StructItem) (parent : TypePath) : Code :=
  braces ("impl " ++ (s.traitPath childTrait).text ++ " for " ++ s.name)
    [.line ("type Parent = " ++ parent.text ++ ";")]

def code (s : StructItem) : List Code :=
  s.docs.map docLine ++ [
    .line "#[derive(Debug, Clone, PartialEq)]",
    s.declaration,
    .blank,
    s.constantImpl,
    .blank,
    s.defaultImpl,
    .blank,
    s.nodeImpl] ++
  match s.parent with
  | some parent => [.blank, s.parentImpl parent]
  | none => []

end StructItem

namespace Item

mutual

def code : Item → List Code
  | struct item => item.code
  | module name items => [braces ("pub mod " ++ name) (Code.spaced (codesOf items))]

def codesOf : List Item → List (List Code)
  | [] => []
  | item :: rest => item.code :: codesOf rest

end

end Item

end SignalTree.Source
