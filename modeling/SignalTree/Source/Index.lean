import SignalTree.Model.Basic
import SignalTree.Source.Declare

/-!
The index module: a submodule and a re-exported type for every unit, and the
traits that all node types implement.
-/
namespace SignalTree.Source

/-- Nothing, or some lines and a blank one after them. -/
def paragraph (lines : List Code) : List Code := if lines.isEmpty then [] else lines ++ [.blank]

def nodeTraitCode : List Code := [
  .line "/// Common view over every generated VSS node.",
  braces ("pub trait " ++ nodeTrait) [
    .line "/// Dotted VSS path of the node.",
    .line "fn vss_path(&self) -> &'static str;",
    .blank,
    .line "/// Child nodes, in definition order.",
    .line ("fn children(&self) -> Vec<&dyn " ++ nodeTrait ++ ">;")]]

def childTraitCode : List Code := [
  .line "/// Links a node type to the type of its parent node.",
  braces ("pub trait " ++ childTrait) [.line ("type Parent: " ++ nodeTrait ++ ";")]]

def submoduleLine (typeName : String) : Code := .line ("pub mod " ++ moduleName typeName ++ ";")

def exportLine (typeName : String) : Code :=
  .line ("pub use " ++ (TypePath.mk [moduleName typeName] typeName).text ++ ";")

def indexCode (typeNames : List String) (module : String) : List Code :=
  [.line generatedNote, .line ("//! VSS node model `" ++ module ++ "`."), .blank] ++
    paragraph (typeNames.map submoduleLine) ++ paragraph (typeNames.map exportLine) ++
    nodeTraitCode ++ .blank :: childTraitCode

end SignalTree.Source
