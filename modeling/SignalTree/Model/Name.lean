import SignalTree.Path
import SignalTree.Text.Words

/-!
Names of generated types, modules and fields. A type is named for the leaf of
its path, a module for its type and a field for the leaf of the child.
-/
namespace SignalTree

/-- Keeps type names clear of reserved identifiers. -/
def typePrefix : String := "Vss"

def isTypeNameChar (c : Char) : Bool := c.isAlphanum || c == '_'

/-- What no name can hold becomes an underscore. -/
def sanitize (keep : Char → Bool) (cs : List Char) : List Char :=
  cs.map fun c => if keep c then c else '_'

/-- An empty leaf has no type name of its own, see `Path.isNameable`. -/
def Path.typeName (p : Path) : String :=
  typePrefix ++ String.ofList (sanitize isTypeNameChar p.leaf.text.toList)

def Path.isNameable (p : Path) : Bool := !p.leaf.isEmpty

def isIdentChar (c : Char) : Bool := c.isLower || c.isDigit || c == '_'

def snakeIdent (text : String) : String :=
  String.ofList (sanitize isIdentChar (Text.snakeCase text.toList))

/-- The module that belongs to a type, and the stem of its file. -/
def moduleName (typeName : String) : String := snakeIdent typeName

def valueField : String := "value"

/-- Keywords of Rust that can be identifiers in their raw form. -/
def keywords : List String :=
  ["abstract", "as", "async", "await", "become", "box", "break", "const", "continue", "do",
    "dyn", "else", "enum", "extern", "false", "final", "fn", "for", "gen", "if", "impl", "in",
    "let", "loop", "macro", "match", "mod", "move", "mut", "override", "priv", "pub", "ref",
    "return", "static", "struct", "trait", "true", "try", "type", "typeof", "unsafe", "unsized",
    "use", "virtual", "where", "while", "yield"]

/-- Keywords without a raw form. -/
def strictKeywords : List String := ["crate", "self", "super", "_"]

/-- An identifier needs a first character that is no digit. -/
def guardFirst (ident : String) : String :=
  match ident.toList.head? with
  | none => "_"
  | some c => if c.isDigit then "_" ++ ident else ident

/-- Steps aside for the value field and for keywords. -/
def escapeField (ident : String) : String :=
  if ident = valueField then ident ++ "_node"
  else if ident ∈ strictKeywords then ident ++ "_"
  else if ident ∈ keywords then "r#" ++ ident
  else ident

def fieldName (p : Path) : String := escapeField (guardFirst (snakeIdent p.leaf.text))

end SignalTree
