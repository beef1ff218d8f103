import SignalTree.Decimal.Layout
import SignalTree.Json.Value

/-! JSON values as text, on one line or indented. -/
namespace SignalTree.Json

/-- Numbers show no exponent from 0.00001 up to, and not including, ten to the
sixteenth. -/
def numberFormat : NumberFormat where
  plainFrom := -5
  plainBelow := 16
  plusSign := ['+']
  tie := .toEven

def escape (c : Char) : List Char :=
  if c = '"' then ['\\', '"']
  else if c = '\\' then ['\\', '\\']
  else if c = '\x08' then ['\\', 'b']
  else if c = '\x0c' then ['\\', 'f']
  else if c = '\n' then ['\\', 'n']
  else if c = '\r' then ['\\', 'r']
  else if c = '\t' then ['\\', 't']
  else if c.toNat < 0x20 then
    let ds := Nat.toDigits 16 c.toNat
    ['\\', 'u'] ++ List.replicate (4 - ds.length) '0' ++ ds
  else [c]

def quote (s : String) : String :=
  String.ofList ('"' :: s.toList.flatMap escape ++ ['"'])

mutual

def render : Json → String
  | null => "null"
  | bool b => if b then "true" else "false"
  | integer n => toString n
  | float x => numberFormat.render x
  | string s => quote s
  | array items => "[" ++ ",".intercalate (renderItems items) ++ "]"
  | object members => "\x7b" ++ ",".intercalate (renderMembers members) ++ "\x7d"

def renderItems : List Json → List String
  | [] => []
  | item :: rest => item.render :: renderItems rest

def renderMembers : List (String × Json) → List String
  | [] => []
  | (key, value) :: rest => (quote key ++ ":" ++ value.render) :: renderMembers rest

end

def bracket (indent : String) (opening closing : String) (parts : List String) : String :=
  if parts.isEmpty then opening ++ closing
  else
    opening ++ "\n" ++ ",\n".intercalate (parts.map (indent ++ "  " ++ ·)) ++ "\n" ++ indent ++
      closing

mutual

/-- Every level is indented by two more spaces. -/
def renderIndented (indent : String) : Json → String
  | array items => bracket indent "[" "]" (indentItems (indent ++ "  ") items)
  | object members => bracket indent "\x7b" "\x7d" (indentMembers (indent ++ "  ") members)
  | null => "null"
  | bool b => if b then "true" else "false"
  | integer n => toString n
  | float x => numberFormat.render x
  | string s => quote s

def indentItems (indent : String) : List Json → List String
  | [] => []
  | item :: rest => item.renderIndented indent :: indentItems indent rest

def indentMembers (indent : String) : List (String × Json) → List String
  | [] => []
  | (key, value) :: rest =>
    (quote key ++ ": " ++ value.renderIndented indent) :: indentMembers indent rest

end

end SignalTree.Json
