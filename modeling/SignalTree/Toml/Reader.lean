import SignalTree.Json.Reader
import SignalTree.Toml.Scalar
import SignalTree.Toml.Value

/-! The parts of TOML texts: keys, values and the statements of a document. -/
namespace SignalTree.Toml

def depthLimit : Nat := 79

def keyLimit : Nat := 79

def isSpace (c : Char) : Bool := c == ' ' || c == '\t'

def isPlain (c : Char) : Bool := c == '\t' || (0x20 ≤ c.toNat && c.toNat != 0x7F)

def skipSpaces (cs : List Char) : List Char := cs.dropWhile isSpace

mutual

def skipBlanks? : List Char → Option (List Char)
  | ' ' :: rest => skipBlanks? rest
  | '\t' :: rest => skipBlanks? rest
  | '\n' :: rest => skipBlanks? rest
  | '\r' :: '\n' :: rest => skipBlanks? rest
  | '#' :: rest => skipComment? rest
  | rest => some rest

def skipComment? : List Char → Option (List Char)
  | '\n' :: rest => skipBlanks? rest
  | '\r' :: '\n' :: rest => skipBlanks? rest
  | c :: rest => if isPlain c then skipComment? rest else none
  | [] => some []

end

def endLine? (cs : List Char) : Option (List Char) :=
  let rest := match skipSpaces cs with
    | '#' :: rest => rest.dropWhile isPlain
    | rest => rest
  match rest with
  | [] => some []
  | '\n' :: rest => some rest
  | '\r' :: '\n' :: rest => some rest
  | _ => none

/-! Strings. -/

def ofCode? (hex : List Char) : Option Char := do
  let n ← Text.hexNumber? hex
  if n.isValidChar then some (Char.ofNat n) else none

def shortEscape? : Char → Option Char
  | '/' => none
  | c => Json.shortEscape? c

def readBasic? : List Char → Option (List Char × List Char)
  | '"' :: rest => some ([], rest)
  | '\\' :: 'u' :: a :: b :: c :: d :: rest => do
    let e ← ofCode? [a, b, c, d]
    let (cs, after) ← readBasic? rest
    return (e :: cs, after)
  | '\\' :: 'U' :: a :: b :: c :: d :: a' :: b' :: c' :: d' :: rest => do
    let e ← ofCode? [a, b, c, d, a', b', c', d']
    let (cs, after) ← readBasic? rest
    return (e :: cs, after)
  | '\\' :: c :: rest => do
    let e ← shortEscape? c
    let (cs, after) ← readBasic? rest
    return (e :: cs, after)
  | c :: rest => do
    if isPlain c then
      let (cs, after) ← readBasic? rest
      return (c :: cs, after)
    else none
  | [] => none

def readLiteral? : List Char → Option (List Char × List Char)
  | '\'' :: rest => some ([], rest)
  | c :: rest => do
    if isPlain c then
      let (cs, after) ← readLiteral? rest
      return (c :: cs, after)
    else none
  | [] => none

def endsLine (cs : List Char) : Bool :=
  match skipSpaces cs with
  | '\n' :: _ => true
  | '\r' :: '\n' :: _ => true
  | _ => false

/-- Up to three quotes in a row, in front of which one or two more belong to the
text. `skipping` drops all space after a backslash at the end of a line. -/
def readLongBasic? : (skipping : Bool) → List Char → Option (List Char × List Char)
  | _, '"' :: '"' :: '"' :: '"' :: '"' :: rest => some (['"', '"'], rest)
  | _, '"' :: '"' :: '"' :: '"' :: rest => some (['"'], rest)
  | _, '"' :: '"' :: '"' :: rest => some ([], rest)
  | _, '\\' :: 'u' :: a :: b :: c :: d :: rest => do
    let e ← ofCode? [a, b, c, d]
    let (cs, after) ← readLongBasic? false rest
    return (e :: cs, after)
  | _, '\\' :: 'U' :: a :: b :: c :: d :: a' :: b' :: c' :: d' :: rest => do
    let e ← ofCode? [a, b, c, d, a', b', c', d']
    let (cs, after) ← readLongBasic? false rest
    return (e :: cs, after)
  | skipping, '\r' :: '\n' :: rest => do
    let (cs, after) ← readLongBasic? skipping rest
    return (if skipping then cs else '\n' :: cs, after)
  | skipping, '\n' :: rest => do
    let (cs, after) ← readLongBasic? skipping rest
    return (if skipping then cs else '\n' :: cs, after)
  | _, '\\' :: c :: rest => do
    if endsLine (c :: rest) then readLongBasic? true (c :: rest)
    else
      let e ← shortEscape? c
      let (cs, after) ← readLongBasic? false rest
      return (e :: cs, after)
  | skipping, c :: rest => do
    if skipping && isSpace c then readLongBasic? true rest
    else if isPlain c then
      let (cs, after) ← readLongBasic? false rest
      return (c :: cs, after)
    else none
  | _, [] => none

def readLongLiteral? : List Char → Option (List Char × List Char)
  | '\'' :: '\'' :: '\'' :: '\'' :: '\'' :: rest => some (['\'', '\''], rest)
  | '\'' :: '\'' :: '\'' :: '\'' :: rest => some (['\''], rest)
  | '\'' :: '\'' :: '\'' :: rest => some ([], rest)
  | '\r' :: '\n' :: rest => do
    let (cs, after) ← readLongLiteral? rest
    return ('\n' :: cs, after)
  | c :: rest => do
    if isPlain c || c == '\n' then
      let (cs, after) ← readLongLiteral? rest
      return (c :: cs, after)
    else none
  | [] => none

def skipLineEnd : List Char → List Char
  | '\n' :: rest => rest
  | '\r' :: '\n' :: rest => rest
  | rest => rest

def readString? : List Char → Option (List Char × List Char)
  | '"' :: '"' :: '"' :: rest => readLongBasic? false (skipLineEnd rest)
  | '"' :: rest => readBasic? rest
  | '\'' :: '\'' :: '\'' :: rest => readLongLiteral? (skipLineEnd rest)
  | '\'' :: rest => readLiteral? rest
  | _ => none

/-! Keys. -/

def isBareChar (c : Char) : Bool := c.isAlphanum || c == '_' || c == '-'

def readKey? (cs : List Char) : Option (String × List Char) :=
  match cs with
  | '"' :: rest => (readBasic? rest).map fun (s, rest) => (String.ofList s, rest)
  | '\'' :: rest => (readLiteral? rest).map fun (s, rest) => (String.ofList s, rest)
  | _ =>
    let key := cs.takeWhile isBareChar
    if key.isEmpty then none else some (String.ofList key, cs.dropWhile isBareChar)

/-- Up to `limit` keys between dots, with spaces around them. -/
def readKeys? : (limit : Nat) → List Char → Option (List String × List Char)
  | 0, _ => none
  | limit + 1, cs => do
    let (key, rest) ← readKey? (skipSpaces cs)
    match skipSpaces rest with
    | '.' :: rest =>
      let (keys, rest) ← readKeys? limit rest
      return (key :: keys, rest)
    | rest => return ([key], rest)

/-! Values. -/

def isWordChar (c : Char) : Bool :=
  c.isAlphanum || c == '+' || c == '-' || c == '_' || c == '.' || c == ':'

/-- A single space may stand between a date and a time. -/
def readScalar? (cs : List Char) : Option (Toml × List Char) :=
  let word := cs.takeWhile isWordChar
  let rest := cs.dropWhile isWordChar
  match rest with
  | ' ' :: more =>
    if Scalar.isDate word && Scalar.isTimeWithOffset (more.takeWhile isWordChar) then
      some (scalar, more.dropWhile isWordChar)
    else if Scalar.isScalar word then some (scalar, rest) else none
  | _ => if Scalar.isScalar word then some (scalar, rest) else none

mutual

/-- `fuel` bounds the number of steps, `depth` the levels that may still open. -/
def readValue? : (fuel depth : Nat) → List Char → Option (Toml × List Char)
  | 0, _, _ => none
  | fuel + 1, depth, cs =>
    match cs with
    | '"' :: _ => (readString? cs).map fun (s, rest) => (string (String.ofList s), rest)
    | '\'' :: _ => (readString? cs).map fun (s, rest) => (string (String.ofList s), rest)
    | '[' :: rest =>
      match depth with
      | 0 => none
      | depth + 1 => (readItems? fuel depth rest).map fun rest => (array, rest)
    | '\x7b' :: rest =>
      match depth with
      | 0 => none
      | depth + 1 =>
        match skipSpaces rest with
        | '\x7d' :: rest => some (table .inline [], rest)
        | rest => (readPairs? fuel depth [] rest).map fun (es, rest) => (table .inline es, rest)
    | _ => readScalar? cs

def readItems? : (fuel depth : Nat) → List Char → Option (List Char)
  | 0, _, _ => none
  | fuel + 1, depth, cs => do
    match ← skipBlanks? cs with
    | ']' :: rest => return rest
    | cs =>
      let (_, rest) ← readValue? fuel depth cs
      match ← skipBlanks? rest with
      | ']' :: rest => return rest
      | ',' :: rest => readItems? fuel depth rest
      | _ => none

def readPairs? : (fuel depth : Nat) → Entries → List Char → Option (Entries × List Char)
  | 0, _, _, _ => none
  | fuel + 1, depth, before, cs => do
    let (keys, rest) ← readKeys? keyLimit cs
    match rest with
    | '=' :: rest =>
      let (value, rest) ← readValue? fuel depth (skipSpaces rest)
      let entries ← addDotted? value keys before
      match skipSpaces rest with
      | '\x7d' :: rest => return (entries, rest)
      | ',' :: rest => readPairs? fuel depth entries rest
      | _ => none
    | _ => none

end

/-! Statements. -/

inductive Statement where
  | entry (keys : List String) (value : Toml)
  | header (keys : List String)
  | tablesHeader (keys : List String)

/-- A statement and the rest of its line. -/
def readStatement? (cs : List Char) : Option (Statement × List Char) := do
  match cs with
  | '[' :: '[' :: rest =>
    match ← readKeys? keyLimit rest with
    | (keys, ']' :: ']' :: rest) => return (.tablesHeader keys, ← endLine? rest)
    | _ => none
  | '[' :: rest =>
    match ← readKeys? keyLimit rest with
    | (keys, ']' :: rest) => return (.header keys, ← endLine? rest)
    | _ => none
  | _ =>
    match ← readKeys? keyLimit cs with
    | (keys, '=' :: rest) =>
      let (value, rest) ← readValue? (2 * rest.length + 2) depthLimit (skipSpaces rest)
      return (.entry keys value, ← endLine? rest)
    | _ => none

def readStatements? : (fuel : Nat) → List Char → Option (List Statement)
  | 0, _ => none
  | fuel + 1, cs => do
    match ← skipBlanks? cs with
    | [] => return []
    | cs =>
      let (statement, rest) ← readStatement? cs
      return statement :: (← readStatements? fuel rest)

end SignalTree.Toml
