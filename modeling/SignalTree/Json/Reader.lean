import SignalTree.Json.Number
import SignalTree.Text.Hex

/-!
Reading JSON, as strictly as its standard. Arrays and objects may be nested in
each other up to `depthLimit` levels.
-/
namespace SignalTree.Json

def depthLimit : Nat := 127

def isBlank (c : Char) : Bool := c == ' ' || c == '\t' || c == '\n' || c == '\r'

def skipBlanks (cs : List Char) : List Char := cs.dropWhile isBlank

def isHighSurrogate (n : Nat) : Bool := 0xD800 ≤ n && n ≤ 0xDBFF
def isLowSurrogate (n : Nat) : Bool := 0xDC00 ≤ n && n ≤ 0xDFFF

def shortEscape? : Char → Option Char
  | '"' => some '"'
  | '\\' => some '\\'
  | '/' => some '/'
  | 'b' => some '\x08'
  | 'f' => some '\x0c'
  | 'n' => some '\n'
  | 'r' => some '\r'
  | 't' => some '\t'
  | _ => none

/-- The characters up to the closing quote, and the rest. Characters beyond the
basic plane are written as a pair of surrogates; half a pair is an error. -/
def readChars? : List Char → Option (List Char × List Char)
  | '"' :: rest => some ([], rest)
  | '\\' :: 'u' :: a :: b :: c :: d :: '\\' :: 'u' :: e :: f :: g :: h :: rest => do
    let n ← Text.hexNumber? [a, b, c, d]
    if isHighSurrogate n then
      let m ← Text.hexNumber? [e, f, g, h]
      if isLowSurrogate m then
        let (cs, after) ← readChars? rest
        return (Char.ofNat (0x10000 + (n - 0xD800) * 0x400 + (m - 0xDC00)) :: cs, after)
      else none
    else if isLowSurrogate n then none
    else
      let (cs, after) ← readChars? ('\\' :: 'u' :: e :: f :: g :: h :: rest)
      return (Char.ofNat n :: cs, after)
  | '\\' :: 'u' :: a :: b :: c :: d :: rest => do
    let n ← Text.hexNumber? [a, b, c, d]
    if isHighSurrogate n || isLowSurrogate n then none
    else
      let (cs, after) ← readChars? rest
      return (Char.ofNat n :: cs, after)
  | '\\' :: c :: rest => do
    let e ← shortEscape? c
    let (cs, after) ← readChars? rest
    return (e :: cs, after)
  | c :: rest => do
    if c.toNat < 0x20 ∨ c = '\\' then none
    else
      let (cs, after) ← readChars? rest
      return (c :: cs, after)
  | [] => none

mutual

/-- `fuel` bounds the number of steps, `depth` the levels that may still open. -/
def readValue? : (fuel depth : Nat) → List Char → Option (Json × List Char)
  | 0, _, _ => none
  | fuel + 1, depth, cs =>
    match skipBlanks cs with
    | 'n' :: 'u' :: 'l' :: 'l' :: rest => some (null, rest)
    | 't' :: 'r' :: 'u' :: 'e' :: rest => some (bool true, rest)
    | 'f' :: 'a' :: 'l' :: 's' :: 'e' :: rest => some (bool false, rest)
    | '"' :: rest => (readChars? rest).map fun (s, rest) => (string (String.ofList s), rest)
    | '[' :: rest =>
      match depth with
      | 0 => none
      | depth + 1 =>
        match skipBlanks rest with
        | ']' :: rest => some (array [], rest)
        | rest => (readItems? fuel depth rest).map fun (items, rest) => (array items, rest)
    | '\x7b' :: rest =>
      match depth with
      | 0 => none
      | depth + 1 =>
        match skipBlanks rest with
        | '\x7d' :: rest => some (object [], rest)
        | rest => (readMembers? fuel depth [] rest).map fun (ms, rest) => (object ms, rest)
    | rest => readNumber? rest

def readItems? : (fuel depth : Nat) → List Char → Option (List Json × List Char)
  | 0, _, _ => none
  | fuel + 1, depth, cs => do
    let (item, rest) ← readValue? fuel depth cs
    match skipBlanks rest with
    | ']' :: rest => return ([item], rest)
    | ',' :: rest =>
      let (items, rest) ← readItems? fuel depth rest
      return (item :: items, rest)
    | _ => none

def readMembers? : (fuel depth : Nat) → List (String × Json) → List Char →
    Option (List (String × Json) × List Char)
  | 0, _, _, _ => none
  | fuel + 1, depth, before, cs =>
    match skipBlanks cs with
    | '"' :: rest => do
      let (key, rest) ← readChars? rest
      match skipBlanks rest with
      | ':' :: rest =>
        let (value, rest) ← readValue? fuel depth rest
        let members := insertMember (String.ofList key) value before
        match skipBlanks rest with
        | '\x7d' :: rest => return (members, rest)
        | ',' :: rest => readMembers? fuel depth members rest
        | _ => none
      | _ => none
    | _ => none

end

/-- Opening a level takes two steps and every item one more, so twice the length
of the text is fuel enough. -/
def read? (text : String) : Option Json :=
  let cs := text.toList
  match readValue? (2 * cs.length + 2) depthLimit cs with
  | some (value, rest) => if (skipBlanks rest).isEmpty then some value else none
  | none => none

end SignalTree.Json
