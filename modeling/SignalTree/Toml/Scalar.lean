import SignalTree.Decimal.Binary
import SignalTree.Text.Hex

/-!
The words of TOML that are no strings: booleans, numbers, dates and times. Only
whether a word is one of them matters here.
-/
namespace SignalTree.Toml.Scalar

def isDigitRow (isDigit : Char → Bool) : List Char → Bool
  | [] => false
  | [c] => isDigit c
  | c :: '_' :: rest => isDigit c && isDigitRow isDigit rest
  | c :: rest => isDigit c && isDigitRow isDigit rest

def isHexDigit (c : Char) : Bool := (Text.hexDigit? c).isSome
def isOctalDigit (c : Char) : Bool := '0' ≤ c && c ≤ '7'
def isBinaryDigit (c : Char) : Bool := c == '0' || c == '1'

def rowValue (base : Nat) (row : List Char) : Nat :=
  (row.filter (· ≠ '_')).foldl (fun n c => base * n + (Text.hexDigit? c).getD 0) 0

def isWholeRow : List Char → Bool
  | ['0'] => true
  | '0' :: _ => false
  | row => isDigitRow Char.isDigit row

def isInteger (word : List Char) : Bool :=
  match word with
  | '0' :: 'x' :: row => isDigitRow isHexDigit row && rowValue 16 row < Nat.pow 2 63
  | '0' :: 'o' :: row => isDigitRow isOctalDigit row && rowValue 8 row < Nat.pow 2 63
  | '0' :: 'b' :: row => isDigitRow isBinaryDigit row && rowValue 2 row < Nat.pow 2 63
  | _ =>
    let (negative, row) := Numeral.splitSign word
    isWholeRow row && rowValue 10 row < Nat.pow 2 63 + (if negative then 1 else 0)

def isExponent (cs : List Char) : Bool :=
  match cs with
  | c :: rest =>
    (c == 'e' || c == 'E') && isDigitRow Char.isDigit (Numeral.splitSign rest).2
  | [] => false

def isDecimal (cs : List Char) : Bool :=
  let isRowChar (c : Char) : Bool := c.isDigit || c == '_'
  let whole := cs.takeWhile isRowChar
  isWholeRow whole &&
    match cs.dropWhile isRowChar with
    | '.' :: rest =>
      isDigitRow Char.isDigit (rest.takeWhile isRowChar) &&
        (let tail := rest.dropWhile isRowChar; tail.isEmpty || isExponent tail)
    | rest => isExponent rest

def isFloat (word : List Char) : Bool :=
  let (negative, cs) := Numeral.splitSign word
  cs == ['i', 'n', 'f'] || cs == ['n', 'a', 'n'] ||
    (isDecimal cs &&
      (negative ||
        (((Numeral.read? (cs.filter (· ≠ '_'))).bind Binary.ofNumeral?).isSome)))

def takeDigits? (n : Nat) (cs : List Char) : Option (Nat × List Char) :=
  let ds := cs.take n
  if ds.length = n ∧ ds.all Char.isDigit then some (Numeral.ofDigits ds, cs.drop n) else none

def daysOfMonth (year month : Nat) : Nat :=
  if month = 2 then
    if year % 4 = 0 ∧ (year % 100 ≠ 0 ∨ year % 400 = 0) then 29 else 28
  else if month = 4 ∨ month = 6 ∨ month = 9 ∨ month = 11 then 30
  else 31

def expect? (c : Char) : List Char → Option (List Char)
  | d :: rest => if d = c then some rest else none
  | [] => none

def takeDate? (cs : List Char) : Option (List Char) := do
  let (year, cs) ← takeDigits? 4 cs
  let (month, cs) ← takeDigits? 2 (← expect? '-' cs)
  let (day, cs) ← takeDigits? 2 (← expect? '-' cs)
  if 1 ≤ month ∧ month ≤ 12 ∧ 1 ≤ day ∧ day ≤ daysOfMonth year month then some cs else none

def takeHourMinute? (cs : List Char) : Option (List Char) := do
  let (hour, cs) ← takeDigits? 2 cs
  let (minute, cs) ← takeDigits? 2 (← expect? ':' cs)
  if hour ≤ 23 ∧ minute ≤ 59 then some cs else none

/-- A minute may have a leap second. -/
def takeTime? (cs : List Char) : Option (List Char) := do
  let (second, cs) ← takeDigits? 2 (← expect? ':' (← takeHourMinute? cs))
  if 60 < second then none
  else
    match cs with
    | '.' :: rest =>
      let ds := rest.takeWhile Char.isDigit
      if ds.isEmpty then none else some (rest.dropWhile Char.isDigit)
    | _ => some cs

def isOffset (cs : List Char) : Bool :=
  match cs with
  | [] => true
  | [c] => c == 'Z' || c == 'z'
  | c :: rest => (c == '+' || c == '-') && takeHourMinute? rest == some []

def isTime (word : List Char) : Bool := takeTime? word == some []

def isTimeWithOffset (word : List Char) : Bool := (takeTime? word).any isOffset

def isDate (word : List Char) : Bool := takeDate? word == some []

def isDateTime (word : List Char) : Bool :=
  match takeDate? word with
  | some (c :: rest) => (c == 'T' || c == 't') && isTimeWithOffset rest
  | _ => false

def isBoolean (word : List Char) : Bool :=
  word == "true".toList || word == "false".toList

def isScalar (word : List Char) : Bool :=
  isBoolean word || isInteger word || isFloat word || isDate word || isTime word ||
    isDateTime word

end SignalTree.Toml.Scalar
