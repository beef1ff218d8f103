import SignalTree.Definition.Defect
import SignalTree.Node.Record
import SignalTree.Text.Basic

/-!
The flat layout: a paragraph of lines per node. The first line holds the path
before a colon, each other line one attribute as `key: value`.
-/
namespace SignalTree.Definition.Flat

abbrev Line := List Char

/-- Comments and document markers. They do not even end a paragraph. -/
def isIgnored (line : Line) : Bool := line.head? == some '#' || line == ['-', '-', '-']

def contentLines (source : List Char) : List Line :=
  ((Text.lines source).map Text.trim).filter (!isIgnored ·)

/-- `current` is the paragraph under way, last line first. -/
def paragraphsFrom (current : List Line) : List Line → List (List Line)
  | [] => if current.isEmpty then [] else [current.reverse]
  | line :: rest =>
    if !line.isEmpty then paragraphsFrom (line :: current) rest
    else if current.isEmpty then paragraphsFrom [] rest
    else current.reverse :: paragraphsFrom [] rest

def paragraphs (lines : List Line) : List (List Line) := paragraphsFrom [] lines

/-- The lines after the header, each behind a line feed. -/
def bodyText (lines : List Line) : List Char := lines.flatMap ('\n' :: ·)

/-- The value behind the first line that starts with the key. The line feed in
front keeps `type` from being found in `datatype`. -/
def attributeValue (body : List Char) (a : Attribute) : String :=
  match Text.after? ('\n' :: a.name.toList ++ [':', ' ']) body with
  | none => ""
  | some rest => String.ofList (Text.unquote (Text.trim (rest.takeWhile (· ≠ '\n'))))

def readParagraph : List Line → Except Defect Record
  | [] => .error (.headerWithoutColon "")
  | header :: lines =>
    match Text.splitOnce? ':' header with
    | none => .error (.headerWithoutColon (String.ofList header))
    | some (before, _) =>
      let path := Text.trim before
      if path.isEmpty then .error (.headerWithoutPath (String.ofList header))
      else
        let path := Path.ofText (String.ofList path)
        match Record.ofAttributes? path (attributeValue (bodyText lines)) with
        | some record => .ok record
        | none => .error (.missingType path)

def read (source : String) : Except Defect (List Record) :=
  (paragraphs (contentLines source.toList)).mapM readParagraph

end SignalTree.Definition.Flat
