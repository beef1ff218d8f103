import SignalTree.Text.Literal
import SignalTree.Workspace.FilePath

/-! Why an operation on files fails. -/
namespace SignalTree

inductive OsError where
  | notFound
  | busy
  | alreadyExists
  | notADirectory
  | isADirectory
  | invalidArgument
  | nameTooLong
  /-- No directory can be made at a path that was chosen, not given. -/
  | chosenNameTooLong (path : FilePath)
  | notEmpty
  | nulInPath
  | invalidText
  | other (message : String)
deriving DecidableEq

namespace OsError

def message : OsError → String
  | notFound => "No such file or directory (os error 2)"
  | busy => "Device or resource busy (os error 16)"
  | alreadyExists => "File exists (os error 17)"
  | notADirectory => "Not a directory (os error 20)"
  | isADirectory => "Is a directory (os error 21)"
  | invalidArgument => "Invalid argument (os error 22)"
  | nameTooLong => "File name too long (os error 36)"
  | chosenNameTooLong path =>
    s!"File name too long (os error 36) at path {Text.Literal.quote path.text}"
  | notEmpty => "Directory not empty (os error 39)"
  | nulInPath => "file name contained an unexpected NUL byte"
  | invalidText => "stream did not contain valid UTF-8"
  | other message => message

end OsError

end SignalTree
