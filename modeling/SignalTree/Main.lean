import SignalTree.CommandLine.Program

/-! The command line on the files of this machine. -/
namespace SignalTree

def errorNumber (code : UInt32) : UInt32 := if code < 0x80000000 then code else 0 - code

/-- Error numbers say more than the kinds of error that are told apart here. -/
def OsError.ofError (e : IO.Error) : OsError :=
  match e with
  | .noFileOrDirectory .. => .notFound
  | .resourceBusy .. => .busy
  | .alreadyExists .. => .alreadyExists
  | .inappropriateType _ code _ =>
    if errorNumber code = 21 then .isADirectory else .notADirectory
  | .invalidArgument _ code details =>
    if errorNumber code = 36 then .nameTooLong
    else if details == "string contains NUL bytes" then .nulInPath
    else .invalidArgument
  | .unsatisfiedConstraints .. => .notEmpty
  | _ => .other (toString e)

def attempt (x : IO α) : IO (Except OsError α) := do
  match ← x.toBaseIO with
  | .ok a => return .ok a
  | .error e => return .error (.ofError e)

def isDirectory (p : FilePath) : IO Bool := (System.mkFilePath [p.text]).isDir

def readText (p : FilePath) : IO (Except OsError String) := do
  match ← attempt (IO.FS.readBinFile p.text) with
  | .error e => return .error e
  | .ok bytes =>
    match String.fromUTF8? bytes with
    | some text => return .ok text
    | none => return .error .invalidText

def createDirectories (p : FilePath) : IO (Except OsError PUnit) := do
  if p.text == "" then return .ok ⟨⟩
  match ← attempt (IO.FS.createDirAll p.text) with
  | .ok _ => return .ok ⟨⟩
  | .error e => return if ← isDirectory p then .ok ⟨⟩ else .error e

def createStaging (p : FilePath) : (tries : Nat) → IO (Except OsError FilePath)
  | 0 => return .error .alreadyExists
  | tries + 1 => do
    match ← attempt (IO.FS.realPath p.text) with
    | .error e => return .error e
    | .ok full =>
      let number ← IO.rand 100000 999999
      let staging := (FilePath.mk full.toString).join s!".vss-codegen-{number}"
      match ← attempt (IO.FS.createDir staging.text) with
      | .ok _ => return .ok staging
      | .error .alreadyExists => createStaging p tries
      | .error e => return .error e

partial def walk (dir : FilePath) (place : List String) : IO (List (List String)) := do
  let entries ← (System.mkFilePath [dir.text]).readDir
  let found ← entries.toList.mapM fun entry => do
    let inside := place ++ [entry.fileName]
    if ← entry.path.isDir then walk (dir.join entry.fileName) inside else return [inside]
  return found.flatten

instance : Files IO where
  isDirectory := isDirectory
  pathExists p := (System.mkFilePath [p.text]).pathExists
  readText := readText
  writeText p text := attempt (IO.FS.writeFile p.text text)
  createDirectories := createDirectories
  createStaging p := createStaging p 100
  removeTree p := attempt (IO.FS.removeDirAll p.text)
  rename source goal := attempt (IO.FS.rename source.text goal.text)
  filesBelow dir := walk dir []

def Event.line (e : Event) : String :=
  let fields := e.fields.map fun (name, value) => s!" {name}={value}"
  s!"{e.level.name} {e.message}" ++ String.join fields

end SignalTree

def main (args : List String) : IO UInt32 := do
  let session ← (SignalTree.CommandLine.run args : IO _)
  let stderr ← IO.getStderr
  for event in session.log do
    stderr.putStrLn event.line
  IO.print session.response.stdout
  stderr.putStr session.response.stderr
  return session.response.code.toUInt32
