import FlatDb.CommandLine

/-! # The program

Runs the command line on the files of a file system.  The root is read as a disk before every
command, and the stages of the command are written back one by one: a file by way of a temporary
file beside it, so that it is never seen half written. -/

namespace FlatDb.Program

/-! ### Files -/

/-- What lies at a path, if there is a file or a directory. -/
partial def readNode (path : String) : IO (Option Node) := do
  let file := (← IO.currentDir) / path
  if ← file.isDir then
    let mut entries := []
    for entry in ← file.readDir do
      if let some node ← readNode (path ++ "/" ++ entry.fileName) then
        entries := entries ++ [(entry.fileName.toList, node)]
    return some (.directory entries)
  else if ← file.pathExists then
    return some (.file (← IO.FS.readBinFile file))
  else
    return none

/-- The entries of a directory. -/
def entriesOf : Option Node → List (Text × Node)
  | some (.directory entries) => entries
  | _ => []

/-- Writes a file by way of a temporary one beside it. -/
def writeFile (dir : String) (taken : List Text) (name : Text) (bytes : ByteArray) : IO Unit := do
  let temp := dir ++ "/" ++ String.ofList (freshName name taken)
  IO.FS.writeBinFile temp bytes
  IO.FS.rename temp (dir ++ "/" ++ String.ofList name)

/-- Turns the entries of a directory from one state to another. -/
partial def writeEntries (dir : String) (old new : List (Text × Node)) : IO Unit := do
  for (name, node) in old do
    if (new.lookup name).isNone then
      let path := dir ++ "/" ++ String.ofList name
      match node with
      | .file _ => IO.FS.removeFile path
      | .directory _ => IO.FS.removeDirAll path
  for (name, node) in new do
    let path := dir ++ "/" ++ String.ofList name
    let before := old.lookup name
    if before != some node then
      match node with
      | .file bytes => writeFile dir (old.map Prod.fst) name bytes
      | .directory entries =>
        if before.isNone then IO.FS.createDir path
        writeEntries path (entriesOf before) entries

/-! ### The root -/

/-- A disk with nothing but the root and what lies below it. -/
def load (root : Path) : IO Disk := do
  let node := (← readNode (String.ofList root.text)).getD (.directory [])
  let (_, d) := Node.blank.makeDirectories root
  match d.resolve root with
  | .error _ => return d
  | .ok place =>
    match place.getLast? with
    | some name => return d.put place.dropLast name node
    | none => return node

/-- Writes the stages of a command, given the disk before it. -/
def save (root : Path) (d : Disk) (stages : List Disk) : IO Unit := do
  let mut before := d
  for after in stages do
    writeEntries (String.ofList root.text) (entriesOf (before.findPath root).toOption)
      (entriesOf (after.findPath root).toOption)
    before := after

/-! ### Running -/

/-- Shows a text at once. -/
def put (t : Text) : IO Unit := do
  let out ← IO.getStdout
  out.putStr (String.ofList t)
  out.flush

/-- Runs commands in order and shows their responses. -/
def runAll (e : Engine) : Session → List Text → IO Unit
  | _, [] => return
  | session, input :: more => do
    let d ← load e.root
    save e.root d (e.stages session d input)
    let o := e.runText session d input
    put (o.response ++ ['\n'])
    runAll e o.session more

/-- Asks for lines until the client leaves. -/
partial def converse (e : Engine) (session : Session) : IO Unit := do
  put prompt
  let line ← (← IO.getStdin).getLine
  if line.isEmpty then return
  let d ← load e.root
  if let .command input := Entry.ofLine line.toList then
    save e.root d (e.stages session d input)
  let turn := e.handle session d line.toList
  put turn.answer.shown
  unless turn.answer = .goodbye do converse e turn.session

/-- Shows why the program failed. -/
def fail (why : String) : IO UInt32 := do
  IO.eprintln why
  return failureCode.toUInt32

/-- Runs the program with options. -/
def start (o : Options) : IO UInt32 := do
  IO.FS.createDirAll (String.ofList o.engine.root.text)
  if o.listen.isSome then return ← fail "Error: serving connections needs a network"
  match o.input with
  | none => converse o.engine .new
  | some input =>
    if isScript input then
      let contents ← IO.FS.readFile (String.ofList input)
      runAll o.engine .new (scriptCommands contents.toList)
    else runAll o.engine .new [input]
  return 0

end FlatDb.Program

open FlatDb in
/-- Runs the command line. -/
def main (args : List String) : IO UInt32 := do
  match Request.ofArguments (args.map String.toList) with
  | .help => Program.put usageText; return 0
  | .version => Program.put versionText; return 0
  | .misuse => IO.eprintln "error: the command line was not understood"; return misuseCode.toUInt32
  | .start o => try Program.start o catch why => Program.fail (toString why)
