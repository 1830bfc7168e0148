import Std.Time.DateTime.Timestamp
import WindowAlign.Command.Query
import WindowAlign.Command.Reader

/-!
# The program

The first argument names the command, `reader` or `query`; the others are its own. The
commands run in the file system, with the clock of the machine, and stop when the
program is interrupted.
-/

namespace WindowAlign.Terminal

/-- A path as an entry of the current directory. -/
def entryOf (path : String) : IO.FS.DirEntry :=
  ⟨".", path⟩

/-- What is found at an entry. -/
partial def treeAt (e : IO.FS.DirEntry) : IO FileTree := do
  if ← e.path.isDir then
    let entries ← e.path.readDir
    let named ← entries.toList.mapM fun d => do
      return (Bytes.ofText d.fileName, ← treeAt d)
    return .directory named
  else
    return .file (← IO.FS.readBinFile e.path).toList

def find (path : String) : IO (Option FileTree) := do
  if path.isEmpty then return none
  let e := entryOf path
  if ← e.path.pathExists then return some (← treeAt e) else return none

/-- Put a file at a path, with the directories on the way. -/
def write (path : String) (content : Bytes) : IO Unit := do
  let e := entryOf path
  if let some directory := e.path.parent then IO.FS.createDirAll directory
  IO.FS.writeBinFile e.path ⟨content.toArray⟩

def written (path : String) : IO String := do
  let time := (← (entryOf path).path.metadata).modified
  return (Calendar.text? (time.sec * 1000 + time.nsec.toNat / 1000000)).getD "-"

def lockPath (runtime : Option String) (name : String) : String :=
  let directory := (runtime.filter (!·.isEmpty)).getD "/tmp"
  Path.join (Path.join directory "perfalign") s!"perfalign-reader.lock.{hash name}"

/-- Lock the file of a name, unless it is locked. -/
def lock (held : IO.Ref (List (String × IO.FS.Handle))) (runtime : Option String)
    (name : String) : IO Bool := do
  let path := lockPath runtime name
  write path []
  let handle ← IO.FS.Handle.mk path .append
  if ← handle.tryLock then
    held.modify ((name, handle) :: ·)
    return true
  else return false

def unlock (held : IO.Ref (List (String × IO.FS.Handle))) (name : String) : IO Unit := do
  for (n, handle) in ← held.get do
    if n = name then handle.unlock
  held.modify fun l => l.filter (·.1 != name)

def clock : Clock IO where
  now := return (← Std.Time.Timestamp.now).toMillisecondsSinceUnixEpoch.val
  sleep span := IO.sleep (UInt32.ofNat span.toNat)
  running := return true

/-- The world of the program. -/
def host : IO (Host IO) := do
  let held ← IO.mkRef []
  let runtime ← IO.getEnv "XDG_RUNTIME_DIR"
  let environment : Environment :=
    ⟨← IO.getEnv "HOME", ← IO.getEnv "XDG_CONFIG_HOME", ← IO.getEnv "XDG_DATA_HOME",
      ← IO.getEnv "XDG_STATE_HOME"⟩
  return {
    environment, find, write, written, clock
    lock := lock held runtime
    unlock := unlock held
    say := fun s => do IO.print s; (← IO.getStdout).flush
    complain := fun s => IO.eprint s }

def usage : String :=
  ReaderArguments.usage ++ "\n" ++ QueryArguments.usage

end WindowAlign.Terminal

/-- Run the command that the first argument names. -/
def main (arguments : List String) : IO UInt32 := do
  let h ← WindowAlign.Terminal.host
  match arguments with
  | "reader" :: rest => WindowAlign.ReaderCommand.main h rest
  | "query" :: rest => WindowAlign.QueryCommand.main h rest
  | _ =>
    IO.eprint WindowAlign.Terminal.usage
    return 2
