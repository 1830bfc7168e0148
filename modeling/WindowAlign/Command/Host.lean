import WindowAlign.Command.Arguments
import WindowAlign.Config.Basic
import WindowAlign.FileTree.Events
import WindowAlign.Reader.Run
import WindowAlign.Sink.Archive

/-!
# What commands need of the world

A `Host` is the world as the commands see it: the environment, files, locks, a clock
and the two streams of output. A command that fails says what it was about to do
and what lies behind.
-/

namespace WindowAlign

/-- The operations of a world in which effects are an `m`. -/
structure Host (m : Type → Type) where
  environment : Environment
  /-- What is found at a path. -/
  find : String → m (Option FileTree)
  /-- Put a file with a content at a path, with the directories on the way. -/
  write : String → Bytes → m Unit
  /-- When the file at a path was written last, as text. -/
  written : String → m String
  /-- Take the lock of a name, unless it is taken. -/
  lock : String → m Bool
  unlock : String → m Unit
  clock : Clock m
  /-- Write to the output. -/
  say : String → m Unit
  /-- Write to the output of faults. -/
  complain : String → m Unit

/-- Why a command fails: what it was about to do, and what lies behind, the nearest
cause first. -/
structure Failure where
  context : String
  causes : List String
  deriving DecidableEq, Repr

namespace Failure

def ofFault (context : String) (f : Fault) : Failure :=
  ⟨context, f.chain⟩

/-- The failure as it is shown. Several causes are numbered. -/
def lines (f : Failure) : List String :=
  match f.causes with
  | [] => ["Error: " ++ f.context]
  | [c] => ["Error: " ++ f.context, "", "Caused by:", "    " ++ c]
  | cs => ["Error: " ++ f.context, "", "Caused by:"] ++ cs.mapIdx fun i c => s!"    {i}: {c}"

end Failure

abbrev Task (m : Type → Type) (α : Type) := ExceptT Failure m α

namespace Task

variable {m : Type → Type} [Monad m] {α : Type}

def attempt (context : String) : Except Fault α → Task m α
  | .ok a => pure a
  | .error f => throw (.ofFault context f)

end Task

namespace Host

variable {m : Type → Type} [Monad m] {α : Type}

def joined (lines : List String) : String :=
  String.join (lines.map (· ++ "\n"))

def sayLines (h : Host m) (lines : List String) : m Unit :=
  h.say (joined lines)

/-- The configuration of a file that has to be there, or of the usual file, whose
absence leaves the defaults. -/
def loadConfig (h : Host m) (env : Environment) : Option String → Task m Config
  | some path => do
    let found ← h.find path
    Task.attempt ("failed to load configuration from " ++ path)
      ((Config.ofFound found).mapError .config)
  | none => do
    match ← h.find env.configPath with
    | none => return .defaults
    | found =>
      Task.attempt "failed to load configuration" ((Config.ofFound found).mapError .config)

def keep (h : Host m) (path : String) (d : Database) : m Unit :=
  if Database.isTransient path then pure () else h.write path (Bytes.ofText d.text)

/-- The database at a path, a new one where there is none, with every migration
applied. -/
def openDatabase (h : Host m) (path : String) : Task m Database := do
  let found ← if Database.isTransient path then pure none else h.find path
  let d ← Task.attempt "failed to open metrics database"
    ((Database.ofFound path found).mapError .storage)
  let d := d.migrate
  h.keep path d
  return d

def holding (h : Host m) (name : String) (busy : Failure) (task : Task m α) : Task m α := do
  if ← h.lock name then
    let result ← ExceptT.lift task.run
    h.unlock name
    liftExcept result
  else throw busy

/-- Run a command: its exit code is 0 where it succeeds, and where help or version was
asked for, 1 where it fails, and 2 where its arguments cannot be used. -/
def run (h : Host m) (usage version : String) (task : α → Task m Unit) :
    Except Stop α → m UInt32
  | .ok arguments => do
    match ← (task arguments).run with
    | .ok () => return 0
    | .error f =>
      h.complain (joined f.lines)
      return 1
  | .error .help => do
    h.say usage
    return 0
  | .error .version => do
    h.say version
    return 0
  | .error (.usage f) => do
    h.complain (joined ["error: " ++ f.message, "", usage])
    return 2

end Host

end WindowAlign
