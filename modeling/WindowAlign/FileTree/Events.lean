import WindowAlign.FileTree.Basic
import WindowAlign.Ingest.Intake
import WindowAlign.Text.Path

/-!
# Event trees

The writer puts a bucket into a directory of its own, named by the start of its
window, one file an event. The path of a file below that directory is the key of
its event, the content is its value. Files that are still being written end in
`.tmp` and are left out, and so is a file whose content or whose name is no text.
A directory whose name is no text leaves its files without a key, which is a fault.

Files are listed directory by directory in the order of their names, by bytes.
-/

namespace WindowAlign

namespace FileTree

/-- The part of a name after its last point, if something stands before the point. -/
def extension? (name : String) : Option String :=
  match (Text.pieces '.' name.toList).reverse with
  | last :: before :: r =>
    if before.isEmpty && r.isEmpty then none else some (String.ofList last)
  | _ => none

def isPartial (name : String) : Bool :=
  extension? name == some "tmp"

/-- A file that can be an event: its name, the names of the directories on the way
to it, outermost first, and its content. -/
structure Leaf where
  way : List Bytes
  name : String
  content : Bytes

mutual

/-- The complete files of a tree that has a name, in the order of the entries. -/
def leaves (way : List Bytes) (name : Bytes) : FileTree → List Leaf
  | file content =>
    match name.text? with
    | some s => if isPartial s then [] else [⟨way, s, content⟩]
    | none => []
  | directory entries => leavesOf (way ++ [name]) entries

def leavesOf (way : List Bytes) : List (Bytes × FileTree) → List Leaf
  | [] => []
  | (name, t) :: r => t.leaves way name ++ leavesOf way r

end

namespace Leaf

/-- The path of a file as it is shown, with a mark for what is no text. -/
def shownPath (l : Leaf) : String :=
  "/".intercalate (l.way.map (fun b => b.text?.getD "\ufffd") ++ [l.name])

def key? (l : Leaf) : Option String :=
  (l.way.mapM Bytes.text?).map fun names => "/".intercalate (names ++ [l.name])

end Leaf

/-- The events of a list of files. `shown` is the way in which the directory is
shown in a path, and `outside` tells that the paths do not lie below it. -/
def eventsOf (directory shown : String) (outside : Bool) : List Leaf → Except Fault (List Event)
  | [] => .ok []
  | l :: r =>
    if outside then .error (.path (.outside (Path.join shown l.shownPath) directory))
    else match l.key? with
      | none => .error (.path (.undecodable (Path.join shown l.shownPath)))
      | some key =>
        match eventsOf directory shown outside r with
        | .error e => .error e
        | .ok events =>
          match l.content.text? with
          | some value => .ok (⟨key, value⟩ :: events)
          | none => .ok events

def bucketDirectory (root : String) (bucket : Int) : String :=
  Path.join root (toString bucket)

/-- A path without the current directory at its start, as often as it is named. -/
def dropCurrent : List (List Char) → List (List Char)
  | ['.'] :: r => dropCurrent r
  | l => l

/-- Whether a path begins with the current directory. Listed paths never name it,
so files below such a path are not found below it again. -/
def startsAtCurrent (p : String) : Bool :=
  (Text.pieces '/' p.toList).head? == some ['.']

/-- The events of a bucket directory, given what is found there: none unless it is
a directory. -/
def events (directory : String) (found : Option FileTree) : Except Fault (List Event) :=
  match found with
  | some (.directory entries) =>
    let shown := "/".intercalate
      ((dropCurrent (Text.pieces '/' directory.toList)).map String.ofList)
    eventsOf directory shown (startsAtCurrent directory) (leavesOf [] (sortedEntries entries))
  | _ => .ok []

/-- The buckets below an event root, given what is found there. -/
def source (root : String) (found : FileTree) : Source := fun bucket =>
  events (bucketDirectory root bucket) (found.at? [Bytes.ofText (toString bucket)])

end FileTree

end WindowAlign
