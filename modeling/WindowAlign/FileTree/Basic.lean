import WindowAlign.Text.Bytes

/-!
# File trees

What is found at a place of a file system: a file with its content, or a directory
with named entries. `at?` looks along a path of names and `put` changes what is
found there; `sorted` orders the entries of every directory by their names.
-/

namespace WindowAlign

/-- A file with its content, or a directory with its entries. -/
inductive FileTree where
  | file (content : Bytes)
  | directory (entries : List (Bytes × FileTree))
  deriving Inhabited

namespace FileTree

/-- What is found along a path of names. -/
def at? : List Bytes → FileTree → Option FileTree
  | [], t => some t
  | name :: path, directory entries =>
    match entries.lookup name with
    | some t => at? path t
    | none => none
  | _ :: _, file _ => none

/-- Entries with one added, or put in place of the one with its name. -/
def putEntry (name : Bytes) (t : FileTree) : List (Bytes × FileTree) → List (Bytes × FileTree)
  | [] => [(name, t)]
  | (n, u) :: r => if n = name then (name, t) :: r else (n, u) :: putEntry name t r

/-- The tree with something put at a path. Directories that are missing on the way
are made, and a file on the way gives place to one. -/
def put : FileTree → List Bytes → FileTree → FileTree
  | _, [], new => new
  | directory entries, name :: path, new =>
    directory (putEntry name (put ((entries.lookup name).getD (directory [])) path new) entries)
  | file _, name :: path, new => directory [(name, put (directory []) path new)]

/-- An entry put in its place among entries in the order of their names. -/
def insertEntry (e : Bytes × FileTree) : List (Bytes × FileTree) → List (Bytes × FileTree)
  | [] => [e]
  | f :: r => if e.1.le f.1 then e :: f :: r else f :: insertEntry e r

mutual

/-- The tree with the entries of every directory in the order of their names. -/
def sorted : FileTree → FileTree
  | file content => file content
  | directory entries => directory (sortedEntries entries)

def sortedEntries : List (Bytes × FileTree) → List (Bytes × FileTree)
  | [] => []
  | (name, t) :: r => insertEntry (name, t.sorted) (sortedEntries r)

end

end FileTree

end WindowAlign
