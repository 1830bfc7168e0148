/-!
# TOML values

A value carries how it came about as far as later lines may depend on it: a table
that a header opened is closed to dotted keys, one that a dotted key opened is
closed to headers, and inline tables and arrays are closed to both.
-/

namespace WindowAlign.Toml

/-- What brought a table about. -/
inductive Origin where
  /-- A header of its own. -/
  | header
  /-- A header of a table below it. -/
  | implied
  /-- A dotted key. -/
  | dotted
  /-- Braces. -/
  | inlined
  deriving DecidableEq, Repr

inductive Value where
  | text (s : String)
  | int (n : Int)
  | float (x : Float)
  | bool (b : Bool)
  /-- A date, a time or both, as it is written. -/
  | moment (s : String)
  | array (items : List Value)
  /-- The tables of headers in double brackets. -/
  | tables (items : List (List (String × Value)))
  | table (origin : Origin) (entries : List (String × Value))
  deriving Inhabited

/-- The entries of a table, at most one a name. -/
abbrev Entries := List (String × Value)

namespace Entries

/-- The entries with one added, or put in place of the one with its name. -/
def put (name : String) (v : Value) : Entries → Entries
  | [] => [(name, v)]
  | (n, w) :: r => if n = name then (name, v) :: r else (n, w) :: put name v r

end Entries

end WindowAlign.Toml
