import WindowAlign.Toml.Scalar

/-!
# The lines of a TOML text

A text is a list of statements: headers in brackets, headers in double brackets,
and assignments to dotted keys. Values may nest less than `depthLimit` deep, and
a key has fewer parts than that.
-/

namespace WindowAlign.Toml

structure DottedKey where
  path : List String
  last : String
  deriving DecidableEq, Repr

/-- One line of a text, or several where a value takes them. -/
inductive Statement where
  | header (key : DottedKey)
  | arrayHeader (key : DottedKey)
  | assign (key : DottedKey) (value : Value)

/-- Values nested this deep are refused, and keys of as many parts. -/
def depthLimit : Nat := 80

/-! ## Keys -/

/-- Characters of a key without quotes. -/
def isBare (c : Char) : Bool :=
  ('A' ≤ c && c ≤ 'Z') || ('a' ≤ c && c ≤ 'z') || isDecimal c || c == '-' || c == '_'

def keyPart? (s : List Char) : Option (String × List Char) :=
  match s with
  | '"' :: r => (basic? r).map fun (t, rest) => (String.ofList t, rest)
  | '\'' :: r => (literal? r).map fun (t, rest) => (String.ofList t, rest)
  | s =>
    let t := s.takeWhile isBare
    if t.isEmpty then none else some (String.ofList t, s.dropWhile isBare)

/-- The parts of a key, with spaces around each of them. The first argument bounds
their number. -/
def keyParts? : Nat → List Char → Option (List String × List Char)
  | 0, _ => none
  | n + 1, s => do
    let (part, s) ← keyPart? (skipSpaces s)
    match skipSpaces s with
    | '.' :: r =>
      let (parts, rest) ← keyParts? n r
      return (part :: parts, rest)
    | r => return ([part], r)

def key? (s : List Char) : Option (DottedKey × List Char) := do
  let (parts, rest) ← keyParts? (depthLimit - 1) s
  return (⟨parts.dropLast, ← parts.getLast?⟩, rest)

/-! ## Comments and line ends -/

/-- The text after a comment, where there is one. -/
def skipComment (s : List Char) : List Char :=
  match s with
  | '#' :: r => r.dropWhile isPlain
  | s => s

/-- The text after the rest of a line, which holds nothing but a comment. -/
def closeLine? (s : List Char) : Option (List Char) :=
  match skipComment (skipSpaces s) with
  | [] => some []
  | r => lineEnd? r

/-- The text after blanks, comments and line ends. The first argument bounds the
number of lines. -/
def skipLines : Nat → List Char → List Char
  | 0, s => s
  | n + 1, s =>
    let s := skipSpaces s
    match lineEnd? (skipComment s) with
    | some r => skipLines n r
    | none => s

/-! ## Tables -/

/-- Change the entries of the table at a path, opening what is missing on the way.
Values are no tables here, and a dotted key may not reach into a table of a
header. Of tables in double brackets the last is meant. -/
def atPath? (isDotted : Bool) (f : Origin → Entries → Option Entries) :
    List String → Origin → Entries → Option Entries
  | [], origin, entries => f origin entries
  | name :: path, _, entries =>
    match entries.lookup name with
    | none =>
      let origin := if isDotted then Origin.dotted else Origin.implied
      (atPath? isDotted f path origin []).map fun e => entries.put name (.table origin e)
    | some (.table origin inner) =>
      if origin = .inlined ∨ (isDotted ∧ origin = .header) then none
      else (atPath? isDotted f path origin inner).map fun e => entries.put name (.table origin e)
    | some (.tables items) =>
      match items.getLast? with
      | none => none
      | some inner =>
        (atPath? isDotted f path .header inner).map fun e =>
          entries.put name (.tables (items.dropLast ++ [e]))
    | some _ => none

/-- The entries with a key assigned. A key is assigned once, and a dotted key only
in tables that dotted keys opened. -/
def assign? (origin : Origin) (entries : Entries) (key : DottedKey) (v : Value) : Option Entries :=
  atPath? true (fun o e =>
    if (o == .dotted) == key.path.isEmpty then none
    else if (e.lookup key.last).isSome then none
    else some (e.put key.last v)) key.path origin entries

/-! ## Values -/

def word? : List Char → List Char → Option (List Char)
  | [], s => some s
  | c :: w, d :: s => if c = d then word? w s else none
  | _ :: _, [] => none

mutual

/-- One value. The first argument bounds the number of nested calls, the second the
depth of what is nested. -/
def value? : Nat → Nat → List Char → Option (Value × List Char)
  | 0, _, _ => none
  | n + 1, depth, s =>
    match s with
    | '"' :: _ => (string? s).map fun (t, rest) => (.text (String.ofList t), rest)
    | '\'' :: _ => (string? s).map fun (t, rest) => (.text (String.ofList t), rest)
    | 't' :: r => (word? ['r', 'u', 'e'] r).map fun r => (.bool true, r)
    | 'f' :: r => (word? ['a', 'l', 's', 'e'] r).map fun r => (.bool false, r)
    | '[' :: r =>
      match depth with
      | 0 => none
      | depth + 1 => (items? n depth r).map fun (l, rest) => (.array l, rest)
    | '\x7b' :: r =>
      match depth with
      | 0 => none
      | depth + 1 =>
        match skipSpaces r with
        | '\x7d' :: r => some (.table .inlined [], r)
        | r => (members? n depth [] r).map fun (e, rest) => (.table .inlined e, rest)
    | s => number? s

/-- The items of an array up to and with the closing bracket. A comma may stand
after the last. -/
def items? : Nat → Nat → List Char → Option (List Value × List Char)
  | 0, _, _ => none
  | n + 1, depth, s =>
    match skipLines s.length s with
    | ']' :: r => some ([], r)
    | s =>
      match value? n depth s with
      | none => none
      | some (v, s) =>
        match skipLines s.length s with
        | ']' :: r => some ([v], r)
        | ',' :: r => (items? n depth r).map fun (l, rest) => (v :: l, rest)
        | _ => none

/-- The members of an inline table, one at least, up to and with the closing
brace; `entries` are those before them. -/
def members? : Nat → Nat → Entries → List Char → Option (Entries × List Char)
  | 0, _, _, _ => none
  | n + 1, depth, entries, s =>
    match key? s with
    | some (key, '=' :: s) =>
      match value? n depth (skipSpaces s) with
      | none => none
      | some (v, s) =>
        match assign? .header entries key v with
        | none => none
        | some entries =>
          match skipSpaces s with
          | '\x7d' :: r => some (entries, r)
          | ',' :: r => members? n depth entries r
          | _ => none
    | _ => none

end

/-! ## Statements -/

/-- A header after its opening bracket, closed by one bracket or by two. -/
def header? (s : List Char) : Option (Statement × List Char) :=
  match s with
  | '[' :: r =>
    match key? r with
    | some (key, ']' :: ']' :: r) => (closeLine? r).map fun r => (.arrayHeader key, r)
    | _ => none
  | s =>
    match key? s with
    | some (key, ']' :: r) => (closeLine? r).map fun r => (.header key, r)
    | _ => none

def assignment? (s : List Char) : Option (Statement × List Char) :=
  match key? s with
  | some (key, '=' :: s) => do
    let (v, s) ← value? (2 * s.length + 2) (depthLimit - 1) (skipSpaces s)
    let rest ← closeLine? s
    return (.assign key v, rest)
  | _ => none

/-- The statements of a text. The first argument bounds their number. -/
def statements? : Nat → List Char → Option (List Statement)
  | 0, _ => none
  | n + 1, s =>
    match skipLines s.length s with
    | [] => some []
    | '#' :: r => if (r.dropWhile isPlain).isEmpty then some [] else none
    | '[' :: r => do
      let (st, rest) ← header? r
      return st :: (← statements? n rest)
    | r => do
      let (st, rest) ← assignment? r
      return st :: (← statements? n rest)

end WindowAlign.Toml
