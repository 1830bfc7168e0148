import WindowAlign.Number.Signed64
import WindowAlign.Text.Hex

/-!
# JSON text

`Tree` is the shape of a JSON text before anything in it is interpreted: number
literals keep their digits, and strings keep their escaped code units apart.
`Tree.ofText?` reads a text that is one value with blanks around it, where only
space, tab, line feed and carriage return are blank. What a tree means, and
which trees have a meaning, is decided by those who read it.
-/

namespace WindowAlign.Json

/-- A number literal: sign, digits before and after the point, and exponent. A
literal without a point has no fraction, one without `e` no exponent. -/
structure Literal where
  negative : Bool
  whole : List Nat
  fraction : Option (List Nat)
  exponent : Option (Bool × List Nat)
  deriving DecidableEq, Repr

/-- One unit of a string: a character, or a code unit written in hexadecimal. -/
inductive StringUnit where
  | char (c : Char)
  | hex (unit : Nat)
  deriving DecidableEq, Repr

inductive Tree where
  | null
  | bool (b : Bool)
  | number (l : Literal)
  | string (s : List StringUnit)
  | array (items : List Tree)
  | object (members : List (List StringUnit × Tree))
  deriving Inhabited

namespace Syntax

def isBlank (c : Char) : Bool :=
  c == ' ' || c == '\t' || c == '\n' || c == '\r'

def skipBlanks (s : List Char) : List Char :=
  s.dropWhile isBlank

def digits : List Char → List Nat × List Char
  | [] => ([], [])
  | c :: r =>
    match Signed64.digit? c with
    | some d => let (ds, rest) := digits r; (d :: ds, rest)
    | none => ([], c :: r)

/-- Digits, of which there must be one at least. -/
def someDigits? (s : List Char) : Option (List Nat × List Char) :=
  match digits s with
  | ([], _) => none
  | p => some p

/-- A point and the digits after it, where there is a point. -/
def fraction? : List Char → Option (Option (List Nat) × List Char)
  | '.' :: r => (someDigits? r).map fun p => (some p.1, p.2)
  | s => some (none, s)

/-- An exponent, where there is one; true marks a negative one. -/
def exponent? (s : List Char) : Option (Option (Bool × List Nat) × List Char) :=
  match s with
  | c :: r =>
    if c = 'e' ∨ c = 'E' then
      match r with
      | '-' :: r => (someDigits? r).map fun p => (some (true, p.1), p.2)
      | '+' :: r => (someDigits? r).map fun p => (some (false, p.1), p.2)
      | r => (someDigits? r).map fun p => (some (false, p.1), p.2)
    else some (none, s)
  | [] => some (none, s)

/-- A number after its sign. A zero in front stands alone. -/
def unsigned? (negative : Bool) (s : List Char) : Option (Literal × List Char) := do
  let (whole, s) ← someDigits? s
  if whole.head? = some 0 ∧ 1 < whole.length then none
  let (fraction, s) ← fraction? s
  let (exponent, s) ← exponent? s
  return (⟨negative, whole, fraction, exponent⟩, s)

def number? : List Char → Option (Literal × List Char)
  | '-' :: r => unsigned? true r
  | s => unsigned? false s

/-- Four hexadecimal digits as a code unit. -/
def hexUnit? (a b c d : Char) : Option Nat := do
  let ds ← [a, b, c, d].mapM Text.hexDigit?
  return ds.foldl (fun n d => n * 16 + d) 0

/-- The character of a one-letter escape. -/
def escaped? : Char → Option Char
  | '"' => some '"'
  | '\\' => some '\\'
  | '/' => some '/'
  | 'b' => some '\x08'
  | 'f' => some '\x0c'
  | 'n' => some '\n'
  | 'r' => some '\r'
  | 't' => some '\t'
  | _ => none

/-- A string after its opening quote, up to and with the closing one. -/
def string? : List Char → Option (List StringUnit × List Char)
  | [] => none
  | '"' :: r => some ([], r)
  | '\\' :: 'u' :: a :: b :: c :: d :: r => do
    let unit ← hexUnit? a b c d
    let (s, rest) ← string? r
    return (.hex unit :: s, rest)
  | '\\' :: c :: r => do
    let c ← escaped? c
    let (s, rest) ← string? r
    return (.char c :: s, rest)
  | c :: r =>
    if c.toNat < 0x20 ∨ c = '\\' then none
    else do
      let (s, rest) ← string? r
      return (.char c :: s, rest)

/-- The text after a fixed word. -/
def word? : List Char → List Char → Option (List Char)
  | [], s => some s
  | c :: w, d :: s => if c = d then word? w s else none
  | _ :: _, [] => none

mutual

/-- One value, after the blanks before it. The first argument bounds the number
of nested calls. -/
def value? : Nat → List Char → Option (Tree × List Char)
  | 0, _ => none
  | n + 1, s =>
    match skipBlanks s with
    | 'n' :: r => (word? ['u', 'l', 'l'] r).map fun r => (.null, r)
    | 't' :: r => (word? ['r', 'u', 'e'] r).map fun r => (.bool true, r)
    | 'f' :: r => (word? ['a', 'l', 's', 'e'] r).map fun r => (.bool false, r)
    | '"' :: r => (string? r).map fun p => (.string p.1, p.2)
    | '[' :: r =>
      match skipBlanks r with
      | ']' :: r => some (.array [], r)
      | r => (items? n r).map fun p => (.array p.1, p.2)
    | '\x7b' :: r =>
      match skipBlanks r with
      | '\x7d' :: r => some (.object [], r)
      | r => (members? n r).map fun p => (.object p.1, p.2)
    | r => (number? r).map fun p => (.number p.1, p.2)

/-- One item or more, up to and with the closing bracket. -/
def items? : Nat → List Char → Option (List Tree × List Char)
  | 0, _ => none
  | n + 1, s =>
    match value? n s with
    | none => none
    | some (v, s) =>
      match skipBlanks s with
      | ']' :: r => some ([v], r)
      | ',' :: r => (items? n r).map fun p => (v :: p.1, p.2)
      | _ => none

/-- One member or more, up to and with the closing brace. -/
def members? : Nat → List Char → Option (List (List StringUnit × Tree) × List Char)
  | 0, _ => none
  | n + 1, s =>
    match skipBlanks s with
    | '"' :: r =>
      match string? r with
      | none => none
      | some (name, s) =>
        match skipBlanks s with
        | ':' :: r =>
          match value? n r with
          | none => none
          | some (v, s) =>
            match skipBlanks s with
            | '\x7d' :: r => some ([(name, v)], r)
            | ',' :: r => (members? n r).map fun p => ((name, v) :: p.1, p.2)
            | _ => none
        | _ => none
    | _ => none

end

end Syntax

/-- The tree of a text that is one value with blanks around it. Two nested calls
take at least one character, so the bound is never reached. -/
def Tree.ofText? (s : List Char) : Option Tree :=
  match Syntax.value? (2 * s.length + 2) s with
  | some (t, rest) => if (Syntax.skipBlanks rest).isEmpty then some t else none
  | none => none

end WindowAlign.Json
