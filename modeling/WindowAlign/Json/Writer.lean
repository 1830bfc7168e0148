import WindowAlign.Json.Basic
import WindowAlign.Number.Places

/-!
# Writing JSON

`compact` writes a value without blanks, `pretty` with one item or member a
line, indented by two spaces a level. Doubles have the shortest digits that read
back, positional from `1e-5` up to `1e16`, and always a point or an exponent;
a double that is no number is written as `null`.
-/

namespace WindowAlign.Json

def hexDigit (n : Nat) : Char :=
  if n < 10 then Char.ofNat ('0'.toNat + n) else Char.ofNat ('a'.toNat + n - 10)

def escape (c : Char) : List Char :=
  match c with
  | '"' => ['\\', '"']
  | '\\' => ['\\', '\\']
  | '\x08' => ['\\', 'b']
  | '\x0c' => ['\\', 'f']
  | '\n' => ['\\', 'n']
  | '\r' => ['\\', 'r']
  | '\t' => ['\\', 't']
  | c =>
    if c.toNat < 0x20 then ['\\', 'u', '0', '0', hexDigit (c.toNat / 16), hexDigit (c.toNat % 16)]
    else [c]

def quote (s : String) : String :=
  "\"" ++ String.ofList (s.toList.flatMap escape) ++ "\""

def zeros (n : Nat) : String :=
  String.ofList (List.replicate n '0')

/-- The positive decimal `d · 10 ^ e`. -/
def decimalText (d : Nat) (e : Int) : String :=
  let digits := toString d
  -- digits before the point, negative where zeros follow it
  let point : Int := digits.length + e
  if 0 ≤ e ∧ point ≤ 16 then digits ++ zeros e.toNat ++ ".0"
  else if 0 < point ∧ point ≤ 16 then
    String.ofList (digits.toList.take point.toNat) ++ "." ++
      String.ofList (digits.toList.drop point.toNat)
  else if -5 < point ∧ point ≤ 0 then "0." ++ zeros (-point).toNat ++ digits
  else
    let first := String.ofList (digits.toList.take 1)
    let others := String.ofList (digits.toList.drop 1)
    let exponent := point - 1
    first ++ (if others.isEmpty then "" else "." ++ others) ++ "e" ++
      (if 0 ≤ exponent then "+" else "") ++ toString exponent

def floatText (x : Float) : String :=
  match Binary64.parts? x with
  | none => "null"
  | some p =>
    let (d, e) := Shortest.shortest p.significand p.exponent
    (if p.negative then "-" else "") ++ if d = 0 then "0.0" else decimalText d e

mutual

/-- The value without blanks. -/
def compact : Json → String
  | null => "null"
  | bool b => if b then "true" else "false"
  | int n => toString n
  | float x => floatText x
  | str s => quote s
  | arr items => "[" ++ ",".intercalate (compactItems items) ++ "]"
  | obj members => "\x7b" ++ ",".intercalate (compactMembers members) ++ "\x7d"

def compactItems : List Json → List String
  | [] => []
  | v :: r => compact v :: compactItems r

def compactMembers : List (String × Json) → List String
  | [] => []
  | (n, v) :: r => (quote n ++ ":" ++ compact v) :: compactMembers r

end

/-- Lines between an opening and a closing bracket, separated by commas. -/
def block (opening closing indent : String) (lines : List String) : String :=
  if lines.isEmpty then opening ++ closing
  else opening ++ "\n" ++ ",\n".intercalate (lines.map fun l => indent ++ "  " ++ l) ++
    "\n" ++ indent ++ closing

mutual

/-- The value over several lines, where `indent` stands before the line on
which it begins. -/
def prettyAt (indent : String) : Json → String
  | null => "null"
  | bool b => if b then "true" else "false"
  | int n => toString n
  | float x => floatText x
  | str s => quote s
  | arr items => block "[" "]" indent (prettyItems indent items)
  | obj members => block "\x7b" "\x7d" indent (prettyMembers indent members)

def prettyItems (indent : String) : List Json → List String
  | [] => []
  | v :: r => prettyAt (indent ++ "  ") v :: prettyItems indent r

def prettyMembers (indent : String) : List (String × Json) → List String
  | [] => []
  | (n, v) :: r => (quote n ++ ": " ++ prettyAt (indent ++ "  ") v) :: prettyMembers indent r

end

def pretty (v : Json) : String :=
  prettyAt "" v

end WindowAlign.Json
