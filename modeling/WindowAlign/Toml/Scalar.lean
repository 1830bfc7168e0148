import WindowAlign.Number.Decimal
import WindowAlign.Text.Hex
import WindowAlign.Toml.Basic

/-!
# TOML scalars

Strings, numbers, dates and times at the start of a text. Each reader gives what
it read and the rest of the text, or nothing where the text does not begin that
way; what has to follow a value is decided by those who read on.
-/

namespace WindowAlign.Toml

/-- Characters that may stand for themselves in strings and comments. -/
def isPlain (c : Char) : Bool :=
  c == '\t' || (0x20 ≤ c.toNat && c.toNat != 0x7F)

/-- Blanks within a line. -/
def isSpace (c : Char) : Bool :=
  c == ' ' || c == '\t'

def skipSpaces (s : List Char) : List Char :=
  s.dropWhile isSpace

def lineEnd? : List Char → Option (List Char)
  | '\n' :: r => some r
  | '\r' :: '\n' :: r => some r
  | _ => none

/-! ## Strings -/

/-- The character with a code point in hexadecimal, if there is one. -/
def codePoint? (ds : List Char) : Option Char := do
  let n ← ds.foldlM (fun n c => (Text.hexDigit? c).map (n * 16 + ·)) 0
  if n.isValidChar then some (Char.ofNat n) else none

def escaped? : Char → Option Char
  | 'b' => some '\x08'
  | 'f' => some '\x0c'
  | 'n' => some '\n'
  | 'r' => some '\r'
  | 't' => some '\t'
  | '"' => some '"'
  | '\\' => some '\\'
  | _ => none

def consTo (c : Char) (p : Option (List Char × List Char)) : Option (List Char × List Char) :=
  p.map fun (s, rest) => (c :: s, rest)

/-- A string of one line after its quote, up to and with the closing one. -/
def basic? : List Char → Option (List Char × List Char)
  | [] => none
  | '"' :: r => some ([], r)
  | '\\' :: 'u' :: a :: b :: c :: d :: r => do
    consTo (← codePoint? [a, b, c, d]) (basic? r)
  | '\\' :: 'U' :: a :: b :: c :: d :: e :: f :: g :: h :: r => do
    consTo (← codePoint? [a, b, c, d, e, f, g, h]) (basic? r)
  | '\\' :: c :: r => do consTo (← escaped? c) (basic? r)
  | c :: r => if isPlain c && c != '\\' then consTo c (basic? r) else none

/-- A literal string of one line after its quote, up to and with the closing one. -/
def literal? : List Char → Option (List Char × List Char)
  | [] => none
  | '\'' :: r => some ([], r)
  | c :: r => if isPlain c then consTo c (literal? r) else none

/-- Whether a line ends here, apart from spaces. -/
def endsLine (s : List Char) : Bool :=
  (lineEnd? (skipSpaces s)).isSome

/-- A string of several lines after its opening quotes, up to and with the closing
ones, before which two more quotes may stand. After a backslash at the end of a
line `joining` is set, and blanks and line ends are left out up to the next other
character. -/
def basicLines? (joining : Bool) : List Char → Option (List Char × List Char)
  | [] => none
  | '"' :: '"' :: '"' :: '"' :: '"' :: r => some (['"', '"'], r)
  | '"' :: '"' :: '"' :: '"' :: r => some (['"'], r)
  | '"' :: '"' :: '"' :: r => some ([], r)
  | '\r' :: '\n' :: r =>
    if joining then basicLines? true r else consTo '\n' (basicLines? false r)
  | '\n' :: r => if joining then basicLines? true r else consTo '\n' (basicLines? false r)
  | '\\' :: 'u' :: a :: b :: c :: d :: r => do
    consTo (← codePoint? [a, b, c, d]) (basicLines? false r)
  | '\\' :: 'U' :: a :: b :: c :: d :: e :: f :: g :: h :: r => do
    consTo (← codePoint? [a, b, c, d, e, f, g, h]) (basicLines? false r)
  | '\\' :: c :: r =>
    if endsLine (c :: r) then
      if isSpace c || c == '\n' then basicLines? true r
      else if c == '\r' then basicLines? true r
      else none
    else do consTo (← escaped? c) (basicLines? false r)
  | c :: r =>
    if joining && (isSpace c) then basicLines? true r
    else if isPlain c && c != '\\' then consTo c (basicLines? false r)
    else none

/-- A literal string of several lines after its opening quotes, up to and with the
closing ones, before which two more quotes may stand. -/
def literalLines? : List Char → Option (List Char × List Char)
  | [] => none
  | '\'' :: '\'' :: '\'' :: '\'' :: '\'' :: r => some (['\'', '\''], r)
  | '\'' :: '\'' :: '\'' :: '\'' :: r => some (['\''], r)
  | '\'' :: '\'' :: '\'' :: r => some ([], r)
  | '\r' :: '\n' :: r => consTo '\n' (literalLines? r)
  | '\n' :: r => consTo '\n' (literalLines? r)
  | c :: r => if isPlain c then consTo c (literalLines? r) else none

def dropLineEnd (s : List Char) : List Char :=
  (lineEnd? s).getD s

/-- A string in one of the four notations. -/
def string? : List Char → Option (List Char × List Char)
  | '"' :: '"' :: '"' :: r => basicLines? false (dropLineEnd r)
  | '"' :: r => basic? r
  | '\'' :: '\'' :: '\'' :: r => literalLines? (dropLineEnd r)
  | '\'' :: r => literal? r
  | _ => none

/-! ## Numbers -/

/-- Digits of a kind with single underscores between them, which are left out. -/
def moreDigits? (isDigit : Char → Bool) : List Char → Option (List Char × List Char)
  | [] => some ([], [])
  | '_' :: c :: r => if isDigit c then consTo c (moreDigits? isDigit r) else none
  | c :: r =>
    if c = '_' then none
    else if isDigit c then consTo c (moreDigits? isDigit r)
    else some ([], c :: r)

/-- As `moreDigits?`, with one digit at least. -/
def digits? (isDigit : Char → Bool) : List Char → Option (List Char × List Char)
  | c :: r => if isDigit c then consTo c (moreDigits? isDigit r) else none
  | [] => none

def isDecimal (c : Char) : Bool :=
  '0' ≤ c && c ≤ '9'

def sign : List Char → List Char × List Char
  | '+' :: r => (['+'], r)
  | '-' :: r => (['-'], r)
  | r => ([], r)

/-- A sign and decimal digits; a zero in front stands alone. -/
def whole? (s : List Char) : Option (List Char × List Char) :=
  let (sg, r) := sign s
  match r with
  | '0' :: r => some (sg ++ ['0'], r)
  | r => (digits? isDecimal r).map fun (ds, rest) => (sg ++ ds, rest)

def fraction? : List Char → Option (List Char × List Char)
  | '.' :: r => consTo '.' (digits? isDecimal r)
  | _ => none

def exponent? : List Char → Option (List Char × List Char)
  | c :: r =>
    if c = 'e' ∨ c = 'E' then
      let (sg, r) := sign r
      (digits? isDecimal r).map fun (ds, rest) => ('e' :: sg ++ ds, rest)
    else none
  | [] => none

/-- The digits of a double: with a fraction, an exponent or both. -/
def floatText? (s : List Char) : Option (List Char × List Char) := do
  let (n, s) ← whole? s
  match fraction? s with
  | some (f, s) =>
    match exponent? s with
    | some (e, s) => some (n ++ f ++ e, s)
    | none => some (n ++ f, s)
  | none => do
    let (e, s) ← exponent? s
    some (n ++ e, s)

/-- A double. One above every finite double is refused. -/
def float? (s : List Char) : Option (Value × List Char) := do
  let (t, rest) ← floatText? s
  let x := (← Decimal.ofText? t).toFloat
  if x.isInf && 0 < x then none else some (.float x, rest)

/-- The names of the doubles that are no finite numbers. -/
def special? (s : List Char) : Option (Value × List Char) :=
  let (sg, r) := sign s
  match r with
  | 'i' :: 'n' :: 'f' :: r =>
    let x : Float := 1.0 / 0.0
    some (.float (if sg = ['-'] then -x else x), r)
  | 'n' :: 'a' :: 'n' :: r => some (.float (0.0 / 0.0), r)
  | _ => none

def inBase (base : Nat) (ds : List Char) : Int :=
  ds.foldl (fun n c => n * base + (Text.hexDigit? c).getD 0) 0

/-- An integer in a base other than ten, after the letter of the base. -/
def based? (base : Nat) (isDigit : Char → Bool) (s : List Char) : Option (Value × List Char) := do
  let (ds, rest) ← digits? isDigit s
  return (.int (← Signed64.checked? (inBase base ds)), rest)

/-- An integer, which has to fit into a signed 64-bit word. -/
def int? : List Char → Option (Value × List Char)
  | '0' :: 'x' :: r => based? 16 (fun c => (Text.hexDigit? c).isSome) r
  | '0' :: 'o' :: r => based? 8 (fun c => '0' ≤ c && c ≤ '7') r
  | '0' :: 'b' :: r => based? 2 (fun c => c == '0' || c == '1') r
  | s => do
    let (t, rest) ← whole? s
    return (.int (← Signed64.ofText? t), rest)

/-! ## Dates and times -/

/-- A number of exactly `n` digits. -/
def fixed? : Nat → List Char → Option (Nat × List Char)
  | 0, s => some (0, s)
  | n + 1, c :: r => do
    let d ← Signed64.digit? c
    let (m, rest) ← fixed? n r
    return (d * 10 ^ n + m, rest)
  | _ + 1, [] => none

/-- A number of exactly `n` digits between two bounds. -/
def bounded? (n low high : Nat) (s : List Char) : Option (Nat × List Char) := do
  let (m, rest) ← fixed? n s
  if low ≤ m ∧ m ≤ high then some (m, rest) else none

def after? (c : Char) : List Char → Option (List Char)
  | d :: r => if c = d then some r else none
  | [] => none

def monthDays (year month : Nat) : Nat :=
  if month = 2 then
    if year % 4 = 0 ∧ (year % 100 ≠ 0 ∨ year % 400 = 0) then 29 else 28
  else if month = 4 ∨ month = 6 ∨ month = 9 ∨ month = 11 then 30
  else 31

def date? (s : List Char) : Option (List Char) := do
  let (year, s) ← fixed? 4 s
  let s ← after? '-' s
  let (month, s) ← bounded? 2 1 12 s
  let s ← after? '-' s
  let (_, s) ← bounded? 2 1 (monthDays year month) s
  return s

/-- The text after the fraction of a second, where there is one. -/
def secondFraction (s : List Char) : List Char :=
  match s with
  | '.' :: c :: r => if isDecimal c then r.dropWhile isDecimal else s
  | _ => s

def time? (s : List Char) : Option (List Char) := do
  let (_, s) ← bounded? 2 0 23 s
  let s ← after? ':' s
  let (_, s) ← bounded? 2 0 59 s
  let s ← after? ':' s
  let (_, s) ← bounded? 2 0 60 s
  return secondFraction s

/-- The text after the distance to the universal time, where there is one. -/
def offset (s : List Char) : List Char :=
  match s with
  | 'Z' :: r => r
  | 'z' :: r => r
  | c :: r =>
    if c = '+' ∨ c = '-' then
      ((do
        let (_, r) ← bounded? 2 0 23 r
        let r ← after? ':' r
        let (_, r) ← bounded? 2 0 59 r
        return r) : Option (List Char)).getD s
    else s
  | [] => s

/-- The text after a time that follows a date, where there is one. -/
def timeOfDate (s : List Char) : List Char :=
  match s with
  | c :: r =>
    if c = 'T' ∨ c = 't' ∨ c = ' ' then ((time? r).map offset).getD s else s
  | [] => s

def moment? (s : List Char) : Option (Value × List Char) := do
  let rest ← match date? s with
    | some r => some (timeOfDate r)
    | none => time? s
  return (.moment (String.ofList (s.take (s.length - rest.length))), rest)

/-- The first reader that reads something. -/
def firstOf (s : List Char) : List (List Char → Option (Value × List Char)) → Option (Value × List Char)
  | [] => none
  | f :: fs => match f s with
    | some p => some p
    | none => firstOf s fs

def number? (s : List Char) : Option (Value × List Char) :=
  firstOf s [moment?, float?, special?, int?]

end WindowAlign.Toml
