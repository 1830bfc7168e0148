import WindowAlign.Json.Number

/-!
# Reading JSON

`Json.ofText?` reads a value. It refuses a number beyond the doubles, a code
unit that is half of a pair, and containers nested `depthLimit` deep or deeper.
Of two members with one name the last is kept, and members are ordered by name.
-/

namespace WindowAlign.Json

/-- The text of a string. Two code units of a pair are one character; half of a
pair is none. -/
def textOf? : List StringUnit → Option (List Char)
  | [] => some []
  | .char c :: r => (textOf? r).map (c :: ·)
  | .hex u :: .hex v :: r =>
    if 0xD800 ≤ u ∧ u < 0xDC00 then
      if 0xDC00 ≤ v ∧ v < 0xE000 then
        (textOf? r).map (Char.ofNat (0x10000 + (u - 0xD800) * 0x400 + (v - 0xDC00)) :: ·)
      else none
    else if 0xDC00 ≤ u ∧ u < 0xE000 then none
    else (textOf? (.hex v :: r)).map (Char.ofNat u :: ·)
  | .hex u :: r => if 0xD800 ≤ u ∧ u < 0xE000 then none else (textOf? r).map (Char.ofNat u :: ·)

def stringOf? (s : List StringUnit) : Option String :=
  (textOf? s).map String.ofList

/-- A container at this depth is refused. -/
def depthLimit : Nat := 128

mutual

/-- The value that a tree denotes, with `depth` levels of containers left. -/
def ofTree? : Nat → Tree → Option Json
  | _, .null => some .null
  | _, .bool b => some (.bool b)
  | _, .number l => l.value?
  | _, .string s => (stringOf? s).map .str
  | 0, .array _ => none
  | 0, .object _ => none
  | depth + 1, .array items => (itemsOf? depth items).map .arr
  | depth + 1, .object members => (membersOf? depth members []).map .obj

def itemsOf? : Nat → List Tree → Option (List Json)
  | _, [] => some []
  | depth, t :: r =>
    match ofTree? depth t with
    | none => none
    | some v => (itemsOf? depth r).map (v :: ·)

/-- The members read so far with the listed ones added in turn. -/
def membersOf? : Nat → List (List StringUnit × Tree) → List (String × Json) →
    Option (List (String × Json))
  | _, [], acc => some acc
  | depth, (name, t) :: r, acc =>
    match stringOf? name, ofTree? depth t with
    | some name, some v => membersOf? depth r (insertMember name v acc)
    | _, _ => none

end

def ofText? (s : List Char) : Option Json :=
  (Tree.ofText? s).bind (ofTree? (depthLimit - 1))

end WindowAlign.Json
