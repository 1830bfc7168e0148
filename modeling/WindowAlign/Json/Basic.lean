import WindowAlign.Number.Signed64

/-!
# JSON values

Integers and other numbers are kept apart: a literal without point and exponent
is an `int` while it fits into 64 bits. The members of an object are listed in
the order in which they are written.
-/

namespace WindowAlign

inductive Json where
  | null
  | bool (b : Bool)
  | int (n : Int)
  | float (x : Float)
  | str (s : String)
  | arr (items : List Json)
  | obj (members : List (String × Json))
  deriving Inhabited

namespace Json

def member? (name : String) : Json → Option Json
  | obj members => members.lookup name
  | _ => none

/-- The integer that a value is, when it is one in the signed 64-bit range. -/
def signed? : Json → Option Int
  | int n => if n ≤ Signed64.greatest then some n else none
  | _ => none

/-- Members ordered by name, with `(name, value)` put in place of an earlier
member of that name. -/
def insertMember (name : String) (value : Json) : List (String × Json) → List (String × Json)
  | [] => [(name, value)]
  | (n, v) :: r =>
    if name < n then (name, value) :: (n, v) :: r
    else if name = n then (name, value) :: r
    else (n, v) :: insertMember name value r

end Json

end WindowAlign
