import WindowAlign.Text.Printable

/-!
# Quoted text

`quoted` shows a text in double quotes so that every character of it can be
told: quotes and backslashes are escaped, the common controls have letters, and
any other character that is not printable is given by its code point.
-/

namespace WindowAlign.Text

/-- A code point in lower-case hexadecimal. -/
def hex (n : Nat) : String :=
  String.ofList (Nat.toDigits 16 n)

def quotedChar (c : Char) : String :=
  match c with
  | '\x00' => "\\0"
  | '\t' => "\\t"
  | '\n' => "\\n"
  | '\r' => "\\r"
  | '"' => "\\\""
  | '\\' => "\\\\"
  | c => if isPrintable c then String.singleton c else "\\u\x7b" ++ hex c.toNat ++ "\x7d"

def quoted (s : String) : String :=
  "\"" ++ String.join (s.toList.map quotedChar) ++ "\""

end WindowAlign.Text
