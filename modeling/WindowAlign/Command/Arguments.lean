import WindowAlign.Number.Signed64
import WindowAlign.Text.Blank

/-!
# Arguments

An argument is an option or a word. An option is given by its name after two dashes,
its value after `=` or as the next argument, or by its letter after one dash, where
several letters may stand together and a value may follow at once. A value that is
the next argument does not begin with a dash, unless it is a single dash, which is a
word like any other. After two dashes alone there are only words.

`Arguments.read` goes up to the first word, from which those decide who read on.
-/

namespace WindowAlign

/-- An option of a command: its name, its letter where it has one, and whether it
takes a value. -/
structure OptionForm where
  name : String
  letter : Option Char
  takesValue : Bool

inductive Given where
  | flag (name : String)
  | value (name text : String)
  deriving DecidableEq, Repr

inductive UsageFault where
  | unknownOption (text : String)
  | needlessValue (name : String)
  | missingValue (name : String)
  | badValue (name text : String)
  | repeated (name : String)
  | excluded (name other : String)
  | incomplete (name needed : String)
  | unexpected (text : String)
  | noCommand
  deriving DecidableEq, Repr

namespace UsageFault

def message : UsageFault → String
  | unknownOption text => "unknown option: " ++ text
  | needlessValue name => "--" ++ name ++ " takes no value"
  | missingValue name => "--" ++ name ++ " needs a value"
  | badValue name text => "--" ++ name ++ " cannot be " ++ text.quote
  | repeated name => "--" ++ name ++ " is given more than once"
  | excluded name other => "--" ++ name ++ " cannot be used with --" ++ other
  | incomplete name needed => "--" ++ name ++ " needs --" ++ needed
  | unexpected text => "unexpected argument: " ++ text
  | noCommand => "no command is given"

end UsageFault

inductive Stop where
  /-- Its usage is asked for. -/
  | help
  /-- Its version is asked for. -/
  | version
  | usage (fault : UsageFault)
  deriving DecidableEq, Repr

namespace Arguments

/-- Where the options of a command end. -/
inductive Close where
  | finished
  /-- At a word. -/
  | word (text : String) (rest : List String)
  /-- At two dashes; only words follow. -/
  | dashes (words : List String)
  | fault (f : UsageFault)

/-- What one argument leaves open. -/
inductive Tail where
  | complete
  /-- The value of an option. -/
  | value (name : String)
  | fault (f : UsageFault)

def isOption (s : String) : Bool :=
  s.startsWith "-" && s != "-"

/-- The option of a name after two dashes. -/
def longOption (forms : List OptionForm) (s : List Char) : List Given × Tail :=
  let (name, value) :=
    match Text.cut? '=' s with
    | some (n, v) => (String.ofList n, some (String.ofList v))
    | none => (String.ofList s, none)
  match forms.find? (·.name == name), value with
  | none, _ => ([], .fault (.unknownOption ("--" ++ name)))
  | some form, none => if form.takesValue then ([], .value name) else ([.flag name], .complete)
  | some form, some v =>
    if form.takesValue then ([.value name v], .complete) else ([], .fault (.needlessValue name))

/-- The options of letters after one dash. -/
def shortOptions (forms : List OptionForm) : List Char → List Given × Tail
  | [] => ([], .complete)
  | c :: r =>
    match forms.find? (·.letter == some c) with
    | none => ([], .fault (.unknownOption ("-" ++ c.toString)))
    | some form =>
      if form.takesValue then
        match r with
        | [] => ([], .value form.name)
        | '=' :: v => ([.value form.name (String.ofList v)], .complete)
        | v => ([.value form.name (String.ofList v)], .complete)
      else
        let (given, tail) := shortOptions forms r
        (.flag form.name :: given, tail)

def options (forms : List OptionForm) (s : String) : List Given × Tail :=
  match s.toList with
  | '-' :: '-' :: r => longOption forms r
  | '-' :: r => shortOptions forms r
  | _ => ([], .complete)

/-- What the options of a command give, in order, and where they end. -/
def read (forms : List OptionForm) : List String → List Given × Close
  | [] => ([], .finished)
  | s :: rest =>
    if s = "--" then ([], .dashes rest)
    else if !isOption s then ([], .word s rest)
    else match options forms s with
      | (given, .complete) =>
        let (more, close) := read forms rest
        (given ++ more, close)
      | (given, .fault f) => (given, .fault f)
      | (given, .value name) =>
        match rest with
        | [] => (given, .fault (.missingValue name))
        | v :: rest =>
          if isOption v then (given, .fault (.missingValue name))
          else
            let (more, close) := read forms rest
            (given ++ .value name v :: more, close)

/-! ## Values -/

/-- A path, which is not empty. -/
def path? (s : String) : Option String :=
  if s.isEmpty then none else some s

/-- A signed integer of 64 bits. -/
def integer? (s : String) : Option Int :=
  Signed64.ofText? s.toList

/-- A natural of 64 bits, a plus sign in front of it allowed. -/
def natural? (s : String) : Option Nat :=
  let digits := match s.toList with
    | '+' :: r => r
    | r => r
  (Signed64.digits? digits).filter (· < Nat.pow 2 64)

/-- The value of an option that was not given before. -/
def only (name text : String) (before : Option α) (read : String → Option α) :
    Except Stop (Option α) :=
  match before, read text with
  | some _, _ => .error (.usage (.repeated name))
  | none, none => .error (.usage (.badValue name text))
  | none, some v => .ok (some v)

def onlyFlag (name : String) (before : Bool) : Except Stop Bool :=
  if before then .error (.usage (.repeated name)) else .ok true

end Arguments

end WindowAlign
