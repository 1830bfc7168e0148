import WindowAlign.Toml.Syntax

/-!
# TOML documents

The assignments after a header belong to its table, those before the first header
to the document. A header opens a table once; one that only served as a way to
tables below it may still be opened. Each header in double brackets adds a table
to the list of its name.
-/

namespace WindowAlign.Toml

/-- The assignments of statements up to the next header, and the statements from
there on. -/
def spanAssigns : List Statement → List (DottedKey × Value) × List Statement
  | .assign key v :: r =>
    let (l, rest) := spanAssigns r
    ((key, v) :: l, rest)
  | r => ([], r)

theorem spanAssigns_length (l : List Statement) : (spanAssigns l).2.length ≤ l.length := by
  induction l with
  | nil => simp [spanAssigns]
  | cons s r ih =>
    cases s
    all_goals simp [spanAssigns]
    omega

/-- The entries of a table with keys assigned in turn. -/
def assignAll? : Entries → List (DottedKey × Value) → Option Entries
  | entries, [] => some entries
  | entries, (key, v) :: r =>
    match assign? .header entries key v with
    | none => none
    | some entries => assignAll? entries r

/-- The entries with a table of a header added. -/
def openTable? (name : String) (assigns : List (DottedKey × Value)) (entries : Entries) :
    Option Entries :=
  match entries.lookup name with
  | none => (assignAll? [] assigns).map fun e => entries.put name (.table .header e)
  | some (.table .implied inner) =>
    (assignAll? inner assigns).map fun e => entries.put name (.table .header e)
  | some _ => none

/-- The entries with one more table of a header in double brackets. -/
def addTable? (name : String) (assigns : List (DottedKey × Value)) (entries : Entries) :
    Option Entries :=
  match entries.lookup name with
  | none => (assignAll? [] assigns).map fun e => entries.put name (.tables [e])
  | some (.tables items) =>
    (assignAll? [] assigns).map fun e => entries.put name (.tables (items ++ [e]))
  | some _ => none

/-- The entries of a document with sections added, each a header and the
assignments after it. -/
def addSections? (entries : Entries) (l : List Statement) : Option Entries :=
  match l with
  | [] => some entries
  | .assign _ _ :: _ => none
  | .header key :: r =>
    match atPath? false (fun _ => openTable? key.last (spanAssigns r).1) key.path .header entries with
    | none => none
    | some entries => addSections? entries (spanAssigns r).2
  | .arrayHeader key :: r =>
    match atPath? false (fun _ => addTable? key.last (spanAssigns r).1) key.path .header entries with
    | none => none
    | some entries => addSections? entries (spanAssigns r).2
termination_by l.length
decreasing_by
  all_goals
    have := spanAssigns_length r
    simp only [List.length_cons]
    omega

def ofStatements? (l : List Statement) : Option Entries := do
  let (assigns, sections) := spanAssigns l
  addSections? (← assignAll? [] assigns) sections

/-- The entries of a text. A byte-order mark in front is dropped. -/
def ofText? (s : List Char) : Option Entries := do
  let s := match s with
    | '\ufeff' :: r => r
    | s => s
  ofStatements? (← statements? (s.length + 1) s)

end WindowAlign.Toml
