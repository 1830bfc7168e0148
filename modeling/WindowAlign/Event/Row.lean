import WindowAlign.Cell.Basic
import WindowAlign.Event.Block
import WindowAlign.Event.Route

/-!
# Rows of a block

The row of an event has the path's values in the path columns, the fields of the
block in their slots and the writer's time as its update time. A field that the
schema does not know changes nothing, of two lines for one slot the later counts,
and a field that cannot be read rejects the whole row. A start or finish event
without a time of its own takes the writer's time.
-/

namespace WindowAlign

/-- A row to be written, in the column order of its category. -/
structure Row where
  cells : List Cell
  /-- The writer's time of the block that the row comes from. -/
  observedAt : Int
  deriving Inhabited

namespace Row

/-- The cells with the path's values put into the path columns. -/
def putPath (schema : Schema) : List String → List String → List Cell → List Cell
  | name :: names, value :: values, cells =>
    putPath schema names values <|
      match schema.pathColumn? name with
      | some i => cells.set i (.text value)
      | none => cells
  | _, _, cells => cells

/-- The cells with the fields of a block put into their slots, in order. -/
def putFields (schema : Schema) : List (String × String) → List Cell → Except Rejection (List Cell)
  | [], cells => .ok cells
  | (name, raw) :: r, cells =>
    match schema.slot? name with
    | none => putFields schema r cells
    | some slot =>
      match slot.type.cell? raw with
      | none => .error (.badNumber name raw)
      | some c => putFields schema r (cells.set slot.column c)

def ofBlock (schema : Schema) (path : PathMatch) (block : Block) : Except Rejection Row :=
  let empty := List.replicate schema.width Cell.null
  match putFields schema block.fields (putPath schema schema.pathFields path.values empty) with
  | .error r => .error r
  | .ok cells => .ok ⟨cells.set schema.lastUpdatedColumn (.int block.time), block.time⟩

def phaseColumn? (schema : Schema) : Phase → Option Nat
  | .start => schema.startColumn?
  | .finish => schema.endColumn?

/-- The row with the time of its half of the operation filled in by the writer's
time, where the block does not give it. -/
def withPhaseTime (schema : Schema) (phase : Option Phase) (row : Row) : Row :=
  match phase.bind (phaseColumn? schema) with
  | none => row
  | some i =>
    match row.cells[i]? with
    | some .null => { row with cells := row.cells.set i (.int row.observedAt) }
    | _ => row

end Row

end WindowAlign
