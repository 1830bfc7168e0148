import WindowAlign.Json.Reader
import WindowAlign.Json.Writer
import WindowAlign.Topology.Basic

/-!
# Cluster members as JSON

A member is an object with the names `NodeId`, `HostAddress`, `Role` and
`IsClusterManager`, or an array with the four values in that order. Only the
identifier is required. Other names of an object are passed over together with
their values, which need to be well formed and nothing more; a name that is
given twice makes the object unreadable.
-/

namespace WindowAlign

/-- The parts of a member that were read so far. -/
structure NodeParts where
  id : Option String
  host : Option String
  role : Option String
  isManager : Option Bool

namespace NodeParts

def none : NodeParts :=
  ⟨.none, .none, .none, .none⟩

/-- The member, if its identifier is known. Texts default to the empty one. -/
def node? (p : NodeParts) : Option Node :=
  p.id.map fun id => ⟨id, p.host.getD "", p.role.getD "", p.isManager.getD false⟩

def text? : Json.Tree → Option String
  | .string s => Json.stringOf? s
  | _ => .none

def flag? : Json.Tree → Option Bool
  | .bool b => some b
  | _ => .none

/-- The parts with one more member of the object read. -/
def put? (p : NodeParts) (name : String) (t : Json.Tree) : Option NodeParts :=
  match name with
  | "NodeId" => if p.id.isSome then .none else (text? t).map fun s => { p with id := some s }
  | "HostAddress" =>
    if p.host.isSome then .none else (text? t).map fun s => { p with host := some s }
  | "Role" => if p.role.isSome then .none else (text? t).map fun s => { p with role := some s }
  | "IsClusterManager" =>
    if p.isManager.isSome then .none else (flag? t).map fun b => { p with isManager := some b }
  | _ => some p

def putAll? : NodeParts → List (List Json.StringUnit × Json.Tree) → Option NodeParts
  | p, [] => some p
  | p, (name, t) :: r =>
    match Json.stringOf? name with
    | .none => .none
    | some name =>
      match p.put? name t with
      | .none => .none
      | some p => putAll? p r

end NodeParts

namespace Node

def ofItems? : List Json.Tree → Option Node
  | [id] => do return ⟨← NodeParts.text? id, "", "", false⟩
  | [id, host] => do return ⟨← NodeParts.text? id, ← NodeParts.text? host, "", false⟩
  | [id, host, role] => do
    return ⟨← NodeParts.text? id, ← NodeParts.text? host, ← NodeParts.text? role, false⟩
  | [id, host, role, manager] => do
    return ⟨← NodeParts.text? id, ← NodeParts.text? host, ← NodeParts.text? role,
      ← NodeParts.flag? manager⟩
  | _ => none

/-- The member that a line of a membership list stands for. -/
def ofText? (s : List Char) : Option Node :=
  match Json.Tree.ofText? s with
  | some (.object members) => (NodeParts.none.putAll? members).bind (·.node?)
  | some (.array items) => ofItems? items
  | _ => none

def toJson (n : Node) : Json :=
  .obj [("NodeId", .str n.id), ("HostAddress", .str n.host), ("Role", .str n.role),
    ("IsClusterManager", .bool n.isManager)]

end Node

end WindowAlign
