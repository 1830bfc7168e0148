import WindowAlign.Event.Basic
import WindowAlign.Event.Rejection

/-!
# Routes

A key path belongs to a category by its leading segments, and has to have the
category's whole shape to be decoded:

* `threads/<thread>/os_metrics`
* `threads/<thread>/shard{bulk,query,fetch}/<operation id>/{start,finish}`
* `threads/<thread>/http/<operation>/<request id>/{start,finish}`
* `threads/<thread>/cluster_manager_task/<insert order>/{start,finish}`
* `indices/<index>/<shard>`
* `cluster_topology`

A claimed path of another shape is a bad path, not one that nobody claims.
-/

namespace WindowAlign

/-- Which half of an operation an event reports. -/
inductive Phase where
  | start
  | finish
  deriving DecidableEq, Repr

namespace Phase

def name : Phase → String
  | start => "start"
  | finish => "finish"

def ofSegment? (s : String) : Option Phase :=
  if s = "start" then some start
  else if s = "finish" then some finish
  else none

end Phase

/-- What a key path says: the values of the category's path fields, in order,
and the half of an operation. -/
structure PathMatch where
  values : List String
  phase : Option Phase
  deriving DecidableEq, Repr

def shardOperationKinds : List String :=
  ["shardbulk", "shardquery", "shardfetch"]

/-- The segment that tells what a path below `threads` reports. -/
def threadKind? : List String → Option String
  | "threads" :: _ :: kind :: _ => some kind
  | _ => none

namespace Category

def claims (c : Category) (segments : List String) : Bool :=
  match c with
  | osMetrics => threadKind? segments == some "os_metrics"
  | shardOperations => (threadKind? segments).any shardOperationKinds.contains
  | httpRequests => threadKind? segments == some "http"
  | clusterManagerTasks => threadKind? segments == some "cluster_manager_task"
  | nodeMetrics => segments.head? == some "indices"
  | clusterTopology => segments.head? == some "cluster_topology"

/-- What a key path of the category's shape says. -/
def match? (c : Category) (segments : List String) : Option PathMatch :=
  match c, segments with
  | osMetrics, ["threads", thread, "os_metrics"] => some ⟨[thread], none⟩
  | shardOperations, ["threads", thread, kind, id, phase] =>
    (Phase.ofSegment? phase).map fun p => ⟨[thread, kind, id], some p⟩
  | httpRequests, ["threads", thread, "http", operation, id, phase] =>
    (Phase.ofSegment? phase).map fun p => ⟨[thread, operation, id], some p⟩
  | clusterManagerTasks, ["threads", thread, "cluster_manager_task", order, phase] =>
    (Phase.ofSegment? phase).map fun p => ⟨[thread, order], some p⟩
  | nodeMetrics, ["indices", index, shard] => some ⟨[index, shard], none⟩
  | clusterTopology, ["cluster_topology"] => some ⟨[], none⟩
  | _, _ => none

/-- What a claimed key path says, or that it is malformed. -/
def extract (c : Category) (segments : List String) : Except Rejection PathMatch :=
  match c.match? segments with
  | some m => .ok m
  | none => .error (.badPath c segments)

end Category

end WindowAlign
