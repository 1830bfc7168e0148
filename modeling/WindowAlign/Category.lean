/-!
# Categories

A category is a family of metrics with one schema and one series of snapshots.
The five metric categories are aligned and offered to the sink; the sixth holds
the cluster's membership. `all` fixes the order in which categories are listed,
and `index` is the position in it.
-/

namespace WindowAlign

/-- The six families of measurements. -/
inductive Category where
  /-- Resource use of one operating system thread. -/
  | osMetrics
  /-- Bulk, query and fetch operations on a shard. -/
  | shardOperations
  /-- Requests of the REST layer. -/
  | httpRequests
  /-- Tasks run by the cluster manager. -/
  | clusterManagerTasks
  /-- Statistics of one shard on a node. -/
  | nodeMetrics
  /-- Members of the cluster. -/
  | clusterTopology
  deriving DecidableEq, Repr, Inhabited

namespace Category

/-- Every category, in listing order. -/
def all : List Category :=
  [osMetrics, shardOperations, httpRequests, clusterManagerTasks, nodeMetrics, clusterTopology]

/-- The categories whose snapshots are aligned and offered to the sink. -/
def metrics : List Category :=
  [osMetrics, shardOperations, httpRequests, clusterManagerTasks, nodeMetrics]

/-- Position in `all`. -/
def index : Category → Fin 6
  | osMetrics => 0
  | shardOperations => 1
  | httpRequests => 2
  | clusterManagerTasks => 3
  | nodeMetrics => 4
  | clusterTopology => 5

/-- The identifier used in tables and on the command line. -/
def name : Category → String
  | osMetrics => "os_metrics"
  | shardOperations => "shard_operations"
  | httpRequests => "http_requests"
  | clusterManagerTasks => "cluster_manager_tasks"
  | nodeMetrics => "node_metrics"
  | clusterTopology => "cluster_topology"

/-- The heading shown to people. -/
def title : Category → String
  | osMetrics => "OS Metrics"
  | shardOperations => "Shard Operations"
  | httpRequests => "HTTP Requests"
  | clusterManagerTasks => "Cluster Manager Tasks"
  | nodeMetrics => "Node Metrics"
  | clusterTopology => "Cluster Topology"

def ofName? (s : String) : Option Category :=
  all.find? (·.name == s)

/-- What is reported for an identifier that names no category. -/
def unknownMessage (s : String) : String :=
  "unknown category: " ++ s

theorem mem_all (c : Category) : c ∈ all := by
  cases c <;> simp [all]

theorem index_lt (c : Category) : (c.index : Nat) < 6 :=
  c.index.isLt

theorem index_injective {c d : Category} (h : c.index = d.index) : c = d := by
  cases c <;> cases d <;> first | rfl | exact absurd h (by decide)

theorem exists_index : ∀ k : Fin 6, ∃ c : Category, c.index = k
  | 0 => ⟨osMetrics, rfl⟩
  | 1 => ⟨shardOperations, rfl⟩
  | 2 => ⟨httpRequests, rfl⟩
  | 3 => ⟨clusterManagerTasks, rfl⟩
  | 4 => ⟨nodeMetrics, rfl⟩
  | 5 => ⟨clusterTopology, rfl⟩

end Category

end WindowAlign
