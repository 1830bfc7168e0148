import WindowAlign.Category

/-!
# Catalog

Each category has one fixed schema. Some dimensions come from an event's key
path, the other fields from the `Name:Value` lines of its block; `columns` lays
them out as a snapshot row, path fields first, then block fields, then the
bookkeeping times. A name that is not in the schema has no slot, so a block may
carry fields that this catalog does not know.
-/

namespace WindowAlign

inductive FieldType where
  | text
  | float
  | int
  deriving DecidableEq, Repr, Inhabited

/-- The storage class that a field type declares. -/
def FieldType.storageName : FieldType → String
  | text => "TEXT"
  | float => "REAL"
  | int => "INTEGER"

/-- Whether a block field names a row's group or measures it. -/
inductive FieldRole where
  | dimension
  | metric
  deriving DecidableEq, Repr, Inhabited

/-- A field carried as a line of the block. -/
structure Field where
  name : String
  role : FieldRole
  type : FieldType
  deriving DecidableEq, Repr

namespace Field

def dimension (name : String) : Field := ⟨name, .dimension, .text⟩

def float (name : String) : Field := ⟨name, .metric, .float⟩

def int (name : String) : Field := ⟨name, .metric, .int⟩

end Field

/-- How the rows of a category come into being. -/
inductive Lifecycle where
  /-- One sample a key and window; the newest wins. -/
  | sampled
  /-- A start and a finish bind to one row. -/
  | startFinish
  /-- The whole membership list, replaced by each update. -/
  | topology
  deriving DecidableEq, Repr

inductive ColumnSource where
  | path
  | block (role : FieldRole)
  | lastUpdated
  | startTime
  | endTime
  deriving DecidableEq, Repr

/-- One column of a snapshot. Key columns together are a row's identity. -/
structure Column where
  name : String
  type : FieldType
  source : ColumnSource
  isKey : Bool
  deriving DecidableEq, Repr

namespace Column

/-- The name under which a block line sets the column. The two operation times
go by names of their own, and path columns and the update time by none. -/
def blockName? (c : Column) : Option String :=
  match c.source with
  | .block _ => some c.name
  | .startTime => some "StartTime"
  | .endTime => some "FinishTime"
  | .path | .lastUpdated => none

def isRequired (c : Column) : Bool :=
  c.isKey || c.source == .lastUpdated

end Column

structure Schema where
  category : Category
  lifecycle : Lifecycle
  /-- Dimensions taken from the key path, in column order. -/
  pathFields : List String
  /-- Fields carried as lines of the block. -/
  fields : List Field
  /-- Columns that identify a row. -/
  keyFields : List String
  /-- Key of the projected table. -/
  projectionDimensions : List String
  /-- Dimensions by which the sink groups aligned rows. -/
  aggregateDimensions : List String
  deriving Repr

/-- Where a block line is stored. -/
structure Slot where
  column : Nat
  type : FieldType
  isKey : Bool
  deriving DecidableEq, Repr

namespace Schema

def isStartFinish (s : Schema) : Bool :=
  s.lifecycle == .startFinish

def columns (s : Schema) : List Column :=
  s.pathFields.map (fun n => ⟨n, .text, .path, s.keyFields.contains n⟩) ++
  s.fields.map (fun f => ⟨f.name, f.type, .block f.role, s.keyFields.contains f.name⟩) ++
  [⟨"last_updated_time", .int, .lastUpdated, false⟩] ++
  if s.isStartFinish then
    [⟨"start_time", .int, .startTime, false⟩, ⟨"end_time", .int, .endTime, false⟩]
  else []

def width (s : Schema) : Nat :=
  s.columns.length

/-- The block fields that measure. -/
def metricFields (s : Schema) : List Field :=
  s.fields.filter (·.role == .metric)

/-- Metrics of the projected table. Start/finish categories count their
completed operations and average how long those took. -/
def projectedMetrics (s : Schema) : List String :=
  (if s.isStartFinish then ["Count", "Latency"] else []) ++ s.metricFields.map (·.name)

def sourceColumn? (s : Schema) (source : ColumnSource) : Option Nat :=
  s.columns.findIdx? (·.source == source)

def column? (s : Schema) (name : String) : Option Nat :=
  s.columns.findIdx? (·.name == name)

/-- Where a block line named `name` is stored, if the schema knows it. -/
def slot? (s : Schema) (name : String) : Option Slot :=
  let i := s.columns.findIdx (·.blockName? == some name)
  s.columns[i]?.map fun c => ⟨i, c.type, c.isKey⟩

def pathColumn? (s : Schema) (name : String) : Option Nat :=
  s.columns.findIdx? fun c => c.source == .path && c.name == name

/-- Position of the update time, which every schema has. -/
def lastUpdatedColumn (s : Schema) : Nat :=
  s.pathFields.length + s.fields.length

def startColumn? (s : Schema) : Option Nat :=
  s.sourceColumn? .startTime

def endColumn? (s : Schema) : Option Nat :=
  s.sourceColumn? .endTime

/-- Positions of the columns that identify a row, in the order of `keyFields`. -/
def keyColumns (s : Schema) : List Nat :=
  s.keyFields.filterMap s.column?

end Schema

namespace Category

def schema : Category → Schema
  | osMetrics => {
      category := osMetrics
      lifecycle := .sampled
      pathFields := ["ThreadID"]
      fields := [.dimension "ThreadName", .float "CPU_Utilization", .float "Paging_MajfltRate",
        .float "Paging_MinfltRate", .float "Paging_RSS", .float "Sched_Runtime",
        .float "Sched_Waittime", .float "Sched_CtxRate", .float "Heap_AllocRate",
        .float "IO_ReadThroughput", .float "IO_WriteThroughput", .float "IO_TotalSyscallRate",
        .float "Thread_Blocked_Time"]
      keyFields := ["ThreadID"]
      projectionDimensions := ["ThreadID", "ThreadName"]
      aggregateDimensions := [] }
  | shardOperations => {
      category := shardOperations
      lifecycle := .startFinish
      pathFields := ["ThreadID", "Operation", "OperationID"]
      fields := [.dimension "IndexName", .dimension "ShardID", .dimension "Primary",
        .int "DocCount", .int "Failed"]
      keyFields := ["ThreadID", "Operation", "OperationID"]
      projectionDimensions := ["IndexName", "ShardID", "Operation", "Primary"]
      aggregateDimensions := ["IndexName", "ShardID", "Operation"] }
  | httpRequests => {
      category := httpRequests
      lifecycle := .startFinish
      pathFields := ["ThreadID", "Operation", "RequestID"]
      fields := [.dimension "HTTPRespCode", .dimension "Exception", .int "ItemCount",
        .int "IndicesCount"]
      keyFields := ["ThreadID", "Operation", "RequestID"]
      projectionDimensions := ["Operation", "HTTPRespCode", "Exception"]
      aggregateDimensions := ["Operation", "HTTPRespCode"] }
  | clusterManagerTasks => {
      category := clusterManagerTasks
      lifecycle := .startFinish
      pathFields := ["ThreadID", "InsertOrder"]
      fields := [.dimension "TaskType", .dimension "TaskPriority", .dimension "TaskMetadata"]
      keyFields := ["ThreadID", "InsertOrder"]
      projectionDimensions := ["TaskType", "TaskPriority"]
      aggregateDimensions := ["TaskType"] }
  | nodeMetrics => {
      category := nodeMetrics
      lifecycle := .sampled
      pathFields := ["IndexName", "ShardID"]
      fields := [.float "Indexing_ThrottleTime", .float "Cache_Query_Hit",
        .float "Cache_Query_Miss", .float "Cache_Query_Size", .float "Cache_FieldData_Eviction",
        .float "Cache_FieldData_Size", .float "Cache_Request_Hit", .float "Cache_Request_Miss",
        .float "Refresh_Event", .float "Refresh_Time", .float "Flush_Event",
        .float "Merge_Event", .float "Merge_Time", .float "Segments_Total",
        .float "Segments_Memory"]
      keyFields := ["IndexName", "ShardID"]
      projectionDimensions := ["IndexName", "ShardID"]
      aggregateDimensions := ["IndexName"] }
  | clusterTopology => {
      category := clusterTopology
      lifecycle := .topology
      pathFields := []
      fields := [.dimension "NodeId", .dimension "HostAddress", .dimension "Role",
        .int "IsClusterManager"]
      keyFields := ["NodeId"]
      projectionDimensions := ["NodeId", "HostAddress", "Role"]
      aggregateDimensions := [] }

end Category

end WindowAlign
