import WindowAlign.Proofs.Ingest.Verdict

/-!
# Stages of decoding

An event goes through four stages: its key path must have the whole shape of its category
(`Category.HasShape`), its header must tell the time (`Block.Tells`), the time must lie in the window,
and every line of its body that the category reads must convert (`Category.lineFault?`). The first
stage that fails decides what becomes of the event, whatever the later ones would have found, and
within the body the first line that fails does (`rowsOf_eq_error_iff`). Only an event that passes all
four leaves anything behind: `Processor.Staged` says what, and `process_staged` that every processor
keeps to it.
-/

namespace WindowAlign

/-! ## The shape of key paths -/

/-- The shapes of the key paths of each category. -/
inductive Category.HasShape : Category → List String → Prop
  | osMetrics (thread : String) : HasShape osMetrics ["threads", thread, "os_metrics"]
  | shardOperations (thread id : String) (kind : String) (h : kind ∈ shardOperationKinds)
      (phase : Phase) : HasShape shardOperations ["threads", thread, kind, id, phase.name]
  | httpRequests (thread operation id : String) (phase : Phase) :
      HasShape httpRequests ["threads", thread, "http", operation, id, phase.name]
  | clusterManagerTasks (thread order : String) (phase : Phase) :
      HasShape clusterManagerTasks ["threads", thread, "cluster_manager_task", order, phase.name]
  | nodeMetrics (index shard : String) : HasShape nodeMetrics ["indices", index, shard]
  | clusterTopology : HasShape clusterTopology ["cluster_topology"]

theorem Phase.name_of_ofSegment? {s : String} {p : Phase} (h : Phase.ofSegment? s = some p) :
    p.name = s := by
  unfold Phase.ofSegment? at h
  split at h
  · rename_i hs
    cases h
    exact hs.symm
  · split at h
    · rename_i hs
      cases h
      exact hs.symm
    · cases h

namespace Category

variable {c : Category} {segments : List String}

theorem HasShape.extract (h : c.HasShape segments) : ∃ path, c.extract segments = .ok path := by
  cases h with
  | osMetrics thread => exact ⟨_, rfl⟩
  | shardOperations thread id kind hk phase => cases phase <;> exact ⟨_, rfl⟩
  | httpRequests thread operation id phase => cases phase <;> exact ⟨_, rfl⟩
  | clusterManagerTasks thread order phase => cases phase <;> exact ⟨_, rfl⟩
  | nodeMetrics index shard => exact ⟨_, rfl⟩
  | clusterTopology => exact ⟨_, rfl⟩

theorem hasShape_of_match? (hc : c.claims segments = true) {path : PathMatch}
    (h : c.match? segments = some path) : c.HasShape segments := by
  unfold match? at h
  split at h
  · exact .osMetrics _
  · rename_i thread kind id last
    obtain ⟨phase, hphase, -⟩ := Option.map_eq_some_iff.1 h
    rw [← Phase.name_of_ofSegment? hphase]
    exact .shardOperations thread id kind (List.contains_iff_mem.1 hc) phase
  · obtain ⟨phase, hphase, -⟩ := Option.map_eq_some_iff.1 h
    rw [← Phase.name_of_ofSegment? hphase]
    exact .httpRequests _ _ _ phase
  · obtain ⟨phase, hphase, -⟩ := Option.map_eq_some_iff.1 h
    rw [← Phase.name_of_ofSegment? hphase]
    exact .clusterManagerTasks _ _ phase
  · exact .nodeMetrics _ _
  · exact .clusterTopology
  · cases h

/-- **A claimed path is refused where it has not the shape of its category.** -/
theorem extract_of_not_hasShape (hc : c.claims segments = true) (h : ¬ c.HasShape segments) :
    c.extract segments = .error (.badPath c segments) := by
  unfold extract
  split
  · rename_i path hpath
    exact absurd (hasShape_of_match? hc hpath) h
  · rfl

end Category

/-! ## Headers -/

namespace Block

/-- The header line of a text, without byte-order marks in front and blanks around it. -/
def header (value : String) : List Char :=
  Text.trim (split (value.toList.dropWhile (· == '\ufeff'))).1

/-- The lines below the header that are not blank. -/
def body (value : String) : List (List Char) :=
  bodyLines (split (value.toList.dropWhile (· == '\ufeff'))).2

/-- A header tells the time: it is a JSON value with a `current_time`, which is an integer in range. -/
def Tells (header : List Char) (t : Int) : Prop :=
  ∃ json found, Json.ofText? header = some json ∧ json.member? "current_time" = some found ∧
    found.signed? = some t

/-- A header has no time: it is empty, or a JSON value without a `current_time`. -/
def Undated (header : List Char) : Prop :=
  header = [] ∨ ∃ json, Json.ofText? header = some json ∧ json.member? "current_time" = none

variable {text : List Char} {t : Int} {cause : Rejection}

theorem timeOf_of_tells (h : Tells text t) : timeOf text = .ok t := by
  obtain ⟨json, found, hjson, hfound, ht⟩ := h
  have hne : text.isEmpty = false := by
    cases text with
    | nil => cases hjson
    | cons => rfl
  rw [timeOf, hne, if_neg (by decide), hjson]
  simp only [hfound, ht]

theorem tells_of_timeOf (h : timeOf text = .ok t) : Tells text t := by
  unfold timeOf at h
  split at h
  · cases h
  split at h
  · cases h
  rename_i json hjson
  split at h
  · cases h
  rename_i found hfound
  split at h
  · cases h
  rename_i n hn
  cases h
  exact ⟨json, found, hjson, hfound, hn⟩

theorem kind_of_timeOf (h : timeOf text = .error cause) :
    (Undated text → cause.kind = .missingTimestamp) ∧
      (¬ Undated text → cause.kind = .badTimestamp) := by
  unfold timeOf at h
  split at h
  · rename_i hempty
    cases h
    exact ⟨fun _ => rfl, fun hdated => absurd (.inl (List.isEmpty_iff.1 hempty)) hdated⟩
  rename_i hempty
  have hne : text ≠ [] := fun e => hempty (List.isEmpty_iff.2 e)
  split at h
  · rename_i hjson
    cases h
    refine ⟨fun hundated => ?_, fun _ => rfl⟩
    rcases hundated with rfl | ⟨json, hsome, -⟩
    · exact absurd rfl hne
    · rw [hjson] at hsome
      cases hsome
  rename_i json hjson
  split at h
  · rename_i hnone
    cases h
    exact ⟨fun _ => rfl, fun hdated => absurd (.inr ⟨json, hjson, hnone⟩) hdated⟩
  rename_i found hfound
  split at h
  · cases h
    refine ⟨fun hundated => ?_, fun _ => rfl⟩
    rcases hundated with rfl | ⟨other, hother, hnone⟩
    · exact absurd rfl hne
    · rw [hjson] at hother
      cases hother
      rw [hfound] at hnone
      cases hnone
  · cases h

theorem Tells.not_undated (h : Tells text t) : ¬ Undated text := by
  obtain ⟨json, found, hjson, hfound, -⟩ := h
  rintro (rfl | ⟨other, hother, hnone⟩)
  · cases hjson
  · rw [hjson] at hother
    cases hother
    rw [hfound] at hnone
    cases hnone

theorem exists_error_of_not_tells (h : ∀ t, ¬ Tells text t) :
    ∃ cause, timeOf text = .error cause := by
  cases htime : timeOf text with
  | error cause => exact ⟨cause, rfl⟩
  | ok t => exact absurd (tells_of_timeOf htime) (h t)

theorem ofText_of_tells {value : String} (h : Tells (header value) t) :
    ofText value = .ok ⟨t, body value⟩ := by
  have htime := timeOf_of_tells h
  unfold header at htime
  unfold ofText body
  simp only [htime]

theorem tells_of_ofText {value : String} {b : Block} (h : ofText value = .ok b) :
    Tells (header value) b.time ∧ b.lines = body value := by
  unfold ofText at h
  unfold header body
  dsimp only at h
  split at h
  · cases h
  rename_i t htime
  cases h
  exact ⟨tells_of_timeOf htime, rfl⟩

theorem ofText_of_timeOf {value : String} (h : timeOf (header value) = .error cause) :
    ofText value = .error cause := by
  unfold header at h
  unfold ofText
  simp only [h]

end Block

/-! ## Lines -/

/-- The fault of a line as a field of a schema: the schema knows its name, and its text is no value of
the field's type. -/
def Schema.fieldFault? (s : Schema) (line : List Char) : Option Rejection :=
  (Block.field? line).bind fun field => (s.slot? field.1).bind fun slot =>
    if (slot.type.cell? field.2).isSome then none else some (.badNumber field.1 field.2)

def Node.lineFault? (line : List Char) : Option Rejection :=
  if (Node.ofText? line).isSome then none else some (.badNode (String.ofList line))

/-- The fault of a body line of a category. Membership lists have members in all lines, other categories
have fields in some. -/
def Category.lineFault? (c : Category) : List Char → Option Rejection :=
  if c = .clusterTopology then Node.lineFault? else c.schema.fieldFault?

def Category.lineFaultKind (c : Category) : RejectionKind :=
  if c = .clusterTopology then .badTopology else .badNumber

/-- The number of rows that a body of a category gives: one for each member, or one for all fields. -/
def Category.rowCount (c : Category) (lines : List (List Char)) : Nat :=
  if c = .clusterTopology then lines.length else 1

theorem Category.kind_of_lineFault? {c : Category} {line : List Char} {cause : Rejection}
    (h : c.lineFault? line = some cause) : cause.kind = c.lineFaultKind := by
  unfold lineFault? at h
  unfold lineFaultKind
  by_cases hc : c = .clusterTopology
  · rw [if_pos hc, Node.lineFault?] at h
    rw [if_pos hc]
    split at h <;> cases h
    rfl
  · rw [if_neg hc] at h ⊢
    obtain ⟨field, -, h⟩ := Option.bind_eq_some_iff.1 h
    obtain ⟨slot, -, h⟩ := Option.bind_eq_some_iff.1 h
    split at h <;> cases h
    rfl

/-- Fields are put in up to the first one that has a fault. -/
theorem Row.putFields_eq_error_iff {s : Schema} {lines : List (List Char)} (cells : List Cell)
    {cause : Rejection} : putFields s (lines.filterMap Block.field?) cells = .error cause ↔
      lines.findSome? s.fieldFault? = some cause := by
  induction lines generalizing cells with
  | nil => simp [putFields]
  | cons line lines ih =>
    rw [List.findSome?_cons, Schema.fieldFault?]
    cases hfield : Block.field? line with
    | none =>
      rw [List.filterMap_cons_none hfield]
      exact ih cells
    | some field =>
      rw [List.filterMap_cons_some hfield, putFields, Option.bind_some]
      cases hslot : s.slot? field.1 with
      | none => exact ih cells
      | some slot =>
        simp only [Option.bind_some]
        cases hcell : slot.type.cell? field.2 with
        | none => simp
        | some v => exact ih _

theorem Block.nodesOf_eq_error_iff {lines : List (List Char)} {cause : Rejection} :
    nodesOf lines = .error cause ↔ lines.findSome? Node.lineFault? = some cause := by
  induction lines with
  | nil => simp [nodesOf]
  | cons line lines ih =>
    rw [List.findSome?_cons, Node.lineFault?, nodesOf]
    cases hnode : Node.ofText? line with
    | none => simp
    | some node =>
      cases hrest : nodesOf lines with
      | error e =>
        rw [hrest] at ih
        exact ih
      | ok nodes =>
        rw [hrest] at ih
        simpa using ih

theorem Block.nodesOf_eq_ok {lines : List (List Char)} {nodes : List Node}
    (h : nodesOf lines = .ok nodes) : nodes.map some = lines.map Node.ofText? := by
  induction lines generalizing nodes with
  | nil =>
    cases h
    rfl
  | cons line lines ih =>
    rw [nodesOf] at h
    split at h
    · cases h
    rename_i node hnode
    split at h
    · cases h
    rename_i rest hrest
    cases h
    rw [List.map_cons, List.map_cons, hnode, ih hrest]

/-! ## Processors -/

namespace Processor

variable {c : Category} {path : PathMatch} {block : Block}

theorem rowsOf_of_ne (hc : c ≠ .clusterTopology) : rowsOf c path block =
    (Row.ofBlock c.schema path block).map fun row => ([row.withPhaseTime c.schema path.phase], none) := by
  cases c with
  | clusterTopology => exact absurd rfl hc
  | _ =>
    unfold rowsOf
    cases Row.ofBlock _ path block <;> rfl

/-- **A body is refused for its first line that has a fault**, and for nothing else. -/
theorem rowsOf_eq_error_iff {cause : Rejection} : rowsOf c path block = .error cause ↔
    block.lines.findSome? c.lineFault? = some cause := by
  unfold Category.lineFault?
  by_cases hc : c = .clusterTopology
  · subst hc
    rw [if_pos rfl, ← Block.nodesOf_eq_error_iff]
    unfold rowsOf
    cases Block.nodesOf block.lines <;> simp
  · rw [if_neg hc, rowsOf_of_ne hc, ← Row.putFields_eq_error_iff (Row.putPath c.schema
      c.schema.pathFields path.values (List.replicate c.schema.width .null))]
    unfold Row.ofBlock Block.fields
    dsimp only
    cases Row.putFields c.schema (block.lines.filterMap Block.field?) (Row.putPath c.schema
      c.schema.pathFields path.values (List.replicate c.schema.width .null)) <;> simp [Except.map]

theorem rowsOf_eq_ok {rows : List Row} {seen : Option Topology}
    (h : rowsOf c path block = .ok (rows, seen)) : rows.length = c.rowCount block.lines ∧
      (c ≠ .clusterTopology → seen = none) ∧
      (c = .clusterTopology → ∃ nodes, nodes.map some = block.lines.map Node.ofText? ∧
        seen = some ⟨some block.time, nodes⟩) := by
  unfold Category.rowCount
  by_cases hc : c = .clusterTopology
  · subst hc
    unfold rowsOf at h
    dsimp only at h
    split at h
    · cases h
    rename_i nodes hnodes
    cases h
    have hmap := Block.nodesOf_eq_ok hnodes
    refine ⟨?_, fun hne => absurd rfl hne, fun _ => ⟨nodes, hmap, rfl⟩⟩
    have hlength := congrArg List.length hmap
    simpa using hlength
  · refine ⟨?_, fun _ => rowsOf_seen hc h, fun e => absurd e hc⟩
    rw [rowsOf_of_ne hc] at h
    cases hrow : Row.ofBlock c.schema path block with
    | error cause => rw [hrow] at h; cases h
    | ok row =>
      rw [hrow] at h
      cases h
      rw [if_neg hc]
      rfl

/-- What a processor bound to the window `w` answers to an event, and what it leaves of it. -/
structure Staged (p : Processor) (w : Window) (published : Topology) (e : Event)
    (answer : Verdict × Processor × Topology) : Prop where
  /-- A path without the shape of the category is rejected, whatever the text of the event. -/
  badPath : ¬ p.category.HasShape e.segments →
    answer.1 = .rejected (.badPath p.category e.segments)
  /-- So is, with such a path, a header that has no time, -/
  undated : p.category.HasShape e.segments → Block.Undated (Block.header e.value) →
    ∃ cause, answer.1 = .rejected cause ∧ cause.kind = .missingTimestamp
  /-- and one that cannot be read or has something else for a time. -/
  misdated : p.category.HasShape e.segments → ¬ Block.Undated (Block.header e.value) →
    (∀ t, ¬ Block.Tells (Block.header e.value) t) →
    ∃ cause, answer.1 = .rejected cause ∧ cause.kind = .badTimestamp
  /-- A time outside the window is stale, whatever the body holds. -/
  stale : ∀ t, p.category.HasShape e.segments → Block.Tells (Block.header e.value) t →
    w.contains t = false → answer.1 = .stale t
  /-- A body is rejected for its first line that has a fault. -/
  badLine : ∀ t cause, p.category.HasShape e.segments → Block.Tells (Block.header e.value) t →
    w.contains t = true → (Block.body e.value).findSome? p.category.lineFault? = some cause →
    answer.1 = .rejected cause ∧ cause.kind = p.category.lineFaultKind
  /-- All other events are buffered. -/
  buffered : ∀ t, p.category.HasShape e.segments → Block.Tells (Block.header e.value) t →
    w.contains t = true → (∀ line ∈ Block.body e.value, p.category.lineFault? line = none) →
    answer.1 = .buffered (p.category.rowCount (Block.body e.value))
  /-- What is not buffered leaves the processor and the published list as they were. -/
  untouched : (∀ n, answer.1 ≠ .buffered n) → answer.2 = (p, published)
  /-- What is buffered is appended, and the rest of the processor is as it was. -/
  appended : ∀ n, answer.1 = .buffered n →
    ∃ rows, rows.length = n ∧ answer.2.1 = { p with pending := p.pending ++ rows }
  /-- Only a membership list may change what is published: the list of all its members is offered. -/
  offered : ∀ n, answer.1 = .buffered n → if p.category = .clusterTopology then
      ∃ t nodes, Block.Tells (Block.header e.value) t ∧
        nodes.map some = (Block.body e.value).map Node.ofText? ∧
        answer.2.2 = published.publish ⟨some t, nodes⟩
    else answer.2.2 = published

variable {p : Processor} {w : Window} {e : Event} {published : Topology}

theorem process_effects (p : Processor) (published : Topology) (e : Event) :
    (∃ path block rows seen, p.category.extract e.segments = .ok path ∧
      Block.ofText e.value = .ok block ∧ rowsOf p.category path block = .ok (rows, seen) ∧
      p.process published e = (.buffered rows.length, { p with pending := p.pending ++ rows },
        (seen.map published.publish).getD published)) ∨
    (p.process published e).2 = (p, published) ∧ ∀ n, (p.process published e).1 ≠ .buffered n := by
  unfold process
  split
  · exact .inr ⟨rfl, fun n h => by cases h⟩
  rename_i path hpath
  split
  · exact .inr ⟨rfl, fun n h => by cases h⟩
  rename_i block hblock
  split
  · split
    · exact .inr ⟨rfl, fun n h => by cases h⟩
    · rename_i rows seen hrows
      exact .inl ⟨path, block, rows, seen, hpath, hblock, hrows, rfl⟩
  · exact .inr ⟨rfl, fun n h => by cases h⟩

theorem process_of_badPath (hc : p.category.claims e.segments = true)
    (h : ¬ p.category.HasShape e.segments) :
    (p.process published e).1 = .rejected (.badPath p.category e.segments) := by
  unfold process
  rw [Category.extract_of_not_hasShape hc h]

theorem process_of_badHeader {cause : Rejection} (h : p.category.HasShape e.segments)
    (htime : Block.timeOf (Block.header e.value) = .error cause) :
    (p.process published e).1 = .rejected cause := by
  obtain ⟨path, hpath⟩ := h.extract
  unfold process
  rw [hpath, Block.ofText_of_timeOf htime]

theorem accepts_eq (hw : p.window = some w) (t : Int) : p.accepts t = w.contains t := by
  rw [accepts, hw]
  rfl

theorem process_of_stale (hw : p.window = some w) {t : Int} (h : p.category.HasShape e.segments)
    (htime : Block.Tells (Block.header e.value) t) (hout : w.contains t = false) :
    (p.process published e).1 = .stale t := by
  obtain ⟨path, hpath⟩ := h.extract
  unfold process
  simp only [hpath, Block.ofText_of_tells htime, accepts_eq hw, hout]
  rfl

theorem process_of_badLine (hw : p.window = some w) {t : Int} {cause : Rejection}
    (h : p.category.HasShape e.segments) (htime : Block.Tells (Block.header e.value) t)
    (hin : w.contains t = true)
    (hline : (Block.body e.value).findSome? p.category.lineFault? = some cause) :
    (p.process published e).1 = .rejected cause := by
  obtain ⟨path, hpath⟩ := h.extract
  have hrows : rowsOf p.category path ⟨t, Block.body e.value⟩ = .error cause :=
    rowsOf_eq_error_iff.2 hline
  unfold process
  simp only [hpath, Block.ofText_of_tells htime, accepts_eq hw, hin, hrows]
  rfl

theorem process_of_lines (hw : p.window = some w) {t : Int} (h : p.category.HasShape e.segments)
    (htime : Block.Tells (Block.header e.value) t) (hin : w.contains t = true)
    (hlines : ∀ line ∈ Block.body e.value, p.category.lineFault? line = none) :
    (p.process published e).1 = .buffered (p.category.rowCount (Block.body e.value)) := by
  obtain ⟨path, hpath⟩ := h.extract
  unfold process
  simp only [hpath, Block.ofText_of_tells htime, accepts_eq hw, hin]
  cases hrows : rowsOf p.category path ⟨t, Block.body e.value⟩ with
  | error cause =>
    have hsome := rowsOf_eq_error_iff.1 hrows
    rw [List.findSome?_eq_none_iff.2 hlines] at hsome
    cases hsome
  | ok out =>
    obtain ⟨rows, seen⟩ := out
    rw [← (rowsOf_eq_ok hrows).1]
    rfl

/-- **The first stage that fails decides what becomes of an event, and only what passes all of them
leaves anything behind**: at every processor that is bound to a window, whatever it has buffered and
whatever is published, for every event that it claims. -/
theorem process_staged (hw : p.window = some w) (hc : p.category.claims e.segments = true)
    (published : Topology) : p.Staged w published e (p.process published e) where
  badPath := process_of_badPath hc
  undated hshape hundated := by
    obtain ⟨cause, hcause⟩ := Block.exists_error_of_not_tells fun t h => h.not_undated hundated
    exact ⟨cause, process_of_badHeader hshape hcause, (Block.kind_of_timeOf hcause).1 hundated⟩
  misdated hshape hdated hnone := by
    obtain ⟨cause, hcause⟩ := Block.exists_error_of_not_tells hnone
    exact ⟨cause, process_of_badHeader hshape hcause, (Block.kind_of_timeOf hcause).2 hdated⟩
  stale t := process_of_stale hw
  badLine t cause hshape htime hin hline := by
    obtain ⟨line, -, hfault⟩ := List.exists_of_findSome?_eq_some hline
    exact ⟨process_of_badLine hw hshape htime hin hline, Category.kind_of_lineFault? hfault⟩
  buffered t := process_of_lines hw
  untouched hnot := by
    rcases process_effects p published e with ⟨path, block, rows, seen, -, -, -, he⟩ | ⟨hsame, -⟩
    · rw [he] at hnot
      exact absurd rfl (hnot rows.length)
    · exact hsame
  appended n hn := by
    rcases process_effects p published e with ⟨path, block, rows, seen, -, -, -, he⟩ | ⟨-, hnot⟩
    · rw [he] at hn ⊢
      cases hn
      exact ⟨rows, rfl, rfl⟩
    · exact absurd hn (hnot n)
  offered n hn := by
    rcases process_effects p published e with ⟨path, block, rows, seen, -, hblock, hrows, he⟩ | ⟨-, hnot⟩
    · obtain ⟨-, hother, hmembers⟩ := rowsOf_eq_ok hrows
      obtain ⟨htime, hlines⟩ := Block.tells_of_ofText hblock
      rw [he]
      split
      · rename_i htop
        obtain ⟨nodes, hnodes, hseen⟩ := hmembers htop
        exact ⟨block.time, nodes, htime, hlines ▸ hnodes, by rw [hseen]; rfl⟩
      · rename_i htop
        rw [hother htop]
        rfl
    · exact absurd hn (hnot n)

theorem process_ne_buffered (hw : p.window = some w) (hc : p.category.claims e.segments = true)
    {kind : RejectionKind} (h : e.isRejected w kind = true) (n : Nat) :
    (p.process published e).1 ≠ .buffered n := by
  intro hn
  rw [Event.process_verdict hw] at hn
  rw [Event.isRejected, Event.fate_of_claims (Category.mem_all _) hc, hn] at h
  cases h

/-- A list of members of which the second line is none. -/
def brokenList : Event :=
  ⟨"cluster_topology", "\x7b\"current_time\":6000\x7d\n[\"n1\",\"h1\"]\n[7]\n[\"n2\"]\n"⟩

/-- The list is rejected for that line: of its two members, one before the line and one after it, none
is buffered or published. -/
theorem process_staged_brokenList :
    let p : Processor := ⟨.clusterTopology, 0, some ⟨5000, 10000⟩,
      [Row.ofNode 5500 ⟨"n0", "h0", "data", true⟩]⟩
    p.Staged ⟨5000, 10000⟩ ⟨some 5500, []⟩ brokenList (p.process ⟨some 5500, []⟩ brokenList) ∧
      (p.process ⟨some 5500, []⟩ brokenList).2 = (p, ⟨some 5500, []⟩) := by
  intro p
  have hclaims : p.category.claims brokenList.segments = true := by decide +kernel
  have hrejected : brokenList.isRejected ⟨5000, 10000⟩ .badTopology = true := by decide +kernel
  have hstaged := process_staged (p := p) (w := ⟨5000, 10000⟩) rfl hclaims ⟨some 5500, []⟩
  exact ⟨hstaged, hstaged.untouched (process_ne_buffered rfl hclaims hrejected)⟩

end Processor

end WindowAlign
