import WindowAlign.Ingest.Intake
import WindowAlign.Proofs.Event.Rows

/-!
# What becomes of an event

A key path belongs to one category at most, so at most one processor has a say about an event. Its
verdict is about the category, the window and the event alone (`Event.verdictFor`), whatever was
buffered or published before. What becomes of it in a pass is its fate (`Event.fate`). The counters of a
pass are the numbers of its events by their fates (`Stats.Counted`), and an event that is not buffered
gives no rows (`Event.rowsFor_eq_nil`).
-/

namespace WindowAlign

/-! ## Claims -/

theorem threadKind?_head? {segments : List String} {k : String}
    (h : threadKind? segments = some k) : segments.head? = some "threads" := by
  unfold threadKind? at h
  split at h
  · rfl
  · cases h

/-- **A key path belongs to one category at most.** -/
theorem Category.claims_unique {c d : Category} {segments : List String}
    (hc : c.claims segments = true) (hd : d.claims segments = true) : c = d := by
  cases hk : threadKind? segments with
  | none => cases c <;> cases d <;> simp_all [Category.claims]
  | some k =>
    have := threadKind?_head? hk
    cases c <;> cases d <;> simp_all [Category.claims, shardOperationKinds]

theorem Category.find?_claims {cs : List Category} {c : Category} {segments : List String} (hc : c ∈ cs)
    (h : c.claims segments = true) : cs.find? (·.claims segments) = some c := by
  cases hfind : cs.find? (·.claims segments) with
  | none => exact absurd h (List.find?_eq_none.1 hfind c hc)
  | some d =>
    have hd : d.claims segments = true := by simpa using List.find?_some hfind
    rw [Category.claims_unique hd h]

theorem Event.rowsFor_of_not_claims {c : Category} {w : Window} {e : Event}
    (h : c.claims e.segments = false) : e.rowsFor c w = [] := by
  rw [Event.rowsFor, h]; rfl

namespace Processor

/-- A processor buffers the rows that it takes from an event, and nothing else of it changes. -/
theorem process_eq {p : Processor} {w : Window} (hw : p.window = some w) {e : Event}
    (hc : p.category.claims e.segments = true) (published : Topology) :
    (p.process published e).2.1 = { p with pending := p.pending ++ e.rowsFor p.category w } := by
  unfold process Event.rowsFor
  rw [if_pos hc]
  split
  · rename_i hx; rw [hx, List.append_nil]
  rename_i path hx
  rw [hx]
  split
  · rename_i hb; rw [hb, List.append_nil]
  rename_i block hb
  rw [hb]
  have haccept : p.accepts block.time = w.contains block.time := by rw [accepts, hw]; rfl
  simp only [haccept]
  split
  · split
    · rename_i hr; simp only [hr, List.append_nil]
    · rename_i rows seen hr; simp only [hr]
  · rw [List.append_nil]

end Processor

/-! ## Published lists -/

/-- The list of members that the topology processor takes from an event. -/
def Event.membersFor (w : Window) (e : Event) : Option Topology :=
  if Category.clusterTopology.claims e.segments then
    match Category.clusterTopology.extract e.segments, Block.ofText e.value with
    | .ok path, .ok block =>
      if w.contains block.time then
        match Processor.rowsOf .clusterTopology path block with
        | .ok (_, seen) => seen
        | .error _ => none
      else none
    | _, _ => none
  else none

theorem Event.membersFor_of_not_claims {w : Window} {e : Event}
    (h : Category.clusterTopology.claims e.segments = false) : e.membersFor w = none := by
  rw [membersFor, h]; rfl

theorem Event.membersFor_observed {w : Window} {e : Event} {t : Topology}
    (h : e.membersFor w = some t) : ∃ time, t.observedAt = some time ∧ w.contains time = true := by
  unfold membersFor at h
  split at h
  · split at h
    · rename_i path block hpath hblock
      split at h
      · rename_i hw
        unfold Processor.rowsOf at h
        simp only at h
        cases hn : Block.nodesOf block.lines with
        | error cause => rw [hn] at h; cases h
        | ok nodes => rw [hn] at h; cases h; exact ⟨block.time, rfl, hw⟩
      · cases h
    · cases h
  · cases h

def Topology.rows (t : Topology) : List Row :=
  t.nodes.map (Row.ofNode (t.observedAt.getD 0))

theorem Event.rowsFor_clusterTopology (w : Window) (e : Event) :
    e.rowsFor .clusterTopology w = ((e.membersFor w).map Topology.rows).getD [] := by
  unfold rowsFor membersFor
  cases Category.clusterTopology.claims e.segments with
  | false => rfl
  | true =>
    cases Category.clusterTopology.extract e.segments with
    | error cause => rfl
    | ok path =>
      cases Block.ofText e.value with
      | error cause => rfl
      | ok block =>
        unfold Processor.rowsOf
        simp only [↓reduceIte]
        cases w.contains block.time with
        | false => rfl
        | true => cases Block.nodesOf block.lines <;> rfl

namespace Processor

theorem rowsOf_seen {c : Category} (hc : c ≠ .clusterTopology) {path : PathMatch} {block : Block}
    {rows : List Row} {seen : Option Topology} (h : rowsOf c path block = .ok (rows, seen)) :
    seen = none := by
  unfold rowsOf at h
  split at h
  · exact absurd rfl hc
  · split at h
    · cases h
    · cases h; rfl

theorem process_published {p : Processor} {w : Window} (hw : p.window = some w) {e : Event}
    (hc : p.category.claims e.segments = true) (published : Topology) :
    (p.process published e).2.2 = ((e.membersFor w).map published.publish).getD published := by
  obtain ⟨c, maxAge, window, pending⟩ := p
  cases (hw : window = some w)
  have hcc : c.claims e.segments = true := hc
  have haccept : ∀ t, accepts ⟨c, maxAge, some w, pending⟩ t = w.contains t := fun _ => rfl
  by_cases htop : c = .clusterTopology
  · subst htop
    unfold process Event.membersFor
    rw [if_pos hcc]
    simp only [haccept]
    cases Category.clusterTopology.extract e.segments with
    | error cause => rfl
    | ok path =>
      cases Block.ofText e.value with
      | error cause => rfl
      | ok block =>
        simp only
        split
        · split <;> rename_i hr <;> simp only [hr, Option.map_none, Option.getD_none]
        · rfl
  · have hnot : Category.clusterTopology.claims e.segments = false := by
      by_contra h
      exact htop (Category.claims_unique hcc (by simpa using h))
    rw [Event.membersFor_of_not_claims hnot]
    unfold process
    simp only
    split
    · rfl
    split
    · rfl
    split
    · split
      · rfl
      · rename_i rows seen hr
        simp only [rowsOf_seen htop hr]
    · rfl

end Processor

/-! ## Verdicts -/

namespace Event

variable {c : Category} {w : Window} {e : Event}

/-- What becomes of an event at the processor of a category that is bound to a window. -/
def verdictFor (c : Category) (w : Window) (e : Event) : Verdict :=
  (Processor.process ⟨c, 0, some w, []⟩ .unknown e).1

/-- The verdict does not depend on what the processor has buffered or what was published. -/
theorem process_verdict {p : Processor} (hw : p.window = some w) (published : Topology) :
    (p.process published e).1 = e.verdictFor p.category w := by
  unfold verdictFor Processor.process
  have haccept : ∀ t, p.accepts t = Processor.accepts ⟨p.category, 0, some w, []⟩ t := fun t => by
    rw [Processor.accepts, hw]; rfl
  simp only [haccept]
  split
  · rfl
  split
  · rfl
  split
  · split <;> rfl
  · rfl

end Event

/-! ## Fates -/

/-- What becomes of an event in a pass. -/
inductive Fate where
  | unclaimed
  | stale
  | rejected (kind : RejectionKind)
  | accepted (c : Category) (rows : List Row)

namespace Fate

def isUnclaimed : Fate → Bool
  | unclaimed => true
  | _ => false

def isStale : Fate → Bool
  | stale => true
  | _ => false

def isRejected (k : RejectionKind) : Fate → Bool
  | rejected kind => kind = k
  | _ => false

def isAccepted : Fate → Bool
  | accepted _ _ => true
  | _ => false

def rows : Fate → List Row
  | accepted _ rows => rows
  | _ => []

end Fate

namespace Event

variable {cs : List Category} {c : Category} {w : Window} {e : Event}

/-- The fate of an event at processors of some categories that are bound to a window: what the first
of them that claims it makes of it. -/
def fate (cs : List Category) (w : Window) (e : Event) : Fate :=
  match cs.find? (·.claims e.segments) with
  | none => .unclaimed
  | some c =>
    match Processor.process ⟨c, 0, some w, []⟩ .unknown e with
    | (.buffered _, p, _) => .accepted c p.pending
    | (.stale _, _, _) => .stale
    | (.rejected cause, _, _) => .rejected cause.kind

theorem fate_of_find?_none (h : cs.find? (·.claims e.segments) = none) : e.fate cs w = .unclaimed := by
  rw [fate, h]

theorem fate_of_find?_some (h : cs.find? (·.claims e.segments) = some c) :
    e.fate cs w = match e.verdictFor c w with
      | .buffered _ => .accepted c (e.rowsFor c w)
      | .stale _ => .stale
      | .rejected cause => .rejected cause.kind := by
  have hclaims : c.claims e.segments = true := by simpa using List.find?_some h
  have hpending := congrArg Processor.pending
    (Processor.process_eq (p := ⟨c, 0, some w, []⟩) rfl hclaims .unknown)
  rw [fate, h, verdictFor]
  dsimp only
  split <;> rename_i hprocess <;> rw [hprocess] at hpending ⊢
  exact congrArg (Fate.accepted c) hpending

theorem fate_of_claims (hc : c ∈ cs) (h : c.claims e.segments = true) :
    e.fate cs w = match e.verdictFor c w with
      | .buffered _ => .accepted c (e.rowsFor c w)
      | .stale _ => .stale
      | .rejected cause => .rejected cause.kind :=
  fate_of_find?_some (Category.find?_claims hc h)

/-- Where every category has a processor, their order does not matter. -/
theorem fate_eq_all (h : ∀ c, c ∈ cs) (w : Window) (e : Event) :
    e.fate cs w = e.fate Category.all w := by
  by_cases hclaims : ∃ c : Category, c.claims e.segments = true
  · obtain ⟨c, hc⟩ := hclaims
    rw [fate_of_claims (h c) hc, fate_of_claims (Category.mem_all c) hc]
  · have hnone : ∀ ds : List Category, ds.find? (·.claims e.segments) = none := fun ds =>
      List.find?_eq_none.2 fun c _ hc => hclaims ⟨c, hc⟩
    rw [fate_of_find?_none (hnone _), fate_of_find?_none (hnone _)]

def isUnclaimed (w : Window) (e : Event) : Bool :=
  (e.fate Category.all w).isUnclaimed

def isStale (w : Window) (e : Event) : Bool :=
  (e.fate Category.all w).isStale

def isRejected (w : Window) (k : RejectionKind) (e : Event) : Bool :=
  (e.fate Category.all w).isRejected k

def isBuffered (w : Window) (e : Event) : Bool :=
  (e.fate Category.all w).isAccepted

/-- **An event that is not buffered leaves no rows behind.** -/
theorem rowsFor_eq_nil (h : e.isBuffered w = false) (c : Category) : e.rowsFor c w = [] := by
  cases hc : c.claims e.segments with
  | false => exact rowsFor_of_not_claims hc
  | true =>
    unfold isBuffered at h
    rw [fate_of_claims (Category.mem_all c) hc, verdictFor, Processor.process] at h
    rw [rowsFor, if_pos hc]
    split
    · rename_i path block hpath hblock
      rw [hpath, hblock] at h
      have haccept : Processor.accepts ⟨c, 0, some w, []⟩ block.time = w.contains block.time := rfl
      simp only [haccept] at h
      split
      · rename_i hw
        rw [if_pos hw] at h
        split
        · rename_i rows seen hrows
          rw [hrows] at h
          cases h
        · rfl
      · rfl
    · rfl

theorem flatMap_rowsFor_filter (c : Category) (w : Window) (es : List Event) :
    (es.filter (·.isBuffered w)).flatMap (·.rowsFor c w) = es.flatMap (·.rowsFor c w) := by
  induction es with
  | nil => rfl
  | cons e es ih =>
    cases he : e.isBuffered w with
    | true => rw [List.filter_cons_of_pos he, List.flatMap_cons, List.flatMap_cons, ih]
    | false =>
      rw [List.filter_cons_of_neg (by rw [he]; decide), ih, List.flatMap_cons,
        rowsFor_eq_nil he, List.nil_append]

theorem rowsFor_of_verdict (hclaims : c.claims e.segments = true)
    (h : ∀ n, e.verdictFor c w ≠ .buffered n) : e.rowsFor c w = [] := by
  refine rowsFor_eq_nil ?_ c
  rw [isBuffered, fate_of_claims (Category.mem_all c) hclaims]
  cases hv : e.verdictFor c w with
  | buffered n => exact absurd hv (h n)
  | stale t => rfl
  | rejected cause => rfl

end Event

/-! ## Counters -/

theorem RejectionKind.index_injective {k l : RejectionKind} (h : k.index = l.index) : k = l := by
  cases k <;> cases l <;> first | rfl | exact absurd h (by decide)

namespace Stats

/-- The counters of a pass have gone on by the events of a list. -/
structure Counted (w : Window) (es : List Event) (s s' : Stats) : Prop where
  events : s'.events = s.events + es.length
  unclaimed : s'.unclaimed = s.unclaimed + es.countP (·.isUnclaimed w)
  stale : s'.stale = s.stale + es.countP (·.isStale w)
  rejected : ∀ k, s'.rejectionsOf k = s.rejectionsOf k + es.countP (·.isRejected w k)

theorem rejectionsOf_addVerdict (s : Stats) (cause : Rejection) (k : RejectionKind) :
    (s.addVerdict (.rejected cause)).rejectionsOf k =
      if cause.kind = k then s.rejectionsOf k + 1 else s.rejectionsOf k := by
  unfold addVerdict rejectionsOf
  by_cases hk : cause.kind = k
  · subst hk
    simp
  · have hne : (cause.kind.index : Nat) ≠ k.index := fun h =>
      hk (RejectionKind.index_injective (Fin.ext h))
    simp [hk, hne]

end Stats

end WindowAlign
