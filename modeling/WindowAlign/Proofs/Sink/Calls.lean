import WindowAlign.Proofs.Reader.Offers
import WindowAlign.Proofs.Sink.Groups
import WindowAlign.Proofs.Sink.Tables

/-!
# A metrics database under any calls

What a sink keeps of a window is what the latest call said that said anything about it
(`SinkCall.latest`): a call of metrics speaks of one window and category, a call of members of one
window, and a purge says of every earlier window that nothing is kept. `Database.Mirrors` states that
the three tables of a database are these three maps. Every call that succeeds keeps it
(`Mirrors.step`), so it holds of the database after any calls (`mirrors_after`). A call can only fail
where two aggregates have one key (`after_eq_ok`).
-/

namespace WindowAlign

/-! ## What calls say -/

namespace SinkCall

def run : SinkCall → Database → Except StorageFault (Nat × Database)
  | metrics c start a, d => d.writeAggregated c start a
  | members start t, d => d.writeTopology start t
  | purge before, d => d.purgeBefore before

/-- What a call says of the metrics of a window and a category: nothing, or which table is kept, if
any. -/
def metricsAt (w : Int) (c : Category) : SinkCall → Option (Option Aligned)
  | metrics k start a => if start = w ∧ k = c then some (some a) else none
  | members _ _ => none
  | purge before => if w < before then some none else none

/-- What a call says of the members of the cluster in a window. -/
def membersAt (w : Int) : SinkCall → Option (Option Topology)
  | metrics _ _ _ => none
  | members start t => if start = w then some (some t) else none
  | purge before => if w < before then some none else none

def stopAt (w : Int) : SinkCall → Option (Option Int)
  | metrics _ start a => if start = w then some (some a.window.stop) else none
  | members _ _ => none
  | purge before => if w < before then some none else none

def listedAt (w : Int) : SinkCall → Option (Option Unit)
  | metrics _ start _ => if start = w then some (some ()) else none
  | members start _ => if start = w then some (some ()) else none
  | purge before => if w < before then some none else none

/-- The word of the latest call that says anything. The calls are given latest first. -/
def latest {α : Type} (f : SinkCall → Option (Option α)) (calls : List SinkCall) : Option α :=
  (calls.findSome? f).join

theorem latest_cons {α : Type} (f : SinkCall → Option (Option α)) (x : SinkCall)
    (calls : List SinkCall) : latest f (x :: calls) = (f x).getD (latest f calls) := by
  rw [latest, List.findSome?_cons]
  cases f x <;> rfl

/-- Where each call that says "some" of one thing does so of another, and "none" of the other only
together with "none" of the one, the other is kept wherever the one is. -/
theorem latest_isSome_of {α β : Type} {f : SinkCall → Option (Option α)}
    {g : SinkCall → Option (Option β)} (hsome : ∀ x, (f x).join.isSome → (g x).join.isSome)
    (hnone : ∀ x, g x = some none → f x = some none) {calls : List SinkCall}
    (h : (latest f calls).isSome) : (latest g calls).isSome := by
  induction calls with
  | nil => cases h
  | cons x calls ih =>
    rw [latest_cons] at h ⊢
    have hsome := hsome x
    have hnone := hnone x
    cases hg : g x with
    | none =>
      cases hf : f x with
      | none => exact ih (by rwa [hf] at h)
      | some r =>
        rw [hf] at h hsome
        rw [hg] at hsome
        cases hsome h
    | some r =>
      cases r with
      | some b => rfl
      | none =>
        rw [hnone hg] at h
        cases h

theorem mem_of_latest_metrics {w : Int} {c : Category} {calls : List SinkCall} {a : Aligned}
    (h : latest (metricsAt w c) calls = some a) : .metrics c w a ∈ calls := by
  obtain ⟨x, hx, hsays⟩ := List.exists_of_findSome?_eq_some (Option.join_eq_some_iff.1 h)
  cases x with
  | metrics k start b =>
    rw [metricsAt] at hsays
    split at hsays
    · rename_i e
      cases hsays
      rw [← e.1, ← e.2]
      exact hx
    · cases hsays
  | members start t => cases hsays
  | purge before =>
    rw [metricsAt] at hsays
    split at hsays <;> cases hsays

/-- The aggregates that calls leave for a window and a category. -/
def aggregatesAt (calls : List SinkCall) (w : Int) (c : Category) : List GroupValue :=
  ((latest (metricsAt w c) calls).map Aligned.aggregate).getD []

/-- The record that calls leave of a window, with its end if it has one. -/
def windowAt (calls : List SinkCall) (w : Int) : Option (Option Int) :=
  (latest (listedAt w) calls).map fun _ => latest (stopAt w) calls

theorem isSome_windowAt {calls : List SinkCall} {w : Int} :
    (windowAt calls w).isSome = (latest (listedAt w) calls).isSome := by
  rw [windowAt, Option.isSome_map]

theorem listed_of_metrics {calls : List SinkCall} {w : Int} {c : Category}
    (h : (latest (metricsAt w c) calls).isSome) : (windowAt calls w).isSome := by
  rw [isSome_windowAt]
  refine latest_isSome_of (fun x hx => ?_) (fun x hx => ?_) h
  all_goals
    cases x <;> grind [metricsAt, listedAt]

theorem listed_of_members {calls : List SinkCall} {w : Int}
    (h : (latest (membersAt w) calls).isSome) : (windowAt calls w).isSome := by
  rw [isSome_windowAt]
  refine latest_isSome_of (fun x hx => ?_) (fun x hx => ?_) h
  all_goals
    cases x <;> grind [membersAt, listedAt]

theorem join_windowAt (calls : List SinkCall) (w : Int) :
    (windowAt calls w).join = latest (stopAt w) calls := by
  cases hl : latest (listedAt w) calls with
  | some u => rw [windowAt, hl]; rfl
  | none =>
    cases hs : latest (stopAt w) calls with
    | none => rw [windowAt, hl]; rfl
    | some e =>
      have hlisted : (latest (listedAt w) calls).isSome := by
        refine latest_isSome_of (fun x hx => ?_) (fun x hx => ?_) (Option.isSome_of_eq_some hs)
        all_goals
          cases x <;> grind [stopAt, listedAt]
      rw [hl] at hlisted
      cases hlisted

theorem windowAt_metrics (c : Category) (start : Int) (a : Aligned) (calls : List SinkCall)
    (w : Int) : windowAt (.metrics c start a :: calls) w =
      if start = w then some (some a.window.stop) else windowAt calls w := by
  rw [windowAt, latest_cons, latest_cons, listedAt, stopAt]
  split <;> rfl

theorem windowAt_members (start : Int) (t : Topology) (calls : List SinkCall) (w : Int) :
    windowAt (.members start t :: calls) w =
      if start = w then some (windowAt calls w).join else windowAt calls w := by
  rw [join_windowAt, windowAt, latest_cons, latest_cons, listedAt, stopAt]
  split <;> rfl

theorem windowAt_purge (before : Int) (calls : List SinkCall) (w : Int) :
    windowAt (.purge before :: calls) w = if w < before then none else windowAt calls w := by
  rw [windowAt, latest_cons, latest_cons, listedAt, stopAt]
  split <;> rfl

end SinkCall

namespace Database

/-! ## The database after calls -/

/-- The database that a list of calls, latest first, makes of a new one. All must succeed. -/
def after : List SinkCall → Except StorageFault Database
  | [] => .ok .new
  | x :: calls => (after calls).bind fun d => (x.run d).map (·.2)

def isAt (w : Int) (c : Category) (v : StoredValue) : Bool :=
  v.windowStart == w && v.category == c

/-- **The tables of a database are what calls said.** -/
structure Mirrors (calls : List SinkCall) (d : Database) : Prop where
  windows : ∃ ws, d.windows = some ws ∧ Ascending ws ∧
    ∀ w, ws.lookup w = SinkCall.windowAt calls w
  values : ∃ vs, d.values = some vs ∧
    ∀ w c, vs.filter (isAt w c) = (SinkCall.aggregatesAt calls w c).map (record w c)
  nodes : ∃ ns, d.nodes = some ns ∧
    ∀ w, ns.lookup w = (SinkCall.latest (SinkCall.membersAt w) calls).map (keptMembers ·.nodes)

theorem mirrors_new : Mirrors [] new where
  windows := ⟨[], rfl, .nil, fun _ => rfl⟩
  values := ⟨[], rfl, fun _ _ => rfl⟩
  nodes := ⟨[], rfl, fun _ => rfl⟩

/-- What a call must bring so that it can be kept. -/
def Distinct : SinkCall → Prop
  | .metrics _ _ a => (a.aggregate.map GroupValue.key).Nodup
  | _ => True

variable {calls : List SinkCall} {d : Database}

theorem isAt_record (w start : Int) (c k : Category) (g : GroupValue) :
    isAt w c (record start k g) = (start == w && k == c) :=
  rfl

theorem filter_replaced (vs : List StoredValue) (gs : List GroupValue) (w start : Int)
    (c k : Category) :
    (vs.filter (fun v => !(v.windowStart == start && v.category == k)) ++
        gs.map (record start k)).filter (isAt w c) =
      if start = w ∧ k = c then gs.map (record w c) else vs.filter (isAt w c) := by
  rw [List.filter_append, List.filter_filter]
  split
  · rename_i h
    obtain ⟨rfl, rfl⟩ := h
    have hold : (vs.filter fun v => isAt start k v &&
        !(v.windowStart == start && v.category == k)) = [] :=
      List.filter_eq_nil_iff.2 fun v _ => by simp [isAt]
    have hnew : (gs.map (record start k)).filter (isAt start k) = gs.map (record start k) :=
      List.filter_eq_self.2 fun v hv => by
        obtain ⟨g, -, rfl⟩ := List.mem_map.1 hv
        simp [isAt_record]
    rw [hold, hnew, List.nil_append]
  · rename_i h
    have hnew : (gs.map (record start k)).filter (isAt w c) = [] :=
      List.filter_eq_nil_iff.2 fun v hv => by
        obtain ⟨g, -, rfl⟩ := List.mem_map.1 hv
        simpa [isAt_record] using h
    rw [hnew, List.append_nil]
    refine List.filter_congr fun v _ => ?_
    grind [isAt]

theorem Mirrors.metrics (h : Mirrors calls d) (c : Category) (start : Int) (a : Aligned)
    (ha : Distinct (.metrics c start a)) :
    ∃ d', d.writeAggregated c start a = .ok (a.aggregate.length, d') ∧
      Mirrors (.metrics c start a :: calls) d' := by
  obtain ⟨ws, hws, hsorted, hlookup⟩ := h.windows
  obtain ⟨vs, hvs, hfilter⟩ := h.values
  have hdup : hasDuplicate a.aggregate = false := hasDuplicate_eq_false.2 ha
  refine ⟨_, by rw [writeAggregated, hws, hvs, hdup]; rfl, ?_, ?_, ?_⟩
  · refine ⟨_, rfl, hsorted.touch .., fun w => ?_⟩
    rw [lookup_touch hsorted, SinkCall.windowAt_metrics, hlookup]
    simp only [eq_comm, Option.some_or]
  · refine ⟨_, rfl, fun w k => ?_⟩
    rw [filter_replaced, hfilter, SinkCall.aggregatesAt, SinkCall.aggregatesAt,
      SinkCall.latest_cons, SinkCall.metricsAt]
    split <;> rfl
  · obtain ⟨ns, hns, hmembers⟩ := h.nodes
    exact ⟨ns, hns, hmembers⟩

theorem Mirrors.members (h : Mirrors calls d) (start : Int) (t : Topology) :
    ∃ d', d.writeTopology start t = .ok (t.nodes.length, d') ∧
      Mirrors (.members start t :: calls) d' := by
  obtain ⟨ws, hws, hsorted, hlookup⟩ := h.windows
  obtain ⟨ns, hns, hmembers⟩ := h.nodes
  refine ⟨_, by rw [writeTopology, hws, hns]; rfl, ?_, ?_, ?_⟩
  · refine ⟨_, rfl, hsorted.touch .., fun w => ?_⟩
    rw [lookup_touch hsorted, SinkCall.windowAt_members, hlookup]
    simp only [eq_comm, Option.none_or]
  · obtain ⟨vs, hvs, hfilter⟩ := h.values
    exact ⟨vs, hvs, hfilter⟩
  · refine ⟨_, rfl, fun w => ?_⟩
    have hothers : (ns.filter (·.1 != start)).lookup w = if (w != start) then ns.lookup w else none :=
      Keyed.lookup_filter (· != start) ns w
    rw [List.lookup_append, hothers, SinkCall.latest_cons, SinkCall.membersAt, Keyed.lookup_cons]
    by_cases hw : start = w
    · simp [hw, keptMembers]
    · simp [hw, Ne.symm hw, hmembers]

theorem Mirrors.purge (h : Mirrors calls d) (before : Int) :
    ∃ n d', d.purgeBefore before = .ok (n, d') ∧ Mirrors (.purge before :: calls) d' := by
  obtain ⟨ws, hws, hsorted, hlookup⟩ := h.windows
  obtain ⟨vs, hvs, hfilter⟩ := h.values
  obtain ⟨ns, hns, hmembers⟩ := h.nodes
  refine ⟨_, _, by rw [purgeBefore, hws, hvs, hns]; rfl, ?_, ?_, ?_⟩
  · refine ⟨_, rfl, hsorted.filter _, fun w => ?_⟩
    rw [Keyed.lookup_filter (fun k => decide (before ≤ k)), SinkCall.windowAt_purge, hlookup]
    grind
  · refine ⟨_, rfl, fun w c => ?_⟩
    rw [List.filter_filter, SinkCall.aggregatesAt, SinkCall.latest_cons, SinkCall.metricsAt]
    split
    · rename_i hw
      refine List.filter_eq_nil_iff.2 fun v _ => ?_
      grind [isAt]
    · rename_i hw
      refine Eq.trans (List.filter_congr fun v _ => ?_) (hfilter w c)
      grind [isAt]
  · refine ⟨_, rfl, fun w => ?_⟩
    rw [Keyed.lookup_filter (fun k => decide (before ≤ k)), SinkCall.latest_cons, SinkCall.membersAt,
      hmembers]
    grind

/-- A call that can be kept succeeds, and the tables say the same as before but for what it says. -/
theorem Mirrors.step (h : Mirrors calls d) {x : SinkCall} (hx : Distinct x) :
    ∃ n d', x.run d = .ok (n, d') ∧ Mirrors (x :: calls) d' := by
  cases x with
  | metrics c start a =>
    obtain ⟨d', hrun, h'⟩ := h.metrics c start a hx
    exact ⟨_, d', hrun, h'⟩
  | members start t =>
    obtain ⟨d', hrun, h'⟩ := h.members start t
    exact ⟨_, d', hrun, h'⟩
  | purge before => exact h.purge before

theorem Mirrors.distinct_of_run (h : Mirrors calls d) {x : SinkCall} {n : Nat} {d' : Database}
    (hrun : x.run d = .ok (n, d')) : Distinct x := by
  cases x with
  | metrics c start a =>
    obtain ⟨ws, hws, -⟩ := h.windows
    obtain ⟨vs, hvs, -⟩ := h.values
    refine hasDuplicate_eq_false.1 ?_
    rw [SinkCall.run, writeAggregated, hws, hvs] at hrun
    cases hdup : hasDuplicate a.aggregate with
    | false => rfl
    | true =>
      rw [hdup] at hrun
      cases hrun
  | members start t => trivial
  | purge before => trivial

theorem after_cons (h : after calls = .ok d) (x : SinkCall) :
    after (x :: calls) = (x.run d).map (·.2) := by
  rw [after, h]
  rfl

theorem exists_of_after_cons {x : SinkCall} {d' : Database} (h : after (x :: calls) = .ok d') :
    ∃ d n, after calls = .ok d ∧ x.run d = .ok (n, d') := by
  cases hd : after calls with
  | error e =>
    rw [after, hd] at h
    cases h
  | ok d =>
    rw [after_cons hd] at h
    cases hrun : x.run d with
    | error e =>
      rw [hrun] at h
      cases h
    | ok r =>
      rw [hrun] at h
      cases h
      exact ⟨d, r.1, rfl, hrun⟩

/-- **The database after any calls that succeeded is what they said.** -/
theorem mirrors_after (h : after calls = .ok d) :
    Mirrors calls d ∧ ∀ x ∈ calls, Distinct x := by
  induction calls generalizing d with
  | nil =>
    cases h
    exact ⟨mirrors_new, fun x hx => by cases hx⟩
  | cons x calls ih =>
    obtain ⟨d₀, n, hbefore, hrun⟩ := exists_of_after_cons h
    obtain ⟨hmirrors, hdistinct⟩ := ih hbefore
    have hx : Distinct x := hmirrors.distinct_of_run hrun
    obtain ⟨n', d', hrun', h'⟩ := hmirrors.step hx
    rw [hrun] at hrun'
    cases hrun'
    exact ⟨h', List.forall_mem_cons.2 ⟨hx, hdistinct⟩⟩

/-- **Calls without two aggregates of one key all succeed.** -/
theorem after_eq_ok (h : ∀ x ∈ calls, Distinct x) : ∃ d, after calls = .ok d := by
  induction calls with
  | nil => exact ⟨new, rfl⟩
  | cons x calls ih =>
    obtain ⟨d, hd⟩ := ih fun y hy => h y (List.mem_cons_of_mem x hy)
    obtain ⟨n, d', hrun, -⟩ := (mirrors_after hd).1.step (h x List.mem_cons_self)
    exact ⟨d', by rw [after_cons hd, hrun]; rfl⟩

end Database

end WindowAlign
