import WindowAlign.Proofs.Reader.Emission
import WindowAlign.Proofs.Reader.Growth

/-!
# What the sink is asked

The calls that a cycle makes to its sink are fixed by the reader and the bucket before the sink
answers the first of them (`Reader.plan`): a cycle that succeeds makes them all, and one that fails
makes some first ones (`Session.makes_cycle`). That is seen by putting a log in front of the sink
(`SinkPort.logged`). The bucket counts as taken before the first call, so what a sink has refused is
not offered again: neither by a cycle at the same time, which is idle, nor by any later one, which is
about a later window (`History.Fresh.offered_once`).
-/

namespace WindowAlign

/-! ## Logging the calls -/

/-- What a reader asks of a sink. -/
inductive SinkCall where
  | metrics (c : Category) (start : Int) (a : Aligned)
  | members (start : Int) (t : Topology)
  | purge (before : Int)

/-- The start of the reader window that a call is about. -/
def SinkCall.start? : SinkCall → Option Int
  | metrics _ start _ => some start
  | members start _ => some start
  | purge _ => none

/-- A sink with the calls that were made to it. -/
structure Logged (σ : Type) where
  sink : σ
  calls : List SinkCall

/-- An action on the sink whose call is logged, whether or not it succeeds. -/
def Logged.call {σ α : Type} (x : SinkCall) (a : Action σ α) : Action (Logged σ) α := fun k =>
  match a k.sink with
  | .ok y s => .ok y ⟨s, k.calls ++ [x]⟩
  | .error f s => .error f ⟨s, k.calls ++ [x]⟩

def SinkPort.logged {σ : Type} (p : SinkPort σ) : SinkPort (Logged σ) where
  writeAggregated c t a := Logged.call (.metrics c t a) (p.writeAggregated c t a)
  writeTopology t n := Logged.call (.members t n) (p.writeTopology t n)
  purgeBefore t := Logged.call (.purge t) (p.purgeBefore t)

/-! ## The calls of a cycle -/

namespace Reader

/-- The call with which a category is offered for a window, if it has metrics. -/
def offer? (r : Reader) (w : Window) (c : Category) : Option SinkCall :=
  match r.intake.store.align r.policy c w with
  | .ok (.ok aligned) => some (.metrics c w.start aligned)
  | _ => none

/-- The call with which the members of the cluster are offered, if any are known. -/
def memberCalls (r : Reader) (w : Window) : List SinkCall :=
  if r.intake.topology.isEmpty then [] else [.members w.start r.intake.topology]

/-- The call with which the sink is purged, if it does not keep everything. -/
def purgeCalls (r : Reader) (w : Window) : List SinkCall :=
  (r.retention.map fun retention => .purge (w.start - retention)).toList

/-- The calls that follow the dispatch of a bucket. -/
def calls (r : Reader) (w : Window) : List SinkCall :=
  Category.metrics.filterMap (r.offer? w) ++ r.memberCalls w ++ r.purgeCalls w

/-- **The calls of a cycle**, as they are where nothing fails. -/
def plan (r : Reader) (source : Source) (now : Int) : List SinkCall :=
  match r.pickBucket now with
  | none => []
  | some bucket =>
    match Intake.run source (.ofStart bucket r.settings.interval) r.intake with
    | .error _ _ => []
    | .ok _ i =>
      ({ r with intake := i } : Reader).calls (Window.ofStart bucket r.settings.interval).previous

theorem mem_calls_cases {r : Reader} {w : Window} {x : SinkCall} (hx : x ∈ r.calls w) :
    (∃ c a, x = .metrics c w.start a ∧ r.intake.store.align r.policy c w = .ok (.ok a)) ∨
      x = .members w.start r.intake.topology ∨
      ∃ retention, r.retention = some retention ∧ x = .purge (w.start - retention) := by
  rcases List.mem_append.1 hx with hx | hx
  · rcases List.mem_append.1 hx with hx | hx
    · obtain ⟨c, -, hc⟩ := List.mem_filterMap.1 hx
      unfold offer? at hc
      split at hc
      · rename_i a ha
        cases hc
        exact .inl ⟨c, a, rfl, ha⟩
      · cases hc
    · unfold memberCalls at hx
      split at hx
      · cases hx
      · exact .inr (.inl (List.mem_singleton.1 hx))
  · obtain ⟨retention, hr, rfl⟩ := Option.map_eq_some_iff.1 (Option.mem_toList.1 hx)
    exact .inr (.inr ⟨retention, hr, rfl⟩)

theorem start_of_mem_calls {r : Reader} {w : Window} {x : SinkCall} (hx : x ∈ r.calls w) {a : Int}
    (ha : x.start? = some a) : a = w.start := by
  rcases mem_calls_cases hx with ⟨c, aligned, rfl, -⟩ | rfl | ⟨retention, -, rfl⟩
  · exact (Option.some.inj ha).symm
  · exact (Option.some.inj ha).symm
  · cases ha

/-- The calls of a cycle are about the window before the bucket that it takes. -/
theorem exists_of_mem_plan {r : Reader} {source : Source} {now : Int} {x : SinkCall}
    (hx : x ∈ r.plan source now) :
    ∃ w, r.pickBucket now = some w ∧ ∀ a, x.start? = some a → a = w - r.settings.interval := by
  unfold plan at hx
  split at hx
  · cases hx
  rename_i w hpick
  refine ⟨w, hpick, fun a ha => ?_⟩
  split at hx
  · cases hx
  · rw [start_of_mem_calls hx ha, Window.previous_ofStart]

end Reader

/-! ## Actions and their calls -/

namespace Session

variable {σ α β : Type} {s : Session σ}

/-- The session with a log in front of its sink. -/
abbrev logged (s : Session σ) (calls : List SinkCall) : Session (Logged σ) :=
  ⟨s.reader, ⟨s.sink, calls⟩⟩

/-- The action `b` does with a log what `a` does without one, and from `s` on the calls that it logs
are those of the plan, or the first of them if it fails. -/
structure Makes (plan : List SinkCall) (a : Action (Session σ) α)
    (b : Action (Session (Logged σ)) α) (s : Session σ) : Prop where
  ok : ∀ {x s'}, a s = .ok x s' → ∀ calls, b (s.logged calls) = .ok x (s'.logged (calls ++ plan))
  error : ∀ {f s'}, a s = .error f s' → ∀ calls, ∃ made, made <+: plan ∧
    b (s.logged calls) = .error f (s'.logged (calls ++ made))

variable {plan rest : List SinkCall} {a : Action (Session σ) α}
  {b : Action (Session (Logged σ)) α}

theorem Makes.of_ok {x : α} {s' : Session σ} (ha : a s = .ok x s')
    (hb : ∀ calls, b (s.logged calls) = .ok x (s'.logged calls)) : Makes [] a b s where
  ok h calls := by
    cases ha.symm.trans h
    rw [List.append_nil]
    exact hb calls
  error h := nomatch ha.symm.trans h

theorem Makes.of_error {f : Fault} {s' : Session σ} (ha : a s = .error f s')
    (hb : ∀ calls, b (s.logged calls) = .error f (s'.logged calls)) : Makes plan a b s where
  ok h := nomatch ha.symm.trans h
  error h calls := by
    cases ha.symm.trans h
    refine ⟨[], List.nil_prefix, ?_⟩
    rw [List.append_nil]
    exact hb calls

theorem Makes.congr {s' : Session σ} {a' : Action (Session σ) α}
    {b' : Action (Session (Logged σ)) α} (h : Makes plan a' b' s') (ha : a s = a' s')
    (hb : ∀ calls, b (s.logged calls) = b' (s'.logged calls)) : Makes plan a b s where
  ok e calls := (hb calls).trans (h.ok (ha.symm.trans e) calls)
  error e calls := by
    obtain ⟨made, hmade, hfails⟩ := h.error (ha.symm.trans e) calls
    exact ⟨made, hmade, (hb calls).trans hfails⟩

theorem makes_pure (x : α) : Makes [] (pure x) (pure x) s :=
  .of_ok rfl fun _ => rfl

theorem makes_throw (f : Fault) :
    Makes plan (throw f : Action (Session σ) α) (throw f) s :=
  .of_error rfl fun _ => rfl

theorem Makes.bind (ha : Makes plan a b s) {g : α → Action (Session σ) β}
    {k : α → Action (Session (Logged σ)) β}
    (hg : ∀ x s', a s = .ok x s' → Makes rest (g x) (k x) s') :
    Makes (plan ++ rest) (a >>= g) (b >>= k) s := by
  cases e : a s with
  | ok x s' =>
    have hrest := hg x s' e
    refine ⟨fun h calls => ?_, fun h calls => ?_⟩
    · rw [Action.bind_of_ok e] at h
      rw [Action.bind_of_ok (ha.ok e calls), hrest.ok h, List.append_assoc]
    · -- the first action has made all of its calls, the second one some
      rw [Action.bind_of_ok e] at h
      obtain ⟨made, hmade, hk⟩ := hrest.error h (calls ++ plan)
      refine ⟨plan ++ made, (List.prefix_append_right_inj plan).2 hmade, ?_⟩
      rw [Action.bind_of_ok (ha.ok e calls), hk, List.append_assoc]
  | error f s' =>
    refine ⟨fun h => (nomatch (Action.bind_of_error e).symm.trans h), fun h calls => ?_⟩
    rw [Action.bind_of_error e] at h
    cases h
    obtain ⟨made, hmade, hb⟩ := ha.error e calls
    exact ⟨made, hmade.trans (List.prefix_append plan rest), Action.bind_of_error hb⟩

/-- What an action reads it reads of the reader, which is the same with a log. -/
theorem Makes.get_bind {g : Session σ → Action (Session σ) α}
    {k : Session (Logged σ) → Action (Session (Logged σ)) α}
    (h : ∀ calls, Makes plan (g s) (k (s.logged calls)) s) :
    Makes plan (get >>= g) (get >>= k) s where
  ok e calls := (h calls).ok e calls
  error e calls := (h calls).error e calls

theorem makes_onSink (x : SinkCall) (a : Action σ α) :
    Makes [x] (onSink a) (onSink (Logged.call x a)) s := by
  refine ⟨fun h calls => ?_, fun h calls => ⟨[x], List.prefix_refl _, ?_⟩⟩ <;>
  · simp only [onSink, Action.onPart, Logged.call, logged] at h ⊢
    cases e : a s.sink <;> rw [e] at h <;> cases h
    rfl

variable (port : SinkPort σ)

theorem makes_emit (w : Window) (c : Category) :
    Makes (s.reader.offer? w c).toList (emit port w c) (emit port.logged w c) s := by
  refine .get_bind fun calls => ?_
  simp only
  unfold Reader.offer?
  cases s.reader.intake.store.align s.reader.policy c w with
  | error e => exact makes_throw _
  | ok answer =>
    cases answer with
    | error reason => exact makes_pure _
    | ok aligned =>
      exact (makes_onSink (.metrics c w.start aligned) _).bind fun _ _ _ => makes_pure _

theorem makes_emitEach (w : Window) (cs : List Category) :
    Makes (cs.filterMap (s.reader.offer? w)) (emitEach port w cs) (emitEach port.logged w cs) s := by
  induction cs generalizing s with
  | nil => exact makes_pure _
  | cons c cs ih =>
    have hplan : (c :: cs).filterMap (s.reader.offer? w) =
        (s.reader.offer? w c).toList ++ (cs.filterMap (s.reader.offer? w) ++ []) := by
      rw [List.append_nil, List.filterMap_cons]
      cases s.reader.offer? w c <;> rfl
    rw [hplan]
    refine (makes_emit port w c).bind fun outcome s1 h1 => ?_
    rw [← (keeps_emit port w c).eq_of_ok h1]
    exact ih.bind fun _ _ _ => makes_pure _

theorem makes_emitTopology (w : Window) :
    Makes (s.reader.memberCalls w) (emitTopology port w) (emitTopology port.logged w) s := by
  refine .get_bind fun calls => ?_
  simp only
  unfold Reader.memberCalls
  by_cases hempty : s.reader.intake.topology.isEmpty = true
  · simp only [if_pos hempty]
    exact makes_pure _
  · simp only [if_neg hempty]
    exact makes_onSink (.members w.start s.reader.intake.topology) _

theorem makes_purge (w : Window) :
    Makes (s.reader.purgeCalls w) (purge port w) (purge port.logged w) s := by
  refine .get_bind fun calls => ?_
  simp only
  unfold Reader.purgeCalls
  cases s.reader.retention with
  | none => exact makes_pure _
  | some retention =>
    exact (makes_onSink (.purge (w.start - retention)) _).bind fun _ _ _ => makes_pure _

theorem makes_conclude (bucket : Int) (w : Window) (stats : Stats) :
    Makes (s.reader.calls w.previous) (conclude port bucket w stats)
      (conclude port.logged bucket w stats) s := by
  have hplan : s.reader.calls w.previous =
      [] ++ (Category.metrics.filterMap ((s.taken bucket).reader.offer? w.previous) ++
        ((s.taken bucket).reader.memberCalls w.previous ++
          ([] ++ ((s.taken bucket).reader.purgeCalls w.previous ++ [])))) := by
    simp only [List.nil_append, List.append_nil, ← List.append_assoc]
    rfl
  have hmark : Makes [] (markTaken bucket) (markTaken bucket) s := .of_ok rfl fun _ => rfl
  rw [hplan]
  -- each action leaves the next one a reader that plans the same calls, trimming included
  refine hmark.bind fun _ s1 h1 => ?_
  cases h1
  refine (makes_emitEach port w.previous Category.metrics).bind fun outcomes s2 h2 => ?_
  rw [← (keeps_emitEach port w.previous Category.metrics).eq_of_ok h2]
  refine (makes_emitTopology port w.previous).bind fun nodes s3 h3 => ?_
  rw [← (keeps_emitTopology port w.previous).eq_of_ok h3]
  have htrim : trim s3 = .ok s3.reader.trim.1 { s3 with reader := s3.reader.trim.2 } := rfl
  refine (Makes.of_ok htrim fun _ => rfl).bind fun dropped s4 h4 => ?_
  obtain ⟨-, rfl⟩ := EStateM.Result.ok.inj (htrim.symm.trans h4)
  obtain ⟨trimmed, orphaned⟩ := dropped
  rw [show s3.reader.purgeCalls w.previous = s3.reader.trim.2.purgeCalls w.previous from rfl]
  exact (makes_purge (s := { s3 with reader := s3.reader.trim.2 }) port w.previous).bind
    fun _ _ _ => makes_pure _

/-- **A cycle makes the calls of its plan**, all of them if it succeeds and some first ones if it
fails. -/
theorem makes_cycle (source : Source) (now : Int) :
    Makes (s.reader.plan source now) (cycle port source now) (cycle port.logged source now) s := by
  unfold Reader.plan
  cases hpick : s.reader.pickBucket now with
  | none =>
    exact .of_ok (cycle_of_none hpick port source) fun calls =>
      cycle_of_none (s := s.logged calls) hpick port.logged source
  | some w =>
    simp only
    have hcycle := cycle_of_some hpick port source
    have hlogged := fun calls => cycle_of_some (s := s.logged calls) hpick port.logged source
    cases hrun : Intake.run source (.ofStart w s.reader.settings.interval) s.reader.intake with
    | error f i =>
      exact .of_error (hcycle.trans (take_of_error hrun port)) fun calls =>
        (hlogged calls).trans (take_of_error (s := s.logged calls) hrun port.logged)
    | ok stats i =>
      refine (makes_conclude port w (.ofStart w s.reader.settings.interval) stats
        (s := { s with reader := { s.reader with intake := i } })).congr ?_ fun calls => ?_
      · exact hcycle.trans (take_of_ok hrun port)
      · exact (hlogged calls).trans (take_of_ok (s := s.logged calls) hrun port.logged)

end Session

/-! ## Histories -/

namespace History

variable {σ : Type} {settings : ReaderSettings} {h : History σ}

def calls (h : History σ) (j : Nat) : List SinkCall :=
  (h.ticks[j]?).elim [] fun t =>
    ((Session.cycle t.port.logged t.source t.now).outcome ((h.state j).logged [])).2.sink.calls

/-- The calls of a cycle begin its plan, and they are the plan if the cycle succeeds. -/
theorem calls_spec {j : Nat} {t : Tick σ} (ht : h.ticks[j]? = some t) :
    h.calls j <+: (h.reader j).plan t.source t.now ∧
      ((h.answer j).isSome = true → h.calls j = (h.reader j).plan t.source t.now) := by
  have hmakes := Session.makes_cycle (s := h.state j) t.port t.source t.now
  rw [h.answer_eq ht, calls, ht]
  unfold Session.answer Session.step Action.outcome
  simp only [Option.elim_some]
  cases hcycle : Session.cycle t.port t.source t.now (h.state j) with
  | ok report s' =>
    rw [hmakes.ok hcycle []]
    exact ⟨List.prefix_refl _, fun _ => rfl⟩
  | error f s' =>
    obtain ⟨made, hmade, hlogged⟩ := hmakes.error hcycle []
    rw [hlogged]
    exact ⟨hmade, fun hsome => by cases hsome⟩

/-- Once a bucket was dispatched, later cycles make calls about later windows only. -/
theorem Fresh.start_lt_of_dispatched (hf : h.Fresh settings) {j m : Nat} {w : Int}
    {es : List Event} (hd : h.Dispatches j w es) (hjm : j < m) {x : SinkCall} (hx : x ∈ h.calls m)
    {a : Int} (ha : x.start? = some a) : w - settings.interval < a := by
  cases ht : h.ticks[m]? with
  | none =>
    rw [calls, ht] at hx
    cases hx
  | some t =>
    obtain ⟨v, hpick, hstart⟩ := Reader.exists_of_mem_plan ((calls_spec ht).1.subset hx)
    have hlt := hf.dispatched_lt hjm hd ⟨t, ht, hpick⟩
    rw [hstart a ha, (hf.regular m).2]
    omega

/-- **A window is offered by one cycle, whether or not the sink takes it.** Let the cycle `j` take
the bucket `w`, and let its source answer. With a sink that answers it would offer the sink what the
window before `w` comes to. What it does offer is that, or the first part of it if it fails. After it
every cycle at which no later bucket is due is idle and changes nothing, and no later cycle of the
history offers the window again. -/
theorem Fresh.offered_once (hf : h.Fresh settings) {j : Nat} {t : Tick σ}
    (ht : h.ticks[j]? = some t) {w : Int} (hpick : (h.reader j).pickBucket t.now = some w)
    {es : List Event} (hgiven : t.source w = .ok es) :
    (∀ port : SinkPort σ, port.Healthy →
        (∀ c ∈ Category.metrics, (h.reader j).SummableAfter w es c) →
        ∃ report s', Session.cycle port.logged t.source t.now ((h.state j).logged []) =
          .ok report s' ∧ s'.sink.calls = (h.reader j).plan t.source t.now) ∧
      (∀ x ∈ (h.reader j).plan t.source t.now, ∀ a, x.start? = some a →
        a = w - settings.interval) ∧
      h.calls j <+: (h.reader j).plan t.source t.now ∧
      ((h.answer j).isSome = true → h.calls j = (h.reader j).plan t.source t.now) ∧
      (∀ (port : SinkPort σ) source now, (h.reader (j + 1)).due now ≤ w →
        Session.cycle port source now (h.state (j + 1)) = .ok .idle (h.state (j + 1))) ∧
      ∀ m, j < m → ∀ x ∈ h.calls m, ∀ a, x.start? = some a → w - settings.interval < a := by
  have hd : h.Dispatches j w es := ⟨t, ht, hpick, hgiven⟩
  refine ⟨fun port hport hsum => ?_, fun x hx a ha => ?_, (calls_spec ht).1, (calls_spec ht).2,
    fun port source now hdue => ?_, fun m hjm x hx a ha => hf.start_lt_of_dispatched hd hjm hx ha⟩
  · obtain ⟨hok, -⟩ := Session.take_spec (t := ⟨port, t.source, t.now⟩) hport
      (s := h.state j) (hf.regular j).1 hpick hgiven
    obtain ⟨report, s', hcycle, -⟩ := hok hsum
    exact ⟨report, _, (Session.makes_cycle port t.source t.now).ok hcycle [], rfl⟩
  · obtain ⟨v, hpick', hstart⟩ := Reader.exists_of_mem_plan hx
    cases hpick.symm.trans hpick'
    rw [hstart a ha, (hf.regular j).2]
  · refine Session.cycle_of_none ?_ port source
    cases hnext : (h.state (j + 1)).reader.pickBucket now with
    | none => rfl
    | some v =>
      obtain ⟨hv, hlast⟩ := Reader.pickBucket_eq_some.1 hnext
      have hlt := hlast w (hf.dispatched hd).1
      have hle : v ≤ w := hv ▸ hdue
      omega

/-- A sink that takes no metrics. -/
def refusing : SinkPort Unit :=
  { SinkPort.silent with
    writeAggregated := fun _ _ _ => throw (.config (.unavailable "sink")) }

/-- A request that starts and finishes in the bucket 0. -/
def shortRequest : Int → List Event := fun w =>
  if w = 0 then
    [⟨"threads/7/http/search/r1/start", "\x7b\"current_time\":1000\x7d\n"⟩,
      ⟨"threads/7/http/search/r1/finish", "\x7b\"current_time\":1500\x7d\n"⟩]
  else []

/-- The sink refuses the request, the only metrics of the window from 0 on. The cycle fails, and
another one at the same time, with a sink that answers, offers nothing. -/
theorem offered_once_refusedRequest :
    let source : Source := fun w => .ok (shortRequest w)
    let run : History Unit := ⟨(replay shortRequest []).start,
      [⟨.silent, source, 15000⟩, ⟨refusing, source, 20000⟩, ⟨.silent, source, 20000⟩]⟩
    run.answer 1 = none ∧ ((run.reader 1).plan source 20000).length = 1 ∧
      (∃ report s', Session.cycle SinkPort.silent.logged source 20000 ((run.state 1).logged []) =
        .ok report s' ∧ s'.sink.calls = (run.reader 1).plan source 20000) ∧
      Session.cycle .silent source 20000 (run.state 2) = .ok .idle (run.state 2) := by
  intro source run
  have hf : run.Fresh .defaults := .plain rfl
  have hpick : (run.reader 1).pickBucket 20000 = some 5000 := by decide +kernel
  have hnone : (run.answer 1).isNone = true := by decide +kernel
  have hgoes :
      ((Session.cycle SinkPort.silent source 20000).outcome (run.state 1)).1.isOk = true := by
    decide +kernel
  have hsum : ∀ c ∈ Category.metrics, (run.reader 1).SummableAfter 5000 [] c := by
    intro c hc
    by_contra hnot
    obtain ⟨-, herror⟩ := Session.take_spec (t := ⟨.silent, source, 20000⟩)
      SinkPort.silent_healthy (s := run.state 1) (hf.regular 1).1 hpick rfl
    obtain ⟨s', hcycle, -⟩ := herror ⟨c, hc, hnot⟩
    simp only [Action.outcome, hcycle] at hgoes
    cases hgoes
  obtain ⟨hall, -, -, -, hidle, -⟩ := hf.offered_once (j := 1) rfl hpick rfl
  exact ⟨Option.isNone_iff_eq_none.1 hnone, by decide +kernel,
    hall .silent SinkPort.silent_healthy hsum, hidle .silent source 20000 (by decide +kernel)⟩

end History

end WindowAlign
