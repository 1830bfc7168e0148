import WindowAlign.Proofs.Reader.Emission
import WindowAlign.Proofs.Reader.Reports
import WindowAlign.Proofs.Store.Blending
import WindowAlign.Proofs.Store.Calls

/-!
# What alignment answers

The left snapshot of a window is the earliest observed one that ends when the window starts or later,
and the right snapshot follows it, observed or not. `AlignmentPolicy.Chooses` says so of every answer
that the search can give, and the search gives that answer and no other where windows ascend
(`AlignmentPolicy.select_eq_iff`). The cutover of a pair is in the window, so the blend never meets an
inverted one, and what comes out of it is the blend of the two projections (`Store.align_exact`).
-/

namespace WindowAlign

/-! ## The search -/

namespace WriterWindow

def Ascending (ws : List WriterWindow) : Prop :=
  ws.Pairwise (·.windowStart < ·.windowStart)

/-- The earliest observed window that ends at `a` or later. -/
structure Leads (ws : List WriterWindow) (a : Int) (w : WriterWindow) : Prop where
  mem : w ∈ ws
  observed : w.observed = true
  late : a ≤ w.stop
  earliest : ∀ v ∈ ws, v.observed = true → a ≤ v.stop → w.windowStart ≤ v.windowStart

/-- The window right after `w`. -/
structure Follows (ws : List WriterWindow) (w v : WriterWindow) : Prop where
  mem : v ∈ ws
  after : w.windowStart < v.windowStart
  closest : ∀ u ∈ ws, w.windowStart < u.windowStart → v.windowStart ≤ u.windowStart

variable {ws : List WriterWindow} {a : Int} {w v u : WriterWindow}

theorem Ascending.eq_of_windowStart (h : Ascending ws) (hv : v ∈ ws) (hu : u ∈ ws)
    (e : v.windowStart = u.windowStart) : v = u := by
  obtain ⟨before, after, rfl⟩ := List.append_of_mem hu
  obtain ⟨-, htail, hcross⟩ := List.pairwise_append.1 h
  rcases List.mem_append.1 hv with hv | hv
  · have := hcross v hv u List.mem_cons_self
    omega
  · rcases List.mem_cons.1 hv with rfl | hv
    · rfl
    · have := (List.pairwise_cons.1 htail).1 v hv
      omega

theorem Leads.unique (h : Ascending ws) (hv : Leads ws a v) (hu : Leads ws a u) : v = u := by
  have h1 := hv.earliest u hu.mem hu.observed hu.late
  have h2 := hu.earliest v hv.mem hv.observed hv.late
  exact h.eq_of_windowStart hv.mem hu.mem (by omega)

theorem Follows.unique (h : Ascending ws) (hv : Follows ws w v) (hu : Follows ws w u) : v = u := by
  have h1 := hv.closest u hu.mem hu.after
  have h2 := hu.closest v hv.mem hv.after
  exact h.eq_of_windowStart hv.mem hu.mem (by omega)

theorem canBeLeft_iff : AlignmentPolicy.canBeLeft a w = true ↔ w.observed = true ∧ a ≤ w.stop := by
  simp [AlignmentPolicy.canBeLeft]

theorem dropWhile_eq_nil : (ws.dropWhile fun w => !AlignmentPolicy.canBeLeft a w) = [] ↔
    ∀ v ∈ ws, v.observed = true → v.stop < a := by
  induction ws with
  | nil => simp
  | cons w ws ih =>
    rw [List.dropWhile_cons, List.forall_mem_cons]
    cases hw : AlignmentPolicy.canBeLeft a w with
    | true =>
      obtain ⟨hobserved, hlate⟩ := canBeLeft_iff.1 hw
      refine ⟨fun h => by simp at h, fun ⟨h, _⟩ => ?_⟩
      have := h hobserved
      omega
    | false =>
      have hearly : w.observed = true → w.stop < a := fun hobserved => by
        by_contra hlate
        have := canBeLeft_iff.2 ⟨hobserved, Int.not_lt.1 hlate⟩
        rw [hw] at this
        cases this
      exact ih.trans (and_iff_right hearly).symm

/-- A window that starts earlier has no say in what leads once it was passed over. -/
theorem Leads.cons (h : Leads ws a v) (hw : AlignmentPolicy.canBeLeft a w = false) :
    Leads (w :: ws) a v := by
  refine ⟨List.mem_cons_of_mem _ h.mem, h.observed, h.late, fun u hu hobserved hlate => ?_⟩
  rcases List.mem_cons.1 hu with rfl | hu
  · rw [canBeLeft_iff.2 ⟨hobserved, hlate⟩] at hw
    cases hw
  · exact h.earliest u hu hobserved hlate

theorem follows_cons_iff (h : w.windowStart < u.windowStart) :
    Follows (w :: ws) u v ↔ Follows ws u v := by
  constructor
  · intro hf
    refine ⟨?_, hf.after, fun x hx => hf.closest x (List.mem_cons_of_mem _ hx)⟩
    rcases List.mem_cons.1 hf.mem with rfl | hv
    · have := hf.after
      omega
    · exact hv
  · intro hf
    refine ⟨List.mem_cons_of_mem _ hf.mem, hf.after, fun x hx hlt => ?_⟩
    rcases List.mem_cons.1 hx with rfl | hx
    · omega
    · exact hf.closest x hx hlt

theorem leads_head (h : Ascending (w :: ws)) (hw : AlignmentPolicy.canBeLeft a w = true) :
    Leads (w :: ws) a w := by
  obtain ⟨hobserved, hlate⟩ := canBeLeft_iff.1 hw
  refine ⟨List.mem_cons_self, hobserved, hlate, fun v hv _ _ => ?_⟩
  rcases List.mem_cons.1 hv with rfl | hv
  · exact Int.le_refl _
  · exact Int.le_of_lt ((List.pairwise_cons.1 h).1 v hv)

/-- The second of ascending windows follows the first. -/
theorem head?_eq_some_iff (h : Ascending (w :: ws)) :
    ws.head? = some v ↔ Follows (w :: ws) w v := by
  obtain ⟨hfirst, hws⟩ := List.pairwise_cons.1 h
  cases ws with
  | nil =>
    refine ⟨fun hv => by simp at hv, fun hf => ?_⟩
    have hsame := List.mem_singleton.1 hf.mem
    exact absurd (hsame ▸ hf.after) (Int.lt_irrefl _)
  | cons u rest =>
    have hnext : Follows (w :: u :: rest) w u := by
      refine ⟨by simp, hfirst u (by simp), fun x hx hlt => ?_⟩
      rcases List.mem_cons.1 hx with rfl | hx
      · omega
      rcases List.mem_cons.1 hx with rfl | hx
      · exact Int.le_refl _
      · exact Int.le_of_lt ((List.pairwise_cons.1 hws).1 x hx)
    rw [List.head?_cons, Option.some_inj]
    exact ⟨fun e => e ▸ hnext, fun hf => hnext.unique h hf⟩

/-- **What the search finds leads, and what comes after it follows.** -/
theorem leads_of_dropWhile (h : Ascending ws) {left : WriterWindow} {rest : List WriterWindow}
    (hdrop : (ws.dropWhile fun w => !AlignmentPolicy.canBeLeft a w) = left :: rest) :
    Leads ws a left ∧ ∀ v, rest.head? = some v ↔ Follows ws left v := by
  induction ws with
  | nil => cases hdrop
  | cons w ws ih =>
    obtain ⟨hfirst, hws⟩ := List.pairwise_cons.1 h
    rw [List.dropWhile_cons] at hdrop
    cases hw : AlignmentPolicy.canBeLeft a w with
    | true =>
      rw [hw] at hdrop
      cases hdrop
      exact ⟨leads_head h hw, fun v => head?_eq_some_iff h⟩
    | false =>
      rw [hw] at hdrop
      obtain ⟨hleads, hnext⟩ := ih hws hdrop
      have hlt := hfirst left hleads.mem
      exact ⟨hleads.cons hw, fun v => (hnext v).trans (follows_cons_iff hlt).symm⟩

theorem Leads.exists_dropWhile (h : Ascending ws) (hw : Leads ws a w) :
    ∃ rest, (ws.dropWhile fun w => !AlignmentPolicy.canBeLeft a w) = w :: rest ∧
      ∀ v, rest.head? = some v ↔ Follows ws w v := by
  cases hdrop : ws.dropWhile fun w => !AlignmentPolicy.canBeLeft a w with
  | nil =>
    have := dropWhile_eq_nil.1 hdrop w hw.mem hw.observed
    have := hw.late
    omega
  | cons left rest =>
    obtain ⟨hleads, hnext⟩ := leads_of_dropWhile h hdrop
    obtain rfl := hleads.unique h hw
    exact ⟨rest, rfl, hnext⟩

end WriterWindow

namespace AlignmentPolicy

open WriterWindow

/-- The choice of snapshots for a window, where a right snapshot that ends at `t` is good up to the time
`reach t`. For the documented policy that is the end with the tolerance added. -/
inductive Chooses (depth : Nat) (reach : Int → Int) (ws : List WriterWindow) (w : Window) :
    Except Skip Selection → Prop where
  | insufficientHistory (short : ws.length < depth) :
      Chooses depth reach ws w (.error (.insufficientHistory ws.length depth))
  | noSnapshotAfterStart (deep : depth ≤ ws.length)
      (early : ∀ v ∈ ws, v.observed = true → v.stop < w.start) :
      Chooses depth reach ws w (.error .noSnapshotAfterStart)
  | left {left : WriterWindow} (deep : depth ≤ ws.length) (leads : Leads ws w.start left)
      (past : w.stop < left.stop) : Chooses depth reach ws w (.ok (.left left))
  | rightNotReady {left : WriterWindow} (deep : depth ≤ ws.length)
      (leads : Leads ws w.start left) (within : left.stop ≤ w.stop)
      (last : ∀ v, ¬ Follows ws left v) : Chooses depth reach ws w (.error .rightNotReady)
  | staleRight {left right : WriterWindow} (deep : depth ≤ ws.length)
      (leads : Leads ws w.start left) (within : left.stop ≤ w.stop)
      (follows : Follows ws left right) (stale : reach right.stop < w.stop) :
      Chooses depth reach ws w (.error (.staleRight right.stop w.stop))
  | straddle {left right : WriterWindow} (deep : depth ≤ ws.length)
      (leads : Leads ws w.start left) (within : left.stop ≤ w.stop)
      (follows : Follows ws left right) (ready : w.stop ≤ reach right.stop) :
      Chooses depth reach ws w (.ok (.straddle left right))

variable {depth : Nat} {tolerance : Int} {reach reach' : Int → Int} {ws : List WriterWindow}
  {w : Window} {answer : Except Skip Selection}

/-- Choices differ only over whether the right snapshot is stale. -/
theorem Chooses.congr (h : ∀ left right, depth ≤ ws.length → Leads ws w.start left →
      left.stop ≤ w.stop → Follows ws left right →
        (reach right.stop < w.stop ↔ reach' right.stop < w.stop))
    (ha : Chooses depth reach ws w answer) : Chooses depth reach' ws w answer := by
  cases ha with
  | insufficientHistory short => exact .insufficientHistory short
  | noSnapshotAfterStart deep early => exact .noSnapshotAfterStart deep early
  | left deep leads past => exact .left deep leads past
  | rightNotReady deep leads within last => exact .rightNotReady deep leads within last
  | staleRight deep leads within follows stale =>
    exact .staleRight deep leads within follows ((h _ _ deep leads within follows).1 stale)
  | straddle deep leads within follows ready =>
    refine .straddle deep leads within follows (Int.not_lt.1 fun hstale => ?_)
    exact Int.not_lt.2 ready ((h _ _ deep leads within follows).2 hstale)

/-- Where there is a pair of snapshots, a choice is stale as far as it reaches says. -/
theorem Chooses.stale_iff (ha : Ascending ws) {left right : WriterWindow} (deep : depth ≤ ws.length)
    (leads : Leads ws w.start left) (within : left.stop ≤ w.stop) (follows : Follows ws left right) :
    Chooses depth reach ws w (.error (.staleRight right.stop w.stop)) ↔ reach right.stop < w.stop := by
  refine ⟨fun h => ?_, .staleRight deep leads within follows⟩
  generalize he : Except.error (Skip.staleRight right.stop w.stop) = answer at h
  cases h with
  | staleRight _ leads' _ follows' stale =>
    obtain rfl := leads.unique ha leads'
    obtain rfl := follows.unique ha follows'
    exact stale
  | _ => cases he

/-- **Choices agree exactly where they find the same right snapshots stale.** -/
theorem chooses_iff (ha : Ascending ws) :
    (∀ answer, Chooses depth reach ws w answer ↔ Chooses depth reach' ws w answer) ↔
      ∀ left right, depth ≤ ws.length → Leads ws w.start left → left.stop ≤ w.stop →
        Follows ws left right → (reach right.stop < w.stop ↔ reach' right.stop < w.stop) := by
  constructor
  · intro h left right deep leads within follows
    rw [← Chooses.stale_iff ha deep leads within follows, h, Chooses.stale_iff ha deep leads within
      follows]
  · intro h answer
    exact ⟨.congr h, .congr fun left right deep leads within follows =>
      (h left right deep leads within follows).symm⟩

theorem chooses_select (h : Ascending ws) :
    Chooses depth (fun t => Signed64.wrap (t + tolerance)) ws w
      (select ⟨depth, Signed64.wrap tolerance⟩ ws w) := by
  unfold select
  simp only [Signed64.add_wrap]
  split
  · rename_i hshort
    exact .insufficientHistory hshort
  rename_i hdeep
  have hdeep := Nat.le_of_not_lt hdeep
  split
  · rename_i hnone
    exact .noSnapshotAfterStart hdeep (dropWhile_eq_nil.1 hnone)
  · rename_i left rest hdrop
    obtain ⟨hleads, hnext⟩ := leads_of_dropWhile h hdrop
    split
    · rename_i hpast
      exact .left hdeep hleads hpast
    rename_i hwithin
    have hwithin := Int.not_lt.1 hwithin
    cases rest with
    | nil => exact .rightNotReady hdeep hleads hwithin fun v hv => nomatch (hnext v).2 hv
    | cons right rest =>
      have hfollows := (hnext right).1 rfl
      simp only
      split
      · rename_i hstale
        exact .staleRight hdeep hleads hwithin hfollows hstale
      · rename_i hready
        exact .straddle hdeep hleads hwithin hfollows (Int.not_lt.1 hready)

/-- The policy leaves no choice. -/
theorem Chooses.select_eq (h : Ascending ws)
    (ha : Chooses depth (fun t => Signed64.wrap (t + tolerance)) ws w answer) :
    select ⟨depth, Signed64.wrap tolerance⟩ ws w = answer := by
  unfold select
  simp only [Signed64.add_wrap]
  cases ha with
  | insufficientHistory short => rw [if_pos short]
  | noSnapshotAfterStart deep early =>
    rw [if_neg (Nat.not_lt.2 deep), dropWhile_eq_nil.2 early]
  | left deep leads past =>
    obtain ⟨rest, hdrop, -⟩ := leads.exists_dropWhile h
    rw [if_neg (Nat.not_lt.2 deep), hdrop]
    simp only [if_pos past]
  | rightNotReady deep leads within last =>
    obtain ⟨rest, hdrop, hnext⟩ := leads.exists_dropWhile h
    rw [if_neg (Nat.not_lt.2 deep), hdrop]
    simp only [if_neg (Int.not_lt.2 within)]
    cases rest with
    | nil => rfl
    | cons right rest => exact absurd ((hnext right).1 rfl) (last right)
  | staleRight deep leads within follows stale =>
    obtain ⟨rest, hdrop, hnext⟩ := leads.exists_dropWhile h
    obtain ⟨rest, rfl⟩ := List.head?_eq_some_iff.1 ((hnext _).2 follows)
    rw [if_neg (Nat.not_lt.2 deep), hdrop]
    simp only [if_neg (Int.not_lt.2 within), if_pos stale]
  | straddle deep leads within follows ready =>
    obtain ⟨rest, hdrop, hnext⟩ := leads.exists_dropWhile h
    obtain ⟨rest, rfl⟩ := List.head?_eq_some_iff.1 ((hnext _).2 follows)
    rw [if_neg (Nat.not_lt.2 deep), hdrop]
    simp only [if_neg (Int.not_lt.2 within), if_neg (Int.not_lt.2 ready)]

/-- **The search answers what the policy documents**, but for sums that wrap around. -/
theorem select_eq_iff (h : Ascending ws) : select ⟨depth, Signed64.wrap tolerance⟩ ws w = answer ↔
    Chooses depth (fun t => Signed64.wrap (t + tolerance)) ws w answer :=
  ⟨fun e => e ▸ chooses_select h, fun ha => ha.select_eq h⟩

end AlignmentPolicy

/-! ## The answer -/

namespace Store

open AlignmentPolicy (Chooses)

variable {s : Store} {depth : Nat} {tolerance : Int} {reach : Int → Int} {c : Category} {w : Window}

theorem Keyed.ascending_writerWindows (hs : s.Keyed) (c : Category) :
    WriterWindow.Ascending (s.writerWindows c) :=
  List.pairwise_map.2 (hs c).ascending

/-- What is aligned for a window comes from the snapshots that the policy chooses. The length of the
window has to fit into a word for the blend to be the documented one. -/
inductive Covers (s : Store) (depth : Nat) (reach : Int → Int) (c : Category) (w : Window) :
    Aligned → Prop where
  | alone {left : WriterWindow} {table : Table}
      (chosen : Chooses depth reach (s.writerWindows c) w (.ok (.left left)))
      (projected : s.project c left.windowStart = .ok table) :
      Covers s depth reach c w ⟨c, w, left.stop, left.windowStart, none, table⟩
  | straddle {left right : WriterWindow} {leftTable rightTable table : Table}
      (chosen : Chooses depth reach (s.writerWindows c) w (.ok (.straddle left right)))
      (lower : w.start ≤ left.stop) (upper : left.stop ≤ w.stop)
      (projectedLeft : s.project c left.windowStart = .ok leftTable)
      (projectedRight : s.project c right.windowStart = .ok rightTable)
      (ordered : leftTable.interpolate? rightTable w left.stop = some table)
      (blended : Signed64.fits (w.stop - w.start) = true →
        table.Blended w.start w.stop left.stop leftTable rightTable) :
      Covers s depth reach c w ⟨c, w, left.stop, left.windowStart, some right.windowStart, table⟩

/-- The cutover between two snapshots is in the window, since the left one ends in it. -/
theorem covers_straddle {left right : WriterWindow} {leftTable rightTable : Table}
    (chosen : Chooses depth reach (s.writerWindows c) w (.ok (.straddle left right)))
    (hl : s.project c left.windowStart = .ok leftTable)
    (hr : s.project c right.windowStart = .ok rightTable) :
    s.Covers depth reach c w ⟨c, w, left.stop, left.windowStart, some right.windowStart,
      leftTable.interpolate rightTable w left.stop⟩ := by
  obtain ⟨hlower, hupper⟩ : w.start ≤ left.stop ∧ left.stop ≤ w.stop := by
    cases chosen with
    | straddle deep leads within => exact ⟨leads.late, within⟩
  obtain ⟨hshaped, -, hmetrics⟩ := Schema.shaped_of_project hl
  obtain ⟨hshaped', -, hmetrics'⟩ := Schema.shaped_of_project hr
  have hordered : ¬ w.stop < w.start := by omega
  refine .straddle chosen hlower hupper hl hr (if_neg hordered) ?_
  exact Table.interpolate_blended hshaped hshaped' (hmetrics'.trans hmetrics.symm) hlower hupper

/-- What is aligned is a table of the metrics of its category, whatever the weights are. -/
theorem Covers.shaped {a : Aligned} (h : s.Covers depth reach c w a) :
    a.table.Shaped ∧ a.table.metrics = c.schema.projectedMetrics := by
  cases h with
  | alone chosen projected =>
    obtain ⟨hshaped, -, hmetrics⟩ := Schema.shaped_of_project projected
    exact ⟨hshaped, hmetrics⟩
  | straddle chosen lower upper projectedLeft projectedRight ordered blended =>
    obtain ⟨hshaped, -, hmetrics⟩ := Schema.shaped_of_project projectedLeft
    obtain ⟨hshaped', -, hmetrics'⟩ := Schema.shaped_of_project projectedRight
    unfold Table.interpolate? at ordered
    rw [if_neg (by omega), Option.some_inj] at ordered
    subst ordered
    exact ⟨hshaped.interpolate hshaped' (hmetrics'.trans hmetrics.symm) w _, hmetrics⟩

theorem Keyed.align_cases (hs : s.Keyed) {selection : Selection}
    (hchosen : Chooses depth (fun t => Signed64.wrap (t + tolerance)) (s.writerWindows c) w
      (.ok selection)) :
    (∃ a, s.align ⟨depth, Signed64.wrap tolerance⟩ c w = .ok (.ok a) ∧
      s.Covers depth (fun t => Signed64.wrap (t + tolerance)) c w a) ∨
      ∃ e, s.align ⟨depth, Signed64.wrap tolerance⟩ c w = .error e ∧
        ∃ v ∈ selection.windows, s.project c v.windowStart = .error e := by
  have hselect := hchosen.select_eq (hs.ascending_writerWindows c)
  cases selection with
  | left left =>
    rw [align_of_left hselect]
    cases hl : s.project c left.windowStart with
    | error e => exact .inr ⟨e, rfl, left, by simp [Selection.windows], hl⟩
    | ok table => exact .inl ⟨_, rfl, .alone hchosen hl⟩
  | straddle left right =>
    rw [align_of_straddle hselect]
    cases hl : s.project c left.windowStart with
    | error e => exact .inr ⟨e, rfl, left, by simp [Selection.windows], hl⟩
    | ok leftTable =>
      cases hr : s.project c right.windowStart with
      | error e => exact .inr ⟨e, rfl, right, by simp [Selection.windows], hr⟩
      | ok rightTable => exact .inl ⟨_, rfl, covers_straddle hchosen hl hr⟩

/-- **What alignment does, for every store and every configured tolerance.** It skips a category exactly
where the policy does, with sums that wrap around, and fails only where a snapshot that it chooses
cannot be projected. Otherwise it answers the projection of the left snapshot or the blend of the two,
in which the clamp of the cutover has nothing to do, and every row of the answer has a value for each
metric. The choice is the documented one exactly if no right snapshot is stale only for the wrapped
sum, or only for the true one. -/
theorem align_exact (interval : Int) (calls : List Call) (depth : Nat) (tolerance : Int) (c : Category)
    (w : Window) :
    let s := after interval calls
    let ws := s.writerWindows c
    let answer := s.align ⟨depth, Signed64.wrap tolerance⟩ c w
    let reach := fun t => Signed64.wrap (t + tolerance)
    (∀ reason, answer = .ok (.error reason) ↔ Chooses depth reach ws w (.error reason)) ∧
    (∀ a, answer = .ok (.ok a) → s.Covers depth reach c w a ∧ a.table.Shaped ∧
      a.table.metrics = c.schema.projectedMetrics) ∧
    (∀ e, answer = .error e → ∃ chosen, Chooses depth reach ws w (.ok chosen) ∧
      ∃ v ∈ chosen.windows, s.project c v.windowStart = .error e) ∧
    ((∀ choice, Chooses depth reach ws w choice ↔ Chooses depth (· + tolerance) ws w choice) ↔
      ∀ left right, depth ≤ ws.length → WriterWindow.Leads ws w.start left → left.stop ≤ w.stop →
        WriterWindow.Follows ws left right →
          (reach right.stop < w.stop ↔ right.stop + tolerance < w.stop)) := by
  intro s ws answer reach
  have hs : s.Keyed := keyed_after interval calls
  have hasc := hs.ascending_writerWindows c
  have hchosen : Chooses depth reach ws w _ := AlignmentPolicy.chooses_select hasc
  refine ⟨fun reason => ?_, and_assoc.1 ⟨?_, AlignmentPolicy.chooses_iff hasc⟩⟩
  · show s.align _ c w = _ ↔ _
    rw [align_eq_skip, AlignmentPolicy.select_eq_iff hasc]
  cases hselect : AlignmentPolicy.select ⟨depth, Signed64.wrap tolerance⟩ (s.writerWindows c) w with
  | error reason =>
    -- nothing was chosen, so there is nothing to project
    have halign := align_eq_skip.2 hselect
    exact ⟨fun a ha => (nomatch halign.symm.trans ha), fun e he => (nomatch halign.symm.trans he)⟩
  | ok selection =>
    rw [hselect] at hchosen
    rcases hs.align_cases hchosen with ⟨a, halign, hcovers⟩ | ⟨e, halign, hfails⟩
    · refine ⟨fun b hb => ?_, fun e he => (nomatch halign.symm.trans he)⟩
      cases halign.symm.trans hb
      exact ⟨hcovers, hcovers.shaped⟩
    · refine ⟨fun b hb => (nomatch halign.symm.trans hb), fun f hf => ?_⟩
      cases halign.symm.trans hf
      exact ⟨selection, hchosen, hfails⟩

/-- With the greatest tolerance that a word holds every right snapshot is stale. -/
example : AlignmentPolicy.select ⟨2, Signed64.greatest⟩ [⟨5000, 7000, true⟩, ⟨10000, 12000, true⟩]
    ⟨5000, 10000⟩ = .error (.staleRight 12000 10000) := by decide

/-- The greatest setting is read as minus one: a right snapshot that ends with the window is stale. -/
example : AlignmentPolicy.select ⟨2, Signed64.wrap 18446744073709551615⟩
    [⟨0, 2000, true⟩, ⟨5000, 5000, true⟩] ⟨0, 5000⟩ = .error (.staleRight 5000 5000) := by decide

end Store

end WindowAlign
