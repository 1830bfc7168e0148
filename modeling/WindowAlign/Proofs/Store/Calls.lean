import WindowAlign.Proofs.Store.Effects

/-!
# Calls of the store

A store is what the calls that were made of it leave, from the empty store on: windows that are opened,
rows that are written or refused, rollovers between two snapshots that are kept, and trims. Whatever
the calls, the series of every category stays keyed (`Store.Keyed.run`), a call changes the snapshots
it names and no others (`Store.Call.snapshot?_run`), and the end of a snapshot is the latest time among
the rows that were written since it was created, which `rowsSince` keeps account of.
-/

namespace WindowAlign

/-! ## Latest times -/

theorem latestObserved_append (known : Option Int) (a b : List Row) :
    latestObserved known (a ++ b) = latestObserved (latestObserved known a) b :=
  List.foldl_append

theorem latestObserved_some (t : Int) (rows : List Row) :
    latestObserved (some t) rows = some ((rows.map (·.observedAt)).foldl max t) := by
  induction rows generalizing t with
  | nil => rfl
  | cons row rows ih => exact ih (max t row.observedAt)

theorem latestObserved_none (rows : List Row) :
    latestObserved none rows = (rows.map (·.observedAt)).max? := by
  cases rows with
  | nil => rfl
  | cons row rows =>
    rw [List.map_cons, List.max?_cons']
    exact latestObserved_some row.observedAt rows

/-! ## Snapshots of a series -/

namespace Series

theorem windowStart_of_at? {w : Int} {l : List Snapshot} {n : Snapshot} (h : at? w l = some n) :
    n.windowStart = w := by
  simpa using List.find?_some h

theorem at?_insertSnapshot {n : Snapshot} {l : List Snapshot}
    (h : ∀ m ∈ l, m.windowStart ≠ n.windowStart) (v : Int) :
    at? v (Store.insertSnapshot n l) = if n.windowStart = v then some n else at? v l := by
  induction l with
  | nil => by_cases hv : n.windowStart = v <;> simp [Store.insertSnapshot, at?, hv]
  | cons a l ih =>
    have ha := h a List.mem_cons_self
    have hl := ih fun m hm => h m (List.mem_cons_of_mem _ hm)
    unfold at? at hl ⊢
    unfold Store.insertSnapshot
    split
    · by_cases hv : n.windowStart = v <;> simp [hv]
    · by_cases hv : a.windowStart = v
      · have hn : n.windowStart ≠ v := fun e => ha (hv.trans e.symm)
        simp [hv, hn]
      · rw [List.find?_cons_of_neg (by simpa using hv), List.find?_cons_of_neg (by simpa using hv)]
        exact hl

theorem at?_replaceSnapshot (n : Snapshot) (l : List Snapshot) (v : Int) :
    at? v (Store.replaceSnapshot n l) =
      if n.windowStart = v then (at? v l).map fun _ => n else at? v l := by
  unfold at? Store.replaceSnapshot
  induction l with
  | nil => simp
  | cons a l ih =>
    rw [List.map_cons]
    by_cases ha : a.windowStart = n.windowStart
    · by_cases hv : n.windowStart = v
      · simp [ha, hv]
      · simpa [ha, hv] using ih
    · rw [if_neg ha, List.find?_cons, List.find?_cons]
      by_cases hv : a.windowStart = v
      · have hn : n.windowStart ≠ v := fun e => ha (hv.trans e.symm)
        simp [hv, hn]
      · simpa only [hv, decide_false] using ih

theorem at?_drop {l : List Snapshot} (h : Ascending l) (k : Nat) (v : Int) :
    at? v (l.drop k) = if v ∈ (l.take k).map (·.windowStart) then none else at? v l := by
  have hsplit := List.take_append_drop k l
  rw [← hsplit] at h
  obtain ⟨-, -, hcross⟩ := List.pairwise_append.1 h
  split
  · rename_i hv
    obtain ⟨m, hm, rfl⟩ := List.mem_map.1 hv
    exact at?_eq_none.2 fun n hn => by have := hcross m hm n hn; omega
  · rename_i hv
    have hnone : at? v (l.take k) = none :=
      at?_eq_none.2 fun m hm e => hv (List.mem_map.2 ⟨m, hm, e⟩)
    conv_rhs => rw [← hsplit]
    unfold at? at hnone ⊢
    rw [List.find?_append, hnone, Option.none_or]

theorem windowStart_replaceSnapshot (n : Snapshot) (l : List Snapshot) :
    (Store.replaceSnapshot n l).map (·.windowStart) = l.map (·.windowStart) := by
  unfold Store.replaceSnapshot
  rw [List.map_map]
  refine List.map_congr_left fun m _ => ?_
  rw [Function.comp_apply]
  split
  · rename_i hm; exact hm.symm
  · rfl

theorem Keyed.replaceSnapshot {c : Category} {l : List Snapshot} (h : Keyed c l) {n : Snapshot}
    (hu : c.schema.Unique n.records) (hs : ∀ r ∈ n.records, c.schema.Stored r) :
    Keyed c (Store.replaceSnapshot n l) := by
  have hmem : ∀ m ∈ Store.replaceSnapshot n l, m = n ∨ m ∈ l := by
    intro m hm
    obtain ⟨k, hk, rfl⟩ := List.mem_map.1 hm
    split
    · exact .inl rfl
    · exact .inr hk
  refine ⟨?_, fun m hm => ?_, fun m hm => ?_⟩
  · have := List.pairwise_map.2 h.ascending
    rw [← windowStart_replaceSnapshot n l] at this
    exact List.pairwise_map.1 this
  · rcases hmem m hm with rfl | hm
    · exact hu
    · exact h.unique m hm
  · rcases hmem m hm with rfl | hm
    · exact hs
    · exact h.stored m hm

end Series

/-! ## Records of a store -/

namespace Schema

variable {s : Schema}

theorem mem_insertIfAbsent {r a : Record} {l : List Record} (h : a ∈ s.insertIfAbsent r l) :
    a = r ∨ a ∈ l := by
  induction l with
  | nil => exact .inl (List.mem_singleton.1 h)
  | cons b l ih =>
    rw [insertIfAbsent] at h
    split at h
    · exact .inr h
    · rcases List.mem_cons.1 h with rfl | h
      · exact .inr List.mem_cons_self
      · exact (ih h).imp_right (List.mem_cons_of_mem _)

theorem mem_carry {source target : List Record} {a : Record} (h : a ∈ s.carry source target) :
    a ∈ source ∨ a ∈ target := by
  induction source generalizing target with
  | nil => exact .inr h
  | cons r source ih =>
    rcases ih h with h | h
    · exact .inl (List.mem_cons_of_mem _ h)
    · exact (mem_insertIfAbsent h).imp_left fun e : a = r => e ▸ List.mem_cons_self

theorem Unique.insertIfAbsent {l : List Record} (h : s.Unique l) (r : Record) :
    s.Unique (s.insertIfAbsent r l) := by
  by_cases hr : ∃ a ∈ l, s.identity a = s.identity r
  · obtain ⟨a, ha, e⟩ := hr
    rwa [insertIfAbsent_of_present ha e]
  · have habsent : ∀ a ∈ l, s.identity a ≠ s.identity r := fun a ha e => hr ⟨a, ha, e⟩
    unfold Unique at h ⊢
    rw [insertIfAbsent_of_absent habsent, List.map_append]
    refine List.nodup_append.2 ⟨h, List.nodup_singleton _, fun x hx y hy => ?_⟩
    obtain ⟨a, ha, rfl⟩ := List.mem_map.1 hx
    rw [List.map_singleton, List.mem_singleton] at hy
    exact hy ▸ habsent a ha

theorem Unique.carry {target : List Record} (h : s.Unique target) (source : List Record) :
    s.Unique (s.carry source target) := by
  induction source generalizing target with
  | nil => exact h
  | cons r source ih => exact ih (h.insertIfAbsent r)

variable {c : Category} {r : Record}

theorem Stored.key_not_null (h : c.schema.Stored r) {i : Nat} (hi : i ∈ c.schema.keyColumns) :
    (r.getD i .null).isNull = false := by
  have hk := isKey_of_mem_keyColumns i hi
  cases hc : c.schema.columns[i]? with
  | none => simp [hc] at hk
  | some col =>
    rw [hc, Option.any_some] at hk
    obtain ⟨v, hv, hkeeps⟩ := h.keeps hc
    obtain ⟨t, rfl⟩ := hkeeps.1 hk
    rw [List.getD_eq_getElem?_getD, hv]
    rfl

theorem Stored.lastUpdated_not_null (h : c.schema.Stored r) :
    (c.schema.lastUpdated r).isNull = false := by
  obtain ⟨v, hv, hkeeps⟩ := h.keeps lastUpdatedColumn_eq
  rw [lastUpdated, List.getD_eq_getElem?_getD, hv]
  exact hkeeps.2 rfl

end Schema

/-! ## Table names -/

theorem repr_natCast_injective {m n : Nat} (h : m.repr = n.repr) : m = n := by
  have hdigits := congrArg String.toList h
  rw [Nat.toList_repr, Nat.toList_repr] at hdigits
  rw [← Nat.ofDigitChars_ten_toDigits (n := m), hdigits, Nat.ofDigitChars_ten_toDigits]

theorem repr_ne_minus_append (m n : Nat) : m.repr ≠ "-" ++ n.repr := by
  intro h
  have hchars := congrArg String.toList h
  rw [Nat.toList_repr, String.toList_append] at hchars
  have hminus : '-' ∈ Nat.toDigits 10 m := by
    rw [hchars]
    exact List.mem_append_left _ (by decide)
  exact absurd (Nat.isDigit_of_mem_toDigits (by decide) (by decide) hminus) (by decide)

theorem repr_injective {w v : Int} (h : w.repr = v.repr) : w = v := by
  rw [Int.repr_eq_if, Int.repr_eq_if] at h
  split at h
  · split at h
    · have := repr_natCast_injective h; omega
    · exact absurd h (repr_ne_minus_append _ _)
  · split at h
    · exact absurd h.symm (repr_ne_minus_append _ _)
    · have hchars := congrArg String.toList h
      rw [String.toList_append, String.toList_append] at hchars
      have := repr_natCast_injective (String.toList_inj.1 (List.append_cancel_left hchars))
      omega

theorem Category.name_prefix_injective (c d : Category) :
    c.name.toList.take 9 = d.name.toList.take 9 → c = d := by
  cases c <;> cases d <;> decide

theorem Category.nine_le_length_name (c : Category) : 9 ≤ c.name.toList.length := by
  cases c <;> decide

/-- **No two snapshots share a table.** -/
theorem Snapshot.tableName_injective {c d : Category} {w v : Int}
    (h : tableName c w = tableName d v) : c = d ∧ w = v := by
  have hchars := congrArg String.toList h
  simp only [tableName, String.toList_append, List.append_assoc] at hchars
  have hstart : ∀ (e : Category) (rest : List Char),
      (e.name.toList ++ rest).take 9 = e.name.toList.take 9 := fun e rest =>
    List.take_append_of_le_length e.nine_le_length_name
  have hc : c = d := by
    apply Category.name_prefix_injective
    rw [← hstart c, hchars, hstart]
  subst hc
  have hnumber : (toString w).toList = (toString v).toList :=
    List.append_cancel_left (List.append_cancel_left hchars)
  exact ⟨rfl, repr_injective (String.toList_inj.1 hnumber)⟩

/-! ## Calls -/

namespace Store

/-- A call that changes a store. A rollover is between two snapshots of a category. -/
inductive Call where
  | openWindow (c : Category) (windowStart : Int)
  | write (c : Category) (windowStart : Int) (rows : List Row)
  | rollover (c : Category) (previous current maxAge : Int)
  | trim (c : Category) (depth : Nat)

namespace Call

/-- The store after a call. A rollover needs both of its snapshots. -/
def run (s : Store) : Call → Store
  | openWindow c w => (s.openWindow c w).2
  | write c w rows => (s.write c w rows).2
  | rollover c previous current maxAge =>
    match s.snapshot? c previous, s.snapshot? c current with
    | some p, some n => (s.rollover c p n maxAge).2
    | _, _ => s
  | trim c depth => (s.trim c depth).2

/-- Whether a call is about a window: the one that is opened, written or rolled over into, or one that
is trimmed. -/
def Targets (s : Store) : Call → Category → Int → Prop
  | openWindow c w, d, v => c = d ∧ w = v ∧ s.snapshot? c w = none
  | write c w _, d, v => c = d ∧ w = v
  | rollover c _ current _, d, v => c = d ∧ current = v
  | trim c depth, d, v => c = d ∧ v ∈ (s.trim c depth).1.removed

/-- The rows that a call writes into the snapshot of a window: all of its rows, or none where it is
refused. -/
def wrote (s : Store) (d : Category) (v : Int) : Call → List Row
  | write c w rows =>
    if c = d ∧ w = v then
      match (s.write c w rows).1 with
      | .ok _ => rows
      | .error _ => []
    else []
  | _ => []

end Call

/-- The store after some calls, the latest of which comes first. -/
def after (interval : Int) : List Call → Store
  | [] => .empty interval
  | call :: earlier => call.run (after interval earlier)

/-- The rows that were written into the snapshot of a window since it was created. -/
def rowsSince (interval : Int) (c : Category) (w : Int) : List Call → List Row
  | [] => []
  | call :: earlier =>
    if ((after interval (call :: earlier)).snapshot? c w).isSome then
      rowsSince interval c w earlier ++ call.wrote (after interval earlier) c w
    else []

/-! ## Effects of a call -/

section Effects

variable {s : Store} {c d : Category} {w v : Int}

theorem snapshot?_setSnapshots (s : Store) (c d : Category) (l : List Snapshot) (v : Int) :
    (s.setSnapshots c l).snapshot? d v = if c = d then Series.at? v l else s.snapshot? d v := by
  unfold snapshot?
  by_cases h : c = d
  · subst h; rw [snapshots_setSnapshots_self, if_pos rfl]; rfl
  · rw [snapshots_setSnapshots_of_ne s h, if_neg h]

theorem windowStart_getD (s : Store) (c : Category) (w : Int) :
    ((s.snapshot? c w).getD (.fresh w)).windowStart = w := by
  cases hn : s.snapshot? c w with
  | none => rfl
  | some n => exact Series.windowStart_of_at? hn

theorem openWindow_fst (s : Store) (c : Category) (w : Int) :
    (s.openWindow c w).1.1 = (s.snapshot? c w).getD (.fresh w) := by
  unfold openWindow
  split
  · rename_i n h; rw [h]; rfl
  · rename_i h; rw [h]; rfl

theorem snapshot?_openWindow (s : Store) (c d : Category) (w v : Int) :
    (s.openWindow c w).2.snapshot? d v =
      if c = d ∧ w = v then some ((s.snapshot? c w).getD (.fresh w)) else s.snapshot? d v := by
  unfold openWindow
  split
  · rename_i n h
    split
    · rename_i e; rw [← e.1, ← e.2, h]; rfl
    · rfl
  · rename_i h
    have habsent := Series.at?_eq_none.1 h
    rw [h, snapshot?_setSnapshots, Series.at?_insertSnapshot (n := .fresh w) habsent]
    by_cases hd : c = d
    · subst hd
      by_cases hv : w = v
      · simp [hv, Snapshot.fresh]
      · simp [hv, Snapshot.fresh, snapshot?_eq]
    · simp [hd]

/-- **Rows are written as a whole or refused as a whole.** The snapshot is there in both cases. -/
theorem write_cases (s : Store) (c : Category) (w : Int) {rows : List Row} (h : rows ≠ []) :
    (∃ e, s.write c w rows = (.error e, (s.openWindow c w).2)) ∨
      (∀ row ∈ rows, c.schema.Stored (c.schema.keep row.cells)) ∧
        s.write c w rows = (.ok rows.length, (s.openWindow c w).2.setSnapshots c
          (replaceSnapshot (((s.snapshot? c w).getD (.fresh w)).load c rows)
            ((s.openWindow c w).2.snapshots c))) := by
  have hempty : rows.isEmpty = false := by
    cases rows with
    | nil => exact absurd rfl h
    | cons row rows => rfl
  have hfst := openWindow_fst s c w
  have hstart := windowStart_getD s c w
  unfold write
  rw [if_neg (by rw [hempty]; decide)]
  generalize s.openWindow c w = opened at hfst ⊢
  generalize (s.snapshot? c w).getD (.fresh w) = n at hfst hstart ⊢
  obtain ⟨⟨target, created⟩, s'⟩ := opened
  cases (hfst : target = n)
  simp only
  split
  · exact .inl ⟨_, rfl⟩
  · rename_i records hok
    obtain ⟨rfl, hrows⟩ := Schema.upsertAll_eq_ok hok
    refine .inr ⟨hrows, ?_⟩
    rw [Snapshot.load, hstart]

/-- A call that writes answers with the number of its rows, or with the fault of writing them. -/
theorem write_answer (s : Store) (c : Category) (w : Int) {rows : List Row} (h : rows ≠ []) :
    (s.write c w rows).1 =
      (c.schema.upsertAll (Snapshot.tableName c w) rows ((s.snapshot? c w).getD (.fresh w)).records).map
        fun _ => rows.length := by
  have hempty : rows.isEmpty = false := by simpa using h
  have hfst := openWindow_fst s c w
  unfold write
  rw [hempty, if_neg (by decide)]
  generalize s.openWindow c w = opened at hfst ⊢
  obtain ⟨⟨target, created⟩, s'⟩ := opened
  rw [← hfst]
  dsimp only
  cases c.schema.upsertAll (Snapshot.tableName c w) rows target.records <;> rfl

theorem write_nil (s : Store) (c : Category) (w : Int) : s.write c w [] = (.ok 0, s) :=
  rfl

theorem snapshot?_write_of_ne (s : Store) (rows : List Row) (h : ¬(c = d ∧ w = v)) :
    (s.write c w rows).2.snapshot? d v = s.snapshot? d v := by
  have hopen : (s.openWindow c w).2.snapshot? d v = s.snapshot? d v := by
    rw [snapshot?_openWindow, if_neg h]
  by_cases hrows : rows = []
  · rw [hrows, write_nil]
  rcases write_cases s c w hrows with ⟨e, he⟩ | ⟨-, hok⟩
  · rw [he]; exact hopen
  · rw [hok, snapshot?_setSnapshots, Series.at?_replaceSnapshot, ← hopen]
    by_cases hd : c = d
    · subst hd
      rw [if_pos rfl, Series.load_windowStart, windowStart_getD, if_neg fun e => h ⟨rfl, e⟩]
      rfl
    · rw [if_neg hd]

theorem rollover_cases (s : Store) (c : Category) (p q : Snapshot) (maxAge : Int) :
    (s.rollover c p q maxAge).2 = s ∨
      ∃ n, s.snapshot? c q.windowStart = some n ∧
        (s.rollover c p q maxAge).2 = s.setSnapshots c (replaceSnapshot
          { n with records := c.schema.carry (c.schema.carriable (q.windowStart - maxAge)
              (s.records c p.windowStart)) n.records } (s.snapshots c)) := by
  unfold rollover
  simp only
  split
  · split
    · exact .inl rfl
    · rename_i n hn
      exact .inr ⟨n, hn, rfl⟩
  · exact .inl rfl

theorem snapshot?_rollover (s : Store) (c : Category) (p q : Snapshot) (maxAge : Int)
    (d : Category) (v : Int) :
    (¬(c = d ∧ q.windowStart = v) →
      (s.rollover c p q maxAge).2.snapshot? d v = s.snapshot? d v) ∧
    ((s.rollover c p q maxAge).2.snapshot? d v).map (·.writerEnd) =
      (s.snapshot? d v).map (·.writerEnd) := by
  rcases rollover_cases s c p q maxAge with h | ⟨n, hn, h⟩
  · rw [h]; exact ⟨fun _ => rfl, rfl⟩
  have hstart := Series.windowStart_of_at? hn
  rw [h, snapshot?_setSnapshots, Series.at?_replaceSnapshot]
  simp only [hstart]
  by_cases hd : c = d
  · subst hd
    rw [if_pos rfl]
    by_cases hv : q.windowStart = v
    · subst hv
      rw [if_pos rfl, ← snapshot?_eq, hn]
      exact ⟨fun hne => absurd ⟨rfl, rfl⟩ hne, rfl⟩
    · rw [if_neg hv]
      exact ⟨fun _ => rfl, rfl⟩
  · rw [if_neg hd]
    exact ⟨fun _ => rfl, rfl⟩

theorem Call.run_rollover (s : Store) (c : Category) (previous current maxAge : Int) :
    (Call.rollover c previous current maxAge).run s = s ∨
      ∃ p n, s.snapshot? c current = some n ∧
        (Call.rollover c previous current maxAge).run s = (s.rollover c p n maxAge).2 := by
  cases hp : s.snapshot? c previous with
  | none => left; simp [Call.run, hp]
  | some p =>
    cases hn : s.snapshot? c current with
    | none => left; simp [Call.run, hp, hn]
    | some n => right; exact ⟨p, n, rfl, by simp [Call.run, hp, hn]⟩

theorem snapshot?_trim {s : Store} {c : Category} (h : Series.Ascending (s.snapshots c))
    (depth : Nat) (d : Category) (v : Int) : (s.trim c depth).2.snapshot? d v =
      if c = d ∧ v ∈ (s.trim c depth).1.removed then none else s.snapshot? d v := by
  unfold trim
  simp only
  rw [snapshot?_setSnapshots]
  by_cases hd : c = d
  · subst hd
    rw [if_pos rfl, Series.at?_drop h]
    simp [snapshot?_eq]
  · simp [hd]

end Effects

/-! ## What every call keeps -/

section Keyed

variable {s : Store}

theorem Keyed.openWindow (h : s.Keyed) (c : Category) (w : Int) : (s.openWindow c w).2.Keyed := by
  unfold Store.openWindow
  split
  · exact h
  · rename_i hw
    refine h.setSnapshots ((h c).insertSnapshot (Series.at?_eq_none.1 hw) List.nodup_nil ?_)
    intro r hr
    cases hr

theorem records_eq (s : Store) (c : Category) (w : Int) :
    s.records c w = ((s.snapshot? c w).getD (.fresh w)).records := by
  unfold records
  cases s.snapshot? c w <;> rfl

theorem Keyed.getD (h : s.Keyed) (c : Category) (w : Int) :
    c.schema.Unique ((s.snapshot? c w).getD (.fresh w)).records ∧
      ∀ r ∈ ((s.snapshot? c w).getD (.fresh w)).records, c.schema.Stored r := by
  cases hn : s.snapshot? c w with
  | none => exact ⟨List.nodup_nil, fun r hr => by cases hr⟩
  | some n =>
    have hmem : n ∈ s.snapshots c := List.mem_of_find?_eq_some hn
    exact ⟨(h c).unique n hmem, (h c).stored n hmem⟩

theorem Keyed.write (h : s.Keyed) (c : Category) (w : Int) (rows : List Row) :
    (s.write c w rows).2.Keyed := by
  by_cases hempty : rows = []
  · rw [hempty, write_nil]; exact h
  rcases write_cases s c w hempty with ⟨e, he⟩ | ⟨hrows, hok⟩
  · rw [he]; exact h.openWindow c w
  · rw [hok]
    have hopen := h.openWindow c w
    obtain ⟨hu, hs⟩ := h.getD c w
    exact hopen.setSnapshots ((hopen c).replaceSnapshot (hu.upserts hrows hs)
      (Schema.upserts_stored hrows hs))

theorem Keyed.rollover (h : s.Keyed) (c : Category) (p q : Snapshot) (maxAge : Int) :
    (s.rollover c p q maxAge).2.Keyed := by
  rcases rollover_cases s c p q maxAge with he | ⟨n, hn, he⟩
  · rw [he]; exact h
  · rw [he]
    have hmem : n ∈ s.snapshots c := List.mem_of_find?_eq_some hn
    refine h.setSnapshots ((h c).replaceSnapshot (((h c).unique n hmem).carry _) fun r hr => ?_)
    rcases Schema.mem_carry hr with hr | hr
    · have hold := (Schema.mem_carriable.1 hr).1
      rw [records_eq] at hold
      exact (h.getD c p.windowStart).2 r hold
    · exact (h c).stored n hmem r hr

theorem Keyed.trim (h : s.Keyed) (c : Category) (depth : Nat) : (s.trim c depth).2.Keyed :=
  h.setSnapshots ((h c).drop _)

/-- **Every call keeps the series keyed.** -/
theorem Keyed.run (h : s.Keyed) (call : Call) : (call.run s).Keyed := by
  cases call with
  | openWindow c w => exact h.openWindow c w
  | write c w rows => exact h.write c w rows
  | rollover c previous current maxAge =>
    rcases Call.run_rollover s c previous current maxAge with he | ⟨p, n, -, he⟩
    · rw [he]; exact h
    · rw [he]; exact h.rollover c p n maxAge
  | trim c depth => exact h.trim c depth

theorem keyed_after (interval : Int) (calls : List Call) : (after interval calls).Keyed := by
  induction calls with
  | nil => exact .empty interval
  | cons call earlier ih => exact ih.run call

/-- **A call changes the snapshots that it is about and no others.** -/
theorem Call.snapshot?_run (h : s.Keyed) {call : Call} {d : Category} {v : Int}
    (hother : ¬call.Targets s d v) : (call.run s).snapshot? d v = s.snapshot? d v := by
  cases call with
  | openWindow c w =>
    rw [Call.run, snapshot?_openWindow]
    split
    · rename_i e
      obtain ⟨rfl, rfl⟩ := e
      cases hn : s.snapshot? c w with
      | none => exact absurd ⟨rfl, rfl, hn⟩ hother
      | some n => rfl
    · rfl
  | write c w rows => exact snapshot?_write_of_ne s rows hother
  | rollover c previous current maxAge =>
    rcases Call.run_rollover s c previous current maxAge with he | ⟨p, n, hn, he⟩
    · rw [he]
    · rw [he]
      refine (snapshot?_rollover s c p n maxAge d v).1 fun e => hother ⟨e.1, ?_⟩
      exact (Series.windowStart_of_at? hn).symm.trans e.2
  | trim c depth =>
    rw [Call.run, snapshot?_trim (h c).ascending]
    exact if_neg hother

theorem writerEnd_openWindow {c d : Category} {w v : Int} {n : Snapshot}
    (hn : (s.openWindow c w).2.snapshot? d v = some n) :
    n.writerEnd = (s.snapshot? d v).bind (·.writerEnd) := by
  rw [snapshot?_openWindow] at hn
  split at hn
  · rename_i e
    obtain ⟨rfl, rfl⟩ := e
    cases hn
    cases s.snapshot? c w <;> rfl
  · rw [hn]; rfl

theorem writerEnd_write {c : Category} {w : Int} {rows : List Row} {n : Snapshot}
    (hn : (s.write c w rows).2.snapshot? c w = some n) :
    n.writerEnd = latestObserved ((s.snapshot? c w).bind (·.writerEnd))
      ((Call.write c w rows).wrote s c w) := by
  by_cases hempty : rows = []
  · subst hempty
    rw [write_nil] at hn
    rw [Call.wrote, if_pos ⟨rfl, rfl⟩, write_nil, hn]
    rfl
  rcases write_cases s c w hempty with ⟨e, he⟩ | ⟨-, hok⟩
  · rw [Call.wrote, if_pos ⟨rfl, rfl⟩, he]
    rw [he] at hn
    exact writerEnd_openWindow hn
  · rw [Call.wrote, if_pos ⟨rfl, rfl⟩, hok]
    rw [hok, snapshot?_setSnapshots, if_pos rfl, Series.at?_replaceSnapshot,
      Series.load_windowStart, windowStart_getD, if_pos rfl, ← snapshot?_eq, snapshot?_openWindow,
      if_pos ⟨rfl, rfl⟩] at hn
    cases hn
    cases s.snapshot? c w <;> rfl

/-- **The end of a snapshot moves with the rows that are written into it.** -/
theorem Call.writerEnd_run (h : s.Keyed) (call : Call) {d : Category} {v : Int} {n : Snapshot}
    (hn : (call.run s).snapshot? d v = some n) :
    n.writerEnd = latestObserved ((s.snapshot? d v).bind (·.writerEnd)) (call.wrote s d v) := by
  cases call with
  | openWindow c w => exact writerEnd_openWindow hn
  | write c w rows =>
    by_cases htarget : c = d ∧ w = v
    · obtain ⟨rfl, rfl⟩ := htarget
      exact writerEnd_write hn
    · have hnothing : (Call.write c w rows).wrote s d v = [] := by
        unfold wrote
        split <;> simp_all
      rw [Call.run, snapshot?_write_of_ne s rows htarget] at hn
      rw [hnothing, hn]
      rfl
  | rollover c previous current maxAge =>
    have hsame : ((Call.rollover c previous current maxAge).run s |>.snapshot? d v).map
        (·.writerEnd) = (s.snapshot? d v).map (·.writerEnd) := by
      rcases Call.run_rollover s c previous current maxAge with he | ⟨p, m, -, he⟩
      · rw [he]
      · rw [he]; exact (snapshot?_rollover s c p m maxAge d v).2
    rw [hn] at hsame
    obtain ⟨m, hm, hend⟩ := Option.map_eq_some_iff.1 hsame.symm
    rw [hm]
    exact hend.symm
  | trim c depth =>
    rw [Call.run, snapshot?_trim (h c).ascending] at hn
    split at hn
    · cases hn
    · rw [hn]; rfl

/-! ## Histories of calls -/

theorem rowsSince_of_absent {interval : Int} {c : Category} {w : Int} {calls : List Call}
    (h : (after interval calls).snapshot? c w = none) : rowsSince interval c w calls = [] := by
  cases calls with
  | nil => rfl
  | cons call earlier => rw [rowsSince, h]; rfl

theorem writerEnd_after (interval : Int) (calls : List Call) {c : Category} {w : Int}
    {n : Snapshot} (hn : (after interval calls).snapshot? c w = some n) :
    n.writerEnd = latestObserved none (rowsSince interval c w calls) := by
  induction calls generalizing n with
  | nil => simp [after, snapshot?, Store.empty, snapshots] at hn
  | cons call earlier ih =>
    have hbefore : ((after interval earlier).snapshot? c w).bind (·.writerEnd) =
        latestObserved none (rowsSince interval c w earlier) := by
      cases hm : (after interval earlier).snapshot? c w with
      | none => rw [rowsSince_of_absent hm]; rfl
      | some m => exact ih hm
    have hstep := call.writerEnd_run (keyed_after interval earlier) hn
    rw [rowsSince, hn, Option.isSome_some, if_pos rfl, latestObserved_append, ← hbefore]
    exact hstep

/-- **What any calls leave.** No two records of a snapshot have one identity, and their keys and update
times are there; a snapshot ends with the latest of the rows that were written into it since it was
created, and has no end where there are none; window starts ascend; and one more call leaves every
snapshot alone that it is not about, as every snapshot has a table of its own. -/
theorem after_calls (interval : Int) (calls : List Call) (c : Category) :
    (∀ n ∈ (after interval calls).snapshots c, c.schema.Unique n.records ∧
      ∀ r ∈ n.records, (∀ i ∈ c.schema.keyColumns, (r.getD i .null).isNull = false) ∧
        (c.schema.lastUpdated r).isNull = false) ∧
    (∀ w n, (after interval calls).snapshot? c w = some n →
      (n.writerEnd = none ↔ rowsSince interval c w calls = []) ∧
      n.writerEnd = ((rowsSince interval c w calls).map (·.observedAt)).max?) ∧
    ((after interval calls).windowStarts c).Pairwise (· < ·) ∧
    (∀ (call : Call) (w : Int), ¬call.Targets (after interval calls) c w →
      (call.run (after interval calls)).snapshot? c w = (after interval calls).snapshot? c w) ∧
    ∀ (d : Category) (w v : Int), Snapshot.tableName c w = Snapshot.tableName d v →
      c = d ∧ w = v := by
  have hkeyed := keyed_after interval calls
  refine ⟨fun n hn => ⟨(hkeyed c).unique n hn, fun r hr => ?_⟩, fun w n hn => ?_,
    List.pairwise_map.2 (hkeyed c).ascending, fun call w => Call.snapshot?_run hkeyed,
    fun d w v => Snapshot.tableName_injective⟩
  · have hstored := (hkeyed c).stored n hn r hr
    exact ⟨fun i => hstored.key_not_null, hstored.lastUpdated_not_null⟩
  · have hend := (writerEnd_after interval calls hn).trans (latestObserved_none _)
    rw [hend, List.max?_eq_none_iff, List.map_eq_nil_iff]
    exact ⟨Iff.rfl, rfl⟩

end Keyed

end Store

end WindowAlign
