import WindowAlign.Proofs.Ingest.Verdict

/-!
# Tallies

Counters can be added, and every step of a pass adds to them what does not depend on what was counted
before: an event adds its own count, and a batch adds its rows. So the counters of a pass are the sum
of the counts of its events (`Stats.ofPass`), for any list of categories that have a processor. An
event counts its verdict at the first of them that claims it, and the rows that this one takes from
it, which is its fate (`Event.tally_eq`).
-/

namespace WindowAlign

theorem RejectionKind.exists_index : ∀ k : Fin 5, ∃ kind : RejectionKind, kind.index = k
  | 0 => ⟨missingTimestamp, rfl⟩
  | 1 => ⟨badTimestamp, rfl⟩
  | 2 => ⟨badNumber, rfl⟩
  | 3 => ⟨badPath, rfl⟩
  | 4 => ⟨badTopology, rfl⟩

namespace Stats

variable {s : Stats} {cs : List Category} {w : Window} {e : Event} {es : List Event}

theorem ext_counts {a b : Stats} (he : a.events = b.events) (hw : a.rowsWritten = b.rowsWritten)
    (hc : ∀ c, a.rowsOf c = b.rowsOf c) (hs : a.stale = b.stale)
    (hr : ∀ k, a.rejectionsOf k = b.rejectionsOf k) (hu : a.unclaimed = b.unclaimed) : a = b := by
  have hrows : a.categoryRows = b.categoryRows := Vector.ext fun k hk => by
    obtain ⟨c, hi⟩ := Category.exists_index ⟨k, hk⟩
    obtain rfl : (c.index : Nat) = k := congrArg Fin.val hi
    exact hc c
  have hkinds : a.kindCounts = b.kindCounts := Vector.ext fun k hk => by
    obtain ⟨kind, hi⟩ := RejectionKind.exists_index ⟨k, hk⟩
    obtain rfl : (kind.index : Nat) = k := congrArg Fin.val hi
    exact hr kind
  cases a
  cases b
  simp only at he hw hrows hs hkinds hu
  simp only [he, hw, hrows, hs, hkinds, hu]

/-! ## Adding counters -/

def add (a b : Stats) : Stats where
  events := a.events + b.events
  rowsWritten := a.rowsWritten + b.rowsWritten
  categoryRows := Vector.zipWith (· + ·) a.categoryRows b.categoryRows
  stale := a.stale + b.stale
  kindCounts := Vector.zipWith (· + ·) a.kindCounts b.kindCounts
  unclaimed := a.unclaimed + b.unclaimed

@[simp] theorem events_add (a b : Stats) : (a.add b).events = a.events + b.events := rfl
@[simp] theorem rowsWritten_add (a b : Stats) :
    (a.add b).rowsWritten = a.rowsWritten + b.rowsWritten := rfl
@[simp] theorem stale_add (a b : Stats) : (a.add b).stale = a.stale + b.stale := rfl
@[simp] theorem unclaimed_add (a b : Stats) :
    (a.add b).unclaimed = a.unclaimed + b.unclaimed := rfl

theorem rowsOf_eq (a : Stats) (c : Category) :
    a.rowsOf c = getElem a.categoryRows c.index.val c.index.isLt := rfl

@[simp] theorem rowsOf_add (a b : Stats) (c : Category) :
    (a.add b).rowsOf c = a.rowsOf c + b.rowsOf c := by
  simp [rowsOf_eq, add]

@[simp] theorem rejectionsOf_add (a b : Stats) (k : RejectionKind) :
    (a.add b).rejectionsOf k = a.rejectionsOf k + b.rejectionsOf k := by
  simp [rejectionsOf, add]

@[simp] theorem rowsOf_zero (c : Category) : zero.rowsOf c = 0 := by
  simp [rowsOf_eq, zero]

@[simp] theorem rejectionsOf_zero (k : RejectionKind) : zero.rejectionsOf k = 0 := by
  simp [rejectionsOf, zero]

theorem add_assoc (a b c : Stats) : (a.add b).add c = a.add (b.add c) := by
  apply ext_counts <;> simp [Nat.add_assoc]

theorem add_comm (a b : Stats) : a.add b = b.add a := by
  apply ext_counts <;> simp [Nat.add_comm]

theorem add_right_comm (a b c : Stats) : (a.add b).add c = (a.add c).add b := by
  rw [add_assoc, add_comm b, ← add_assoc]

theorem zero_add (a : Stats) : zero.add a = a := by
  apply ext_counts
  case hc => intro c; rw [rowsOf_add, rowsOf_zero, Nat.zero_add]
  case hr => intro k; rw [rejectionsOf_add, rejectionsOf_zero, Nat.zero_add]
  all_goals exact Nat.zero_add _

theorem add_zero (a : Stats) : a.add zero = a := by
  apply ext_counts
  case hc => intro c; rw [rowsOf_add, rowsOf_zero, Nat.add_zero]
  case hr => intro k; rw [rejectionsOf_add, rejectionsOf_zero, Nat.add_zero]
  all_goals rfl

/-! ## What the steps of a pass add -/

theorem rowsOf_addWritten (s : Stats) (c d : Category) (rows : Nat) :
    (s.addWritten c rows).rowsOf d = s.rowsOf d + if c = d then rows else 0 := by
  unfold addWritten
  simp only [rowsOf_eq]
  by_cases h : c = d
  · subst h
    simp
  · have hne : (c.index : Nat) ≠ d.index := fun e => h (Category.index_injective (Fin.ext e))
    simp [h, hne]

theorem addUnclaimed_add (a b : Stats) : (a.add b).addUnclaimed = a.add b.addUnclaimed := rfl

theorem addWritten_add (a b : Stats) (c : Category) (rows : Nat) :
    (a.add b).addWritten c rows = a.add (b.addWritten c rows) := by
  apply ext_counts
  case hc =>
    intro d
    rw [rowsOf_addWritten, rowsOf_add, rowsOf_add, rowsOf_addWritten, Nat.add_assoc]
  case hw => exact Nat.add_assoc ..
  all_goals intros; rfl

theorem addVerdict_add (a b : Stats) (v : Verdict) :
    (a.add b).addVerdict v = a.add (b.addVerdict v) := by
  cases v with
  | buffered rows => rfl
  | stale t => rfl
  | rejected cause =>
    apply ext_counts
    case hr =>
      intro k
      rw [rejectionsOf_add, rejectionsOf_addVerdict, rejectionsOf_addVerdict, rejectionsOf_add]
      split <;> rfl
    all_goals intros; rfl

theorem addWritten_eq (s : Stats) (c : Category) (rows : Nat) :
    s.addWritten c rows = s.add (zero.addWritten c rows) := by
  rw [← addWritten_add, add_zero]

theorem addWritten_zero (s : Stats) (c : Category) : s.addWritten c 0 = s := by
  apply ext_counts
  case hc => intro d; rw [rowsOf_addWritten, ite_self, Nat.add_zero]
  all_goals intros; rfl

theorem addWritten_addWritten (s : Stats) (c : Category) (m n : Nat) :
    (s.addWritten c m).addWritten c n = s.addWritten c (m + n) := by
  apply ext_counts
  case hc =>
    intro d
    rw [rowsOf_addWritten, rowsOf_addWritten, rowsOf_addWritten]
    split <;> omega
  case hw => exact Nat.add_assoc ..
  all_goals intros; rfl

end Stats

/-! ## The counts of events -/

/-- What an event counts in a pass over a window, by processors of some categories. -/
def Event.tally (cs : List Category) (w : Window) (e : Event) : Stats :=
  match cs.find? (·.claims e.segments) with
  | none => Stats.zero.addUnclaimed
  | some c => (Stats.zero.addVerdict (e.verdictFor c w)).addWritten c (e.rowsFor c w).length

namespace Stats

variable {cs : List Category} {w : Window} {e : Event} {es : List Event}

def ofPass (cs : List Category) (w : Window) (es : List Event) : Stats :=
  es.foldl (fun s e => s.add (e.tally cs w)) .zero

theorem add_tally_of_not_claims (h : ∀ c ∈ cs, c.claims e.segments = false) (s : Stats) :
    s.add (e.tally cs w) = s.addUnclaimed := by
  have hnone : cs.find? (·.claims e.segments) = none :=
    List.find?_eq_none.2 fun c hc => by rw [h c hc]; decide
  rw [Event.tally, hnone]
  exact (addUnclaimed_add s zero).symm.trans (by rw [add_zero])

theorem add_tally_of_claims {c : Category} (hc : c ∈ cs) (h : c.claims e.segments = true)
    (s : Stats) : s.add (e.tally cs w) =
      (s.addVerdict (e.verdictFor c w)).addWritten c (e.rowsFor c w).length := by
  rw [Event.tally, Category.find?_claims hc h]
  simp only
  rw [← addWritten_add, ← addVerdict_add, add_zero]

theorem foldl_add (cs : List Category) (w : Window) (es : List Event) (s : Stats) :
    es.foldl (fun s e => s.add (e.tally cs w)) s = s.add (ofPass cs w es) := by
  unfold ofPass
  induction es generalizing s with
  | nil => exact (add_zero s).symm
  | cons e es ih => rw [List.foldl_cons, ih, List.foldl_cons, ih (zero.add _), zero_add, add_assoc]

theorem ofPass_append (cs : List Category) (w : Window) (es es' : List Event) :
    ofPass cs w (es ++ es') = (ofPass cs w es).add (ofPass cs w es') := by
  rw [ofPass, List.foldl_append, foldl_add]
  rfl

theorem ofPass_singleton (cs : List Category) (w : Window) (e : Event) :
    ofPass cs w [e] = e.tally cs w :=
  zero_add _

end Stats

/-! ## The counts of fates -/

theorem RejectionKind.index_lt (k : RejectionKind) : (k.index : Nat) < 5 :=
  k.index.isLt

def Fate.tally : Fate → Stats
  | unclaimed => Stats.zero.addUnclaimed
  | stale => Stats.zero.addVerdict (.stale 0)
  | rejected kind =>
    { Stats.zero with
      events := 1
      kindCounts := Stats.zero.kindCounts.set kind.index.val (Stats.zero.rejectionsOf kind + 1)
        kind.index_lt }
  | accepted c rows => (Stats.zero.addVerdict (.buffered rows.length)).addWritten c rows.length

theorem Event.tally_eq (cs : List Category) (w : Window) (e : Event) :
    e.tally cs w = (e.fate cs w).tally := by
  unfold tally
  cases hfind : cs.find? (·.claims e.segments) with
  | none => rw [fate_of_find?_none hfind]; rfl
  | some c =>
    have hclaims : c.claims e.segments = true := by simpa using List.find?_some hfind
    rw [fate_of_find?_some hfind]
    simp only
    cases hv : e.verdictFor c w with
    | buffered n => rfl
    | stale t =>
      rw [rowsFor_of_verdict hclaims (by rw [hv]; intro n hn; cases hn)]
      exact Stats.addWritten_zero ..
    | rejected cause =>
      rw [rowsFor_of_verdict hclaims (by rw [hv]; intro n hn; cases hn)]
      exact (Stats.addWritten_zero ..).trans rfl

namespace Fate

theorem events_tally (f : Fate) : f.tally.events = 1 := by
  cases f <;> rfl

theorem unclaimed_tally (f : Fate) : f.tally.unclaimed = if f.isUnclaimed then 1 else 0 := by
  cases f <;> rfl

theorem stale_tally (f : Fate) : f.tally.stale = if f.isStale then 1 else 0 := by
  cases f <;> rfl

theorem rejectionsOf_tally (f : Fate) (k : RejectionKind) :
    f.tally.rejectionsOf k = if f.isRejected k then 1 else 0 := by
  cases f with
  | unclaimed => exact Stats.rejectionsOf_zero k
  | stale => exact Stats.rejectionsOf_zero k
  | rejected kind => cases kind <;> cases k <;> rfl
  | accepted c rows => exact Stats.rejectionsOf_zero k

theorem rowsWritten_tally (f : Fate) : f.tally.rowsWritten = f.rows.length := by
  cases f with
  | accepted c rows => exact Nat.zero_add _
  | _ => rfl

end Fate

namespace Stats

variable {cs : List Category} {w : Window} {es : List Event}

theorem ofPass_cons (cs : List Category) (w : Window) (e : Event) (es : List Event) :
    ofPass cs w (e :: es) = (e.fate cs w).tally.add (ofPass cs w es) := by
  rw [← Event.tally_eq, ← ofPass_singleton]
  exact ofPass_append cs w [e] es

/-- A counter that goes up by one with the events of some fates is their number. -/
theorem countP_ofPass (count : Stats → Nat) (hzero : count .zero = 0)
    (hadd : ∀ a b, count (a.add b) = count a + count b) {p : Fate → Bool}
    (hp : ∀ f, count f.tally = if p f then 1 else 0) :
    count (ofPass cs w es) = es.countP fun e => p (e.fate cs w) := by
  induction es with
  | nil => exact hzero
  | cons e es ih =>
    rw [ofPass_cons, hadd, ih, hp, List.countP_cons, Nat.add_comm]

theorem events_ofPass_length : (ofPass cs w es).events = es.length := by
  induction es with
  | nil => rfl
  | cons e es ih =>
    rw [ofPass_cons, events_add, Fate.events_tally, ih, List.length_cons, Nat.add_comm]

/-- Where every category has a processor, the counters are the numbers of events by their fates. -/
theorem counted_ofPass (h : ∀ c, c ∈ cs) (w : Window) (es : List Event) :
    Counted w es .zero (ofPass cs w es) where
  events := events_ofPass_length.trans (Nat.zero_add _).symm
  unclaimed := by
    rw [countP_ofPass (·.unclaimed) rfl unclaimed_add Fate.unclaimed_tally]
    simp only [Event.fate_eq_all h]
    exact (Nat.zero_add _).symm
  stale := by
    rw [countP_ofPass (·.stale) rfl stale_add Fate.stale_tally]
    simp only [Event.fate_eq_all h]
    exact (Nat.zero_add _).symm
  rejected k := by
    rw [countP_ofPass (·.rejectionsOf k) (rejectionsOf_zero k) (fun a b => rejectionsOf_add a b k)
      fun f => f.rejectionsOf_tally k]
    simp only [Event.fate_eq_all h, rejectionsOf_zero]
    exact (Nat.zero_add _).symm

end Stats

end WindowAlign
