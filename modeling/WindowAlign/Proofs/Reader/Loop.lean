import WindowAlign.Reader.Run

/-!
# The loop of a run

Clock and cycles of a run are actions on one state, and with each call they may change all of it: what
the clock shows, whether the run may go on, and what the next cycle will meet. `loop_succ` is one turn
of the loop. From it come the two ways to reason about runs (`loop_induct`, `loop_map`), and what a
limit does: it is looked at after a cycle, so a run whose limit is zero may have one cycle
(`cycles_le`), and a run that ends before its limit was told to (`loop_ended`).
-/

namespace WindowAlign

@[simp] theorem RunSummary.cycles_add (s : RunSummary) (failed : Bool) :
    (s.add failed).cycles = s.cycles + 1 := rfl

namespace Run

variable {ρ τ : Type}

/-! ## One turn -/

section Turn

variable (clock : Clock (StateM ρ))

theorem sleepSliced_of_pos {left : Int} (h : 0 < left) (r : ρ) : sleepSliced clock left r =
    let asked := clock.running r
    if asked.1 then
      sleepSliced clock (left - min left slice) (clock.sleep (min left slice) asked.2).2
    else ((), asked.2) := by
  rw [sleepSliced, dif_pos h]
  change (if (clock.running r).1 then _ else _ : StateM ρ Unit) (clock.running r).2 = _
  dsimp only
  split <;> rfl

theorem sleepSliced_of_not_pos {left : Int} (h : ¬ 0 < left) (r : ρ) :
    sleepSliced clock left r = ((), r) := by
  rw [sleepSliced, dif_neg h]
  rfl

/-- **One turn of the loop**: the flag, the clock, the cycle, the limit, the clock again, and a
sleep. -/
theorem loop_succ (cadence : Int) (limit : Option Nat) (cycle : Int → StateM ρ Bool) (n : Nat)
    (summary : RunSummary) (r : ρ) : loop clock cadence limit cycle (n + 1) summary r =
      let asked := clock.running r
      if asked.1 then
        let looked := clock.now asked.2
        let done := cycle looked.1 looked.2
        if isDone limit (summary.add done.1).cycles then (summary.add done.1, done.2)
        else
          let again := clock.now done.2
          loop clock cadence limit cycle n (summary.add done.1)
            (sleepSliced clock (cadence - (again.1 - looked.1)) again.2).2
      else (summary, asked.2) := by
  rw [loop]
  change (if (clock.running r).1 then _ else _ : StateM ρ RunSummary) (clock.running r).2 = _
  dsimp only
  split
  · change (let done := cycle (clock.now (clock.running r).2).1 (clock.now (clock.running r).2).2
      (if isDone limit (summary.add done.1).cycles then _ else _ : StateM ρ RunSummary) done.2) = _
    dsimp only
    split <;> rfl
  · rfl

end Turn

/-! ## Runs -/

section Induction

variable (clock : Clock (StateM ρ)) (cycle : Int → StateM ρ Bool) {P : RunSummary → ρ → Prop}

theorem sleepSliced_induct {Q : ρ → Prop} (hrunning : ∀ r, Q r → Q (clock.running r).2)
    (hsleep : ∀ span r, Q r → Q (clock.sleep span r).2) (left : Int) (r : ρ) (h : Q r) :
    Q (sleepSliced clock left r).2 := by
  induction left using sleepSliced.induct generalizing r with
  | case1 left hleft ih =>
    rw [sleepSliced_of_pos clock hleft]
    dsimp only
    split
    · exact ih _ (hsleep _ _ (hrunning r h))
    · exact hrunning r h
  | case2 left hleft =>
    rw [sleepSliced_of_not_pos clock hleft]
    exact h

/-- **What every call of the clock and every cycle keeps, a run keeps.** -/
theorem loop_induct (hrunning : ∀ s r, P s r → P s (clock.running r).2)
    (hnow : ∀ s r, P s r → P s (clock.now r).2)
    (hsleep : ∀ span s r, P s r → P s (clock.sleep span r).2)
    (hcycle : ∀ now s r, P s r → P (s.add (cycle now r).1) (cycle now r).2) (cadence : Int)
    (limit : Option Nat) (n : Nat) (summary : RunSummary) (r : ρ) (h : P summary r) :
    let out := loop clock cadence limit cycle n summary r
    P out.1 out.2 := by
  induction n generalizing summary r with
  | zero => exact h
  | succ n ih =>
    dsimp only
    rw [loop_succ]
    have hasked := hrunning summary r h
    dsimp only
    split
    · have hdone := hcycle (clock.now (clock.running r).2).1 _ _ (hnow _ _ hasked)
      split
      · exact hdone
      · exact ih _ _ (sleepSliced_induct clock (Q := P _) (fun r => hrunning _ r)
          (fun span r => hsleep span _ r) _ _ (hnow _ _ hdone))
    · exact hasked

end Induction

section View

variable {clock : Clock (StateM ρ)} {image : Clock (StateM τ)} {f : ρ → τ}

/-- A clock looks like another one through a view of its state. -/
structure Views (f : ρ → τ) (clock : Clock (StateM ρ)) (image : Clock (StateM τ)) : Prop where
  now : ∀ r, image.now (f r) = ((clock.now r).1, f (clock.now r).2)
  sleep : ∀ span r, image.sleep span (f r) = ((), f (clock.sleep span r).2)
  running : ∀ r, image.running (f r) = ((clock.running r).1, f (clock.running r).2)

theorem sleepSliced_map (hf : Views f clock image) (left : Int) (r : ρ) :
    sleepSliced image left (f r) = ((), f (sleepSliced clock left r).2) := by
  induction left using sleepSliced.induct generalizing r with
  | case1 left hleft ih =>
    rw [sleepSliced_of_pos image hleft, sleepSliced_of_pos clock hleft, hf.running]
    dsimp only
    split
    · rw [hf.sleep]
      exact ih _
    · rfl
  | case2 left hleft =>
    rw [sleepSliced_of_not_pos image hleft, sleepSliced_of_not_pos clock hleft]

/-- **A run sees nothing of its state besides what its clock and its cycles see.** -/
theorem loop_map (hf : Views f clock image) {cycle : Int → StateM ρ Bool}
    {cycle' : Int → StateM τ Bool}
    (hcycle : ∀ now r, cycle' now (f r) = ((cycle now r).1, f (cycle now r).2)) (cadence : Int)
    (limit : Option Nat) (n : Nat) (summary : RunSummary) (r : ρ) :
    let out := loop clock cadence limit cycle n summary r
    loop image cadence limit cycle' n summary (f r) = (out.1, f out.2) := by
  induction n generalizing summary r with
  | zero => rfl
  | succ n ih =>
    dsimp only
    rw [loop_succ, loop_succ, hf.running]
    dsimp only
    split
    · rw [hf.now]
      dsimp only
      rw [hcycle]
      dsimp only
      split
      · rfl
      · rw [hf.now]
        dsimp only
        rw [sleepSliced_map hf]
        exact ih _ _
    · rfl

end View

/-! ## The limit -/

section Limit

variable (clock : Clock (StateM ρ)) (cadence : Int) (cycle : Int → StateM ρ Bool)

theorem isDone_some {n cycles : Nat} : isDone (some n) cycles = true ↔ n ≤ cycles := by
  simp [isDone]

theorem le_cycles (limit : Option Nat) (n : Nat) (summary : RunSummary) (r : ρ) :
    summary.cycles ≤ (loop clock cadence limit cycle n summary r).1.cycles :=
  loop_induct clock cycle (P := fun s _ => summary.cycles ≤ s.cycles) (fun _ _ h => h)
    (fun _ _ h => h) (fun _ _ _ h => h) (fun _ _ _ h => Nat.le_succ_of_le h)
    cadence limit n summary r (Nat.le_refl _)

theorem lt_cycles_iff (limit : Option Nat) (n : Nat) (summary : RunSummary) (r : ρ) :
    summary.cycles < (loop clock cadence limit cycle (n + 1) summary r).1.cycles ↔
      (clock.running r).1 = true := by
  rw [loop_succ]
  dsimp only
  split
  · rename_i hgoes
    refine iff_of_true ?_ hgoes
    split
    · exact Nat.lt_succ_self _
    · exact Nat.lt_of_succ_le (le_cycles clock cadence cycle limit n (summary.add _) _)
  · rename_i hstop
    exact iff_of_false (Nat.lt_irrefl _) hstop

/-- **A run goes up to its limit, or one cycle beyond where it is**: the limit is looked at after a
cycle, so there may be one even where the limit was reached before. -/
theorem cycles_le (limit n : Nat) (summary : RunSummary) (r : ρ) :
    (loop clock cadence (some limit) cycle n summary r).1.cycles ≤ max (summary.cycles + 1) limit := by
  induction n generalizing summary r with
  | zero => exact Nat.le_trans (Nat.le_succ _) (Nat.le_max_left ..)
  | succ n ih =>
    rw [loop_succ]
    simp only [isDone_some, RunSummary.cycles_add]
    split
    · split
      · exact Nat.le_max_left ..
      · refine Nat.le_trans (ih _ _) ?_
        rw [RunSummary.cycles_add]
        omega
    · exact Nat.le_trans (Nat.le_succ _) (Nat.le_max_left ..)

/-- **A run that ends before its limit was told to**: the last thing that it did is to ask whether it
may go on. The number of cycles that `loop` is given at most must not run out before the limit. -/
theorem loop_ended {limit n : Nat} {summary : RunSummary} (hn : max 1 (limit - summary.cycles) ≤ n)
    (r : ρ) :
    let out := loop clock cadence (some limit) cycle n summary r
    out.1.cycles = max (summary.cycles + 1) limit ∨ ∃ r', clock.running r' = (false, out.2) := by
  induction n generalizing summary r with
  | zero => omega
  | succ n ih =>
    dsimp only
    rw [loop_succ]
    simp only [isDone_some, RunSummary.cycles_add]
    split
    · split
      · left
        rw [RunSummary.cycles_add]
        omega
      · refine (ih (by rw [RunSummary.cycles_add]; omega) _).imp_left fun h => h.trans ?_
        rw [RunSummary.cycles_add]
        omega
    · rename_i hstop
      exact .inr ⟨r, Prod.ext (Bool.eq_false_iff.2 hstop) rfl⟩

/-- A run with a limit does not depend on how many cycles `loop` is given at most. -/
theorem loop_fuel {limit n n' : Nat} {summary : RunSummary}
    (hn : max 1 (limit - summary.cycles) ≤ n) (hn' : max 1 (limit - summary.cycles) ≤ n') (r : ρ) :
    loop clock cadence (some limit) cycle n summary r =
      loop clock cadence (some limit) cycle n' summary r := by
  induction n generalizing n' summary r with
  | zero => omega
  | succ n ih =>
    obtain ⟨m, rfl⟩ : ∃ m, n' = m + 1 := ⟨n' - 1, by omega⟩
    rw [loop_succ, loop_succ]
    simp only [isDone_some, RunSummary.cycles_add]
    split
    · split
      · rfl
      · exact ih (by rw [RunSummary.cycles_add]; omega) (by rw [RunSummary.cycles_add]; omega) _
    · rfl

end Limit

end Run

end WindowAlign
