import WindowAlign.Proofs.Reader.Pace
import WindowAlign.Proofs.Reader.Trace

/-!
# Pauses

From one cycle of a run to the next there is a pause (`Run.pauses`). The run looks at the clock after
the cycle, takes the time since the first look off the cadence, and asks to sleep for what is left, in
slices. Where asking whether the run may go on changes nothing, the slices come to exactly that, or
there is no next cycle (`Run.Turns.pauses`).

The two looks are at a clock that may be set in between. Where it is set forwards the pause is cut
down, to nothing if need be; where it is set back, what it was set back by is slept on top of the
interval (`World.pause_le_iff`).
-/

namespace WindowAlign

namespace Run

/-- What comes between two cycles: when the first of them started, and the calls until the second. -/
structure Pause where
  started : Int
  between : List Call
  deriving DecidableEq, Repr

namespace Pause

/-- What the clock shows after the cycle. -/
def ended? (p : Pause) : Option Int :=
  p.between.findSome? Call.shown?

/-- The time for which the run asks to sleep. -/
def requested (p : Pause) : Int :=
  Call.slumber p.between

end Pause

/-- The pauses among the calls of a run, one from each cycle to the next. -/
def pauses : List Call → List Pause
  | [] => []
  | .worked started :: cs =>
    if cs.any Call.isCycle then ⟨started, cs.takeWhile (!·.isCycle)⟩ :: pauses cs else pauses cs
  | _ :: cs => pauses cs

theorem pauses_cons_of_not_isCycle {c : Call} (hc : c.isCycle = false) (cs : List Call) :
    pauses (c :: cs) = pauses cs := by
  cases c with
  | worked => cases hc
  | _ => rfl

theorem pauses_append {cs : List Call} (hcs : ∀ c ∈ cs, c.isCycle = false) (ds : List Call) :
    pauses (cs ++ ds) = pauses ds := by
  induction cs with
  | nil => rfl
  | cons c cs ih =>
    rw [List.forall_mem_cons] at hcs
    rw [List.cons_append, pauses_cons_of_not_isCycle hcs.1, ih hcs.2]

section Turns

variable {ρ : Type} {clock : Clock (StateM ρ)} {cadence : Int} {cycle : Int → StateM ρ Bool}
  {span : Int} {r r' : ρ} {ms : List (Moment ρ)}

theorem Naps.not_isCycle (h : Naps clock span r ms r') : ∀ c ∈ calls ms, c.isCycle = false := by
  induction h with
  | rested => simp [calls]
  | told => simp [calls, Call.isCycle]
  | slice _ _ _ ih =>
    simp only [calls, List.map_cons, List.forall_mem_cons]
    exact ⟨rfl, rfl, ih⟩

/-- **A run that may go on after it slept has slept the whole span.** -/
theorem Naps.slumber_eq (hask : ∀ r, asked clock r = r) (h : Naps clock span r ms r')
    (hgoes : (clock.running r').1 = true) : Call.slumber (calls ms) = max 0 span := by
  induction h with
  | rested hspan =>
    rw [calls, List.map_nil, Call.slumber]
    omega
  | told _ hstop =>
    rw [hask, hstop] at hgoes
    cases hgoes
  | slice hspan _ _ ih =>
    have hrest := ih hgoes
    simp only [calls, List.map_cons, Call.slumber, Call.span] at hrest ⊢
    omega

/-- Before the first cycle of a run nothing is slept. -/
theorem Turns.slumber_takeWhile (h : Turns clock cadence cycle r ms r') :
    Call.slumber ((calls ms).takeWhile (!·.isCycle)) = 0 := by
  cases h <;> rfl

theorem Turns.goes (h : Turns clock cadence cycle r ms r') (hany : (calls ms).any Call.isCycle = true) :
    (clock.running r).1 = true := by
  cases h with
  | cut => cases hany
  | told => cases hany
  | last hgoes => exact hgoes
  | more hgoes => exact hgoes

/-- The pauses of a run that goes on after a turn: if it comes to another cycle, the first of them is
the pause of that turn. -/
theorem pauses_more {r₀ : ρ} {naps : List (Moment ρ)} (hnaps : Naps clock span r₀ naps r) :
    pauses (calls (turn clock r' ++
        ⟨done clock cycle r', .looked (ended clock cycle r')⟩ :: (naps ++ ms))) =
      if (calls ms).any Call.isCycle then
        ⟨started clock r', .looked (ended clock cycle r') ::
          (calls naps ++ (calls ms).takeWhile (!·.isCycle))⟩ :: pauses (calls ms)
      else pauses (calls ms) := by
  have hpass : ∀ c ∈ calls naps, (!c.isCycle) = true := fun c hc => by rw [hnaps.not_isCycle c hc]; rfl
  have hany : (calls naps ++ calls ms).any Call.isCycle = (calls ms).any Call.isCycle := by
    have hnone : (calls naps).any Call.isCycle = false :=
      List.any_eq_false.2 fun c hc => by simp [hnaps.not_isCycle c hc]
    rw [List.any_append, hnone, Bool.false_or]
  calc pauses (calls (turn clock r' ++
          ⟨done clock cycle r', .looked (ended clock cycle r')⟩ :: (naps ++ ms)))
      = pauses (.worked (started clock r') ::
          .looked (ended clock cycle r') :: (calls naps ++ calls ms)) := by
        rw [← calls_append]
        rfl
    _ = _ := by
        rw [pauses, List.any_cons, hany, List.takeWhile_cons_of_pos rfl,
          List.takeWhile_append_of_pos hpass, pauses_cons_of_not_isCycle rfl,
          pauses_append hnaps.not_isCycle]
        rfl

/-- **In a pause a run asks to sleep for exactly what is left of the cadence**, if anything is. -/
theorem Turns.pauses (hask : ∀ r, asked clock r = r) (h : Turns clock cadence cycle r ms r') :
    ∀ p ∈ pauses (calls ms), ∃ r₀, p.started = started clock r₀ ∧
      p.ended? = some (ended clock cycle r₀) ∧ p.requested = max 0 (left clock cadence cycle r₀) := by
  induction h with
  | cut => intro p hp; cases hp
  | told => intro p hp; cases hp
  | last => intro p hp; cases hp
  | @more r r₁ r₂ naps ms _ hnaps rest ih =>
    rw [pauses_more hnaps]
    split
    · rename_i hany
      refine List.forall_mem_cons.2 ⟨⟨r, rfl, rfl, ?_⟩, ih⟩
      rw [Pause.requested, Call.slumber, Call.slumber_append, rest.slumber_takeWhile,
        hnaps.slumber_eq hask (rest.goes hany)]
      simp only [Call.span]
      omega
    · exact ih

end Turns

end Run

/-! ## Pauses of a run -/

namespace World

variable {ω σ : Type} (W : World ω σ)

def trace (limit : Option Nat) (fuel : Nat) (w : ω) (s : Session σ) :
    List (Run.Moment (ω × Session σ)) :=
  Run.trace W.clock s.reader.settings.interval W.cycle limit fuel .zero (w, s)

def pauses (limit : Option Nat) (fuel : Nat) (w : ω) (s : Session σ) : List Run.Pause :=
  Run.pauses (Run.calls (W.trace limit fuel w s))

end World

end WindowAlign
