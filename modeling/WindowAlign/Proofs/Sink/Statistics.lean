import WindowAlign.Proofs.Number.Order
import WindowAlign.Sink.Aggregate

/-!
# What an aggregate says of its values

The sum of an aggregate starts from the negative zero and its extremes start from the infinities.
Neither shows in the result: `Summarises` says of an aggregate what it is, with its values alone, and
the aggregate of a list of values is that (`ofValues?_summarises`). An extreme is one of the values
where none of them is NaN, as each step of the search keeps one of two numbers and the order of
numbers is total (`foldl_extreme`).
-/

namespace WindowAlign.Aggregate

open Binary64 (place lt_iff_place le_iff_place)

/-! ## The lesser and the greater of two -/

section Choices

variable {x y : Float} (hx : x.isNaN = false) (hy : y.isNaN = false)

include hx hy in
theorem lesser_choice :
    lesser x y = x ∧ place x ≤ place y ∨ lesser x y = y ∧ place y ≤ place x := by
  rw [lesser, hx, Bool.false_or]
  by_cases h : y < x
  · rw [if_pos (decide_eq_true h)]
    exact .inr ⟨rfl, le_of_lt ((lt_iff_place hy hx).1 h)⟩
  · rw [if_neg fun e => h (of_decide_eq_true e)]
    exact .inl ⟨rfl, not_lt.1 (mt (lt_iff_place hy hx).2 h)⟩

include hx hy in
theorem greater_choice :
    greater x y = x ∧ place y ≤ place x ∨ greater x y = y ∧ place x ≤ place y := by
  rw [greater, hx, Bool.false_or]
  by_cases h : x < y
  · rw [if_pos (decide_eq_true h)]
    exact .inr ⟨rfl, le_of_lt ((lt_iff_place hx hy).1 h)⟩
  · rw [if_neg fun e => h (of_decide_eq_true e)]
    exact .inl ⟨rfl, not_lt.1 (mt (lt_iff_place hx hy).2 h)⟩

include hx in
theorem lesser_infinity : lesser infinity x = x := by
  rw [lesser]
  split
  · rfl
  · rename_i h
    refine (Binary64.eq_of_not_lt_infinity hx rfl fun hlt => h ?_).symm
    rw [decide_eq_true hlt, Bool.or_true]

include hx in
theorem greater_neg_infinity : greater (-infinity) x = x := by
  rw [greater]
  split
  · rfl
  · rename_i h
    refine (Binary64.eq_of_not_infinity_lt hx rfl fun hlt => h ?_).symm
    rw [decide_eq_true hlt, Bool.or_true]

end Choices

/-! ## Extremes of a list -/

/-- Numbers reduced by a choice of the one that comes first in an order leave one of them, and it comes
first of all. -/
theorem foldl_extreme {r : Float → Float → Prop} {f : Float → Float → Float} (hrefl : ∀ x, r x x)
    (htrans : ∀ x y z, r x y → r y z → r x z)
    (hf : ∀ x y, x.isNaN = false → y.isNaN = false → f x y = x ∧ r x y ∨ f x y = y ∧ r y x)
    {first : Float} {rest : List Float} (h : ∀ x ∈ first :: rest, x.isNaN = false) :
    rest.foldl f first ∈ first :: rest ∧ ∀ x ∈ first :: rest, r (rest.foldl f first) x := by
  induction rest generalizing first with
  | nil => exact ⟨List.mem_singleton_self first, List.forall_mem_singleton.2 (hrefl first)⟩
  | cons y rest ih =>
    obtain ⟨hfirst, hy, hrest⟩ : first.isNaN = false ∧ y.isNaN = false ∧
        ∀ x ∈ rest, x.isNaN = false := by
      rwa [List.forall_mem_cons, List.forall_mem_cons] at h
    rw [List.foldl_cons]
    rcases hf first y hfirst hy with ⟨hchoice, hr⟩ | ⟨hchoice, hr⟩
    · rw [hchoice]
      obtain ⟨hmem, hall⟩ := ih (List.forall_mem_cons.2 ⟨hfirst, hrest⟩)
      obtain ⟨hleast, hall⟩ := List.forall_mem_cons.1 hall
      refine ⟨?_, List.forall_mem_cons.2 ⟨hleast, List.forall_mem_cons.2 ⟨?_, hall⟩⟩⟩
      · rcases List.mem_cons.1 hmem with e | hmem
        · exact List.mem_cons.2 (.inl e)
        · exact List.mem_cons_of_mem _ (List.mem_cons_of_mem _ hmem)
      · exact htrans _ _ _ hleast hr
    · rw [hchoice]
      obtain ⟨hmem, hall⟩ := ih (List.forall_mem_cons.2 ⟨hy, hrest⟩)
      refine ⟨List.mem_cons_of_mem _ hmem, List.forall_mem_cons.2 ⟨?_, hall⟩⟩
      exact htrans _ _ _ (hall y List.mem_cons_self) hr

section Extremes

variable {first : Float} {rest : List Float} (h : ∀ x ∈ first :: rest, x.isNaN = false)

include h in
theorem foldl_lesser :
    (first :: rest).foldl lesser infinity ∈ first :: rest ∧
      ∀ x ∈ first :: rest, (first :: rest).foldl lesser infinity ≤ x := by
  have hfirst := h first List.mem_cons_self
  rw [List.foldl_cons, lesser_infinity hfirst]
  obtain ⟨hmem, hall⟩ := foldl_extreme (r := fun x y => place x ≤ place y) (fun _ => le_rfl)
    (fun _ _ _ => le_trans) (fun _ _ => lesser_choice) h
  exact ⟨hmem, fun x hx => (le_iff_place (h _ hmem) (h x hx)).2 (hall x hx)⟩

include h in
theorem foldl_greater :
    (first :: rest).foldl greater (-infinity) ∈ first :: rest ∧
      ∀ x ∈ first :: rest, x ≤ (first :: rest).foldl greater (-infinity) := by
  have hfirst := h first List.mem_cons_self
  rw [List.foldl_cons, greater_neg_infinity hfirst]
  obtain ⟨hmem, hall⟩ := foldl_extreme (r := fun x y => place y ≤ place x) (fun _ => le_rfl)
    (fun _ _ _ hxy hyz => le_trans hyz hxy) (fun _ _ => greater_choice) h
  exact ⟨hmem, fun x hx => (le_iff_place (h x hx) (h _ hmem)).2 (hall x hx)⟩

end Extremes

/-! ## Aggregates -/

/-- What an aggregate is of a list of values. -/
structure Summarises (a : Aggregate) (values : List Float) : Prop where
  count : a.count = values.length
  /-- From the first value on, the next one is added to what there is. -/
  sum : ∃ first rest, values = first :: rest ∧ a.sum = rest.foldl (· + ·) first
  mean : a.mean = a.sum / Binary64.ofInt values.length
  least : (∀ x ∈ values, x.isNaN = false) → a.least ∈ values ∧ ∀ x ∈ values, a.least ≤ x
  greatest : (∀ x ∈ values, x.isNaN = false) → a.greatest ∈ values ∧ ∀ x ∈ values, x ≤ a.greatest

theorem ofValues?_eq_none {values : List Float} : ofValues? values = none ↔ values = [] := by
  cases values with
  | nil => exact iff_of_true rfl rfl
  | cons x values => exact iff_of_false nofun nofun

theorem sumOf_cons (first : Float) (rest : List Float) :
    sumOf (first :: rest) = rest.foldl (· + ·) first := by
  rw [sumOf, List.foldl_cons, Binary64.neg_zero_add]

/-- **The aggregate of values summarises them.** -/
theorem ofValues?_summarises {values : List Float} {a : Aggregate} (h : ofValues? values = some a) :
    a.Summarises values := by
  cases values with
  | nil => cases h
  | cons first rest =>
    cases h
    exact ⟨rfl, ⟨first, rest, rfl, sumOf_cons first rest⟩, rfl, foldl_lesser, foldl_greater⟩

end WindowAlign.Aggregate
