import Mathlib.Data.List.Forall2
import WindowAlign.Event.Block

/-!
# Times of headers

The integers of a JSON text are signed or unsigned 64-bit words, so none is below the signed range.
The time that a header gives is refused beyond the range, and hence fits into a signed word.
-/

namespace WindowAlign

namespace Json

/-- A number literal is an integer of the two word ranges or a double. -/
theorem value?_cases {l : Literal} {j : Json} (h : l.value? = some j) :
    (∃ n, j = .int n ∧ Signed64.least ≤ n) ∨ ∃ x, j = .float x := by
  have double : ∀ {o : Option Float} {f : Float → Float},
      o.map (fun x => Json.float (f x)) = some j → ∃ x, j = .float x := by
    intro o f h
    obtain ⟨x, -, hx⟩ := Option.map_eq_some_iff.1 h
    exact ⟨f x, hx.symm⟩
  unfold Literal.value? at h
  simp only at h
  split at h
  · exact .inr (double h)
  split at h
  all_goals split at h
  · rename_i hn
    cases h
    exact .inl ⟨_, rfl, hn.2⟩
  · exact .inr (double h)
  · cases h
    exact .inl ⟨_, rfl, by unfold Signed64.least; omega⟩
  · exact .inr (double h)

theorem ofTree?_int_ge {depth : Nat} {t : Tree} {n : Int} (h : ofTree? depth t = some (.int n)) :
    Signed64.least ≤ n := by
  cases t with
  | number l =>
    rw [ofTree?] at h
    rcases value?_cases h with ⟨m, hm, hge⟩ | ⟨x, hx⟩
    · cases hm; exact hge
    · cases hx
  | null => rw [ofTree?] at h; cases h
  | bool b => rw [ofTree?] at h; cases h
  | string s =>
    rw [ofTree?, Option.map_eq_some_iff] at h
    obtain ⟨x, -, hx⟩ := h
    cases hx
  | array items =>
    cases depth with
    | zero => rw [ofTree?] at h; cases h
    | succ depth =>
      rw [ofTree?, Option.map_eq_some_iff] at h
      obtain ⟨x, -, hx⟩ := h
      cases hx
  | object members =>
    cases depth with
    | zero => rw [ofTree?] at h; cases h
    | succ depth =>
      rw [ofTree?, Option.map_eq_some_iff] at h
      obtain ⟨x, -, hx⟩ := h
      cases hx

theorem mem_insertMember {name : String} {value : Json} {l : List (String × Json)}
    {p : String × Json} (h : p ∈ insertMember name value l) : p = (name, value) ∨ p ∈ l := by
  induction l with
  | nil => simpa [insertMember] using h
  | cons q l ih =>
    unfold insertMember at h
    split at h
    · simpa using h
    split at h
    all_goals rcases List.mem_cons.1 h with rfl | h
    · exact .inl rfl
    · exact .inr (List.mem_cons_of_mem _ h)
    · exact .inr List.mem_cons_self
    · exact (ih h).imp_right (List.mem_cons_of_mem _)

theorem membersOf?_int_ge {depth : Nat} {members : List (List StringUnit × Tree)}
    {acc found : List (String × Json)} (h : membersOf? depth members acc = some found)
    (hacc : ∀ name n, (name, Json.int n) ∈ acc → Signed64.least ≤ n) :
    ∀ name n, (name, Json.int n) ∈ found → Signed64.least ≤ n := by
  induction members generalizing acc with
  | nil => rw [membersOf?] at h; cases h; exact hacc
  | cons m members ih =>
    obtain ⟨raw, t⟩ := m
    rw [membersOf?] at h
    split at h
    · rename_i key value hkey hvalue
      refine ih h fun name n hn => ?_
      rcases mem_insertMember hn with e | hn
      · cases e; exact ofTree?_int_ge hvalue
      · exact hacc name n hn
    · cases h

theorem member?_int_ge {s : List Char} {json : Json} (h : ofText? s = some json) {name : String}
    {n : Int} (hn : json.member? name = some (.int n)) : Signed64.least ≤ n := by
  unfold ofText? at h
  rw [Option.bind_eq_some_iff] at h
  obtain ⟨t, -, ht⟩ := h
  cases t with
  | object members =>
    rw [show depthLimit - 1 = 126 + 1 from rfl, ofTree?, Option.map_eq_some_iff] at ht
    obtain ⟨found, hf, rfl⟩ := ht
    have hmem : (name, Json.int n) ∈ found := by
      rw [member?] at hn
      obtain ⟨l₁, l₂, rfl, -⟩ := List.lookup_eq_some_iff.1 hn
      simp
    exact membersOf?_int_ge hf (by simp) name n hmem
  | null => rw [ofTree?] at ht; cases ht; cases hn
  | bool b => rw [ofTree?] at ht; cases ht; cases hn
  | number l =>
    rw [ofTree?] at ht
    rcases value?_cases ht with ⟨m, rfl, -⟩ | ⟨x, rfl⟩ <;> cases hn
  | string s =>
    rw [ofTree?, Option.map_eq_some_iff] at ht
    obtain ⟨x, -, rfl⟩ := ht
    cases hn
  | array items =>
    rw [show depthLimit - 1 = 126 + 1 from rfl, ofTree?, Option.map_eq_some_iff] at ht
    obtain ⟨x, -, rfl⟩ := ht
    cases hn

end Json

namespace Block

/-- **The time of a header fits into a signed word.** -/
theorem timeOf_fits {header : List Char} {t : Int} (h : timeOf header = .ok t) :
    Signed64.fits t = true := by
  unfold timeOf at h
  split at h
  · cases h
  split at h
  · cases h
  rename_i json hjson
  split at h
  · cases h
  rename_i found hfound
  split at h
  · cases h
  rename_i n hn
  cases h
  cases found with
  | int m =>
    rw [Json.signed?] at hn
    split at hn
    · rename_i hle
      cases hn
      exact Signed64.fits_iff.2 ⟨Json.member?_int_ge hjson hfound, hle⟩
    · cases hn
  | _ => cases hn

theorem ofText_time_fits {value : String} {b : Block} (h : ofText value = .ok b) :
    Signed64.fits b.time = true := by
  unfold ofText at h
  simp only at h
  split at h
  · cases h
  · rename_i t ht
    cases h
    exact timeOf_fits ht

end Block

end WindowAlign
