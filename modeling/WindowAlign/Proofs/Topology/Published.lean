import WindowAlign.Topology.Basic

/-!
# Published lists

Publishing is last-writer-wins on the time of a list, later offers winning ties. Among lists that have
a time it is associative, so lists that are offered once more after they were published change nothing
(`publishAll_again`), and lists of different times may be offered in any order
(`publish_right_comm`).
-/

namespace WindowAlign

namespace Topology

def Dated (t : Topology) : Prop :=
  ∃ time, t.observedAt = some time

theorem isNewer_iff {t a : Topology} {i : Int} (ha : a.observedAt = some i) :
    t.isNewer a = true ↔ ∃ k, t.observedAt = some k ∧ i < k := by
  unfold isNewer
  rw [ha]
  cases t.observedAt <;> simp

theorem isNewer_asymm {a b : Topology} (h : a.isNewer b = true) : b.isNewer a = false := by
  unfold isNewer at h ⊢
  cases ha : a.observedAt <;> cases hb : b.observedAt <;> simp_all
  omega

theorem not_isNewer_trans {a b c : Topology} (hb : b.Dated) (hab : a.isNewer b = false)
    (hbc : b.isNewer c = false) : a.isNewer c = false := by
  obtain ⟨j, hj⟩ := hb
  unfold isNewer at hab hbc ⊢
  rw [hj] at hab hbc
  cases ha : a.observedAt <;> cases hc : c.observedAt <;> simp_all
  omega

theorem publish_eq (t a : Topology) :
    t.isNewer a = true ∧ t.publish a = t ∨ t.isNewer a = false ∧ t.publish a = a := by
  unfold publish
  cases t.isNewer a <;> simp

theorem publish_self_right (t a : Topology) : (t.publish a).publish a = t.publish a := by
  rcases publish_eq t a with ⟨h, he⟩ | ⟨-, he⟩
  · rw [he, he]
  · rw [he, publish, ite_self]

theorem publish_assoc (t : Topology) {a b : Topology} (ha : a.Dated) (hb : b.Dated) :
    (t.publish a).publish b = t.publish (a.publish b) := by
  obtain ⟨i, hi⟩ := ha
  obtain ⟨j, hj⟩ := hb
  unfold publish
  by_cases hta : t.isNewer a = true
  · obtain ⟨k, hk, hik⟩ := (isNewer_iff hi).1 hta
    rw [if_pos hta]
    by_cases hab : a.isNewer b = true
    · obtain ⟨i', hi', hji⟩ := (isNewer_iff hj).1 hab
      have htb : t.isNewer b = true :=
        (isNewer_iff hj).2 ⟨k, hk, by rw [hi] at hi'; cases hi'; omega⟩
      rw [if_pos hab, if_pos htb, if_pos hta]
    · rw [if_neg hab]
  · rw [if_neg hta]
    by_cases hab : a.isNewer b = true
    · rw [if_pos hab, if_neg hta]
    · have htb : ¬ t.isNewer b = true := by
        rw [isNewer_iff hj]
        rintro ⟨k, hk, hjk⟩
        have hki : ¬ i < k := fun h => hta ((isNewer_iff hi).2 ⟨k, hk, h⟩)
        exact hab ((isNewer_iff hj).2 ⟨i, hi, by omega⟩)
      rw [if_neg hab, if_neg htb]

theorem publish_dated {a b : Topology} (ha : a.Dated) (hb : b.Dated) : (a.publish b).Dated := by
  rcases publish_eq a b with ⟨-, he⟩ | ⟨-, he⟩
  · rwa [he]
  · rwa [he]

theorem exists_publishAll {offers : List Topology} (h : ∀ a ∈ offers, a.Dated) :
    offers = [] ∨ ∃ r : Topology, r.Dated ∧
      ∀ t : Topology, offers.foldl publish t = t.publish r := by
  induction offers with
  | nil => exact .inl rfl
  | cons a offers ih =>
    have ha := h a List.mem_cons_self
    refine .inr ?_
    rcases ih fun b hb => h b (List.mem_cons_of_mem _ hb) with rfl | ⟨r, hr, hall⟩
    · exact ⟨a, ha, fun t => rfl⟩
    · exact ⟨a.publish r, publish_dated ha hr, fun t => by
        rw [List.foldl_cons, hall, publish_assoc t ha hr]⟩

/-- **Lists that were offered already change nothing.** -/
theorem publishAll_again {offers : List Topology} (h : ∀ a ∈ offers, a.Dated) (t : Topology) :
    offers.foldl publish (offers.foldl publish t) = offers.foldl publish t := by
  rcases exists_publishAll h with rfl | ⟨r, -, hall⟩
  · rfl
  · rw [hall, hall, publish_self_right]

/-- **Of lists with different times the later one counts**, in whatever order they are offered. -/
theorem publish_right_comm (t : Topology) {a b : Topology} (ha : a.Dated) (hb : b.Dated)
    (hne : a.observedAt ≠ b.observedAt) :
    (t.publish a).publish b = (t.publish b).publish a := by
  have hcomm : a.publish b = b.publish a := by
    obtain ⟨i, hi⟩ := ha
    obtain ⟨j, hj⟩ := hb
    rw [hi, hj] at hne
    have hij : i ≠ j := fun e => hne (congrArg some e)
    unfold publish isNewer
    rw [hi, hj]
    rcases Int.lt_or_gt_of_ne hij with h | h
    · simp [h, Int.not_lt.2 (Int.le_of_lt h)]
    · simp [h, Int.not_lt.2 (Int.le_of_lt h)]
  rw [publish_assoc t ha hb, hcomm, publish_assoc t hb ha]

end Topology

end WindowAlign
