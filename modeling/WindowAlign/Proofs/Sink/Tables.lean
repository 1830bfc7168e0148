import Mathlib.Data.List.Induction
import WindowAlign.Proofs.Keyed
import WindowAlign.Sink.Database

/-!
# The tables of a metrics database

Windows are kept in ascending order and members of the cluster in the order of their ids, each in place
of an older one of the same key. What is looked up in a table after a change is what was put in or what
was there before (`lookup_touch`), and the members kept are the last entries of a list
with their ids (`keptMembers_spec`).
-/

namespace WindowAlign.Database

open Keyed

/-! ## Windows in order -/

def Ascending (ws : List (Int × Option Int)) : Prop :=
  ws.Pairwise fun a b => a.1 < b.1

theorem Ascending.nodup_starts {ws : List (Int × Option Int)} (h : Ascending ws) :
    (ws.map (·.1)).Nodup :=
  List.pairwise_map.2 (h.imp Int.ne_of_lt)

theorem fst_of_mem_touch {start : Int} {stop : Option Int} {ws : List (Int × Option Int)}
    {x : Int × Option Int} (hx : x ∈ touch start stop ws) :
    x.1 = start ∨ ∃ y ∈ ws, y.1 = x.1 := by
  induction ws with
  | nil => exact .inl (by rw [List.mem_singleton.1 hx])
  | cons y ws ih =>
    rw [touch] at hx
    split at hx
    · rcases List.mem_cons.1 hx with rfl | hx
      · exact .inl rfl
      · exact .inr ⟨x, hx, rfl⟩
    · split at hx
      · rcases List.mem_cons.1 hx with rfl | hx
        · exact .inr ⟨y, List.mem_cons_self, rfl⟩
        · exact .inr ⟨x, List.mem_cons_of_mem _ hx, rfl⟩
      · rcases List.mem_cons.1 hx with rfl | hx
        · exact .inr ⟨y, List.mem_cons_self, rfl⟩
        · exact (ih hx).imp_right fun ⟨z, hz, e⟩ => ⟨z, List.mem_cons_of_mem _ hz, e⟩

theorem Ascending.touch {ws : List (Int × Option Int)} (h : Ascending ws) (start : Int)
    (stop : Option Int) : Ascending (touch start stop ws) := by
  induction ws with
  | nil => exact List.pairwise_singleton ..
  | cons y ws ih =>
    obtain ⟨hbefore, hrest⟩ := List.pairwise_cons.1 h
    rw [Database.touch]
    by_cases hlt : start < y.1
    · rw [if_pos hlt]
      refine List.pairwise_cons.2 ⟨fun x hx => ?_, h⟩
      rcases List.mem_cons.1 hx with rfl | hx
      · exact hlt
      · exact Int.lt_trans hlt (hbefore x hx)
    · rw [if_neg hlt]
      by_cases heq : start = y.1
      · rw [if_pos heq]
        exact List.pairwise_cons.2 ⟨hbefore, hrest⟩
      · rw [if_neg heq]
        refine List.pairwise_cons.2 ⟨fun x hx => ?_, ih hrest⟩
        rcases fst_of_mem_touch hx with hs | ⟨z, hz, e⟩
        · show y.1 < x.1
          omega
        · rw [← e]
          exact hbefore z hz

/-- A touched window is listed with the end given or the one that it had, the others as before. -/
theorem lookup_touch {ws : List (Int × Option Int)} (h : Ascending ws) (start : Int)
    (stop : Option Int) (w : Int) : (touch start stop ws).lookup w =
      if w = start then some (stop.or (ws.lookup w).join) else ws.lookup w := by
  induction ws with
  | nil =>
    rw [touch, lookup_cons]
    simp
  | cons y ws ih =>
    obtain ⟨hbefore, hrest⟩ := List.pairwise_cons.1 h
    rw [touch]
    by_cases hlt : start < y.1
    · have habsent : (y :: ws).lookup start = none :=
        lookup_eq_none.2 fun x hx => by
          rcases List.mem_cons.1 hx with rfl | hx
          · exact Int.ne_of_lt hlt
          · exact Int.ne_of_lt (Int.lt_trans hlt (hbefore x hx))
      rw [if_pos hlt, lookup_cons]
      by_cases hw : w = start
      · rw [if_pos hw, if_pos hw, hw, habsent, Option.join_none, Option.or_none]
      · rw [if_neg hw, if_neg hw]
    · rw [if_neg hlt, lookup_cons w y ws]
      by_cases heq : start = y.1
      · rw [if_pos heq, lookup_cons, heq]
        split <;> rfl
      · rw [if_neg heq, lookup_cons, ih hrest]
        by_cases hw : w = y.1
        · rw [if_pos hw, if_pos hw, if_neg (by omega)]
        · rw [if_neg hw, if_neg hw]

/-! ## Members by id -/

/-- The members of a list as they are kept. -/
def keptMembers (ns : List Node) : List Node :=
  ns.foldl (fun acc n => insertNode n acc) []

theorem keptMembers_concat (ns : List Node) (n : Node) :
    keptMembers (ns ++ [n]) = insertNode n (keptMembers ns) := by
  rw [keptMembers, List.foldl_append]
  rfl

def ById (ns : List Node) : Prop :=
  ns.Pairwise fun a b => a.id < b.id

theorem mem_insertNode {n : Node} {ns : List Node} (h : ById ns) {m : Node} :
    m ∈ insertNode n ns ↔ m = n ∨ m ∈ ns ∧ m.id ≠ n.id := by
  induction ns with
  | nil => simp [insertNode]
  | cons y ns ih =>
    obtain ⟨hbefore, hrest⟩ := List.pairwise_cons.1 h
    rw [insertNode]
    by_cases hlt : n.id < y.id
    · rw [if_pos hlt, List.mem_cons]
      refine or_congr_right (iff_self_and.2 fun hm => ?_)
      rcases List.mem_cons.1 hm with rfl | hm
      · exact (String.ne_of_lt hlt).symm
      · exact (String.ne_of_lt (String.lt_trans hlt (hbefore m hm))).symm
    · rw [if_neg hlt]
      by_cases heq : n.id = y.id
      · rw [if_pos heq, List.mem_cons, List.mem_cons]
        refine or_congr_right ⟨fun hm => ⟨.inr hm, ?_⟩, fun ⟨hm, hne⟩ => hm.resolve_left ?_⟩
        · rw [heq]
          exact (String.ne_of_lt (hbefore m hm)).symm
        · rintro rfl
          exact hne heq.symm
      · rw [if_neg heq, List.mem_cons, List.mem_cons, ih hrest]
        constructor
        · rintro (rfl | rfl | ⟨hm, hne⟩)
          · exact .inr ⟨.inl rfl, fun e => heq e.symm⟩
          · exact .inl rfl
          · exact .inr ⟨.inr hm, hne⟩
        · rintro (rfl | ⟨rfl | hm, hne⟩)
          · exact .inr (.inl rfl)
          · exact .inl rfl
          · exact .inr (.inr ⟨hm, hne⟩)

theorem ById.insertNode {ns : List Node} (h : ById ns) (n : Node) : ById (insertNode n ns) := by
  induction ns with
  | nil => exact List.pairwise_singleton ..
  | cons y ns ih =>
    obtain ⟨hbefore, hrest⟩ := List.pairwise_cons.1 h
    rw [Database.insertNode]
    by_cases hlt : n.id < y.id
    · rw [if_pos hlt]
      refine List.pairwise_cons.2 ⟨fun m hm => ?_, h⟩
      rcases List.mem_cons.1 hm with rfl | hm
      · exact hlt
      · exact String.lt_trans hlt (hbefore m hm)
    · rw [if_neg hlt]
      by_cases heq : n.id = y.id
      · rw [if_pos heq]
        exact List.pairwise_cons.2 ⟨heq ▸ hbefore, hrest⟩
      · rw [if_neg heq]
        refine List.pairwise_cons.2 ⟨fun m hm => ?_, ih hrest⟩
        rcases (mem_insertNode hrest).1 hm with rfl | ⟨hm, -⟩
        · by_contra hgt
          exact heq (String.le_antisymm (String.not_lt.1 hgt) (String.not_lt.1 hlt))
        · exact hbefore m hm

/-- **The members kept are the last entries of the list with their ids**, in the order of these. -/
theorem keptMembers_spec (ns : List Node) : ById (keptMembers ns) ∧
    ∀ m, m ∈ keptMembers ns ↔ ns.reverse.find? (·.id == m.id) = some m := by
  induction ns using List.reverseRecOn with
  | nil => exact ⟨List.Pairwise.nil, fun m => by simp [keptMembers]⟩
  | append_singleton ns n ih =>
    obtain ⟨hsorted, hmem⟩ := ih
    rw [keptMembers_concat]
    refine ⟨hsorted.insertNode n, fun m => ?_⟩
    rw [mem_insertNode hsorted, hmem, List.reverse_append, List.reverse_singleton,
      List.singleton_append]
    by_cases hid : n.id = m.id
    · rw [List.find?_cons_of_pos (by simp [hid])]
      simp [hid, eq_comm]
    · rw [List.find?_cons_of_neg (by simp [hid])]
      have hne : m ≠ n := fun e => hid (by rw [e])
      simp [hne, Ne.symm hid]

end WindowAlign.Database
