import Mathlib.Data.List.Perm.Basic
import WindowAlign.FileTree.Events
import WindowAlign.Proofs.Keyed
import WindowAlign.Proofs.Text.Cutting

/-!
# The files of a tree

`FileTree.leaves` goes through a tree and gives its complete files. Here they are told from the tree
itself: where the entries of a directory have different names (`FileTree.Named`), they are the files
found along its paths except those that are still being written (`Named.mem_leavesOf`), each of them
once (`Named.pairwise_leavesOf`). The order in which directories are read does not matter
(`Named.leaves_sorted`).
-/

namespace WindowAlign

namespace FileTree

variable {entries : List (Bytes × FileTree)} {name : Bytes} {t u : FileTree} {path way : List Bytes}

/-! ## Names -/

/-- The name of a file or of a directory that is text. No file system has empty names or names with a
slash. -/
def IsName (b : Bytes) : Prop :=
  ∃ s : String, b = Bytes.ofText s ∧ s ≠ "" ∧ '/' ∉ s.toList

/-- A tree whose names are text. In every directory the entries have different ones. -/
inductive Named : FileTree → Prop where
  | file (content : Bytes) : Named (file content)
  | directory {entries : List (Bytes × FileTree)} (distinct : (entries.map (·.1)).Nodup)
      (names : ∀ e ∈ entries, IsName e.1) (below : ∀ e ∈ entries, Named e.2) : Named (directory entries)

theorem at?_directory (h : (entries.map (·.1)).Nodup) :
    (directory entries).at? (name :: path) = some u ↔
      ∃ t, (name, t) ∈ entries ∧ t.at? path = some u := by
  simp only [Keyed.mem_iff_lookup h]
  rw [at?]
  cases entries.lookup name with
  | none => simp
  | some t => simp

theorem at?_append (path rest : List Bytes) (t : FileTree) :
    t.at? (path ++ rest) = (t.at? path).bind (at? rest) := by
  induction path generalizing t with
  | nil => rfl
  | cons name path ih =>
    cases t with
    | file => rfl
    | directory entries =>
      rw [List.cons_append, at?, at?]
      cases entries.lookup name with
      | none => rfl
      | some u => exact ih u

theorem Named.isName (h : t.Named) (hat : t.at? path = some u) : ∀ n ∈ path, IsName n := by
  induction h generalizing path with
  | file =>
    cases path with
    | nil => exact List.forall_mem_nil _
    | cons => cases hat
  | directory distinct names _ ih =>
    cases path with
    | nil => exact List.forall_mem_nil _
    | cons n path =>
      obtain ⟨v, hv, hat⟩ := (at?_directory distinct).1 hat
      exact List.forall_mem_cons.2 ⟨names _ hv, ih _ hv hat⟩

/-! ## Files that are still being written -/

theorem extension?_append {stem ending : List Char} (hstem : stem ≠ []) (h : '.' ∉ ending) :
    extension? (String.ofList (stem ++ '.' :: ending)) = some (String.ofList ending) := by
  rw [extension?, String.toList_ofList, Text.pieces_separated, Text.pieces_eq_singleton h,
    List.reverse_append, List.reverse_singleton, List.singleton_append]
  cases hr : (Text.pieces '.' stem).reverse with
  | nil => exact absurd (List.reverse_eq_nil_iff.1 hr) (Text.pieces_ne_nil _ _)
  | cons before r =>
    refine if_neg fun hempty => hstem ?_
    rw [Bool.and_eq_true, List.isEmpty_iff, List.isEmpty_iff] at hempty
    rw [hempty.1, hempty.2] at hr
    exact Text.pieces_eq_nil_singleton.1 (List.reverse_eq_iff.1 hr)

theorem extension?_hidden {ending : List Char} (h : '.' ∉ ending) :
    extension? (String.ofList ('.' :: ending)) = none := by
  rw [extension?, String.toList_ofList, Text.pieces, if_pos rfl, Text.pieces_eq_singleton h]
  rfl

theorem extension?_eq_none {s : String} (h : '.' ∉ s.toList) : extension? s = none := by
  rw [extension?, Text.pieces_eq_singleton h]
  rfl

/-- **A file is still being written if something stands before `.tmp` at the end of its name.** A name
that is nothing but `.tmp` has no such end. -/
theorem isPartial_iff (s : String) : isPartial s = true ↔ ∃ stem, stem ≠ "" ∧ s = stem ++ ".tmp" := by
  have htmp : '.' ∉ "tmp".toList := by decide
  constructor
  · intro h
    have hext : extension? s = some "tmp" := by simpa [isPartial] using h
    by_cases hdot : '.' ∈ s.toList
    · -- the split at the last point
      obtain ⟨b, a, hsplit, hb⟩ := List.eq_append_cons_of_mem (List.mem_reverse.2 hdot)
      have hs : s = String.ofList (a.reverse ++ '.' :: b.reverse) := by
        rw [← String.ofList_toList (s := s), ← List.reverse_reverse s.toList, hsplit]
        simp
      have hb : '.' ∉ b.reverse := mt List.mem_reverse.1 hb
      by_cases ha : a.reverse = []
      · rw [hs, ha, List.nil_append, extension?_hidden hb] at hext
        cases hext
      · rw [hs, extension?_append ha hb, Option.some.injEq] at hext
        have hending : b.reverse = "tmp".toList := by rw [← hext, String.toList_ofList]
        refine ⟨String.ofList a.reverse, fun h => ha (by simpa using congrArg String.toList h), ?_⟩
        rw [hs, hending]
        apply String.toList_inj.1
        simp
    · rw [extension?_eq_none hdot] at hext
      cases hext
  · rintro ⟨stem, hne, rfl⟩
    have hs : stem ++ ".tmp" = String.ofList (stem.toList ++ '.' :: "tmp".toList) := by
      apply String.toList_inj.1
      simp
    have hstem : stem.toList ≠ [] := fun h => hne (String.toList_inj.1 h)
    rw [isPartial, hs, extension?_append hstem htmp]
    rfl

/-! ## Leaves -/

def Leaf.place (l : Leaf) : List Bytes :=
  l.way ++ [Bytes.ofText l.name]

theorem leavesOf_eq (way : List Bytes) (entries : List (Bytes × FileTree)) :
    leavesOf way entries = entries.flatMap fun e => e.2.leaves way e.1 := by
  induction entries with
  | nil => rfl
  | cons e entries ih => rw [leavesOf, ih, List.flatMap_cons]

theorem insertEntry_perm (e : Bytes × FileTree) (entries : List (Bytes × FileTree)) :
    (insertEntry e entries).Perm (e :: entries) := by
  induction entries with
  | nil => exact .refl _
  | cons f entries ih =>
    rw [insertEntry]
    split
    · exact .refl _
    · exact (ih.cons f).trans (.swap e f entries)

theorem sortedEntries_perm (entries : List (Bytes × FileTree)) :
    (sortedEntries entries).Perm (entries.map fun e => (e.1, e.2.sorted)) := by
  induction entries with
  | nil => exact .refl _
  | cons e entries ih => exact (insertEntry_perm _ _).trans (ih.cons _)

theorem leavesOf_sortedEntries (h : ∀ e ∈ entries, ∀ way name, (e.2.sorted.leaves way name).Perm
    (e.2.leaves way name)) (way : List Bytes) :
    (leavesOf way (sortedEntries entries)).Perm (leavesOf way entries) := by
  rw [leavesOf_eq, leavesOf_eq]
  refine ((sortedEntries_perm entries).flatMap fun _ _ => .refl _).trans ?_
  rw [List.flatMap_map]
  exact .flatMap_left _ fun e he => h e he way e.1

/-- **Sorting the directories of a tree changes only the order of its files.** -/
theorem Named.leaves_sorted (h : t.Named) (way : List Bytes) (name : Bytes) :
    (t.sorted.leaves way name).Perm (t.leaves way name) := by
  induction h generalizing way name with
  | file => exact .refl _
  | directory _ _ _ ih => exact leavesOf_sortedEntries ih _

theorem Named.leavesOf_sorted (h : (FileTree.directory entries).Named) :
    (leavesOf [] (sortedEntries entries)).Perm (leavesOf [] entries) := by
  cases h with
  | directory _ _ below => exact leavesOf_sortedEntries (fun e he => (below e he).leaves_sorted) []

theorem mem_leavesOf_of (distinct : (entries.map (·.1)).Nodup)
    (h : ∀ e ∈ entries, ∀ way l, l ∈ e.2.leaves way e.1 ↔
      ∃ path, l.place = way ++ e.1 :: path ∧ e.2.at? path = some (.file l.content) ∧
        isPartial l.name = false)
    (way : List Bytes) (l : Leaf) :
    l ∈ leavesOf way entries ↔ ∃ path, l.place = way ++ path ∧
      (directory entries).at? path = some (.file l.content) ∧ isPartial l.name = false := by
  rw [leavesOf_eq, List.mem_flatMap]
  constructor
  · rintro ⟨e, he, hl⟩
    obtain ⟨path, hplace, hat, hpartial⟩ := (h e he way l).1 hl
    exact ⟨e.1 :: path, hplace, (at?_directory distinct).2 ⟨e.2, he, hat⟩, hpartial⟩
  · rintro ⟨path, hplace, hat, hpartial⟩
    cases path with
    | nil => cases hat
    | cons n path =>
      obtain ⟨t, ht, hat⟩ := (at?_directory distinct).1 hat
      exact ⟨_, ht, (h _ ht way l).2 ⟨path, hplace, hat, hpartial⟩⟩

theorem Named.mem_leaves (h : t.Named) (hname : IsName name) (way : List Bytes) (l : Leaf) :
    l ∈ t.leaves way name ↔ ∃ path, l.place = way ++ name :: path ∧
      t.at? path = some (.file l.content) ∧ isPartial l.name = false := by
  induction h generalizing way name l with
  | file content =>
    obtain ⟨s, rfl, -, -⟩ := hname
    rw [leaves, Bytes.text?_ofText]
    constructor
    · intro hl
      dsimp only at hl
      split at hl
      · cases hl
      · rename_i hpartial
        rw [List.mem_singleton] at hl
        subst hl
        exact ⟨[], rfl, rfl, Bool.eq_false_iff.2 hpartial⟩
    · rintro ⟨path, hplace, hat, hpartial⟩
      cases path with
      | cons => cases hat
      | nil =>
        obtain ⟨hway, hlast⟩ := List.append_inj' hplace rfl
        rw [List.cons.injEq, Bytes.ofText_inj] at hlast
        obtain ⟨lway, lname, lcontent⟩ := l
        cases hat
        cases hway
        cases hlast.1
        simp only at hpartial
        simp [hpartial]
  | directory distinct names _ ih =>
    rw [leaves, mem_leavesOf_of distinct fun e he way l => ih e he (names e he) way l]
    simp only [List.append_assoc, List.singleton_append]

/-- **The leaves of a directory are the complete files that are found in it along some path.** -/
theorem Named.mem_leavesOf (h : (FileTree.directory entries).Named) (l : Leaf) :
    l ∈ leavesOf [] entries ↔
      (FileTree.directory entries).at? l.place = some (.file l.content) ∧ isPartial l.name = false := by
  cases h with
  | directory distinct names below =>
    rw [mem_leavesOf_of distinct fun e he way l => (below e he).mem_leaves (names e he) way l]
    constructor
    · rintro ⟨path, hplace, hat, hpartial⟩
      rw [hplace]
      exact ⟨hat, hpartial⟩
    · rintro ⟨hat, hpartial⟩
      exact ⟨_, rfl, hat, hpartial⟩

theorem pairwise_leavesOf_of (distinct : (entries.map (·.1)).Nodup) (names : ∀ e ∈ entries, IsName e.1)
    (below : ∀ e ∈ entries, e.2.Named)
    (h : ∀ e ∈ entries, ∀ way, (e.2.leaves way e.1).Pairwise (·.place ≠ ·.place)) (way : List Bytes) :
    (leavesOf way entries).Pairwise (·.place ≠ ·.place) := by
  rw [leavesOf_eq, List.pairwise_flatMap]
  refine ⟨fun e he => h e he way, ?_⟩
  refine (List.pairwise_map.1 distinct).imp_of_mem fun {e f} he hf hne l hl m hm hplace => hne ?_
  obtain ⟨p, hp, -⟩ := ((below e he).mem_leaves (names e he) way l).1 hl
  obtain ⟨q, hq, -⟩ := ((below f hf).mem_leaves (names f hf) way m).1 hm
  rw [hp, hq, List.append_cancel_left_eq, List.cons.injEq] at hplace
  exact hplace.1

theorem Named.pairwise_leaves (h : t.Named) (way : List Bytes) (name : Bytes) :
    (t.leaves way name).Pairwise (·.place ≠ ·.place) := by
  induction h generalizing way name with
  | file =>
    rw [leaves]
    split
    · split
      · exact .nil
      · exact List.pairwise_singleton _ _
    · exact .nil
  | directory distinct names below ih =>
    exact pairwise_leavesOf_of distinct names below (fun e he way => ih e he way e.1) _

/-- **No two leaves of a directory are at the same place.** -/
theorem Named.pairwise_leavesOf (h : (FileTree.directory entries).Named) :
    (leavesOf [] entries).Pairwise (·.place ≠ ·.place) := by
  cases h with
  | directory distinct names below =>
    exact pairwise_leavesOf_of distinct names below
      (fun e he way => (below e he).pairwise_leaves way e.1) []

end FileTree

end WindowAlign
