import WindowAlign.Proofs.FileTree.Leaves

/-!
# The events of a bucket

The source of a bucket gives one event for each finished file below the bucket's directory, at any
depth (`FileTree.Finished`): its key is the way to the file and its value the text in it. Nothing else
is an event, and no two events have the same key (`FileTree.Listing`). `FileTree.source_listing` says
so of every tree of text names, and also which roots have no listing: below the current directory all
files count as outside.
-/

namespace WindowAlign

namespace FileTree

variable {entries : List (Bytes × FileTree)} {found : FileTree} {bucket : Int} {names : List String}
  {content : Bytes} {l : Leaf} {ls : List Leaf} {es : List Event}

/-- A file below the directory of a bucket that is not still being written. The name of one that is ends
in `.tmp`, with something before it. -/
structure Finished (found : FileTree) (bucket : Int) (names : List String) (content : Bytes) :
    Prop where
  below : names ≠ []
  file : found.at? (Bytes.ofText (toString bucket) :: names.map Bytes.ofText) = some (.file content)
  complete : ∀ stem, names.getLast? = some (stem ++ ".tmp") → stem = ""

/-- What a list of a bucket's events holds. -/
structure Listing (found : FileTree) (bucket : Int) (es : List Event) : Prop where
  /-- The events are those of the finished files with text in them: the key is the way to the file,
  the value the text. -/
  mem_iff : ∀ e, e ∈ es ↔ ∃ names, found.Finished bucket names (Bytes.ofText e.value) ∧
    e.key = "/".intercalate names
  /-- No two of them have the same key, so each file has one. -/
  distinct : (es.map (·.key)).Nodup
  /-- A key tells the way to its file. None of its segments is empty. -/
  segments : ∀ names content, found.Finished bucket names content →
    Text.pieces '/' ("/".intercalate names).toList = names.map String.toList ∧ "" ∉ names

/-! ## Keys -/

/-- Names in the form in which a key is made of them. -/
def Plain (names : List String) : Prop :=
  ∀ s ∈ names, s ≠ "" ∧ '/' ∉ s.toList

theorem exists_names {path : List Bytes} (h : ∀ b ∈ path, IsName b) :
    ∃ names, path = names.map Bytes.ofText ∧ Plain names := by
  induction path with
  | nil => exact ⟨[], rfl, List.forall_mem_nil _⟩
  | cons b path ih =>
    rw [List.forall_mem_cons] at h
    obtain ⟨s, rfl, hs⟩ := h.1
    obtain ⟨names, rfl, hnames⟩ := ih h.2
    exact ⟨s :: names, rfl, List.forall_mem_cons.2 ⟨hs, hnames⟩⟩

theorem plain_of_isName (h : ∀ b ∈ names.map Bytes.ofText, IsName b) : Plain names := by
  intro s hs
  obtain ⟨s', heq, hplain⟩ := h _ (List.mem_map_of_mem hs)
  rw [Bytes.ofText_inj.1 heq]
  exact hplain

/-- **The segments of a key are the names it is made of.** -/
theorem pieces_key (hne : names ≠ []) (h : Plain names) :
    Text.pieces '/' ("/".intercalate names).toList = names.map String.toList := by
  have hslash : "/".toList = ['/'] := rfl
  rw [String.toList_intercalate, hslash]
  refine Text.pieces_intercalate (by simpa using hne) fun p hp => ?_
  obtain ⟨s, hs, rfl⟩ := List.mem_map.1 hp
  exact (h s hs).2

theorem key_inj {names' : List String} (hne : names ≠ []) (h : Plain names) (hne' : names' ≠ [])
    (h' : Plain names') (heq : "/".intercalate names = "/".intercalate names') : names = names' := by
  have hpieces := pieces_key hne h
  rw [heq, pieces_key hne' h'] at hpieces
  exact (List.map_injective_iff.2 fun _ _ => String.toList_inj.1) hpieces.symm

theorem mapM_text? (names : List String) : (names.map Bytes.ofText).mapM Bytes.text? = some names := by
  induction names with
  | nil => rfl
  | cons s names ih =>
    rw [List.map_cons, List.mapM_cons, Bytes.text?_ofText, ih]
    rfl

theorem Leaf.place_eq_map : l.place = names.map Bytes.ofText ↔
    ∃ ways, l.way = ways.map Bytes.ofText ∧ names = ways ++ [l.name] := by
  constructor
  · intro h
    obtain ⟨ways, last, rfl, hways, hlast⟩ := List.map_eq_append_iff.1 h.symm
    obtain ⟨s, rfl, hs⟩ := List.map_eq_singleton_iff.1 hlast
    rw [Bytes.ofText_inj] at hs
    exact ⟨ways, hways.symm, by rw [hs]⟩
  · rintro ⟨ways, hway, rfl⟩
    rw [place, hway, List.map_append, List.map_singleton]

theorem Leaf.key?_eq (h : l.place = names.map Bytes.ofText) :
    l.key? = some ("/".intercalate names) := by
  obtain ⟨ways, hway, rfl⟩ := place_eq_map.1 h
  rw [key?, hway, mapM_text?]
  rfl

/-! ## Events -/

def Leaf.event? (l : Leaf) : Option Event :=
  l.key?.bind fun key => l.content.text?.map (⟨key, ·⟩)

theorem Leaf.event?_eq_some (h : l.place = names.map Bytes.ofText) {e : Event} :
    l.event? = some e ↔ e.key = "/".intercalate names ∧ l.content = Bytes.ofText e.value := by
  rw [event?, key?_eq h, Option.bind_some, Option.map_eq_some_iff]
  constructor
  · rintro ⟨value, hvalue, rfl⟩
    exact ⟨rfl, Bytes.text?_eq_some.1 hvalue⟩
  · rintro ⟨hkey, hcontent⟩
    exact ⟨e.value, Bytes.text?_eq_some.2 hcontent, by rw [← hkey]⟩

theorem eventsOf_inside (directory shown : String) (h : ∀ l ∈ ls, l.key?.isSome = true) :
    eventsOf directory shown false ls = .ok (ls.filterMap Leaf.event?) := by
  induction ls with
  | nil => rfl
  | cons l ls ih =>
    rw [List.forall_mem_cons] at h
    obtain ⟨key, hkey⟩ := Option.isSome_iff_exists.1 h.1
    rw [eventsOf, if_neg Bool.false_ne_true, hkey, ih h.2]
    dsimp only
    cases hvalue : l.content.text? with
    | none =>
      have hnone : l.event? = none := by
        rw [Leaf.event?, hkey, Option.bind_some, hvalue]
        rfl
      rw [List.filterMap_cons_none hnone]
    | some value =>
      have hsome : l.event? = some ⟨key, value⟩ := by
        rw [Leaf.event?, hkey, Option.bind_some, hvalue]
        rfl
      rw [List.filterMap_cons_some hsome]

/-! ## Listings -/

section Listing

variable (hfound : found.at? [Bytes.ofText (toString bucket)] = some (.directory entries))
  (hnamed : (directory entries).Named)

include hfound

theorem finished_at? : found.at? (Bytes.ofText (toString bucket) :: names.map Bytes.ofText) =
    (directory entries).at? (names.map Bytes.ofText) := by
  rw [← List.singleton_append, at?_append, hfound, Option.bind_some]

include hnamed

/-- **The finished files of a bucket are the leaves of its directory.** -/
theorem finished_iff : found.Finished bucket names content ↔
    ∃ l ∈ leavesOf [] entries, l.place = names.map Bytes.ofText ∧ l.content = content := by
  have hat : _ = (directory entries).at? (names.map Bytes.ofText) := finished_at? hfound
  constructor
  · rintro ⟨hbelow, hfile, hcomplete⟩
    have hsplit := List.dropLast_append_getLast hbelow
    have hlast := List.getLast?_eq_some_getLast hbelow
    have hplace : (⟨names.dropLast.map Bytes.ofText, names.getLast hbelow, content⟩ : Leaf).place =
        names.map Bytes.ofText :=
      Leaf.place_eq_map.2 ⟨_, rfl, hsplit.symm⟩
    refine ⟨_, (hnamed.mem_leavesOf _).2 ⟨?_, Bool.eq_false_iff.2 fun hpartial => ?_⟩, hplace, rfl⟩
    · rw [hplace, ← hat, hfile]
    · obtain ⟨stem, hne, hstem⟩ := (isPartial_iff _).1 hpartial
      exact hne (hcomplete stem (hlast.trans (congrArg some hstem)))
  · rintro ⟨l, hl, hplace, rfl⟩
    obtain ⟨hfile, hpartial⟩ := (hnamed.mem_leavesOf l).1 hl
    obtain ⟨ways, -, rfl⟩ := Leaf.place_eq_map.1 hplace
    refine ⟨by simp, by rw [hat, ← hplace, hfile], fun stem hstem => ?_⟩
    rw [List.getLast?_concat, Option.some.injEq] at hstem
    by_contra hne
    rw [(isPartial_iff _).2 ⟨stem, hne, hstem⟩] at hpartial
    cases hpartial

omit hfound in
theorem exists_place (hl : l ∈ leavesOf [] entries) :
    ∃ names, l.place = names.map Bytes.ofText ∧ names ≠ [] ∧ Plain names := by
  have hnames := hnamed.isName ((hnamed.mem_leavesOf l).1 hl).1
  obtain ⟨names, hplace, hplain⟩ := exists_names hnames
  obtain ⟨ways, -, rfl⟩ := Leaf.place_eq_map.1 hplace
  exact ⟨_, hplace, by simp, hplain⟩

theorem Finished.plain (h : found.Finished bucket names content) : Plain names := by
  obtain ⟨l, hl, hplace, -⟩ := (finished_iff hfound hnamed).1 h
  exact plain_of_isName (hplace ▸ hnamed.isName ((hnamed.mem_leavesOf l).1 hl).1)

theorem listing_of_perm (hperm : ls.Perm (leavesOf [] entries)) :
    found.Listing bucket (ls.filterMap Leaf.event?) where
  mem_iff e := by
    rw [List.mem_filterMap]
    constructor
    · rintro ⟨l, hl, he⟩
      have hl := hperm.mem_iff.1 hl
      obtain ⟨names, hplace, -⟩ := exists_place hnamed hl
      obtain ⟨hkey, hcontent⟩ := (Leaf.event?_eq_some hplace).1 he
      exact ⟨names, (finished_iff hfound hnamed).2 ⟨l, hl, hplace, hcontent⟩, hkey⟩
    · rintro ⟨names, hfinished, hkey⟩
      obtain ⟨l, hl, hplace, hcontent⟩ := (finished_iff hfound hnamed).1 hfinished
      exact ⟨l, hperm.mem_iff.2 hl, (Leaf.event?_eq_some hplace).2 ⟨hkey, hcontent⟩⟩
  distinct := by
    have hpairwise := hperm.pairwise_iff (fun h => Ne.symm h) |>.2 hnamed.pairwise_leavesOf
    rw [List.Nodup, List.pairwise_map, List.pairwise_filterMap]
    refine hpairwise.imp_of_mem fun {l m} hl hm hne e he f hf hkey => hne ?_
    obtain ⟨names, hplace, hbelow, hplain⟩ := exists_place hnamed (hperm.mem_iff.1 hl)
    obtain ⟨names', hplace', hbelow', hplain'⟩ := exists_place hnamed (hperm.mem_iff.1 hm)
    rw [((Leaf.event?_eq_some hplace).1 he).1, ((Leaf.event?_eq_some hplace').1 hf).1] at hkey
    rw [hplace, hplace', key_inj hbelow hplain hbelow' hplain' hkey]
  segments names content h := by
    have hplain := h.plain hfound hnamed
    exact ⟨pieces_key h.below hplain, fun hempty => (hplain _ hempty).1 rfl⟩

omit hfound in
theorem isSome_key? (hl : l ∈ leavesOf [] entries) : l.key?.isSome = true := by
  obtain ⟨names, hplace, -⟩ := exists_place hnamed hl
  rw [Leaf.key?_eq hplace]
  rfl

end Listing

section Absent

variable (h : ∀ entries, found.at? [Bytes.ofText (toString bucket)] ≠ some (.directory entries))

include h

theorem not_finished : ¬ found.Finished bucket names content := by
  rintro ⟨hbelow, hfile, -⟩
  rw [← List.singleton_append, at?_append, Option.bind_eq_some_iff] at hfile
  obtain ⟨t, ht, hat⟩ := hfile
  cases t with
  | directory entries => exact h entries ht
  | file content =>
    cases names with
    | nil => exact hbelow rfl
    | cons => cases hat

theorem listing_nil : found.Listing bucket [] where
  mem_iff e := by
    refine ⟨fun he => absurd he List.not_mem_nil, ?_⟩
    rintro ⟨names, hfinished, -⟩
    exact absurd hfinished (not_finished h)
  distinct := .nil
  segments _ _ hfinished := absurd hfinished (not_finished h)

theorem source_nil (root : String) : source root found bucket = .ok [] := by
  rw [source]
  cases hat : found.at? [Bytes.ofText (toString bucket)] with
  | none => rfl
  | some t =>
    cases t with
    | file => rfl
    | directory entries => exact absurd hat (h entries)

end Absent

/-- **The source of a bucket lists its finished files**, each once, where the root is not given from
the current directory on. From there it lists nothing, and fails as soon as there is a file. A bucket
that is not there has no events. -/
theorem source_listing (root : String) (found : FileTree) (bucket : Int)
    (hnamed : ∀ t, found.at? [Bytes.ofText (toString bucket)] = some t → t.Named) :
    let directory := bucketDirectory root bucket
    (startsAtCurrent directory = false →
      ∃ es, source root found bucket = .ok es ∧ found.Listing bucket es) ∧
    (startsAtCurrent directory = true → ∀ names content, found.Finished bucket names content →
      ∃ path, source root found bucket = .error (.path (.outside path directory))) ∧
    (found.at? [Bytes.ofText (toString bucket)] = none → source root found bucket = .ok []) := by
  intro directory
  by_cases hdir : ∃ entries, found.at? [Bytes.ofText (toString bucket)] = some (.directory entries)
  · obtain ⟨entries, hfound⟩ := hdir
    have hnamed := hnamed _ hfound
    have hperm := hnamed.leavesOf_sorted
    rw [source, hfound, events]
    refine ⟨fun hroot => ?_, fun hroot names content hfinished => ?_, fun hnone => nomatch hnone⟩
    · rw [hroot, eventsOf_inside _ _ fun l hl => isSome_key? hnamed (hperm.mem_iff.1 hl)]
      exact ⟨_, rfl, listing_of_perm hfound hnamed hperm⟩
    · obtain ⟨l, hl, -⟩ := (finished_iff hfound hnamed).1 hfinished
      rw [hroot]
      cases hleaves : leavesOf [] (sortedEntries entries) with
      | nil =>
        rw [hleaves] at hperm
        exact absurd (hperm.mem_iff.2 hl) List.not_mem_nil
      | cons m ls =>
        rw [eventsOf, if_pos rfl]
        exact ⟨_, rfl⟩
  · rw [not_exists] at hdir
    exact ⟨fun _ => ⟨[], source_nil hdir root, listing_nil hdir⟩,
      fun _ names content hfinished => absurd hfinished (not_finished hdir),
      fun _ => source_nil hdir root⟩

/-- A bucket with two files that are not finished. The name of one of them is nothing but its ending. -/
def unfinished : FileTree :=
  .directory [(Bytes.ofText "0", .directory
    [(Bytes.ofText ".tmp", .file (Bytes.ofText "a")),
      (Bytes.ofText "new.tmp", .file (Bytes.ofText "b"))])]

/-- The file with nothing but the ending is listed, the other is not. -/
theorem source_listing_unfinished :
    (∀ t, unfinished.at? [Bytes.ofText (toString (0 : Int))] = some t → t.Named) ∧
      startsAtCurrent (bucketDirectory "events" 0) = false ∧
      ∃ es, source "events" unfinished 0 = .ok es ∧ ⟨".tmp", "a"⟩ ∈ es ∧
        ∀ e ∈ es, e.key ≠ "new.tmp" := by
  have hroot : startsAtCurrent (bucketDirectory "events" 0) = false := by decide +kernel
  have hzero : toString (0 : Int) = "0" := rfl
  have hname : ∀ s : String, s ≠ "" → '/' ∉ s.toList → IsName (Bytes.ofText s) :=
    fun s h h' => ⟨s, rfl, h, h'⟩
  have hnamed : ∀ t, unfinished.at? [Bytes.ofText (toString (0 : Int))] = some t → t.Named := by
    intro t ht
    simp only [hzero, unfinished, at?, List.lookup_cons, beq_self_eq_true, Option.some.injEq] at ht
    subst ht
    refine .directory ?_ ?_ ?_
    · simp [Bytes.ofText_inj]
    · simp only [List.forall_mem_cons, List.not_mem_nil, false_imp_iff, implies_true, and_true]
      exact ⟨hname _ (by decide) (by decide), hname _ (by decide) (by decide)⟩
    · simp only [List.forall_mem_cons, List.not_mem_nil, false_imp_iff, implies_true, and_true]
      exact ⟨.file _, .file _⟩
  obtain ⟨es, hes, hlisting⟩ := (source_listing "events" unfinished 0 hnamed).1 hroot
  have hdot : unfinished.Finished 0 [".tmp"] (Bytes.ofText "a") := by
    refine ⟨List.cons_ne_nil _ _, ?_, fun stem hstem => ?_⟩
    · simp [hzero, unfinished, at?]
    · rw [List.getLast?_singleton, Option.some.injEq] at hstem
      have := congrArg String.length hstem
      rw [String.length_append] at this
      exact String.length_eq_zero_iff.1 (by simpa using this)
  refine ⟨hnamed, hroot, es, hes, (hlisting.mem_iff _).2 ⟨_, hdot, rfl⟩, fun e he hkey => ?_⟩
  obtain ⟨names, hfinished, hnames⟩ := (hlisting.mem_iff e).1 he
  have hpieces := (hlisting.segments _ _ hfinished).1
  rw [← hnames, hkey] at hpieces
  have hnew : names = ["new.tmp"] := by
    refine (List.map_injective_iff.2 fun _ _ => String.toList_inj.1) (hpieces.symm.trans ?_)
    decide
  exact absurd (hfinished.complete "new" (by rw [hnew]; rfl)) (by decide)

end FileTree

end WindowAlign
