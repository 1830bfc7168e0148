import WindowAlign.Proofs.Ingest.Stages
import WindowAlign.Proofs.Json.Single
import WindowAlign.Proofs.Text.Cutting

/-!
# Layouts of blocks

The same time and fields can be written in many ways: with byte-order marks in front, with one line
end or the other and with or without one at the very end, with blanks around every part of a line, and
with lines between that are no fields. A `Layout` is one of these ways. Whatever it is, decoding what
was laid out gives the time and the fields back (`Layout.reads_text`), because each step of decoding
takes away one of these differences and nothing of the rest: lines are cut at line feeds, which no
part of a line has, what is trimmed off a line is its margins, and the first colon is that behind the
name.
-/

namespace WindowAlign

/-! ## Parts of a line -/

structure Margin where
  text : List Char
  blank : text.all Text.isBlank = true
  oneLine : '\n' ∉ text

def Margin.none : Margin :=
  ⟨[], rfl, by simp⟩

/-- A text without blanks at its ends and without a line feed. It may be empty. -/
structure Word where
  text : List Char
  start : Text.trimStart text = text
  stop : Text.trimEnd text = text
  oneLine : '\n' ∉ text

structure FieldName extends Word where
  noColon : ':' ∉ text

/-- The two ends that a line may have. -/
inductive LineEnd where
  | lf
  | crlf
  deriving DecidableEq

/-- What stands before the line feed. -/
def LineEnd.mark : LineEnd → List Char
  | lf => []
  | crlf => ['\r']

def LineEnd.text (e : LineEnd) : List Char :=
  e.mark ++ ['\n']

/-- A line below the header: a field, or something without a colon that is none. -/
inductive BodyLine where
  | field (before : Margin) (name : FieldName) (left right : Margin) (value : Word) (after : Margin)
  | other (text : List Char) (oneLine : '\n' ∉ text) (noColon : ':' ∉ text)

namespace BodyLine

def text : BodyLine → List Char
  | field before name left right value after =>
    (before.text ++ name.text ++ left.text) ++ ':' :: (right.text ++ value.text ++ after.text)
  | other text _ _ => text

def pair? : BodyLine → Option (FieldName × Word)
  | field _ name _ _ value _ => some (name, value)
  | other _ _ _ => none

end BodyLine

/-- A way to write a block. Each line stands with the end of the line above it, so that the last one may
have none. -/
structure Layout where
  marks : Nat
  before : Margin
  after : Margin
  lines : List (LineEnd × BodyLine)
  last : Option LineEnd

namespace Layout

/-- What is behind the header. -/
def below (lines : List (LineEnd × BodyLine)) (last : Option LineEnd) : List Char :=
  lines.flatMap (fun l => l.1.text ++ l.2.text) ++ last.elim [] LineEnd.text

/-- The lines below the header without the blanks around them, with an empty one behind the last line
end. -/
def trimmed (lines : List (LineEnd × BodyLine)) (last : Option LineEnd) : List (List Char) :=
  lines.map (fun l => Text.trim l.2.text) ++ last.elim [] fun _ => [[]]

def pairs (l : Layout) : List (FieldName × Word) :=
  l.lines.filterMap (·.2.pair?)

end Layout

namespace Block

/-- The header line that a writer gives a block. -/
def stamp (t : Int) : List Char :=
  ("\x7b\"current_time\":" ++ t.repr ++ "\x7d").toList

/-- A header and a line for each field, all of them with a line feed and nothing else. -/
def write (t : Int) (pairs : List (FieldName × Word)) : String :=
  String.ofList (stamp t ++ '\n' :: pairs.flatMap fun p => p.1.text ++ ':' :: (p.2.text ++ ['\n']))

def fieldOf (p : FieldName × Word) : String × String :=
  (String.ofList p.1.text, String.ofList p.2.text)

/-- A text decodes to a time and fields. -/
def Reads (value : String) (t : Int) (pairs : List (FieldName × Word)) : Prop :=
  ∃ block, ofText value = .ok block ∧ block.time = t ∧ block.fields = pairs.map fieldOf

end Block

def Layout.text (l : Layout) (t : Int) : String :=
  String.ofList (List.replicate l.marks '\ufeff' ++
    (l.before.text ++ Block.stamp t ++ l.after.text ++ below l.lines l.last))

/-! ## Lines -/

theorem Word.trim (w : Word) : Text.trim w.text = w.text := by
  rw [Text.trim, w.start, w.stop]

theorem Margin.not_mem_colon (m : Margin) : ':' ∉ m.text :=
  fun h => absurd (List.all_eq_true.1 m.blank _ h) (by decide)

theorem LineEnd.blank (e : LineEnd) : e.mark.all Text.isBlank = true := by
  cases e <;> rfl

theorem LineEnd.oneLine (e : LineEnd) : '\n' ∉ e.mark := by
  cases e <;> decide

theorem LineEnd.trim_mark (e : LineEnd) (s : List Char) : Text.trim (s ++ e.mark) = Text.trim s :=
  Text.trim_append (a := []) rfl e.blank

namespace BodyLine

theorem oneLine (l : BodyLine) : '\n' ∉ l.text := by
  cases l with
  | field before name left right value after =>
    simp only [text, List.mem_append, List.mem_cons, not_or]
    exact ⟨⟨⟨before.oneLine, name.oneLine⟩, left.oneLine⟩, by decide,
      ⟨⟨right.oneLine, value.oneLine⟩, after.oneLine⟩⟩
  | other _ oneLine _ => exact oneLine

/-- **A line without the blanks around it is read as the field that it lays out.** -/
theorem field?_trim (l : BodyLine) :
    Block.field? (Text.trim l.text) = l.pair?.map Block.fieldOf := by
  cases l with
  | field before name left right value after =>
    have hname : ':' ∉ Text.trimStart (before.text ++ name.text ++ left.text) := fun h => by
      have hmem := Text.mem_of_mem_trimStart h
      simp only [List.mem_append] at hmem
      rcases hmem with (hmem | hmem) | hmem
      · exact before.not_mem_colon hmem
      · exact name.noColon hmem
      · exact left.not_mem_colon hmem
    rw [text, Text.trim_separated (by decide), Block.field?, Text.cut?_append hname, Option.map_some,
      Text.trim_trimStart, Text.trim_trimEnd, Text.trim_append before.blank left.blank,
      Text.trim_append right.blank after.blank, name.trim, value.trim]
    rfl
  | other text oneLine noColon =>
    have hcolon : ':' ∉ Text.trim (other text oneLine noColon).text := fun h =>
      noColon (Text.mem_of_mem_trim h)
    rw [Block.field?, Text.cut?_eq_none hcolon]
    rfl

end BodyLine

/-! ## Cutting into lines -/

namespace Layout

theorem below_cons (l : LineEnd × BodyLine) (lines : List (LineEnd × BodyLine))
    (last : Option LineEnd) :
    below (l :: lines) last = l.1.text ++ l.2.text ++ below lines last := by
  rw [below, List.flatMap_cons, List.append_assoc, ← below]

/-- The lines of a text that begins with `head` and goes on with what a layout has below the header. -/
theorem map_trim_pieces (lines : List (LineEnd × BodyLine)) (last : Option LineEnd)
    {head : List Char} (hhead : '\n' ∉ head) :
    (Text.pieces '\n' (head ++ below lines last)).map Text.trim =
      Text.trim head :: trimmed lines last := by
  have hmark (e : LineEnd) : '\n' ∉ head ++ e.mark := fun h =>
    (List.mem_append.1 h).elim hhead e.oneLine
  induction lines generalizing head with
  | nil =>
    cases last with
    | none =>
      rw [show head ++ below [] none = head from List.append_nil _, Text.pieces_eq_singleton hhead]
      rfl
    | some e =>
      rw [show head ++ below [] (some e) = (head ++ e.mark) ++ '\n' :: [] by simp [below, LineEnd.text],
        Text.pieces_append (hmark e), List.map_cons, e.trim_mark]
      rfl
  | cons l lines ih =>
    have hnext : head ++ below (l :: lines) last =
        (head ++ l.1.mark) ++ '\n' :: (l.2.text ++ below lines last) := by
      simp [below_cons, LineEnd.text]
    rw [hnext, Text.pieces_append (hmark l.1), List.map_cons, l.1.trim_mark, ih l.2.oneLine
      fun e h => (List.mem_append.1 h).elim l.2.oneLine e.oneLine]
    rfl

theorem filterMap_trimmed (l : Layout) :
    (trimmed l.lines l.last).filterMap Block.field? = l.pairs.map Block.fieldOf := by
  have hlast : (l.last.elim [] fun _ => [[]]).filterMap Block.field? = [] := by
    cases l.last <;> rfl
  rw [trimmed, List.filterMap_append, hlast, List.append_nil, List.filterMap_map, pairs,
    List.map_filterMap]
  exact List.filterMap_congr fun line _ => line.2.field?_trim

end Layout

namespace Block

theorem trim_split {text header : List Char} {rest : List (List Char)}
    (h : (Text.pieces '\n' text).map Text.trim = header :: rest) :
    Text.trim (split text).1 = header ∧ bodyLines (split text).2 = rest.filter (!·.isEmpty) := by
  rw [Text.pieces_eq_cut?] at h
  unfold split
  cases hcut : Text.cut? '\n' text with
  | none =>
    rw [hcut] at h
    obtain ⟨hheader, rfl⟩ := List.cons.inj h
    exact ⟨hheader, rfl⟩
  | some p =>
    rw [hcut] at h
    obtain ⟨hheader, hrest⟩ := List.cons.inj h
    exact ⟨hheader, congrArg (List.filter _) hrest⟩

theorem filterMap_field?_filter (lines : List (List Char)) :
    (lines.filter (!·.isEmpty)).filterMap field? = lines.filterMap field? := by
  rw [List.filterMap_filter]
  refine List.filterMap_congr fun line _ => ?_
  cases line <;> rfl

/-! ## Headers -/

theorem stamp_eq (t : Int) : stamp t = Json.single "current_time".toList t := by
  rw [stamp, String.toList_append, String.toList_append, List.append_assoc,
    show "\x7b\"current_time\":".toList = '\x7b' :: '"' :: ("current_time".toList ++ ['"', ':']) by
      decide,
    List.cons_append, List.cons_append, List.append_assoc]
  rfl

/-- **The header of a writer tells its time.** -/
theorem tells_stamp {t : Int} (ht : Signed64.fits t = true) : Tells (stamp t) t := by
  rw [stamp_eq]
  refine ⟨_, .int t, Json.ofText?_single (by decide) ht, rfl, ?_⟩
  rw [Json.signed?, if_pos (Signed64.fits_iff.1 ht).2]

theorem trim_stamp (t : Int) : Text.trim (stamp t) = stamp t := by
  have hbraces : stamp t = [] ++ '\x7b' ::
      (('"' :: ("current_time".toList ++ '"' :: ':' :: t.repr.toList)) ++ '\x7d' :: []) := by
    rw [stamp_eq, Json.single]
    simp
  rw [hbraces, Text.trim_separated (by decide), Text.trimEnd_separated (by decide)]
  rfl

theorem stamp_oneLine (t : Int) : '\n' ∉ stamp t := by
  have hnumber : '\n' ∉ t.repr.toList := fun h => by
    have := Json.mem_repr h
    revert this
    decide
  rw [stamp, String.toList_append, String.toList_append]
  simp only [List.mem_append, not_or]
  exact ⟨⟨by decide, hnumber⟩, by decide⟩

theorem dropWhile_marks (k : Nat) (m : Margin) (t : Int) (rest : List Char) :
    (List.replicate k '\ufeff' ++ (m.text ++ stamp t ++ rest)).dropWhile (· == '\ufeff') =
      m.text ++ stamp t ++ rest := by
  rw [List.dropWhile_append_of_pos fun c hc => beq_iff_eq.2 (List.eq_of_mem_replicate hc)]
  cases hm : m.text with
  | nil =>
    rw [stamp_eq]
    rfl
  | cons c r =>
    have hblank := List.all_eq_true.1 m.blank c (hm ▸ List.mem_cons_self)
    refine List.dropWhile_cons_of_neg fun hc => ?_
    rw [eq_of_beq hc] at hblank
    exact absurd hblank (by decide)

end Block

/-! ## Decoding -/

namespace Layout

/-- **Decoding gives back what was laid out.** -/
theorem reads_text (l : Layout) {t : Int} (ht : Signed64.fits t = true) :
    Block.Reads (l.text t) t l.pairs := by
  have hhead : '\n' ∉ l.before.text ++ Block.stamp t ++ l.after.text := by
    simp only [List.mem_append, not_or]
    exact ⟨⟨l.before.oneLine, Block.stamp_oneLine t⟩, l.after.oneLine⟩
  have hlines := Block.trim_split (map_trim_pieces l.lines l.last hhead)
  rw [Text.trim_append l.before.blank l.after.blank, Block.trim_stamp] at hlines
  have htext : (l.text t).toList.dropWhile (· == '\ufeff') =
      l.before.text ++ Block.stamp t ++ l.after.text ++ below l.lines l.last := by
    rw [text, String.toList_ofList, List.append_assoc (_ ++ _), Block.dropWhile_marks]
  have hheader : Block.header (l.text t) = Block.stamp t := by
    rw [Block.header, htext, hlines.1]
  have hbody : Block.body (l.text t) = (trimmed l.lines l.last).filter (!·.isEmpty) := by
    rw [Block.body, htext, hlines.2]
  refine ⟨_, Block.ofText_of_tells (hheader ▸ Block.tells_stamp ht), rfl, ?_⟩
  rw [Block.fields, hbody, Block.filterMap_field?_filter, filterMap_trimmed]

/-- The layout of a writer that adds nothing. -/
def plain (pairs : List (FieldName × Word)) : Layout where
  marks := 0
  before := .none
  after := .none
  lines := pairs.map fun p => (.lf, .field .none p.1 .none .none p.2 .none)
  last := some .lf

theorem pairs_plain (pairs : List (FieldName × Word)) : (plain pairs).pairs = pairs := by
  rw [Layout.pairs, plain, List.filterMap_map]
  exact List.filterMap_some

theorem text_plain (t : Int) (pairs : List (FieldName × Word)) :
    (plain pairs).text t = Block.write t pairs := by
  -- The line ends stand in front of the lines in one text and behind them in the other.
  have hbelow : below (plain pairs).lines (some .lf) =
      '\n' :: pairs.flatMap fun p => p.1.text ++ ':' :: (p.2.text ++ ['\n']) := by
    induction pairs with
    | nil => rfl
    | cons p pairs ih =>
      have hlines : (plain (p :: pairs)).lines =
        (.lf, .field .none p.1 .none .none p.2 .none) :: (plain pairs).lines := rfl
      rw [hlines, below_cons, ih, List.flatMap_cons]
      simp [LineEnd.text, LineEnd.mark, BodyLine.text, Margin.none]
  rw [text, Block.write, ← hbelow]
  simp [plain, Margin.none]

end Layout

/-- **A block decodes to what the writer put in, however it is laid out.** -/
theorem Block.reads_write {t : Int} (ht : Signed64.fits t = true) (pairs : List (FieldName × Word)) :
    Reads (write t pairs) t pairs ∧ ∀ l : Layout, l.pairs = pairs → Reads (l.text t) t pairs := by
  have hlayout (l : Layout) (hl : l.pairs = pairs) : Reads (l.text t) t pairs :=
    hl ▸ l.reads_text ht
  exact ⟨Layout.text_plain t pairs ▸ hlayout _ (Layout.pairs_plain pairs), hlayout⟩

/-- A name with a space in it and a value with colons and a carriage return. -/
def Block.oddField : FieldName × Word :=
  (⟨⟨['a', ' ', 'b'], rfl, rfl, by decide⟩, by decide⟩,
    ⟨[':', 'c', '\r', ':', 'd'], rfl, rfl, by decide⟩)

/-- A name without a value. -/
def Block.bareField : FieldName × Word :=
  (⟨⟨['e'], rfl, rfl, by decide⟩, by decide⟩, ⟨[], rfl, rfl, by decide⟩)

/-- A layout of the two with marks, both line ends, blanks, and lines that are no fields. -/
def Block.oddLayout : Layout where
  marks := 2
  before := ⟨[' '], rfl, by decide⟩
  after := ⟨['\t', ' '], rfl, by decide⟩
  lines := [(.crlf, .other ['f', '\r', 'g'] (by decide) (by decide)),
    (.lf, .field .none oddField.1 ⟨[' '], rfl, by decide⟩ ⟨['\t'], rfl, by decide⟩
      oddField.2 .none),
    (.crlf, .other [' ', '\r'] (by decide) (by decide)),
    (.lf, .field ⟨[' '], rfl, by decide⟩ bareField.1 .none .none bareField.2 .none)]
  last := none

/-- Both ways to write the two fields are read as them. -/
theorem Block.reads_write_odd : Signed64.fits (-12) = true ∧
    oddLayout.pairs = [oddField, bareField] ∧
    Reads (write (-12) [oddField, bareField]) (-12) [oddField, bareField] ∧
    Reads (oddLayout.text (-12)) (-12) [oddField, bareField] :=
  have hfits : Signed64.fits (-12) = true := by decide
  have hreads := reads_write hfits [oddField, bareField]
  ⟨hfits, rfl, hreads.1, hreads.2 oddLayout rfl⟩

end WindowAlign
