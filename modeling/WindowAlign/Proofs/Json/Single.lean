import WindowAlign.Json.Reader

/-!
# Objects of one number

A JSON object that has one member, a signed word in decimal under a name of plain characters, is read
back as that member (`Json.ofText?_single`). The digits of a number are one literal without a zero in
front, which denotes the number, and what a number begins with no other value does.
-/

namespace WindowAlign

namespace Json

/-! ## Decimal digits -/

def digitsOf (cs : List Char) : List Nat :=
  cs.map fun c => c.toNat - '0'.toNat

theorem digit?_of_isDigit {c : Char} (h : c.isDigit = true) :
    Signed64.digit? c = some (c.toNat - '0'.toNat) := by
  rw [Char.isDigit, Bool.and_eq_true, decide_eq_true_iff, decide_eq_true_iff] at h
  rw [Signed64.digit?, if_pos ⟨h.1, h.2⟩]

theorem digits_append {cs rest : List Char} (hcs : ∀ c ∈ cs, c.isDigit = true)
    (hrest : Syntax.digits rest = ([], rest)) :
    Syntax.digits (cs ++ rest) = (digitsOf cs, rest) := by
  induction cs with
  | nil => exact hrest
  | cons c cs ih =>
    rw [List.cons_append, Syntax.digits, digit?_of_isDigit (hcs c List.mem_cons_self)]
    simp only [ih fun d hd => hcs d (List.mem_cons_of_mem _ hd)]
    rfl

theorem ofDigits_toDigits (n : Nat) : Decimal.ofDigits (digitsOf (Nat.toDigits 10 n)) = n := by
  refine Eq.trans ?_ Nat.ofDigitChars_ten_toDigits
  rw [Decimal.ofDigits, digitsOf, List.foldl_map, Nat.ofDigitChars]
  simp only [Nat.mul_comm]

/-- Zero alone has a zero in front. -/
theorem toDigits_eq_cons (n : Nat) :
    ∃ c cs, Nat.toDigits 10 n = c :: cs ∧ (c.toNat - '0'.toNat = 0 → cs = []) := by
  induction n using Nat.strongRecOn with
  | ind n ih =>
    rw [Nat.toDigits_eq_if (by decide)]
    split
    · exact ⟨_, [], rfl, fun _ => rfl⟩
    · obtain ⟨c, cs, hcs, hzero⟩ := ih (n / 10) (by omega)
      refine ⟨c, cs ++ [(n % 10).digitChar], by rw [hcs, List.cons_append], fun hc => ?_⟩
      have hvalue := Nat.ofDigitChars_ten_toDigits (n := n / 10)
      rw [hcs, hzero hc] at hvalue
      have : n / 10 = 0 := hvalue.symm.trans ((Nat.zero_add _).trans hc)
      omega

theorem isDigit_of_mem_toDigits {n : Nat} {c : Char} (h : c ∈ Nat.toDigits 10 n) :
    c.isDigit = true :=
  Nat.isDigit_of_mem_toDigits (by decide) (by decide) h

/-! ## Numbers -/

theorem unsigned?_toDigits (negative : Bool) (n : Nat) :
    Syntax.unsigned? negative (Nat.toDigits 10 n ++ ['\x7d']) =
      some (⟨negative, digitsOf (Nat.toDigits 10 n), none, none⟩, ['\x7d']) := by
  obtain ⟨c, cs, hcs, hzero⟩ := toDigits_eq_cons n
  have hsome : Syntax.someDigits? (Nat.toDigits 10 n ++ ['\x7d']) =
      some (digitsOf (Nat.toDigits 10 n), ['\x7d']) := by
    unfold Syntax.someDigits?
    rw [digits_append (fun _ => isDigit_of_mem_toDigits) rfl, hcs]
    rfl
  have hplain : ¬ ((digitsOf (Nat.toDigits 10 n)).head? = some 0 ∧
      1 < (digitsOf (Nat.toDigits 10 n)).length) := by
    rw [hcs]
    rintro ⟨hhead, hlength⟩
    rw [hzero (Option.some.inj hhead)] at hlength
    exact absurd hlength (by decide : ¬ 1 < 1)
  unfold Syntax.unsigned?
  rw [hsome]
  simp only [Option.bind_eq_bind, Option.bind_some]
  rw [if_neg hplain]
  rfl

theorem number?_repr (t : Int) :
    Syntax.number? (t.repr.toList ++ ['\x7d']) =
      some (⟨decide (t < 0), digitsOf (Nat.toDigits 10 t.natAbs), none, none⟩, ['\x7d']) := by
  rw [Int.repr_eq_if]
  split
  · rename_i hpos
    obtain ⟨c, cs, hcs, -⟩ := toDigits_eq_cons t.natAbs
    have hdigit : c.isDigit = true := isDigit_of_mem_toDigits (hcs ▸ List.mem_cons_self)
    rw [Nat.toList_repr, show t.toNat = t.natAbs by omega, decide_eq_false (by omega),
      ← unsigned?_toDigits, hcs]
    unfold Syntax.number?
    split
    · rename_i h
      rw [(List.cons.inj h).1] at hdigit
      exact absurd hdigit (by decide)
    · rfl
  · rename_i hneg
    rw [String.toList_append, Nat.toList_repr, show (-t).toNat = t.natAbs by omega,
      decide_eq_true (by omega), ← unsigned?_toDigits]
    rfl

/-- **The literal of a signed word denotes it.** -/
theorem value?_repr {t : Int} (ht : Signed64.fits t = true) :
    Literal.value? ⟨decide (t < 0), digitsOf (Nat.toDigits 10 t.natAbs), none, none⟩ =
      some (.int t) := by
  obtain ⟨hleast, hgreatest⟩ := Signed64.fits_iff.1 ht
  unfold Literal.value?
  simp only [ofDigits_toDigits, Option.isSome_none, Bool.or_self, Bool.false_eq_true, if_false]
  by_cases hneg : t < 0
  · rw [decide_eq_true hneg, if_pos rfl, if_pos (by omega)]
    rw [show -(t.natAbs : Int) = t by omega]
  · rw [decide_eq_false hneg, if_neg (by decide), if_pos ?_]
    · rw [show (t.natAbs : Int) = t by omega]
    · have hword : Literal.greatestWord = 18446744073709551615 := rfl
      unfold Signed64.greatest at hgreatest
      omega

/-- What a number begins with, no other value and no blank does. -/
theorem value?_number {n : Nat} {c : Char} {r : List Char} (hc : c = '-' ∨ c.isDigit = true) :
    Syntax.value? (n + 1) (c :: r) =
      (Syntax.number? (c :: r)).map fun p => (.number p.1, p.2) := by
  have hne {d : Char} (hminus : d ≠ '-') (hdigit : d.isDigit = false) : c ≠ d := by
    rintro rfl
    rcases hc with rfl | hc
    · exact hminus rfl
    · rw [hdigit] at hc
      cases hc
  have hblank : Syntax.skipBlanks (c :: r) = c :: r := by
    refine List.dropWhile_cons_of_neg ?_
    simp only [Syntax.isBlank, Bool.or_eq_true, beq_iff_eq, not_or]
    exact ⟨⟨⟨hne (by decide) (by decide), hne (by decide) (by decide)⟩,
      hne (by decide) (by decide)⟩, hne (by decide) (by decide)⟩
  rw [Syntax.value?, hblank]
  split
  case h_7 => rfl
  all_goals
    rename_i h
    exact absurd (List.cons.inj h).1 (hne (by decide) (by decide))

/-! ## Names -/

/-- Whether a character stands for itself in a string. -/
def isPlain (c : Char) : Bool :=
  0x20 ≤ c.toNat && c != '"' && c != '\\'

theorem string?_plain {cs rest : List Char} (hcs : cs.all isPlain = true) :
    Syntax.string? (cs ++ '"' :: rest) = some (cs.map .char, rest) := by
  induction cs with
  | nil => rfl
  | cons c cs ih =>
    rw [List.all_cons, Bool.and_eq_true, isPlain, Bool.and_eq_true, Bool.and_eq_true,
      decide_eq_true_iff, bne_iff_ne, bne_iff_ne] at hcs
    obtain ⟨⟨⟨hcontrol, hquote⟩, hescape⟩, hrest⟩ := hcs
    rw [List.cons_append, Syntax.string?.eq_def]
    split
    case h_1 h => cases h
    case h_2 h => exact absurd (List.cons.inj h).1 hquote
    case h_3 h => exact absurd (List.cons.inj h).1 hescape
    case h_4 h => exact absurd (List.cons.inj h).1 hescape
    case h_5 h =>
      obtain ⟨rfl, rfl⟩ := List.cons.inj h
      rw [if_neg (fun h => h.elim (Nat.not_lt_of_le hcontrol) hescape), ih hrest]
      rfl

theorem textOf?_chars (cs : List Char) : textOf? (cs.map .char) = some cs := by
  induction cs with
  | nil => rfl
  | cons c cs ih => rw [List.map_cons, textOf?, ih, Option.map_some]

/-! ## Headers -/

theorem value?_object (n : Nat) (r : List Char) : Syntax.value? (n + 1) ('\x7b' :: '"' :: r) =
    (Syntax.members? n ('"' :: r)).map fun p => (.object p.1, p.2) := by
  rw [Syntax.value?]
  rfl

theorem members?_single {n : Nat} {r rest : List Char} {name : List StringUnit} {v : Tree}
    (hname : Syntax.string? r = some (name, ':' :: rest))
    (hvalue : Syntax.value? n rest = some (v, ['\x7d'])) :
    Syntax.members? (n + 1) ('"' :: r) = some ([(name, v)], []) := by
  have hblank : Syntax.skipBlanks ('"' :: r) = '"' :: r := rfl
  have hcolon : Syntax.skipBlanks (':' :: rest) = ':' :: rest := rfl
  rw [Syntax.members?, hblank]
  simp only [hname, hcolon, hvalue]
  rfl

theorem mem_repr {t : Int} {c : Char} (h : c ∈ t.repr.toList) : c = '-' ∨ c.isDigit = true := by
  rw [Int.repr_eq_if] at h
  split at h
  · rw [Nat.toList_repr] at h
    exact .inr (isDigit_of_mem_toDigits h)
  · rw [String.toList_append, Nat.toList_repr] at h
    rcases List.mem_append.1 h with h | h
    · exact .inl (List.mem_singleton.1 h)
    · exact .inr (isDigit_of_mem_toDigits h)

theorem repr_eq_cons (t : Int) : ∃ c r, t.repr.toList = c :: r ∧ (c = '-' ∨ c.isDigit = true) := by
  cases h : t.repr.toList with
  | nil =>
    have hnumber := number?_repr t
    rw [h] at hnumber
    cases hnumber
  | cons c r => exact ⟨c, r, rfl, mem_repr (h ▸ List.mem_cons_self)⟩

/-- The text of an object with one member. -/
def single (name : List Char) (t : Int) : List Char :=
  '\x7b' :: '"' :: (name ++ '"' :: ':' :: (t.repr.toList ++ ['\x7d']))

theorem tree_single {name : List Char} (hname : name.all isPlain = true) (t : Int) :
    Tree.ofText? (single name t) = some (.object [(name.map .char, .number ⟨decide (t < 0),
      digitsOf (Nat.toDigits 10 t.natAbs), none, none⟩)]) := by
  obtain ⟨c, r, hcr, hc⟩ := repr_eq_cons t
  obtain ⟨n, hn⟩ : ∃ n, 2 * (single name t).length + 2 = n + 3 :=
    ⟨2 * (single name t).length - 1, by rw [single, List.length_cons]; omega⟩
  have hvalue : Syntax.value? (n + 1) (t.repr.toList ++ ['\x7d']) =
      some (.number ⟨decide (t < 0), digitsOf (Nat.toDigits 10 t.natAbs), none, none⟩,
        ['\x7d']) := by
    have hnumber := number?_repr t
    rw [hcr, List.cons_append] at hnumber ⊢
    rw [value?_number hc, hnumber]
    rfl
  unfold Tree.ofText?
  rw [hn, single, value?_object, members?_single (string?_plain hname) hvalue]
  rfl

/-- **An object of one number is read back.** -/
theorem ofText?_single {name : List Char} (hname : name.all isPlain = true) {t : Int}
    (ht : Signed64.fits t = true) :
    ofText? (single name t) = some (.obj [(String.ofList name, .int t)]) := by
  rw [ofText?, tree_single hname, Option.bind_some, depthLimit, ofTree?, membersOf?, stringOf?,
    textOf?_chars, Option.map_some, ofTree?, value?_repr ht]
  rfl

end Json

end WindowAlign
