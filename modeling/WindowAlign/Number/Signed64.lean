/-!
# Signed 64-bit integers

Stored integers and times are bounded by the signed 64-bit range. `ofText?`
reads a decimal literal of that range: an optional sign, then ASCII digits and
nothing else. `wrap` is the two's-complement reading of an unsigned word, and what
sums and differences of words come to where overflow is not checked.
-/

namespace WindowAlign.Signed64

/-- `-2 ^ 63`. -/
def least : Int := -9223372036854775808

/-- `2 ^ 63 - 1`. -/
def greatest : Int := 9223372036854775807

def fits (n : Int) : Bool :=
  decide (least ≤ n) && decide (n ≤ greatest)

def checked? (n : Int) : Option Int :=
  if fits n then some n else none

/-- The representative of `n` modulo `2 ^ 64` in the signed range. -/
def wrap (n : Int) : Int :=
  Int.bmod n 18446744073709551616

/-- The sum of two words. -/
def add (m n : Int) : Int :=
  wrap (m + n)

/-- The difference of two words. -/
def sub (m n : Int) : Int :=
  wrap (m - n)

def digit? (c : Char) : Option Nat :=
  if '0' ≤ c ∧ c ≤ '9' then some (c.toNat - '0'.toNat) else none

/-- The value of a non-empty run of digits that is the whole text. -/
def digits? (s : List Char) : Option Nat :=
  if s.isEmpty then none
  else s.foldl (fun acc c => do return (← acc) * 10 + (← digit? c)) (some 0)

/-- The integer that a decimal literal denotes, if it is one and fits. -/
def ofText? (s : List Char) : Option Int :=
  match s with
  | '-' :: r => (digits? r).bind fun n => checked? (-n)
  | '+' :: r => (digits? r).bind fun n => checked? n
  | r => (digits? r).bind fun n => checked? n

theorem fits_iff {n : Int} : fits n = true ↔ least ≤ n ∧ n ≤ greatest := by
  rw [fits, Bool.and_eq_true, decide_eq_true_iff, decide_eq_true_iff]

theorem fits_of_le {m n : Int} (hzero : 0 ≤ m) (h : m ≤ n) (hn : fits n = true) : fits m = true :=
  fits_iff.2 ⟨Int.le_trans (by decide) hzero, Int.le_trans h (fits_iff.1 hn).2⟩

theorem wrap_of_fits {n : Int} (h : fits n = true) : wrap n = n := by
  obtain ⟨hlow, hhigh⟩ := fits_iff.1 h
  unfold least at hlow
  unfold greatest at hhigh
  unfold wrap
  rw [Int.bmod_def]
  omega

theorem add_of_fits {m n : Int} (h : fits (m + n) = true) : add m n = m + n :=
  wrap_of_fits h

/-- It makes no difference whether a summand has wrapped around before. -/
theorem add_wrap (m n : Int) : add m (wrap n) = wrap (m + n) :=
  Int.add_bmod_bmod

theorem sub_of_fits {m n : Int} (h : fits (m - n) = true) : sub m n = m - n :=
  wrap_of_fits h

theorem wrap_of_le {n : Nat} (h : n ≤ greatest) : wrap n = n :=
  wrap_of_fits (fits_iff.2 ⟨Int.le_trans (by decide) (Int.natCast_nonneg n), h⟩)

/-- An unsigned word above the signed range is read as a negative number. -/
theorem wrap_of_lt {n : Nat} (h : greatest < n) (hword : n < 18446744073709551616) :
    wrap n = n - 18446744073709551616 := by
  unfold greatest at h
  unfold wrap
  rw [Int.bmod_def]
  omega

end WindowAlign.Signed64
