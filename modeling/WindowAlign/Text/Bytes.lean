/-!
# Bytes

What a file holds before it is known to be text. Text is encoded in UTF-8.
-/

namespace WindowAlign

abbrev Bytes := List UInt8

namespace Bytes

/-- The text that bytes encode, if they encode one. -/
def text? (b : Bytes) : Option String :=
  String.fromUTF8? ⟨b.toArray⟩

def ofText (s : String) : Bytes :=
  s.toUTF8.toList

/-- The order of bytes, first difference first. -/
def le : Bytes → Bytes → Bool
  | [], _ => true
  | _ :: _, [] => false
  | a :: r, b :: q => if a = b then le r q else decide (a < b)

/-- Bytes from a place on, behind those that were read before. -/
theorem toList_loop_eq (b : ByteArray) (i : Nat) (r : List UInt8) :
    ByteArray.toList.loop b i r = r.reverse ++ b.data.toList.drop i := by
  fun_induction ByteArray.toList.loop b i r with
  | case1 i r h ih =>
    have hi : i < b.data.toList.length := by simpa using h
    have hget : b.get! i = b.data.toList[i] := getElem!_pos b.data i (by simpa using hi)
    rw [ih, List.drop_eq_getElem_cons hi, hget, List.reverse_cons, List.append_assoc,
      List.singleton_append]
  | case2 i r h =>
    rw [List.drop_eq_nil_of_le (by simpa using Nat.le_of_not_lt h), List.append_nil]

theorem ofText_eq (s : String) : ofText s = s.toByteArray.data.toList :=
  (toList_loop_eq s.toByteArray 0 []).trans (List.nil_append _)

/-- Bytes encode a text exactly where they are what encodes it. -/
theorem text?_eq_some {b : Bytes} {s : String} : b.text? = some s ↔ b = ofText s := by
  rw [ofText_eq, text?, String.fromUTF8?]
  constructor
  · intro h
    split at h
    · cases h
      rfl
    · cases h
  · rintro rfl
    exact dif_pos s.isValidUTF8

@[simp] theorem text?_ofText (s : String) : (ofText s).text? = some s :=
  text?_eq_some.2 rfl

theorem ofText_inj {s t : String} : ofText s = ofText t ↔ s = t := by
  constructor
  · intro h
    exact Option.some.inj (((text?_ofText s).symm.trans (congrArg text? h)).trans (text?_ofText t))
  · rintro rfl
    rfl

end Bytes

end WindowAlign
