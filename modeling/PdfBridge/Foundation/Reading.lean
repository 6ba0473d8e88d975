import Mathlib.Data.List.Basic

/-! Bounded reads. A body that arrives in pieces is read up to a limit, and a reader that keeps a
summary of what it has read ends with the summary of the whole body, however it was cut. -/
namespace PdfBridge
namespace Reading

variable {α σ : Type}

/-- Read the pieces after `size` items, unless they are more than the limit allows. -/
def readBounded (limit : ℕ) (step : σ → List α → σ) : ℕ → σ → List (List α) → Option σ
  | _, x, [] => some x
  | size, x, piece :: pieces =>
      if limit < size + piece.length then none
      else readBounded limit step (size + piece.length) (step x piece) pieces

/-- The state of the reader is a summary of what it has read. -/
def Summarizes (step : σ → List α → σ) (summary : List α → σ) : Prop :=
  ∀ body piece, step (summary body) piece = summary (body ++ piece)

theorem readBounded_eq {limit : ℕ} {step : σ → List α → σ} {summary : List α → σ}
    (h : Summarizes step summary) (pieces : List (List α)) (body : List α)
    (hbody : body.length ≤ limit) : readBounded limit step body.length (summary body) pieces =
      if limit < (body ++ pieces.flatten).length then none
      else some (summary (body ++ pieces.flatten)) := by
  induction pieces generalizing body with
  | nil => simp [readBounded, hbody]
  | cons piece pieces ih =>
    rw [readBounded, ← List.length_append, List.flatten_cons, ← List.append_assoc, h body piece]
    by_cases hover : limit < (body ++ piece).length
    · have hlong : limit < (body ++ piece ++ pieces.flatten).length := by
        rw [List.length_append]
        omega
      rw [if_pos hover, if_pos hlong]
    · rw [if_neg hover, ih _ (Nat.le_of_not_lt hover)]

/-- A reader that starts empty reads a body of at most `limit` items, and nothing longer. -/
theorem readBounded_nil {limit : ℕ} {step : σ → List α → σ} {summary : List α → σ}
    (h : Summarizes step summary) (pieces : List (List α)) :
    readBounded limit step 0 (summary []) pieces =
      if limit < pieces.flatten.length then none else some (summary pieces.flatten) :=
  readBounded_eq h pieces [] (Nat.zero_le limit)

/-- A reader that keeps all it has read. -/
theorem summarizes_append : Summarizes (fun x piece : List α => x ++ piece) id :=
  fun _ _ => rfl

end Reading
end PdfBridge
