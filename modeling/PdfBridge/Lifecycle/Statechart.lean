import Mathlib.Data.List.Count
import PdfBridge.Persistence.Models

/-! The lifecycle of a document as a chart: in every state one party may move the document on, the
operator or a worker, until the document is terminal. -/
namespace PdfBridge
namespace Statechart

inductive Party where
  | operator | worker
deriving DecidableEq

/-- Who moves a document on from a state. -/
def mover : DocumentState → Option Party
  | .preflighting | .publishing | .deleting => some .worker
  | .preflightFailed | .reviewRequired | .publishFailed | .ready | .deleteFailed => some .operator
  | .rejected | .cancelled | .deleted => none

def successors : DocumentState → List DocumentState
  | .preflighting => [.reviewRequired,.publishing,.deleting,.preflightFailed]
  | .preflightFailed => [.preflighting,.deleting]
  | .reviewRequired => [.publishing,.deleting]
  | .publishing => [.ready,.publishFailed]
  | .publishFailed => [.publishing,.deleting]
  | .ready => [.deleting]
  | .deleting => [.deleteFailed,.rejected,.cancelled,.deleted]
  | .deleteFailed => [.deleting]
  | .rejected | .cancelled | .deleted => []

/-- A walk through the chart: its moves, each with the party that makes it and the state that it
reaches. -/
inductive Path : DocumentState → List (Party × DocumentState) → DocumentState → Prop
  | nil (a : DocumentState) : Path a [] a
  | cons {a b c : DocumentState} {p : Party} {ms : List (Party × DocumentState)}
      (hp : mover a = some p) (hb : b ∈ successors a) (h : Path b ms c) : Path a ((p,b) :: ms) c

variable {a b c : DocumentState} {ms : List (Party × DocumentState)} {ps : List Party}

/-- How often a worker can still move a document before the operator does. -/
def potential : DocumentState → ℕ
  | .preflighting => 2
  | .publishing | .deleting => 1
  | _ => 0

theorem potential_le (a : DocumentState) : potential a ≤ 2 := by
  cases a <;> decide

/-- A worker uses the potential up. -/
theorem potential_worker (hm : mover b = some .worker) (hc : c ∈ successors b) :
    potential c + 1 ≤ potential b := by
  revert hm hc
  cases b <;> cases c <;> decide

/-- Every move of the operator lets a worker move at most twice more. -/
theorem Path.count_worker (h : Path a ms b) : (ms.map Prod.fst).count .worker + potential b ≤
    potential a + 2 * (ms.map Prod.fst).count .operator := by
  induction h with
  | nil => simp
  | @cons a b c p ms hp hb _ ih =>
    rw [List.map_cons]
    cases p with
    | worker =>
      have hdown := potential_worker hp hb
      have hne : Party.worker ≠ Party.operator := by decide
      rw [List.count_cons_self, List.count_cons_of_ne hne]
      omega
    | operator =>
      have hup := potential_le b
      have hne : Party.operator ≠ Party.worker := by decide
      rw [List.count_cons_self, List.count_cons_of_ne hne]
      omega

theorem length_eq_count (ps : List Party) :
    ps.length = ps.count .worker + ps.count .operator := by
  induction ps with
  | nil => rfl
  | cons p ps ih => cases p <;> simp [ih] <;> omega

/-- Between two moves of the operator a document moves at most twice. -/
theorem Path.length_le (h : Path a ms b) :
    ms.length ≤ 2 + 3 * (ms.map Prod.fst).count .operator := by
  have hcount := h.count_worker
  have hle := potential_le a
  have hlength := length_eq_count (ms.map Prod.fst)
  rw [List.length_map] at hlength
  omega

end Statechart
end PdfBridge
