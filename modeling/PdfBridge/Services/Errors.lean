import PdfBridge.Contracts.Values

/-! The exceptions of the services and the result of a fallible transaction. -/
namespace PdfBridge

inductive ServiceError where
  | lifecycle (code message : String) (status : ℕ)
  | preparation (code : FailureCode) (message : Text 500)
  | workerExecution (code : FailureCode) (message : Text 500) (retryable : Bool)
  | leaseLost
  | vectorIndexUnavailable (message : String)
  | vectorIndexConsistency (message : String)
  | localModel
  | classificationUnavailable
  | storage (message : String)
  | fileNotFound
  | os
  | serialization (message : String)
  | validation
  | value (message : String)
  | database
deriving DecidableEq

abbrev Outcome (α : Type) := Except ServiceError α

/-- Raise unless a check holds. -/
def require (c : Prop) [Decidable c] (e : ServiceError) : Outcome Unit :=
  if c then .ok () else .error e

/-- Raise on a missing value. -/
def orRaise {α : Type} (o : Option α) (e : ServiceError) : Outcome α :=
  match o with
  | some a => .ok a
  | none => .error e

@[simp] theorem require_eq_ok {c : Prop} [Decidable c] {e : ServiceError} {u : Unit} :
    require c e = .ok u ↔ c := by
  unfold require
  split <;> simp_all

@[simp] theorem orRaise_eq_ok {α : Type} {o : Option α} {e : ServiceError} {a : α} :
    orRaise o e = .ok a ↔ o = some a := by
  cases o <;> simp [orRaise]

/-- A sequence succeeds exactly when each part does. -/
@[simp] theorem bind_eq_ok {α β : Type} {x : Outcome α} {f : α → Outcome β} {b : β} :
    (x >>= f) = .ok b ↔ ∃ a, x = .ok a ∧ f a = .ok b := by
  cases x with
  | error e => simp [bind, Except.bind]
  | ok a => simp [bind, Except.bind]

@[simp] theorem pure_eq_ok {α : Type} {a b : α} : (pure a : Outcome α) = .ok b ↔ a = b := by
  simp [pure, Except.pure]

theorem ite_eq_ok {α : Type} {c : Prop} [Decidable c] {x y : Outcome α} {a : α} :
    (if c then x else y) = .ok a ↔ (c ∧ x = .ok a) ∨ (¬ c ∧ y = .ok a) := by
  split <;> simp_all

end PdfBridge
