import Mathlib.Data.List.Basic

/-! The maximal runs of one kind in a sequence of classified characters. A mark continues the run
before it and begins none; any other character ends a run. -/
namespace PdfBridge
namespace Runs

inductive Category (κ : Type) where
  | kind (k : κ)
  | mark
  | other
deriving DecidableEq

variable {α κ : Type} {category : α → Category κ}

/-- No character of the text begins a run. -/
def Silent (category : α → Category κ) (s : List α) : Prop :=
  ∀ c, c ∈ s → ∀ k, category c ≠ .kind k

theorem silent_cons {c : α} {s : List α} :
    Silent category (c :: s) ↔ (∀ k, category c ≠ .kind k) ∧ Silent category s :=
  List.forall_mem_cons

variable [DecidableEq κ]

/-- The runs of a text that continues an open run. -/
def runsFrom (category : α → Category κ) : Option (κ × List α) → List α → List (List α)
  | none, [] => []
  | some (_,current), [] => [current]
  | none, c :: s =>
      match category c with
      | .kind k => runsFrom category (some (k,[c])) s
      | .mark | .other => runsFrom category none s
  | some (k,current), c :: s =>
      match category c with
      | .kind k' =>
          if k' = k then runsFrom category (some (k,current ++ [c])) s
          else current :: runsFrom category (some (k',[c])) s
      | .mark => runsFrom category (some (k,current ++ [c])) s
      | .other => current :: runsFrom category none s

def runs (category : α → Category κ) (s : List α) : List (List α) := runsFrom category none s

@[simp] theorem runs_nil : runs category [] = [] := rfl

/-- A character between two texts that ends runs separates their runs. -/
theorem runsFrom_append {open_ : Option (κ × List α)} {a b : List α} {c : α}
    (hc : category c = .other) :
    runsFrom category open_ (a ++ c :: b) = runsFrom category open_ a ++ runs category b := by
  induction a generalizing open_ with
  | nil =>
    rcases open_ with _ | ⟨k,current⟩
    · simp only [List.nil_append, runsFrom, hc, runs]
    · simp only [List.nil_append, runsFrom, hc, runs, List.singleton_append]
  | cons x a ih =>
    rcases open_ with _ | ⟨k,current⟩
    · simp only [List.cons_append, runsFrom]
      cases category x <;> exact ih
    · simp only [List.cons_append, runsFrom]
      cases category x with
      | kind k' =>
        by_cases hk : k' = k
        · simp only [if_pos hk]
          exact ih
        · simp only [if_neg hk, List.cons_append, List.cons.injEq, true_and]
          exact ih
      | mark => exact ih
      | other =>
        simp only [List.cons_append, List.cons.injEq, true_and]
        exact ih

theorem runs_append_cons {a b : List α} {c : α} (hc : category c = .other) :
    runs category (a ++ c :: b) = runs category a ++ runs category b :=
  runsFrom_append hc

/-- An open run is reported. -/
theorem runsFrom_some_ne_nil {k : κ} {current : List α} {s : List α} :
    runsFrom category (some (k,current)) s ≠ [] := by
  induction s generalizing k current with
  | nil => exact List.cons_ne_nil _ _
  | cons c s ih =>
    unfold runsFrom
    cases category c with
    | kind k' =>
      by_cases hk : k' = k
      · simp only [if_pos hk]
        exact ih
      · simp only [if_neg hk]
        exact List.cons_ne_nil _ _
    | mark => exact ih
    | other => exact List.cons_ne_nil _ _

/-- A character that begins no run may precede a text. -/
theorem runs_cons_silent {c : α} {s : List α} (hc : ∀ k, category c ≠ .kind k) :
    runs category (c :: s) = runs category s := by
  unfold runs
  rw [runsFrom]
  cases hcat : category c with
  | kind k => exact absurd hcat (hc k)
  | mark => rfl
  | other => rfl

theorem runs_silent_append {a b : List α} (ha : Silent category a) :
    runs category (a ++ b) = runs category b := by
  induction a with
  | nil => rfl
  | cons c a ih =>
    obtain ⟨hc,ha⟩ := silent_cons.1 ha
    rw [List.cons_append, runs_cons_silent hc]
    exact ih ha

/-- A text has no runs exactly when none of its characters begins one. -/
theorem runs_eq_nil_iff {s : List α} : runs category s = [] ↔ Silent category s := by
  induction s with
  | nil => exact ⟨fun _ c hc => absurd hc List.not_mem_nil,fun _ => rfl⟩
  | cons c s ih =>
    rw [silent_cons]
    by_cases hc : ∀ k, category c ≠ .kind k
    · rw [runs_cons_silent hc, ih]
      exact ⟨fun h => ⟨hc,h⟩,fun h => h.2⟩
    · refine ⟨fun h => ?_,fun h => absurd h.1 hc⟩
      push Not at hc
      obtain ⟨k,hk⟩ := hc
      rw [runs, runsFrom, hk] at h
      exact absurd h runsFrom_some_ne_nil

end Runs
end PdfBridge
