import Mathlib.Data.List.Forall2
import Mathlib.Data.List.Infix

/-! Logs that only grow. The newest entries stand in front; an entry that is already there may
change only as a given relation allows. -/
namespace PdfBridge
namespace AppendOnly

variable {α : Type} {R : α → α → Prop} {old mid new : List α} {a : α}

/-- `new` keeps every entry of `old` up to `R`, in their order, behind perhaps newer ones. -/
def Grows (R : α → α → Prop) (old new : List α) : Prop :=
  ∃ kept, kept <:+ new ∧ List.Forall₂ R old kept

theorem Grows.of_forall₂ (h : List.Forall₂ R old new) : Grows R old new :=
  ⟨new,List.suffix_rfl,h⟩

theorem Grows.refl (hR : ∀ a, R a a) (old : List α) : Grows R old old :=
  Grows.of_forall₂ (List.forall₂_same.2 fun a _ => hR a)

theorem Grows.cons (h : Grows R old new) (a : α) : Grows R old (a :: new) := by
  obtain ⟨kept,hsuffix,hkept⟩ := h
  exact ⟨kept,hsuffix.trans (List.suffix_cons a new),hkept⟩

theorem forall₂_trans (hR : ∀ a b c, R a b → R b c → R a c) (h : List.Forall₂ R old mid)
    (h' : List.Forall₂ R mid new) : List.Forall₂ R old new := by
  induction h generalizing new with
  | nil =>
    cases h'
    exact List.Forall₂.nil
  | cons hab _ ih =>
    cases h' with
    | cons hbc hrest => exact List.Forall₂.cons (hR _ _ _ hab hbc) (ih hrest)

/-- What stays of a log that has grown stays when it grows on. -/
theorem Grows.trans (hR : ∀ a b c, R a b → R b c → R a c) (h : Grows R old mid)
    (h' : Grows R mid new) : Grows R old new := by
  obtain ⟨kept,hsuffix,hkept⟩ := h
  obtain ⟨kept',hsuffix',hkept'⟩ := h'
  have hrest : List.Forall₂ R kept (kept'.drop (mid.length - kept.length)) := by
    have hdrop := List.forall₂_drop (mid.length - kept.length) hkept'
    rwa [← List.suffix_iff_eq_drop.1 hsuffix] at hdrop
  exact ⟨_,(List.drop_suffix _ kept').trans hsuffix',forall₂_trans hR hkept hrest⟩

end AppendOnly
end PdfBridge
