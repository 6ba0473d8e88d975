import Mathlib.Data.Set.Basic

/-! Sequential programs over atomic requests, with exceptions, and the protocols that they
follow: what a thread may ask for, given what it has learnt from the answers so far. -/
namespace PdfBridge

/-- Requests and the value each one returns. -/
structure Signature where
  Request : Type
  Response : Request → Type

inductive Program (S : Signature) (ε α : Type) where
  | pure : α → Program S ε α
  | fail : ε → Program S ε α
  | call : (r : S.Request) → (Except ε (S.Response r) → Program S ε α) → Program S ε α

namespace Program
variable {S : Signature} {ε α β γ : Type}

def bind : Program S ε α → (α → Program S ε β) → Program S ε β
  | .pure a, f => f a
  | .fail e, _ => .fail e
  | .call r k, f => .call r fun x => (k x).bind f

/-- `try … except`: the handler runs on the first exception that escapes. -/
def tryCatch : Program S ε α → (ε → Program S ε α) → Program S ε α
  | .pure a, _ => .pure a
  | .fail e, h => h e
  | .call r k, h => .call r fun x => (k x).tryCatch h

/-- `try … finally`: the cleanup runs on both exits. -/
def finally_ : Program S ε α → Program S ε Unit → Program S ε α
  | .pure a, q => q.bind fun _ => .pure a
  | .fail e, q => q.bind fun _ => .fail e
  | .call r k, q => .call r fun x => (k x).finally_ q

instance : Monad (Program S ε) where
  pure := .pure
  bind := .bind

@[simp] theorem pure_eq (a : α) : (Pure.pure a : Program S ε α) = .pure a := rfl

@[simp] theorem bind_eq (p : Program S ε α) (f : α → Program S ε β) : p >>= f = p.bind f := rfl

@[simp] theorem pure_bind (a : α) (f : α → Program S ε β) : (Program.pure a).bind f = f a := rfl

@[simp] theorem fail_bind (e : ε) (f : α → Program S ε β) :
    (Program.fail e : Program S ε α).bind f = .fail e := rfl

/-- One request; its exception propagates. -/
def request (r : S.Request) : Program S ε (S.Response r) :=
  .call r fun
    | .ok a => .pure a
    | .error e => .fail e

/-- Raise unless a check holds. -/
def require (c : Bool) (e : ε) : Program S ε Unit := if c then .pure () else .fail e

def lift (x : Except ε α) : Program S ε α :=
  match x with
  | .ok a => .pure a
  | .error e => .fail e

/-- A `for` loop that threads an accumulator. -/
def foldl (f : β → α → Program S ε β) : β → List α → Program S ε β
  | b, [] => .pure b
  | b, a :: as => (f b a).bind fun b => foldl f b as

def forEach (as : List α) (f : α → Program S ε Unit) : Program S ε Unit :=
  foldl (fun _ a => f a) () as

/-- A discipline of requests over a private state: the answers that can come, the requests that
are permitted, and the state after an answer. -/
structure Protocol (S : Signature) (ε κ : Type) where
  answers : (r : S.Request) → Except ε (S.Response r) → Prop
  permits : S.Request → κ → Prop
  next : (r : S.Request) → κ → Except ε (S.Response r) → κ

section Protocols
variable {κ : Type}

/-- From `k`, every request of `p` is permitted where it is made, and a finished `p` meets
`Q`. -/
def Follows (P : Protocol S ε κ) (Q : Except ε α → κ → Prop) : Program S ε α → κ → Prop
  | .pure a, k => Q (.ok a) k
  | .fail e, k => Q (.error e) k
  | .call r f, k => P.permits r k ∧ ∀ x, P.answers r x → Follows P Q (f x) (P.next r k x)

variable {P : Protocol S ε κ} {k : κ}

theorem Follows.mono {Q R : Except ε α → κ → Prop} {p : Program S ε α}
    (h : Follows P Q p k) (hp : ∀ x k, Q x k → R x k) : Follows P R p k := by
  induction p generalizing k with
  | pure a => exact hp _ _ h
  | fail e => exact hp _ _ h
  | call r f ih => exact ⟨h.1,fun x hx => ih x (h.2 x hx)⟩

theorem Follows.bind {Q : Except ε α → κ → Prop} {R : Except ε β → κ → Prop}
    {p : Program S ε α} {f : α → Program S ε β} (h : Follows P Q p k)
    (hok : ∀ a k, Q (.ok a) k → Follows P R (f a) k)
    (herr : ∀ e k, Q (.error e) k → R (.error e) k) :
    Follows P R (p.bind f) k := by
  induction p generalizing k with
  | pure a => exact hok a k h
  | fail e => exact herr e k h
  | call r f ih => exact ⟨h.1,fun x hx => ih x (h.2 x hx)⟩

theorem Follows.tryCatch {Q R : Except ε α → κ → Prop} {p : Program S ε α}
    {f : ε → Program S ε α} (h : Follows P Q p k)
    (hok : ∀ a k, Q (.ok a) k → R (.ok a) k)
    (herr : ∀ e k, Q (.error e) k → Follows P R (f e) k) :
    Follows P R (p.tryCatch f) k := by
  induction p generalizing k with
  | pure a => exact hok a k h
  | fail e => exact herr e k h
  | call r f ih => exact ⟨h.1,fun x hx => ih x (h.2 x hx)⟩

theorem Follows.finally_ {Q R : Except ε α → κ → Prop} {p : Program S ε α}
    {q : Program S ε Unit} (h : Follows P Q p k)
    (hq : ∀ x k, Q x k → Follows P (fun y k => match y with
      | .ok _ => R x k
      | .error e => R (.error e) k) q k) :
    Follows P R (p.finally_ q) k := by
  induction p generalizing k with
  | pure a => exact Follows.bind (hq _ _ h) (fun _ _ h => h) (fun _ _ h => h)
  | fail e => exact Follows.bind (hq _ _ h) (fun _ _ h => h) (fun _ _ h => h)
  | call r f ih => exact ⟨h.1,fun x hx => ih x (h.2 x hx)⟩

theorem Follows.request {r : S.Request} {Q : Except ε (S.Response r) → κ → Prop}
    (hr : P.permits r k) (h : ∀ x, P.answers r x → Q x (P.next r k x)) :
    Follows P Q (Program.request r) k := by
  refine ⟨hr,fun x hx => ?_⟩
  cases x with
  | ok a => exact h _ hx
  | error e => exact h _ hx

end Protocols

/-! ### Knowledge -/

section Knowledge
variable {φ : Type} {P : Protocol S ε (Set φ)} {F : Set φ} {V V' : α → Prop} {W : β → Prop}
  {G : α → Set φ} {H : β → Set φ}

/-- A program that starts from the facts `F` keeps them at every exit, and its value satisfies `V`
and adds the facts `G`. -/
def Grants (P : Protocol S ε (Set φ)) (F : Set φ) (V : α → Prop) (G : α → Set φ)
    (p : Program S ε α) : Prop :=
  ∀ K, F ⊆ K → Follows P (fun x K => F ⊆ K ∧ ∀ a, x = .ok a → V a ∧ G a ⊆ K) p K

abbrev Keeps (P : Protocol S ε (Set φ)) (F : Set φ) (V : α → Prop) (p : Program S ε α) : Prop :=
  Grants P F V (fun _ => ∅) p

theorem Grants.pure {a : α} (hv : V a) (hg : G a ⊆ F) :
    Grants P F V G (.pure a : Program S ε α) := by
  refine fun K hK => ⟨hK,fun b he => ?_⟩
  cases he
  exact ⟨hv,hg.trans hK⟩

theorem Keeps.pure {a : α} (hv : V a) : Keeps P F V (.pure a : Program S ε α) :=
  Grants.pure hv (Set.empty_subset F)

theorem Grants.fail {e : ε} : Grants P F V G (.fail e : Program S ε α) :=
  fun _ hK => ⟨hK,fun _ he => nomatch he⟩

theorem Grants.mono {G' : α → Set φ} {p : Program S ε α} (h : Grants P F V G p)
    (hv : ∀ a, V a → V' a ∧ G' a ⊆ F ∪ G a) : Grants P F V' G' p := by
  refine fun K hK => (h K hK).mono fun x K hx => ⟨hx.1,fun a he => ?_⟩
  obtain ⟨hV,hG⟩ := hx.2 a he
  exact ⟨(hv a hV).1,(hv a hV).2.trans (Set.union_subset hx.1 hG)⟩

theorem Grants.bind {p : Program S ε α} {f : α → Program S ε β} (h : Grants P F V G p)
    (hf : ∀ a, V a → Grants P (F ∪ G a) W H (f a)) : Grants P F W H (p.bind f) := by
  intro K hK
  refine (h K hK).bind (fun a K ha => ?_) fun e K he => ⟨he.1,fun _ hc => nomatch hc⟩
  obtain ⟨hV,hG⟩ := ha.2 a rfl
  exact (hf a hV K (Set.union_subset ha.1 hG)).mono fun x K hx =>
    ⟨Set.subset_union_left.trans hx.1,hx.2⟩

/-- The next step needs only what held before. -/
theorem Keeps.bind {p : Program S ε α} {f : α → Program S ε β} (h : Keeps P F V p)
    (hf : ∀ a, V a → Grants P F W H (f a)) : Grants P F W H (p.bind f) :=
  Grants.bind h fun a hV => by
    rw [Set.union_empty]
    exact hf a hV

theorem Grants.tryCatch {p : Program S ε α} {f : ε → Program S ε α} (h : Grants P F V G p)
    (hf : ∀ e, Grants P F V G (f e)) : Grants P F V G (p.tryCatch f) :=
  fun K hK => (h K hK).tryCatch (fun _ _ hx => hx) fun e K he => hf e K he.1

theorem Grants.request {r : S.Request} {V : S.Response r → Prop} {G : S.Response r → Set φ}
    (hr : ∀ K, F ⊆ K → P.permits r K)
    (h : ∀ K, F ⊆ K → ∀ x, P.answers r x →
      F ⊆ P.next r K x ∧ ∀ a, x = .ok a → V a ∧ G a ⊆ P.next r K x) :
    Grants P F V G (Program.request r) :=
  fun K hK => Follows.request (hr K hK) (h K hK)

theorem Keeps.require {c : Bool} {e : ε} :
    Keeps P F (fun _ => c = true) (Program.require c e : Program S ε Unit) := by
  unfold Program.require
  split
  · rename_i hc
    exact Keeps.pure hc
  · exact Grants.fail

theorem Keeps.lift {x : Except ε α} (h : ∀ a, x = .ok a → V a) :
    Keeps P F V (Program.lift x : Program S ε α) := by
  cases x with
  | ok a => exact Keeps.pure (h a rfl)
  | error e => exact Grants.fail

theorem Keeps.foldl {f : β → α → Program S ε β} {as : List α}
    (h : ∀ b, W b → ∀ a ∈ as, Keeps P F W (f b a)) {b : β} (hb : W b) :
    Keeps P F W (Program.foldl f b as) := by
  induction as generalizing b with
  | nil => exact Keeps.pure hb
  | cons a as ih =>
    exact Keeps.bind (h b hb a List.mem_cons_self) fun b hb =>
      ih (fun b hb a ha => h b hb a (List.mem_cons_of_mem _ ha)) hb

theorem Keeps.forEach {as : List α} {f : α → Program S ε Unit}
    (h : ∀ a ∈ as, Keeps P F (fun _ => True) (f a)) :
    Keeps P F (fun _ => True) (Program.forEach as f) :=
  Keeps.foldl (fun _ _ a ha => h a ha) trivial

end Knowledge
end Program
end PdfBridge
