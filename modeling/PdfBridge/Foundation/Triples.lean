import PdfBridge.Foundation.Program

/-! Runs of a sequential program against a state, and triples over them: a condition on the
state before, one for each value returned and one for each exception that escapes. -/
namespace PdfBridge
namespace Program

/-- The answer of each request and the state after it. -/
abbrev Handler (S : Signature) (ε σ : Type) :=
  (r : S.Request) → σ → Except ε (S.Response r) × σ

variable {S : Signature} {ε α β σ : Type} {h : Handler S ε σ}

def run (h : Handler S ε σ) : Program S ε α → σ → Except ε α × σ
  | .pure a, s => (.ok a,s)
  | .fail e, s => (.error e,s)
  | .call r k, s => run h (k (h r s).1) (h r s).2

/-- The rest of a run after its first part. -/
def runNext (h : Handler S ε σ) (f : α → Program S ε β) : Except ε α × σ → Except ε β × σ
  | (.ok a,t) => (f a).run h t
  | (.error e,t) => (.error e,t)

theorem run_bind (p : Program S ε α) (f : α → Program S ε β) (s : σ) :
    (p.bind f).run h s = runNext h f (p.run h s) := by
  induction p generalizing s with
  | pure a => rfl
  | fail e => rfl
  | call r k ih => exact ih _ _

def runHandler (h : Handler S ε σ) (f : ε → Program S ε α) : Except ε α × σ → Except ε α × σ
  | (.ok a,t) => (.ok a,t)
  | (.error e,t) => (f e).run h t

theorem run_tryCatch (p : Program S ε α) (f : ε → Program S ε α) (s : σ) :
    (p.tryCatch f).run h s = runHandler h f (p.run h s) := by
  induction p generalizing s with
  | pure a => rfl
  | fail e => rfl
  | call r k ih => exact ih _ _

def runCleanup (h : Handler S ε σ) (q : Program S ε Unit) (x : Except ε α × σ) :
    Except ε α × σ :=
  match q.run h x.2 with
  | (.ok _,t) => (x.1,t)
  | (.error e,t) => (.error e,t)

theorem run_finally_ (p : Program S ε α) (q : Program S ε Unit) (s : σ) :
    (p.finally_ q).run h s = runCleanup h q (p.run h s) := by
  induction p generalizing s with
  | pure a =>
    simp only [finally_, run_bind, run, runCleanup]
    rcases q.run h s with ⟨_ | _,t⟩ <;> rfl
  | fail e =>
    simp only [finally_, run_bind, run, runCleanup]
    rcases q.run h s with ⟨_ | _,t⟩ <;> rfl
  | call r k ih => exact ih _ _

@[simp] theorem run_request (r : S.Request) (s : σ) : (request r).run h s = h r s := by
  simp only [request, run]
  rcases h r s with ⟨_ | _,t⟩ <;> rfl

/-- Where a run may end: with a value, or with an exception. -/
def EndsIn (V : α → σ → Prop) (E : ε → σ → Prop) : Except ε α × σ → Prop
  | (.ok a,t) => V a t
  | (.error e,t) => E e t

theorem EndsIn.mono {V W : α → σ → Prop} {E F : ε → σ → Prop} {x : Except ε α × σ}
    (hx : EndsIn V E x) (hV : ∀ a t, V a t → W a t) (hE : ∀ e t, E e t → F e t) :
    EndsIn W F x := by
  rcases x with ⟨e | a,t⟩
  · exact hE e t hx
  · exact hV a t hx

theorem EndsIn.ite {c : Prop} [Decidable c] {V : α → σ → Prop} {E : ε → σ → Prop}
    {x y : Except ε α × σ} (hx : c → EndsIn V E x) (hy : ¬ c → EndsIn V E y) :
    EndsIn V E (if c then x else y) := by
  split
  · rename_i hc
    exact hx hc
  · rename_i hc
    exact hy hc

/-- Total correctness: every program ends, and from a state with `P` it ends with `V` or
`E`. -/
def Triple (h : Handler S ε σ) (P : σ → Prop) (p : Program S ε α) (V : α → σ → Prop)
    (E : ε → σ → Prop) : Prop :=
  ∀ s, P s → EndsIn V E (p.run h s)

section Rules
variable {P P' : σ → Prop} {V W : α → σ → Prop} {U : β → σ → Prop} {E F : ε → σ → Prop}
  {p : Program S ε α}

theorem Triple.mono (hp : Triple h P p V E) (hP : ∀ s, P' s → P s)
    (hV : ∀ a t, V a t → W a t) (hE : ∀ e t, E e t → F e t) : Triple h P' p W F :=
  fun s hs => (hp s (hP s hs)).mono hV hE

/-- A weaker end. -/
theorem Triple.post (hp : Triple h P p V E) (hV : ∀ a t, V a t → W a t)
    (hE : ∀ e t, E e t → F e t) : Triple h P p W F :=
  hp.mono (fun _ hs => hs) hV hE

/-- A stronger start. -/
theorem Triple.pre (hp : Triple h P p V E) (hP : ∀ s, P' s → P s) : Triple h P' p V E :=
  hp.mono hP (fun _ _ ht => ht) fun _ _ ht => ht

theorem Triple.pure {a : α} (hV : ∀ s, P s → V a s) : Triple h P (.pure a) V E := hV

theorem Triple.fail {e : ε} (hE : ∀ s, P s → E e s) :
    Triple h P (.fail e : Program S ε α) V E := hE

theorem Triple.request {r : S.Request} {V : S.Response r → σ → Prop}
    (hr : ∀ s, P s → EndsIn V E (h r s)) : Triple h P (Program.request r) V E := by
  intro s hs
  rw [run_request]
  exact hr s hs

theorem Triple.bind {f : α → Program S ε β} (hp : Triple h P p V E)
    (hf : ∀ a, Triple h (V a) (f a) U E) : Triple h P (p.bind f) U E := by
  intro s hs
  rw [run_bind]
  have hend := hp s hs
  generalize p.run h s = x at hend ⊢
  obtain ⟨e | a,t⟩ := x
  · exact hend
  · exact hf a t hend

theorem Triple.tryCatch {f : ε → Program S ε α} (hp : Triple h P p V F)
    (hf : ∀ e, Triple h (F e) (f e) V E) : Triple h P (p.tryCatch f) V E := by
  intro s hs
  rw [run_tryCatch]
  have hend := hp s hs
  generalize p.run h s = x at hend ⊢
  obtain ⟨e | a,t⟩ := x
  · exact hf e t hend
  · exact hend

/-- A cleanup that ends everywhere with a value. -/
theorem Triple.finally_ {q : Program S ε Unit} (hp : Triple h P p V E)
    (hV : ∀ a, Triple h (V a) q (fun _ => W a) fun _ _ => False)
    (hE : ∀ e, Triple h (E e) q (fun _ => F e) fun _ _ => False) :
    Triple h P (p.finally_ q) W F := by
  intro s hs
  rw [run_finally_]
  have hend := hp s hs
  generalize p.run h s = x at hend ⊢
  obtain ⟨e | a,t⟩ := x
  · have hq := hE e t hend
    simp only [runCleanup]
    generalize q.run h t = y at hq ⊢
    obtain ⟨_ | _,u⟩ := y
    · exact hq.elim
    · exact hq
  · have hq := hV a t hend
    simp only [runCleanup]
    generalize q.run h t = y at hq ⊢
    obtain ⟨_ | _,u⟩ := y
    · exact hq.elim
    · exact hq

/-- A check that the state decides. -/
theorem Triple.require {c : Bool} {e : ε} (hV : c = true → ∀ s, P s → P' s)
    (hE : c = false → ∀ s, P s → E e s) :
    Triple h P (Program.require c e) (fun _ => P') E := by
  unfold Program.require
  split
  · rename_i hc
    exact Triple.pure (hV hc)
  · rename_i hc
    exact Triple.fail (hE (Bool.eq_false_iff.2 hc))

theorem Triple.lift {x : Except ε α} (hV : ∀ a, x = .ok a → ∀ s, P s → V a s)
    (hE : ∀ e, x = .error e → ∀ s, P s → E e s) : Triple h P (Program.lift x) V E := by
  cases x with
  | ok a => exact Triple.pure (hV a rfl)
  | error e => exact Triple.fail (hE e rfl)

end Rules
end Program
end PdfBridge
