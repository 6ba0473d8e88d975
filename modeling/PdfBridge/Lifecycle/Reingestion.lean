import Mathlib.Logic.Relation
import PdfBridge.Lifecycle.Idempotence
import PdfBridge.Services.Reingestion

/-! Reingestion of one manifest: runs of the client one after the other, each of which may stop
anywhere, the requests and replies in flight, and the Bridge that answers them. -/
namespace PdfBridge
namespace Reingestion
open Idempotency

/-- An upload request that a client has sent. -/
structure Upload where
  item : ValidatedDocument
  key : String
deriving DecidableEq

/-- The Bridge, the documents that the uploads of each index have added to it, and those that
have been terminal; the state file, the rest of the current run, and what is in flight. -/
structure World where
  bridge : Service
  admitted : List (ℕ × Uuid)
  finished : List Uuid
  file : Option ReingestionState
  run : Option (Client ReingestionState)
  sent : List Upload
  replies : List (Upload × AcceptedDocument)

/-- The acceptances in the state file. -/
def World.accepted (w : World) : Accepted :=
  match w.file with
  | none => []
  | some state => state.accepted

/-- The documents accepted for the manifest that have not been terminal yet. -/
def World.outstanding (w : World) : ℕ := w.admitted.countP fun p => p.2 ∉ w.finished

/-- The documents that a request has added. -/
def addedIds (v w : Service) : List Uuid :=
  (w.rows.catalog.documents.rows.filter fun d => (v.rows.catalog.document? d.id).isNone).map
    Document.id

def terminalIds (v : Service) : List Uuid :=
  (v.rows.catalog.documents.rows.filter fun d => terminal d.state).map Document.id

/-- The Bridge has moved on to another state. -/
def World.observe (w : World) (v : Service) : World :=
  {w with bridge := v, finished := w.finished ++ terminalIds v}

/-- A document identifier that has been drawn stays taken. -/
def Retains (v w : Service) : Prop :=
  ∀ id, (v.rows.catalog.document? id).isSome → (w.rows.catalog.document? id).isSome

section Steps
variable (s : Settings) (canonical : Canonical) (manifest : ValidatedManifest)
  (maxOutstanding : ℕ) (operator : Text 255)

def keyOf (item : ValidatedDocument) : String :=
  idempotencyKey manifest.manifestSha256 item.index

/-- The upload as the Bridge has prepared it: the operator's, with the unchanged source file. -/
structure Carries (item : ValidatedDocument) (x : Api.PreparedAdmission) : Prop where
  prepared : Prepared s x
  collectionKey : x.collectionKey = item.collectionKey
  originalFilename : x.originalFilename = item.filename
  sizeBytes : x.sizeBytes = item.sizeBytes
  sha256 : x.sha256 = item.sha256
  actorId : x.actorId = operator

/-- The Bridge serves an upload and sends its reply. -/
def World.handle (w : World) (env : Environment) (u : Upload) (x : Api.PreparedAdmission)
    (hx : Prepared s x) : World :=
  let z := w.bridge.serve canonical env (⟨u.key,.upload x hx⟩ : Idempotency.Request s)
  {w.observe z.2 with
    admitted := w.admitted ++ (addedIds w.bridge z.2).map fun id => (u.item.index,id)
    sent := w.sent.erase u
    replies := match z.1 with
      | .ok body => (u,⟨body.document.id,body.operation.id,body.document.state⟩) :: w.replies
      | .error _ => w.replies}

/-- What a request other than an upload may be answered with; every request may fail. -/
def World.answers (w : World) : (r : Request) → Except Error r.Response → Prop
  | .upload _ _, .ok _ => False
  | .readState, .ok stored => stored = w.file
  | .document id, .ok state => (w.bridge.rows.catalog.document? id).map Document.state = some state
  | _, _ => True

/-- The state file after a request; it is replaced atomically. -/
def World.fileAfter (w : World) : (r : Request) → Except Error r.Response →
    Option ReingestionState
  | .saveState state, .ok _ => some state
  | _, _ => w.file

/-- One step of the client, the network or the Bridge. Only this operator uses the keys of the
manifest. -/
inductive Step : World → World → Prop where
  | start {w : World} (waitSeconds pollSeconds : ℚ) (rounds : ℕ) (h : w.run = none) :
      Step w {w with
        run := some (applyManifest manifest maxOutstanding waitSeconds pollSeconds rounds)}
  | stop {w : World} : Step w {w with run := none}
  | ask {w : World} {r : Request} {k : Except Error r.Response → Client ReingestionState}
      (h : w.run = some (.call r k)) (x : Except Error r.Response) (hx : w.answers r x) :
      Step w {w with run := some (k x), file := w.fileAfter r x}
  | send {w : World} {u : Upload} {k : Except Error AcceptedDocument → Client ReingestionState}
      (h : w.run = some (.call (Request.upload u.item u.key) k)) :
      Step w {w with sent := u :: w.sent}
  | handle {w : World} {u : Upload} (hu : u ∈ w.sent) (env : Environment)
      (x : Api.PreparedAdmission) (hx : Carries s operator u.item x)
      (hfresh : w.bridge.rows.catalog.document? (uuid4 env.now 0) = none) :
      Step w (w.handle s canonical env u x hx.prepared)
  | receive {w : World} {u : Upload} {d : AcceptedDocument}
      {k : Except Error AcceptedDocument → Client ReingestionState}
      (h : w.run = some (.call (Request.upload u.item u.key) k)) (hd : (u,d) ∈ w.replies) :
      Step w {w with run := some (k (.ok d))}
  | other {w : World} (v : Service) (hretains : Retains w.bridge v)
      (hrecords : RecordsInv canonical v)
      (hkeys : ∀ item, item ∈ manifest.documents →
        v.rows.records.lookup (keyOf manifest item) =
          w.bridge.rows.records.lookup (keyOf manifest item)) :
      Step w (w.observe v)

/-- No run has been made and no key of the manifest is taken. -/
structure Initial (w : World) : Prop where
  records : RecordsInv canonical w.bridge
  keys : ∀ item, item ∈ manifest.documents →
    w.bridge.rows.records.lookup (keyOf manifest item) = none
  admitted : w.admitted = []
  finished : w.finished = terminalIds w.bridge
  file : w.file = none
  run : w.run = none
  sent : w.sent = []
  replies : w.replies = []

abbrev Steps : World → World → Prop :=
  Relation.ReflTransGen (Step s canonical manifest maxOutstanding operator)

def Reachable (w : World) : Prop :=
  ∃ v, Initial canonical manifest v ∧ Steps s canonical manifest maxOutstanding operator v w

end Steps

/-! ### What a run knows -/

/-- The state file as the run has read or saved it, the documents that it has seen terminal, and
the answer to its latest upload. -/
structure Knowledge where
  file : Option Accepted
  terminal : Set Uuid
  answer : Option AcceptedDocument

def Knowledge.start : Knowledge := ⟨none,∅,none⟩

/-- The entries are those of the first documents of the manifest. -/
def Accepted.Positional (accepted : Accepted) : Prop :=
  accepted.indices = List.range accepted.length

/-- An entry with a newer status: a terminal one keeps it. -/
structure Refreshed (T : Set Uuid) (e e' : Entry) : Prop where
  index : e'.index = e.index
  documentId : e'.document.documentId = e.document.documentId
  keeps : terminal e.document.state = true → terminal e'.document.state = true
  seen : terminal e'.document.state = true → terminal e.document.state = true ∨
    e.document.documentId ∈ T

section Protocol
variable (manifest : ValidatedManifest) (maxOutstanding : ℕ)

/-- A run saves the refreshed file or one more acceptance, and uploads the next document while
fewer than the bound are outstanding. -/
def permits (K : Knowledge) : Request → Prop
  | .saveState state => ∃ F, K.file = some F ∧
      (List.Forall₂ (Refreshed K.terminal) F state.accepted ∨
        ∃ d, K.answer = some d ∧ F.outstanding < maxOutstanding ∧
          state.accepted = F ++ [⟨F.length,d⟩])
  | .upload item key => ∃ F, K.file = some F ∧ F.outstanding < maxOutstanding ∧
      manifest.documents[F.length]? = some item ∧ key = keyOf manifest item
  | _ => True

open Classical in
/-- Nothing is promised about a file that is not one of this client's. -/
noncomputable def next (K : Knowledge) :
    (r : Request) → Except Error r.Response → Option Knowledge
  | .readState, .ok stored =>
      let accepted : Accepted := (stored.map ReingestionState.accepted).getD []
      if accepted.Positional then some {K with file := some accepted} else none
  | .saveState state, .ok _ => some {K with file := some state.accepted, answer := none}
  | .document id, .ok state =>
      if terminal state then some {K with terminal := insert id K.terminal} else some K
  | .upload _ _, .ok d => some {K with answer := some d}
  | _, _ => some K

noncomputable def protocol : Program.Protocol Http Error (Option Knowledge) where
  answers _ _ := True
  permits r k := ∀ K, k = some K → permits manifest maxOutstanding K r
  next r k x := k.bind fun K => next K r x

variable {manifest maxOutstanding} {K : Knowledge} {F : Accepted} {α : Type}

variable (manifest maxOutstanding) in
abbrev Follows (Q : Except Error α → Option Knowledge → Prop) (p : Client α) (K : Knowledge) :
    Prop :=
  Program.Follows (protocol manifest maxOutstanding) Q p (some K)

/-- A run that read a foreign file is not followed any further. -/
theorem follows_none {Q : Except Error α → Option Knowledge → Prop} (hQ : ∀ x, Q x none)
    (p : Client α) : Program.Follows (protocol manifest maxOutstanding) Q p none := by
  induction p with
  | pure a => exact hQ _
  | fail e => exact hQ _
  | call r k ih => exact ⟨fun K hK => (nomatch hK),fun x _ => ih x⟩

theorem follows_call {r : Request} {Q : Except Error r.Response → Option Knowledge → Prop}
    (hr : permits manifest maxOutstanding K r) (h : ∀ x, Q x (next K r x)) :
    Follows manifest maxOutstanding Q (call r) K :=
  Program.Follows.request (fun _ hK => Option.some.inj hK ▸ hr) fun x _ => h x

theorem follows_currentState (d : AcceptedDocument) (K : Knowledge) :
    Follows manifest maxOutstanding
      (fun x k => ∃ K', k = some K' ∧ K'.file = K.file ∧ K.terminal ⊆ K'.terminal ∧
        ∀ state, x = .ok state → (terminal d.state = true → terminal state = true) ∧
          (terminal state = true → terminal d.state = true ∨ d.documentId ∈ K'.terminal))
      (currentState d) K := by
  by_cases hterminal : terminal d.state = true
  · rw [currentState, if_pos hterminal]
    refine ⟨K,rfl,rfl,Set.Subset.rfl,fun state hstate => ?_⟩
    cases hstate
    exact ⟨id,fun _ => Or.inl hterminal⟩
  · rw [currentState, if_neg hterminal]
    refine follows_call (r := .document d.documentId) trivial fun x => ?_
    cases x with
    | error err => exact ⟨K,rfl,rfl,Set.Subset.rfl,fun state hstate => nomatch hstate⟩
    | ok seen =>
      simp only [next]
      split
      · refine ⟨_,rfl,rfl,Set.subset_insert _ _,fun state hstate => ?_⟩
        exact ⟨fun h => absurd h hterminal,fun _ => Or.inr (Set.mem_insert _ _)⟩
      · rename_i hseen
        refine ⟨K,rfl,rfl,Set.Subset.rfl,fun state hstate => ?_⟩
        cases hstate
        exact ⟨fun h => absurd h hterminal,fun h => absurd h hseen⟩

/-- A refreshed file has the same entries with newer statuses. -/
theorem follows_refresh (F : Accepted) (K : Knowledge) :
    Follows manifest maxOutstanding
      (fun x k => ∃ K', k = some K' ∧ K'.file = K.file ∧ K.terminal ⊆ K'.terminal ∧
        ∀ F', x = .ok F' → List.Forall₂ (Refreshed K'.terminal) F F') (refresh F) K := by
  induction F generalizing K with
  | nil =>
    refine ⟨K,rfl,rfl,Set.Subset.rfl,fun F' hF' => ?_⟩
    cases hF'
    exact List.Forall₂.nil
  | cons e rest ih =>
    refine Program.Follows.bind (follows_currentState e.document K) ?_ ?_
    · rintro state k ⟨K',rfl,hfile,hmono,hseen⟩
      obtain ⟨hkeeps,hseen⟩ := hseen state rfl
      refine Program.Follows.bind (ih K') ?_ ?_
      · rintro rest' k ⟨K'',rfl,hfile',hmono',hrest⟩
        refine ⟨K'',rfl,hfile'.trans hfile,hmono.trans hmono',fun F' hF' => ?_⟩
        cases hF'
        exact List.Forall₂.cons ⟨rfl,rfl,hkeeps,fun h => (hseen h).imp id fun h => hmono' h⟩
          (hrest rest' rfl)
      · rintro err k ⟨K'',rfl,hfile',hmono',-⟩
        exact ⟨K'',rfl,hfile'.trans hfile,hmono.trans hmono',fun F' hF' => nomatch hF'⟩
    · rintro err k ⟨K',rfl,hfile,hmono,-⟩
      exact ⟨K',rfl,hfile,hmono,fun F' hF' => nomatch hF'⟩

theorem Accepted.Positional.push (h : F.Positional) (d : AcceptedDocument) :
    Accepted.Positional (F ++ [⟨F.length,d⟩]) := by
  have h' : F.map Entry.index = List.range F.length := h
  simp only [Accepted.Positional, Accepted.indices, List.map_append, h', List.length_append,
    List.length_singleton, List.range_succ, List.map_singleton]

theorem Refreshed.indices {T : Set Uuid} {F' : Accepted}
    (h : List.Forall₂ (Refreshed T) F F') : F'.indices = F.indices := by
  induction h with
  | nil => rfl
  | cons he _ ih => exact congrArg₂ List.cons he.index ih

theorem Refreshed.positional {T : Set Uuid} {F' : Accepted}
    (h : List.Forall₂ (Refreshed T) F F') (hF : F.Positional) : F'.Positional :=
  (Refreshed.indices h).trans (h.length_eq ▸ hF)

/-- Each round of the loop uploads the next document and records it, while there is room. -/
theorem follows_acceptPending {pending : List ValidatedDocument} {outstanding : ℕ}
    (hK : K.file = some F) (hF : F.Positional)
    (hpending : pending = manifest.documents.drop F.length)
    (hroom : F.outstanding ≤ outstanding) :
    Follows manifest maxOutstanding
      (fun x k => ∀ z, x = .ok z → ∃ K', k = some K' ∧ K'.file = some z.2 ∧ z.2.Positional)
      (acceptPending manifest.manifestSha256 maxOutstanding pending outstanding F) K := by
  induction pending generalizing K F outstanding with
  | nil =>
    intro z hz
    cases hz
    exact ⟨K,rfl,hK,hF⟩
  | cons item pending ih =>
    simp only [acceptPending]
    split
    case isFalse =>
      intro z hz
      cases hz
      exact ⟨K,rfl,hK,hF⟩
    case isTrue hlt =>
      have hitem : manifest.documents[F.length]? = some item := by
        have := congrArg (fun l => l[0]?) hpending
        simpa using this.symm
      have hindex := manifest.index_getElem hitem
      have hdrop : pending = manifest.documents.drop (F.length + 1) := by
        have := congrArg List.tail hpending
        simpa using this
      refine Program.Follows.bind
        (Q := fun x k => ∀ d, x = .ok d → k = some {K with answer := some d})
        (follows_call ⟨F,hK,lt_of_le_of_lt hroom hlt,hitem,rfl⟩ ?_) ?_ ?_
      · rintro (err | d) d' hd
        · cases hd
        · cases hd
          rfl
      · intro d k hk
        obtain rfl := hk d rfl
        rw [hindex]
        refine Program.Follows.bind
          (Q := fun x k => x = .ok () → k = some ⟨some (F ++ [⟨F.length,d⟩]),K.terminal,none⟩)
          (follows_call ⟨F,hK,Or.inr ⟨d,rfl,lt_of_le_of_lt hroom hlt,rfl⟩⟩ ?_) ?_ ?_
        · rintro (err | u) hu
          · cases hu
          · rfl
        · intro u k hk
          obtain rfl := hk rfl
          refine ih rfl (hF.push d) ?_ ?_
          · rw [List.length_append]
            exact hdrop
          · simp only [Accepted.outstanding, List.countP_append, List.countP_singleton]
            unfold Accepted.outstanding at hroom
            split <;> omega
        · intro err k _ z hz
          cases hz
      · intro err k _ z hz
        cases hz

end Protocol

section Runs
variable {manifest : ValidatedManifest} {maxOutstanding : ℕ} {K : Knowledge} {F : Accepted}
  {α : Type}

/-- Of the last statements of a run nothing more is expected. -/
def Whatever (_ : Except Error α) (_ : Option Knowledge) : Prop := True

theorem follows_applyRounds {waiting : Waiting} (rounds : ℕ) (hK : K.file = some F)
    (hF : F.Positional) :
    Follows manifest maxOutstanding Whatever
      (applyRounds manifest maxOutstanding waiting rounds F) K := by
  induction rounds generalizing K F with
  | zero => exact trivial
  | succ rounds ih =>
    simp only [applyRounds, Program.bind_eq]
    refine Program.Follows.bind (follows_refresh F K) ?_ fun _ _ _ => trivial
    rintro F' k ⟨K',rfl,hfile,-,hrefreshed⟩
    have hrefreshed := hrefreshed F' rfl
    have hF' := Refreshed.positional hrefreshed hF
    refine Program.Follows.bind
      (Q := fun x k => x = .ok () → k = some ⟨some F',K'.terminal,none⟩)
      (follows_call (r := .saveState ⟨manifest.manifestSha256,F'⟩)
        ⟨F,hfile.trans hK,Or.inl hrefreshed⟩ ?_) ?_ fun _ _ _ => trivial
    · rintro (err | u) hu
      · cases hu
      · rfl
    intro u k hk
    obtain rfl := hk rfl
    have hpending : manifest.documents.filter (fun item => item.index ∉ F'.indices) =
        manifest.documents.drop F'.length := by
      rw [show F'.indices = List.range F'.length from hF']
      exact manifest.drop_eq _
    refine Program.Follows.bind (follows_acceptPending rfl hF' hpending le_rfl) ?_
      fun _ _ _ => trivial
    rintro ⟨outstanding,accepted⟩ k hz
    obtain ⟨K'',rfl,hfile'',haccepted⟩ := hz _ rfl
    dsimp only at hfile'' haccepted ⊢
    split
    · exact trivial
    split
    · exact trivial
    refine Program.Follows.bind (Q := fun x k => ∀ now, x = .ok now → k = some K'')
      (follows_call (r := .monotonic) trivial ?_) ?_ fun _ _ _ => trivial
    · rintro (err | now) now' hnow
      · cases hnow
      · rfl
    intro now k hk
    obtain rfl := hk now rfl
    split
    · exact trivial
    refine Program.Follows.bind (Q := fun x k => x = .ok () → k = some K'')
      (follows_call (r := .sleep _) trivial ?_) ?_ fun _ _ _ => trivial
    · rintro (err | u) hu
      · cases hu
      · rfl
    intro u k hk
    obtain rfl := hk rfl
    exact ih hfile'' haccepted

theorem follows_require (c : Bool) (e : Error) :
    Follows manifest maxOutstanding
      (fun x k => x = .ok () → k = some K) (Program.require c e) K := by
  unfold Program.require
  split
  · exact fun _ => rfl
  · exact fun h => nomatch h

/-- What has been read is one of this client's files, or the run is not followed any further. -/
theorem follows_loadState (manifestSha256 : String) :
    Follows manifest maxOutstanding
      (fun x k => ∀ state, x = .ok state → k = none ∨
        ∃ K', k = some K' ∧ K'.file = some state.accepted ∧ state.accepted.Positional)
      (loadState manifestSha256) K := by
  unfold loadState
  simp only [Program.bind_eq]
  refine Program.Follows.bind
    (Q := fun x k => ∀ stored, x = .ok stored → k = next K .readState (.ok stored))
    (follows_call (r := .readState) trivial ?_) ?_ fun err k _ state hstate => nomatch hstate
  · rintro (err | stored) stored' hstored
    · cases hstored
    · cases hstored
      rfl
  intro stored k hk
  obtain rfl := hk stored rfl
  by_cases hpositional : Accepted.Positional ((stored.map ReingestionState.accepted).getD [])
  · simp only [next, if_pos hpositional]
    cases stored with
    | none =>
      intro state hstate
      cases hstate
      exact Or.inr ⟨_,rfl,rfl,hpositional⟩
    | some stored =>
      refine Program.Follows.bind (follows_require _ _) ?_ fun err k _ state hstate => nomatch hstate
      intro u k hk state hstate
      obtain rfl := hk rfl
      cases hstate
      exact Or.inr ⟨_,rfl,rfl,hpositional⟩
  · simp only [next, if_neg hpositional]
    exact follows_none (fun x state _ => Or.inl rfl) _

theorem follows_applyManifest (waitSeconds pollSeconds : ℚ) (rounds : ℕ) :
    Follows manifest maxOutstanding Whatever
      (applyManifest manifest maxOutstanding waitSeconds pollSeconds rounds)
      Knowledge.start := by
  unfold applyManifest
  simp only [Program.bind_eq]
  refine Program.Follows.bind (follows_require _ _) ?_ fun _ _ _ => trivial
  intro u k hk
  obtain rfl := hk rfl
  refine Program.Follows.bind (Q := fun x k => ∀ keys, x = .ok keys → k = some Knowledge.start)
    (follows_call (r := .bootstrap) trivial ?_) ?_ fun _ _ _ => trivial
  · rintro (err | keys) keys' hkeys
    · cases hkeys
    · rfl
  intro keys k hk
  obtain rfl := hk keys rfl
  refine Program.Follows.bind (follows_require _ _) ?_ fun _ _ _ => trivial
  intro u k hk
  obtain rfl := hk rfl
  refine Program.Follows.bind (follows_loadState _) ?_ fun _ _ _ => trivial
  intro state k hstate
  rcases hstate state rfl with rfl | ⟨K',rfl,hfile,hpositional⟩
  · exact follows_none (fun _ => trivial) _
  refine Program.Follows.bind (follows_require _ _) ?_ fun _ _ _ => trivial
  intro u k hk
  obtain rfl := hk rfl
  refine Program.Follows.bind (Q := fun x k => ∀ now, x = .ok now → k = some K')
    (follows_call (r := .monotonic) trivial ?_) ?_ fun _ _ _ => trivial
  · rintro (err | now) now' hnow
    · cases hnow
    · rfl
  intro now k hk
  obtain rfl := hk now rfl
  exact follows_applyRounds rounds hfile hpositional

end Runs

/-! ### The invariant -/

/-- What a run knows is so. -/
structure Knows (w : World) (K : Knowledge) : Prop where
  file : ∀ F, K.file = some F → F = w.accepted
  seen : ∀ id, id ∈ K.terminal → id ∈ w.finished
  answer : ∀ d, K.answer = some d → (w.accepted.length,d.documentId) ∈ w.admitted ∧
    terminal d.state = false

/-- The documents that the Bridge has accepted are those of the state file and at most the next
one, and that one only while there is room for it. -/
structure Inv (canonical : Canonical) (manifest : ValidatedManifest) (maxOutstanding : ℕ)
    (w : World) : Prop where
  records : RecordsInv canonical w.bridge
  stored : ∀ item, item ∈ manifest.documents → ∀ row b,
    w.bridge.rows.records.lookup (keyOf manifest item) = some row → row.responseBody = some b →
    (item.index,b.document.id) ∈ w.admitted ∧ terminal b.document.state = false
  free : ∀ item, item ∈ manifest.documents →
    w.bridge.rows.records.lookup (keyOf manifest item) = none →
    item.index ∉ w.admitted.map Prod.fst
  indices : (w.admitted.map Prod.fst).Nodup
  ids : (w.admitted.map Prod.snd).Nodup
  present : ∀ p, p ∈ w.admitted → (w.bridge.rows.catalog.document? p.2).isSome = true
  finished : ∀ id, id ∈ terminalIds w.bridge → id ∈ w.finished
  positional : w.accepted.Positional
  accepted : ∀ e, e ∈ w.accepted → (e.index,e.document.documentId) ∈ w.admitted ∧
    (terminal e.document.state = true → e.document.documentId ∈ w.finished)
  ahead : ∀ p, p ∈ w.admitted → p.1 ≤ w.accepted.length
  sent : ∀ u, u ∈ w.sent → u.item ∈ manifest.documents ∧ u.key = keyOf manifest u.item ∧
    u.item.index ≤ w.accepted.length
  replies : ∀ u d, (u,d) ∈ w.replies → (u.item.index,d.documentId) ∈ w.admitted ∧
    terminal d.state = false
  room : (w.accepted.length ∈ w.admitted.map Prod.fst ∨
      ∃ u, u ∈ w.sent ∧ u.item.index = w.accepted.length) →
    w.accepted.outstanding < maxOutstanding
  bounded : w.accepted.outstanding ≤ maxOutstanding
  run : ∀ p, w.run = some p → ∃ K, Knows w K ∧
    Follows manifest maxOutstanding Whatever p K

section Preservation
variable {s : Settings} {canonical : Canonical} {manifest : ValidatedManifest}
  {maxOutstanding : ℕ} {operator : Text 255} {w w' : World}

theorem Initial.inv (h : Initial canonical manifest w) : Inv canonical manifest maxOutstanding w := by
  have haccepted : w.accepted = [] := by
    unfold World.accepted
    rw [h.file]
  refine ⟨h.records,?_,?_,?_,?_,?_,?_,?_,?_,?_,?_,?_,?_,?_,?_⟩
  · intro item hitem row b hrow
    rw [h.keys item hitem] at hrow
    cases hrow
  all_goals simp [h.admitted, h.finished, h.sent, h.replies, h.run, haccepted,
    Accepted.Positional, Accepted.indices, Accepted.outstanding]

/-- Only the rest of the run has changed. -/
theorem Inv.resume (h : Inv canonical manifest maxOutstanding w) {K : Knowledge}
    {p : Client ReingestionState} (hknows : Knows w K)
    (hp : Follows manifest maxOutstanding Whatever p K) :
    Inv canonical manifest maxOutstanding {w with run := some p} :=
  ⟨h.records,h.stored,h.free,h.indices,h.ids,h.present,h.finished,h.positional,h.accepted,h.ahead,
    h.sent,h.replies,h.room,h.bounded,fun q hq => by
      cases hq
      exact ⟨K,⟨hknows.file,hknows.seen,hknows.answer⟩,hp⟩⟩

theorem Inv.start (h : Inv canonical manifest maxOutstanding w) (waitSeconds pollSeconds : ℚ)
    (rounds : ℕ) : Inv canonical manifest maxOutstanding {w with
      run := some (applyManifest manifest maxOutstanding waitSeconds pollSeconds rounds)} :=
  h.resume (K := Knowledge.start) ⟨fun _ hF => (nomatch hF),fun id hid => absurd hid (Set.notMem_empty id),
    fun _ hd => (nomatch hd)⟩ (follows_applyManifest _ _ _)

theorem Inv.stop (h : Inv canonical manifest maxOutstanding w) :
    Inv canonical manifest maxOutstanding {w with run := none} :=
  ⟨h.records,h.stored,h.free,h.indices,h.ids,h.present,h.finished,h.positional,h.accepted,h.ahead,
    h.sent,h.replies,h.room,h.bounded,fun _ hp => (nomatch hp)⟩

/-- Anybody else may change the Bridge, but not the keys of the manifest. -/
theorem Inv.observe (h : Inv canonical manifest maxOutstanding w) {v : Service}
    (hretains : Retains w.bridge v) (hrecords : RecordsInv canonical v)
    (hkeys : ∀ item, item ∈ manifest.documents →
      v.rows.records.lookup (keyOf manifest item) =
        w.bridge.rows.records.lookup (keyOf manifest item)) :
    Inv canonical manifest maxOutstanding (w.observe v) := by
  have hfinished : ∀ id, id ∈ w.finished → id ∈ (w.observe v).finished :=
    fun id hid => List.mem_append_left _ hid
  refine ⟨hrecords,fun item hitem row b hrow => ?_,fun item hitem hrow => ?_,h.indices,h.ids,
    fun p hp => hretains _ (h.present p hp),fun id hid => List.mem_append_right _ hid,
    h.positional,fun e he => ⟨(h.accepted e he).1,fun ht => hfinished _ ((h.accepted e he).2 ht)⟩,
    h.ahead,h.sent,h.replies,h.room,h.bounded,fun p hp => ?_⟩
  · exact h.stored item hitem row b (hkeys item hitem ▸ hrow)
  · exact h.free item hitem (hkeys item hitem ▸ hrow)
  · obtain ⟨K,hknows,hfollows⟩ := h.run p hp
    exact ⟨K,⟨hknows.file,fun id hid => hfinished _ (hknows.seen id hid),hknows.answer⟩,
      hfollows⟩

/-! ### Requests of the client -/

theorem Refreshed.outstanding_le {T : Set Uuid} {F F' : Accepted}
    (h : List.Forall₂ (Refreshed T) F F') : F'.outstanding ≤ F.outstanding := by
  induction h with
  | nil => exact le_rfl
  | @cons e e' F F' he _ ih =>
    have hkeeps := he.keeps
    simp only [Accepted.outstanding, List.countP_cons] at ih ⊢
    cases hterminal : terminal e.document.state with
    | true => simpa [hkeeps hterminal] using ih
    | false =>
      simp only [Bool.not_false, if_true]
      split <;> omega

theorem Refreshed.exists_mem {T : Set Uuid} {F F' : Accepted}
    (h : List.Forall₂ (Refreshed T) F F') {e' : Entry} (he : e' ∈ F') :
    ∃ e, e ∈ F ∧ Refreshed T e e' := by
  induction h with
  | nil => cases he
  | cons hr _ ih =>
    rcases List.mem_cons.1 he with rfl | he
    · exact ⟨_,List.mem_cons_self,hr⟩
    · obtain ⟨e,hmem,hr⟩ := ih he
      exact ⟨e,List.mem_cons_of_mem _ hmem,hr⟩

/-- Newer statuses are saved. -/
theorem Inv.saveRefreshed (h : Inv canonical manifest maxOutstanding w) {K : Knowledge}
    {state : ReingestionState} {p : Client ReingestionState} (hknows : Knows w K)
    (hstate : List.Forall₂ (Refreshed K.terminal) w.accepted state.accepted)
    (hp : Follows manifest maxOutstanding Whatever p
      ⟨some state.accepted,K.terminal,none⟩) :
    Inv canonical manifest maxOutstanding {w with run := some p, file := some state} := by
  have hlength : state.accepted.length = w.accepted.length := hstate.length_eq.symm
  have hle := Refreshed.outstanding_le hstate
  refine ⟨h.records,h.stored,h.free,h.indices,h.ids,h.present,h.finished,
    Refreshed.positional hstate h.positional,fun e' he' => ?_,?_,?_,h.replies,?_,
    hle.trans h.bounded,fun q hq => ?_⟩
  · obtain ⟨e,he,hr⟩ := Refreshed.exists_mem hstate he'
    obtain ⟨hadmitted,hfinished⟩ := h.accepted e he
    rw [hr.index, hr.documentId]
    exact ⟨hadmitted,fun ht => (hr.seen ht).elim hfinished (hknows.seen _)⟩
  · intro q hq
    exact (h.ahead q hq).trans_eq hlength.symm
  · intro u hu
    obtain ⟨hitem,hkey,hindex⟩ := h.sent u hu
    exact ⟨hitem,hkey,hindex.trans_eq hlength.symm⟩
  · intro hroom
    refine hle.trans_lt (h.room ?_)
    rw [← hlength]
    exact hroom
  · cases hq
    refine ⟨⟨some state.accepted,K.terminal,none⟩,
      ⟨fun F hF => ?_,hknows.seen,fun d hd => (nomatch hd)⟩,hp⟩
    exact (Option.some.inj hF).symm

/-- One more acceptance is saved. -/
theorem Inv.savePush (h : Inv canonical manifest maxOutstanding w) {K : Knowledge}
    {state : ReingestionState} {p : Client ReingestionState} {d : AcceptedDocument}
    (hknows : Knows w K) (hanswer : K.answer = some d)
    (hlt : w.accepted.outstanding < maxOutstanding)
    (hstate : state.accepted = w.accepted ++ [⟨w.accepted.length,d⟩])
    (hp : Follows manifest maxOutstanding Whatever p
      ⟨some state.accepted,K.terminal,none⟩) :
    Inv canonical manifest maxOutstanding {w with run := some p, file := some state} := by
  obtain ⟨hadmitted,hopen⟩ := hknows.answer d hanswer
  have haccepted : World.accepted {w with run := some p, file := some state} =
      w.accepted ++ [⟨w.accepted.length,d⟩] := hstate
  have hlength : (w.accepted ++ [(⟨w.accepted.length,d⟩ : Entry)]).length =
      w.accepted.length + 1 := by simp
  refine ⟨h.records,h.stored,h.free,h.indices,h.ids,h.present,h.finished,?_,?_,?_,?_,h.replies,
    ?_,?_,?_⟩
  · rw [haccepted]
    exact h.positional.push d
  · rw [haccepted]
    intro e he
    rcases List.mem_append.1 he with he | he
    · exact h.accepted e he
    · rw [List.mem_singleton.1 he]
      exact ⟨hadmitted,fun ht => absurd (hopen.symm.trans ht) Bool.false_ne_true⟩
  · rw [haccepted, hlength]
    exact fun q hq => (h.ahead q hq).trans (Nat.le_succ _)
  · rw [haccepted, hlength]
    intro u hu
    obtain ⟨hitem,hkey,hindex⟩ := h.sent u hu
    exact ⟨hitem,hkey,hindex.trans (Nat.le_succ _)⟩
  · rw [haccepted, hlength]
    rintro (hroom | ⟨u,hu,hroom⟩)
    · obtain ⟨q,hq,he⟩ := List.mem_map.1 hroom
      have := h.ahead q hq
      omega
    · have := (h.sent u hu).2.2
      have : u.item.index = w.accepted.length + 1 := hroom
      omega
  · rw [haccepted]
    simp only [Accepted.outstanding, List.countP_append, List.countP_singleton]
    unfold Accepted.outstanding at hlt
    split <;> omega
  · intro q hq
    cases hq
    refine ⟨⟨some state.accepted,K.terminal,none⟩,
      ⟨fun F hF => ?_,hknows.seen,fun d hd => (nomatch hd)⟩,hp⟩
    exact (Option.some.inj hF).symm

theorem terminal_finished (h : Inv canonical manifest maxOutstanding w) {id : Uuid}
    {state : DocumentState}
    (hstate : (w.bridge.rows.catalog.document? id).map Document.state = some state)
    (hterminal : terminal state = true) : id ∈ w.finished := by
  obtain ⟨d,hd,rfl⟩ := Option.map_eq_some_iff.1 hstate
  refine h.finished id (List.mem_map.2 ⟨d,List.mem_filter.2 ⟨?_,hterminal⟩,?_⟩)
  · exact Catalog.mem_of_document? hd
  · exact Catalog.id_of_document? hd

/-- The client makes a request other than an upload. -/
theorem Inv.ask (h : Inv canonical manifest maxOutstanding w) {r : Request}
    {k : Except Error r.Response → Client ReingestionState} (hrun : w.run = some (.call r k))
    {x : Except Error r.Response} (hx : w.answers r x) :
    Inv canonical manifest maxOutstanding {w with run := some (k x), file := w.fileAfter r x} := by
  obtain ⟨K,hknows,hpermits,hfollows⟩ := h.run _ hrun
  have hpermits := hpermits K rfl
  have hfollows := hfollows x trivial
  cases r with
  | saveState state =>
    cases x with
    | error e => exact h.resume hknows hfollows
    | ok u =>
      obtain ⟨F,hF,hsave⟩ := hpermits
      obtain rfl := hknows.file F hF
      rcases hsave with hrefreshed | ⟨d,hanswer,hlt,hstate⟩
      · exact h.saveRefreshed hknows hrefreshed hfollows
      · exact h.savePush hknows hanswer hlt hstate hfollows
  | readState =>
    cases x with
    | error e => exact h.resume hknows hfollows
    | ok stored =>
      have hstored : (stored.map ReingestionState.accepted).getD [] = w.accepted := by
        rw [show stored = w.file from hx]
        unfold World.accepted
        cases w.file <;> rfl
      have hnext : next K .readState (.ok stored) = some {K with file := some w.accepted} := by
        simp only [next, hstored]
        exact if_pos (hstored.symm ▸ h.positional)
      have hfollows : Program.Follows (protocol manifest maxOutstanding) Whatever
        (k (.ok stored)) (next K .readState (.ok stored)) := hfollows
      rw [hnext] at hfollows
      refine h.resume (K := {K with file := some w.accepted}) ⟨fun F hF => ?_,hknows.seen,
        hknows.answer⟩ hfollows
      exact (Option.some.inj hF).symm
  | document id =>
    cases x with
    | error e => exact h.resume hknows hfollows
    | ok state =>
      have hfollows : Program.Follows (protocol manifest maxOutstanding) Whatever
        (k (.ok state)) (next K (.document id) (.ok state)) := hfollows
      simp only [next] at hfollows
      split at hfollows
      · rename_i hterminal
        refine h.resume (K := {K with terminal := insert id K.terminal})
          ⟨hknows.file,fun id' hid => ?_,hknows.answer⟩ hfollows
        rcases Set.mem_insert_iff.1 hid with rfl | hid
        · exact terminal_finished h hx hterminal
        · exact hknows.seen id' hid
      · exact h.resume hknows hfollows
  | upload item key =>
    cases x with
    | error e => exact h.resume hknows hfollows
    | ok d => exact hx.elim
  | bootstrap => exact h.resume hknows (by cases x <;> exact hfollows)
  | monotonic => exact h.resume hknows (by cases x <;> exact hfollows)
  | sleep seconds => exact h.resume hknows (by cases x <;> exact hfollows)

/-- What an upload request of a run is about. -/
theorem Inv.upload (h : Inv canonical manifest maxOutstanding w) {item : ValidatedDocument}
    {key : String} {k : Except Error AcceptedDocument → Client ReingestionState}
    (hrun : w.run = some (.call (Request.upload item key) k)) :
    item ∈ manifest.documents ∧ key = keyOf manifest item ∧
      item.index = w.accepted.length ∧ w.accepted.outstanding < maxOutstanding := by
  obtain ⟨K,hknows,hpermits,-⟩ := h.run _ hrun
  obtain ⟨F,hF,hlt,hitem,hkey⟩ := hpermits K rfl
  obtain rfl := hknows.file F hF
  exact ⟨List.mem_of_getElem? hitem,hkey,manifest.index_getElem hitem,hlt⟩

theorem Inv.send (h : Inv canonical manifest maxOutstanding w) {u : Upload}
    {k : Except Error AcceptedDocument → Client ReingestionState}
    (hrun : w.run = some (.call (Request.upload u.item u.key) k)) :
    Inv canonical manifest maxOutstanding {w with sent := u :: w.sent} := by
  obtain ⟨hitem,hkey,hindex,hlt⟩ := h.upload hrun
  refine ⟨h.records,h.stored,h.free,h.indices,h.ids,h.present,h.finished,h.positional,h.accepted,
    h.ahead,fun v hv => ?_,h.replies,fun _ => hlt,h.bounded,fun p hp => ?_⟩
  · rcases List.mem_cons.1 hv with rfl | hv
    · exact ⟨hitem,hkey,hindex.le⟩
    · exact h.sent v hv
  · obtain ⟨K,hknows,hfollows⟩ := h.run p hp
    exact ⟨K,⟨hknows.file,hknows.seen,hknows.answer⟩,hfollows⟩

theorem Inv.receive (h : Inv canonical manifest maxOutstanding w) {u : Upload}
    {d : AcceptedDocument} {k : Except Error AcceptedDocument → Client ReingestionState}
    (hrun : w.run = some (.call (Request.upload u.item u.key) k)) (hd : (u,d) ∈ w.replies) :
    Inv canonical manifest maxOutstanding {w with run := some (k (.ok d))} := by
  obtain ⟨-,-,hindex,-⟩ := h.upload hrun
  obtain ⟨K,hknows,-,hfollows⟩ := h.run _ hrun
  refine h.resume (K := {K with answer := some d}) ⟨hknows.file,hknows.seen,fun d' hd' => ?_⟩
    (hfollows (.ok d) trivial)
  cases hd'
  rw [← hindex]
  exact h.replies u d hd

end Preservation

/-! ### The Bridge serves an upload -/

section Serving
variable {s : Settings} {canonical : Canonical} {manifest : ValidatedManifest}
  {maxOutstanding : ℕ} {operator : Text 255} {w : World} {v v' : Service} {env : Environment}
  {u : Upload} {x : Api.PreparedAdmission}

theorem addedIds_self (v : Service) : addedIds v v = [] := by
  unfold addedIds
  rw [List.filter_eq_nil_iff.2, List.map_nil]
  intro d hd
  rw [Catalog.document?_of_mem hd]
  exact Bool.false_ne_true

/-- A new row is the only one that a request adds. -/
theorem addedIds_put {d : Document} (hfresh : v.rows.catalog.document? d.id = none)
    (hput : v'.rows.catalog = v.rows.catalog.put d) : addedIds v v' = [d.id] := by
  have hrows : v'.rows.catalog.documents.rows = d :: v.rows.catalog.documents.rows := by
    rw [hput]
    refine Table.rows_put_of_not_mem fun e he hid => ?_
    rw [← hid, Catalog.document?_of_mem he] at hfresh
    cases hfresh
  unfold addedIds
  rw [hrows, List.filter_cons_of_pos (by rw [hfresh]; rfl), List.filter_eq_nil_iff.2]
  · rfl
  · intro e he
    rw [Catalog.document?_of_mem he]
    exact Bool.false_ne_true

theorem responseBody_ok {m : Intake.MutationOutcome} {body : ResponseBody}
    (h : responseBody m = .ok body) :
    body.document.id = m.document.id ∧ body.document.state = m.document.state := by
  unfold responseBody at h
  cases hm : Api.mutationResponse m with
  | error e =>
    rw [hm] at h
    cases h
  | ok z =>
    rw [hm] at h
    cases h
    simp only [Api.mutationResponse, Api.documentSummary, bind_eq_ok, require_eq_ok, pure_eq_ok,
      exists_const] at hm
    obtain ⟨d,⟨failure,-,-,rfl⟩,o,-,rfl⟩ := hm
    exact ⟨rfl,rfl⟩

/-- An admission adds one document, which is preflighting. -/
theorem upload_commits {now : Time} {hx : Prepared s x} {body : ResponseBody}
    (h : Commits canonical now v v' (⟨u.key,.upload x hx⟩ : Idempotency.Request s) body) :
    ∃ d : Document, d.id = uuid4 now 0 ∧ body.document.id = d.id ∧
      terminal body.document.state = false ∧
      v'.rows.catalog = v.rows.catalog.put d := by
  obtain ⟨m,hm,hbody,hcatalog⟩ := h.outcome
  simp only [Idempotency.Request.outcome, Api.registerAdmission, bind_eq_ok, require_eq_ok,
    exists_const, Prod.exists, pure_eq_ok] at hm
  obtain ⟨-,-,-,o,d,henqueue,rfl⟩ := hm
  obtain ⟨-,-,-,-,hd⟩ := Lifecycle.enqueueOperation_ok henqueue
  obtain ⟨hid,hstate⟩ := responseBody_ok hbody
  refine ⟨d,?_,hid,?_,hcatalog⟩
  · rw [hd]
    rfl
  · rw [hstate, hd]
    rfl

/-- The reply to an upload is what its key is bound to. -/
theorem Inv.reply (h : Inv canonical manifest maxOutstanding w) (d : AcceptedDocument)
    (hd : (u.item.index,d.documentId) ∈ w.admitted ∧ terminal d.state = false) :
    Inv canonical manifest maxOutstanding {w with replies := (u,d) :: w.replies} := by
  refine ⟨h.records,h.stored,h.free,h.indices,h.ids,h.present,h.finished,h.positional,h.accepted,
    h.ahead,h.sent,fun u' d' hmem => ?_,h.room,h.bounded,fun p hp => ?_⟩
  · rcases List.mem_cons.1 hmem with he | hmem
    · cases he
      exact hd
    · exact h.replies u' d' hmem
  · obtain ⟨K,hknows,hfollows⟩ := h.run p hp
    exact ⟨K,⟨hknows.file,hknows.seen,hknows.answer⟩,hfollows⟩

theorem Inv.erase (h : Inv canonical manifest maxOutstanding w) (u : Upload) :
    Inv canonical manifest maxOutstanding {w with sent := w.sent.erase u} := by
  refine ⟨h.records,h.stored,h.free,h.indices,h.ids,h.present,h.finished,h.positional,h.accepted,
    h.ahead,fun u' hu => h.sent u' (List.mem_of_mem_erase hu),h.replies,?_,h.bounded,
    fun p hp => ?_⟩
  · rintro (hroom | ⟨u',hu,hroom⟩)
    · exact h.room (Or.inl hroom)
    · exact h.room (Or.inr ⟨u',List.mem_of_mem_erase hu,hroom⟩)
  · obtain ⟨K,hknows,hfollows⟩ := h.run p hp
    exact ⟨K,⟨hknows.file,hknows.seen,hknows.answer⟩,hfollows⟩

/-- A free key is bound to the one document that its upload adds. -/
theorem Inv.admitted (h : Inv canonical manifest maxOutstanding w) (hu : u ∈ w.sent)
    {hx : Prepared s x} {body : ResponseBody}
    (hfresh : w.bridge.rows.catalog.document? (uuid4 env.now 0) = none)
    (hcommits : Commits canonical env.now w.bridge v
      (⟨u.key,.upload x hx⟩ : Idempotency.Request s) body) :
    addedIds w.bridge v = [body.document.id] ∧ terminal body.document.state = false ∧
    Inv canonical manifest maxOutstanding {w.observe v with
      admitted := w.admitted ++ [(u.item.index,body.document.id)]} := by
  obtain ⟨d,hd,hbody,hopen,hcatalog⟩ := upload_commits hcommits
  obtain ⟨hitem,hkey,hindex⟩ := h.sent u hu
  obtain ⟨row,hrow,hrecords⟩ := hcommits.record
  have hrowkey : row.key = keyOf manifest u.item := hrow.key.trans hkey
  have hfree : w.bridge.rows.records.lookup (keyOf manifest u.item) = none := hkey ▸ hrow.free
  have hnew : w.bridge.rows.catalog.document? d.id = none := hd ▸ hfresh
  have hlookup : ∀ item, item ∈ manifest.documents → item ≠ u.item →
      v.rows.records.lookup (keyOf manifest item) =
        w.bridge.rows.records.lookup (keyOf manifest item) := by
    intro item hmem hne
    rw [hrecords, Table.lookup_put_of_ne]
    intro he
    rw [hrowkey] at he
    exact hne (manifest.ext_index hmem hitem (idempotencyKey_injective _ he.symm))
  have hself : v.rows.records.lookup (keyOf manifest u.item) = some row := by
    rw [hrecords, ← hrowkey]
    exact Table.lookup_put_self _ _
  have hretains : Retains w.bridge v := by
    intro id hid
    rw [hcatalog, Catalog.document?_put]
    split
    · rfl
    · exact hid
  have hmem : (u.item.index,body.document.id) ∈
      w.admitted ++ [(u.item.index,body.document.id)] := by simp
  refine ⟨hbody ▸ addedIds_put hnew hcatalog,hopen,h.records.commits hcommits,
    fun item hmem' row' b hrow' hb => ?_,fun item hmem' hnone => ?_,?_,?_,fun p hp => ?_,
    fun id hid => List.mem_append_right _ hid,h.positional,fun e he => ?_,fun p hp => ?_,h.sent,
    fun u' d' hd' => ?_,?_,h.bounded,fun p hp => ?_⟩
  · have hrow' : v.rows.records.lookup (keyOf manifest item) = some row' := hrow'
    by_cases he : item = u.item
    · rw [he, hself] at hrow'
      obtain rfl := Option.some.inj hrow'
      obtain rfl := Option.some.inj (hrow.responseBody.symm.trans hb)
      exact ⟨he ▸ hmem,hopen⟩
    · obtain ⟨ha,hs⟩ := h.stored item hmem' row' b (hlookup item hmem' he ▸ hrow') hb
      exact ⟨List.mem_append_left _ ha,hs⟩
  · by_cases he : item = u.item
    · rw [he] at hnone
      exact absurd (hself.symm.trans hnone) fun hc => by cases hc
    · have hold := h.free item hmem' (hlookup item hmem' he ▸ hnone)
      have hne : item.index ≠ u.item.index := fun hi => he (manifest.ext_index hmem' hitem hi)
      simpa [List.mem_append, hne] using hold
  · rw [List.map_append, List.map_singleton]
    refine List.nodup_append.2 ⟨h.indices,List.nodup_singleton _,fun a ha b hb he => ?_⟩
    rw [he, List.mem_singleton.1 hb] at ha
    exact h.free u.item hitem hfree ha
  · rw [List.map_append, List.map_singleton]
    refine List.nodup_append.2 ⟨h.ids,List.nodup_singleton _,fun a ha b hb he => ?_⟩
    obtain ⟨p,hp,rfl⟩ := List.mem_map.1 ha
    have hpresent := h.present p hp
    rw [he, List.mem_singleton.1 hb, hbody, hnew] at hpresent
    cases hpresent
  · rcases List.mem_append.1 hp with hp | hp
    · exact hretains _ (h.present p hp)
    · rw [List.mem_singleton.1 hp]
      have : v.rows.catalog.document? body.document.id = some d := by
        rw [hcatalog, hbody]
        exact Catalog.document?_put_self _ _
      exact congrArg Option.isSome this
  · obtain ⟨ha,hf⟩ := h.accepted e he
    exact ⟨List.mem_append_left _ ha,fun ht => List.mem_append_left _ (hf ht)⟩
  · rcases List.mem_append.1 hp with hp | hp
    · exact h.ahead p hp
    · rw [List.mem_singleton.1 hp]
      exact hindex
  · obtain ⟨ha,hs⟩ := h.replies u' d' hd'
    exact ⟨List.mem_append_left _ ha,hs⟩
  · rintro (hroom | hroom)
    · rw [List.map_append, List.map_singleton] at hroom
      rcases List.mem_append.1 hroom with hroom | hroom
      · exact h.room (Or.inl hroom)
      · exact h.room (Or.inr ⟨u,hu,(List.mem_singleton.1 hroom).symm⟩)
    · exact h.room (Or.inr hroom)
  · obtain ⟨K,hknows,hfollows⟩ := h.run p hp
    refine ⟨K,⟨hknows.file,fun id hid => List.mem_append_left _ (hknows.seen id hid),
      fun d' hd' => ?_⟩,hfollows⟩
    obtain ⟨ha,hs⟩ := hknows.answer d' hd'
    exact ⟨List.mem_append_left _ ha,hs⟩

/-- The Bridge admits the document, replays the stored response, or refuses. -/
theorem Inv.handle (h : Inv canonical manifest maxOutstanding w) (hu : u ∈ w.sent)
    (hx : Carries s operator u.item x)
    (hfresh : w.bridge.rows.catalog.document? (uuid4 env.now 0) = none) :
    Inv canonical manifest maxOutstanding (w.handle s canonical env u x hx.prepared) := by
  have hserves : Serves canonical env w.bridge
      (⟨u.key,.upload x hx.prepared⟩ : Idempotency.Request s)
      (w.bridge.serve canonical env ⟨u.key,.upload x hx.prepared⟩) := serve_ends h.records
  have hsame : Inv canonical manifest maxOutstanding (w.observe w.bridge) :=
    h.observe (fun _ hid => hid) h.records fun _ _ => rfl
  obtain ⟨hitem,hkey,-⟩ := h.sent u hu
  unfold World.handle
  generalize w.bridge.serve canonical env _ = z at hserves ⊢
  obtain ⟨e | body,v⟩ := z
  · obtain rfl : v = w.bridge := hserves.1
    simp only [addedIds_self, List.map_nil, List.append_nil]
    exact hsame.erase u
  · rcases hserves with hcommits | ⟨stored,⟨-,-,row,hrow,-,hbody⟩,rfl,rfl⟩
    · obtain ⟨hadded,hopen,hinv⟩ := h.admitted hu hfresh hcommits
      simp only [hadded, List.map_singleton]
      refine (hinv.erase u).reply ⟨_,_,_⟩ ⟨?_,hopen⟩
      exact List.mem_append_right _ (List.mem_singleton_self _)
    · simp only [addedIds_self, List.map_nil, List.append_nil]
      refine (hsame.erase u).reply ⟨_,_,_⟩ ?_
      exact h.stored u.item hitem row stored.body (hkey ▸ hrow) hbody

theorem Inv.step (h : Inv canonical manifest maxOutstanding w) {w' : World}
    (hstep : Step s canonical manifest maxOutstanding operator w w') :
    Inv canonical manifest maxOutstanding w' := by
  cases hstep with
  | start waitSeconds pollSeconds rounds _ => exact h.start waitSeconds pollSeconds rounds
  | stop => exact h.stop
  | ask hrun x hx => exact h.ask hrun hx
  | send hrun => exact h.send hrun
  | handle hu env x hx hfresh => exact h.handle hu hx hfresh
  | receive hrun hd => exact h.receive hrun hd
  | other v hretains hrecords hkeys => exact h.observe hretains hrecords hkeys

theorem Inv.steps (h : Inv canonical manifest maxOutstanding w) {w' : World}
    (hsteps : Steps s canonical manifest maxOutstanding operator w w') :
    Inv canonical manifest maxOutstanding w' := by
  induction hsteps with
  | refl => exact h
  | tail _ hstep ih => exact ih.step hstep

theorem Reachable.inv (h : Reachable s canonical manifest maxOutstanding operator w) :
    Inv canonical manifest maxOutstanding w := by
  obtain ⟨v,hv,hsteps⟩ := h
  exact hv.inv.steps hsteps

end Serving

/-! ### Resumption -/

section Resumption
variable {s : Settings} {canonical : Canonical} {manifest : ValidatedManifest}
  {maxOutstanding : ℕ} {operator : Text 255} {w w' : World}

/-- The state file binds an index to a document. -/
def World.binds (w : World) (index : ℕ) (id : Uuid) : Prop :=
  ∃ e, e ∈ w.accepted ∧ e.index = index ∧ e.document.documentId = id

theorem binds_refreshed {T : Set Uuid} {F F' : Accepted} (h : List.Forall₂ (Refreshed T) F F')
    {e : Entry} (he : e ∈ F) :
    ∃ e', e' ∈ F' ∧ e'.index = e.index ∧
      e'.document.documentId = e.document.documentId := by
  induction h with
  | nil => cases he
  | cons hr _ ih =>
    rcases List.mem_cons.1 he with rfl | he
    · exact ⟨_,List.mem_cons_self,hr.index,hr.documentId⟩
    · obtain ⟨e',hmem,hbind⟩ := ih he
      exact ⟨e',List.mem_cons_of_mem _ hmem,hbind⟩

/-- A recorded acceptance stays recorded. -/
theorem Inv.binds_step (h : Inv canonical manifest maxOutstanding w)
    (hstep : Step s canonical manifest maxOutstanding operator w w') {index : ℕ} {id : Uuid}
    (hbinds : w.binds index id) : w'.binds index id := by
  cases hstep with
  | @ask r k hrun x hx =>
    cases r with
    | saveState state =>
      cases x with
      | error e => exact hbinds
      | ok u =>
        obtain ⟨K,hknows,hpermits,-⟩ := h.run _ hrun
        obtain ⟨F,hF,hsave⟩ := hpermits K rfl
        obtain rfl := hknows.file F hF
        obtain ⟨e,he,rfl,rfl⟩ := hbinds
        rcases hsave with hrefreshed | ⟨d,-,-,hstate⟩
        · exact binds_refreshed hrefreshed he
        · refine ⟨e,?_,rfl,rfl⟩
          rw [show World.accepted _ = state.accepted from rfl, hstate]
          exact List.mem_append_left _ he
    | _ => exact hbinds
  | _ => exact hbinds

theorem Inv.binds_steps (h : Inv canonical manifest maxOutstanding w)
    (hsteps : Steps s canonical manifest maxOutstanding operator w w') {index : ℕ} {id : Uuid}
    (hbinds : w.binds index id) : w'.binds index id := by
  induction hsteps with
  | refl => exact hbinds
  | tail hsteps hstep ih => exact (h.steps hsteps).binds_step hstep ih

theorem Inv.index_lt (h : Inv canonical manifest maxOutstanding w) {e : Entry}
    (he : e ∈ w.accepted) : e.index < w.accepted.length := by
  have hmem := List.mem_map_of_mem (f := Entry.index) he
  rw [show w.accepted.map Entry.index = List.range w.accepted.length from h.positional] at hmem
  exact List.mem_range.1 hmem

/-- The document admitted for an index. -/
theorem Inv.admitted_unique (h : Inv canonical manifest maxOutstanding w) {i : ℕ} {id id' : Uuid}
    (hid : (i,id) ∈ w.admitted) (hid' : (i,id') ∈ w.admitted) : id = id' :=
  congrArg Prod.snd (List.inj_on_of_nodup_map h.indices hid hid' rfl)

/-- An admitted document is recorded, or it is that of the next index. -/
theorem Inv.recorded (h : Inv canonical manifest maxOutstanding w) {i : ℕ} {id : Uuid}
    (hid : (i,id) ∈ w.admitted) : w.binds i id ∨ i = w.accepted.length := by
  rcases (h.ahead _ hid).lt_or_eq with hlt | heq
  · have hmem : i ∈ w.accepted.map Entry.index := by
      rw [show w.accepted.map Entry.index = List.range w.accepted.length from h.positional]
      exact List.mem_range.2 hlt
    obtain ⟨e,he,rfl⟩ := List.mem_map.1 hmem
    exact Or.inl ⟨e,he,rfl,h.admitted_unique (h.accepted e he).1 hid⟩
  · exact Or.inr heq

def recordedPairs (w : World) : List (ℕ × Uuid) :=
  w.accepted.map fun e => (e.index,e.document.documentId)

/-- On the Bridge no more of the recorded documents are outstanding than the file says. -/
theorem Inv.countP_recorded (h : Inv canonical manifest maxOutstanding w) :
    (recordedPairs w).countP (fun p => p.2 ∉ w.finished) ≤ w.accepted.outstanding := by
  unfold recordedPairs Accepted.outstanding
  rw [List.countP_map]
  refine List.countP_mono_left fun e he hopen => ?_
  have hopen : e.document.documentId ∉ w.finished := by simpa using hopen
  cases hterminal : terminal e.document.state with
  | true => exact absurd ((h.accepted e he).2 hterminal) hopen
  | false => rfl

/-- The documents accepted for the manifest and not yet terminal stay within the bound. -/
theorem Inv.outstanding_le (h : Inv canonical manifest maxOutstanding w) :
    w.outstanding ≤ maxOutstanding := by
  have hnodup : w.admitted.Nodup := h.indices.of_map
  have hrecorded := h.countP_recorded
  by_cases hnext : w.accepted.length ∈ w.admitted.map Prod.fst
  · obtain ⟨⟨i,id⟩,hid,hi⟩ := List.mem_map.1 hnext
    obtain rfl : i = w.accepted.length := hi
    have hsubset : w.admitted ⊆ (w.accepted.length,id) :: recordedPairs w := by
      rintro ⟨j,d⟩ hp
      rcases h.recorded hp with ⟨e,he,rfl,rfl⟩ | rfl
      · exact List.mem_cons_of_mem _ (List.mem_map.2 ⟨e,he,rfl⟩)
      · rw [h.admitted_unique hp hid]
        exact List.mem_cons_self
    have hcount := (List.subperm_of_subset hnodup hsubset).countP_le fun p => p.2 ∉ w.finished
    have hroom := h.room (Or.inl hnext)
    rw [List.countP_cons] at hcount
    unfold World.outstanding
    split at hcount <;> omega
  · have hsubset : w.admitted ⊆ recordedPairs w := by
      rintro ⟨j,d⟩ hp
      rcases h.recorded hp with ⟨e,he,rfl,rfl⟩ | rfl
      · exact List.mem_map.2 ⟨e,he,rfl⟩
      · exact absurd (List.mem_map_of_mem (f := Prod.fst) hp) hnext
    exact ((List.subperm_of_subset hnodup hsubset).countP_le _).trans
      (hrecorded.trans h.bounded)

/-- Over all interruptions of the client and all progress of the Bridge, each index has at most
one document, the state file binds an index only to its own document, the bound holds at every
moment, and an index that was recorded stays recorded and is not uploaded again. -/
theorem reingestion_resumes (h : Reachable s canonical manifest maxOutstanding operator w) :
    (∀ i id id', (i,id) ∈ w.admitted → (i,id') ∈ w.admitted → id = id') ∧
    (∀ i id, w.binds i id → (i,id) ∈ w.admitted ∧ ∀ j, (j,id) ∈ w.admitted → j = i) ∧
    w.outstanding ≤ maxOutstanding ∧
    ∀ w', Steps s canonical manifest maxOutstanding operator w w' → ∀ i id, w.binds i id →
      w'.binds i id ∧ ∀ item key k,
        w'.run = some (.call (Request.upload item key) k) → item.index ≠ i := by
  have hinv := h.inv
  refine ⟨fun i id id' => hinv.admitted_unique,fun i id hbinds => ?_,hinv.outstanding_le,
    fun w' hsteps i id hbinds => ⟨hinv.binds_steps hsteps hbinds,fun item key k hrun => ?_⟩⟩
  · obtain ⟨e,he,rfl,rfl⟩ := hbinds
    have hadmitted := (hinv.accepted e he).1
    exact ⟨hadmitted,fun j hj =>
      congrArg Prod.fst (List.inj_on_of_nodup_map hinv.ids hj hadmitted rfl)⟩
  · obtain ⟨e,he,rfl,-⟩ := hinv.binds_steps hsteps hbinds
    have hinv' := hinv.steps hsteps
    have hlt := hinv'.index_lt he
    rw [(hinv'.upload hrun).2.2.1]
    exact hlt.ne'

/-- Of a validated manifest, a run uploads the source files that the entries declare, in their
order. -/
theorem uploads_declared {sources : Sources} {documents : List ManifestDocument}
    (hvalid : validateManifest sources documents = .ok manifest)
    (h : Reachable s canonical manifest maxOutstanding operator w) {item : ValidatedDocument}
    {key : String} {k : Except Error AcceptedDocument → Client ReingestionState}
    (hrun : w.run = some (.call (Request.upload item key) k)) :
    ∃ entry, documents[w.accepted.length]? = some entry ∧ Resolves sources entry item := by
  obtain ⟨hitem,-,hindex,-⟩ := h.inv.upload hrun
  obtain ⟨n,hn⟩ := List.mem_iff_getElem?.1 hitem
  rw [← hindex, manifest.index_getElem hn]
  obtain ⟨hlt,hget⟩ := List.getElem?_eq_some_iff.1 hn
  have hentries := (validateManifest_ok hvalid).entries
  have hlt' : n < documents.length := by
    rw [hentries.length_eq]
    exact hlt
  refine ⟨documents[n],List.getElem?_eq_getElem hlt',?_⟩
  rw [← hget]
  exact (List.forall₂_iff_get.1 hentries).2 n hlt' hlt

end Resumption

/-! ### A manifest of two books -/

def bookSources : Sources where
  resolve := fun path => some ⟨path.1,path.1,true,true,
    some (true,1,if path.1 = "a.pdf" then ⟨"a"⟩ else ⟨"b"⟩)⟩
  canonicalSha256 := fun _ => "0123456789abcdef0123456789abcdef0123456789abcdef0123456789abcdef"

def bookEntries : List ManifestDocument :=
  [⟨text "a.pdf",Lifecycle.sampleFilename,Lifecycle.books,⟨"a"⟩⟩,
    ⟨text "b.pdf",Lifecycle.sampleFilename,Lifecycle.books,⟨"b"⟩⟩]

def book (index : ℕ) (path : String) (sha256 : Digest) : ValidatedDocument :=
  ⟨index,path,Lifecycle.sampleFilename,Lifecycle.books,sha256,1⟩

def booksManifest : ValidatedManifest where
  manifestSha256 := "0123456789abcdef0123456789abcdef0123456789abcdef0123456789abcdef"
  documents := [book 0 "a.pdf" ⟨"a"⟩,book 1 "b.pdf" ⟨"b"⟩]
  totalBytes := 2
  indices := rfl

example : validateManifest bookSources bookEntries = .ok booksManifest := rfl

def bookAdmission (sha256 : Digest) : Api.PreparedAdmission :=
  ⟨Lifecycle.books,Lifecycle.sampleFilename,"a.pdf",1,sha256,Lifecycle.sampleScanner,
    Lifecycle.sampleOperator⟩

theorem carries_book (index : ℕ) (path : String) (sha256 : Digest) :
    Carries Lifecycle.booksSettings Lifecycle.sampleOperator (book index path sha256)
      (bookAdmission sha256) := by
  have hcollection : (Lifecycle.booksSettings.enabledCollection? Lifecycle.books).isSome = true := by
    decide +kernel
  exact ⟨⟨hcollection,Nat.zero_lt_one⟩,rfl,rfl,rfl,rfl,rfl⟩

def plainCanonical : Canonical := ⟨fun c => c.isAlphanum || c = '-',fun _ _ => ⟨"request"⟩⟩

def emptyWorld : World := ⟨⟨⟨.empty,∅⟩,.empty⟩,[],[],none,none,[],[]⟩

def accepted (now : Time) : AcceptedDocument := ⟨uuid4 now 0,uuid4 now 0,.preflighting⟩

/-- The client is stopped after the Bridge has admitted the first book. The next run uploads that
book again, and then the other one. -/
theorem reingestion_resumes_books : ∃ w, w.admitted = [(0,uuid4 0 0),(1,uuid4 2 0)] ∧
    Reachable Lifecycle.booksSettings plainCanonical booksManifest 2 Lifecycle.sampleOperator w ∧
    w.outstanding ≤ 2 ∧ w.binds 0 (uuid4 0 0) ∧ (0,uuid4 0 0) ∈ w.admitted := by
  have hinitial : Initial plainCanonical booksManifest emptyWorld :=
    ⟨fun row hrow => absurd hrow (Table.not_mem_empty row),fun _ _ => rfl,rfl,rfl,rfl,rfl,rfl,rfl⟩
  have hfirst : Steps Lifecycle.booksSettings plainCanonical booksManifest 2
      Lifecycle.sampleOperator emptyWorld _ :=
    .tail (.tail (.tail (.tail (.tail (.tail (.tail (.tail .refl
      (.start 0 1 1 rfl))
      (.ask (r := .bootstrap) rfl (.ok [Lifecycle.books]) trivial))
      (.ask (r := .readState) rfl (.ok none) rfl))
      (.ask (r := .monotonic) rfl (.ok (0 : ℚ)) trivial))
      (.ask (r := .saveState ⟨booksManifest.manifestSha256,[]⟩) rfl (.ok ()) trivial))
      (.send (u := ⟨book 0 "a.pdf" ⟨"a"⟩,keyOf booksManifest (book 0 "a.pdf" ⟨"a"⟩)⟩) rfl))
      (.handle List.mem_cons_self smooth (bookAdmission ⟨"a"⟩) (carries_book 0 "a.pdf" ⟨"a"⟩) rfl))
      .stop
  have hagain : Steps Lifecycle.booksSettings plainCanonical booksManifest 2
      Lifecycle.sampleOperator emptyWorld _ :=
    .tail (.tail (.tail (.tail (.tail (.tail (.tail (.tail (.tail hfirst
      (.start 0 1 1 rfl))
      (.ask (r := .bootstrap) rfl (.ok [Lifecycle.books]) trivial))
      (.ask (r := .readState) rfl (.ok (some ⟨booksManifest.manifestSha256,[]⟩)) rfl))
      (.ask (r := .monotonic) rfl (.ok (0 : ℚ)) trivial))
      (.ask (r := .saveState ⟨booksManifest.manifestSha256,[]⟩) rfl (.ok ()) trivial))
      (.send (u := ⟨book 0 "a.pdf" ⟨"a"⟩,keyOf booksManifest (book 0 "a.pdf" ⟨"a"⟩)⟩) rfl))
      (.handle List.mem_cons_self ⟨1,smooth.fault⟩ (bookAdmission ⟨"a"⟩)
        (carries_book 0 "a.pdf" ⟨"a"⟩) (by decide +kernel)))
      (.receive (u := ⟨book 0 "a.pdf" ⟨"a"⟩,keyOf booksManifest (book 0 "a.pdf" ⟨"a"⟩)⟩)
        (d := accepted 0) rfl (by decide +kernel)))
      (.ask (r := .saveState ⟨booksManifest.manifestSha256,[⟨0,accepted 0⟩]⟩) rfl (.ok ())
        trivial)
  have hother : Steps Lifecycle.booksSettings plainCanonical booksManifest 2
      Lifecycle.sampleOperator emptyWorld _ :=
    .tail (.tail hagain
      (.send (u := ⟨book 1 "b.pdf" ⟨"b"⟩,keyOf booksManifest (book 1 "b.pdf" ⟨"b"⟩)⟩) rfl))
      (.handle List.mem_cons_self ⟨2,smooth.fault⟩ (bookAdmission ⟨"b"⟩)
        (carries_book 1 "b.pdf" ⟨"b"⟩) (by decide +kernel))
  have hreach : Reachable Lifecycle.booksSettings plainCanonical booksManifest 2
    Lifecycle.sampleOperator _ := ⟨emptyWorld,hinitial,hother⟩
  obtain ⟨-,hbinds,hbound,-⟩ := reingestion_resumes hreach
  have hboth := fun h => And.intro h (hbinds 0 (uuid4 0 0) h).1
  exact ⟨_,by decide +kernel,hreach,hbound,
    hboth ⟨⟨0,accepted 0⟩,by decide +kernel,rfl,rfl⟩⟩

end Reingestion
end PdfBridge
