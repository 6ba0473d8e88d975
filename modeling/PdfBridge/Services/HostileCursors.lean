import PdfBridge.Services.CursorDecoding

/-! Which cursors make a request fail otherwise than by refusing them. The exceptions of each
stage of a decoder are found once; a request is clean exactly when none of those that its guard
leaves out is raised. -/
namespace PdfBridge
namespace Cursors
open Json Unicode Intake Keyset Listing
open Api (terminalState)

/-! ### Exceptions that leave a guard -/

section Escapes
variable {α β : Type} {caught : List Exception}

/-- The computation raises an exception that the guard does not catch. -/
def Escapes (caught : List Exception) (x : Guarded α) : Prop := ∃ e, x = .error e ∧ e ∉ caught

/-- The attempt succeeds or refuses the cursor. -/
def Settles (x : Attempt α) : Prop := (∃ a, x = .ok a) ∨ x = .error (.service invalidCursor)

theorem escapes_ok {a : α} : ¬ Escapes caught (.ok a : Guarded α) := by
  rintro ⟨e,he,-⟩
  cases he

theorem escapes_bind {x : Guarded α} {f : α → Guarded β} :
    Escapes caught (x >>= f) ↔ Escapes caught x ∨ ∃ a, x = .ok a ∧ Escapes caught (f a) := by
  cases x with
  | error e => simp [Escapes, bind, Except.bind]
  | ok a => simp [Escapes, bind, Except.bind]

theorem escapes_raiseOn {e : Exception} {o : Option α} (he : e ∈ caught) :
    ¬ Escapes caught (raiseOn e o) := by
  rintro ⟨e',h,hcaught⟩
  cases o with
  | none =>
    cases h
    exact hcaught he
  | some a => cases h

theorem raiseOn_eq_ok {e : Exception} {o : Option α} {a : α} :
    raiseOn e o = .ok a ↔ o = some a := by
  cases o <;> simp [raiseOn]

theorem guarded_bind_ok {x : Guarded α} {f : α → Guarded β} {b : β} :
    (x >>= f) = .ok b ↔ ∃ a, x = .ok a ∧ f a = .ok b := by
  cases x with
  | error e => simp [bind, Except.bind]
  | ok a => simp [bind, Except.bind]

theorem guarded_eq_ok {x : Guarded α} {a : α} : guarded caught x = .ok a ↔ x = .ok a := by
  cases x with
  | ok b => simp [guarded]
  | error e =>
    simp only [guarded]
    split <;> simp

theorem settles_guarded {x : Guarded α} : Settles (guarded caught x) ↔ ¬ Escapes caught x := by
  cases x with
  | ok a => exact ⟨fun _ => escapes_ok,fun _ => Or.inl ⟨a,rfl⟩⟩
  | error e =>
    by_cases he : e ∈ caught
    · simp [Settles, guarded, Escapes, he]
    · simp [Settles, guarded, Escapes, he]

theorem settles_ok (a : α) : Settles (.ok a : Attempt α) := Or.inl ⟨a,rfl⟩

theorem settles_refuse : Settles (refuse : Attempt α) := Or.inr rfl

theorem settles_bare {x : Guarded α} : Settles (bare x) ↔ ∃ a, x = .ok a := by
  cases x with
  | ok a => exact ⟨fun _ => ⟨a,rfl⟩,fun _ => Or.inl ⟨a,rfl⟩⟩
  | error e => simp [Settles, bare, Except.mapError]

theorem bare_eq_ok {x : Guarded α} {a : α} : bare x = .ok a ↔ x = .ok a := by
  cases x <;> simp [bare, Except.mapError]

theorem attempt_bind_ok {x : Attempt α} {f : α → Attempt β} {b : β} :
    (x >>= f) = .ok b ↔ ∃ a, x = .ok a ∧ f a = .ok b := by
  cases x with
  | error e => simp [bind, Except.bind]
  | ok a => simp [bind, Except.bind]

/-- A sequence settles exactly when its parts do. -/
theorem settles_bind {x : Attempt α} {f : α → Attempt β} :
    Settles (x >>= f) ↔ Settles x ∧ ∀ a, x = .ok a → Settles (f a) := by
  cases x with
  | error e => simp [Settles, bind, Except.bind]
  | ok a => simp [Settles, bind, Except.bind]

end Escapes

/-! ### Clean requests -/

section Requests
variable {ρ γ α : Type}

/-- The request gives a page or refuses its cursor, unless it is refused without reading one. -/
def Clean (run : Option Str → Attempt (Page ρ String)) (cursor : Str) : Prop :=
  Settles (run (some cursor)) ∨
    ∃ e, run none = .error (.service e) ∧ run (some cursor) = .error (.service e)

/-- A request reads its cursor once its own checks are passed. -/
theorem clean_iff (request : Outcome γ) (start : γ → Option Str → Attempt α)
    (page : γ → α → Page ρ String) (hnone : ∀ g, ∃ a, start g none = .ok a) (cursor : Str) :
    Clean (fun cursor => do
      let g ← served request
      let a ← start g cursor
      pure (page g a)) cursor ↔ ∀ g, request = .ok g → Settles (start g (some cursor)) := by
  cases hrequest : request with
  | error e =>
    exact ⟨fun _ g hg => (by cases hg),fun _ => Or.inr ⟨e,rfl,rfl⟩⟩
  | ok g =>
    obtain ⟨a,ha⟩ := hnone g
    have hfirst : served (.ok g : Outcome γ) = .ok g := rfl
    simp only [Clean, hfirst, settles_bind]
    constructor
    · rintro (⟨-,h⟩ | ⟨e,h,-⟩) g' hg'
      · cases hg'
        exact (h g rfl).1
      · simp only [bind, Except.bind, ha] at h
        cases h
    · intro h
      refine Or.inl ⟨settles_ok g,fun g' hg' => ?_⟩
      cases hg'
      exact ⟨h g rfl,fun b _ => settles_ok _⟩

/-- A check before a request. -/
theorem clean_served {check : Outcome Unit} {run : Option Str → Attempt (Page ρ String)}
    {cursor : Str} : Clean (fun cursor => do
      served check
      run cursor) cursor ↔ (check = .ok () → Clean run cursor) := by
  cases check with
  | error e => exact iff_of_true (Or.inr ⟨e,rfl,rfl⟩) fun h => by cases h
  | ok _ => exact ⟨fun h _ => h,fun h => h rfl⟩

end Requests

/-! ### Stages -/

section Stages
variable {texts : Texts} {lib : Library texts} {cursor : Str} {caught : List Exception}
  {names : List Str} {ms : Members} {name : Str}

theorem opened_error {e : Exception} (h : opened lib cursor = .error e) :
    e = .value ∨ e = .recursion := by
  simp only [opened] at h
  cases hb : lib.urlsafeB64decode (padded cursor) with
  | none =>
    rw [hb] at h
    cases h
    exact Or.inl rfl
  | some bytes =>
    cases ht : lib.decodeUtf8 bytes with
    | none =>
      rw [hb] at h
      simp only [raiseOn, bind, Except.bind, ht] at h
      cases h
      exact Or.inl rfl
    | some text =>
      rw [hb] at h
      simp only [raiseOn, bind, Except.bind, ht] at h
      split at h <;> cases h
      · exact Or.inl rfl
      · exact Or.inr rfl

theorem escapes_opened (hvalue : .value ∈ caught) (hrecursion : .recursion ∉ caught) :
    Escapes caught (opened lib cursor) ↔ opened lib cursor = .error .recursion := by
  refine ⟨?_,fun h => ⟨_,h,hrecursion⟩⟩
  rintro ⟨e,he,hcaught⟩
  rcases opened_error he with rfl | rfl
  · exact absurd hvalue hcaught
  · exact he

theorem exists_lookup (hnames : hasNames names ms = true) (hname : name ∈ names) :
    ∃ v, ms.lookup name = some v := by
  simp only [hasNames, Bool.and_eq_true, List.all_eq_true, decide_eq_true_eq] at hnames
  obtain ⟨m,hm,rfl⟩ := List.mem_map.1 (hnames.2 name hname)
  cases hv : ms.lookup m.1 with
  | some v => exact ⟨v,rfl⟩
  | none =>
    have hne := List.lookup_eq_none_iff.1 hv m hm
    simp at hne

/-- Exactly the objects with these names and version 1 pass. -/
theorem requireFields_eq_ok (hversion : versionKey ∈ names) {payload : Value} :
    requireFields names payload = .ok () ↔ ∃ ms, payload = .object ms ∧
      hasNames names ms = true ∧ (ms.lookup versionKey).any equalsOne = true := by
  have hother : ∀ {p : Value}, item (str "v") p = .error .type →
      requireFields names p ≠ .ok () := by
    intro p hitem h
    simp only [requireFields, guarded_bind_ok] at h
    obtain ⟨same,-,h⟩ := h
    split at h
    · simp only [hitem, bind, Except.bind] at h
      cases h
    · cases h
  constructor
  · intro h
    cases payload with
    | object ms =>
      refine ⟨ms,rfl,?_⟩
      simp only [requireFields, setEquals, guarded_bind_ok] at h
      obtain ⟨same,hsame,h⟩ := h
      cases hsame
      split at h
      · rename_i hnames
        obtain ⟨v,hv⟩ := exists_lookup hnames hversion
        simp only [item, hv, raiseOn, bind, Except.bind] at h
        split at h
        · rename_i hone
          exact ⟨hnames,by rw [hv]; exact hone⟩
        · cases h
      · cases h
    | null => exact absurd h (hother rfl)
    | bool b => exact absurd h (hother rfl)
    | int n => exact absurd h (hother rfl)
    | float x => exact absurd h (hother rfl)
    | str s => exact absurd h (hother rfl)
    | list items => exact absurd h (hother rfl)
  · rintro ⟨ms,rfl,hnames,hone⟩
    obtain ⟨v,hv⟩ := exists_lookup hnames hversion
    rw [hv] at hone
    have hone' : equalsOne v = true := hone
    simp only [requireFields, setEquals, bind, Except.bind, hnames, if_true, item, hv, raiseOn,
      hone']

/-- A payload of another shape raises what every decoder catches. -/
theorem escapes_requireFields (hversion : versionKey ∈ names) (hvalue : .value ∈ caught)
    (htype : .type ∈ caught) {payload : Value} :
    ¬ Escapes caught (requireFields names payload) := by
  rintro ⟨e,he,hcaught⟩
  have hkind : e = .value ∨ e = .type := by
    simp only [requireFields] at he
    cases hsame : setEquals names payload with
    | error e' =>
      rw [hsame] at he
      have htype : e' = .type := by
        cases payload <;> simp only [setEquals] at hsame <;> try cases hsame <;> rfl
        split at hsame <;> cases hsame
        rfl
      cases he
      exact Or.inr htype
    | ok same =>
      rw [hsame] at he
      simp only [bind, Except.bind] at he
      split at he
      · rename_i hsame'
        subst hsame'
        cases payload with
        | object ms =>
          simp only [setEquals] at hsame
          obtain ⟨v,hv⟩ := exists_lookup (Except.ok.inj hsame) hversion
          simp only [item, hv, raiseOn] at he
          split at he <;> cases he
          exact Or.inl rfl
        | null => cases he; exact Or.inr rfl
        | bool b => cases he; exact Or.inr rfl
        | int n => cases he; exact Or.inr rfl
        | float x => cases he; exact Or.inr rfl
        | str s => cases he; exact Or.inr rfl
        | list items => cases he; exact Or.inr rfl
      · cases he
        exact Or.inl rfl
  rcases hkind with rfl | rfl
  · exact hcaught hvalue
  · exact hcaught htype

/-- The payload of the cursor is an object with exactly these fields and version 1. -/
def Carries (lib : Library texts) (names : List Str) (cursor : Str) (ms : Members) : Prop :=
  opened lib cursor = .ok (.object ms) ∧ hasNames names ms = true ∧
    (ms.lookup versionKey).any equalsOne = true

/-- `str(payload[name])`. -/
def HasText (lib : Library texts) (ms : Members) (name s : Str) : Prop :=
  ∃ v, ms.lookup name = some v ∧ text lib v = .ok s

/-- `str(payload[name])` exhausts the stack. -/
def Exhausts (lib : Library texts) (ms : Members) (name : Str) : Prop :=
  ∃ v, ms.lookup name = some v ∧ text lib v = .error .recursion

theorem text_error {v : Value} {e : Exception} (h : text lib v = .error e) : e = .recursion := by
  cases v with
  | str s => cases h
  | _ =>
    simp only [text, raiseOn] at h
    split at h <;> cases h
    rfl

theorem escapes_text (hrecursion : .recursion ∉ caught) {v : Value} :
    Escapes caught (text lib v) ↔ text lib v = .error .recursion := by
  refine ⟨?_,fun h => ⟨_,h,hrecursion⟩⟩
  rintro ⟨e,he,-⟩
  rw [he, text_error he]

theorem escapes_toInt (hvalue : .value ∈ caught) (htype : .type ∈ caught)
    (hoverflow : .overflow ∉ caught) {v : Value} :
    Escapes caught (toInt lib v) ↔ ∃ negative, v = .float (.infinite negative) := by
  constructor
  · rintro ⟨e,he,hcaught⟩
    cases v with
    | float x =>
      cases x with
      | infinite negative => exact ⟨negative,rfl⟩
      | nan =>
        cases he
        exact absurd hvalue hcaught
      | negativeZero => cases he
      | finite x => cases he
    | str s => exact absurd ⟨e,he,hcaught⟩ (escapes_raiseOn hvalue)
    | null =>
      cases he
      exact absurd htype hcaught
    | list items =>
      cases he
      exact absurd htype hcaught
    | object ms =>
      cases he
      exact absurd htype hcaught
    | bool b => cases he
    | int n => cases he
  · rintro ⟨negative,rfl⟩
    exact ⟨.overflow,rfl,hoverflow⟩

/-- A payload that passes the check of its fields. -/
theorem passes_iff (hversion : versionKey ∈ names) {payload : Value} :
    opened lib cursor = .ok payload ∧ requireFields names payload = .ok () ↔
      ∃ ms, payload = .object ms ∧ Carries lib names cursor ms := by
  rw [requireFields_eq_ok hversion]
  constructor
  · rintro ⟨ho,ms,rfl,hms⟩
    exact ⟨ms,rfl,ho,hms⟩
  · rintro ⟨ms,rfl,ho,hms⟩
    exact ⟨ho,ms,rfl,hms⟩

/-- A decoder fails in opening the cursor or behind the check of its fields. -/
theorem escapes_fields (hversion : versionKey ∈ names) (hvalue : .value ∈ caught)
    (htype : .type ∈ caught) (hrecursion : .recursion ∉ caught) {β : Type}
    {f : Value → Guarded β} :
    Escapes caught (do
      let payload ← opened lib cursor
      requireFields names payload
      f payload) ↔ opened lib cursor = .error .recursion ∨
        ∃ ms, Carries lib names cursor ms ∧ Escapes caught (f (.object ms)) := by
  simp only [escapes_bind, escapes_opened hvalue hrecursion,
    escapes_requireFields hversion hvalue htype, false_or]
  refine or_congr_right ⟨?_,?_⟩
  · rintro ⟨payload,ho,⟨⟩,hfields,hf⟩
    obtain ⟨ms,rfl,hms⟩ := (passes_iff hversion).1 ⟨ho,hfields⟩
    exact ⟨ms,hms,hf⟩
  · rintro ⟨ms,hms,hf⟩
    obtain ⟨ho,hfields⟩ := (passes_iff hversion).2 ⟨ms,rfl,hms⟩
    exact ⟨_,ho,(),hfields,hf⟩

theorem fields_eq_ok (hversion : versionKey ∈ names) {β : Type} {f : Value → Guarded β} {b : β} :
    (do
      let payload ← opened lib cursor
      requireFields names payload
      f payload) = .ok b ↔ ∃ ms, Carries lib names cursor ms ∧ f (.object ms) = .ok b := by
  simp only [guarded_bind_ok]
  constructor
  · rintro ⟨payload,ho,⟨⟩,hfields,hf⟩
    obtain ⟨ms,rfl,hms⟩ := (passes_iff hversion).1 ⟨ho,hfields⟩
    exact ⟨ms,hms,hf⟩
  · rintro ⟨ms,hms,hf⟩
    obtain ⟨ho,hfields⟩ := (passes_iff hversion).2 ⟨ms,rfl,hms⟩
    exact ⟨_,ho,(),hfields,hf⟩

theorem item_eq_ok {v : Value} : item name (.object ms) = .ok v ↔ ms.lookup name = some v := by
  simp only [item, raiseOn_eq_ok]

/-- A required field is there. -/
theorem escapes_item (hnames : hasNames names ms = true) (hname : name ∈ names) :
    ¬ Escapes caught (item name (.object ms)) := by
  obtain ⟨v,hv⟩ := exists_lookup hnames hname
  rw [item, hv]
  exact escapes_ok

theorem escapes_uuidItem (hnames : hasNames names ms = true) (hname : name ∈ names)
    (hvalue : .value ∈ caught) (hrecursion : .recursion ∉ caught) :
    Escapes caught (uuidItem lib name (.object ms)) ↔ Exhausts lib ms name := by
  simp only [uuidItem, escapes_bind, escapes_item hnames hname, escapes_text hrecursion,
    escapes_raiseOn hvalue, item_eq_ok, false_or, and_false, exists_false, or_false, Exhausts]

theorem uuidItem_eq_ok {u : Uuid} : uuidItem lib name (.object ms) = .ok u ↔
    ∃ s, HasText lib ms name s ∧ lib.uuid s = some u := by
  simp only [uuidItem, guarded_bind_ok, item_eq_ok, raiseOn_eq_ok, HasText]
  constructor
  · rintro ⟨v,hv,s,hs,hu⟩
    exact ⟨s,⟨v,hv,hs⟩,hu⟩
  · rintro ⟨s,⟨v,hv,hs⟩,hu⟩
    exact ⟨v,hv,s,hs,hu⟩

end Stages

/-! ### What each decoder lets through -/

section Hazards
variable {texts : Texts} (lib : Library texts)

/-- The payload holds an aware timestamp. -/
def HasMoment (ms : Members) (moment : Moment) (offset : ℤ) : Prop :=
  ∃ s, HasText lib ms timeKey s ∧ lib.fromisoformat (replaceZulu s) = some moment ∧
    moment.offset = some offset

/-- The payload names a UUID. -/
def HasUuid (ms : Members) (name : Str) (u : Uuid) : Prop :=
  ∃ s, HasText lib ms name s ∧ lib.uuid s = some u

/-- Containers nest deeper than the stack allows, or an aware timestamp leaves the calendar when it
is shifted to UTC. -/
inductive TimestampHazard {ι : Type} (identifier : Str → Guarded ι) (cursor : Str) : Prop
  | nesting (h : opened lib cursor = .error .recursion)
  | timeNesting {ms : Members} (hms : Carries lib [versionKey,timeKey,idKey] cursor ms)
      (h : Exhausts lib ms timeKey)
  | idNesting {ms : Members} {moment : Moment} {offset : ℤ}
      (hms : Carries lib [versionKey,timeKey,idKey] cursor ms)
      (hmoment : HasMoment lib ms moment offset) (h : Exhausts lib ms idKey)
  | calendar {ms : Members} {moment : Moment} {offset : ℤ} {s : Str} {i : ι}
      (hms : Carries lib [versionKey,timeKey,idKey] cursor ms)
      (hmoment : HasMoment lib ms moment offset) (hs : HasText lib ms idKey s)
      (hi : identifier s = .ok i)
      (h : ¬ (0 ≤ moment.micros - offset ∧ moment.micros - offset < calendarEnd))

/-- Containers nest too deep, or the index of a chunk is infinite or beyond 64 bits. -/
inductive ChunkHazard (revisionId : Uuid) (cursor : Str) : Prop
  | nesting (h : opened lib cursor = .error .recursion)
  | revisionNesting {ms : Members} (hms : Carries lib [versionKey,revisionKey,indexKey] cursor ms)
      (h : Exhausts lib ms revisionKey)
  | infinite {ms : Members} {negative : Bool}
      (hms : Carries lib [versionKey,revisionKey,indexKey] cursor ms)
      (hrevision : HasUuid lib ms revisionKey revisionId)
      (h : ms.lookup indexKey = some (.float (.infinite negative)))
  | unbound {ms : Members} {v : Value} {n : ℤ}
      (hms : Carries lib [versionKey,revisionKey,indexKey] cursor ms)
      (hrevision : HasUuid lib ms revisionKey revisionId) (hv : ms.lookup indexKey = some v)
      (hn : toInt lib v = .ok n) (h : 2 ^ 63 ≤ n)

/-- An integer of 64 bits. -/
def Binds (n : ℤ) : Prop := -2 ^ 63 ≤ n ∧ n < 2 ^ 63

/-- As for timestamps, or a decimal identifier is not an integer of 64 bits. -/
inductive EventHazard (cursor : Str) : Prop
  | timestamp (h : TimestampHazard lib (decimalIdentifier lib) cursor)
  | unbound {ms : Members} {moment : Moment} {offset : ℤ} {s : Str}
      (hms : Carries lib [versionKey,timeKey,idKey] cursor ms)
      (hmoment : HasMoment lib ms moment offset) (hs : HasText lib ms idKey s)
      (hdecimal : lib.isdecimal s = true) (h : ¬ ∃ n, lib.int s = some n ∧ Binds n)

/-- Containers nest too deep, or the rank of a candidate is infinite. -/
inductive CandidateHazard (cursor : Str) : Prop
  | nesting (h : opened lib cursor = .error .recursion)
  | revisionNesting {ms : Members}
      (hms : Carries lib [versionKey,kindKey,revisionKey,rankKey,idKey] cursor ms)
      (h : Exhausts lib ms revisionKey)
  | idNesting {ms : Members} {u : Uuid}
      (hms : Carries lib [versionKey,kindKey,revisionKey,rankKey,idKey] cursor ms)
      (hrevision : HasUuid lib ms revisionKey u) (h : Exhausts lib ms idKey)
  | infinite {ms : Members} {u w : Uuid} {negative : Bool}
      (hms : Carries lib [versionKey,kindKey,revisionKey,rankKey,idKey] cursor ms)
      (hrevision : HasUuid lib ms revisionKey u) (hid : HasUuid lib ms idKey w)
      (h : ms.lookup rankKey = some (.float (.infinite negative)))

end Hazards

/-! ### Each decoder settles without its hazards -/

section Decoders
variable {texts : Texts} {lib : Library texts} {cursor : Str} {ms : Members}

theorem timestampItem_eq_ok {moment : Moment} {offset : ℤ} :
    timestampItem lib (.object ms) = .ok (moment,offset) ↔ HasMoment lib ms moment offset := by
  simp only [timestampItem, guarded_bind_ok, item_eq_ok, raiseOn_eq_ok, HasMoment, HasText, pure,
    Except.pure, Except.ok.injEq, Prod.mk.injEq]
  constructor
  · rintro ⟨v,hv,s,hs,m,hm,o,ho,rfl,rfl⟩
    exact ⟨s,⟨v,hv,hs⟩,hm,ho⟩
  · rintro ⟨s,⟨v,hv,hs⟩,hm,ho⟩
    exact ⟨v,hv,s,hs,moment,hm,offset,ho,rfl,rfl⟩

theorem escapes_timestampItem (hms : hasNames [versionKey,timeKey,idKey] ms = true) :
    Escapes [.value,.type,.key] (timestampItem lib (.object ms)) ↔ Exhausts lib ms timeKey := by
  have hvalue : Exception.value ∈ [Exception.value,.type,.key] := by decide
  have hpure : ∀ p : Moment × ℤ, ¬ Escapes [.value,.type,.key] (pure p) := fun p => escapes_ok
  simp only [timestampItem, escapes_bind, escapes_item hms (show timeKey ∈ _ by decide),
    escapes_text (show Exception.recursion ∉ [Exception.value,.type,.key] by decide),
    escapes_raiseOn hvalue, item_eq_ok, hpure, false_or, and_false, exists_false, or_false,
    Exhausts]

/-- The conversions inside the guard of the timestamp decoder. -/
theorem timestampPayload_eq_ok {ι : Type} {identifier : Str → Guarded ι} {moment : Moment}
    {offset : ℤ} {i : ι} : timestampPayload lib identifier cursor = .ok ((moment,offset),i) ↔
      ∃ ms, Carries lib [versionKey,timeKey,idKey] cursor ms ∧ HasMoment lib ms moment offset ∧
        ∃ s, HasText lib ms idKey s ∧ identifier s = .ok i := by
  rw [timestampPayload, fields_eq_ok (by decide)]
  refine exists_congr fun ms => and_congr_right fun hms => ?_
  simp only [guarded_bind_ok, item_eq_ok, pure, Except.pure, Except.ok.injEq, Prod.mk.injEq,
    HasText]
  constructor
  · rintro ⟨p,hp,v,hv,s,hs,j,hj,rfl,rfl⟩
    exact ⟨timestampItem_eq_ok.1 hp,s,⟨v,hv,hs⟩,hj⟩
  · rintro ⟨hmoment,s,⟨v,hv,hs⟩,hi⟩
    exact ⟨_,timestampItem_eq_ok.2 hmoment,v,hv,s,hs,i,hi,rfl,rfl⟩

theorem escapes_timestampPayload {ι : Type} {identifier : Str → Guarded ι}
    (hidentifier : ∀ s, ¬ Escapes [.value,.type,.key] (identifier s)) :
    Escapes [.value,.type,.key] (timestampPayload lib identifier cursor) ↔
      opened lib cursor = .error .recursion ∨
        ∃ ms, Carries lib [versionKey,timeKey,idKey] cursor ms ∧ (Exhausts lib ms timeKey ∨
          ∃ moment offset, HasMoment lib ms moment offset ∧ Exhausts lib ms idKey) := by
  rw [timestampPayload, escapes_fields (by decide) (by decide) (by decide) (by decide)]
  refine or_congr_right (exists_congr fun ms => and_congr_right fun hms => ?_)
  have hpure : ∀ p : (Moment × ℤ) × ι, ¬ Escapes [.value,.type,.key] (pure p) :=
    fun p => escapes_ok
  simp only [escapes_bind, escapes_timestampItem hms.2.1,
    escapes_item hms.2.1 (show idKey ∈ _ by decide),
    escapes_text (show Exception.recursion ∉ [Exception.value,.type,.key] by decide), hidentifier,
    hpure, item_eq_ok, false_or, and_false, exists_false, or_false]
  refine or_congr_right ⟨?_,?_⟩
  · rintro ⟨⟨moment,offset⟩,hp,hid⟩
    exact ⟨moment,offset,timestampItem_eq_ok.1 hp,hid⟩
  · rintro ⟨moment,offset,hp,hid⟩
    exact ⟨(moment,offset),timestampItem_eq_ok.2 hp,hid⟩

theorem astimezone_eq_ok {moment : Moment} {offset : ℤ} :
    (∃ time, astimezone moment offset = .ok time) ↔
      0 ≤ moment.micros - offset ∧ moment.micros - offset < calendarEnd := by
  simp only [astimezone]
  split <;> simp_all

theorem settles_map {α β : Type} {f : α → β} {x : Attempt α} : Settles (f <$> x) ↔ Settles x := by
  cases x with
  | error e => simp [Settles, Functor.map, Except.map]
  | ok a => exact ⟨fun _ => settles_ok a,fun _ => settles_ok (f a)⟩

/-- The timestamp decoder, for every identifier that is read inside its guard. -/
theorem settles_decodeTimestamp {ι : Type} {identifier : Str → Guarded ι}
    (hidentifier : ∀ s, ¬ Escapes [.value,.type,.key] (identifier s)) :
    Settles (decodeTimestamp lib identifier cursor) ↔
      (cursor ≠ [] → cursor.length ≤ 500 → ¬ TimestampHazard lib identifier cursor) := by
  by_cases hsize : cursor = [] ∨ 500 < cursor.length
  · rw [decodeTimestamp, if_pos hsize]
    refine ⟨fun _ hne hlen => ?_,fun _ => settles_refuse⟩
    rcases hsize with h | h
    · exact absurd h hne
    · omega
  · have hsized : cursor ≠ [] ∧ cursor.length ≤ 500 := by
      rw [not_or, not_lt] at hsize
      exact hsize
    have hlast : Settles (decodeTimestamp lib identifier cursor) ↔
        ¬ Escapes [.value,.type,.key] (timestampPayload lib identifier cursor) ∧
          ∀ p, timestampPayload lib identifier cursor = .ok p →
            ∃ time, astimezone p.1.1 p.1.2 = .ok time := by
      rw [decodeTimestamp, if_neg hsize, settles_bind, settles_guarded]
      refine and_congr_right fun _ => forall_congr' fun p => ?_
      rw [guarded_eq_ok, settles_bind, settles_bare]
      exact imp_congr_right fun _ => and_iff_left fun time _ => settles_ok _
    rw [hlast, escapes_timestampPayload hidentifier]
    constructor
    · rintro ⟨hescapes,hcalendar⟩ - - hhazard
      cases hhazard with
      | nesting h => exact hescapes (Or.inl h)
      | timeNesting hms h => exact hescapes (Or.inr ⟨_,hms,Or.inl h⟩)
      | idNesting hms hmoment h => exact hescapes (Or.inr ⟨_,hms,Or.inr ⟨_,_,hmoment,h⟩⟩)
      | calendar hms hmoment hs hi h =>
        exact h (astimezone_eq_ok.1
          (hcalendar _ (timestampPayload_eq_ok.2 ⟨_,hms,hmoment,_,hs,hi⟩)))
    · intro hclean
      have hnone := hclean hsized.1 hsized.2
      refine ⟨?_,?_⟩
      · rintro (h | ⟨ms,hms,h | ⟨moment,offset,hmoment,h⟩⟩)
        · exact hnone (.nesting h)
        · exact hnone (.timeNesting hms h)
        · exact hnone (.idNesting hms hmoment h)
      · rintro ⟨⟨moment,offset⟩,i⟩ hp
        obtain ⟨ms,hms,hmoment,s,hs,hi⟩ := timestampPayload_eq_ok.1 hp
        by_contra h
        exact hnone (.calendar hms hmoment hs hi fun hin => h (astimezone_eq_ok.2 hin))

theorem escapes_uuidIdentifier (s : Str) :
    ¬ Escapes [.value,.type,.key] (uuidIdentifier lib s) := escapes_raiseOn (by decide)

theorem escapes_decimalIdentifier (s : Str) :
    ¬ Escapes [.value,.type,.key] (decimalIdentifier lib s) := by
  rintro ⟨e,he,hcaught⟩
  simp only [decimalIdentifier] at he
  split at he <;> cases he
  exact hcaught (by decide)

theorem given_some (hne : cursor ≠ []) : given (some cursor) = some cursor := by
  cases cursor with
  | nil => exact absurd rfl hne
  | cons c cursor => rfl

/-- Documents and tombstones. -/
theorem settles_uuidPosition : Settles (uuidPosition lib (some cursor)) ↔
    (cursor ≠ [] → cursor.length ≤ 500 → ¬ TimestampHazard lib (uuidIdentifier lib) cursor) := by
  by_cases hne : cursor = []
  · subst hne
    exact ⟨fun _ h => absurd rfl h,fun _ => settles_ok none⟩
  · rw [uuidPosition, given_some hne]
    exact settles_map.trans (settles_decodeTimestamp escapes_uuidIdentifier)

theorem bound_eq_ok {n k : ℤ} : bound n = .ok k ↔ Binds n ∧ n = k := by
  simp only [bound, Binds]
  split <;> simp_all

/-- What the timestamp decoder hands on. -/
theorem decodeTimestamp_eq_ok {ι : Type} {identifier : Str → Guarded ι} {time : Time} {i : ι}
    (hne : cursor ≠ []) (hlen : cursor.length ≤ 500) :
    decodeTimestamp lib identifier cursor = .ok (time,i) ↔ ∃ moment offset,
      timestampPayload lib identifier cursor = .ok ((moment,offset),i) ∧
        astimezone moment offset = .ok time := by
  have hsize : ¬ (cursor = [] ∨ 500 < cursor.length) := by
    rw [not_or, not_lt]
    exact ⟨hne,hlen⟩
  rw [decodeTimestamp, if_neg hsize]
  simp only [attempt_bind_ok, guarded_eq_ok, bare_eq_ok, pure, Except.pure, Except.ok.injEq,
    Prod.mk.injEq]
  constructor
  · rintro ⟨⟨⟨moment,offset⟩,j⟩,hp,t,ht,rfl,rfl⟩
    exact ⟨moment,offset,hp,ht⟩
  · rintro ⟨moment,offset,hp,ht⟩
    exact ⟨_,hp,time,ht,rfl,rfl⟩

theorem settles_eventPosition : Settles (eventPosition lib (some cursor)) ↔
    (cursor ≠ [] → cursor.length ≤ 500 → ¬ EventHazard lib cursor) := by
  by_cases hne : cursor = []
  · subst hne
    exact ⟨fun _ h => absurd rfl h,fun _ => settles_ok none⟩
  have hid : Settles (eventPosition lib (some cursor)) ↔
      Settles (decodeTimestamp lib (decimalIdentifier lib) cursor) ∧
        ∀ p, decodeTimestamp lib (decimalIdentifier lib) cursor = .ok p →
          ∃ n, lib.int p.2 = some n ∧ Binds n := by
    rw [eventPosition, given_some hne]
    refine settles_bind.trans (and_congr_right fun _ => forall_congr' fun p =>
      imp_congr_right fun _ => ?_)
    rw [settles_bind, settles_bare]
    simp only [raiseOn_eq_ok, bare_eq_ok, settles_bind, settles_bare, bound_eq_ok]
    constructor
    · rintro ⟨⟨n,hn⟩,h⟩
      obtain ⟨⟨k,hk,-⟩,-⟩ := h n hn
      exact ⟨n,hn,hk⟩
    · rintro ⟨n,hn,hbinds⟩
      refine ⟨⟨n,hn⟩,fun k hk => ?_⟩
      cases hn.symm.trans hk
      exact ⟨⟨n,hbinds,rfl⟩,fun _ _ => settles_ok _⟩
  rw [hid, settles_decodeTimestamp escapes_decimalIdentifier]
  constructor
  · rintro ⟨hclean,hint⟩ - hlen hhazard
    cases hhazard with
    | timestamp h => exact hclean hne hlen h
    | @unbound ms moment offset s hms hmoment hs hdecimal h =>
      have hi : decimalIdentifier lib s = .ok s := by rw [decimalIdentifier, if_pos hdecimal]
      have hin : 0 ≤ moment.micros - offset ∧ moment.micros - offset < calendarEnd := by
        by_contra hout
        exact hclean hne hlen (.calendar hms hmoment hs hi hout)
      obtain ⟨time,htime⟩ := astimezone_eq_ok.2 hin
      exact h (hint _ ((decodeTimestamp_eq_ok hne hlen).2
        ⟨moment,offset,timestampPayload_eq_ok.2 ⟨ms,hms,hmoment,s,hs,hi⟩,htime⟩))
  · intro hclean
    refine ⟨fun _ hlen h => hclean hne hlen (.timestamp h),fun p hp => ?_⟩
    have hlen : cursor.length ≤ 500 := by
      by_contra hlong
      rw [decodeTimestamp, if_pos (Or.inr (not_le.1 hlong))] at hp
      cases hp
    obtain ⟨moment,offset,hp,-⟩ := (decodeTimestamp_eq_ok hne hlen).1 hp
    obtain ⟨ms,hms,hmoment,s,hs,hi⟩ := timestampPayload_eq_ok.1 hp
    have hdecimal : lib.isdecimal s = true ∧ s = p.2 := by
      simp only [decimalIdentifier] at hi
      split at hi
      · rename_i h
        exact ⟨h,Except.ok.inj hi⟩
      · cases hi
    rw [← hdecimal.2]
    by_contra h
    exact hclean hne hlen (.unbound hms hmoment hs hdecimal.1 h)

/-- The conversions inside the guard of `list_chunks`. -/
theorem chunkPayload_eq_ok {revisionId : Uuid} {n : ℤ} :
    chunkPayload lib revisionId cursor = .ok n ↔ ∃ ms,
      Carries lib [versionKey,revisionKey,indexKey] cursor ms ∧
        HasUuid lib ms revisionKey revisionId ∧
          ∃ v, ms.lookup indexKey = some v ∧ toInt lib v = .ok n ∧ 0 ≤ n := by
  rw [chunkPayload, fields_eq_ok (by decide)]
  refine exists_congr fun ms => and_congr_right fun hms => ?_
  simp only [guarded_bind_ok]
  constructor
  · rintro ⟨named,hnamed,h⟩
    split at h
    · cases h
    · rename_i hsame
      obtain rfl : named = revisionId := not_not.1 hsame
      simp only [guarded_bind_ok, item_eq_ok] at h
      obtain ⟨v,hv,index,hindex,h⟩ := h
      split at h
      · cases h
      · rename_i hneg
        cases h
        exact ⟨uuidItem_eq_ok.1 hnamed,v,hv,hindex,not_lt.1 hneg⟩
  · rintro ⟨hnamed,v,hv,hindex,hpos⟩
    refine ⟨revisionId,uuidItem_eq_ok.2 hnamed,?_⟩
    rw [if_neg (not_not.2 rfl)]
    simp only [guarded_bind_ok, item_eq_ok]
    exact ⟨v,hv,n,hindex,by rw [if_neg (not_lt.2 hpos)]; rfl⟩

theorem escapes_chunkPayload {revisionId : Uuid} :
    Escapes [.value,.type] (chunkPayload lib revisionId cursor) ↔
      opened lib cursor = .error .recursion ∨
        ∃ ms, Carries lib [versionKey,revisionKey,indexKey] cursor ms ∧
          (Exhausts lib ms revisionKey ∨ (HasUuid lib ms revisionKey revisionId ∧
            ∃ negative, ms.lookup indexKey = some (.float (.infinite negative)))) := by
  rw [chunkPayload, escapes_fields (by decide) (by decide) (by decide) (by decide)]
  refine or_congr_right (exists_congr fun ms => and_congr_right fun hms => ?_)
  rw [escapes_bind, escapes_uuidItem hms.2.1 (by decide) (by decide) (by decide)]
  refine or_congr_right ⟨?_,?_⟩
  · rintro ⟨named,hnamed,h⟩
    split at h
    · obtain ⟨e,he,hcaught⟩ := h
      cases he
      exact absurd (by decide) hcaught
    · rename_i hsame
      obtain rfl : named = revisionId := not_not.1 hsame
      simp only [escapes_bind, escapes_item hms.2.1 (show indexKey ∈ _ by decide),
        escapes_toInt (show Exception.value ∈ [Exception.value,.type] by decide)
          (by decide) (by decide), item_eq_ok, false_or] at h
      obtain ⟨v,hv,⟨negative,rfl⟩ | ⟨n,-,hn⟩⟩ := h
      · exact ⟨uuidItem_eq_ok.1 hnamed,negative,hv⟩
      · split at hn
        · obtain ⟨e,he,hcaught⟩ := hn
          cases he
          exact absurd (by decide) hcaught
        · exact absurd hn escapes_ok
  · rintro ⟨hnamed,negative,hv⟩
    refine ⟨revisionId,uuidItem_eq_ok.2 hnamed,?_⟩
    rw [if_neg (not_not.2 rfl), escapes_bind]
    refine Or.inr ⟨_,item_eq_ok.2 hv,escapes_bind.2 (Or.inl ⟨.overflow,rfl,by decide⟩)⟩

theorem settles_chunkPosition {revisionId : Uuid} :
    Settles (chunkPosition lib revisionId (some cursor)) ↔
      (cursor ≠ [] → ¬ ChunkHazard lib revisionId cursor) := by
  by_cases hne : cursor = []
  · subst hne
    exact ⟨fun _ h => absurd rfl h,fun _ => settles_ok (-1)⟩
  have hposition : Settles (chunkPosition lib revisionId (some cursor)) ↔
      ¬ Escapes [.value,.type] (chunkPayload lib revisionId cursor) ∧
        ∀ n, chunkPayload lib revisionId cursor = .ok n → Binds n := by
    rw [chunkPosition, given_some hne, settles_bind, settles_guarded]
    refine and_congr_right fun _ => forall_congr' fun n => ?_
    rw [guarded_eq_ok, settles_bare]
    refine imp_congr_right fun _ => ⟨?_,fun h => ⟨n,bound_eq_ok.2 ⟨h,rfl⟩⟩⟩
    rintro ⟨k,hk⟩
    exact (bound_eq_ok.1 hk).1
  rw [hposition, escapes_chunkPayload]
  constructor
  · rintro ⟨hescapes,hbinds⟩ - hhazard
    cases hhazard with
    | nesting h => exact hescapes (Or.inl h)
    | revisionNesting hms h => exact hescapes (Or.inr ⟨_,hms,Or.inl h⟩)
    | infinite hms hrevision h => exact hescapes (Or.inr ⟨_,hms,Or.inr ⟨hrevision,_,h⟩⟩)
    | unbound hms hrevision hv hn h =>
      have hin := hbinds _ (chunkPayload_eq_ok.2 ⟨_,hms,hrevision,_,hv,hn,by omega⟩)
      exact absurd hin.2 (not_lt.2 h)
  · intro hclean
    have hnone := hclean hne
    refine ⟨?_,fun n hn => ?_⟩
    · rintro (h | ⟨ms,hms,h | ⟨hrevision,negative,h⟩⟩)
      · exact hnone (.nesting h)
      · exact hnone (.revisionNesting hms h)
      · exact hnone (.infinite hms hrevision h)
    · obtain ⟨ms,hms,hrevision,v,hv,hindex,hpos⟩ := chunkPayload_eq_ok.1 hn
      refine ⟨by omega,?_⟩
      by_contra h
      exact hnone (.unbound hms hrevision hv hindex (not_lt.1 h))

end Decoders

/-! ### The decoder of the read coordinators -/

section Members
variable {texts : Texts} {lib : Library texts} {cursor : Str} {ms : Members} {fields : List Str}

theorem memberPayload_eq_ok :
    memberPayload lib fields cursor = .ok ms ↔ Carries lib (versionKey :: fields) cursor ms := by
  simp only [memberPayload, guarded_bind_ok]
  constructor
  · rintro ⟨payload,ho,h⟩
    cases payload with
    | object ms' =>
      obtain ⟨⟨⟩,hfields,h⟩ := guarded_bind_ok.1 h
      cases h
      obtain ⟨ms',he,hms⟩ := (requireFields_eq_ok List.mem_cons_self).1 hfields
      cases he
      exact ⟨ho,hms⟩
    | _ => cases h
  · rintro ⟨ho,hms⟩
    exact ⟨.object ms,ho,guarded_bind_ok.2
      ⟨(),(requireFields_eq_ok List.mem_cons_self).2 ⟨ms,rfl,hms⟩,rfl⟩⟩

theorem escapes_memberPayload : Escapes [.value,.type] (memberPayload lib fields cursor) ↔
    opened lib cursor = .error .recursion := by
  rw [memberPayload, escapes_bind, escapes_opened (by decide) (by decide)]
  refine or_iff_left ?_
  rintro ⟨payload,-,h⟩
  cases payload with
  | object ms =>
    rcases escapes_bind.1 h with h | ⟨-,-,h⟩
    · exact escapes_requireFields List.mem_cons_self (by decide) (by decide) h
    · exact escapes_ok h
  | _ =>
    obtain ⟨e,he,hcaught⟩ := h
    cases he
    exact hcaught (by decide)

theorem decodePayload_eq_ok : decodePayload lib fields cursor = .ok ms ↔
    (cursor ≠ [] ∧ cursor.length ≤ 2048) ∧ Carries lib (versionKey :: fields) cursor ms := by
  by_cases hsize : cursor = [] ∨ 2048 < cursor.length
  · rw [decodePayload, if_pos hsize]
    refine ⟨fun h => (by cases h),fun h => ?_⟩
    rcases hsize with he | hl
    · exact absurd he h.1.1
    · omega
  · rw [decodePayload, if_neg hsize, guarded_eq_ok, memberPayload_eq_ok]
    rw [not_or, not_lt] at hsize
    exact (and_iff_right hsize).symm

theorem settles_decodePayload : Settles (decodePayload lib fields cursor) ↔
    (cursor ≠ [] → cursor.length ≤ 2048 → opened lib cursor ≠ .error .recursion) := by
  by_cases hsize : cursor = [] ∨ 2048 < cursor.length
  · rw [decodePayload, if_pos hsize]
    refine ⟨fun _ hne hlen => ?_,fun _ => settles_refuse⟩
    rcases hsize with h | h
    · exact absurd h hne
    · omega
  · rw [decodePayload, if_neg hsize, settles_guarded, escapes_memberPayload]
    rw [not_or, not_lt] at hsize
    exact ⟨fun h _ _ => h,fun h => h hsize.1 hsize.2⟩

theorem candidatePayload_eq_ok {u w : Uuid} {n : ℤ} :
    candidatePayload lib ms = .ok (u,w,n) ↔ HasUuid lib ms revisionKey u ∧
      HasUuid lib ms idKey w ∧ ∃ v, ms.lookup rankKey = some v ∧ toInt lib v = .ok n := by
  simp only [candidatePayload, guarded_bind_ok, item_eq_ok, pure, Except.pure, Except.ok.injEq,
    Prod.mk.injEq, HasUuid]
  constructor
  · rintro ⟨x,hx,y,hy,v,hv,k,hk,rfl,rfl,rfl⟩
    exact ⟨uuidItem_eq_ok.1 hx,uuidItem_eq_ok.1 hy,v,hv,hk⟩
  · rintro ⟨hu,hw,v,hv,hn⟩
    exact ⟨u,uuidItem_eq_ok.2 hu,w,uuidItem_eq_ok.2 hw,v,hv,n,hn,rfl,rfl,rfl⟩

theorem escapes_candidatePayload
    (hms : hasNames [versionKey,kindKey,revisionKey,rankKey,idKey] ms = true) :
    Escapes [.type,.value] (candidatePayload lib ms) ↔ Exhausts lib ms revisionKey ∨
      ∃ u, HasUuid lib ms revisionKey u ∧ (Exhausts lib ms idKey ∨ ∃ w, HasUuid lib ms idKey w ∧
        ∃ negative, ms.lookup rankKey = some (.float (.infinite negative))) := by
  have hpure : ∀ p : Uuid × Uuid × ℤ, ¬ Escapes [.type,.value] (pure p) := fun p => escapes_ok
  simp only [candidatePayload, escapes_bind,
    escapes_uuidItem hms (show revisionKey ∈ _ by decide)
      (show Exception.value ∈ [Exception.type,.value] by decide) (by decide),
    escapes_uuidItem hms (show idKey ∈ _ by decide)
      (show Exception.value ∈ [Exception.type,.value] by decide) (by decide),
    escapes_item hms (show rankKey ∈ _ by decide),
    escapes_toInt (show Exception.value ∈ [Exception.type,.value] by decide) (by decide)
      (by decide), hpure, item_eq_ok, uuidItem_eq_ok, false_or, and_false, exists_false, or_false,
    HasUuid]
  refine or_congr_right (exists_congr fun u => and_congr_right fun _ => or_congr_right
    (exists_congr fun w => and_congr_right fun _ => ⟨?_,?_⟩))
  · rintro ⟨v,hv,negative,rfl⟩
    exact ⟨negative,hv⟩
  · rintro ⟨negative,hv⟩
    exact ⟨_,hv,negative,rfl⟩

theorem settles_candidatePageStart {revisionId : Uuid} {candidates : List PreparedCandidate} :
    Settles (candidatePageStart lib revisionId candidates (some cursor)) ↔
      (cursor ≠ [] → cursor.length ≤ 2048 → ¬ CandidateHazard lib cursor) := by
  have hlast : Settles (candidatePageStart lib revisionId candidates (some cursor)) ↔
      Settles (decodePayload lib [kindKey,revisionKey,rankKey,idKey] cursor) ∧
        ∀ ms, decodePayload lib [kindKey,revisionKey,rankKey,idKey] cursor = .ok ms →
          ¬ Escapes [.type,.value] (candidatePayload lib ms) := by
    rw [candidatePageStart, settles_bind]
    refine and_congr_right fun _ => forall_congr' fun ms => imp_congr_right fun _ => ?_
    rw [settles_bind, settles_guarded]
    refine and_iff_left fun p _ => ?_
    obtain ⟨named,candidateId,rank⟩ := p
    dsimp only
    split
    · exact settles_refuse
    · split
      · exact settles_ok _
      · exact settles_refuse
  rw [hlast, settles_decodePayload]
  constructor
  · rintro ⟨hopened,hpayload⟩ hne hlen hhazard
    have hescapes : ∀ ms, Carries lib [versionKey,kindKey,revisionKey,rankKey,idKey] cursor ms →
        ¬ Escapes [.type,.value] (candidatePayload lib ms) := fun ms hms =>
      hpayload ms (decodePayload_eq_ok.2 ⟨⟨hne,hlen⟩,hms⟩)
    cases hhazard with
    | nesting h => exact hopened hne hlen h
    | revisionNesting hms h =>
      exact hescapes _ hms ((escapes_candidatePayload hms.2.1).2 (Or.inl h))
    | idNesting hms hrevision h =>
      exact hescapes _ hms ((escapes_candidatePayload hms.2.1).2
        (Or.inr ⟨_,hrevision,Or.inl h⟩))
    | infinite hms hrevision hid h =>
      exact hescapes _ hms ((escapes_candidatePayload hms.2.1).2
        (Or.inr ⟨_,hrevision,Or.inr ⟨_,hid,_,h⟩⟩))
  · intro hclean
    refine ⟨fun hne hlen h => hclean hne hlen (.nesting h),fun ms hms => ?_⟩
    obtain ⟨⟨hne,hlen⟩,hms⟩ := decodePayload_eq_ok.1 hms
    have hnone := hclean hne hlen
    rw [escapes_candidatePayload hms.2.1]
    rintro (h | ⟨u,hrevision,h | ⟨w,hid,negative,h⟩⟩)
    · exact hnone (.revisionNesting hms h)
    · exact hnone (.idNesting hms hrevision h)
    · exact hnone (.infinite hms hrevision hid h)

theorem settles_collectionPosition {records : List CollectionRecord} :
    Settles (collectionPosition lib records (some cursor)) ↔
      (cursor ≠ [] → cursor.length ≤ 2048 → opened lib cursor ≠ .error .recursion) := by
  have hdecode : Settles (decodePayload lib [kindKey,afterKey] cursor) ↔ _ := settles_decodePayload
  rw [← hdecode, collectionPosition, settles_bind]
  refine and_iff_left fun ms _ => ?_
  split
  · exact settles_refuse
  · split
    · split
      · exact settles_ok _
      · exact settles_refuse
    · exact settles_refuse

end Members

end Cursors
end PdfBridge
