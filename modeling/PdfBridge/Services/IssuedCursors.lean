import PdfBridge.Services.HostileCursors
import PdfBridge.Services.Pagination

/-! Requests that read a cursor of any origin, and the cursors that the encoders issue: each is
read back, and it names the revision that it was issued for. -/
namespace PdfBridge
namespace Cursors
open Json Unicode Intake Keyset Listing
open Api (terminalState)

/-! ### Requests -/

section Endpoints
variable {texts : Texts} {lib : Library texts} {cursor : Str}

theorem clean_listDocuments {collectionKey : CollectionKey} {state : Option DocumentState}
    {limit : ℕ} {c : Catalog} :
    Clean (listDocuments lib collectionKey state limit c) cursor ↔
      (validateLimit limit = .ok () → state.any terminalState = false → cursor ≠ [] →
        cursor.length ≤ 500 → ¬ TimestampHazard lib (uuidIdentifier lib) cursor) := by
  by_cases hstate : state.any terminalState = true
  · have hrun : listDocuments lib collectionKey state limit c = (fun _ => do
        served (validateLimit limit)
        pure ⟨[],none⟩) := by
      funext cursor
      simp only [listDocuments, hstate, if_true]
    rw [hrun]
    refine ⟨fun _ _ h => ?_,fun _ => ?_⟩
    swap
    · exact (clean_iff _ (fun _ _ => (pure () : Attempt Unit)) (fun _ _ => ⟨[],none⟩)
        (fun _ => ⟨(),rfl⟩) cursor).2 fun _ _ => settles_ok ()
    rw [hstate] at h
    cases h
  · have hfalse : state.any terminalState = false := Bool.eq_false_iff.2 hstate
    have hrun : listDocuments lib collectionKey state limit c = (fun cursor => do
        served (validateLimit limit)
        let after ← uuidPosition lib cursor
        pure (newestPage texts Document.createdAt Document.id texts.uuid.str limit
          (matchingDocuments collectionKey state c) after)) := by
      funext cursor
      simp only [listDocuments, hfalse, Bool.false_eq_true, if_false]
    rw [hrun]
    refine (clean_iff _ (fun _ => uuidPosition lib) _ (fun _ => ⟨none,rfl⟩) cursor).trans ?_
    simp only [settles_uuidPosition]
    exact ⟨fun h hlimit _ => h () hlimit,fun h _ hlimit => h hlimit hfalse⟩

theorem clean_listChunks {documentId : Uuid} {limit : ℕ} {c : Catalog} :
    Clean (listChunks lib documentId limit c) cursor ↔
      ∀ r, chunkRequest documentId limit c = .ok r → cursor ≠ [] →
        ¬ ChunkHazard lib r.id cursor := by
  have hclean := clean_iff (chunkRequest documentId limit c)
    (fun r => chunkPosition lib r.id)
    (fun r after => selectPage PreparedChunk.chunkIndex limit (chunkCursor texts r.id)
      (r.content.chunks.filter fun x => after < (x.chunkIndex : ℤ))) (fun _ => ⟨-1,rfl⟩) cursor
  simp only [settles_chunkPosition] at hclean
  exact hclean

theorem clean_listEvents {documentId : Uuid} {limit : ℕ} {j : Journal} :
    Clean (listEvents lib documentId limit j) cursor ↔
      (eventRequest documentId limit j = .ok () → cursor ≠ [] → cursor.length ≤ 500 →
        ¬ EventHazard lib cursor) := by
  refine (clean_iff _ (fun _ => eventPosition lib) _ (fun _ => ⟨none,rfl⟩) cursor).trans ?_
  simp only [settles_eventPosition]
  exact ⟨fun h => h (),fun h _ => h⟩

theorem clean_listHistory {visible : List CollectionKey} {collectionKey : Option CollectionKey}
    {disposition : Option TerminalDisposition} {limit : ℕ} {j : Journal} :
    Clean (listHistory lib visible collectionKey disposition limit j) cursor ↔
      (visibleRequest visible limit = .ok () → cursor ≠ [] → cursor.length ≤ 500 →
        ¬ TimestampHazard lib (uuidIdentifier lib) cursor) := by
  refine (clean_iff _ (fun _ => uuidPosition lib) _ (fun _ => ⟨none,rfl⟩) cursor).trans ?_
  simp only [settles_uuidPosition]
  exact ⟨fun h => h (),fun h _ => h⟩

theorem clean_getPreflight {documentId : Uuid} {limit : ℕ} {c : Catalog} :
    Clean (getPreflight lib documentId limit c) cursor ↔
      ∀ r, candidateRequest documentId limit c = .ok r → cursor ≠ [] → cursor.length ≤ 2048 →
        ¬ CandidateHazard lib cursor := by
  have hclean := clean_iff (candidateRequest documentId limit c)
    (fun r => candidatePageStart lib r.id (sortedCandidates texts r.content.candidates))
    (fun r start => slicePage limit (candidateCursor texts r.id)
      (sortedCandidates texts r.content.candidates) start) (fun _ => ⟨0,rfl⟩) cursor
  simp only [settles_candidatePageStart] at hclean
  exact hclean

theorem clean_listCollections {s : Settings} {limit : ℕ} {c : Catalog} :
    Clean (listCollections lib s limit c) cursor ↔
      (validateLimit limit = .ok () → cursor ≠ [] → cursor.length ≤ 2048 →
        opened lib cursor ≠ .error .recursion) := by
  refine (clean_iff _ (fun _ => collectionPosition lib (collectionRecords s c)) _
    (fun _ => ⟨0,rfl⟩) cursor).trans ?_
  simp only [settles_collectionPosition]
  exact ⟨fun h => h (),fun h _ => h⟩

theorem Coordinator.clean_listDocuments {s : Settings} {collectionKey : CollectionKey}
    {state : Option DocumentState} {limit : ℕ} {c : Catalog} :
    Clean (Coordinator.listDocuments lib s collectionKey state limit c) cursor ↔
      (documentRequest s collectionKey limit = .ok () → state.any terminalState = false →
        cursor ≠ [] → cursor.length ≤ 500 →
          ¬ TimestampHazard lib (uuidIdentifier lib) cursor) := by
  refine (@clean_served _ _ (Cursors.listDocuments lib collectionKey state limit c) _).trans ?_
  rw [Cursors.clean_listDocuments]
  simp only [documentRequest, bind_eq_ok, forall_exists_index, and_imp]
  exact ⟨fun h _ => h,fun h => h ()⟩

theorem Coordinator.clean_listHistory {s : Settings} {collectionKey : Option CollectionKey}
    {disposition : Option TerminalDisposition} {limit : ℕ} {j : Journal} :
    Clean (Coordinator.listHistory lib s collectionKey disposition limit j) cursor ↔
      (historyRequest s collectionKey limit = .ok () → cursor ≠ [] → cursor.length ≤ 500 →
        ¬ TimestampHazard lib (uuidIdentifier lib) cursor) := by
  refine (@clean_served _ _
    (Cursors.listHistory lib (visibleKeys s) collectionKey disposition limit j) _).trans ?_
  rw [Cursors.clean_listHistory]
  simp only [historyRequest, bind_eq_ok, forall_exists_index, and_imp]
  exact ⟨fun h _ => h,fun h => h ()⟩

/-! ### Accepted cursors -/

theorem served_eq_ok {α : Type} {x : Outcome α} {a : α} : served x = .ok a ↔ x = .ok a := by
  cases x <;> simp [served, Except.mapError]

/-- Some request for the chunks of this revision accepts the cursor. -/
def ChunkAccepted (lib : Library texts) (cursor : Str) (revisionId : Uuid) : Prop :=
  ∃ documentId limit c r page, chunkRequest documentId limit c = .ok r ∧ r.id = revisionId ∧
    listChunks lib documentId limit c (some cursor) = .ok page

/-- Some request for the candidates of this revision accepts the cursor. -/
def PreflightAccepted (lib : Library texts) (cursor : Str) (revisionId : Uuid) : Prop :=
  ∃ documentId limit c r page, candidateRequest documentId limit c = .ok r ∧ r.id = revisionId ∧
    getPreflight lib documentId limit c (some cursor) = .ok page

/-- The payload of the cursor names the revision. -/
def NamesRevision (lib : Library texts) (cursor : Str) (revisionId : Uuid) : Prop :=
  ∃ ms, opened lib cursor = .ok (.object ms) ∧ HasUuid lib ms revisionKey revisionId

/-- A cursor names one revision at most. -/
theorem NamesRevision.unique {u w : Uuid} (hu : NamesRevision lib cursor u)
    (hw : NamesRevision lib cursor w) : u = w := by
  obtain ⟨ms,hms,s,⟨v,hv,hs⟩,hu⟩ := hu
  obtain ⟨ms',hms',s',⟨v',hv',hs'⟩,hw⟩ := hw
  obtain rfl : ms = ms' := by
    rw [hms] at hms'
    cases hms'
    rfl
  obtain rfl : v = v' := Option.some.inj (hv.symm.trans hv')
  obtain rfl : s = s' := Except.ok.inj (hs.symm.trans hs')
  exact Option.some.inj (hu.symm.trans hw)

theorem ChunkAccepted.names {revisionId : Uuid} (hne : cursor ≠ [])
    (h : ChunkAccepted lib cursor revisionId) : NamesRevision lib cursor revisionId := by
  obtain ⟨documentId,limit,c,r,page,hrequest,rfl,hrun⟩ := h
  simp only [listChunks, attempt_bind_ok, served_eq_ok] at hrun
  obtain ⟨r',hrequest',after,hafter,-⟩ := hrun
  cases hrequest.symm.trans hrequest'
  simp only [chunkPosition, given_some hne, attempt_bind_ok, guarded_eq_ok] at hafter
  obtain ⟨n,hn,-⟩ := hafter
  obtain ⟨ms,hms,hrevision,-⟩ := chunkPayload_eq_ok.1 hn
  exact ⟨ms,hms.1,hrevision⟩

theorem PreflightAccepted.names {revisionId : Uuid} (h : PreflightAccepted lib cursor revisionId) :
    NamesRevision lib cursor revisionId := by
  obtain ⟨documentId,limit,c,r,page,hrequest,rfl,hrun⟩ := h
  simp only [getPreflight, attempt_bind_ok, served_eq_ok] at hrun
  obtain ⟨r',hrequest',start,hstart,-⟩ := hrun
  cases hrequest.symm.trans hrequest'
  simp only [candidatePageStart, attempt_bind_ok, guarded_eq_ok] at hstart
  obtain ⟨ms,hms,⟨named,candidateId,rank⟩,hpayload,hlast⟩ := hstart
  have hrevision := (candidatePayload_eq_ok.1 hpayload).1
  dsimp only at hlast
  split at hlast
  · cases hlast
  · rename_i hpasses
    have hsame : named = r.id := not_not.1 fun hne => hpasses (Or.inr (Or.inl hne))
    exact ⟨ms,(decodePayload_eq_ok.1 hms).2.1,hsame ▸ hrevision⟩

end Endpoints

/-! ### Issued cursors -/

section Issued
variable {texts : Texts} {lib : Library texts}

theorem encodeCursor_ne_nil {payload : Codec.Payload} (h : payload.Plain) (hne : payload ≠ []) :
    str (Codec.encodeCursor payload) ≠ [] := by
  intro he
  refine encodeCursor_ne_empty h hne ?_
  rw [str, List.map_eq_nil_iff] at he
  exact String.toList_eq_nil_iff.1 he

/-- Text that a writer of JSON leaves as it is. -/
def Printable (s : String) : Prop :=
  ∀ c, c ∈ s.toList → c ≠ '"' ∧ c ≠ '\\' ∧ c.toNat < 128 ∧ 32 ≤ c.toNat

def fieldValue : Codec.Field → Value
  | .str s => .str (str s)
  | .int n => .int n

def payloadMembers (payload : Codec.Payload) : Members :=
  payload.map fun m => (str m.1,fieldValue m.2)

/-- A payload of printable texts and of integers that every interpreter converts. -/
def Writable (payload : Codec.Payload) : Prop :=
  ∀ m, m ∈ payload → Printable m.1 ∧ match m.2 with
    | .str s => Printable s
    | .int n => n < 10 ^ 640

theorem codePoint_injective {c d : Char} (h : codePoint c = codePoint d) : c = d := by
  have hval := congrArg Fin.val h
  rw [codePoint_val, codePoint_val] at hval
  exact Char.ext (UInt32.toNat_inj.1 hval)

theorem escape_printable {c : Char} (hc : c ≠ '"' ∧ c ≠ '\\' ∧ c.toNat < 128 ∧ 32 ≤ c.toNat) :
    escape (codePoint c) = [codePoint c] := by
  obtain ⟨hquote,hbackslash,-,hcontrol⟩ := hc
  have h₁ : ¬ codePoint c = quote := fun h => hquote (codePoint_injective (h.trans (by rfl)))
  have h₂ : ¬ codePoint c = backslash :=
    fun h => hbackslash (codePoint_injective (h.trans (by rfl)))
  have hval : (codePoint c).val = c.toNat := codePoint_val
  simp only [escape, if_neg h₁, if_neg h₂, hval]
  rw [if_neg (by omega), if_neg (by omega), if_neg (by omega), if_neg (by omega),
    if_neg (by omega), if_neg (by omega)]

theorem map_quoted {s : String} (h : Printable s) :
    (Codec.quoted s).map codePoint = quoted (str s) := by
  have hbody : (str s).flatMap escape = str s := by
    rw [str, List.flatMap_map]
    refine (List.flatMap_congr fun c hc => escape_printable (h c hc)).trans ?_
    exact (List.map_eq_flatMap ..).symm
  simp only [Codec.quoted, quoted, hbody, List.map_cons, List.map_append, List.map_nil]
  rfl

theorem map_render {py : Interpreter} {f : Codec.Field}
    (h : match f with | .str s => Printable s | .int n => n < 10 ^ 640) :
    f.render.map codePoint = render py (fieldValue f) := by
  cases f with
  | str s =>
    rw [Codec.Field.render, fieldValue, render]
    exact map_quoted h
  | int n =>
    rw [Codec.Field.render, fieldValue, render]
    rfl

/-- The encoders write the JSON text of their payload. -/
theorem map_dumps {py : Interpreter} {payload : Codec.Payload} (h : Writable payload)
    (hne : payload ≠ []) :
    (Codec.dumps payload).map codePoint = render py (.object (payloadMembers payload)) := by
  have hmember : ∀ m, m ∈ payload → (Codec.renderMember m).map codePoint =
      quoted (str m.1) ++ colon :: render py (fieldValue m.2) := by
    intro m hm
    obtain ⟨hk,hf⟩ := h m hm
    rw [Codec.renderMember, List.map_append, List.map_cons, map_quoted hk, map_render hf]
    rfl
  have hcons : ∀ x rest, payloadMembers (x :: rest) =
      (str x.1,fieldValue x.2) :: payloadMembers rest := fun _ _ => rfl
  have hrest : ∀ (rest : Codec.Payload) m, (∀ x, x ∈ m :: rest → x ∈ payload) →
      (Codec.renderMembers (m :: rest)).map codePoint = quoted (str m.1) ++
        colon :: render py (fieldValue m.2) ++ renderMembers py (payloadMembers rest) := by
    intro rest
    induction rest with
    | nil =>
      intro m hm
      rw [Codec.renderMembers, List.map_append, hmember m (hm m List.mem_cons_self), payloadMembers,
        List.map_nil, renderMembers]
      rfl
    | cons x rest ih =>
      intro m hm
      have hx := ih x fun y hy => hm y (List.mem_cons_of_mem _ hy)
      rw [Codec.renderMembers.eq_3 _ _ (by simp), List.map_append, List.map_cons, hx,
        hmember m (hm m List.mem_cons_self), hcons x rest, renderMembers]
      simp only [List.append_assoc, List.cons_append]
      rfl
  cases payload with
  | nil => exact absurd rfl hne
  | cons m rest =>
    rw [Codec.dumps, List.map_cons, hrest rest m fun _ hx => hx, hcons, render]
    rfl

theorem Writable.plain {payload : Codec.Payload} (h : Writable payload) : payload.Plain := by
  intro m hm
  obtain ⟨hk,hf⟩ := h m hm
  refine ⟨fun c hc => ⟨(hk c hc).1,(hk c hc).2.1,(hk c hc).2.2.1⟩,?_⟩
  cases hfield : m.2 with
  | str s =>
    rw [hfield] at hf
    exact fun c hc => ⟨(hf c hc).1,(hf c hc).2.1,(hf c hc).2.2.1⟩
  | int n => trivial

theorem convertible_of_lt {n : ℕ} (h : n < 10 ^ 640) : convertible lib.py n = true := by
  have hlength : (unsigned (intText n)).length ≤ 640 := by
    have htext : intText (n : ℤ) = digits n := rfl
    rw [htext, unsigned, if_neg (digits_head_ne_minus n), digits, List.length_map]
    exact (Nat.length_toDigits_le_iff (by decide) (by decide)).2 h
  have hlimit := lib.digits_limit
  simp only [convertible]
  cases hm : lib.py.maxDigits with
  | none => rfl
  | some limit =>
    rw [hm] at hlimit
    have hle : 640 ≤ limit := by simpa using hlimit
    simpa using hlength.trans hle

/-- What an encoder wrote is opened again. -/
theorem opened_issued {payload : Codec.Payload} (h : Writable payload) (hne : payload ≠ [])
    (hkeys : ((payloadMembers payload).map Prod.fst).Nodup) :
    opened lib (str (Codec.encodeCursor payload)) = .ok (.object (payloadMembers payload)) := by
  have hascii := Codec.ascii_dumps h.plain
  have hbytes := lib.decode_encode64 _ hascii
  have hpadded : padded (str (Codec.encodeCursor payload)) =
      str (Codec.encode64 (Codec.dumps payload)) ++ List.replicate
        ((4 - (Codec.encode64 (Codec.dumps payload)).length % 4) % 4) 61 := by
    rw [padded, Codec.encodeCursor, str, List.length_map, String.length_toList]
  have hregular : Regular lib.py 1 (.object (payloadMembers payload)) := by
    refine .object hkeys fun m hm => ?_
    obtain ⟨x,hx,rfl⟩ := List.mem_map.1 hm
    have hf := (h x hx).2
    cases hfield : x.2 with
    | str s => exact .str _
    | int n =>
      rw [hfield] at hf
      exact .int _ (convertible_of_lt hf)
  have hloads := loads_render hregular lib.stack_limit
  rw [← map_dumps h hne] at hloads
  simp only [opened, hpadded, hbytes, raiseOn, bind, Except.bind, lib.decode_ascii _ hascii,
    hloads]

theorem printable_of_ascii {s : String} (h : s.toList.all (fun c =>
    c ≠ '"' && c ≠ '\\' && c.toNat < 128 && 32 ≤ c.toNat) = true) : Printable s := by
  intro c hc
  have hplain := List.all_eq_true.1 h c hc
  simp only [Bool.and_eq_true, decide_eq_true_eq, and_assoc] at hplain
  exact hplain

theorem printable_uuid {u : Uuid} (h : texts.uuid.valid u) (lib : Library texts) :
    Printable (texts.uuid.str u) := by
  intro c hc
  obtain ⟨h₁,h₂,h₃⟩ := texts.uuid.plain u h c hc
  exact ⟨h₁,h₂,h₃,lib.printable u h c hc⟩

theorem writable_chunkPayload (lib : Library texts) {revisionId : Uuid}
    (hrevision : texts.uuid.valid revisionId) {index : ℕ} (hindex : index < 2 ^ 31) :
    Writable (Listing.chunkPayload texts revisionId index) := by
  intro m hm
  simp only [Listing.chunkPayload, List.mem_cons, List.not_mem_nil, or_false] at hm
  rcases hm with rfl | rfl | rfl
  · exact ⟨printable_of_ascii (s := "chunk_index") (by decide),
      hindex.trans (Nat.pow_lt_pow_left (by decide) (by decide) |>.trans_le
        (Nat.pow_le_pow_right (by decide) (by decide)))⟩
  · exact ⟨printable_of_ascii (s := "revision_id") (by decide),printable_uuid hrevision lib⟩
  · exact ⟨printable_of_ascii (s := "v") (by decide),Nat.one_lt_pow (by decide) (by decide)⟩

theorem opened_chunkCursor {revisionId : Uuid} (hrevision : texts.uuid.valid revisionId)
    {x : PreparedChunk} (hx : x.chunkIndex < 2 ^ 31) :
    opened lib (str (chunkCursor texts revisionId x)) =
      .ok (.object (payloadMembers (Listing.chunkPayload texts revisionId x.chunkIndex))) := by
  refine opened_issued (writable_chunkPayload lib hrevision hx) (List.cons_ne_nil _ _) ?_
  simp only [Listing.chunkPayload, payloadMembers, List.map_cons, List.map_nil]
  decide

theorem chunkCursor_ne_nil (lib : Library texts) {revisionId : Uuid}
    (hrevision : texts.uuid.valid revisionId) {x : PreparedChunk} (hx : x.chunkIndex < 2 ^ 31) :
    str (chunkCursor texts revisionId x) ≠ [] :=
  encodeCursor_ne_nil (writable_chunkPayload lib hrevision hx).plain (List.cons_ne_nil _ _)

theorem hasNames_eq (names : List Str) (ms : Members) : hasNames names ms =
    ((ms.map Prod.fst).all (fun key => key ∈ names) &&
      names.all fun name => name ∈ ms.map Prod.fst) := by
  rw [hasNames, List.all_map]
  rfl

theorem hasNames_chunkPayload (revisionId : Uuid) (index : ℕ) :
    hasNames [versionKey,revisionKey,indexKey]
      (payloadMembers (Listing.chunkPayload texts revisionId index)) = true := by
  rw [hasNames_eq]
  simp only [Listing.chunkPayload, payloadMembers, List.map_cons, List.map_nil]
  decide

/-- The fields of an issued cursor of chunks. -/
theorem lookup_chunkPayload (texts : Texts) (revisionId : Uuid) (index : ℕ) :
    (payloadMembers (Listing.chunkPayload texts revisionId index)).lookup revisionKey =
        some (.str (str (texts.uuid.str revisionId))) ∧
      (payloadMembers (Listing.chunkPayload texts revisionId index)).lookup indexKey =
        some (.int index) ∧
      (payloadMembers (Listing.chunkPayload texts revisionId index)).lookup versionKey =
        some (.int 1) := by
  have h₁ : (revisionKey == str "chunk_index") = false := by decide
  have h₂ : (revisionKey == str "revision_id") = true := by decide
  have h₃ : (indexKey == str "chunk_index") = true := by decide
  have h₄ : (versionKey == str "chunk_index") = false := by decide
  have h₅ : (versionKey == str "revision_id") = false := by decide
  have h₆ : (versionKey == str "v") = true := by decide
  refine ⟨?_,?_,?_⟩
  · simp only [Listing.chunkPayload, payloadMembers, List.map_cons, List.lookup_cons, h₁, h₂,
      fieldValue]
  · simp only [Listing.chunkPayload, payloadMembers, List.map_cons, List.lookup_cons, h₃,
      fieldValue]
  · simp only [Listing.chunkPayload, payloadMembers, List.map_cons, List.lookup_cons, h₄, h₅, h₆,
      fieldValue]
    rfl

/-- A cursor of chunks names the revision that it was issued for. -/
theorem names_chunkCursor {revisionId : Uuid} (hrevision : texts.uuid.valid revisionId)
    {x : PreparedChunk} (hx : x.chunkIndex < 2 ^ 31) :
    NamesRevision lib (str (chunkCursor texts revisionId x)) revisionId :=
  ⟨_,opened_chunkCursor hrevision hx,_,⟨_,(lookup_chunkPayload texts revisionId x.chunkIndex).1,rfl⟩,
    lib.uuid_str revisionId hrevision⟩

/-- Its own revision accepts an issued cursor of chunks, and goes on behind the chunk. -/
theorem chunkPosition_issued {revisionId : Uuid} (hrevision : texts.uuid.valid revisionId)
    {x : PreparedChunk} (hx : x.chunkIndex < 2 ^ 31) :
    chunkPosition lib revisionId (some (str (chunkCursor texts revisionId x))) =
      .ok (x.chunkIndex : ℤ) := by
  obtain ⟨hnamed,hindex,hversion⟩ := lookup_chunkPayload texts revisionId x.chunkIndex
  have hcarries : Carries lib [versionKey,revisionKey,indexKey]
      (str (chunkCursor texts revisionId x))
      (payloadMembers (Listing.chunkPayload texts revisionId x.chunkIndex)) :=
    ⟨opened_chunkCursor hrevision hx,hasNames_chunkPayload revisionId x.chunkIndex,
      by rw [hversion]; rfl⟩
  have hpayload : chunkPayload lib revisionId (str (chunkCursor texts revisionId x)) =
      .ok (x.chunkIndex : ℤ) :=
    chunkPayload_eq_ok.2 ⟨_,hcarries,⟨_,⟨_,hnamed,rfl⟩,lib.uuid_str revisionId hrevision⟩,_,hindex,
      rfl,Int.natCast_nonneg _⟩
  have hbinds : Binds (x.chunkIndex : ℤ) := by
    have hindex : (x.chunkIndex : ℤ) < 2 ^ 31 := by exact_mod_cast hx
    refine ⟨?_,?_⟩
    · omega
    · omega
  have hbound : bound (x.chunkIndex : ℤ) = .ok (x.chunkIndex : ℤ) := bound_eq_ok.2 ⟨hbinds,rfl⟩
  rw [chunkPosition, given_some (chunkCursor_ne_nil lib hrevision hx)]
  exact attempt_bind_ok.2 ⟨_,guarded_eq_ok.2 hpayload,bare_eq_ok.2 hbound⟩

/-- On an issued cursor the request behaves as the listing of well-formed cursors does. -/
theorem listChunks_issued {documentId : Uuid} {limit : ℕ} {c : Catalog} {r : PreparedRevision}
    (hr : chunkRequest documentId limit c = .ok r) (hrevision : texts.uuid.valid r.id)
    {x : PreparedChunk} (hx : x.chunkIndex < 2 ^ 31) :
    listChunks lib documentId limit c (some (str (chunkCursor texts r.id x))) =
      served (Listing.listChunks texts documentId limit c (some (chunkCursor texts r.id x))) := by
  have hserved : 1 ≤ limit ∧ limit ≤ 100 ∧ servedRevision documentId c = some r := by
    simp only [chunkRequest, bind_eq_ok, validateLimit, require_eq_ok, orRaise_eq_ok] at hr
    obtain ⟨-,⟨hlow,hhigh⟩,d,hd,hr⟩ := hr
    refine ⟨hlow,hhigh,?_⟩
    rw [servedRevision, hd, Option.bind_some]
    by_cases hserve : canServePreparedContent d = true
    · rw [if_neg (by rw [hserve]; decide)] at hr
      rw [if_pos hserve]
      exact orRaise_eq_ok.1 hr
    · rw [if_pos (Bool.eq_false_iff.2 hserve)] at hr
      split at hr <;> cases hr
  obtain ⟨hlow,hhigh,hserved⟩ := hserved
  have hposition : chunkPageStart texts r.id (chunkCursor texts r.id x) = .ok x.chunkIndex := by
    have h : chunkPageStart texts r.id (Listing.chunkPosition texts r.id x.chunkIndex) = _ :=
      chunkPageStart_chunkPosition hrevision x.chunkIndex
    rw [if_pos rfl] at h
    exact h
  have hgiven : Listing.given (some (chunkCursor texts r.id x)) = some (chunkCursor texts r.id x) :=
    given_chunkPosition hrevision x.chunkIndex
  rw [listChunks_served ⟨hlow,hhigh⟩ hserved]
  simp only [listChunks, hr, served, Except.mapError, bind, Except.bind,
    chunkPosition_issued hrevision hx, hgiven, hposition, Functor.map, Except.map, pure, Except.pure,
    Option.all_some, Nat.cast_lt]

/-- A cursor of candidates names the revision that it was issued for. -/
theorem names_candidateCursor {revisionId : Uuid} (hrevision : texts.uuid.valid revisionId)
    {x : PreparedCandidate} (hx : storedCandidate texts x) :
    NamesRevision lib (str (candidateCursor texts revisionId x)) revisionId := by
  obtain ⟨hid,-,hrank⟩ := hx
  have hopened : opened lib (str (candidateCursor texts revisionId x)) =
      .ok (.object (payloadMembers (Listing.candidatePayload texts revisionId x))) := by
    refine opened_issued ?_ (List.cons_ne_nil _ _) ?_
    · intro m hm
      simp only [Listing.candidatePayload, List.mem_cons, List.not_mem_nil, or_false] at hm
      rcases hm with rfl | rfl | rfl | rfl | rfl
      · exact ⟨printable_of_ascii (s := "id") (by decide),printable_uuid hid lib⟩
      · exact ⟨printable_of_ascii (s := "kind") (by decide),
          printable_of_ascii (s := "preflight") (by decide)⟩
      · exact ⟨printable_of_ascii (s := "rank") (by decide),
          hrank.trans (Nat.pow_lt_pow_left (by decide) (by decide) |>.trans_le
            (Nat.pow_le_pow_right (by decide) (by decide)))⟩
      · exact ⟨printable_of_ascii (s := "revision_id") (by decide),printable_uuid hrevision lib⟩
      · exact ⟨printable_of_ascii (s := "v") (by decide),Nat.one_lt_pow (by decide) (by decide)⟩
    · simp only [Listing.candidatePayload, payloadMembers, List.map_cons, List.map_nil]
      decide
  have h₁ : (revisionKey == str "id") = false := by decide
  have h₂ : (revisionKey == str "kind") = false := by decide
  have h₃ : (revisionKey == str "rank") = false := by decide
  have h₄ : (revisionKey == str "revision_id") = true := by decide
  have hfield : (payloadMembers (Listing.candidatePayload texts revisionId x)).lookup
      revisionKey = some (.str (str (texts.uuid.str revisionId))) := by
    simp only [Listing.candidatePayload, payloadMembers, List.map_cons, List.lookup_cons, h₁, h₂,
      h₃, h₄, fieldValue]
  exact ⟨_,hopened,_,⟨_,hfield,rfl⟩,lib.uuid_str revisionId hrevision⟩

end Issued

end Cursors
end PdfBridge
