import PdfBridge.Services.Catalog

/-! The six paginators agree on order, comparison and cursor: each walk over them returns every
row exactly once, also when the catalog changes between two pages. -/
namespace PdfBridge
namespace Listing
open Keyset Intake Codec
open Api (terminalState)

/-! ### Cursors are read back -/

section Cursors
variable {texts : Texts} {t : Time} {i : String}

theorem encodeCursor_ne_empty {payload : Payload} (h : payload.Plain) (hne : payload ≠ []) :
    Codec.encodeCursor payload ≠ "" := by
  intro he
  have := decodeCursor_encodeCursor h hne
  rw [he] at this
  cases this

theorem plain_of_ascii {s : String} (h : s.toList.all fun c =>
    c ≠ '"' && c ≠ '\\' && decide (c.toNat < 128) = true) : Codec.Plain s := by
  intro c hc
  simpa [and_assoc] using List.all_eq_true.1 h c hc

theorem length_quoted (s : String) : (quoted s).length = s.length + 2 := by
  simp only [quoted, List.length_cons, List.length_append, List.length_nil, String.length_toList]

/-- `_decode_cursor` of a cursor that `_encode_cursor` wrote. -/
theorem decodeCursor_encode {ι : Type} {identifier : String → Option ι} {v : ι}
    (ht : texts.time.valid t) (hplain : Codec.Plain i) (hlength : i.length ≤ 40)
    (hi : identifier i = some v) :
    decodeCursor texts identifier (encodeCursor texts t i) = .ok (t,v) := by
  have hpayload : (timestampPayload texts t i).Plain := by
    intro m hm
    simp only [timestampPayload, List.mem_cons, List.not_mem_nil, or_false] at hm
    rcases hm with rfl | rfl | rfl
    · exact ⟨plain_of_ascii (s := "id") (by decide),hplain⟩
    · exact ⟨plain_of_ascii (s := "t") (by decide),texts.time.plain t ht⟩
    · exact ⟨plain_of_ascii (s := "v") (by decide),trivial⟩
  have hshort : (encodeCursor texts t i).length ≤ 500 := by
    have hlen : 3 * (encodeCursor texts t i).length ≤ _ :=
      length_encodeCursor (timestampPayload texts t i)
    have htime := texts.time.length_le t ht
    simp only [timestampPayload, dumps, renderMembers, renderMember, Field.render, List.length_append,
      List.length_cons, length_quoted] at hlen
    have h₁ : "id".length = 2 := rfl
    have h₂ : "t".length = 1 := rfl
    have h₃ : "v".length = 1 := rfl
    have h₄ : (Nat.toDigits 10 1).length = 1 := rfl
    simp only [h₁, h₂, h₃, h₄, List.length_nil] at hlen
    omega
  simp only [decodeCursor, bind_eq_ok, require_eq_ok, orRaise_eq_ok, exists_const, pure_eq_ok]
  refine ⟨⟨encodeCursor_ne_empty hpayload (List.cons_ne_nil _ _),hshort⟩,_,
    decodeCursor_encodeCursor hpayload (List.cons_ne_nil _ _),⟨by rfl,by rfl⟩,t,?_,v,?_,rfl⟩
  · exact texts.time.parse_str t ht
  · exact hi

theorem given_of_ne {cursor : String} (h : cursor ≠ "") : given (some cursor) = some cursor :=
  Option.filter_some_pos (decide_eq_true h)

theorem given_of_decodeCursor {ι : Type} {identifier : String → Option ι} {cursor : String}
    {v : Time × ι} (h : decodeCursor texts identifier cursor = .ok v) :
    given (some cursor) = some cursor := by
  simp only [decodeCursor, bind_eq_ok, require_eq_ok, exists_const] at h
  exact given_of_ne h.1.1

end Cursors

/-! ### Pages -/

section Pages
variable {ρ κ : Type} [LinearOrder κ] {key : ρ → κ} {limit : ℕ} {cursorOf : ρ → String}
  {encode : κ → String}

omit [LinearOrder κ] in
theorem getLast?_congr {l : List ρ} (h : ∀ r, r ∈ l → cursorOf r = encode (key r)) :
    l.getLast?.map cursorOf = l.getLast?.map (encode ∘ key) := by
  cases hl : l.getLast? with
  | none => rfl
  | some r => exact congrArg some (h r (List.mem_of_getLast? hl))

theorem selectPage_eq {rows all : List ρ} {after : Option κ}
    (hrows : rows = all.filter fun r => after.all fun k => decide (k < key r))
    (hcursor : ∀ r, r ∈ all → cursorOf r = encode (key r)) :
    selectPage key limit cursorOf rows = pageOf key limit encode (remaining key after all) := by
  have hmore : limit < ((remaining key after all).take (limit + 1)).length ↔
      limit < (remaining key after all).length := by
    rw [List.length_take]
    omega
  have htake : ((remaining key after all).take (limit + 1)).take limit =
      (remaining key after all).take limit := by
    rw [List.take_take, Nat.min_eq_left (Nat.le_succ limit)]
  have hsort : rows.insertionSort (fun a b => key a ≤ key b) = remaining key after all := by
    rw [hrows]
    rfl
  simp only [selectPage, hsort, htake, pageOf, decide_eq_true_eq, hmore, Page.mk.injEq, true_and]
  split
  · exact getLast?_congr fun r hr =>
      hcursor r (mem_remaining.1 (List.mem_of_mem_take hr)).1
  · rfl

theorem slicePage_eq {key : ρ → ℕ} {encode : ℕ → String} {records : List ρ} {after : Option ℕ}
    (hrecords : records.map key = List.range records.length)
    (hcursor : ∀ r, r ∈ records → cursorOf r = encode (key r)) :
    slicePage limit cursorOf records ((after.map (· + 1)).getD 0) =
      pageOf key limit encode (remaining key after records) := by
  rw [remaining_position hrecords]
  generalize (after.map (· + 1)).getD 0 = start
  have hmore : start + ((records.drop start).take limit).length < records.length ↔
      limit < (records.drop start).length := by
    rw [List.length_take, List.length_drop]
    omega
  simp only [slicePage, pageOf, hmore, decide_eq_true_eq, Page.mk.injEq, true_and]
  split
  · exact getLast?_congr fun r hr =>
      hcursor r (List.mem_of_mem_drop (List.mem_of_mem_take hr))
  · rfl

/-- A list without duplicates is in the order of its positions. -/
theorem map_idxOf {α : Type} [DecidableEq α] {l : List α} (h : l.Nodup) :
    l.map (fun a => l.idxOf a) = List.range l.length := by
  refine List.ext_getElem (by simp) fun i hi hi' => ?_
  simp only [List.getElem_map, List.getElem_range]
  exact h.idxOf_getElem i (by simpa using hi)

end Pages

/-! ### States of the catalog -/

/-- The tables, with the values and the unique keys that their columns allow. -/
structure Snapshot (texts : Texts) extends Journal where
  documents_valid : ∀ d, d ∈ catalog.documents →
    texts.time.valid d.createdAt ∧ texts.uuid.valid d.id
  revisions_valid : ∀ d, d ∈ catalog.documents → ∀ r, r ∈ d.preparedRevisions →
    texts.uuid.valid r.id ∧ (r.content.chunks.map PreparedChunk.chunkIndex).Nodup ∧
    (r.content.candidates.map PreparedCandidate.id).Nodup ∧
    ∀ x, x ∈ r.content.candidates → texts.uuid.valid x.id ∧ 1 ≤ x.rank ∧ x.rank < 2 ^ 31
  events_valid : ∀ e, e ∈ events → texts.time.valid e.occurredAt
  tombstones_valid : ∀ t, t ∈ tombstones →
    texts.time.valid t.occurredAt ∧ texts.uuid.valid t.id

def newestTime {ι : Type} (k : Newest ι) : Time := (ofLex (OrderDual.ofDual k)).1

def newestId {ι : Type} (k : Newest ι) : ι := (ofLex (OrderDual.ofDual k)).2

def newestCursor {ι : Type} (texts : Texts) (str : ι → String) (k : Newest ι) : String :=
  encodeCursor texts (newestTime k) (str (newestId k))

/-- The strict comparison of the queries is that of their order. -/
theorem newest_lt {ι : Type} [LinearOrder ι] (t u : Time) (i j : ι) :
    (OrderDual.toDual (toLex (t,i)) : Newest ι) < OrderDual.toDual (toLex (u,j)) ↔
      u < t ∨ (u = t ∧ j < i) := by
  rw [OrderDual.toDual_lt_toDual, Prod.Lex.toLex_lt_toLex]

section Newest
variable {ρ ι : Type} [LinearOrder ι] {texts : Texts} {limit : ℕ} {time : ρ → Time} {id : ρ → ι}
  {str : ι → String} {parse : String → Option ι} {valid : ι → Prop}

/-- A cursor of a stored row selects the rows after it. -/
theorem selectNewest_page (hstr : ∀ i, valid i → Codec.Plain (str i) ∧ (str i).length ≤ 40 ∧
      parse (str i) = some i) (all : List ρ) (after : Option (Newest ι))
    (hafter : ∀ k, after = some k → texts.time.valid (newestTime k) ∧ valid (newestId k)) :
    selectNewest texts time id str parse limit all (after.map (newestCursor texts str)) =
      .ok (pageOf (newestKey time id) limit (newestCursor texts str)
        (remaining (newestKey time id) after all)) := by
  cases after with
  | none =>
    simp only [selectNewest, Option.map_none]
    exact congrArg Except.ok (selectPage_eq (by simp) fun r _ => rfl)
  | some k =>
    obtain ⟨ht,hi⟩ := hafter k rfl
    obtain ⟨hplain,hlength,hparse⟩ := hstr _ hi
    have hdecode := decodeCursor_encode ht hplain hlength hparse
    simp only [selectNewest, Option.map_some, newestCursor, given_of_decodeCursor hdecode, hdecode]
    refine congrArg Except.ok (selectPage_eq ?_ fun r _ => rfl)
    refine List.filter_congr fun r _ => ?_
    have hlt := newest_lt (newestTime k) (time r) (newestId k) (id r)
    simp only [Option.all_some, newestKey]
    rw [Bool.eq_iff_iff]
    simp only [Bool.or_eq_true, Bool.and_eq_true, decide_eq_true_eq]
    rw [← hlt]
    exact decide_eq_true_iff.symm

theorem selectNewest_items {rows : List ρ} {cursor : Option String} {page : Page ρ String}
    (h : selectNewest texts time id str parse limit rows cursor = .ok page) {r : ρ}
    (hr : r ∈ page.items) : r ∈ rows := by
  have hselected : ∃ p : ρ → Bool, page = selectPage (newestKey time id) limit
      (fun r => encodeCursor texts (time r) (str (id r))) (rows.filter p) := by
    unfold selectNewest at h
    split at h
    · cases h
      exact ⟨_,rfl⟩
    · obtain ⟨after,-,h⟩ := bind_eq_ok.1 h
      cases h
      exact ⟨_,rfl⟩
  obtain ⟨p,rfl⟩ := hselected
  have hsorted := List.mem_of_mem_take (List.mem_of_mem_take hr)
  exact List.mem_of_mem_filter ((List.mem_insertionSort _).1 hsorted)

def storedKey (texts : Texts) (valid : ι → Prop) (k : Newest ι) : Prop :=
  texts.time.valid (newestTime k) ∧ valid (newestId k)

/-- The three timestamp paginators. -/
theorem selectNewest_paginates {σ : Type} {rows : σ → List ρ} (hlimit : 1 ≤ limit)
    (hstr : ∀ i, valid i → Codec.Plain (str i) ∧ (str i).length ≤ 40 ∧ parse (str i) = some i)
    (hkeys : ∀ s, ((rows s).map id).Nodup)
    (hvalid : ∀ s, ∀ r, r ∈ rows s → texts.time.valid (time r) ∧ valid (id r)) :
    Paginates (fun s cursor => selectNewest texts time id str parse limit (rows s) cursor) limit
      (newestKey time id) (newestCursor texts str) rows (fun _ => True)
      (storedKey texts valid) where
  positive := hlimit
  keys s _ := by
    have hmap : (rows s).map id = ((rows s).map (newestKey time id)).map newestId := by
      rw [List.map_map]
      rfl
    exact List.Nodup.of_map newestId (hmap ▸ hkeys s)
  rows_known s _ r hr := hvalid s r hr
  page s _ after hknown := selectNewest_page hstr (rows s) after hknown
  refused s hs := absurd trivial hs

end Newest

/-! ### Documents, events and history -/

section Timestamps
variable {texts : Texts} {limit : ℕ}

theorem validateLimit_ok (hlimit : 1 ≤ limit ∧ limit ≤ 100) : validateLimit limit = .ok () :=
  require_eq_ok.2 hlimit

theorem uuid_text (i : Uuid) (hi : texts.uuid.valid i) :
    Codec.Plain (texts.uuid.str i) ∧ (texts.uuid.str i).length ≤ 40 ∧
      texts.uuid.parse (texts.uuid.str i) = some i :=
  ⟨texts.uuid.plain i hi,texts.uuid.length_le i hi,texts.uuid.parse_str i hi⟩

theorem isDigit_toDigits {n : ℕ} {c : Char} (h : c ∈ Nat.toDigits 10 n) : c.isDigit = true :=
  Nat.isDigit_of_mem_toDigits (by decide) (by decide) h

theorem decimal_decimalText (n : ℕ) : decimal (decimalText n) = some n := by
  have hall : (Nat.toDigits 10 n).all Char.isDigit = true :=
    List.all_eq_true.2 fun c hc => isDigit_toDigits hc
  simp only [decimal, decimalText, String.toList_ofList, ne_eq, Nat.toDigits_ne_nil,
    not_false_eq_true, hall, and_self, if_true, Nat.ofDigitChars_ten_toDigits]

theorem decimal_text (n : ℕ) (hn : n < 2 ^ 31) :
    Codec.Plain (decimalText n) ∧ (decimalText n).length ≤ 40 ∧
      decimal (decimalText n) = some n := by
  refine ⟨fun c hc => ?_,?_,decimal_decimalText n⟩
  · rw [decimalText, String.toList_ofList] at hc
    have hdigit := isDigit_toDigits hc
    refine ⟨?_,?_,isDigit_ascii hdigit⟩
    · rintro rfl
      exact absurd hdigit (by decide)
    · rintro rfl
      exact absurd hdigit (by decide)
  · rw [decimalText, String.length_ofList, Nat.length_toDigits_le_iff (by decide) (by decide)]
    exact hn.trans (by decide)

theorem require_pos {c : Prop} [Decidable c] {e : ServiceError} (h : c) : require c e = .ok () :=
  if_pos h

theorem require_neg {c : Prop} [Decidable c] {e : ServiceError} (h : ¬ c) :
    require c e = .error e := if_neg h

/-- A terminal state matches no listed document. -/
theorem matchingDocuments_terminal {collectionKey : CollectionKey} {state : Option DocumentState}
    (h : state.any terminalState = true) (c : Catalog) :
    matchingDocuments collectionKey state c = [] := by
  refine List.filter_eq_nil_iff.2 fun d _ => ?_
  cases state with
  | none => cases h
  | some st =>
    simp only [Option.any_some] at h
    simp only [Option.all_some, Bool.and_eq_true, decide_eq_true_eq, Bool.not_eq_true', not_and]
    rintro ⟨-,hd⟩ rfl
    rw [hd] at h
    cases h

theorem listDocuments_eq (hlimit : 1 ≤ limit ∧ limit ≤ 100) (collectionKey : CollectionKey)
    (state : Option DocumentState) (c : Catalog) (cursor : Option String) :
    listDocuments texts collectionKey state limit c cursor =
      if state.any terminalState then .ok ⟨[],none⟩
      else selectNewest texts Document.createdAt Document.id texts.uuid.str texts.uuid.parse limit
        (matchingDocuments collectionKey state c) cursor := by
  simp only [listDocuments, validateLimit_ok hlimit]
  rfl

theorem listDocuments_complete (hlimit : 1 ≤ limit ∧ limit ≤ 100) (collectionKey : CollectionKey)
    (state : Option DocumentState) :
    Complete (fun (j : Snapshot texts) cursor =>
        listDocuments texts collectionKey state limit j.catalog cursor)
      (newestKey Document.createdAt Document.id)
      (fun j => matchingDocuments collectionKey state j.catalog) fun _ => True := by
  have hselect : Paginates (fun (j : Snapshot texts) cursor =>
        selectNewest texts Document.createdAt Document.id texts.uuid.str texts.uuid.parse limit
          (matchingDocuments collectionKey state j.catalog) cursor) limit
      (newestKey Document.createdAt Document.id) (newestCursor texts texts.uuid.str)
      (fun j => matchingDocuments collectionKey state j.catalog) (fun _ => True)
      (storedKey texts texts.uuid.valid) :=
    selectNewest_paginates hlimit.1 uuid_text
      (fun j => (j.catalog.documents.nodup).sublist (List.filter_sublist.map Document.id))
      fun j d hd => j.documents_valid d (List.mem_of_mem_filter hd)
  refine (hselect.of_eq fun j after hknown => ?_).complete
  rw [listDocuments_eq hlimit]
  split
  · rename_i hterminal
    rw [matchingDocuments_terminal hterminal, selectNewest_page uuid_text [] after hknown]
    exact congrArg Except.ok (pageOf_of_le (Nat.zero_le limit)).symm
  · rfl

/-- A page shows documents of the catalog only. -/
theorem listDocuments_items {collectionKey : CollectionKey} {state : Option DocumentState}
    {c : Catalog} {cursor : Option String} {page : Page Document String}
    (h : listDocuments texts collectionKey state limit c cursor = .ok page) {d : Document}
    (hd : d ∈ page.items) : d ∈ c.documents := by
  simp only [listDocuments, bind_eq_ok] at h
  obtain ⟨-,-,h⟩ := h
  split at h
  · cases h
    cases hd
  · exact List.mem_of_mem_filter (selectNewest_items h hd)

theorem listEvents_complete (hlimit : 1 ≤ limit ∧ limit ≤ 100) (documentId : Uuid) :
    Complete (fun (j : {j : Snapshot texts // (j.catalog.document? documentId).isSome = true})
        cursor => listEvents texts documentId limit j.1.toJournal cursor)
      (newestKey AuditEventRow.occurredAt fun e => e.id.1)
      (fun j => matchingEvents documentId j.1.toJournal) fun _ => True := by
  have hselect : Paginates
      (fun (j : {j : Snapshot texts // (j.catalog.document? documentId).isSome = true}) cursor =>
        selectNewest texts AuditEventRow.occurredAt (fun e => e.id.1) decimalText decimal limit
          (matchingEvents documentId j.1.toJournal) cursor) limit
      (newestKey AuditEventRow.occurredAt fun e => e.id.1) (newestCursor texts decimalText)
      (fun j => matchingEvents documentId j.1.toJournal) (fun _ => True)
      (storedKey texts (· < 2 ^ 31)) := by
    refine selectNewest_paginates hlimit.1 decimal_text (fun j => ?_)
      fun j e he => ⟨j.1.events_valid e (List.mem_of_mem_filter he),e.id.2⟩
    have hnodup : ((matchingEvents documentId j.1.toJournal).map AuditEventRow.id).Nodup :=
      (j.1.events.nodup).sublist (List.filter_sublist.map AuditEventRow.id)
    have := hnodup.map Fin.val_injective
    rwa [List.map_map] at this
  refine (hselect.of_eq fun j after _ => ?_).complete
  simp only [listEvents, require_pos j.2, validateLimit_ok hlimit]
  rfl

theorem listHistory_complete (hlimit : 1 ≤ limit ∧ limit ≤ 100) {visible : List CollectionKey}
    (hvisible : visible ≠ []) (collectionKey : Option CollectionKey)
    (disposition : Option TerminalDisposition) :
    Complete (fun (j : Snapshot texts) cursor =>
        listHistory texts visible collectionKey disposition limit j.toJournal cursor)
      (newestKey TombstoneRow.occurredAt TombstoneRow.id)
      (fun j => matchingTombstones visible collectionKey disposition j.toJournal) fun _ => True := by
  have hselect : Paginates (fun (j : Snapshot texts) cursor =>
        selectNewest texts TombstoneRow.occurredAt TombstoneRow.id texts.uuid.str
          texts.uuid.parse limit (matchingTombstones visible collectionKey disposition j.toJournal)
          cursor) limit
      (newestKey TombstoneRow.occurredAt TombstoneRow.id) (newestCursor texts texts.uuid.str)
      (fun j => matchingTombstones visible collectionKey disposition j.toJournal) (fun _ => True)
      (storedKey texts texts.uuid.valid) :=
    selectNewest_paginates hlimit.1 uuid_text
      (fun j => (j.tombstones.nodup).sublist (List.filter_sublist.map TombstoneRow.id))
      fun j t ht => j.tombstones_valid t (List.mem_of_mem_filter ht)
  refine (hselect.of_eq fun j after _ => ?_).complete
  simp only [listHistory, validateLimit_ok hlimit, require_pos hvisible]
  rfl

end Timestamps

/-! ### Collections -/

section Collections
variable {texts : Texts} {s : Settings} {limit : ℕ}

def enabledDefinitions (s : Settings) : List CollectionDefinition :=
  s.collections.filter CollectionDefinition.enabled

theorem definitions_collectionRecords (c : Catalog) :
    (collectionRecords s c).map CollectionRecord.definition = enabledDefinitions s := by
  simp only [collectionRecords, List.map_map, enabledDefinitions]
  exact List.map_id _

theorem nodup_enabledDefinitions (s : Settings) : (enabledDefinitions s).Nodup :=
  (List.Nodup.of_map _ s.keys_nodup).sublist List.filter_sublist

/-- The configuration position of an enabled collection. -/
def configPosition (s : Settings) (r : CollectionRecord) : ℕ :=
  (enabledDefinitions s).idxOf r.definition

/-- The cursor of the collection at a position. -/
def collectionCursorAt (s : Settings) (n : ℕ) : String :=
  match (enabledDefinitions s)[n]? with
  | none => ""
  | some definition => collectionCursor ⟨definition,[]⟩

theorem map_configPosition (c : Catalog) :
    (collectionRecords s c).map (configPosition s) =
      List.range (collectionRecords s c).length := by
  have hlength := congrArg List.length (definitions_collectionRecords (s := s) c)
  rw [List.length_map] at hlength
  calc (collectionRecords s c).map (configPosition s)
      = ((collectionRecords s c).map CollectionRecord.definition).map
          fun definition => (enabledDefinitions s).idxOf definition := by
        rw [List.map_map]
        rfl
    _ = (enabledDefinitions s).map fun definition => (enabledDefinitions s).idxOf definition := by
        rw [definitions_collectionRecords]
    _ = List.range (collectionRecords s c).length := by
        rw [map_idxOf (nodup_enabledDefinitions s), hlength]

theorem isLower_ascii {c : Char} (h : c.isLower = true) : c.toNat < 128 := by
  have h : (decide (c.val ≥ 'a'.val) && decide (c.val ≤ 'z'.val)) = true := h
  have := (Bool.and_eq_true_iff.1 h).2
  simp only [decide_eq_true_eq, UInt32.le_iff_toNat_le] at this
  exact lt_of_le_of_lt this (by decide)

theorem collectionKey_text (key : CollectionKey) :
    Codec.Plain key.1 ∧ key.1.length ≤ 63 := by
  obtain ⟨hlength,hchars⟩ := isCollectionKey_chars key.2
  refine ⟨fun c hc => ?_,hlength⟩
  rcases hchars c hc with h | h | rfl | rfl
  · refine ⟨?_,?_,isDigit_ascii h⟩ <;> (rintro rfl; exact absurd h (by decide))
  · refine ⟨?_,?_,isLower_ascii h⟩ <;> (rintro rfl; exact absurd h (by decide))
  · decide
  · decide

/-- The payload that a collection cursor carries. -/
theorem decodePayload_collection (definition : CollectionDefinition)
    (counts : List (DocumentState × ℕ)) :
    decodePayload ["kind","after"] (collectionCursor ⟨definition,counts⟩) =
      .ok (collectionPayload definition.key) := by
  obtain ⟨hplain,hlength⟩ := collectionKey_text definition.key
  have hpayload : (collectionPayload definition.key).Plain := by
    intro m hm
    simp only [collectionPayload, List.mem_cons, List.not_mem_nil, or_false] at hm
    rcases hm with rfl | rfl | rfl
    · exact ⟨plain_of_ascii (s := "after") (by decide),hplain⟩
    · exact ⟨plain_of_ascii (s := "kind") (by decide),
        plain_of_ascii (s := "collections") (by decide)⟩
    · exact ⟨plain_of_ascii (s := "v") (by decide),trivial⟩
  have hshort : (collectionCursor ⟨definition,counts⟩).length ≤ 2048 := by
    have hlen : 3 * (collectionCursor ⟨definition,counts⟩).length ≤ _ :=
      length_encodeCursor (collectionPayload definition.key)
    simp only [collectionPayload, dumps, renderMembers, renderMember, Field.render, List.length_append,
      List.length_cons, length_quoted] at hlen
    have h₁ : "after".length = 5 := rfl
    have h₂ : "kind".length = 4 := rfl
    have h₃ : "v".length = 1 := rfl
    have h₄ : (Nat.toDigits 10 1).length = 1 := rfl
    have h₅ : "collections".length = 11 := rfl
    simp only [h₁, h₂, h₃, h₄, h₅, List.length_nil] at hlen
    omega
  simp only [decodePayload, bind_eq_ok, require_eq_ok, orRaise_eq_ok, exists_const, pure_eq_ok]
  exact ⟨⟨encodeCursor_ne_empty hpayload (List.cons_ne_nil _ _),hshort⟩,_,
    decodeCursor_encodeCursor hpayload (List.cons_ne_nil _ _),⟨by rfl,by rfl⟩,rfl⟩

/-- The position of an item in a list, by a test that only this item meets. -/
theorem findIdx?_position {α : Type} {l : List α} {p : α → Bool} {n : ℕ} {a : α}
    (hget : l[n]? = some a) (hp : p a = true) (hone : ∀ b, b ∈ l → p b = true → b = a)
    (hnodup : l.Nodup) : l.findIdx? p = some n := by
  obtain ⟨hn,hget⟩ := List.getElem?_eq_some_iff.1 hget
  rw [List.findIdx?_eq_some_iff_getElem]
  refine ⟨hn,by rw [hget]; exact hp,fun j hj hpj => ?_⟩
  have heq := hone _ (List.getElem_mem _) hpj
  rw [← hget] at heq
  exact absurd ((hnodup.getElem_inj_iff).1 heq) hj.ne

theorem mem_enabledDefinitions {c : Catalog} {r : CollectionRecord}
    (hr : r ∈ collectionRecords s c) : r.definition ∈ enabledDefinitions s := by
  rw [← definitions_collectionRecords c]
  exact List.mem_map_of_mem hr

theorem collectionCursorAt_position {c : Catalog} {r : CollectionRecord}
    (hr : r ∈ collectionRecords s c) :
    collectionCursor r = collectionCursorAt s (configPosition s r) := by
  have hmem := mem_enabledDefinitions hr
  have hget : (enabledDefinitions s)[configPosition s r]? = some r.definition :=
    List.getElem?_idxOf hmem
  simp only [collectionCursorAt, hget]
  rfl

/-- The record at a position is found again by its key. -/
theorem collectionStart (c : Catalog) {n : ℕ} (hn : n < (enabledDefinitions s).length) :
    ∃ definition, collectionCursorAt s n = collectionCursor ⟨definition,[]⟩ ∧
      (collectionRecords s c).findIdx? (fun r => r.definition.key.1 = definition.key.1) =
        some n := by
  have hlength := congrArg List.length (definitions_collectionRecords (s := s) c)
  rw [List.length_map] at hlength
  have hn' : n < (collectionRecords s c).length := hlength ▸ hn
  have hget : (enabledDefinitions s)[n]? = some ((collectionRecords s c)[n].definition) := by
    rw [← definitions_collectionRecords c, List.getElem?_map, List.getElem?_eq_getElem hn']
    rfl
  have hnodup : (collectionRecords s c).Nodup := by
    refine List.Nodup.of_map (configPosition s) ?_
    rw [map_configPosition]
    exact List.nodup_range
  refine ⟨(collectionRecords s c)[n].definition,by simp only [collectionCursorAt, hget],
    findIdx?_position (List.getElem?_eq_getElem hn') (by simp) (fun r hr hkey => ?_) hnodup⟩
  have hkey : r.definition.key = (collectionRecords s c)[n].definition.key :=
    Subtype.ext (of_decide_eq_true hkey)
  have hsame : r.definition = (collectionRecords s c)[n].definition :=
    List.inj_on_of_nodup_map s.keys_nodup
      (List.mem_of_mem_filter (mem_enabledDefinitions hr))
      (List.mem_of_mem_filter (mem_enabledDefinitions (List.getElem_mem hn'))) hkey
  obtain ⟨a,-,ha⟩ := List.mem_map.1 hr
  obtain ⟨b,-,hb⟩ := List.mem_map.1 (List.getElem_mem hn')
  rw [← hb, ← ha] at hsame
  rw [← hb, ← ha, show a = b from hsame]

theorem listCollections_complete (hlimit : 1 ≤ limit ∧ limit ≤ 100) :
    Complete (fun (j : Snapshot texts) cursor => listCollections s limit j.catalog cursor)
      (configPosition s) (fun j => collectionRecords s j.catalog) fun _ => True := by
  have hpaginates : Paginates
      (fun (j : Snapshot texts) cursor => listCollections s limit j.catalog cursor) limit
      (configPosition s) (collectionCursorAt s) (fun j => collectionRecords s j.catalog)
      (fun _ => True) (fun n => n < (enabledDefinitions s).length) :=
    { positive := hlimit.1
      keys := fun j _ => by
        rw [map_configPosition]
        exact List.nodup_range
      rows_known := fun j _ r hr => List.idxOf_lt_length_of_mem (mem_enabledDefinitions hr)
      page := fun j _ after hknown => by
        rw [← slicePage_eq (map_configPosition j.catalog) fun r hr => collectionCursorAt_position hr]
        simp only [listCollections, validateLimit_ok hlimit]
        cases after with
        | none => rfl
        | some n =>
          obtain ⟨definition,hn,hstart⟩ := collectionStart j.catalog (hknown n rfl)
          have hkind : (collectionPayload definition.key).lookup "kind" =
              some (.str "collections") := rfl
          have hafter : (collectionPayload definition.key).lookup "after" =
              some (.str definition.key.1) := rfl
          simp only [Option.map_some, hn, decodePayload_collection, Except.bind, bind,
            require_pos hkind, hafter, hstart, orRaise]
          rfl
      refused := fun _ hs => absurd trivial hs }
  exact hpaginates.complete

end Collections

/-! ### Chunks -/

section Chunks
variable {texts : Texts} {limit : ℕ} {documentId revisionId : Uuid}

/-- The sealed revision whose chunks a document serves. -/
def servedRevision (documentId : Uuid) (c : Catalog) : Option PreparedRevision :=
  (c.document? documentId).bind fun d =>
    if canServePreparedContent d then latestSealedRevision d else none

def chunkPosition (texts : Texts) (revisionId : Uuid) (index : ℕ) : String :=
  Codec.encodeCursor (chunkPayload texts revisionId index)

theorem chunkPayload_plain {named : Uuid} (hnamed : texts.uuid.valid named) (index : ℕ) :
    (chunkPayload texts named index).Plain := by
  intro m hm
  simp only [chunkPayload, List.mem_cons, List.not_mem_nil, or_false] at hm
  rcases hm with rfl | rfl | rfl
  · exact ⟨plain_of_ascii (s := "chunk_index") (by decide),trivial⟩
  · exact ⟨plain_of_ascii (s := "revision_id") (by decide),texts.uuid.plain named hnamed⟩
  · exact ⟨plain_of_ascii (s := "v") (by decide),trivial⟩

theorem given_chunkPosition {named : Uuid} (hnamed : texts.uuid.valid named) (index : ℕ) :
    given (some (chunkPosition texts named index)) = some (chunkPosition texts named index) :=
  given_of_ne (encodeCursor_ne_empty (chunkPayload_plain hnamed index) (List.cons_ne_nil _ _))

theorem chunkPageStart_chunkPosition {named : Uuid} (hnamed : texts.uuid.valid named)
    (index : ℕ) :
    chunkPageStart texts revisionId (chunkPosition texts named index) =
      if named = revisionId then .ok index else .error invalidCursor := by
  have hdecode : Codec.decodeCursor (chunkPosition texts named index) =
      some (chunkPayload texts named index) :=
    decodeCursor_encodeCursor (chunkPayload_plain hnamed index) (List.cons_ne_nil _ _)
  have hfields : hasFields (chunkPayload texts named index) ["v","revision_id","chunk_index"] ∧
      version (chunkPayload texts named index) := ⟨by rfl,by rfl⟩
  have hrevision : fieldText (chunkPayload texts named index) "revision_id" =
      some (texts.uuid.str named) := rfl
  have hindex : fieldText (chunkPayload texts named index) "chunk_index" =
      some (decimalText index) := rfl
  simp only [chunkPageStart, hdecode, orRaise, bind, Except.bind, require_pos hfields, hrevision,
    Option.bind_some, texts.uuid.parse_str named hnamed, fieldInt, hindex, decimal_decimalText]
  by_cases hsame : named = revisionId
  · simp only [require_pos hsame, if_pos hsame]
  · simp only [require_neg hsame, if_neg hsame]

theorem latestSealedRevision_mem {d : Document} {r : PreparedRevision}
    (h : latestSealedRevision d = some r) : r ∈ d.preparedRevisions :=
  List.mem_of_mem_filter (latestBy_mem h)

/-- A request for chunks once the limit is accepted. -/
theorem listChunks_served (hlimit : 1 ≤ limit ∧ limit ≤ 100) {c : Catalog}
    {r : PreparedRevision} (hr : servedRevision documentId c = some r) (cursor : Option String) :
    listChunks texts documentId limit c cursor = (do
      let after ← match given cursor with
        | none => pure none
        | some cursor => some <$> chunkPageStart texts r.id cursor
      pure (selectPage PreparedChunk.chunkIndex limit (chunkCursor texts r.id)
        (r.content.chunks.filter fun x => after.all fun index => index < x.chunkIndex))) := by
  obtain ⟨d,hd,hserved⟩ := Option.bind_eq_some_iff.1 hr
  split at hserved
  · rename_i hserve
    cases hgiven : given cursor <;>
      simp [listChunks, validateLimit_ok hlimit, hd, orRaise, bind, Except.bind, hserve, hserved,
        hgiven]
  · cases hserved

theorem listChunks_unserved {c : Catalog} (hr : servedRevision documentId c = none)
    (cursor : Option String) : ∃ e, listChunks texts documentId limit c cursor = .error e := by
  cases hresult : listChunks texts documentId limit c cursor with
  | error e => exact ⟨e,rfl⟩
  | ok page =>
    simp only [listChunks, bind_eq_ok, orRaise_eq_ok] at hresult
    obtain ⟨-,-,d,hd,hresult⟩ := hresult
    simp only [servedRevision, hd, Option.bind_some] at hr
    by_cases hserve : canServePreparedContent d = true
    · rw [if_pos hserve] at hr
      simp only [hserve, Bool.true_eq_false, if_false, hr, orRaise, bind, Except.bind] at hresult
      cases hresult
    · rw [if_pos (Bool.eq_false_iff.2 hserve)] at hresult
      split at hresult <;> cases hresult

theorem listChunks_complete (hlimit : 1 ≤ limit ∧ limit ≤ 100) (documentId revisionId : Uuid) :
    Complete (fun (j : Snapshot texts) cursor =>
        listChunks texts documentId limit j.catalog cursor) PreparedChunk.chunkIndex
      (fun j => ((servedRevision documentId j.catalog).map fun r => r.content.chunks).getD [])
      fun j => (servedRevision documentId j.catalog).map PreparedRevision.id = some revisionId := by
  have hvalid : ∀ (j : Snapshot texts) r, servedRevision documentId j.catalog = some r →
      texts.uuid.valid r.id ∧ (r.content.chunks.map PreparedChunk.chunkIndex).Nodup := by
    intro j r hr
    obtain ⟨d,hd,hserved⟩ := Option.bind_eq_some_iff.1 hr
    split at hserved
    · obtain ⟨hid,hchunks,-⟩ := j.revisions_valid d (Catalog.mem_of_document? hd) r
        (latestSealedRevision_mem hserved)
      exact ⟨hid,hchunks⟩
    · cases hserved
  have hpaginates : Paginates (fun (j : Snapshot texts) cursor =>
        listChunks texts documentId limit j.catalog cursor) limit PreparedChunk.chunkIndex
      (chunkPosition texts revisionId)
      (fun j => ((servedRevision documentId j.catalog).map fun r => r.content.chunks).getD [])
      (fun j => (servedRevision documentId j.catalog).map PreparedRevision.id = some revisionId)
      (fun _ => texts.uuid.valid revisionId) :=
    { positive := hlimit.1
      keys := fun j hj => by
        obtain ⟨r,hr,-⟩ := Option.map_eq_some_iff.1 hj
        rw [hr]
        exact (hvalid j r hr).2
      rows_known := fun j hj _ _ => by
        obtain ⟨r,hr,rfl⟩ := Option.map_eq_some_iff.1 hj
        exact (hvalid j r hr).1
      page := fun j hj after hknown => by
        obtain ⟨r,hr,rfl⟩ := Option.map_eq_some_iff.1 hj
        rw [listChunks_served hlimit hr, hr]
        cases after with
        | none => exact congrArg Except.ok (selectPage_eq rfl fun x _ => rfl)
        | some index =>
          simp only [Option.map_some, given_chunkPosition (hknown index rfl),
            chunkPageStart_chunkPosition (hknown index rfl), if_true]
          exact congrArg Except.ok (selectPage_eq rfl fun x _ => rfl)
      refused := fun j hj index hknown => by
        cases hr : servedRevision documentId j.catalog with
        | none => exact listChunks_unserved hr _
        | some r =>
          have hne : ¬ revisionId = r.id := fun he => hj (by rw [hr, Option.map_some, he])
          refine ⟨invalidCursor,?_⟩
          rw [listChunks_served hlimit hr]
          simp only [given_chunkPosition hknown, chunkPageStart_chunkPosition hknown, if_neg hne]
          rfl }
  exact hpaginates.complete

end Chunks

/-! ### Candidates -/

section Candidates
variable {texts : Texts} {limit : ℕ} {documentId revisionId : Uuid}
  {candidates : List PreparedCandidate}

/-- A candidate row as its columns allow it. -/
def storedCandidate (texts : Texts) (x : PreparedCandidate) : Prop :=
  texts.uuid.valid x.id ∧ 1 ≤ x.rank ∧ x.rank < 2 ^ 31

def rankPosition (texts : Texts) (candidates : List PreparedCandidate) (x : PreparedCandidate) :
    ℕ := (sortedCandidates texts candidates).idxOf x

/-- The cursor of the candidate at a position. -/
def candidateCursorAt (texts : Texts) (revisionId : Uuid) (candidates : List PreparedCandidate)
    (n : ℕ) : String :=
  match (sortedCandidates texts candidates)[n]? with
  | none => ""
  | some x => candidateCursor texts revisionId x

theorem mem_sortedCandidates {x : PreparedCandidate} :
    x ∈ sortedCandidates texts candidates ↔ x ∈ candidates := List.mem_insertionSort _

theorem sortedCandidates_nodup (h : (candidates.map PreparedCandidate.id).Nodup) :
    ((sortedCandidates texts candidates).map PreparedCandidate.id).Nodup :=
  (((List.perm_insertionSort _ _).map PreparedCandidate.id).nodup_iff).2 h

/-- The payload that a candidate cursor carries. -/
theorem decodePayload_candidate {x : PreparedCandidate} (hx : storedCandidate texts x)
    (hrevision : texts.uuid.valid revisionId) :
    decodePayload ["kind","revision_id","rank","id"] (candidateCursor texts revisionId x) =
      .ok (candidatePayload texts revisionId x) := by
  obtain ⟨hid,-,hrank⟩ := hx
  have hpayload : (candidatePayload texts revisionId x).Plain := by
    intro m hm
    simp only [candidatePayload, List.mem_cons, List.not_mem_nil, or_false] at hm
    rcases hm with rfl | rfl | rfl | rfl | rfl
    · exact ⟨plain_of_ascii (s := "id") (by decide),texts.uuid.plain _ hid⟩
    · exact ⟨plain_of_ascii (s := "kind") (by decide),
        plain_of_ascii (s := "preflight") (by decide)⟩
    · exact ⟨plain_of_ascii (s := "rank") (by decide),trivial⟩
    · exact ⟨plain_of_ascii (s := "revision_id") (by decide),texts.uuid.plain _ hrevision⟩
    · exact ⟨plain_of_ascii (s := "v") (by decide),trivial⟩
  have hshort : (candidateCursor texts revisionId x).length ≤ 2048 := by
    have hlen : 3 * (candidateCursor texts revisionId x).length ≤ _ :=
      length_encodeCursor (candidatePayload texts revisionId x)
    simp only [candidatePayload, dumps, renderMembers, renderMember, Field.render, List.length_append,
      List.length_cons, length_quoted] at hlen
    have h₁ : "id".length = 2 := rfl
    have h₂ : "kind".length = 4 := rfl
    have h₃ : "preflight".length = 9 := rfl
    have h₄ : "rank".length = 4 := rfl
    have h₅ : "revision_id".length = 11 := rfl
    have h₆ : "v".length = 1 := rfl
    have h₇ : (Nat.toDigits 10 1).length = 1 := rfl
    have h₈ : (Nat.toDigits 10 x.rank).length ≤ 40 := by
      rw [Nat.length_toDigits_le_iff (by decide) (by decide)]
      exact hrank.trans (by decide)
    have h₉ := texts.uuid.length_le _ hid
    have h₁₀ := texts.uuid.length_le _ hrevision
    simp only [h₁, h₂, h₃, h₄, h₅, h₆, h₇, List.length_nil] at hlen
    omega
  simp only [decodePayload, bind_eq_ok, require_eq_ok, orRaise_eq_ok, exists_const, pure_eq_ok]
  exact ⟨⟨encodeCursor_ne_empty hpayload (List.cons_ne_nil _ _),hshort⟩,_,
    decodeCursor_encodeCursor hpayload (List.cons_ne_nil _ _),⟨by rfl,by rfl⟩,rfl⟩

/-- The page after a candidate starts behind it, in the revision that its cursor names. -/
theorem candidatePageStart_cursor {x : PreparedCandidate} (hx : storedCandidate texts x)
    {named : Uuid} (hnamed : texts.uuid.valid named) (rows : List PreparedCandidate) :
    candidatePageStart texts revisionId rows (some (candidateCursor texts named x)) =
      if named = revisionId then
        orRaise ((rows.findIdx? fun y => y.id = x.id && y.rank = x.rank).map (· + 1))
          invalidCursor
      else .error invalidCursor := by
  have hnamed' : fieldText (candidatePayload texts named x) "revision_id" =
      some (texts.uuid.str named) := rfl
  have hid : fieldText (candidatePayload texts named x) "id" = some (texts.uuid.str x.id) := rfl
  have hrank : fieldText (candidatePayload texts named x) "rank" = some (decimalText x.rank) := rfl
  have hkind : (candidatePayload texts named x).lookup "kind" = some (.str "preflight") := rfl
  simp only [candidatePageStart, decodePayload_candidate hx hnamed, bind, Except.bind, fieldInt,
    hnamed', hid, hrank, Option.bind_some, texts.uuid.parse_str _ hnamed,
    texts.uuid.parse_str _ hx.1, decimal_decimalText, orRaise]
  by_cases hsame : named = revisionId
  · have hbinding : (candidatePayload texts named x).lookup "kind" = some (.str "preflight") ∧
        named = revisionId ∧ 1 ≤ x.rank := ⟨hkind,hsame,hx.2.1⟩
    simp only [require_pos hbinding, if_pos hsame]
    cases rows.findIdx? fun y => y.id = x.id && y.rank = x.rank <;> rfl
  · have hbinding : ¬ ((candidatePayload texts named x).lookup "kind" =
        some (.str "preflight") ∧ named = revisionId ∧ 1 ≤ x.rank) := fun h => hsame h.2.1
    simp only [require_neg hbinding, if_neg hsame]

/-- A request for candidates once the limit is accepted. -/
theorem getPreflight_served (hlimit : 1 ≤ limit ∧ limit ≤ 100) {c : Catalog}
    {r : PreparedRevision} (hr : preflightRevision documentId c = .ok r)
    (cursor : Option String) :
    getPreflight texts documentId limit c cursor = (do
      let start ← candidatePageStart texts r.id
        (sortedCandidates texts r.content.candidates) cursor
      pure (slicePage limit (candidateCursor texts r.id)
        (sortedCandidates texts r.content.candidates) start)) := by
  simp only [getPreflight, validateLimit_ok hlimit, hr, bind, Except.bind]

theorem map_rankPosition (h : (candidates.map PreparedCandidate.id).Nodup) :
    (sortedCandidates texts candidates).map (rankPosition texts candidates) =
      List.range (sortedCandidates texts candidates).length :=
  map_idxOf (List.Nodup.of_map _ (sortedCandidates_nodup h))

theorem candidateCursorAt_position {x : PreparedCandidate}
    (hx : x ∈ sortedCandidates texts candidates) : candidateCursor texts revisionId x =
      candidateCursorAt texts revisionId candidates (rankPosition texts candidates x) := by
  have hget : (sortedCandidates texts candidates)[rankPosition texts candidates x]? = some x :=
    List.getElem?_idxOf hx
  simp only [candidateCursorAt, hget]

theorem getPreflight_complete (hlimit : 1 ≤ limit ∧ limit ≤ 100) (documentId revisionId : Uuid)
    (candidates : List PreparedCandidate) :
    Complete (fun (j : {j : Snapshot texts // ∀ r, preflightRevision documentId j.catalog = .ok r →
          r.id = revisionId → r.content.candidates = candidates}) cursor =>
        getPreflight texts documentId limit j.1.catalog cursor) (rankPosition texts candidates)
      (fun _ => sortedCandidates texts candidates)
      fun j => ∃ r, preflightRevision documentId j.1.catalog = .ok r ∧ r.id = revisionId ∧
        r.content.candidates = candidates := by
  have hvalid : ∀ (j : Snapshot texts) r, preflightRevision documentId j.catalog = .ok r →
      texts.uuid.valid r.id ∧ (r.content.candidates.map PreparedCandidate.id).Nodup ∧
      ∀ x, x ∈ r.content.candidates → storedCandidate texts x := by
    intro j r hr
    simp only [preflightRevision, bind_eq_ok, orRaise_eq_ok] at hr
    obtain ⟨d,hd,-,-,hr⟩ := hr
    obtain ⟨hid,-,hnodup,hstored⟩ := j.revisions_valid d (Catalog.mem_of_document? hd) r
      (latestSealedRevision_mem hr)
    exact ⟨hid,hnodup,hstored⟩
  have hpaginates : Paginates
      (fun (j : {j : Snapshot texts // ∀ r, preflightRevision documentId j.catalog = .ok r →
          r.id = revisionId → r.content.candidates = candidates}) cursor =>
        getPreflight texts documentId limit j.1.catalog cursor) limit
      (rankPosition texts candidates) (candidateCursorAt texts revisionId candidates)
      (fun _ => sortedCandidates texts candidates)
      (fun j => ∃ r, preflightRevision documentId j.1.catalog = .ok r ∧ r.id = revisionId ∧
        r.content.candidates = candidates)
      (fun n => texts.uuid.valid revisionId ∧ ∃ x, storedCandidate texts x ∧
        (sortedCandidates texts candidates)[n]? = some x) :=
    { positive := hlimit.1
      keys := fun j hj => by
        obtain ⟨r,hr,-,rfl⟩ := hj
        rw [map_rankPosition (hvalid j.1 r hr).2.1]
        exact List.nodup_range
      rows_known := fun j hj x hx => by
        obtain ⟨r,hr,rfl,rfl⟩ := hj
        obtain ⟨hid,-,hstored⟩ := hvalid j.1 r hr
        exact ⟨hid,x,hstored x (mem_sortedCandidates.1 hx),List.getElem?_idxOf hx⟩
      page := fun j hj after hknown => by
        obtain ⟨r,hr,rfl,rfl⟩ := hj
        obtain ⟨-,hnodup,-⟩ := hvalid j.1 r hr
        rw [← slicePage_eq (map_rankPosition hnodup) fun x hx => candidateCursorAt_position hx,
          getPreflight_served hlimit hr]
        cases after with
        | none => rfl
        | some n =>
          obtain ⟨hrevision,x,hx,hget⟩ := hknown n rfl
          have hposition := findIdx?_position
            (p := fun y => y.id = x.id && y.rank = x.rank) hget (by simp) (fun y hy hyx => by
              simp only [Bool.and_eq_true, decide_eq_true_eq] at hyx
              exact List.inj_on_of_nodup_map (sortedCandidates_nodup hnodup) hy
                (List.mem_of_getElem? hget) hyx.1)
            (List.Nodup.of_map _ (sortedCandidates_nodup hnodup))
          have hcursor : candidateCursorAt texts r.id r.content.candidates n =
              candidateCursor texts r.id x := by
            simp only [candidateCursorAt, hget]
          simp only [Option.map_some, hcursor, candidatePageStart_cursor hx hrevision, if_true,
            hposition]
          rfl
      refused := fun j hj n hknown => by
        obtain ⟨hrevision,x,hx,hget⟩ := hknown
        cases hr : preflightRevision documentId j.1.catalog with
        | error e =>
          refine ⟨e,?_⟩
          simp only [getPreflight, validateLimit_ok hlimit, hr, bind, Except.bind]
        | ok r =>
          have hne : ¬ revisionId = r.id := fun he => hj ⟨r,hr,he.symm,j.2 r hr he.symm⟩
          have hcursor : candidateCursorAt texts revisionId candidates n =
              candidateCursor texts revisionId x := by
            simp only [candidateCursorAt, hget]
          refine ⟨invalidCursor,?_⟩
          rw [getPreflight_served hlimit hr, hcursor, candidatePageStart_cursor hx hrevision,
            if_neg hne]
          rfl }
  exact hpaginates.complete

end Candidates

end Listing
end PdfBridge
