import PdfBridge.Lifecycle.Listing
import PdfBridge.Services.IssuedCursors

/-! Hostile cursors of the six lists, and a date at the beginning of the calendar. -/
namespace PdfBridge
namespace Cursors
open Json Unicode Intake Keyset Listing Lifecycle
open Api (terminalState)

/-- A request ends in a page or in a refusal of its cursor exactly when the cursor raises nothing
that its decoder leaves uncaught: no nesting beyond the stack, no date that leaves the calendar in
UTC, no infinite index or rank, and no integer beyond 64 bits. A cursor is accepted for one
revision only, and an issued one for its own. -/
theorem hostile_cursors (texts : Texts) (lib : Library texts) :
    (∀ s collectionKey state limit c cursor,
      Clean (Coordinator.listDocuments lib s collectionKey state limit c) cursor ↔
        (Coordinator.documentRequest s collectionKey limit = .ok () →
          state.any terminalState = false → cursor ≠ [] → cursor.length ≤ 500 →
            ¬ TimestampHazard lib (uuidIdentifier lib) cursor)) ∧
    (∀ documentId limit c cursor, Clean (listChunks lib documentId limit c) cursor ↔
      ∀ r, chunkRequest documentId limit c = .ok r → cursor ≠ [] →
        ¬ ChunkHazard lib r.id cursor) ∧
    (∀ documentId limit j cursor, Clean (listEvents lib documentId limit j) cursor ↔
      (eventRequest documentId limit j = .ok () → cursor ≠ [] → cursor.length ≤ 500 →
        ¬ EventHazard lib cursor)) ∧
    (∀ s collectionKey disposition limit j cursor,
      Clean (Coordinator.listHistory lib s collectionKey disposition limit j) cursor ↔
        (Coordinator.historyRequest s collectionKey limit = .ok () → cursor ≠ [] →
          cursor.length ≤ 500 →
          ¬ TimestampHazard lib (uuidIdentifier lib) cursor)) ∧
    (∀ documentId limit c cursor, Clean (getPreflight lib documentId limit c) cursor ↔
      ∀ r, candidateRequest documentId limit c = .ok r → cursor ≠ [] → cursor.length ≤ 2048 →
        ¬ CandidateHazard lib cursor) ∧
    (∀ s limit c cursor, Clean (listCollections lib s limit c) cursor ↔
      (validateLimit limit = .ok () → cursor ≠ [] → cursor.length ≤ 2048 →
        opened lib cursor ≠ .error .recursion)) ∧
    (∀ cursor u w, cursor ≠ [] → ChunkAccepted lib cursor u → ChunkAccepted lib cursor w →
      u = w) ∧
    (∀ cursor u w, PreflightAccepted lib cursor u → PreflightAccepted lib cursor w → u = w) ∧
    (∀ u x w, texts.uuid.valid u → x.chunkIndex < 2 ^ 31 →
      ChunkAccepted lib (str (chunkCursor texts u x)) w → w = u) ∧
    (∀ u x w, texts.uuid.valid u → storedCandidate texts x →
      PreflightAccepted lib (str (candidateCursor texts u x)) w → w = u) := by
  refine ⟨fun _ _ _ _ _ _ => Coordinator.clean_listDocuments,fun _ _ _ _ => clean_listChunks,
    fun _ _ _ _ => clean_listEvents,fun _ _ _ _ _ _ => Coordinator.clean_listHistory,
    fun _ _ _ _ => clean_getPreflight,fun _ _ _ _ => clean_listCollections,?_,?_,?_,?_⟩
  · intro cursor u w hne hu hw
    exact (hu.names hne).unique (hw.names hne)
  · intro cursor u w hu hw
    exact hu.names.unique hw.names
  · intro u x w hu hx hw
    exact (hw.names (chunkCursor_ne_nil lib hu hx)).unique (names_chunkCursor hu hx)
  · intro u x w hu hx hw
    exact hw.names.unique (names_candidateCursor hu hx)

/-! ### A small library -/

/-- The text of one value. -/
def singleText {α : Type} [DecidableEq α] (a : α) (text : String) (hplain : Codec.Plain text)
    (hlength : text.length ≤ 40) : TextForm α where
  valid x := x = a
  str _ := text
  parse s := if s = text then some a else none
  parse_str x hx := by rw [if_pos rfl, hx]
  plain _ _ := hplain
  length_le _ _ := hlength

def sampleUuidText : String := "00000000-0000-4000-8000-000000000002"

def sampleTexts : Texts where
  uuid := singleText (uuid4 2 0) sampleUuidText (plain_of_ascii (by decide)) (by decide)
  time := singleText 0 "0001-01-01T00:00:00+00:00" (plain_of_ascii (by decide)) (by decide)

def digit64 (c : CodePoint) : Option ℕ := Codec.digitOf (Char.ofNat c.val)

/-- Base64 text up to its padding. -/
def decodeUnpadded (s : Str) : Option (List UInt8) := do
  let digits ← (s.takeWhile fun c => c ≠ 61).mapM digit64
  let bytes ← Codec.octets digits
  pure (bytes.map UInt8.ofNat)

def decodeAscii (bytes : List UInt8) : Option Str :=
  bytes.mapM fun b => if b.toNat < 128 then some (Fin.ofNat 0x110000 b.toNat) else none

/-- Days before the first of each month. -/
def daysBefore : List ℕ := [0,31,59,90,120,151,181,212,243,273,304,334]

/-- The days from the beginning of year 1 to a date. -/
def dayNumber (year month day : ℕ) : ℕ :=
  let y := year - 1
  let leap := if year % 4 = 0 ∧ (year % 100 ≠ 0 ∨ year % 400 = 0) ∧ 2 < month then 1 else 0
  365 * y + y / 4 - y / 100 + y / 400 + daysBefore.getD (month - 1) 0 + leap + (day - 1)

/-- `YYYY-MM-DDTHH:MM:SS±HH:MM`. -/
def readMoment (s : Str) : Option Moment :=
  match s.length, (s.filter isDigit).map fun c => c.val - 48 with
  | 25, [y₁,y₂,y₃,y₄,m₁,m₂,d₁,d₂,h₁,h₂,n₁,n₂,s₁,s₂,a₁,a₂,b₁,b₂] =>
      let day := dayNumber (1000 * y₁ + 100 * y₂ + 10 * y₃ + y₄) (10 * m₁ + m₂) (10 * d₁ + d₂)
      let seconds := 86400 * day + 3600 * (10 * h₁ + h₂) + 60 * (10 * n₁ + n₂) + (10 * s₁ + s₂)
      let shift := 3600 * (10 * a₁ + a₂) + 60 * (10 * b₁ + b₂)
      let offset : ℤ := if s[19]? = some minus then -(shift * 1000000) else shift * 1000000
      if h : 0 ≤ (seconds * 1000000 : ℤ) ∧ (seconds * 1000000 : ℤ) < calendarEnd then
        some ⟨_,some offset,h⟩
      else none
  | _, _ => none

theorem digit64_digitChar :
    ∀ d, d < 64 → digit64 (codePoint (Codec.digitChar d)) = some d ∧
      codePoint (Codec.digitChar d) ≠ 61 := by decide

theorem mapM_digit64 {l : List ℕ} (h : ∀ d, d ∈ l → d < 64) :
    ((l.map Codec.digitChar).map codePoint).mapM digit64 = some l := by
  induction l with
  | nil => rfl
  | cons d l ih =>
    rw [List.map_cons, List.map_cons, List.mapM_cons,
      (digit64_digitChar d (h d List.mem_cons_self)).1,
      ih fun x hx => h x (List.mem_cons_of_mem _ hx)]
    rfl

theorem decodeUnpadded_encode64 {text : List Char} (htext : Codec.Ascii text) (n : ℕ) :
    decodeUnpadded (str (Codec.encode64 text) ++ List.replicate n 61) =
      some (text.map fun c => UInt8.ofNat c.toNat) := by
  have hbytes : ∀ a, a ∈ text.map Char.toNat → a < 256 := by
    intro a ha
    obtain ⟨c,hc,rfl⟩ := List.mem_map.1 ha
    have := htext c hc
    omega
  have hdigits := Codec.sextets_lt _ hbytes
  have hplain : ∀ c, c ∈ ((Codec.sextets (text.map Char.toNat)).map Codec.digitChar).map
      codePoint → decide (c ≠ 61) = true := by
    intro c hc
    rw [List.map_map] at hc
    obtain ⟨d,hd,rfl⟩ := List.mem_map.1 hc
    simpa using (digit64_digitChar d (hdigits d hd)).2
  have hpad : (List.replicate n (61 : CodePoint)).takeWhile (fun c => c ≠ 61) = [] := by
    cases n <;> simp [List.replicate_succ]
  rw [decodeUnpadded, str, Codec.encode64, String.toList_ofList,
    List.takeWhile_append_of_pos hplain, hpad, List.append_nil, mapM_digit64 hdigits]
  simp only [Option.bind_eq_bind, Option.bind_some, Codec.octets_sextets _ hbytes,
    Option.pure_def, List.map_map]
  rfl

theorem decodeAscii_ascii {text : List Char} (htext : Codec.Ascii text) :
    decodeAscii (text.map fun c => UInt8.ofNat c.toNat) = some (text.map codePoint) := by
  induction text with
  | nil => rfl
  | cons c text ih =>
    have hc := htext c List.mem_cons_self
    have hval : (UInt8.ofNat c.toNat).toNat = c.toNat := by
      rw [UInt8.toNat_ofNat']
      exact Nat.mod_eq_of_lt (by omega)
    have hrest := ih fun x hx => htext x (List.mem_cons_of_mem _ hx)
    rw [decodeAscii] at hrest ⊢
    rw [List.map_cons, List.mapM_cons, hval, if_pos hc, hrest]
    rfl

def sampleUuid (s : Str) : Option Uuid :=
  if s = str sampleUuidText then some (uuid4 2 0) else none

theorem sampleUuid_text : sampleUuid (str sampleUuidText) = some (uuid4 2 0) := by
  rw [sampleUuid, if_pos rfl]

/-- Conversions that agree with the standard library on the texts below. -/
def sampleLibrary : Library sampleTexts where
  py := fractions (some 4300) (some 1000)
  urlsafeB64decode := decodeUnpadded
  decodeUtf8 := decodeAscii
  repr _ := some []
  fromisoformat := readMoment
  uuid := sampleUuid
  int s := if isInteger s then some (intOf s) else none
  isdecimal s := s ≠ [] && s.all isDigit
  decode_encode64 _ h := decodeUnpadded_encode64 h _
  decode_ascii _ h := decodeAscii_ascii h
  uuid_str u hu := by
    have hu' : u = uuid4 2 0 := hu
    rw [hu']
    exact sampleUuid_text
  printable _ _ := by
    have hall : sampleUuidText.toList.all (fun c => 32 ≤ c.toNat) = true := by decide
    exact fun c hc => of_decide_eq_true (List.all_eq_true.1 hall c hc)
  digits_limit := by decide
  stack_limit := by decide

/-- The second page of the chunks is served, and its cursor is bound to its revision; the empty
cursor begins a list of documents. -/
theorem hostile_cursors_sample :
    ChunkAccepted sampleLibrary (str (chunkCursor sampleTexts (uuid4 2 0) (pagedChunk 0)))
        (uuid4 2 0) ∧ uuid4 2 0 = uuid4 2 0 ∧
      Clean (Coordinator.listDocuments sampleLibrary booksSettings books none 10
        Catalog.empty) [] := by
  have hrequest : chunkRequest (uuid4 1 0) 1 pagedCatalog = .ok pagedRevision := by rfl
  have haccepted : ChunkAccepted sampleLibrary
      (str (chunkCursor sampleTexts (uuid4 2 0) (pagedChunk 0))) (uuid4 2 0) := by
    have hposition : chunkPosition sampleLibrary pagedRevision.id
        (some (str (chunkCursor sampleTexts pagedRevision.id (pagedChunk 0)))) =
          .ok ((pagedChunk 0).chunkIndex : ℤ) := chunkPosition_issued rfl (by decide)
    exact ⟨uuid4 1 0,1,pagedCatalog,pagedRevision,_,hrequest,rfl,attempt_bind_ok.2
      ⟨_,served_eq_ok.2 hrequest,attempt_bind_ok.2 ⟨_,hposition,rfl⟩⟩⟩
  obtain ⟨hdocuments,-,-,-,-,-,hunique,-,hissued,-⟩ := hostile_cursors sampleTexts sampleLibrary
  exact ⟨haccepted,hissued _ _ _ rfl (by decide) haccepted,
    (hdocuments _ _ _ _ _ _).2 fun _ _ hne => absurd rfl hne⟩

/-! ### The first hour of the calendar -/

/-- One hour after the beginning of year 1 at an offset of one hour is before it in UTC. -/
def firstHourPayload : Codec.Payload :=
  [("id",.str sampleUuidText),("t",.str "0001-01-01T00:00:00+01:00"),("v",.int 1)]

def firstHourCursor : Str := str (Codec.encodeCursor firstHourPayload)

theorem firstHour_hazard :
    TimestampHazard sampleLibrary (uuidIdentifier sampleLibrary) firstHourCursor := by
  have hwritable : Writable firstHourPayload := by
    intro m hm
    simp only [firstHourPayload, List.mem_cons, List.not_mem_nil, or_false] at hm
    rcases hm with rfl | rfl | rfl
    · exact ⟨printable_of_ascii (by decide),printable_of_ascii (by decide)⟩
    · exact ⟨printable_of_ascii (by decide),printable_of_ascii (by decide)⟩
    · exact ⟨printable_of_ascii (by decide),Nat.one_lt_pow (by decide) (by decide)⟩
  have hnodup : ((payloadMembers firstHourPayload).map Prod.fst).Nodup := by
    simp only [firstHourPayload, payloadMembers, List.map_cons, List.map_nil]
    decide
  have hopened : opened sampleLibrary firstHourCursor =
      .ok (.object (payloadMembers firstHourPayload)) :=
    opened_issued hwritable (List.cons_ne_nil _ _) hnodup
  have hnames : hasNames [versionKey,timeKey,idKey] (payloadMembers firstHourPayload) = true := by
    rw [hasNames_eq]
    simp only [firstHourPayload, payloadMembers, List.map_cons, List.map_nil]
    decide
  have h₁ : (timeKey == str "id") = false := by decide
  have h₂ : (timeKey == str "t") = true := by decide
  have h₃ : (idKey == str "id") = true := by decide
  have h₄ : (versionKey == str "id") = false := by decide
  have h₅ : (versionKey == str "t") = false := by decide
  have h₆ : (versionKey == str "v") = true := by decide
  have htime : (payloadMembers firstHourPayload).lookup timeKey =
      some (.str (str "0001-01-01T00:00:00+01:00")) := by
    simp only [firstHourPayload, payloadMembers, List.map_cons, List.lookup_cons, h₁, h₂,
      fieldValue]
  have hid : (payloadMembers firstHourPayload).lookup idKey = some (.str (str sampleUuidText)) := by
    simp only [firstHourPayload, payloadMembers, List.map_cons, List.lookup_cons, h₃, fieldValue]
  have hversion : (payloadMembers firstHourPayload).lookup versionKey = some (.int 1) := by
    simp only [firstHourPayload, payloadMembers, List.map_cons, List.lookup_cons, h₄, h₅, h₆,
      fieldValue]
    rfl
  obtain ⟨moment,hread,hmicros,hoffset⟩ : ∃ moment,
      readMoment (replaceZulu (str "0001-01-01T00:00:00+01:00")) = some moment ∧
        moment.micros = 0 ∧ moment.offset = some 3600000000 :=
    ⟨⟨0,some 3600000000,by decide⟩,by decide +kernel,rfl,rfl⟩
  have hnamed : uuidIdentifier sampleLibrary (str sampleUuidText) = .ok (uuid4 2 0) :=
    raiseOn_eq_ok.2 sampleUuid_text
  have hone : ((payloadMembers firstHourPayload).lookup versionKey).any equalsOne = true := by
    rw [hversion]
    rfl
  have htext : HasText sampleLibrary (payloadMembers firstHourPayload) timeKey
      (str "0001-01-01T00:00:00+01:00") := ⟨_,htime,rfl⟩
  have hidText : HasText sampleLibrary (payloadMembers firstHourPayload) idKey
      (str sampleUuidText) := ⟨_,hid,rfl⟩
  have hout : ¬ (0 ≤ moment.micros - 3600000000 ∧ moment.micros - 3600000000 < calendarEnd) := by
    rw [hmicros]
    decide
  have hreader : sampleLibrary.fromisoformat = readMoment := rfl
  rw [← hreader] at hread
  have hmoment : HasMoment sampleLibrary (payloadMembers firstHourPayload) moment 3600000000 :=
    ⟨_,htext,hread,hoffset⟩
  have hcarries : Carries sampleLibrary [versionKey,timeKey,idKey] firstHourCursor
      (payloadMembers firstHourPayload) := ⟨hopened,hnames,hone⟩
  exact .calendar hcarries hmoment hidText hnamed hout

/-- A list of documents fails on a cursor whose date leaves the calendar in UTC. -/
theorem firstHour_escapes :
    ¬ Clean (Coordinator.listDocuments sampleLibrary booksSettings books none 10 Catalog.empty)
      firstHourCursor := by
  intro hclean
  refine Coordinator.clean_listDocuments.1 hclean (by rfl) (by rfl) ?_ ?_ firstHour_hazard
  · decide
  · decide

end Cursors
end PdfBridge
