import Mathlib.Data.List.Dedup
import PdfBridge.Services.Fidelity

/-! A formatting run: pages are sliced and packed into requests within the served token budget,
each request is attempted until a response validates, and the validated slices are assembled to
pages. -/
namespace PdfBridge
namespace MarkdownFormatter
open Unicode

/-! ### The provider -/

structure FormatterConfig where
  modelId : Str
  expectedTokenizerClass : Str
  maxInputTokens : ℕ
  maxOutputTokens : ℕ
  tokenSafetyReserve : ℕ
  maxPagesPerRequest : ℕ
  maxAttempts : ℕ
  input_pos : 0 < maxInputTokens
  output_pos : 0 < maxOutputTokens
  pages_pos : 0 < maxPagesPerRequest
  attempts_pos : 0 < maxAttempts

/-- A response whose status is no `int`, or whose body is no JSON, has none. -/
inductive Reply where
  | failed
  | response (statusCode : Option ℤ) (body : Option Json)

inductive TokenizeBody where
  | messages (pages : List ExpectedPage)
  | prompt (text : Str)

structure ChatBody where
  model : Str
  maxTokens : ℕ
  pages : List ExpectedPage

/-- The served tokenizer answers equal requests equally; completions may differ from attempt to
attempt. -/
structure Provider where
  tokenizerInfo : Reply
  tokenize : TokenizeBody → Reply
  complete : ℕ → ℕ → ChatBody → Reply

/-- `_AttemptRejected`, raised for a reply or for the content of a completion. -/
inductive Rejection where
  | provider (code diagnostic : String)
  | output (code : RejectionCode) (responseSha256 : Digest) (projections : List ProjectionCheck)
deriving DecidableEq

structure FormatterAttempt where
  batchIndex : ℕ
  attemptNumber : ℕ
  valid : Bool
  rejection : Option Rejection
  responseSha256 : Option Digest
  projections : List ProjectionCheck

/-- An attempt with the request it sent. -/
structure SentAttempt where
  request : ChatBody
  attempt : FormatterAttempt

inductive RunError where
  | pages (e : MarkdownFormattingError)
  | formatting (message : String)
  | batch (batchIndex : ℕ) (attempts : List SentAttempt)
  | assertion (message : String)
  | recursion

/-- `_request_json`. -/
def requestJson (path : String) (reply : Reply) : Except Rejection Json :=
  match reply with
  | .failed => .error (.provider "provider_unavailable" ("formatter " ++ path ++ " request failed"))
  | .response none _ =>
      .error (.provider "provider_protocol" ("formatter " ++ path ++ " returned no HTTP status"))
  | .response (some status) body =>
      if status < 200 ∨ 300 ≤ status then
        .error (.provider "provider_status"
          ("formatter " ++ path ++ " returned HTTP " ++ toString status))
      else
        match body with
        | some payload => .ok payload
        | none => .error (.provider "provider_json"
            ("formatter " ++ path ++ " did not return valid JSON"))

def Rejection.toRunError : Rejection → RunError
  | .provider _ diagnostic => .formatting diagnostic
  | .output _ _ _ => .formatting ""

/-- `payload.get("model") or payload.get("model_id")` names another model. -/
def reportsOther (config : FormatterConfig) (fields : List (Str × Json)) : Bool :=
  let model := Json.get? fields "model"
  match if model.truthy then model else Json.get? fields "model_id" with
  | .null => false
  | .str s => s ≠ config.modelId
  | _ => true

def tokenizerIdentity (config : FormatterConfig) (reply : Reply) : Except RunError Str :=
  match requestJson "/tokenizer_info" reply with
  | .error r => .error r.toRunError
  | .ok (.obj fields) =>
      match Json.get? fields "tokenizer_class" with
      | .str tokenizerClass =>
          if isBlank tokenizerClass then
            .error (.formatting "formatter /tokenizer_info omitted the tokenizer class")
          else if reportsOther config fields then
            .error (.formatting "formatter /tokenizer_info reported a different model")
          else if tokenizerClass ≠ config.expectedTokenizerClass then
            .error (.formatting "formatter /tokenizer_info reported a different tokenizer class")
          else .ok tokenizerClass
      | _ => .error (.formatting "formatter /tokenizer_info omitted the tokenizer class")
  | .ok _ => .error (.formatting "formatter /tokenizer_info returned a non-object")

/-! ### The token budget -/

structure Tokenization where
  count : ℕ
  maxModelLen : ℕ
  tokens : List ℕ

def strictNat : Json → Option ℕ
  | .int z => if 0 ≤ z then some z.toNat else none
  | _ => none

def tokenList : List Json → Option (List ℕ)
  | [] => some []
  | v :: vs =>
      match strictNat v, tokenList vs with
      | some token, some tokens => some (token :: tokens)
      | _, _ => none

/-- `_parse_tokenization` up to the comparison of context windows. -/
def readTokenization (config : FormatterConfig) (reply : Reply) : Except RunError Tokenization :=
  match requestJson "/tokenize" reply with
  | .error r => .error r.toRunError
  | .ok (.obj fields) =>
      match strictNat (Json.get? fields "count"), strictNat (Json.get? fields "max_model_len"),
          Json.get? fields "tokens" with
      | some count, some maxModelLen, .arr values =>
          match tokenList values with
          | some tokens =>
              if maxModelLen = 0 ∨ tokens.length ≠ count then
                .error (.formatting "formatter /tokenize returned an invalid token count")
              else if reportsOther config fields then
                .error (.formatting "formatter /tokenize reported a different model")
              else .ok ⟨count,maxModelLen,tokens⟩
          | none => .error (.formatting "formatter /tokenize returned an invalid token count")
      | _, _, _ => .error (.formatting "formatter /tokenize returned an invalid token count")
  | .ok _ => .error (.formatting "formatter /tokenize returned a non-object")

/-- Work with the context window that the provider has reported so far. -/
abbrev Budgeted := StateT (Option ℕ) (Except RunError)

def raise {α : Type} (e : RunError) : Budgeted α := fun _ => .error e

/-- `_parse_tokenization`: the first reported window is kept, another one is refused. -/
def parseTokenization (config : FormatterConfig) (reply : Reply) : Budgeted Tokenization :=
  fun state =>
    match readTokenization config reply with
    | .error e => .error e
    | .ok t =>
        match state with
        | none => .ok (t,some t.maxModelLen)
        | some m =>
            if m = t.maxModelLen then .ok (t,some m)
            else .error (.formatting "formatter context window changed during formatting")

section
variable (lib : Library) (config : FormatterConfig) (provider : Provider)

def tokenCount (slices : List SourceSlice) : Budgeted ℕ := do
  let t ← parseTokenization config (provider.tokenize (.messages (groupSlices slices)))
  pure t.count

def rawTokenIds (text : Str) : Budgeted (List ℕ) := do
  let t ← parseTokenization config (provider.tokenize (.prompt text))
  pure t.tokens

def fitsBudget (slices : List SourceSlice) : Budgeted Bool := do
  let count ← tokenCount config provider slices
  match ← get with
  | none => raise (.assertion "")
  | some maxModelLen =>
      pure (count ≤ config.maxInputTokens &&
        count + config.maxOutputTokens + config.tokenSafetyReserve ≤ maxModelLen)

/-! ### Slices -/

def sourceSlice (pageNumber sliceIndex : ℕ) (text : Str) : SourceSlice :=
  ⟨pageNumber,sliceIndex,text,lib.sha256 text⟩

/-- The search of both prefix functions; the last position is `limit - 1`. -/
def bisect (fits : ℕ → Budgeted Bool) (low limit best : ℕ) : Budgeted ℕ :=
  if low < limit then do
    let middle := (low + (limit - 1)) / 2
    if ← fits middle then bisect fits (middle + 1) limit middle
    else bisect fits low middle best
  else pure best
termination_by limit - low

/-- `s.splitlines(keepends=True)`. -/
def splitlinesKeepends : Str → List Str
  | [] => []
  | [c] => [[c]]
  | c :: c' :: s =>
      if isLineBreak c then
        if c = 13 ∧ c' = newline then [c,c'] :: splitlinesKeepends s
        else [c] :: splitlinesKeepends (c' :: s)
      else consLine c (splitlinesKeepends (c' :: s))

omit lib config provider in
theorem consLine_flatten (c : CodePoint) (lines : List Str) :
    (consLine c lines).flatten = c :: lines.flatten := by
  cases lines <;> simp [consLine]

omit lib config provider in
theorem splitlinesKeepends_flatten (s : Str) : (splitlinesKeepends s).flatten = s := by
  induction s using splitlinesKeepends.induct with
  | case1 => rfl
  | case2 c => rfl
  | case3 c c' s hc hcr ih =>
    rw [splitlinesKeepends, if_pos hc, if_pos hcr]
    simp [ih]
  | case4 c c' s hc hcr ih => simp [splitlinesKeepends, hc, hcr, ih]
  | case5 c c' s hc ih =>
    rw [splitlinesKeepends, if_neg hc, consLine_flatten, ih]

omit lib config provider in
theorem splitlinesKeepends_ne_nil {s l : Str} (h : l ∈ splitlinesKeepends s) : l ≠ [] := by
  induction s using splitlinesKeepends.induct with
  | case1 => cases h
  | case2 c => simp_all [splitlinesKeepends]
  | case3 c c' s hc hcr ih =>
    rw [splitlinesKeepends, if_pos hc, if_pos hcr] at h
    rcases List.mem_cons.1 h with rfl | h
    · simp
    · exact ih h
  | case4 c c' s hc hcr ih =>
    rw [splitlinesKeepends, if_pos hc, if_neg hcr] at h
    rcases List.mem_cons.1 h with rfl | h
    · simp
    · exact ih h
  | case5 c c' s hc ih =>
    rw [splitlinesKeepends, if_neg hc] at h
    cases hlines : splitlinesKeepends (c' :: s) with
    | nil =>
      rw [hlines] at h
      simp_all [consLine]
    | cons l' lines =>
      rw [hlines, consLine] at h
      rcases List.mem_cons.1 h with rfl | h
      · simp
      · exact ih (hlines ▸ List.mem_cons_of_mem _ h)

omit lib config provider in
/-- Joining at least one line of a text gives a part of it that is not empty. -/
theorem take_lines_ne_nil {s : Str} (hs : s ≠ []) {k : ℕ} (hk : k ≠ 0) :
    ((splitlinesKeepends s).take k).flatten ≠ [] := by
  cases hlines : splitlinesKeepends s with
  | nil =>
    have h := splitlinesKeepends_flatten s
    rw [hlines] at h
    exact absurd h.symm hs
  | cons l lines =>
    obtain ⟨k,rfl⟩ := Nat.exists_eq_succ_of_ne_zero hk
    have hl := splitlinesKeepends_ne_nil (hlines ▸ List.mem_cons_self : l ∈ splitlinesKeepends s)
    simp [hl]

def largestFittingLinePrefix (pageNumber sliceIndex : ℕ) (lines : List Str) : Budgeted ℕ :=
  bisect (fun middle => fitsBudget config provider
    [sourceSlice lib pageNumber sliceIndex (lines.take middle).flatten]) 1 (lines.length + 1) 0

def largestFittingTextPrefix (pageNumber sliceIndex : ℕ) (text : Str) : Budgeted ℕ :=
  bisect (fun middle => fitsBudget config provider
    [sourceSlice lib pageNumber sliceIndex (text.take middle)]) 1 (text.length + 1) 0

/-- The loop over `range(limit, 0, -1)`. -/
def tokenBoundary (pageNumber sliceIndex : ℕ) (text : Str) (completeTokens : List ℕ) :
    ℕ → Budgeted ℕ
  | 0 => pure 0
  | b + 1 => do
      let prefixTokens ← rawTokenIds config provider (text.take (b + 1))
      if prefixTokens ≠ [] ∧ prefixTokens.length < completeTokens.length ∧
          prefixTokens = completeTokens.take prefixTokens.length then
        if ← fitsBudget config provider
            [sourceSlice lib pageNumber sliceIndex (text.take (b + 1))] then pure (b + 1)
        else tokenBoundary pageNumber sliceIndex text completeTokens b
      else tokenBoundary pageNumber sliceIndex text completeTokens b

def largestFittingTokenBoundary (pageNumber sliceIndex : ℕ) (text : Str) : Budgeted ℕ := do
  let limit ← largestFittingTextPrefix lib config provider pageNumber sliceIndex text
  if limit = 0 then pure 0
  else do
    let completeTokens ← rawTokenIds config provider text
    tokenBoundary lib config provider pageNumber sliceIndex text completeTokens limit

/-- The body of the loop in `_slice_page`: the next piece, which is not empty. -/
def nextPiece (pageNumber sliceIndex : ℕ) (remaining : Str) (h : remaining ≠ []) :
    Budgeted {piece : Str // piece ≠ []} := do
  let lineCount ← largestFittingLinePrefix lib config provider pageNumber sliceIndex
    (splitlinesKeepends remaining)
  if hl : lineCount ≠ 0 then
    pure ⟨((splitlinesKeepends remaining).take lineCount).flatten,take_lines_ne_nil h hl⟩
  else do
    let splitAt ← largestFittingTokenBoundary lib config provider pageNumber sliceIndex remaining
    if hs : splitAt ≠ 0 then
      pure ⟨remaining.take splitAt,by simp [List.take_eq_nil_iff, hs, h]⟩
    else raise (.formatting "formatter prompt overhead leaves no room for page text")

/-- The loop of `_slice_page`; every piece shortens what remains. -/
def sliceFrom (pageNumber : ℕ) (sliceIndex : ℕ) (remaining : Str) : Budgeted (List SourceSlice) :=
  if h : remaining = [] then pure []
  else do
    let piece ← nextPiece lib config provider pageNumber sliceIndex remaining h
    let slices ← sliceFrom pageNumber (sliceIndex + 1) (remaining.drop piece.1.length)
    pure (sourceSlice lib pageNumber sliceIndex piece.1 :: slices)
termination_by remaining.length
decreasing_by
  have hpiece := List.length_pos_iff.2 piece.2
  have hremaining := List.length_pos_iff.2 h
  rw [List.length_drop]
  omega

/-- An empty page has one empty slice. -/
def coverEmpty (pageNumber : ℕ) (slices : List SourceSlice) : Budgeted (List SourceSlice) :=
  if slices = [] then do
    let emptySlice := sourceSlice lib pageNumber 0 []
    if ← fitsBudget config provider [emptySlice] then pure [emptySlice]
    else raise (.formatting "formatter prompt overhead leaves no room for an empty page")
  else pure slices

def slicePage (page : SourcePage) : Budgeted (List SourceSlice) := do
  let pieces ← sliceFrom lib config provider page.pageNumber 0 page.text
  let slices ← coverEmpty lib config provider page.pageNumber pieces
  if (slices.map (·.text)).flatten = page.text then pure slices
  else raise (.assertion "formatter slicing did not preserve exact source coverage")

def wholeOrSliced (page : SourcePage) : Budgeted (List SourceSlice) := do
  let wholePage := sourceSlice lib page.pageNumber 0 page.text
  if ← fitsBudget config provider [wholePage] then pure [wholePage]
  else slicePage lib config provider page

def prepareSlices : List SourcePage → Budgeted (List SourceSlice)
  | [] => pure []
  | page :: pages => do
      let slices ← wholeOrSliced lib config provider page
      let rest ← prepareSlices pages
      pure (slices ++ rest)

/-! ### Batches -/

omit lib config provider in
/-- `_page_count`. -/
def pageCount (slices : List SourceSlice) : ℕ := (slices.map (·.pageNumber)).dedup.length

def fitsTogether (candidate : List SourceSlice) : Budgeted Bool :=
  if pageCount candidate ≤ config.maxPagesPerRequest then fitsBudget config provider candidate
  else pure false

/-- The loop of `_pack_batches` with the batch that is open. -/
def packFrom (current : List SourceSlice) :
    List SourceSlice → Budgeted (List (List SourceSlice))
  | [] => pure (if current = [] then [] else [current])
  | slice :: slices => do
      let candidate := current ++ [slice]
      if ← fitsTogether config provider candidate then packFrom candidate slices
      else do
        if ← fitsBudget config provider [slice] then do
          let batches ← packFrom [slice] slices
          pure (if current = [] then batches else current :: batches)
        else
          raise (.formatting
            "an internally prepared formatter slice exceeded the token budget")

def packBatches (slices : List SourceSlice) : Budgeted (List (List SourceSlice)) :=
  packFrom config provider [] slices

/-! ### Attempts -/

def chatBody (slices : List SourceSlice) : ChatBody :=
  ⟨config.modelId,config.maxOutputTokens,groupSlices slices⟩

/-- `_completion_content`. -/
def completionContent (reply : Reply) : Except Rejection Str := do
  match ← requestJson "/v1/chat/completions" reply with
  | .obj payload =>
      match Json.get? payload "model" with
      | .null | .str _ => pure ()
      | _ => throw (.provider "completion_model" "formatter completion reported a different model")
      if (Json.get? payload "model").str?.any fun s => s ≠ config.modelId then
        throw (.provider "completion_model" "formatter completion reported a different model")
      match Json.get? payload "choices" with
      | .arr [.obj choice] =>
          if (Json.get? choice "finish_reason").str? ≠ some (str "stop") then
            throw (.provider "completion_finish_reason"
              "formatter completion did not finish with a normal stop")
          match Json.get? choice "message" with
          | .obj message =>
              if (Json.get? message "tool_calls").truthy then
                throw (.provider "completion_message"
                  "formatter completion contained a malformed message or tool call")
              match Json.get? message "content" with
              | .str content => pure content
              | _ => throw (.provider "completion_content"
                  "formatter completion content was missing")
          | _ => throw (.provider "completion_message"
              "formatter completion contained a malformed message or tool call")
      | .arr [_] => throw (.provider "completion_choice"
          "formatter completion contained a malformed choice")
      | _ => throw (.provider "completion_choices"
          "formatter completion did not contain exactly one choice")
  | _ => throw (.provider "completion_envelope" "formatter completion returned a non-object")

/-- How one attempt ends: with validated slices and the hash of their response, rejected, or with
an exception that leaves the loop. -/
def attempt (slices : List SourceSlice) (reply : Reply) :
    Except RunError (Except Rejection (List FormattedSlice × Digest)) :=
  match completionContent config reply with
  | .error r => .ok (.error r)
  | .ok content =>
      let responseSha256 := lib.sha256 content
      match validateOutput lib content slices with
      | .ok formatted => .ok (.ok (formatted,responseSha256))
      | .error (.rejected code projections) =>
          .ok (.error (.output code responseSha256 projections))
      | .error .assertion =>
          .error (.assertion "formatter request contained duplicate page slice identities")
      | .error .recursion => .error .recursion

omit lib config provider in
def Rejection.responseSha256 : Rejection → Option Digest
  | .provider _ _ => none
  | .output _ responseSha256 _ => some responseSha256

omit lib config provider in
def Rejection.projections : Rejection → List ProjectionCheck
  | .provider _ _ => []
  | .output _ _ projections => projections

/-- The attempts of `_format_batch` from a number on, as long as some are left. -/
def attemptFrom (batchIndex : ℕ) (slices : List SourceSlice) (prior : List SentAttempt) :
    ℕ → ℕ → Except RunError (List FormattedSlice × List SentAttempt)
  | _, 0 => .error (.batch batchIndex prior)
  | attemptNumber, left + 1 =>
      let request := chatBody config slices
      match attempt lib config slices (provider.complete batchIndex attemptNumber request) with
      | .error e => .error e
      | .ok (.error r) =>
          attemptFrom batchIndex slices
            (prior ++ [⟨request,⟨batchIndex,attemptNumber,false,some r,r.responseSha256,
              r.projections⟩⟩]) (attemptNumber + 1) left
      | .ok (.ok (formatted,responseSha256)) =>
          .ok (formatted,prior ++ [⟨request,⟨batchIndex,attemptNumber,true,none,
            some responseSha256,formatted.map FormattedSlice.check⟩⟩])

def formatBatch (batchIndex : ℕ) (slices : List SourceSlice) (priorAttempts : List SentAttempt) :
    Except RunError (List FormattedSlice × List SentAttempt) :=
  attemptFrom lib config provider batchIndex slices priorAttempts 1 config.maxAttempts

/-- The loop over the batches. -/
def formatBatches (formatted : List FormattedSlice) (attempts : List SentAttempt) :
    ℕ → List (List SourceSlice) → Except RunError (List FormattedSlice × List SentAttempt)
  | _, [] => .ok (formatted,attempts)
  | batchIndex, batch :: batches => do
      let (slices,attempts) ← formatBatch lib config provider batchIndex batch attempts
      formatBatches (formatted ++ slices) attempts (batchIndex + 1) batches

/-! ### The document -/

structure FormattedPage where
  pageNumber : ℕ
  sourceText : Str
  sourceTextSha256 : Digest
  markdown : Str
  slices : List FormattedSlice

structure FormattedDocument where
  pages : List FormattedPage
  markdown : Str
  markdownSha256 : Digest
  attempts : List FormatterAttempt
  tokenizerClass : Str
  maxModelLen : ℕ

omit lib config provider in
/-- `"\n\n".join(parts)`. -/
def joinBlocks (parts : List Str) : Str := List.intercalate [newline,newline] parts

omit lib config provider in
def assemblePages (formattedSlices : List FormattedSlice) :
    List SourcePage → Except RunError (List FormattedPage)
  | [] => .ok []
  | sourcePage :: sourcePages =>
      let pageSlices := formattedSlices.filter fun x => x.pageNumber = sourcePage.pageNumber
      if pageSlices = [] ∨ pageSlices.map (·.sliceIndex) ≠ List.range pageSlices.length then
        .error (.assertion "validated formatter output lost page slice coverage")
      else if (pageSlices.map (·.sourceText)).flatten ≠ sourcePage.text then
        .error (.assertion "validated formatter output lost exact source coverage")
      else do
        let pages ← assemblePages formattedSlices sourcePages
        pure (⟨sourcePage.pageNumber,sourcePage.text,sourcePage.textSha256,
          joinBlocks (pageSlices.map (·.markdown)),pageSlices⟩ :: pages)

omit lib config provider in
def markedPage (page : FormattedPage) : Str :=
  str "<!-- page:" ++ str (toString page.pageNumber) ++ str " -->\n" ++ page.markdown

/-- The batches that `format_markdown_document` prepares, and the context window it was told. -/
def planBatches (sourcePages : List SourcePage) :
    Except RunError (List (List SourceSlice) × Option ℕ) :=
  StateT.run (do
    if ← fitsBudget config provider [] then do
      let sourceSlices ← prepareSlices lib config provider sourcePages
      packBatches config provider sourceSlices
    else
      raise (.formatting
        "formatter prompt and output reserve exceed the configured token budget")) none

/-- `format_markdown_document`, with the attempts that were sent. -/
def formatMarkdownDocument (pages : List LayoutPage) :
    Except RunError (FormattedDocument × List SentAttempt) := do
  let sourcePages ← (normalizePages lib.normalization lib.sha256 pages).mapError .pages
  let tokenizerClass ← tokenizerIdentity config provider.tokenizerInfo
  let (batches,window) ← planBatches lib config provider sourcePages
  let (formattedSlices,sent) ← formatBatches lib config provider [] [] 0 batches
  let formattedPages ← assemblePages formattedSlices sourcePages
  let markdown := joinBlocks (formattedPages.map markedPage)
  match window with
  | none => .error (.assertion "")
  | some maxModelLen =>
      pure (⟨formattedPages,markdown,lib.sha256 markdown,sent.map (·.attempt),tokenizerClass,
        maxModelLen⟩,sent)

end

/-! ### Work within one context window -/

/-- In the window `m` a computation keeps the window, and what it returns satisfies `P`. -/
def Yields {α : Type} (m : ℕ) (x : Budgeted α) (P : α → Prop) : Prop :=
  ∀ a w, x (some m) = .ok (a,w) → w = some m ∧ P a

section Yields
variable {α β : Type} {m : ℕ} {x : Budgeted α} {P Q : α → Prop}

theorem Yields.of_pure {a : α} (h : P a) : Yields m (pure a) P := by
  rintro b w ⟨⟩
  exact ⟨rfl,h⟩

theorem Yields.of_raise {e : RunError} : Yields m (raise e) P := by
  rintro b w ⟨⟩

theorem Yields.mono (h : Yields m x P) (hPQ : ∀ a, P a → Q a) : Yields m x Q :=
  fun a w hx => ⟨(h a w hx).1,hPQ a (h a w hx).2⟩

theorem Yields.bind {f : α → Budgeted β} {R : β → Prop} (hx : Yields m x P)
    (hf : ∀ a, P a → Yields m (f a) R) : Yields m (x >>= f) R := by
  intro b w h
  change (x (some m) >>= fun p => f p.1 p.2) = .ok (b,w) at h
  cases hxm : x (some m) with
  | error e =>
    rw [hxm] at h
    cases h
  | ok p =>
    obtain ⟨a,w'⟩ := p
    rw [hxm] at h
    obtain ⟨rfl,ha⟩ := hx a w' hxm
    exact hf a ha b w h

theorem Yields.ite {c : Prop} [Decidable c] {y : Budgeted α} (hx : c → Yields m x P)
    (hy : ¬ c → Yields m y P) : Yields m (if c then x else y) P := by
  split
  · exact hx ‹_›
  · exact hy ‹_›

theorem Yields.dite {c : Prop} [Decidable c] {x : c → Budgeted α} {y : ¬ c → Budgeted α}
    (hx : ∀ h, Yields m (x h) P) (hy : ∀ h, Yields m (y h) P) :
    Yields m (if h : c then x h else y h) P := by
  split
  · exact hx _
  · exact hy _

end Yields

/-- The provider serves the chat messages of these slices within the budget of the window. -/
def Fits (config : FormatterConfig) (provider : Provider) (m : ℕ) (slices : List SourceSlice) :
    Prop :=
  ∃ t, readTokenization config (provider.tokenize (.messages (groupSlices slices))) = .ok t ∧
    t.maxModelLen = m ∧ t.count ≤ config.maxInputTokens ∧
    t.count + config.maxOutputTokens + config.tokenSafetyReserve ≤ m

section
variable {lib : Library} {config : FormatterConfig} {provider : Provider} {m : ℕ}

theorem parseTokenization_ok {reply : Reply} {state w : Option ℕ} {t : Tokenization}
    (h : parseTokenization config reply state = .ok (t,w)) :
    readTokenization config reply = .ok t ∧ w = some t.maxModelLen ∧
      ∀ m, state = some m → m = t.maxModelLen := by
  unfold parseTokenization at h
  cases hread : readTokenization config reply with
  | error e =>
    rw [hread] at h
    cases h
  | ok t' =>
    rw [hread] at h
    cases state with
    | none =>
      cases h
      exact ⟨rfl,rfl,fun m hm => by cases hm⟩
    | some m =>
      by_cases hm : m = t'.maxModelLen
      · simp only [hm, if_true] at h
        cases h
        exact ⟨rfl,rfl,fun m' hm' => by cases hm'; exact hm⟩
      · simp [hm] at h

/-- The first budget check fixes the window, and a later one leaves it. -/
theorem fitsBudget_ok {slices : List SourceSlice} {state w : Option ℕ} {b : Bool}
    (h : fitsBudget config provider slices state = .ok (b,w)) :
    ∃ m, w = some m ∧ (∀ m', state = some m' → m' = m) ∧
      (b = true → Fits config provider m slices) := by
  cases hp : parseTokenization config (provider.tokenize (.messages (groupSlices slices)))
      state with
  | error e =>
    simp [fitsBudget, tokenCount, bind, StateT.bind, Except.bind, hp] at h
  | ok p =>
    obtain ⟨t,w'⟩ := p
    obtain ⟨hread,rfl,hstate⟩ := parseTokenization_ok hp
    simp only [fitsBudget, tokenCount, bind, StateT.bind, Except.bind, hp, get, getThe,
      MonadStateOf.get, StateT.get] at h
    cases h
    refine ⟨t.maxModelLen,rfl,hstate,fun hb => ?_⟩
    simp only [Bool.and_eq_true, decide_eq_true_eq] at hb
    exact ⟨t,hread,rfl,hb.1,hb.2⟩

theorem fitsBudget_yields {slices : List SourceSlice} :
    Yields m (fitsBudget config provider slices)
      fun b => b = true → Fits config provider m slices := by
  intro b w h
  obtain ⟨m',rfl,hstate,hfits⟩ := fitsBudget_ok h
  cases hstate m rfl
  exact ⟨rfl,hfits⟩

theorem rawTokenIds_yields {text : Str} :
    Yields m (rawTokenIds config provider text) fun _ => True := by
  intro tokens w h
  cases hp : parseTokenization config (provider.tokenize (.prompt text)) (some m) with
  | error e => simp [rawTokenIds, bind, StateT.bind, Except.bind, hp] at h
  | ok p =>
    obtain ⟨t,w'⟩ := p
    obtain ⟨-,rfl,hstate⟩ := parseTokenization_ok hp
    simp only [rawTokenIds, bind, StateT.bind, Except.bind, hp] at h
    cases h
    exact ⟨by rw [hstate m rfl],trivial⟩

/-! ### Slicing -/

/-- The search returns zero or a position that was tested; the test need not be monotone. -/
theorem bisect_yields {fits : ℕ → Budgeted Bool} {T : ℕ → Prop} {low limit best : ℕ}
    (hfits : ∀ k, Yields m (fits k) fun b => b = true → T k) (hbest : best = 0 ∨ T best) :
    Yields m (bisect fits low limit best) fun n => n = 0 ∨ T n := by
  induction low, limit, best using bisect.induct with
  | case1 low limit best hlt middle ihhigh ihlow =>
    rw [bisect, if_pos hlt]
    refine (hfits _).bind fun b hb => Yields.ite (fun hb' => ?_) fun _ => ?_
    · exact ihhigh (Or.inr (hb hb'))
    · exact ihlow hbest
  | case2 low limit best hlt =>
    rw [bisect, if_neg hlt]
    exact Yields.of_pure hbest

theorem tokenBoundary_yields {pageNumber sliceIndex : ℕ} {text : Str} {complete : List ℕ}
    {limit : ℕ} :
    Yields m (tokenBoundary lib config provider pageNumber sliceIndex text complete limit)
      fun n => n = 0 ∨
        Fits config provider m [sourceSlice lib pageNumber sliceIndex (text.take n)] := by
  induction limit with
  | zero => exact Yields.of_pure (Or.inl rfl)
  | succ b ih =>
    unfold tokenBoundary
    refine rawTokenIds_yields.bind fun tokens _ => Yields.ite (fun _ => ?_) fun _ => ih
    exact fitsBudget_yields.bind fun fits hfits =>
      Yields.ite (fun h => Yields.of_pure (Or.inr (hfits h))) fun _ => ih

theorem largestFittingTokenBoundary_yields {pageNumber sliceIndex : ℕ} {text : Str} :
    Yields m (largestFittingTokenBoundary lib config provider pageNumber sliceIndex text)
      fun n => n = 0 ∨
        Fits config provider m [sourceSlice lib pageNumber sliceIndex (text.take n)] := by
  unfold largestFittingTokenBoundary
  refine Yields.bind (bisect_yields (T := fun _ => True) (fun k => ?_) (Or.inl rfl))
    fun limit _ => Yields.ite (fun _ => Yields.of_pure (Or.inl rfl)) fun _ =>
      rawTokenIds_yields.bind fun _ _ => tokenBoundary_yields
  exact fitsBudget_yields.mono fun _ _ _ => trivial

/-- A piece starts what remains, and its slice fits the budget by itself. -/
theorem nextPiece_yields {pageNumber sliceIndex : ℕ} {remaining : Str} {h : remaining ≠ []} :
    Yields m (nextPiece lib config provider pageNumber sliceIndex remaining h) fun piece =>
      piece.1 <+: remaining ∧
        Fits config provider m [sourceSlice lib pageNumber sliceIndex piece.1] := by
  unfold nextPiece
  refine Yields.bind (bisect_yields (fun k => fitsBudget_yields) (Or.inl rfl)) fun k hk =>
    Yields.dite (fun hl => Yields.of_pure ⟨?_,?_⟩) fun _ => ?_
  · refine ⟨((splitlinesKeepends remaining).drop k).flatten,?_⟩
    rw [← List.flatten_append, List.take_append_drop, splitlinesKeepends_flatten]
  · exact hk.resolve_left hl
  · refine largestFittingTokenBoundary_yields.bind fun n hn =>
      Yields.dite (fun hs => Yields.of_pure ⟨List.take_prefix n remaining,hn.resolve_left hs⟩)
        fun _ => Yields.of_raise

/-- The slices of a page with these texts, numbered from `i`. -/
def numbered (lib : Library) (pageNumber : ℕ) : ℕ → List Str → List SourceSlice
  | _, [] => []
  | i, text :: texts =>
      sourceSlice lib pageNumber i text :: numbered lib pageNumber (i + 1) texts

/-- The slices of a page: numbered texts that concatenate to the page text, none of them empty
unless the page is. -/
def SlicesPage (lib : Library) (page : SourcePage) (slices : List SourceSlice) : Prop :=
  ∃ texts, slices = numbered lib page.pageNumber 0 texts ∧ texts.flatten = page.text ∧
    (page.text = [] → texts = [[]]) ∧ (page.text ≠ [] → ∀ text ∈ texts, text ≠ [])

theorem sliceFrom_yields {pageNumber sliceIndex : ℕ} {remaining : Str} :
    Yields m (sliceFrom lib config provider pageNumber sliceIndex remaining) fun slices =>
      ∃ texts, slices = numbered lib pageNumber sliceIndex texts ∧ texts.flatten = remaining ∧
        ∀ text ∈ texts, text ≠ [] := by
  induction sliceIndex, remaining using sliceFrom.induct with
  | case1 sliceIndex =>
    rw [sliceFrom, dif_pos rfl]
    exact Yields.of_pure ⟨[],rfl,rfl,by simp⟩
  | case2 sliceIndex remaining hne ih =>
    rw [sliceFrom, dif_neg hne]
    refine nextPiece_yields.bind fun piece hpiece => (ih piece).bind fun slices hslices => ?_
    obtain ⟨texts,rfl,hflatten,hall⟩ := hslices
    refine Yields.of_pure ⟨piece.1 :: texts,rfl,?_,List.forall_mem_cons.2 ⟨piece.2,hall⟩⟩
    rw [List.flatten_cons, hflatten]
    exact List.prefix_iff_eq_append.1 hpiece.1

theorem coverEmpty_yields {pageNumber : ℕ} {slices : List SourceSlice} :
    Yields m (coverEmpty lib config provider pageNumber slices) fun covered =>
      (slices = [] → covered = [sourceSlice lib pageNumber 0 []]) ∧
        (slices ≠ [] → covered = slices) := by
  unfold coverEmpty
  refine Yields.ite (fun h => ?_) fun h => Yields.of_pure ⟨fun h' => absurd h' h,fun _ => rfl⟩
  exact fitsBudget_yields.bind fun _ _ =>
    Yields.ite (fun _ => Yields.of_pure ⟨fun _ => rfl,fun h' => absurd h h'⟩) fun _ =>
      Yields.of_raise

theorem slicePage_yields {page : SourcePage} :
    Yields m (slicePage lib config provider page) (SlicesPage lib page) := by
  unfold slicePage
  refine sliceFrom_yields.bind fun pieces hpieces => coverEmpty_yields.bind fun slices hslices =>
    Yields.ite (fun _ => Yields.of_pure ?_) fun _ => Yields.of_raise
  obtain ⟨texts,rfl,hflatten,hall⟩ := hpieces
  cases texts with
  | nil => exact ⟨[[]],hslices.1 rfl,hflatten,fun _ => rfl,fun h => absurd hflatten.symm h⟩
  | cons text texts =>
    refine ⟨text :: texts,hslices.2 (by simp [numbered]),hflatten,fun h => ?_,fun _ => hall⟩
    rw [h, List.flatten_cons, List.append_eq_nil_iff] at hflatten
    exact absurd hflatten.1 (hall text List.mem_cons_self)

theorem wholeOrSliced_yields {page : SourcePage} :
    Yields m (wholeOrSliced lib config provider page) (SlicesPage lib page) := by
  unfold wholeOrSliced
  refine fitsBudget_yields.bind fun _ _ => Yields.ite (fun _ => Yields.of_pure ?_) fun _ =>
    slicePage_yields
  exact ⟨[page.text],rfl,by simp,fun h => by rw [h],fun h => by simpa using h⟩

theorem prepareSlices_yields {pages : List SourcePage} :
    Yields m (prepareSlices lib config provider pages) fun slices =>
      ∃ slicesOf, slices = slicesOf.flatten ∧ List.Forall₂ (SlicesPage lib) pages slicesOf := by
  induction pages with
  | nil => exact Yields.of_pure ⟨[],rfl,List.Forall₂.nil⟩
  | cons page pages ih =>
    unfold prepareSlices
    refine wholeOrSliced_yields.bind fun slices hslices => ih.bind fun rest hrest => ?_
    obtain ⟨slicesOf,rfl,hall⟩ := hrest
    exact Yields.of_pure ⟨slices :: slicesOf,rfl,List.Forall₂.cons hslices hall⟩

/-! ### Packing -/

/-- A request: some slices, of at most so many pages, within the token budget. -/
structure Bounded (config : FormatterConfig) (provider : Provider) (m : ℕ)
    (batch : List SourceSlice) : Prop where
  nonempty : batch ≠ []
  pages : pageCount batch ≤ config.maxPagesPerRequest
  budget : Fits config provider m batch

theorem packFrom_yields {current slices : List SourceSlice}
    (hcurrent : current = [] ∨ Bounded config provider m current) :
    Yields m (packFrom config provider current slices) fun batches =>
      batches.flatten = current ++ slices ∧ ∀ batch ∈ batches, Bounded config provider m batch := by
  induction slices generalizing current with
  | nil =>
    refine Yields.of_pure ?_
    split
    · rename_i h
      exact ⟨by simp [h],by simp⟩
    · rename_i h
      exact ⟨by simp,fun b hb => by
        rw [List.mem_singleton.1 hb]
        exact hcurrent.resolve_left h⟩
  | cons slice slices ih =>
    unfold packFrom
    have hfits : Yields m (fitsTogether config provider (current ++ [slice])) fun b =>
        b = true → Bounded config provider m (current ++ [slice]) := by
      unfold fitsTogether
      exact Yields.ite (fun hp => fitsBudget_yields.mono fun b hb hb' => ⟨by simp,hp,hb hb'⟩)
        fun _ => Yields.of_pure (by simp)
    refine hfits.bind fun b hb => Yields.ite (fun hb' => ?_) fun _ => ?_
    · exact (ih (Or.inr (hb hb'))).mono fun batches h => by simpa using h
    · refine fitsBudget_yields.bind fun alone halone => Yields.ite (fun h => ?_) fun _ =>
        Yields.of_raise
      have hcount : pageCount [slice] = 1 := by
        rw [pageCount, List.map_singleton, (List.nodup_singleton _).dedup]
        rfl
      have hslice : Bounded config provider m [slice] :=
        ⟨by simp,hcount.trans_le config.pages_pos,halone h⟩
      refine (ih (Or.inr hslice)).bind fun batches hbatches => Yields.of_pure ?_
      split
      · rename_i hnil
        simpa [hnil] using hbatches
      · rename_i hnil
        refine ⟨by simp [hbatches.1],List.forall_mem_cons.2 ⟨hcurrent.resolve_left hnil,?_⟩⟩
        exact hbatches.2

theorem planBatches_ok {sources : List SourcePage} {batches : List (List SourceSlice)}
    {window : Option ℕ}
    (h : planBatches lib config provider sources = .ok (batches,window)) :
    ∃ m slicesOf, window = some m ∧ List.Forall₂ (SlicesPage lib) sources slicesOf ∧
      batches.flatten = slicesOf.flatten ∧ ∀ batch ∈ batches, Bounded config provider m batch := by
  unfold planBatches at h
  cases hempty : fitsBudget config provider [] none with
  | error e => simp [StateT.run, bind, StateT.bind, Except.bind, hempty] at h
  | ok p =>
    obtain ⟨b,w⟩ := p
    obtain ⟨m,rfl,-,-⟩ := fitsBudget_ok hempty
    simp only [StateT.run, bind, StateT.bind, Except.bind, hempty] at h
    cases b with
    | false => cases h
    | true =>
      have hyields : Yields m (do
          let slices ← prepareSlices lib config provider sources
          packBatches config provider slices) fun batches =>
            ∃ slicesOf, List.Forall₂ (SlicesPage lib) sources slicesOf ∧
              batches.flatten = slicesOf.flatten ∧
              ∀ batch ∈ batches, Bounded config provider m batch := by
        refine prepareSlices_yields.bind fun slices hslices => ?_
        obtain ⟨slicesOf,rfl,hall⟩ := hslices
        exact (packFrom_yields (Or.inl rfl)).mono fun batches hb => ⟨slicesOf,hall,hb⟩
      obtain ⟨rfl,slicesOf,hall⟩ := hyields batches window h
      exact ⟨m,slicesOf,rfl,hall⟩

/-! ### Attempts and assembly -/

/-- The attempts for one request: numbered from one, at most so many, all with that request, and
only the last one valid, with the slices that its content gave. -/
structure AttemptsOf (lib : Library) (config : FormatterConfig) (provider : Provider)
    (batchIndex : ℕ) (batch : List SourceSlice) (formatted : List FormattedSlice)
    (sent : List SentAttempt) : Prop where
  nonempty : sent ≠ []
  bounded : sent.length ≤ config.maxAttempts
  numbers : sent.map (·.attempt.attemptNumber) = List.range' 1 sent.length
  index : ∀ a ∈ sent, a.attempt.batchIndex = batchIndex
  request : ∀ a ∈ sent, a.request = chatBody config batch
  valid : sent.map (·.attempt.valid) = List.replicate (sent.length - 1) false ++ [true]
  content : ∃ content, completionContent config
      (provider.complete batchIndex sent.length (chatBody config batch)) = .ok content ∧
    validateOutput lib content batch = .ok formatted

/-- The attempts of all batches one after the other, with what each batch gave. -/
inductive SentBatches (lib : Library) (config : FormatterConfig) (provider : Provider) :
    ℕ → List (List SourceSlice) → List (List FormattedSlice) → List SentAttempt → Prop
  | nil (i : ℕ) : SentBatches lib config provider i [] [] []
  | cons {i : ℕ} {batch : List SourceSlice} {batches : List (List SourceSlice)}
      {formatted : List FormattedSlice} {rest : List (List FormattedSlice)}
      {sent more : List SentAttempt} (h : AttemptsOf lib config provider i batch formatted sent)
      (hrest : SentBatches lib config provider (i + 1) batches rest more) :
      SentBatches lib config provider i (batch :: batches) (formatted :: rest) (sent ++ more)

theorem attempt_ok {slices : List SourceSlice} {reply : Reply}
    {formatted : List FormattedSlice} {d : Digest}
    (h : attempt lib config slices reply = .ok (.ok (formatted,d))) :
    ∃ content, completionContent config reply = .ok content ∧
      validateOutput lib content slices = .ok formatted := by
  unfold attempt at h
  split at h
  · cases h
  · rename_i content hcontent
    refine ⟨content,hcontent,?_⟩
    split at h
    · rename_i hv
      cases h
      exact hv
    all_goals cases h

/-- What the remaining attempts add to the earlier ones. -/
theorem attemptFrom_ok {i k left : ℕ} {slices : List SourceSlice} {prior sent : List SentAttempt}
    {formatted : List FormattedSlice}
    (h : attemptFrom lib config provider i slices prior k left = .ok (formatted,sent)) :
    ∃ new, sent = prior ++ new ∧ new ≠ [] ∧ new.length ≤ left ∧
      new.map (·.attempt.attemptNumber) = List.range' k new.length ∧
      (∀ a ∈ new, a.attempt.batchIndex = i ∧ a.request = chatBody config slices) ∧
      new.map (·.attempt.valid) = List.replicate (new.length - 1) false ++ [true] ∧
      ∃ content, completionContent config
          (provider.complete i (k + (new.length - 1)) (chatBody config slices)) = .ok content ∧
        validateOutput lib content slices = .ok formatted := by
  induction left generalizing k prior with
  | zero => cases h
  | succ left ih =>
    simp only [attemptFrom] at h
    split at h
    · cases h
    · rename_i r _
      obtain ⟨new,rfl,hne,hlen,hnumbers,hall,hvalid,hcontent⟩ := ih h
      obtain ⟨n,hn⟩ := Nat.exists_eq_succ_of_ne_zero (mt List.length_eq_zero_iff.1 hne)
      refine ⟨_ :: new,List.append_assoc _ _ _,by simp,Nat.succ_le_succ hlen,?_,?_,?_,?_⟩
      · rw [List.map_cons, hnumbers, List.length_cons, List.range'_succ]
      · exact List.forall_mem_cons.2 ⟨⟨rfl,rfl⟩,hall⟩
      · rw [List.map_cons, hvalid, List.length_cons, hn]
        rfl
      · rw [List.length_cons]
        rw [hn] at hcontent ⊢
        have hk : k + 1 + (n.succ - 1) = k + (n.succ + 1 - 1) := by omega
        rwa [hk] at hcontent
    · rename_i d hattempt
      cases h
      exact ⟨_,rfl,by simp,by simp,by simp,by simp,by simp,attempt_ok hattempt⟩

theorem formatBatch_ok {i : ℕ} {slices : List SourceSlice} {prior sent : List SentAttempt}
    {formatted : List FormattedSlice}
    (h : formatBatch lib config provider i slices prior = .ok (formatted,sent)) :
    ∃ new, sent = prior ++ new ∧ AttemptsOf lib config provider i slices formatted new := by
  obtain ⟨new,rfl,hne,hlen,hnumbers,hall,hvalid,hcontent⟩ := attemptFrom_ok h
  refine ⟨new,rfl,hne,hlen,hnumbers,fun a ha => (hall a ha).1,fun a ha => (hall a ha).2,hvalid,?_⟩
  have hpos := List.length_pos_iff.2 hne
  have hk : 1 + (new.length - 1) = new.length := by omega
  rwa [hk] at hcontent

theorem formatBatches_ok {i : ℕ} {batches : List (List SourceSlice)}
    {done formatted : List FormattedSlice} {prior sent : List SentAttempt}
    (h : formatBatches lib config provider done prior i batches = .ok (formatted,sent)) :
    ∃ new outputs, sent = prior ++ new ∧ formatted = done ++ outputs.flatten ∧
      SentBatches lib config provider i batches outputs new := by
  induction batches generalizing i done prior with
  | nil =>
    cases h
    exact ⟨[],[],by simp,by simp,.nil i⟩
  | cons batch batches ih =>
    unfold formatBatches at h
    cases hb : formatBatch lib config provider i batch prior with
    | error e => simp [hb, bind, Except.bind] at h
    | ok p =>
      obtain ⟨slices,attempts⟩ := p
      simp only [hb, bind, Except.bind] at h
      obtain ⟨first,rfl,hfirst⟩ := formatBatch_ok hb
      obtain ⟨new,outputs,rfl,rfl,hrest⟩ := ih h
      exact ⟨first ++ new,slices :: outputs,by simp,by simp,.cons hfirst hrest⟩

theorem SentBatches.accepted {i : ℕ} {batches : List (List SourceSlice)}
    {outputs : List (List FormattedSlice)} {sent : List SentAttempt}
    (h : SentBatches lib config provider i batches outputs sent) :
    List.Forall₂ (Accepted lib) batches.flatten outputs.flatten := by
  induction h with
  | nil => exact List.Forall₂.nil
  | cons h _ ih =>
    obtain ⟨content,-,hv⟩ := h.content
    exact List.rel_append (validateOutput_accepted hv) ih

theorem pageNumber_numbered {n i : ℕ} {texts : List Str} {x : SourceSlice}
    (hx : x ∈ numbered lib n i texts) : x.pageNumber = n := by
  induction texts generalizing i with
  | nil => cases hx
  | cons text texts ih =>
    rcases List.mem_cons.1 hx with rfl | hx
    · rfl
    · exact ih hx

theorem SlicesPage.pageNumber {page : SourcePage} {slices : List SourceSlice} {x : SourceSlice}
    (h : SlicesPage lib page slices) (hx : x ∈ slices) : x.pageNumber = page.pageNumber := by
  obtain ⟨texts,rfl,-⟩ := h
  exact pageNumber_numbered hx

theorem forall₂_append_split {α β : Type} {R : α → β → Prop} {xs ys : List α} {zs : List β}
    (h : List.Forall₂ R (xs ++ ys) zs) :
    ∃ us vs, zs = us ++ vs ∧ List.Forall₂ R xs us ∧ List.Forall₂ R ys vs := by
  induction xs generalizing zs with
  | nil => exact ⟨[],zs,rfl,List.Forall₂.nil,h⟩
  | cons x xs ih =>
    cases h with
    | cons hx h =>
      obtain ⟨us,vs,rfl,hus,hvs⟩ := ih h
      exact ⟨_ :: us,vs,rfl,List.Forall₂.cons hx hus,hvs⟩

/-- Accepted slices carry the page numbers of their sources. -/
theorem accepted_pageNumber {slices : List SourceSlice} {formatted : List FormattedSlice}
    {x : FormattedSlice} (h : List.Forall₂ (Accepted lib) slices formatted) (hx : x ∈ formatted) :
    ∃ s ∈ slices, x.pageNumber = s.pageNumber := by
  induction h with
  | nil => cases hx
  | cons hs _ ih =>
    rcases List.mem_cons.1 hx with rfl | hx
    · exact ⟨_,List.mem_cons_self,hs.pageNumber⟩
    · obtain ⟨s,hs,he⟩ := ih hx
      exact ⟨s,List.mem_cons_of_mem _ hs,he⟩

theorem flatten_pageNumber {sources : List SourcePage} {slicesOf : List (List SourceSlice)}
    {s : SourceSlice} (h : List.Forall₂ (SlicesPage lib) sources slicesOf)
    (hs : s ∈ slicesOf.flatten) : s.pageNumber ∈ sources.map (·.pageNumber) := by
  induction h with
  | nil => cases hs
  | cons hp _ ih =>
    rw [List.flatten_cons, List.mem_append] at hs
    rcases hs with hs | hs
    · rw [hp.pageNumber hs]
      exact List.mem_cons_self
    · exact List.mem_cons_of_mem _ (ih hs)

/-- A returned page: its source, with the Markdown accepted for each of its slices. -/
structure ReturnsPage (lib : Library) (source : SourcePage) (slices : List SourceSlice)
    (page : FormattedPage) : Prop where
  number : page.pageNumber = source.pageNumber
  text : page.sourceText = source.text
  hash : page.sourceTextSha256 = source.textSha256
  slices : List.Forall₂ (Accepted lib) slices page.slices
  markdown : page.markdown = joinBlocks (page.slices.map (·.markdown))

/-- Each page picks its own slices out of all accepted ones. -/
theorem assemblePages_ok {sources : List SourcePage} {slicesOf : List (List SourceSlice)}
    {before formatted : List FormattedSlice} {pages : List FormattedPage}
    (hslices : List.Forall₂ (SlicesPage lib) sources slicesOf)
    (hn : (sources.map (·.pageNumber)).Nodup)
    (haccepted : List.Forall₂ (Accepted lib) slicesOf.flatten formatted)
    (hbefore : ∀ x ∈ before, x.pageNumber ∉ sources.map (·.pageNumber))
    (h : assemblePages (before ++ formatted) sources = .ok pages) :
    List.Forall₂ (fun x page => ReturnsPage lib x.1 x.2 page) (sources.zip slicesOf) pages ∧
      pages.flatMap (·.slices) = formatted := by
  induction hslices generalizing before formatted pages with
  | nil =>
    cases h
    cases haccepted
    exact ⟨List.Forall₂.nil,rfl⟩
  | @cons source slices sources slicesOf hpage hrest ih =>
    obtain ⟨own,later,rfl,hown,hlater⟩ := forall₂_append_split haccepted
    obtain ⟨hnew,hn⟩ := List.nodup_cons.1 hn
    have hmine : ∀ x ∈ own, x.pageNumber = source.pageNumber := by
      intro x hx
      obtain ⟨s,hs,he⟩ := accepted_pageNumber hown hx
      exact he.trans (hpage.pageNumber hs)
    have hfilter : (before ++ (own ++ later)).filter
        (fun x => x.pageNumber = source.pageNumber) = own := by
      have h₁ : before.filter (fun x => x.pageNumber = source.pageNumber) = [] := by
        refine List.filter_eq_nil_iff.2 fun x hx => ?_
        have hx := hbefore x hx
        simp only [List.map_cons, List.mem_cons, not_or] at hx
        simpa using hx.1
      have h₂ : own.filter (fun x => x.pageNumber = source.pageNumber) = own :=
        List.filter_eq_self.2 fun x hx => by simpa using hmine x hx
      have h₃ : later.filter (fun x => x.pageNumber = source.pageNumber) = [] := by
        refine List.filter_eq_nil_iff.2 fun x hx => ?_
        obtain ⟨s,hs,he⟩ := accepted_pageNumber hlater hx
        have hmem := flatten_pageNumber hrest hs
        simp only [decide_eq_true_eq]
        intro heq
        rw [← he, heq] at hmem
        exact hnew hmem
      rw [List.filter_append, List.filter_append, h₁, h₂, h₃]
      simp
    simp only [assemblePages, hfilter] at h
    split at h
    · cases h
    split at h
    · cases h
    cases hassembled : assemblePages (before ++ (own ++ later)) sources with
    | error e => simp [hassembled, bind, Except.bind] at h
    | ok rest =>
      simp only [hassembled, bind, Except.bind, pure, Except.pure] at h
      cases h
      rw [← List.append_assoc] at hassembled
      have hskip : ∀ x ∈ before ++ own, x.pageNumber ∉ sources.map (·.pageNumber) := by
        intro x hx
        rcases List.mem_append.1 hx with hx | hx
        · exact fun hm => hbefore x hx (List.mem_cons_of_mem _ hm)
        · rw [hmine x hx]
          exact hnew
      obtain ⟨hpages,hflat⟩ := ih hn hlater hskip hassembled
      refine ⟨List.Forall₂.cons ⟨rfl,rfl,rfl,hown,rfl⟩ hpages,?_⟩
      rw [List.flatMap_cons, hflat]

theorem normalizeFrom_numbers {n : Normalization} {sha256 : Str → Digest} {expected : ℕ}
    {pages : List LayoutPage} {sources : List SourcePage}
    (h : normalizeFrom n sha256 expected pages = .ok sources) :
    sources.map (·.pageNumber) = List.range' expected sources.length := by
  induction pages generalizing expected sources with
  | nil =>
    cases h
    rfl
  | cons page pages ih =>
    simp only [normalizeFrom] at h
    split at h
    · rename_i hnumber
      split at h
      · rename_i rest hrest
        cases h
        simp [List.range'_succ, hnumber, ih hrest]
      · cases h
    · cases h

theorem normalizePages_nodup {n : Normalization} {sha256 : Str → Digest}
    {pages : List LayoutPage} {sources : List SourcePage}
    (h : normalizePages n sha256 pages = .ok sources) :
    (sources.map (·.pageNumber)).Nodup := by
  unfold normalizePages at h
  split at h
  · cases h
  · rw [normalizeFrom_numbers h]
    exact List.nodup_range'

/-- A finished run has sent, in batches within all bounds, every slice of every page once and in
order. Each batch was attempted with one request until a response was valid, and the pages return
what was validated for their slices. -/
theorem formatting_covers {pages : List LayoutPage} {doc : FormattedDocument}
    {sent : List SentAttempt}
    (h : formatMarkdownDocument lib config provider pages = .ok (doc,sent)) :
    ∃ sources slicesOf batches outputs,
      normalizePages lib.normalization lib.sha256 pages = .ok sources ∧
      List.Forall₂ (SlicesPage lib) sources slicesOf ∧
      batches.flatten = slicesOf.flatten ∧
      (∀ batch ∈ batches, Bounded config provider doc.maxModelLen batch) ∧
      SentBatches lib config provider 0 batches outputs sent ∧
      doc.attempts = sent.map (·.attempt) ∧
      List.Forall₂ (fun x page => ReturnsPage lib x.1 x.2 page) (sources.zip slicesOf)
        doc.pages ∧
      doc.pages.flatMap (·.slices) = outputs.flatten := by
  unfold formatMarkdownDocument at h
  cases hsources : normalizePages lib.normalization lib.sha256 pages with
  | error e => simp [hsources, Except.mapError, bind, Except.bind] at h
  | ok sources =>
  cases hidentity : tokenizerIdentity config provider.tokenizerInfo with
  | error e => simp [hsources, hidentity, Except.mapError, bind, Except.bind] at h
  | ok tokenizerClass =>
  cases hplan : planBatches lib config provider sources with
  | error e => simp [hsources, hidentity, hplan, Except.mapError, bind, Except.bind] at h
  | ok plan =>
  obtain ⟨batches,window⟩ := plan
  obtain ⟨m,slicesOf,rfl,hslices,hflatten,hbounded⟩ := planBatches_ok hplan
  cases hformatted : formatBatches lib config provider [] [] 0 batches with
  | error e =>
    simp [hsources, hidentity, hplan, hformatted, Except.mapError, bind, Except.bind] at h
  | ok result =>
  obtain ⟨formatted,attempts⟩ := result
  obtain ⟨new,outputs,rfl,rfl,hsent⟩ := formatBatches_ok hformatted
  cases hpages : assemblePages ([] ++ outputs.flatten) sources with
  | error e =>
    simp only [hsources, hidentity, hplan, hformatted, hpages, Except.mapError, bind,
      Except.bind] at h
    cases h
  | ok formattedPages =>
  simp only [hsources, hidentity, hplan, hformatted, hpages, Except.mapError, bind, Except.bind,
    pure, Except.pure] at h
  cases h
  have haccepted := hsent.accepted
  rw [hflatten] at haccepted
  obtain ⟨hreturns,hall⟩ := assemblePages_ok hslices (normalizePages_nodup hsources) haccepted
    (by simp) hpages
  exact ⟨sources,slicesOf,batches,outputs,rfl,hslices,hflatten,hbounded,hsent,rfl,hreturns,hall⟩

end

/-! ### A document of three pages -/

/-- The budget of a request is nine characters. -/
def greekConfig : FormatterConfig :=
  ⟨str "m",str "T",9,10,1,2,2,by decide,by decide,by decide,by decide⟩

def greekPages : List LayoutPage :=
  [⟨1,str "alpha\nbeta"⟩,⟨2,str "gamma"⟩,⟨3,str "deltaepsilon"⟩]

/-- The answer to each batch: pages with their slices. -/
def greekAnswers : List (List (ℕ × List (ℕ × String))) :=
  [[(1,[(0,"# alpha")])],[(1,[(1,"- beta")]),(2,[(0,"gamma")])],[(3,[(0,"deltaepsi")])],
    [(3,[(1,"lon")])]]

def greekSlice (x : ℕ × String) : Str :=
  str "\x7b\"slice_index\":" ++ str (toString x.1) ++
    str ",\"source_text_sha256\":\"a\",\"markdown\":\"" ++ str x.2 ++ str "\"\x7d"

def greekPage (x : ℕ × List (ℕ × String)) : Str :=
  str "\x7b\"page_number\":" ++ str (toString x.1) ++ str ",\"slices\":[" ++
    (str ",").intercalate (x.2.map greekSlice) ++ str "]\x7d"

def greekContent (answer : List (ℕ × List (ℕ × String))) : Str :=
  str "\x7b\"pages\":[" ++ (str ",").intercalate (answer.map greekPage) ++ str "]\x7d"

def greekPayload (answer : List (ℕ × List (ℕ × String))) : Json :=
  .obj [(str "pages",.arr (answer.map fun x =>
    .obj [(str "page_number",.int x.1),(str "slices",.arr (x.2.map fun y =>
      .obj [(str "slice_index",.int y.1),(str "source_text_sha256",.str (str "a")),
        (str "markdown",.str (str y.2))]))]))]

def greekLibrary : Library :=
  {sliceLibrary "" "" with
    loads := fun content =>
      .ok ((greekAnswers.find? fun x => content = greekContent x).map greekPayload)}

def characterTokens : TokenizeBody → Str
  | .messages pages => pages.flatMap fun p => p.slices.flatMap (·.text)
  | .prompt text => text

/-- A provider whose tokens are characters. The second batch completes at the second attempt. -/
def greekProvider : Provider where
  tokenizerInfo := .response (some 200) (some (.obj [(str "tokenizer_class",.str (str "T"))]))
  tokenize := fun body => .response (some 200) (some (.obj [
    (str "count",.int (characterTokens body).length),(str "max_model_len",.int 100),
    (str "tokens",.arr ((characterTokens body).map fun c => .int c.val))]))
  complete := fun batchIndex attemptNumber _ =>
    if batchIndex = 1 ∧ attemptNumber = 1 then .failed
    else .response (some 200) (some (.obj [(str "choices",.arr [.obj [
      (str "finish_reason",.str (str "stop")),
      (str "message",.obj [(str "content",
        .str (greekContent (greekAnswers.getD batchIndex [])))])]])]))

theorem ok_of_toOption {α ε : Type} {x : Except ε α} {a : α} (h : x.toOption = some a) :
    x = .ok a := by
  cases x with
  | error e => cases h
  | ok b => exact congrArg Except.ok (Option.some.inj h)

/-- Whether the response was valid, and the texts of each page that was sent. -/
def SentAttempt.texts (x : SentAttempt) : Bool × List (ℕ × List Str) :=
  (x.attempt.valid,x.request.pages.map fun p => (p.pageNumber,p.slices.map (·.text)))

/-- The first page is cut behind a line, the third inside of one; the slices in between share a
request, which is sent twice. -/
theorem formatting_covers_greek : ∃ (doc : FormattedDocument) (sent : List SentAttempt)
    (batches : List (List SourceSlice)) (outputs : List (List FormattedSlice)),
    SentBatches greekLibrary greekConfig greekProvider 0 batches outputs sent ∧
    sent.map SentAttempt.texts =
      [(true,[(1,[str "alpha\n"])]),(false,[(1,[str "beta"]),(2,[str "gamma"])]),
        (true,[(1,[str "beta"]),(2,[str "gamma"])]),(true,[(3,[str "deltaepsi"])]),
        (true,[(3,[str "lon"])])] ∧
    doc.pages.flatMap (·.slices) = outputs.flatten := by
  have hrun : (formatMarkdownDocument greekLibrary greekConfig greekProvider
      greekPages).toOption.any (fun r => r.2.map SentAttempt.texts =
      [(true,[(1,[str "alpha\n"])]),(false,[(1,[str "beta"]),(2,[str "gamma"])]),
        (true,[(1,[str "beta"]),(2,[str "gamma"])]),(true,[(3,[str "deltaepsi"])]),
        (true,[(3,[str "lon"])])]) = true := by decide +kernel
  obtain ⟨⟨doc,sent⟩,hdoc,htexts⟩ := (Option.any_eq_true _ _).1 hrun
  obtain ⟨_,_,batches,outputs,-,-,-,-,hsent,-,-,hall⟩ := formatting_covers (ok_of_toOption hdoc)
  exact ⟨doc,sent,batches,outputs,hsent,of_decide_eq_true htexts,hall⟩

end MarkdownFormatter
end PdfBridge
