import Sulion.Retrieval.Filters
import Sulion.Retrieval.SourceSteps

set_option autoImplicit false

/-! # Merging the results of the two engines

`search_inner` merges by `ResultKey`, which has the kind and the turn that each engine reports. The
lexical engine has them from the tables, the semantic engine from the embedding, and an embedding
keeps those that it was first written with. `hybrid_once` says that each source comes back once,
with both of its scores, in every run whose transactions leave them as they are for sources with
embeddings.
-/

namespace Sulion.Retrieval.Sources

open Transition Ingest Timeline

/-! ## Results -/

/-- A row of an engine and its score. Of which source it is, the engine does not say. -/
structure Hit (σ : Type) where
  source : SourceKey
  row : Store.Row
  score : σ

structure SearchResult (σ : Type) where
  /-- Not part of the code's result. -/
  source : SourceKey
  sourceKind : SourceKind
  score : σ
  lexicalScore : Option σ
  semanticScore : Option σ
  repo : Option String
  agentSessionUuid : SessionUuid
  turnId : Option Int
  operationOrd : Option Int
  byteOffset : Option Int
  blockOrd : Option Int
  timestamp : Option Int

structure ResultKey where
  sourceKind : SourceKind
  sessionUuid : SessionUuid
  byteOffset : Option Int
  blockOrd : Option Int
  turnId : Option Int
  operationOrd : Option Int
  deriving DecidableEq

inductive SearchMode
  | hybrid | lexical | semantic
  deriving DecidableEq

section Merge

variable {σ : Type} (combine : σ → σ → σ) (zero : σ)

def ResultKey.fromResult (result : SearchResult σ) : ResultKey :=
  { sourceKind := result.sourceKind
    sessionUuid := result.agentSessionUuid
    byteOffset := result.byteOffset
    blockOrd := result.blockOrd
    turnId := result.turnId
    operationOrd := result.operationOrd }

/-- `combined_score`, where `combine` weighs the two. -/
def combinedScore : Option σ → Option σ → σ
  | some l, some s => combine l s
  | some l, none => l
  | none, some s => s
  | none, none => zero

/-- `row_to_any_search_result`: the result of a tool has no place in the transcript. -/
def rowToAnySearchResult (source : SourceKey) (row : Store.Row) (lexical semantic : Option σ) :
    SearchResult σ :=
  { source := source
    sourceKind := row.columns.sourceKind
    score := combinedScore combine zero lexical semantic
    lexicalScore := lexical
    semanticScore := semantic
    repo := row.columns.repoName
    agentSessionUuid := row.session
    turnId := row.columns.turnId
    operationOrd := row.columns.operationOrd
    byteOffset := if row.columns.sourceKind.isTool then none else row.byteOffset
    blockOrd := if row.columns.sourceKind.isTool then none else row.blockOrd
    timestamp := row.timestamp }

def lexicalResult (hit : Hit σ) : SearchResult σ :=
  rowToAnySearchResult combine zero hit.source hit.row (some hit.score) none

def semanticResult (hit : Hit σ) : SearchResult σ :=
  rowToAnySearchResult combine zero hit.source hit.row none (some hit.score)

def sameKey (result other : SearchResult σ) : Bool :=
  ResultKey.fromResult result = ResultKey.fromResult other

/-- `merged.insert`, of a lexical result. -/
def insertResult (merged : List (SearchResult σ)) (result : SearchResult σ) :
    List (SearchResult σ) :=
  if merged.any (sameKey · result) then
    merged.map fun existing => if sameKey existing result then result else existing
  else merged ++ [result]

/-- A result takes the score of a semantic result that has its key. -/
def addScore (result existing : SearchResult σ) : SearchResult σ :=
  if sameKey existing result then
    { existing with
      semanticScore := result.semanticScore
      score := combinedScore combine zero existing.lexicalScore result.semanticScore }
  else existing

def mergeResult (merged : List (SearchResult σ)) (result : SearchResult σ) :
    List (SearchResult σ) :=
  if merged.any (sameKey · result) then merged.map (addScore combine zero result)
  else merged ++ [result]

/-- `finalize_results`, but for the evidence; `before` is the order of scores and times. -/
def finalizeResults (before : SearchResult σ → SearchResult σ → Bool) (limit : Nat)
    (results : List (SearchResult σ)) : List (SearchResult σ) :=
  (results.insertionSort fun left right => before left right).take limit

/-- `search_inner` on the hits of the engines; those of the semantic engine are `none` when the
query could not be embedded. -/
def searchInner (mode : SearchMode) (before : SearchResult σ → SearchResult σ → Bool) (limit : Nat)
    (lexical : List (Hit σ)) (semantic : Option (List (Hit σ))) : Option (List (SearchResult σ)) :=
  let merged := if mode = .semantic then []
    else (lexical.map (lexicalResult combine zero)).foldl insertResult []
  if mode = .lexical then some (finalizeResults before limit merged)
  else
    match semantic with
    | some hits =>
        some (finalizeResults before limit
          ((hits.map (semanticResult combine zero)).foldl (mergeResult combine zero) merged))
    | none => if mode = .hybrid then some (finalizeResults before limit merged) else none

/-! ## What the merge leaves -/

def Hit.resultKey (hit : Hit σ) : ResultKey :=
  ResultKey.fromResult (lexicalResult combine zero hit)

variable {combine zero} {merged lexical semantic done : List (Hit σ)} {hit : Hit σ}
  {results : List (SearchResult σ)} {result : SearchResult σ}

theorem any_sameKey : results.any (sameKey · result) = true ↔
    ∃ r ∈ results, ResultKey.fromResult r = ResultKey.fromResult result := by
  simp [sameKey]

/-- Results with keys of their own are only put one behind the other. -/
theorem foldl_insertResult (rs results : List (SearchResult σ))
    (h : ((results ++ rs).map ResultKey.fromResult).Nodup) :
    rs.foldl insertResult results = results ++ rs := by
  induction rs generalizing results with
  | nil => exact (List.append_nil results).symm
  | cons r rs ih =>
      have hnew : ¬ results.any (sameKey · r) = true := by
        rw [any_sameKey]
        rintro ⟨old, hold, hsame⟩
        rw [List.map_append, List.nodup_append] at h
        exact h.2.2 _ (List.mem_map_of_mem hold) _ List.mem_cons_self hsame
      rw [List.foldl_cons, insertResult, if_neg hnew, ih _ (by simpa using h)]
      exact List.append_assoc results [r] rs

/-- The results of the lexical engine, into which some of the semantic hits are merged. -/
structure Merged (combine : σ → σ → σ) (zero : σ) (lexical done : List (Hit σ))
    (results : List (SearchResult σ)) : Prop where
  once : (results.map (·.source)).Nodup
  kept : ∀ l ∈ lexical, ∃ r ∈ results, r.source = l.source
  found : ∀ r ∈ results, (∃ l ∈ lexical, l.source = r.source) ∨ ∃ s ∈ done, s.source = r.source
  keys : ∀ r ∈ results, ∀ l ∈ lexical, l.source = r.source →
    ResultKey.fromResult r = l.resultKey combine zero
  scores : ∀ r ∈ results, ∀ l ∈ lexical, l.source = r.source → r.lexicalScore = some l.score ∧
    ∀ s ∈ done, s.source = r.source →
      r.semanticScore = some s.score ∧ r.score = combine l.score s.score

theorem Merged.start (h : (lexical.map (·.source)).Nodup) :
    Merged combine zero lexical [] (lexical.map (lexicalResult combine zero)) := by
  have hsame : ∀ l ∈ lexical, ∀ r ∈ lexical.map (lexicalResult combine zero),
      l.source = r.source → r = lexicalResult combine zero l := by
    intro l hl r hr hsource
    obtain ⟨l', hl', rfl⟩ := List.mem_map.mp hr
    rw [List.inj_on_of_nodup_map h hl hl' hsource]
  refine ⟨?_, fun l hl => ⟨_, List.mem_map_of_mem hl, rfl⟩, fun r hr => .inl ?_,
    fun r hr l hl hsource => ?_, fun r hr l hl hsource => ?_⟩
  · rw [List.map_map]
    exact h
  · obtain ⟨l, hl, rfl⟩ := List.mem_map.mp hr
    exact ⟨l, hl, rfl⟩
  · rw [hsame l hl r hr hsource]
    rfl
  · rw [hsame l hl r hr hsource]
    exact ⟨rfl, fun s hs => absurd hs List.not_mem_nil⟩

theorem addScore_same (existing : SearchResult σ) :
    (addScore combine zero result existing).source = existing.source ∧
      (addScore combine zero result existing).lexicalScore = existing.lexicalScore ∧
      ResultKey.fromResult (addScore combine zero result existing) =
        ResultKey.fromResult existing := by
  unfold addScore
  split <;> exact ⟨rfl, rfl, rfl⟩

theorem sameKey_semanticResult {r : SearchResult σ} :
    sameKey r (semanticResult combine zero hit) = true ↔
      ResultKey.fromResult r = hit.resultKey combine zero := decide_eq_true_iff

/-- The key of a hit is that of the lexical hits of its source, and of no others. -/
def Hit.KeyedAlike (combine : σ → σ → σ) (zero : σ) (lexical : List (Hit σ)) (hit : Hit σ) : Prop :=
  ∀ l ∈ lexical, l.source = hit.source ↔ l.resultKey combine zero = hit.resultKey combine zero

theorem mem_snoc {x y : Hit σ} (h : x ∈ done ++ [y]) : x ∈ done ∨ x = y :=
  (List.mem_append.mp h).imp id List.mem_singleton.mp

/-- A hit adds its score to the result that has its key. -/
theorem Merged.addScore (h : Merged combine zero lexical done results)
    (hnew : hit.source ∉ done.map (·.source)) (hsame : hit.KeyedAlike combine zero lexical) :
    Merged combine zero lexical (done ++ [hit])
      (results.map (Sources.addScore combine zero (semanticResult combine zero hit))) where
  once := by
    rw [List.map_map, show (·.source) ∘ Sources.addScore combine zero _ = (·.source) from
      funext fun r => (addScore_same r).1]
    exact h.once
  kept l hl := by
    obtain ⟨r, hr, hsource⟩ := h.kept l hl
    exact ⟨_, List.mem_map_of_mem hr, (addScore_same r).1.trans hsource⟩
  found r' hr' := by
    obtain ⟨r, hr, rfl⟩ := List.mem_map.mp hr'
    rw [(addScore_same r).1]
    exact (h.found r hr).imp id fun ⟨s, hs, hsource⟩ => ⟨s, List.mem_append_left _ hs, hsource⟩
  keys r' hr' l hl hsource := by
    obtain ⟨r, hr, rfl⟩ := List.mem_map.mp hr'
    rw [(addScore_same r).1] at hsource
    rw [(addScore_same r).2.2]
    exact h.keys r hr l hl hsource
  scores r' hr' l hl hsource := by
    obtain ⟨r, hr, rfl⟩ := List.mem_map.mp hr'
    rw [(addScore_same r).1] at hsource ⊢
    rw [(addScore_same r).2.1]
    obtain ⟨hlexical, hsemantic⟩ := h.scores r hr l hl hsource
    have hkey := h.keys r hr l hl hsource
    refine ⟨hlexical, fun s hs hown => ?_⟩
    unfold Sources.addScore
    by_cases hmatch : sameKey r (semanticResult combine zero hit) = true
    · -- then the hit is of the same source, which has no other hit
      have hhit : l.source = hit.source := by
        rw [hsame l hl, ← hkey]
        exact sameKey_semanticResult.mp hmatch
      rcases mem_snoc hs with hold | rfl
      · have hmem : s.source ∈ done.map (·.source) := List.mem_map_of_mem hold
        rw [hown, ← hsource, hhit] at hmem
        exact absurd hmem hnew
      · rw [if_pos hmatch, hlexical]
        exact ⟨rfl, rfl⟩
    · rw [if_neg hmatch]
      rcases mem_snoc hs with hold | rfl
      · exact hsemantic s hold hown
      · refine absurd (sameKey_semanticResult.mpr ?_) hmatch
        rw [hkey]
        exact (hsame l hl).mp (hsource.trans hown.symm)

/-- A hit whose key no result has becomes a result of its own. -/
theorem Merged.append (h : Merged combine zero lexical done results)
    (hnew : hit.source ∉ done.map (·.source)) (hsame : hit.KeyedAlike combine zero lexical)
    (hnone : ∀ r ∈ results, ResultKey.fromResult r ≠ hit.resultKey combine zero) :
    Merged combine zero lexical (done ++ [hit])
      (results ++ [semanticResult combine zero hit]) := by
  have hother : ∀ l ∈ lexical, l.source ≠ hit.source := by
    intro l hl hsource
    obtain ⟨r, hr, hown⟩ := h.kept l hl
    exact hnone r hr ((h.keys r hr l hl hown.symm).trans ((hsame l hl).mp hsource))
  have hresults : ∀ r' ∈ results ++ [semanticResult combine zero hit],
      r' ∈ results ∨ r' = semanticResult combine zero hit := fun r' hr' =>
    (List.mem_append.mp hr').imp id List.mem_singleton.mp
  refine ⟨?_, fun l hl => ?_, fun r' hr' => ?_, fun r' hr' l hl hsource => ?_,
    fun r' hr' l hl hsource => ?_⟩
  · rw [List.map_append, List.nodup_append]
    refine ⟨h.once, List.nodup_singleton _, ?_⟩
    rintro source hmem _ hlast rfl
    obtain ⟨r, hr, rfl⟩ := List.mem_map.mp hmem
    have hrhit : r.source = hit.source := List.mem_singleton.mp hlast
    rcases h.found r hr with ⟨l, hl, hown⟩ | ⟨s, hs, hown⟩
    · exact hother l hl (hown.trans hrhit)
    · exact hnew (hrhit ▸ hown ▸ List.mem_map_of_mem hs)
  · obtain ⟨r, hr, hsource⟩ := h.kept l hl
    exact ⟨r, List.mem_append_left _ hr, hsource⟩
  · rcases hresults r' hr' with hr | rfl
    · exact (h.found r' hr).imp id fun ⟨s, hs, hsource⟩ =>
        ⟨s, List.mem_append_left _ hs, hsource⟩
    · exact .inr ⟨hit, List.mem_append_right _ (List.mem_singleton.mpr rfl), rfl⟩
  · rcases hresults r' hr' with hr | rfl
    · exact h.keys r' hr l hl hsource
    · exact absurd hsource (hother l hl)
  · rcases hresults r' hr' with hr | rfl
    · obtain ⟨hlexical, hsemantic⟩ := h.scores r' hr l hl hsource
      refine ⟨hlexical, fun s hs hown => ?_⟩
      rcases mem_snoc hs with hold | rfl
      · exact hsemantic s hold hown
      · exact absurd (hsource.trans hown.symm) (hother l hl)
    · exact absurd hsource (hother l hl)

/-- **The merge of hits that are keyed alike.** -/
theorem Merged.foldl (h : Merged combine zero lexical done results)
    (hnew : ((done ++ semantic).map (·.source)).Nodup)
    (hsame : ∀ s ∈ semantic, s.KeyedAlike combine zero lexical) :
    Merged combine zero lexical (done ++ semantic)
      ((semantic.map (semanticResult combine zero)).foldl (mergeResult combine zero) results) := by
  induction semantic generalizing done results with
  | nil =>
      rw [List.append_nil]
      exact h
  | cons hit semantic ih =>
      have hhit : hit.source ∉ done.map (·.source) := by
        rw [List.map_append, List.nodup_append] at hnew
        exact fun hmem => hnew.2.2 _ hmem _ List.mem_cons_self rfl
      have halike := hsame hit List.mem_cons_self
      have hnext : Merged combine zero lexical (done ++ [hit])
          (mergeResult combine zero results (semanticResult combine zero hit)) := by
        unfold mergeResult
        split
        · exact h.addScore hhit halike
        · rename_i hnone
          rw [any_sameKey] at hnone
          exact h.append hhit halike fun r hr hkey => hnone ⟨r, hr, hkey⟩
      have hrest := ih hnext (by simpa using hnew) fun s hs => hsame s (List.mem_cons_of_mem _ hs)
      rwa [List.append_assoc] at hrest

end Merge

/-! ## What the engines report of a source -/

/-- The kind and the turn that the tables give a source of the lexical engine. -/
def Store.reported (store : Store) : SourceKey → Option (SourceKind × Option Int)
  | .event session byteOffset blockOrd => do
      let block ← store.blocks[(session, byteOffset, blockOrd)]?
      let event ← store.events[(session, byteOffset)]?
      guard (block.kind = .text)
      let kind ← eventKind event.speaker block
      some (kind, store.turnAt session event.timestamp)
  | .operation session turnId operationOrd result =>
      (store.operations[(session, turnId, operationOrd)]?).map fun o =>
        (if result then o.resultKind else .toolCall, some turnId)
  | .turn session turnId =>
      (store.turns[(session, turnId)]?).map fun _ => (.turnDigest, some turnId)

/-- The columns that a source with this key can have. -/
def Columns.Fits (e : Columns) : SourceKey → Prop
  | .event .. =>
      e.operationOrd = none ∧ e.sourceKind ≠ .toolCall ∧ e.sourceKind ≠ .toolResult ∧
        e.sourceKind ≠ .turnDigest
  | .operation _ turnId operationOrd result =>
      e.turnId = some turnId ∧ e.operationOrd = some operationOrd ∧ e.sourceKind.isTool = true ∧
        (e.sourceKind = .toolCall ↔ result = false)
  | .turn _ turnId => e.sourceKind = .turnDigest ∧ e.turnId = some turnId ∧ e.operationOrd = none

def offsetOf : SourceKey → Option Int
  | .event _ byteOffset _ => some byteOffset
  | _ => none

def blockOrdOf : SourceKey → Option Int
  | .event _ _ blockOrd => some blockOrd
  | _ => none

/-- The row is of the source with this key. -/
structure Store.Row.Of (row : Store.Row) (key : SourceKey) : Prop where
  session : row.session = key.session
  byteOffset : row.columns.sourceKind.isTool = false → row.byteOffset = offsetOf key
  blockOrd : row.columns.sourceKind.isTool = false → row.blockOrd = blockOrdOf key
  fits : row.columns.Fits key

section Rows

variable {store : Store} {lower : String → String} {filters : SearchFilters} {key key' : SourceKey}
  {row row' : Store.Row} {e : Columns} {source : EmbeddingSource}

theorem eventKind_text {speaker : Option Speaker} {block : BlockRow} {kind : SourceKind}
    (hkind : eventKind speaker block = some kind) (htext : block.kind = .text) :
    kind.isTool = false ∧ kind ≠ .turnDigest := by
  unfold eventKind at hkind
  rw [htext] at hkind
  split at hkind <;> first | cases hkind <;> exact ⟨rfl, nofun⟩ | simp_all

theorem eventKind_event {speaker : Option Speaker} {block : BlockRow} {kind : SourceKind}
    (hkind : eventKind speaker block = some kind) :
    kind ≠ .toolCall ∧ kind ≠ .toolResult ∧ kind ≠ .turnDigest := by
  unfold eventKind at hkind
  split at hkind
  · cases hkind
    exact ⟨nofun, nofun, nofun⟩
  · cases hkind
    exact ⟨nofun, nofun, nofun⟩
  · cases hkind
    exact ⟨nofun, nofun, nofun⟩
  · split at hkind <;> cases hkind
    exact ⟨nofun, nofun, nofun⟩
  · cases hkind

theorem resultKind_isTool (o : OperationRow) :
    o.resultKind.isTool = true ∧ o.resultKind ≠ .toolCall := by
  unfold OperationRow.resultKind
  split <;> exact ⟨rfl, nofun⟩

/-- **A lexical row is what the tables report.** -/
theorem lexicalRow_reported (h : store.lexicalRow lower filters key = some row) :
    row.Of key ∧ store.reported key = some (row.columns.sourceKind, row.columns.turnId) ∧
      ((offsetOf key).isSome = true → row.columns.sourceKind.isTool = false) := by
  cases key with
  | event session byteOffset blockOrd =>
      simp only [Store.lexicalRow, Store.lexicalBlock, Option.bind_eq_bind,
        Option.bind_eq_some_iff, Option.guard_eq_some', Option.some.injEq] at h
      obtain ⟨block, hblock, event, hevent, cs, hcs, _, htext, text, _, _, _, kind, hkind, _, _, _,
        _, rfl⟩ := h
      obtain ⟨htool, hdigest⟩ := eventKind_text hkind htext
      obtain ⟨hcall, hresult, -⟩ := eventKind_event hkind
      refine ⟨⟨rfl, fun _ => rfl, fun _ => rfl, rfl, hcall, hresult, hdigest⟩, ?_, fun _ => htool⟩
      simp [Store.reported, hblock, hevent, htext, hkind, guard]
  | operation session turnId operationOrd result =>
      have hrow : ∃ o kind text, store.operations[(session, turnId, operationOrd)]? = some o ∧
          kind = (if result then o.resultKind else .toolCall) ∧
          store.lexicalTool lower filters session turnId operationOrd o kind text = some row := by
        cases result <;>
        · simp only [Store.lexicalRow, Store.lexicalCall, Store.lexicalResult, Option.bind_eq_bind,
            Option.bind_eq_some_iff] at h
          obtain ⟨o, ho, _, _, hrow⟩ := h
          exact ⟨o, _, _, ho, rfl, hrow⟩
      obtain ⟨o, kind, text, ho, rfl, hrow⟩ := hrow
      simp only [Store.lexicalTool, Option.bind_eq_bind, Option.bind_eq_some_iff,
        Option.some.injEq] at hrow
      obtain ⟨turn, _, cs, _, _, _, _, _, _, _, _, _, _, _, rfl⟩ := hrow
      have htool : (if result then o.resultKind else .toolCall).isTool = true := by
        cases result
        · rfl
        · exact (resultKind_isTool o).1
      refine ⟨⟨rfl, fun hplain => ?_, fun hplain => ?_, rfl, rfl, htool, ?_⟩, ?_, by rintro ⟨⟩⟩
      · exact absurd htool (by rw [hplain]; decide)
      · exact absurd htool (by rw [hplain]; decide)
      · cases result
        · exact iff_of_true rfl rfl
        · exact iff_of_false (resultKind_isTool o).2 (by decide)
      · rw [Store.reported, ho]
        rfl
  | turn session turnId =>
      simp only [Store.lexicalRow, Store.lexicalDigest, Option.bind_eq_bind,
        Option.bind_eq_some_iff, Option.some.injEq] at h
      obtain ⟨turn, hturn, cs, _, _, _, _, _, _, _, _, _, _, _, _, _, rfl⟩ := h
      refine ⟨⟨rfl, fun _ => rfl, fun _ => rfl, rfl, rfl, rfl⟩, ?_, by rintro ⟨⟩⟩
      rw [Store.reported, hturn]
      rfl

/-- A semantic row has the columns of its embedding. -/
theorem semanticRow_of (h : store.semanticRow lower filters key e = some row)
    (hfits : e.Fits key) : row.columns = e ∧ row.Of key := by
  simp only [Store.semanticRow, Option.bind_eq_bind, Option.bind_eq_some_iff,
    Option.some.injEq] at h
  obtain ⟨_, _, _, _, cs, _, _, _, _, _, rfl⟩ := h
  refine ⟨rfl, rfl, fun _ => ?_, fun _ => ?_, hfits⟩
  · cases key <;> rfl
  · cases key <;> rfl

/-- What the tables report is what a source is stored with. -/
theorem currentSource_reported (h : store.currentSource key = some source) :
    source.toColumns.Fits key ∧
      ∀ reported ∈ store.reported key, reported = (source.sourceKind, source.turnId) := by
  cases key with
  | event session byteOffset blockOrd =>
      simp only [Store.currentSource, Store.eventSource, Option.bind_eq_bind,
        Option.bind_eq_some_iff, Option.some.injEq] at h
      obtain ⟨block, hblock, event, hevent, cs, _, text, _, _, _, kind, hkind, rfl⟩ := h
      refine ⟨⟨rfl, eventKind_event hkind⟩, fun reported hreported => ?_⟩
      simp only [Store.reported, hblock, hevent, hkind, Option.bind_eq_bind, Option.bind_some,
        Option.mem_def, Option.bind_eq_some_iff, Option.some.injEq] at hreported
      obtain ⟨_, _, rfl⟩ := hreported
      rfl
  | operation session turnId operationOrd result =>
      cases result with
      | false =>
          simp only [Store.currentSource, Store.callSource, Option.bind_eq_bind,
            Option.bind_eq_some_iff, Option.some.injEq] at h
          obtain ⟨o, ho, cs, _, input, _, _, _, rfl⟩ := h
          refine ⟨⟨rfl, rfl, rfl, iff_of_true rfl rfl⟩, fun reported hreported => ?_⟩
          rw [Store.reported, ho] at hreported
          exact (Option.some.inj hreported).symm
      | true =>
          simp only [Store.currentSource, Store.resultSource, Option.bind_eq_bind,
            Option.bind_eq_some_iff, Option.some.injEq] at h
          obtain ⟨o, ho, cs, _, _, _, rfl⟩ := h
          refine ⟨⟨rfl, rfl, (resultKind_isTool o).1, iff_of_false (resultKind_isTool o).2 (by decide)⟩,
            fun reported hreported => ?_⟩
          rw [Store.reported, ho] at hreported
          exact (Option.some.inj hreported).symm
  | turn session turnId =>
      simp only [Store.currentSource, Store.digestSource, Option.bind_eq_bind,
        Option.bind_eq_some_iff, Option.some.injEq] at h
      obtain ⟨turn, hturn, cs, _, _, _, rfl⟩ := h
      refine ⟨⟨rfl, rfl, rfl⟩, fun reported hreported => ?_⟩
      rw [Store.reported, hturn] at hreported
      exact (Option.some.inj hreported).symm

/-! ## Which sources have the same key -/

theorem resultKey_of {σ : Type} {combine : σ → σ → σ} {zero : σ} {hit : Hit σ}
    (h : hit.row.Of hit.source) : hit.resultKey combine zero =
      { sourceKind := hit.row.columns.sourceKind
        sessionUuid := hit.source.session
        byteOffset := if hit.row.columns.sourceKind.isTool then none else offsetOf hit.source
        blockOrd := if hit.row.columns.sourceKind.isTool then none else blockOrdOf hit.source
        turnId := hit.row.columns.turnId
        operationOrd := hit.row.columns.operationOrd } := by
  unfold Hit.resultKey ResultKey.fromResult lexicalResult rowToAnySearchResult
  cases htool : hit.row.columns.sourceKind.isTool
  · simp [h.session, h.byteOffset htool, h.blockOrd htool]
  · simp [h.session]

/-- **The key of a lexical hit names its source.** -/
theorem source_of_resultKey {σ : Type} {combine : σ → σ → σ} {zero : σ} {l s : Hit σ}
    (hl : l.row.Of l.source) (hs : s.row.Of s.source)
    (hplain : (offsetOf l.source).isSome = true → l.row.columns.sourceKind.isTool = false)
    (h : l.resultKey combine zero = s.resultKey combine zero) : l.source = s.source := by
  rw [resultKey_of hl, resultKey_of hs] at h
  simp only [ResultKey.mk.injEq] at h
  obtain ⟨hkind, hsession, hoffset, hblock, hturn, hord⟩ := h
  have hfits := hl.fits
  have hfits' := hs.fits
  rw [← hkind] at hoffset hblock
  generalize l.source = key at *
  generalize s.source = key' at *
  cases key with
  | event session byteOffset blockOrd =>
      rw [hplain rfl] at hoffset hblock
      cases key' with
      | event session' byteOffset' blockOrd' =>
          obtain rfl : session = session' := hsession
          obtain rfl : byteOffset = byteOffset' := Option.some.inj hoffset
          obtain rfl : blockOrd = blockOrd' := Option.some.inj hblock
          rfl
      | operation => cases hoffset
      | turn => cases hoffset
  | operation session turnId operationOrd result =>
      obtain ⟨hturnId, hoperationOrd, htool, hcall⟩ := hfits
      cases key' with
      | event =>
          cases hoperationOrd.symm.trans (hord.trans hfits'.1)
      | operation session' turnId' operationOrd' result' =>
          obtain ⟨hturnId', hoperationOrd', -, hcall'⟩ := hfits'
          obtain rfl : session = session' := hsession
          obtain rfl : turnId = turnId' :=
            Option.some.inj (hturnId.symm.trans (hturn.trans hturnId'))
          obtain rfl : operationOrd = operationOrd' :=
            Option.some.inj (hoperationOrd.symm.trans (hord.trans hoperationOrd'))
          rw [← hkind, hcall] at hcall'
          obtain rfl : result = result' := by
            cases result <;> cases result' <;> simp_all
          rfl
      | turn =>
          rw [hkind, hfits'.1] at htool
          cases htool
  | turn session turnId =>
      obtain ⟨hdigest, hturnId, hnone⟩ := hfits
      cases key' with
      | event => exact absurd (hkind.symm.trans hdigest) hfits'.2.2.2
      | operation =>
          have htool := hfits'.2.2.1
          rw [← hkind, hdigest] at htool
          cases htool
      | turn session' turnId' =>
          obtain rfl : session = session' := hsession
          obtain rfl : turnId = turnId' :=
            Option.some.inj (hturnId.symm.trans (hturn.trans hfits'.2.1))
          rfl

end Rows

/-! ## Embeddings that agree with the tables -/

namespace Indexer

/-- The sources that a pass has read, and will persist as it read them. -/
def inHand : Work → List EmbeddingSource
  | .loading _ sources _ => sources
  | .loaded sources => sources
  | _ => []

/-- The columns fit the source, and say what the tables report. -/
def AgreesOn (store : Store) (key : SourceKey) (e : Columns) : Prop :=
  e.Fits key ∧ ∀ reported ∈ store.reported key, reported = (e.sourceKind, e.turnId)

/-- Every embedding says what the tables report, and so does what a pass has in hand. -/
structure Agreed (i : Indexer) : Prop where
  embedded : ∀ (key : SourceKey) (chunk : Nat) (row : EmbeddingRow),
    (i.embeddings key)[chunk]? = some row → AgreesOn i.store key row.toColumns
  hand : ∀ source ∈ inHand i.work, AgreesOn i.store source.sourceKey source.toColumns

/-- A transaction that changes the kind or the turn of a source leaves it no embeddings, and no pass
has it in hand. -/
def KeepsReported (i : Indexer) : Action → Prop
  | .transaction began statements =>
      let j := statements.foldl (execute began) i
      ∀ key, j.embeddings key ≠ ∅ ∨ key ∈ (inHand i.work).map (·.sourceKey) →
        ∀ reported ∈ j.store.reported key, reported ∈ i.store.reported key
  | _ => True

variable {hashText : String → String} {config : Config} {i j k : Indexer} {a : Action}
  {key : SourceKey} {store : Store} {source : EmbeddingSource} {e e' : Columns}

/-- A row that keeps its kind and its turn. -/
theorem AgreesOn.upsert (hold : AgreesOn store key e) (hnew : AgreesOn store key e')
    (repoName : Option String) :
    AgreesOn store key ⟨e.sourceKind, e.turnId, e'.operationOrd, repoName⟩ := by
  refine ⟨?_, hold.2⟩
  cases key with
  | event => exact ⟨hnew.1.1, hold.1.2⟩
  | operation => exact ⟨hold.1.1, hnew.1.2.1, hold.1.2.2⟩
  | turn => exact ⟨hold.1.1, hold.1.2.1, hnew.1.2.2⟩

theorem agrees_upserts (chunks : List (String × Nat)) (rows : Table Nat EmbeddingRow)
    (hsource : AgreesOn store key source.toColumns)
    (hrows : ∀ (chunk : Nat) (row : EmbeddingRow), rows[chunk]? = some row →
      AgreesOn store key row.toColumns) (chunk : Nat) (row : EmbeddingRow)
    (hrow : (chunks.foldl (fun rows chunk =>
      upsertEmbedding hashText config source rows (chunk.2, chunk.1)) rows)[chunk]? = some row) :
    AgreesOn store key row.toColumns := by
  induction chunks generalizing rows with
  | nil => exact hrows chunk row hrow
  | cons first chunks ih =>
      refine ih _ (fun ord row hrow => ?_) hrow
      by_cases hord : first.2 = ord
      · subst hord
        dsimp only [upsertEmbedding] at hrow
        rw [Table.lookup_insert_self] at hrow
        obtain rfl := Option.some.inj hrow
        cases hold : rows[first.2]? with
        | none => exact hsource
        | some old => exact (hrows _ old hold).upsert hsource _
      · dsimp only [upsertEmbedding] at hrow
        rw [Table.lookup_insert_ne _ _ hord] at hrow
        exact hrows ord row hrow

theorem agrees_writeChunks {rows : Table Nat EmbeddingRow}
    (hsource : AgreesOn store key source.toColumns)
    (hrows : ∀ (chunk : Nat) (row : EmbeddingRow), rows[chunk]? = some row →
      AgreesOn store key row.toColumns) (chunk : Nat) (row : EmbeddingRow)
    (hrow : (writeChunks hashText config source rows)[chunk]? = some row) :
    AgreesOn store key row.toColumns := by
  rw [writeChunks, Std.ExtTreeMap.getElem?_filter'] at hrow
  exact agrees_upserts _ rows hsource hrows chunk row (Option.eq_some_of_filter_eq_some hrow)

theorem embeddings_execute (stamp : Nat) (i : Indexer) (statement : Statement) {chunk : Nat}
    {row : EmbeddingRow}
    (h : ((execute stamp i statement).embeddings key)[chunk]? = some row) :
    (i.embeddings key)[chunk]? = some row := by
  cases statement with
  | tables | enqueueEvent | enqueueDigest => exact h
  | upsertOperation key' kind contentHash =>
      simp only [execute, upsertOperation] at h
      split at h
      · exact h
      · simp only [mark, putSource, Function.update_apply] at h
        split at h
        · simp at h
        · exact h
  | markDeleted key' =>
      simp only [execute, markSourcesDeleted] at h
      split at h
      · simp at h
      · exact h
  | removeSession session =>
      simp only [execute, removeSession] at h
      split at h
      · simp at h
      · exact h

/-- A transaction writes no embeddings. -/
theorem embeddings_transaction (stamp : Nat) (statements : List Statement) (i : Indexer)
    {chunk : Nat} {row : EmbeddingRow}
    (h : ((statements.foldl (execute stamp) i).embeddings key)[chunk]? = some row) :
    (i.embeddings key)[chunk]? = some row := by
  induction statements generalizing i with
  | nil => exact h
  | cons statement statements ih => exact embeddings_execute stamp i statement (ih _ h)

theorem Agreed.transaction (h : i.Agreed) {began : Nat} {statements : List Statement}
    (hok : i.KeepsReported (.transaction began statements)) :
    (statements.foldl (execute began) i).Agreed := by
  obtain ⟨-, hwork, -, -⟩ := transaction_frame began statements i
  refine ⟨fun key chunk row hrow => ?_, fun source hsource => ?_⟩
  · obtain ⟨hfits, hreported⟩ := h.embedded key chunk row
      (embeddings_transaction began statements i hrow)
    refine ⟨hfits, fun reported hmem => hreported reported (hok key (.inl fun hempty => ?_) _ hmem)⟩
    rw [hempty] at hrow
    simp at hrow
  · rw [hwork] at hsource
    obtain ⟨hfits, hreported⟩ := h.hand source hsource
    exact ⟨hfits, fun reported hmem => hreported reported
      (hok source.sourceKey (.inr (List.mem_map_of_mem hsource)) _ hmem)⟩

/-- What a pass writes agrees, since what it has in hand does. -/
theorem Agreed.persist (wrong : List SourceKey) (sources : List EmbeddingSource) (i : Indexer)
    (hsources : ∀ source ∈ sources, AgreesOn i.store source.sourceKey source.toColumns)
    (h : ∀ (key : SourceKey) (chunk : Nat) (row : EmbeddingRow),
      (i.embeddings key)[chunk]? = some row → AgreesOn i.store key row.toColumns)
    (key : SourceKey) (chunk : Nat) (row : EmbeddingRow)
    (hrow : ((sources.foldl (persistSource hashText config wrong) i).embeddings key)[chunk]? =
      some row) : AgreesOn i.store key row.toColumns := by
  induction sources generalizing i with
  | nil => exact h key chunk row hrow
  | cons source sources ih =>
      have hstore := (persistSource_frame hashText config wrong i source).2.1
      rw [← hstore] at h hsources ⊢
      refine ih _ (fun s hs => hsources s (List.mem_cons_of_mem _ hs))
        (fun key' chunk row hrow => ?_)
        hrow
      unfold persistSource at hrow
      split at hrow
      · exact h key' chunk row hrow
      · simp only [markSourceIndexed, Function.update_apply] at hrow
        split at hrow
        · rename_i hkey
          subst hkey
          exact agrees_writeChunks (hsources source List.mem_cons_self) (h source.sourceKey) chunk
            row hrow
        · exact h key' chunk row hrow

theorem Agreed.of_deleted (h : i.Agreed) (stamp : Nat) (gone : SourceKey → Bool) {chunk : Nat}
    {row : EmbeddingRow}
    (hrow : ((i.markSourcesDeleted stamp gone).embeddings key)[chunk]? = some row) :
    AgreesOn i.store key row.toColumns := by
  simp only [markSourcesDeleted] at hrow
  split at hrow
  · simp at hrow
  · exact h.embedded key chunk row hrow

/-- A step that leaves store and embeddings alone, and has nothing in hand. -/
theorem Agreed.of_same (h : i.Agreed) (hstore : j.store = i.store)
    (hembeddings : j.embeddings = i.embeddings) (hhand : ∀ s ∈ inHand j.work, s ∈ inHand i.work) :
    j.Agreed := by
  refine ⟨fun key chunk row hrow => ?_, fun source hsource => ?_⟩
  · rw [hembeddings] at hrow
    exact hstore ▸ h.embedded key chunk row hrow
  · exact hstore ▸ h.hand source (hhand source hsource)

theorem Agreed.act (h : i.Agreed) (hok : i.KeepsReported a)
    (hact : i.act hashText config a = some j) : j.Agreed := by
  cases a with
  | transaction began statements =>
      simp only [Indexer.act] at hact
      split at hact <;> cases hact
      exact h.transaction hok
  | upsertSeen =>
      simp only [Indexer.act] at hact
      split at hact
      · obtain ⟨run, -, rfl⟩ := Option.map_eq_some_iff.mp hact
        exact h.of_same rfl rfl fun s hs => absurd hs List.not_mem_nil
      · cases hact
  | saveCursor =>
      simp only [Indexer.act] at hact
      split at hact <;> cases hact
      refine h.of_same rfl rfl fun s hs => ?_
      dsimp only at hs
      split at hs <;> exact absurd hs List.not_mem_nil
  | deleteStale =>
      simp only [Indexer.act] at hact
      split at hact
      · obtain ⟨run, -, rfl⟩ := Option.map_eq_some_iff.mp hact
        exact ⟨fun key chunk row hrow =>
          h.of_deleted i.now (fun key => (i.sources key).any (stale run key)) hrow,
          fun s hs => absurd hs List.not_mem_nil⟩
      · cases hact
  | reindex repo session =>
      simp only [Indexer.act] at hact
      split at hact <;> cases hact
      exact h.of_same rfl rfl fun s => id
  | loadPage r limit | beginPass keys =>
      simp only [Indexer.act] at hact
      split at hact
      · split at hact <;> cases hact
        exact h.of_same rfl rfl fun s hs => absurd hs List.not_mem_nil
      · cases hact
  | complete | failRun =>
      simp only [Indexer.act] at hact
      split at hact <;> cases hact <;>
        exact h.of_same rfl rfl fun s hs => absurd hs List.not_mem_nil
  | abandon =>
      cases hact
      exact h.of_same rfl rfl fun s hs => absurd hs List.not_mem_nil
  | loadSource =>
      simp only [Indexer.act] at hact
      split at hact
      · rename_i key todo sources deleted hwork
        have hhand : inHand i.work = sources := by rw [hwork]; rfl
        split at hact
        · rename_i source hsource
          cases hact
          refine ⟨h.embedded, fun s hs => ?_⟩
          rcases List.mem_append.mp hs with hold | hnew
          · exact h.hand s (hhand ▸ hold)
          · obtain rfl := List.mem_singleton.mp hnew
            rw [Store.sourceKey_of_currentSource hsource]
            exact currentSource_reported hsource
        · cases hact
          exact ⟨h.embedded, fun s hs => h.hand s (hhand ▸ hs)⟩
      · cases hact
  | finishLoad =>
      simp only [Indexer.act] at hact
      split at hact
      · rename_i sources deleted hwork
        have hhand : inHand i.work = sources := by rw [hwork]; rfl
        cases hact
        exact ⟨fun key chunk row hrow => h.of_deleted i.now (fun key => key ∈ deleted) hrow,
          fun s hs => h.hand s (hhand ▸ hs)⟩
      · cases hact
  | persist wrong =>
      simp only [Indexer.act] at hact
      split at hact
      · rename_i sources hwork
        have hhand : inHand i.work = sources := by rw [hwork]; rfl
        cases hact
        have hstore := (persist_frame hashText config wrong sources i).1
        refine ⟨fun key chunk row hrow => ?_, fun s hs => absurd hs List.not_mem_nil⟩
        rw [show Indexer.store _ = i.store from hstore]
        exact Agreed.persist wrong sources i (fun s hs => h.hand s (hhand ▸ hs)) h.embedded key
          chunk row hrow
      · cases hact

theorem Agreed.step (h : i.Agreed) (hok : i.KeepsReported a)
    (hstep : i.step hashText config a = some k) : k.Agreed := by
  obtain ⟨j, hact, rfl⟩ := Option.map_eq_some_iff.mp hstep
  have hj := h.act hok hact
  exact ⟨hj.embedded, hj.hand⟩

/-- What holds between the statements of one search: the transactions change no kind and no turn. -/
def LeavesReported (i : Indexer) : Action → Prop
  | .transaction began statements =>
      ∀ key, (statements.foldl (execute began) i).store.reported key = i.store.reported key
  | _ => True

theorem LeavesReported.keeps (h : i.LeavesReported a) : i.KeepsReported a := by
  cases a with
  | transaction began statements => exact fun key _ reported hmem => h key ▸ hmem
  | _ => trivial

theorem LeavesReported.step (h : i.LeavesReported a) (hstep : i.step hashText config a = some k)
    (key : SourceKey) : k.store.reported key = i.store.reported key := by
  obtain ⟨j, hact, rfl⟩ := Option.map_eq_some_iff.mp hstep
  by_cases hother : ∀ began statements, a ≠ .transaction began statements
  · have hstore : j.store = i.store := (frame hact).store hother
    exact congrArg (Store.reported · key) hstore
  · push Not at hother
    obtain ⟨began, statements, rfl⟩ := hother
    simp only [Indexer.act] at hact
    split at hact <;> cases hact
    exact h key

end Indexer

/-! ## Answers -/

/-- What the lexical queries may answer: rows of sources, each once. The text match, the order and
the limits are left open. -/
structure LexicalAnswer {σ : Type} (store : Store) (lower : String → String)
    (filters : SearchFilters) (hits : List (Hit σ)) : Prop where
  once : (hits.map (·.source)).Nodup
  rows : ∀ hit ∈ hits, store.lexicalRow lower filters hit.source = some hit.row

/-- What the semantic query may answer: for each source, once, the row of one of its embeddings. -/
structure SemanticAnswer {σ : Type} (i : Indexer) (lower : String → String)
    (filters : SearchFilters) (hits : List (Hit σ)) : Prop where
  once : (hits.map (·.source)).Nodup
  rows : ∀ hit ∈ hits, ∃ (chunk : Nat) (e : EmbeddingRow),
    (i.embeddings hit.source)[chunk]? = some e ∧
      i.store.semanticRow lower filters hit.source e.toColumns = some hit.row

section Search

variable {σ : Type} {combine : σ → σ → σ} {zero : σ} {lower : String → String}
  {filters : SearchFilters} {lexical semantic : List (Hit σ)} {store : Store} {i : Indexer}

theorem LexicalAnswer.merged (h : LexicalAnswer store lower filters lexical) :
    Merged combine zero lexical []
      ((lexical.map (lexicalResult combine zero)).foldl insertResult []) := by
  have hkeys : (lexical.map (·.resultKey combine zero)).Nodup := by
    refine List.Nodup.map_on (fun l hl l' hl' hkey => ?_) (List.Nodup.of_map _ h.once)
    obtain ⟨hof, -, hplain⟩ := lexicalRow_reported (h.rows l hl)
    obtain ⟨hof', -, -⟩ := lexicalRow_reported (h.rows l' hl')
    exact List.inj_on_of_nodup_map h.once hl hl' (source_of_resultKey hof hof' hplain hkey)
  rw [foldl_insertResult _ [] (by rwa [List.nil_append, List.map_map]), List.nil_append]
  exact .start h.once

/-- **Hits of the same source have the same key**, when the embeddings agree with the tables. -/
theorem keyedAlike (hagreed : i.Agreed) (hlexical : LexicalAnswer store lower filters lexical)
    (hsemantic : SemanticAnswer i lower filters semantic)
    (hsame : ∀ key, i.store.reported key = store.reported key) :
    ∀ s ∈ semantic, s.KeyedAlike combine zero lexical := by
  intro s hs l hl
  obtain ⟨chunk, e, he, hrow⟩ := hsemantic.rows s hs
  obtain ⟨hfits, hagrees⟩ := hagreed.embedded s.source chunk e he
  obtain ⟨hcolumns, hsof⟩ := semanticRow_of hrow hfits
  obtain ⟨hlof, hreported, hplain⟩ := lexicalRow_reported (hlexical.rows l hl)
  refine ⟨fun hsource => ?_, source_of_resultKey hlof hsof hplain⟩
  rw [hsource, ← hsame] at hreported
  have hboth := hagrees _ hreported
  rw [← hcolumns, Prod.mk.injEq] at hboth
  have hord : l.row.columns.operationOrd = s.row.columns.operationOrd := by
    have hl' := hlof.fits
    have hs' := hsof.fits
    rw [hsource] at hl'
    cases hkey : s.source <;> rw [hkey] at hl' hs'
    · exact hl'.1.trans hs'.1.symm
    · exact hl'.2.1.trans hs'.2.1.symm
    · exact hl'.2.2.trans hs'.2.2.symm
  rw [resultKey_of hlof, resultKey_of hsof, hsource, hboth.1, hboth.2, hord]

theorem nodup_finalizeResults {before : SearchResult σ → SearchResult σ → Bool} {limit : Nat}
    {results : List (SearchResult σ)} (h : (results.map (·.source)).Nodup) :
    ((finalizeResults before limit results).map (·.source)).Nodup := by
  have hsorted : ((results.insertionSort fun left right => before left right).map
      (·.source)).Nodup := ((List.perm_insertionSort _ results).map _).nodup_iff.mpr h
  exact hsorted.sublist ((List.take_sublist _ _).map _)

theorem mem_finalizeResults {before : SearchResult σ → SearchResult σ → Bool} {limit : Nat}
    {results : List (SearchResult σ)} {r : SearchResult σ}
    (h : r ∈ finalizeResults before limit results) : r ∈ results :=
  List.mem_insertionSort _ |>.mp (List.mem_of_mem_take h)

end Search

/-- **Each source comes back once**, and with both scores when both engines have found it. The
transactions of the history leave the kind and the turn of a source as they are as long as it has
embeddings or is in the hands of a pass, and those that run during the search, of every source. -/
theorem hybrid_once {σ : Type} (combine : σ → σ → σ) (zero : σ)
    (before : SearchResult σ → SearchResult σ → Bool) (hashText lower : String → String)
    (config : Config) (start i j : Indexer) (hstart : ∀ key, start.embeddings key = ∅)
    (hidle : start.work = .idle)
    (hrun : Run (Indexer.step hashText config) Indexer.KeepsReported start i)
    (hsearch : Run (Indexer.step hashText config) Indexer.LeavesReported i j)
    (filters : SearchFilters) (limit : Nat) (lexical : List (Hit σ))
    (semantic : Option (List (Hit σ))) (hlexical : LexicalAnswer i.store lower filters lexical)
    (hsemantic : ∀ hits ∈ semantic, SemanticAnswer j lower filters hits)
    (results : List (SearchResult σ))
    (hresults : searchInner combine zero .hybrid before limit lexical semantic = some results) :
    (results.map (·.source)).Nodup ∧
      ∀ r ∈ results, ∀ l ∈ lexical, ∀ s ∈ semantic.getD [], l.source = r.source →
        s.source = r.source → r.lexicalScore = some l.score ∧ r.semanticScore = some s.score ∧
          r.score = combine l.score s.score := by
  have hempty : start.Agreed := by
    refine ⟨fun key chunk row hrow => ?_, fun source hsource => ?_⟩
    · rw [hstart key] at hrow
      simp at hrow
    · rw [hidle] at hsource
      exact absurd hsource List.not_mem_nil
  have hi : i.Agreed := hrun.invariant (fun _ _ _ h hok hstep => h.step hok hstep) hempty
  have hj : j.Agreed ∧ ∀ key, j.store.reported key = i.store.reported key :=
    hsearch.invariant
      (I := fun k => k.Agreed ∧ ∀ key, k.store.reported key = i.store.reported key)
      (fun _ _ _ h hok hstep => ⟨h.1.step hok.keeps hstep,
        fun key => (hok.step hstep key).trans (h.2 key)⟩) ⟨hi, fun _ => rfl⟩
  obtain ⟨merged, hmerged, hfinal⟩ : ∃ merged,
      Merged combine zero lexical (semantic.getD []) merged ∧
        results = finalizeResults before limit merged := by
    have hstart : Merged combine zero lexical []
        ((lexical.map (lexicalResult combine zero)).foldl insertResult []) := hlexical.merged
    cases semantic with
    | none => exact ⟨_, hstart, (Option.some.inj hresults).symm⟩
    | some hits =>
        have hhits := hsemantic hits rfl
        exact ⟨_, hstart.foldl hhits.once (keyedAlike hj.1 hlexical hhits hj.2),
          (Option.some.inj hresults).symm⟩
  subst hfinal
  refine ⟨nodup_finalizeResults hmerged.once, fun r hr l hl s hs hlexical hsemantic => ?_⟩
  obtain ⟨hlscore, hsscore⟩ := hmerged.scores r (mem_finalizeResults hr) l hl hlexical
  exact ⟨hlscore, hsscore s hs hsemantic⟩

/-! ## A block that is indexed before its turn is projected -/

/-- A search for what the assistant said. -/
def saidFilter : SearchFilters := { errorsFilter with errorsOnly := false }

def enqueueBlock : Action :=
  .transaction 0 [.enqueueEvent (.event 1 40 0) .assistantText "fixed"]

def indexBlock : List Action := [.beginPass [.event 1 40 0], .loadSource, .finishLoad, .persist []]

/-- The hit of the block, in this turn. -/
def blockHit (turnId : Option Int) : Hit Nat where
  source := .event 1 40 0
  row :=
    { columns := ⟨.assistantText, turnId, none, some "alpha"⟩
      session := 1
      byteOffset := some 40
      blockOrd := some 0
      timestamp := some 5
      text := "fixed" }
  score := 1

def weigh (l s : Nat) : Nat := 45 * l + 55 * s

def byScore (left right : SearchResult Nat) : Bool := right.score ≤ left.score

theorem lexicalAnswer_block {store : Store} {turnId : Option Int}
    (h : store.lexicalRow id saidFilter (.event 1 40 0) = some (blockHit turnId).row) :
    LexicalAnswer store id saidFilter [blockHit turnId] where
  once := List.nodup_singleton _
  rows hit hmem := by
    obtain rfl := List.mem_singleton.mp hmem
    exact h

/-- What is written for the block when it has no turn yet. -/
def blockEmbedding : EmbeddingRow :=
  { sourceKind := .assistantText, turnId := none, operationOrd := none, repoName := some "alpha"
    contentHash := "fixed", embeddingDimensions := 3, chunk := "fixed" }

theorem semanticAnswer_block {i : Indexer}
    (hrow : (i.embeddings (.event 1 40 0))[(0 : Nat)]? = some blockEmbedding)
    (h : i.store.semanticRow id saidFilter (.event 1 40 0) blockEmbedding.toColumns =
      some (blockHit none).row) :
    ∀ hits ∈ some [blockHit none], SemanticAnswer i id saidFilter hits := by
  rintro hits ⟨⟩
  refine ⟨List.nodup_singleton _, fun hit hmem => ?_⟩
  obtain rfl := List.mem_singleton.mp hmem
  exact ⟨0, blockEmbedding, hrow, h⟩

theorem hybrid_once_block :
    ∃ i results, runList (Indexer.step id sampleConfig) sampleIndexer
        (enqueueBlock :: indexBlock) = some i ∧
      searchInner weigh 0 .hybrid byScore 20 [blockHit none] (some [blockHit none]) =
        some results ∧ (results.map (·.source)).Nodup ∧
        ∀ r ∈ results, ∀ l ∈ [blockHit none], ∀ s ∈ (some [blockHit none]).getD [],
          l.source = r.source → s.source = r.source → r.lexicalScore = some l.score ∧
            r.semanticScore = some s.score ∧ r.score = weigh l.score s.score := by
  have hallowed : ∀ a ∈ indexBlock, ∀ i, Indexer.KeepsReported i a := by
    intro a ha i
    fin_cases ha <;> trivial
  have hfirst : sampleIndexer.KeepsReported enqueueBlock := by
    rintro key (hrows | hhand)
    · exact absurd rfl hrows
    · exact absurd hhand List.not_mem_nil
  refine ⟨_, _, rfl, rfl, hybrid_once weigh 0 byScore id id sampleConfig sampleIndexer _ _
    (fun _ => rfl) rfl ((Run.snoc (.refl _) hfirst rfl).trans (.of_allowed indexBlock hallowed rfl))
    (.refl _) saidFilter 20 _ _ (lexicalAnswer_block rfl)
    (semanticAnswer_block (by decide +kernel) rfl) _ rfl⟩

/-- The turn of the block is projected after it was indexed. -/
def projectTurn : Action :=
  .transaction 5 [.tables
    { sessionIn "alpha" with
      turns := (∅ : Table (SessionUuid × Int) TurnRow).insert (1, 7)
        ⟨0, 9, 9, false, "fix it", some "fix it", []⟩ }]

/-- The lexical engine reports the new turn, the embedding has none, even after a reindex. -/
theorem projected_block_twice :
    ¬ ∀ (σ : Type) (combine : σ → σ → σ) (zero : σ)
        (before : SearchResult σ → SearchResult σ → Bool) (hashText lower : String → String)
        (config : Config) (start i : Indexer), (∀ key, start.embeddings key = ∅) →
      start.work = .idle → Run (Indexer.step hashText config) anyStep start i →
      ∀ (filters : SearchFilters) (limit : Nat) (lexical : List (Hit σ))
        (semantic : Option (List (Hit σ))), LexicalAnswer i.store lower filters lexical →
      (∀ hits ∈ semantic, SemanticAnswer i lower filters hits) →
      ∀ results : List (SearchResult σ),
        searchInner combine zero .hybrid before limit lexical semantic = some results →
        (results.map (·.source)).Nodup ∧
          ∀ r ∈ results, ∀ l ∈ lexical, ∀ s ∈ semantic.getD [], l.source = r.source →
            s.source = r.source → r.lexicalScore = some l.score ∧
              r.semanticScore = some s.score ∧ r.score = combine l.score s.score := by
  intro honce
  have h := (honce Nat weigh 0 byScore id id sampleConfig sampleIndexer _ (fun _ => rfl) rfl
    (Run.of_runList (enqueueBlock :: indexBlock ++ projectTurn :: firstRun) rfl) saidFilter 20
    [blockHit (some 7)] (some [blockHit none]) (lexicalAnswer_block rfl)
    (semanticAnswer_block (by decide +kernel) rfl) _ rfl).1
  exact absurd h (by decide +kernel)

end Sulion.Retrieval.Sources
