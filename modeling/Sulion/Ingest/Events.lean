import Sulion.Lib.Table
import Sulion.Rust.Json

set_option autoImplicit false

/-! # Stored transcript records

A row of `events`, kept per session under its byte offset.
-/

namespace Sulion.Ingest

open Rust

/-- Which harness wrote a transcript. -/
inductive TranscriptSource
  | claudeCode
  | codex
  deriving DecidableEq, Repr

def TranscriptSource.agentId : TranscriptSource → String
  | claudeCode => "claude-code"
  | codex => "codex"

/-- `stored_event_kind`. -/
def storedEventKind (source : TranscriptSource) (value : Json) : String :=
  match source with
  | .claudeCode => ((value.get "type").bind Json.asStr).getD "unknown"
  | .codex =>
      let outer := (codexRecordKind value).getD ""
      let subtype := ((value.stringAt ["payload", "type"]).filter fun kind => !kind.isEmpty).getD
        "unknown"
      match outer with
      | "response_item" | "event_msg" => subtype
      | "" => subtype
      | _ => outer

/-- A row of `events`, as far as later steps read it. -/
structure EventRow where
  timestamp : Timestamp
  payload : Json
  /-- `inherited_history` marks a record copied from the session this one was forked from. -/
  subtype : Option String

/-- The subtype of a record that belongs to another session's history. -/
def inheritedHistory : String := "inherited_history"

/-- The events of one session, under their byte offsets. -/
abbrev EventTable := Table Int EventRow

/-- The last row before an offset that satisfies `p`
(`byte_offset < $2 … ORDER BY byte_offset DESC LIMIT 1`). -/
def lastEventBefore (events : EventTable) (byteOffset : Int) (p : EventRow → Bool) :
    Option (Int × EventRow) :=
  (events.toList.reverse).find? fun row => decide (row.1 < byteOffset) && p row.2

section LastEvent

variable {events : EventTable} {byteOffset k : Int} {row : EventRow} {p : EventRow → Bool}

theorem lastEventBefore_eq_none_iff :
    lastEventBefore events byteOffset p = none ↔
      ∀ (k : Int) (row : EventRow), events[k]? = some row → k < byteOffset → p row = false := by
  simp only [lastEventBefore, List.find?_eq_none, List.mem_reverse, Prod.forall,
    Std.ExtTreeMap.mem_toList_iff_getElem?_eq_some, Bool.and_eq_true, decide_eq_true_eq, not_and,
    Bool.not_eq_true]

/-- The row found is the last one that qualifies. -/
theorem lastEventBefore_eq_some_iff :
    lastEventBefore events byteOffset p = some (k, row) ↔
      events[k]? = some row ∧ k < byteOffset ∧ p row = true ∧
        ∀ (k' : Int) (row' : EventRow), events[k']? = some row' → k' < byteOffset → p row' = true →
          k' ≤ k := by
  have hfound : ∀ {k row}, lastEventBefore events byteOffset p = some (k, row) →
      events[k]? = some row ∧ k < byteOffset ∧ p row = true ∧
        ∀ (k' : Int) (row' : EventRow), events[k']? = some row' → k' < byteOffset → p row' = true →
          k' ≤ k := by
    intro k row h
    obtain ⟨hp, before, after, hsplit, hbefore⟩ := List.find?_eq_some_iff_append.mp h
    have hmem : (k, row) ∈ events.toList.reverse := by simp [hsplit]
    rw [List.mem_reverse, Std.ExtTreeMap.mem_toList_iff_getElem?_eq_some] at hmem
    rw [Bool.and_eq_true, decide_eq_true_eq] at hp
    refine ⟨hmem, hp.1, hp.2, fun k' row' hk' hlt hp' => ?_⟩
    have hmem' : (k', row') ∈ events.toList.reverse := by
      rw [List.mem_reverse, Std.ExtTreeMap.mem_toList_iff_getElem?_eq_some]
      exact hk'
    have hsorted : events.toList.reverse.Pairwise fun a b => b.1 < a.1 := by
      rw [List.pairwise_reverse]
      exact (Std.ExtTreeMap.ordered_keys_toList (t := events)).imp compare_lt_iff_lt.mp
    rw [hsplit] at hmem' hsorted
    rcases List.mem_append.mp hmem' with hb | hc
    · have := hbefore _ hb
      simp [hlt, hp'] at this
    · rcases List.mem_cons.mp hc with heq | ha
      · exact (congrArg Prod.fst heq).le
      · exact ((List.pairwise_append.mp hsorted).2.1.rel_head_tail ha).le
  refine ⟨hfound, fun ⟨hrow, hlt, hp, hlast⟩ => ?_⟩
  cases h : lastEventBefore events byteOffset p with
  | none =>
      have := lastEventBefore_eq_none_iff.mp h k row hrow hlt
      simp [hp] at this
  | some found =>
      obtain ⟨k', row'⟩ := found
      obtain ⟨hrow', hlt', hp', hlast'⟩ := hfound h
      obtain rfl : k' = k := le_antisymm (hlast _ _ hrow' hlt' hp') (hlast' _ _ hrow hlt hp)
      rw [hrow] at hrow'
      cases hrow'
      rfl

/-- A row behind all others is the last one, if it qualifies. -/
theorem lastEventBefore_insert
    (htop : ∀ (k' : Int) (row' : EventRow), events[k']? = some row' → k' < k)
    (hlt : k < byteOffset) :
    lastEventBefore (events.insert k row) byteOffset p =
      if p row then some (k, row) else lastEventBefore events byteOffset p := by
  split
  · rename_i hp
    refine lastEventBefore_eq_some_iff.mpr ⟨Table.lookup_insert_self _ _ _, hlt, hp, ?_⟩
    intro k' row' hk' _ _
    rw [Table.lookup_insert] at hk'
    split at hk'
    · rename_i heq
      exact heq ▸ le_refl _
    · exact (htop _ _ hk').le
  · rename_i hp
    have hlookup : ∀ (k' : Int) (row' : EventRow), p row' = true →
        ((events.insert k row)[k']? = some row' ↔ events[k']? = some row') := by
      intro k' row' hp'
      rw [Table.lookup_insert]
      split
      · rename_i heq
        subst heq
        refine ⟨fun h => ?_, fun h => absurd (htop _ _ h) (lt_irrefl _)⟩
        cases h
        exact absurd hp' hp
      · rfl
    cases h : lastEventBefore events byteOffset p with
    | none =>
        refine lastEventBefore_eq_none_iff.mpr fun k' row' hk' hlt' => ?_
        by_contra hp'
        have hp' : p row' = true := by simpa using hp'
        have := lastEventBefore_eq_none_iff.mp h k' row' ((hlookup _ _ hp').mp hk') hlt'
        simp [hp'] at this
    | some found =>
        obtain ⟨k', row'⟩ := found
        obtain ⟨hrow, hlt', hp', hlast⟩ := lastEventBefore_eq_some_iff.mp h
        exact lastEventBefore_eq_some_iff.mpr ⟨(hlookup _ _ hp').mpr hrow, hlt', hp',
          fun k'' row'' hk'' hlt'' hp'' => hlast k'' row'' ((hlookup _ _ hp'').mp hk'') hlt'' hp''⟩

end LastEvent

end Sulion.Ingest
