import Sulion.Lib.Totals
import Sulion.Timeline.Direct

set_option autoImplicit false

/-! # The counters of a timeline

`Consistent bound p` says that the counters and references of the tables `p` agree with each
other: turns are numbered in order of their ids, the counts of the session are the numbers of
rows, the operations of a turn are numbered from zero up to its count, and every row belongs
to a turn that exists. No id or call offset is above `bound`.

It is kept by each of the changes an event is made of, so by `Projection.step`.
-/

namespace Sulion.Timeline

open Sulion.Rust Table

/-! ## The invariant -/

/-- Turns are numbered in the order of their ids, and the session counts them and their
events. -/
structure TurnsConsistent (bound : Int) (state : SessionState) (turns : Table Int TurnRow) :
    Prop where
  keyed : Keyed TurnRow.turnId turns
  le_bound : ∀ (t : Int) (row : TurnRow), turns[t]? = some row → t ≤ bound
  ord_lt : ∀ (t : Int) (row : TurnRow) (t' : Int) (row' : TurnRow), turns[t]? = some row →
    turns[t']? = some row' → t < t' → row.turnOrd < row'.turnOrd
  ord_lt_next : ∀ (t : Int) (row : TurnRow), turns[t]? = some row →
    row.turnOrd < state.nextTurnOrd
  exists_ord : ∀ n < state.nextTurnOrd, ∃ (t : Int) (row : TurnRow), turns[t]? = some row ∧
    row.turnOrd = n
  count : state.turnCount = state.nextTurnOrd
  length : (rows turns).length = state.nextTurnOrd
  latest_mem : ∀ m, state.latestTurnId = some m → ∃ row, turns[m]? = some row
  le_latest : ∀ (t : Int) (row : TurnRow), turns[t]? = some row →
    ∃ m, state.latestTurnId = some m ∧ t ≤ m
  total : total TurnRow.eventCount turns = state.totalEventCount

/-- The operations of a turn are numbered from zero up to its count. -/
structure OpsConsistent (bound : Int) (turns : Table Int TurnRow) (ops : Table OpKey OpRow) :
    Prop where
  keyed : Keyed OpRow.key ops
  exists_iff : ∀ (t : Int) (n : Nat), (∃ op, ops[(t, n)]? = some op) ↔
    ∃ row : TurnRow, turns[t]? = some row ∧ n < row.operationCount
  offset : ∀ (k : OpKey) (op : OpRow), ops[k]? = some op → k.1 ≤ op.callOffset ∧
    op.callOffset ≤ bound

def Projection.HasTurn (p : Projection) (t : Int) : Prop := ∃ row, p.turns[t]? = some row

/-- Every row that names a turn names one that exists. -/
structure Referring (p : Projection) : Prop where
  item : ∀ (k : Int × Int) (item : TimelineChunk), p.items[k]? = some item → p.HasTurn k.1
  touch : ∀ (k : OpKey) (touches : List TimelineFileTouch), p.touches[k]? = some touches →
    p.HasTurn k.1
  usage : ∀ (id : String) (usage : MessageUsage), p.usage[id]? = some usage → p.HasTurn usage.turnId
  main : ∀ t, p.state.currentMain = some t → p.HasTurn t
  sidechain : ∀ t, p.state.currentSidechain = some t → p.HasTurn t

structure Consistent (bound : Int) (p : Projection) : Prop where
  bound_le : bound ≤ p.state.projectedThrough
  turns : TurnsConsistent bound p.state p.turns
  ops : OpsConsistent bound p.turns p.ops
  refs : Referring p

/-! ## Turns -/

section Turns

variable {bound bound' : Int} {state state' : SessionState} {turns : Table Int TurnRow}
  {f : TurnRow → TurnRow} {t : Int} {row : TurnRow}

/-- The state's counters are all that the invariant on turns reads. -/
theorem TurnsConsistent.withState (h : TurnsConsistent bound state turns)
    (hnext : state'.nextTurnOrd = state.nextTurnOrd) (hcount : state'.turnCount = state.turnCount)
    (hlatest : state'.latestTurnId = state.latestTurnId)
    (htotal : state'.totalEventCount = state.totalEventCount) :
    TurnsConsistent bound state' turns where
  keyed := h.keyed
  le_bound := h.le_bound
  ord_lt := h.ord_lt
  ord_lt_next := by rw [hnext]; exact h.ord_lt_next
  exists_ord := by rw [hnext]; exact h.exists_ord
  count := by rw [hnext, hcount]; exact h.count
  length := by rw [hnext]; exact h.length
  latest_mem := by rw [hlatest]; exact h.latest_mem
  le_latest := by rw [hlatest]; exact h.le_latest
  total := by rw [htotal]; exact h.total

theorem TurnsConsistent.mono (h : TurnsConsistent bound state turns) (hb : bound ≤ bound') :
    TurnsConsistent bound' state turns :=
  { h with le_bound := fun t row ht => (h.le_bound t row ht).trans hb }

/-- A change that keeps the seed keeps everything but the sum of the event counts. -/
theorem TurnsConsistent.modify (h : TurnsConsistent bound state turns)
    (hseed : TurnRow.KeepsSeed f)
    (htotal : Table.total TurnRow.eventCount (turns.modify t f) = state'.totalEventCount)
    (hnext : state'.nextTurnOrd = state.nextTurnOrd) (hcount : state'.turnCount = state.turnCount)
    (hlatest : state'.latestTurnId = state.latestTurnId) :
    TurnsConsistent bound state' (turns.modify t f) := by
  have hord (row row' : TurnRow) (hr : row' = row ∨ row' = f row) : row'.turnOrd = row.turnOrd := by
    rcases hr with rfl | rfl
    · rfl
    · exact (hseed row).2.1.symm
  refine
    { keyed := h.keyed.modify fun row => (hseed row).1.symm
      le_bound := ?_
      ord_lt := ?_
      ord_lt_next := ?_
      exists_ord := ?_
      count := by rw [hcount, hnext]; exact h.count
      length := ?_
      latest_mem := ?_
      le_latest := ?_
      total := htotal }
  · intro t' row' ht'
    obtain ⟨row, hrow, -⟩ := lookup_modify_eq_some ht'
    exact h.le_bound t' row hrow
  · intro t1 row1 t2 row2 h1 h2 hlt
    obtain ⟨old1, hold1, hr1⟩ := lookup_modify_eq_some h1
    obtain ⟨old2, hold2, hr2⟩ := lookup_modify_eq_some h2
    rw [hord old1 row1 hr1, hord old2 row2 hr2]
    exact h.ord_lt t1 old1 t2 old2 hold1 hold2 hlt
  · intro t' row' ht'
    obtain ⟨row, hrow, hr⟩ := lookup_modify_eq_some ht'
    rw [hord row row' hr, hnext]
    exact h.ord_lt_next t' row hrow
  · intro n hn
    rw [hnext] at hn
    obtain ⟨t', row, hrow, rfl⟩ := h.exists_ord n hn
    obtain ⟨row', hrow', hr⟩ := exists_lookup_modify (k := t) (f := f) hrow
    exact ⟨t', row', hrow', hord row row' hr⟩
  · rw [length_rows, total_modify_of_eq (fun _ => 1) turns t (g := f) fun _ => rfl, ← length_rows,
      hnext]
    exact h.length
  · intro m hm
    rw [hlatest] at hm
    obtain ⟨row, hrow⟩ := h.latest_mem m hm
    obtain ⟨row', hrow', -⟩ := exists_lookup_modify (k := t) (f := f) hrow
    exact ⟨row', hrow'⟩
  · intro t' row' ht'
    obtain ⟨row, hrow, -⟩ := lookup_modify_eq_some ht'
    rw [hlatest]
    exact h.le_latest t' row hrow

/-- A new turn, above all the others. -/
theorem TurnsConsistent.openTurn (h : TurnsConsistent bound state turns) (first : StoredEvent)
    (prompt sidechain : Bool) (hfirst : bound < first.byteOffset) :
    TurnsConsistent first.byteOffset (state.openTurn first prompt sidechain)
      (turns.insert first.byteOffset (newTurn state first prompt sidechain)) := by
  have hbelow (t : Int) (row : TurnRow) (ht : turns[t]? = some row) : t < first.byteOffset :=
    lt_of_le_of_lt (h.le_bound t row ht) hfirst
  have hfresh : turns[first.byteOffset]? = none := by
    cases hrow : turns[first.byteOffset]? with
    | none => rfl
    | some row => exact absurd (hbelow _ _ hrow) (lt_irrefl _)
  have hcases (t : Int) (row : TurnRow)
      (ht : (turns.insert first.byteOffset (newTurn state first prompt sidechain))[t]? = some row) :
      (t = first.byteOffset ∧ row.turnOrd = state.nextTurnOrd) ∨ turns[t]? = some row := by
    rw [lookup_insert] at ht
    split at ht
    · rename_i heq
      cases ht
      exact Or.inl ⟨heq.symm, rfl⟩
    · exact Or.inr ht
  have hold {t : Int} {row : TurnRow} (ht : turns[t]? = some row) :
      (turns.insert first.byteOffset (newTurn state first prompt sidechain))[t]? = some row := by
    rw [lookup_insert_ne turns _ (hbelow t row ht).ne', ht]
  refine
    { keyed := h.keyed.insert rfl
      le_bound := ?_
      ord_lt := ?_
      ord_lt_next := ?_
      exists_ord := ?_
      count := by
        show state.turnCount + 1 = state.nextTurnOrd + 1
        rw [h.count]
      length := ?_
      latest_mem := ?_
      le_latest := ?_
      total := ?_ }
  · intro t row ht
    rcases hcases t row ht with ⟨rfl, -⟩ | ht
    · exact le_refl _
    · exact (hbelow t row ht).le
  · intro t1 row1 t2 row2 h1 h2 hlt
    rcases hcases t2 row2 h2 with ⟨rfl, hord⟩ | h2
    · rcases hcases t1 row1 h1 with ⟨rfl, -⟩ | h1
      · exact absurd hlt (lt_irrefl _)
      · rw [hord]
        exact h.ord_lt_next t1 row1 h1
    · rcases hcases t1 row1 h1 with ⟨rfl, -⟩ | h1
      · exact absurd (hbelow t2 row2 h2) (not_lt.mpr hlt.le)
      · exact h.ord_lt t1 row1 t2 row2 h1 h2 hlt
  · intro t row ht
    show row.turnOrd < state.nextTurnOrd + 1
    rcases hcases t row ht with ⟨-, hord⟩ | ht
    · omega
    · have := h.ord_lt_next t row ht
      omega
  · intro n hn
    change n < state.nextTurnOrd + 1 at hn
    by_cases hlast : n = state.nextTurnOrd
    · exact ⟨first.byteOffset, _, lookup_insert_self .., hlast.symm⟩
    · obtain ⟨t, row, ht, hord⟩ := h.exists_ord n (by omega)
      exact ⟨t, row, hold ht, hord⟩
  · rw [length_rows, total_insert _ hfresh, ← length_rows, h.length]
    exact Nat.add_comm 1 _
  · intro m hm
    have hmax : m = first.byteOffset := by
      have hm' : m = state.latestTurnId.elim first.byteOffset (max · first.byteOffset) :=
        (Option.some.inj hm).symm
      cases hlatest : state.latestTurnId with
      | none => rwa [hlatest] at hm'
      | some old =>
          obtain ⟨row, hrow⟩ := h.latest_mem old hlatest
          rw [hlatest] at hm'
          rw [hm']
          exact max_eq_right (hbelow old row hrow).le
    subst hmax
    exact ⟨_, lookup_insert_self ..⟩
  · intro t row ht
    refine ⟨_, rfl, ?_⟩
    have hle : t ≤ first.byteOffset := by
      rcases hcases t row ht with ⟨rfl, -⟩ | ht
      · exact le_refl _
      · exact (hbelow t row ht).le
    cases state.latestTurnId with
    | none => exact hle
    | some old => exact hle.trans (le_max_right _ _)
  · rw [total_insert _ hfresh, h.total]
    exact Nat.add_comm _ _

end Turns

/-! ## Operations -/

section Ops

variable {bound bound' : Int} {turns : Table Int TurnRow} {ops : Table OpKey OpRow}
  {f : TurnRow → TurnRow} {t : Int} {op : OpRow}

theorem OpsConsistent.mono (h : OpsConsistent bound turns ops) (hb : bound ≤ bound') :
    OpsConsistent bound' turns ops :=
  { h with offset := fun k op hk => ⟨(h.offset k op hk).1, (h.offset k op hk).2.trans hb⟩ }

theorem OpsConsistent.modify (h : OpsConsistent bound turns ops)
    (hcounts : ∀ row, (f row).operationCount = row.operationCount) :
    OpsConsistent bound (turns.modify t f) ops := by
  refine { h with exists_iff := fun t' n => (h.exists_iff t' n).trans ?_ }
  have hcount (row row' : TurnRow) (hr : row' = row ∨ row' = f row) :
      row'.operationCount = row.operationCount := by
    rcases hr with rfl | rfl
    · rfl
    · exact hcounts row
  constructor
  · rintro ⟨row, hrow, hn⟩
    obtain ⟨row', hrow', hr⟩ := exists_lookup_modify (k := t) (f := f) hrow
    exact ⟨row', hrow', by rw [hcount row row' hr]; exact hn⟩
  · rintro ⟨row', hrow', hn⟩
    obtain ⟨row, hrow, hr⟩ := lookup_modify_eq_some hrow'
    exact ⟨row, hrow, by rw [← hcount row row' hr]; exact hn⟩

/-- A changed version of a call that is there. -/
theorem OpsConsistent.update (h : OpsConsistent bound turns ops) {old : OpRow}
    (hold : ops[op.key]? = some old) (hsame : old.SameCall op) :
    OpsConsistent bound turns (ops.insert op.key op) := by
  refine
    { keyed := h.keyed.insert rfl
      exists_iff := fun t n => ?_
      offset := fun k op' hk => ?_ }
  · rw [← h.exists_iff]
    by_cases hkey : op.key = (t, n)
    · rw [← hkey, lookup_insert_self]
      exact ⟨fun _ => ⟨old, hold⟩, fun _ => ⟨op, rfl⟩⟩
    · rw [lookup_insert_ne ops op hkey]
  · rw [lookup_insert] at hk
    split at hk
    · rename_i heq
      cases hk
      have := h.offset _ old hold
      rw [hsame.2.2.2.2.2.2.2.1] at this
      rwa [← heq]
    · exact h.offset k op' hk

/-- A turn that has no operation yet. -/
theorem OpsConsistent.openTurn (h : OpsConsistent bound turns ops) {row : TurnRow}
    (hfresh : turns[t]? = none) (hzero : row.operationCount = 0) :
    OpsConsistent bound (turns.insert t row) ops := by
  refine { h with exists_iff := fun t' n => (h.exists_iff t' n).trans ?_ }
  by_cases ht : t = t'
  · subst ht
    simp [hfresh, hzero]
  · rw [lookup_insert_ne turns row ht]

/-- The next call of a turn. -/
theorem OpsConsistent.call (h : OpsConsistent bound turns ops) {row : TurnRow}
    (hrow : turns[t]? = some row) (hcount : ∀ row, (f row).operationCount = row.operationCount + 1)
    (hkey : op.key = (t, row.operationCount)) (hlow : t ≤ op.callOffset)
    (hhigh : op.callOffset ≤ bound) :
    OpsConsistent bound (turns.modify t f) (ops.insert op.key op) := by
  refine
    { keyed := h.keyed.insert rfl
      exists_iff := fun t' n => ?_
      offset := fun k op' hk => ?_ }
  · rw [lookup_insert, hkey, lookup_modify]
    by_cases ht : t = t'
    · subst ht
      rw [if_pos rfl, hrow]
      have hiff := h.exists_iff t n
      rw [hrow] at hiff
      by_cases hn : n = row.operationCount
      · subst hn
        simp [hcount]
      · have hne : ¬ ((t, row.operationCount) = (t, n)) := by
          intro heq
          exact hn (Prod.mk.inj heq).2.symm
        rw [if_neg hne, hiff]
        simp only [Option.map_some, Option.some.injEq, exists_eq_left', hcount]
        omega
    · have hne : ¬ ((t, row.operationCount) = (t', n)) := by
        intro heq
        exact ht (Prod.mk.inj heq).1
      rw [if_neg hne, if_neg ht]
      exact h.exists_iff t' n
  · rw [lookup_insert] at hk
    split at hk
    · rename_i heq
      cases hk
      rw [← heq, hkey]
      exact ⟨hlow, hhigh⟩
    · exact h.offset k op' hk

end Ops

end Sulion.Timeline
