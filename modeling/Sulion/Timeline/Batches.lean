import Sulion.Timeline.Simulation

set_option autoImplicit false

/-! # Batches do not show

A batch persists what its reducer changed (`persist_eq`), so projecting a batch is taking one
step for each of its events (`projectBatch_eq`), and how a session's events are cut into
batches makes no difference to its timeline.
-/

namespace Sulion.Timeline

open Sulion.Rust Table

variable {base : Int} {db p : Projection} {context : Context} {r : Reducer}

/-! ## A batch -/

/-- A fresh reducer stands for the stored tables. -/
theorem Sim.fresh (h : Consistent base db) (context : Context) :
    Sim base db context ∅ (Reducer.new db context) db where
  stored := h
  backend := rfl
  context_eq := rfl
  start := rfl
  state := rfl
  turns := overlay_empty _
  items := rfl
  ops := overlay_empty _
  touches := fun k => by simp [Reducer.new]
  usage := overlay_empty _
  links := Finset.union_empty _
  turn_cache := fun k row hk => by simp [Reducer.new] at hk
  op_cache := fun k op hk => by simp [Reducer.new] at hk
  marked_cached := fun k hk => by simp [Reducer.new] at hk
  by_pair := fun pairId k => by simp [Reducer.new]
  queried := fun pairId hpair => by simp [Reducer.new] at hpair
  usage_dirty := fun id usage hid => by simp [Reducer.new] at hid
  prompts := fun id => by simp [Reducer.new]
  held_cached := fun t ht => absurd ht (Set.notMem_empty t)

/-- An update over a stored turn writes every column that may have changed. -/
theorem upsertTurn_of_sameSeed {old row : TurnRow} (h : old.SameSeed row) :
    upsertTurn old row = row := by
  obtain ⟨hid, hord, hside, htext, huuid, hstart, hinput, houtput⟩ := h
  unfold upsertTurn
  rw [hid, hord, hside, htext, huuid, hstart, hinput, houtput]

theorem updateOperation_of_sameCall {old op : OpRow} {changed : Bool} (h : old.SameCall op)
    (hinput : changed = false → old.input = op.input) :
    updateOperation old (op, changed) = op := by
  obtain ⟨hturn, hord, hpair, hname, hraw, htype, hcategory, hcall, hat⟩ := h
  have hwritten : (if changed then op.input else old.input) = op.input := by
    cases changed with
    | true => rfl
    | false => exact hinput rfl
  unfold updateOperation
  rw [hwritten, hturn, hord, hpair, hname, hraw, htype, hcategory, hcall, hat]

theorem Sim.persist_turns (h : Sim base db context ∅ r p) :
    (persist db r.intoChanges).turns = p.turns := by
  have hkeyed : Keyed TurnRow.turnId r.turns := fun k row hk => (h.turn_cache k row hk).1
  show mergeList upsertTurn db.turns
    ((rows (r.turns.filter fun turnId _ => decide (turnId ∈ r.dirtyTurns))).map
      fun turn => (turn.turnId, turn)) = p.turns
  rw [(hkeyed.filter _).map_rows, ← h.turns]
  refine merge_eq_overlay upsertTurn _ ?_ ?_
  · intro k row hk hclean
    exact (h.turn_cache k row hk).2.1 (of_decide_eq_false hclean)
  · intro k row old hk hold
    exact upsertTurn_of_sameSeed ((h.turn_cache k row hk).2.2 old hold)

theorem Sim.persist_ops (h : Sim base db context ∅ r p) :
    (persist db r.intoChanges).ops = p.ops := by
  have hkeyed : Keyed OpRow.key r.ops := fun k op hk => (h.op_cache k op hk).1
  have hnew : (rows (r.ops.filter fun key _ => decide (key ∈ r.newOps))).map
      (fun op => (op.key, op)) = (r.ops.filter fun key _ => decide (key ∈ r.newOps)).toList :=
    (hkeyed.filter _).map_rows
  have hupdated : ((rows (r.ops.filter
        fun key _ => decide (key ∈ r.updatedOps ∧ key ∉ r.newOps))).map
        fun op => (op, decide (op.key ∈ r.inputChanged))).map
          (fun update => (update.1.key, update)) =
      (r.ops.filter fun key _ => decide (key ∈ r.updatedOps ∧ key ∉ r.newOps)).toList.map
        fun kr => (kr.1, (kr.2, decide (kr.2.key ∈ r.inputChanged))) := by
    rw [List.map_map]
    exact (hkeyed.filter _).map_rows_key fun op => (op, decide (op.key ∈ r.inputChanged))
  have hpersist : (persist db r.intoChanges).ops = updateList updateOperation
      (merge (fun _ op => op) db.ops (r.ops.filter fun key _ => decide (key ∈ r.newOps)))
      ((r.ops.filter fun key _ => decide (key ∈ r.updatedOps ∧ key ∉ r.newOps)).toList.map
        fun kr => (kr.1, (kr.2, decide (kr.2.key ∈ r.inputChanged)))) := by
    unfold merge
    rw [← hnew, ← hupdated]
    rfl
  rw [hpersist, ← h.ops]
  apply Table.ext
  intro k
  rw [lookup_updateList_map _ updateOperation _
    fun op => (op, decide (op.key ∈ r.inputChanged)), lookup_merge, lookup_overlay,
    Std.ExtTreeMap.getElem?_filter', Std.ExtTreeMap.getElem?_filter']
  cases hk : r.ops[k]? with
  | none => rfl
  | some op =>
      obtain ⟨hkey, hmark⟩ := h.op_cache k op hk
      subst hkey
      by_cases hnewOp : op.key ∈ r.newOps
      · -- inserted
        simp only [Option.filter_some, hnewOp, not_true_eq_false, and_false, decide_false,
          decide_true, Bool.false_eq_true, if_false, if_true, Option.some_or]
        cases db.ops[op.key]? <;> rfl
      · obtain ⟨old, hold, hsame, hinput, hclean⟩ := hmark.resolve_left hnewOp
        by_cases hdirty : op.key ∈ r.updatedOps
        · -- updated
          simp only [Option.filter_some, hnewOp, hdirty, not_false_eq_true, and_self, decide_false,
            decide_true, Bool.false_eq_true, if_false, if_true, Option.some_or, hold,
            Option.map_some, Option.some.injEq]
          refine updateOperation_of_sameCall hsame fun hunchanged => ?_
          exact hinput (of_decide_eq_false hunchanged)
        · -- only read
          simp only [Option.filter_some, hnewOp, hdirty, false_and, decide_false,
            Bool.false_eq_true, if_false, Option.some_or, hold]
          rw [hclean hdirty]

theorem Sim.persist_touches (h : Sim base db context ∅ r p) :
    (persist db r.intoChanges).touches = p.touches := by
  have hkeyed : Keyed OpRow.key r.ops := fun k op hk => (h.op_cache k op hk).1
  have htouches : (((rows (r.ops.filter
        fun key _ => decide (key ∈ r.newOps ∨ key ∈ r.inputChanged))).map
        fun op => (op.key, extractFileTouches op.pair r.context.fileContext)).map
          fun owned => (owned.1, owned.2.take touchesPerOperation)) =
      (r.ops.filter fun key _ => decide (key ∈ r.newOps ∨ key ∈ r.inputChanged)).toList.map
        fun kr => (kr.1, touchesOf context kr.2) := by
    rw [List.map_map, h.context_eq]
    exact (hkeyed.filter _).map_rows_key (touchesOf context)
  have hpersist : (persist db r.intoChanges).touches =
      mergeList (fun _ touches => touches) db.touches
        ((r.ops.filter fun key _ => decide (key ∈ r.newOps ∨ key ∈ r.inputChanged)).toList.map
          fun kr => (kr.1, touchesOf context kr.2)) := by
    rw [← htouches]
    rfl
  rw [hpersist]
  apply Table.ext
  intro k
  rw [lookup_mergeList_map, Std.ExtTreeMap.getElem?_filter', h.touches]
  by_cases hmark : k ∈ r.newOps ∨ k ∈ r.inputChanged
  · obtain ⟨op, hop⟩ := h.marked_cached k hmark
    rw [if_pos hmark, hop, Option.filter_some, if_pos (decide_eq_true hmark)]
    cases db.touches[k]? <;> rfl
  · rw [if_neg hmark]
    cases r.ops[k]? with
    | none => rfl
    | some op => rw [Option.filter_some, decide_eq_false hmark, if_neg Bool.false_ne_true]

theorem Sim.persist_usage (h : Sim base db context ∅ r p) :
    (persist db r.intoChanges).usage = p.usage := by
  rw [← h.usage]
  refine merge_eq_overlay (fun _ usage => usage) _ ?_ fun _ _ _ _ _ => rfl
  intro id usage hid hclean
  exact absurd (h.usage_dirty id usage hid) (of_decide_eq_false hclean)

/-- **What a batch persists is what its reducer stands for.** -/
theorem Sim.persist_eq (h : Sim base db context ∅ r p) : persist db r.intoChanges = p := by
  have hstate : (persist db r.intoChanges).state = p.state := h.state
  have hitems : (persist db r.intoChanges).items = p.items := h.items
  have hlinks : (persist db r.intoChanges).links = p.links := h.links
  have hturns := h.persist_turns
  have hops := h.persist_ops
  have htouches := h.persist_touches
  have husage := h.persist_usage
  generalize persist db r.intoChanges = p' at *
  cases p
  cases p'
  simp_all

/-! ## The events of a batch -/

/-- Byte offsets grow, and are all above `bound`. -/
def Ascending (bound : Int) (events : List StoredEvent) : Prop :=
  (bound :: events.map StoredEvent.byteOffset).Pairwise (· < ·)

instance (bound : Int) (events : List StoredEvent) : Decidable (Ascending bound events) :=
  inferInstanceAs (Decidable (List.Pairwise _ _))

theorem ascending_cons {bound : Int} {event : StoredEvent} {events : List StoredEvent} :
    Ascending bound (event :: events) ↔
      bound < event.byteOffset ∧ Ascending event.byteOffset events := by
  unfold Ascending
  rw [List.map_cons, List.pairwise_cons]
  constructor
  · rintro ⟨hbound, hrest⟩
    exact ⟨hbound _ List.mem_cons_self, hrest⟩
  · rintro ⟨hfirst, hrest⟩
    refine ⟨fun offset hoffset => ?_, hrest⟩
    rcases List.mem_cons.mp hoffset with rfl | hoffset
    · exact hfirst
    · exact hfirst.trans ((List.pairwise_cons.mp hrest).1 offset hoffset)

/-- Some bound at most the cursor of an empty projection lies below every offset. -/
theorem exists_bound {events : List StoredEvent}
    (h : (events.map StoredEvent.byteOffset).Pairwise (· < ·)) :
    ∃ base : Int, base ≤ -1 ∧ Ascending base events := by
  cases events with
  | nil => exact ⟨-1, le_rfl, List.pairwise_singleton _ _⟩
  | cons event events =>
      refine ⟨min (-1) (event.byteOffset - 1), min_le_left _ _, ?_⟩
      rw [ascending_cons]
      refine ⟨?_, h⟩
      omega

/-- The offset of the last event, or the bound where there is none. -/
def lastOffset (bound : Int) (events : List StoredEvent) : Int :=
  events.foldl (fun _ event => event.byteOffset) bound

theorem ascending_append {bound : Int} {events events' : List StoredEvent} :
    Ascending bound (events ++ events') ↔
      Ascending bound events ∧ Ascending (lastOffset bound events) events' := by
  induction events generalizing bound with
  | nil => simp [Ascending, lastOffset]
  | cons event events ih =>
      rw [List.cons_append, ascending_cons, ascending_cons, ih, and_assoc]
      rfl

theorem Consistent.steps {bound : Int} {events : List StoredEvent} (h : Consistent bound p)
    (hevents : Ascending bound events) (context : Context) :
    Consistent (lastOffset bound events) (events.foldl (Projection.step context) p) := by
  induction events generalizing bound p with
  | nil => exact h
  | cons event events ih =>
      obtain ⟨hfirst, hrest⟩ := ascending_cons.mp hevents
      exact ih (h.step hfirst) hrest

/-- The events of a batch, one after the other. -/
theorem Sim.applyAll {bound : Int} {events : List StoredEvent} (h : Sim base db context ∅ r p)
    (hc : Consistent bound p) (hbase : base ≤ bound) (hevents : Ascending bound events) :
    ∃ r', events.foldlM Reducer.apply r = some r' ∧
      Sim base db context ∅ r' (events.foldl (Projection.step context) p) := by
  induction events generalizing bound r p with
  | nil => exact ⟨r, rfl, h⟩
  | cons event events ih =>
      obtain ⟨hfirst, hrest⟩ := ascending_cons.mp hevents
      obtain ⟨r1, hr1, hsim⟩ := h.apply hc hfirst (hbase.trans_lt hfirst)
      rw [List.foldlM_cons, hr1]
      exact ih hsim (hc.step hfirst) (hbase.trans hfirst.le) hrest

/-- **A batch is one step for each of its events.** -/
theorem projectBatch_eq {events : List StoredEvent} (h : Consistent base db)
    (hevents : Ascending base events) (context : Context) :
    projectBatch context db events = some (events.foldl (Projection.step context) db) := by
  obtain ⟨r, hr, hsim⟩ := (Sim.fresh h context).applyAll h le_rfl hevents
  unfold projectBatch
  rw [hr, Option.map_some, hsim.persist_eq]

/-- **So are batches**, one after the other. -/
theorem projectBatches_eq {batches : List (List StoredEvent)} (h : Consistent base db)
    (hevents : Ascending base batches.flatten) (context : Context) :
    projectBatches context db batches =
      some (batches.flatten.foldl (Projection.step context) db) := by
  unfold projectBatches
  induction batches generalizing base db with
  | nil => rfl
  | cons events batches ih =>
      rw [List.flatten_cons] at hevents ⊢
      obtain ⟨hbatch, hrest⟩ := ascending_append.mp hevents
      rw [List.foldlM_cons, projectBatch_eq h hbatch context, List.foldl_append]
      exact ih (h.steps hbatch context) hrest

/-! ## The stored projections -/

/-- What the batches of a session may have stored: each batch's events lie above the cursor. A
later batch may run in another context. -/
inductive Reached : Projection → Prop
  | empty : Reached {}
  | batch {db db' : Projection} {context : Context} {events : List StoredEvent} :
      Reached db → Ascending db.state.projectedThrough events →
      projectBatch context db events = some db' → Reached db'

/-- No turn, item or operation is stored yet. -/
theorem Consistent.empty (hbase : base ≤ -1) : Consistent base {} := by
  refine
    { bound_le := hbase
      turns :=
        { keyed := ?_, le_bound := ?_, ord_lt := ?_, ord_lt_next := ?_, exists_ord := ?_,
          count := rfl, length := rfl, latest_mem := ?_, le_latest := ?_, total := rfl }
      ops := { keyed := ?_, exists_iff := ?_, offset := ?_ }
      refs := { item := ?_, touch := ?_, usage := ?_, main := ?_, sidechain := ?_ } }
  all_goals simp [Keyed]

theorem Reached.consistent (h : Reached db) : Consistent db.state.projectedThrough db := by
  induction h with
  | empty => exact .empty le_rfl
  | @batch db db' context events _ hevents hbatch ih =>
      rw [projectBatch_eq ih hevents] at hbatch
      cases hbatch
      have hsteps := ih.steps hevents context
      exact hsteps.mono hsteps.bound_le le_rfl

/-- **However a session's new events are cut into batches, the reducer stores the same**
state, turns, items, operations, file touches, usage and links as in a single batch, and it
never fails. -/
theorem projectBatches_eq_single {events : List StoredEvent} {batches : List (List StoredEvent)}
    (hdb : Reached db) (hevents : Ascending db.state.projectedThrough events)
    (hcut : batches.flatten = events) (context : Context) :
    projectBatches context db batches = projectBatches context db [events] ∧
      (projectBatches context db [events]).isSome = true := by
  have hflatten : [events].flatten = events := by simp
  subst hcut
  rw [projectBatches_eq hdb.consistent hevents,
    projectBatches_eq hdb.consistent (by rw [hflatten]; exact hevents), hflatten]
  exact ⟨rfl, rfl⟩

/-- An event of a main line with nothing but a speaker and blocks. -/
def plainEvent (byteOffset : Int) (kind : String) (blocks : List Block) : StoredEvent :=
  { byteOffset := byteOffset
    timestamp := byteOffset
    kind := kind
    agent := "claude-code"
    speaker := some kind
    contentKind := none
    eventUuid := none
    parentEventUuid := none
    relatedToolUseId := none
    isSidechain := false
    isMeta := false
    subtype := none
    usageJson := none
    usageMessageId := none
    blocks := blocks }

/-- A prompt, the call it leads to and the call's result. -/
def shortSession : List StoredEvent :=
  [plainEvent 0 "user" [{ ord := 0, kind := .text, text := some "list the files" }],
    plainEvent 40 "assistant"
      [{ ord := 0, kind := .toolUse, toolId := some "call", toolName := some "Bash" }],
    plainEvent 90 "user"
      [{ ord := 0, kind := .toolResult, toolId := some "call", text := some "a.txt" }]]

/-- A session that writes to no repository and has no parent. -/
def plainContext : Context :=
  { sessionUuid := 0, fileContext := none, childOf := none, parseUuid := fun _ => none }

theorem projectBatches_eq_single_session :
    projectBatches plainContext {} [shortSession.take 2, shortSession.drop 2] =
        projectBatches plainContext {} [shortSession] ∧
      (projectBatches plainContext {} [shortSession]).isSome = true :=
  projectBatches_eq_single .empty (by decide) rfl plainContext

/-! ## What the rows add up to -/

/-- The counters and references of the tables, as they can be read from their rows. -/
structure WellCounted (p : Projection) : Prop where
  turn_key : Keyed TurnRow.turnId p.turns
  op_key : Keyed OpRow.key p.ops
  /-- The operations of a turn are numbered from zero up to its count. -/
  operation_ords : ∀ turn ∈ rows p.turns,
    (((rows p.ops).filter fun op => op.turnId = turn.turnId).map OpRow.operationOrd).Perm
      (List.range turn.operationCount)
  /-- The turns are numbered from zero up, one number each, -/
  turn_ords : ((rows p.turns).map TurnRow.turnOrd).Perm (List.range p.state.nextTurnOrd)
  /-- in the order of their ids. -/
  turn_ord_lt : ∀ turn ∈ rows p.turns, ∀ turn' ∈ rows p.turns, turn.turnId < turn'.turnId →
    turn.turnOrd < turn'.turnOrd
  turn_count : p.state.turnCount = p.state.nextTurnOrd
  turn_rows : (rows p.turns).length = p.state.nextTurnOrd
  latest : p.state.latestTurnId = ((rows p.turns).map TurnRow.turnId).max?
  total : p.state.totalEventCount = ((rows p.turns).map TurnRow.eventCount).sum
  item : ∀ (k : Int × Int) (item : TimelineChunk), p.items[k]? = some item → p.HasTurn k.1
  operation : ∀ op ∈ rows p.ops, p.HasTurn op.turnId
  touch : ∀ (k : OpKey) (touches : List TimelineFileTouch), p.touches[k]? = some touches →
    p.HasTurn k.1
  usage : ∀ (id : String) (usage : MessageUsage), p.usage[id]? = some usage →
    p.HasTurn usage.turnId
  call_offset : ∀ op ∈ rows p.ops, op.turnId ≤ op.callOffset

theorem OpsConsistent.ords_perm {bound : Int} {turns : Table Int TurnRow} {ops : Table OpKey OpRow}
    (h : OpsConsistent bound turns ops) {t : Int} {row : TurnRow} (hrow : turns[t]? = some row) :
    (((rows ops).filter fun op => op.turnId = t).map OpRow.operationOrd).Perm
      (List.range row.operationCount) := by
  have hnodup : (((rows ops).filter fun op => op.turnId = t).map OpRow.operationOrd).Nodup := by
    refine List.Nodup.map_on ?_ (h.keyed.nodup_rows.filter _)
    intro op hop op' hop' hord
    obtain ⟨hmem, hturn⟩ := List.mem_filter.mp hop
    obtain ⟨hmem', hturn'⟩ := List.mem_filter.mp hop'
    have hkey : op.key = op'.key :=
      Prod.ext ((of_decide_eq_true hturn).trans (of_decide_eq_true hturn').symm) hord
    have hlookup := h.keyed.mem_rows.mp hmem
    rw [hkey, h.keyed.mem_rows.mp hmem'] at hlookup
    exact (Option.some.inj hlookup).symm
  rw [List.perm_ext_iff_of_nodup hnodup List.nodup_range]
  intro n
  rw [List.mem_range]
  constructor
  · intro hn
    obtain ⟨op, hop, rfl⟩ := List.mem_map.mp hn
    obtain ⟨hmem, hturn⟩ := List.mem_filter.mp hop
    have hlookup := h.keyed.mem_rows.mp hmem
    obtain ⟨row', hrow', hlt⟩ := (h.exists_iff op.turnId op.operationOrd).mp ⟨op, hlookup⟩
    rw [of_decide_eq_true hturn, hrow] at hrow'
    cases hrow'
    exact hlt
  · intro hn
    obtain ⟨op, hop⟩ := (h.exists_iff t n).mpr ⟨row, hrow, hn⟩
    have hkey := h.keyed _ op hop
    refine List.mem_map.mpr ⟨op, List.mem_filter.mpr ⟨mem_rows.mpr ⟨_, hop⟩, ?_⟩, ?_⟩
    · exact decide_eq_true (congrArg Prod.fst hkey)
    · exact congrArg Prod.snd hkey

theorem TurnsConsistent.ords_perm {bound : Int} {state : SessionState} {turns : Table Int TurnRow}
    (h : TurnsConsistent bound state turns) :
    ((rows turns).map TurnRow.turnOrd).Perm (List.range state.nextTurnOrd) := by
  have hnodup : ((rows turns).map TurnRow.turnOrd).Nodup := by
    refine List.Nodup.map_on ?_ h.keyed.nodup_rows
    intro turn hturn turn' hturn' hord
    have hrow := h.keyed.mem_rows.mp hturn
    have hrow' := h.keyed.mem_rows.mp hturn'
    rcases lt_trichotomy turn.turnId turn'.turnId with hlt | heq | hlt
    · have := h.ord_lt _ _ _ _ hrow hrow' hlt
      omega
    · rw [heq, hrow'] at hrow
      exact (Option.some.inj hrow).symm
    · have := h.ord_lt _ _ _ _ hrow' hrow hlt
      omega
  rw [List.perm_ext_iff_of_nodup hnodup List.nodup_range]
  intro n
  rw [List.mem_range]
  constructor
  · intro hn
    obtain ⟨turn, hturn, rfl⟩ := List.mem_map.mp hn
    exact h.ord_lt_next _ _ (h.keyed.mem_rows.mp hturn)
  · intro hn
    obtain ⟨t, turn, hturn, hord⟩ := h.exists_ord n hn
    exact List.mem_map.mpr ⟨turn, mem_rows.mpr ⟨t, hturn⟩, hord⟩

theorem TurnsConsistent.latest_eq {bound : Int} {state : SessionState} {turns : Table Int TurnRow}
    (h : TurnsConsistent bound state turns) :
    state.latestTurnId = ((rows turns).map TurnRow.turnId).max? := by
  cases hlatest : state.latestTurnId with
  | none =>
      have hempty : rows turns = [] := by
        rw [List.eq_nil_iff_forall_not_mem]
        intro turn hturn
        obtain ⟨m, hm, -⟩ := h.le_latest _ _ (h.keyed.mem_rows.mp hturn)
        rw [hlatest] at hm
        cases hm
      rw [hempty]
      rfl
  | some m =>
      obtain ⟨row, hrow⟩ := h.latest_mem m hlatest
      have hmem : m ∈ (rows turns).map TurnRow.turnId :=
        List.mem_map.mpr ⟨row, mem_rows.mpr ⟨m, hrow⟩, h.keyed m row hrow⟩
      refine (List.max?_eq_some_iff.mpr ⟨hmem, fun t ht => ?_⟩).symm
      obtain ⟨turn, hturn, rfl⟩ := List.mem_map.mp ht
      obtain ⟨m', hm', hle⟩ := h.le_latest _ _ (h.keyed.mem_rows.mp hturn)
      rw [hlatest] at hm'
      cases hm'
      exact hle

theorem Consistent.wellCounted {bound : Int} (h : Consistent bound p) : WellCounted p where
  turn_key := h.turns.keyed
  op_key := h.ops.keyed
  operation_ords := fun turn hturn => h.ops.ords_perm (h.turns.keyed.mem_rows.mp hturn)
  turn_ords := h.turns.ords_perm
  turn_ord_lt := by
    intro turn hturn turn' hturn' hlt
    exact h.turns.ord_lt _ _ _ _ (h.turns.keyed.mem_rows.mp hturn)
      (h.turns.keyed.mem_rows.mp hturn') hlt
  turn_count := h.turns.count
  turn_rows := h.turns.length
  latest := h.turns.latest_eq
  total := h.turns.total.symm
  item := h.refs.item
  operation := fun op hop =>
    h.hasTurn_of_stored (Projection.storedCall_of_mem h.ops.keyed hop)
  touch := h.refs.touch
  usage := h.refs.usage
  call_offset := fun op hop => (h.ops.offset _ op (h.ops.keyed.mem_rows.mp hop)).1

/-- One batch after the other, each in its own context. -/
def projectRun (db : Projection) (batches : List (Context × List StoredEvent)) :
    Option Projection :=
  batches.foldlM (fun db batch => projectBatch batch.1 db batch.2) db

theorem Consistent.projectRun {batches : List (Context × List StoredEvent)}
    (h : Consistent base db) (hevents : Ascending base (batches.flatMap Prod.snd)) :
    ∃ (p : Projection) (bound : Int), Timeline.projectRun db batches = some p ∧
      Consistent bound p := by
  unfold Timeline.projectRun
  induction batches generalizing base db with
  | nil => exact ⟨db, base, rfl, h⟩
  | cons batch batches ih =>
      rw [List.flatMap_cons] at hevents
      obtain ⟨hbatch, hrest⟩ := ascending_append.mp hevents
      rw [List.foldlM_cons, projectBatch_eq h hbatch batch.1]
      exact ih (h.steps hbatch batch.1) hrest

/-- **Whatever events a session's batches bring, in byte-offset order, no batch fails and the
rows it leaves are counted and referred to as they are.** -/
theorem wellCounted_projectRun (batches : List (Context × List StoredEvent))
    (hevents : ((batches.flatMap Prod.snd).map StoredEvent.byteOffset).Pairwise (· < ·)) :
    ∃ p, projectRun {} batches = some p ∧ WellCounted p := by
  obtain ⟨base, hbase, hascending⟩ := exists_bound hevents
  obtain ⟨p, bound, hrun, hconsistent⟩ := (Consistent.empty hbase).projectRun hascending
  exact ⟨p, hrun, hconsistent.wellCounted⟩

theorem wellCounted_projectRun_session :
    ∃ p, projectRun {} [(plainContext, shortSession.take 1), (plainContext, shortSession.drop 1)] =
      some p ∧ WellCounted p :=
  wellCounted_projectRun _ (by decide)

end Sulion.Timeline
