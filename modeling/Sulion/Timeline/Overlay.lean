import Sulion.Timeline.Consistency

set_option autoImplicit false

/-! # The reducer's caches over the stored tables

`Sim base db context held r p` relates a reducer `r`, working over the stored projection `db`, to
the tables `p` it stands for: the stored rows with the cached ones over them. A cached row
that is not marked as changed is the stored one, and a changed one differs from it only in
columns that an update writes. The turns in `held` are cached.

Each function of the reducer is related to the direct change of `p`; the queries of the
reducer return what the same query on `p` returns.
-/

namespace Sulion.Timeline

open Sulion.Rust Table

/-- The file touches stored for an operation. -/
def touchesOf (context : Context) (op : OpRow) : List TimelineFileTouch :=
  (extractFileTouches op.pair context.fileContext).take touchesPerOperation

structure Sim (base : Int) (db : Projection) (context : Context) (held : Set Int) (r : Reducer)
    (p : Projection) : Prop where
  stored : Consistent base db
  backend : r.backend = db
  context_eq : r.context = context
  start : r.batchStart = db.state.projectedThrough
  state : r.state = p.state
  turns : overlay db.turns r.turns = p.turns
  items : mergeList (fun old _ => old) db.items
    (r.items.map fun (turnId, offset, chunk) => ((turnId, offset), chunk)) = p.items
  ops : overlay db.ops r.ops = p.ops
  touches : ∀ k : OpKey, p.touches[k]? =
    if k ∈ r.newOps ∨ k ∈ r.inputChanged then r.ops[k]?.map (touchesOf context) else db.touches[k]?
  usage : overlay db.usage r.usage = p.usage
  links : db.links ∪ r.links = p.links
  turn_cache : ∀ (k : Int) (row : TurnRow), r.turns[k]? = some row → row.turnId = k ∧
    (k ∉ r.dirtyTurns → db.turns[k]? = some row) ∧
    ∀ old : TurnRow, db.turns[k]? = some old → old.SameSeed row
  op_cache : ∀ (k : OpKey) (op : OpRow), r.ops[k]? = some op → op.key = k ∧
    (k ∈ r.newOps ∨ ∃ old : OpRow, db.ops[k]? = some old ∧ old.SameCall op ∧
      (k ∉ r.inputChanged → old.input = op.input) ∧ (k ∉ r.updatedOps → old = op))
  marked_cached : ∀ k : OpKey, k ∈ r.newOps ∨ k ∈ r.inputChanged → ∃ op, r.ops[k]? = some op
  by_pair : ∀ (pairId : String) (k : OpKey), k ∈ r.opsByPair[pairId]?.getD ∅ ↔
    ∃ op : OpRow, r.ops[k]? = some op ∧ op.pairId = pairId
  queried : ∀ pairId ∈ r.queriedPairs, ∀ (k : OpKey) (op : OpRow), db.ops[k]? = some op →
    op.pairId = pairId → ∃ cached, r.ops[k]? = some cached
  usage_dirty : ∀ (id : String) (usage : MessageUsage), r.usage[id]? = some usage →
    id ∈ r.dirtyUsage
  prompts : ∀ id, p.promptSeen id = true ↔ id ∈ r.prompts ∨ db.promptSeen id = true
  held_cached : ∀ t ∈ held, ∃ row, r.turns[t]? = some row

variable {base : Int} {db p : Projection} {context : Context} {held : Set Int} {r : Reducer}
  {f : TurnRow → TurnRow} {t : Int} {op old : OpRow} {event : StoredEvent} {bound : Int}

/-! ## Turns -/

theorem promptSeen_iff {id : String} : p.promptSeen id = true ↔
    ∃ (t : Int) (row : TurnRow), p.turns[t]? = some row ∧ row.promptEventUuid = some id := by
  unfold Projection.promptSeen
  rw [List.any_eq_true]
  constructor
  · rintro ⟨row, hrow, hid⟩
    obtain ⟨t, ht⟩ := mem_rows.mp hrow
    exact ⟨t, row, ht, of_decide_eq_true hid⟩
  · rintro ⟨t, row, ht, hid⟩
    exact ⟨row, mem_rows.mpr ⟨t, ht⟩, decide_eq_true hid⟩

theorem promptSeen_modifyTurn (hf : TurnRow.KeepsSeed f) (id : String) :
    (p.modifyTurn t f).promptSeen id = true ↔ p.promptSeen id = true := by
  rw [promptSeen_iff, promptSeen_iff]
  have hprompt (row row' : TurnRow) (h : row' = row ∨ row' = f row) :
      row'.promptEventUuid = row.promptEventUuid := by
    rcases h with rfl | rfl
    · rfl
    · exact (hf row).2.2.2.2.1.symm
  constructor
  · rintro ⟨t', row', hrow', hid⟩
    obtain ⟨row, hrow, hr⟩ := lookup_modify_eq_some hrow'
    exact ⟨t', row, hrow, by rw [← hprompt row row' hr]; exact hid⟩
  · rintro ⟨t', row, hrow, hid⟩
    obtain ⟨row', hrow', hr⟩ := exists_lookup_modify (k := t) (f := f) hrow
    exact ⟨t', row', hrow', by rw [hprompt row row' hr]; exact hid⟩

namespace Sim

theorem mono {held' : Set Int} (h : Sim base db context held r p) (hsub : held' ⊆ held) :
    Sim base db context held' r p :=
  { h with held_cached := fun t ht => h.held_cached t (hsub ht) }

theorem lookup_turn (h : Sim base db context held r p) {row : TurnRow}
    (hrow : r.turns[t]? = some row) : p.turns[t]? = some row := by
  rw [← h.turns]
  exact lookup_overlay_cached hrow

/-- A stored turn is cached. -/
theorem cacheTurn (h : Sim base db context held r p) {row : TurnRow} (hnone : r.turns[t]? = none)
    (hrow : db.turns[t]? = some row) :
    Sim base db context (insert t held) { r with turns := r.turns.insert t row } p := by
  refine
    { h with
      turns := (overlay_insert_stored hnone hrow).trans h.turns
      turn_cache := fun k row' hk => ?_
      held_cached := fun t' ht' => ?_ }
  · rw [lookup_insert] at hk
    split at hk
    · rename_i heq
      subst heq
      cases hk
      refine ⟨h.stored.turns.keyed t row hrow, fun _ => hrow, fun old hold => ?_⟩
      rw [hrow] at hold
      cases hold
      exact .refl row
    · exact h.turn_cache k row' hk
  · by_cases hkey : t = t'
    · exact ⟨row, by rw [lookup_insert, if_pos hkey]⟩
    · obtain ⟨row', hrow'⟩ := h.held_cached t' (ht'.resolve_left (Ne.symm hkey))
      exact ⟨row', by rw [lookup_insert_ne _ _ hkey]; exact hrow'⟩

/-- A turn that is there is loaded. -/
theorem loadTurn (h : Sim base db context held r p) (ht : p.HasTurn t) :
    ∃ r', r.loadTurn t = (r', true) ∧ Sim base db context (insert t held) r' p := by
  unfold Reducer.loadTurn
  cases hcached : r.turns[t]? with
  | some row =>
      refine ⟨r, rfl, { h with held_cached := fun t' ht' => ?_ }⟩
      rcases ht' with rfl | ht'
      · exact ⟨row, hcached⟩
      · exact h.held_cached t' ht'
  | none =>
      obtain ⟨row, hrow⟩ := ht
      have hstored : db.turns[t]? = some row := by
        rw [← h.turns, lookup_overlay_stored hcached] at hrow
        exact hrow
      refine ⟨_, ?_, h.cacheTurn hcached hstored⟩
      rw [Projection.turn, h.backend, hstored]
      rfl

/-- A turn that is not there is not loaded. -/
theorem loadTurn_missing (h : Sim base db context held r p) (ht : ¬ p.HasTurn t) :
    r.loadTurn t = (r, false) := by
  have hnone : r.turns[t]? = none ∧ db.turns[t]? = none := by
    have hview : p.turns[t]? = none := by
      cases hrow : p.turns[t]? with
      | none => rfl
      | some row => exact absurd ⟨row, hrow⟩ ht
    rw [← h.turns, lookup_overlay, Option.or_eq_none_iff] at hview
    exact hview
  unfold Reducer.loadTurn
  rw [hnone.1, Projection.turn, h.backend, hnone.2]
  rfl

theorem turnMut (h : Sim base db context held r p) (ht : t ∈ held) (hf : TurnRow.KeepsSeed f) :
    Sim base db context held (r.turnMut t f) (p.modifyTurn t f) := by
  obtain ⟨row, hrow⟩ := h.held_cached t ht
  refine
    { h with
      turns := ?_
      turn_cache := fun k row' hk => ?_
      prompts := fun id => (promptSeen_modifyTurn hf id).trans (h.prompts id)
      held_cached := fun t' ht' => ?_ }
  · show overlay db.turns (r.turns.modify t f) = p.turns.modify t f
    rw [overlay_modify f hrow, h.turns]
  · change (r.turns.modify t f)[k]? = some row' at hk
    rw [lookup_modify] at hk
    split at hk
    · rename_i heq
      subst heq
      rw [hrow] at hk
      cases hk
      obtain ⟨hid, -, hseed⟩ := h.turn_cache t row hrow
      refine ⟨(hf row).1.symm.trans hid, fun hclean => ?_, fun old hold => ?_⟩
      · exact absurd (Finset.mem_insert_self t r.dirtyTurns) hclean
      · exact (hseed old hold).trans (hf row)
    · obtain ⟨hid, hclean, hseed⟩ := h.turn_cache k row' hk
      exact ⟨hid, fun hk' => hclean fun hd => hk' (Finset.mem_insert_of_mem hd), hseed⟩
  · obtain ⟨row', hrow'⟩ := h.held_cached t' ht'
    obtain ⟨row'', hrow'', -⟩ := exists_lookup_modify (k := t) (f := f) hrow'
    exact ⟨row'', hrow''⟩

/-- A new turn; a prompt's id has been noted. -/
theorem createTurn (h : Sim base db context held r p) (hfresh : p.turns[event.byteOffset]? = none)
    {prompt sidechain : Bool} {prompts : Finset String}
    (hprompts : ∀ id, id ∈ prompts ↔ id ∈ r.prompts ∨ (prompt = true ∧ event.eventUuid = some id)) :
    Sim base db context (insert event.byteOffset held)
      ({ r with prompts := prompts }.createTurn event prompt sidechain)
      (p.openTurn event prompt sidechain) := by
  have hnone : r.turns[event.byteOffset]? = none ∧ db.turns[event.byteOffset]? = none := by
    rw [← h.turns, lookup_overlay, Option.or_eq_none_iff] at hfresh
    exact hfresh
  refine
    { h with
      state := ?_
      turns := ?_
      turn_cache := fun k row hk => ?_
      prompts := fun id => ?_
      held_cached := fun t ht => ?_ }
  · show r.state.openTurn event prompt sidechain = p.state.openTurn event prompt sidechain
    rw [h.state]
  · show overlay db.turns (r.turns.insert _ (newTurn r.state event prompt sidechain)) =
      p.turns.insert _ (newTurn p.state event prompt sidechain)
    rw [overlay_insert, h.turns, h.state]
  · change (r.turns.insert event.byteOffset (newTurn r.state event prompt sidechain))[k]? =
      some row at hk
    rw [lookup_insert] at hk
    split at hk
    · rename_i heq
      subst heq
      cases hk
      refine ⟨rfl, fun hclean => absurd (Finset.mem_insert_self _ _) hclean, fun old hold => ?_⟩
      rw [hnone.2] at hold
      cases hold
    · obtain ⟨hid, hclean, hseed⟩ := h.turn_cache k row hk
      exact ⟨hid, fun hk' => hclean fun hd => hk' (Finset.mem_insert_of_mem hd), hseed⟩
  · show (p.openTurn event prompt sidechain).promptSeen id = true ↔ id ∈ prompts ∨ _
    rw [hprompts, or_right_comm, ← h.prompts id, promptSeen_iff, promptSeen_iff]
    constructor
    · rintro ⟨t, row, hrow, hid⟩
      change (p.turns.insert event.byteOffset (newTurn p.state event prompt sidechain))[t]? =
        some row at hrow
      rw [lookup_insert] at hrow
      split at hrow
      · cases hrow
        cases prompt with
        | true => exact Or.inr ⟨rfl, hid⟩
        | false => cases hid
      · exact Or.inl ⟨t, row, hrow, hid⟩
    · rintro (⟨t, row, hrow, hid⟩ | ⟨rfl, hid⟩)
      · refine ⟨t, row, ?_, hid⟩
        have hne : event.byteOffset ≠ t := by
          rintro rfl
          rw [hfresh] at hrow
          cases hrow
        exact (lookup_insert_ne p.turns _ hne).trans hrow
      · exact ⟨event.byteOffset, _, lookup_insert_self .., hid⟩
  · show ∃ row, (r.turns.insert event.byteOffset _)[t]? = some row
    by_cases hkey : event.byteOffset = t
    · exact ⟨_, by rw [lookup_insert, if_pos hkey]⟩
    · obtain ⟨row, hrow⟩ := h.held_cached t (ht.resolve_left (Ne.symm hkey))
      exact ⟨row, by rw [lookup_insert_ne _ _ hkey]; exact hrow⟩

end Sim

/-! ## Cached operations -/

/-- Indexing an operation whose cached version, if any, has the same pair id. -/
theorem mem_indexOp {opsByPair : Table String (Finset OpKey)} {ops : Table OpKey OpRow}
    (hindex : ∀ (pairId : String) (k : OpKey), k ∈ opsByPair[pairId]?.getD ∅ ↔
      ∃ op : OpRow, ops[k]? = some op ∧ op.pairId = pairId)
    (hsame : ∀ old : OpRow, ops[op.key]? = some old → old.pairId = op.pairId)
    (pairId : String) (k : OpKey) :
    k ∈ (Reducer.indexOp opsByPair op)[pairId]?.getD ∅ ↔
      ∃ op' : OpRow, (ops.insert op.key op)[k]? = some op' ∧ op'.pairId = pairId := by
  unfold Reducer.indexOp
  rw [lookup_insert, lookup_insert]
  by_cases hpair : op.pairId = pairId
  · subst hpair
    rw [if_pos rfl, Option.getD_some, Finset.mem_insert, hindex]
    by_cases hk : op.key = k
    · subst hk
      simp
    · rw [if_neg hk]
      simp [Ne.symm hk]
  · rw [if_neg hpair, hindex]
    by_cases hk : op.key = k
    · subst hk
      rw [if_pos rfl]
      constructor
      · rintro ⟨old, hold, rfl⟩
        exact absurd (hsame old hold).symm hpair
      · rintro ⟨op', hop', rfl⟩
        cases hop'
        exact absurd rfl hpair
    · rw [if_neg hk]

theorem touchesOf_congr {context : Context} (hsame : old.SameCall op)
    (hinput : old.input = op.input) :
    touchesOf context old = touchesOf context op := by
  have hname : old.pair.name = op.pair.name := hsame.2.2.2.1
  have htype : old.pair.operationType = op.pair.operationType := hsame.2.2.2.2.2.1
  have hinput' : old.pair.input = op.pair.input := hinput
  unfold touchesOf
  rw [extractFileTouches_congr hname htype hinput']

namespace Sim

theorem lookup_op (h : Sim base db context held r p) {k : OpKey} (hop : r.ops[k]? = some op) :
    p.ops[k]? = some op := by
  rw [← h.ops]
  exact lookup_overlay_cached hop

/-- A stored operation is cached, unless a version of it is. -/
theorem rememberOp (h : Sim base db context held r p) (hop : db.ops[op.key]? = some op) :
    Sim base db context held (r.rememberOp op) p := by
  unfold Reducer.rememberOp
  cases hcached : r.ops[op.key]? with
  | some cached => exact h
  | none =>
      rw [Option.isSome_none, if_neg Bool.false_ne_true]
      have hnew : op.key ∉ r.newOps ∧ op.key ∉ r.inputChanged := by
        refine not_or.mp fun hmem => ?_
        obtain ⟨cached, hmarked⟩ := h.marked_cached _ hmem
        rw [hcached] at hmarked
        cases hmarked
      refine
        { h with
          ops := (overlay_insert_stored hcached hop).trans h.ops
          touches := fun k => ?_
          op_cache := fun k op' hk => ?_
          marked_cached := fun k hk => ?_
          by_pair := ?_
          queried := fun pairId hpair k op' hk hid => ?_ }
      · show p.touches[k]? = _
        rw [h.touches k, lookup_insert]
        by_cases hk : op.key = k
        · subst hk
          simp [hnew]
        · rw [if_neg hk]
      · rw [lookup_insert] at hk
        split at hk
        · rename_i heq
          subst heq
          cases hk
          exact ⟨rfl, Or.inr ⟨op, hop, .refl op, fun _ => rfl, fun _ => rfl⟩⟩
        · exact h.op_cache k op' hk
      · obtain ⟨cached, hmarked⟩ := h.marked_cached k hk
        show ∃ cached, (r.ops.insert op.key op)[k]? = some cached
        rw [lookup_insert]
        split
        · exact ⟨op, rfl⟩
        · exact ⟨cached, hmarked⟩
      · refine mem_indexOp h.by_pair fun old hold => ?_
        rw [hcached] at hold
        cases hold
      · obtain ⟨cached, hcached'⟩ := h.queried pairId hpair k op' hk hid
        show ∃ cached, (r.ops.insert op.key op)[k]? = some cached
        rw [lookup_insert]
        split
        · exact ⟨op, rfl⟩
        · exact ⟨cached, hcached'⟩

theorem lookup_rememberOp {k : OpKey} {cached : OpRow} (hcached : r.ops[k]? = some cached)
    (op : OpRow) : (r.rememberOp op).ops[k]? = some cached := by
  unfold Reducer.rememberOp
  split
  · exact hcached
  · rename_i hnone
    show (r.ops.insert op.key op)[k]? = some cached
    have hne : op.key ≠ k := by
      rintro rfl
      rw [hcached] at hnone
      exact hnone rfl
    rw [lookup_insert_ne _ _ hne, hcached]

theorem exists_rememberOp (r : Reducer) (op : OpRow) :
    ∃ cached, (r.rememberOp op).ops[op.key]? = some cached := by
  unfold Reducer.rememberOp
  split
  · rename_i hcached
    exact Option.isSome_iff_exists.mp hcached
  · exact ⟨op, lookup_insert_self ..⟩

/-- Stored operations are cached one after the other; what was cached stays. -/
theorem rememberOps {l : List OpRow} (h : Sim base db context held r p)
    (hl : ∀ op ∈ l, db.ops[op.key]? = some op) :
    Sim base db context held (l.foldl Reducer.rememberOp r) p ∧
      (∀ (k : OpKey) (cached : OpRow), r.ops[k]? = some cached →
        (l.foldl Reducer.rememberOp r).ops[k]? = some cached) ∧
      ∀ op ∈ l, ∃ cached, (l.foldl Reducer.rememberOp r).ops[op.key]? = some cached := by
  induction l generalizing r with
  | nil => exact ⟨h, fun _ _ hk => hk, fun _ hop => absurd hop List.not_mem_nil⟩
  | cons op l ih =>
      obtain ⟨hsim, hkept, hall⟩ := ih (h.rememberOp (hl op List.mem_cons_self))
        fun op' hop' => hl op' (List.mem_cons_of_mem _ hop')
      refine ⟨hsim, fun k cached hk => hkept k cached (lookup_rememberOp hk op), ?_⟩
      intro op' hop'
      rcases List.mem_cons.mp hop' with rfl | hop'
      · obtain ⟨cached, hcached⟩ := exists_rememberOp r op'
        exact ⟨cached, hkept _ _ hcached⟩
      · exact hall op' hop'

/-! ## Queries -/

theorem ops_keyed (h : Sim base db context held r p) : Keyed OpRow.key p.ops := by
  rw [← h.ops]
  exact h.stored.ops.keyed.overlay fun k op hk => (h.op_cache k op hk).1

/-- A call that is not cached is a stored one, made before the batch. -/
theorem stored_of_not_cached (h : Sim base db context held r p) {k : OpKey}
    (hnone : r.ops[k]? = none) (hop : p.ops[k]? = some op) :
    db.ops[k]? = some op ∧ op.callOffset ≤ base := by
  rw [← h.ops, lookup_overlay_stored hnone] at hop
  exact ⟨hop, (h.stored.ops.offset k op hop).2⟩

/-- What the caches hold of a pair's calls. -/
theorem localOps_eq (h : Sim base db context held r p) (pairId : String) (before : Int) :
    r.localOps pairId before =
      (p.opsByPair pairId before).filter fun op => (r.ops[op.key]?).isSome := by
  unfold Reducer.localOps Projection.opsByPair
  rw [rows_filter, rows_filter, rows_filter]
  congr 1
  apply Table.ext
  intro k
  simp only [Std.ExtTreeMap.getElem?_filter']
  cases hcached : r.ops[k]? with
  | none =>
      cases hop : p.ops[k]? with
      | none => rfl
      | some op =>
          have hout : (r.ops[op.key]?).isSome = false := by
            rw [h.ops_keyed k op hop, hcached]
            rfl
          by_cases hsel : op.pairId = pairId ∧ op.callOffset < before
          · simp only [Option.filter_none, Option.filter_some, decide_eq_true_eq, hsel, hout,
              and_self, if_true, Bool.false_eq_true, if_false]
          · simp only [Option.filter_none, Option.filter_some, decide_eq_true_eq, hsel, if_false]
  | some op =>
      have hin : (r.ops[op.key]?).isSome = true := by
        rw [(h.op_cache k op hcached).1, hcached]
        rfl
      have hindex : k ∈ r.opsByPair[pairId]?.getD ∅ ↔ op.pairId = pairId := by
        rw [h.by_pair, hcached]
        simp
      rw [h.lookup_op hcached]
      simp only [Option.filter_some, decide_eq_true_eq, hindex]
      by_cases hpair : op.pairId = pairId
      · by_cases hbefore : op.callOffset < before
        · simp only [hpair, hbefore, hin, and_self, if_true, Option.filter_some, decide_true]
        · simp only [hpair, hbefore, and_false, if_true, if_false, Option.filter_some,
            Option.filter_none, decide_false, Bool.false_eq_true]
      · simp only [hpair, false_and, if_false, Option.filter_none]

/-- **A pair's calls, oldest first**: after the query the cache holds all of them. -/
theorem opsForPair (h : Sim base db context held r p) (pairId : String) {before : Int}
    (hbefore : base < before) :
    ∃ r', r.opsForPair pairId before =
        (r', (p.opsByPair pairId before).insertionSort fun a b => a.callOffset ≤ b.callOffset) ∧
      Sim base db context held r' p ∧
      ∀ op ∈ p.opsByPair pairId before, r'.ops[op.key]? = some op := by
  -- after the query every call of the pair is cached
  have hall {r' : Reducer} (h' : Sim base db context held r' p)
      (hq : ∀ (k : OpKey) (op : OpRow), db.ops[k]? = some op → op.pairId = pairId →
        ∃ cached, r'.ops[k]? = some cached) (op : OpRow) (hop : op ∈ p.opsByPair pairId before) :
      r'.ops[op.key]? = some op := by
    obtain ⟨hmem, hpair, -⟩ := Projection.mem_opsByPair.mp hop
    have hview := h'.ops_keyed.mem_rows.mp hmem
    cases hcached : r'.ops[op.key]? with
    | none =>
        obtain ⟨cached, hc⟩ := hq _ op (h'.stored_of_not_cached hcached hview).1 hpair
        rw [hcached] at hc
        cases hc
    | some cached =>
        rw [h'.lookup_op hcached] at hview
        exact hview
  have hlocal {r' : Reducer} (h' : Sim base db context held r' p)
      (hq : ∀ (k : OpKey) (op : OpRow), db.ops[k]? = some op → op.pairId = pairId →
        ∃ cached, r'.ops[k]? = some cached) :
      r'.localOps pairId before = p.opsByPair pairId before := by
    rw [h'.localOps_eq, List.filter_eq_self]
    intro op hop
    rw [hall h' hq op hop]
    rfl
  unfold Reducer.opsForPair
  by_cases hqueried : pairId ∈ r.queriedPairs
  · rw [if_pos hqueried]
    refine ⟨r, ?_, h, hall h (h.queried pairId hqueried)⟩
    simp only
    rw [hlocal h (h.queried pairId hqueried)]
  · rw [if_neg hqueried, h.backend]
    have hmem (op : OpRow) (hop : op ∈ db.opsByPair pairId before) : db.ops[op.key]? = some op :=
      h.stored.ops.keyed.mem_rows.mp (Projection.mem_opsByPair.mp hop).1
    obtain ⟨hsim, -, hcached⟩ := h.rememberOps hmem
    generalize (db.opsByPair pairId before).foldl Reducer.rememberOp r = r1 at hsim hcached ⊢
    have hq (k : OpKey) (op : OpRow) (hop : db.ops[k]? = some op) (hpair : op.pairId = pairId) :
        ∃ cached, r1.ops[k]? = some cached := by
      have hkey := h.stored.ops.keyed k op hop
      subst hkey
      refine hcached op (Projection.mem_opsByPair.mpr ⟨?_, hpair, ?_⟩)
      · exact h.stored.ops.keyed.mem_rows.mpr hop
      · exact lt_of_le_of_lt (h.stored.ops.offset _ op hop).2 hbefore
    have hsim' : Sim base db context held
        { r1 with queriedPairs := insert pairId r1.queriedPairs } p := by
      refine { hsim with queried := fun pairId' hpair k op hop hid => ?_ }
      rcases Finset.mem_insert.mp hpair with rfl | hpair
      · exact hq k op hop hid
      · exact hsim.queried pairId' hpair k op hop hid
    refine ⟨_, ?_, hsim', hall hsim' hq⟩
    simp only
    rw [hlocal hsim' hq]

/-- **The latest call of a pair**, whether the batch made it or it was stored. -/
theorem latestOpForPair (h : Sim base db context held r p) (pairId : String) {before : Int}
    (hbefore : base < before) :
    ∃ r', r.latestOpForPair pairId before = (r', p.latestOp pairId before) ∧
      Sim base db context held r' p ∧
      ∀ op, p.latestOp pairId before = some op → r'.ops[op.key]? = some op := by
  have hquery : ∃ r', ((r.opsForPair pairId before).1,
        (r.opsForPair pairId before).2.getLast?) = (r', p.latestOp pairId before) ∧
      Sim base db context held r' p ∧
      ∀ op, p.latestOp pairId before = some op → r'.ops[op.key]? = some op := by
    obtain ⟨r', hr', hsim, hcached⟩ := h.opsForPair pairId hbefore
    refine ⟨r', ?_, hsim, fun op hop => hcached op (maxByKey_eq_some_iff.mp hop).mem⟩
    rw [hr']
    simp only
    rw [getLast?_insertionSort]
    rfl
  unfold Reducer.latestOpForPair
  simp only
  cases hfound : maxByKey OpRow.callOffset (r.localOps pairId before) with
  | none => exact hquery
  | some op =>
      by_cases hnew : r.batchStart < op.callOffset
      · -- every call that is not cached was made before the batch
        have hmax : p.latestOp pairId before = some op := by
          rw [h.localOps_eq] at hfound
          refine maxByKey_of_filter hfound fun op' hop' hout => ?_
          have hview := h.ops_keyed.mem_rows.mp (Projection.mem_opsByPair.mp hop').1
          have hnone : r.ops[op'.key]? = none := by
            rwa [Option.isSome_eq_false_iff, Option.isNone_iff_eq_none] at hout
          have hle := (h.stored_of_not_cached hnone hview).2
          have hbase := h.stored.bound_le
          rw [h.start] at hnew
          omega
        have hcached : r.ops[op.key]? = some op := by
          have hmem := (maxByKey_eq_some_iff.mp hfound).mem
          rw [h.localOps_eq, List.mem_filter] at hmem
          have hview := h.ops_keyed.mem_rows.mp (Projection.mem_opsByPair.mp hmem.1).1
          obtain ⟨cached, hc⟩ := Option.isSome_iff_exists.mp hmem.2
          rw [h.lookup_op hc] at hview
          rw [hc, hview]
        rw [hmax]
        refine ⟨r, ?_, h, fun op' hop' => ?_⟩
        · rw [Option.any_some, decide_eq_true hnew, if_pos rfl]
        · cases hop'
          exact hcached
      · rw [Option.any_some, decide_eq_false hnew, if_neg Bool.false_ne_true]
        exact hquery

end Sim

end Sulion.Timeline
