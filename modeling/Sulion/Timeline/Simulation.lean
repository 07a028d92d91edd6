import Sulion.Timeline.Overlay

set_option autoImplicit false

/-! # The reducer refines the timeline without batches

Over the caches (`Timeline/Overlay.lean`), each function of the reducer is related to the
change of the tables that it stands for. `Sim.apply` puts them together: applying an event
never fails, and changes the tables by `Projection.step`.
-/

namespace Sulion.Timeline

open Sulion.Rust Table

variable {base : Int} {db p : Projection} {context : Context} {held : Set Int} {r : Reducer}
  {t : Int} {op old : OpRow} {event : StoredEvent} {bound : Int}

theorem OpRow.SameCall.symm {a b : OpRow} (h : a.SameCall b) : b.SameCall a := by
  unfold OpRow.SameCall at *
  grind

/-- A version of the call with its input is cached. -/
def Reducer.HoldsCall (r : Reducer) (op : OpRow) : Prop :=
  ∃ cached, r.ops[op.key]? = some cached ∧ cached.SameCall op ∧ cached.input = op.input

theorem Reducer.HoldsCall.of_lookup (h : r.ops[op.key]? = some op) : r.HoldsCall op :=
  ⟨op, h, .refl op, rfl⟩

theorem Reducer.HoldsCall.congr {op' : OpRow} (h : r.HoldsCall op) (hsame : op.SameCall op')
    (hinput : op.input = op'.input) : r.HoldsCall op' := by
  obtain ⟨cached, hcached, hsame', hinput'⟩ := h
  exact ⟨cached, hsame.key_eq ▸ hcached, hsame'.trans hsame, hinput'.trans hinput⟩

/-- Storing another version of a call keeps what is held. -/
theorem Reducer.HoldsCall.putOp {op' : OpRow} (h : r.HoldsCall op) (h' : r.HoldsCall op') :
    (r.putOp op' false).HoldsCall op := by
  obtain ⟨cached, hcached, hsame, hinput⟩ := h
  obtain ⟨cached', hcached', hsame', hinput'⟩ := h'
  show ∃ new, (r.ops.insert op'.key op')[op.key]? = some new ∧ _
  rw [lookup_insert]
  by_cases hkey : op'.key = op.key
  · rw [hkey, hcached] at hcached'
    cases hcached'
    rw [if_pos hkey]
    exact ⟨op', rfl, hsame'.symm.trans hsame, hinput'.symm.trans hinput⟩
  · rw [if_neg hkey]
    exact ⟨cached, hcached, hsame, hinput⟩

namespace Sim

/-! ## Storing operations -/

/-- One operation is written to the cache; the marks of the others stay. -/
theorem insertOp (h : Sim base db context held r p) {changed : Bool}
    {new updated input : Finset OpKey}
    (hpair : ∀ old : OpRow, r.ops[op.key]? = some old → old.pairId = op.pairId)
    (hothers : ∀ k : OpKey, op.key ≠ k → (k ∈ new ↔ k ∈ r.newOps) ∧
      (k ∈ updated ↔ k ∈ r.updatedOps) ∧ (k ∈ input ↔ k ∈ r.inputChanged))
    (htouches : (if changed then some (touchesOf context op) else p.touches[op.key]?) =
      if op.key ∈ new ∨ op.key ∈ input then some (touchesOf context op) else db.touches[op.key]?)
    (hcache : op.key ∈ new ∨ ∃ old : OpRow, db.ops[op.key]? = some old ∧ old.SameCall op ∧
      (op.key ∉ input → old.input = op.input) ∧ (op.key ∉ updated → old = op)) :
    Sim base db context held
      { r with
        opsByPair := Reducer.indexOp r.opsByPair op
        ops := r.ops.insert op.key op
        newOps := new
        updatedOps := updated
        inputChanged := input }
      (p.storeOp context op changed) := by
  have hkept (k : OpKey) (hk : ∃ cached, r.ops[k]? = some cached) :
      ∃ cached, (r.ops.insert op.key op)[k]? = some cached := by
    rw [lookup_insert]
    split
    · exact ⟨op, rfl⟩
    · exact hk
  refine
    { h with
      ops := ?_
      touches := fun k => ?_
      op_cache := fun k op' hk => ?_
      marked_cached := fun k hk => ?_
      by_pair := mem_indexOp h.by_pair hpair
      queried := fun pairId hmem k op' hk hid => hkept k (h.queried pairId hmem k op' hk hid) }
  · show overlay db.ops (r.ops.insert op.key op) = p.ops.insert op.key op
    rw [overlay_insert, h.ops]
  · show (if changed then p.touches.insert op.key (touchesOf context op) else p.touches)[k]? =
      if k ∈ new ∨ k ∈ input then (r.ops.insert op.key op)[k]?.map (touchesOf context)
      else db.touches[k]?
    by_cases hk : op.key = k
    · subst hk
      rw [lookup_insert_self, Option.map_some, ← htouches]
      cases changed with
      | true => exact lookup_insert_self ..
      | false => rfl
    · have hother : (if changed then p.touches.insert op.key (touchesOf context op)
          else p.touches)[k]? = p.touches[k]? := by
        cases changed with
        | true => exact lookup_insert_ne _ _ hk
        | false => rfl
      rw [hother, h.touches k, lookup_insert_ne _ _ hk]
      exact if_congr (or_congr (hothers k hk).1 (hothers k hk).2.2).symm rfl rfl
  · rw [lookup_insert] at hk
    split at hk
    · rename_i heq
      subst heq
      cases hk
      exact ⟨rfl, hcache⟩
    · rename_i hne
      rw [(hothers k hne).1, (hothers k hne).2.1, (hothers k hne).2.2]
      exact h.op_cache k op' hk
  · by_cases hkey : op.key = k
    · exact ⟨op, by rw [lookup_insert, if_pos hkey]⟩
    · rw [(hothers k hkey).1, (hothers k hkey).2.2] at hk
      exact hkept k (h.marked_cached k hk)

/-- **A changed version of a cached call.** -/
theorem putOp (h : Sim base db context held r p) (hold : r.ops[op.key]? = some old)
    (hsame : old.SameCall op) {changed : Bool} (hinput : changed = false → old.input = op.input) :
    Sim base db context held (r.putOp op changed) (p.storeOp context op changed) := by
  refine h.insertOp ?_ ?_ ?_ ?_
  · intro old' hold'
    rw [hold] at hold'
    cases hold'
    exact hsame.2.2.1
  · intro k hk
    refine ⟨Iff.rfl, ?_, ?_⟩
    · split
      · rfl
      · simp [Ne.symm hk]
    · split
      · rfl
      · simp [Ne.symm hk]
  · cases changed with
    | true =>
        by_cases hnew : op.key ∈ r.newOps
        · simp [hnew]
        · simp [hnew]
    | false =>
        rw [if_neg Bool.false_ne_true, if_pos (Or.inr rfl), h.touches, hold, Option.map_some,
          touchesOf_congr hsame (hinput rfl)]
  · obtain ⟨-, hnew | ⟨stored, hstored, hsame', hclean, -⟩⟩ := h.op_cache _ _ hold
    · exact Or.inl hnew
    · by_cases hnew : op.key ∈ r.newOps
      · exact Or.inl hnew
      refine Or.inr ⟨stored, hstored, hsame'.trans hsame, fun hout => ?_, fun hout => ?_⟩
      · cases changed with
        | true => simp [hnew] at hout
        | false =>
            rw [if_pos (Or.inr rfl)] at hout
            exact (hclean hout).trans (hinput rfl)
      · simp [hnew] at hout

/-- **A new call.** -/
theorem newCall (h : Sim base db context held r p) (hfresh : p.ops[op.key]? = none) :
    Sim base db context held ({ r with newOps := insert op.key r.newOps }.putOp op true)
      (p.storeOp context op true) := by
  have hnone : r.ops[op.key]? = none ∧ db.ops[op.key]? = none := by
    rw [← h.ops, lookup_overlay, Option.or_eq_none_iff] at hfresh
    exact hfresh
  have hmem : op.key ∈ insert op.key r.newOps := Finset.mem_insert_self _ _
  refine h.insertOp ?_ ?_ ?_ (Or.inl hmem)
  · intro old hold
    rw [hnone.1] at hold
    cases hold
  · intro k hk
    rw [if_pos hmem, if_pos (Or.inl hmem)]
    exact ⟨by simp [Ne.symm hk], Iff.rfl, Iff.rfl⟩
  · rw [if_pos rfl, if_pos (Or.inl hmem)]

theorem putHeld (h : Sim base db context held r p) (hop : r.HoldsCall op) :
    Sim base db context held (r.putOp op false) (p.storeOp context op false) := by
  obtain ⟨cached, hcached, hsame, hinput⟩ := hop
  exact h.putOp hcached hsame fun _ => hinput

/-- Storing versions of held calls, one after the other. -/
theorem foldl_putOp {g : OpRow → OpRow} (hg : ∀ op : OpRow, op.SameCall (g op))
    (hinput : ∀ op : OpRow, op.input = (g op).input) {l : List OpRow}
    (h : Sim base db context held r p) (hl : ∀ op ∈ l, r.HoldsCall op) :
    Sim base db context held (l.foldl (fun r op => r.putOp (g op) false) r)
        (l.foldl (fun p op => p.storeOp context (g op) false) p) ∧
      ∀ op, r.HoldsCall op → (l.foldl (fun r op => r.putOp (g op) false) r).HoldsCall op := by
  induction l generalizing r p with
  | nil => exact ⟨h, fun _ hop => hop⟩
  | cons op l ih =>
      have hop : r.HoldsCall (g op) := (hl op List.mem_cons_self).congr (hg op) (hinput op)
      have hrest := ih (h.putHeld hop) fun op' hop' =>
        (hl op' (List.mem_cons_of_mem _ hop')).putOp hop
      exact ⟨hrest.1, fun op' hop' => hrest.2 op' (hop'.putOp hop)⟩

/-- A test that only cached calls pass selects the same calls from the cache as from the
tables. -/
theorem rows_filter_eq (h : Sim base db context held r p) {test : OpRow → Bool}
    (htest : ∀ (k : OpKey) (op : OpRow), db.ops[k]? = some op → test op = true →
      ∃ cached, r.ops[k]? = some cached) :
    (rows r.ops).filter test = (rows p.ops).filter test := by
  rw [rows_filter, rows_filter]
  congr 1
  apply Table.ext
  intro k
  rw [Std.ExtTreeMap.getElem?_filter', Std.ExtTreeMap.getElem?_filter']
  cases hcached : r.ops[k]? with
  | some op => rw [h.lookup_op hcached]
  | none =>
      cases hop : p.ops[k]? with
      | none => rfl
      | some op =>
          rw [Option.filter_none, Option.filter_some]
          split
          · rename_i hpass
            obtain ⟨cached, hc⟩ := htest k op (h.stored_of_not_cached hcached hop).1 hpass
            rw [hcached] at hc
            cases hc
          · rfl

/-! ## Calls and results -/

/-- Noting an error on a turn that is not there changes nothing. -/
theorem modifyTurn_missing {f : TurnRow → TurnRow} (ht : ¬ p.HasTurn t) : p.modifyTurn t f = p := by
  have hturns : p.turns.modify t f = p.turns := by
    apply Table.ext
    intro k
    rw [lookup_modify]
    split
    · rename_i heq
      subst heq
      cases hrow : p.turns[t]? with
      | none => rfl
      | some row => exact absurd ⟨row, hrow⟩ ht
    · rfl
  unfold Projection.modifyTurn
  rw [hturns]

theorem noteOwnerError (h : Sim base db context held r p) (op : OpRow) :
    Sim base db context held (r.noteOwnerError op) (p.noteOwnerError op) := by
  unfold Reducer.noteOwnerError Projection.noteOwnerError
  by_cases ht : p.HasTurn op.turnId
  · obtain ⟨r', hload, hsim⟩ := h.loadTurn ht
    rw [hload]
    exact (hsim.turnMut (Set.mem_insert _ _) (TurnRow.keepsSeed_noteError _)).mono
      (Set.subset_insert _ _)
  · rw [h.loadTurn_missing ht, modifyTurn_missing ht]
    exact h

/-- **One call of an assistant event**: its number is the count of its turn's calls. -/
theorem applyCall (h : Sim base db context held r p) (hc : Consistent bound p) (ht : t ∈ held)
    (tool : ToolUseView) :
    Sim base db context held (r.applyCall t event tool) (p.addCall context t event tool) := by
  obtain ⟨row, hrow⟩ := h.held_cached t ht
  have hview := h.lookup_turn hrow
  have hord : (r.turns[t]?.map TurnRow.operationCount).getD 0 = p.operationCount t := by
    rw [Projection.operationCount, hrow, hview]
  have hfresh : p.ops[(t, p.operationCount t)]? = none := by
    cases hop : p.ops[(t, p.operationCount t)]? with
    | none => rfl
    | some op =>
        obtain ⟨row', hrow', hlt⟩ := (hc.ops.exists_iff _ _).mp ⟨op, hop⟩
        rw [Projection.operationCount, hrow'] at hlt
        exact absurd hlt (lt_irrefl _)
  unfold Reducer.applyCall Projection.addCall
  simp only
  rw [hord]
  exact (h.turnMut ht (TurnRow.keepsSeed_countCall tool)).newCall hfresh

theorem applyCalls (h : Sim base db context held r p) (hc : Consistent bound p) (ht : t ∈ held)
    (hlow : t ≤ event.byteOffset) (hhigh : event.byteOffset ≤ bound) :
    Sim base db context held (r.applyCalls t event)
      ((toolUsesIn event).foldl (Projection.addCall context t event) p) := by
  unfold Reducer.applyCalls
  generalize toolUsesIn event = tools
  induction tools generalizing r p with
  | nil => exact h
  | cons tool tools ih =>
      obtain ⟨row, hrow⟩ := h.held_cached t ht
      have hturn : p.HasTurn t := ⟨row, h.lookup_turn hrow⟩
      exact ih (h.applyCall hc ht tool) (hc.addCall hturn hlow hhigh tool)

/-- The cells a `wait` ends are those of the tables: the running ones are all cached. -/
theorem closeWaitedCells (h : Sim base db context held r p) (wait : OpRow) (block : Block)
    (event : StoredEvent) :
    Sim base db context held (r.closeWaitedCells wait block event)
        (p.closeCells context wait block event) ∧
      ∀ op, r.HoldsCall op → (r.closeWaitedCells wait block event).HoldsCall op := by
  unfold Reducer.closeWaitedCells Projection.closeCells
  cases waitedCell wait block with
  | none => exact ⟨h, fun _ hop => hop⟩
  | some cell =>
      simp only
      rw [h.backend]
      have hmem (op : OpRow) (hop : op ∈ db.opsByRunningCell cell) : db.ops[op.key]? = some op :=
        h.stored.ops.keyed.mem_rows.mp (List.mem_of_mem_filter hop)
      obtain ⟨hsim, hkept, hcached⟩ := h.rememberOps hmem
      generalize (db.opsByRunningCell cell).foldl Reducer.rememberOp r = r1 at hsim hkept hcached ⊢
      have hrunning :
          (rows r1.ops).filter (fun op => op.runningCell = some cell ∧ op.key ≠ wait.key) =
          p.runningOps cell wait.key := by
        refine hsim.rows_filter_eq fun k op hop htest => ?_
        have hkey := h.stored.ops.keyed k op hop
        subst hkey
        refine hcached op (List.mem_filter.mpr ⟨h.stored.ops.keyed.mem_rows.mpr hop, ?_⟩)
        exact decide_eq_true (of_decide_eq_true htest).1
      rw [← hrunning]
      have hheld (op : OpRow) (hop : op ∈ (rows r1.ops).filter
          (fun op => op.runningCell = some cell ∧ op.key ≠ wait.key)) : r1.HoldsCall op := by
        obtain ⟨k, hk⟩ := mem_rows.mp (List.mem_of_mem_filter hop)
        have hkey := (hsim.op_cache k op hk).1
        subst hkey
        exact .of_lookup hk
      obtain ⟨hclosed, hheld'⟩ := foldl_putOp (sameCall_closeCell event) (fun _ => rfl) hsim hheld
      refine ⟨hclosed, fun op hop => hheld' op ?_⟩
      obtain ⟨cached, hc, hsame, hinput⟩ := hop
      exact ⟨cached, hkept _ _ hc, hsame, hinput⟩

/-- A result lands on the latest call with its id. -/
theorem landResult (h : Sim base db context held r p) (hop : r.ops[op.key]? = some op)
    (block : Block) (event : StoredEvent) :
    Sim base db context held
      (((r.closeWaitedCells (setResult op block event) block event).putOp
        (setResult op block event) false).noteOwnerError (setResult op block event))
      (p.landResult context op block event) := by
  have hheld : r.HoldsCall (setResult op block event) :=
    (Reducer.HoldsCall.of_lookup hop).congr (sameCall_setResult op block event) rfl
  obtain ⟨hclosed, hkept⟩ := h.closeWaitedCells (setResult op block event) block event
  exact (hclosed.putHeld (hkept _ hheld)).noteOwnerError _

theorem applyResult (h : Sim base db context held r p) (ht : t ∈ held)
    (hbase : base < event.byteOffset) (block : Block) :
    Sim base db context held (r.applyResult t event block) (p.addResult context t event block) := by
  have hflag : Sim base db context held
      (if block.isError.getD false then r.turnMut t (TurnRow.noteError true) else r)
      (if block.isError.getD false then p.modifyTurn t (TurnRow.noteError true) else p) := by
    split
    · exact h.turnMut ht (TurnRow.keepsSeed_noteError true)
    · exact h
  unfold Reducer.applyResult Projection.addResult
  simp only
  cases block.toolId with
  | none => exact hflag
  | some pairId =>
      obtain ⟨r', hfound, hsim, hcached⟩ := hflag.latestOpForPair pairId hbase
      simp only [Option.bind_some]
      rw [hfound]
      cases hop : Projection.latestOp _ pairId event.byteOffset with
      | none => exact hsim
      | some op => exact hsim.landResult (hcached op hop) block event

theorem applyResults (h : Sim base db context held r p) (ht : t ∈ held) (event : StoredEvent)
    (hbase : base < event.byteOffset) :
    Sim base db context held
      (if isToolResultEvent event then r.applyResults t event else r)
      (p.addResults context t event) := by
  unfold Reducer.applyResults Projection.addResults
  split
  · generalize event.blocks.filter (fun block => block.kind = .toolResult) = blocks
    induction blocks generalizing r p with
    | nil => exact h
    | cons block blocks ih => exact ih (h.applyResult ht hbase block)
  · exact h

/-! ## Runtime evidence -/

/-- The query's slack covers what the milliseconds drop. -/
theorem le_of_millis_le {a b : Timestamp} (h : a.timestampMillis ≤ b.timestampMillis) :
    a ≤ b + 1000 := by
  have key (a b : Int) (h : a / 1000 ≤ b / 1000) : a ≤ b + 1000 := by omega
  exact key a b h

/-- The stored query for evidence that names no call selects every call that may enclose it. -/
theorem mem_execCandidates {evidence : Json} (hmem : op ∈ rows db.ops)
    (h : enclosing event evidence op = true) :
    op ∈ db.execCandidates event.byteOffset (evidenceStart evidence) := by
  unfold enclosing OpRow.encloses at h
  simp only [Bool.and_eq_true, decide_eq_true_eq] at h
  obtain ⟨⟨hbefore, -⟩, hname, hwindow⟩ := h
  refine List.mem_filter.mpr ⟨hmem, ?_⟩
  simp only [Bool.and_eq_true, decide_eq_true_eq]
  refine ⟨⟨?_, hbefore⟩, ?_⟩
  · -- the short name is the whole name, or what follows its last dot
    cases hraw : op.rawName with
    | none =>
        rw [OpRow.toolShortName, hraw] at hname
        cases hname
    | some name =>
        rw [OpRow.toolShortName, hraw] at hname
        have hshort : afterLast name '.' = "exec" := Option.some.inj (eq_of_beq hname)
        rw [Projection.isExecName, hraw, Option.any_some, Bool.or_eq_true]
        rcases eq_or_suffix_afterLast name '.' with heq | hsuffix
        · exact Or.inl (decide_eq_true (heq.trans hshort))
        · rw [hshort] at hsuffix
          exact Or.inr (List.isSuffixOf_iff_suffix.mpr hsuffix)
  · cases hstart : evidenceStart evidence with
    | none =>
        rw [hstart] at hwindow
        exact hwindow
    | some start =>
        rw [hstart] at hwindow
        simp only [Bool.and_eq_true, decide_eq_true_eq, Option.all_eq_true] at hwindow ⊢
        refine ⟨?_, fun finish hfinish => ?_⟩
        · exact le_of_millis_le hwindow.1
        · exact sub_le_iff_le_add.mpr (le_of_millis_le (hwindow.2 finish hfinish))

/-- The calls a piece of evidence may belong to, all cached after the query. -/
theorem evidenceOwners (h : Sim base db context held r p) (hbase : base < event.byteOffset)
    (evidence : Json) :
    ∃ r', r.evidenceOwners event evidence = (r', p.owners event evidence) ∧
      Sim base db context held r' p ∧
      ∀ op ∈ p.owners event evidence, r'.ops[op.key]? = some op := by
  have henclosing {r1 : Reducer} (hsim : Sim base db context held r1 p) :
      ∃ r', ((r1.backend.execCandidates event.byteOffset (evidenceStart evidence)).foldl
          Reducer.rememberOp r1) = r' ∧
        (rows r'.ops).filter (enclosing event evidence) =
          (rows p.ops).filter (enclosing event evidence) ∧
        Sim base db context held r' p ∧
        ∀ op ∈ (rows p.ops).filter (enclosing event evidence), r'.ops[op.key]? = some op := by
    rw [hsim.backend]
    generalize hl : db.execCandidates event.byteOffset (evidenceStart evidence) = candidates
    have hmem (op : OpRow) (hop : op ∈ candidates) : db.ops[op.key]? = some op := by
      rw [← hl] at hop
      exact h.stored.ops.keyed.mem_rows.mp (List.mem_of_mem_filter hop)
    obtain ⟨hsim', -, hremembered⟩ := hsim.rememberOps hmem
    generalize candidates.foldl Reducer.rememberOp r1 = r2 at hsim' hremembered ⊢
    have hfilter : (rows r2.ops).filter (enclosing event evidence) =
        (rows p.ops).filter (enclosing event evidence) := by
      refine hsim'.rows_filter_eq fun k op hop htest => ?_
      have hkey := h.stored.ops.keyed k op hop
      subst hkey
      refine hremembered op ?_
      rw [← hl]
      exact mem_execCandidates (h.stored.ops.keyed.mem_rows.mpr hop) htest
    refine ⟨r2, rfl, hfilter, hsim', fun op hop => ?_⟩
    rw [← hfilter] at hop
    obtain ⟨k, hk⟩ := mem_rows.mp (List.mem_of_mem_filter hop)
    have hkey := (hsim'.op_cache k op hk).1
    subst hkey
    exact hk
  unfold Reducer.evidenceOwners Projection.owners Projection.exactOwners
  cases evidenceId evidence with
  | none =>
      obtain ⟨r', hr', hfilter, hsim', hcached⟩ := henclosing h
      simp only [List.isEmpty_nil, if_true]
      rw [hr', hfilter]
      exact ⟨r', rfl, hsim', hcached⟩
  | some id =>
      obtain ⟨r1, hr1, hsim, hexact⟩ := h.opsForPair id hbase
      simp only
      rw [hr1]
      simp only
      split
      · obtain ⟨r', hr', hfilter, hsim', hcached⟩ := henclosing hsim
        rw [hr', hfilter]
        exact ⟨r', rfl, hsim', hcached⟩
      · exact ⟨r1, rfl, hsim, fun op hop => hexact op ((List.mem_insertionSort _).mp hop)⟩

/-- Evidence folds into its single owner, or stays on the event. -/
theorem applyEvidence (h : Sim base db context held r p) (hbase : base < event.byteOffset)
    (e : StoredEvent) (evidence : Json × Bool) :
    ∃ r', Reducer.applyEvidence event (r, e) evidence =
        (r', (Projection.addEvidence context event (p, e) evidence).2) ∧
      Sim base db context held r' (Projection.addEvidence context event (p, e) evidence).1 := by
  obtain ⟨r1, hr1, hsim, hcached⟩ := h.evidenceOwners hbase evidence.1
  unfold Reducer.applyEvidence Projection.addEvidence
  simp only
  rw [hr1]
  cases howners : p.owners event evidence.1 with
  | nil => exact ⟨r1, rfl, hsim⟩
  | cons op others =>
      cases others with
      | cons other others => exact ⟨r1, rfl, hsim⟩
      | nil =>
          -- folding keeps the key
          have hop : r1.ops[(foldEvidence event evidence.1 evidence.2 op).key]? = some op := by
            refine hcached op ?_
            rw [howners]
            exact List.mem_singleton_self op
          have hsame := sameCall_foldEvidence event evidence.1 evidence.2 op
          have hput : Sim base db context held
              (r1.putOp (foldEvidence event evidence.1 evidence.2 op) true)
              (p.storeOp context (foldEvidence event evidence.1 evidence.2 op) true) :=
            hsim.putOp hop hsame (by rintro ⟨⟩)
          exact ⟨_, rfl, hput.noteOwnerError _⟩

/-- **All evidence of an event.** -/
theorem correlateRuntime (h : Sim base db context held r p) (hbase : base < event.byteOffset) :
    ∃ r', r.correlateRuntime event = (r', (p.correlate context event).2) ∧
      Sim base db context held r' (p.correlate context event).1 := by
  unfold Reducer.correlateRuntime Projection.correlate
  have hfold (evidence : List (Json × Bool)) (r : Reducer) (p : Projection) (e : StoredEvent)
      (h : Sim base db context held r p) :
      ∃ r', evidence.foldl (Reducer.applyEvidence event) (r, e) =
          (r', (evidence.foldl (Projection.addEvidence context event) (p, e)).2) ∧
        Sim base db context held r'
          (evidence.foldl (Projection.addEvidence context event) (p, e)).1 := by
    induction evidence generalizing r p e with
    | nil => exact ⟨r, rfl, h⟩
    | cons one evidence ih =>
        obtain ⟨r1, hr1, hsim⟩ := h.applyEvidence hbase e one
        rw [List.foldl_cons, List.foldl_cons, hr1]
        exact ih r1 _ _ hsim
  exact hfold (evidenceIn event) r p event h

/-! ## Usage -/

/-- The latest usage of a response is written to the cache. -/
theorem insertUsage (h : Sim base db context held r p) (messageId : String) (usage : MessageUsage) :
    Sim base db context held
      { r with
        usage := r.usage.insert messageId usage
        dirtyUsage := insert messageId r.dirtyUsage }
      { p with usage := p.usage.insert messageId usage } := by
  refine { h with usage := ?_, usage_dirty := fun id usage' hid => ?_ }
  · show overlay db.usage (r.usage.insert messageId usage) = p.usage.insert messageId usage
    rw [overlay_insert, h.usage]
  · rw [lookup_insert] at hid
    split at hid
    · rename_i heq
      subst heq
      exact Finset.mem_insert_self _ _
    · exact Finset.mem_insert_of_mem (h.usage_dirty id usage' hid)

theorem withState (h : Sim base db context held r p) {state state' : SessionState}
    (hstate : state = state') :
    Sim base db context held { r with state := state } { p with state := state' } :=
  { h with state := hstate }

/-- **A Claude receipt**: the prior one is the stored one unless the batch has a later one. -/
theorem charge (h : Sim base db context held r p) (ht : t ∈ held) (messageId : String)
    (tokens : Int × Int) :
    Sim base db context held (r.charge t messageId tokens) (p.charge t messageId tokens) := by
  have hprior :
      r.usage[messageId]?.or (r.backend.messageUsage messageId) = p.usage[messageId]? := by
    rw [Projection.messageUsage, h.backend, ← h.usage, lookup_overlay]
  unfold Reducer.charge Projection.charge Projection.withdraw Projection.usageOwner
  simp only
  rw [hprior]
  cases p.usage[messageId]? with
  | none => exact (h.turnMut ht (TurnRow.keepsSeed_addTokens tokens)).insertUsage messageId _
  | some prior =>
      by_cases hturn : p.HasTurn prior.turnId
      · -- the turn of the earlier receipt is charged again
        obtain ⟨r', hload, hsim⟩ := h.loadTurn hturn
        have hsome : p.turns[prior.turnId]?.isSome = true := Option.isSome_iff_exists.mpr hturn
        simp only [hload, hsome, if_true]
        have hmem : prior.turnId ∈ insert prior.turnId held := Set.mem_insert _ _
        have hsub := hsim.turnMut hmem
          (TurnRow.keepsSeed_subTokens (prior.inputTokens, prior.outputTokens))
        have hadd := hsub.turnMut hmem (TurnRow.keepsSeed_addTokens tokens)
        exact (hadd.insertUsage messageId _).mono (Set.subset_insert _ _)
      · have hnone : p.turns[prior.turnId]?.isSome = false := by
          rw [Bool.eq_false_iff]
          exact fun hsome => hturn (Option.isSome_iff_exists.mp hsome)
        have hne : prior.turnId ≠ t := by
          rintro rfl
          obtain ⟨row, hrow⟩ := h.held_cached _ ht
          exact hturn ⟨row, h.lookup_turn hrow⟩
        simp only [h.loadTurn_missing hturn, hnone, Bool.false_eq_true, if_false, if_neg hne]
        exact (h.turnMut ht (TurnRow.keepsSeed_addTokens tokens)).insertUsage messageId _

/-- **Usage** of an event in its turn. -/
theorem applyUsage (h : Sim base db context held r p) (ht : t ∈ held) (event : StoredEvent) :
    Sim base db context held (r.applyUsage t event) (p.addUsage t event) := by
  unfold Reducer.applyUsage Projection.addUsage
  cases event.usageJson with
  | none => exact h
  | some usage =>
      simp only
      split
      · have hmod := h.turnMut ht (TurnRow.keepsSeed_setTotals
          (token usage "input_tokens", token usage "output_tokens"))
        refine hmod.withState ?_
        rw [hmod.state]
      · cases event.usageMessageId with
        | none => exact h.turnMut ht (TurnRow.keepsSeed_addTokens _)
        | some messageId => exact h.charge ht messageId (claudeTokens usage)

/-! ## Events -/

theorem addLinks (h : Sim base db context held r p) {links links' : Finset ChildLink}
    (hlinks : links = r.links ∪ links') :
    Sim base db context held { r with links := links } (p.addLinks links') := by
  refine { h with links := ?_ }
  show db.links ∪ links = p.links ∪ links'
  rw [hlinks, ← Finset.union_assoc, h.links]

theorem applyReply (h : Sim base db context held r p) (hc : Consistent bound p) (ht : t ∈ held)
    (event : StoredEvent) (hlow : t ≤ event.byteOffset)
    (hhigh : event.byteOffset ≤ bound) :
    Sim base db context held (r.applyReply t event) (p.addReply context t event) := by
  unfold Reducer.applyReply Projection.addReply
  split
  · exact (h.applyCalls hc ht hlow hhigh).turnMut ht (TurnRow.keepsSeed_noteReply event)
  · exact h

theorem pushItem (h : Sim base db context held r p) (t : Int) (event : StoredEvent) :
    Sim base db context held (r.pushItem t event) (p.addItem t event) := by
  unfold Reducer.pushItem Projection.addItem
  cases visibleItem event with
  | none => exact h
  | some item =>
      refine { h with items := ?_ }
      rw [← h.items]
      simp only [List.map_append, List.map_cons, List.map_nil, mergeList, List.foldl_append]

/-- **An event is appended to a turn that is there**, so the reducer does not bail. -/
theorem appendEvent (h : Sim base db context held r p) (hc : Consistent bound p)
    (ht : p.HasTurn t) (hlow : t ≤ event.byteOffset) (hhigh : event.byteOffset ≤ bound)
    (hbase : base < event.byteOffset) :
    ∃ r', r.appendEvent t event = some r' ∧
      Sim base db context ∅ r' (p.append context t event) := by
  obtain ⟨r1, hload, hsim⟩ := h.loadTurn ht
  have hmem : t ∈ insert t held := Set.mem_insert _ _
  have hcounted := hc.countEvent ht event
  have hcount := (hsim.turnMut hmem (TurnRow.keepsSeed_countEvent event)).withState
    (congrArg (fun state : SessionState => state.countEvent event) hsim.state)
  have hreply := hcount.applyReply hcounted hmem event hlow hhigh
  have hresults := hreply.applyResults hmem event hbase
  have husage := (hresults.pushItem t event).applyUsage hmem event
  unfold Reducer.appendEvent
  rw [hload]
  exact ⟨_, rfl, husage.mono (Set.empty_subset _)⟩

/-! ## Where an event goes -/

theorem notePrompt_eq_none (h : Sim base db context held r p) (event : StoredEvent) :
    r.notePrompt event = none ↔ p.seen event = true := by
  unfold Reducer.notePrompt Projection.seen
  cases isRealUserPrompt event with
  | false => simp
  | true =>
      cases event.eventUuid with
      | none => simp
      | some id =>
          rw [h.backend]
          simp only [if_true, Option.any_some, Bool.true_and]
          rw [h.prompts id]
          by_cases hid : id ∈ r.prompts
          · simp [hid]
          · simp [hid]

/-- What noting a prompt leaves. -/
theorem notePrompt_eq_some {r' : Reducer} (hnote : r.notePrompt event = some r') :
    ∃ prompts : Finset String, r' = { r with prompts := prompts } ∧
      ∀ id, id ∈ prompts ↔ id ∈ r.prompts ∨
        (isRealUserPrompt event = true ∧ event.eventUuid = some id) := by
  unfold Reducer.notePrompt at hnote
  cases hprompt : isRealUserPrompt event with
  | false =>
      rw [hprompt] at hnote
      cases hnote
      exact ⟨r.prompts, rfl, by simp⟩
  | true =>
      rw [hprompt] at hnote
      cases huuid : event.eventUuid with
      | none =>
          rw [huuid] at hnote
          cases hnote
          exact ⟨r.prompts, rfl, by simp⟩
      | some id =>
          rw [huuid] at hnote
          simp only [if_true] at hnote
          split at hnote
          · cases hnote
          · cases hnote
            refine ⟨insert id r.prompts, rfl, fun id' => ?_⟩
            rw [Finset.mem_insert, or_comm]
            simp [eq_comm]

end Sim

/-- A new turn for the event, linked to its spawning call when it is a sidechain. -/
def Reducer.openFor (r : Reducer) (event : StoredEvent) : Reducer :=
  let r := r.createTurn event (isRealUserPrompt event) event.isSidechain
  if event.isSidechain then r.linkSidechainTurn event.byteOffset event else r

/-- **Routing by place.** -/
theorem routeEvent_eq (r : Reducer) (event : StoredEvent) :
    r.routeEvent event =
      match Projection.place r.state event with
      | .nowhere => some r
      | .into turnId => r.appendEvent turnId event
      | .fresh =>
          if isRealUserPrompt event then some (r.openFor event)
          else (r.openFor event).appendEvent event.byteOffset event := by
  unfold Reducer.routeEvent Projection.place Reducer.openFor
  cases hprompt : isRealUserPrompt event with
  | true =>
      have hkeep := not_bookkeeping_of_prompt hprompt
      cases hside : event.isSidechain with
      | true => simp [hkeep]
      | false => simp
  | false =>
      cases hside : event.isSidechain with
      | true =>
          cases r.state.currentSidechain with
          | some turnId => simp
          | none => cases isBookkeepingEvent event <;> simp
      | false =>
          cases r.state.currentMain with
          | some turnId => simp
          | none => cases isBookkeepingEvent event <;> simp

namespace Sim

theorem openFor (h : Sim base db context held r p) (hfresh : p.turns[event.byteOffset]? = none)
    {prompts : Finset String}
    (hprompts : ∀ id, id ∈ prompts ↔ id ∈ r.prompts ∨
      (isRealUserPrompt event = true ∧ event.eventUuid = some id)) :
    Sim base db context (insert event.byteOffset held)
      (Reducer.openFor { r with prompts := prompts } event) (p.openFor context event) := by
  have hopen : Sim base db context (insert event.byteOffset held)
      (Reducer.createTurn { r with prompts := prompts } event (isRealUserPrompt event)
        event.isSidechain)
      (p.openTurn event (isRealUserPrompt event) event.isSidechain) :=
    h.createTurn hfresh hprompts
  unfold Reducer.openFor Projection.openFor
  simp only
  split
  · refine hopen.addLinks ?_
    rw [hopen.context_eq]
  · exact hopen

/-- **An event goes to the same place** in the caches and in the tables. -/
theorem settle (h : Sim base db context ∅ r p) (hc : Consistent bound p)
    (hfirst : bound < event.byteOffset) (hthrough : event.byteOffset ≤ p.state.projectedThrough)
    (hbase : base < event.byteOffset) :
    ∃ r', (match r.notePrompt event with
        | none => some r
        | some r => r.routeEvent event) = some r' ∧
      Sim base db context ∅ r' (if p.seen event then p else p.settle context event) := by
  cases hnote : r.notePrompt event with
  | none =>
      have hseen := (h.notePrompt_eq_none event).mp hnote
      rw [hseen]
      exact ⟨r, rfl, h⟩
  | some r0 =>
      have hseen : p.seen event = false := by
        rw [Bool.eq_false_iff]
        intro hseen
        rw [(h.notePrompt_eq_none event).mpr hseen] at hnote
        cases hnote
      obtain ⟨prompts, rfl, hprompts⟩ := notePrompt_eq_some hnote
      -- only a prompt's id is noted, and a prompt opens a turn
      have hsame (hplace : isRealUserPrompt event = false) : { r with prompts := prompts } = r := by
        have heq : prompts = r.prompts := by
          ext id
          rw [hprompts]
          simp [hplace]
        rw [heq]
      rw [hseen]
      simp only [Bool.false_eq_true, if_false]
      rw [routeEvent_eq]
      unfold Projection.settle
      rw [← h.state]
      cases hplace : Projection.place r.state event with
      | nowhere =>
          have hprompt : isRealUserPrompt event = false := by
            cases hprompt : isRealUserPrompt event with
            | false => rfl
            | true => simp [Projection.place, hprompt] at hplace
          rw [hsame hprompt]
          exact ⟨r, rfl, h⟩
      | into t =>
          have hprompt : isRealUserPrompt event = false := by
            cases hprompt : isRealUserPrompt event with
            | false => rfl
            | true => simp [Projection.place, hprompt] at hplace
          rw [hsame hprompt]
          rw [h.state] at hplace
          obtain ⟨row, hrow⟩ := hc.hasTurn_of_place hplace
          have hlow : t ≤ event.byteOffset := (hc.turns.le_bound t row hrow).trans hfirst.le
          exact h.appendEvent (hc.mono hfirst.le hthrough) ⟨row, hrow⟩ hlow le_rfl hbase
      | fresh =>
          have hfresh : p.turns[event.byteOffset]? = none := by
            cases hrow : p.turns[event.byteOffset]? with
            | none => rfl
            | some row =>
                have := hc.turns.le_bound _ _ hrow
                omega
          have hopen := h.openFor hfresh hprompts
          obtain ⟨hc', hturn⟩ := hc.openFor context hfirst hthrough
          simp only
          split
          · exact ⟨_, rfl, hopen.mono (Set.empty_subset _)⟩
          · exact hopen.appendEvent hc' hturn le_rfl le_rfl hbase

/-- **One event.** The reducer applies it without bailing, and changes the tables by
`Projection.step`. -/
theorem apply (h : Sim base db context ∅ r p) (hc : Consistent bound p)
    (hfirst : bound < event.byteOffset) (hbase : base < event.byteOffset) :
    ∃ r', r.apply event = some r' ∧ Sim base db context ∅ r' (p.step context event) := by
  have hadvance : Sim base db context ∅ { r with state := r.state.advance event }
      (p.advance event) :=
    h.withState (congrArg (fun state : SessionState => state.advance event) h.state)
  unfold Reducer.apply Projection.step
  simp only
  split
  · exact ⟨_, rfl, hadvance⟩
  · obtain ⟨r1, hcorrelate, hsim⟩ := hadvance.correlateRuntime hbase
    rw [hcorrelate]
    have hsame := sameReceipt_correlate context (p.advance event) event
    have hstate := state_correlate context (p.advance event) event
    have hc1 := (hc.advance event).correlate context event
    have hthrough : event.byteOffset ≤ (p.advance event).state.projectedThrough :=
      le_max_right _ _
    rw [← hstate] at hthrough
    revert hsim hsame hc1 hthrough
    generalize (p.advance event).correlate context event = acc
    obtain ⟨p1, event1⟩ := acc
    intro hsim hsame hc1 hthrough
    simp only at hsim hc1 hsame hthrough ⊢
    rw [← hsame.1] at hfirst hbase hthrough
    have hlinked : Sim base db context ∅ (r1.recordLinks event1)
        (p1.addLinks
          (eventLinks context.parseUuid context.sessionUuid context.childOf event1)) := by
      refine hsim.addLinks ?_
      rw [hsim.context_eq]
    exact hlinked.settle (hc1.addLinks _) hfirst hthrough hbase

end Sim

end Sulion.Timeline
