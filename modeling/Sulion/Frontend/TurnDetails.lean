import Sulion.Lib.Paging

set_option autoImplicit false

/-! # The turn cache of the client

`TurnDetailStore.ts`: what a record of the turn stream makes of the cached turn, how operations are
merged, and what a body that arrives late changes. What a header, an item and an operation show, and
the input and result of an operation, are parameters.
-/

namespace Sulion.Frontend.TurnDetails

/-! ## Records -/

structure TurnCursor where
  turnId : Int
  /-- Generations are numbered: a rebuild never brings an old one back. -/
  generation : Nat
  since : Int
  through : Option Int
  itemAfter : Int
  operationAfter : Int
  itemsDone : Bool

structure TimelineItem (ι : Type) where
  offset : Int
  chunk : ι

/-- An operation as the client has it: `shown` is what its header shows, `body` its input and its
result. -/
structure TimelineToolPair (μ β : Type) where
  /-- Its number in the turn, which the value does not have. -/
  operation : Nat
  id : String
  bodyVersion : Option Int
  bodyLoaded : Bool
  body : β
  shown : μ

structure OperationBody (β : Type) where
  id : String
  generation : Nat
  bodyVersion : Int
  body : β

inductive TurnRecord (ι μ β ν : Type)
  | header (about : ν) (cursor : TurnCursor) (startOver : Bool)
  | batch (items : List (TimelineItem ι)) (operations : List (TimelineToolPair μ β))
      (cursor : TurnCursor)
  | complete (cursor : TurnCursor)
  | reset
  | error (message : String)

structure TimelineTurn (ι μ β ν : Type) where
  about : ν
  generation : Nat
  items : List (TimelineItem ι)
  toolPairs : List (TimelineToolPair μ β)

structure StreamEntry (ι μ β ν : Type) where
  turn : Option (TimelineTurn ι μ β ν)
  cursor : Option TurnCursor
  revision : Int
  loading : Bool
  error : Option String

variable {ι μ β ν : Type}

/-- The entry of a turn that is not there yet. -/
def StreamEntry.fresh : StreamEntry ι μ β ν := ⟨none, none, -1, true, none⟩

/-- `body_version ?? -1`. -/
def TimelineToolPair.version (pair : TimelineToolPair μ β) : Int := pair.bodyVersion.getD (-1)

/-! ## Merging -/

/-- `byId.set`. -/
def setPair (pairs : List (TimelineToolPair μ β)) (pair : TimelineToolPair μ β) :
    List (TimelineToolPair μ β) :=
  if pairs.any (·.id = pair.id) then pairs.map fun p => if p.id = pair.id then pair else p
  else pairs ++ [pair]

/-- An update keeps the body that is loaded for the same version. -/
def keepBody (prior update : TimelineToolPair μ β) : TimelineToolPair μ β :=
  if prior.bodyLoaded ∧ prior.bodyVersion = update.bodyVersion then
    { update with body := prior.body, bodyLoaded := true }
  else update

/-- One round of `mergeOperations`, and whether it has changed anything. -/
def mergeOperation [DecidableEq μ] (merged : List (TimelineToolPair μ β) × Bool)
    (update : TimelineToolPair μ β) : List (TimelineToolPair μ β) × Bool :=
  match merged.1.find? (·.id = update.id) with
  | none => (setPair merged.1 update, true)
  | some prior =>
      if update.version < prior.version then merged
      else
        let pair := keepBody prior update
        if prior.bodyVersion = pair.bodyVersion ∧ prior.shown = pair.shown then merged
        else (setPair merged.1 pair, true)

def mergeOperations [DecidableEq μ] (old updates : List (TimelineToolPair μ β)) :
    List (TimelineToolPair μ β) :=
  if updates = [] then old
  else
    let merged := updates.foldl mergeOperation (old.foldl setPair [], false)
    if merged.2 then merged.1 else old

def applyStreamRecord [DecidableEq μ] (entry : StreamEntry ι μ β ν) :
    TurnRecord ι μ β ν → Except String (StreamEntry ι μ β ν)
  | .reset => .ok .fresh
  | .error message => .ok { entry with error := some message, loading := false }
  | .complete cursor => .ok { entry with cursor := some cursor }
  | .header about cursor startOver =>
      let prior := if startOver then none else entry.turn
      .ok { entry with
        cursor := some cursor
        turn := some
          { about := about
            generation := cursor.generation
            items := (prior.map (·.items)).getD []
            toolPairs := (prior.map (·.toolPairs)).getD [] } }
  | .batch items operations cursor =>
      match entry.turn with
      | none => .error "Turn batch arrived before its header"
      | some old =>
          let last := (old.items.getLast?.map (·.offset)).getD (-1)
          .ok { entry with
            cursor := some cursor
            turn := some { old with
              items := old.items ++ items.filter fun item => last < item.offset
              toolPairs := mergeOperations old.toolPairs operations } }

/-! ## Bodies -/

def withBody (body : OperationBody β) (pair : TimelineToolPair μ β) : TimelineToolPair μ β :=
  if pair.id = body.id ∧ pair.version ≤ body.bodyVersion then
    { pair with body := body.body, bodyVersion := some body.bodyVersion, bodyLoaded := true }
  else pair

/-- `hydrateOperation`, when the body has arrived. -/
def hydrateOperation (body : OperationBody β) (entry : StreamEntry ι μ β ν) :
    StreamEntry ι μ β ν :=
  match entry.turn with
  | none => entry
  | some turn =>
      if turn.generation ≠ body.generation then entry
      else { entry with turn := some { turn with toolPairs := turn.toolPairs.map (withBody body) } }

/-! ## What a merge does -/

section Merge

variable {pairs updates received : List (TimelineToolPair μ β)} {generation : Nat}
  {bodies : List (OperationBody β)} {p p' prior update : TimelineToolPair μ β}

theorem setPair_of_mem (hprior : prior ∈ pairs) (hid : prior.id = p.id) :
    setPair pairs p = pairs.map fun q => if q.id = p.id then p else q :=
  if_pos (List.any_eq_true.mpr ⟨prior, hprior, decide_eq_true hid⟩)

theorem setPair_of_new (h : ∀ q ∈ pairs, q.id ≠ p.id) : setPair pairs p = pairs ++ [p] := by
  refine if_neg fun hany => ?_
  obtain ⟨q, hq, hid⟩ := List.any_eq_true.mp hany
  exact h q hq (of_decide_eq_true hid)

theorem foldl_setPair (old pairs : List (TimelineToolPair μ β))
    (h : ((pairs ++ old).map (·.id)).Nodup) : old.foldl setPair pairs = pairs ++ old := by
  induction old generalizing pairs with
  | nil => exact (List.append_nil pairs).symm
  | cons first old ih =>
      have hnew : ∀ q ∈ pairs, q.id ≠ first.id := by
        intro q hq hid
        rw [List.map_append, List.nodup_append] at h
        exact h.2.2 _ (List.mem_map_of_mem hq) _ List.mem_cons_self hid
      rw [List.foldl_cons, setPair_of_new hnew, ih _ (by simpa using h)]
      exact List.append_assoc pairs [first] old

/-- One update, whatever was changed before. -/
def mergeOne [DecidableEq μ] (pairs : List (TimelineToolPair μ β)) (update : TimelineToolPair μ β) :
    List (TimelineToolPair μ β) :=
  (mergeOperation (pairs, false) update).1

theorem mergeOperation_eq [DecidableEq μ] (merged : List (TimelineToolPair μ β) × Bool)
    (update : TimelineToolPair μ β) :
    (mergeOperation merged update).1 = mergeOne merged.1 update ∧
      ((mergeOperation merged update).2 = false →
        merged.2 = false ∧ mergeOne merged.1 update = merged.1) := by
  obtain ⟨pairs, changed⟩ := merged
  unfold mergeOne mergeOperation
  dsimp only
  split
  · exact ⟨rfl, nofun⟩
  · split
    · exact ⟨rfl, fun h => ⟨h, rfl⟩⟩
    · split
      · exact ⟨rfl, fun h => ⟨h, rfl⟩⟩
      · exact ⟨rfl, nofun⟩

theorem foldl_mergeOperation [DecidableEq μ] (updates : List (TimelineToolPair μ β))
    (merged : List (TimelineToolPair μ β) × Bool) :
    (updates.foldl mergeOperation merged).1 = updates.foldl mergeOne merged.1 ∧
      ((updates.foldl mergeOperation merged).2 = false →
        merged.2 = false ∧ updates.foldl mergeOne merged.1 = merged.1) := by
  induction updates generalizing merged with
  | nil => exact ⟨rfl, fun h => ⟨h, rfl⟩⟩
  | cons update updates ih =>
      obtain ⟨hone, hsame⟩ := mergeOperation_eq merged update
      obtain ⟨hrest, hrestSame⟩ := ih (mergeOperation merged update)
      rw [List.foldl_cons, List.foldl_cons, hrest, hone]
      refine ⟨rfl, fun hunchanged => ?_⟩
      obtain ⟨hflag, hlist⟩ := hrestSame hunchanged
      obtain ⟨hbefore, heq⟩ := hsame hflag
      rw [hone, heq] at hlist
      rw [heq]
      exact ⟨hbefore, hlist⟩

/-- The updates one after the other, when no two of the operations have one id. -/
theorem mergeOperations_eq [DecidableEq μ] (old updates : List (TimelineToolPair μ β))
    (hold : (old.map (·.id)).Nodup) : mergeOperations old updates = updates.foldl mergeOne old := by
  unfold mergeOperations
  split
  · rename_i hnone
    rw [hnone]
    rfl
  · obtain ⟨hlist, hsame⟩ := foldl_mergeOperation updates (old, false)
    rw [foldl_setPair old [] hold, List.nil_append]
    dsimp only
    split
    · exact hlist
    · rename_i hflag
      exact (hsame (Bool.eq_false_iff.mpr hflag)).2.symm

/-- What is held of the operations that were received, and of the bodies. -/
structure Kept (generation : Nat) (received : List (TimelineToolPair μ β))
    (bodies : List (OperationBody β)) (pairs : List (TimelineToolPair μ β)) : Prop where
  once : (pairs.map (·.id)).Nodup
  held : ∀ v ∈ received, ∃ p ∈ pairs, p.id = v.id ∧ v.version ≤ p.version
  known : ∀ p ∈ pairs, ∃ v ∈ received, v.id = p.id ∧ v.operation = p.operation
  version : ∀ p ∈ pairs, (∃ v ∈ received, v.id = p.id ∧ p.bodyVersion = v.bodyVersion) ∨
    ∃ b ∈ bodies, b.id = p.id ∧ b.generation = generation ∧ p.bodyVersion = some b.bodyVersion
  loaded : ∀ p ∈ pairs, p.bodyLoaded = true → ∃ b ∈ bodies, b.id = p.id ∧
    b.generation = generation ∧ p.bodyVersion = some b.bodyVersion ∧ p.body = b.body

theorem Kept.empty (generation : Nat) (bodies : List (OperationBody β)) :
    Kept (μ := μ) generation [] bodies [] :=
  ⟨List.nodup_nil, List.forall_mem_nil _, List.forall_mem_nil _, List.forall_mem_nil _,
    List.forall_mem_nil _⟩

/-- No version goes back, and a body that is loaded stays as long as its version does. -/
def Newer (pairs pairs' : List (TimelineToolPair μ β)) : Prop :=
  ∀ p ∈ pairs, ∀ p' ∈ pairs', p'.id = p.id → p.version ≤ p'.version ∧
    (p.bodyLoaded = true → p'.version = p.version → p'.bodyLoaded = true)

theorem eq_of_id (hpairs : (pairs.map (·.id)).Nodup) (hp : p ∈ pairs) (hp' : p' ∈ pairs)
    (hid : p'.id = p.id) : p' = p :=
  List.inj_on_of_nodup_map hpairs hp' hp hid

theorem Newer.refl (hpairs : (pairs.map (·.id)).Nodup) : Newer pairs pairs := by
  intro p hp p' hp' hid
  obtain rfl := eq_of_id hpairs hp hp' hid
  exact ⟨le_rfl, fun h _ => h⟩

theorem Newer.trans {pairs' pairs'' : List (TimelineToolPair μ β)} (h : Newer pairs pairs')
    (h' : Newer pairs' pairs'') (hkept : ∀ p ∈ pairs, ∃ p' ∈ pairs', p'.id = p.id) :
    Newer pairs pairs'' := by
  intro p hp p'' hp'' hid
  obtain ⟨p', hp', hid'⟩ := hkept p hp
  obtain ⟨hle, hloaded⟩ := h p hp p' hp' hid'
  obtain ⟨hle', hloaded'⟩ := h' p' hp' p'' hp'' (hid.trans hid'.symm)
  exact ⟨hle.trans hle', fun hp hsame =>
    hloaded' (hloaded hp (by omega)) (by omega)⟩

theorem keepBody_same (prior update : TimelineToolPair μ β) :
    (keepBody prior update).id = update.id ∧
      (keepBody prior update).bodyVersion = update.bodyVersion ∧
      (keepBody prior update).operation = update.operation := by
  unfold keepBody
  split <;> exact ⟨rfl, rfl, rfl⟩

theorem version_keepBody (prior update : TimelineToolPair μ β) :
    (keepBody prior update).version = update.version :=
  congrArg (·.getD (-1)) (keepBody_same prior update).2.1

/-- What an update does to the operation that is there, if it does anything. -/
theorem mergeOne_cases [DecidableEq μ] (pairs : List (TimelineToolPair μ β))
    (update : TimelineToolPair μ β) :
    ((∀ q ∈ pairs, q.id ≠ update.id) ∧ mergeOne pairs update = pairs ++ [update]) ∨
      ∃ prior ∈ pairs, prior.id = update.id ∧
        ((update.version ≤ prior.version ∧ mergeOne pairs update = pairs) ∨
          (prior.version ≤ update.version ∧ mergeOne pairs update =
            pairs.map fun q => if q.id = update.id then keepBody prior update else q)) := by
  unfold mergeOne mergeOperation
  dsimp only
  split
  · rename_i hnone
    have hnew : ∀ q ∈ pairs, q.id ≠ update.id := fun q hq => by
      simpa using List.find?_eq_none.mp hnone q hq
    exact .inl ⟨hnew, setPair_of_new hnew⟩
  · rename_i prior hfound
    have hid : prior.id = update.id := by simpa using List.find?_some hfound
    have hprior := List.mem_of_find?_eq_some hfound
    refine .inr ⟨prior, hprior, hid, ?_⟩
    split
    · rename_i holder
      exact .inl ⟨holder.le, rfl⟩
    · rename_i hnewer
      split
      · rename_i hsame
        refine .inl ⟨?_, rfl⟩
        have hversion : prior.version = (keepBody prior update).version :=
          congrArg (·.getD (-1)) hsame.1
        rw [hversion, version_keepBody]
      · refine .inr ⟨not_lt.mp hnewer, ?_⟩
        dsimp only
        rw [setPair_of_mem hprior (hid.trans (keepBody_same prior update).1.symm),
          (keepBody_same prior update).1]

theorem mem_snoc {x y : TimelineToolPair μ β} {l : List (TimelineToolPair μ β)}
    (h : x ∈ l ++ [y]) : x ∈ l ∨ x = y :=
  (List.mem_append.mp h).imp id List.mem_singleton.mp

/-- An operation that was not there. -/
theorem Kept.append (h : Kept generation received bodies pairs)
    (hnew : ∀ q ∈ pairs, q.id ≠ update.id) (hupdate : update.bodyLoaded = false) :
    Kept generation (received ++ [update]) bodies (pairs ++ [update]) ∧
      Newer pairs (pairs ++ [update]) := by
  have hlast : update ∈ received ++ [update] := List.mem_append_right _ List.mem_cons_self
  refine ⟨⟨?_, fun v hv => ?_, fun q hq => ?_, fun q hq => ?_, fun q hq hloaded => ?_⟩,
    fun q hq q' hq' hqid => ?_⟩
  · rw [List.map_append, List.nodup_append]
    refine ⟨h.once, List.nodup_singleton _, ?_⟩
    rintro id hmem _ hone rfl
    obtain ⟨q, hq, hqid⟩ := List.mem_map.mp hmem
    exact hnew q hq (hqid.trans (List.mem_singleton.mp hone))
  · rcases mem_snoc hv with hold | rfl
    · obtain ⟨q, hq, hheld⟩ := h.held v hold
      exact ⟨q, List.mem_append_left _ hq, hheld⟩
    · exact ⟨v, List.mem_append_right _ List.mem_cons_self, rfl, le_rfl⟩
  · rcases mem_snoc hq with hold | rfl
    · obtain ⟨v, hv, hknown⟩ := h.known q hold
      exact ⟨v, List.mem_append_left _ hv, hknown⟩
    · exact ⟨q, hlast, rfl, rfl⟩
  · rcases mem_snoc hq with hold | rfl
    · exact (h.version q hold).imp (fun ⟨v, hv, hown⟩ => ⟨v, List.mem_append_left _ hv, hown⟩) id
    · exact .inl ⟨q, hlast, rfl, rfl⟩
  · rcases mem_snoc hq with hold | rfl
    · exact h.loaded q hold hloaded
    · rw [hupdate] at hloaded
      cases hloaded
  · rcases mem_snoc hq' with hold | rfl
    · exact Newer.refl h.once q hq q' hold hqid
    · exact absurd hqid.symm (hnew q hq)

/-- An update that is no newer than what is there. -/
theorem Kept.skip (h : Kept generation received bodies pairs) (hprior : prior ∈ pairs)
    (hid : prior.id = update.id) (hle : update.version ≤ prior.version) :
    Kept generation (received ++ [update]) bodies pairs where
  once := h.once
  held v hv := by
    rcases mem_snoc hv with hold | rfl
    · exact h.held v hold
    · exact ⟨prior, hprior, hid, hle⟩
  known q hq := by
    obtain ⟨v, hv, hknown⟩ := h.known q hq
    exact ⟨v, List.mem_append_left _ hv, hknown⟩
  version q hq :=
    (h.version q hq).imp (fun ⟨v, hv, hown⟩ => ⟨v, List.mem_append_left _ hv, hown⟩) id
  loaded := h.loaded

/-- An update that is as new as what is there, or newer. -/
theorem Kept.replace (h : Kept generation received bodies pairs) (hprior : prior ∈ pairs)
    (hid : prior.id = update.id) (hle : prior.version ≤ update.version)
    (hupdate : update.bodyLoaded = false) (hversion : update.bodyVersion.isSome = true)
    {pairs' : List (TimelineToolPair μ β)}
    (heq : pairs' = pairs.map fun q => if q.id = update.id then keepBody prior update else q) :
    Kept generation (received ++ [update]) bodies pairs' ∧ Newer pairs pairs' := by
  obtain ⟨hkid, hkversion, hkoperation⟩ := keepBody_same prior update
  have hlast : update ∈ received ++ [update] := List.mem_append_right _ List.mem_cons_self
  have hpairs : ∀ q' ∈ pairs', (q' ∈ pairs ∧ q'.id ≠ update.id) ∨ q' = keepBody prior update := by
    intro q' hq'
    rw [heq] at hq'
    obtain ⟨q, hq, rfl⟩ := List.mem_map.mp hq'
    by_cases hqid : q.id = update.id
    · rw [if_pos hqid]
      exact .inr rfl
    · rw [if_neg hqid]
      exact .inl ⟨hq, hqid⟩
  have hmem : keepBody prior update ∈ pairs' := by
    rw [heq]
    exact List.mem_map.mpr ⟨prior, hprior, if_pos hid⟩
  have hold : ∀ q ∈ pairs, q.id ≠ update.id → q ∈ pairs' := by
    intro q hq hqid
    rw [heq]
    exact List.mem_map.mpr ⟨q, hq, if_neg hqid⟩
  refine ⟨⟨?_, fun v hv => ?_, fun q hq => ?_, fun q hq => ?_, fun q hq hloaded => ?_⟩,
    fun q hq q' hq' hqid => ?_⟩
  · have hids : pairs'.map (·.id) = pairs.map (·.id) := by
      rw [heq, List.map_map]
      refine List.map_congr_left fun q _ => ?_
      by_cases hqid : q.id = update.id
      · simp [hqid, hkid]
      · simp [hqid]
    rw [hids]
    exact h.once
  · rcases mem_snoc hv with hv | rfl
    · obtain ⟨q, hq, hqid, hversion⟩ := h.held v hv
      by_cases hqu : q.id = update.id
      · obtain rfl := eq_of_id h.once hprior hq (hqu.trans hid.symm)
        refine ⟨_, hmem, hkid.trans (hqu.symm.trans hqid), ?_⟩
        rw [version_keepBody]
        exact hversion.trans hle
      · exact ⟨q, hold q hq hqu, hqid, hversion⟩
    · exact ⟨_, hmem, hkid, (version_keepBody prior v).ge⟩
  · rcases hpairs q hq with ⟨hq, -⟩ | rfl
    · obtain ⟨v, hv, hknown⟩ := h.known q hq
      exact ⟨v, List.mem_append_left _ hv, hknown⟩
    · exact ⟨update, hlast, hkid.symm, hkoperation.symm⟩
  · rcases hpairs q hq with ⟨hq, -⟩ | rfl
    · exact (h.version q hq).imp (fun ⟨v, hv, hown⟩ => ⟨v, List.mem_append_left _ hv, hown⟩) id
    · exact .inl ⟨update, hlast, hkid.symm, hkversion⟩
  · rcases hpairs q hq with ⟨hq, -⟩ | rfl
    · exact h.loaded q hq hloaded
    · unfold keepBody at hloaded ⊢
      split at hloaded
      · rename_i hcarry
        obtain ⟨b, hb, hbid, hbgeneration, hbversion, hbody⟩ := h.loaded prior hprior hcarry.1
        rw [if_pos hcarry]
        exact ⟨b, hb, hbid.trans hid, hbgeneration, hcarry.2.symm.trans hbversion, hbody⟩
      · rw [hupdate] at hloaded
        cases hloaded
  · rcases hpairs q' hq' with ⟨hq', -⟩ | rfl
    · exact Newer.refl h.once q hq q' hq' hqid
    · obtain rfl := eq_of_id h.once hprior hq ((hqid.symm.trans hkid).trans hid.symm)
      rw [version_keepBody]
      refine ⟨hle, fun hloaded hsame => ?_⟩
      -- of one version, as numbers and as values
      obtain ⟨b, -, -, -, hbversion, -⟩ := h.loaded q hq hloaded
      obtain ⟨n, hn⟩ := Option.isSome_iff_exists.mp hversion
      have heqVersion : q.bodyVersion = update.bodyVersion := by
        unfold TimelineToolPair.version at hsame
        rw [hbversion, hn] at hsame ⊢
        exact congrArg some hsame.symm
      unfold keepBody
      rw [if_pos ⟨hloaded, heqVersion⟩]

/-- **One update.** -/
theorem Kept.ofUpdate [DecidableEq μ] (h : Kept generation received bodies pairs)
    (hupdate : update.bodyLoaded = false) (hversion : update.bodyVersion.isSome = true) :
    Kept generation (received ++ [update]) bodies (mergeOne pairs update) ∧
      Newer pairs (mergeOne pairs update) := by
  rcases mergeOne_cases pairs update with ⟨hnew, heq⟩ | ⟨prior, hprior, hid, hsame | hset⟩
  · rw [heq]
    exact h.append hnew hupdate
  · rw [hsame.2]
    exact ⟨h.skip hprior hid hsame.1, .refl h.once⟩
  · exact h.replace hprior hid hset.1 hupdate hversion hset.2

/-- An update takes no operation away. -/
theorem mem_mergeOne [DecidableEq μ] (hp : p ∈ pairs) :
    ∃ p' ∈ mergeOne pairs update, p'.id = p.id := by
  rcases mergeOne_cases pairs update with ⟨-, heq⟩ | ⟨prior, -, hid, ⟨-, heq⟩ | ⟨-, heq⟩⟩
  · rw [heq]
    exact ⟨p, List.mem_append_left _ hp, rfl⟩
  · rw [heq]
    exact ⟨p, hp, rfl⟩
  · rw [heq]
    refine ⟨_, List.mem_map_of_mem hp, ?_⟩
    by_cases hpid : p.id = update.id
    · rw [if_pos hpid]
      exact (keepBody_same prior update).1.trans hpid.symm
    · rw [if_neg hpid]

/-- **The updates of a batch.** -/
theorem Kept.ofUpdates [DecidableEq μ] (h : Kept generation received bodies pairs)
    (hupdates : ∀ u ∈ updates, u.bodyLoaded = false ∧ u.bodyVersion.isSome = true) :
    Kept generation (received ++ updates) bodies (mergeOperations pairs updates) ∧
      Newer pairs (mergeOperations pairs updates) := by
  rw [mergeOperations_eq pairs updates h.once]
  induction updates generalizing received pairs with
  | nil =>
      rw [List.append_nil]
      exact ⟨h, .refl h.once⟩
  | cons first updates ih =>
      obtain ⟨hloaded, hversion⟩ := hupdates first List.mem_cons_self
      obtain ⟨hfirst, hnewer⟩ := h.ofUpdate hloaded hversion
      obtain ⟨hrest, hrestNewer⟩ := ih hfirst fun u hu => hupdates u (List.mem_cons_of_mem _ hu)
      rw [List.append_assoc] at hrest
      exact ⟨hrest, hnewer.trans hrestNewer fun p hp => mem_mergeOne hp⟩

/-! ## What a body does -/

theorem withBody_same (body : OperationBody β) (pair : TimelineToolPair μ β) :
    (withBody body pair).id = pair.id ∧ (withBody body pair).operation = pair.operation ∧
      pair.version ≤ (withBody body pair).version ∧
      (pair.bodyLoaded = true → (withBody body pair).bodyLoaded = true) := by
  unfold withBody
  split
  · rename_i hown
    exact ⟨rfl, rfl, hown.2, fun _ => rfl⟩
  · exact ⟨rfl, rfl, le_rfl, id⟩

/-- A body of the generation, for the operations that are no newer. -/
theorem Kept.withBody {body : OperationBody β} (h : Kept generation received bodies pairs)
    (hgeneration : body.generation = generation) :
    Kept generation received (body :: bodies) (pairs.map (withBody body)) where
  once := by
    rw [List.map_map, show (·.id) ∘ TurnDetails.withBody (μ := μ) body = (·.id) from
      funext fun q => (withBody_same body q).1]
    exact h.once
  held v hv := by
    obtain ⟨q, hq, hid, hversion⟩ := h.held v hv
    obtain ⟨hsame, -, hle, -⟩ := withBody_same body q
    exact ⟨_, List.mem_map_of_mem hq, hsame.trans hid, hversion.trans hle⟩
  known q' hq' := by
    obtain ⟨q, hq, rfl⟩ := List.mem_map.mp hq'
    obtain ⟨hid, hoperation, -⟩ := withBody_same body q
    rw [hid, hoperation]
    exact h.known q hq
  version q' hq' := by
    obtain ⟨q, hq, rfl⟩ := List.mem_map.mp hq'
    unfold TurnDetails.withBody
    split
    · rename_i hown
      exact .inr ⟨body, List.mem_cons_self, hown.1.symm, hgeneration, rfl⟩
    · exact (h.version q hq).imp id fun ⟨b, hb, hown⟩ => ⟨b, List.mem_cons_of_mem _ hb, hown⟩
  loaded q' hq' hloaded := by
    obtain ⟨q, hq, rfl⟩ := List.mem_map.mp hq'
    unfold TurnDetails.withBody at hloaded ⊢
    split
    · rename_i hown
      exact ⟨body, List.mem_cons_self, hown.1.symm, hgeneration, rfl, rfl⟩
    · rename_i hother
      rw [if_neg hother] at hloaded
      obtain ⟨b, hb, hown⟩ := h.loaded q hq hloaded
      exact ⟨b, List.mem_cons_of_mem _ hb, hown⟩

/-- A body that was received and not applied. -/
theorem Kept.more (h : Kept generation received bodies pairs) (body : OperationBody β) :
    Kept generation received (body :: bodies) pairs where
  once := h.once
  held := h.held
  known := h.known
  version q hq :=
    (h.version q hq).imp id fun ⟨b, hb, hown⟩ => ⟨b, List.mem_cons_of_mem _ hb, hown⟩
  loaded q hq hloaded := by
    obtain ⟨b, hb, hown⟩ := h.loaded q hq hloaded
    exact ⟨b, List.mem_cons_of_mem _ hb, hown⟩

theorem newer_withBody (body : OperationBody β) (hpairs : (pairs.map (·.id)).Nodup) :
    Newer pairs (pairs.map (withBody body)) := by
  intro q hq q' hq' hid
  obtain ⟨other, hother, rfl⟩ := List.mem_map.mp hq'
  obtain rfl := eq_of_id hpairs hq hother ((withBody_same body other).1.symm.trans hid)
  obtain ⟨-, -, hle, hloaded⟩ := withBody_same body other
  exact ⟨hle, fun h _ => hloaded h⟩

end Merge

end Sulion.Frontend.TurnDetails
