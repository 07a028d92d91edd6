import Sulion.Lib.Corrections
import Sulion.Timeline.QuietChanges

set_option autoImplicit false

/-! # What Claude turns bill

Claude repeats a response's usage on each of its receipts, with later receipts correcting
earlier ones. The receipts that the timeline applies form a ledger of corrections
(`Lib/Corrections.lean`): an item for each message id, held by the turn of its first receipt.
`Billing` ties every turn's tokens to its share of that ledger.

Token counts are `i64`s, so a turn holds its share as far as 64 bits go.
-/

namespace Sulion.Timeline

open Sulion.Rust Table Corrections

/-! ## Applied receipts -/

/-- The usage of a response, applied at a turn. -/
abbrev Receipt := Entry Int String (Int × Int)

/-- The turn an event is appended to, when it is appended to one: history inherited from
another session, duplicate prompts, the prompts that open turns and bookkeeping before the first
turn are not. -/
def Projection.landing (context : Context) (p : Projection) (event : StoredEvent) : Option Int :=
  let p := p.advance event
  if event.subtype = some "inherited_history" then none
  else
    let (p, event) := p.correlate context event
    if p.seen event then none
    else
      match place p.state event with
      | .nowhere => none
      | .into turnId => some turnId
      | .fresh => if isRealUserPrompt event then none else some event.byteOffset

/-- The receipt an event brings to a turn. -/
def receiptAt (event : StoredEvent) (turnId : Int) : Option Receipt :=
  event.usageJson.map fun usage => ⟨turnId, event.usageMessageId, claudeTokens usage⟩

/-- The receipts applied by a list of events, oldest first. -/
def receipts (context : Context) (p : Projection) : List StoredEvent → List Receipt
  | [] => []
  | event :: events =>
      ((p.landing context event).bind (receiptAt event)).toList ++
        receipts context (p.step context event) events

variable {context : Context} {bound : Int} {p p' p'' : Projection} {f : TurnRow → TurnRow}
  {t : Int} {op : OpRow} {event : StoredEvent} {ledger : List Receipt}

/-! ## Changes that bill nothing -/

def TurnRow.tokens (turn : TurnRow) : Int × Int := (turn.inputTokens, turn.outputTokens)

/-- The same turns with the same tokens, and the same latest usage. -/
structure SameTokens (p p' : Projection) : Prop where
  turns : ∀ t : Int, p'.turns[t]?.map TurnRow.tokens = p.turns[t]?.map TurnRow.tokens
  usage : p'.usage = p.usage

namespace SameTokens

theorem trans (h : SameTokens p p') (h' : SameTokens p' p'') : SameTokens p p'' :=
  ⟨fun t => (h'.turns t).trans (h.turns t), h'.usage.trans h.usage⟩

/-- Only turns and usage matter. -/
theorem of_eq (hturns : p'.turns = p.turns) (husage : p'.usage = p.usage) : SameTokens p p' :=
  ⟨fun t => by rw [hturns], husage⟩

theorem modifyTurn (hf : ∀ row, (f row).tokens = row.tokens) :
    SameTokens p (p.modifyTurn t f) := by
  refine ⟨fun t' => ?_, rfl⟩
  show (p.turns.modify t f)[t']?.map TurnRow.tokens = _
  rw [lookup_modify]
  split
  · rename_i heq
    subst heq
    cases p.turns[t]? with
    | none => rfl
    | some row => exact congrArg some (hf row)
  · rfl

theorem hasTurn (h : SameTokens p p') : p'.HasTurn t ↔ p.HasTurn t := by
  have hmap := h.turns t
  unfold Projection.HasTurn
  cases hrow' : p'.turns[t]? with
  | none =>
      rw [hrow', Option.map_none] at hmap
      rw [Option.map_eq_none_iff.mp hmap.symm]
  | some row' =>
      rw [hrow', Option.map_some] at hmap
      obtain ⟨row, hrow, -⟩ := Option.map_eq_some_iff.mp hmap.symm
      rw [hrow]
      exact ⟨fun _ => ⟨row, rfl⟩, fun _ => ⟨row', rfl⟩⟩

theorem quiet : QuietChange SameTokens where
  trans := trans
  sameBill := fun h => of_eq h.turns h.usage
  turn := fun _ _ hf => modifyTurn fun row => Prod.ext (hf row).1 (hf row).2.1

end SameTokens

/-! ## Turns hold their shares -/

/-- What the usage table keeps of an item of the ledger. -/
def latestUsage (ledger : List Receipt) (messageId : String) : Option MessageUsage :=
  (holder ledger messageId).bind fun turnId =>
    (latest ledger messageId).map fun tokens => ⟨turnId, tokens.1, tokens.2⟩

/-- The tables after the receipts of a ledger. -/
structure Billing (ledger : List Receipt) (p : Projection) : Prop where
  owner : ∀ e ∈ ledger, p.HasTurn e.owner
  usage : ∀ id : String, p.usage[id]? = latestUsage ledger id
  turn : ∀ (t : Int) (row : TurnRow), p.turns[t]? = some row →
    row.tokens = (wrapI64 (share ledger t).1, wrapI64 (share ledger t).2)

namespace Billing

theorem congr (h : Billing ledger p) (hsame : SameTokens p p') : Billing ledger p' where
  owner := fun e he => hsame.hasTurn.mpr (h.owner e he)
  usage := by rw [hsame.usage]; exact h.usage
  turn := by
    intro t row hrow
    have hmap := hsame.turns t
    rw [hrow, Option.map_some] at hmap
    obtain ⟨old, hold, htokens⟩ := Option.map_eq_some_iff.mp hmap.symm
    rw [← htokens]
    exact h.turn t old hold

/-- A new turn holds nothing yet. -/
theorem openTurn (h : Billing ledger p) (hfresh : p.turns[event.byteOffset]? = none)
    (prompt sidechain : Bool) : Billing ledger (p.openTurn event prompt sidechain) where
  owner := by
    intro e he
    obtain ⟨row, hrow⟩ := h.owner e he
    have hne : event.byteOffset ≠ e.owner := by
      intro heq
      rw [heq, hrow] at hfresh
      cases hfresh
    exact ⟨row, (lookup_insert_ne p.turns _ hne).trans hrow⟩
  usage := h.usage
  turn := by
    intro t row hrow
    change (p.turns.insert event.byteOffset (newTurn p.state event prompt sidechain))[t]? =
      some row at hrow
    rw [lookup_insert] at hrow
    split at hrow
    · rename_i heq
      subst heq
      cases hrow
      have hzero : share ledger event.byteOffset = 0 := by
        refine share_eq_zero fun e he heq => ?_
        obtain ⟨row, hrow⟩ := h.owner e he
        rw [heq, hfresh] at hrow
        cases hrow
      rw [hzero]
      rfl
    · exact h.turn t row hrow

/-- A receipt without a message id. -/
theorem addTokens (h : Billing ledger p) (ht : p.HasTurn t) (tokens : Int × Int) :
    Billing (ledger ++ [⟨t, none, tokens⟩]) (p.modifyTurn t (TurnRow.addTokens tokens)) where
  owner := by
    intro e he
    rw [Projection.hasTurn_modifyTurn]
    rcases List.mem_append.mp he with he | he
    · exact h.owner e he
    · cases List.mem_singleton.mp he
      exact ht
  usage := by
    intro id
    show p.usage[id]? = _
    rw [h.usage]
    unfold latestUsage
    rw [holder_snoc, latest_snoc]
    simp
  turn := by
    intro t' row hrow
    change (p.turns.modify t (TurnRow.addTokens tokens))[t']? = some row at hrow
    rw [lookup_modify] at hrow
    rw [share_snoc]
    split at hrow
    · rename_i heq
      subst heq
      obtain ⟨old, hold, rfl⟩ := Option.map_eq_some_iff.mp hrow
      have hshare := Prod.ext_iff.mp (h.turn t old hold)
      show (wrapI64 (old.tokens.1 + tokens.1), wrapI64 (old.tokens.2 + tokens.2)) = _
      rw [hshare.1, hshare.2, wrapI64_wrap_add, wrapI64_wrap_add]
      simp
    · rename_i hne
      simp only [hne, if_false, add_zero]
      exact h.turn t' row hrow

theorem latestUsage_eq_none {messageId : String} (h : latestUsage ledger messageId = none) :
    holder ledger messageId = none := by
  cases hholder : holder ledger messageId with
  | none => rfl
  | some t =>
      obtain ⟨m, hm⟩ := exists_latest (mem_keys_of_holder hholder)
      rw [latestUsage, hholder, hm] at h
      cases h

theorem latestUsage_eq_some {messageId : String} {prior : MessageUsage}
    (h : latestUsage ledger messageId = some prior) :
    holder ledger messageId = some prior.turnId ∧
      latest ledger messageId = some (prior.inputTokens, prior.outputTokens) := by
  obtain ⟨t, ht, hmap⟩ := Option.bind_eq_some_iff.mp h
  obtain ⟨tokens, htokens, rfl⟩ := Option.map_eq_some_iff.mp hmap
  exact ⟨ht, htokens⟩

/-- The turn an id is charged to: the one that holds it, or its first one. -/
theorem usageOwner_eq (h : Billing ledger p) (t : Int) (messageId : String) :
    p.usageOwner t messageId = (holder ledger messageId).getD t := by
  unfold Projection.usageOwner
  rw [h.usage]
  cases hprior : latestUsage ledger messageId with
  | none => rw [latestUsage_eq_none hprior]; rfl
  | some prior =>
      obtain ⟨hholder, -⟩ := latestUsage_eq_some hprior
      obtain ⟨e, he, -, hturn⟩ := mem_of_holder hholder
      obtain ⟨row, hrow⟩ := h.owner e he
      rw [hturn] at hrow
      simp only [hrow, hholder, Option.isSome_some, if_true, Option.getD_some]

/-- Without the item of an id, each turn holds the rest of its share. -/
theorem withdraw (h : Billing ledger p) (t : Int) (messageId : String) (t' : Int) (row : TurnRow)
    (hrow : (p.withdraw ((holder ledger messageId).getD t) messageId).turns[t']? = some row) :
    row.tokens = (wrapI64 (share ledger t' - itemShare ledger t' messageId).1,
      wrapI64 (share ledger t' - itemShare ledger t' messageId).2) := by
  unfold Projection.withdraw at hrow
  rw [h.usage] at hrow
  cases hprior : latestUsage ledger messageId with
  | none =>
      have hzero : itemShare ledger t' messageId = 0 := by
        rw [itemShare, latestUsage_eq_none hprior]
        rfl
      rw [hprior] at hrow
      rw [hzero, sub_zero]
      exact h.turn t' row hrow
  | some prior =>
      obtain ⟨hholder, hlatest⟩ := latestUsage_eq_some hprior
      rw [hprior, hholder, Option.getD_some] at hrow
      simp only [if_true] at hrow
      change (p.turns.modify prior.turnId _)[t']? = some row at hrow
      rw [lookup_modify] at hrow
      unfold itemShare
      rw [hholder, hlatest, Option.getD_some]
      split at hrow
      · rename_i heq
        subst heq
        obtain ⟨old, hold, rfl⟩ := Option.map_eq_some_iff.mp hrow
        have hshare := Prod.ext_iff.mp (h.turn _ old hold)
        show (wrapI64 (old.tokens.1 - prior.inputTokens),
          wrapI64 (old.tokens.2 - prior.outputTokens)) = _
        rw [hshare.1, hshare.2, wrapI64_wrap_sub, wrapI64_wrap_sub, if_pos rfl]
        rfl
      · rename_i hne
        rw [if_neg fun heq => hne (Option.some.inj heq), sub_zero]
        exact h.turn t' row hrow

/-- **A receipt with a message id** corrects the earlier ones at their turn. -/
theorem charge (h : Billing ledger p) (ht : p.HasTurn t) (messageId : String)
    (tokens : Int × Int) :
    Billing (ledger ++ [⟨t, some messageId, tokens⟩]) (p.charge t messageId tokens) := by
  have howner := h.usageOwner_eq t messageId
  unfold Projection.charge
  rw [howner]
  refine { owner := ?_, usage := ?_, turn := ?_ }
  · intro e he
    have hkept : p.HasTurn e.owner := by
      rcases List.mem_append.mp he with he | he
      · exact h.owner e he
      · cases List.mem_singleton.mp he
        exact ht
    exact Projection.hasTurn_modifyTurn.mpr (Consistent.hasTurn_withdraw.mpr hkept)
  · intro id
    show (Std.ExtTreeMap.insert (p.withdraw _ messageId).usage messageId _)[id]? = _
    rw [Consistent.usage_withdraw, lookup_insert]
    unfold latestUsage
    rw [holder_snoc, latest_snoc]
    by_cases hid : messageId = id
    · subst hid
      simp only [if_true, Option.map_some]
      cases holder ledger messageId <;> rfl
    · simp only [hid, if_false, Option.some.injEq, Option.or_none]
      exact h.usage id
  · intro t' row hrow
    change ((p.withdraw _ messageId).turns.modify _ (TurnRow.addTokens tokens))[t']? =
      some row at hrow
    rw [lookup_modify] at hrow
    rw [share_snoc]
    simp only
    split at hrow
    · rename_i heq
      subst heq
      obtain ⟨old, hold, rfl⟩ := Option.map_eq_some_iff.mp hrow
      have hrest := Prod.ext_iff.mp (h.withdraw t messageId _ old hold)
      show (wrapI64 (old.tokens.1 + tokens.1), wrapI64 (old.tokens.2 + tokens.2)) = _
      rw [hrest.1, hrest.2, wrapI64_wrap_add, wrapI64_wrap_add, if_pos rfl]
      rfl
    · rename_i hne
      rw [if_neg hne, add_zero]
      exact h.withdraw t messageId t' row hrow

/-! ## Events -/

/-- An appended event brings its receipt to its turn. -/
theorem append (h : Billing ledger p) (ht : p.HasTurn t) (hagent : event.agent ≠ "codex")
    (context : Context) :
    Billing (ledger ++ (receiptAt event t).toList) (p.append context t event) := by
  have hsame : SameTokens p ((((p.countEvent t event).addReply context t event).addResults context t
      event).addItem t event) := SameTokens.quiet.beforeUsage context p t event
  have hbefore := h.congr hsame
  have hturn := hsame.hasTurn.mpr ht
  unfold Projection.append Projection.addUsage receiptAt
  cases event.usageJson with
  | none =>
      rw [Option.map_none, Option.toList_none, List.append_nil]
      exact hbefore
  | some usage =>
      simp only
      rw [if_neg hagent]
      cases event.usageMessageId with
      | none => exact hbefore.addTokens hturn _
      | some messageId => exact hbefore.charge hturn messageId _

theorem hasTurn_openFor (context : Context) (p : Projection) (event : StoredEvent) :
    (p.openFor context event).HasTurn event.byteOffset := by
  unfold Projection.openFor
  simp only
  split
  · exact ⟨_, lookup_insert_self ..⟩
  · exact ⟨_, lookup_insert_self ..⟩

theorem openFor (h : Billing ledger p) (hfresh : p.turns[event.byteOffset]? = none)
    (context : Context) : Billing ledger (p.openFor context event) := by
  have hopen := h.openTurn hfresh (isRealUserPrompt event) event.isSidechain
  unfold Projection.openFor
  simp only
  split
  · exact hopen.congr (.of_eq rfl rfl)
  · exact hopen

theorem receiptAt_congr {event' : StoredEvent} (h : SameReceipt event event') (t : Int) :
    receiptAt event' t = receiptAt event t := by
  unfold receiptAt
  rw [h.2.2.2.1, h.2.2.2.2]

/-- **One event** adds the receipt it brings, if it lands in a turn. -/
theorem step (h : Billing ledger p) (hc : Consistent bound p) (hfirst : bound < event.byteOffset)
    (hagent : event.agent ≠ "codex") (context : Context) :
    Billing (ledger ++ ((p.landing context event).bind (receiptAt event)).toList)
      (p.step context event) := by
  have hadvance : Billing ledger (p.advance event) := h.congr (.of_eq rfl rfl)
  unfold Projection.step Projection.landing
  simp only
  split
  · simpa using hadvance
  · have hsame := sameReceipt_correlate context (p.advance event) event
    have hc1 := (hc.advance event).correlate context event
    have h1 := hadvance.congr (SameTokens.quiet.correlate context (p.advance event) event)
    generalize (p.advance event).correlate context event = acc at hsame hc1 h1 ⊢
    obtain ⟨p1, event1⟩ := acc
    simp only at hsame hc1 h1 ⊢
    rw [← hsame.1] at hfirst
    rw [← hsame.2.1] at hagent
    have hlinks : Billing ledger (p1.addLinks (eventLinks context.parseUuid context.sessionUuid
        context.childOf event1)) := h1.congr (.of_eq rfl rfl)
    have hclinks := hc1.addLinks (eventLinks context.parseUuid context.sessionUuid
      context.childOf event1)
    generalize hp2 : p1.addLinks _ = p2 at hlinks hclinks ⊢
    have hseen : p1.seen event1 = p2.seen event1 := by rw [← hp2]; rfl
    have hplace : Projection.place p1.state event1 = Projection.place p2.state event1 := by
      rw [← hp2]
      rfl
    rw [hseen, hplace]
    split
    · simpa using hlinks
    · unfold Projection.settle
      cases hwhere : Projection.place p2.state event1 with
      | nowhere => simpa using hlinks
      | into t =>
          simp only [Option.bind_some]
          rw [← receiptAt_congr hsame]
          exact hlinks.append (hclinks.hasTurn_of_place hwhere) hagent context
      | fresh =>
          have hfresh : p2.turns[event1.byteOffset]? = none := by
            cases hrow : p2.turns[event1.byteOffset]? with
            | none => rfl
            | some row =>
                have := hclinks.turns.le_bound _ _ hrow
                omega
          have hopen := hlinks.openFor hfresh context
          simp only
          split
          · simpa using hopen
          · simp only [Option.bind_some]
            rw [← receiptAt_congr hsame]
            refine hopen.append ?_ hagent context
            exact hasTurn_openFor context p2 event1

theorem steps {events : List StoredEvent} (h : Billing ledger p) (hc : Consistent bound p)
    (hevents : Ascending bound events) (hagent : ∀ e ∈ events, e.agent ≠ "codex")
    (context : Context) :
    Billing (ledger ++ receipts context p events) (events.foldl (Projection.step context) p) := by
  induction events generalizing ledger bound p with
  | nil =>
      rw [receipts, List.append_nil]
      exact h
  | cons event events ih =>
      obtain ⟨hfirst, hrest⟩ := ascending_cons.mp hevents
      have hstep := h.step hc hfirst (hagent event List.mem_cons_self) context
      have hsteps := ih hstep (hc.step hfirst) hrest fun e he =>
        hagent e (List.mem_cons_of_mem _ he)
      rw [List.append_assoc] at hsteps
      exact hsteps

theorem empty : Billing [] {} := by
  refine { owner := ?_, usage := ?_, turn := ?_ }
  · intro e he
    cases he
  · intro id
    simp [latestUsage, holder]
  · intro t row hrow
    simp at hrow

end Billing

/-! ## What all turns hold -/

/-- Reducing the parts to `i64` first does not matter for the reduced sum. -/
theorem wrapI64_sum_congr {α : Type*} {f g : α → Int} {l : List α}
    (h : ∀ a ∈ l, g a = wrapI64 (f a)) : wrapI64 (l.map g).sum = wrapI64 (l.map f).sum := by
  induction l with
  | nil => rfl
  | cons a l ih =>
      have hl := ih fun a' ha' => h a' (List.mem_cons_of_mem _ ha')
      calc wrapI64 ((a :: l).map g).sum
          = wrapI64 (wrapI64 (f a) + (l.map g).sum) := by
            rw [List.map_cons, List.sum_cons, h a List.mem_cons_self]
        _ = wrapI64 (wrapI64 (l.map g).sum + f a) := by
            rw [wrapI64_wrap_add, wrapI64_wrap_add, add_comm]
        _ = wrapI64 ((a :: l).map f).sum := by
            rw [hl, wrapI64_wrap_add, List.map_cons, List.sum_cons, add_comm]

def inI64 (n : Int) : Prop := i64Min ≤ n ∧ n ≤ i64Max

instance (n : Int) : Decidable (inI64 n) := inferInstanceAs (Decidable (_ ∧ _))

/-- What a session's turns bill together. -/
def billedTokens (p : Projection) : Int × Int := ((rows p.turns).map TurnRow.tokens).sum

/-- **Claude usage is conserved.** However the events are cut into batches, each turn holds its
share of the applied receipts: the latest usage of every message whose first receipt it had and
of its receipts without an id, as an `i64`. The shares add up to what is billed, so the turns
do, as `i64`s and, where every share is one, exactly. -/
theorem claude_tokens_conserved (context : Context) (batches : List (List StoredEvent))
    (hagent : ∀ e ∈ batches.flatten, e.agent ≠ "codex")
    (hevents : (batches.flatten.map StoredEvent.byteOffset).Pairwise (· < ·)) :
    ∃ p, projectBatches context {} batches = some p ∧
      let ledger := receipts context {} batches.flatten
      (∀ turn ∈ rows p.turns, turn.tokens =
        (wrapI64 (share ledger turn.turnId).1, wrapI64 (share ledger turn.turnId).2)) ∧
      ((rows p.turns).map fun turn => share ledger turn.turnId).sum = billed ledger ∧
      (∀ messageId : String, p.usage[messageId]? = latestUsage ledger messageId) ∧
      (wrapI64 (billedTokens p).1 = wrapI64 (billed ledger).1 ∧
        wrapI64 (billedTokens p).2 = wrapI64 (billed ledger).2) ∧
      ((∀ turn ∈ rows p.turns, inI64 (share ledger turn.turnId).1 ∧
          inI64 (share ledger turn.turnId).2) →
        billedTokens p = billed ledger) := by
  obtain ⟨base, hbase, hascending⟩ := exists_bound hevents
  have hempty : Consistent base {} := .empty hbase
  refine ⟨_, projectBatches_eq hempty hascending context, ?_⟩
  have hc := hempty.steps hascending context
  have hbilling := Billing.empty.steps hempty hascending hagent context
  rw [List.nil_append] at hbilling
  generalize batches.flatten.foldl (Projection.step context) {} = p at hc hbilling
  generalize receipts context {} batches.flatten = ledger at hbilling
  have hturns : ∀ turn ∈ rows p.turns, turn.tokens =
      (wrapI64 (share ledger turn.turnId).1, wrapI64 (share ledger turn.turnId).2) :=
    fun turn hturn => hbilling.turn _ turn (hc.turns.keyed.mem_rows.mp hturn)
  have hshares : ((rows p.turns).map fun turn => share ledger turn.turnId).sum = billed ledger := by
    have hnodup : ((rows p.turns).map TurnRow.turnId).Nodup := by
      rw [hc.turns.keyed.map_rows_keys]
      exact nodup_keys p.turns
    have hsum := sum_share hnodup fun e he => by
      obtain ⟨row, hrow⟩ := hbilling.owner e he
      exact List.mem_map.mpr ⟨row, mem_rows.mpr ⟨_, hrow⟩, hc.turns.keyed _ row hrow⟩
    rw [List.map_map] at hsum
    exact hsum
  have hfst (l : List (Int × Int)) : l.sum.1 = (l.map Prod.fst).sum :=
    map_list_sum (AddMonoidHom.fst Int Int) l
  have hsnd (l : List (Int × Int)) : l.sum.2 = (l.map Prod.snd).sum :=
    map_list_sum (AddMonoidHom.snd Int Int) l
  refine ⟨hturns, hshares, hbilling.usage, ⟨?_, ?_⟩, fun hfits => ?_⟩
  · unfold billedTokens
    rw [← hshares, hfst, hfst, List.map_map, List.map_map]
    exact wrapI64_sum_congr fun turn hturn => congrArg Prod.fst (hturns turn hturn)
  · unfold billedTokens
    rw [← hshares, hsnd, hsnd, List.map_map, List.map_map]
    exact wrapI64_sum_congr fun turn hturn => congrArg Prod.snd (hturns turn hturn)
  · unfold billedTokens
    rw [← hshares]
    congr 1
    apply List.map_congr_left
    intro turn hturn
    obtain ⟨hinput, houtput⟩ := hfits turn hturn
    rw [hturns turn hturn, wrapI64_of_mem hinput.1 hinput.2, wrapI64_of_mem houtput.1 houtput.2]

/-- An assistant event that is a receipt for so many output tokens. -/
def receiptEvent (byteOffset : Int) (messageId : String) (tokens : Int) : StoredEvent :=
  { plainEvent byteOffset "assistant" [] with
    usageJson := some (.obj [("output_tokens", .int tokens)])
    usageMessageId := some messageId }

/-- A response whose receipts are interleaved with those of another, over two turns. -/
def interleavedSession : List StoredEvent :=
  [receiptEvent 0 "first" 5,
    plainEvent 40 "user" [{ ord := 0, kind := .text, text := some "go on" }],
    receiptEvent 90 "second" 7, receiptEvent 130 "first" 9]

theorem claude_tokens_conserved_session :
    ∃ p, projectBatches plainContext {} [interleavedSession.take 2, interleavedSession.drop 2] =
        some p ∧
      billedTokens p = billed (receipts plainContext {} interleavedSession) := by
  obtain ⟨p, hp, -, -, -, -, hexact⟩ := claude_tokens_conserved plainContext
    [interleavedSession.take 2, interleavedSession.drop 2] (by decide) (by decide)
  refine ⟨p, hp, hexact fun turn hturn => ?_⟩
  have hfits : ∀ p ∈ projectBatches plainContext {}
      [interleavedSession.take 2, interleavedSession.drop 2], ∀ turn ∈ rows p.turns,
        inI64 (share (receipts plainContext {} interleavedSession) turn.turnId).1 ∧
          inI64 (share (receipts plainContext {} interleavedSession) turn.turnId).2 := by
    decide +kernel
  exact hfits p hp turn hturn

/-- Two receipts of one turn that together pass the `i64` range. -/
def overflowingSession : List StoredEvent :=
  [receiptEvent 0 "first" i64Max, receiptEvent 90 "second" 1]

/-- The turn's count wraps, so the turns do not hold what the receipts bill. -/
theorem claude_tokens_wrap :
    (∀ e ∈ overflowingSession, e.agent ≠ "codex") ∧
      (overflowingSession.map StoredEvent.byteOffset).Pairwise (· < ·) ∧
      (projectBatches plainContext {} [overflowingSession]).map billedTokens ≠
        some (billed (receipts plainContext {} overflowingSession)) := by
  refine ⟨by decide, by decide, ?_⟩
  decide +kernel

end Sulion.Timeline
