import Sulion.Lib.RunningTotals
import Sulion.Timeline.ClaudeTokens
import Sulion.Usage.Statements

set_option autoImplicit false

/-! # What Codex turns are charged

Codex reports the cumulative totals of its session, and compaction may restart them. A turn's
tokens are its latest totals less those at its beginning, so the totals that the timeline applies
are readings of a running total (`Lib/RunningTotals.lean`) with the turns as its holders:
`Metered` ties the tokens of every turn to its window. The days are charged the rises
(`dailyDelta_eq_rise`), so turns and days agree exactly where the shares add up to what the
readings gain.

The tokens of a turn are computed in `i64`s, which wrap; `wrapped` is what this adds to the shares.
-/

namespace Sulion.Timeline

open Sulion.Rust Table RunningTotals

/-! ## Applied totals -/

/-- The turn an event opens, if it opens one. -/
def Projection.opening (context : Context) (p : Projection) (event : StoredEvent) : Option Int :=
  let p := p.advance event
  if event.subtype = some "inherited_history" then none
  else
    let (p, event) := p.correlate context event
    if p.seen event then none
    else
      match place p.state event with
      | .fresh => some event.byteOffset
      | _ => none

/-- The cumulative totals that an event brings to a turn. -/
def totalsAt (event : StoredEvent) (turnId : Int) : Option (Mark Int (Int × Int)) :=
  event.usageJson.map fun usage =>
    .read turnId (token usage "input_tokens", token usage "output_tokens")

/-- What an event does to the running totals: it may open a turn and be read for one. -/
def codexMark (context : Context) (p : Projection) (event : StoredEvent) :
    List (Mark Int (Int × Int)) :=
  ((p.opening context event).map Mark.opened).toList ++
    ((p.landing context event).bind (totalsAt event)).toList

/-- The turns opened and the totals applied by a list of events, oldest first. -/
def codexMarks (context : Context) (p : Projection) :
    List StoredEvent → List (Mark Int (Int × Int))
  | [] => []
  | event :: events => codexMark context p event ++ codexMarks context (p.step context event) events

/-- Input or output tokens. -/
inductive Side
  | input
  | output

namespace Side

def ofTotals : Side → Int × Int → Int
  | input => Prod.fst
  | output => Prod.snd

def tokens : Side → TurnRow → Int
  | input => TurnRow.inputTokens
  | output => TurnRow.outputTokens

def base : Side → TurnRow → Int
  | input => TurnRow.usageBaselineInput
  | output => TurnRow.usageBaselineOutput

def total : Side → SessionState → Option Int
  | input => SessionState.codexInputTotal
  | output => SessionState.codexOutputTotal

/-- The readings of one side. -/
def marks (side : Side) (marks : List (Mark Int (Int × Int))) : List (Mark Int Int) :=
  marks.map (Mark.map side.ofTotals)

end Side

/-! ## Turns and days agree -/

/-- What `i64` arithmetic adds to the shares: nothing, unless a window's net leaves the range. -/
def wrapped (marks : List (Mark Int Int)) : Int :=
  ((holders marks).map fun t => max (wrapI64 (net t marks)) 0 - share t marks).sum

/-- Windows count as much more than once as falls take back. -/
def Balanced (marks : List (Mark Int Int)) : Prop := doubled marks + wrapped marks = cancelled marks

/-- The total only rises over the window of a turn, or only falls. -/
def OneWay (marks : List (Mark Int Int)) (turn : TurnRow) : Prop :=
  gained turn.turnId marks = 0 ∨ lost turn.turnId marks = 0

/-- The rule for days: a cumulative total adds its rise over the stored one. -/
theorem dailyDelta_eq_rise {usage : Usage.UsageUpdate} (hmode : usage.mode = .cumulative)
    (previous : Option Usage.StoredUsage) (column : Usage.TokenColumn)
    (hnew : 0 ≤ usage.spend (.token column) ∧ usage.spend (.token column) ≤ i64Max)
    (hold : 0 ≤ (previous.elim 0 fun row => row.tokens column) ∧
      (previous.elim 0 fun row => row.tokens column) ≤ i64Max) :
    Usage.dailyDelta usage previous column =
      rise (previous.elim 0 fun row => row.tokens column) (usage.spend (.token column)) := by
  unfold Usage.dailyDelta rise
  rw [hmode]
  show max (saturatingSub _ _) 0 = _
  unfold saturatingSub i64Clamp
  unfold i64Max i64Min at *
  omega

variable {context : Context} {bound : Int} {p p' p'' : Projection} {f : TurnRow → TurnRow}
  {t : Int} {event : StoredEvent} {side : Side} {marks : List (Mark Int Int)}

/-! ## Changes that read nothing -/

/-- What a turn has been charged, and from which totals. -/
def TurnRow.meter (turn : TurnRow) : (Int × Int) × (Int × Int) :=
  ((turn.inputTokens, turn.outputTokens), (turn.usageBaselineInput, turn.usageBaselineOutput))

theorem TurnRow.tokens_of_meter {row row' : TurnRow} (h : row'.meter = row.meter) (side : Side) :
    side.tokens row' = side.tokens row ∧ side.base row' = side.base row := by
  unfold TurnRow.meter at h
  rw [Prod.mk.injEq, Prod.mk.injEq, Prod.mk.injEq] at h
  cases side with
  | input => exact ⟨h.1.1, h.2.1⟩
  | output => exact ⟨h.1.2, h.2.2⟩

/-- The same turns with the same charges, the same cumulative totals and the same open turn. -/
structure SameMeter (p p' : Projection) : Prop where
  turns : ∀ t : Int, p'.turns[t]?.map TurnRow.meter = p.turns[t]?.map TurnRow.meter
  total : ∀ side : Side, side.total p'.state = side.total p.state
  main : p'.state.currentMain = p.state.currentMain

namespace SameMeter

theorem trans (h : SameMeter p p') (h' : SameMeter p' p'') : SameMeter p p'' where
  turns := fun t => (h'.turns t).trans (h.turns t)
  total := fun side => (h'.total side).trans (h.total side)
  main := h'.main.trans h.main

theorem of_sameBill (h : SameBill p p') : SameMeter p p' where
  turns := fun t => by rw [h.turns]
  total := by
    intro side
    cases side with
    | input => exact h.input
    | output => exact h.output
  main := h.main

theorem modifyTurn (hf : TurnRow.KeepsMeter f) : SameMeter p (p.modifyTurn t f) := by
  refine ⟨fun t' => ?_, fun side => rfl, rfl⟩
  show (p.turns.modify t f)[t']?.map TurnRow.meter = _
  rw [lookup_modify]
  by_cases heq : t = t'
  · rw [if_pos heq, ← heq]
    cases p.turns[t]? with
    | none => rfl
    | some row =>
        obtain ⟨hinput, houtput, hbase, hbase'⟩ := hf row
        show some ((_, _), (_, _)) = some ((_, _), (_, _))
        rw [hinput, houtput, hbase, hbase']
  · rw [if_neg heq]

theorem quiet : QuietChange SameMeter where
  trans := trans
  sameBill := of_sameBill
  turn := fun _ _ hf => modifyTurn hf

theorem hasTurn (h : SameMeter p p') : p'.HasTurn t ↔ p.HasTurn t := by
  have hmap := h.turns t
  unfold Projection.HasTurn
  rw [← Option.isSome_iff_exists, ← Option.isSome_iff_exists,
    ← Option.isSome_map (f := TurnRow.meter), hmap, Option.isSome_map]

end SameMeter

/-! ## Turns are charged over their windows -/

/-- The marks so far are the turns that are there, the total they leave is the session's, and each
turn is charged over its window. -/
structure Metered (side : Side) (marks : List (Mark Int Int)) (p : Projection) : Prop where
  holder : ∀ t : Int, t ∈ holders marks ↔ p.HasTurn t
  nodup : (holders marks).Nodup
  total : (side.total p.state).getD 0 = total 0 marks
  turn : ∀ (t : Int) (row : TurnRow), p.turns[t]? = some row →
    baseline t marks = some (side.base row) ∧ side.tokens row = max (wrapI64 (net t marks)) 0

namespace Metered

theorem empty (side : Side) : Metered side [] {} where
  holder := by
    intro t
    constructor
    · intro h
      exact absurd h List.not_mem_nil
    · rintro ⟨row, hrow⟩
      simp at hrow
  nodup := List.nodup_nil
  total := by cases side <;> rfl
  turn := by
    intro t row hrow
    simp at hrow

theorem congr (h : Metered side marks p) (hsame : SameMeter p p') : Metered side marks p' where
  holder := fun t => (h.holder t).trans hsame.hasTurn.symm
  nodup := h.nodup
  total := by rw [hsame.total side, h.total]
  turn := by
    intro t row' hrow'
    have hmap := hsame.turns t
    rw [hrow', Option.map_some] at hmap
    obtain ⟨row, hrow, hmeter⟩ := Option.map_eq_some_iff.mp hmap.symm
    obtain ⟨htokens, hbase⟩ := TurnRow.tokens_of_meter hmeter.symm side
    rw [htokens, hbase]
    exact h.turn t row hrow

/-- A new turn starts from the total so far, and is charged nothing. -/
theorem openTurn (h : Metered side marks p) (hfresh : p.turns[event.byteOffset]? = none)
    (prompt sidechain : Bool) :
    Metered side (marks ++ [.opened event.byteOffset]) (p.openTurn event prompt sidechain) := by
  have hnew : event.byteOffset ∉ holders marks := by
    rw [h.holder]
    rintro ⟨row, hrow⟩
    rw [hfresh] at hrow
    exact absurd hrow (Option.some_ne_none row).symm
  have hholders : holders (marks ++ [.opened event.byteOffset]) =
      holders marks ++ [event.byteOffset] := holders_append _ _
  refine { holder := ?_, nodup := ?_, total := ?_, turn := ?_ }
  · intro t
    rw [hholders, List.mem_append, List.mem_singleton, h.holder]
    constructor
    · rintro (⟨row, hrow⟩ | rfl)
      · have hne : event.byteOffset ≠ t := by
          rintro rfl
          rw [hfresh] at hrow
          exact absurd hrow (Option.some_ne_none row).symm
        exact ⟨row, (lookup_insert_ne p.turns _ hne).trans hrow⟩
      · exact ⟨_, lookup_insert_self ..⟩
    · rintro ⟨row, hrow⟩
      change (p.turns.insert event.byteOffset _)[t]? = some row at hrow
      by_cases heq : event.byteOffset = t
      · exact Or.inr heq.symm
      · rw [lookup_insert_ne _ _ heq] at hrow
        exact Or.inl ⟨row, hrow⟩
  · rw [hholders]
    exact h.nodup.append (List.nodup_singleton _) (List.disjoint_singleton.mpr hnew)
  · rw [total_append]
    have htotal := h.total
    cases side <;> exact htotal
  · intro t row hrow
    change (p.turns.insert event.byteOffset _)[t]? = some row at hrow
    by_cases heq : event.byteOffset = t
    · subst heq
      rw [lookup_insert_self] at hrow
      obtain rfl := Option.some.inj hrow
      obtain ⟨hnet, hbase⟩ := net_snoc_opened hnew
      rw [hnet, hbase, ← h.total]
      cases side <;> exact ⟨rfl, rfl⟩
    · rw [lookup_insert_ne _ _ heq] at hrow
      have hne : (Mark.opened event.byteOffset : Mark Int Int) ≠ .opened t :=
        fun hmark => heq (Mark.opened.inj hmark)
      obtain ⟨hnet, hbase⟩ : net t (marks ++ [.opened event.byteOffset]) = net t marks ∧
          baseline t (marks ++ [.opened event.byteOffset]) = baseline t marks :=
        net_snoc_of_not_read rfl hne
      rw [hnet, hbase]
      exact h.turn t row hrow

/-- Totals read for a turn are charged over its window, which they end. -/
theorem setTotals (h : Metered side marks p) (t : Int) (totals : Int × Int) :
    Metered side (marks ++ [.read t (side.ofTotals totals)]) (p.setTotals t totals) := by
  have hholders : holders (marks ++ [.read t (side.ofTotals totals)]) = holders marks := by
    rw [holders_append]
    exact List.append_nil _
  refine { holder := ?_, nodup := ?_, total := ?_, turn := ?_ }
  · intro t'
    rw [hholders, h.holder]
    exact Projection.hasTurn_modifyTurn.symm
  · rw [hholders]
    exact h.nodup
  · rw [total_append]
    cases side <;> rfl
  · intro t' row' hrow'
    change (p.turns.modify t (TurnRow.setTotals totals))[t']? = some row' at hrow'
    rw [lookup_modify] at hrow'
    by_cases heq : t = t'
    · subst heq
      rw [if_pos rfl] at hrow'
      obtain ⟨row, hrow, rfl⟩ := Option.map_eq_some_iff.mp hrow'
      have hbase : baseline t marks = some (side.base row) := (h.turn t row hrow).1
      have hread : net t (marks ++ [.read t (side.ofTotals totals)]) =
            side.ofTotals totals - side.base row ∧
          baseline t (marks ++ [.read t (side.ofTotals totals)]) = some (side.base row) :=
        net_snoc_read hbase
      rw [hread.1, hread.2]
      cases side <;> exact ⟨rfl, rfl⟩
    · rw [if_neg heq] at hrow'
      have hread : (Mark.read t (side.ofTotals totals)).isReadOf t' = false :=
        decide_eq_false heq
      have hne : (Mark.read t (side.ofTotals totals) : Mark Int Int) ≠ .opened t' := by
        intro hmark
        cases hmark
      have hkept : net t' (marks ++ [.read t (side.ofTotals totals)]) = net t' marks ∧
          baseline t' (marks ++ [.read t (side.ofTotals totals)]) = baseline t' marks :=
        net_snoc_of_not_read hread hne
      rw [hkept.1, hkept.2]
      exact h.turn t' row' hrow'

/-! ## Events -/

/-- An appended event is read for its turn. -/
theorem append (h : Metered side marks p) (hagent : event.agent = "codex") (context : Context)
    (t : Int) :
    Metered side (marks ++ side.marks (totalsAt event t).toList) (p.append context t event) := by
  have hsame : SameMeter p ((((p.countEvent t event).addReply context t event).addResults context t
      event).addItem t event) := SameMeter.quiet.beforeUsage context p t event
  have hbefore := h.congr hsame
  unfold Projection.append Projection.addUsage totalsAt
  cases event.usageJson with
  | none =>
      show Metered side (marks ++ []) _
      rw [List.append_nil]
      exact hbefore
  | some usage =>
      simp only
      rw [if_pos hagent]
      exact hbefore.setTotals t _

theorem openFor (h : Metered side marks p) (hfresh : p.turns[event.byteOffset]? = none)
    (context : Context) :
    Metered side (marks ++ [.opened event.byteOffset]) (p.openFor context event) := by
  have hopen := h.openTurn hfresh (isRealUserPrompt event) event.isSidechain
  unfold Projection.openFor
  simp only
  split
  · exact hopen.congr (SameMeter.quiet.addLinks _ _)
  · exact hopen

theorem totalsAt_congr {event' : StoredEvent} (h : SameReceipt event event') (t : Int) :
    totalsAt event' t = totalsAt event t := by
  unfold totalsAt
  rw [h.2.2.2.1]

/-- **One event** adds its marks. -/
theorem step (h : Metered side marks p) (hc : Consistent bound p)
    (hfirst : bound < event.byteOffset) (hagent : event.agent = "codex") (context : Context) :
    Metered side (marks ++ side.marks (codexMark context p event)) (p.step context event) := by
  have hadvance : Metered side marks (p.advance event) :=
    h.congr (SameMeter.quiet.advance p event)
  unfold Projection.step codexMark Projection.opening Projection.landing
  simp only
  split
  · show Metered side (marks ++ []) _
    rw [List.append_nil]
    exact hadvance
  · have hsame := sameReceipt_correlate context (p.advance event) event
    have hc1 := (hc.advance event).correlate context event
    have h1 := hadvance.congr (SameMeter.quiet.correlate context (p.advance event) event)
    generalize (p.advance event).correlate context event = acc at hsame hc1 h1 ⊢
    obtain ⟨p1, event1⟩ := acc
    simp only at hsame hc1 h1 ⊢
    rw [← hsame.1] at hfirst
    rw [← hsame.2.1] at hagent
    have hlinks : Metered side marks (p1.addLinks (eventLinks context.parseUuid
        context.sessionUuid context.childOf event1)) := h1.congr (SameMeter.quiet.addLinks _ _)
    have hclinks := hc1.addLinks (eventLinks context.parseUuid context.sessionUuid
      context.childOf event1)
    generalize hp2 : p1.addLinks _ = p2 at hlinks hclinks ⊢
    have hseen : p1.seen event1 = p2.seen event1 := by rw [← hp2]; rfl
    have hplace : Projection.place p1.state event1 = Projection.place p2.state event1 := by
      rw [← hp2]
      rfl
    rw [hseen, hplace]
    split
    · show Metered side (marks ++ []) _
      rw [List.append_nil]
      exact hlinks
    · unfold Projection.settle
      cases hwhere : Projection.place p2.state event1 with
      | nowhere =>
          show Metered side (marks ++ []) _
          rw [List.append_nil]
          exact hlinks
      | into t =>
          show Metered side (marks ++ side.marks (totalsAt event t).toList) _
          rw [← totalsAt_congr hsame]
          exact hlinks.append hagent context t
      | fresh =>
          have hfresh : p2.turns[event1.byteOffset]? = none := by
            cases hrow : p2.turns[event1.byteOffset]? with
            | none => rfl
            | some row =>
                have := hclinks.turns.le_bound _ _ hrow
                omega
          have hopen := hlinks.openFor hfresh context
          simp only
          by_cases hprompt : isRealUserPrompt event1 = true
          · rw [if_pos hprompt, if_pos hprompt]
            exact hopen
          · rw [if_neg hprompt, if_neg hprompt, Option.bind_some, ← totalsAt_congr hsame]
            have happended := hopen.append hagent context event1.byteOffset
            rw [List.append_assoc] at happended
            exact happended

theorem steps {events : List StoredEvent} (h : Metered side marks p) (hc : Consistent bound p)
    (hevents : Ascending bound events) (hagent : ∀ e ∈ events, e.agent = "codex")
    (context : Context) :
    Metered side (marks ++ side.marks (codexMarks context p events))
      (events.foldl (Projection.step context) p) := by
  induction events generalizing marks bound p with
  | nil =>
      show Metered side (marks ++ []) p
      rw [List.append_nil]
      exact h
  | cons event events ih =>
      obtain ⟨hfirst, hrest⟩ := ascending_cons.mp hevents
      have hstep := h.step hc hfirst (hagent event List.mem_cons_self) context
      have hsteps := ih hstep (hc.step hfirst) hrest fun e he =>
        hagent e (List.mem_cons_of_mem _ he)
      rw [List.append_assoc] at hsteps
      have hmarks : side.marks (codexMarks context p (event :: events)) =
          side.marks (codexMark context p event) ++
            side.marks (codexMarks context (p.step context event) events) := List.map_append
      rw [hmarks]
      exact hsteps

/-- The turns hold their windows' nets, as far as 64 bits go. -/
theorem sum_tokens (h : Metered side marks p) (hkeyed : Keyed TurnRow.turnId p.turns) :
    ((rows p.turns).map side.tokens).sum =
      ((holders marks).map fun t => share t marks).sum + wrapped marks := by
  have hperm : ((rows p.turns).map TurnRow.turnId).Perm (holders marks) := by
    have hnodup : ((rows p.turns).map TurnRow.turnId).Nodup := by
      rw [hkeyed.map_rows_keys]
      exact nodup_keys p.turns
    rw [List.perm_ext_iff_of_nodup hnodup h.nodup]
    intro t
    rw [h.holder]
    constructor
    · intro ht
      obtain ⟨turn, hturn, rfl⟩ := List.mem_map.mp ht
      exact ⟨turn, hkeyed.mem_rows.mp hturn⟩
    · rintro ⟨row, hrow⟩
      exact List.mem_map.mpr ⟨row, mem_rows.mpr ⟨t, hrow⟩, hkeyed t row hrow⟩
  have htokens : (rows p.turns).map side.tokens =
      ((rows p.turns).map TurnRow.turnId).map fun t => max (wrapI64 (net t marks)) 0 := by
    rw [List.map_map]
    apply List.map_congr_left
    intro turn hturn
    exact (h.turn _ turn (hkeyed.mem_rows.mp hturn)).2
  rw [htokens, (hperm.map _).sum_eq]
  unfold wrapped
  rw [← List.sum_map_add]
  congr 1
  apply List.map_congr_left
  intro t _
  ring

end Metered

/-! ## One line of turns -/

theorem main_append (hagent : event.agent = "codex") (context : Context) (p : Projection)
    (t : Int) : (p.append context t event).state.currentMain = p.state.currentMain := by
  have hbefore := (SameMeter.quiet.beforeUsage context p t event).main
  unfold Projection.append Projection.addUsage
  cases event.usageJson with
  | none => exact hbefore
  | some usage =>
      simp only
      rw [if_pos hagent]
      exact hbefore

theorem main_openFor (hside : event.isSidechain = false) (context : Context) (p : Projection) :
    (p.openFor context event).state.currentMain = some event.byteOffset := by
  unfold Projection.openFor Projection.openTurn SessionState.openTurn
  rw [hside]
  rfl

/-- The totals an event brings to the turn opened last are read for it. -/
theorem forLastOpened_totalsAt {last : Option Int} (rest : List (Mark Int Int))
    (hlast : last = some t) (hrest : ForLastOpened last rest) :
    ForLastOpened last (side.marks (totalsAt event t).toList ++ rest) := by
  unfold totalsAt
  cases event.usageJson with
  | none => exact hrest
  | some usage => exact ⟨hlast, hrest⟩

/-- Without sidechains, totals are read for the turn opened last. -/
theorem forLastOpened_codexMark (hagent : event.agent = "codex") (hside : event.isSidechain = false)
    (rest : List (Mark Int Int))
    (hrest : ForLastOpened (p.step context event).state.currentMain rest) :
    ForLastOpened p.state.currentMain (side.marks (codexMark context p event) ++ rest) := by
  unfold Projection.step at hrest
  unfold codexMark Projection.opening Projection.landing
  simp only at hrest ⊢
  have hadvance : (p.advance event).state.currentMain = p.state.currentMain := rfl
  split at hrest
  · rename_i hinherited
    rw [if_pos hinherited, if_pos hinherited]
    exact hrest
  · rename_i hinherited
    rw [if_neg hinherited, if_neg hinherited]
    have hsame := sameReceipt_correlate context (p.advance event) event
    have hmain := (SameMeter.quiet.correlate context (p.advance event) event).main
    rw [hadvance] at hmain
    generalize (p.advance event).correlate context event = acc at hsame hmain hrest ⊢
    obtain ⟨p1, event1⟩ := acc
    simp only at hsame hmain hrest ⊢
    rw [← hsame.2.1] at hagent
    rw [← hsame.2.2.1] at hside
    generalize hp2 : p1.addLinks _ = p2 at hrest
    have hmain2 : p2.state.currentMain = p.state.currentMain := by
      rw [← hp2]
      exact hmain
    have hseen : p1.seen event1 = p2.seen event1 := by rw [← hp2]; rfl
    have hplace : Projection.place p1.state event1 = Projection.place p2.state event1 := by
      rw [← hp2]
      rfl
    rw [hseen, hplace]
    split at hrest
    · rename_i hdup
      rw [if_pos hdup, if_pos hdup]
      rw [hmain2] at hrest
      exact hrest
    · rename_i hdup
      rw [if_neg hdup, if_neg hdup]
      unfold Projection.settle at hrest
      cases hwhere : Projection.place p2.state event1 with
      | nowhere =>
          rw [hwhere] at hrest
          simp only at hrest
          rw [hmain2] at hrest
          exact hrest
      | into t =>
          rw [hwhere] at hrest
          simp only at hrest
          rw [main_append hagent, hmain2] at hrest
          have hopen : p.state.currentMain = some t := by
            rw [← hmain2]
            unfold Projection.place at hwhere
            split at hwhere
            · cases hwhere
            · rw [hside, if_neg Bool.false_ne_true] at hwhere
              cases hcurrent : p2.state.currentMain with
              | some current =>
                  rw [hcurrent] at hwhere
                  cases hwhere
                  rfl
              | none =>
                  rw [hcurrent] at hwhere
                  simp only at hwhere
                  split at hwhere <;> cases hwhere
          exact forLastOpened_totalsAt rest hopen hrest
      | fresh =>
          rw [hwhere] at hrest
          simp only at hrest
          by_cases hprompt : isRealUserPrompt event1 = true
          · rw [if_pos hprompt] at hrest ⊢
            rw [main_openFor hside] at hrest
            exact hrest
          · rw [if_neg hprompt] at hrest ⊢
            rw [main_append hagent, main_openFor hside] at hrest
            rw [Option.bind_some]
            exact forLastOpened_totalsAt rest rfl hrest

theorem forLastOpened_codexMarks {events : List StoredEvent}
    (hagent : ∀ e ∈ events, e.agent = "codex") (hside : ∀ e ∈ events, e.isSidechain = false)
    (context : Context) (p : Projection) (side : Side) :
    ForLastOpened p.state.currentMain (side.marks (codexMarks context p events)) := by
  induction events generalizing p with
  | nil => exact trivial
  | cons event events ih =>
      have hrest := ih (fun e he => hagent e (List.mem_cons_of_mem _ he))
        (fun e he => hside e (List.mem_cons_of_mem _ he)) (p.step context event)
      have hmarks : side.marks (codexMarks context p (event :: events)) =
          side.marks (codexMark context p event) ++
            side.marks (codexMarks context (p.step context event) events) := List.map_append
      rw [hmarks]
      exact forLastOpened_codexMark (hagent event List.mem_cons_self)
        (hside event List.mem_cons_self) _ hrest

/-! ## Totals that are counts -/

theorem token_le (usage : Json) (key : String) : token usage key ≤ i64Max := by
  unfold token
  cases usage.get key with
  | none =>
      show (0 : Int) ≤ i64Max
      decide
  | some value =>
      show (value.asI64).getD 0 ≤ i64Max
      unfold Json.asI64
      split
      · split
        · rename_i hrange
          exact hrange.2
        · decide
      · decide

/-- The readings are the totals that events bring. -/
theorem mem_codexMarks {events : List StoredEvent} {totals : Int × Int}
    (h : Mark.read t totals ∈ codexMarks context p events) :
    ∃ e ∈ events, ∃ usage, e.usageJson = some usage ∧
      totals = (token usage "input_tokens", token usage "output_tokens") := by
  induction events generalizing p with
  | nil => exact absurd h List.not_mem_nil
  | cons event events ih =>
      rcases List.mem_append.mp h with hmark | hrest
      · rcases List.mem_append.mp hmark with hopened | hread
        · rw [Option.mem_toList] at hopened
          obtain ⟨t', -, ht'⟩ := Option.map_eq_some_iff.mp hopened
          cases ht'
        · rw [Option.mem_toList] at hread
          obtain ⟨t', -, ht'⟩ := Option.bind_eq_some_iff.mp hread
          obtain ⟨usage, husage, hmark⟩ := Option.map_eq_some_iff.mp ht'
          cases hmark
          exact ⟨event, List.mem_cons_self, usage, husage, rfl⟩
      · obtain ⟨e, he, usage, husage⟩ := ih hrest
        exact ⟨e, List.mem_cons_of_mem _ he, usage, husage⟩

/-- The cumulative totals are no negative numbers. -/
def CountsTokens (event : StoredEvent) : Prop :=
  ∀ usage, event.usageJson = some usage →
    0 ≤ token usage "input_tokens" ∧ 0 ≤ token usage "output_tokens"

theorem forall_codexMarks {events : List StoredEvent} (h : ∀ e ∈ events, CountsTokens e)
    (context : Context) (p : Projection) (side : Side) :
    RunningTotals.Forall (fun n => 0 ≤ n ∧ n ≤ i64Max)
      (side.marks (codexMarks context p events)) := by
  intro mark hmark t value hread
  obtain ⟨source, hsource, hmap⟩ := List.mem_map.mp hmark
  rw [hread] at hmap
  cases source with
  | opened t' => cases hmap
  | read t' totals =>
      cases hmap
      obtain ⟨e, he, usage, husage, rfl⟩ := mem_codexMarks hsource
      obtain ⟨hinput, houtput⟩ := h e he usage husage
      cases side with
      | input => exact ⟨hinput, token_le usage _⟩
      | output => exact ⟨houtput, token_le usage _⟩

theorem wrapped_eq_zero
    (h : RunningTotals.Forall (fun n => 0 ≤ n ∧ n ≤ i64Max) marks) : wrapped marks = 0 := by
  unfold wrapped
  apply List.sum_eq_zero
  intro n hn
  obtain ⟨t, -, rfl⟩ := List.mem_map.mp hn
  have hnet : wrapI64 (net t marks) = net t marks := by
    unfold net
    cases hw : window t 0 marks with
    | none => rfl
    | some w =>
        obtain ⟨hstart, hend⟩ := window_of_forall (by decide) h hw
        show wrapI64 (RunningTotals.total w.1 w.2 - w.1) = RunningTotals.total w.1 w.2 - w.1
        apply wrapI64_of_mem
        · unfold i64Min
          unfold i64Max at hstart hend
          omega
        · omega
  rw [hnet]
  exact sub_self _

/-! ## What all turns hold -/

theorem balanced_iff (hnodup : (holders marks).Nodup) :
    ((holders marks).map fun t => share t marks).sum + wrapped marks = gains 0 marks ↔
      Balanced marks := by
  rw [sum_share hnodup]
  unfold Balanced
  constructor
  · intro h
    linarith
  · intro h
    linarith

/-- **Codex turns and days agree** exactly where, for input and for output tokens, what turns count
more than once and what their arithmetic wraps make up for what restarts take back: the sum over all
turns is then the sum of the rises of the applied totals. With one line of turns and totals that are
counts, that is where no turn sees its total both rise and fall. -/
theorem codex_tokens_follow_totals_iff (context : Context) (batches : List (List StoredEvent))
    (hagent : ∀ e ∈ batches.flatten, e.agent = "codex")
    (hevents : (batches.flatten.map StoredEvent.byteOffset).Pairwise (· < ·)) :
    ∃ p, projectBatches context {} batches = some p ∧
      let input := Side.input.marks (codexMarks context {} batches.flatten)
      let output := Side.output.marks (codexMarks context {} batches.flatten)
      (billedTokens p = (gains 0 input, gains 0 output) ↔ Balanced input ∧ Balanced output) ∧
      ((∀ e ∈ batches.flatten, e.isSidechain = false ∧ CountsTokens e) →
        (Balanced input ∧ Balanced output ↔
          ∀ turn ∈ rows p.turns, OneWay input turn ∧ OneWay output turn)) := by
  obtain ⟨base, hbase, hascending⟩ := exists_bound hevents
  have hempty : Consistent base {} := .empty hbase
  refine ⟨_, projectBatches_eq hempty hascending context, ?_⟩
  have hc := hempty.steps hascending context
  have hmetered (side : Side) :
      Metered side (side.marks (codexMarks context {} batches.flatten))
        (batches.flatten.foldl (Projection.step context) {}) :=
    (Metered.empty side).steps hempty hascending hagent context
  generalize batches.flatten.foldl (Projection.step context) {} = p at hc hmetered
  simp only
  have hsum (side : Side) := (hmetered side).sum_tokens hc.turns.keyed
  have hbilled : billedTokens p = (((rows p.turns).map Side.input.tokens).sum,
      ((rows p.turns).map Side.output.tokens).sum) := by
    unfold billedTokens
    induction rows p.turns with
    | nil => rfl
    | cons turn turns ih =>
        rw [List.map_cons, List.sum_cons, ih]
        rfl
  constructor
  · rw [hbilled, Prod.mk.injEq, hsum, hsum, balanced_iff (hmetered .input).nodup,
      balanced_iff (hmetered .output).nodup]
  · intro hevents
    have hbalanced (side : Side) :
        Balanced (side.marks (codexMarks context {} batches.flatten)) ↔
          ∀ turn ∈ rows p.turns,
            OneWay (side.marks (codexMarks context {} batches.flatten)) turn := by
      have hdoubled : doubled (side.marks (codexMarks context {} batches.flatten)) = 0 :=
        doubled_of_lastOpened (forLastOpened_codexMarks hagent (fun e he => (hevents e he).1)
          context {} side) (hmetered side).nodup
      have hwrapped : wrapped (side.marks (codexMarks context {} batches.flatten)) = 0 :=
        wrapped_eq_zero (forall_codexMarks (fun e he => (hevents e he).2) context {} side)
      unfold Balanced
      rw [hdoubled, hwrapped, add_zero, eq_comm, cancelled_eq_zero_iff]
      constructor
      · intro h turn hturn
        have hrow := hc.turns.keyed.mem_rows.mp hturn
        exact h turn.turnId (((hmetered side).holder _).mpr ⟨turn, hrow⟩)
      · intro h t ht
        obtain ⟨row, hrow⟩ := ((hmetered side).holder t).mp ht
        have hone := h row (mem_rows.mpr ⟨t, hrow⟩)
        unfold OneWay at hone
        rw [hc.turns.keyed t row hrow] at hone
        exact hone
    rw [hbalanced, hbalanced]
    constructor
    · rintro ⟨hinput, houtput⟩ turn hturn
      exact ⟨hinput turn hturn, houtput turn hturn⟩
    · intro h
      exact ⟨fun turn hturn => (h turn hturn).1, fun turn hturn => (h turn hturn).2⟩

/-- A Codex event; a token count has cumulative totals. -/
def codexEvent (byteOffset : Int) (kind : String) (totals : Option (Int × Int)) : StoredEvent :=
  { plainEvent byteOffset kind [{ ord := 0, kind := .text, text := some "go on" }] with
    agent := "codex"
    usageJson := totals.map fun (input, output) =>
      .obj [("input_tokens", .int input), ("output_tokens", .int output)] }

/-- Two turns, and totals that grow. -/
def growingSession : List StoredEvent :=
  [codexEvent 1 "user" none, codexEvent 2 "token_count" (some (1000, 100)),
    codexEvent 3 "user" none, codexEvent 4 "token_count" (some (1600, 180))]

theorem codex_tokens_follow_totals_iff_growing :
    ∃ p, projectBatches plainContext {} [growingSession.take 3, growingSession.drop 3] = some p ∧
      billedTokens p = (1600, 180) := by
  obtain ⟨p, hp, hiff, -⟩ := codex_tokens_follow_totals_iff plainContext
    [growingSession.take 3, growingSession.drop 3] (by decide) (by decide)
  refine ⟨p, hp, ?_⟩
  rw [hiff.mpr ⟨by unfold Balanced; decide +kernel, by unfold Balanced; decide +kernel⟩]
  decide +kernel

/-- One turn, in the middle of which compaction restarts the totals. -/
def restartedSession : List StoredEvent :=
  [codexEvent 1 "user" none, codexEvent 2 "token_count" (some (1000, 100)),
    codexEvent 3 "token_count" (some (400, 40)), codexEvent 4 "token_count" (some (600, 60))]

/-- The turn is charged 600 tokens where the totals have risen by 1200. -/
theorem codex_tokens_restarted :
    (∀ e ∈ restartedSession, e.agent = "codex") ∧
      (restartedSession.map StoredEvent.byteOffset).Pairwise (· < ·) ∧
      (projectBatches plainContext {} [restartedSession]).map billedTokens = some (600, 60) ∧
      (projectBatches plainContext {} [restartedSession]).map billedTokens ≠
        some (gains 0 (Side.input.marks (codexMarks plainContext {} restartedSession)),
          gains 0 (Side.output.marks (codexMarks plainContext {} restartedSession))) := by
  refine ⟨by decide, by decide, by decide +kernel, ?_⟩
  decide +kernel

end Sulion.Timeline
