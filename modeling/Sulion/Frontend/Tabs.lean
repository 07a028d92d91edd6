import Sulion.Js.Objects
import Sulion.Lib.Transition

set_option autoImplicit false

/-! # The tab store

`TabStore`: the tabs, the two panes that list their ids, the active id of each pane and the one
selected in single-pane layouts. Every operation keeps the tabs and the lists in agreement. The
active ids are another matter: `moveTab` takes a tab out of its pane without choosing another active
tab there, and `activateTab` does not look whether the tab is in the pane.
-/

namespace Sulion.Frontend.Tabs

open Js Transition

/-! ## The store -/

inductive PaneId
  | top
  | bottom
  deriving DecidableEq

inductive TabKind
  | terminal
  | timeline
  | file
  | diff
  | ref
  | secrets
  | monitor
  | metrics
  deriving DecidableEq

structure TabData where
  id : String
  kind : TabKind
  sessionId : Option String := none
  repo : Option String := none
  workspaceId : Option String := none
  path : Option String := none
  slug : Option String := none
  focusLine : Option Int := none
  focusTurnId : Option Int := none
  focusPairId : Option String := none
  focusKey : Option String := none
  deriving DecidableEq

structure PersistedTabs where
  tabs : Obj TabData
  panes : PaneId → List String
  activeByPane : PaneId → Option String
  activeSinglePaneId : Option String
  sticky : PaneId → Bool

structure TabStore extends PersistedTabs where
  hasAnyTab : Bool

def initialState : TabStore :=
  { tabs := []
    panes := fun _ => []
    activeByPane := fun _ => none
    activeSinglePaneId := none
    sticky := fun _ => false
    hasAnyTab := false }

def withDerived (state : PersistedTabs) : TabStore :=
  { state with hasAnyTab := decide (state.panes .top ≠ [] ∨ state.panes .bottom ≠ []) }

def paneIds : List PaneId := [.top, .bottom]

def PaneId.other : PaneId → PaneId
  | .top => .bottom
  | .bottom => .top

/-- An optional text that is there and not empty. -/
def truthy (text : Option String) : Bool := text.any (· ≠ "")

def pairedKindOf : Option TabKind → Option TabKind
  | some .terminal => some .timeline
  | some .timeline => some .terminal
  | _ => none

/-- The key that two tabs for the same thing share. -/
def tabKey (spec : TabData) : String :=
  let repoScope := spec.repo.getD "" ++ ":" ++ spec.workspaceId.getD "main"
  match spec.kind with
  | .terminal => "terminal:" ++ spec.sessionId.getD ""
  | .timeline =>
      if truthy spec.repo then "timeline:repo:" ++ spec.repo.getD ""
      else "timeline:session:" ++ spec.sessionId.getD ""
  | .file => "file:" ++ repoScope ++ ":" ++ spec.path.getD ""
  | .diff => "diff:" ++ repoScope ++ ":" ++ spec.path.getD ""
  | .ref => "ref:" ++ spec.slug.getD ""
  | .secrets => "secrets:" ++ spec.sessionId.getD ""
  | .monitor => "monitor"
  | .metrics => "metrics"

def defaultPaneFor (kind : TabKind) : PaneId := if kind = .timeline then .bottom else .top

/-- The pane that lists a tab. -/
def paneOf (panes : PaneId → List String) (id : String) : Option PaneId :=
  paneIds.find? fun pane => id ∈ panes pane

/-! ## The operations -/

/-- A repeated request for a tab moves its focus. -/
def refocused (tab spec : TabData) : TabData :=
  if spec.kind = .timeline ∧ truthy spec.focusKey then
    { tab with
      focusTurnId := spec.focusTurnId
      focusPairId := spec.focusPairId
      focusKey := spec.focusKey }
  else if spec.kind = .file ∧ truthy spec.focusKey then
    { tab with focusLine := spec.focusLine, focusKey := spec.focusKey }
  else tab

/-- `newId` is what `crypto.randomUUID` returns. -/
def openTab (state : TabStore) (spec : TabData) (pane : Option PaneId) (newId : String) :
    TabStore :=
  let pane := pane.getD (defaultPaneFor spec.kind)
  let found := state.tabs.find? fun entry => tabKey entry.2 = tabKey spec
  match found.filter fun entry => entry.1 ≠ "" with
  | some (existingId, existing) =>
      match paneOf state.panes existingId with
      | some inPane =>
          { state with
            tabs := state.tabs.set existingId (refocused existing spec)
            activeByPane := Function.update state.activeByPane inPane (some existingId)
            activeSinglePaneId := some existingId }
      | none => state
  | none =>
      withDerived
        { tabs := state.tabs.set newId { spec with id := newId }
          panes := Function.update state.panes pane (state.panes pane ++ [newId])
          activeByPane := Function.update state.activeByPane pane (some newId)
          activeSinglePaneId := some newId
          sticky := state.sticky }

/-- The tab that is active in a pane when `id` is taken out of its list. -/
def nextActive (id : String) (oldList newList : List String) (active : Option String) :
    Option String :=
  if active = some id then
    if newList = [] then none
    else
      let oldIdx := oldList.idxOf id
      if oldIdx > 0 ∧ truthy newList[oldIdx - 1]? then newList[oldIdx - 1]?
      else newList.getLast?
  else if active ≠ none ∧ ¬ ∃ other ∈ newList, active = some other then newList.getLast?
  else active

def removeTabFromState (state : PersistedTabs) (id : String) : PersistedTabs :=
  let nextPanes := fun pane => (state.panes pane).filter (· ≠ id)
  let active := fun pane =>
    nextActive id (state.panes pane) (nextPanes pane) (state.activeByPane pane)
  let nextTabs := state.tabs.delete id
  { tabs := nextTabs
    panes := nextPanes
    activeByPane := active
    activeSinglePaneId :=
      if state.activeSinglePaneId = some id ∨
          nextTabs.get (state.activeSinglePaneId.getD "") = none then
        (active .top).or (active .bottom)
      else state.activeSinglePaneId
    sticky := state.sticky }

def closeTab (state : TabStore) (id : String) : TabStore :=
  withDerived (removeTabFromState state.toPersistedTabs id)

/-- The tab of the other pane that shows the same session. -/
def pairedId (state : TabStore) (pane : PaneId) (id : String) : Option String :=
  let activated := state.tabs.get id
  match activated.bind (·.sessionId), pairedKindOf (activated.map (·.kind)) with
  | some sessionId, some paired =>
      if sessionId ≠ "" ∧ state.sticky pane.other = false then
        (state.panes pane.other).find? fun candidateId =>
          (state.tabs.get candidateId).any fun candidate =>
            candidate.kind = paired ∧ candidate.sessionId = some sessionId
      else none
  | _, _ => none

def activateTab (state : TabStore) (pane : PaneId) (id : String) : TabStore :=
  let active := Function.update state.activeByPane pane (some id)
  { state with
    activeByPane :=
      if truthy (pairedId state pane id) ∧
          pairedId state pane id ≠ state.activeByPane pane.other then
        Function.update active pane.other (pairedId state pane id)
      else active
    activeSinglePaneId := some id }

def activateSinglePaneTab (state : TabStore) (id : String) : TabStore :=
  match paneOf state.panes id with
  | some pane => activateTab state pane id
  | none => state

/-- The list that `splice` inserts into, and where. -/
def inserted (list : List String) (index : Option Int) (id : String) : List String :=
  let position :=
    match index with
    | some n => if n < 0 ∨ n > list.length then list.length else n.toNat
    | none => list.length
  list.insertIdx position id

def moveTab (state : TabStore) (id : String) (toPane : PaneId) (index : Option Int) : TabStore :=
  match paneOf state.panes id with
  | none => state
  | some currentPane =>
      let without :=
        Function.update state.panes currentPane ((state.panes currentPane).filter (· ≠ id))
      withDerived
        { tabs := state.tabs
          panes := Function.update without toPane (inserted (without toPane) index id)
          activeByPane := Function.update state.activeByPane toPane (some id)
          activeSinglePaneId := some id
          sticky := state.sticky }

def setPaneSticky (state : TabStore) (pane : PaneId) (value : Bool) : TabStore :=
  { state with sticky := Function.update state.sticky pane value }

def clearTimelineFocus (state : TabStore) (id : String) : TabStore :=
  match state.tabs.get id with
  | none => state
  | some tab =>
      if tab.kind ≠ .timeline ∨
          (tab.focusTurnId = none ∧ tab.focusPairId = none ∧ tab.focusKey = none) then state
      else
        { state with
          tabs := state.tabs.set id
            { tab with focusTurnId := none, focusPairId := none, focusKey := none } }

/-- One round of the loop of `rebindSessionTabs`, and whether anything has changed. -/
def rebindTab (fromSessionId toSessionId : String) (next : PersistedTabs × Bool) (id : String) :
    PersistedTabs × Bool :=
  match next.1.tabs.get id with
  | none => next
  | some tab =>
      if tab.sessionId ≠ some fromSessionId then next
      else
        let rebound := { tab with sessionId := some toSessionId }
        match next.1.tabs.find? fun entry =>
            entry.1 ≠ id ∧ tabKey entry.2 = tabKey rebound with
        | some (duplicateId, _) =>
            if duplicateId ≠ "" then (removeTabFromState next.1 id, true)
            else ({ next.1 with tabs := next.1.tabs.set id rebound }, true)
        | none => ({ next.1 with tabs := next.1.tabs.set id rebound }, true)

def rebindSessionTabs (state : TabStore) (fromSessionId toSessionId : String) : TabStore :=
  if fromSessionId = toSessionId then state
  else
    let next := state.tabs.keys.foldl (rebindTab fromSessionId toSessionId)
      (state.toPersistedTabs, false)
    if next.2 then withDerived next.1 else state

/-! ## Rehydration -/

/-- A tab as it is stored: its kind may be one that there is no more. -/
structure StoredTab extends TabData where
  storedId : Option String
  storedKind : String

def knownTabKind : String → Option TabKind
  | "terminal" => some .terminal
  | "timeline" => some .timeline
  | "file" => some .file
  | "diff" => some .diff
  | "ref" => some .ref
  | "secrets" => some .secrets
  | "monitor" => some .monitor
  | "metrics" => some .metrics
  | _ => none

def kindText : TabKind → String
  | .terminal => "terminal"
  | .timeline => "timeline"
  | .file => "file"
  | .diff => "diff"
  | .ref => "ref"
  | .secrets => "secrets"
  | .monitor => "monitor"
  | .metrics => "metrics"

/-- What is stored; a part that is missing is empty here. -/
structure Stored where
  tabs : Obj StoredTab
  panes : PaneId → List String
  activeByPane : PaneId → Option String
  activeSinglePaneId : Option String
  sticky : PaneId → Bool

/-- `partialize` of the persist options. -/
def partialize (state : PersistedTabs) : Stored :=
  { tabs := state.tabs.map fun (id, tab) =>
      (id, { tab with storedId := some tab.id, storedKind := kindText tab.kind })
    panes := state.panes
    activeByPane := state.activeByPane
    activeSinglePaneId := state.activeSinglePaneId
    sticky := state.sticky }

/-- A tab of a kind that is still known. -/
def hydratedTab (entry : String × StoredTab) : Option (String × TabData) :=
  (knownTabKind entry.2.storedKind).map fun kind =>
    (entry.1, { entry.2.toTabData with id := entry.2.storedId.getD entry.1, kind := kind })

/-- `merge` of the persist options. -/
def merge (parsed : Stored) : TabStore :=
  let tabs : Obj TabData := parsed.tabs.filterMap hydratedTab
  let panes := fun pane => (parsed.panes pane).filter (· ∈ tabs.keys)
  let pickActive := fun pane =>
    if panes pane = [] then none
    else
      match parsed.activeByPane pane with
      | some id => if id ≠ "" ∧ id ∈ panes pane then some id else (panes pane).getLast?
      | none => (panes pane).getLast?
  withDerived
    { tabs := tabs
      panes := panes
      activeByPane := pickActive
      activeSinglePaneId :=
        parsed.activeSinglePaneId.filter fun id => id ≠ "" ∧ id ∈ tabs.keys
      sticky := parsed.sticky }

/-! ## Steps -/

inductive Action
  | openTab (spec : TabData) (pane : Option PaneId) (newId : String)
  | closeTab (id : String)
  | activateTab (pane : PaneId) (id : String)
  | activateSinglePaneTab (id : String)
  | moveTab (id : String) (toPane : PaneId) (index : Option Int)
  | rebindSessionTabs (fromSessionId toSessionId : String)
  | setPaneSticky (pane : PaneId) (value : Bool)
  | clearTimelineFocus (id : String)

/-- A random id is not empty, and none that is in use. -/
def step (state : TabStore) : Action → Option TabStore
  | .openTab spec pane newId =>
      if newId = "" ∨ newId ∈ state.tabs.keys then none else some (openTab state spec pane newId)
  | .closeTab id => some (closeTab state id)
  | .activateTab pane id => some (activateTab state pane id)
  | .activateSinglePaneTab id => some (activateSinglePaneTab state id)
  | .moveTab id toPane index => some (moveTab state id toPane index)
  | .rebindSessionTabs fromSessionId toSessionId =>
      some (rebindSessionTabs state fromSessionId toSessionId)
  | .setPaneSticky pane value => some (setPaneSticky state pane value)
  | .clearTimelineFocus id => some (clearTimelineFocus state id)

end Sulion.Frontend.Tabs
