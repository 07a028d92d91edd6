import Sulion.Frontend.Tabs

set_option autoImplicit false

/-! # The layout of the tabs

What every operation keeps, and what two of them do not. `Layout` is about the tabs and the lists of
the panes, and holds in every state; `Pointers` is about the active ids.
-/

namespace Sulion.Frontend.Tabs

open Js Transition

/-- Every tab is in one list, once, and no two tabs are for the same thing. -/
structure Layout (tabs : Obj TabData) (panes : PaneId → List String) : Prop where
  keys_nodup : tabs.keys.Nodup
  named : ∀ id tab, tabs.get id = some tab → tab.id = id
  nonempty : "" ∉ tabs.keys
  listed : ∀ id, id ∈ tabs.keys ↔ ∃ pane, id ∈ panes pane
  once : ∀ pane, (panes pane).Nodup
  apart : ∀ id pane pane', id ∈ panes pane → id ∈ panes pane' → pane = pane'
  distinct : ∀ id id' tab tab', tabs.get id = some tab → tabs.get id' = some tab' →
    tabKey tab = tabKey tab' → id = id'

/-- The active ids are in their lists, or there is nothing to list. -/
structure Pointers (tabs : Obj TabData) (panes : PaneId → List String)
    (activeByPane : PaneId → Option String) (activeSinglePaneId : Option String) : Prop where
  member : ∀ pane id, activeByPane pane = some id → id ∈ panes pane
  null : ∀ pane, activeByPane pane = none ↔ panes pane = []
  single : ∀ id, activeSinglePaneId = some id → id ∈ tabs.keys

/-- **The invariant of the tab store.** -/
structure Inv (s : PersistedTabs) : Prop where
  layout : Layout s.tabs s.panes
  pointers : Pointers s.tabs s.panes s.activeByPane s.activeSinglePaneId

/-- A tab that is moved away from a pane is not the active one there, and a tab that is activated
in a pane is listed there. -/
def Timely (s : TabStore) : Action → Prop
  | .moveTab id toPane _ => ∀ pane, pane ≠ toPane → id ∈ s.panes pane →
      s.activeByPane pane ≠ some id
  | .activateTab pane id => id ∈ s.panes pane
  | _ => True

variable {tabs : Obj TabData} {panes : PaneId → List String} {active : PaneId → Option String}
  {single : Option String} {id : String} {tab tab' : TabData} {pane toPane : PaneId}

theorem PaneId.other_ne (pane : PaneId) : pane.other ≠ pane := by cases pane <;> decide

theorem mem_of_paneOf (h : paneOf panes id = some pane) : id ∈ panes pane := by
  have := List.find?_some h
  exact of_decide_eq_true this

theorem paneOf_eq_none_iff : paneOf panes id = none ↔ ∀ pane, id ∉ panes pane := by
  rw [paneOf, List.find?_eq_none]
  constructor
  · intro h pane
    have hmem : pane ∈ paneIds := by cases pane <;> decide
    simpa using h pane hmem
  · intro h pane _
    simpa using h pane

/-! ## Tabs and lists -/

/-- A tab is replaced by one under a key that no other tab has. -/
theorem Layout.replace (h : Layout tabs panes) (hget : tabs.get id = some tab)
    (hid : tab'.id = id)
    (hkey : ∀ other t, other ≠ id → tabs.get other = some t → tabKey t ≠ tabKey tab') :
    Layout (tabs.set id tab') panes := by
  have hmem : id ∈ tabs.keys := Obj.mem_keys_iff.mpr ⟨tab, hget⟩
  have hkeys (k : String) : k ∈ (tabs.set id tab').keys ↔ k ∈ tabs.keys := by
    rw [Obj.mem_keys_set]
    exact ⟨fun hk => hk.elim (fun heq => heq ▸ hmem) fun hk => hk, .inr⟩
  refine ⟨Obj.nodup_keys_set h.keys_nodup, ?_, ?_, ?_, h.once, h.apart, ?_⟩
  · intro k t ht
    rw [Obj.get_set] at ht
    split at ht
    · rename_i hk
      rw [← Option.some.inj ht, hid, hk]
    · exact h.named k t ht
  · rw [hkeys]
    exact h.nonempty
  · intro k
    rw [hkeys, h.listed]
  · intro k k' t t' ht ht' heq
    rw [Obj.get_set] at ht ht'
    split at ht <;> split at ht'
    · rename_i hk hk'
      rw [hk, hk']
    · rename_i hk hk'
      cases Option.some.inj ht
      exact absurd heq.symm (hkey k' t' hk' ht')
    · rename_i hk hk'
      cases Option.some.inj ht'
      exact absurd heq (hkey k t hk ht)
    · exact h.distinct k k' t t' ht ht' heq

theorem Pointers.of_keys {tabs' : Obj TabData} (h : Pointers tabs panes active single)
    (hkeys : ∀ k, k ∈ tabs.keys → k ∈ tabs'.keys) : Pointers tabs' panes active single :=
  ⟨h.member, h.null, fun k hk => hkeys k (h.single k hk)⟩

theorem Layout.add (h : Layout tabs panes) (hnew : id ∉ tabs.keys) (hne : id ≠ "")
    (hid : tab.id = id) (hkey : ∀ other t, tabs.get other = some t → tabKey t ≠ tabKey tab) :
    Layout (tabs.set id tab) (Function.update panes pane (panes pane ++ [id])) := by
  have hunlisted (p : PaneId) : id ∉ panes p := fun hp => hnew ((h.listed id).mpr ⟨p, hp⟩)
  -- the lists gain the new id, in the one pane
  have hlists (k : String) (p : PaneId) :
      k ∈ Function.update panes pane (panes pane ++ [id]) p ↔
        k ∈ panes p ∨ (k = id ∧ p = pane) := by
    by_cases hp : p = pane
    · subst hp
      simp
    · simp [Function.update_of_ne hp, hp]
  refine ⟨Obj.nodup_keys_set h.keys_nodup, ?_, ?_, ?_, ?_, ?_, ?_⟩
  · intro k t ht
    rw [Obj.get_set] at ht
    split at ht
    · rename_i hk
      rw [← Option.some.inj ht, hid, hk]
    · exact h.named k t ht
  · rw [Obj.mem_keys_set]
    exact fun hempty => hempty.elim (fun heq => hne heq.symm) h.nonempty
  · intro k
    rw [Obj.mem_keys_set, h.listed]
    simp only [hlists]
    constructor
    · rintro (rfl | ⟨p, hp⟩)
      · exact ⟨pane, .inr ⟨rfl, rfl⟩⟩
      · exact ⟨p, .inl hp⟩
    · rintro ⟨p, hp | ⟨rfl, -⟩⟩
      · exact .inr ⟨p, hp⟩
      · exact .inl rfl
  · intro p
    by_cases hp : p = pane
    · subst hp
      rw [Function.update_self]
      exact List.nodup_append.mpr ⟨h.once p, List.nodup_singleton id,
        fun a ha b hb heq => hunlisted p (List.mem_singleton.mp hb ▸ heq ▸ ha)⟩
    · rw [Function.update_of_ne hp]
      exact h.once p
  · intro k p p' hk hk'
    rw [hlists] at hk hk'
    rcases hk with hk | ⟨rfl, rfl⟩ <;> rcases hk' with hk' | ⟨heq, rfl⟩
    · exact h.apart k p p' hk hk'
    · exact absurd (heq ▸ hk) (hunlisted p)
    · exact absurd hk' (hunlisted p')
    · rfl
  · intro k k' t t' ht ht' heq
    rw [Obj.get_set] at ht ht'
    split at ht <;> split at ht'
    · rename_i hk hk'
      rw [hk, hk']
    · cases Option.some.inj ht
      exact absurd heq.symm (hkey k' t' ht')
    · cases Option.some.inj ht'
      exact absurd heq (hkey k t ht)
    · exact h.distinct k k' t t' ht ht' heq

theorem Layout.remove (h : Layout tabs panes) (id : String) :
    Layout (tabs.delete id) fun pane => (panes pane).filter (· ≠ id) := by
  have hmem (k : String) (p : PaneId) :
      k ∈ (panes p).filter (· ≠ id) ↔ k ∈ panes p ∧ k ≠ id := by simp
  refine ⟨Obj.nodup_keys_delete h.keys_nodup, ?_, ?_, ?_, ?_, ?_, ?_⟩
  · intro k t ht
    rw [Obj.get_delete] at ht
    split at ht
    · cases ht
    · exact h.named k t ht
  · rw [Obj.mem_keys_delete]
    exact fun hempty => h.nonempty hempty.1
  · intro k
    rw [Obj.mem_keys_delete, h.listed]
    simp only [hmem]
    exact ⟨fun ⟨⟨p, hp⟩, hne⟩ => ⟨p, hp, hne⟩, fun ⟨p, hp, hne⟩ => ⟨⟨p, hp⟩, hne⟩⟩
  · exact fun p => (h.once p).filter _
  · intro k p p' hk hk'
    exact h.apart k p p' ((hmem k p).mp hk).1 ((hmem k p').mp hk').1
  · intro k k' t t' ht ht' heq
    rw [Obj.get_delete] at ht ht'
    split at ht
    · cases ht
    · split at ht'
      · cases ht'
      · exact h.distinct k k' t t' ht ht' heq

/-- The tab is put back once, wherever that is. -/
theorem inserted_perm (list : List String) (index : Option Int) (id : String) :
    (inserted list index id).Perm (id :: list) := by
  unfold inserted
  refine List.perm_insertIdx id _ ?_
  split
  · split <;> omega
  · exact le_rfl

theorem mem_inserted {list : List String} {index : Option Int} : id ∈ inserted list index id :=
  (inserted_perm list index id).mem_iff.mpr List.mem_cons_self

/-- Out of one list and into another, or into another place of the same. -/
theorem Layout.move (h : Layout tabs panes) (hid : id ∈ panes pane) (toPane : PaneId)
    (index : Option Int) :
    Layout tabs (Function.update
      (Function.update panes pane ((panes pane).filter (· ≠ id))) toPane
      (inserted (Function.update panes pane ((panes pane).filter (· ≠ id)) toPane) index id)) := by
  set without := Function.update panes pane ((panes pane).filter (· ≠ id)) with hwithout
  have hmem (k : String) (p : PaneId) : k ∈ without p ↔ k ∈ panes p ∧ k ≠ id := by
    by_cases hp : p = pane
    · subst hp
      simp [hwithout]
    · rw [hwithout, Function.update_of_ne hp]
      exact ⟨fun hk => ⟨hk, fun heq => hp (h.apart id p pane (heq ▸ hk) hid)⟩, fun hk => hk.1⟩
  have honce (p : PaneId) : (without p).Nodup := by
    by_cases hp : p = pane
    · subst hp
      rw [hwithout, Function.update_self]
      exact (h.once p).filter _
    · rw [hwithout, Function.update_of_ne hp]
      exact h.once p
  have hperm := inserted_perm (without toPane) index id
  have hlists (k : String) (p : PaneId) :
      k ∈ Function.update without toPane (inserted (without toPane) index id) p ↔
        (k ∈ panes p ∧ k ≠ id) ∨ (k = id ∧ p = toPane) := by
    by_cases hp : p = toPane
    · subst hp
      rw [Function.update_self, hperm.mem_iff, List.mem_cons, hmem]
      simp [or_comm]
    · rw [Function.update_of_ne hp, hmem]
      simp [hp]
  refine ⟨h.keys_nodup, h.named, h.nonempty, ?_, ?_, ?_, h.distinct⟩
  · intro k
    rw [h.listed]
    simp only [hlists]
    by_cases hk : k = id
    · subst hk
      exact ⟨fun _ => ⟨toPane, .inr ⟨rfl, rfl⟩⟩, fun _ => ⟨pane, hid⟩⟩
    · simp [hk]
  · intro p
    by_cases hp : p = toPane
    · subst hp
      rw [Function.update_self, hperm.nodup_iff]
      exact List.nodup_cons.mpr ⟨fun hin => ((hmem id p).mp hin).2 rfl, honce p⟩
    · rw [Function.update_of_ne hp]
      exact honce p
  · intro k p p' hk hk'
    rw [hlists] at hk hk'
    rcases hk with ⟨hk, hne⟩ | ⟨rfl, rfl⟩ <;> rcases hk' with ⟨hk', hne'⟩ | ⟨heq, rfl⟩
    · exact h.apart k p p' hk hk'
    · exact absurd heq hne
    · exact absurd rfl hne'
    · rfl

/-! ## Active ids -/

theorem Pointers.activate (h : Pointers tabs panes active single) (hid : id ∈ panes pane)
    (hkey : id ∈ tabs.keys) :
    Pointers tabs panes (Function.update active pane (some id)) (some id) := by
  refine ⟨?_, ?_, ?_⟩
  · intro p k hk
    by_cases hp : p = pane
    · subst hp
      rw [Function.update_self] at hk
      exact Option.some.inj hk ▸ hid
    · rw [Function.update_of_ne hp] at hk
      exact h.member p k hk
  · intro p
    by_cases hp : p = pane
    · subst hp
      rw [Function.update_self]
      exact iff_of_false (Option.some_ne_none id) (List.ne_nil_of_mem hid)
    · rw [Function.update_of_ne hp]
      exact h.null p
  · intro k hk
    exact Option.some.inj hk ▸ hkey

theorem Pointers.add (h : Pointers tabs panes active single) :
    Pointers (tabs.set id tab) (Function.update panes pane (panes pane ++ [id]))
      (Function.update active pane (some id)) (some id) := by
  have hmem (p : PaneId) (k : String) (hk : Function.update active pane (some id) p = some k) :
      k ∈ Function.update panes pane (panes pane ++ [id]) p := by
    by_cases hp : p = pane
    · subst hp
      rw [Function.update_self] at hk ⊢
      exact Option.some.inj hk ▸ List.mem_append_right _ (List.mem_singleton_self id)
    · rw [Function.update_of_ne hp] at hk ⊢
      exact h.member p k hk
  refine ⟨hmem, ?_, ?_⟩
  · intro p
    by_cases hp : p = pane
    · subst hp
      simp
    · rw [Function.update_of_ne hp, Function.update_of_ne hp]
      exact h.null p
  · intro k hk
    exact Obj.mem_keys_set.mpr (.inl (Option.some.inj hk).symm)

/-- The active id of a pane that loses a tab is one that is left, if any is. -/
theorem nextActive_spec (id : String) {oldList : List String} {current : Option String}
    (h : current = none → oldList = []) :
    (∀ k, nextActive id oldList (oldList.filter (· ≠ id)) current = some k →
        k ∈ oldList.filter (· ≠ id)) ∧
      (nextActive id oldList (oldList.filter (· ≠ id)) current = none →
        oldList.filter (· ≠ id) = []) := by
  generalize hnew : oldList.filter (· ≠ id) = newList
  unfold nextActive
  split
  · split
    · rename_i hempty
      exact ⟨fun k hk => absurd hk.symm (Option.some_ne_none k), fun _ => hempty⟩
    · dsimp only
      split
      · rename_i htruthy
        refine ⟨fun k hk => List.mem_of_getElem? hk, fun hnone => ?_⟩
        rw [hnone] at htruthy
        exact absurd htruthy.2 (by decide)
      · exact ⟨fun k hk => List.mem_of_getLast? hk, fun hnone => List.getLast?_eq_none_iff.mp hnone⟩
  · split
    · exact ⟨fun k hk => List.mem_of_getLast? hk, fun hnone => List.getLast?_eq_none_iff.mp hnone⟩
    · -- another tab is active, and it is still listed
      rename_i hother hlost
      rw [not_and, not_not] at hlost
      refine ⟨fun k hk => ?_, fun hnone => ?_⟩
      · obtain ⟨other, hmem, heq⟩ := hlost (hk ▸ Option.some_ne_none k)
        exact Option.some.inj (hk.symm.trans heq) ▸ hmem
      · rw [← hnew, h hnone, List.filter_nil]

theorem Inv.remove {s : PersistedTabs} (h : Inv s) (id : String) :
    Inv (removeTabFromState s id) := by
  have hactive (p : PaneId) := nextActive_spec id (h.pointers.null p).mp
  have hlayout := h.layout.remove id
  refine ⟨hlayout, ⟨fun p => (hactive p).1, fun p => ⟨(hactive p).2, ?_⟩, ?_⟩⟩
  · intro hempty
    have hnone : (s.panes p).filter (· ≠ id) = [] := hempty
    show nextActive id (s.panes p) ((s.panes p).filter (· ≠ id)) (s.activeByPane p) = none
    cases hk : nextActive id (s.panes p) ((s.panes p).filter (· ≠ id)) (s.activeByPane p) with
    | none => rfl
    | some k => exact absurd ((hactive p).1 k hk) (hnone ▸ List.not_mem_nil)
  · intro k hk
    rw [removeTabFromState] at hk ⊢
    dsimp only at hk
    split at hk
    · -- the active tab of a pane
      rcases Option.or_eq_some_iff.mp hk with htop | ⟨-, hbottom⟩
      · exact (hlayout.listed k).mpr ⟨.top, (hactive .top).1 k htop⟩
      · exact (hlayout.listed k).mpr ⟨.bottom, (hactive .bottom).1 k hbottom⟩
    · rename_i hkept
      rw [not_or] at hkept
      rw [hk, Option.getD_some, Obj.get_eq_none_iff, not_not] at hkept
      exact hkept.2

/-! ## The operations -/

variable {s : TabStore} {spec : TabData} {newId : String}

theorem tabKey_refocused (tab spec : TabData) :
    tabKey (refocused tab spec) = tabKey tab ∧ (refocused tab spec).id = tab.id := by
  unfold refocused
  split
  · exact ⟨rfl, rfl⟩
  · split <;> exact ⟨rfl, rfl⟩

theorem get_of_find? {o : Obj TabData} {p : String × TabData → Bool} (hnodup : o.keys.Nodup)
    (h : o.find? p = some (id, tab)) : o.get id = some tab :=
  Obj.get_of_mem hnodup (List.mem_of_find?_eq_some h)

theorem find?_eq_none_get {o : Obj TabData} {p : String × TabData → Bool}
    (h : o.find? p = none) (hget : o.get id = some tab) : ¬ p (id, tab) = true :=
  List.find?_eq_none.mp h _ (Obj.mem_of_get hget)

theorem Inv.openTab (h : Inv s.toPersistedTabs) (hne : newId ≠ "") (hnew : newId ∉ s.tabs.keys)
    (pane : Option PaneId) : Inv (openTab s spec pane newId).toPersistedTabs := by
  unfold Tabs.openTab
  dsimp only
  cases hfound : s.tabs.find? fun entry => tabKey entry.2 = tabKey spec with
  | some entry =>
      obtain ⟨existingId, existing⟩ := entry
      have hget := get_of_find? h.layout.keys_nodup hfound
      have hkey : existingId ∈ s.tabs.keys := Obj.mem_keys_iff.mpr ⟨existing, hget⟩
      have htruthy : existingId ≠ "" := fun heq => h.layout.nonempty (heq ▸ hkey)
      rw [Option.filter_some, if_pos (by simpa using htruthy)]
      dsimp only
      cases hpane : paneOf s.panes existingId with
      | none => exact h
      | some inPane =>
          obtain ⟨hsame, hid⟩ := tabKey_refocused existing spec
          refine ⟨h.layout.replace hget (hid.trans (h.layout.named _ _ hget)) ?_, ?_⟩
          · intro other t hother ht heq
            exact hother (h.layout.distinct _ _ _ _ ht hget (heq.trans hsame))
          · exact (h.pointers.activate (mem_of_paneOf hpane) hkey).of_keys fun k hk =>
              Obj.mem_keys_set.mpr (.inr hk)
  | none =>
      have hkey (other : String) (t : TabData) (ht : s.tabs.get other = some t) :
          tabKey t ≠ tabKey { spec with id := newId } := fun heq =>
        absurd (find?_eq_none_get hfound ht) (not_not_intro (decide_eq_true heq))
      exact ⟨h.layout.add hnew hne rfl hkey, h.pointers.add⟩

theorem pairedId_mem {other : String} (h : pairedId s pane id = some other) :
    other ∈ s.panes pane.other := by
  unfold pairedId at h
  dsimp only at h
  split at h
  · split at h
    · exact List.mem_of_find?_eq_some h
    · cases h
  · cases h

/-- A tab that is listed is activated, and so is its pair. -/
theorem Inv.activateTab (h : Inv s.toPersistedTabs) (hid : id ∈ s.panes pane) :
    Inv (activateTab s pane id).toPersistedTabs := by
  have hkey := (h.layout.listed id).mpr ⟨pane, hid⟩
  refine ⟨h.layout, ?_⟩
  have hactive := h.pointers.activate hid hkey
  unfold Tabs.activateTab
  dsimp only
  split
  · rename_i hpair
    obtain ⟨other, hother⟩ : ∃ other, pairedId s pane id = some other := by
      cases hpaired : pairedId s pane id with
      | none => exact absurd (hpaired ▸ hpair.1) (by decide)
      | some other => exact ⟨other, rfl⟩
    rw [hother]
    have hmem := pairedId_mem hother
    have hboth := hactive.activate hmem ((h.layout.listed other).mpr ⟨_, hmem⟩)
    exact ⟨hboth.member, hboth.null, hactive.single⟩
  · exact hactive

theorem Inv.activateSinglePaneTab (h : Inv s.toPersistedTabs) (id : String) :
    Inv (activateSinglePaneTab s id).toPersistedTabs := by
  unfold Tabs.activateSinglePaneTab
  cases hpane : paneOf s.panes id with
  | none => exact h
  | some pane => exact h.activateTab (mem_of_paneOf hpane)

/-- A tab that is not active in the pane it leaves. -/
theorem Inv.moveTab (h : Inv s.toPersistedTabs) (index : Option Int)
    (hactive : ∀ p, p ≠ toPane → id ∈ s.panes p → s.activeByPane p ≠ some id) :
    Inv (moveTab s id toPane index).toPersistedTabs := by
  unfold Tabs.moveTab
  cases hpane : paneOf s.panes id with
  | none => exact h
  | some pane =>
      have hid := mem_of_paneOf hpane
      have hlayout := h.layout.move hid toPane index
      refine ⟨hlayout, ?_⟩
      have hkey := (h.layout.listed id).mpr ⟨pane, hid⟩
      obtain ⟨target, htarget⟩ := (hlayout.listed id).mp hkey
      refine ⟨?_, ?_, ?_⟩
      all_goals dsimp only [withDerived] at htarget ⊢
      · intro p k hk
        by_cases hp : p = toPane
        · subst hp
          rw [Function.update_self] at hk
          obtain rfl := Option.some.inj hk
          rw [Function.update_self]
          exact mem_inserted
        · rw [Function.update_of_ne hp] at hk ⊢
          have hk' := h.pointers.member p k hk
          by_cases hsource : p = pane
          · subst hsource
            rw [Function.update_self]
            refine List.mem_filter.mpr ⟨hk', decide_eq_true fun heq => ?_⟩
            exact hactive p hp hid (heq ▸ hk)
          · rw [Function.update_of_ne hsource]
            exact hk'
      · intro p
        by_cases hp : p = toPane
        · subst hp
          rw [Function.update_self, Function.update_self]
          exact iff_of_false (Option.some_ne_none id) (List.ne_nil_of_mem mem_inserted)
        · rw [Function.update_of_ne hp, Function.update_of_ne hp]
          by_cases hsource : p = pane
          · subst hsource
            rw [Function.update_self]
            -- another tab is active there, and stays
            obtain ⟨k, hk⟩ : ∃ k, s.activeByPane p = some k := by
              cases hk : s.activeByPane p with
              | none => exact absurd hid ((h.pointers.null p).mp hk ▸ List.not_mem_nil)
              | some k => exact ⟨k, rfl⟩
            have hne : k ≠ id := fun heq => hactive p hp hid (heq ▸ hk)
            refine iff_of_false (hk ▸ Option.some_ne_none k) (List.ne_nil_of_mem (a := k) ?_)
            exact List.mem_filter.mpr ⟨h.pointers.member p k hk, decide_eq_true hne⟩
          · rw [Function.update_of_ne hsource]
            exact h.pointers.null p
      · intro k hk
        exact Option.some.inj hk ▸ hkey

/-- One tab is rebound, or closed when there is one for the other session. -/
theorem Inv.rebindTab {next : PersistedTabs × Bool} (h : Inv next.1) (source target id : String) :
    Inv (rebindTab source target next id).1 := by
  unfold Tabs.rebindTab
  cases hget : next.1.tabs.get id with
  | none => exact h
  | some tab =>
      dsimp only
      split
      · exact h
      · cases hfound : next.1.tabs.find? fun entry =>
            entry.1 ≠ id ∧ tabKey entry.2 = tabKey { tab with sessionId := some target } with
        | some entry =>
            obtain ⟨duplicateId, duplicate⟩ := entry
            have hdup := get_of_find? h.layout.keys_nodup hfound
            have hne : duplicateId ≠ "" := fun heq =>
              h.layout.nonempty (heq ▸ Obj.mem_keys_iff.mpr ⟨_, hdup⟩)
            dsimp only
            rw [if_pos hne]
            exact h.remove id
        | none =>
            have hid : ({ tab with sessionId := some target } : TabData).id = id :=
              h.layout.named id tab hget
            refine ⟨h.layout.replace hget hid ?_, ?_⟩
            · intro other t hother ht heq
              exact find?_eq_none_get hfound ht (decide_eq_true ⟨hother, heq⟩)
            · exact h.pointers.of_keys fun k hk => Obj.mem_keys_set.mpr (.inr hk)

theorem Inv.rebindSessionTabs (h : Inv s.toPersistedTabs) (source target : String) :
    Inv (rebindSessionTabs s source target).toPersistedTabs := by
  have hloop (ids : List String) (next : PersistedTabs × Bool) (hnext : Inv next.1) :
      Inv (ids.foldl (Tabs.rebindTab source target) next).1 := by
    induction ids generalizing next with
    | nil => exact hnext
    | cons id ids ih => exact ih _ (hnext.rebindTab source target id)
  unfold Tabs.rebindSessionTabs
  split
  · exact h
  · dsimp only
    split
    · exact hloop _ _ h
    · exact h

theorem Inv.clearTimelineFocus (h : Inv s.toPersistedTabs) (id : String) :
    Inv (clearTimelineFocus s id).toPersistedTabs := by
  unfold Tabs.clearTimelineFocus
  cases hget : s.tabs.get id with
  | none => exact h
  | some tab =>
      dsimp only
      split
      · exact h
      · refine ⟨h.layout.replace hget (h.layout.named id tab hget) ?_, ?_⟩
        · intro other t hother ht heq
          exact hother (h.layout.distinct _ _ _ _ ht hget heq)
        · exact h.pointers.of_keys fun k hk => Obj.mem_keys_set.mpr (.inr hk)

/-! ## Where the pointers go wrong -/

theorem mem_of_activated (h : Inv (activateTab s pane id).toPersistedTabs) :
    id ∈ s.panes pane := by
  refine h.pointers.member pane id ?_
  unfold Tabs.activateTab
  dsimp only
  split
  · rw [Function.update_of_ne pane.other_ne.symm, Function.update_self]
  · exact Function.update_self _ _ _

theorem not_active_of_moved {index : Option Int} (h : Layout s.tabs s.panes)
    (hinv : Inv (moveTab s id toPane index).toPersistedTabs) (hne : pane ≠ toPane)
    (hid : id ∈ s.panes pane) : s.activeByPane pane ≠ some id := by
  intro hactive
  unfold Tabs.moveTab at hinv
  cases hpane : paneOf s.panes id with
  | none => exact paneOf_eq_none_iff.mp hpane pane hid
  | some current =>
      obtain rfl := h.apart id pane current hid (mem_of_paneOf hpane)
      rw [hpane] at hinv
      -- the pane still points at the tab, which its list has lost
      have hstill : Function.update s.activeByPane toPane (some id) pane = some id := by
        rw [Function.update_of_ne hne]
        exact hactive
      have hmem := hinv.pointers.member pane id hstill
      exact absurd hmem (by simp [withDerived, Function.update_of_ne hne])

/-- **A step keeps the invariant exactly when it moves no active tab away and activates no tab
elsewhere.** -/
theorem step_inv_iff {s' : TabStore} {a : Action} (h : Inv s.toPersistedTabs)
    (hstep : step s a = some s') : Inv s'.toPersistedTabs ↔ Timely s a := by
  cases a with
  | openTab spec pane newId =>
      rw [step] at hstep
      split at hstep
      · cases hstep
      · rename_i hnew
        rw [not_or] at hnew
        cases hstep
        exact iff_of_true (h.openTab hnew.1 hnew.2 pane) trivial
  | closeTab id =>
      cases hstep
      exact iff_of_true (h.remove id) trivial
  | activateTab pane id =>
      cases hstep
      exact ⟨mem_of_activated, h.activateTab⟩
  | activateSinglePaneTab id =>
      cases hstep
      exact iff_of_true (h.activateSinglePaneTab id) trivial
  | moveTab id toPane index =>
      cases hstep
      exact ⟨fun hinv _ hne hid => not_active_of_moved h.layout hinv hne hid, h.moveTab index⟩
  | rebindSessionTabs source target =>
      cases hstep
      exact iff_of_true (h.rebindSessionTabs source target) trivial
  | setPaneSticky pane value =>
      cases hstep
      exact iff_of_true ⟨h.layout, h.pointers⟩ trivial
  | clearTimelineFocus id =>
      cases hstep
      exact iff_of_true (h.clearTimelineFocus id) trivial

/-! ## The states a run starts from -/

theorem inv_initialState : Inv initialState.toPersistedTabs := by
  refine ⟨⟨List.nodup_nil, ?_, List.not_mem_nil, ?_, fun _ => List.nodup_nil, ?_, ?_⟩,
    ⟨?_, fun _ => iff_of_true rfl rfl, ?_⟩⟩
  · intro id tab h
    cases h
  · exact fun id => ⟨fun h => absurd h List.not_mem_nil, fun ⟨_, h⟩ => absurd h List.not_mem_nil⟩
  · exact fun id pane pane' h => absurd h List.not_mem_nil
  · intro id id' tab tab' h
    cases h
  · intro pane id h
    cases h
  · intro id h
    cases h

/-- A stored state whose tabs and lists agree, as the store writes them. Its active ids may be
anything, and some of its tabs of a kind that is not known any more. -/
structure Written (parsed : Stored) : Prop where
  keys_nodup : parsed.tabs.keys.Nodup
  named : ∀ id tab, parsed.tabs.get id = some tab → tab.storedId = some id
  nonempty : "" ∉ parsed.tabs.keys
  listed : ∀ id, id ∈ parsed.tabs.keys ↔ ∃ pane, id ∈ parsed.panes pane
  once : ∀ pane, (parsed.panes pane).Nodup
  apart : ∀ id pane pane', id ∈ parsed.panes pane → id ∈ parsed.panes pane' → pane = pane'
  distinct : ∀ e ∈ parsed.tabs.filterMap hydratedTab, ∀ e' ∈ parsed.tabs.filterMap hydratedTab,
    tabKey e.2 = tabKey e'.2 → e.1 = e'.1

theorem knownTabKind_kindText (kind : TabKind) : knownTabKind (kindText kind) = some kind := by
  cases kind <;> rfl

/-- What the store writes comes back as it was. -/
theorem hydrated_partialize (state : PersistedTabs) :
    (partialize state).tabs.filterMap hydratedTab = state.tabs := by
  rw [partialize, List.filterMap_map]
  refine (List.filterMap_congr fun e _ => ?_).trans List.filterMap_some
  obtain ⟨id, tab⟩ := e
  simp [hydratedTab, knownTabKind_kindText]

/-- **Every state the store writes can be hydrated**: its layout is all that it takes. -/
theorem Layout.written {state : PersistedTabs} (h : Layout state.tabs state.panes) :
    Written (partialize state) := by
  have hkeys : (partialize state).tabs.keys = state.tabs.keys := by
    rw [partialize, Obj.keys, List.map_map]
    rfl
  refine ⟨hkeys ▸ h.keys_nodup, ?_, hkeys ▸ h.nonempty, fun id => hkeys ▸ h.listed id, h.once,
    h.apart, ?_⟩
  · intro id tab hget
    obtain ⟨⟨key, t⟩, hmem, heq⟩ := List.mem_map.mp (Obj.mem_of_get hget)
    obtain ⟨rfl, rfl⟩ := Prod.mk.inj heq
    exact congrArg some (h.named _ _ (Obj.get_of_mem h.keys_nodup hmem))
  · rw [hydrated_partialize]
    intro e he e' he' heq
    exact h.distinct _ _ _ _ (Obj.get_of_mem h.keys_nodup he) (Obj.get_of_mem h.keys_nodup he') heq

theorem keys_hydrated (stored : Obj StoredTab) :
    (Obj.keys (stored.filterMap hydratedTab)).Sublist stored.keys := by
  induction stored with
  | nil => exact List.Sublist.slnil
  | cons e stored ih =>
      rw [List.filterMap_cons]
      cases h : hydratedTab e with
      | none => exact ih.cons e.1
      | some entry =>
          have hkey : entry.1 = e.1 := by
            obtain ⟨kind, -, rfl⟩ := Option.map_eq_some_iff.mp h
            rfl
          show (entry.1 :: _).Sublist (e.1 :: _)
          rw [hkey]
          exact ih.cons_cons e.1

theorem pickActive_spec {list : List String} {stored : Option String} {result : Option String}
    (h : result = if list = [] then none else
      match stored with
      | some id => if id ≠ "" ∧ id ∈ list then some id else list.getLast?
      | none => list.getLast?) :
    (∀ id, result = some id → id ∈ list) ∧ (result = none ↔ list = []) := by
  subst h
  split
  · rename_i hempty
    exact ⟨fun id hid => absurd hid.symm (Option.some_ne_none id), iff_of_true rfl hempty⟩
  · rename_i hne
    have hlast : list.getLast? ≠ none := fun h => hne (List.getLast?_eq_none_iff.mp h)
    split
    · split
      · rename_i hmem
        exact ⟨fun k hk => Option.some.inj hk ▸ hmem.2,
          iff_of_false (Option.some_ne_none _) hne⟩
      · exact ⟨fun k hk => List.mem_of_getLast? hk, iff_of_false hlast hne⟩
    · exact ⟨fun k hk => List.mem_of_getLast? hk, iff_of_false hlast hne⟩

/-- **A stored state is hydrated into one that meets the invariant**, whatever its active ids. -/
theorem Written.inv_merge {parsed : Stored} (h : Written parsed) :
    Inv (merge parsed).toPersistedTabs := by
  have hsub := keys_hydrated parsed.tabs
  have hfrom {id : String} {tab : TabData}
      (hget : Obj.get (parsed.tabs.filterMap hydratedTab) id = some tab) :
      (id, tab) ∈ parsed.tabs.filterMap hydratedTab := Obj.mem_of_get hget
  refine ⟨⟨hsub.nodup h.keys_nodup, ?_, fun hempty => h.nonempty (hsub.subset hempty), ?_,
    fun pane => (h.once pane).filter _, ?_, ?_⟩,
    ⟨fun pane => (pickActive_spec rfl).1, fun pane => (pickActive_spec rfl).2, ?_⟩⟩
  · intro id tab hget
    obtain ⟨⟨key, stored⟩, hmem, hentry⟩ := List.mem_filterMap.mp (hfrom hget)
    obtain ⟨kind, -, heq⟩ := Option.map_eq_some_iff.mp hentry
    have hkey : key = id := congrArg Prod.fst heq
    have htab := congrArg (fun e => e.2.id) heq
    have hnamed := h.named key stored (Obj.get_of_mem h.keys_nodup hmem)
    rw [← hkey, ← htab]
    simp [hnamed]
  · intro id
    constructor
    · intro hid
      obtain ⟨pane, hpane⟩ := (h.listed id).mp (hsub.subset hid)
      exact ⟨pane, List.mem_filter.mpr ⟨hpane, decide_eq_true hid⟩⟩
    · rintro ⟨pane, hpane⟩
      exact of_decide_eq_true (List.mem_filter.mp hpane).2
  · intro id pane pane' hid hid'
    exact h.apart id pane pane' (List.mem_filter.mp hid).1 (List.mem_filter.mp hid').1
  · intro id id' tab tab' hget hget' heq
    exact h.distinct _ (hfrom hget) _ (hfrom hget') heq
  · intro id hid
    have hkept := (Option.filter_eq_some_iff.mp hid).2
    exact (of_decide_eq_true hkept).2

/-- What is stored of a good state is read back as it was. -/
theorem Inv.merge_partialize {p : PersistedTabs} (h : Inv p) :
    (merge (partialize p)).toPersistedTabs = p := by
  have htabs := hydrated_partialize p
  have hpanes (pane : PaneId) : (p.panes pane).filter (· ∈ p.tabs.keys) = p.panes pane :=
    List.filter_eq_self.mpr fun id hid => decide_eq_true ((h.layout.listed id).mpr ⟨pane, hid⟩)
  have hne {id : String} (hid : id ∈ p.tabs.keys) : id ≠ "" :=
    fun heq => h.layout.nonempty (heq ▸ hid)
  obtain ⟨tabs, panes, active, single, sticky⟩ := p
  simp only [merge, withDerived, htabs, PersistedTabs.mk.injEq, true_and]
  refine ⟨funext hpanes, funext fun pane => ?_, ?_, rfl⟩
  · have hnull : active pane = none ↔ panes pane = [] := h.pointers.null pane
    simp only [partialize, hpanes]
    cases hid : active pane with
    | none => rw [if_pos (hnull.mp hid)]
    | some id =>
        have hmem := h.pointers.member pane id hid
        exact (if_neg (List.ne_nil_of_mem hmem)).trans
          (if_pos ⟨hne ((h.layout.listed id).mpr ⟨pane, hmem⟩), hmem⟩)
  · cases single with
    | none => rfl
    | some id =>
        have hmem := h.pointers.single id rfl
        simp only [partialize]
        rw [Option.filter_some, if_pos (decide_eq_true ⟨hne hmem, hmem⟩)]

/-- Where the store begins: empty, or hydrated from what it has stored. -/
inductive Start : TabStore → Prop
  | initial : Start initialState
  | hydrated {parsed : Stored} (h : Written parsed) : Start (merge parsed)

theorem Start.inv (h : Start s) : Inv s.toPersistedTabs := by
  cases h with
  | initial => exact inv_initialState
  | hydrated h => exact h.inv_merge

/-- **The layout is good in every state of a run of timely steps**, and the next step keeps it so
exactly when it is timely. -/
theorem inv_of_timely_run {s₀ : TabStore} (h₀ : Start s₀) (hrun : Run step Timely s₀ s) :
    Inv s.toPersistedTabs ∧
      ∀ a s', step s a = some s' → (Inv s'.toPersistedTabs ↔ Timely s a) := by
  have hinv : Inv s.toPersistedTabs := by
    refine hrun.invariant (I := fun s => Inv s.toPersistedTabs) ?_ h₀.inv
    intro s a s' h htimely hstep
    exact (step_inv_iff h hstep).mpr htimely
  exact ⟨hinv, fun a s' hstep => step_inv_iff hinv hstep⟩

/-- **A reload loses nothing**: what is stored of any state of a run of timely steps is merged into
that state again. -/
theorem reload_restores {s₀ : TabStore} (h₀ : Start s₀) (hrun : Run step Timely s₀ s) :
    (merge (partialize s.toPersistedTabs)).toPersistedTabs = s.toPersistedTabs :=
  (hrun.invariant (I := fun s => Inv s.toPersistedTabs)
    (fun _ _ _ h htimely hstep => (step_inv_iff h hstep).mpr htimely) h₀.inv).merge_partialize

def aTerminal : TabData := { id := "", kind := .terminal, sessionId := some "s1" }

theorem reload_restores_opened : ∃ s : TabStore, s.tabs.keys = ["t1"] ∧
    (merge (partialize s.toPersistedTabs)).toPersistedTabs = s.toPersistedTabs :=
  ⟨_, rfl, reload_restores .initial
    ((Run.refl _).snoc (a := .openTab aTerminal none "t1") trivial rfl)⟩

/-- A terminal is opened and moved within its own pane. -/
theorem inv_of_timely_run_moved :
    Inv (moveTab (openTab initialState aTerminal none "t1") "t1" .top (some 0)).toPersistedTabs ∧
      ∀ a s', step (moveTab (openTab initialState aTerminal none "t1") "t1" .top (some 0)) a
        = some s' → (Inv s'.toPersistedTabs ↔
          Timely (moveTab (openTab initialState aTerminal none "t1") "t1" .top (some 0)) a) := by
  refine inv_of_timely_run .initial (((Run.refl _).snoc (a := .openTab aTerminal none "t1")
    trivial rfl).snoc (a := .moveTab "t1" .top (some 0)) ?_ rfl)
  intro pane hne hid
  cases pane with
  | top => exact absurd rfl hne
  | bottom => exact absurd hid (by decide)

/-- A terminal is opened and moved to the other pane: the pane it leaves has nothing to list, and
still points at it. -/
theorem moved_tab_stays_active : ¬ ∀ s₀ s : TabStore, Start s₀ → Run step anyStep s₀ s →
    Inv s.toPersistedTabs := by
  intro h
  have hinv := h initialState
    (moveTab (openTab initialState aTerminal none "t1") "t1" .bottom none) .initial
    (((Run.refl _).snoc (a := .openTab aTerminal none "t1") trivial rfl).snoc
      (a := .moveTab "t1" .bottom none) trivial rfl)
  exact absurd (hinv.pointers.member .top "t1" (by decide)) (by decide)

end Sulion.Frontend.Tabs
