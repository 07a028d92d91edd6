import Sulion.Timeline.Items

set_option autoImplicit false

/-! # Rendered blocks of a turn

`groupItems` and `createItemGrouper` of `turnDetailCache.ts`. Consecutive assistant items join
into one block; the grouper keeps the blocks it has made while its list only grows, and groups
again from the block that can still grow.

Items and lists are objects there, compared by reference; here they are references into a heap
that does not change. The key of a block is its offset, or the pair id of a call's row.
-/

namespace Sulion.Frontend

open Sulion.Timeline

structure TimelineItem where
  offset : Int
  chunk : TimelineChunk

/-- A rendered block: joined assistant items, another item, or the row of one tool call. -/
inductive TurnBlock
  | assistant (offset : Int) (items : List TimelineAssistantItem) (thinking : List String)
  | chunk (offset : Int) (chunk : TimelineChunk)
  | tool (pairId : String)

def TurnBlock.key : TurnBlock → String
  | .assistant offset _ _ | .chunk offset _ => "item:" ++ toString offset
  | .tool pairId => "tool:" ++ pairId

def maxAssistantItems : Nat := 64

/-! ## Grouping -/

/-- The block being joined. -/
structure OpenBlock where
  offset : Int
  items : List TimelineAssistantItem
  thinking : List String
  count : Nat

def isText : TimelineAssistantItem → Bool
  | .text _ => true
  | .tool _ => false

def pairIds (items : List TimelineAssistantItem) : List String :=
  items.filterMap fun entry =>
    match entry with
    | .tool pairId => some pairId
    | .text _ => none

/-- `close`: a block with neither text nor thinking is left out. -/
def close : Option OpenBlock → List TurnBlock
  | none => []
  | some o =>
      if o.items.any isText || decide (0 < o.thinking.length) then
        [.assistant o.offset o.items o.thinking]
      else []

/-- The open block with one more assistant item. -/
def join (opened : Option OpenBlock) (offset : Int) (items : List TimelineAssistantItem)
    (thinking : List String) : OpenBlock :=
  let o := opened.getD ⟨offset, [], [], 0⟩
  ⟨o.offset, o.items ++ items, o.thinking ++ thinking, o.count + 1⟩

/-- One turn of the loop of `groupItems`: the blocks it pushes, and the open block after it. -/
def groupItem (opened : Option OpenBlock) (item : TimelineItem) :
    List TurnBlock × Option OpenBlock :=
  match item.chunk with
  | .assistant items thinking =>
      let o := join opened item.offset items thinking
      let calls := pairIds items
      if 0 < calls.length then (close (some o) ++ calls.map .tool, none)
      else if maxAssistantItems ≤ o.count then (close (some o), none)
      else ([], some o)
  | chunk => (close opened ++ [.chunk item.offset chunk], none)

/-- The loop of `groupItems` from an open block on. -/
def groupFrom (opened : Option OpenBlock) : List TimelineItem → List TurnBlock
  | [] => close opened
  | item :: rest => (groupItem opened item).1 ++ groupFrom (groupItem opened item).2 rest

def groupItems (items : List TimelineItem) : List TurnBlock := groupFrom none items

/-! ## The grouper -/

abbrev ItemRef := Nat

abbrev ListRef := Nat

/-- The items and the lists of items that references stand for. -/
structure Heap where
  item : ItemRef → TimelineItem
  list : ListRef → List ItemRef

def Heap.items (h : Heap) (l : ListRef) : List TimelineItem := (h.list l).map h.item

structure Grouper where
  /-- `none` is the empty array it starts with. -/
  previous : Option ListRef
  blocks : List TurnBlock
  tailStart : Nat
  tailBlock : Nat

def createItemGrouper : Grouper := ⟨none, [], 0, 0⟩

/-- The offset of a joined block. -/
def TurnBlock.joinedOffset : TurnBlock → Option Int
  | .assistant offset _ _ => some offset
  | _ => none

/-- Where the items of the trailing block start, unless it is full. -/
def tailStartOf (blocks : List TurnBlock) (items : List TimelineItem) : Nat :=
  match blocks.getLast?.bind TurnBlock.joinedOffset with
  | none => items.length
  | some offset =>
      let start := items.length - (items.reverse.takeWhile fun i => offset ≤ i.offset).length
      if maxAssistantItems ≤ items.length - start then items.length else start

/-- The number of blocks that are closed. -/
def tailBlockOf (blocks : List TurnBlock) (items : List TimelineItem) : Nat :=
  if tailStartOf blocks items < items.length ∧
      (blocks.getLast?.bind TurnBlock.joinedOffset).isSome then blocks.length - 1
  else blocks.length

/-- The items of the previous list. -/
def Grouper.refs (h : Heap) (g : Grouper) : List ItemRef := (g.previous.map h.list).getD []

/-- One call of the grouper. -/
def Grouper.call (h : Heap) (g : Grouper) (l : ListRef) : Grouper :=
  if g.previous = some l then g
  else
    let append := (g.refs h).isPrefixOf (h.list l)
    if append ∧ (h.list l).length = (g.refs h).length then g
    else
      let items := h.items l
      let blocks :=
        if append then g.blocks.take g.tailBlock ++ groupItems (items.drop g.tailStart)
        else groupItems items
      { previous := some l, blocks := blocks, tailStart := tailStartOf blocks items,
        tailBlock := tailBlockOf blocks items }

/-- The grouper after its calls. -/
def Grouper.calls (h : Heap) (ls : List ListRef) : Grouper :=
  ls.foldl (Grouper.call h) createItemGrouper

/-! ## Resuming a grouping -/

/-- The blocks pushed for the items. -/
def pushed (opened : Option OpenBlock) : List TimelineItem → List TurnBlock
  | [] => []
  | item :: rest => (groupItem opened item).1 ++ pushed (groupItem opened item).2 rest

/-- The open block after the items. -/
def openAfter (opened : Option OpenBlock) (items : List TimelineItem) : Option OpenBlock :=
  items.foldl (fun o item => (groupItem o item).2) opened

section Resume

variable {opened : Option OpenBlock} {items more : List TimelineItem} {x : TimelineItem}

theorem groupFrom_append (opened : Option OpenBlock) (items more : List TimelineItem) :
    groupFrom opened (items ++ more) =
      pushed opened items ++ groupFrom (openAfter opened items) more := by
  induction items generalizing opened with
  | nil => rfl
  | cons item items ih =>
      rw [List.cons_append, groupFrom, ih, pushed, List.append_assoc]
      rfl

theorem groupItems_eq (items : List TimelineItem) :
    groupItems items = pushed none items ++ close (openAfter none items) := by
  have happend := groupFrom_append none items []
  rwa [List.append_nil] at happend

theorem openAfter_append (opened : Option OpenBlock) (items more : List TimelineItem) :
    openAfter opened (items ++ more) = openAfter (openAfter opened items) more :=
  List.foldl_append ..

theorem pushed_append (opened : Option OpenBlock) (items more : List TimelineItem) :
    pushed opened (items ++ more) =
      pushed opened items ++ pushed (openAfter opened items) more := by
  induction items generalizing opened with
  | nil => rfl
  | cons item items ih =>
      rw [List.cons_append, pushed, ih, pushed, List.append_assoc]
      rfl

/-- Where no block is open the grouping starts afresh. -/
theorem groupItems_append (h : openAfter none items = none) (more : List TimelineItem) :
    groupItems (items ++ more) = groupItems items ++ groupItems more := by
  rw [groupItems, groupFrom_append, h, groupItems_eq items, h, close, List.append_nil]
  rfl

end Resume

/-! ## Where a list ends -/

/-- An item that is an assistant's says something or makes a call. -/
def Shown (item : TimelineItem) : Prop :=
  ∀ items thinking, item.chunk = .assistant items thinking → items ≠ [] ∨ thinking ≠ []

/-- The items since the one at `offset`, which starts `tail`. -/
structure Since (items front tail : List TimelineItem) (offset : Int) : Prop where
  split : items = front ++ tail
  start : tail.head?.map TimelineItem.offset = some offset

/-- How a list ends: with its last joined block full, or with a block that can still grow. -/
inductive Ending (items : List TimelineItem) : Prop
  | closed (hopen : openAfter none items = none)
      (hfull : ∀ offset, (groupItems items).getLast?.bind TurnBlock.joinedOffset = some offset →
        ∃ front tail, Since items front tail offset ∧ maxAssistantItems ≤ tail.length)
  | growing (o : OpenBlock) (front tail : List TimelineItem)
      (hopen : openAfter none items = some o) (hfront : openAfter none front = none)
      (hsince : Since items front tail o.offset) (hcount : tail.length = o.count)
      (hsmall : o.count < maxAssistantItems)
      (hkept : close (some o) = [.assistant o.offset o.items o.thinking])
      (hnothing : pushed none tail = [])

section Ends

variable {items : List TimelineItem} {x : TimelineItem}

theorem Since.concat {front tail : List TimelineItem} {offset : Int}
    (h : Since items front tail offset) (x : TimelineItem) :
    Since (items ++ [x]) front (tail ++ [x]) offset := by
  refine ⟨?_, ?_⟩
  · rw [h.split, List.append_assoc]
  · obtain ⟨-, hstart⟩ := h
    cases tail with
    | nil => cases hstart
    | cons y tail => exact hstart

/-- Without calls a shown item makes its block one that is kept. -/
theorem close_join (opened : Option OpenBlock) (offset : Int) {entries : List TimelineAssistantItem}
    {thinking : List String} (hshown : entries ≠ [] ∨ thinking ≠ [])
    (hcalls : pairIds entries = []) :
    close (some (join opened offset entries thinking)) =
      [.assistant (join opened offset entries thinking).offset
        (join opened offset entries thinking).items
        (join opened offset entries thinking).thinking] := by
  rw [close, if_pos]
  rw [Bool.or_eq_true, decide_eq_true_iff]
  rcases hshown with hitems | hthinking
  · left
    cases entries with
    | nil => exact absurd rfl hitems
    | cons entry entries =>
        cases entry with
        | text text => simp [join, isText]
        | tool pairId => cases hcalls
  · right
    simp only [join, List.length_append]
    have := List.length_pos_iff.mpr hthinking
    omega

theorem groupItems_concat (items : List TimelineItem) (x : TimelineItem) :
    groupItems (items ++ [x]) = pushed none items ++
      ((groupItem (openAfter none items) x).1 ++ close (groupItem (openAfter none items) x).2) :=
  groupFrom_append none items [x]

theorem openAfter_concat (items : List TimelineItem) (x : TimelineItem) :
    openAfter none (items ++ [x]) = (groupItem (openAfter none items) x).2 :=
  openAfter_append none items [x]

/-- A list that ends with a row that is not joined. -/
theorem Ending.of_last (block : TurnBlock) (hopen : openAfter none items = none)
    (hlast : (groupItems items).getLast? = some block) (hblock : block.joinedOffset = none) :
    Ending items := by
  refine .closed hopen fun offset hoffset => ?_
  rw [hlast, Option.bind_some, hblock] at hoffset
  cases hoffset

/-- An item that is not an assistant's closes the open block. -/
theorem groupItem_other (opened : Option OpenBlock)
    (hx : ¬ ∃ entries thinking, x.chunk = .assistant entries thinking) :
    groupItem opened x = (close opened ++ [.chunk x.offset x.chunk], none) := by
  unfold groupItem
  split
  · rename_i entries thinking hchunk
    exact absurd ⟨entries, thinking, hchunk⟩ hx
  · rfl

theorem groupItem_assistant (opened : Option OpenBlock) {entries : List TimelineAssistantItem}
    {thinking : List String} (hx : x.chunk = .assistant entries thinking) :
    groupItem opened x =
      if 0 < (pairIds entries).length then
        (close (some (join opened x.offset entries thinking)) ++ (pairIds entries).map .tool, none)
      else if maxAssistantItems ≤ (join opened x.offset entries thinking).count then
        (close (some (join opened x.offset entries thinking)), none)
      else ([], some (join opened x.offset entries thinking)) := by
  unfold groupItem
  rw [hx]

/-- The block that an assistant item joins, and the items of that block. -/
theorem Ending.joined (h : Ending items) (entries : List TimelineAssistantItem)
    (thinking : List String) (hx : x.chunk = .assistant entries thinking) :
    ∃ front tail, openAfter none front = none ∧
      Since (items ++ [x]) front (tail ++ [x])
        (join (openAfter none items) x.offset entries thinking).offset ∧
      (tail ++ [x]).length = (join (openAfter none items) x.offset entries thinking).count ∧
      openAfter none items = openAfter none tail ∧ pushed none tail = [] := by
  cases h with
  | closed hopen hfull =>
      refine ⟨items, [], hopen, ⟨rfl, ?_⟩, ?_, hopen, rfl⟩
      · rw [hopen]
        rfl
      · rw [hopen]
        rfl
  | growing o front tail hopen hfront hsince hcount hsmall hkept hnothing =>
      refine ⟨front, tail, hfront, ?_, ?_, ?_, hnothing⟩
      · rw [hopen]
        exact hsince.concat x
      · rw [hopen, List.length_append, hcount]
        rfl
      · rw [hsince.split, openAfter_append, hfront]

/-- **Every list of shown items has an ending.** -/
theorem ending (items : List TimelineItem) (hshown : ∀ item ∈ items, Shown item) :
    Ending items := by
  induction items using List.reverseRecOn with
  | nil => exact .closed rfl nofun
  | append_singleton items x ih =>
      have h := ih fun item hitem => hshown item (List.mem_append_left _ hitem)
      have hx := hshown x (List.mem_append_right _ (List.mem_singleton_self x))
      have hopen' := openAfter_concat items x
      have hblocks := groupItems_concat items x
      by_cases hassistant : ∃ entries thinking, x.chunk = .assistant entries thinking
      · obtain ⟨entries, thinking, hchunk⟩ := hassistant
        have hgroup := groupItem_assistant (openAfter none items) hchunk
        obtain ⟨front, tail, hfront, hsince, hcount, htail, hnothing⟩ :=
          h.joined entries thinking hchunk
        by_cases hcalls : 0 < (pairIds entries).length
        · rw [if_pos hcalls] at hgroup
          rw [hgroup] at hopen' hblocks
          obtain ⟨calls, last, hlast⟩ : ∃ calls last, pairIds entries = calls ++ [last] :=
            ⟨_, _, (List.dropLast_append_getLast (List.ne_nil_of_length_pos hcalls)).symm⟩
          refine .of_last (.tool last) hopen' ?_ rfl
          rw [hblocks, close, List.append_nil, hlast, List.map_append, List.map_singleton,
            ← List.append_assoc, ← List.append_assoc, List.getLast?_concat]
        · have hnone : pairIds entries = [] := by
            rw [← List.length_eq_zero_iff]
            omega
          have hkept := close_join (openAfter none items) x.offset
            (hx entries thinking hchunk) hnone
          rw [if_neg hcalls] at hgroup
          by_cases hfull : maxAssistantItems ≤
              (join (openAfter none items) x.offset entries thinking).count
          · rw [if_pos hfull] at hgroup
            rw [hgroup] at hopen' hblocks
            refine .closed hopen' fun offset hoffset => ⟨front, tail ++ [x], ?_, hcount ▸ hfull⟩
            rw [hblocks, hkept, close, List.append_nil, List.getLast?_concat, Option.bind_some,
              TurnBlock.joinedOffset, Option.some.injEq] at hoffset
            exact hoffset ▸ hsince
          · rw [if_neg hfull] at hgroup
            rw [hgroup] at hopen'
            refine .growing _ front (tail ++ [x]) hopen' hfront hsince hcount (not_le.mp hfull)
              hkept ?_
            rw [pushed_append, hnothing, ← htail, pushed, hgroup]
            rfl
      · have hgroup := groupItem_other (openAfter none items) hassistant
        rw [hgroup] at hopen' hblocks
        refine .of_last (.chunk x.offset x.chunk) hopen' ?_ rfl
        rw [hblocks, close, List.append_nil, ← List.append_assoc, List.getLast?_concat]

end Ends

/-! ## The grouper agrees -/

def Increasing (items : List TimelineItem) : Prop := items.Pairwise fun a b => a.offset < b.offset

section Agree

variable {items more front tail : List TimelineItem} {offset : Int}

/-- The items from the offset on are the tail. -/
theorem Since.takeWhile (h : Since items front tail offset) (hinc : Increasing items) :
    items.reverse.takeWhile (fun i => decide (offset ≤ i.offset)) = tail.reverse := by
  obtain ⟨rfl, hstart⟩ := h
  obtain ⟨first, rest, rfl⟩ : ∃ first rest, tail = first :: rest := by
    cases tail with
    | nil => cases hstart
    | cons first rest => exact ⟨first, rest, rfl⟩
  obtain rfl : first.offset = offset := Option.some.inj hstart
  obtain ⟨-, hrest, hcross⟩ := List.pairwise_append.mp hinc
  rw [List.reverse_append, List.takeWhile_append_of_pos]
  · have hnone : front.reverse.takeWhile (fun i => decide (first.offset ≤ i.offset)) = [] := by
      cases hlast : front.reverse with
      | nil => rfl
      | cons last before =>
          have hmem : last ∈ front := List.mem_reverse.mp (hlast ▸ List.mem_cons_self)
          have hlt := hcross last hmem first List.mem_cons_self
          rw [List.takeWhile_cons_of_neg (by simpa using hlt)]
    rw [hnone, List.append_nil]
  · intro i hi
    rw [decide_eq_true_iff]
    rcases List.mem_cons.mp (List.mem_reverse.mp hi) with rfl | hi
    · exact le_rfl
    · exact ((List.pairwise_cons.mp hrest).1 i hi).le

/-- The tail starts at the block that can still grow, and is empty where there is none. -/
theorem tail_of_ending (hinc : Increasing items) (h : Ending items) :
    (openAfter none items = none ∧ tailStartOf (groupItems items) items = items.length) ∨
    ∃ (o : OpenBlock) (front tail : List TimelineItem), items = front ++ tail ∧
      openAfter none front = none ∧ tailStartOf (groupItems items) items = front.length ∧
        0 < tail.length ∧
      groupItems items = pushed none front ++ [.assistant o.offset o.items o.thinking] := by
  cases h with
  | closed hopen hfull =>
      refine .inl ⟨hopen, ?_⟩
      unfold tailStartOf
      split
      · rfl
      · rename_i offset hoffset
        obtain ⟨front, tail, hsince, hlength⟩ := hfull offset hoffset
        rw [hsince.takeWhile hinc, List.length_reverse]
        have hle : tail.length ≤ items.length := by
          rw [hsince.split, List.length_append]
          omega
        rw [if_pos]
        omega
  | growing o front tail hopen hfront hsince hcount hsmall hkept hnothing =>
      have hblocks : groupItems items =
          pushed none front ++ [.assistant o.offset o.items o.thinking] := by
        rw [groupItems_eq, hopen, hkept, hsince.split, pushed_append, hfront, hnothing,
          List.append_nil]
      have hlength : items.length = front.length + tail.length := by
        rw [hsince.split, List.length_append]
      have hpos : 0 < tail.length := by
        obtain ⟨-, hstart⟩ := hsince
        cases tail with
        | nil => cases hstart
        | cons first rest => exact Nat.succ_pos _
      refine .inr ⟨o, front, tail, hsince.split, hfront, ?_, hpos, hblocks⟩
      unfold tailStartOf
      rw [hblocks, List.getLast?_concat, Option.bind_some]
      simp only [TurnBlock.joinedOffset]
      rw [hsince.takeWhile hinc, List.length_reverse, if_neg]
      · omega
      · omega

/-- **A grouping resumed at its tail is a grouping of the longer list.** -/
theorem groupItems_resume (hinc : Increasing items) (hshown : ∀ item ∈ items, Shown item)
    (more : List TimelineItem) :
    (groupItems items).take (tailBlockOf (groupItems items) items) ++
      groupItems ((items ++ more).drop (tailStartOf (groupItems items) items)) =
    groupItems (items ++ more) := by
  rcases tail_of_ending hinc (ending items hshown) with
    ⟨hopen, hstart⟩ | ⟨o, front, tail, hsplit, hfront, hstart, hpos, hblocks⟩
  · rw [tailBlockOf, hstart, if_neg (fun hand => absurd hand.1 (lt_irrefl _)), List.take_length,
      List.drop_left, groupItems_append hopen]
  · have hfrontBlocks : groupItems front = pushed none front := by
      rw [groupItems_eq, hfront, close, List.append_nil]
    have hlt : front.length < items.length := by
      rw [hsplit, List.length_append]
      omega
    have hjoined : ((groupItems items).getLast?.bind TurnBlock.joinedOffset).isSome := by
      rw [hblocks, List.getLast?_concat]
      rfl
    have hclosed : (groupItems items).take ((groupItems items).length - 1) = pushed none front := by
      rw [hblocks, List.length_append, List.length_singleton, Nat.add_sub_cancel, List.take_left]
    rw [tailBlockOf, hstart, if_pos ⟨hlt, hjoined⟩, hclosed, hsplit, List.append_assoc,
      List.drop_left, groupItems_append hfront, hfrontBlocks]

end Agree

/-- The grouper after a call: the blocks of its previous list, and that list's tail. -/
structure Grouper.Grouped (h : Heap) (g : Grouper) : Prop where
  increasing : Increasing ((g.refs h).map h.item)
  shown : ∀ item ∈ (g.refs h).map h.item, Shown item
  blocks : g.blocks = groupItems ((g.refs h).map h.item)
  tailStart : g.tailStart = tailStartOf g.blocks ((g.refs h).map h.item)
  tailBlock : g.tailBlock = tailBlockOf g.blocks ((g.refs h).map h.item)

section Calls

variable {h : Heap} {g : Grouper} {l : ListRef}

theorem Grouper.Grouped.new (h : Heap) : Grouper.Grouped h createItemGrouper :=
  ⟨List.Pairwise.nil, nofun, rfl, rfl, rfl⟩

/-- One call keeps the grouper in step, and returns the blocks of the list it was given. -/
theorem Grouper.Grouped.call (hg : g.Grouped h) (hinc : Increasing (h.items l))
    (hshown : ∀ item ∈ h.items l, Shown item) :
    (g.call h l).Grouped h ∧ (g.call h l).blocks = groupItems (h.items l) := by
  unfold Grouper.call
  split
  · rename_i hsame
    refine ⟨hg, ?_⟩
    rw [hg.blocks, Grouper.refs, hsame]
    rfl
  · by_cases happend : (g.refs h).isPrefixOf (h.list l) = true
    · obtain ⟨more, hmore⟩ := List.isPrefixOf_iff_prefix.mp happend
      have hitems : h.items l = (g.refs h).map h.item ++ more.map h.item := by
        rw [Heap.items, ← hmore, List.map_append]
      dsimp only
      split
      · rename_i hlength
        have hnil : more = [] := by
          rw [← List.length_eq_zero_iff]
          have hsum := congrArg List.length hmore
          rw [List.length_append] at hsum
          omega
        refine ⟨hg, ?_⟩
        rw [hg.blocks, hitems, hnil, List.map_nil, List.append_nil]
      · have hblocks : g.blocks.take g.tailBlock ++ groupItems ((h.items l).drop g.tailStart) =
            groupItems (h.items l) := by
          rw [hg.tailBlock, hg.tailStart, hg.blocks, hitems]
          exact groupItems_resume hg.increasing hg.shown _
        rw [hblocks]
        exact ⟨⟨hinc, hshown, rfl, rfl, rfl⟩, rfl⟩
    · dsimp only
      rw [if_neg fun hand => happend hand.1, if_neg happend]
      exact ⟨⟨hinc, hshown, rfl, rfl, rfl⟩, rfl⟩

theorem Grouper.Grouped.calls {ls : List ListRef} (hinc : ∀ l ∈ ls, Increasing (h.items l))
    (hshown : ∀ l ∈ ls, ∀ item ∈ h.items l, Shown item) : (Grouper.calls h ls).Grouped h := by
  induction ls using List.reverseRecOn with
  | nil => exact .new h
  | append_singleton ls l ih =>
      have hbefore := ih (fun l hl => hinc l (List.mem_append_left _ hl)) fun l hl =>
        hshown l (List.mem_append_left _ hl)
      have hl : l ∈ ls ++ [l] := List.mem_append_right _ (List.mem_singleton_self l)
      rw [Grouper.calls, List.foldl_append]
      exact (hbefore.call (hinc l hl) (hshown l hl)).1

end Calls

/-! ## What is handed to the grouper -/

structure TimelineFilters where
  hiddenSpeakers : List String
  hiddenOperationCategories : List String
  showBookkeeping : Bool

/-- Whether an entry shows; `category` looks up the pairs of the turn and their categories. -/
def entryShows (filters : TimelineFilters) (category : String → Option (Option String)) :
    TimelineAssistantItem → Bool
  | .text _ => true
  | .tool pairId =>
      match category pairId with
      | none => false
      | some category => category.all fun name => !filters.hiddenOperationCategories.contains name

/-- `filterTurn`, on one item. -/
def filterItem (filters : TimelineFilters) (category : String → Option (Option String))
    (item : TimelineItem) : Option TimelineItem :=
  match item.chunk with
  | .assistant entries thinking =>
      if filters.hiddenSpeakers.contains "assistant" then none
      else
        let visible := entries.filter (entryShows filters category)
        if visible.isEmpty && thinking.isEmpty then none
        else if visible.length = entries.length then some item
        else some { item with chunk := .assistant visible thinking }
  | .system _ _ isMeta | .generic _ _ isMeta =>
      if !filters.showBookkeeping && isMeta then none else some item
  | _ => some item

section Handed

variable {filters : TimelineFilters} {category : String → Option (Option String)}
  {item item' : TimelineItem}

theorem filterItem_offset (h : filterItem filters category item = some item') :
    item'.offset = item.offset := by
  unfold filterItem at h
  split at h
  · split at h
    · cases h
    · dsimp only at h
      split at h
      · cases h
      · split at h <;> cases h <;> rfl
  all_goals first
    | (split at h <;> cases h <;> rfl)
    | (cases h; rfl)

/-- A filtered turn has no assistant items with nothing left. -/
theorem filterItem_shown (hshown : Shown item) (h : filterItem filters category item = some item') :
    Shown item' := by
  unfold filterItem at h
  split at h
  · rename_i entries thinking hchunk
    split at h
    · cases h
    · dsimp only at h
      split at h
      · cases h
      · rename_i hsome
        split at h
        · cases h
          exact hshown
        · cases h
          intro entries' thinking' heq
          cases heq
          by_contra hnone
          rw [not_or, not_not, not_not] at hnone
          exact hsome (by rw [hnone.1, hnone.2]; rfl)
  all_goals first
    | (split at h <;> cases h <;> exact hshown)
    | (cases h; exact hshown)

theorem projectAgentMessage_ne_assistant {event : StoredEvent} {chunk : TimelineChunk}
    (h : projectAgentMessage event = some chunk) (entries : List TimelineAssistantItem)
    (thinking : List String) : chunk ≠ .assistant entries thinking := by
  rintro rfl
  unfold projectAgentMessage at h
  simp only [Option.bind_eq_bind, Option.bind_eq_some_iff] at h
  obtain ⟨_, _, _, _, _, _, _, _, h⟩ := h
  split at h <;> cases h

/-- An assistant event has no item unless it says something or makes a call. -/
theorem shown_of_visibleItem {event : StoredEvent} {chunk : TimelineChunk} (offset : Int)
    (h : visibleItem event = some chunk) : Shown ⟨offset, chunk⟩ := by
  intro entries thinking hchunk
  obtain rfl : chunk = .assistant entries thinking := hchunk
  unfold visibleItem at h
  split at h
  · cases h
  · split at h
    · dsimp only at h
      split at h
      · cases h
      · rename_i hsome
        cases h
        by_contra hnone
        rw [not_or, not_not, not_not] at hnone
        exact hsome (by rw [hnone.1, hnone.2]; rfl)
    · split at h
      · rename_i message hmessage
        cases h
        exact absurd rfl (projectAgentMessage_ne_assistant hmessage entries thinking)
      · dsimp only at h
        split at h
        · cases h
        · split at h <;> cases h

end Handed

/-- **The grouper agrees with `groupItems`** on every list it is given, whatever the lists before
were, when no assistant item is without content. The server stores no such item, and filtering
leaves none. -/
theorem grouper_agrees (h : Heap) :
    (∀ ls l, (∀ l' ∈ ls ++ [l], Increasing (h.items l') ∧ ∀ item ∈ h.items l', Shown item) →
      (Grouper.calls h (ls ++ [l])).blocks = groupItems (h.items l)) ∧
    (∀ event chunk offset, visibleItem event = some chunk → Shown ⟨offset, chunk⟩) ∧
    ∀ filters category items, Increasing items → (∀ item ∈ items, Shown item) →
      Increasing (items.filterMap (filterItem filters category)) ∧
      ∀ item ∈ items.filterMap (filterItem filters category), Shown item := by
  refine ⟨fun ls l hlists => ?_, fun event chunk offset hitem => shown_of_visibleItem offset hitem,
    fun filters category items hinc hshown => ⟨?_, fun item hitem => ?_⟩⟩
  · have hbefore : (Grouper.calls h ls).Grouped h :=
      .calls (fun l' hl' => (hlists l' (List.mem_append_left _ hl')).1) fun l' hl' =>
        (hlists l' (List.mem_append_left _ hl')).2
    obtain ⟨hinc, hshown⟩ := hlists l (List.mem_append_right _ (List.mem_singleton_self l))
    rw [Grouper.calls, List.foldl_append]
    exact (hbefore.call hinc hshown).2
  · refine List.Pairwise.filterMap _ (fun a b hab a' ha' b' hb' => ?_) hinc
    rw [filterItem_offset ha', filterItem_offset hb']
    exact hab
  · obtain ⟨before, hbefore, hfilter⟩ := List.mem_filterMap.mp hitem
    exact filterItem_shown (hshown before hbefore) hfilter

/-- An assistant item, with or without text. -/
def sampleItem (offset : Int) (entries : List TimelineAssistantItem) : TimelineItem :=
  ⟨offset, .assistant entries []⟩

/-- List `n` has the first items, up to item `n`. -/
def sampleHeap (first : List TimelineAssistantItem) : Heap :=
  ⟨fun r => sampleItem r (if r = 0 then first else [.text "x"]), fun l => List.range (l + 1)⟩

/-- A list grows behind text, and its blocks are those of the whole list. -/
theorem grouper_agrees_text :
    (Grouper.calls (sampleHeap [.text "a"]) [0, 1]).blocks =
      groupItems ((sampleHeap [.text "a"]).items 1) := by
  refine (grouper_agrees (sampleHeap [.text "a"])).1 [0] 1 fun l hl => ⟨?_, fun item hitem => ?_⟩
  · refine List.Pairwise.map _ (fun a b hab => ?_) List.pairwise_lt_range
    exact Int.ofNat_lt.mpr hab
  · obtain ⟨r, -, rfl⟩ := List.mem_map.mp hitem
    intro entries thinking hchunk
    by_cases hr : r = 0 <;> simp [sampleHeap, sampleItem, hr] at hchunk <;> simp [← hchunk.1]

/-- An assistant item without content is joined by the whole list's grouping only. -/
theorem grouper_empty_item : ¬ ∀ (h : Heap) ls l, (∀ l' ∈ ls ++ [l], Increasing (h.items l')) →
    (Grouper.calls h (ls ++ [l])).blocks = groupItems (h.items l) := by
  intro hall
  have hinc : ∀ l' ∈ [0] ++ [1], Increasing ((sampleHeap []).items l') := fun l' _ =>
    List.Pairwise.map _ (fun a b hab => Int.ofNat_lt.mpr hab) List.pairwise_lt_range
  have heq := congrArg (List.map TurnBlock.key) (hall (sampleHeap []) [0] 1 hinc)
  exact absurd heq (by decide)

end Sulion.Frontend
