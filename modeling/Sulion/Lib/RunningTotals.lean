import Mathlib.Tactic

set_option autoImplicit false

/-! # Shares of a running total

A running total is read from time to time, each time for one of several holders, and may be read
lower than before. What the readings gain in all is the sum of their rises. A holder that is opened
on the way has a window: the readings from there up to its own last one. Its share is what the
total has risen over the window, from end to end.

Over a window the share is the rises less what falls take back (`share_eq`), and a rise counts once
for every window that covers it (`sum_gains_windows`). So the shares add up to what the readings
gain exactly when what is counted more than once equals what falls take back
(`sum_share_eq_gains_iff`). Where each reading is made for the holder opened last, windows do not
overlap and nothing is counted twice (`doubled_of_lastOpened`).
-/

namespace Sulion.RunningTotals

/-- A holder is opened, or the total is read for it. -/
inductive Mark (α β : Type*)
  | opened (a : α)
  | read (a : α) (value : β)

namespace Mark

variable {α β γ : Type*}

def map (f : β → γ) : Mark α β → Mark α γ
  | opened a => opened a
  | read a value => read a (f value)

variable [DecidableEq α]

def isReadOf (a : α) : Mark α β → Bool
  | opened _ => false
  | read b _ => decide (b = a)

end Mark

variable {α : Type*}

/-! ## Rises and falls -/

def rise (before after : Int) : Int := max (after - before) 0

def fall (before after : Int) : Int := max (before - after) 0

/-- The total that some marks leave. -/
def total (before : Int) : List (Mark α Int) → Int
  | [] => before
  | .opened _ :: marks => total before marks
  | .read _ value :: marks => total value marks

/-- The sum of the rises. -/
def gains (before : Int) : List (Mark α Int) → Int
  | [] => 0
  | .opened _ :: marks => gains before marks
  | .read _ value :: marks => rise before value + gains value marks

/-- The sum of the falls. -/
def losses (before : Int) : List (Mark α Int) → Int
  | [] => 0
  | .opened _ :: marks => losses before marks
  | .read _ value :: marks => fall before value + losses value marks

variable {a b : α} {before value : Int} {mark : Mark α Int} {marks marks' : List (Mark α Int)}

theorem gains_nonneg (before : Int) (marks : List (Mark α Int)) : 0 ≤ gains before marks := by
  induction marks generalizing before with
  | nil => exact le_rfl
  | cons mark marks ih =>
      cases mark with
      | opened a => exact ih before
      | read a value => exact add_nonneg (le_max_right _ _) (ih value)

theorem losses_nonneg (before : Int) (marks : List (Mark α Int)) : 0 ≤ losses before marks := by
  induction marks generalizing before with
  | nil => exact le_rfl
  | cons mark marks ih =>
      cases mark with
      | opened a => exact ih before
      | read a value => exact add_nonneg (le_max_right _ _) (ih value)

/-- The steps of the total telescope. -/
theorem total_sub (before : Int) (marks : List (Mark α Int)) :
    total before marks - before = gains before marks - losses before marks := by
  induction marks generalizing before with
  | nil => exact sub_self before
  | cons mark marks ih =>
      cases mark with
      | opened a => exact ih before
      | read a value =>
          have hrest := ih value
          show total value marks - before =
            rise before value + gains value marks - (fall before value + losses value marks)
          unfold rise fall
          omega

/-- From end to end, the rises less what the falls take back. -/
theorem rise_total (before : Int) (marks : List (Mark α Int)) :
    rise before (total before marks) =
      gains before marks - min (gains before marks) (losses before marks) := by
  have hsub := total_sub before marks
  have hgains := gains_nonneg before marks
  unfold rise
  omega

theorem total_append (before : Int) (marks marks' : List (Mark α Int)) :
    total before (marks ++ marks') = total (total before marks) marks' := by
  induction marks generalizing before with
  | nil => rfl
  | cons mark marks ih =>
      cases mark with
      | opened a => exact ih before
      | read a value => exact ih value

/-! ## Windows -/

variable [DecidableEq α]

/-- The total is read for the holder. -/
def reads (a : α) (marks : List (Mark α Int)) : Bool := marks.any (Mark.isReadOf a)

/-- The marks up to the last reading for the holder. -/
def upto (a : α) : List (Mark α Int) → List (Mark α Int)
  | [] => []
  | mark :: marks => if reads a (mark :: marks) then mark :: upto a marks else []

/-- The total at which the holder is opened, and the marks from there up to its last reading. -/
def window (a : α) (before : Int) : List (Mark α Int) → Option (Int × List (Mark α Int))
  | [] => none
  | .opened b :: marks => if b = a then some (before, upto a marks) else window a before marks
  | .read _ value :: marks => window a value marks

/-- The total at the end of the window of a holder, less the total at its start. -/
def net (a : α) (marks : List (Mark α Int)) : Int :=
  (window a 0 marks).elim 0 fun w => total w.1 w.2 - w.1

/-- What the total has risen over the window of a holder, from end to end. -/
def share (a : α) (marks : List (Mark α Int)) : Int := max (net a marks) 0

/-- The holders in the order in which they are opened. -/
def holders : List (Mark α Int) → List α
  | [] => []
  | .opened a :: marks => a :: holders marks
  | .read _ _ :: marks => holders marks

/-- The rises over the window of a holder. -/
def gained (a : α) (marks : List (Mark α Int)) : Int :=
  (window a 0 marks).elim 0 fun w => gains w.1 w.2

/-- The falls over the window of a holder. -/
def lost (a : α) (marks : List (Mark α Int)) : Int :=
  (window a 0 marks).elim 0 fun w => losses w.1 w.2

theorem share_eq (a : α) (marks : List (Mark α Int)) :
    share a marks = gained a marks - min (gained a marks) (lost a marks) := by
  unfold share net gained lost
  cases window a 0 marks with
  | none => rfl
  | some w => exact rise_total w.1 w.2

theorem upto_of_not_reads (h : reads a marks = false) : upto a marks = [] := by
  cases marks with
  | nil => rfl
  | cons mark marks => rw [upto, if_neg (by rw [h]; exact Bool.false_ne_true)]

theorem upto_opened : gains before (upto a (.opened b :: marks)) = gains before (upto a marks) := by
  have hsame : reads a (.opened b :: marks) = reads a marks := rfl
  by_cases hreads : reads a marks = true
  · rw [upto, hsame, if_pos hreads]
    rfl
  · rw [upto, hsame, if_neg hreads, upto_of_not_reads (by simpa using hreads)]

theorem upto_read : gains before (upto a (.read b value :: marks)) =
    rise before value * (if reads a (.read b value :: marks) then 1 else 0) +
      gains value (upto a marks) := by
  by_cases hreads : reads a (.read b value :: marks) = true
  · rw [upto, if_pos hreads, if_pos hreads, mul_one]
    rfl
  · have hrest : reads a marks = false := by
      have hnone : reads a (.read b value :: marks) = false := by simpa using hreads
      exact (Bool.or_eq_false_iff.mp hnone).2
    rw [upto, if_neg hreads, if_neg hreads, mul_zero, zero_add, upto_of_not_reads hrest]
    rfl

/-! ## One more mark -/

theorem reads_append (marks marks' : List (Mark α Int)) :
    reads a (marks ++ marks') = (reads a marks || reads a marks') := List.any_append

/-- A mark that reads nothing for the holder is no part of its window. -/
theorem upto_snoc_of_not_read (h : mark.isReadOf a = false) :
    upto a (marks ++ [mark]) = upto a marks := by
  have hnone : reads a [mark] = false := by
    show (mark.isReadOf a || false) = false
    rw [h, Bool.or_false]
  induction marks with
  | nil =>
      rw [List.nil_append]
      exact upto_of_not_reads hnone
  | cons first marks ih =>
      have hsame : reads a (first :: (marks ++ [mark])) = reads a (first :: marks) := by
        rw [← List.cons_append, reads_append, hnone, Bool.or_false]
      rw [List.cons_append, upto, upto, hsame, ih]

/-- A reading for the holder extends its window up to it. -/
theorem upto_snoc_read : upto a (marks ++ [.read a value]) = marks ++ [.read a value] := by
  have hlast : reads a [.read a value] = true := by
    show (decide (a = a) || false) = true
    simp
  induction marks with
  | nil =>
      rw [List.nil_append, upto, if_pos hlast]
      rfl
  | cons first marks ih =>
      have hreads : reads a (first :: (marks ++ [.read a value])) = true := by
        rw [← List.cons_append, reads_append, hlast, Bool.or_true]
      rw [List.cons_append, upto, if_pos hreads, ih]

theorem window_snoc_of_not_read (h : mark.isReadOf a = false) (hne : mark ≠ .opened a) :
    window a before (marks ++ [mark]) = window a before marks := by
  induction marks generalizing before with
  | nil =>
      cases mark with
      | opened b =>
          have hb : b ≠ a := fun heq => hne (by rw [heq])
          show (if b = a then some (before, upto a []) else none) = none
          rw [if_neg hb]
      | read b value => rfl
  | cons first marks ih =>
      cases first with
      | opened b =>
          show (if b = a then some (before, upto a (marks ++ [mark])) else
              window a before (marks ++ [mark])) =
            if b = a then some (before, upto a marks) else window a before marks
          rw [upto_snoc_of_not_read h, ih]
      | read b value => exact ih

/-- A holder that is opened now has an empty window. -/
theorem window_snoc_opened (h : a ∉ holders marks) :
    window a before (marks ++ [.opened a]) = some (total before marks, []) := by
  induction marks generalizing before with
  | nil =>
      show (if a = a then some (before, []) else none) = some (before, [])
      rw [if_pos rfl]
  | cons first marks ih =>
      cases first with
      | opened b =>
          rw [holders, List.mem_cons, not_or] at h
          show (if b = a then _ else window a before (marks ++ [.opened a])) = _
          rw [if_neg fun heq => h.1 heq.symm, ih h.2]
          rfl
      | read b value => exact ih h

/-- A reading for an opened holder ends its window, which starts where it did. -/
theorem window_snoc_read (h : (window a before marks).isSome = true) :
    ∃ start marks', window a before marks = some (start, upto a marks') ∧
      window a before (marks ++ [.read a value]) = some (start, marks' ++ [.read a value]) := by
  induction marks generalizing before with
  | nil => exact absurd h Bool.false_ne_true
  | cons first marks ih =>
      cases first with
      | opened b =>
          rw [List.cons_append, window, window]
          by_cases hb : b = a
          · rw [if_pos hb, if_pos hb, upto_snoc_read]
            exact ⟨before, marks, rfl, rfl⟩
          · rw [if_neg hb, if_neg hb]
            rw [window, if_neg hb] at h
            exact ih h
      | read b value' => exact ih h

/-- The total at which the holder was opened. -/
def baseline (a : α) (marks : List (Mark α Int)) : Option Int := (window a 0 marks).map Prod.fst

theorem net_snoc_of_not_read (h : mark.isReadOf a = false) (hne : mark ≠ .opened a) :
    net a (marks ++ [mark]) = net a marks ∧
      baseline a (marks ++ [mark]) = baseline a marks := by
  unfold net baseline
  rw [window_snoc_of_not_read h hne]
  exact ⟨rfl, rfl⟩

theorem net_snoc_opened (h : a ∉ holders marks) :
    net a (marks ++ [.opened a]) = 0 ∧
      baseline a (marks ++ [.opened a]) = some (total 0 marks) := by
  unfold net baseline
  rw [window_snoc_opened h]
  exact ⟨sub_self _, rfl⟩

theorem net_snoc_read {start : Int} (h : baseline a marks = some start) :
    net a (marks ++ [.read a value]) = value - start ∧
      baseline a (marks ++ [.read a value]) = some start := by
  unfold baseline at h
  obtain ⟨w, hw, hstart⟩ := Option.map_eq_some_iff.mp h
  have hsome : (window a 0 marks).isSome = true := by rw [hw]; rfl
  obtain ⟨start', rest, hold, hnew⟩ : ∃ start' rest,
      window a 0 marks = some (start', upto a rest) ∧
        window a 0 (marks ++ [.read a value]) = some (start', rest ++ [.read a value]) :=
    window_snoc_read hsome
  rw [hw] at hold
  have heq : start' = start := by rw [← hstart, Option.some.inj hold]
  unfold net baseline
  rw [hnew, heq]
  refine ⟨?_, rfl⟩
  show total start (rest ++ [.read a value]) - start = value - start
  rw [total_append]
  rfl

omit [DecidableEq α] in
theorem holders_append (marks marks' : List (Mark α Int)) :
    holders (marks ++ marks') = holders marks ++ holders marks' := by
  induction marks with
  | nil => rfl
  | cons mark marks ih =>
      cases mark with
      | opened a => exact congrArg (a :: ·) ih
      | read a value => exact ih

/-! ## The readings -/

/-- What holds of all readings. -/
def Forall (P : Int → Prop) (marks : List (Mark α Int)) : Prop :=
  ∀ mark ∈ marks, ∀ a value, mark = .read a value → P value

omit [DecidableEq α] in
theorem total_of_forall {P : Int → Prop} (hbefore : P before) (h : Forall P marks) :
    P (total before marks) := by
  induction marks generalizing before with
  | nil => exact hbefore
  | cons mark marks ih =>
      have hrest : Forall P marks := fun m hm => h m (List.mem_cons_of_mem mark hm)
      cases mark with
      | opened a => exact ih hbefore hrest
      | read a value => exact ih (h _ List.mem_cons_self a value rfl) hrest

theorem upto_subset (a : α) (marks : List (Mark α Int)) : upto a marks ⊆ marks := by
  induction marks with
  | nil => exact List.Subset.refl _
  | cons mark marks ih =>
      rw [upto]
      by_cases hreads : reads a (mark :: marks) = true
      · rw [if_pos hreads]
        exact List.cons_subset_cons mark ih
      · rw [if_neg hreads]
        exact List.nil_subset _

/-- A window starts and ends at readings, or at the total before all of them. -/
theorem window_of_forall {P : Int → Prop} (hbefore : P before) (h : Forall P marks)
    {w : Int × List (Mark α Int)} (hw : window a before marks = some w) :
    P w.1 ∧ P (total w.1 w.2) := by
  induction marks generalizing before with
  | nil => exact absurd hw (Option.some_ne_none w).symm
  | cons mark marks ih =>
      have hrest : Forall P marks := fun m hm => h m (List.mem_cons_of_mem mark hm)
      cases mark with
      | opened b =>
          rw [window] at hw
          by_cases hb : b = a
          · rw [if_pos hb] at hw
            obtain rfl := Option.some.inj hw
            exact ⟨hbefore, total_of_forall hbefore fun m hm => hrest m (upto_subset a marks hm)⟩
          · rw [if_neg hb] at hw
            exact ih hbefore hrest hw
      | read b value => exact ih (h _ List.mem_cons_self b value rfl) hrest hw

/-! ## What is counted more than once -/

/-- Each rise, as often as windows cover it beyond the first; `os` are the holders opened so far.
A holder's window covers what is in front of its last reading. -/
def doubledFrom (os : List α) (before : Int) : List (Mark α Int) → Int
  | [] => 0
  | .opened a :: marks => doubledFrom (a :: os) before marks
  | .read a value :: marks =>
      rise before value * ((os.countP fun b => reads b (.read a value :: marks) : Nat) - 1) +
        doubledFrom os value marks

def doubled (marks : List (Mark α Int)) : Int := doubledFrom [] 0 marks

/-- What falls take back of the rises of each window. -/
def cancelled (marks : List (Mark α Int)) : Int :=
  ((holders marks).map fun a => min (gained a marks) (lost a marks)).sum

theorem sum_gains_upto_read (os : List α) :
    (os.map fun b => gains before (upto b (.read a value :: marks))).sum =
      rise before value * (os.countP fun b => reads b (.read a value :: marks) : Nat) +
        (os.map fun b => gains value (upto b marks)).sum := by
  induction os with
  | nil => simp
  | cons b os ih =>
      rw [List.map_cons, List.sum_cons, ih, upto_read, List.map_cons, List.sum_cons,
        List.countP_cons]
      push_cast
      ring

/-- **A rise counts once for every window that covers it.** -/
theorem sum_gains_windows (os : List α) (before : Int) (marks : List (Mark α Int))
    (hnodup : (holders marks).Nodup) :
    (os.map fun a => gains before (upto a marks)).sum +
        ((holders marks).map fun a => (window a before marks).elim 0 fun w => gains w.1 w.2).sum =
      gains before marks + doubledFrom os before marks := by
  induction marks generalizing os before with
  | nil =>
      have hzero : (os.map fun a : α => gains before (upto a [])).sum = 0 := by
        apply List.sum_eq_zero
        intro n hn
        obtain ⟨a, -, rfl⟩ := List.mem_map.mp hn
        rfl
      show (os.map fun a => gains before (upto a [])).sum + 0 = 0 + 0
      rw [hzero]
  | cons mark marks ih =>
      cases mark with
      | opened b =>
          rw [holders, List.nodup_cons] at hnodup
          have hrest := ih (b :: os) before hnodup.2
          rw [List.map_cons, List.sum_cons] at hrest
          -- the holder opened here joins those opened so far
          have hold : (os.map fun a => gains before (upto a (.opened b :: marks))) =
              os.map fun a => gains before (upto a marks) :=
            List.map_congr_left fun a _ => upto_opened
          have hself : window b before (.opened b :: marks) = some (before, upto b marks) := by
            rw [window, if_pos rfl]
          have hothers : ((holders marks).map fun a =>
                (window a before (.opened b :: marks)).elim 0 fun w => gains w.1 w.2) =
              (holders marks).map fun a =>
                (window a before marks).elim 0 fun w => gains w.1 w.2 := by
            apply List.map_congr_left
            intro a ha
            have hne : b ≠ a := fun heq => hnodup.1 (heq ▸ ha)
            rw [window, if_neg hne]
          rw [hold, holders, List.map_cons, List.sum_cons, hself, hothers]
          show _ + (gains before (upto b marks) + _) =
            gains before marks + doubledFrom (b :: os) before marks
          linarith
      | read b value =>
          have hrest := ih os value hnodup
          rw [sum_gains_upto_read]
          show _ + ((holders marks).map fun a =>
              (window a value marks).elim 0 fun w => gains w.1 w.2).sum =
            rise before value + gains value marks + (rise before value * (_ - 1) +
              doubledFrom os value marks)
          rw [mul_sub, mul_one]
          linarith

/-- **The shares** are the gains, with what is counted more than once and without what falls take
back. -/
theorem sum_share (hnodup : (holders marks).Nodup) :
    ((holders marks).map fun a => share a marks).sum =
      gains 0 marks + doubled marks - cancelled marks := by
  have hwindows := sum_gains_windows [] 0 marks hnodup
  rw [List.map_nil, List.sum_nil, zero_add] at hwindows
  have hsplit : ((holders marks).map fun a => gained a marks).sum =
      ((holders marks).map fun a => share a marks).sum + cancelled marks := by
    unfold cancelled
    rw [← List.sum_map_add]
    congr 1
    apply List.map_congr_left
    intro a _
    have hshare := share_eq a marks
    omega
  have hgained : ((holders marks).map fun a => gained a marks).sum =
      gains 0 marks + doubled marks := hwindows
  linarith

/-- Nothing is taken back exactly when no window both rises and falls. -/
theorem cancelled_eq_zero_iff :
    cancelled marks = 0 ↔ ∀ a ∈ holders marks, gained a marks = 0 ∨ lost a marks = 0 := by
  have hgained (a : α) : 0 ≤ gained a marks := by
    unfold gained
    cases window a 0 marks with
    | none => exact le_rfl
    | some w => exact gains_nonneg w.1 w.2
  have hlost (a : α) : 0 ≤ lost a marks := by
    unfold lost
    cases window a 0 marks with
    | none => exact le_rfl
    | some w => exact losses_nonneg w.1 w.2
  unfold cancelled
  constructor
  · intro h a ha
    have hnonneg :
        ∀ n ∈ (holders marks).map fun a => min (gained a marks) (lost a marks), 0 ≤ n := by
      intro n hn
      obtain ⟨b, -, rfl⟩ := List.mem_map.mp hn
      exact le_min (hgained b) (hlost b)
    have hmin : min (gained a marks) (lost a marks) = 0 :=
      List.all_zero_of_le_zero_le_of_sum_eq_zero hnonneg h (List.mem_map_of_mem ha)
    have hg := hgained a
    have hl := hlost a
    omega
  · intro h
    apply List.sum_eq_zero
    intro n hn
    obtain ⟨a, ha, rfl⟩ := List.mem_map.mp hn
    have hg := hgained a
    have hl := hlost a
    have hzero := h a ha
    omega

/-! ## One line of holders -/

/-- Every reading is for the holder opened last. -/
def ForLastOpened : Option α → List (Mark α Int) → Prop
  | _, [] => True
  | _, .opened a :: marks => ForLastOpened (some a) marks
  | last, .read a _ :: marks => last = some a ∧ ForLastOpened last marks

theorem not_reads_of_forLastOpened {last : Option α} (h : ForLastOpened last marks)
    (hlast : last ≠ some a) (hmem : a ∉ holders marks) : reads a marks = false := by
  induction marks generalizing last with
  | nil => rfl
  | cons mark marks ih =>
      cases mark with
      | opened b =>
          rw [holders, List.mem_cons, not_or] at hmem
          exact ih h (fun heq => hmem.1 (Option.some.inj heq).symm) hmem.2
      | read b value =>
          have hne : b ≠ a := fun heq => hlast (by rw [h.1, heq])
          show (decide (b = a) || reads a marks) = false
          rw [decide_eq_false hne, Bool.false_or]
          exact ih h.2 hlast hmem

theorem doubledFrom_of_forLastOpened {os : List α} {last : Option α} (h : ForLastOpened last marks)
    (hos : os.Nodup) (hlast : ∀ a, last = some a → a ∈ os) (hnodup : (holders marks).Nodup)
    (hfresh : ∀ a ∈ os, a ∉ holders marks) : doubledFrom os before marks = 0 := by
  induction marks generalizing os last before with
  | nil => rfl
  | cons mark marks ih =>
      cases mark with
      | opened b =>
          rw [holders, List.nodup_cons] at hnodup
          have hb : b ∉ os := fun hmem => hfresh b hmem List.mem_cons_self
          refine ih h (List.nodup_cons.mpr ⟨hb, hos⟩) ?_ hnodup.2 ?_
          · intro a ha
            rw [← Option.some.inj ha]
            exact List.mem_cons_self
          · intro a ha
            rcases List.mem_cons.mp ha with rfl | ha
            · exact hnodup.1
            · exact fun hmem => hfresh a ha (List.mem_cons_of_mem b hmem)
      | read b value =>
          have hb : b ∈ os := hlast b h.1
          have hone : os.countP (fun c => reads c (.read b value :: marks)) = 1 := by
            rw [← List.count_eq_one_of_mem hos hb, List.count]
            apply List.countP_congr
            intro c hc
            by_cases hcb : c = b
            · have hself : reads c (.read b value :: marks) = true := by
                show (decide (b = c) || reads c marks) = true
                rw [hcb, decide_eq_true rfl, Bool.true_or]
              rw [hself, hcb]
              simp
            · have hnot : reads c (.read b value :: marks) = false := by
                refine not_reads_of_forLastOpened h ?_ (hfresh c hc)
                intro heq
                rw [h.1] at heq
                exact hcb (Option.some.inj heq).symm
              rw [hnot]
              simp [hcb]
          show rise before value * ((os.countP _ : Nat) - 1) + doubledFrom os value marks = 0
          rw [hone, ih h.2 hos hlast hnodup hfresh]
          simp

/-- Nothing is counted twice where every reading is for the holder opened last. -/
theorem doubled_of_lastOpened (h : ForLastOpened none marks) (hnodup : (holders marks).Nodup) :
    doubled marks = 0 := by
  refine doubledFrom_of_forLastOpened h List.nodup_nil ?_ hnodup ?_
  · intro a ha
    exact absurd ha (Option.some_ne_none a).symm
  · intro a ha
    exact absurd ha List.not_mem_nil

end Sulion.RunningTotals
