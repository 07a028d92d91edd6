import Mathlib.Algebra.BigOperators.Group.Finset.Basic
import Mathlib.Algebra.BigOperators.Group.Finset.Piecewise
import Mathlib.Algebra.BigOperators.Group.Finset.Sigma
import Mathlib.Tactic.Abel

set_option autoImplicit false
set_option linter.unusedSectionVars false

/-! # Ledgers whose entries correct each other

Each entry of a ledger brings an amount to an owner. Entries with the same key are versions of
one item: the item stays with the owner of its first entry and counts with the amount of its
latest. `share` is what an owner holds, `billed` what all items and all entries without a
key amount to.

What one more entry does to the shares is a withdrawal and a deposit at one owner
(`share_snoc`), and the shares of all owners add up to what is billed (`sum_share`).
-/

namespace Sulion.Corrections

/-- An amount brought to an owner, as a version of the item with its key if it has one. -/
structure Entry (τ κ M : Type*) where
  owner : τ
  key : Option κ
  amount : M

variable {τ κ M : Type*} [DecidableEq τ] [DecidableEq κ]

/-! ## Items -/

/-- The owner of an item: that of its first entry. -/
def holder (ledger : List (Entry τ κ M)) (k : κ) : Option τ :=
  (ledger.find? fun e => e.key = some k).map Entry.owner

/-- The latest version of an item. -/
def latest (ledger : List (Entry τ κ M)) (k : κ) : Option M :=
  (ledger.reverse.find? fun e => e.key = some k).map Entry.amount

def keys (ledger : List (Entry τ κ M)) : Finset κ := (ledger.filterMap Entry.key).toFinset

theorem mem_keys {ledger : List (Entry τ κ M)} {k : κ} :
    k ∈ keys ledger ↔ ∃ e ∈ ledger, e.key = some k := by
  simp [keys]

theorem holder_snoc (ledger : List (Entry τ κ M)) (e : Entry τ κ M) (k : κ) :
    holder (ledger ++ [e]) k =
      (holder ledger k).or (if e.key = some k then some e.owner else none) := by
  unfold holder
  rw [List.find?_append, List.find?_singleton]
  cases ledger.find? fun e => e.key = some k with
  | some first => rfl
  | none =>
      by_cases hk : e.key = some k
      · simp [hk]
      · simp [hk]

theorem latest_snoc (ledger : List (Entry τ κ M)) (e : Entry τ κ M) (k : κ) :
    latest (ledger ++ [e]) k = if e.key = some k then some e.amount else latest ledger k := by
  unfold latest
  rw [List.reverse_append, List.reverse_singleton, List.singleton_append, List.find?_cons]
  by_cases hk : e.key = some k
  · simp [hk]
  · simp [hk]

theorem exists_holder {ledger : List (Entry τ κ M)} {k : κ} (hk : k ∈ keys ledger) :
    ∃ t, holder ledger k = some t := by
  obtain ⟨e, he, hkey⟩ := mem_keys.mp hk
  unfold holder
  cases hfind : ledger.find? fun e => e.key = some k with
  | some first => exact ⟨first.owner, rfl⟩
  | none => exact absurd (decide_eq_true hkey) (List.find?_eq_none.mp hfind e he)

theorem mem_of_holder {ledger : List (Entry τ κ M)} {k : κ} {t : τ}
    (h : holder ledger k = some t) : ∃ e ∈ ledger, e.key = some k ∧ e.owner = t := by
  obtain ⟨e, he, rfl⟩ := Option.map_eq_some_iff.mp h
  have hkey := List.find?_some he
  exact ⟨e, List.mem_of_find?_eq_some he, of_decide_eq_true hkey, rfl⟩

theorem mem_keys_of_holder {ledger : List (Entry τ κ M)} {k : κ} {t : τ}
    (h : holder ledger k = some t) : k ∈ keys ledger := by
  obtain ⟨e, he, hkey, -⟩ := mem_of_holder h
  exact mem_keys.mpr ⟨e, he, hkey⟩

theorem exists_latest {ledger : List (Entry τ κ M)} {k : κ} (hk : k ∈ keys ledger) :
    ∃ m, latest ledger k = some m := by
  obtain ⟨e, he, hkey⟩ := mem_keys.mp hk
  unfold latest
  cases hfind : ledger.reverse.find? fun e => e.key = some k with
  | some last => exact ⟨last.amount, rfl⟩
  | none =>
      have hmem : e ∈ ledger.reverse := List.mem_reverse.mpr he
      exact absurd (decide_eq_true hkey) (List.find?_eq_none.mp hfind e hmem)

/-! ## Shares -/

variable [AddCommGroup M]

/-- What the item with a key counts for an owner. -/
def itemShare (ledger : List (Entry τ κ M)) (t : τ) (k : κ) : M :=
  if holder ledger k = some t then (latest ledger k).getD 0 else 0

/-- What an entry without a key counts for an owner. -/
def entryShare (t : τ) (e : Entry τ κ M) : M := if e.key = none ∧ e.owner = t then e.amount else 0

/-- What an owner holds. -/
def share (ledger : List (Entry τ κ M)) (t : τ) : M :=
  (∑ k ∈ keys ledger, itemShare ledger t k) + (ledger.map (entryShare t)).sum

/-- What all items and all entries without a key amount to. -/
def billed (ledger : List (Entry τ κ M)) : M :=
  (∑ k ∈ keys ledger, (latest ledger k).getD 0) +
    ((ledger.filter fun e => e.key = none).map Entry.amount).sum

/-- An owner that no entry names holds nothing. -/
theorem share_eq_zero {ledger : List (Entry τ κ M)} {t : τ} (h : ∀ e ∈ ledger, e.owner ≠ t) :
    share ledger t = 0 := by
  have hitem (k : κ) : itemShare ledger t k = 0 := by
    unfold itemShare
    split
    · rename_i hholder
      obtain ⟨e, he, -, howner⟩ := mem_of_holder hholder
      exact absurd howner (h e he)
    · rfl
  have hentry (e : Entry τ κ M) (he : e ∈ ledger) : entryShare t e = 0 :=
    if_neg fun hand => h e he hand.2
  unfold share
  rw [Finset.sum_eq_zero fun k _ => hitem k, List.map_congr_left hentry]
  simp

theorem keys_snoc (ledger : List (Entry τ κ M)) (e : Entry τ κ M) :
    keys (ledger ++ [e]) = e.key.elim (keys ledger) fun k => insert k (keys ledger) := by
  ext k
  rw [mem_keys]
  cases hkey : e.key with
  | none => simp [mem_keys, hkey]
  | some k' => simp [mem_keys, hkey, or_comm, eq_comm]

/-- The item of the key has no share outside the ledger's keys. -/
theorem sum_itemShare_erase (ledger : List (Entry τ κ M)) (t : τ) (k : κ) :
    ∑ k' ∈ keys ledger, itemShare ledger t k' =
      itemShare ledger t k + ∑ k' ∈ (keys ledger).erase k, itemShare ledger t k' := by
  by_cases hk : k ∈ keys ledger
  · exact (Finset.add_sum_erase _ _ hk).symm
  · have hzero : itemShare ledger t k = 0 :=
      if_neg fun hholder => hk (mem_keys_of_holder hholder)
    rw [hzero, zero_add, Finset.erase_eq_of_notMem hk]

/-- **One more entry**: its item leaves its share of the owner that holds it, and its amount
goes there instead; without a key the amount goes to the entry's own owner. -/
theorem share_snoc (ledger : List (Entry τ κ M)) (e : Entry τ κ M) (t : τ) :
    share (ledger ++ [e]) t =
      match e.key with
      | none => share ledger t + (if e.owner = t then e.amount else 0)
      | some k =>
          share ledger t - itemShare ledger t k +
            (if (holder ledger k).getD e.owner = t then e.amount else 0) := by
  cases hkey : e.key with
  | none =>
      have hitem (k : κ) : itemShare (ledger ++ [e]) t k = itemShare ledger t k := by
        simp [itemShare, holder_snoc, latest_snoc, hkey]
      unfold share
      rw [keys_snoc, hkey, List.map_append, List.sum_append]
      simp only [Option.elim_none, hitem, List.map_cons, List.map_nil, List.sum_cons, List.sum_nil,
        add_zero, entryShare, hkey, true_and]
      rw [add_assoc]
  | some k =>
      have hother (k' : κ) (hk' : k' ≠ k) :
          itemShare (ledger ++ [e]) t k' = itemShare ledger t k' := by
        simp [itemShare, holder_snoc, latest_snoc, hkey, Ne.symm hk']
      have hown : itemShare (ledger ++ [e]) t k =
          if (holder ledger k).getD e.owner = t then e.amount else 0 := by
        unfold itemShare
        rw [holder_snoc, latest_snoc, hkey, if_pos rfl, if_pos rfl]
        cases holder ledger k with
        | none => simp
        | some owner => simp
      unfold share
      rw [keys_snoc, hkey, Option.elim_some, List.map_append, List.sum_append,
        ← Finset.add_sum_erase _ _ (Finset.mem_insert_self k (keys ledger)), hown,
        Finset.erase_insert_eq_erase, sum_itemShare_erase ledger t k,
        Finset.sum_congr rfl fun k' hk' => hother k' (Finset.ne_of_mem_erase hk')]
      simp only [List.map_cons, List.map_nil, List.sum_cons, List.sum_nil, add_zero, entryShare,
        hkey, reduceCtorEq, false_and, if_false]
      abel

/-- **The shares add up to what is billed**, over owners that include all there are. -/
theorem sum_share {ledger : List (Entry τ κ M)} {owners : List τ} (hnodup : owners.Nodup)
    (hmem : ∀ e ∈ ledger, e.owner ∈ owners) : (owners.map (share ledger)).sum = billed ledger := by
  have hitems : ∑ t ∈ owners.toFinset, ∑ k ∈ keys ledger, itemShare ledger t k =
      ∑ k ∈ keys ledger, (latest ledger k).getD 0 := by
    rw [Finset.sum_comm]
    apply Finset.sum_congr rfl
    intro k hk
    obtain ⟨t, ht⟩ := exists_holder hk
    obtain ⟨e, he, -, rfl⟩ := mem_of_holder ht
    -- only the holder has a share of the item
    unfold itemShare
    rw [ht]
    simp only [Option.some.injEq]
    rw [Finset.sum_ite_eq, if_pos (List.mem_toFinset.mpr (hmem e he))]
  have hentries : ∑ t ∈ owners.toFinset, (ledger.map (entryShare t)).sum =
      ((ledger.filter fun e => e.key = none).map Entry.amount).sum := by
    clear hitems
    induction ledger with
    | nil => simp
    | cons e ledger ih =>
        simp only [List.map_cons, List.sum_cons, Finset.sum_add_distrib]
        rw [ih fun e' he' => hmem e' (List.mem_cons_of_mem _ he')]
        have howner : e.owner ∈ owners.toFinset :=
          List.mem_toFinset.mpr (hmem e List.mem_cons_self)
        by_cases hkey : e.key = none
        · simp only [entryShare, hkey, true_and, List.filter_cons, decide_true, if_true,
            List.map_cons, List.sum_cons]
          rw [Finset.sum_ite_eq, if_pos howner]
        · simp [entryShare, hkey]
  calc (owners.map (share ledger)).sum
      = ∑ t ∈ owners.toFinset, share ledger t := (List.sum_toFinset _ hnodup).symm
    _ = (∑ t ∈ owners.toFinset, ∑ k ∈ keys ledger, itemShare ledger t k) +
          ∑ t ∈ owners.toFinset, (ledger.map (entryShare t)).sum := Finset.sum_add_distrib
    _ = billed ledger := by rw [hitems, hentries]; rfl

end Sulion.Corrections
