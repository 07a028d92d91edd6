import Sulion.Lib.Maxima
import Sulion.Lib.Table

set_option autoImplicit false

/-! # Merging redeemed secrets

`merge_by_precedence` of `secret_broker/redeem.rs`. The secrets are read by falling precedence,
and each sets the variables that none before it has set; a variable that a secret of the same
precedence has set is a conflict.

`merge_exact` says what comes out without the order: each variable belongs to its holders of
greatest precedence (`owners`).
-/

namespace Sulion.SecretBroker

open Maxima

structure RedeemedSecret where
  secretId : String
  precedence : Int
  /-- The variables, in the order the map iterates over them. -/
  env : List (String × String)
  distinct : (env.map Prod.fst).Nodup

/-- The accumulators of the loop. -/
structure Merge where
  env : Table String String
  ranks : Table String Int
  contributors : List String

namespace Merge

def empty : Merge := ⟨∅, ∅, []⟩

/-- One variable of a secret; the flag says whether the secret has contributed. -/
def mergeEntry (precedence : Int) : Merge × Bool → String × String → Except String (Merge × Bool)
  | (m, contributed), (key, value) =>
      match m.ranks[key]? with
      | some rank => if rank > precedence then .ok (m, contributed) else .error key
      | none =>
          .ok ({ m with
            ranks := m.ranks.insert key precedence
            env := m.env.insert key value }, true)

/-- One secret. -/
def mergeSecret (m : Merge) (secret : RedeemedSecret) : Except String Merge :=
  match secret.env.foldlM (mergeEntry secret.precedence) (m, false) with
  | .error key => .error key
  | .ok (m, contributed) =>
      .ok
        (if contributed then { m with contributors := m.contributors ++ [secret.secretId] } else m)

end Merge

open Merge

/-- `sort_by_key` with `Reverse(precedence)`, which is stable. -/
def sortByPrecedence (redeemed : List RedeemedSecret) : List RedeemedSecret :=
  redeemed.insertionSort fun a b => b.precedence ≤ a.precedence

/-- `merge_by_precedence`: the variables and the contributors, or the variable in conflict. -/
def mergeByPrecedence (redeemed : List RedeemedSecret) :
    Except String (Table String String × List String) :=
  match (sortByPrecedence redeemed).foldlM mergeSecret .empty with
  | .error key => .error key
  | .ok m => .ok (m.env, m.contributors)

/-! ## What belongs to whom -/

def RedeemedSecret.holds (key : String) (secret : RedeemedSecret) : Bool :=
  (secret.env.lookup key).isSome

/-- The holders of greatest precedence. -/
def owners (redeemed : List RedeemedSecret) (key : String) : List RedeemedSecret :=
  maxima RedeemedSecret.precedence (redeemed.filter (·.holds key))

section Owners

variable {l l' : List RedeemedSecret} {s t : RedeemedSecret} {key : String}

theorem owners_concat_of_not_holds (h : s.holds key = false) :
    owners (l ++ [s]) key = owners l key := by
  unfold owners
  rw [List.filter_append, List.filter_cons_of_neg (by simp [h]), List.filter_nil, List.append_nil]

theorem owners_concat (h : s.holds key = true) :
    owners (l ++ [s]) key =
      maxima RedeemedSecret.precedence (l.filter (·.holds key) ++ [s]) := by
  unfold owners
  rw [List.filter_append, List.filter_cons_of_pos h, List.filter_nil]

/-- A secret outranked by an owner leaves the owners as they are. -/
theorem owners_concat_of_lt (ht : t ∈ owners l key) (hlt : s.precedence < t.precedence) :
    owners (l ++ [s]) key = owners l key := by
  cases hs : s.holds key with
  | false => exact owners_concat_of_not_holds hs
  | true =>
      rw [owners_concat hs]
      exact maxima_concat_of_lt ht hlt

/-- A holder of the same precedence as an owner, read after it, is an owner too. -/
theorem owners_concat_of_eq (hs : s.holds key = true)
    (hsorted : ∀ t ∈ l, s.precedence ≤ t.precedence)
    (ht : t ∈ owners l key) (heq : t.precedence ≤ s.precedence) :
    owners (l ++ [s]) key = owners l key ++ [s] := by
  rw [owners_concat hs]
  refine maxima_concat_of_eq fun b hb => le_antisymm ?_ (hsorted b (List.mem_of_mem_filter hb))
  exact ((mem_maxima.mp ht).2 b hb).trans heq

theorem owners_concat_first (hs : s.holds key = true) (hl : owners l key = []) :
    owners (l ++ [s]) key = [s] := by
  have hnone : l.filter (·.holds key) = [] := by
    by_contra hne
    exact maxima_ne_nil hne hl
  rw [owners_concat hs, hnone]
  simp [maxima]

/-- What is read later, by falling precedence, takes no owner away. -/
theorem owners_mono (hsorted : (l ++ l').Pairwise fun a b => b.precedence ≤ a.precedence) :
    (owners l key).length ≤ (owners (l ++ l') key).length := by
  induction l' using List.reverseRecOn with
  | nil => rw [List.append_nil]
  | append_singleton l' s ih =>
      rw [← List.append_assoc] at hsorted ⊢
      obtain ⟨hbefore, -, hlast⟩ := List.pairwise_append.mp hsorted
      have hle : ∀ t ∈ l ++ l', s.precedence ≤ t.precedence := fun t ht =>
        hlast t ht s (List.mem_singleton_self s)
      refine (ih hbefore).trans ?_
      cases hs : s.holds key with
      | false => rw [owners_concat_of_not_holds hs]
      | true =>
          cases howners : owners (l ++ l') key with
          | nil => exact Nat.zero_le _
          | cons t rest =>
              have ht : t ∈ owners (l ++ l') key := howners ▸ List.mem_cons_self
              rcases lt_or_ge s.precedence t.precedence with hlt | hge
              · rw [owners_concat_of_lt ht hlt, howners]
              · rw [owners_concat_of_eq hs hle ht hge, howners, List.length_append]
                omega

end Owners

/-! ## One secret -/

/-- What a secret of precedence `precedence` with the variables `entries` makes of `m`. -/
structure Entered (precedence : Int) (entries : List (String × String)) (m m' : Merge)
    (before after : Bool) : Prop where
  above : ∀ key, (entries.lookup key).isSome → ∀ rank ∈ m.ranks[key]?, precedence < rank
  ranks : ∀ key : String, m'.ranks[key]? =
    (m.ranks[key]?).or ((entries.lookup key).map fun _ => precedence)
  env : ∀ key : String, m'.env[key]? =
    if m.ranks[key]? = none then (entries.lookup key).or m.env[key]? else m.env[key]?
  contributors : m'.contributors = m.contributors
  contributed : after = true ↔
    before = true ∨ ∃ key, (entries.lookup key).isSome ∧ m.ranks[key]? = none

theorem lookup_eq_none_of_notMem {key : String} {entries : List (String × String)}
    (h : key ∉ entries.map Prod.fst) : entries.lookup key = none := by
  induction entries with
  | nil => rfl
  | cons e entries ih =>
      rw [List.map_cons, List.mem_cons, not_or] at h
      rw [List.lookup_cons, beq_eq_false_iff_ne.mpr h.1]
      exact ih h.2

theorem mergeEntries_ok {precedence : Int} {entries : List (String × String)} {m m' : Merge}
    {before after : Bool} (hnodup : (entries.map Prod.fst).Nodup)
    (h : entries.foldlM (mergeEntry precedence) (m, before) = .ok (m', after)) :
    Entered precedence entries m m' before after := by
  induction entries generalizing m before with
  | nil =>
      cases h
      refine ⟨nofun, fun key => ?_, fun key => ?_, rfl, ?_⟩
      · simp
      · simp
      · simp
  | cons e entries ih =>
      obtain ⟨k, value⟩ := e
      rw [List.map_cons, List.nodup_cons] at hnodup
      have hlast : entries.lookup k = none := lookup_eq_none_of_notMem hnodup.1
      have hlookup (key : String) : ((k, value) :: entries).lookup key =
          if key = k then some value else entries.lookup key := by
        rw [List.lookup_cons]
        by_cases hkey : key = k
        · rw [if_pos hkey, hkey, beq_self_eq_true]
        · rw [if_neg hkey, beq_eq_false_iff_ne.mpr hkey]
      rw [List.foldlM_cons] at h
      simp only [mergeEntry] at h
      cases hrank : m.ranks[k]? with
      | some rank =>
          rw [hrank] at h
          by_cases hgt : rank > precedence
          · simp only [if_pos hgt] at h
            have hrest := ih hnodup.2 h
            refine ⟨fun key hkey => ?_, fun key => ?_, fun key => ?_, hrest.contributors, ?_⟩
            · rw [hlookup] at hkey
              split at hkey
              · rename_i heq
                subst heq
                intro r hr
                rw [hrank] at hr
                cases hr
                exact hgt
              · exact hrest.above key hkey
            · rw [hrest.ranks, hlookup]
              split
              · rename_i heq
                subst heq
                simp [hrank]
              · rfl
            · rw [hrest.env, hlookup]
              split
              · rename_i hnone
                split
                · rename_i heq
                  rw [heq, hrank] at hnone
                  cases hnone
                · rfl
              · rfl
            · rw [hrest.contributed]
              refine or_congr_right (exists_congr fun key => ?_)
              rw [hlookup]
              split
              · rename_i heq
                simp [heq, hrank]
              · rfl
          · simp only [if_neg hgt] at h
            cases h
      | none =>
          rw [hrank] at h
          have hrest := ih hnodup.2 h
          have hset (key : String) : (m.ranks.insert k precedence)[key]? =
              if k = key then some precedence else m.ranks[key]? :=
            Table.lookup_insert _ _ _ _
          refine ⟨fun key hkey => ?_, fun key => ?_, fun key => ?_, hrest.contributors, ?_⟩
          · rw [hlookup] at hkey
            split at hkey
            · rename_i heq
              rw [heq, hrank]
              nofun
            · rename_i hne
              have hold := hrest.above key hkey
              rw [hset, if_neg (Ne.symm hne)] at hold
              exact hold
          · rw [hrest.ranks, hlookup, hset]
            by_cases heq : key = k
            · subst heq
              simp [hrank]
            · rw [if_neg heq, if_neg (Ne.symm heq)]
          · rw [hrest.env, hlookup, hset, Table.lookup_insert]
            by_cases heq : key = k
            · subst heq
              simp [hrank]
            · rw [if_neg heq, if_neg (Ne.symm heq), if_neg (Ne.symm heq)]
          · rw [hrest.contributed]
            refine iff_of_true (.inl rfl) (.inr ⟨k, ?_, hrank⟩)
            rw [hlookup, if_pos rfl]
            rfl

theorem mergeEntries_error {precedence : Int} {entries : List (String × String)} {m : Merge}
    {before : Bool} {key : String} (hnodup : (entries.map Prod.fst).Nodup)
    (h : entries.foldlM (mergeEntry precedence) (m, before) = .error key) :
    (entries.lookup key).isSome ∧ ∃ rank ∈ m.ranks[key]?, rank ≤ precedence := by
  induction entries generalizing m before with
  | nil => cases h
  | cons e entries ih =>
      obtain ⟨k, value⟩ := e
      rw [List.map_cons, List.nodup_cons] at hnodup
      rw [List.foldlM_cons] at h
      simp only [mergeEntry] at h
      have hrest (hkey : (entries.lookup key).isSome) :
          key ≠ k ∧ (((k, value) :: entries).lookup key).isSome := by
        have hne : key ≠ k := by
          rintro rfl
          rw [lookup_eq_none_of_notMem hnodup.1] at hkey
          cases hkey
        rw [List.lookup_cons, beq_eq_false_iff_ne.mpr hne]
        exact ⟨hne, hkey⟩
      cases hrank : m.ranks[k]? with
      | some rank =>
          rw [hrank] at h
          by_cases hgt : rank > precedence
          · simp only [if_pos hgt] at h
            obtain ⟨hkey, rank', hrank', hle⟩ := ih hnodup.2 h
            exact ⟨(hrest hkey).2, rank', hrank', hle⟩
          · simp only [if_neg hgt] at h
            cases h
            refine ⟨?_, rank, hrank, not_lt.mp hgt⟩
            rw [List.lookup_cons, beq_self_eq_true]
            rfl
      | none =>
          rw [hrank] at h
          obtain ⟨hkey, rank', hrank', hle⟩ := ih hnodup.2 h
          refine ⟨(hrest hkey).2, rank', ?_, hle⟩
          have hset : (m.ranks.insert k precedence)[key]? = m.ranks[key]? :=
            Table.lookup_insert_ne _ _ (Ne.symm (hrest hkey).1)
          exact hset ▸ hrank'

/-! ## All secrets -/

/-- The accumulators after the secrets of `l`. -/
structure Merged (l : List RedeemedSecret) (m : Merge) : Prop where
  unique : ∀ key, (owners l key).length ≤ 1
  ranks : ∀ key : String, m.ranks[key]? = (owners l key).head?.map RedeemedSecret.precedence
  env : ∀ key : String, m.env[key]? = (owners l key).head?.bind (·.env.lookup key)
  contributors : ∀ id, id ∈ m.contributors ↔ ∃ s key, owners l key = [s] ∧ s.secretId = id

theorem Merged.empty : Merged [] .empty where
  unique _ := Nat.zero_le _
  ranks _ := rfl
  env _ := rfl
  contributors id := by
    constructor
    · nofun
    · rintro ⟨s, key, h, -⟩
      cases h

section Run

variable {l : List RedeemedSecret} {m m' : Merge} {s : RedeemedSecret} {key : String}

theorem Merged.eq_nil_or (h : Merged l m) (key : String) :
    owners l key = [] ∨ ∃ t, owners l key = [t] := by
  have hle := h.unique key
  cases howners : owners l key with
  | nil => exact .inl rfl
  | cons t rest =>
      rw [howners, List.length_cons] at hle
      rw [List.length_eq_zero_iff.mp (by omega : rest.length = 0)]
      exact .inr ⟨t, rfl⟩

/-- What a secret without a conflict does to the owners of a variable. -/
theorem Merged.owners_concat (h : Merged l m)
    (habove : ∀ key, s.holds key = true → ∀ rank ∈ m.ranks[key]?, s.precedence < rank)
    (key : String) :
    owners (l ++ [s]) key =
      if m.ranks[key]? = none ∧ s.holds key = true then [s] else owners l key := by
  cases hs : s.holds key with
  | false =>
      rw [owners_concat_of_not_holds hs, if_neg (by simp)]
  | true =>
      rcases h.eq_nil_or key with hnil | ⟨t, ht⟩
      · have hrank : m.ranks[key]? = none := by rw [h.ranks, hnil, List.head?_nil, Option.map_none]
        rw [owners_concat_first hs hnil, if_pos ⟨hrank, rfl⟩]
      · have hrank : m.ranks[key]? = some t.precedence := by
          rw [h.ranks, ht, List.head?_cons, Option.map_some]
        have hlt := habove key hs t.precedence hrank
        rw [owners_concat_of_lt (ht ▸ List.mem_singleton_self t) hlt, if_neg]
        rw [hrank]
        rintro ⟨hnone, -⟩
        cases hnone

theorem Merged.step (h : Merged l m) (hs : mergeSecret m s = .ok m') : Merged (l ++ [s]) m' := by
  unfold mergeSecret at hs
  split at hs
  · cases hs
  · rename_i after contributed hentries
    have he := mergeEntries_ok s.distinct hentries
    have howners := h.owners_concat he.above
    have hranks : m'.ranks = after.ranks := by
      cases hs
      split <;> rfl
    have henv : m'.env = after.env := by
      cases hs
      split <;> rfl
    refine ⟨fun key => ?_, fun key => ?_, fun key => ?_, fun id => ?_⟩
    · rw [howners]
      split
      · exact le_rfl
      · exact h.unique key
    · rw [hranks, he.ranks, howners]
      cases hrank : m.ranks[key]? with
      | some rank => simp [← h.ranks, hrank]
      | none =>
          cases hlookup : s.env.lookup key with
          | none => simp [RedeemedSecret.holds, hlookup, ← h.ranks, hrank]
          | some value => simp [RedeemedSecret.holds, hlookup]
    · rw [henv, he.env, howners]
      cases hrank : m.ranks[key]? with
      | some rank => simp [h.env]
      | none =>
          have hnil : owners l key = [] := by
            have := h.ranks key
            rw [hrank] at this
            simpa using this.symm
          cases hlookup : s.env.lookup key with
          | none => simp [RedeemedSecret.holds, hlookup, h.env]
          | some value => simp [RedeemedSecret.holds, hlookup]
    · have hnew : (∃ key, owners (l ++ [s]) key = [s] ∧ m.ranks[key]? = none) ↔
          contributed = true := by
        rw [he.contributed]
        constructor
        · rintro ⟨key, hkey, hrank⟩
          refine .inr ⟨key, ?_, hrank⟩
          by_contra hnot
          have hnil : owners l key = [] := by
            have := h.ranks key
            rw [hrank] at this
            simpa using this.symm
          rw [howners, if_neg (fun hand => hnot hand.2), hnil] at hkey
          cases hkey
        · rintro (hfalse | ⟨key, hkey, hrank⟩)
          · cases hfalse
          · exact ⟨key, by rw [howners, if_pos ⟨hrank, hkey⟩], hrank⟩
      have hold (t : RedeemedSecret) (key : String) (hrank : m.ranks[key]? ≠ none) :
          owners (l ++ [s]) key = [t] ↔ owners l key = [t] := by
        rw [howners, if_neg (fun hand => hrank hand.1)]
      have hlost (t : RedeemedSecret) (key : String) (ht : owners l key = [t]) :
          m.ranks[key]? ≠ none := by
        rw [h.ranks, ht]
        simp
      have hmem : id ∈ m'.contributors ↔
          id ∈ m.contributors ∨ contributed = true ∧ s.secretId = id := by
        cases hs
        rw [← he.contributors]
        split
        · rename_i hc
          simp [hc, eq_comm]
        · rename_i hc
          simp [hc]
      rw [hmem, h.contributors, ← hnew]
      constructor
      · rintro (⟨t, key, ht, hid⟩ | ⟨⟨key, hkey, -⟩, hid⟩)
        · exact ⟨t, key, (hold t key (hlost t key ht)).mpr ht, hid⟩
        · exact ⟨s, key, hkey, hid⟩
      · rintro ⟨t, key, ht, hid⟩
        by_cases hrank : m.ranks[key]? = none
        · have hts : t = s := by
            rw [howners] at ht
            split at ht
            · cases ht
              rfl
            · exact absurd hrank (hlost t key ht)
          subst hts
          exact .inr ⟨⟨key, ht, hrank⟩, hid⟩
        · exact .inl ⟨t, key, (hold t key hrank).mp ht, hid⟩

/-- A conflict is between two owners. -/
theorem Merged.conflict (h : Merged l m) (hsorted : ∀ t ∈ l, s.precedence ≤ t.precedence)
    (hs : mergeSecret m s = .error key) : 1 < (owners (l ++ [s]) key).length := by
  unfold mergeSecret at hs
  split at hs
  · rename_i key' hentries
    cases hs
    obtain ⟨hholds, rank, hrank, hle⟩ := mergeEntries_error s.distinct hentries
    rw [h.ranks] at hrank
    rcases h.eq_nil_or key with hnil | ⟨t, ht⟩
    · rw [hnil] at hrank
      cases hrank
    · rw [ht] at hrank
      cases hrank
      rw [owners_concat_of_eq hholds hsorted (ht ▸ List.mem_singleton_self t) hle, ht]
      exact Nat.lt_of_lt_of_le (by decide : 1 < 2) le_rfl
  · cases hs

/-- The loop over the secrets that are left. -/
theorem Merged.foldlM {rest : List RedeemedSecret} (h : Merged l m)
    (hsorted : (l ++ rest).Pairwise fun a b => b.precedence ≤ a.precedence) :
    (∀ m', rest.foldlM mergeSecret m = .ok m' → Merged (l ++ rest) m') ∧
    ∀ key, rest.foldlM mergeSecret m = .error key → 1 < (owners (l ++ rest) key).length := by
  induction rest generalizing l m with
  | nil =>
      rw [List.append_nil]
      refine ⟨fun m' hm => ?_, nofun⟩
      cases hm
      exact h
  | cons s rest ih =>
      have happend : l ++ s :: rest = l ++ [s] ++ rest := by
        rw [List.append_assoc, List.singleton_append]
      rw [List.foldlM_cons, happend]
      rw [happend] at hsorted
      obtain ⟨hbefore, -, -⟩ := List.pairwise_append.mp hsorted
      have hle : ∀ t ∈ l, s.precedence ≤ t.precedence := fun t ht =>
        (List.pairwise_append.mp hbefore).2.2 t ht s (List.mem_singleton_self s)
      cases hstep : mergeSecret m s with
      | error key =>
          refine ⟨nofun, fun key' hkey' => ?_⟩
          cases hkey'
          exact (h.conflict hle hstep).trans_le (owners_mono hsorted)
      | ok m' => exact ih (h.step hstep) hsorted

end Run

/-! ## The order does not matter -/

/-- A secret without the order of its variables. -/
structure Grant where
  secretId : String
  precedence : Int
  value : String → Option String

def RedeemedSecret.grant (s : RedeemedSecret) : Grant :=
  ⟨s.secretId, s.precedence, fun key => s.env.lookup key⟩

/-- The same secrets in another order, and each with its variables in any order. -/
def Reordered (l l' : List RedeemedSecret) : Prop :=
  (l.map RedeemedSecret.grant).Perm (l'.map RedeemedSecret.grant)

section Order

variable {l l' : List RedeemedSecret} {s : RedeemedSecret}

theorem map_owners (l : List RedeemedSecret) (key : String) :
    (owners l key).map RedeemedSecret.grant =
      maxima Grant.precedence
        ((l.map RedeemedSecret.grant).filter fun g => (g.value key).isSome) := by
  rw [List.filter_map]
  exact map_maxima Grant.precedence RedeemedSecret.grant _

theorem owners_reordered (h : Reordered l l') (key : String) :
    ((owners l key).map RedeemedSecret.grant).Perm ((owners l' key).map RedeemedSecret.grant) := by
  rw [map_owners, map_owners]
  exact maxima_perm (h.filter _)

theorem length_owners_reordered (h : Reordered l l') (key : String) :
    (owners l key).length = (owners l' key).length := by
  have hlength := (owners_reordered h key).length_eq
  rwa [List.length_map, List.length_map] at hlength

/-- The owner is the same, when it is the only one. -/
theorem owner_reordered (h : Reordered l l') {key : String} (hs : owners l key = [s]) :
    ∃ t, owners l' key = [t] ∧ t.grant = s.grant := by
  have hperm := owners_reordered h key
  rw [hs, List.map_singleton] at hperm
  obtain ⟨t, ht, hgrant⟩ := List.map_eq_singleton_iff.mp (List.perm_singleton.mp hperm.symm)
  exact ⟨t, ht, hgrant⟩

end Order

/-! ## The merge -/

/-- What a merge returns: each variable has the value its owner gives it, and who owns a
variable contributes. -/
structure ExactMerge (redeemed : List RedeemedSecret) (env : Table String String)
    (contributors : List String) : Prop where
  env : ∀ key : String, env[key]? = (owners redeemed key).head?.bind (·.env.lookup key)
  contributors : ∀ id, id ∈ contributors ↔
    ∃ s key, owners redeemed key = [s] ∧ s.secretId = id

section Result

variable {redeemed redeemed' : List RedeemedSecret} {env env' : Table String String}
  {contributors contributors' : List String}

theorem sortByPrecedence_perm (redeemed : List RedeemedSecret) :
    (sortByPrecedence redeemed).Perm redeemed := List.perm_insertionSort _ _

theorem sortByPrecedence_sorted (redeemed : List RedeemedSecret) :
    (sortByPrecedence redeemed).Pairwise fun a b => b.precedence ≤ a.precedence := by
  have htotal : Std.Total fun a b : RedeemedSecret => b.precedence ≤ a.precedence :=
    ⟨fun a b => le_total b.precedence a.precedence⟩
  have htrans : IsTrans RedeemedSecret fun a b => b.precedence ≤ a.precedence :=
    ⟨fun a b c hab hbc => le_trans hbc hab⟩
  exact List.pairwise_insertionSort _ _

theorem sortByPrecedence_reordered (redeemed : List RedeemedSecret) :
    Reordered (sortByPrecedence redeemed) redeemed :=
  (sortByPrecedence_perm redeemed).map _

/-- The loop of a merge, from its start. -/
theorem merged_sorted (redeemed : List RedeemedSecret) :
    (∀ m, (sortByPrecedence redeemed).foldlM mergeSecret .empty = .ok m →
      Merged (sortByPrecedence redeemed) m) ∧
    ∀ key, (sortByPrecedence redeemed).foldlM mergeSecret .empty = .error key →
      1 < (owners (sortByPrecedence redeemed) key).length := by
  have hsorted : ([] ++ sortByPrecedence redeemed).Pairwise fun a b : RedeemedSecret =>
      b.precedence ≤ a.precedence := sortByPrecedence_sorted redeemed
  have hrun := Merged.empty.foldlM hsorted
  rwa [List.nil_append] at hrun

/-- A result that is exact for a list is exact for every order of it. -/
theorem ExactMerge.reordered (h : ExactMerge redeemed env contributors)
    (hunique : ∀ key, (owners redeemed key).length ≤ 1) (hsame : Reordered redeemed redeemed') :
    ExactMerge redeemed' env contributors := by
  refine ⟨fun key => ?_, fun id => ?_⟩
  · rw [h.env]
    cases howners : owners redeemed key with
    | nil =>
        have hlength := length_owners_reordered hsame key
        rw [howners, List.length_nil] at hlength
        rw [List.length_eq_zero_iff.mp hlength.symm]
    | cons s rest =>
        have hle := hunique key
        rw [howners, List.length_cons] at hle
        obtain rfl : rest = [] := List.length_eq_zero_iff.mp (by omega)
        obtain ⟨t, ht, hgrant⟩ := owner_reordered hsame howners
        rw [ht, List.head?_cons, List.head?_cons, Option.bind_some, Option.bind_some]
        exact congrFun (congrArg Grant.value hgrant.symm) key
  · rw [h.contributors]
    constructor
    · rintro ⟨s, key, hs, rfl⟩
      obtain ⟨t, ht, hgrant⟩ := owner_reordered hsame hs
      exact ⟨t, key, ht, congrArg Grant.secretId hgrant⟩
    · rintro ⟨s, key, hs, rfl⟩
      obtain ⟨t, ht, hgrant⟩ := owner_reordered hsame.symm hs
      exact ⟨t, key, ht, congrArg Grant.secretId hgrant⟩

/-- There is one exact result. -/
theorem ExactMerge.unique (h : ExactMerge redeemed env contributors)
    (h' : ExactMerge redeemed env' contributors') :
    env = env' ∧ ∀ id, id ∈ contributors ↔ id ∈ contributors' := by
  refine ⟨Table.ext fun key => ?_, fun id => ?_⟩
  · rw [h.env, h'.env]
  · rw [h.contributors, h'.contributors]

theorem mergeByPrecedence_ok (h : mergeByPrecedence redeemed = .ok (env, contributors)) :
    (∀ key, (owners redeemed key).length ≤ 1) ∧ ExactMerge redeemed env contributors := by
  unfold mergeByPrecedence at h
  split at h
  · cases h
  · rename_i m hm
    cases h
    have hmerged := (merged_sorted redeemed).1 m hm
    have hsame := sortByPrecedence_reordered redeemed
    refine ⟨fun key => (length_owners_reordered hsame key) ▸ hmerged.unique key, ?_⟩
    exact ExactMerge.reordered ⟨hmerged.env, hmerged.contributors⟩ hmerged.unique hsame

theorem mergeByPrecedence_error {key : String} (h : mergeByPrecedence redeemed = .error key) :
    1 < (owners redeemed key).length := by
  unfold mergeByPrecedence at h
  split at h
  · rename_i key' hm
    cases h
    have hconflict := (merged_sorted redeemed).2 key hm
    rwa [length_owners_reordered (sortByPrecedence_reordered redeemed)] at hconflict
  · cases h

end Result

/-- **A merge is exact, in any order.** It succeeds if and only if each variable has at most one
owner, returns what the owners say, and names a variable in conflict otherwise; another order of
the secrets fails when it does, and gives the same variables and the same contributors. -/
theorem merge_exact (redeemed : List RedeemedSecret) :
    ((∃ env contributors, mergeByPrecedence redeemed = .ok (env, contributors)) ↔
      ∀ key, (owners redeemed key).length ≤ 1) ∧
    (∀ env contributors, mergeByPrecedence redeemed = .ok (env, contributors) →
      ExactMerge redeemed env contributors) ∧
    (∀ key, mergeByPrecedence redeemed = .error key → 1 < (owners redeemed key).length) ∧
    ∀ redeemed', Reordered redeemed redeemed' →
      (∃ key key', mergeByPrecedence redeemed = .error key ∧
        mergeByPrecedence redeemed' = .error key') ∨
      ∃ env contributors contributors', mergeByPrecedence redeemed = .ok (env, contributors) ∧
        mergeByPrecedence redeemed' = .ok (env, contributors') ∧
        ∀ id, id ∈ contributors ↔ id ∈ contributors' := by
  refine ⟨⟨?_, fun hunique => ?_⟩, fun env contributors h => (mergeByPrecedence_ok h).2,
    fun key h => mergeByPrecedence_error h, fun redeemed' hsame => ?_⟩
  · rintro ⟨env, contributors, h⟩
    exact (mergeByPrecedence_ok h).1
  · cases h : mergeByPrecedence redeemed with
    | error key => exact absurd (hunique key) (not_le.mpr (mergeByPrecedence_error h))
    | ok result => exact ⟨result.1, result.2, rfl⟩
  · cases h : mergeByPrecedence redeemed with
    | error key =>
        left
        cases h' : mergeByPrecedence redeemed' with
        | error key' => exact ⟨key, key', rfl, rfl⟩
        | ok result =>
            have hconflict := mergeByPrecedence_error h
            rw [length_owners_reordered hsame] at hconflict
            exact absurd ((mergeByPrecedence_ok h').1 key) (not_le.mpr hconflict)
    | ok result =>
        right
        obtain ⟨env, contributors⟩ := result
        obtain ⟨hunique, hexact⟩ := mergeByPrecedence_ok h
        cases h' : mergeByPrecedence redeemed' with
        | error key =>
            have hconflict := mergeByPrecedence_error h'
            rw [← length_owners_reordered hsame] at hconflict
            exact absurd (hunique key) (not_le.mpr hconflict)
        | ok result' =>
            obtain ⟨env', contributors'⟩ := result'
            obtain ⟨-, hexact'⟩ := mergeByPrecedence_ok h'
            obtain ⟨henv, hmem⟩ := (hexact.reordered hunique hsame).unique hexact'
            exact ⟨env, contributors, contributors', rfl, by rw [henv], hmem⟩

def ghRead : RedeemedSecret := ⟨"gh-read", 0, [("GH_TOKEN", "read"), ("GH_HOST", "h")], by decide⟩

def ghWrite : RedeemedSecret := ⟨"gh-write", 1, [("GH_TOKEN", "write")], by decide⟩

/-- An explicit grant replaces the value of one for all terminals, in either order. -/
theorem merge_exact_tokens :
    ∃ (env : Table String String) (contributors contributors' : List String),
    mergeByPrecedence [ghRead, ghWrite] = .ok (env, contributors) ∧
    mergeByPrecedence [ghWrite, ghRead] = .ok (env, contributors') ∧
    (∀ id, id ∈ contributors ↔ id ∈ contributors') ∧ env["GH_TOKEN"]? = some "write" := by
  have hperm : Reordered [ghRead, ghWrite] [ghWrite, ghRead] := (List.Perm.swap _ _ []).map _
  have hunique : (mergeByPrecedence [ghRead, ghWrite]).toOption.isSome = true := by decide +kernel
  obtain ⟨-, hexact, -, horder⟩ := merge_exact [ghRead, ghWrite]
  rcases horder _ hperm with ⟨key, key', herror, -⟩ |
    ⟨env, contributors, contributors', h, h', hmem⟩
  · rw [herror] at hunique
    cases hunique
  · refine ⟨env, contributors, contributors', h, h', hmem, ?_⟩
    rw [(hexact env contributors h).env]
    decide

end Sulion.SecretBroker
