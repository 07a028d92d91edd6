import Mathlib.Data.List.Basic

set_option autoImplicit false

/-! # Records in flight

A receiver takes records off a queue one by one, and whatever is still under way may be lost.
So what holds of the receiver has to hold after every prefix of the queue: `Throughout P` says
that `P` does, `Steady R` that the receiver only moves forward along `R`. Sending, receiving and
losing the queue each keep them.
-/

namespace Sulion.InFlight

variable {γ ρ : Type*} (receive : γ → ρ → γ)

/-- The receiver after the first `n` records. -/
def after (client : γ) (queue : List ρ) (n : Nat) : γ := (queue.take n).foldl receive client

/-- `P` holds of the receiver, whichever of the records still arrive. -/
def Throughout (P : γ → Prop) (client : γ) (queue : List ρ) : Prop :=
  ∀ n, P (after receive client queue n)

/-- Each further record moves the receiver along `R`. -/
def Steady (R : γ → γ → Prop) (client : γ) (queue : List ρ) : Prop :=
  ∀ m n, m ≤ n → R (after receive client queue m) (after receive client queue n)

variable {receive} {P Q : γ → Prop} {R : γ → γ → Prop} {client : γ} {queue : List ρ} {record : ρ}

theorem after_nil (client : γ) (n : Nat) : after receive client [] n = client := by
  rw [after, List.take_nil, List.foldl_nil]

theorem after_length (client : γ) (queue : List ρ) :
    after receive client queue queue.length = queue.foldl receive client := by
  rw [after, List.take_length]

/-- With one more record in the queue there is one more receiver. -/
theorem after_send (client : γ) (queue : List ρ) (record : ρ) (n : Nat) :
    after receive client (queue ++ [record]) n =
      if n ≤ queue.length then after receive client queue n
      else receive (queue.foldl receive client) record := by
  unfold after
  split
  · rename_i hn
    rw [List.take_append_of_le_length hn]
  · rename_i hn
    rw [List.take_of_length_le (by rw [List.length_append, List.length_singleton]; omega),
      List.foldl_append, List.foldl_cons, List.foldl_nil]

namespace Throughout

theorem now (h : Throughout receive P client queue) : P client := h 0

theorem last (h : Throughout receive P client queue) : P (queue.foldl receive client) := by
  rw [← after_length]
  exact h queue.length

theorem imp (h : Throughout receive P client queue) (hPQ : ∀ c, P c → Q c) :
    Throughout receive Q client queue :=
  fun n => hPQ _ (h n)

theorem of_now (h : P client) : Throughout receive P client [] := by
  intro n
  rw [after_nil]
  exact h

theorem send (h : Throughout receive P client queue)
    (hlast : P (receive (queue.foldl receive client) record)) :
    Throughout receive P client (queue ++ [record]) := by
  intro n
  rw [after_send]
  split
  · exact h n
  · exact hlast

theorem tail (h : Throughout receive P client (record :: queue)) :
    Throughout receive P (receive client record) queue :=
  fun n => h (n + 1)

end Throughout

namespace Steady

theorem head (h : Steady receive R client (record :: queue)) : R client (receive client record) :=
  h 0 1 (Nat.zero_le 1)

theorem of_now (h : R client client) : Steady receive R client [] := by
  intro m n _
  rw [after_nil, after_nil]
  exact h

theorem tail (h : Steady receive R client (record :: queue)) :
    Steady receive R (receive client record) queue :=
  fun m n hmn => h (m + 1) (n + 1) (Nat.succ_le_succ hmn)

theorem send (hrefl : ∀ c, R c c) (htrans : ∀ a b c, R a b → R b c → R a c)
    (h : Steady receive R client queue)
    (hlast : R (queue.foldl receive client) (receive (queue.foldl receive client) record)) :
    Steady receive R client (queue ++ [record]) := by
  intro m n hmn
  rw [after_send, after_send]
  by_cases hn : n ≤ queue.length
  · rw [if_pos (Nat.le_trans hmn hn), if_pos hn]
    exact h m n hmn
  · rw [if_neg hn]
    by_cases hm : m ≤ queue.length
    · -- up to the end of the queue, then the new record
      rw [if_pos hm]
      apply htrans _ _ _ (h m queue.length hm)
      rw [after_length]
      exact hlast
    · rw [if_neg hm]
      exact hrefl _

end Steady

end Sulion.InFlight
