import Sulion.Basic
import Mathlib.Algebra.Order.Group.Basic
import Mathlib.Algebra.Order.Pi

set_option autoImplicit false

/-! # Token counters

The five token columns every usage table carries, as one family: a row's counters are a
function of the column, so that the column-by-column arithmetic of the SQL statements is
pointwise arithmetic.
-/

namespace Sulion.Usage

/-- The token columns of `agent_model_usage_daily` and of the rollups made from it. -/
inductive TokenColumn
  | inputTokens
  | cachedInputTokens
  | cacheWriteInputTokens
  | cacheWrite1hInputTokens
  | outputTokens
  deriving DecidableEq, Repr

/-- The five counters of a row. -/
abbrev Tokens := TokenColumn → Int

/-- A row's counters, column by column. -/
def Tokens.of (input cachedInput cacheWriteInput cacheWrite1hInput output : Int) : Tokens
  | .inputTokens => input
  | .cachedInputTokens => cachedInput
  | .cacheWriteInputTokens => cacheWriteInput
  | .cacheWrite1hInputTokens => cacheWrite1hInput
  | .outputTokens => output

/-- `input + cached + cache_write + cache_write_1h + output`. -/
def Tokens.sum (t : Tokens) : Int :=
  t .inputTokens + t .cachedInputTokens + t .cacheWriteInputTokens + t .cacheWrite1hInputTokens
    + t .outputTokens

@[simp] theorem Tokens.sum_add (a b : Tokens) : (a + b).sum = a.sum + b.sum := by
  simp only [Tokens.sum, Pi.add_apply]
  ring

@[simp] theorem Tokens.sum_zero : (0 : Tokens).sum = 0 := rfl

/-- Counters as the tables store them: every column is checked to be nonnegative. -/
structure CheckedTokens where
  tokens : Tokens
  nonneg : 0 ≤ tokens

end Sulion.Usage
