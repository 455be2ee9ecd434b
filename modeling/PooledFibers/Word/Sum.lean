import PooledFibers.Fault
import PooledFibers.Word

/-!
# Sums that must be words

A sum of two words that is no word again ends the program.
-/

namespace PooledFibers.Word

def sum (a b : Nat) : Except Fault Nat :=
  if a + b < bound then .ok (a + b) else .error .overflow

variable {a b n : Nat} {fault : Fault}

theorem sum_eq_ok_iff : sum a b = .ok n ↔ a + b < bound ∧ a + b = n := by
  unfold sum
  split
  case isTrue h => simp [h]
  case isFalse h => simp [h]

theorem sum_eq_error_iff : sum a b = .error fault ↔ bound ≤ a + b ∧ fault = .overflow := by
  unfold sum
  split
  case isTrue h => simp [Nat.not_le.2 h]
  case isFalse h => simp [Nat.not_lt.1 h, eq_comm]

theorem sum_bind_eq_ok_iff {α : Type} {f : Nat → Except Fault α} {x : α} :
    (sum a b >>= f) = .ok x ↔ a + b < bound ∧ f (a + b) = .ok x := by
  unfold sum
  split
  case isTrue h => exact ⟨fun hf => ⟨h, hf⟩, And.right⟩
  case isFalse h => exact ⟨nofun, fun hf => absurd hf.1 h⟩

end PooledFibers.Word
