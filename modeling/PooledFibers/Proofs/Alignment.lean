import Mathlib.Algebra.Order.Floor.Div
import Mathlib.Order.Bounds.Basic
import PooledFibers.Proofs.Rounding

/-!
# Masks round up exactly

For an alignment that is a power of two, `Word.alignUp?` answers the least multiple of it that is
not below the value, and refuses just when that multiple is not a word (`alignUp?_two_pow`): the sum
that the mask is put on is a word in just the same cases (`add_pred_lt_bound_iff`). So a chain of
checked steps that never lowers its value refuses just when the last step would (`checked_bind`): it
does not matter at which step the overflow comes.
-/

namespace PooledFibers.Word

variable {value align n k : Nat}

/-- The least multiple of `align` that is not below `value`, however large. -/
def roundUp (value align : Nat) : Nat := align * (value ⌈/⌉ align)

theorem dvd_roundUp : align ∣ roundUp value align := Nat.dvd_mul_right _ _

theorem roundUp_le_iff (ha : 0 < align) (hn : align ∣ n) :
    roundUp value align ≤ n ↔ value ≤ n := by
  obtain ⟨m, rfl⟩ := hn
  rw [roundUp, Nat.mul_le_mul_left_iff ha, ceilDiv_le_iff_le_mul ha]

theorem le_roundUp (ha : 0 < align) : value ≤ roundUp value align :=
  (roundUp_le_iff ha dvd_roundUp).1 (Nat.le_refl _)

theorem isLeast_roundUp (ha : 0 < align) :
    IsLeast {n | align ∣ n ∧ value ≤ n} (roundUp value align) :=
  ⟨⟨dvd_roundUp, le_roundUp ha⟩, fun _ hn => (roundUp_le_iff ha hn.1).2 hn.2⟩

theorem roundUp_of_dvd (ha : 0 < align) (h : align ∣ value) : roundUp value align = value :=
  Nat.le_antisymm ((roundUp_le_iff ha h).2 (Nat.le_refl _)) (le_roundUp ha)

theorem isPowerOfTwo_iff : isPowerOfTwo n = true ↔ ∃ k, n = 2 ^ k := by
  simp only [isPowerOfTwo, Bool.and_eq_true, bne_iff_ne, beq_iff_eq]
  constructor
  · rintro ⟨hzero, hand⟩
    -- above its highest power of two, a number and its predecessor share the highest bit
    have hle : 2 ^ n.log2 ≤ n := Nat.log2_self_le hzero
    refine ⟨n.log2, Nat.le_antisymm (Nat.le_of_not_lt fun hlt => ?_) hle⟩
    have hbit : n.testBit n.log2 = true :=
      Nat.testBit_of_two_pow_le_and_two_pow_add_one_gt hle Nat.lt_log2_self
    have hbit' : (n - 1).testBit n.log2 = true :=
      Nat.testBit_of_two_pow_le_and_two_pow_add_one_gt (by omega)
        (Nat.lt_of_le_of_lt (Nat.sub_le _ _) Nat.lt_log2_self)
    have hshared : (n &&& (n - 1)).testBit n.log2 = true := by
      rw [Nat.testBit_and, hbit, hbit', Bool.and_self]
    simp [hand] at hshared
  · rintro ⟨k, rfl⟩
    exact ⟨(Nat.two_pow_pos k).ne', by rw [Nat.and_two_pow_sub_one_eq_mod, Nat.mod_self]⟩

/-- The mask of a power of two clears the bits below it. -/
theorem and_mask_two_pow {sum : Nat} (hs : sum < bound) (hk : k ≤ 64) :
    sum &&& (bound - 2 ^ k) = 2 ^ k * (sum / 2 ^ k) := by
  apply Nat.eq_of_testBit_eq
  intro i
  rw [testBit_and_mask hs (Nat.two_pow_pos k) (Nat.pow_le_pow_right (by decide) hk),
    Nat.testBit_two_pow_sub_one, Nat.testBit_two_pow_mul, Nat.testBit_div_two_pow]
  by_cases hi : k ≤ i
  · simp [hi]
  · simp [hi]
    omega

theorem roundUp_two_pow : roundUp value (2 ^ k) = 2 ^ k * ((value + (2 ^ k - 1)) / 2 ^ k) := by
  rw [roundUp, Nat.ceilDiv_eq_add_pred_div, Nat.add_sub_assoc (Nat.two_pow_pos k)]

/-- A power of two divides the bound, so a sum that is not a word does not fall below the bound when
it is rounded down. -/
theorem add_pred_lt_bound_iff (hk : k ≤ 64) :
    value + (2 ^ k - 1) < bound ↔ roundUp value (2 ^ k) < bound := by
  have hpos : 0 < 2 ^ k := Nat.two_pow_pos k
  have hbound : bound = 2 ^ (64 - k) * 2 ^ k := by
    rw [bound_eq, ← Nat.pow_add, Nat.sub_add_cancel hk]
  calc value + (2 ^ k - 1) < bound
      ↔ (value + (2 ^ k - 1)) / 2 ^ k < 2 ^ (64 - k) := by
        rw [Nat.div_lt_iff_lt_mul hpos, hbound]
    _ ↔ 2 ^ k * ((value + (2 ^ k - 1)) / 2 ^ k) < 2 ^ k * 2 ^ (64 - k) :=
        (Nat.mul_lt_mul_left hpos).symm
    _ ↔ roundUp value (2 ^ k) < bound := by
        rw [roundUp_two_pow, hbound, Nat.mul_comm (2 ^ (64 - k))]

theorem alignUp?_two_pow (hk : k ≤ 64) :
    alignUp? value (2 ^ k) = checked (roundUp value (2 ^ k)) := by
  by_cases hsum : value + (2 ^ k - 1) < bound
  · have hround := (add_pred_lt_bound_iff hk).1 hsum
    rw [alignUp?, add?, checked_eq_some_iff.2 ⟨hsum, rfl⟩, checked_eq_some_iff.2 ⟨hround, rfl⟩,
      Option.map_some, and_mask_two_pow hsum hk, roundUp_two_pow]
  · have hround := mt (add_pred_lt_bound_iff hk).2 hsum
    rw [alignUp?, add?, checked_eq_none_iff.2 (Nat.le_of_not_lt hsum),
      checked_eq_none_iff.2 (Nat.le_of_not_lt hround), Option.map_none]

theorem checked_bind (f : Nat → Nat) (h : n ≤ f n) :
    ((checked n).bind fun m => checked (f m)) = checked (f n) := by
  by_cases hn : n < bound
  · rw [checked_eq_some_iff.2 ⟨hn, rfl⟩, Option.bind_some]
  · rw [checked_eq_none_iff.2 (Nat.le_of_not_lt hn),
      checked_eq_none_iff.2 (Nat.le_trans (Nat.le_of_not_lt hn) h), Option.bind_none]

theorem checked_bind_alignUp? (hk : k ≤ 64) (n : Nat) :
    ((checked n).bind fun m => alignUp? m (2 ^ k)) = checked (roundUp n (2 ^ k)) := by
  simp only [alignUp?_two_pow hk]
  exact checked_bind (roundUp · (2 ^ k)) (le_roundUp (Nat.two_pow_pos k))

/-- Rounding up to a power of two answers the least multiple of it that is not below the value
where that multiple is a word, and refuses everywhere else. The sum that the mask is put on is
above that multiple as a rule, but is a word in just the same cases. -/
theorem exists_isLeast_alignUp? (hk : k < 64) (value : Nat) :
    ∃ least, IsLeast {n | 2 ^ k ∣ n ∧ value ≤ n} least
      ∧ (∀ r, alignUp? value (2 ^ k) = some r ↔ least < bound ∧ r = least)
      ∧ (alignUp? value (2 ^ k) = none ↔ bound ≤ least)
      ∧ (add? value (2 ^ k - 1) = none ↔ bound ≤ least) := by
  have hk := Nat.le_of_lt hk
  refine ⟨roundUp value (2 ^ k), isLeast_roundUp (Nat.two_pow_pos k), fun r => ?_, ?_, ?_⟩
  · rw [alignUp?_two_pow hk, checked_eq_some_iff, eq_comm (a := r)]
  · rw [alignUp?_two_pow hk, checked_eq_none_iff]
  · rw [add?, checked_eq_none_iff, ← Nat.not_lt, add_pred_lt_bound_iff hk, Nat.not_lt]

/-- The last page below the bound starts at its only multiple of the page: the least multiple for
what comes after is the bound itself. -/
theorem alignUp?_of_last_page :
    12 < 64
      ∧ alignUp? (bound - 4096) (2 ^ 12) = some (bound - 4096)
      ∧ IsLeast {n | 2 ^ 12 ∣ n ∧ bound - 4095 ≤ n} bound
      ∧ add? (bound - 4095) (2 ^ 12 - 1) = none
      ∧ alignUp? (bound - 4095) (2 ^ 12) = none := by
  have hk : 12 < 64 := by decide
  obtain ⟨least, hleast, hsome, -, -⟩ := exists_isLeast_alignUp? hk (bound - 4096)
  obtain ⟨next, hnext, -, hnone, hsum⟩ := exists_isLeast_alignUp? hk (bound - 4095)
  have hstart : least = bound - 4096 :=
    hleast.unique ⟨⟨by decide, Nat.le_refl _⟩, fun n hn => hn.2⟩
  have hend : next = bound := by
    refine Nat.le_antisymm (hnext.2 ⟨by decide, Nat.sub_le _ _⟩) ?_
    obtain ⟨⟨m, rfl⟩, hle⟩ := hnext.1
    rw [bound_eq] at hle ⊢
    omega
  subst hstart hend
  exact ⟨hk, (hsome _).2 ⟨by decide, rfl⟩, hnext, hsum.2 (Nat.le_refl _), hnone.2 (Nat.le_refl _)⟩

end PooledFibers.Word
