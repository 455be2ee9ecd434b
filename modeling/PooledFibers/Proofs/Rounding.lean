import Mathlib.Algebra.Group.Nat.Defs
import Mathlib.Tactic.Common
import PooledFibers.Stack.Geometry

/-!
# Rounding up never loses bytes

Clearing the low bits of `value + (align - 1)` takes away at most `align - 1`, so what
`Word.alignUp?` answers is at least `value` (`le_of_alignUp?`), whatever the alignment. So the
stacks and slabs of usable settings are not empty.
-/

namespace PooledFibers

namespace Word

theorem or_le_add (x y : Nat) : x ||| y ≤ x + y := by
  induction x using Nat.strongRecOn generalizing y with
  | _ x ih =>
    rcases Nat.eq_zero_or_pos x with rfl | hx
    · simp
    · have hhalf := ih (x / 2) (by omega) (y / 2)
      rw [← Nat.or_div_two] at hhalf
      have hbit := @Nat.or_mod_two_eq_one x y
      omega

theorem bound_eq : bound = 2 ^ 64 := rfl

/-- The mask of an alignment clears just the bits of `align - 1`. -/
theorem testBit_and_mask {sum align : Nat} (hs : sum < bound) (ha : 0 < align) (hb : align ≤ bound)
    (i : Nat) :
    (sum &&& (bound - align)).testBit i = (sum.testBit i && !(align - 1).testBit i) := by
  have hmask : bound - align = 2 ^ 64 - (align - 1 + 1) := by rw [bound_eq]; omega
  have hlow : align - 1 < 2 ^ 64 := by rw [bound_eq] at hb; omega
  rw [Nat.testBit_and, hmask, Nat.testBit_two_pow_sub_succ hlow]
  by_cases hi : i < 64
  · simp [hi]
  · have hword : sum.testBit i = false :=
      Nat.testBit_lt_two_pow
        (Nat.lt_of_lt_of_le (bound_eq ▸ hs) (Nat.pow_le_pow_right (by decide) (by omega)))
    simp [hword]

theorem le_and_mask_add {sum align : Nat} (hs : sum < bound) (ha : 0 < align)
    (hb : align ≤ bound) : sum ≤ (sum &&& (bound - align)) + (align - 1) := by
  have hsplit : sum = (sum &&& (bound - align)) ||| (sum &&& (align - 1)) := by
    apply Nat.eq_of_testBit_eq
    intro i
    rw [Nat.testBit_or, testBit_and_mask hs ha hb, Nat.testBit_and]
    cases sum.testBit i <;> cases (align - 1).testBit i <;> rfl
  calc sum ≤ (sum &&& (bound - align)) + (sum &&& (align - 1)) := by
        conv_lhs => rw [hsplit]
        exact or_le_add _ _
    _ ≤ (sum &&& (bound - align)) + (align - 1) := Nat.add_le_add_left Nat.and_le_right _

theorem le_of_alignUp? {value align r : Nat} (ha : 0 < align)
    (h : alignUp? value align = some r) : value ≤ r := by
  simp only [alignUp?, add?, Option.map_eq_some_iff] at h
  obtain ⟨sum, hsum, rfl⟩ := h
  obtain ⟨hlt, rfl⟩ := checked_eq_some_iff.1 hsum
  have := le_and_mask_add hlt ha (by omega)
  omega

end Word

namespace Settings

theorem pos_of_validate {s : Settings} {page : Nat} (h : s.validate page = .ok ()) :
    0 < s.stackSize ∧ 0 < s.stacksPerSlab := by
  simp only [validate, defect?] at h
  split_ifs at h
  simp_all
  omega

theorem stackSize_le_stackBytes? {s : Settings} {page bytes : Nat} (hp : 0 < page)
    (h : s.stackBytes? page = some bytes) : s.stackSize ≤ bytes := by
  simp only [stackBytes?, Option.bind_eq_bind, Option.bind_eq_some_iff] at h
  obtain ⟨pages, -, zones, -, sum, hsum, halign⟩ := h
  obtain ⟨-, rfl⟩ := Word.checked_eq_some_iff.1 hsum
  exact Nat.le_trans (Nat.le_add_right _ _) (Word.le_of_alignUp? hp halign)

end Settings

/-- A stack is never empty, not even one whose size does not fit in a word. -/
theorem Geometry.stackSize_pos {s : Settings} {page : Nat} (hs : 0 < s.stackSize)
    (hp : 0 < page) : 0 < (Geometry.ofSettings s page).stackSize := by
  simp only [ofSettings]
  cases h : s.stackBytes? page with
  | none => decide
  | some bytes => exact Nat.lt_of_lt_of_le hs (Settings.stackSize_le_stackBytes? hp h)

/-- The guard zone lies inside the stack, where either stops at the largest word too. -/
theorem Geometry.guardZone_le_stackSize (s : Settings) {page : Nat} (hp : 0 < page) :
    (Geometry.ofSettings s page).guardZone ≤ (Geometry.ofSettings s page).stackSize := by
  simp only [ofSettings, guardZone]
  cases h : s.stackBytes? page with
  | none => exact Nat.min_le_right _ _
  | some bytes =>
    simp only [Settings.stackBytes?, Settings.reservedPages?, Option.bind_eq_bind,
      Option.bind_eq_some_iff] at h
    obtain ⟨pages, ⟨above, habove, hpages⟩, zones, hzones, sum, hsum, halign⟩ := h
    obtain ⟨-, rfl⟩ := Word.checked_eq_some_iff.1 habove
    obtain ⟨-, rfl⟩ := Word.checked_eq_some_iff.1 hpages
    obtain ⟨-, rfl⟩ := Word.checked_eq_some_iff.1 hzones
    obtain ⟨-, rfl⟩ := Word.checked_eq_some_iff.1 hsum
    calc Word.mulSat (Word.addSat s.yellowPages s.redPages) page
        ≤ Word.addSat s.yellowPages s.redPages * page := Nat.min_le_left _ _
      _ ≤ (s.shadowPages + s.yellowPages + s.redPages) * page :=
        Nat.mul_le_mul_right page (Nat.le_trans (Nat.min_le_left _ _) (by omega))
      _ ≤ s.stackSize + (s.shadowPages + s.yellowPages + s.redPages) * page := Nat.le_add_left _ _
      _ ≤ bytes := Word.le_of_alignUp? hp halign

end PooledFibers
