import Mathlib.Tactic.Common
import PooledFibers.Machine.AddressRange
import PooledFibers.Machine.Pages

/-!
# Reservations in a history of page calls

`PageCall.reserved` reads off a history which ranges are reserved, and `PageCall.Sound` says what a
provider owes: a reservation fits in the address space and meets none that is still reserved. In
a sound history the reserved ranges are pairwise apart (`pairwise_apart_reserved`).
-/

namespace PooledFibers

namespace AddressRange

/-- No address lies in both. -/
def Apart (r s : AddressRange) : Prop := ∀ a, ¬(r.contains a ∧ s.contains a)

def Within (r s : AddressRange) : Prop := s.low ≤ r.low ∧ r.high ≤ s.high

variable {r s r' s' : AddressRange}

theorem contains_iff {a : Nat} : r.contains a ↔ r.low ≤ a ∧ a < r.high := by
  simp [contains]

theorem Apart.symm (h : r.Apart s) : s.Apart r := fun a ha => h a ha.symm

theorem Apart.mono (h : r.Apart s) (hr : r'.Within r) (hs : s'.Within s) : r'.Apart s' := by
  intro a ⟨h1, h2⟩
  rw [contains_iff] at h1 h2
  refine h a ⟨contains_iff.2 ?_, contains_iff.2 ?_⟩
  · exact ⟨Nat.le_trans hr.1 h1.1, Nat.lt_of_lt_of_le h1.2 hr.2⟩
  · exact ⟨Nat.le_trans hs.1 h2.1, Nat.lt_of_lt_of_le h2.2 hs.2⟩

theorem apart_of_high_le_low (h : r.high ≤ s.low) : r.Apart s := by
  intro a ⟨h1, h2⟩
  rw [contains_iff] at h1 h2
  omega

theorem apart_iff : r.Apart s ↔
    r.high ≤ r.low ∨ s.high ≤ s.low ∨ r.high ≤ s.low ∨ s.high ≤ r.low := by
  constructor
  · intro h
    -- two ranges that meet have the larger of their low ends in common
    have hlow := h (max r.low s.low)
    simp only [contains_iff] at hlow
    omega
  · intro h a ha
    simp only [contains_iff] at ha
    omega

instance (r s : AddressRange) : Decidable (r.Apart s) := decidable_of_iff _ apart_iff.symm

/-- A range that is not empty is not apart from one around it. -/
theorem Within.not_apart (h : r.Within s) (hr : r.low < r.high) : ¬r.Apart s := by
  intro hd
  refine hd r.low ⟨contains_iff.2 ⟨Nat.le_refl _, hr⟩, contains_iff.2 ⟨h.1, ?_⟩⟩
  exact Nat.lt_of_lt_of_le hr h.2

end AddressRange

namespace PageCall

/-- The ranges reserved and not released since, the latest reservation first. -/
def reserved : List PageCall → List AddressRange
  | [] => []
  | .reserve bytes (.ok low) :: earlier => ⟨low, low + bytes⟩ :: reserved earlier
  | .release low bytes (.ok ()) :: earlier => (reserved earlier).erase ⟨low, low + bytes⟩
  | _ :: earlier => reserved earlier

/-- Every reservation ended at an address and met no range reserved at the time. -/
def Sound : List PageCall → Prop
  | [] => True
  | .reserve bytes (.ok low) :: earlier =>
    (low + bytes < Word.bound ∧ ∀ r ∈ reserved earlier, AddressRange.Apart ⟨low, low + bytes⟩ r)
      ∧ Sound earlier
  | _ :: earlier => Sound earlier

instance decidableSound : ∀ calls : List PageCall, Decidable (Sound calls)
  | [] => .isTrue trivial
  | .reserve bytes (.ok low) :: earlier =>
    have := decidableSound earlier
    inferInstanceAs (Decidable ((low + bytes < Word.bound
      ∧ ∀ r ∈ reserved earlier, AddressRange.Apart ⟨low, low + bytes⟩ r) ∧ Sound earlier))
  | .reserve _ (.error _) :: earlier | .guard _ _ _ :: earlier | .uncommit _ _ _ :: earlier
  | .release _ _ _ :: earlier => decidableSound earlier

theorem Sound.tail {call : PageCall} {calls : List PageCall} (h : Sound (call :: calls)) :
    Sound calls := by
  unfold Sound at h
  split at h
  · trivial
  · simp_all
  · simp_all

/-- A call reserves one more range, or none. -/
theorem reserved_cons {call : PageCall} {calls : List PageCall} (h : Sound (call :: calls)) :
    (∃ r, reserved (call :: calls) = r :: reserved calls ∧ r.high < Word.bound
        ∧ ∀ s ∈ reserved calls, r.Apart s)
      ∨ (reserved (call :: calls)).Sublist (reserved calls) := by
  rcases call with ⟨bytes, _ | low⟩ | ⟨_, _, _⟩ | ⟨_, _, _⟩ | ⟨low, bytes, _ | _⟩
  case reserve.ok => exact .inl ⟨⟨low, low + bytes⟩, rfl, h.1⟩
  case release.ok => exact .inr List.erase_sublist
  all_goals exact .inr (.refl _)

theorem pairwise_apart_reserved : ∀ {calls : List PageCall}, Sound calls →
    (reserved calls).Pairwise AddressRange.Apart
  | [], _ => .nil
  | _ :: _, h => by
    have ih := pairwise_apart_reserved h.tail
    obtain ⟨r, hr, -, hapart⟩ | hsub := reserved_cons h
    · rw [hr]
      exact .cons hapart ih
    · exact ih.sublist hsub

theorem high_lt_of_mem_reserved : ∀ {calls : List PageCall}, Sound calls →
    ∀ r ∈ reserved calls, r.high < Word.bound
  | [], _, r, hr => by simp [reserved] at hr
  | _ :: _, h, r, hr => by
    have ih := high_lt_of_mem_reserved h.tail
    obtain ⟨s, hs, hhigh, -⟩ | hsub := reserved_cons h
    · rw [hs] at hr
      rcases List.mem_cons.1 hr with rfl | hr
      · exact hhigh
      · exact ih r hr
    · exact ih r (hsub.subset hr)

end PageCall

end PooledFibers
