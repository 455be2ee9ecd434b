import PooledFibers.Proofs.Alignment
import PooledFibers.Stack.Geometry

/-!
# The sizes of stacks and slabs

A size computed in checked steps is the true size where that fits in a word, and `none` just where
it does not (`Settings.stackBytes?_eq_checked`, `Settings.slabBytes?_eq_checked`). If a slab has a
size, then none of the smaller sizes stops at the largest word (`Geometry.zones_ofSettings`).
-/

namespace PooledFibers

namespace Settings

variable {s : Settings} {page k : Nat}

/-- Pages below the usable part of a stack, however many. -/
def reservedPages (s : Settings) : Nat := s.shadowPages + s.yellowPages + s.redPages

/-- Bytes of one stack with its zones in whole pages, however many. -/
def stackBytes (s : Settings) (page : Nat) : Nat :=
  Word.roundUp (page * s.reservedPages + s.stackSize) page

theorem reservedPages?_eq_checked : s.reservedPages? = Word.checked s.reservedPages :=
  Word.checked_bind (· + s.redPages) (Nat.le_add_right _ _)

theorem stackBytes?_eq_checked (hk : k ≤ 64) :
    s.stackBytes? (2 ^ k) = Word.checked (s.stackBytes (2 ^ k)) := by
  have hpos : 0 < 2 ^ k := Nat.two_pow_pos k
  have hbytes : s.stackBytes? (2 ^ k)
      = (s.reservedPages?.bind fun pages => Word.checked (pages * 2 ^ k)).bind fun zones =>
        (Word.checked (s.stackSize + zones)).bind fun sum => Word.alignUp? sum (2 ^ k) := by
    simp only [stackBytes?, Word.mul?, Word.add?, Option.bind_eq_bind, Option.bind_assoc]
  rw [hbytes, reservedPages?_eq_checked,
    Word.checked_bind (· * 2 ^ k) (Nat.le_mul_of_pos_right _ hpos)]
  simp only [Word.checked_bind_alignUp? hk]
  rw [Word.checked_bind (fun zones => Word.roundUp (s.stackSize + zones) (2 ^ k))
      (Nat.le_trans (Nat.le_add_left _ _) (Word.le_roundUp hpos)),
    stackBytes, Nat.add_comm, Nat.mul_comm]

theorem dvd_stackBytes : page ∣ s.stackBytes page := Word.dvd_roundUp

theorem slabBytes?_eq_checked (hk : k ≤ 64) (hslab : 0 < s.stacksPerSlab) :
    s.slabBytes? (2 ^ k) = Word.checked (s.stacksPerSlab * s.stackBytes (2 ^ k)) := by
  have hpos : 0 < 2 ^ k := Nat.two_pow_pos k
  simp only [slabBytes?, stackBytes?_eq_checked hk, Word.mul?, Option.bind_eq_bind,
    Word.checked_bind_alignUp? hk]
  rw [Word.checked_bind (fun stack => Word.roundUp (stack * s.stacksPerSlab) (2 ^ k))
      (Nat.le_trans (Nat.le_mul_of_pos_right _ hslab) (Word.le_roundUp hpos)),
    Word.roundUp_of_dvd hpos (Nat.dvd_mul_right_of_dvd dvd_stackBytes _), Nat.mul_comm]

/-- A stack holds its zones and what was asked for above them. -/
theorem reservedPages_add_le (hpage : 0 < page) :
    page * s.reservedPages + s.stackSize ≤ s.stackBytes page := Word.le_roundUp hpage

theorem zone_lt_of_slab (hpage : 0 < page) (hslab : 0 < s.stacksPerSlab)
    (h : s.stacksPerSlab * s.stackBytes page < Word.bound) :
    page * s.reservedPages < Word.bound :=
  calc page * s.reservedPages
      ≤ page * s.reservedPages + s.stackSize := Nat.le_add_right _ _
    _ ≤ s.stackBytes page := reservedPages_add_le hpage
    _ ≤ s.stacksPerSlab * s.stackBytes page := Nat.le_mul_of_pos_left _ hslab
    _ < Word.bound := h

theorem guardZonePages_le : s.guardZonePages ≤ s.reservedPages := by
  simp only [guardZonePages, reservedPages]
  omega

end Settings

namespace Geometry

variable {s : Settings} {page k : Nat}

theorem stackSize_ofSettings (hk : k ≤ 64) (h : s.stackBytes (2 ^ k) < Word.bound) :
    (ofSettings s (2 ^ k)).stackSize = s.stackBytes (2 ^ k) := by
  simp [ofSettings, Settings.stackBytes?_eq_checked hk, Word.checked_eq_some_iff.2 ⟨h, rfl⟩]

/-- The zones have their true sizes where these fit in a word. -/
theorem zones_ofSettings (hpage : 0 < page) (hzone : page * s.reservedPages < Word.bound) :
    (ofSettings s page).guardZone = page * s.guardZonePages
      ∧ (ofSettings s page).reservedZone = page * s.reservedPages := by
  have hword : ∀ n < Word.bound, min n Word.greatest = n := fun n hn =>
    Nat.min_eq_left (Nat.le_pred_of_lt hn)
  have hpages : s.reservedPages < Word.bound :=
    Nat.lt_of_le_of_lt (Nat.le_mul_of_pos_left _ hpage) hzone
  have hguardPages := Nat.lt_of_le_of_lt (Settings.guardZonePages_le (s := s)) hpages
  have hguard := Nat.lt_of_le_of_lt (Nat.mul_le_mul_left page Settings.guardZonePages_le) hzone
  simp only [Settings.reservedPages, Settings.guardZonePages] at *
  simp only [ofSettings, guardZone, reservedZone, Word.addSat, Word.mulSat]
  rw [hword (s.yellowPages + s.redPages) hguardPages,
    hword (s.shadowPages + s.yellowPages) (by omega),
    hword (s.shadowPages + s.yellowPages + s.redPages) hpages, Nat.mul_comm _ page,
    Nat.mul_comm _ page, hword _ hzone, hword _ hguard]
  exact ⟨rfl, rfl⟩

end Geometry

end PooledFibers
