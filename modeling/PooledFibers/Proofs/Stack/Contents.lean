import Mathlib.Data.List.Nodup
import Mathlib.Tactic.Common
import PooledFibers.Fiber.Basic
import PooledFibers.Proofs.Stack.Requests

/-!
# What the stacks hold

A stack is written to when it is primed, and cleared when its pages are given back or its guard zone
cannot be protected. As long as what the provider reserves does not overlap, leasing a stack and
taking one back leave all other leased stacks alone, and so they do all memory that was not reserved
(`Pool.Accounts.read_of_acquire`, `Pool.Accounts.read_of_release`).
-/

namespace PooledFibers

namespace AddressRange

variable {r s : AddressRange} {a : Nat}

theorem Apart.contains_eq_false (h : r.Apart s) (ha : s.contains a = true) :
    r.contains a = false :=
  Bool.eq_false_iff.2 fun hr => h a ⟨hr, ha⟩

theorem Within.contains (h : r.Within s) (ha : r.contains a = true) : s.contains a = true := by
  rw [contains_iff] at ha ⊢
  exact ⟨Nat.le_trans h.1 ha.1, Nat.lt_of_lt_of_le ha.2 h.2⟩

theorem Within.contains_eq_false (h : r.Within s) (ha : s.contains a = false) :
    r.contains a = false :=
  Bool.eq_false_iff.2 fun hr => Bool.eq_false_iff.1 ha (h.contains hr)

end AddressRange

namespace PageCall

variable {made calls : List PageCall} {low bytes : Nat}

theorem mem_reserved_of_reserve (hmade : ∀ call ∈ made, call.release? = none)
    (hcall : .reserve bytes (.ok low) ∈ made) : ⟨low, low + bytes⟩ ∈ reserved (made ++ calls) := by
  rw [reserved_append hmade]
  refine List.mem_append_left _ (List.mem_map.2 ⟨(low, bytes), ?_, rfl⟩)
  exact List.mem_filterMap.2 ⟨_, hcall, rfl⟩

theorem mem_reserved_append {r : AddressRange} (hmade : ∀ call ∈ made, call.release? = none)
    (hr : r ∈ reserved calls) : r ∈ reserved (made ++ calls) := by
  rw [reserved_append hmade]
  exact List.mem_append_right _ hr

/-- What is reserved later is apart from what was reserved before. -/
theorem Sound.apart_of_reserve {r : AddressRange} (h : Sound (made ++ calls))
    (hmade : ∀ call ∈ made, call.release? = none) (hcall : .reserve bytes (.ok low) ∈ made)
    (hr : r ∈ reserved calls) : AddressRange.Apart ⟨low, low + bytes⟩ r := by
  have hapart := pairwise_apart_reserved h
  rw [reserved_append hmade, List.pairwise_append] at hapart
  refine hapart.2.2 _ (List.mem_map.2 ⟨(low, bytes), ?_, rfl⟩) r hr
  exact List.mem_filterMap.2 ⟨_, hcall, rfl⟩

end PageCall

namespace Machine

theorem read_write_of_ne {m : Machine} {address a : Nat} (ha : a ≠ address) (word : MemoryWord) :
    (m.write address word).read a = m.read a := by
  simp [read, write, ha]

/-- Only what is written to changes. -/
theorem read_writeAll {m : Machine} {address a : Nat} {words : List MemoryWord}
    (ha : AddressRange.contains ⟨address, address + Word.bytes * words.length⟩ a = false) :
    (m.writeAll address words).read a = m.read a := by
  induction words generalizing m address with
  | nil => rfl
  | cons word rest ih =>
    have hrest : AddressRange.Within
        ⟨address + Word.bytes, address + Word.bytes + Word.bytes * rest.length⟩
        ⟨address, address + Word.bytes * (word :: rest).length⟩ := by
      refine ⟨Nat.le_add_right _ _, ?_⟩
      simp only [List.length_cons, Nat.mul_succ]
      omega
    rw [writeAll, ih (hrest.contains_eq_false ha)]
    refine read_write_of_ne ?_ word
    rintro rfl
    simp [AddressRange.contains, Word.bytes] at ha

theorem readAll_writeAll {m : Machine} {address : Nat} {words : List MemoryWord} :
    (m.writeAll address words).readAll address words.length = words := by
  induction words generalizing m address with
  | nil => rfl
  | cons word rest ih =>
    have hbelow : AddressRange.contains
        ⟨address + Word.bytes, address + Word.bytes + Word.bytes * rest.length⟩ address = false := by
      refine Bool.eq_false_iff.2 fun hin => ?_
      have hlow : address + 8 ≤ address := (AddressRange.contains_iff.1 hin).1
      omega
    rw [writeAll, List.length_cons, readAll, ih, read_writeAll hbelow]
    simp [read, write]

theorem readAll_congr {m m' : Machine} {address n : Nat} (h : ∀ a,
      AddressRange.contains ⟨address, address + Word.bytes * n⟩ a = true → m'.read a = m.read a) :
    m'.readAll address n = m.readAll address n := by
  induction n generalizing address with
  | zero => rfl
  | succ n ih =>
    have hfirst : AddressRange.contains ⟨address, address + Word.bytes * (n + 1)⟩ address = true :=
      AddressRange.contains_iff.2 ⟨Nat.le_refl _, Nat.lt_add_of_pos_right (by simp [Word.bytes])⟩
    have hrest : AddressRange.Within
        ⟨address + Word.bytes, address + Word.bytes + Word.bytes * n⟩
        ⟨address, address + Word.bytes * (n + 1)⟩ := by
      refine ⟨Nat.le_add_right _ _, ?_⟩
      simp only [Nat.mul_succ]
      omega
    rw [readAll, readAll, h address hfirst, ih fun a ha => h a (hrest.contains ha)]

theorem calls_writeAll {m : Machine} {address : Nat} {words : List MemoryWord} :
    (m.writeAll address words).calls = m.calls := by
  induction words generalizing m address with
  | nil => rfl
  | cons word rest ih => exact ih

/-- More requests may have been made, but no reservation was given up. -/
def Retains (m m' : Machine) : Prop :=
  ∃ made, m'.calls = made ++ m.calls ∧ ∀ call ∈ made, call.release? = none

variable {m m' m'' : Machine}

theorem retains_of_calls (h : m'.calls = m.calls) : m.Retains m' := ⟨[], h, by simp⟩

theorem Retains.trans (h : m.Retains m') (h' : m'.Retains m'') : m.Retains m'' := by
  obtain ⟨made, hcalls, hmade⟩ := h
  obtain ⟨made', hcalls', hmade'⟩ := h'
  refine ⟨made' ++ made, by rw [hcalls', hcalls, List.append_assoc], fun call hcall => ?_⟩
  exact (List.mem_append.1 hcall).elim (hmade' call) (hmade call)

theorem Retains.sound (h : m.Retains m') (hsound : PageCall.Sound m'.calls) :
    PageCall.Sound m.calls := by
  obtain ⟨made, hcalls, -⟩ := h
  exact (hcalls ▸ hsound).of_append

theorem Retains.reserved_subset (h : m.Retains m') :
    PageCall.reserved m.calls ⊆ PageCall.reserved m'.calls := by
  obtain ⟨made, hcalls, hmade⟩ := h
  exact fun r hr => hcalls ▸ PageCall.mem_reserved_append hmade hr

end Machine

/-- The bytes at the top of a stack that priming writes to. -/
def Fiber.primedSize : Nat := Word.bytes * primedWords.length

theorem Fiber.retains_prime (m : Machine) (base : Nat) : m.Retains (prime m base) :=
  Machine.retains_of_calls Machine.calls_writeAll

/-- Priming writes to no other stack, if the primed one is large enough. -/
theorem Fiber.read_prime {m : Machine} {size base a : Nat} (hsize : primedSize ≤ size)
    (hbase : size ≤ base) (ha : (stackRange size base).contains a = false) :
    (prime m base).read a = m.read a := by
  refine Machine.read_writeAll (AddressRange.Within.contains_eq_false (s := stackRange size base) ?_ ha)
  simp only [primedSize] at hsize
  simp only [AddressRange.Within, stackRange, primedResume]
  omega

namespace Pool

variable {p p' : Pool} {leased mine : List Nat} {base a : Nat}

/-- The address lies on one of some stacks, or in no memory that was reserved. -/
def Elsewhere (p : Pool) (bases : List Nat) (a : Nat) : Prop :=
  (∃ base ∈ bases, (stackRange p.stackSize base).contains a = true)
    ∨ ∀ r ∈ PageCall.reserved p.machine.calls, r.contains a = false

theorem Accounts.stackSize_le (h : p.Accounts leased) (hb : base ∈ p.carvedBases) :
    p.stackSize ≤ base := by
  obtain ⟨s, hs, hbase⟩ := mem_carvedBases_iff.1 hb
  have hlow := ((h.shaped s hs).within_of_mem_bases hbase).2
  omega

theorem Accounts.exists_reserved (h : p.Accounts leased) (hb : base ∈ p.carvedBases) :
    ∃ r ∈ PageCall.reserved p.machine.calls, (stackRange p.stackSize base).Within r := by
  obtain ⟨s, hs, hbase⟩ := mem_carvedBases_iff.1 hb
  refine ⟨s.range, ?_, ((h.shaped s hs).within_of_mem_bases hbase).1⟩
  rw [h.reserved]
  exact List.mem_map_of_mem hs

/-- A stack is not where another one is. -/
theorem Accounts.contains_eq_false (h : p.Accounts leased)
    (hsound : PageCall.Sound p.machine.calls) (hb : base ∈ p.carvedBases)
    (hmine : mine ⊆ p.carvedBases) (hne : base ∉ mine) (ha : p.Elsewhere mine a) :
    (stackRange p.stackSize base).contains a = false := by
  obtain ⟨other, hother, ha⟩ | ha := ha
  · have hapart := h.pairwise_apart_carvedBases hsound
    have : Std.Symm fun a b => (stackRange p.stackSize a).Apart (stackRange p.stackSize b) :=
      ⟨fun _ _ => AddressRange.Apart.symm⟩
    have hdiffer : base ≠ other := fun heq => hne (heq ▸ hother)
    exact (hapart.forall hb (hmine hother) hdiffer).contains_eq_false ha
  · obtain ⟨r, hr, hwithin⟩ := h.exists_reserved hb
    exact hwithin.contains_eq_false (ha r hr)

section Release

/-- The stack that is taken back, and the free ones, are not leased to others. -/
theorem Accounts.not_mem_erase (h : p.Accounts leased) (hsound : PageCall.Sound p.machine.calls)
    {victim : Nat} (hvictim : victim ∈ base :: p.free.toList) : victim ∉ leased.erase base := by
  have hnodup := h.carved.nodup_iff.2 (h.nodup_carvedBases hsound)
  obtain ⟨hleased, -, hapart⟩ := List.nodup_append.1 hnodup
  rcases List.mem_cons.1 hvictim with rfl | hfree
  · exact hleased.not_mem_erase
  · exact fun hmem => hapart victim (List.mem_of_mem_erase hmem) victim hfree rfl

/-- Taking a stack back leaves the other leased stacks alone. -/
theorem Accounts.read_of_release (h : p.Accounts leased) (hb : base ∈ leased)
    (hr : p.release base = .ok p') (hsound : PageCall.Sound p.machine.calls)
    (ha : p.Elsewhere (leased.erase base) a) : p'.machine.read a = p.machine.read a := by
  obtain ⟨made, hfades, hmade⟩ := exists_calls_of_release hr
  refine hfades.read_eq fun call hcall range hclear => ?_
  obtain ⟨-, rfl⟩ | ⟨victim, outcome, hpush, rfl⟩ := hmade
  · simp at hcall
  obtain rfl := List.mem_singleton.1 hcall
  have hvictim : victim ∈ base :: p.free.toList := by
    have hlist : (p.free.push base p.residentCap).2.toList = base :: p.free.toList :=
      FreeList.toList_push
    rw [← hlist]
    exact FreeList.mem_toList_iff.2 (.inr (FreeList.mem_uncommitted_push_iff.2 (.inl hpush)))
  have hcarved : victim ∈ p.carvedBases := by
    rw [h.mem_carvedBases]
    refine (List.mem_cons.1 hvictim).imp_left ?_
    rintro rfl
    exact hb
  have hmine : leased.erase base ⊆ p.carvedBases := fun b hmem =>
    h.mem_carvedBases.2 (.inl (List.mem_of_mem_erase hmem))
  have hrange : range = stackRange p.stackSize victim := by
    cases outcome with
    | error => simp [PageCall.cleared?] at hclear
    | ok =>
      rw [← Option.some.inj hclear, stackRange, Nat.sub_add_cancel (h.stackSize_le hcarved)]
  rw [hrange]
  exact h.contains_eq_false hsound hcarved hmine (h.not_mem_erase hsound hvictim) ha

end Release

section Acquire

theorem release?_of_acquire {outcome : Except Failure Lease} {reserved made : List PageCall}
    (hreserved : p.Reserves reserved)
    (hmade : made = [] ∨ ∃ lease, outcome = .ok lease ∧ p.Protects lease.base made) :
    ∀ call ∈ (reserved ++ made).reverse, call.release? = none := by
  intro call hcall
  rcases List.mem_append.1 (List.mem_reverse.1 hcall) with hcall | hcall
  · obtain ⟨_, _, _, -, rfl⟩ := hreserved call hcall
    rfl
  · obtain rfl | ⟨_, -, hprotects⟩ := hmade
    · simp at hcall
    · cases hprotects with
      | disabled => simp at hcall
      | applied => exact List.mem_singleton.1 hcall ▸ rfl
      | refused error outcome => rcases List.mem_pair.1 hcall with rfl | rfl <;> rfl

theorem retains_of_acquire {outcome : Except Failure Lease} (h : p.acquire = .ok (outcome, p')) :
    p.machine.Retains p'.machine := by
  obtain ⟨reserved, made, hreserved, hfades, hmade⟩ := exists_calls_of_acquire h
  exact ⟨_, hfades.calls, release?_of_acquire hreserved hmade⟩

theorem retains_of_release (h : p.release base = .ok p') : p.machine.Retains p'.machine := by
  obtain ⟨made, hfades, hmade⟩ := exists_calls_of_release h
  refine ⟨_, hfades.calls, fun call hcall => ?_⟩
  obtain ⟨-, rfl⟩ | ⟨victim, outcome, -, rfl⟩ := hmade
  · simp at hcall
  · obtain rfl := List.mem_singleton.1 hcall
    rfl

/-- Of the new stack at most the guard zone is cleared. -/
theorem Protects.within_of_cleared {made : List PageCall} (h : p.Protects base made)
    (hzone : p.geometry.guardZone ≤ p.stackSize) (hbase : p.stackSize ≤ base) {call : PageCall}
    (hcall : call ∈ made) {range : AddressRange} (hclear : call.cleared? = some range) :
    range.Within (stackRange p.stackSize base) := by
  cases h with
  | disabled => simp at hcall
  | applied => simp [List.mem_singleton.1 hcall, PageCall.cleared?] at hclear
  | refused error outcome =>
    rcases List.mem_pair.1 hcall with rfl | rfl
    · simp [PageCall.cleared?] at hclear
    · cases outcome with
      | error => simp [PageCall.cleared?] at hclear
      | ok =>
        rw [← Option.some.inj hclear]
        simp only [AddressRange.Within, stackRange]
        omega

/-- The new stack is not where the stacks are that were leased before. -/
theorem Accounts.apart_of_acquire (h : p.Accounts leased) {lease : Lease}
    (hr : p.acquire = .ok (.ok lease, p')) (hsound : PageCall.Sound p'.machine.calls)
    (ha : p'.Elsewhere leased a) : (stackRange p'.stackSize lease.base).contains a = false := by
  have h' := h.acquire hr
  have hnew : lease.base ∈ p'.carvedBases :=
    h'.mem_carvedBases.2 (.inl (List.mem_append_left _ List.mem_cons_self))
  have hother : lease.base ∉ leased := by
    have hnodup := h'.carved.nodup_iff.2 (h'.nodup_carvedBases hsound)
    exact (List.nodup_cons.1 (List.nodup_append.1 hnodup).1).1
  have hmine : leased ⊆ p'.carvedBases := fun base hbase =>
    h'.mem_carvedBases.2 (.inl (List.mem_append_right _ hbase))
  exact h'.contains_eq_false hsound hnew hmine hother ha

/-- Leasing a stack leaves the stacks alone that were leased before. -/
theorem Accounts.read_of_acquire (h : p.Accounts leased)
    (hzone : p.geometry.guardZone ≤ p.stackSize) {outcome : Except Failure Lease}
    (hr : p.acquire = .ok (outcome, p')) (hsound : PageCall.Sound p'.machine.calls)
    (ha : p'.Elsewhere leased a) : p'.machine.read a = p.machine.read a := by
  have h' := h.acquire hr
  have hsize : p'.stackSize = p.stackSize :=
    congrArg Geometry.stackSize (alike_of_acquire hr).geometry
  obtain ⟨reserved, made, hreserved, hfades, hmade⟩ := exists_calls_of_acquire hr
  have hnone := release?_of_acquire hreserved hmade
  refine hfades.read_eq fun call hcall range hclear => ?_
  rcases List.mem_append.1 (List.mem_reverse.1 hcall) with hreserve | hprotect
  · -- a reservation lies apart from the slabs before it
    obtain ⟨_, bytes, outcome, -, rfl⟩ := hreserved call hreserve
    cases outcome with
    | error => simp [PageCall.cleared?] at hclear
    | ok low =>
      obtain rfl := Option.some.inj hclear
      obtain ⟨base, hbase, hcontains⟩ | houtside := ha
      · obtain ⟨r, hr, hwithin⟩ := h.exists_reserved (h.mem_carvedBases.2 (.inl hbase))
        have hapart := PageCall.Sound.apart_of_reserve (hfades.calls ▸ hsound) hnone hcall hr
        exact hapart.contains_eq_false (hwithin.contains (hsize ▸ hcontains))
      · refine houtside _ ?_
        rw [hfades.calls]
        exact PageCall.mem_reserved_of_reserve hnone hcall
  · -- the guard zone is that of the new stack
    obtain rfl | ⟨lease, rfl, hprotects⟩ := hmade
    · simp at hprotect
    have hnew : lease.base ∈ p'.carvedBases :=
      h'.mem_carvedBases.2 (.inl (List.mem_append_left _ List.mem_cons_self))
    have hwithin := hprotects.within_of_cleared hzone (hsize ▸ h'.stackSize_le hnew) hprotect hclear
    refine hwithin.contains_eq_false ?_
    rw [← hsize]
    exact h.apart_of_acquire hr hsound ha

end Acquire

section Fading

theorem fades_of_acquire {outcome : Except Failure Lease} (h : p.acquire = .ok (outcome, p')) :
    p.machine.Fades p'.machine := by
  obtain ⟨_, _, -, hfades, -⟩ := exists_calls_of_acquire h
  exact hfades.fades

theorem fades_of_release (h : p.release base = .ok p') : p.machine.Fades p'.machine := by
  obtain ⟨_, hfades, -⟩ := exists_calls_of_release h
  exact hfades.fades

end Fading

end Pool

end PooledFibers
