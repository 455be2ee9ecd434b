import Mathlib.Data.List.Basic
import Mathlib.Data.List.Range
import Mathlib.Tactic.Common
import PooledFibers.Proofs.Stack.Reservation
import PooledFibers.Stack.Slab

/-!
# The stacks of a slab and the free list

A slab whose stacks fit in its reservation (`Slab.Shaped`) finds a carved stack by its base
(`slotOf?_eq_some_iff`), keeps every stack inside the reservation (`within_of_mem_bases`) and the
stacks apart from each other (`pairwise_apart_bases`).
The index cuts the free list in two (`FreeList.toList_eq`). `FreeList.pop?_cases` and
`FreeList.push_cases` say what taking and adding a stack does to the two parts, the latest released
first in each, and `FreeList.residency?_eq` that a stack is told by the part it is in.
-/

namespace PooledFibers

/-- The addresses of the stack with a base. -/
def stackRange (stackSize base : Nat) : AddressRange := ⟨base - stackSize, base⟩

namespace Slab

def range (s : Slab) : AddressRange := ⟨s.low, s.low + s.reserved⟩

/-- The bases of the stacks carved, the first carved first. -/
def bases (s : Slab) (stackSize : Nat) : List Nat :=
  (List.range s.carved).map (s.baseOf stackSize)

/-- The stacks that a slab can hold end at its top and fit in its reservation. -/
structure Shaped (s : Slab) (stackSize : Nat) : Prop where
  top : s.top = s.low + s.capacity * stackSize
  room : s.capacity * stackSize ≤ s.reserved
  carved : s.carved ≤ s.capacity
  recorded : s.guards.length = s.carved

variable {s : Slab} {size base : Nat}

@[simp] theorem carved_carve (g : GuardState) : (s.carve g).carved = s.carved + 1 := rfl

theorem bases_carve (g : GuardState) :
    (s.carve g).bases size = s.bases size ++ [s.nextBase size] := by
  simp only [bases, carved_carve, List.range_succ, List.map_append, List.map_cons, List.map_nil]
  rfl

theorem Shaped.carve (h : s.Shaped size) (hfull : s.isFull = false) (g : GuardState) :
    (s.carve g).Shaped size where
  top := h.top
  room := h.room
  carved := by
    have := h.carved
    simp only [isFull, beq_eq_false_iff_ne, carved_carve] at *
    simp only [Slab.carve]
    omega
  recorded := by simp [Slab.carve, h.recorded]

/-- A stack of the slab ends one stack size above where it starts, below the stacks before it. -/
theorem Shaped.baseOf_add (h : s.Shaped size) {slot : Nat} (hslot : slot < s.capacity) :
    s.baseOf size slot + slot * size = s.top ∧ s.low + size ≤ s.baseOf size slot := by
  have hle : (slot + 1) * size ≤ s.capacity * size := Nat.mul_le_mul_right size hslot
  rw [Nat.succ_mul] at hle
  have htop := h.top
  simp only [baseOf]
  omega

theorem Shaped.slotOf?_eq_some_iff (h : s.Shaped size) (hsize : 0 < size) {slot : Nat} :
    s.slotOf? size base = some slot ↔ slot < s.carved ∧ base = s.baseOf size slot := by
  constructor
  · intro hs
    simp only [slotOf?] at hs
    split_ifs at hs with hout hmod hcarved
    simp only [Option.some.injEq] at hs
    subst hs
    refine ⟨hcarved, ?_⟩
    have hdiv : (s.top - base) / size * size = s.top - base :=
      Nat.div_mul_cancel (Nat.dvd_of_mod_eq_zero (by omega))
    simp only [baseOf, hdiv]
    omega
  · rintro ⟨hslot, rfl⟩
    obtain ⟨hadd, hlow⟩ := h.baseOf_add (Nat.lt_of_lt_of_le hslot h.carved)
    have hsub : s.top - s.baseOf size slot = slot * size := by omega
    simp only [slotOf?]
    rw [if_neg (by omega), hsub, if_neg (by simp), Nat.mul_div_cancel _ hsize, if_pos hslot]

theorem Shaped.exists_slotOf?_iff (h : s.Shaped size) (hsize : 0 < size) :
    (∃ slot, s.slotOf? size base = some slot) ↔ base ∈ s.bases size := by
  simp only [h.slotOf?_eq_some_iff hsize, bases, List.mem_map, List.mem_range]
  exact exists_congr fun _ => and_congr_right fun _ => eq_comm

theorem Shaped.isSome_guardOf? (h : s.Shaped size) (hsize : 0 < size)
    (hb : base ∈ s.bases size) : (s.guardOf? size base).isSome := by
  obtain ⟨slot, hs⟩ := (h.exists_slotOf?_iff hsize).2 hb
  have hslot : slot < s.guards.length := h.recorded ▸ ((h.slotOf?_eq_some_iff hsize).1 hs).1
  simp [guardOf?, hs, hslot]

theorem Shaped.within_of_mem_bases (h : s.Shaped size) (hb : base ∈ s.bases size) :
    (stackRange size base).Within s.range ∧ s.low + size ≤ base := by
  simp only [bases, List.mem_map, List.mem_range] at hb
  obtain ⟨slot, hslot, rfl⟩ := hb
  obtain ⟨hadd, hlow⟩ := h.baseOf_add (Nat.lt_of_lt_of_le hslot h.carved)
  have htop := h.top
  have hroom := h.room
  simp only [AddressRange.Within, stackRange, range]
  omega

/-- Of two stacks the one carved later lies below. -/
theorem Shaped.pairwise_apart_bases (h : s.Shaped size) :
    (s.bases size).Pairwise fun a b => (stackRange size a).Apart (stackRange size b) := by
  rw [bases, List.pairwise_map]
  refine List.pairwise_lt_range.imp_of_mem fun {i j} hi hj hij => ?_
  have hj := Nat.lt_of_lt_of_le (List.mem_range.1 hj) h.carved
  obtain ⟨hi', -⟩ := h.baseOf_add (Nat.lt_trans hij hj)
  obtain ⟨hj', -⟩ := h.baseOf_add hj
  have hle : (i + 1) * size ≤ j * size := Nat.mul_le_mul_right size hij
  rw [Nat.succ_mul] at hle
  refine AddressRange.Apart.symm (AddressRange.apart_of_high_le_low ?_)
  simp only [stackRange]
  omega

end Slab

namespace FreeList

section Views

/-- All free stacks, the latest released first. -/
def toList (f : FreeList) : List Nat := f.entries.reverse

/-- Those that still have their pages, the latest released first. -/
def resident (f : FreeList) : List Nat := (f.entries.drop f.uncommitIndex).reverse

/-- Those whose pages were to be given back, the latest released first. -/
def uncommitted (f : FreeList) : List Nat := (f.entries.take f.uncommitIndex).reverse

variable {f : FreeList} {base : Nat}

/-- All resident stacks were released after all uncommitted ones. -/
theorem toList_eq (f : FreeList) : f.toList = f.resident ++ f.uncommitted := by
  rw [toList, resident, uncommitted, ← List.reverse_append, List.take_append_drop]

theorem mem_toList_iff : base ∈ f.toList ↔ base ∈ f.resident ∨ base ∈ f.uncommitted := by
  rw [toList_eq, List.mem_append]

theorem length_toList (f : FreeList) : f.toList.length = f.size := List.length_reverse

theorem length_uncommitted (f : FreeList) : f.uncommitted.length = f.uncommitIndex := by
  rw [uncommitted, List.length_reverse, List.length_take, Nat.min_eq_left f.bound]

end Views

section Changes

variable {f f' : FreeList} {base cap : Nat}

/-- The last entry goes, and the index is kept within the others. -/
theorem pop?_eq_some_iff : f.pop? = some (base, f') ↔
    f.entries = f'.entries ++ [base] ∧ f'.uncommitIndex = min f.uncommitIndex f'.entries.length := by
  obtain ⟨entries, index, bound⟩ := f
  obtain ⟨entries', index', bound'⟩ := f'
  simp only [pop?, Option.map_eq_some_iff, Prod.mk.injEq, mk.injEq]
  constructor
  · rintro ⟨_, hlast, rfl, rfl, rfl⟩
    exact ⟨(List.dropLast_append_getLast? _ hlast).symm, rfl⟩
  · rintro ⟨rfl, rfl⟩
    exact ⟨base, by simp⟩

theorem pop?_eq_none_iff : f.pop? = none ↔ f.toList = [] := by
  rw [pop?, Option.map_eq_none_iff, List.getLast?_eq_none_iff, toList, List.reverse_eq_nil_iff]

theorem toList_of_pop? (h : f.pop? = some (base, f')) : f.toList = base :: f'.toList := by
  rw [toList, (pop?_eq_some_iff.1 h).1, List.reverse_append, toList]
  rfl

theorem eq_empty_of_pop? (h : f.pop? = none) : f = {} := by
  obtain ⟨entries, index, bound⟩ := f
  obtain rfl : entries = [] := by simpa [toList] using pop?_eq_none_iff.1 h
  obtain rfl : index = 0 := Nat.le_zero.1 bound
  rfl

/-- The latest released stack is resident unless no stack is. -/
theorem pop?_cases (h : f.pop? = some (base, f')) :
    (f.resident = base :: f'.resident ∧ f.uncommitted = f'.uncommitted)
      ∨ f.resident = [] ∧ f'.resident = [] ∧ f.uncommitted = base :: f'.uncommitted := by
  obtain ⟨hentries, hindex⟩ := pop?_eq_some_iff.1 h
  have hbound := f.bound
  rw [hentries, List.length_append, List.length_singleton] at hbound
  simp only [resident, uncommitted, hentries]
  by_cases hle : f.uncommitIndex ≤ f'.entries.length
  · left
    rw [hindex, Nat.min_eq_left hle, List.drop_append_of_le_length hle,
      List.take_append_of_le_length hle, List.reverse_append]
    exact ⟨rfl, rfl⟩
  · right
    have hall : f.uncommitIndex = (f'.entries ++ [base]).length := by
      rw [List.length_append, List.length_singleton]
      omega
    rw [hindex, Nat.min_eq_right (Nat.le_of_not_le hle), hall, List.drop_length, List.take_length,
      List.drop_length, List.take_length, List.reverse_append]
    exact ⟨rfl, rfl, rfl⟩

/-- A released stack becomes resident, in place of the earliest of these if they are too many. -/
theorem push_cases (f : FreeList) (base cap : Nat) :
    ((f.push base cap).1 = none ∧ f.resident.length < cap
        ∧ (f.push base cap).2.resident = base :: f.resident
        ∧ (f.push base cap).2.uncommitted = f.uncommitted)
      ∨ ∃ victim rest, base :: f.resident = rest ++ [victim] ∧ (f.push base cap).1 = some victim
        ∧ (f.push base cap).2.resident = rest
        ∧ (f.push base cap).2.uncommitted = victim :: f.uncommitted := by
  have hindex := f.uncommitIndex_lt base
  have hresident : base :: f.resident = ((f.entries ++ [base]).drop f.uncommitIndex).reverse := by
    rw [List.drop_append_of_le_length f.bound, List.reverse_append]
    rfl
  simp only [push]
  split
  · right
    refine ⟨_, _, ?_, rfl, rfl, ?_⟩
    · rw [hresident, List.drop_eq_getElem_cons hindex, List.reverse_cons]
      rfl
    · simp only [uncommitted]
      rw [List.take_succ_eq_append_getElem hindex, List.reverse_append,
        List.take_append_of_le_length f.bound]
      rfl
  · rename_i hcap
    left
    refine ⟨rfl, ?_, hresident.symm, ?_⟩
    · have hlength := congrArg List.length hresident
      simp only [List.length_cons, List.length_reverse, List.length_drop] at hlength
      omega
    · simp only [uncommitted, List.take_append_of_le_length f.bound]

theorem mem_uncommitted_push_iff {b : Nat} : b ∈ (f.push base cap).2.uncommitted
    ↔ (f.push base cap).1 = some b ∨ b ∈ f.uncommitted := by
  obtain ⟨hnone, -, -, hf⟩ | ⟨victim, _, -, hsome, -, hf⟩ := f.push_cases base cap
  · simp [hnone, hf]
  · simp [hsome, hf, eq_comm]

theorem mem_resident_of_push {b : Nat} (h : b ∈ (f.push base cap).2.resident) :
    b = base ∨ b ∈ f.resident := by
  obtain ⟨-, -, hf, -⟩ | ⟨victim, rest, hrest, -, hf, -⟩ := f.push_cases base cap <;> rw [hf] at h
  · exact List.mem_cons.1 h
  · exact List.mem_cons.1 (hrest ▸ List.mem_append_left _ h)

theorem length_resident_push_le (h : f.resident.length ≤ cap) :
    (f.push base cap).2.resident.length ≤ cap := by
  obtain ⟨-, hlt, hf, -⟩ | ⟨victim, rest, hrest, -, hf, -⟩ := f.push_cases base cap <;> rw [hf]
  · exact hlt
  · have := congrArg List.length hrest
    simp only [List.length_cons, List.length_append, List.length_nil] at this
    omega

theorem toList_push : (f.push base cap).2.toList = base :: f.toList := by
  obtain ⟨-, -, hr, hu⟩ | ⟨victim, rest, hrest, -, hr, hu⟩ := f.push_cases base cap <;>
    rw [toList_eq, toList_eq f, hr, hu]
  · rfl
  · rw [← List.cons_append, hrest, List.append_assoc]
    rfl

/-- The position of a stack tells on which side of the index it is. -/
theorem residency?_eq (f : FreeList) (base : Nat) : f.residency? base
    = if base ∈ f.uncommitted then some .uncommitted
      else if base ∈ f.resident then some .resident else none := by
  have hfound : ∀ {l : List Nat} {position}, l.findIdx? (· == base) = some position →
      position < l.length ∧ base ∈ l := fun h => by
    obtain ⟨hlt, heq, -⟩ := List.findIdx?_eq_some_iff_getElem.1 h
    exact ⟨hlt, eq_of_beq heq ▸ List.getElem_mem hlt⟩
  have hmissed : ∀ {l : List Nat}, l.findIdx? (· == base) = none → base ∉ l := fun h hmem => by
    simpa using List.findIdx?_eq_none_iff.1 h base hmem
  have hlength : (f.entries.take f.uncommitIndex).length = f.uncommitIndex := by
    rw [List.length_take, Nat.min_eq_left f.bound]
  rw [residency?, ← List.take_append_drop f.uncommitIndex f.entries, List.findIdx?_append, hlength]
  simp only [uncommitted, resident, List.mem_reverse]
  cases hfirst : (f.entries.take f.uncommitIndex).findIdx? (· == base) with
  | some position =>
    obtain ⟨hlt, hmem⟩ := hfound hfirst
    rw [Option.some_or, Option.map_some, if_pos hmem, if_pos (hlength ▸ hlt)]
  | none =>
    rw [Option.none_or, if_neg (hmissed hfirst)]
    cases hsecond : (f.entries.drop f.uncommitIndex).findIdx? (· == base) with
    | some position =>
      rw [Option.map_some, Option.map_some, if_pos (hfound hsecond).2,
        if_neg (Nat.not_lt.2 (Nat.le_add_left _ _))]
    | none => rw [Option.map_none, Option.map_none, if_neg (hmissed hsecond)]

end Changes

end FreeList

end PooledFibers
