import PooledFibers.IoError
import PooledFibers.Machine.AddressRange
import PooledFibers.Table
import PooledFibers.Word

/-!
# The address space of a process

The operating system maps memory in whole pages, each time at the highest free range that is large
enough. Requests on memory name a start, which must be the start of a page, and a length, which is
rounded up to whole pages.
-/

namespace PooledFibers

structure AddressSpace where
  pageSize : Nat
  mapped : List AddressRange := []
  /-- The bytes written, by address; all others are zero. -/
  bytes : Table Nat Nat := .empty

namespace AddressSpace

def invalid : IoError := .number 22

def outOfMemory : IoError := .number 12

def wholePages (s : AddressSpace) (bytes : Nat) : Nat :=
  (bytes + s.pageSize - 1) / s.pageSize * s.pageSize

/-- The addresses that a process may use. -/
def whole (s : AddressSpace) : AddressRange := ⟨1 <<< 16, 1 <<< 47 - s.pageSize⟩

/-- The program lies at two thirds of the addresses. -/
def program (s : AddressSpace) : AddressRange :=
  let low := 1 <<< 48 / 3 / s.pageSize * s.pageSize
  ⟨low, low + 1 <<< 40⟩

/-- The stack and the libraries lie at the upper end. -/
def libraries : AddressRange := ⟨1 <<< 47 - 1 <<< 41, 1 <<< 47⟩

/-- The free ranges, the lowest first. -/
def free (s : AddressSpace) : List AddressRange :=
  AddressRange.cut [s.whole] (s.program :: libraries :: s.mapped)

def maps (s : AddressSpace) (r : AddressRange) : Bool :=
  (AddressRange.cut [r] s.mapped).all (·.isEmpty)

def clear (s : AddressSpace) (r : AddressRange) : AddressSpace :=
  { s with bytes := s.bytes.eraseIf r.contains }

/-- Maps new memory, at the upper end of the highest free range that is large enough. -/
def reserve (s : AddressSpace) (bytes : Nat) : Except IoError (AddressRange × AddressSpace) :=
  let size := s.wholePages bytes
  if bytes = 0 then .error invalid
  else match (s.free.filter fun r => size ≤ r.size).getLast? with
    | none => .error outOfMemory
    | some r =>
      let new : AddressRange := ⟨r.high - size, r.high⟩
      .ok (new, { s with mapped := new :: s.mapped })

def read (s : AddressSpace) (address : Nat) : Nat := (s.bytes.get? address).getD 0

/-- Writes the lowest eight bits of a value. -/
def write (s : AddressSpace) (address value : Nat) : AddressSpace :=
  { s with bytes := s.bytes.insert address (value % 1 <<< 8) }

def pagesFrom (s : AddressSpace) (start bytes : Nat) : AddressRange :=
  ⟨start, start + s.wholePages bytes⟩

def guard (s : AddressSpace) (start bytes : Nat) : Except IoError Unit :=
  if start % s.pageSize ≠ 0 then .error invalid
  else if s.maps (s.pagesFrom start bytes) then .ok ()
  else .error outOfMemory

/-- Gives back the physical pages of a range, which then reads as zeros. Of a range that is mapped
in part only, the mapped part is given back and the request fails all the same. A range that goes on
beyond the largest word makes no sense. -/
def uncommit (s : AddressSpace) (start bytes : Nat) : Except IoError Unit × AddressSpace :=
  let range := s.pagesFrom start bytes
  if start % s.pageSize ≠ 0 ∨ Word.bound ≤ range.high then (.error invalid, s)
  else (if s.maps range then .ok () else .error outOfMemory, s.clear range)

/-- Unmaps what is mapped in a range. A range beyond the end of the address space makes no sense. -/
def release (s : AddressSpace) (start bytes : Nat) : Except IoError AddressSpace :=
  let range := s.pagesFrom start bytes
  if start % s.pageSize ≠ 0 ∨ s.whole.high < range.high then .error invalid
  else .ok { s.clear range with mapped := AddressRange.cut s.mapped [range] }

end AddressSpace

end PooledFibers
