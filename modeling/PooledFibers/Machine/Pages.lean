import PooledFibers.Machine.MemoryWord
import PooledFibers.Notice
import PooledFibers.Table
import PooledFibers.Word

/-!
# Pages and memory

A `PageProvider` answers the four requests on pages. Its answers may depend on all calls made
before, so a provider is a function of the history; `PageCall` is one entry of it. A `Machine` is a
provider with its history, the words in memory and the notices logged so far.
-/

namespace PooledFibers

inductive PageCall
  | reserve (bytes : Nat) (outcome : Except IoError Nat)
  | guard (low bytes : Nat) (outcome : Except IoError Unit)
  | uncommit (low bytes : Nat) (outcome : Except IoError Unit)
  | release (low bytes : Nat) (outcome : Except IoError Unit)

/-- Answers to page requests, given the calls so far, the latest first. -/
structure PageProvider where
  pageSize : Nat
  /-- Reservations are rounded up to a multiple of this. -/
  granularity : Nat
  /-- Reserves fresh zeroed memory and answers its low address. -/
  reserve : List PageCall → Nat → Except IoError Nat
  /-- Makes a range inaccessible. -/
  guard : List PageCall → Nat → Nat → Except IoError Unit
  /-- Gives the physical pages of a range back; it then reads as zeros. -/
  uncommit : List PageCall → Nat → Nat → Except IoError Unit
  /-- Gives up a reservation. -/
  release : List PageCall → Nat → Nat → Except IoError Unit

structure Machine where
  provider : PageProvider
  /-- The latest first. -/
  calls : List PageCall := []
  /-- The words written, by address; all others are zero. -/
  words : Table Nat MemoryWord := .empty
  /-- The latest first. -/
  notices : List Notice := []

namespace Machine

def read (m : Machine) (address : Nat) : MemoryWord :=
  (m.words.get? address).getD .zero

def write (m : Machine) (address : Nat) (word : MemoryWord) : Machine :=
  { m with words := m.words.insert address word }

def writeAll (m : Machine) (address : Nat) (words : List MemoryWord) : Machine :=
  match words with
  | [] => m
  | word :: rest => (m.write address word).writeAll (address + Word.bytes) rest

/-- Zeroes the words that start in a range. -/
def clear (m : Machine) (low bytes : Nat) : Machine :=
  { m with words := m.words.eraseIf fun a => low ≤ a && a < low + bytes }

def notice (m : Machine) (n : Notice) : Machine := { m with notices := n :: m.notices }

def log (m : Machine) (call : PageCall) : Machine := { m with calls := call :: m.calls }

def reserve (m : Machine) (bytes : Nat) : Except IoError Nat × Machine :=
  let outcome := m.provider.reserve m.calls bytes
  let logged := m.log (.reserve bytes outcome)
  (outcome, match outcome with
    | .ok low => logged.clear low bytes
    | .error _ => logged)

def guard (m : Machine) (low bytes : Nat) : Except IoError Unit × Machine :=
  let outcome := m.provider.guard m.calls low bytes
  (outcome, m.log (.guard low bytes outcome))

def uncommit (m : Machine) (low bytes : Nat) : Except IoError Unit × Machine :=
  let outcome := m.provider.uncommit m.calls low bytes
  let logged := m.log (.uncommit low bytes outcome)
  (outcome, match outcome with
    | .ok () => logged.clear low bytes
    | .error _ => logged)

def release (m : Machine) (low bytes : Nat) : Except IoError Unit × Machine :=
  let outcome := m.provider.release m.calls low bytes
  (outcome, m.log (.release low bytes outcome))

def readAll (m : Machine) (address : Nat) : Nat → List MemoryWord
  | 0 => []
  | n + 1 => m.read address :: m.readAll (address + Word.bytes) n

/-- The calls made after the first `n`, the earliest first. -/
def callsFrom (m : Machine) (n : Nat) : List PageCall :=
  (m.calls.take (m.calls.length - n)).reverse

def noticesFrom (m : Machine) (n : Nat) : List Notice :=
  (m.notices.take (m.notices.length - n)).reverse

end Machine

end PooledFibers
