import PooledFibers.Fault

/-!
# Rings of fibers

A ring is a circular list whose links lie in an array and name their neighbours by index. A link
keeps its index while its fiber is in the ring; the indices of removed links are used again, the
latest removed first.
-/

namespace PooledFibers

structure Link where
  fiber : FiberId
  next : Nat
  prev : Nat
  deriving DecidableEq, Repr

structure Ring where
  links : List (Option Link) := []
  /-- Indices without a link, the latest removed first. -/
  vacant : List Nat := []
  head : Option Nat := none
  count : Nat := 0
  deriving DecidableEq, Repr

namespace Ring

def link (r : Ring) (i : Nat) : Except Fault Link :=
  match r.links[i]? with
  | some (some link) => .ok link
  | _ => .error (.linkVacant i)

def setLink (r : Ring) (i : Nat) (link : Option Link) : Ring :=
  { r with links := r.links.set i link }

def setNext (r : Ring) (i next : Nat) : Except Fault Ring := do
  let link ← r.link i
  pure (r.setLink i (some { link with next }))

def setPrev (r : Ring) (i prev : Nat) : Except Fault Ring := do
  let link ← r.link i
  pure (r.setLink i (some { link with prev }))

/-- An index to link at, and the ring in which it is no longer vacant. -/
def claimIndex (r : Ring) : Nat × Ring :=
  match r.vacant with
  | i :: rest => (i, { r with vacant := rest })
  | [] => (r.links.length, { r with links := r.links ++ [none] })

/-- Where a new head goes: the links after and before it. -/
def headNeighbours (r : Ring) (i : Nat) : Except Fault (Nat × Nat) :=
  match r.head with
  | none => .ok (i, i)
  | some head => do
    let link ← r.link head
    pure (head, link.prev)

/-- Links a fiber in as the new head; answers its index. -/
def push (r : Ring) (fiber : FiberId) : Except Fault (Nat × Ring) := do
  let (i, r) := r.claimIndex
  let (next, prev) ← r.headNeighbours i
  let r := r.setLink i (some { fiber, next, prev })
  let r ← if next = i then pure r else do (← r.setNext prev i).setPrev next i
  pure (i, { r with head := some i, count := r.count + 1 })

/-- Takes the link at an index out; answers its fiber. -/
def unlink (r : Ring) (i : Nat) : Except Fault (FiberId × Ring) := do
  let link ← r.link i
  let r := r.setLink i none
  let r ←
    if link.next = i then pure { r with head := none }
    else do
      let r ← (← r.setNext link.prev link.next).setPrev link.next link.prev
      pure { r with head := if r.head = some i then some link.next else r.head }
  pure (link.fiber, { r with vacant := i :: r.vacant, count := r.count - 1 })

/-- The links from `i` on until the one before `head`, at most `fuel` of them. -/
def chain (r : Ring) (head : Nat) : Nat → Nat → Except Fault (List (Nat × FiberId))
  | 0, _ => .ok []
  | fuel + 1, i => do
    let link ← r.link i
    if link.next = head then pure [(i, link.fiber)]
    else
      let rest ← r.chain head fuel link.next
      pure ((i, link.fiber) :: rest)

/-- The links in order from the head, with their indices. A walk that does not come back to the
head ends one link after as many as the ring can hold. -/
def entries (r : Ring) : Except Fault (List (Nat × FiberId)) :=
  match r.head with
  | none => .ok []
  | some head => r.chain head (r.links.length + 1) head

/-- The fibers in order from the head. -/
def toList (r : Ring) : Except Fault (List FiberId) := do
  let entries ← r.entries
  pure (entries.map (·.2))

def linked (r : Ring) : List FiberId := r.links.filterMap fun link => link.map (·.fiber)

end Ring

end PooledFibers
