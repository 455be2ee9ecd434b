import PooledFibers.Machine.AddressSpace
import PooledFibers.Script.Basic

/-!
# Scripts on mappings

Steps on an address space whose mappings have names. A step names an address by a mapping and a
distance from its start.
-/

namespace PooledFibers.Script

inductive MappingStep
  | page
  | reserve (name : String) (bytes : Nat)
  | write (name : String) (offset value : Nat)
  | read (name : String) (offset : Nat)
  | guard (name : String) (offset : Int) (bytes : Nat)
  | uncommit (name : String) (offset : Int) (bytes : Nat)
  | release (name : String) (offset : Int)
  | unknown

inductive MappingAnswer
  | refused
  | nothing
  | done
  | number (n : Nat)
  /-- The page size and the granularity of reservations. -/
  | pageSizes (page granularity : Nat)
  | failed (error : IoError)

structure Mappings where
  space : AddressSpace
  names : Table String AddressRange := .empty

namespace Mappings

/-- Goes on with a mapping if there is one of this name. -/
def withMapping (s : Mappings) (name : String)
    (f : AddressRange → MappingAnswer × Mappings) : MappingAnswer × Mappings :=
  match s.names.get? name with
  | some mapping => f mapping
  | none => (.refused, s)

end Mappings

def MappingAnswer.ofResult : Except IoError Unit → MappingAnswer
  | .error error => .failed error
  | .ok () => .done

def MappingStep.perform (s : Mappings) : MappingStep → MappingAnswer × Mappings
  | .page => (.pageSizes s.space.pageSize s.space.pageSize, s)
  | .reserve name bytes =>
    if s.names.contains name then (.refused, s)
    else match s.space.reserve bytes with
      | .error error => (.failed error, s)
      | .ok (mapping, space) => (.number 0, { space, names := s.names.insert name mapping })
  | .write name offset value => s.withMapping name fun mapping =>
    (.nothing, { s with space := s.space.write (mapping.low + offset) value })
  | .read name offset => s.withMapping name fun mapping =>
    (.number (s.space.read (mapping.low + offset)), s)
  | .guard name offset bytes => s.withMapping name fun mapping =>
    (.ofResult (s.space.guard (Word.shift mapping.low offset) bytes), s)
  | .uncommit name offset bytes => s.withMapping name fun mapping =>
    let (result, space) := s.space.uncommit (Word.shift mapping.low offset) bytes
    (.ofResult result, { s with space })
  | .release name offset => s.withMapping name fun mapping =>
    match s.space.release (Word.shift mapping.low offset) mapping.size with
    | .error error => (.failed error, s)
    | .ok space => (.done, { space, names := s.names.erase name })
  | .unknown => (.refused, s)

end PooledFibers.Script
