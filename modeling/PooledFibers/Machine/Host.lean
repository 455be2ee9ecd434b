import PooledFibers.Fiber.Identity

/-!
# Hosts

What the operating system and the build of the library fix before a fiber system is made.
-/

namespace PooledFibers

structure Host where
  /-- The page size of the operating system. -/
  pageSize : Nat
  /-- Whether the library was built with debug assertions. -/
  debugAssertions : Bool
  identities : Identities

end PooledFibers
