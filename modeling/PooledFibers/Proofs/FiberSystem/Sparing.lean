import Mathlib.Data.List.Basic
import Mathlib.Data.List.Perm.Basic
import Mathlib.Tactic.Common
import PooledFibers.Proofs.FiberSystem.Partition
import PooledFibers.Proofs.FiberSystem.Priming

/-!
# What a thread leaves alone

Threads share the pool, the registry and the statistics. `Spares` says that nothing is changed of
what one thread has. The moves of another thread spare it (`Move.spares`) and so does its detaching
(`spares_of_detach`), as long as the page provider reserves no memory twice and the stacks are large
enough for what priming writes to them.
-/

namespace PooledFibers.FiberSystem

open Outcome

/-- The page provider has not reserved the address. -/
def Unreserved (s : FiberSystem) (a : Nat) : Prop :=
  ∀ r ∈ PageCall.reserved s.machine.calls, r.contains a = false

/-- The address lies on the stack of a fiber of the thread. Of a stack that is not the pool's, only
what the page provider has not reserved counts. -/
def StackOf (s : FiberSystem) (u : ThreadToken) (a : Nat) : Prop :=
  ∃ id f, s.fibers.get? id = some f ∧ f.owner = u ∧ f.region.contains a = true
    ∧ (f.isThreadFiber = true → s.Unreserved a)

/-- What the thread has is left alone. -/
structure Spares (s : FiberSystem) (u : ThreadToken) (s' : FiberSystem) : Prop where
  /-- Its current fiber, idle cache, pending slot, scratch resources, mode and statistics slot. -/
  carrier? : s'.carrier? u = s.carrier? u
  /-- What is counted in its slot. -/
  tally : ∀ k, s.slotOf u = some k → s'.statistics.slot? k = s.statistics.slot? k
  /-- Its fibers are as they were, and no others have become its own. -/
  fiber : ∀ id f, f.owner = u → (s'.fibers.get? id = some f ↔ s.fibers.get? id = some f)
  continuations : s'.continuations = s.continuations
  /-- Whether its fibers are registered, and at which slot. -/
  place : ∀ id f, s.fibers.get? id = some f → f.owner = u → s.registry.KeepsPlace id s'.registry
  reserved : PageCall.reserved s.machine.calls ⊆ PageCall.reserved s'.machine.calls
  contents : ∀ a, s'.StackOf u a → s'.machine.read a = s.machine.read a

variable {s s' s'' : FiberSystem} {t u : ThreadToken} {c : Carrier} {id : FiberId} {f : Fiber}
  {a base : Nat} {pool : Pool}

section Composition

theorem StackOf.mono (ha : s'.StackOf u a)
    (hfiber : ∀ id f, f.owner = u → s'.fibers.get? id = some f → s.fibers.get? id = some f)
    (hreserved : PageCall.reserved s.machine.calls ⊆ PageCall.reserved s'.machine.calls) :
    s.StackOf u a := by
  obtain ⟨id, f, hf, howner, hcontains, hnative⟩ := ha
  refine ⟨id, f, hfiber id f howner hf, howner, hcontains, fun hthread r hr => ?_⟩
  exact hnative hthread r (hreserved hr)

theorem Spares.refl (s : FiberSystem) (u : ThreadToken) : s.Spares u s :=
  ⟨rfl, fun _ _ => rfl, fun _ _ _ => .rfl, rfl, fun _ _ _ _ => .refl _ _, List.Subset.refl _,
    fun _ _ => rfl⟩

theorem Spares.trans (h : s.Spares u s') (h' : s'.Spares u s'') : s.Spares u s'' where
  carrier? := h'.carrier?.trans h.carrier?
  tally k hk := (h'.tally k ((slotOf_congr h.carrier?).trans hk)).trans (h.tally k hk)
  fiber id f howner := (h'.fiber id f howner).trans (h.fiber id f howner)
  continuations := h'.continuations.trans h.continuations
  place id f hf howner :=
    (h.place id f hf howner).trans (h'.place id f ((h.fiber id f howner).2 hf) howner)
  reserved := List.Subset.trans h.reserved h'.reserved
  contents a ha := by
    have ha' := ha.mono (fun id f howner => (h'.fiber id f howner).1) h'.reserved
    rw [h'.contents a ha, h.contents a ha']

end Composition

section Books

theorem spares_record {g : Statistics → Nat → Statistics}
    (hg : ∀ st k slot, k ≠ slot → (g st slot).slot? k = st.slot? k)
    (hslots : ∀ k, s.slotOf t = some k → s.slotOf u ≠ some k) : s.Spares u (s.record t g) := by
  have hsame := same_record s t g
  have hmachine := machine_record s t g
  constructor
  case carrier? => exact hsame.carrier? u
  case tally => exact fun k hk => slot?_record hg fun ht => hslots k ht hk
  case fiber => exact fun id f _ => by rw [hsame.fibers]
  case continuations =>
    rw [record_eq]
    cases s.slotOf t <;> rfl
  case place => exact fun _ _ _ _ => hsame.registry ▸ .refl _ _
  case reserved => rw [hmachine]; exact List.Subset.refl _
  case contents => exact fun a _ => by rw [hmachine]

/-- A fiber of another thread is not where one of the thread's own is. -/
theorem get?_modify_iff (howned : s.OwnedBy t id) (hu : u ≠ t) {g : Fiber → Fiber}
    (hg : ∀ f, (g f).owner = f.owner) {j : FiberId} (hf : f.owner = u) :
    (s.fibers.modify id g).get? j = some f ↔ s.fibers.get? j = some f := by
  rw [Table.get?_modify]
  split_ifs with hj
  · subst hj
    rw [Option.map_eq_some_iff]
    constructor
    · rintro ⟨f₀, hf₀, rfl⟩
      exact absurd (hf.symm.trans ((hg f₀).trans (howned f₀ hf₀))) hu
    · exact fun hj => absurd (hf.symm.trans (howned f hj)) hu
  · exact .rfl

theorem spares_modifyFiber (howned : s.OwnedBy t id) (hu : u ≠ t) {g : Fiber → Fiber}
    (hg : ∀ f, (g f).owner = f.owner) : s.Spares u (s.modifyFiber id g) :=
  ⟨rfl, fun _ _ => rfl, fun _ _ => get?_modify_iff howned hu hg, rfl, fun _ _ _ _ => .refl _ _,
    List.Subset.refl _, fun _ _ => rfl⟩

theorem OwnedBy.ne (howned : s.OwnedBy t id) (hu : u ≠ t) {j : FiberId}
    (hf : s.fibers.get? j = some f) (hf' : f.owner = u) : j ≠ id := by
  rintro rfl
  exact hu (hf'.symm.trans (howned f hf))

/-- The registry may change for one fiber of another thread. -/
theorem spares_of_registry {registry : Registry} (howned : s.OwnedBy t id) (hu : u ≠ t)
    (hplace : ∀ j, j ≠ id → s.registry.KeepsPlace j registry) :
    s.Spares u { s with registry } :=
  ⟨rfl, fun _ _ => rfl, fun _ _ _ => .rfl, rfl, fun _ _ hf hf' => hplace _ (howned.ne hu hf hf'),
    List.Subset.refl _, fun _ _ => rfl⟩

theorem spares_of_register (h : s.registry.Sound) (howned : s.OwnedBy t id) (hu : u ≠ t)
    (hr : s.register id = .ok s') : s.Spares u s' := by
  obtain ⟨registry, hinsert, rfl⟩ := register_eq_ok_iff.1 hr
  exact spares_of_registry howned hu fun j hj => h.keepsPlace_of_insert hinsert hj

theorem spares_of_unregister (h : s.registry.Sound) (howned : s.OwnedBy t id) (hu : u ≠ t)
    (hr : s.unregister id = .ok s') : s.Spares u s' := by
  obtain ⟨registry, hremove, rfl⟩ := unregister_eq_ok_iff.1 hr
  exact spares_of_registry howned hu fun j hj => h.keepsPlace_of_remove hremove hj

theorem spares_addFiber (hnew : s.fibers.get? f.id = none) (hu : f.owner ≠ u) :
    s.Spares u (s.addFiber f) := by
  refine ⟨rfl, fun _ _ => rfl, fun j f' hf' => ?_, rfl, fun _ _ _ _ => .refl _ _,
    List.Subset.refl _, fun _ _ => rfl⟩
  simp only [addFiber, Table.get?_insert]
  split_ifs with hj
  · rw [hj, hnew, Option.some.injEq]
    constructor
    · rintro rfl
      exact absurd hf' hu
    · exact fun hf => absurd hf (Option.some_ne_none f').symm
  · exact .rfl

end Books

section Memory

/-- The heap fibers of the thread are on some of the pool's stacks. -/
theorem elsewhere_of_stackOf {bases : List Nat} (hregion : ∀ id f, s.fibers.get? id = some f →
      f.isThreadFiber = false → f.region.size = s.pool.stackSize) (ha : s.StackOf u a)
    (hbases : ∀ id f, s.fibers.get? id = some f → f.owner = u → f.isThreadFiber = false →
      f.region.base ∈ bases) : s.pool.Elsewhere bases a := by
  obtain ⟨id, f, hf, howner, hcontains, hnative⟩ := ha
  by_cases hthread : f.isThreadFiber = true
  · exact .inr (hnative hthread)
  · have hheap := Bool.eq_false_iff.2 hthread
    refine .inl ⟨f.region.base, hbases id f hf howner hheap, ?_⟩
    rw [← hregion id f hf hheap]
    exact hcontains

/-- The stack of another fiber is one of those that are left when a fiber's own is taken out. -/
theorem mem_others_of_ne {j : FiberId} {other : Nat} (hid : (id, base) ∈ s.holdings)
    (hj : (j, other) ∈ s.holdings) (hne : j ≠ id) :
    other ∈ (s.holdings.map (·.2) ++ s.leases.map (·.base)).erase base := by
  have hperm : (s.holdings.map (·.2) ++ s.leases.map (·.base)).Perm
      (base :: ((s.holdings.erase (id, base)).map (·.2) ++ s.leases.map (·.base))) :=
    ((List.perm_cons_erase hid).map Prod.snd).append_right _
  have hrest := hperm.erase base
  rw [List.erase_cons_head] at hrest
  have hother : (j, other) ≠ (id, base) := fun heq => hne (congrArg Prod.fst heq)
  exact hrest.symm.subset (List.mem_append_left _
    (List.mem_map_of_mem ((List.mem_erase_of_ne hother).2 hj)))

/-- A fiber of another thread has another stack. -/
theorem Stocked.elsewhere (h : s.Stocked) (howned : s.OwnedBy t id) (hu : u ≠ t)
    (hid : (id, base) ∈ s.holdings) (ha : s.StackOf u a) :
    s.pool.Elsewhere ((s.holdings.map (·.2) ++ s.leases.map (·.base)).erase base) a := by
  refine elsewhere_of_stackOf h.region ha fun j f hf howner hheap => ?_
  have hj : (j, f.region.base) ∈ s.holdings := (mem_holdings_iff h.keys).2 ⟨f, hf, hheap, rfl⟩
  exact mem_others_of_ne hid hj (howned.ne hu hf howner)

/-- What lies on the other stacks does not lie on a fiber's own. -/
theorem Stocked.apart_of_elsewhere (h : s.Stocked) (hsound : PageCall.Sound s.machine.calls)
    (hid : (id, base) ∈ s.holdings)
    (ha : s.pool.Elsewhere ((s.holdings.map (·.2) ++ s.leases.map (·.base)).erase base) a) :
    (stackRange s.pool.stackSize base).contains a = false := by
  have hcarved := h.accounts.mem_carvedBases.2 (.inl (mem_leased_of_holdings hid))
  exact h.accounts.contains_eq_false hsound hcarved
    (fun b hb => h.accounts.mem_carvedBases.2 (.inl (List.mem_of_mem_erase hb)))
    (h.accounts.not_mem_erase hsound List.mem_cons_self) ha

/-- What a thread's fiber held goes back to the pool. -/
theorem spares_of_reap (h : s.Stocked) (hsound : PageCall.Sound s.machine.calls)
    (howned : s.OwnedBy t id) (hu : u ≠ t) (hr : s.reap id = .ok s') : s.Spares u s' := by
  obtain rfl | ⟨-, f, pool, hf, hleased, hnative, rfl⟩ := reap_cases hr
  · exact .refl s' u
  have hfiber : ∀ j f', f'.owner = u →
      ((s.fibers.erase id).get? j = some f' ↔ s.fibers.get? j = some f') := by
    intro j f' hf'
    rw [Table.get?_erase]
    split_ifs with hj
    · exact iff_of_false not_false fun hget => howned.ne hu hget hf' hj
    · exact .rfl
  have hmemory : s.machine.Retains pool.machine
      ∧ ∀ a, s.StackOf u a → pool.machine.read a = s.machine.read a := by
    cases hstack : f.stack with
    | native region =>
      rw [hnative region hstack]
      exact ⟨Machine.retains_of_calls rfl, fun _ _ => rfl⟩
    | leased lease =>
      have hid := mem_holdings_of_leased h.keys hf hstack
      have hrelease := hleased lease hstack
      refine ⟨Pool.retains_of_release hrelease, fun a ha => ?_⟩
      exact h.accounts.read_of_release (mem_leased_of_holdings hid) hrelease hsound
        (h.elsewhere howned hu hid ha)
  obtain ⟨hretains, hread⟩ := hmemory
  constructor
  case carrier? => rfl
  case tally => exact fun _ _ => rfl
  case fiber => exact hfiber
  case continuations => rfl
  case place => exact fun _ _ _ _ => .refl _ _
  case reserved => exact hretains.reserved_subset
  case contents =>
    intro a ha
    exact hread a (ha.mono (fun j f' hf' => (hfiber j f' hf').1) hretains.reserved_subset)

theorem spares_prime (hprimed : Fiber.primedSize ≤ s.pool.stackSize)
    (hbase : s.pool.stackSize ≤ base)
    (hapart : ∀ a, s.StackOf u a → (stackRange s.pool.stackSize base).contains a = false) :
    s.Spares u (s.withMachine (Fiber.prime s.machine base)) := by
  have hreserved := (Fiber.retains_prime s.machine base).reserved_subset
  have hread : ∀ a, s.StackOf u a → (Fiber.prime s.machine base).read a = s.machine.read a :=
    fun a ha => Fiber.read_prime hprimed hbase (hapart a ha)
  generalize Fiber.prime s.machine base = machine at hreserved hread ⊢
  exact ⟨rfl, fun _ _ => rfl, fun _ _ _ => .rfl, rfl, fun _ _ _ _ => .refl _ _, hreserved,
    fun a ha => hread a (ha.mono (fun _ _ _ hf => hf) hreserved)⟩

/-- A thread's fiber is primed anew. -/
theorem spares_of_renew (h : s.Stocked) (hsound : PageCall.Sound s.machine.calls)
    (hprimed : Fiber.primedSize ≤ s.pool.stackSize) (howned : s.OwnedBy t id) (hu : u ≠ t)
    (hr : s.renew id = .ok s') : s.Spares u s' := by
  obtain ⟨hheap, rfl⟩ := renew_cases hr
  obtain ⟨f, hf, -, hheap⟩ := owns_of_not_isThreadFiber hheap
  have hid : (id, (s.fiber id).region.base) ∈ s.holdings :=
    (mem_holdings_iff h.keys).2 ⟨f, hf, hheap, by rw [fiber_eq hf]⟩
  have hcarved := h.accounts.mem_carvedBases.2 (.inl (mem_leased_of_holdings hid))
  have hapart : ∀ a, s.StackOf u a →
      (stackRange s.pool.stackSize (s.fiber id).region.base).contains a = false := fun a ha =>
    h.apart_of_elsewhere hsound hid (h.elsewhere howned hu hid ha)
  refine (spares_prime hprimed (h.accounts.stackSize_le hcarved) hapart).trans ?_
  generalize Fiber.prime s.machine (s.fiber id).region.base = machine
  have howned' : (s.withMachine machine).OwnedBy t id := howned.of_fibers_eq rfl
  exact spares_modifyFiber (g := Fiber.renewed) howned' hu fun _ => rfl

/-- What was leased before is elsewhere. -/
theorem Stocked.elsewhere_of_acquire {outcome : Except Failure Lease} (h : s.Stocked)
    (hr : s.pool.acquire = .ok (outcome, pool)) (ha : { s with pool }.StackOf u a) :
    pool.Elsewhere (s.holdings.map (·.2) ++ s.leases.map (·.base)) a := by
  have hsize : pool.stackSize = s.pool.stackSize :=
    congrArg Geometry.stackSize (Pool.alike_of_acquire hr).geometry
  refine elsewhere_of_stackOf (s := { s with pool }) ?_ ha fun j f hf _ hheap => ?_
  · exact fun j f hf hheap => (h.region j f hf hheap).trans hsize.symm
  · exact mem_leased_of_holdings ((mem_holdings_iff h.keys).2 ⟨f, hf, hheap, rfl⟩)

theorem spares_of_acquire {outcome : Except Failure Lease} (h : s.Stocked)
    (hzone : s.pool.geometry.guardZone ≤ s.pool.stackSize)
    (hr : s.pool.acquire = .ok (outcome, pool)) (hsound : PageCall.Sound pool.machine.calls) :
    s.Spares u { s with pool } :=
  ⟨rfl, fun _ _ => rfl, fun _ _ _ => .rfl, rfl, fun _ _ _ _ => .refl _ _,
    (Pool.retains_of_acquire hr).reserved_subset,
    fun _ ha => h.accounts.read_of_acquire hzone hr hsound (h.elsewhere_of_acquire hr ha)⟩

/-- A fiber is made on a stack that is nobody else's. -/
theorem spares_of_make {name : String} {lease : Lease} {verified : Bool} (h : s.Stocked)
    (hzone : s.pool.geometry.guardZone ≤ s.pool.stackSize)
    (hprimed : Fiber.primedSize ≤ s.pool.stackSize)
    (hnew : s.fibers.get? s.nextFiber = none) (hr : s.pool.acquire = .ok (.ok lease, pool))
    (hsound : PageCall.Sound pool.machine.calls) (hu : u ≠ t) :
    s.Spares u (({ s with pool }.withMachine (Fiber.prime pool.machine lease.base)).addFiber
      (.ofLease s.nextFiber t name lease verified)) := by
  have hsize : pool.stackSize = s.pool.stackSize :=
    congrArg Geometry.stackSize (Pool.alike_of_acquire hr).geometry
  have haccounts := h.accounts.acquire hr
  have hcarved : lease.base ∈ pool.carvedBases :=
    haccounts.mem_carvedBases.2 (.inl (List.mem_append_left _ List.mem_cons_self))
  have hapart : ∀ a, { s with pool }.StackOf u a →
      (stackRange pool.stackSize lease.base).contains a = false := fun a ha =>
    h.accounts.apart_of_acquire hr hsound (h.elsewhere_of_acquire hr ha)
  have hleased : s.Spares u { s with pool } := spares_of_acquire h hzone hr hsound
  have hwritten := spares_prime (s := { s with pool }) (hsize ▸ hprimed)
    (haccounts.stackSize_le hcarved) hapart
  exact hleased.trans (hwritten.trans (spares_addFiber hnew hu.symm))

end Memory

section Moves

/-- A thread gives no reservation up. -/
theorem Move.retains (h : s.Move t s') : s.machine.Retains s'.machine := by
  induction h with
  | tally s g => exact Machine.retains_of_calls (by rw [machine_record])
  | enroll _ hr =>
    obtain ⟨registry, -, rfl⟩ := register_eq_ok_iff.1 hr
    exact Machine.retains_of_calls rfl
  | withdraw _ hr =>
    obtain ⟨registry, -, rfl⟩ := unregister_eq_ok_iff.1 hr
    exact Machine.retains_of_calls rfl
  | unregister _ hr =>
    obtain ⟨registry, -, rfl⟩ := unregister_eq_ok_iff.1 hr
    exact Machine.retains_of_calls rfl
  | reap _ hr =>
    obtain rfl | ⟨-, f, pool, -, hleased, hnative, rfl⟩ := reap_cases hr
    · exact Machine.retains_of_calls rfl
    · cases hstack : f.stack with
      | native region => exact Machine.retains_of_calls (by rw [hnative region hstack]; rfl)
      | leased lease => exact Pool.retains_of_release (hleased lease hstack)
  | renew _ hr =>
    rw [machine_renew hr]
    exact Fiber.retains_prime _ _
  | @make s name lease pool _ hacquire =>
    exact (Pool.retains_of_acquire hacquire).trans (Fiber.retains_prime pool.machine lease.base)
  | makeNone hacquire => exact Pool.retains_of_acquire hacquire
  | trans _ _ ih ih' => exact ih.trans ih'
  | _ => exact Machine.retains_of_calls rfl

/-- Two threads of a stocked system have slots of their own, and the stacks have room for a guard
zone and for what priming writes. -/
structure Neighbours (s : FiberSystem) (t u : ThreadToken) : Prop where
  stocked : s.Stocked
  ne : u ≠ t
  slots : ∀ k, s.slotOf t = some k → s.slotOf u ≠ some k
  zone : s.pool.geometry.guardZone ≤ s.pool.stackSize
  primed : Fiber.primedSize ≤ s.pool.stackSize

theorem Neighbours.congr (h : s.Neighbours t u) (hstocked : s'.Stocked)
    (hslots : ∀ v, s'.slotOf v = s.slotOf v) (hgeometry : s'.pool.geometry = s.pool.geometry) :
    s'.Neighbours t u := by
  refine ⟨hstocked, h.ne, fun k ht => ?_, ?_, ?_⟩
  · rw [hslots] at ht ⊢
    exact h.slots k ht
  · rw [Pool.stackSize, hgeometry]
    exact h.zone
  · rw [Pool.stackSize, hgeometry]
    exact h.primed

theorem Move.neighbours (hm : s.Move t s') (h : s.Neighbours t u) : s'.Neighbours t u :=
  h.congr (hm.stocked h.stocked) hm.tallies.slotOf hm.inherits.geometry

/-- Unless the provider reserves memory twice, a thread's moves spare the other threads. -/
theorem Move.spares (hm : s.Move t s') (h : s.Neighbours t u)
    (hsound : PageCall.Sound s'.machine.calls) : s.Spares u s' := by
  induction hm with
  | tally s g => exact spares_record (fun _ _ _ hne => Statistics.slot?_record_of_ne hne g) h.slots
  | carrier hg _ =>
    refine { Spares.refl _ u with carrier? := ?_ }
    rw [carrier?_modifyCarrier fun c => (hg c).1, if_neg h.ne]
  | fiber howned hg => exact spares_modifyFiber howned h.ne fun f => (hg f).1
  | @enroll s s' id continuation howned hr =>
    have hchanged := spares_modifyFiber (g := fun f => { f with continuation }) howned h.ne
      fun _ => rfl
    have howned' : (s.modifyFiber id fun f => { f with continuation }).OwnedBy t id :=
      howned.modify (g := fun f => { f with continuation }) rfl fun _ => rfl
    exact hchanged.trans (spares_of_register h.stocked.registry howned' h.ne hr)
  | @withdraw s s' id howned hr =>
    have hchanged := spares_modifyFiber (g := fun f => { f with continuation := none }) howned h.ne
      fun _ => rfl
    have howned' : (s.modifyFiber id fun f => { f with continuation := none }).OwnedBy t id :=
      howned.modify (g := fun f => { f with continuation := none }) rfl fun _ => rfl
    exact hchanged.trans (spares_of_unregister h.stocked.registry howned' h.ne hr)
  | unregister howns hr => exact spares_of_unregister h.stocked.registry howns.ownedBy h.ne hr
  | reap howned hr =>
    have hbefore := (Move.reap howned hr).retains.sound hsound
    exact spares_of_reap h.stocked hbefore howned h.ne hr
  | renew howned hr =>
    have hbefore := (Move.renew howned hr).retains.sound hsound
    exact spares_of_renew h.stocked hbefore h.primed howned h.ne hr
  | @make s name lease pool hnew hacquire =>
    have hleased := (Fiber.retains_prime pool.machine lease.base).sound hsound
    exact spares_of_make h.stocked h.zone h.primed hnew hacquire hleased h.ne
  | makeNone hacquire => exact spares_of_acquire h.stocked h.zone hacquire hsound
  | trans hm hm' ih ih' =>
    exact (ih h (hm'.retains.sound hsound)).trans (ih' (hm.neighbours h) hsound)
  | _ => exact { Spares.refl _ u with }

theorem spares_of_detach (hs : s.Sound) (h : s.Neighbours t u) (hc : s.carrier? t = some c)
    (hr : s.detach t = .ok s') (hsound : PageCall.Sound s'.machine.calls) : s.Spares u s' := by
  obtain ⟨s₁, s₂, hmove₁, hmove₂, hmove₃⟩ := moves_of_detach hs hc hr
  have hsound₂ : PageCall.Sound s₂.machine.calls := hmove₃.retains.sound hsound
  have hsigned := (machine_record s₁ t Statistics.unregister) ▸ hmove₂.retains.sound hsound₂
  have h₁ := hmove₁.neighbours h
  have hrecorded : (s₁.record t Statistics.unregister).Neighbours t u :=
    h₁.congr (h₁.stocked.record _) (slotOf_record _) (same_record s₁ t _).inherits.geometry
  have h₂ := hmove₂.neighbours hrecorded
  have hdropped : { s₂ with carriers := s₂.carriers.filter fun c => c.token ≠ t }.Neighbours t u := by
    refine ⟨h₂.stocked.of_carriers _, h.ne, fun k hk => ?_, h₂.zone, h₂.primed⟩
    rw [slotOf, carrier?_filter, if_pos rfl] at hk
    exact absurd hk (Option.some_ne_none k).symm
  have hgone : s₂.Spares u { s₂ with carriers := s₂.carriers.filter fun c => c.token ≠ t } := by
    refine { Spares.refl s₂ u with carrier? := ?_ }
    rw [carrier?_filter, if_neg h.ne]
  exact (hmove₁.spares h hsigned).trans
    ((spares_record (fun _ _ _ => Statistics.slot?_unregister_of_ne) h₁.slots).trans
      ((hmove₂.spares hrecorded hsound₂).trans (hgone.trans (hmove₃.spares hdropped hsound))))

/-- Whatever a thread does, the other threads are spared. -/
theorem spares_of_performOn {operation : ThreadOperation} {e : Option Event} (hs : s.Sound)
    (h : s.Neighbours t u) (hc : s.carrier? t = some c)
    (hr : s.performOn t c operation = .ok (s', e)) (hsound : PageCall.Sound s'.machine.calls) :
    s.Spares u s' := by
  cases operation with
  | detach => exact spares_of_detach hs h hc (eq_ok_of_map_mk hr) hsound
  | _ => exact (move_of_performOn hs hc hr nofun).spares h hsound

end Moves

end PooledFibers.FiberSystem
