import Mathlib.Data.List.Basic
import Mathlib.Tactic.Common
import PooledFibers.Proofs.FiberSystem.Trade
import PooledFibers.Proofs.Stack.Tenancy

/-!
# The stacks in use

In every state of a run the pool has as many stacks in use as there are heap fibers alive and leases
of the host (`Balanced`), and when a heap fiber stops being alive its stack goes back to the free
list (`Turnover`). `Run.balanced_of_after` reads both off the trades of the operations.
-/

namespace PooledFibers

namespace FiberSystem

/-- The registry, a carrier, a switch that has not returned or a handle of the host refers to the
fiber. The target of such a switch is a handle that the host has lent. -/
def Alive (s : FiberSystem) (id : FiberId) : Prop :=
  s.registry.isRegistered id = true
    ∨ (∃ c ∈ s.carriers, id ∈ c.idle ∨ c.pending = some id ∨ c.current = id)
    ∨ (∃ call ∈ s.calls, call.kind = .returning ∧ call.source = id)
    ∨ id ∈ s.held ∨ ∃ call ∈ s.calls, call.target = id

def HeapAlive (s : FiberSystem) (id : FiberId) : Prop :=
  s.Alive id ∧ ∃ f, s.fibers.get? id = some f ∧ f.isThreadFiber = false

/-- The base of a fiber's stack. -/
def stackOf (s : FiberSystem) (id : FiberId) : Nat := (s.fiber id).region.base

/-- The heap fibers alive and the leases of the host make up the stacks in use. -/
structure Balanced (s : FiberSystem) (fibers : List FiberId) : Prop where
  nodup : fibers.Nodup
  mem_iff : ∀ id, id ∈ fibers ↔ s.HeapAlive id
  /-- A fiber that is alive has not been freed. -/
  exists_fiber : ∀ id, s.Alive id → ∃ f, s.fibers.get? id = some f
  inUse : s.pool.totals.inUse = fibers.length + s.leases.length
  /-- No stack is held twice, and none that is held is free. -/
  distinct : PageCall.Sound s.machine.calls →
    (fibers.map s.stackOf ++ s.leases.map (·.base) ++ s.pool.free.toList).Nodup
  /-- Once no thread is attached, no stack leased and no heap fiber held or lent, all are free. -/
  settled : s.carriers = [] → s.leases = [] →
    (∀ id, s.Lends id → (s.fiber id).isThreadFiber = true) →
    s.pool.totals.inUse = 0 ∧ s.pool.totals.free = s.pool.totals.carved

/-- What an operation does to the stacks. -/
structure Turnover (s s' : FiberSystem) (ended : List FiberId) : Prop where
  nodup : ended.Nodup
  mem_iff : ∀ id, id ∈ ended ↔ s.HeapAlive id ∧ ¬s'.HeapAlive id
  /-- Only a fiber that has just been made comes alive. -/
  fresh : ∀ id, s'.HeapAlive id → s.HeapAlive id ∨ id = s.nextFiber
  stays : ∀ id, s.HeapAlive id → s'.HeapAlive id → s'.stackOf id = s.stackOf id
  /-- The stacks of the ended fibers and of the leases returned come back. One stack may be taken
  for a new fiber or a new lease. -/
  free : ∃ given returned taken, (given ++ s.leases).Perm (returned ++ s'.leases)
    ∧ returned ⊆ s.leases
    ∧ taken ++ s'.pool.free.toList
      = ended.map s.stackOf ++ returned.map (·.base) ++ s.pool.free.toList
    ∧ taken.length ≤ 1
    ∧ ∀ base ∈ taken, (s'.HeapAlive s.nextFiber ∧ s'.stackOf s.nextFiber = base)
      ∨ ∃ lease ∈ given, lease.base = base

variable {s s' : FiberSystem} {id : FiberId} {base : Nat} {born freed : List (FiberId × Nat)}
  {given returned : List Lease}

section Alive

theorem Alive.refers (h : s.Kept []) (hid : s.Alive id) : s.Refers id := by
  obtain hreg | ⟨c, hc, hmem⟩ | ⟨call, hcall, hsource⟩ | hheld | ⟨call, hcall, htarget⟩ := hid
  · exact .inl hreg
  · refine .inr (.inr ⟨c.token, c, carrier?_of_mem h.tokens hc, Carrier.refersTo_iff.2 ?_⟩)
    tauto
  · exact .inr (.inl (.inr ⟨call, hcall, SwitchCall.refersTo_iff.2 (.inr hsource)⟩))
  · exact .inr (.inl (.inl hheld))
  · exact .inr (.inl (.inr ⟨call, hcall, SwitchCall.refersTo_iff.2 (.inl htarget)⟩))

/-- Besides, a carrier refers to its thread fiber. -/
theorem Refers.alive (hid : s.Refers id) :
    s.Alive id ∨ ∃ t c, s.carrier? t = some c ∧ c.threadFiber = id := by
  obtain hreg | (hheld | ⟨call, hcall, href⟩) | ⟨t, c, hc, href⟩ := hid
  · exact .inl (.inl hreg)
  · exact .inl (.inr (.inr (.inr (.inl hheld))))
  · obtain htarget | hsource := SwitchCall.refersTo_iff.1 href
    · exact .inl (.inr (.inr (.inr (.inr ⟨call, hcall, htarget⟩))))
    · exact .inl (.inr (.inr (.inl ⟨call, hcall, hsource⟩)))
  · obtain hthread | hcurrent | hidle | hpending := Carrier.refersTo_iff.1 href
    · exact .inr ⟨t, c, hc, hthread⟩
    · exact .inl (.inr (.inl ⟨c, mem_carriers hc, .inr (.inr hcurrent)⟩))
    · exact .inl (.inr (.inl ⟨c, mem_carriers hc, .inl hidle⟩))
    · exact .inl (.inr (.inl ⟨c, mem_carriers hc, .inr (.inl hpending)⟩))

theorem Refers.exists_fiber (hs : s.Sound) (h : s.Kept []) (hid : s.Refers id) :
    ∃ f, s.fibers.get? id = some f := by
  obtain hreg | hlent | ⟨t, c, hc, href⟩ := hid
  · obtain ⟨_, _, _, ⟨f, hf, -⟩, -⟩ := hs.registered id hreg
    exact ⟨f, hf⟩
  · exact Table.mem_keys_iff.1 (h.lent id hlent)
  · have hcarries := hs.carries t c hc
    have hended : id ∈ c.ended → ∃ f, s.fibers.get? id = some f := fun hmem => by
      obtain ⟨⟨f, hf, -⟩, -⟩ := hcarries.ended id hmem
      exact ⟨f, hf⟩
    obtain rfl | rfl | hidle | hpending := Carrier.refersTo_iff.1 href
    · obtain ⟨f, hf, -⟩ := hcarries.threadFiber
      exact ⟨f, hf⟩
    · obtain ⟨_, f, hf, -⟩ := hcarries.current
      exact ⟨f, hf⟩
    · exact hended (by simp [Carrier.ended, hidle])
    · exact hended (by simp [Carrier.ended, hpending])

/-- No heap fiber is kept that is not alive. -/
theorem heapAlive_iff (hs : s.Sound) (h : s.Kept []) :
    s.HeapAlive id ↔ id ∈ s.holdings.map (·.1) := by
  rw [List.mem_map]
  constructor
  · rintro ⟨-, f, hf, hheap⟩
    exact ⟨(id, f.region.base), (mem_holdings_iff h.keys).2 ⟨f, hf, hheap, rfl⟩, rfl⟩
  · rintro ⟨⟨j, base⟩, hmem, rfl⟩
    obtain ⟨f, hf, hheap, -⟩ := (mem_holdings_iff h.keys).1 hmem
    refine ⟨?_, f, hf, hheap⟩
    have hrefers := (h.tended j (Table.mem_keys_iff.2 ⟨f, hf⟩)).resolve_right List.not_mem_nil
    refine hrefers.alive.resolve_right ?_
    rintro ⟨t, c, hc, rfl⟩
    obtain ⟨g, hg, -, hthread⟩ := (hs.carries t c hc).threadFiber
    obtain rfl := Option.some.inj (hf.symm.trans hg)
    exact Bool.noConfusion (hheap.symm.trans hthread)

theorem stackOf_of_mem (h : s.Kept []) (hmem : (id, base) ∈ s.holdings) :
    s.stackOf id = base := by
  obtain ⟨f, hf, -, hbase⟩ := (mem_holdings_iff h.keys).1 hmem
  rw [stackOf, fiber_eq hf, hbase]

theorem map_stackOf (h : s.Kept []) {l : List (FiberId × Nat)} (hl : l ⊆ s.holdings) :
    (l.map (·.1)).map s.stackOf = l.map (·.2) := by
  rw [List.map_map]
  exact List.map_congr_left fun ⟨_, _⟩ hmem => stackOf_of_mem h (hl hmem)

end Alive

section Balanced

theorem Kept.holdings_eq_nil (hs : s.Sound) (h : s.Kept []) (hcarriers : s.carriers = [])
    (hlent : ∀ id, s.Lends id → (s.fiber id).isThreadFiber = true) : s.holdings = [] := by
  have hnone : ∀ t, s.carrier? t = none := fun t => by simp [carrier?, hcarriers]
  refine List.eq_nil_iff_forall_not_mem.2 ?_
  rintro ⟨id, base⟩ hmem
  obtain ⟨f, hf, hheap, -⟩ := (mem_holdings_iff h.keys).1 hmem
  obtain (hreg | hlends | ⟨t, c, hc, -⟩) | hloose :=
    h.tended id (Table.mem_keys_iff.2 ⟨f, hf⟩)
  · obtain ⟨t, _, c, -, hc, -⟩ := hs.registered id hreg
    simp [hnone] at hc
  · have hthread := hlent id hlends
    rw [fiber_eq hf] at hthread
    exact Bool.noConfusion (hheap.symm.trans hthread)
  · simp [hnone] at hc
  · exact List.not_mem_nil hloose

theorem Kept.balanced (hs : s.Sound) (h : s.Kept []) : s.Balanced (s.holdings.map (·.1)) := by
  obtain ⟨hinUse, htotal⟩ := h.accounts.totals
  have hcount : s.pool.totals.inUse = s.holdings.length + s.leases.length := by
    simpa using hinUse
  constructor
  case nodup => exact nodup_holdings h.keys
  case mem_iff => exact fun id => (heapAlive_iff hs h).symm
  case exists_fiber => exact fun id hid => (hid.refers h).exists_fiber hs h
  case inUse => simpa using hcount
  case distinct =>
    intro hsound
    rw [map_stackOf h (List.Subset.refl _)]
    exact h.accounts.carved.nodup_iff.2 (h.accounts.nodup_carvedBases hsound)
  case settled =>
    intro hcarriers hleases hlent
    simp only [h.holdings_eq_nil hs hcarriers hlent, hleases, List.length_nil] at hcount
    omega

end Balanced

section Turnover

/-- The fibers made and those that were there before are different. -/
theorem Trades.nodup (hs : s.Sound) (h : s.Kept []) (ht : s.Trades s' born freed given returned) :
    ((born ++ s.holdings).map (·.1)).Nodup := by
  have hone := ht.one
  rw [List.map_append, List.nodup_append]
  refine ⟨?_, nodup_holdings h.keys, ?_⟩
  · cases born with
    | nil => exact List.nodup_nil
    | cons entry rest =>
      have hrest : rest = [] := by
        rw [List.length_cons] at hone
        exact List.length_eq_zero_iff.1 (by omega)
      exact hrest ▸ List.nodup_singleton _
  · rintro id hid _ hmem rfl
    obtain ⟨h₀, hborn, rfl⟩ := List.mem_map.1 hid
    obtain ⟨-, f, hf, -⟩ := (heapAlive_iff hs h).2 hmem
    rw [ht.fresh h₀ hborn, hs.nextFiber_not_made] at hf
    simp at hf

theorem Trades.turnover (hs : s.Sound) (h : s.Kept []) (hs' : s'.Sound) (h' : s'.Kept [])
    (ht : s.Trades s' born freed given returned) : s.Turnover s' (freed.map (·.1)) := by
  have hnodup := (ht.fibers.map (·.1)).nodup_iff.1 (ht.nodup hs h)
  rw [List.map_append, List.nodup_append] at hnodup
  obtain ⟨hfreed, -, hapart⟩ := hnodup
  have hdead : ∀ id ∈ freed.map (·.1), ¬s'.HeapAlive id := fun id hid halive =>
    hapart id hid id ((heapAlive_iff hs' h').1 halive) rfl
  have hnew : ∀ entry ∈ born, s'.HeapAlive s.nextFiber ∧ s'.stackOf s.nextFiber = entry.2 := by
    rintro ⟨id, base⟩ hborn
    obtain rfl : id = s.nextFiber := ht.fresh _ hborn
    rcases List.mem_append.1 (ht.fibers.subset (List.mem_append_left _ hborn)) with hmem | hmem
    · obtain ⟨f, hf, -⟩ := (mem_holdings_iff h.keys).1 (ht.freed_subset hmem)
      exact absurd (hf.symm.trans hs.nextFiber_not_made) (Option.some_ne_none f)
    · exact ⟨(heapAlive_iff hs' h').2 (List.mem_map_of_mem hmem), stackOf_of_mem h' hmem⟩
  -- A fiber that was there before is freed, or has the stack that it had.
  have hcases : ∀ entry ∈ s.holdings, entry ∈ freed ∨ entry ∈ s'.holdings := fun entry hmem =>
    List.mem_append.1 (ht.fibers.subset (List.mem_append_right _ hmem))
  constructor
  case nodup => exact hfreed
  case mem_iff =>
    intro id
    constructor
    · intro hid
      obtain ⟨entry, hmem, rfl⟩ := List.mem_map.1 hid
      exact ⟨(heapAlive_iff hs h).2 (List.mem_map_of_mem (ht.freed_subset hmem)), hdead _ hid⟩
    · rintro ⟨halive, hgone⟩
      obtain ⟨entry, hmem, rfl⟩ := List.mem_map.1 ((heapAlive_iff hs h).1 halive)
      refine List.mem_map_of_mem ((hcases entry hmem).resolve_right fun hmem' => hgone ?_)
      exact (heapAlive_iff hs' h').2 (List.mem_map_of_mem hmem')
  case fresh =>
    intro id halive
    obtain ⟨entry, hmem, rfl⟩ := List.mem_map.1 ((heapAlive_iff hs' h').1 halive)
    rcases List.mem_append.1 (ht.fibers.symm.subset (List.mem_append_right _ hmem)) with hb | hb
    · exact .inr (ht.fresh entry hb)
    · exact .inl ((heapAlive_iff hs h).2 (List.mem_map_of_mem hb))
  case stays =>
    intro id halive halive'
    obtain ⟨⟨id, base⟩, hmem, rfl⟩ := List.mem_map.1 ((heapAlive_iff hs h).1 halive)
    have hmem' := (hcases _ hmem).resolve_left fun hgone =>
      hdead id (List.mem_map_of_mem hgone) halive'
    rw [stackOf_of_mem h hmem, stackOf_of_mem h' hmem']
  case free =>
    obtain ⟨taken, htaken, hfree⟩ := ht.free
    refine ⟨given, returned, taken, ht.leases, ht.returned_subset, ?_, ?_, fun base hbase => ?_⟩
    · rwa [map_stackOf h ht.freed_subset]
    · have hone := ht.one
      have hlength := htaken.length_le
      simp only [List.length_append, List.length_map] at hlength
      omega
    · rcases List.mem_append.1 (htaken.subset hbase) with hmem | hmem
      · obtain ⟨entry, hborn, rfl⟩ := List.mem_map.1 hmem
        exact .inl (hnew entry hborn)
      · exact .inr (List.mem_map.1 hmem)

end Turnover

end FiberSystem

namespace Run

open FiberSystem

variable {host : Host} {settings : Settings} {provider : PageProvider} {policy : Option Bool}
  {s : FiberSystem} {operation : Operation} {operations rest : List Operation} {r r' : Run}
  {id : FiberId}

/-- The fibers are where they belong, and none is forgotten. -/
structure Orderly (r : Run) : Prop where
  sound : r.system.Sound
  kept : r.system.Kept []

theorem Orderly.perform (h : r.Orderly) (hr : r.perform operation = .ok r') :
    r'.Orderly ∧ ∃ born freed given returned,
      r.system.Trades r'.system born freed given returned := by
  obtain ⟨event, hperform, -⟩ := perform_eq_ok_iff.1 hr
  obtain ⟨hkept, htrades⟩ := h.kept.perform h.sound hperform
  exact ⟨⟨(h.sound.perform hperform).1, hkept⟩, htrades⟩

theorem orderly_of_ofSettings (hs : ofSettings host settings provider policy = .ok (.ok s))
    (hp : 0 < provider.pageSize) (hg : 0 < provider.granularity) : Orderly ⟨s, []⟩ := by
  have hsound := (sound_of_ofSettings hs).1
  refine ⟨hsound, ?_⟩
  obtain ⟨hvalid, registry, -, rfl⟩ := ofSettings_cases hs
  constructor
  case registry => exact hsound.registry
  case keys => exact List.nodup_nil
  case tokens => exact List.nodup_nil
  case accounts => exact Pool.accounts_ofSettings hvalid hp hg
  case lent => rintro id (hid | ⟨call, hcall, -⟩) <;> contradiction
  case tended => exact fun id hid => absurd hid List.not_mem_nil

theorem orderly_of_after (hs : ofSettings host settings provider policy = .ok (.ok s))
    (hp : 0 < provider.pageSize) (hg : 0 < provider.granularity)
    (hr : Run.after ⟨s, []⟩ operations = .ok r) : r.Orderly :=
  after_induction (P := Orderly) (fun _ _ _ h hperform => (h.perform hperform).1) hr
    (orderly_of_ofSettings hs hp hg)

/-- A fiber that has been made and is not alive is never alive again. -/
theorem not_heapAlive_of_after (h : r.Orderly) (hr : r.after rest = .ok r')
    (hmade : r.system.identities.Given id) (hid : ¬r.system.HeapAlive id) :
    ¬r'.system.HeapAlive id := by
  induction rest generalizing r with
  | nil => exact Except.ok.inj hr ▸ hid
  | cons operation rest ih =>
    obtain ⟨r₁, hperform, hr⟩ := after_cons_eq_ok_iff.1 hr
    obtain ⟨h₁, born, freed, given, returned, htrades⟩ := h.perform hperform
    have hturnover := htrades.turnover h.sound h.kept h₁.sound h₁.kept
    refine ih h₁ hr (hmade.mono htrades.identities) fun halive => ?_
    exact hmade.ne_next ((hturnover.fresh _ halive).resolve_left hid)

/-- After a run without a fault the stacks in use are those of the heap fibers alive and those that
the host has leased, and whatever is done next, the stack of a fiber goes back to the free list when
the fiber stops being alive, which it does but once. -/
theorem balanced_of_after (hs : ofSettings host settings provider policy = .ok (.ok s))
    (hp : 0 < provider.pageSize) (hg : 0 < provider.granularity)
    (hr : Run.after ⟨s, []⟩ operations = .ok r) :
    (∃ fibers, r.system.Balanced fibers)
      ∧ ∀ operation r', r.perform operation = .ok r' →
        ∃ ended, r.system.Turnover r'.system ended
          ∧ ∀ rest r'', r'.after rest = .ok r'' → ∀ id ∈ ended, ¬r''.system.HeapAlive id := by
  have h : r.Orderly := after_induction (P := Orderly)
    (fun _ _ _ h hperform => (h.perform hperform).1) hr (orderly_of_ofSettings hs hp hg)
  refine ⟨⟨_, h.kept.balanced h.sound⟩, fun operation r' hperform => ?_⟩
  obtain ⟨h', born, freed, given, returned, htrades⟩ := h.perform hperform
  have hturnover := htrades.turnover h.sound h.kept h'.sound h'.kept
  refine ⟨_, hturnover, fun rest r'' hrest id hid => ?_⟩
  obtain ⟨halive, hgone⟩ := (hturnover.mem_iff id).1 hid
  obtain ⟨-, f, hf, -⟩ := halive
  exact not_heapAlive_of_after h' hrest ((h.sound.made id f hf).mono htrades.identities) hgone

/-- Pages cannot be given back. One of two fibers has run and ended and is parked, the other is
suspended when the thread is detached, and a lease is outstanding. -/
theorem balanced_of_detach : ∃ s r r',
    ofSettings .simulated
        { registryShards := 2, guardPages := false, physicalCacheMax := 0, verifyOnYield := false }
        ({ faults := { uncommit := some 12 } } : Simulation).provider none = .ok (.ok s)
      ∧ Run.after ⟨s, []⟩
          [.attach 1 "main" (.ok ⟨0x10000000, 0x100000⟩), .perform ⟨1⟩ (.create .pooled none),
           .perform ⟨1⟩ (.create .pooled none), .lease,
           .perform ⟨1⟩ (.switch (.ofNumber 1) .returning),
           .perform ⟨1⟩ (.switch (.ofNumber 0) .terminating),
           .returnFrom ⟨⟨1⟩, .terminating, .ofNumber 1, .ofNumber 0⟩,
           .returnFrom ⟨⟨1⟩, .returning, .ofNumber 0, .ofNumber 1⟩,
           .drop (.ofNumber 1), .drop (.ofNumber 2)] = .ok r
      ∧ r.perform (.perform ⟨1⟩ .detach) = .ok r'
      ∧ PageCall.Sound r.system.machine.calls
      ∧ r.system.pool.totals.inUse = 3 ∧ r'.system.pool.totals.inUse = 1
      ∧ (∃ fibers, r.system.Balanced fibers) ∧ ∃ ended, r.system.Turnover r'.system ended := by
  refine ⟨?s, ?r, ?r', ?hs, ?hr, ?hdetach, ?hsound, ?hbefore, ?hafter,
    (balanced_of_after ?hs (by decide) (by decide) ?hr).imp_right fun h =>
      (h _ _ ?hdetach).imp fun _ h => h.1⟩
  case hs => rfl
  case hr => rfl
  case hdetach => rfl
  case hsound =>
    have hreserve : PageCall.Sound [.reserve 22806528 (.ok 0x200000000000)] :=
      ⟨⟨by decide, by simp [PageCall.reserved]⟩, trivial⟩
    exact hreserve
  case hbefore => rfl
  case hafter => rfl

end Run

end PooledFibers
