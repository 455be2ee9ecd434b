import Mathlib.Data.List.Perm.Basic
import Mathlib.Tactic.Common
import PooledFibers.Machine.Simulated
import PooledFibers.Proofs.FiberSystem.Dormant
import PooledFibers.Proofs.FiberSystem.Isolation
import PooledFibers.Proofs.FiberSystem.Pristine

/-!
# Stacks that stay primed

The words at the top of a primed stack last for as long as the fiber on it is not switched to and the
host does not write there, whatever becomes of the other stacks (`Primed.perform`). So walks over a
fiber that has been handed out and not been switched to find nothing, if stacks have room for these
words (`Run.bare_of_unentered`). With smaller stacks they meet a fault.
-/

namespace PooledFibers

namespace FiberSystem

open Outcome

/-- In a stocked system with room on its stacks, the fiber has been made and, unless what the page
provider reserves overlaps, the primed words are at the top of its stack if it still exists. -/
structure Primed (s : FiberSystem) (id : FiberId) (base : Nat) : Prop where
  stocked : s.Stocked
  zone : s.pool.geometry.guardZone ≤ s.pool.stackSize
  room : Fiber.primedSize ≤ s.pool.stackSize
  made : s.Made id
  words : PageCall.Sound s.machine.calls → ∀ f, s.fibers.get? id = some f →
    f.isThreadFiber = false ∧ f.region.base = base
      ∧ s.machine.readAll (Fiber.primedResume base) Fiber.primedWords.length = Fiber.primedWords

variable {s s' s₁ : FiberSystem} {t : ThreadToken} {c : Carrier} {id j : FiberId} {base : Nat}
  {pool : Pool}

section Steps

theorem primed_within (hroom : Fiber.primedSize ≤ s.pool.stackSize) {a : Nat}
    (ha : AddressRange.contains ⟨Fiber.primedResume base, base⟩ a = true) :
    (stackRange s.pool.stackSize base).contains a = true := by
  refine AddressRange.Within.contains ?_ ha
  exact ⟨Nat.sub_le_sub_left hroom base, Nat.le_refl base⟩

/-- Where the fiber lives on and its stack is as it was or is primed anew, it is primed. -/
theorem Primed.mono (h : s.Primed id base) (hstocked : s'.Stocked) (hi : s.Inherits s')
    (hretains : s.machine.Retains s'.machine)
    (hread : PageCall.Sound s'.machine.calls → (id, base) ∈ s.holdings →
      ∀ f, s'.fibers.get? id = some f → f.region.base = base →
        (∀ a, AddressRange.contains ⟨Fiber.primedResume base, base⟩ a = true →
            s'.machine.read a = s.machine.read a)
          ∨ ∃ machine, s'.machine = Fiber.prime machine base) : s'.Primed id base := by
  have hsize : s'.pool.stackSize = s.pool.stackSize := congrArg Geometry.stackSize hi.geometry
  refine ⟨hstocked, ?_, ?_, hi.made h.made, fun hsound f' hf' => ?_⟩
  · rw [hsize, hi.geometry]
    exact h.zone
  · rw [hsize]
    exact h.room
  obtain ⟨f, hf, -, hstack⟩ := hi.exists_fiber h.made hf'
  obtain ⟨hheap, hbase, hwords⟩ := h.words (hretains.sound hsound) f hf
  have hheap' : f'.isThreadFiber = false := by rwa [Fiber.isThreadFiber, Fiber.lease?, hstack]
  have hbase' : f'.region.base = base := by rwa [Fiber.region, hstack]
  have hid : (id, base) ∈ s.holdings := (mem_holdings_iff h.stocked.keys).2 ⟨f, hf, hheap, hbase⟩
  refine ⟨hheap', hbase', ?_⟩
  obtain hsame | ⟨machine, heq⟩ := hread hsound hid f' hf' hbase'
  · have hfits := h.room.trans (hbase ▸ h.stocked.stackSize_le hf hheap)
    have hend : Fiber.primedResume base + Fiber.primedSize = base := Nat.sub_add_cancel hfits
    exact hwords ▸ Machine.readAll_congr fun a ha => hsame a (hend ▸ ha)
  · rw [heq]
    exact Machine.readAll_writeAll

/-- A move that writes to no memory. -/
theorem Primed.quiet (h : s.Primed id base) (hm : s.Move t s')
    (hwords : s'.machine.words = s.machine.words) : s'.Primed id base :=
  h.mono (hm.stocked h.stocked) hm.inherits hm.retains fun _ _ _ _ _ =>
    .inl fun a _ => Machine.read_of_words hwords a

/-- The stack of another fiber goes back to the pool. -/
theorem Primed.reap (h : s.Primed id base) (hm : s.Move t s') (hr : s.reap j = .ok s') :
    s'.Primed id base := by
  refine h.mono (hm.stocked h.stocked) hm.inherits hm.retains fun hsound hid f' hf' _ =>
    .inl fun a ha => ?_
  have hbefore := hm.retains.sound hsound
  obtain rfl | ⟨-, f, pool, hf, hleased, hnative, rfl⟩ := reap_cases hr
  · rfl
  have hne : id ≠ j := by
    rintro rfl
    simp at hf'
  cases hstack : f.stack with
  | native region => exact hnative region hstack ▸ rfl
  | leased lease =>
    have hj := mem_holdings_of_leased h.stocked.keys hf hstack
    exact h.stocked.accounts.read_of_release (mem_leased_of_holdings hj) (hleased lease hstack)
      hbefore (.inl ⟨base, mem_others_of_ne hj hid hne, primed_within h.room ha⟩)

theorem Primed.renew (h : s.Primed id base) (hm : s.Move t s') (hr : s.renew j = .ok s') :
    s'.Primed id base := by
  refine h.mono (hm.stocked h.stocked) hm.inherits hm.retains fun hsound hid f' hf' hbase => ?_
  have hprimed := machine_renew hr
  have hbefore := hm.retains.sound hsound
  by_cases heq : id = j
  · -- the fiber was ended and is woken
    subst heq
    rw [fiber_eq hf', hbase] at hprimed
    exact .inr ⟨_, hprimed⟩
  · refine .inl fun a ha => ?_
    obtain ⟨hheap, rfl⟩ := renew_cases hr
    obtain ⟨f, hf, -, hheap⟩ := owns_of_not_isThreadFiber hheap
    have hj : (j, (s.fiber j).region.base) ∈ s.holdings :=
      (mem_holdings_iff h.stocked.keys).2 ⟨f, hf, hheap, by rw [fiber_eq hf]⟩
    have hfits := fiber_eq hf ▸ h.stocked.stackSize_le hf hheap
    refine Fiber.read_prime h.room hfits (h.stocked.apart_of_elsewhere hbefore hj ?_)
    exact .inl ⟨base, mem_others_of_ne hj hid heq, primed_within h.room ha⟩

/-- What has been leased is not where the pool's next stack is. -/
theorem Primed.elsewhere_of_acquire {outcome : Except Failure Lease} (h : s.Primed id base)
    (hid : (id, base) ∈ s.holdings) (hr : s.pool.acquire = .ok (outcome, pool)) {a : Nat}
    (ha : AddressRange.contains ⟨Fiber.primedResume base, base⟩ a = true) :
    pool.Elsewhere (s.holdings.map (·.2) ++ s.leases.map (·.base)) a := by
  have hsize : pool.stackSize = s.pool.stackSize :=
    congrArg Geometry.stackSize (Pool.alike_of_acquire hr).geometry
  exact .inl ⟨base, mem_leased_of_holdings hid, hsize ▸ primed_within h.room ha⟩

theorem Primed.make {name : String} {lease : Lease} (h : s.Primed id base)
    (hnew : s.fibers.get? s.nextFiber = none) (hr : s.pool.acquire = .ok (.ok lease, pool)) :
    (({ s with pool }.withMachine (Fiber.prime pool.machine lease.base)).addFiber
      (.ofLease s.nextFiber t name lease s.settings.verifyOnYield)).Primed id base := by
  have hm : s.Move t (({ s with pool }.withMachine (Fiber.prime pool.machine lease.base)).addFiber
      (.ofLease s.nextFiber t name lease s.settings.verifyOnYield)) := .make hnew hr
  refine h.mono (hm.stocked h.stocked) hm.inherits hm.retains fun hsound hid _ _ _ =>
    .inl fun a ha => ?_
  have hleased := (Fiber.retains_prime pool.machine lease.base).sound hsound
  have helsewhere := h.elsewhere_of_acquire hid hr ha
  have hsize : pool.stackSize = s.pool.stackSize :=
    congrArg Geometry.stackSize (Pool.alike_of_acquire hr).geometry
  have haccounts := h.stocked.accounts.acquire hr
  have hcarved : lease.base ∈ pool.carvedBases :=
    haccounts.mem_carvedBases.2 (.inl (List.mem_append_left _ List.mem_cons_self))
  have hprime : (Fiber.prime pool.machine lease.base).read a = pool.machine.read a :=
    Fiber.read_prime (hsize ▸ h.room) (haccounts.stackSize_le hcarved)
      (h.stocked.accounts.apart_of_acquire hr hleased helsewhere)
  exact hprime.trans (h.stocked.accounts.read_of_acquire h.zone hr hleased helsewhere)

/-- Whatever a thread does with its fibers, the stack stays primed. -/
theorem Move.primed (hm : s.Move t s') (h : s.Primed id base) : s'.Primed id base := by
  induction hm with
  | refl s => exact h
  | held s held => exact h.quiet (Move.held (t := t) s held) rfl
  | calls hcalls => exact h.quiet (.calls hcalls) rfl
  | notice s n => exact h.quiet (Move.notice (t := t) s n) rfl
  | tally s g => exact h.quiet (.tally s g) (by rw [machine_record])
  | carrier hg hroom => exact h.quiet (.carrier hg hroom) rfl
  | fiber howned hg hrecord => exact h.quiet (.fiber howned hg hrecord) rfl
  | enroll howned hr =>
    refine h.quiet (.enroll howned hr) ?_
    obtain ⟨registry, -, rfl⟩ := register_eq_ok_iff.1 hr
    rfl
  | withdraw howned hr =>
    refine h.quiet (.withdraw howned hr) ?_
    obtain ⟨registry, -, rfl⟩ := unregister_eq_ok_iff.1 hr
    rfl
  | unregister howns hr =>
    refine h.quiet (.unregister howns hr) ?_
    obtain ⟨registry, -, rfl⟩ := unregister_eq_ok_iff.1 hr
    rfl
  | reap howned hr => exact h.reap (.reap howned hr) hr
  | renew howned hr => exact h.renew (.renew howned hr) hr
  | make hnew hr => exact h.make hnew hr
  | @makeNone s failure pool hr =>
    have hm := Move.makeNone (t := t) hr
    exact h.mono (hm.stocked h.stocked) hm.inherits hm.retains fun hsound hid _ _ _ =>
      .inl fun a ha => h.stocked.accounts.read_of_acquire h.zone hr hsound
        (h.elsewhere_of_acquire hid hr ha)
  | trans _ _ ih ih' => exact ih' (ih h)

end Steps

section Operations

theorem Primed.detach (h : s.Primed id base) (hs : s.Sound) (hc : s.carrier? t = some c)
    (hr : s.detach t = .ok s') : s'.Primed id base := by
  obtain ⟨s₁, s₂, hmove₁, hmove₂, hmove₃⟩ := moves_of_detach hs hc hr
  have h₁ := hmove₁.primed h
  have hmachine : (s₁.record t Statistics.unregister).machine = s₁.machine := machine_record s₁ t _
  have hrecorded : (s₁.record t Statistics.unregister).Primed id base :=
    h₁.mono (h₁.stocked.record _) (same_record s₁ t _).inherits
      (Machine.retains_of_calls (by rw [hmachine])) fun _ _ _ _ _ => .inl fun a _ => by rw [hmachine]
  have h₂ := hmove₂.primed hrecorded
  exact hmove₃.primed ⟨h₂.stocked.of_carriers _, h₂.zone, h₂.room, h₂.made, h₂.words⟩

theorem Primed.performOn {operation : ThreadOperation} {e : Option Event} (h : s.Primed id base)
    (hs : s.Sound) (hc : s.carrier? t = some c) (hr : s.performOn t c operation = .ok (s', e)) :
    s'.Primed id base := by
  cases operation with
  | detach => exact h.detach hs hc (eq_ok_of_map_mk hr)
  | _ => exact (move_of_performOn hs hc hr nofun).primed h

/-- A stack that the host had leased goes back to the pool. -/
theorem Primed.unlease {lease : Lease} (h : s.Primed id base) (hstocked : s'.Stocked)
    (hlease : lease ∈ s.leases) (hr : s.unlease lease = .ok s') : s'.Primed id base := by
  obtain ⟨pool, hrelease, hs'⟩ := bind_eq_ok_iff.1 hr
  obtain rfl := Except.ok.inj hs'
  refine h.mono hstocked (inherits_of_fibers rfl rfl (Pool.alike_of_release hrelease).geometry)
    (Pool.retains_of_release hrelease) fun hsound hid _ _ _ => .inl fun a ha => ?_
  have hbefore := (Pool.retains_of_release hrelease).sound hsound
  have hperm : (s.holdings.map (·.2) ++ s.leases.map (·.base)).Perm
      (lease.base :: (s.holdings.map (·.2) ++ (s.leases.erase lease).map (·.base))) :=
    (((List.perm_cons_erase hlease).map Lease.base).append_left _).trans List.perm_middle
  have hrest := hperm.erase lease.base
  rw [List.erase_cons_head] at hrest
  have hmem : base ∈ (s.holdings.map (·.2) ++ s.leases.map (·.base)).erase lease.base :=
    hrest.symm.subset (mem_leased_of_holdings (s := { s with leases := s.leases.erase lease }) hid)
  have hleased : lease.base ∈ s.holdings.map (·.2) ++ s.leases.map (·.base) :=
    List.mem_append_right _ (List.mem_map_of_mem hlease)
  exact h.stocked.accounts.read_of_release hleased hrelease hbefore
    (.inl ⟨base, hmem, primed_within h.room ha⟩)

/-- What the host writes elsewhere. -/
theorem Primed.write {address : Nat} {words : List MemoryWord} (h : s.Primed id base)
    (hstocked : (s.writeWords address words).Stocked)
    (hapart : AddressRange.Apart ⟨address, address + Word.bytes * words.length⟩
      ⟨Fiber.primedResume base, base⟩) : (s.writeWords address words).Primed id base :=
  h.mono hstocked (inherits_of_fibers rfl rfl rfl) (Machine.retains_of_calls Machine.calls_writeAll)
    fun _ _ _ _ _ => .inl fun _ ha => Machine.read_writeAll (hapart.contains_eq_false ha)

/-- The stack stays primed whatever happens, but for what the host writes to it. -/
theorem Primed.perform {operation : Operation} {e : Option Event} (h : s.Primed id base)
    (hpeaceful : s.Peaceful) (halone : LeavesAlone id base operation)
    (hr : s.perform operation = .ok (s', e)) : s'.Primed id base := by
  have hs := hpeaceful.sound
  have hpeaceful' := hpeaceful.perform hr
  have hstocked := hpeaceful'.kept.stocked hpeaceful'.partitioned
  have hinherits := (hpeaceful.partitioned.perform hs hr).1
  cases performed_of_perform hr with
  | nothing => exact h
  | attach hattach =>
    obtain ⟨rfl, -⟩ | ⟨-, region, registry, statistics, slot, -, -, rfl⟩ := attach_cases hattach
    · exact h
    · exact h.mono hstocked hinherits (Machine.retains_of_calls rfl) fun _ _ _ _ _ => .inl fun _ _ => rfl
  | perform hc hperform => exact h.performOn hs hc hperform
  | returnFrom hcall hreturn =>
    exact (move_of_returnFrom hs (hpeaceful.partitioned.calls _ hcall) hreturn).primed h
  | @drop fiber _ hdrop =>
    have howned : (s.unhold fiber).OwnedBy (s.fiber fiber).owner fiber := ownedBy_of_fiber rfl
    exact ((Move.held s _).trans (.reap howned hdrop)).primed h
  | lease hlease =>
    obtain ⟨⟨outcome, pool⟩, hacquire, hlease⟩ := bind_eq_ok_iff.1 hlease
    have hpool : s'.pool = pool := by
      cases outcome <;> simp only [pure_eq_ok, Except.ok.injEq, Prod.mk.injEq] at hlease <;>
        exact hlease.2 ▸ rfl
    have hmachine : s'.machine = pool.machine := congrArg Pool.machine hpool
    refine h.mono hstocked hinherits (hmachine ▸ Pool.retains_of_acquire hacquire)
      fun hsound hid _ _ _ => .inl fun a ha => ?_
    rw [hmachine] at hsound ⊢
    exact h.stocked.accounts.read_of_acquire h.zone hacquire hsound
      (h.elsewhere_of_acquire hid hacquire ha)
  | unlease hlease hunlease => exact h.unlease hstocked hlease hunlease
  | write => exact h.write hstocked halone
  | hold _ | saveResume | addContinuation | dropContinuation =>
    exact h.mono hstocked hinherits (Machine.retains_of_calls rfl) fun _ _ _ _ _ => .inl fun _ _ => rfl

end Operations

end FiberSystem

namespace Run

open FiberSystem

variable {host : Host} {settings : Settings} {provider : PageProvider} {policy : Option Bool}
  {s s' : FiberSystem} {operations rest : List Operation} {r r' : Run}
  {t : ThreadToken} {c : Carrier} {id : FiberId} {base : Nat} {geometry : Geometry}
  {continuation : Option ContinuationId}

theorem dormant_of_rest (h : r.Regular geometry) (hdormant : r.system.Dormant id base)
    (hr : r.after rest = .ok r') (halone : r.AtEach (fun _ => LeavesAlone id base) rest) :
    r'.system.Dormant id base := by
  refine (after_induction_of_atEach (P := fun r => r.Regular geometry ∧ r.system.Dormant id base)
    ?_ hr halone ⟨h, hdormant⟩).2
  rintro r operation r' ⟨h, hdormant⟩ halone hr
  obtain ⟨event, hperform, -⟩ := perform_eq_ok_iff.1 hr
  exact ⟨h.perform hr, hdormant.perform h.orderly.sound halone hperform⟩

theorem primed_of_rest (h : r.system.Peaceful) (hprimed : r.system.Primed id base)
    (hr : r.after rest = .ok r') (halone : r.AtEach (fun _ => LeavesAlone id base) rest) :
    r'.system.Primed id base := by
  refine (after_induction_of_atEach (P := fun r => r.system.Peaceful ∧ r.system.Primed id base)
    ?_ hr halone ⟨h, hprimed⟩).2
  rintro r operation r' ⟨h, hprimed⟩ halone hr
  obtain ⟨event, hperform, -⟩ := perform_eq_ok_iff.1 hr
  exact ⟨h.perform hperform, hprimed.perform h halone hperform⟩

/-- From when a fiber is handed out in a run, for as long as it is not switched to and the host
writes neither its resume point nor the primed words of its stack, its trace and its dump are empty,
whatever happens to other fibers and even if it is ended and handed out again. Walks find nothing if
stacks have room for the primed words and no memory is reserved twice; on smaller stacks they meet a
fault. While the host holds it, the fiber exists. Whatever the resume point of a fiber, walks read
words of its own stack only. -/
theorem bare_of_unentered (hs : ofSettings host settings provider policy = .ok (.ok s))
    (hp : 0 < provider.pageSize) (hg : 0 < provider.granularity)
    (hr : Run.after ⟨s, []⟩ operations = .ok r) (hc : r.system.carrier? t = some c)
    (hcreate : r.system.create t .pooled continuation = .ok (.ok id, s')) :
    (∃ f, s'.fibers.get? id = some f)
      ∧ (∀ rest r', Run.after ⟨s', .created t id :: r.history⟩ rest = .ok r' →
        Run.AtEach (fun _ => LeavesAlone id (s'.stackOf id)) ⟨s', .created t id :: r.history⟩ rest →
        (id ∈ r'.system.held → ∃ f, r'.system.fibers.get? id = some f)
          ∧ ∀ f, r'.system.fibers.get? id = some f →
            f.Silent r'.system.machine
            ∧ (Fiber.primedSize ≤ (Geometry.ofSettings settings provider.pageSize).stackSize →
              PageCall.Sound r'.system.machine.calls → f.Bare r'.system.machine)
            ∧ ((Geometry.ofSettings settings provider.pageSize).stackSize < Fiber.primedSize →
              Fiber.primedSize ≤ f.region.base →
              ∀ (α : Type) (mode : WalkMode) (isManaged : α → Bool) (source : FrameSource α),
                f.walk r'.system.machine mode isManaged source
                  = .error (.readOutsideStack f.id (Fiber.primedResume f.region.base))))
      ∧ ∀ g : Fiber, g.ReadsOwnStack := by
  have hregular := regular_of_after hs hp hg hr
  obtain ⟨s₁, hreclaim⟩ := hregular.stocked.exists_reclaim t
  obtain ⟨f₀, hpristine, -⟩ := pristine_of_create (verified_of_after hs hr) hregular.orderly.sound
    hregular.stocked hc hreclaim hcreate
  set r₁ : Run := ⟨s', .created t id :: r.history⟩
  have hperform : r.perform (.perform t (.create .pooled continuation)) = .ok r₁ := by
    simp only [Run.perform, FiberSystem.perform, hc, performOn, hcreate]
    rfl
  have hregular₁ := hregular.perform hperform
  refine ⟨⟨f₀, hpristine.made⟩, fun rest r' hrest halone => ?_, Fiber.readsOwnStack⟩
  have hregular' := hregular₁.after hrest
  have hbase : s'.stackOf id = f₀.region.base := by rw [stackOf, fiber_eq hpristine.made]
  rw [hbase] at halone
  have hdormant₁ : r₁.system.Dormant id f₀.region.base := by
    refine ⟨hregular₁.orderly.sound.made id f₀ hpristine.made, fun f hf => ?_⟩
    obtain rfl : f₀ = f := Option.some.inj (hpristine.made.symm.trans hf)
    exact ⟨hpristine.heap, rfl, hpristine.state, hpristine.entered, hpristine.resume⟩
  -- that the fiber has not run does not depend on the room on its stack
  have hdormant := dormant_of_rest hregular₁ hdormant₁ hrest halone
  refine ⟨fun hheld => ?held, fun f hf => ?walks⟩
  case held => exact Table.mem_keys_iff.1 (hregular'.orderly.kept.lent id (.inl hheld))
  case walks =>
    have hunstarted := hdormant.unstarted f hf
    have hsize : f.region.size = (Geometry.ofSettings settings provider.pageSize).stackSize := by
      rw [hregular'.stocked.region id f hf hunstarted.heap, Pool.stackSize, hregular'.geometry]
    have hfits : f.region.size ≤ f₀.region.base := by
      have hle := hregular'.stocked.stackSize_le hf hunstarted.heap
      rwa [← hregular'.stocked.region id f hf hunstarted.heap, hunstarted.region] at hle
    refine ⟨hunstarted.silent _, fun hroom hsound => ?_, fun hsmall hlow α mode isManaged source => ?_⟩
    · have hpeaceful₁ := hregular₁.peaceful hp hroom
      have hprimed₁ : r₁.system.Primed id f₀.region.base :=
        ⟨hregular₁.stocked, hpeaceful₁.zone, hpeaceful₁.primed, hdormant₁.made, fun _ f hf => by
          obtain rfl : f₀ = f := Option.some.inj (hpristine.made.symm.trans hf)
          exact ⟨hpristine.heap, rfl, hpristine.words⟩⟩
      obtain ⟨-, -, hwords⟩ := (primed_of_rest hpeaceful₁ hprimed₁ hrest halone).words hsound f hf
      exact hunstarted.bare (hsize ▸ hroom) hfits hwords
    · rw [hunstarted.region] at hlow ⊢
      exact hunstarted.walk_of_small (hsize ▸ hsmall) hlow

/-- A fiber has run, has overwritten its primed words and has ended. It is handed out again, and then
another one is made, ends, and is handed out again on an overwritten stack. -/
theorem bare_of_woken_fiber : ∃ s r c s' r' f,
    ofSettings .simulated { registryShards := 2, idleCacheSize := 2, verifyOnYield := true }
        ({} : Simulation).provider none = .ok (.ok s)
      ∧ Run.after ⟨s, []⟩
          [.attach 1 "main" (.ok ⟨0x10000000, 0x100000⟩), .perform ⟨1⟩ (.create .pooled none),
           .perform ⟨1⟩ (.switch (.ofNumber 1) .returning), .saveResume (.ofNumber 1) 0x1234,
           .write 0x2000015BFFC0 [.number 7], .perform ⟨1⟩ (.switch (.ofNumber 0) .returning),
           .perform ⟨1⟩ (.terminate (.ofNumber 1))] = .ok r
      ∧ r.system.carrier? ⟨1⟩ = some c
      ∧ r.system.machine.read 0x2000015BFFC0 = .number 7
      ∧ r.system.create ⟨1⟩ .pooled none = .ok (.ok (.ofNumber 1), s')
      ∧ Run.after ⟨s', .created ⟨1⟩ (.ofNumber 1) :: r.history⟩
          [.perform ⟨1⟩ (.create .pooled none), .write 0x200001568FC0 [.number 7],
           .perform ⟨1⟩ (.terminate (.ofNumber 2)), .perform ⟨1⟩ (.create .pooled none)] = .ok r'
      ∧ r'.system.fibers.get? (.ofNumber 1) = some f
      ∧ f.Silent r'.system.machine ∧ f.Bare r'.system.machine ∧ f.ReadsOwnStack := by
  refine ⟨?s, ?r, ?c, ?s', ?r', ?f, ?hs, ?hr, ?hc, ?hread, ?hcreate, ?hrest, ?hf,
    (bare_of_unentered ?hs (by decide) (by decide) ?hr ?hc ?hcreate).2.elim fun hwalks hreads =>
      ((hwalks _ _ ?hrest ?halone).2 _ ?hf).imp_right fun h => ⟨h.1 (by decide) ?hsound, hreads _⟩⟩
  case hs => rfl
  case hr => rfl
  case hc => rfl
  case hread => rfl
  case hcreate => rfl
  case hrest => rfl
  case hf => rfl
  case halone =>
    have helsewhere : AddressRange.Apart ⟨0x200001568FC0, 0x200001568FC0 + Word.bytes * 1⟩
        ⟨Fiber.primedResume 0x2000015C0000, 0x2000015C0000⟩ := by
      rintro a ⟨hwritten, hprimed⟩
      have habove : 0x2000015C0000 - 72 ≤ a := (AddressRange.contains_iff.1 hprimed).1
      have hbelow : a < 0x200001568FC0 + 8 := (AddressRange.contains_iff.1 hwritten).2
      omega
    refine (atEach_cons_iff rfl).2 ⟨trivial, (atEach_cons_iff rfl).2 ⟨?write, ?rest⟩⟩
    case write => exact helsewhere
    case rest => exact (atEach_cons_iff rfl).2 ⟨trivial, (atEach_cons_iff rfl).2 ⟨trivial, trivial⟩⟩
  case hsound =>
    refine ⟨⟨by decide, ?_⟩, trivial⟩
    rintro r ⟨⟩

/-- Stacks of 64 bytes have no room for the nine words that priming writes. A walk over a fiber that
has just been handed out reads below its stack. -/
theorem not_bare_of_small_stack : ∃ s r s' f,
    ofSettings .simulated
        { stackSize := 64, shadowPages := 0, yellowPages := 0, redPages := 0, guardPages := false
          registryShards := 2, verifyOnYield := true }
        ({ pageSize := 8 } : Simulation).provider none = .ok (.ok s)
      ∧ Run.after ⟨s, []⟩ [.attach 1 "main" (.ok ⟨0x10000000, 0x100000⟩)] = .ok r
      ∧ r.system.create ⟨1⟩ .pooled none = .ok (.ok (.ofNumber 1), s')
      ∧ PageCall.Sound s'.machine.calls
      ∧ s'.fibers.get? (.ofNumber 1) = some f
      ∧ f.walk s'.machine .scan Frame.isManaged (.fixed [])
          = .error (.readOutsideStack (.ofNumber 1) (f.region.low - 8))
      ∧ ¬f.Bare s'.machine := by
  refine ⟨?s, ?r, ?s', ?f, ?hs, ?hr, ?hcreate, ?hsound, ?hf, ?hwalk, fun hbare => ?hnot⟩
  case hs => rfl
  case hr => rfl
  case hcreate => rfl
  case hsound =>
    refine ⟨⟨by decide, ?_⟩, trivial⟩
    rintro r ⟨⟩
  case hf => rfl
  case hwalk => rfl
  case hnot => cases hbare Frame .scan Frame.isManaged (.fixed [])

end Run

end PooledFibers
