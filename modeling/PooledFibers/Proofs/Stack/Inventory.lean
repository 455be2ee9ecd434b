import Mathlib.Data.List.Nodup
import Mathlib.Tactic.Common
import PooledFibers.Machine.Simulated
import PooledFibers.Proofs.Stack.Ledger
import PooledFibers.Proofs.Stack.Records

/-!
# Every stack under its own name

The leases that a run hands out are listed next to its states (`Tenancy.given`). A step that hands
out a lease either carves the stack and records what came of protecting it, or finds the record of a
free stack (`Tenancy.hands_of_perform`). So what a pool says of an address is what happened there:
it owns the bases of the slots carved, each in one slot, and every lease of a stack shows the guard
state of the first, the only fresh one (`Tenancy.exists_after_inventoried`).
-/

namespace PooledFibers

namespace Tenancy

variable {t t' : Tenancy} {operation : PoolOperation} {operations : List PoolOperation}
  {before : List Lease}

/-- The leases that a step hands out, one or none. -/
def handed (t : Tenancy) : PoolOperation → List Lease
  | .acquire =>
    match t.pool.acquire with
    | .ok (.ok lease, _) => [lease]
    | _ => []
  | .drop _ => []

/-- The leases that a run hands out, the latest first. -/
def given (t : Tenancy) : List PoolOperation → List Lease
  | [] => []
  | operation :: rest =>
    match t.perform operation with
    | .ok next => next.given rest ++ t.handed operation
    | .error _ => []

/-- What every step keeps with the leases that it hands out, a run keeps. -/
theorem Books.given_induction {motive : List Lease → Tenancy → Prop} (h : t.Books)
    (hstart : motive before t)
    (hstep : ∀ {u u' : Tenancy} {operation : PoolOperation} {before : List Lease}, u.Books →
      u.perform operation = .ok u' → u'.Books → motive before u →
      motive (u.handed operation ++ before) u')
    (hr : t.after operations = .ok t') : motive (t.given operations ++ before) t' := by
  induction operations generalizing t before with
  | nil => exact Except.ok.inj hr ▸ hstart
  | cons operation rest ih =>
    obtain ⟨next, hnext, hr⟩ := after_cons_eq_ok_iff.1 hr
    have hbooks := h.of_perform hnext
    have hrest := ih hbooks (hstep h hnext hbooks hstart) hr
    simpa only [given, hnext, List.append_assoc] using hrest

/-- What a step hands out, with what it records. -/
inductive Hands (t t' : Tenancy) : List Lease → Prop
  | nothing (records : t'.pool.records = t.pool.records) : Hands t t' []
  | reused {lease} (fresh : lease.fresh = false)
    (region : lease.region = .ofZone lease.base t.pool.stackSize t.pool.geometry.reservedZone)
    (record : (lease.base, lease.guard) ∈ t.pool.records)
    (records : t'.pool.records = t.pool.records) : Hands t t' [lease]
  | carved {lease} (fresh : lease.fresh = true)
    (region : lease.region = .ofZone lease.base t.pool.stackSize t.pool.geometry.reservedZone)
    (answered : t'.pool.Answered lease.base lease.guard)
    (records : t'.pool.records.Perm ((lease.base, lease.guard) :: t.pool.records)) :
    Hands t t' [lease]

section Steps

theorem hands_of_perform (h : t.Books) (hr : t.perform operation = .ok t') :
    t.Hands t' (t.handed operation) := by
  cases operation with
  | acquire =>
    obtain ⟨⟨outcome, pool⟩, hacquire, hr⟩ := Outcome.bind_eq_ok_iff.1 hr
    simp only [handed, hacquire]
    obtain ⟨base, free, _, hpop, houtcome, rfl⟩ | ⟨failure, machine, -, -, rfl, rfl⟩
      | ⟨newest, older, machine, -, hroom, rfl, rfl⟩ := Pool.acquire_cases hacquire
    · obtain ⟨guard, hguard, rfl⟩ := Pool.guardOf?_of_acquire hpop hacquire
      obtain rfl := Except.ok.inj hr
      exact .reused rfl rfl (h.accounts.mem_records_of_guardOf? hguard) rfl
    · obtain rfl := Except.ok.inj hr
      exact .nothing rfl
    · obtain rfl := Except.ok.inj hr
      obtain ⟨hbooks, -⟩ := h.accounts.slabWithRoom hroom
      have hnewest := hbooks.shaped newest List.mem_cons_self
      have hcarved := Pool.perm_records_carve (p := { t.pool with machine }) older hnewest
      have hsame := h.accounts.records_slabWithRoom hroom
      refine .carved rfl rfl (Pool.answered_protectGuardZone { t.pool with machine } _) ?_
      rw [← hsame]
      exact hcarved
  | drop lease =>
    refine .nothing ?_
    by_cases hlease : lease ∈ t.leases
    · obtain ⟨pool, hrelease, rfl⟩ := perform_drop hlease hr
      obtain ⟨-, -, _, -, rfl⟩ := Pool.release_cases hrelease
      rfl
    · rw [perform_drop_of_not_mem hlease hr]

/-- The leases handed out so far, the latest first, agree with the records. -/
structure Entered (before : List Lease) (t : Tenancy) : Prop where
  region : ∀ lease ∈ before,
    lease.region = .ofZone lease.base t.pool.stackSize t.pool.geometry.reservedZone
  record : ∀ lease ∈ before, (lease.base, lease.guard) ∈ t.pool.records
  lease : ∀ entry ∈ t.pool.records, ∃ lease ∈ before, (lease.base, lease.guard) = entry
  answered : ∀ entry ∈ t.pool.records, t.pool.Answered entry.1 entry.2

theorem Entered.perform (hentered : Entered before t) (h : t.Books)
    (hr : t.perform operation = .ok t') (h' : t'.Books) :
    Entered (t.handed operation ++ before) t' := by
  have halike := alike_of_perform hr
  obtain ⟨hcalls, -, -⟩ := asks_of_perform h hr h'
  have hregion : ∀ {lease : Lease},
      lease.region = .ofZone lease.base t.pool.stackSize t.pool.geometry.reservedZone →
      lease.region = .ofZone lease.base t'.pool.stackSize t'.pool.geometry.reservedZone := by
    intro lease hlease
    rw [hlease, Pool.stackSize, Pool.stackSize, halike.geometry]
  have hanswered : ∀ entry ∈ t.pool.records, t'.pool.Answered entry.1 entry.2 :=
    fun entry hentry => (hentered.answered entry hentry).of_calls halike hcalls
  have hearlier : ∀ {entry : Nat × GuardState} {handed : List Lease},
      (∃ lease ∈ before, (lease.base, lease.guard) = entry) →
      ∃ lease ∈ handed ++ before, (lease.base, lease.guard) = entry := by
    rintro entry handed ⟨lease, hlease, hentry⟩
    exact ⟨lease, List.mem_append_right _ hlease, hentry⟩
  have hhands := hands_of_perform h hr
  generalize t.handed operation = handed at hhands ⊢
  cases hhands with
  | nothing records =>
    refine ⟨fun lease hlease => hregion (hentered.region lease hlease), ?_, ?_, ?_⟩ <;> rw [records]
    · exact hentered.record
    · exact hentered.lease
    · exact hanswered
  | reused fresh region record records =>
    refine ⟨?_, ?_, ?_, ?_⟩
    · exact List.forall_mem_cons.2 ⟨hregion region, fun lease hlease =>
        hregion (hentered.region lease hlease)⟩
    · rw [records]
      exact List.forall_mem_cons.2 ⟨record, hentered.record⟩
    · rw [records]
      exact fun entry hentry => hearlier (hentered.lease entry hentry)
    · rw [records]
      exact hanswered
  | carved fresh region answered records =>
    refine ⟨?_, ?_, ?_, ?_⟩
    · exact List.forall_mem_cons.2 ⟨hregion region, fun lease hlease =>
        hregion (hentered.region lease hlease)⟩
    · refine List.forall_mem_cons.2 ⟨records.mem_iff.2 List.mem_cons_self, fun lease hlease => ?_⟩
      exact records.mem_iff.2 (List.mem_cons_of_mem _ (hentered.record lease hlease))
    · intro entry hentry
      rcases List.mem_cons.1 (records.mem_iff.1 hentry) with rfl | hentry
      · exact ⟨_, List.mem_cons_self, rfl⟩
      · exact hearlier (hentered.lease entry hentry)
    · intro entry hentry
      rcases List.mem_cons.1 (records.mem_iff.1 hentry) with rfl | hentry
      · exact answered
      · exact hanswered entry hentry

theorem Entered.exists_lease (hentered : Entered before t) (h : t.Books) {base : Nat}
    (hb : base ∈ t.pool.carvedBases) : ∃ lease ∈ before, lease.base = base := by
  rw [← h.accounts.map_fst_records] at hb
  obtain ⟨entry, hentry, rfl⟩ := List.mem_map.1 hb
  obtain ⟨lease, hlease, rfl⟩ := hentered.lease entry hentry
  exact ⟨lease, hlease, rfl⟩

/-- Of these leases, the latest first, the first one was fresh and no other. -/
def FreshFirst (leases : List Lease) : Prop :=
  ∃ later first, leases = later ++ [first] ∧ first.fresh = true
    ∧ ∀ lease ∈ later, lease.fresh = false

/-- The leases of a stack, of those handed out. -/
def leasesOf (before : List Lease) (base : Nat) : List Lease := before.filter (·.base = base)

theorem freshFirst_of_perform (h : t.Books) (hr : t.perform operation = .ok t') (h' : t'.Books)
    (hsound : PageCall.Sound t'.pool.machine.calls) (hentered : Entered before t)
    (hfirst : ∀ base ∈ t.pool.carvedBases, FreshFirst (leasesOf before base)) :
    ∀ base ∈ t'.pool.carvedBases, FreshFirst (leasesOf (t.handed operation ++ before) base) := by
  have hnodup := h'.accounts.nodup_carvedBases hsound
  rw [← h.accounts.map_fst_records] at hfirst
  rw [← h'.accounts.map_fst_records] at hnodup ⊢
  have hhands := hands_of_perform h hr
  generalize t.handed operation = handed at hhands ⊢
  cases hhands with
  | nothing records => rwa [records]
  | @reused lease fresh region record records =>
    rw [records]
    intro base hbase
    by_cases hsame : lease.base = base
    · obtain ⟨later, first, hleases, hfresh, hlater⟩ := hfirst base hbase
      refine ⟨lease :: later, first, ?_, hfresh, List.forall_mem_cons.2 ⟨fresh, hlater⟩⟩
      simp only [leasesOf] at hleases ⊢
      simp [hsame, hleases]
    · simpa [leasesOf, hsame] using hfirst base hbase
  | @carved lease fresh region answered records =>
    have hkeys := records.map Prod.fst
    rw [List.map_cons] at hkeys
    have hnew := (List.nodup_cons.1 (hkeys.nodup_iff.1 hnodup)).1
    intro base hbase
    rcases List.mem_cons.1 (hkeys.mem_iff.1 hbase) with rfl | hbase
    · -- no lease of this stack was handed out before
      have hnone : leasesOf before lease.base = [] := by
        refine List.filter_eq_nil_iff.2 fun earlier hearlier hsame => hnew ?_
        have hrecord := hentered.record earlier hearlier
        exact List.mem_map.2 ⟨_, hrecord, of_decide_eq_true hsame⟩
      refine ⟨[], lease, ?_, fresh, by simp⟩
      simpa [leasesOf] using hnone
    · have hother : lease.base ≠ base := by
        rintro rfl
        exact hnew hbase
      simpa [leasesOf, hother] using hfirst base hbase

end Steps

section Runs

theorem Books.entered_of_after (h : t.Books) (hnone : t.pool.records = [])
    (hr : t.after operations = .ok t') : Entered (t.given operations) t' := by
  have hstart : Entered [] t := ⟨by simp, by simp, by simp [hnone], by simp [hnone]⟩
  simpa using h.given_induction hstart (fun hu hstep hu' hentered => hentered.perform hu hstep hu') hr

theorem Books.freshFirst_of_after (h : t.Books) (hnone : t.pool.records = [])
    (hr : t.after operations = .ok t') (hsound : PageCall.Sound t'.pool.machine.calls) :
    ∀ base ∈ t'.pool.carvedBases, FreshFirst (leasesOf (t.given operations) base) := by
  have hstart : Entered [] t ∧ (PageCall.Sound t.pool.machine.calls →
      ∀ base ∈ t.pool.carvedBases, FreshFirst (leasesOf [] base)) := by
    refine ⟨⟨by simp, by simp, by simp [hnone], by simp [hnone]⟩, fun _ => ?_⟩
    simp [← h.accounts.map_fst_records, hnone]
  have hrun := h.given_induction (motive := fun before u => Entered before u
    ∧ (PageCall.Sound u.pool.machine.calls →
      ∀ base ∈ u.pool.carvedBases, FreshFirst (leasesOf before base))) hstart ?_ hr
  · simpa using hrun.2 hsound
  · rintro u u' operation before hu hstep hu' ⟨hentered, hfirst⟩
    refine ⟨hentered.perform hu hstep hu', fun hsound => ?_⟩
    have hearlier : PageCall.Sound u.pool.machine.calls :=
      ((asks_of_perform hu hstep hu').1 ▸ hsound).of_append
    exact freshFirst_of_perform hu hstep hu' hsound hentered (hfirst hearlier)

/-- The pool can lease a stack or say why not, can take back whatever is leased, and has a guard
state for whatever stack it finds. -/
structure Faultless (t : Tenancy) : Prop where
  acquires : ∃ outcome pool, t.pool.acquire = .ok (outcome, pool)
  releases : ∀ lease ∈ t.leases, ∃ pool, t.pool.release lease.base = .ok pool
  indexed : ∀ slab ∈ t.pool.slabs, ∀ base slot, slab.slotOf? t.pool.stackSize base = some slot →
    slot < slab.guards.length

/-- What the pool says of its stacks, and the leases handed out so far, the latest first. -/
structure Inventoried (t : Tenancy) (given : List Lease) : Prop where
  owns : ∀ base, t.pool.owns base = true
    ↔ ∃ slab ∈ t.pool.slabs, ∃ slot < slab.carved, base + slot * t.pool.stackSize = slab.top
  /-- No base lies in two slots, be it of one slab or of two. -/
  position : ∀ base, t.pool.owns base = true →
    ∃! position : Nat × Nat, ∃ slab, t.pool.slabs[position.1]? = some slab
      ∧ position.2 < slab.carved ∧ base + position.2 * t.pool.stackSize = slab.top
  /-- The guard state of each stack, and of no other address, is on record as it came about. -/
  guard : ∀ base, t.pool.owns base = true ↔ ∃ guard, t.pool.guardOf? base = some guard
  answered : ∀ base guard, t.pool.guardOf? base = some guard → t.pool.Answered base guard
  /-- Every lease shows the guard state of its stack. -/
  same : ∀ lease ∈ given, t.pool.guardOf? lease.base = some lease.guard
  /-- The first lease of a stack is its only fresh one. -/
  first : ∀ base, t.pool.owns base = true → FreshFirst (leasesOf given base)

theorem Books.faultless (h : t.Books) : t.Faultless where
  acquires := h.accounts.exists_acquire
  releases lease hlease := h.accounts.exists_release (List.mem_map_of_mem hlease)
  indexed slab hslab base slot hslot := by
    have hshaped := h.accounts.shaped slab hslab
    rw [hshaped.recorded]
    exact ((hshaped.slotOf?_eq_some_iff h.accounts.size_pos).1 hslot).1

/-- Whatever is leased and dropped and whatever the provider refuses, leasing and taking back meet
no fault; and if the reservations were sound, the pool owns just the bases of the slots carved, each
in one slot of one slab, and every lease of a stack ever handed out shows the guard state recorded
when the first and only fresh one was. -/
theorem exists_after_inventoried {s : Settings} {provider : PageProvider} {page : Nat}
    (hs : s.validate page = .ok ()) (hp : 0 < provider.pageSize) (hg : 0 < provider.granularity)
    (operations : List PoolOperation) :
    ∃ t, (ofSettings s provider).after operations = .ok t ∧ t.Faultless
      ∧ (PageCall.Sound t.pool.machine.calls →
        t.Inventoried ((ofSettings s provider).given operations)) := by
  have hstart := books_ofSettings hs hp hg
  obtain ⟨t, ht, hbooks⟩ := hstart.exists_after operations
  refine ⟨t, ht, hbooks.faultless, fun hsound => ?_⟩
  have haccounts := hbooks.accounts
  have hentered := hstart.entered_of_after rfl ht
  have hlookup : ∀ {base guard}, t.pool.guardOf? base = some guard ↔ (base, guard) ∈ t.pool.records :=
    haccounts.guardOf?_eq_some_iff hsound
  constructor
  case owns => exact fun base => haccounts.owns_iff
  case position => exact fun base howns => haccounts.existsUnique_position hsound howns
  case guard =>
    intro base
    rw [haccounts.owns_iff_mem]
    refine ⟨haccounts.exists_guardOf?, ?_⟩
    rintro ⟨guard, hguard⟩
    exact haccounts.mem_carvedBases_of_record (hlookup.1 hguard)
  case answered => exact fun base guard hguard => hentered.answered _ (hlookup.1 hguard)
  case same => exact fun lease hlease => hlookup.2 (hentered.record lease hlease)
  case first =>
    intro base howns
    exact hstart.freshFirst_of_after rfl ht hsound base (haccounts.owns_iff_mem.1 howns)

/-- One stack to a slab and each slab right below the one before, so that the stack of the second has
its base where the first slab starts. It is leased, dropped and leased again. -/
theorem inventoried_of_neighbouring_slabs :
    ∃ t, (ofSettings
        { stackSize := 16384, shadowPages := 2, yellowPages := 1, redPages := 1, stacksPerSlab := 1
          verifyOnYield := true }
        ({ descending := true, faults := { guard := some 13 } } : Simulation).provider).after
          [.acquire, .acquire, .drop ⟨.ofZone 0x1FFFFFFF8000 32768 16384, .unprotected, true⟩,
            .acquire] = .ok t
      ∧ PageCall.Sound t.pool.machine.calls
      ∧ t.pool.slabs.map (fun slab => (slab.low, slab.top))
        = [(0x1FFFFFFF0000, 0x1FFFFFFF8000), (0x1FFFFFFF8000, 0x200000000000)]
      ∧ t.Faultless
      ∧ t.Inventoried [⟨.ofZone 0x1FFFFFFF8000 32768 16384, .unprotected, false⟩,
        ⟨.ofZone 0x1FFFFFFF8000 32768 16384, .unprotected, true⟩,
        ⟨.ofZone 0x200000000000 32768 16384, .unprotected, true⟩] := by
  have hs : ({ stackSize := 16384, shadowPages := 2, yellowPages := 1, redPages := 1
               stacksPerSlab := 1, verifyOnYield := true } : Settings).validate 4096 = .ok () := rfl
  have hp : 0 < ({ descending := true, faults := { guard := some 13 } }
      : Simulation).provider.pageSize := by decide
  obtain ⟨t, ht, hfaultless, hinventoried⟩ := exists_after_inventoried hs hp (by decide)
    [.acquire, .acquire, .drop ⟨.ofZone 0x1FFFFFFF8000 32768 16384, .unprotected, true⟩, .acquire]
  have hcalls : .ok [.uncommit 0x1FFFFFFF0000 8192 (.ok ()),
      .guard 0x1FFFFFFF0000 8192 (.error (.number 13)), .reserve 32768 (.ok 0x1FFFFFFF0000),
      .uncommit 0x1FFFFFFF8000 8192 (.ok ()), .guard 0x1FFFFFFF8000 8192 (.error (.number 13)),
      .reserve 32768 (.ok 0x1FFFFFFF8000)] = Except.ok t.pool.machine.calls :=
    congrArg (Except.map fun t : Tenancy => t.pool.machine.calls) ht
  have hslabs : .ok [(0x1FFFFFFF0000, 0x1FFFFFFF8000), (0x1FFFFFFF8000, 0x200000000000)]
      = Except.ok (t.pool.slabs.map fun slab => (slab.low, slab.top)) :=
    congrArg (Except.map fun t : Tenancy => t.pool.slabs.map fun s : Slab => (s.low, s.top)) ht
  have hsound : PageCall.Sound t.pool.machine.calls := by
    rw [← Except.ok.inj hcalls]
    refine ⟨⟨by decide, ?_⟩, ⟨by decide, ?_⟩, trivial⟩
    · rintro r (_ | ⟨_, ⟨⟩⟩)
      exact AddressRange.apart_of_high_le_low (by decide)
    · rintro r ⟨⟩
  exact ⟨t, ht, hsound, (Except.ok.inj hslabs).symm, hfaultless, hinventoried hsound⟩

end Runs

end Tenancy

end PooledFibers
