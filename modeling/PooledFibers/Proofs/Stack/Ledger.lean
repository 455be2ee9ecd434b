import Mathlib.Data.List.Nodup
import Mathlib.Tactic.Common
import PooledFibers.Machine.Simulated
import PooledFibers.Proofs.Stack.Requests

/-!
# The requests of a pool's whole life

A stack that was guarded has been carved, and no stack is carved twice, so none is guarded twice.
Without releases in between, the slabs of a pool are all reservations that it ever made; these are
what it gives up as it closes (`Tenancy.exists_after_orderly`).
-/

namespace PooledFibers

namespace Tenancy

variable {t t' : Tenancy}

/-- What the requests so far have left behind. -/
structure Ledger (t : Tenancy) : Prop where
  guarded_nodup : (t.pool.machine.calls.filterMap PageCall.guardLow?).Nodup
  guarded : ∀ low ∈ t.pool.machine.calls.filterMap PageCall.guardLow?,
    low + t.pool.stackSize ∈ t.pool.carvedBases
  releases : ∀ call ∈ t.pool.machine.calls, call.release? = none

/-- The pool's requests over its whole life, which ends when it closes. -/
structure Settled (t : Tenancy) : Prop where
  guarded_nodup : (t.pool.close.machine.calls.filterMap PageCall.guardLow?).Nodup
  /-- No reservation is given up before the pool closes. -/
  releases : ∀ call ∈ t.pool.machine.calls, call.release? = none
  /-- Then each is given up as it was made, the earliest first. -/
  closes : (t.pool.close.machine.callsFrom t.pool.machine.calls.length).map PageCall.release?
    = (t.pool.machine.calls.filterMap PageCall.reservation?).reverse.map some

section Ledgers

theorem Asks.guarded {made : List PageCall} (h : t.Asks t' made) :
    made.filterMap PageCall.guardLow? = []
      ∨ ∃ lease, t.Carves t' lease
        ∧ made.filterMap PageCall.guardLow? = [lease.base - t.pool.stackSize] := by
  have hreserves : ∀ {reserved : List PageCall}, t.pool.Reserves reserved →
      reserved.filterMap PageCall.guardLow? = [] := by
    intro reserved hr
    refine List.filterMap_eq_nil_iff.2 fun call hcall => ?_
    obtain ⟨_, _, _, -, rfl⟩ := hr call hcall
    rfl
  cases h with
  | reserves hr => exact .inl (hreserves hr)
  | @carves lease reserved made hl hr hp =>
    rw [List.filterMap_append, hreserves hr, List.nil_append]
    cases hp with
    | disabled => exact .inl rfl
    | applied => exact .inr ⟨lease, hl, rfl⟩
    | refused error outcome => exact .inr ⟨lease, hl, rfl⟩
  | uncommits hb => exact .inl rfl

/-- A stack that was guarded has been carved, and the one carved next is another. -/
theorem Ledger.perform (hledger : t.Ledger) (h : t.Books) {operation : PoolOperation}
    (hr : t.perform operation = .ok t') (h' : t'.Books)
    (hsound : PageCall.Sound t'.pool.machine.calls) (horderly : t.Orderly t') : t'.Ledger := by
  obtain ⟨hcalls, hcarved, hasks⟩ := asks_of_perform h hr h'
  have hsize : t'.pool.stackSize = t.pool.stackSize :=
    congrArg Geometry.stackSize (alike_of_perform hr).geometry
  have hguarded : t'.pool.machine.calls.filterMap PageCall.guardLow?
      = ((t.requests t').filterMap PageCall.guardLow?).reverse
        ++ t.pool.machine.calls.filterMap PageCall.guardLow? := by
    rw [hcalls, List.filterMap_append, List.filterMap_reverse]
  have hold : ∀ low ∈ t.pool.machine.calls.filterMap PageCall.guardLow?,
      low + t'.pool.stackSize ∈ t'.pool.carvedBases := fun low hlow =>
    hcarved (hsize ▸ hledger.guarded low hlow)
  have hreleases : ∀ call ∈ t'.pool.machine.calls, call.release? = none := by
    intro call hcall
    rw [hcalls, List.mem_append, List.mem_reverse] at hcall
    exact hcall.elim (horderly.releases call) (hledger.releases call)
  obtain hnone | ⟨lease, hl, hone⟩ := hasks.guarded
  · rw [hnone] at hguarded
    exact ⟨hguarded ▸ hledger.guarded_nodup, hguarded ▸ hold, hreleases⟩
  · have hbase : lease.base - t.pool.stackSize + t.pool.stackSize = lease.base := by
      have := h'.low_add hsound (hl.leases ▸ List.mem_cons_self : lease ∈ t'.leases)
      omega
    rw [hone, List.reverse_singleton, List.singleton_append] at hguarded
    have hnew : lease.base - t.pool.stackSize
        ∉ t.pool.machine.calls.filterMap PageCall.guardLow? := fun hlow =>
      hl.not_mem h' hsound (hbase ▸ hledger.guarded _ hlow)
    refine ⟨hguarded ▸ List.nodup_cons.2 ⟨hnew, hledger.guarded_nodup⟩, ?_, hreleases⟩
    · rw [hguarded, List.forall_mem_cons]
      exact ⟨hl.carved.mem_iff.2 (by rw [hsize, hbase]; exact List.mem_cons_self), hold⟩

theorem Ledger.settled (hledger : t.Ledger) (h : t.Books) : t.Settled := by
  obtain ⟨made, hcalls, hmade⟩ := t.pool.exists_calls_close
  have hranges := h.accounts.reserved
  rw [PageCall.reserved_eq_of_release?_eq_none hledger.releases] at hranges
  have hreservations : t.pool.machine.calls.filterMap PageCall.reservation?
      = t.pool.slabs.map fun slab => (slab.low, slab.reserved) := by
    have hinjective : Function.Injective fun r : Nat × Nat => AddressRange.mk r.1 (r.1 + r.2) := by
      rintro ⟨low, bytes⟩ ⟨low', bytes'⟩ hr
      simp only [AddressRange.mk.injEq] at hr
      exact Prod.ext hr.1 (by simp only; omega)
    refine List.map_injective_iff.2 hinjective (hranges.trans ?_)
    rw [List.map_map]
    rfl
  constructor
  case guarded_nodup =>
    have hunmapped : made.filterMap PageCall.guardLow? = [] := by
      refine List.filterMap_eq_nil_iff.2 fun call hcall => ?_
      have hrelease := List.mem_map_of_mem (f := PageCall.release?) hcall
      rw [hmade] at hrelease
      obtain ⟨slab, -, hslab⟩ := List.mem_map.1 hrelease
      cases call <;> simp_all [PageCall.release?, PageCall.guardLow?]
    rw [hcalls, List.filterMap_append, List.filterMap_reverse, hunmapped]
    exact hledger.guarded_nodup
  case releases => exact hledger.releases
  case closes =>
    rw [Machine.callsFrom_eq hcalls, hmade, hreservations, List.map_reverse, List.map_reverse,
      List.map_map]
    rfl

end Ledgers

section Runs

/-- Every step of a run goes through and relates the tenancies before and after it. -/
def Each (related : Tenancy → Tenancy → Prop) (t : Tenancy) : List PoolOperation → Prop
  | [] => True
  | operation :: rest => ∃ t', t.perform operation = .ok t' ∧ related t t' ∧ t'.Each related rest

/-- A run only adds to the requests, and gives no reservation up. -/
theorem Books.calls_of_after (h : t.Books) {operations : List PoolOperation}
    (hr : t.after operations = .ok t') :
    t'.pool.machine.calls = (t.requests t').reverse ++ t.pool.machine.calls
      ∧ ∀ call ∈ t.requests t', call.release? = none := by
  suffices ∃ made : List PageCall, t'.pool.machine.calls = made.reverse ++ t.pool.machine.calls
      ∧ ∀ call ∈ made, call.release? = none by
    obtain ⟨made, hcalls, hmade⟩ := this
    rw [requests, Machine.callsFrom_eq hcalls]
    exact ⟨hcalls, hmade⟩
  induction operations generalizing t with
  | nil => exact ⟨[], Except.ok.inj hr ▸ rfl, by simp⟩
  | cons operation rest ih =>
    obtain ⟨next, hnext, hrest⟩ := after_cons_eq_ok_iff.1 hr
    have hbooks := h.of_perform hnext
    obtain ⟨hcalls, -, hasks⟩ := asks_of_perform h hnext hbooks
    obtain ⟨made, hcalls', hmade⟩ := ih hbooks hrest
    refine ⟨t.requests next ++ made, ?_, fun call hcall => ?_⟩
    · rw [hcalls', hcalls, List.reverse_append, List.append_assoc]
    · rcases List.mem_append.1 hcall with hcall | hcall
      · exact hasks.release?_eq_none hcall
      · exact hmade call hcall

theorem Books.exists_after_ledger (h : t.Books)
    (hzone : t.pool.geometry.guardZone ≤ t.pool.stackSize) (operations : List PoolOperation) :
    ∃ t', t.after operations = .ok t' ∧ t'.Books
      ∧ (PageCall.Sound t'.pool.machine.calls → PageCall.Sound t.pool.machine.calls
        ∧ (t.Ledger → t.Each Orderly operations ∧ t'.Ledger)) := by
  induction operations generalizing t with
  | nil => exact ⟨t, rfl, h, fun hsound => ⟨hsound, fun hledger => ⟨trivial, hledger⟩⟩⟩
  | cons operation rest ih =>
    obtain ⟨next, hnext, hbooks⟩ := h.exists_perform operation
    have hgeometry := (alike_of_perform hnext).geometry
    obtain ⟨last, hlast, hlastBooks, hrest⟩ := ih hbooks (by rwa [Pool.stackSize, hgeometry])
    refine ⟨last, by simp [after, hnext, hlast], hlastBooks, fun hsound => ?_⟩
    obtain ⟨hsoundNext, hrest⟩ := hrest hsound
    have horderly := orderly_of_perform h hzone hnext hbooks hsoundNext
    refine ⟨?_, fun hledger => ?_⟩
    · exact ((asks_of_perform h hnext hbooks).1 ▸ hsoundNext).of_append
    · obtain ⟨heach, hlastLedger⟩ :=
        hrest (hledger.perform h hnext hbooks hsoundNext horderly)
      exact ⟨⟨next, hnext, horderly, heach⟩, hlastLedger⟩

/-- Whatever is leased and dropped and whatever the provider refuses, if the reservations were sound
then the requests of every step are in order, no stack is protected twice, and the pool gives up
each reservation once, as it closes. -/
theorem exists_after_orderly {s : Settings} {provider : PageProvider} {page : Nat}
    (hs : s.validate page = .ok ()) (hp : 0 < provider.pageSize)
    (hg : 0 < provider.granularity) (operations : List PoolOperation) :
    ∃ t, (ofSettings s provider).after operations = .ok t
      ∧ (PageCall.Sound t.pool.machine.calls →
        (ofSettings s provider).Each Orderly operations ∧ t.Settled) := by
  obtain ⟨t, ht, hbooks, hrun⟩ := (books_ofSettings hs hp hg).exists_after_ledger
    (Geometry.guardZone_le_stackSize s hp) operations
  refine ⟨t, ht, fun hsound => ?_⟩
  have hempty : (ofSettings s provider).Ledger := by
    constructor <;> simp [ofSettings, Pool.ofSettings]
  obtain ⟨heach, hledger⟩ := (hrun hsound).2 hempty
  exact ⟨heach, hledger.settled hbooks⟩

/-- Neighbouring slabs of one stack each, no guard zone granted and no free stack kept resident. -/
theorem orderly_of_neighbouring_slabs :
    ∃ t, (ofSettings
        { stackSize := 16384, shadowPages := 2, yellowPages := 1, redPages := 1, stacksPerSlab := 1
          physicalCacheMax := 0, verifyOnYield := true }
        ({ descending := true, faults := { guard := some 13 } } : Simulation).provider).after
          [.acquire, .acquire, .drop ⟨.ofZone 0x1FFFFFFF8000 32768 16384, .unprotected, true⟩]
        = .ok t ∧ PageCall.Sound t.pool.machine.calls ∧ t.pool.machine.calls.length = 7
      ∧ (ofSettings
        { stackSize := 16384, shadowPages := 2, yellowPages := 1, redPages := 1, stacksPerSlab := 1
          physicalCacheMax := 0, verifyOnYield := true }
        ({ descending := true, faults := { guard := some 13 } } : Simulation).provider).Each Orderly
          [.acquire, .acquire, .drop ⟨.ofZone 0x1FFFFFFF8000 32768 16384, .unprotected, true⟩]
      ∧ t.Settled := by
  have hs : ({ stackSize := 16384, shadowPages := 2, yellowPages := 1, redPages := 1
               stacksPerSlab := 1, physicalCacheMax := 0, verifyOnYield := true }
      : Settings).validate 4096 = .ok () := rfl
  have hp : 0 < ({ descending := true, faults := { guard := some 13 } }
      : Simulation).provider.pageSize := by decide
  obtain ⟨t, ht, horderly⟩ := exists_after_orderly hs hp (by decide)
    [.acquire, .acquire, .drop ⟨.ofZone 0x1FFFFFFF8000 32768 16384, .unprotected, true⟩]
  have hcalls : .ok [.uncommit 0x1FFFFFFF0000 32768 (.ok ()),
      .uncommit 0x1FFFFFFF0000 8192 (.ok ()),
      .guard 0x1FFFFFFF0000 8192 (.error (.number 13)), .reserve 32768 (.ok 0x1FFFFFFF0000),
      .uncommit 0x1FFFFFFF8000 8192 (.ok ()), .guard 0x1FFFFFFF8000 8192 (.error (.number 13)),
      .reserve 32768 (.ok 0x1FFFFFFF8000)] = Except.ok t.pool.machine.calls :=
    congrArg (Except.map fun t : Tenancy => t.pool.machine.calls) ht
  have hsound : PageCall.Sound t.pool.machine.calls := by
    rw [← Except.ok.inj hcalls]
    refine ⟨⟨by decide, ?_⟩, ⟨by decide, ?_⟩, trivial⟩
    · rintro r (_ | ⟨_, ⟨⟩⟩)
      exact AddressRange.apart_of_high_le_low (by decide)
    · rintro r ⟨⟩
  exact ⟨t, ht, hsound, congrArg List.length (Except.ok.inj hcalls).symm, horderly hsound⟩

end Runs

end Tenancy

end PooledFibers
