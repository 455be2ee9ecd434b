import Mathlib.Data.List.Nodup
import Mathlib.Tactic.Common
import PooledFibers.Proofs.Stack.Fading
import PooledFibers.Proofs.Stack.Tenancy

/-!
# What the pool asks of its provider

A step of a tenancy asks for a reservation at most, or protects the guard zone of the stack it
carves, or gives the pages of one free stack back (`Tenancy.asks_of_perform`). So a leased stack
is left alone above its guard zone (`Tenancy.orderly_of_perform`).
-/

namespace PooledFibers

namespace PageCall

/-- Where a guard zone was to be protected. -/
def guardLow? : PageCall → Option Nat
  | .guard low _ _ => some low
  | _ => none

/-- Address and length of a reservation made. -/
def reservation? : PageCall → Option (Nat × Nat)
  | .reserve bytes (.ok low) => some (low, bytes)
  | _ => none

/-- Address and length of what was to be unmapped. -/
def release? : PageCall → Option (Nat × Nat)
  | .release low bytes _ => some (low, bytes)
  | _ => none

/-- The addresses to be protected, given back or unmapped. -/
def touched? : PageCall → Option AddressRange
  | .reserve _ _ => none
  | .guard low bytes _ | .uncommit low bytes _ | .release low bytes _ => some ⟨low, low + bytes⟩

/-- Reservations stay on the books until they are released. -/
theorem reserved_append {made calls : List PageCall}
    (h : ∀ call ∈ made, call.release? = none) :
    reserved (made ++ calls)
      = (made.filterMap reservation?).map (fun r => ⟨r.1, r.1 + r.2⟩) ++ reserved calls := by
  induction made with
  | nil => rfl
  | cons call made ih =>
    rw [List.forall_mem_cons] at h
    have hrest := ih h.2
    rcases call with ⟨bytes, _ | low⟩ | ⟨_, _, _⟩ | ⟨_, _, _⟩ | ⟨_, _, _⟩
    case release => simp [release?] at h
    all_goals simp [reserved, reservation?, hrest, List.filterMap_cons]

/-- Without releases all reservations made are still on the books. -/
theorem reserved_eq_of_release?_eq_none {calls : List PageCall}
    (h : ∀ call ∈ calls, call.release? = none) :
    reserved calls = (calls.filterMap reservation?).map fun r => ⟨r.1, r.1 + r.2⟩ := by
  have happend : reserved (calls ++ []) = _ := reserved_append h
  simpa [reserved] using happend

theorem Sound.of_append {made calls : List PageCall} (h : Sound (made ++ calls)) :
    Sound calls := by
  induction made with
  | nil => exact h
  | cons call made ih => exact ih h.tail

end PageCall

namespace Machine

variable {m m' : Machine}

theorem callsFrom_eq {made : List PageCall} (h : m'.calls = made.reverse ++ m.calls) :
    m'.callsFrom m.calls.length = made := by
  simp [callsFrom, h]

end Machine

namespace Pool

variable {p p' : Pool} {base : Nat} {made : List PageCall}

/-- The requests that protect the guard zone of the stack at `base`, the earliest first. -/
inductive Protects (p : Pool) (base : Nat) : List PageCall → Prop
  | disabled : Protects p base []
  | applied : Protects p base [.guard (base - p.stackSize) p.geometry.guardZone (.ok ())]
  | refused (error : IoError) (outcome : Except IoError Unit) :
    Protects p base [.guard (base - p.stackSize) p.geometry.guardZone (.error error),
      .uncommit (base - p.stackSize) p.geometry.guardZone outcome]

/-- Nothing is requested but slabs. -/
def Reserves (p : Pool) (made : List PageCall) : Prop :=
  ∀ call ∈ made, ∃ used bytes outcome,
    p.slabSizes? = some (used, bytes) ∧ call = .reserve bytes outcome

theorem exists_protects (p : Pool) (base : Nat) :
    ∃ made, p.Protects base made
      ∧ p.machine.FadesBy made.reverse (p.protectGuardZone base).2 := by
  simp only [protectGuardZone]
  split
  · exact ⟨[], .disabled, .refl _⟩
  · split <;> rename_i hguard <;> have hguarded := Machine.fadesBy_guard hguard
    · exact ⟨_, .applied, hguarded⟩
    · rename_i error _
      have hnoticed := hguarded.trans (Machine.fadesBy_notice _
        (.guardFailed (base - p.stackSize) error))
      split <;> rename_i huncommit <;>
        have huncommitted := hnoticed.trans (Machine.fadesBy_uncommit huncommit)
      · exact ⟨_, .refused error _, huncommitted⟩
      · exact ⟨_, .refused error _, huncommitted.trans (Machine.fadesBy_notice _ _)⟩

theorem reserves_nil : p.Reserves [] := by simp [Reserves]

theorem exists_reserves_reserveSlab (p : Pool) :
    ∃ made, p.Reserves made ∧ p.machine.FadesBy made.reverse p.reserveSlab.2 := by
  simp only [reserveSlab]
  split
  · exact ⟨[], reserves_nil, .refl _⟩
  · rename_i used reserved hsizes
    refine ⟨[.reserve reserved (p.machine.reserve reserved).1], by simp [Reserves, hsizes], ?_⟩
    split <;> rename_i hreserve <;> have hreserved := Machine.fadesBy_reserve hreserve <;>
      rwa [hreserve]

theorem exists_reserves_slabWithRoom (p : Pool) :
    ∃ made, p.Reserves made ∧ p.machine.FadesBy made.reverse p.slabWithRoom.2 := by
  simp only [slabWithRoom]
  split
  · split
    · exact p.exists_reserves_reserveSlab
    · exact ⟨[], reserves_nil, .refl _⟩
  · exact p.exists_reserves_reserveSlab

/-- A stack is carved with no request but for the slab that it is carved from and its guard zone. -/
theorem exists_calls_carve {newest : Slab} {older : List Slab} {machine : Machine}
    (hroom : p.slabWithRoom = (.ok (newest, older), machine)) :
    ∃ reserved made, p.Reserves reserved ∧ p.Protects (newest.nextBase p.stackSize) made
      ∧ p.machine.FadesBy (reserved ++ made).reverse
        ({ p with machine }.carve newest older).2.machine := by
  obtain ⟨reserved, hreserved, hreserve⟩ := p.exists_reserves_slabWithRoom
  obtain ⟨made, hmade, hprotect⟩ :=
    { p with machine }.exists_protects (newest.nextBase p.stackSize)
  rw [hroom] at hreserve
  refine ⟨reserved, made, hreserved, ?_, ?_⟩
  · cases hmade with
    | disabled => exact .disabled
    | applied => exact .applied
    | refused error outcome => exact .refused error outcome
  · rw [List.reverse_append]
    exact hreserve.trans hprotect

/-- A stack is leased with no request but for a reservation, or one to protect its guard zone. -/
theorem exists_calls_of_acquire {outcome : Except Failure Lease}
    (h : p.acquire = .ok (outcome, p')) :
    ∃ reserved made, p.Reserves reserved ∧ p.machine.FadesBy (reserved ++ made).reverse p'.machine
      ∧ (made = [] ∨ ∃ lease, outcome = .ok lease ∧ p.Protects lease.base made) := by
  obtain ⟨_, _, _, -, -, rfl⟩ | ⟨_, machine, -, hroom, -, rfl⟩
    | ⟨newest, older, machine, -, hroom, rfl, rfl⟩ := acquire_cases h
  · exact ⟨[], [], reserves_nil, .refl _, .inl rfl⟩
  · obtain ⟨reserved, hreserved, hreserve⟩ := p.exists_reserves_slabWithRoom
    rw [hroom] at hreserve
    exact ⟨reserved, [], hreserved, by simpa using hreserve, .inl rfl⟩
  · obtain ⟨reserved, made, hreserved, hmade, hfades⟩ := exists_calls_carve hroom
    exact ⟨reserved, made, hreserved, hfades, .inr ⟨_, rfl, hmade⟩⟩

/-- A stack is taken back without a request, or the pages of the stack that lost its place among
the resident ones are given back. -/
theorem exists_calls_of_release (h : p.release base = .ok p') :
    ∃ made : List PageCall, p.machine.FadesBy made.reverse p'.machine
      ∧ ((p.free.push base p.residentCap).1 = none ∧ made = []
        ∨ ∃ victim outcome, (p.free.push base p.residentCap).1 = some victim
          ∧ made = [.uncommit (victim - p.stackSize) p.stackSize outcome]) := by
  simp only [release] at h
  split_ifs at h
  split at h <;> rename_i hpush
  · obtain rfl := Except.ok.inj h
    exact ⟨[], .refl _, .inl ⟨hpush, rfl⟩⟩
  · rename_i victim
    split at h <;> rename_i huncommit <;> obtain rfl := Except.ok.inj h <;>
      have huncommitted := Machine.fadesBy_uncommit huncommit
    · exact ⟨[_], huncommitted, .inr ⟨victim, _, hpush, rfl⟩⟩
    · exact ⟨[_], huncommitted.trans (Machine.fadesBy_notice _ _), .inr ⟨victim, _, hpush, rfl⟩⟩

theorem exists_calls_unmap (machine : Machine) (slab : Slab) :
    ∃ outcome, (unmap machine slab).calls
      = .release slab.low slab.reserved outcome :: machine.calls := by
  simp only [unmap]
  split <;> rename_i hrelease <;> obtain ⟨houtcome, rfl⟩ := Prod.mk.inj hrelease
  all_goals exact ⟨_, congrArg (PageCall.release _ _ · :: _) houtcome⟩

/-- A closing pool unmaps each slab as it was reserved, the oldest first. -/
theorem exists_calls_close (p : Pool) :
    ∃ made : List PageCall, p.close.machine.calls = made.reverse ++ p.machine.calls
      ∧ made.map PageCall.release? = p.slabs.reverse.map fun s => some (s.low, s.reserved) := by
  simp only [close]
  generalize p.machine = machine
  induction p.slabs.reverse generalizing machine with
  | nil => exact ⟨[], rfl, rfl⟩
  | cons slab slabs ih =>
    obtain ⟨outcome, hcall⟩ := exists_calls_unmap machine slab
    obtain ⟨made, hcalls, hmade⟩ := ih (unmap machine slab)
    refine ⟨.release slab.low slab.reserved outcome :: made, ?_, ?_⟩
    · rw [List.foldl_cons, hcalls, hcall, List.reverse_cons, List.append_assoc]
      rfl
    · rw [List.map_cons, hmade]
      rfl

end Pool

namespace Tenancy

variable {t t' : Tenancy}

/-- The requests made between two moments, the earliest first. -/
def requests (t t' : Tenancy) : List PageCall :=
  t'.pool.machine.callsFrom t.pool.machine.calls.length

/-- The step leases a stack that no one had before. -/
structure Carves (t t' : Tenancy) (lease : Lease) : Prop where
  leases : t'.leases = lease :: t.leases
  fresh : lease.fresh = true
  carved : t'.pool.carvedBases.Perm (lease.base :: t.pool.carvedBases)

/-- What a step asks of the provider. -/
inductive Asks (t t' : Tenancy) : List PageCall → Prop
  | reserves {made} (h : t.pool.Reserves made) : Asks t t' made
  | carves {lease reserved made} (hl : t.Carves t' lease) (hr : t.pool.Reserves reserved)
    (hp : t.pool.Protects lease.base made) : Asks t t' (reserved ++ made)
  | uncommits {base outcome} (hb : base ∈ t'.pool.free.toList) :
    Asks t t' [.uncommit (base - t.pool.stackSize) t.pool.stackSize outcome]

/-- The requests of a step are in order. -/
structure Orderly (t t' : Tenancy) : Prop where
  /-- The lowest part of the stack being carved is protected, as large as guard zones are. -/
  guards : ∀ low bytes outcome, .guard low bytes outcome ∈ t.requests t' →
    ∃ lease, t.Carves t' lease ∧ lease.base ∉ t.pool.carvedBases
      ∧ low = lease.region.low ∧ bytes = t.pool.geometry.guardZone ∧ low + bytes ≤ lease.base
  /-- Pages given back are those of a whole free stack, or of a guard zone right after it was found
  that it cannot be protected. -/
  uncommits : ∀ low bytes outcome, .uncommit low bytes outcome ∈ t.requests t' →
    (∃ base ∈ t'.pool.free.toList, low + t.pool.stackSize = base ∧ bytes = t.pool.stackSize)
      ∨ ∃ lease error, t.Carves t' lease
        ∧ low = lease.region.low ∧ bytes = t.pool.geometry.guardZone
        ∧ [.guard low bytes (.error error), .uncommit low bytes outcome] <:+ t.requests t'
  releases : ∀ call ∈ t.requests t', call.release? = none
  /-- Above its guard zone a leased stack is left alone. -/
  untouched : ∀ lease ∈ t'.leases, ∀ call ∈ t.requests t', ∀ range, call.touched? = some range →
    range.Apart ⟨lease.region.low + t.pool.geometry.guardZone, lease.base⟩

section Steps

theorem requests_of_calls_eq (h : t'.pool.machine.calls = t.pool.machine.calls) :
    t.requests t' = [] :=
  Machine.callsFrom_eq h

theorem asks_of_perform (h : t.Books) {operation : PoolOperation}
    (hr : t.perform operation = .ok t') (h' : t'.Books) :
    t'.pool.machine.calls = (t.requests t').reverse ++ t.pool.machine.calls
      ∧ t.pool.carvedBases ⊆ t'.pool.carvedBases ∧ t.Asks t' (t.requests t') := by
  have hasks : ∀ made, t'.pool.machine.calls = made.reverse ++ t.pool.machine.calls →
      t.pool.carvedBases ⊆ t'.pool.carvedBases → t.Asks t' made →
      t'.pool.machine.calls = (t.requests t').reverse ++ t.pool.machine.calls
        ∧ t.pool.carvedBases ⊆ t'.pool.carvedBases ∧ t.Asks t' (t.requests t') := by
    intro made hcalls hcarved hmade
    rw [requests, Machine.callsFrom_eq hcalls]
    exact ⟨hcalls, hcarved, hmade⟩
  cases operation with
  | acquire =>
    obtain ⟨⟨outcome, pool⟩, hacquire, hr⟩ := Outcome.bind_eq_ok_iff.1 hr
    obtain ⟨base, free, guard, -, rfl, rfl⟩ | ⟨failure, machine, -, hroom, rfl, rfl⟩
      | ⟨newest, older, machine, -, hroom, rfl, rfl⟩ := Pool.acquire_cases hacquire <;>
      obtain rfl := Except.ok.inj hr
    · exact hasks [] rfl (List.Subset.refl _) (.reserves Pool.reserves_nil)
    · obtain ⟨reserved, hreserved, hreserve⟩ := t.pool.exists_reserves_slabWithRoom
      rw [hroom] at hreserve
      exact hasks _ hreserve.calls (List.Subset.refl _) (.reserves hreserved)
    · obtain ⟨reserved, made, hreserved, hmade, hfades⟩ := Pool.exists_calls_carve hroom
      have hcarved := h'.accounts.carved.symm.trans (h.accounts.carved.cons _)
      refine hasks _ hfades.calls ?_ (.carves ⟨rfl, rfl, hcarved⟩ hreserved hmade)
      exact fun base hb => hcarved.mem_iff.2 (List.mem_cons_of_mem _ hb)
  | drop lease =>
    by_cases hlease : lease ∈ t.leases
    · obtain ⟨pool, hrelease, rfl⟩ := perform_drop hlease hr
      obtain ⟨made, hfades, hmade⟩ := Pool.exists_calls_of_release hrelease
      have hcalls := hfades.calls
      obtain ⟨-, -, _, -, rfl⟩ := Pool.release_cases hrelease
      obtain ⟨-, rfl⟩ | ⟨victim, outcome, hvictim, rfl⟩ := hmade
      · exact hasks [] hcalls (List.Subset.refl _) (.reserves Pool.reserves_nil)
      · refine hasks _ hcalls (List.Subset.refl _) (.uncommits ?_)
        exact FreeList.mem_toList_iff.2 (.inr (FreeList.mem_uncommitted_push_iff.2 (.inl hvictim)))
    · obtain rfl := perform_drop_of_not_mem hlease hr
      exact hasks [] rfl (List.Subset.refl _) (.reserves Pool.reserves_nil)

/-- A request of a step is for a reservation, or about the stack it carves, or about a free one. -/
theorem Asks.mem_cases {made : List PageCall} (h : t.Asks t' made) {call : PageCall}
    (hcall : call ∈ made) :
    (∃ used bytes outcome, t.pool.slabSizes? = some (used, bytes) ∧ call = .reserve bytes outcome)
      ∨ (∃ lease outcome, t.Carves t' lease
        ∧ call = .guard (lease.base - t.pool.stackSize) t.pool.geometry.guardZone outcome)
      ∨ (∃ lease error outcome, t.Carves t' lease
        ∧ call = .uncommit (lease.base - t.pool.stackSize) t.pool.geometry.guardZone outcome
        ∧ [.guard (lease.base - t.pool.stackSize) t.pool.geometry.guardZone (.error error), call]
          <:+ made)
      ∨ ∃ base ∈ t'.pool.free.toList, ∃ outcome,
        call = .uncommit (base - t.pool.stackSize) t.pool.stackSize outcome := by
  cases h with
  | reserves hr => exact .inl (hr call hcall)
  | @carves lease reserved made hl hr hp =>
    rcases List.mem_append.1 hcall with hcall | hcall
    · exact .inl (hr call hcall)
    · cases hp with
      | disabled => simp at hcall
      | applied => exact .inr (.inl ⟨lease, _, hl, List.mem_singleton.1 hcall⟩)
      | refused error outcome =>
        rcases List.mem_pair.1 hcall with rfl | rfl
        · exact .inr (.inl ⟨lease, _, hl, rfl⟩)
        · exact .inr (.inr (.inl ⟨lease, error, outcome, hl, rfl, reserved, rfl⟩))
  | @uncommits base outcome hb =>
    exact .inr (.inr (.inr ⟨base, hb, outcome, List.mem_singleton.1 hcall⟩))

theorem Asks.release?_eq_none {made : List PageCall} (h : t.Asks t' made) {call : PageCall}
    (hcall : call ∈ made) : call.release? = none := by
  obtain ⟨_, _, _, -, rfl⟩ | ⟨_, _, -, rfl⟩ | ⟨_, _, _, -, rfl, -⟩ | ⟨_, -, _, rfl⟩ :=
    h.mem_cases hcall <;> rfl

/-- A stack is as large as all are. -/
theorem Books.low_add (h : t.Books) (hsound : PageCall.Sound t.pool.machine.calls) {lease : Lease}
    (hl : lease ∈ t.leases) : lease.region.low + t.pool.stackSize = lease.base :=
  ((h.separate hsound).full lease.region.range
    (List.mem_append_left _ (List.mem_map_of_mem hl))).1

/-- The stack being carved is another than all before. -/
theorem Carves.not_mem {lease : Lease} (hl : t.Carves t' lease) (h' : t'.Books)
    (hsound : PageCall.Sound t'.pool.machine.calls) : lease.base ∉ t.pool.carvedBases :=
  (List.nodup_cons.1 (hl.carved.nodup_iff.1 (h'.accounts.nodup_carvedBases hsound))).1

/-- What a carving step touches is the guard zone of the new stack. -/
theorem Carves.apart_zone {lease other : Lease} (hl : t.Carves t' lease) (hseparate : t'.Separate)
    (hzone : t.pool.geometry.guardZone ≤ t.pool.stackSize)
    (hlow : ∀ lease ∈ t'.leases, lease.region.low + t.pool.stackSize = lease.base)
    (hother : other ∈ t'.leases) :
    AddressRange.Apart ⟨lease.base - t.pool.stackSize,
        lease.base - t.pool.stackSize + t.pool.geometry.guardZone⟩
      ⟨other.region.low + t.pool.geometry.guardZone, other.base⟩ := by
  have hbase := hlow lease (hl.leases ▸ List.mem_cons_self)
  have hpairs := (List.pairwise_append.1 hseparate.apart).1
  rw [hl.leases, List.map_cons, List.pairwise_cons] at hpairs
  rw [hl.leases] at hother
  rcases List.mem_cons.1 hother with rfl | hother
  · exact AddressRange.apart_of_high_le_low (by simp only; omega)
  · refine (hpairs.1 _ (List.mem_map_of_mem hother)).mono ⟨?_, ?_⟩ ⟨?_, Nat.le_refl _⟩
    · simp only [Region.range]; omega
    · simp only [Region.range]
      change _ ≤ lease.base
      omega
    · simp only [Region.range]; omega

theorem orderly_of_perform (h : t.Books) (hzone : t.pool.geometry.guardZone ≤ t.pool.stackSize)
    {operation : PoolOperation} (hr : t.perform operation = .ok t') (h' : t'.Books)
    (hsound : PageCall.Sound t'.pool.machine.calls) : t.Orderly t' := by
  obtain ⟨-, -, hasks⟩ := asks_of_perform h hr h'
  have hsize : t'.pool.stackSize = t.pool.stackSize :=
    congrArg Geometry.stackSize (alike_of_perform hr).geometry
  have hseparate := h'.separate hsound
  have hlow : ∀ lease ∈ t'.leases, lease.region.low + t.pool.stackSize = lease.base :=
    fun lease hl => hsize ▸ h'.low_add hsound hl
  have hfull : ∀ base ∈ t'.pool.free.toList, base - t.pool.stackSize + t.pool.stackSize = base :=
    fun base hb => hsize ▸ (hseparate.full (stackRange t'.pool.stackSize base)
      (List.mem_append_right _ (List.mem_map_of_mem hb))).1
  have hcarved : ∀ lease, t.Carves t' lease → lease ∈ t'.leases := fun lease hl =>
    hl.leases ▸ List.mem_cons_self
  constructor
  case guards =>
    intro low bytes outcome hcall
    obtain ⟨_, _, _, -, hcall⟩ | ⟨lease, _, hl, hcall⟩ | ⟨_, _, _, -, hcall, -⟩
      | ⟨_, -, _, hcall⟩ := hasks.mem_cases hcall <;> cases hcall
    have hbase := hlow lease (hcarved lease hl)
    exact ⟨lease, hl, hl.not_mem h' hsound, by omega, rfl, by omega⟩
  case uncommits =>
    intro low bytes outcome hcall
    obtain ⟨_, _, _, -, hcall⟩ | ⟨_, _, -, hcall⟩ | ⟨lease, error, _, hl, hcall, hsuffix⟩
      | ⟨base, hb, _, hcall⟩ := hasks.mem_cases hcall <;> cases hcall
    · have hbase := hlow lease (hcarved lease hl)
      exact .inr ⟨lease, error, hl, by omega, rfl, hsuffix⟩
    · exact .inl ⟨base, hb, hfull base hb, rfl⟩
  case releases =>
    exact fun call hcall => hasks.release?_eq_none hcall
  case untouched =>
    intro lease hlease call hcall range hrange
    obtain ⟨_, _, _, -, rfl⟩ | ⟨new, _, hl, rfl⟩ | ⟨new, _, _, hl, rfl, -⟩ | ⟨base, hb, _, rfl⟩ :=
      hasks.mem_cases hcall <;> cases hrange
    · exact hl.apart_zone hseparate hzone hlow hlease
    · exact hl.apart_zone hseparate hzone hlow hlease
    · have hcross := (List.pairwise_append.1 hseparate.apart).2.2 _ (List.mem_map_of_mem hlease) _
        (List.mem_map_of_mem hb)
      refine hcross.symm.mono ⟨?_, ?_⟩ ⟨?_, Nat.le_refl _⟩
      · simp only [stackRange, hsize]; omega
      · have := hfull base hb
        simp only [stackRange]; omega
      · simp only [Region.range]; omega

end Steps

end Tenancy

end PooledFibers
