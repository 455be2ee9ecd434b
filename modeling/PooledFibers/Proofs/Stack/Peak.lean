import Mathlib.Algebra.BigOperators.Group.List.Basic
import Mathlib.Algebra.Order.Floor.Div
import Mathlib.Tactic.Common
import PooledFibers.Machine.Simulated
import PooledFibers.Proofs.Stack.Ledger

/-!
# How large a pool grows

A stack is carved only while every stack is leased, so there are as many stacks as were leased at
once at the busiest moment (`Tenancy.carved_of_after`), and no more slabs than these need. Until
more are leased than ever before, the pool makes no further reservation
(`Tenancy.exists_after_sized`).
-/

namespace PooledFibers

namespace Pool

/-- Only the newest slab has room, and it is not empty. -/
structure Filled (p : Pool) : Prop where
  capacity : ∀ slab ∈ p.slabs, slab.capacity = p.stacksPerSlab
  newest : ∀ slab ∈ p.slabs.head?, 0 < slab.carved
  older : ∀ slab ∈ p.slabs.tail, slab.isFull = true

variable {p p' : Pool} {leased : List Nat}

theorem Filled.carve (h : p.Filled) (hg : 0 < p.machine.provider.granularity) {newest : Slab}
    {older : List Slab} {machine : Machine}
    (hroom : p.slabWithRoom = (.ok (newest, older), machine)) :
    ({ p with machine }.carve newest older).2.Filled := by
  suffices hslabs : (∀ slab ∈ newest :: older, slab.capacity = p.stacksPerSlab)
      ∧ ∀ slab ∈ older, slab.isFull = true by
    refine ⟨?_, ?_, hslabs.2⟩
    · intro slab hslab
      rcases List.mem_cons.1 hslab with rfl | hslab
      · exact hslabs.1 newest List.mem_cons_self
      · exact hslabs.1 slab (List.mem_cons_of_mem _ hslab)
    · rintro slab ⟨⟩
      simp
  obtain ⟨hslabs, -, rfl⟩ | ⟨rfl, hnewest, hslab⟩ := slabWithRoom_cases hroom
  · exact ⟨hslabs ▸ h.capacity, by simpa [hslabs] using h.older⟩
  · obtain ⟨-, -, hcapacity, -⟩ := reserveSlab_ok hg hslab
    refine ⟨List.forall_mem_cons.2 ⟨hcapacity, h.capacity⟩, fun slab hmem => ?_⟩
    rcases hp : p.slabs with _ | ⟨first, rest⟩ <;> rw [hp] at hmem
    · simp at hmem
    · rcases List.mem_cons.1 hmem with rfl | hmem
      · exact hnewest slab (by simp [hp])
      · exact h.older slab (by simpa [hp] using hmem)

theorem Filled.acquire (h : p.Filled) (hg : 0 < p.machine.provider.granularity)
    {outcome : Except Failure Lease} (hr : p.acquire = .ok (outcome, p')) : p'.Filled := by
  obtain ⟨_, _, _, -, -, rfl⟩ | ⟨_, _, -, -, -, rfl⟩ | ⟨_, _, _, -, hroom, -, rfl⟩ :=
    acquire_cases hr
  · exact ⟨h.capacity, h.newest, h.older⟩
  · exact ⟨h.capacity, h.newest, h.older⟩
  · exact h.carve hg hroom

theorem Filled.release (h : p.Filled) {base : Nat} (hr : p.release base = .ok p') : p'.Filled := by
  obtain ⟨-, -, _, -, rfl⟩ := release_cases hr
  exact ⟨h.capacity, h.newest, h.older⟩

/-- The stacks of the older slabs are as many as these can hold. -/
theorem Filled.totals (h : p.Filled) (haccounts : p.Accounts leased) :
    p.totals.slabs = p.totals.carved ⌈/⌉ p.stacksPerSlab
      ∧ p.totals.capacity = p.totals.slabs * p.stacksPerSlab := by
  have hcapacity : p.totals.capacity = (p.slabs.map (·.capacity)).sum :=
    List.sum_eq_foldl_nat.symm
  have hcarved : p.totals.carved = (p.slabs.map (·.carved)).sum := List.sum_eq_foldl_nat.symm
  have hslabs : p.totals.slabs = p.slabs.length := rfl
  constructor
  · rw [hcarved, hslabs, Nat.ceilDiv_eq_add_pred_div]
    have hpos := haccounts.perSlab_pos
    rcases hp : p.slabs with _ | ⟨newest, older⟩
    · symm
      simpa using Nat.div_eq_of_lt (Nat.sub_lt hpos Nat.one_pos)
    have hmem : newest ∈ p.slabs := hp ▸ List.mem_cons_self
    have hsome : 0 < newest.carved := h.newest newest (by simp [hp])
    have hroom : newest.carved ≤ p.stacksPerSlab :=
      h.capacity newest hmem ▸ (haccounts.shaped newest hmem).carved
    have hfull : (older.map (·.carved)).sum = older.length * p.stacksPerSlab := by
      have hall : ∀ n ∈ older.map (·.carved), n = p.stacksPerSlab := by
        intro n hn
        obtain ⟨slab, hslab, rfl⟩ := List.mem_map.1 hn
        have hcap := h.capacity slab (hp ▸ List.mem_cons_of_mem _ hslab)
        have := h.older slab (by simpa [hp] using hslab)
        rw [Slab.isFull, beq_iff_eq] at this
        exact this.trans hcap
      rw [List.sum_eq_card_nsmul _ _ hall, List.length_map, smul_eq_mul]
    rw [List.map_cons, List.sum_cons, hfull, List.length_cons]
    symm
    refine Nat.div_eq_of_lt_le ?_ ?_ <;> simp only [Nat.add_mul, Nat.one_mul] <;> omega
  · have hall : ∀ n ∈ p.slabs.map (·.capacity), n = p.stacksPerSlab := by
      simpa using h.capacity
    rw [hcapacity, List.sum_eq_card_nsmul _ _ hall, List.length_map, smul_eq_mul, hslabs]

end Pool

/-- The simulated provider, with no memory left after some calls. -/
def PageProvider.exhaustedAfter (n : Nat) : PageProvider :=
  let provider := ({} : Simulation).provider
  { provider with
    reserve calls bytes :=
      if calls.length < n then provider.reserve calls bytes else .error (.number 12) }

namespace Tenancy

/-- The greatest number of leases outstanding at once in a run. -/
def peak (t : Tenancy) : List PoolOperation → Nat
  | [] => t.pool.totals.inUse
  | operation :: rest =>
    match t.perform operation with
    | .ok next => max t.pool.totals.inUse (next.peak rest)
    | .error _ => t.pool.totals.inUse

/-- The pool is no larger than it must be to have had `peak` leases outstanding at once. -/
structure Sized (t : Tenancy) (perSlab peak : Nat) : Prop where
  inUse : t.pool.totals.inUse = t.leases.length
  carved : t.pool.totals.carved = t.pool.totals.inUse + t.pool.totals.free
  peak : t.pool.totals.carved = peak
  slabs : t.pool.totals.slabs = t.pool.totals.carved ⌈/⌉ perSlab
  capacity : t.pool.totals.capacity = t.pool.totals.slabs * perSlab
  /-- All slabs but the newest are carved up. -/
  older : ∀ slab ∈ t.pool.slabs.tail, slab.carved = slab.capacity ∧ slab.capacity = perSlab

/-- Only a step that finds every stack leased asks for a reservation. -/
def Frugal (t t' : Tenancy) : Prop :=
  t.pool.totals.inUse < t.pool.totals.carved →
    ∀ bytes outcome, .reserve bytes outcome ∉ t.requests t'

variable {t t' : Tenancy} {operation : PoolOperation} {operations : List PoolOperation}
  {n : Nat}

section Steps

theorem Books.totals (h : t.Books) : t.pool.totals.inUse = t.leases.length
    ∧ t.pool.totals.carved = t.pool.totals.inUse + t.pool.totals.free := by
  obtain ⟨hinUse, hcarved⟩ := h.accounts.totals
  exact ⟨hinUse.trans (List.length_map _), hcarved.symm⟩

/-- Leasing or dropping makes the pool larger only if more are leased than there were stacks. -/
theorem carved_of_perform (h : t.Books) (hr : t.perform operation = .ok t') (h' : t'.Books) :
    t'.pool.totals.carved = max t.pool.totals.carved t'.pool.totals.inUse := by
  obtain ⟨-, hcarved⟩ := h.totals
  obtain ⟨-, hcarved'⟩ := h'.totals
  suffices t'.pool.totals.carved = t.pool.totals.carved
      ∨ t.pool.totals.free = 0 ∧ t'.pool.totals.free = 0
        ∧ t'.pool.totals.inUse = t.pool.totals.inUse + 1 by omega
  cases operation with
  | acquire =>
    obtain ⟨⟨outcome, pool⟩, hacquire, hr⟩ := Outcome.bind_eq_ok_iff.1 hr
    obtain ⟨base, free, guard, hpop, rfl, rfl⟩ | ⟨_, _, -, -, rfl, rfl⟩
      | ⟨_, _, _, hpop, -, rfl, rfl⟩ := Pool.acquire_cases hacquire <;>
      obtain rfl := Except.ok.inj hr
    · exact .inl rfl
    · exact .inl rfl
    · have hempty : t.pool.totals.free = 0 := congrArg FreeList.size (FreeList.eq_empty_of_pop? hpop)
      exact .inr ⟨hempty, hempty, rfl⟩
  | drop lease =>
    by_cases hlease : lease ∈ t.leases
    · obtain ⟨pool, hrelease, rfl⟩ := perform_drop hlease hr
      obtain ⟨-, -, _, -, rfl⟩ := Pool.release_cases hrelease
      exact .inl rfl
    · exact .inl (perform_drop_of_not_mem hlease hr ▸ rfl)

theorem frugal_of_perform (h : t.Books) (hr : t.perform operation = .ok t') (h' : t'.Books) :
    t.Frugal t' := by
  obtain ⟨-, hcarved⟩ := h.totals
  intro hfree bytes outcome hmem
  obtain ⟨hcalls, -, hasks⟩ := asks_of_perform h hr h'
  cases operation with
  | acquire =>
    obtain ⟨⟨outcome, pool⟩, hacquire, hr⟩ := Outcome.bind_eq_ok_iff.1 hr
    have hnone : t.pool.free.pop? = none → False := fun hpop => by
      have hempty : t.pool.totals.free = 0 := congrArg FreeList.size (FreeList.eq_empty_of_pop? hpop)
      omega
    obtain ⟨base, free, guard, -, rfl, rfl⟩ | ⟨_, _, hpop, -⟩ | ⟨_, _, _, hpop, -⟩ :=
      Pool.acquire_cases hacquire
    · rw [requests_of_calls_eq (Except.ok.inj hr ▸ rfl)] at hmem
      exact List.not_mem_nil hmem
    · exact hnone hpop
    · exact hnone hpop
  | drop lease =>
    by_cases hlease : lease ∈ t.leases
    · obtain ⟨pool, hrelease, rfl⟩ := perform_drop hlease hr
      obtain ⟨made, hmade, ⟨-, rfl⟩ | ⟨_, _, -, rfl⟩⟩ := Pool.exists_calls_of_release hrelease
      all_goals
        rw [requests, Machine.callsFrom_eq hmade.calls] at hmem
        simp at hmem
    · rw [requests_of_calls_eq (perform_drop_of_not_mem hlease hr ▸ rfl)] at hmem
      exact List.not_mem_nil hmem

theorem filled_of_perform (h : t.Books) (hfilled : t.pool.Filled)
    (hr : t.perform operation = .ok t') : t'.pool.Filled := by
  cases operation with
  | acquire =>
    obtain ⟨⟨outcome, pool⟩, hacquire, hr⟩ := Outcome.bind_eq_ok_iff.1 hr
    have := hfilled.acquire h.accounts.granularity_pos hacquire
    cases outcome <;> exact Except.ok.inj hr ▸ this
  | drop lease =>
    by_cases hlease : lease ∈ t.leases
    · obtain ⟨pool, hrelease, rfl⟩ := perform_drop hlease hr
      exact hfilled.release hrelease
    · exact perform_drop_of_not_mem hlease hr ▸ hfilled

end Steps

section Runs

/-- What a run has made of the pool, given the most leases outstanding at once. -/
structure Grown (t t' : Tenancy) (peak : Nat) : Prop where
  books : t'.Books
  filled : t'.pool.Filled
  alike : t.pool.Alike t'.pool
  carved : t'.pool.totals.carved = max t.pool.totals.carved peak

theorem inUse_le_peak (t : Tenancy) (operations : List PoolOperation) :
    t.pool.totals.inUse ≤ t.peak operations := by
  cases operations with
  | nil => exact le_rfl
  | cons operation rest =>
    rw [peak]
    split
    · exact le_max_left _ _
    · exact le_rfl

theorem Books.grown_of_after (h : t.Books) (hfilled : t.pool.Filled)
    (hr : t.after operations = .ok t') : t.Grown t' (t.peak operations) := by
  induction operations generalizing t with
  | nil =>
    obtain rfl := Except.ok.inj hr
    have hle : t.pool.totals.inUse ≤ t.pool.totals.carved := h.totals.2 ▸ Nat.le_add_right _ _
    exact ⟨h, hfilled, ⟨rfl, rfl, rfl, rfl⟩, (max_eq_left hle).symm⟩
  | cons operation rest ih =>
    obtain ⟨next, hnext, hrest⟩ := after_cons_eq_ok_iff.1 hr
    have hbooks := h.of_perform hnext
    have hstep := carved_of_perform h hnext hbooks
    have halike := alike_of_perform hnext
    obtain ⟨hbooks', hfilled', halike', hcarved⟩ :=
      ih hbooks (filled_of_perform h hfilled hnext) hrest
    refine ⟨hbooks', hfilled', halike.trans halike', ?_⟩
    have hpeak := inUse_le_peak next rest
    have hle : t.pool.totals.inUse ≤ t.pool.totals.carved := h.totals.2 ▸ Nat.le_add_right _ _
    simp only [peak, hnext]
    omega

theorem Books.each_frugal (h : t.Books) (hr : t.after operations = .ok t') :
    t.Each Frugal operations := by
  induction operations generalizing t with
  | nil => trivial
  | cons operation rest ih =>
    obtain ⟨next, hnext, hrest⟩ := after_cons_eq_ok_iff.1 hr
    have hbooks := h.of_perform hnext
    exact ⟨next, hnext, frugal_of_perform h hnext hbooks, ih hbooks hrest⟩

theorem Grown.sized (h : t.Grown t' n) (hempty : t.pool.totals.carved = 0) :
    t'.Sized t.pool.stacksPerSlab n := by
  obtain ⟨hinUse, hcarved⟩ := h.books.totals
  obtain ⟨hslabs, hcapacity⟩ := h.filled.totals h.books.accounts
  rw [h.alike.stacksPerSlab] at hslabs hcapacity
  refine ⟨hinUse, hcarved, ?_, hslabs, hcapacity, fun slab hslab => ?_⟩
  · rw [h.carved, hempty, Nat.zero_max]
  · refine ⟨?_, h.alike.stacksPerSlab ▸ h.filled.capacity slab (List.mem_of_mem_tail hslab)⟩
    simpa only [Slab.isFull, beq_iff_eq] using h.filled.older slab hslab

/-- Each reservation that a run makes is a slab more. -/
theorem Books.slabs_of_after (h : t.Books) (hr : t.after operations = .ok t') :
    t'.pool.totals.slabs
      = t.pool.totals.slabs + ((t.requests t').filterMap PageCall.reservation?).length := by
  obtain ⟨hcalls, hmade⟩ := h.calls_of_after hr
  have hreserved : PageCall.reserved ((t.requests t').reverse ++ t.pool.machine.calls) = _ :=
    PageCall.reserved_append (by simpa using hmade)
  rw [← hcalls, (h.of_after hr).accounts.reserved, h.accounts.reserved] at hreserved
  have hlength := congrArg List.length hreserved
  simp only [List.length_append, List.length_map, List.filterMap_reverse,
    List.length_reverse] at hlength
  simp only [Pool.totals]
  omega

/-- Whatever is leased and dropped and whatever the provider refuses, the pool has as many stacks
as were leased at once at the busiest moment, in as few slabs as these need; and as long as no more
are leased than then, it makes no further reservation. -/
theorem exists_after_sized {s : Settings} {provider : PageProvider} {page : Nat}
    (hs : s.validate page = .ok ()) (hp : 0 < provider.pageSize)
    (hg : 0 < provider.granularity) (operations : List PoolOperation) :
    ∃ t, (ofSettings s provider).after operations = .ok t
      ∧ t.Sized s.stacksPerSlab ((ofSettings s provider).peak operations)
      ∧ (ofSettings s provider).Each Frugal operations
      ∧ ∀ later, t.peak later ≤ (ofSettings s provider).peak operations →
        ∃ t', t.after later = .ok t' ∧ t'.pool.totals.slabs = t.pool.totals.slabs
          ∧ (t.requests t').filterMap PageCall.reservation? = [] := by
  have hstart := books_ofSettings hs hp hg
  have hfilled : (ofSettings s provider).pool.Filled := by
    constructor <;> simp [ofSettings, Pool.ofSettings]
  obtain ⟨t, ht, hbooks⟩ := hstart.exists_after operations
  have hgrown := hstart.grown_of_after hfilled ht
  have hsized := hgrown.sized rfl
  refine ⟨t, ht, hsized, hstart.each_frugal ht, fun later hlater => ?_⟩
  obtain ⟨t', ht', hbooks'⟩ := hbooks.exists_after later
  have hmore := hbooks.grown_of_after hgrown.filled ht'
  have hcarved : t'.pool.totals.carved = t.pool.totals.carved := by
    rw [hmore.carved, hsized.peak, max_eq_left hlater]
  have hslabs : t'.pool.totals.slabs = t.pool.totals.slabs := by
    rw [(hmore.filled.totals hbooks'.accounts).1, (hgrown.filled.totals hbooks.accounts).1,
      hcarved, hmore.alike.stacksPerSlab]
  refine ⟨t', ht', hslabs, List.eq_nil_of_length_eq_zero ?_⟩
  have := hbooks.slabs_of_after ht'
  omega

/-- Two slabs of two stacks are had and a third slab is refused. One stack is dropped and leased
again, and then the third slab is refused once more. -/
theorem sized_of_refused_slab :
    ∃ t, (ofSettings { stackSize := 16384, stacksPerSlab := 2, verifyOnYield := true }
        (.exhaustedAfter 6)).after
          [.acquire, .acquire, .acquire, .acquire, .acquire,
            .drop ⟨.ofZone 0x20000001B000 110592 94208, .applied, true⟩] = .ok t
      ∧ t.pool.totals.inUse = 3 ∧ t.Sized 2 4
      ∧ ∃ t', t.after [.acquire, .acquire] = .ok t' ∧ t'.pool.totals.inUse = 4
        ∧ (t.requests t').length = 1
        ∧ t'.pool.totals.slabs = t.pool.totals.slabs
        ∧ (t.requests t').filterMap PageCall.reservation? = [] := by
  have hs : ({ stackSize := 16384, stacksPerSlab := 2, verifyOnYield := true }
      : Settings).validate 4096 = .ok () := rfl
  have hp : 0 < (PageProvider.exhaustedAfter 6).pageSize := by decide
  obtain ⟨t, ht, hsized, -, hlater⟩ := exists_after_sized hs hp (by decide)
    [.acquire, .acquire, .acquire, .acquire, .acquire,
      .drop ⟨.ofZone 0x20000001B000 110592 94208, .applied, true⟩]
  have hfirst : .ok (3, 4) = Except.ok (t.pool.totals.inUse, t.peak [.acquire, .acquire]) :=
    congrArg (Except.map fun t : Tenancy => (t.pool.totals.inUse, t.peak [.acquire, .acquire])) ht
  obtain ⟨hinUse, hpeak⟩ := Prod.mk.inj (Except.ok.inj hfirst)
  obtain ⟨t', ht', hslabs, hmade⟩ := hlater [.acquire, .acquire] (hpeak ▸ le_rfl)
  have hsecond : .ok (4, 1) = (t.after [.acquire, .acquire]).map fun t' : Tenancy =>
      (t'.pool.totals.inUse, (t.requests t').length) :=
    congrArg (fun r => Except.bind r fun t : Tenancy =>
      (t.after [.acquire, .acquire]).map fun t' : Tenancy =>
        (t'.pool.totals.inUse, (t.requests t').length)) ht
  rw [ht'] at hsecond
  obtain ⟨hinUse', hrequests⟩ := Prod.mk.inj (Except.ok.inj hsecond)
  exact ⟨t, ht, hinUse.symm, hsized, t', ht', hinUse'.symm, hrequests.symm, hslabs, hmade⟩

end Runs

end Tenancy

end PooledFibers
