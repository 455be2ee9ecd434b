import Mathlib.Tactic.Common
import PooledFibers.Proofs.Stack.Tenancy

/-!
# When the pool has no stack to lease

`acquire` fails just when no stack is free, the newest slab is carved up and no slab can be had
(`Pool.acquire_eq_error_iff`). It leaves nothing behind but a refused reservation among the calls
made. A provider may forget those (`PageProvider.ForgetsRefusals`), and then two pools that differ
in no more (`Pool.Matches`) answer alike ever after: a lease that was refused can be struck from
a run (`Tenancy.exists_acquire_refused_iff`).
-/

namespace PooledFibers

open Outcome

/-! ## Refused reservations -/

namespace PageCall

def isRefusal : PageCall → Bool
  | .reserve _ (.error _) => true
  | _ => false

/-- The calls but for the refused reservations. -/
def effective (calls : List PageCall) : List PageCall := calls.filter (!·.isRefusal)

theorem effective_cons_congr {calls calls' : List PageCall} (call : PageCall)
    (h : effective calls' = effective calls) :
    effective (call :: calls') = effective (call :: calls) := by
  simp only [effective, List.filter_cons] at h ⊢
  rw [h]

theorem reserved_effective (calls : List PageCall) :
    reserved (effective calls) = reserved calls := by
  induction calls with
  | nil => rfl
  | cons call calls ih =>
    rcases call with ⟨_, _ | _⟩ | ⟨_, _, _⟩ | ⟨_, _, _⟩ | ⟨_, _, _ | _⟩
    case reserve.ok low => exact congrArg (_ :: ·) ih
    case release.ok => exact congrArg (List.erase · _) ih
    all_goals exact ih

end PageCall

/-- A reservation that was refused has no effect on what the provider answers later. -/
structure PageProvider.ForgetsRefusals (provider : PageProvider) : Prop where
  reserve : ∀ calls, provider.reserve (PageCall.effective calls) = provider.reserve calls
  guard : ∀ calls, provider.guard (PageCall.effective calls) = provider.guard calls
  uncommit : ∀ calls, provider.uncommit (PageCall.effective calls) = provider.uncommit calls
  release : ∀ calls, provider.release (PageCall.effective calls) = provider.release calls

theorem Simulation.next_effective (s : Simulation) (calls : List PageCall) :
    s.next (PageCall.effective calls) = s.next calls := by
  induction calls with
  | nil => rfl
  | cons call calls ih =>
    rcases call with ⟨_, _ | _⟩ | ⟨_, _, _⟩ | ⟨_, _, _⟩ | ⟨_, _, _⟩
    case reserve.ok low => rfl
    all_goals exact ih

theorem Simulation.forgetsRefusals (s : Simulation) : s.provider.ForgetsRefusals where
  reserve calls := by
    funext bytes
    simp only [provider, reserve, s.next_effective]
  guard _ := rfl
  uncommit _ := rfl
  release _ := rfl

/-- The simulated provider, with memory for some reservations. -/
def PageProvider.granting (n : Nat) : PageProvider :=
  let provider := ({} : Simulation).provider
  { provider with
    reserve calls bytes :=
      if (PageCall.reserved calls).length < n then provider.reserve calls bytes
      else .error (.number 12) }

theorem PageProvider.forgetsRefusals_granting (n : Nat) : (granting n).ForgetsRefusals :=
  { Simulation.forgetsRefusals {} with
    reserve := fun calls => by
      funext bytes
      simp only [granting, PageCall.reserved_effective, (Simulation.forgetsRefusals {}).reserve] }

namespace Machine

/-- The machines differ at most in the refused reservations, which the provider forgets. -/
structure Matches (m m' : Machine) : Prop where
  forgets : m.provider.ForgetsRefusals
  history : ∃ calls, PageCall.effective calls = PageCall.effective m.calls
    ∧ m' = { m with calls }

variable {m m' : Machine}

theorem Matches.notice (h : m.Matches m') (n : Notice) : (m.notice n).Matches (m'.notice n) := by
  obtain ⟨hforgets, calls, hcalls, rfl⟩ := h
  exact ⟨hforgets, calls, hcalls, rfl⟩

theorem Matches.log (h : m.Matches m') (call : PageCall) : (m.log call).Matches (m'.log call) := by
  obtain ⟨hforgets, calls, hcalls, rfl⟩ := h
  exact ⟨hforgets, call :: calls, PageCall.effective_cons_congr call hcalls, rfl⟩

theorem Matches.clear (h : m.Matches m') (low bytes : Nat) :
    (m.clear low bytes).Matches (m'.clear low bytes) := by
  obtain ⟨hforgets, calls, hcalls, rfl⟩ := h
  exact ⟨hforgets, calls, hcalls, rfl⟩

/-- Two machines that match have given the same answer. -/
def Agree {α : Type} (r r' : α × Machine) : Prop := r'.1 = r.1 ∧ r.2.Matches r'.2

theorem Agree.exists_eq {α : Type} {r r' : α × Machine} (h : Agree r r') :
    ∃ a m m', r = (a, m) ∧ r' = (a, m') ∧ m.Matches m' :=
  ⟨r.1, r.2, r'.2, rfl, Prod.ext h.1 rfl, h.2⟩

theorem Matches.reserve (h : m.Matches m') (bytes : Nat) :
    Agree (m.reserve bytes) (m'.reserve bytes) := by
  have hanswer : m'.provider.reserve m'.calls bytes = m.provider.reserve m.calls bytes := by
    obtain ⟨hforgets, calls, hcalls, rfl⟩ := h
    rw [← hforgets.reserve, hcalls, hforgets.reserve]
  refine ⟨hanswer, ?_⟩
  simp only [Machine.reserve, hanswer]
  split
  · exact (h.log _).clear _ _
  · exact h.log _

theorem Matches.guard (h : m.Matches m') (low bytes : Nat) :
    Agree (m.guard low bytes) (m'.guard low bytes) := by
  have hanswer : m'.provider.guard m'.calls low bytes = m.provider.guard m.calls low bytes := by
    obtain ⟨hforgets, calls, hcalls, rfl⟩ := h
    rw [← hforgets.guard, hcalls, hforgets.guard]
  refine ⟨hanswer, ?_⟩
  simp only [Machine.guard, hanswer]
  exact h.log _

theorem Matches.uncommit (h : m.Matches m') (low bytes : Nat) :
    Agree (m.uncommit low bytes) (m'.uncommit low bytes) := by
  have hanswer :
      m'.provider.uncommit m'.calls low bytes = m.provider.uncommit m.calls low bytes := by
    obtain ⟨hforgets, calls, hcalls, rfl⟩ := h
    rw [← hforgets.uncommit, hcalls, hforgets.uncommit]
  refine ⟨hanswer, ?_⟩
  simp only [Machine.uncommit, hanswer]
  split
  · exact (h.log _).clear _ _
  · exact h.log _

end Machine

/-! ## A pool that fails to lease -/

namespace Pool

/-- Why no slab can be had: what is answered, and the calls made to find out. -/
inductive Barred (p : Pool) : Failure → List PageCall → Prop
  | overflow
      (size : Word.bound ≤ p.stacksPerSlab * p.stackSize + (p.machine.provider.granularity - 1)) :
      p.Barred (.exhausted Word.greatest (.slabOverflow p.stacksPerSlab p.stackSize)) []
  | refused {used bytes : Nat} {source : IoError} (sizes : p.slabSizes? = some (used, bytes))
      (answer : p.machine.provider.reserve p.machine.calls bytes = .error source) :
      p.Barred (.exhausted bytes source) [.reserve bytes (.error source)]

/-- The pool after some more calls that had no effect. -/
def withCalls (p : Pool) (made : List PageCall) : Pool :=
  { p with machine := { p.machine with calls := made ++ p.machine.calls } }

variable {p p' : Pool} {failure : Failure} {machine : Machine} {made : List PageCall}

theorem slabSizes?_eq_none_iff : p.slabSizes? = none
    ↔ Word.bound ≤ p.stacksPerSlab * p.stackSize + (p.machine.provider.granularity - 1) := by
  rw [slabSizes?]
  cases hmul : Word.mul? p.stacksPerSlab p.stackSize with
  | none =>
    have := Word.checked_eq_none_iff.1 hmul
    simp only [Option.bind_eq_bind, Option.bind_none, true_iff]
    omega
  | some used =>
    obtain ⟨-, rfl⟩ := Word.checked_eq_some_iff.1 hmul
    simp only [Option.bind_eq_bind, Option.bind_some, Option.pure_def, Word.alignUp?]
    rw [Option.bind_eq_none_iff, ← Word.checked_eq_none_iff]
    simp [Word.add?, Option.eq_none_iff_forall_ne_some]

theorem reserveSlab_eq_error_iff : p.reserveSlab = (.error failure, machine)
    ↔ ∃ made, p.Barred failure made ∧ machine = (p.withCalls made).machine := by
  simp only [reserveSlab]
  cases hsizes : p.slabSizes? with
  | none =>
    constructor
    · rintro ⟨⟩
      exact ⟨[], .overflow (slabSizes?_eq_none_iff.1 hsizes), rfl⟩
    · rintro ⟨_, ⟨⟩ | ⟨hsizes', -⟩, rfl⟩
      · rfl
      · simp [hsizes] at hsizes'
  | some sizes =>
    obtain ⟨used, bytes⟩ := sizes
    simp only [Machine.reserve]
    constructor
    · intro h
      split at h <;> rename_i heq
      · obtain ⟨hanswer, rfl⟩ := Prod.mk.inj heq
        obtain ⟨⟨⟩, rfl⟩ := Prod.mk.inj h
        exact ⟨_, .refused hsizes hanswer, by rw [hanswer]; rfl⟩
      · simp at h
    · rintro ⟨_, hsize | ⟨hsizes', hanswer⟩, rfl⟩
      · simp [slabSizes?_eq_none_iff.2 hsize] at hsizes
      · obtain ⟨rfl, rfl⟩ := Prod.mk.inj (Option.some.inj (hsizes.symm.trans hsizes'))
        rw [hanswer]
        rfl

theorem slabWithRoom_eq_error_iff : p.slabWithRoom = (.error failure, machine)
    ↔ (∀ newest ∈ p.slabs.head?, newest.isFull = true)
      ∧ p.reserveSlab = (.error failure, machine) := by
  have hreserve : ∀ older : List Slab,
      (p.reserveSlab.1.map fun slab => (slab, older), p.reserveSlab.2) = (.error failure, machine)
        ↔ p.reserveSlab = (.error failure, machine) := by
    intro older
    rcases p.reserveSlab with ⟨_ | _, _⟩ <;> simp [Except.map]
  simp only [slabWithRoom]
  split <;> rename_i hslabs
  · split <;> rename_i hfull
    · simpa [hslabs, hfull] using hreserve _
    · simp [hslabs, hfull]
  · simpa [hslabs] using hreserve _

/-- No stack can be leased just when none is free, the newest slab is carved up and no slab can
be had. -/
theorem acquire_eq_error_iff : p.acquire = .ok (.error failure, p')
    ↔ p.free.toList = [] ∧ (∀ newest ∈ p.slabs.head?, newest.isFull = true)
      ∧ ∃ made, p.Barred failure made ∧ p' = p.withCalls made := by
  constructor
  · intro h
    obtain ⟨_, _, _, -, hlease, -⟩ | ⟨_, _, hpop, hroom, hfailure, rfl⟩ | ⟨_, _, _, -, -, hlease, -⟩ :=
      acquire_cases h
    · simp at hlease
    · obtain rfl := Except.error.inj hfailure
      obtain ⟨hfull, hslab⟩ := slabWithRoom_eq_error_iff.1 hroom
      obtain ⟨made, hbarred, rfl⟩ := reserveSlab_eq_error_iff.1 hslab
      exact ⟨FreeList.pop?_eq_none_iff.1 hpop, hfull, made, hbarred, rfl⟩
    · simp at hlease
  · rintro ⟨hfree, hfull, made, hbarred, rfl⟩
    have hslab := reserveSlab_eq_error_iff.2 ⟨made, hbarred, rfl⟩
    simp only [acquire, FreeList.pop?_eq_none_iff.2 hfree,
      slabWithRoom_eq_error_iff.2 ⟨hfull, hslab⟩]
    rfl

theorem Barred.exhausted (h : p.Barred failure made) :
    ∃ bytes source, failure = .exhausted bytes source := by
  cases h <;> exact ⟨_, _, rfl⟩

theorem Barred.effective (h : p.Barred failure made) (calls : List PageCall) :
    PageCall.effective (made ++ calls) = PageCall.effective calls := by
  cases h <;> rfl

/-! ## Pools that answer alike -/

/-- The pools differ at most in the refused reservations, which the provider forgets. -/
structure Matches (p p' : Pool) : Prop where
  machine : p.machine.Matches p'.machine
  same : p' = { p with machine := p'.machine }

section Matches

variable {m : Machine} {base : Nat}

theorem Barred.matches_withCalls (h : p.Barred failure made)
    (hforgets : p.machine.provider.ForgetsRefusals) : p.Matches (p.withCalls made) :=
  ⟨⟨hforgets, made ++ p.machine.calls, h.effective _, rfl⟩, rfl⟩

theorem agree_reserveSlab (h : p.machine.Matches m) :
    Machine.Agree p.reserveSlab ({ p with machine := m }).reserveSlab := by
  have hsizes : ({ p with machine := m }).slabSizes? = p.slabSizes? := by
    obtain ⟨-, calls, -, rfl⟩ := h
    rfl
  simp only [reserveSlab, hsizes]
  cases p.slabSizes? with
  | none => exact ⟨rfl, h⟩
  | some sizes =>
    obtain ⟨answer, m₁, m₂, heq, heq', hm⟩ := (h.reserve sizes.2).exists_eq
    simp only [heq, heq']
    cases answer <;> exact ⟨rfl, hm⟩

theorem agree_slabWithRoom (h : p.machine.Matches m) :
    Machine.Agree p.slabWithRoom ({ p with machine := m }).slabWithRoom := by
  obtain ⟨answer, m₁, m₂, heq, heq', hm⟩ := (agree_reserveSlab h).exists_eq
  simp only [slabWithRoom, heq, heq']
  split
  · split
    · exact ⟨rfl, hm⟩
    · exact ⟨rfl, h⟩
  · exact ⟨rfl, hm⟩

theorem agree_protectGuardZone (h : p.machine.Matches m) (base : Nat) :
    Machine.Agree (p.protectGuardZone base) ({ p with machine := m }.protectGuardZone base) := by
  simp only [protectGuardZone, stackSize]
  generalize base - p.geometry.stackSize = low
  split
  · exact ⟨rfl, h⟩
  · obtain ⟨answer, m₁, m₂, heq, heq', hm⟩ := (h.guard low p.geometry.guardZone).exists_eq
    simp only [heq, heq']
    cases answer with
    | ok => exact ⟨rfl, hm⟩
    | error refused =>
      obtain ⟨answer, m₁, m₂, heq, heq', hm⟩ :=
        ((hm.notice (.guardFailed low refused)).uncommit low p.geometry.guardZone).exists_eq
      simp only [heq, heq']
      cases answer with
      | ok => exact ⟨rfl, hm⟩
      | error kept => exact ⟨rfl, hm.notice _⟩

theorem matches_carve (h : p.machine.Matches m) (newest : Slab) (older : List Slab) :
    ({ p with machine := m }.carve newest older).1 = (p.carve newest older).1
      ∧ (p.carve newest older).2.Matches ({ p with machine := m }.carve newest older).2 := by
  obtain ⟨guard, m₁, m₂, heq, heq', hm⟩ :=
    (agree_protectGuardZone h (newest.nextBase p.stackSize)).exists_eq
  have hsize : ({ p with machine := m }).stackSize = p.stackSize := rfl
  simp only [carve, hsize, heq, heq']
  exact ⟨rfl, hm, rfl⟩

theorem Matches.acquire (h : p.Matches p') {outcome : Except Failure Lease} {q : Pool}
    (hr : p.acquire = .ok (outcome, q)) : ∃ q', p'.acquire = .ok (outcome, q') ∧ q.Matches q' := by
  obtain ⟨hm, hp'⟩ := h
  rw [hp']
  have hguard : ∀ base, ({ p with machine := p'.machine }).guardOf? base = p.guardOf? base :=
    fun _ => rfl
  obtain ⟨room, m₁, m₂, hroom, hroom', hm'⟩ := (agree_slabWithRoom hm).exists_eq
  simp only [Pool.acquire, hguard, hroom, hroom'] at hr ⊢
  split at hr <;> rename_i hpop
  · split at hr <;> rename_i hknown
    · simp at hr
    · obtain ⟨rfl, rfl⟩ := Prod.mk.inj (Except.ok.inj hr)
      exact ⟨_, rfl, hm, rfl⟩
  · rcases room with failure | ⟨newest, older⟩ <;>
      obtain ⟨rfl, rfl⟩ := Prod.mk.inj (Except.ok.inj hr)
    · exact ⟨_, rfl, hm', rfl⟩
    · obtain ⟨hlease, hcarved⟩ := matches_carve (p := { p with machine := m₁ }) hm' newest older
      exact ⟨_, by rw [← hlease], hcarved⟩

theorem Matches.release (h : p.Matches p') {q : Pool} (hr : p.release base = .ok q) :
    ∃ q', p'.release base = .ok q' ∧ q.Matches q' := by
  obtain ⟨hm, hp'⟩ := h
  rw [hp']
  have howns : ({ p with machine := p'.machine }).owns base = p.owns base := rfl
  have hsize : ({ p with machine := p'.machine }).stackSize = p.stackSize := rfl
  simp only [Pool.release, howns] at hr ⊢
  split_ifs at hr ⊢
  split at hr <;> rename_i hvictim
  · exact ⟨_, rfl, Except.ok.inj hr ▸ ⟨hm, rfl⟩⟩
  · rename_i victim
    obtain ⟨answer, m₁, m₂, heq, heq', hm'⟩ :=
      (hm.uncommit (victim - p.stackSize) p.stackSize).exists_eq
    simp only [stackSize] at heq heq' hr ⊢
    simp only [heq, heq'] at hr ⊢
    cases answer with
    | ok => exact ⟨_, rfl, Except.ok.inj hr ▸ ⟨hm', rfl⟩⟩
    | error error => exact ⟨_, rfl, Except.ok.inj hr ▸ ⟨hm'.notice _, rfl⟩⟩

end Matches

/-! ### What a refused lease leaves behind -/

/-- Nothing can be told of the pool that could not be told before, and the provider has been asked
for at most one reservation, which it refused. -/
structure Untouched (p p' : Pool) : Prop where
  totals : p'.totals = p.totals
  query : ∀ base, p'.query base = p.query base
  made : ∃ made, p' = p.withCalls made
    ∧ (made = [] ∨ ∃ bytes source, made = [.reserve bytes (.error source)])

theorem Barred.untouched (h : p.Barred failure made) : p.Untouched (p.withCalls made) where
  totals := rfl
  query _ := rfl
  made := by
    refine ⟨made, rfl, ?_⟩
    cases h with
    | overflow => exact .inl rfl
    | refused => exact .inr ⟨_, _, rfl⟩

theorem provider_of_acquire (hg : 0 < p.machine.provider.granularity)
    {outcome : Except Failure Lease} (hr : p.acquire = .ok (outcome, p')) :
    p'.machine.provider = p.machine.provider := by
  obtain ⟨_, _, _, -, -, rfl⟩ | ⟨_, machine, -, hroom, -, rfl⟩
    | ⟨newest, older, machine, -, hroom, -, rfl⟩ := acquire_cases hr
  · rfl
  · exact (slabWithRoom_error hroom).1
  · have hcarve := ({ p with machine }).protectGuardZone_keeps (newest.nextBase p.stackSize)
    obtain ⟨-, -, rfl⟩ | ⟨-, -, hslab⟩ := slabWithRoom_cases hroom
    · exact hcarve.1
    · exact hcarve.1.trans (reserveSlab_ok hg hslab).2.2.2.1

end Pool

/-! ## Striking a refused lease from a run -/

namespace Tenancy

variable {t t' u : Tenancy} {operation : PoolOperation} {operations : List PoolOperation}

theorem Books.provider_of_perform (h : t.Books) (hr : t.perform operation = .ok u) :
    u.pool.machine.provider = t.pool.machine.provider := by
  cases operation with
  | acquire =>
    obtain ⟨⟨outcome, pool⟩, hacquire, hr⟩ := bind_eq_ok_iff.1 hr
    have hprovider := Pool.provider_of_acquire h.accounts.granularity_pos hacquire
    cases outcome <;> exact Except.ok.inj hr ▸ hprovider
  | drop lease =>
    by_cases hlease : lease ∈ t.leases
    · obtain ⟨pool, hrelease, rfl⟩ := perform_drop hlease hr
      obtain ⟨-, -, machine, hkeeps, rfl⟩ := Pool.release_cases hrelease
      exact hkeeps.1
    · exact perform_drop_of_not_mem hlease hr ▸ rfl

theorem Books.provider_of_after (h : t.Books) (hr : t.after operations = .ok u) :
    u.pool.machine.provider = t.pool.machine.provider := by
  induction operations generalizing t with
  | nil => exact Except.ok.inj hr ▸ rfl
  | cons operation rest ih =>
    obtain ⟨next, hnext, hr⟩ := after_cons_eq_ok_iff.1 hr
    exact (ih (h.of_perform hnext) hr).trans (h.provider_of_perform hnext)

/-- The tenancies differ at most in the refused reservations, which the provider forgets. -/
structure Matches (t t' : Tenancy) : Prop where
  pool : t.pool.Matches t'.pool
  leases : t'.leases = t.leases

theorem Matches.perform (h : t.Matches t') (hr : t.perform operation = .ok u) :
    ∃ u', t'.perform operation = .ok u' ∧ u.Matches u' := by
  obtain ⟨hpool, hleases⟩ := h
  cases operation with
  | acquire =>
    obtain ⟨⟨outcome, pool⟩, hacquire, hr⟩ := bind_eq_ok_iff.1 hr
    obtain ⟨pool', hacquire', hpool'⟩ := hpool.acquire hacquire
    simp only [Tenancy.perform, hacquire', ok_bind]
    cases outcome with
    | error failure =>
      obtain rfl := Except.ok.inj hr
      exact ⟨_, rfl, hpool', hleases⟩
    | ok lease =>
      obtain rfl := Except.ok.inj hr
      exact ⟨_, rfl, hpool', congrArg (lease :: ·) hleases⟩
  | drop lease =>
    by_cases hlease : lease ∈ t.leases
    · obtain ⟨pool, hrelease, rfl⟩ := perform_drop hlease hr
      obtain ⟨pool', hrelease', hpool'⟩ := hpool.release hrelease
      refine ⟨{ pool := pool', leases := t'.leases.erase lease }, ?_, hpool',
        congrArg (List.erase · lease) hleases⟩
      simp [Tenancy.perform, hleases, hlease, hrelease']
    · obtain rfl := perform_drop_of_not_mem hlease hr
      exact ⟨t', by simp [Tenancy.perform, hleases, hlease], hpool, hleases⟩

theorem Matches.after (h : t.Matches t') (hr : t.after operations = .ok u) :
    ∃ u', t'.after operations = .ok u' ∧ u.Matches u' := by
  induction operations generalizing t t' with
  | nil => exact ⟨t', rfl, Except.ok.inj hr ▸ h⟩
  | cons operation rest ih =>
    obtain ⟨next, hnext, hr⟩ := after_cons_eq_ok_iff.1 hr
    obtain ⟨next', hnext', hmatches⟩ := h.perform hnext
    obtain ⟨u', hu', hmatches⟩ := ih hmatches hr
    exact ⟨u', after_cons_eq_ok_iff.2 ⟨next', hnext', hu'⟩, hmatches⟩

/-- No answer tells the tenancies apart, and no word in memory or notice does. -/
structure Indistinct (t t' : Tenancy) : Prop where
  leases : t'.leases = t.leases
  totals : t'.pool.totals = t.pool.totals
  query : ∀ base, t'.pool.query base = t.pool.query base
  /-- The next stack leased is the same, or the same failure is met. -/
  next : t'.pool.acquire.map Prod.fst = t.pool.acquire.map Prod.fst
  words : t'.pool.machine.words = t.pool.machine.words
  notices : t'.pool.machine.notices = t.pool.machine.notices
  calls : PageCall.effective t'.pool.machine.calls = PageCall.effective t.pool.machine.calls

theorem Matches.indistinct (h : t.Matches t') (hbooks : t.Books) : t.Indistinct t' := by
  obtain ⟨outcome, pool, hacquire⟩ := hbooks.accounts.exists_acquire
  obtain ⟨pool', hacquire', -⟩ := h.pool.acquire hacquire
  have hnext : t'.pool.acquire.map Prod.fst = t.pool.acquire.map Prod.fst := by
    rw [hacquire, hacquire']
    rfl
  obtain ⟨⟨⟨-, calls, hcalls, hmachine⟩, hpool⟩, hleases⟩ := h
  rw [hmachine] at hpool
  constructor
  case leases => exact hleases
  case next => exact hnext
  case totals => exact hpool ▸ rfl
  case query => exact hpool ▸ fun _ => rfl
  case words => rw [hpool]
  case notices => rw [hpool]
  case calls => exact hpool ▸ hcalls

/-- However stacks were leased and dropped and whatever the provider has refused, no stack can be
leased just when none is free, the newest slab is carved up and another one overflows or is
refused. The pool is then untouched, and whatever is done next goes as if no stack had been asked
for, if the provider forgets what it has refused. -/
theorem exists_acquire_refused_iff {s : Settings} {provider : PageProvider} {page : Nat}
    (hs : s.validate page = .ok ()) (hp : 0 < provider.pageSize)
    (hg : 0 < provider.granularity) (operations : List PoolOperation) :
    ∃ t outcome pool, (ofSettings s provider).after operations = .ok t
      ∧ t.pool.acquire = .ok (outcome, pool)
      ∧ ((∃ failure, outcome = .error failure) ↔
        t.pool.free.toList = []
          ∧ (∀ newest ∈ t.pool.slabs.head?, newest.carved = newest.capacity)
          ∧ (Word.bound ≤ t.pool.stacksPerSlab * t.pool.stackSize + (provider.granularity - 1)
            ∨ ∃ used bytes source, t.pool.slabSizes? = some (used, bytes)
              ∧ provider.reserve t.pool.machine.calls bytes = .error source))
      ∧ ∀ failure, outcome = .error failure →
        (∃ bytes source, failure = .exhausted bytes source) ∧ t.pool.Untouched pool
          ∧ (provider.ForgetsRefusals → ∀ later, ∃ u u', t.after later = .ok u
            ∧ t.after (.acquire :: later) = .ok u' ∧ u.Indistinct u') := by
  have hbooks₀ := books_ofSettings hs hp hg
  obtain ⟨t, ht, hbooks⟩ := hbooks₀.exists_after operations
  obtain ⟨outcome, pool, hacquire⟩ := hbooks.accounts.exists_acquire
  have hprovider : t.pool.machine.provider = provider := hbooks₀.provider_of_after ht
  refine ⟨t, outcome, pool, ht, hacquire, ⟨?refused, ?refuses⟩, ?left⟩
  case refused =>
    rintro ⟨failure, rfl⟩
    obtain ⟨hfree, hfull, made, hbarred, -⟩ := Pool.acquire_eq_error_iff.1 hacquire
    refine ⟨hfree, by simpa [Slab.isFull] using hfull, ?_⟩
    cases hbarred with
    | overflow hsize => exact .inl (hprovider ▸ hsize)
    | refused hsizes hanswer => exact .inr ⟨_, _, _, hsizes, hprovider ▸ hanswer⟩
  case refuses =>
    rintro ⟨hfree, hfull, hroom⟩
    have hfull : ∀ newest ∈ t.pool.slabs.head?, newest.isFull = true := by
      simpa [Slab.isFull] using hfull
    have hbarred : ∃ failure made, t.pool.Barred failure made := by
      obtain hsize | ⟨used, bytes, source, hsizes, hanswer⟩ := hroom
      · exact ⟨_, _, .overflow (hprovider.symm ▸ hsize)⟩
      · exact ⟨_, _, .refused hsizes (hprovider.symm ▸ hanswer)⟩
    obtain ⟨failure, made, hbarred⟩ := hbarred
    have hrefused := Pool.acquire_eq_error_iff.2 ⟨hfree, hfull, made, hbarred, rfl⟩
    exact ⟨failure, (Prod.mk.inj (Except.ok.inj (hacquire.symm.trans hrefused))).1⟩
  case left =>
    rintro failure rfl
    obtain ⟨-, -, made, hbarred, rfl⟩ := Pool.acquire_eq_error_iff.1 hacquire
    refine ⟨hbarred.exhausted, hbarred.untouched, fun hforgets later => ?_⟩
    have hmatches : t.Matches { t with pool := t.pool.withCalls made } :=
      ⟨hbarred.matches_withCalls (hprovider.symm ▸ hforgets), rfl⟩
    obtain ⟨u, hu, hbooksu⟩ := hbooks.exists_after later
    obtain ⟨u', hu', hmatchesu⟩ := hmatches.after hu
    refine ⟨u, u', hu, ?_, hmatchesu.indistinct hbooksu⟩
    rw [after_cons_eq_ok_iff]
    exact ⟨_, by simp [perform, hacquire], hu'⟩

/-- The one stack there is memory for is leased, and a second one refused. The first is then
dropped and leased again. -/
theorem indistinct_without_refused_lease :
    ∃ t pool, (ofSettings { stackSize := 16384, stacksPerSlab := 1, verifyOnYield := true }
        (.granting 1)).after [.acquire] = .ok t
      ∧ t.pool.acquire = .ok (.error (.exhausted 110592 (.number 12)), pool)
      ∧ t.pool.Untouched pool
      ∧ ∃ u u', t.after [.drop ⟨.ofZone 0x20000001B000 110592 94208, .applied, true⟩, .acquire]
          = .ok u
        ∧ t.after [.acquire, .drop ⟨.ofZone 0x20000001B000 110592 94208, .applied, true⟩, .acquire]
          = .ok u'
        ∧ u.Indistinct u' ∧ u.leases.map Lease.fresh = [false] := by
  have hs : ({ stackSize := 16384, stacksPerSlab := 1, verifyOnYield := true }
      : Settings).validate 4096 = .ok () := rfl
  have hp : 0 < (PageProvider.granting 1).pageSize := by decide
  obtain ⟨t, outcome, pool, ht, hacquire, -, hleft⟩ :=
    exists_acquire_refused_iff hs hp (by decide) [.acquire]
  have hanswer : .ok (.error (.exhausted 110592 (.number 12))) = t.pool.acquire.map Prod.fst :=
    congrArg (fun r => Except.bind r fun t : Tenancy => t.pool.acquire.map Prod.fst) ht
  rw [hacquire] at hanswer
  obtain rfl := Except.ok.inj hanswer
  obtain ⟨-, huntouched, hlater⟩ := hleft _ rfl
  obtain ⟨u, u', hu, hu', hindistinct⟩ := hlater (PageProvider.forgetsRefusals_granting 1)
    [.drop ⟨.ofZone 0x20000001B000 110592 94208, .applied, true⟩, .acquire]
  refine ⟨t, pool, ht, hacquire, huntouched, u, u', hu, hu', hindistinct, ?_⟩
  have hleases : .ok [false] = (t.after
      [.drop ⟨.ofZone 0x20000001B000 110592 94208, .applied, true⟩, .acquire]).map
        fun u : Tenancy => u.leases.map Lease.fresh :=
    congrArg (fun r => Except.bind r fun t : Tenancy => (t.after
      [.drop ⟨.ofZone 0x20000001B000 110592 94208, .applied, true⟩, .acquire]).map
        fun u : Tenancy => u.leases.map Lease.fresh) ht
  rw [hu] at hleases
  exact (Except.ok.inj hleases).symm

end Tenancy

end PooledFibers
