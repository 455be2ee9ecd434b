import Mathlib.Data.List.Nodup
import Mathlib.Tactic.Common
import PooledFibers.Machine.Simulated
import PooledFibers.Proofs.Stack.Ledger

/-!
# Which free stacks keep their pages

The events of a run tell when a stack was last taken back and what has been asked of the provider
since. The free list keeps the stacks in the order of their last release, and sets those apart whose
pages were to be given back since (`FreeList.Filed`). So what a pool reports of its free stacks can
be read off the events (`Tenancy.exists_after_reported`).
-/

namespace PooledFibers

inductive PoolEvent
  /-- The stack at a base was taken back. -/
  | released (base : Nat)
  | asked (call : PageCall)

namespace PoolEvent

def releases (base : Nat) : PoolEvent → Bool
  | released b => b == base
  | asked _ => false

/-- The events since the stack at `base` was last taken back, of a history with the latest first. -/
def since (base : Nat) (history : List PoolEvent) : List PoolEvent :=
  history.takeWhile fun event => !event.releases base

/-- The pages of a stack were to be given back, whether or not that was granted. -/
def Uncommits (stackSize base : Nat) (events : List PoolEvent) : Prop :=
  ∃ outcome, .asked (.uncommit (base - stackSize) stackSize outcome) ∈ events

variable {base size : Nat} {events history : List PoolEvent}

theorem since_append (h : ∀ event ∈ events, event.releases base = false) :
    since base (events ++ history) = events ++ since base history :=
  List.takeWhile_append_of_pos fun event hevent => by rw [h event hevent]; rfl

theorem since_released (h : ∀ event ∈ events, event.releases base = false) :
    since base (events ++ .released base :: history) = events := by
  rw [since_append h, since, List.takeWhile_cons_of_neg (by simp [releases]), List.append_nil]

theorem since_released_of_ne {other : Nat} (hne : other ≠ base)
    (h : ∀ event ∈ events, event.releases base = false) :
    since base (events ++ .released other :: history)
      = events ++ .released other :: since base history := by
  rw [since_append h, since, List.takeWhile_cons_of_pos (by simpa [releases] using hne)]
  rfl

theorem releases_of_mem_map_asked {made : List PageCall} {event : PoolEvent}
    (h : event ∈ made.map asked) : event.releases base = false := by
  obtain ⟨_, -, rfl⟩ := List.mem_map.1 h
  rfl

theorem uncommits_append {later : List PoolEvent} :
    Uncommits size base (later ++ events) ↔ Uncommits size base later ∨ Uncommits size base events := by
  simp only [Uncommits, List.mem_append, exists_or]

end PoolEvent

namespace FreeList

open PoolEvent

/-- The list agrees with the events so far, the latest first. -/
structure Filed (f : FreeList) (size : Nat) (history : List PoolEvent) : Prop where
  released : ∀ base ∈ f.toList, .released base ∈ history
  /-- The first of two stacks was taken back after the second. -/
  ordered : f.toList.Pairwise fun a b => .released a ∈ since b history
  uncommitted : ∀ base ∈ f.uncommitted, Uncommits size base (since base history)
  resident : ∀ base ∈ f.resident, ¬Uncommits size base (since base history)

variable {f f' : FreeList} {base size cap : Nat} {history : List PoolEvent}

theorem sublist_of_pop? (h : f.pop? = some (base, f')) :
    f'.resident.Sublist f.resident ∧ f'.uncommitted.Sublist f.uncommitted := by
  obtain ⟨hr, hu⟩ | ⟨hr, hr', hu⟩ := pop?_cases h
  · exact ⟨hr ▸ List.sublist_cons_self _ _, hu ▸ .refl _⟩
  · exact ⟨hr' ▸ List.nil_sublist _, hu ▸ List.sublist_cons_self _ _⟩

theorem residency?_eq_resident_iff (hnodup : f.toList.Nodup) :
    f.residency? base = some .resident ↔ base ∈ f.resident := by
  rw [toList_eq] at hnodup
  have hdisjoint := (List.nodup_append.1 hnodup).2.2
  rw [residency?_eq]
  split_ifs with hu hr
  · simpa using fun hr => hdisjoint base hr base hu rfl
  · simpa using hr
  · simpa using hr

theorem residency?_eq_uncommitted_iff :
    f.residency? base = some .uncommitted ↔ base ∈ f.uncommitted := by
  rw [residency?_eq]
  split_ifs with hu <;> simp [hu]

theorem residency?_eq_none_iff : f.residency? base = none ↔ base ∉ f.toList := by
  rw [residency?_eq, mem_toList_iff]
  split_ifs <;> simp [*]

/-- Of the free stacks no more are reported resident than are on the list of those. -/
theorem countP_resident_le (f : FreeList) :
    f.toList.countP (f.residency? · = some .resident) ≤ f.resident.length := by
  have hnone : f.uncommitted.countP (f.residency? · = some .resident) = 0 := by
    refine List.countP_eq_zero.2 fun base hbase => ?_
    simp [residency?_eq_uncommitted_iff.2 hbase]
  rw [toList_eq, List.countP_append, hnone]
  exact List.countP_le_length

theorem countP_uncommitted_eq (hnodup : f.toList.Nodup) :
    f.toList.countP (f.residency? · = some .uncommitted) = f.uncommitted.length := by
  have hall : f.uncommitted.countP (f.residency? · = some .uncommitted) = f.uncommitted.length := by
    refine List.countP_eq_length.2 fun base hbase => ?_
    simpa using residency?_eq_uncommitted_iff.2 hbase
  have hnone : f.resident.countP (f.residency? · = some .uncommitted) = 0 := by
    refine List.countP_eq_zero.2 fun base hbase => ?_
    simp [(residency?_eq_resident_iff hnodup).2 hbase]
  rw [toList_eq, List.countP_append, hall, hnone, Nat.zero_add]

theorem Filed.pop (h : f.Filed size history) (hpop : f.pop? = some (base, f')) :
    f'.Filed size history := by
  have htail : f'.toList.Sublist f.toList := toList_of_pop? hpop ▸ List.sublist_cons_self _ _
  obtain ⟨hresident, huncommitted⟩ := sublist_of_pop? hpop
  exact ⟨fun b hb => h.released b (htail.subset hb), h.ordered.sublist htail,
    fun b hb => h.uncommitted b (huncommitted.subset hb),
    fun b hb => h.resident b (hresident.subset hb)⟩

/-- Requests about other addresses change nothing. -/
theorem Filed.asked (h : f.Filed size history) {made : List PageCall}
    (hmade : ∀ base ∈ f.toList, ¬Uncommits size base (made.map .asked)) :
    f.Filed size (made.map .asked ++ history) := by
  have hsince : ∀ base, since base (made.map .asked ++ history)
      = made.map .asked ++ since base history := fun _ =>
    since_append fun _ => releases_of_mem_map_asked
  refine ⟨?_, ?_, ?_, ?_⟩
  · exact fun b hb => List.mem_append_right _ (h.released b hb)
  · exact h.ordered.imp fun hab => by rw [hsince]; exact List.mem_append_right _ hab
  · intro b hb
    rw [hsince, uncommits_append]
    exact .inr (h.uncommitted b hb)
  · intro b hb
    rw [hsince, uncommits_append]
    rintro (hnew | hold)
    · exact hmade b (mem_toList_iff.2 (.inl hb)) hnew
    · exact h.resident b hb hold

/-- The pages to be given back are those of the stack that loses its place among the resident. -/
theorem uncommits_iff_of_push {made : List PageCall}
    (hmade : (f.push base cap).1 = none ∧ made = []
      ∨ ∃ victim outcome, (f.push base cap).1 = some victim
        ∧ made = [.uncommit (victim - size) size outcome])
    (hsize : ∀ b ∈ base :: f.toList, size ≤ b) {b : Nat} (hb : b ∈ base :: f.toList) :
    Uncommits size b (made.map .asked) ↔ (f.push base cap).1 = some b := by
  obtain ⟨hnone, rfl⟩ | ⟨victim, outcome, hsome, rfl⟩ := hmade
  · simp [Uncommits, hnone]
  · have hvictim := hsize victim
      (toList_push ▸ mem_toList_iff.2 (.inr (mem_uncommitted_push_iff.2 (.inl hsome))))
    have hb := hsize b hb
    simp only [Uncommits, List.map_cons, List.map_nil, List.mem_singleton, PoolEvent.asked.injEq,
      PageCall.uncommit.injEq, true_and, hsome, Option.some.injEq]
    constructor
    · rintro ⟨_, heq, -⟩
      omega
    · rintro rfl
      exact ⟨outcome, rfl, rfl⟩

theorem Filed.push (h : f.Filed size history) {made : List PageCall}
    (hmade : (f.push base cap).1 = none ∧ made = []
      ∨ ∃ victim outcome, (f.push base cap).1 = some victim
        ∧ made = [.uncommit (victim - size) size outcome])
    (hnodup : (base :: f.toList).Nodup) (hsize : ∀ b ∈ base :: f.toList, size ≤ b) :
    (f.push base cap).2.Filed size (made.map .asked ++ .released base :: history) := by
  have hnew : base ∉ f.toList := (List.nodup_cons.1 hnodup).1
  have hself : since base (made.map .asked ++ .released base :: history) = made.map .asked :=
    since_released fun _ => releases_of_mem_map_asked
  have hother : ∀ b ∈ f.toList, since b (made.map .asked ++ .released base :: history)
      = made.map .asked ++ .released base :: since b history := fun b hb =>
    since_released_of_ne (fun heq => hnew (heq ▸ hb)) fun _ => releases_of_mem_map_asked
  have hlist : (f.push base cap).2.toList = base :: f.toList := toList_push
  have hgiven : ∀ b ∈ base :: f.toList,
      Uncommits size b (made.map .asked) ↔ (f.push base cap).1 = some b := fun b hb =>
    uncommits_iff_of_push hmade hsize hb
  have hold : ∀ b ∈ f.toList, Uncommits size b
      (since b (made.map .asked ++ .released base :: history))
        ↔ (f.push base cap).1 = some b ∨ Uncommits size b (since b history) := by
    intro b hb
    rw [hother b hb, uncommits_append, hgiven b (List.mem_cons_of_mem _ hb)]
    simp [Uncommits]
  refine ⟨?_, ?_, ?_, ?_⟩
  · intro b hb
    rw [hlist] at hb
    rcases List.mem_cons.1 hb with rfl | hb
    · exact List.mem_append_right _ List.mem_cons_self
    · exact List.mem_append_right _ (List.mem_cons_of_mem _ (h.released b hb))
  · rw [hlist, List.pairwise_cons]
    refine ⟨fun b hb => ?_, h.ordered.imp_of_mem fun {a b} _ hb hab => ?_⟩ <;> rw [hother b hb]
    · exact List.mem_append_right _ List.mem_cons_self
    · exact List.mem_append_right _ (List.mem_cons_of_mem _ hab)
  · intro b hb
    rcases mem_uncommitted_push_iff.1 hb with hvictim | hb
    · have hmem : b ∈ base :: f.toList := hlist ▸ mem_toList_iff.2 (.inr hb)
      rcases List.mem_cons.1 hmem with rfl | hmem
      · rw [hself]
        exact (hgiven b List.mem_cons_self).2 hvictim
      · exact (hold b hmem).2 (.inl hvictim)
    · exact (hold b (mem_toList_iff.2 (.inr hb))).2 (.inr (h.uncommitted b hb))
  · intro b hb
    have hkept : (f.push base cap).1 ≠ some b := fun hvictim => by
      have hnodup' : (f.push base cap).2.toList.Nodup := hlist ▸ hnodup
      rw [toList_eq] at hnodup'
      exact (List.nodup_append.1 hnodup').2.2 b hb b
        (mem_uncommitted_push_iff.2 (.inl hvictim)) rfl
    rcases mem_resident_of_push hb with rfl | hb
    · rw [hself, hgiven b List.mem_cons_self]
      exact hkept
    · rw [hold b (mem_toList_iff.2 (.inl hb)), not_or]
      exact ⟨hkept, h.resident b hb⟩

end FreeList

namespace Tenancy

open PoolEvent

variable {t t' : Tenancy} {operation : PoolOperation} {operations : List PoolOperation}
  {before : List PoolEvent}

/-- The events of a step, the latest first. -/
def events (t t' : Tenancy) : PoolOperation → List PoolEvent
  | .acquire => (t.requests t').reverse.map .asked
  | .drop lease =>
    (t.requests t').reverse.map .asked ++ if lease ∈ t.leases then [.released lease.base] else []

/-- The events of a run, the latest first. -/
def history (t : Tenancy) : List PoolOperation → List PoolEvent
  | [] => []
  | operation :: rest =>
    match t.perform operation with
    | .ok next => next.history rest ++ t.events next operation
    | .error _ => []

/-- What a pool reports of its free stacks is what the events say, the latest first. -/
structure Reported (t : Tenancy) (history : List PoolEvent) : Prop where
  /-- Either the pages of a free stack were to be given back as it was last taken back or since, and
  it is reported uncommitted, or they were not, and it is reported resident. -/
  free : ∀ base ∈ t.pool.free.toList, .released base ∈ history
    ∧ (t.pool.residency? base = some .uncommitted
        ∧ Uncommits t.pool.stackSize base (since base history)
      ∨ t.pool.residency? base = some .resident
        ∧ ¬Uncommits t.pool.stackSize base (since base history))
  notFree : ∀ base, t.pool.residency? base = none ↔ base ∉ t.pool.free.toList
  /-- Resident stacks were taken back after uncommitted ones. -/
  earlier : ∀ old recent, t.pool.residency? old = some .uncommitted →
    t.pool.residency? recent = some .resident → .released recent ∈ since old history
  uncommitted : t.pool.totals.uncommitted
    = t.pool.free.toList.countP (t.pool.residency? · = some .uncommitted)
  /-- The free stack that was taken back last is leased next. -/
  latest : t.pool.free.toList ≠ [] → ∃ lease t', t.perform .acquire = .ok t'
    ∧ t'.leases = lease :: t.leases ∧ lease.fresh = false ∧ lease.base ∈ t.pool.free.toList
    ∧ ∀ other ∈ t.pool.free.toList, other ≠ lease.base → .released lease.base ∈ since other history

/-- At most the pages of one free stack are to be given back. -/
def GivesBack (t t' : Tenancy) : Prop :=
  t.requests t' = [] ∨ ∃ base ∈ t'.pool.free.toList, ∃ outcome,
    t.requests t' = [.uncommit (base - t.pool.stackSize) t.pool.stackSize outcome]

section Steps

theorem givesBack_of_drop {lease : Lease} (hlease : lease ∈ t.leases)
    (hr : t.perform (.drop lease) = .ok t') : t.GivesBack t' := by
  obtain ⟨pool, hrelease, rfl⟩ := perform_drop hlease hr
  obtain ⟨made, hfades, hmade⟩ := Pool.exists_calls_of_release hrelease
  have hrequests : t.requests { pool, leases := t.leases.erase lease } = made :=
    Machine.callsFrom_eq hfades.calls
  rw [GivesBack, hrequests]
  obtain ⟨-, -, _, -, rfl⟩ := Pool.release_cases hrelease
  refine hmade.imp And.right ?_
  rintro ⟨victim, outcome, hvictim, rfl⟩
  refine ⟨victim, FreeList.mem_toList_iff.2 (.inr ?_), outcome, rfl⟩
  exact FreeList.mem_uncommitted_push_iff.2 (.inl hvictim)

theorem bounded_of_perform (h : t.pool.free.resident.length ≤ t.pool.residentCap)
    (hr : t.perform operation = .ok t') :
    t'.pool.free.resident.length ≤ t'.pool.residentCap := by
  rw [(alike_of_perform hr).residentCap]
  cases operation with
  | acquire =>
    obtain ⟨⟨outcome, pool⟩, hacquire, hr⟩ := Outcome.bind_eq_ok_iff.1 hr
    obtain ⟨_, _, _, hpop, rfl, rfl⟩ | ⟨_, _, -, -, rfl, rfl⟩ | ⟨_, _, _, -, -, rfl, rfl⟩ :=
      Pool.acquire_cases hacquire <;> obtain rfl := Except.ok.inj hr
    · exact (FreeList.sublist_of_pop? hpop).1.length_le.trans h
    · exact h
    · exact h
  | drop lease =>
    by_cases hlease : lease ∈ t.leases
    · obtain ⟨pool, hrelease, rfl⟩ := perform_drop hlease hr
      obtain ⟨-, -, _, -, rfl⟩ := Pool.release_cases hrelease
      exact FreeList.length_resident_push_le h
    · exact perform_drop_of_not_mem hlease hr ▸ h

theorem filed_of_perform (h : t.Books) (hr : t.perform operation = .ok t')
    (hsound : PageCall.Sound t'.pool.machine.calls)
    (hfiled : t.pool.free.Filed t.pool.stackSize before) :
    t'.pool.free.Filed t'.pool.stackSize (t.events t' operation ++ before) := by
  have h' := h.of_perform hr
  have hseparate := h'.separate hsound
  have hsize : t'.pool.stackSize = t.pool.stackSize :=
    congrArg Geometry.stackSize (alike_of_perform hr).geometry
  cases operation with
  | acquire =>
    obtain ⟨⟨outcome, pool⟩, hacquire, hr⟩ := Outcome.bind_eq_ok_iff.1 hr
    have hnone : t.pool.free.pop? = none → ∀ made : List PageCall,
        t.pool.free.Filed t.pool.stackSize (made.map .asked ++ before) := fun hpop made =>
      hfiled.asked (by simp [FreeList.eq_empty_of_pop? hpop, FreeList.toList])
    obtain ⟨_, free, _, hpop, rfl, rfl⟩ | ⟨_, _, hpop, -, rfl, rfl⟩ | ⟨_, _, _, hpop, -, rfl, rfl⟩ :=
      Pool.acquire_cases hacquire <;> have ht' := Except.ok.inj hr
    · have hfree : t'.pool.free = free := ht' ▸ rfl
      have hnothing : t.requests t' = [] := requests_of_calls_eq (ht' ▸ rfl)
      rw [hsize, hfree, events, hnothing]
      exact hfiled.pop hpop
    · exact ht' ▸ hnone hpop _
    · exact ht' ▸ hnone hpop _
  | drop lease =>
    by_cases hlease : lease ∈ t.leases
    · obtain ⟨pool, hrelease, rfl⟩ := perform_drop hlease hr
      obtain ⟨made, hfades, hmade⟩ := Pool.exists_calls_of_release hrelease
      have hrequests : t.requests { pool, leases := t.leases.erase lease } = made :=
        Machine.callsFrom_eq hfades.calls
      have hfree := Pool.free_of_release hrelease
      have hfull : ∀ base ∈ pool.free.toList, t.pool.stackSize ≤ base := fun base hbase => by
        have hmem := h'.accounts.mem_carvedBases.2 (.inr hbase)
        exact hsize ▸ (h'.accounts.existsUnique_slab hsound hmem).1.1
      have hreverse : made.reverse = made := by
        obtain ⟨-, rfl⟩ | ⟨_, _, -, rfl⟩ := hmade <;> rfl
      have hpush := hfiled.push hmade (hfree ▸ hseparate.free_nodup) (hfree ▸ hfull)
      obtain ⟨-, -, _, -, rfl⟩ := Pool.release_cases hrelease
      simp only [events, hrequests, hreverse, if_pos hlease, List.append_assoc]
      exact hpush
    · obtain rfl := perform_drop_of_not_mem hlease hr
      simpa [events, requests_of_calls_eq, hlease] using hfiled

end Steps

section Runs

theorem bounded_of_after (h : t.pool.free.resident.length ≤ t.pool.residentCap)
    (hr : t.after operations = .ok t') :
    t'.pool.free.resident.length ≤ t.pool.residentCap := by
  induction operations generalizing t with
  | nil => exact Except.ok.inj hr ▸ h
  | cons operation rest ih =>
    obtain ⟨next, hnext, hrest⟩ := after_cons_eq_ok_iff.1 hr
    rw [← (alike_of_perform hnext).residentCap]
    exact ih (bounded_of_perform h hnext) hrest

theorem filed_of_after (h : t.Books) (hr : t.after operations = .ok t')
    (hsound : PageCall.Sound t'.pool.machine.calls)
    (hfiled : t.pool.free.Filed t.pool.stackSize before) :
    t'.pool.free.Filed t'.pool.stackSize (t.history operations ++ before) := by
  induction operations generalizing t before with
  | nil => exact Except.ok.inj hr ▸ hfiled
  | cons operation rest ih =>
    obtain ⟨next, hnext, hrest⟩ := after_cons_eq_ok_iff.1 hr
    have hbooks := h.of_perform hnext
    have hsoundNext : PageCall.Sound next.pool.machine.calls :=
      ((hbooks.calls_of_after hrest).1 ▸ hsound).of_append
    have hstep := filed_of_perform h hnext hsoundNext hfiled
    simpa only [history, hnext, List.append_assoc] using ih hbooks hrest hstep

theorem Books.reported (h : t.Books) (hsound : PageCall.Sound t.pool.machine.calls)
    (hfiled : t.pool.free.Filed t.pool.stackSize before) : t.Reported before := by
  have hnodup := (h.separate hsound).free_nodup
  constructor
  case free =>
    intro base hbase
    refine ⟨hfiled.released base hbase, ?_⟩
    rcases FreeList.mem_toList_iff.1 hbase with hb | hb
    · exact .inr ⟨(FreeList.residency?_eq_resident_iff hnodup).2 hb, hfiled.resident base hb⟩
    · exact .inl ⟨FreeList.residency?_eq_uncommitted_iff.2 hb, hfiled.uncommitted base hb⟩
  case notFree => exact fun base => FreeList.residency?_eq_none_iff
  case earlier =>
    intro old recent hold hrecent
    have hordered := hfiled.ordered
    rw [FreeList.toList_eq] at hordered
    exact (List.pairwise_append.1 hordered).2.2 _
      ((FreeList.residency?_eq_resident_iff hnodup).1 hrecent) _
      (FreeList.residency?_eq_uncommitted_iff.1 hold)
  case uncommitted =>
    exact (FreeList.length_uncommitted _).symm.trans (FreeList.countP_uncommitted_eq hnodup).symm
  case latest =>
    intro hfree
    obtain ⟨t', ht', -⟩ := h.exists_perform .acquire
    obtain ⟨⟨outcome, pool⟩, hacquire, hr⟩ := Outcome.bind_eq_ok_iff.1 ht'
    have hnone : t.pool.free.pop? ≠ none := fun hpop =>
      hfree (by rw [FreeList.eq_empty_of_pop? hpop]; rfl)
    obtain ⟨base, free, guard, hpop, rfl, rfl⟩ | ⟨_, _, hpop, -⟩ | ⟨_, _, _, hpop, -⟩ :=
      Pool.acquire_cases hacquire
    · obtain rfl := Except.ok.inj hr
      have hlist := FreeList.toList_of_pop? hpop
      refine ⟨t.pool.leaseOf base guard false, _, ht', rfl, rfl, ?_, fun other hother hne => ?_⟩
      · rw [hlist]
        exact List.mem_cons_self
      · have hordered := hfiled.ordered
        rw [hlist, List.pairwise_cons] at hordered
        rw [hlist] at hother
        exact hordered.1 other ((List.mem_cons.1 hother).resolve_left hne)
    · exact absurd hpop hnone
    · exact absurd hpop hnone

/-- Whatever is leased and dropped and whatever the provider refuses, no more free stacks than the
settings allow are reported resident and taking a stack back asks for the pages of one free stack
at most; and if the reservations were sound, the reports are right. -/
theorem exists_after_reported {s : Settings} {provider : PageProvider} {page : Nat}
    (hs : s.validate page = .ok ()) (hp : 0 < provider.pageSize)
    (hg : 0 < provider.granularity) (operations : List PoolOperation) :
    ∃ t, (ofSettings s provider).after operations = .ok t
      ∧ t.pool.free.toList.countP (t.pool.residency? · = some .resident) ≤ s.physicalCacheMax
      ∧ (∀ lease ∈ t.leases, ∃ t', t.perform (.drop lease) = .ok t' ∧ t.GivesBack t')
      ∧ (PageCall.Sound t.pool.machine.calls →
        t.Reported ((ofSettings s provider).history operations)) := by
  have hstart := books_ofSettings hs hp hg
  obtain ⟨t, ht, hbooks⟩ := hstart.exists_after operations
  refine ⟨t, ht, ?_, fun lease hlease => ?_, fun hsound => ?_⟩
  · exact t.pool.free.countP_resident_le.trans (bounded_of_after (Nat.zero_le _) ht)
  · obtain ⟨t', ht', -⟩ := hbooks.exists_perform (.drop lease)
    exact ⟨t', ht', givesBack_of_drop hlease ht'⟩
  · have hempty : (ofSettings s provider).pool.free.Filed (ofSettings s provider).pool.stackSize [] := by
      constructor <;> simp [ofSettings, Pool.ofSettings, FreeList.toList, FreeList.resident,
        FreeList.uncommitted]
    simpa using hbooks.reported hsound (filed_of_after hstart ht hsound hempty)

/-- One free stack may keep its pages, and the provider refuses to take pages back. Two of three
stacks are dropped; the second is leased and dropped once more. -/
theorem reported_of_refused_uncommit :
    ∃ t, (ofSettings { stackSize := 16384, physicalCacheMax := 1, verifyOnYield := true }
          ({ faults := { uncommit := some 5 } } : Simulation).provider).after
          [.acquire, .acquire, .acquire,
            .drop ⟨.ofZone 0x2000006C0000 110592 94208, .applied, true⟩,
            .drop ⟨.ofZone 0x2000006A5000 110592 94208, .applied, true⟩, .acquire,
            .drop ⟨.ofZone 0x2000006A5000 110592 94208, .applied, false⟩] = .ok t
      ∧ PageCall.Sound t.pool.machine.calls
      ∧ t.leases = [⟨.ofZone 0x20000068A000 110592 94208, .applied, true⟩]
      ∧ t.pool.free.toList = [0x2000006A5000, 0x2000006C0000]
      ∧ t.pool.free.toList.countP (t.pool.residency? · = some .resident) ≤ 1
      ∧ (∀ lease ∈ t.leases, ∃ t', t.perform (.drop lease) = .ok t' ∧ t.GivesBack t')
      ∧ t.Reported ((ofSettings { stackSize := 16384, physicalCacheMax := 1, verifyOnYield := true }
          ({ faults := { uncommit := some 5 } } : Simulation).provider).history
          [.acquire, .acquire, .acquire,
            .drop ⟨.ofZone 0x2000006C0000 110592 94208, .applied, true⟩,
            .drop ⟨.ofZone 0x2000006A5000 110592 94208, .applied, true⟩, .acquire,
            .drop ⟨.ofZone 0x2000006A5000 110592 94208, .applied, false⟩]) := by
  have hs : ({ stackSize := 16384, physicalCacheMax := 1, verifyOnYield := true }
      : Settings).validate 4096 = .ok () := rfl
  have hp : 0 < ({ faults := { uncommit := some 5 } } : Simulation).provider.pageSize := by decide
  obtain ⟨t, ht, hbounded, hdrops, hreported⟩ := exists_after_reported hs hp (by decide)
    [.acquire, .acquire, .acquire,
      .drop ⟨.ofZone 0x2000006C0000 110592 94208, .applied, true⟩,
      .drop ⟨.ofZone 0x2000006A5000 110592 94208, .applied, true⟩, .acquire,
      .drop ⟨.ofZone 0x2000006A5000 110592 94208, .applied, false⟩]
  have hcalls : .ok [.uncommit 0x2000006A5000 110592 (.error (.number 5)),
      .guard 0x20000066F000 12288 (.ok ()), .guard 0x20000068A000 12288 (.ok ()),
      .guard 0x2000006A5000 12288 (.ok ()), .reserve 7077888 (.ok 0x200000000000)]
      = Except.ok t.pool.machine.calls :=
    congrArg (Except.map fun t : Tenancy => t.pool.machine.calls) ht
  have hsound : PageCall.Sound t.pool.machine.calls := by
    rw [← Except.ok.inj hcalls]
    refine ⟨⟨by decide, ?_⟩, trivial⟩
    rintro r ⟨⟩
  have hleases : .ok [⟨.ofZone 0x20000068A000 110592 94208, .applied, true⟩] = Except.ok t.leases :=
    congrArg (Except.map fun t : Tenancy => t.leases) ht
  have hfree : .ok [0x2000006A5000, 0x2000006C0000] = Except.ok t.pool.free.toList :=
    congrArg (Except.map fun t : Tenancy => t.pool.free.toList) ht
  exact ⟨t, ht, hsound, (Except.ok.inj hleases).symm, (Except.ok.inj hfree).symm, hbounded, hdrops,
    hreported hsound⟩

end Runs

end Tenancy

end PooledFibers
