import Mathlib.Data.List.Basic
import Mathlib.Tactic.Common
import PooledFibers.Proofs.FiberSystem.Partition
import PooledFibers.Proofs.FiberSystem.Population
import PooledFibers.Proofs.FiberSystem.Waiting

/-!
# What the counters of a thread tell

The counters of a thread are changed in other places than the registry and the idle cache that they
describe. `Tells` says that they are right for a number of live fibers; each operation of the thread
takes a system that tells one number to one that tells the next. The counters start over when they
run out, which they do not before the thread has performed `2 ^ 64` operations.
-/

namespace PooledFibers

namespace Tally

/-- The counters are those, modulo `2 ^ 64`, of so many operations that made, woke or ended a fiber,
and `n` of the fibers have not ended. -/
def Counted (tally : Tally) (n work : Nat) : Prop :=
  ∃ created reused terminated : Nat, tally.created = .ofNat created ∧ tally.reused = .ofNat reused
    ∧ tally.terminated = .ofNat terminated ∧ created + reused = terminated + n
    ∧ created + reused + terminated ≤ work

variable {tally : Tally} {n work work' : Nat}

theorem counted_empty : Counted {} 0 0 := ⟨0, 0, 0, rfl, rfl, rfl, rfl, Nat.le_refl _⟩

theorem Counted.mono (h : tally.Counted n work) (hwork : work ≤ work') : tally.Counted n work' := by
  obtain ⟨created, reused, terminated, hc, hr, ht, hlive, hle⟩ := h
  exact ⟨created, reused, terminated, hc, hr, ht, hlive, Nat.le_trans hle hwork⟩

theorem Counted.create (h : tally.Counted n work) :
    { tally with created := tally.created + 1 }.Counted (n + 1) (work + 1) := by
  obtain ⟨created, reused, terminated, hc, hr, ht, hlive, hle⟩ := h
  refine ⟨created + 1, reused, terminated, ?_, hr, ht, by omega, by omega⟩
  rw [hc, UInt64.ofNat_add]
  rfl

theorem Counted.reuse (h : tally.Counted n work) :
    { tally with reused := tally.reused + 1 }.Counted (n + 1) (work + 1) := by
  obtain ⟨created, reused, terminated, hc, hr, ht, hlive, hle⟩ := h
  refine ⟨created, reused + 1, terminated, hc, ?_, ht, by omega, by omega⟩
  rw [hr, UInt64.ofNat_add]
  rfl

theorem Counted.terminate (h : tally.Counted (n + 1) work) :
    { tally with terminated := tally.terminated + 1 }.Counted n (work + 1) := by
  obtain ⟨created, reused, terminated, hc, hr, ht, hlive, hle⟩ := h
  refine ⟨created, reused, terminated + 1, hc, hr, ?_, by omega, by omega⟩
  rw [ht, UInt64.ofNat_add]
  rfl

/-- In the arithmetic of words the counters balance whatever has been counted. -/
theorem Counted.balance (h : tally.Counted n work) :
    tally.created + tally.reused = tally.terminated + .ofNat n := by
  obtain ⟨created, reused, terminated, hc, hr, ht, hlive, -⟩ := h
  rw [hc, hr, ht, ← UInt64.ofNat_add, ← UInt64.ofNat_add, hlive]

/-- No counter is ahead of the work, and they balance if the work is a word. -/
theorem Counted.toNat_le (h : tally.Counted n work) : tally.created.toNat ≤ work
    ∧ tally.reused.toNat ≤ work ∧ tally.terminated.toNat ≤ work := by
  obtain ⟨created, reused, terminated, hc, hr, ht, -, hle⟩ := h
  have hmod : ∀ m : Nat, (UInt64.ofNat m).toNat ≤ m := fun m => by
    rw [UInt64.toNat_ofNat']
    exact Nat.mod_le _ _
  rw [hc, hr, ht]
  have := hmod created
  have := hmod reused
  have := hmod terminated
  omega

theorem Counted.balance_toNat (h : tally.Counted n work) (hwork : work < Word.bound) :
    tally.created.toNat + tally.reused.toNat = tally.terminated.toNat + n := by
  obtain ⟨created, reused, terminated, hc, hr, ht, hlive, hle⟩ := h
  rw [hc, hr, ht, toNat_ofNat (by omega), toNat_ofNat (by omega), toNat_ofNat (by omega), hlive]

end Tally

namespace FiberSystem

open Outcome

/-- The tally of a thread, if it is attached and has a slot. -/
def tally? (s : FiberSystem) (t : ThreadToken) : Option Tally :=
  (s.slotOf t).bind s.statistics.tally?

/-- Of the fibers that the thread's tally counts, `n` have not ended. -/
def Counts (s : FiberSystem) (t : ThreadToken) (n work : Nat) : Prop :=
  ∀ tally, s.tally? t = some tally → tally.Counted n work

/-- The thread's tally also knows the length of the idle cache. -/
structure Tells (s : FiberSystem) (t : ThreadToken) (n work : Nat) : Prop where
  counts : s.Counts t n work
  idle : ∀ c tally, s.carrier? t = some c → s.tally? t = some tally →
    tally.idle = .ofNat c.idle.length

variable {s s' s₁ : FiberSystem} {t u : ThreadToken} {c : Carrier} {id : FiberId}
  {ids : List FiberId} {n m work work' : Nat}

section Changes

theorem tally?_congr (hcarrier : s'.carrier? t = s.carrier? t)
    (hstatistics : s'.statistics = s.statistics) : s'.tally? t = s.tally? t := by
  rw [tally?, tally?, slotOf_congr hcarrier, hstatistics]

theorem tally?_modifyCarrier {g : Carrier → Carrier}
    (hg : ∀ c, (g c).token = c.token ∧ (g c).slot = c.slot) :
    (s.modifyCarrier t g).tally? t = s.tally? t := by
  have hslot : (s.modifyCarrier t g).slotOf t = s.slotOf t := by
    rw [slotOf, carrier?_modifyCarrier fun c => (hg c).1, if_pos rfl, slotOf]
    cases s.carrier? t <;> simp [hg]
  rw [tally?, hslot]
  rfl

theorem tally?_record (s : FiberSystem) (t : ThreadToken) (g : Tally → Tally) :
    (s.record t fun statistics slot => statistics.record slot g).tally? t
      = (s.tally? t).map g := by
  rw [tally?, slotOf_record, tally?, record_eq]
  cases s.slotOf t with
  | none => rfl
  | some k =>
    simp only [Option.bind_some, Statistics.tally?, Statistics.slot?_record_self, Option.map_map]
    rfl

theorem Tells.mono (h : s.Tells t n work) (hwork : work ≤ work') : s.Tells t n work' :=
  ⟨fun tally ht => (h.counts tally ht).mono hwork, h.idle⟩

theorem Tells.of_tally? (h : s.Tells t n work) (hcarrier : s'.carrier? t = s.carrier? t)
    (htally : s'.tally? t = s.tally? t) : s'.Tells t n work := by
  refine ⟨fun tally ht => h.counts tally (htally ▸ ht), fun c tally hc ht => ?_⟩
  exact h.idle c tally (hcarrier ▸ hc) (htally ▸ ht)

theorem Tells.congr (h : s.Tells t n work) (hcarrier : s'.carrier? t = s.carrier? t)
    (hstatistics : s'.statistics = s.statistics) : s'.Tells t n work :=
  h.of_tally? hcarrier (tally?_congr hcarrier hstatistics)

theorem Counts.modifyCarrier (h : s.Counts t n work) {g : Carrier → Carrier}
    (hg : ∀ c, (g c).token = c.token ∧ (g c).slot = c.slot) :
    (s.modifyCarrier t g).Counts t n work :=
  fun tally ht => h tally ((tally?_modifyCarrier hg).symm.trans ht)

theorem Tells.modifyCarrier (h : s.Tells t n work) {g : Carrier → Carrier}
    (hg : ∀ c, (g c).token = c.token ∧ (g c).slot = c.slot) (hidle : ∀ c, (g c).idle = c.idle) :
    (s.modifyCarrier t g).Tells t n work := by
  refine ⟨h.counts.modifyCarrier hg, fun c' tally hc' ht => ?_⟩
  rw [carrier?_modifyCarrier fun c => (hg c).1, if_pos rfl, Option.map_eq_some_iff] at hc'
  obtain ⟨c, hc, rfl⟩ := hc'
  rw [tally?_modifyCarrier hg] at ht
  rw [hidle, h.idle c tally hc ht]

/-- The counters move from one number of fibers to another. -/
theorem Tells.record (h : s.Tells t n work) (g : Tally → Tally) (hidle : ∀ x, (g x).idle = x.idle)
    (hg : ∀ x : Tally, x.Counted n work → (g x).Counted m work') :
    (s.record t fun statistics slot => statistics.record slot g).Tells t m work' := by
  constructor
  case counts =>
    intro tally ht
    rw [tally?_record, Option.map_eq_some_iff] at ht
    obtain ⟨x, hx, rfl⟩ := ht
    exact hg x (h.counts x hx)
  case idle =>
    intro c tally hc ht
    rw [(same_record s t _).carrier?] at hc
    rw [tally?_record, Option.map_eq_some_iff] at ht
    obtain ⟨x, hx, rfl⟩ := ht
    rw [hidle, h.idle c x hc hx]

/-- Whatever the tally knew of the idle cache, it is told anew. -/
theorem Counts.recordIdle (h : s.Counts t n work) : (s.recordIdle t).Tells t n work := by
  constructor
  case counts =>
    intro tally ht
    have ht := (tally?_record s t fun x =>
      { x with idle := .ofNat (s.carrier t).idle.length }).symm.trans ht
    obtain ⟨x, hx, rfl⟩ := Option.map_eq_some_iff.1 ht
    exact h x hx
  case idle =>
    intro c tally hc ht
    have ht := (tally?_record s t fun x =>
      { x with idle := .ofNat (s.carrier t).idle.length }).symm.trans ht
    obtain ⟨x, hx, rfl⟩ := Option.map_eq_some_iff.1 ht
    have hc := ((same_record s t _).carrier? t).symm.trans hc
    rw [carrier_eq hc]

end Changes

section Ending

theorem statistics_of_reap (hr : s.reap id = .ok s') : s'.statistics = s.statistics := by
  obtain rfl | ⟨-, _, _, -, -, -, rfl⟩ := reap_cases hr <;> rfl

theorem statistics_of_reapAll (hr : s.reapAll ids = .ok s') : s'.statistics = s.statistics := by
  induction ids generalizing s with
  | nil => exact Except.ok.inj hr ▸ rfl
  | cons id rest ih =>
    obtain ⟨s₁, hreap, hr⟩ := bind_eq_ok_iff.1 hr
    exact (ih hr).trans (statistics_of_reap hreap)

theorem Tells.parkOrRelease (h : s.Tells t n work) (hr : s.parkOrRelease t id = .ok s') :
    s'.Tells t n work := by
  simp only [FiberSystem.parkOrRelease] at hr
  split_ifs at hr
  · obtain rfl := Except.ok.inj hr
    have hparked := h.counts.modifyCarrier (g := fun c => { c with idle := id :: c.idle })
      fun _ => ⟨rfl, rfl⟩
    exact hparked.recordIdle
  · exact h.congr (carrier?_of_reap hr t) (statistics_of_reap hr)

theorem Tells.reclaim (h : s.Tells t n work) (hr : s.reclaim t = .ok s') : s'.Tells t n work := by
  simp only [FiberSystem.reclaim] at hr
  split at hr
  · exact Except.ok.inj hr ▸ h
  · have hdrained := h.modifyCarrier (g := fun c => { c with pending := none })
      (fun _ => ⟨rfl, rfl⟩) fun _ => rfl
    exact hdrained.parkOrRelease hr

theorem Tells.withdraw (h : s.Tells t n work) (hr : s.withdraw id = .ok s') : s'.Tells t n work := by
  obtain ⟨registry, -, rfl⟩ := unregister_eq_ok_iff.1 hr
  exact h.congr rfl rfl

theorem Tells.retire (h : s.Tells t (n + 1) work) (hr : s.retire t id = .ok s') :
    s'.Tells t n (work + 1) := by
  simp only [FiberSystem.retire, check_eq_ok_iff] at hr
  obtain ⟨-, -, -, hr⟩ := hr
  obtain ⟨s₁, hwithdraw, hr⟩ := bind_eq_ok_iff.1 hr
  obtain rfl := Except.ok.inj hr
  exact (h.withdraw hwithdraw).record (fun x => { x with terminated := x.terminated + 1 })
    (fun _ => rfl) fun _ hx => hx.terminate

theorem Tells.terminate (h : s.Tells t (n + 1) work) (hr : s.terminate t id = .ok s') :
    s'.Tells t n (work + 1) := by
  obtain ⟨s₁, hretire, hr⟩ := bind_eq_ok_iff.1 hr
  have hunheld : (s₁.unhold id).Tells t n (work + 1) := (h.retire hretire).congr rfl rfl
  exact hunheld.parkOrRelease hr

theorem Tells.retireSource {source : FiberId} (h : s.Tells t (n + 1) work)
    (hr : s.retireSource t source = .ok s') : s'.Tells t n (work + 1) := by
  obtain ⟨s₁, hretire, hr⟩ := bind_eq_ok_iff.1 hr
  have hwaits := (h.retire hretire).modifyCarrier (g := fun c => { c with pending := some source })
    (fun _ => ⟨rfl, rfl⟩) fun _ => rfl
  dsimp only at hr
  split at hr
  · exact Except.ok.inj hr ▸ hwaits
  · exact hwaits.parkOrRelease hr

end Ending

section Creating

theorem Tells.wakeIdle {rest : List FiberId} (h : s.Tells t n work)
    (hr : s.wakeIdle t id rest = .ok s') : s'.Tells t (n + 1) (work + 1) := by
  obtain ⟨s₁, hrenew, hr⟩ := bind_eq_ok_iff.1 hr
  obtain rfl := Except.ok.inj hr
  have hheld : (s.hold id).Counts t n work := (h.congr rfl rfl).counts
  have hunparked := hheld.modifyCarrier (g := fun c => { c with idle := rest }) fun _ => ⟨rfl, rfl⟩
  have hrenewed : s₁.Counts t n work := by
    obtain ⟨machine, -, rfl⟩ := exists_of_renew hrenew
    exact hunparked
  exact hrenewed.recordIdle.record (fun x => { x with reused := x.reused + 1 }) (fun _ => rfl)
    fun _ hx => hx.reuse

theorem Tells.makeFiber {made : Except Failure FiberId} (h : s.Tells t n work)
    (hr : s.makeFiber t = .ok (made, s')) :
    (∀ id, made = .ok id → s'.Tells t (n + 1) (work + 1))
      ∧ ∀ failure, made = .error failure → s'.Tells t n work := by
  obtain ⟨⟨_ | lease, pool⟩, -, hr⟩ := bind_eq_ok_iff.1 hr <;>
    simp only [pure_eq_ok, Except.ok.injEq, Prod.mk.injEq] at hr <;> obtain ⟨rfl, rfl⟩ := hr
  · exact ⟨by simp, fun _ _ => h.congr rfl rfl⟩
  · refine ⟨fun _ _ => ?_, by simp⟩
    refine Tells.record (h.congr ?_ ?_) (fun x => { x with created := x.created + 1 })
      (fun _ => rfl) fun _ hx => hx.create
    · rfl
    · rfl

theorem Tells.supply {made : Except Failure FiberId} (h : s.Tells t n work)
    (hr : s.supply t = .ok (made, s')) :
    (∀ id, made = .ok id → s'.Tells t (n + 1) (work + 1))
      ∧ ∀ failure, made = .error failure → s'.Tells t n work := by
  simp only [FiberSystem.supply] at hr
  split at hr
  · obtain ⟨s₁, hwake, hr⟩ := bind_eq_ok_iff.1 hr
    simp only [pure_eq_ok, Except.ok.injEq, Prod.mk.injEq] at hr
    obtain ⟨rfl, rfl⟩ := hr
    exact ⟨fun _ _ => h.wakeIdle hwake, by simp⟩
  · exact h.makeFiber hr

theorem Tells.enroll {continuation : Option ContinuationId} (h : s.Tells t n work)
    (hr : s.enroll id continuation = .ok s') : s'.Tells t n work := by
  obtain ⟨registry, -, rfl⟩ := register_eq_ok_iff.1 hr
  exact h.congr rfl rfl

/-- A fiber that is handed out is counted; a request that fails is not. -/
theorem Tells.create {request : StackRequest} {continuation : Option ContinuationId}
    {outcome : Except Failure FiberId} (h : s.Tells t ids.length work)
    (hr : s.create t request continuation = .ok (outcome, s')) :
    s'.Tells t ((Event.ofRequest? t request outcome).elim ids (liveAfter t ids)).length
      (work + 1) := by
  have h' := h.mono (Nat.le_succ work)
  cases request with
  | kernel =>
    simp only [FiberSystem.create] at hr
    split_ifs at hr
    simp only [pure_eq_ok, Except.ok.injEq, Prod.mk.injEq] at hr
    exact hr.2 ▸ h'.congr rfl rfl
  | bytes size =>
    simp only [FiberSystem.create, pure_eq_ok, Except.ok.injEq, Prod.mk.injEq] at hr
    exact hr.2 ▸ h'
  | pooled =>
    obtain ⟨s₁, hreclaim, hr⟩ := bind_eq_ok_iff.1 hr
    obtain ⟨⟨made, s₂⟩, hsupply, hr⟩ := bind_eq_ok_iff.1 hr
    obtain ⟨hmade, hfailed⟩ := (h.reclaim hreclaim).supply hsupply
    cases made with
    | error failure =>
      simp only [pure_eq_ok, Except.ok.injEq, Prod.mk.injEq] at hr
      obtain ⟨rfl, rfl⟩ := hr
      exact (hfailed failure rfl).mono (Nat.le_succ work)
    | ok id =>
      obtain ⟨s₃, henroll, hr⟩ := bind_eq_ok_iff.1 hr
      simp only [pure_eq_ok, Except.ok.injEq, Prod.mk.injEq] at hr
      obtain ⟨rfl, rfl⟩ := hr
      have hlength : (liveAfter t ids (.created t id)).length = ids.length + 1 := by
        simp [liveAfter]
      exact hlength ▸ (hmade id rfl).enroll henroll

end Creating

section Switching

variable {target : FiberId} {kind : SwitchKind}

/-- Up to the point where a terminating switch ends the source, no counter is touched. -/
theorem Tells.exchange {source : FiberId} {calls : List SwitchCall} (h : s.Tells t n work)
    (hr : s.verifySwitch t source target kind = .ok s₁) :
    { s₁.exchange t source target with calls }.Tells t n work := by
  obtain ⟨-, hcarriers, hstatistics⟩ := settings_of_verifySwitch hr
  have hverified : s₁.Tells t n work := h.congr (by rw [carrier?, hcarriers, carrier?]) hstatistics
  have hsuspended : ((s₁.modifyFiber source fun f => { f with state := .onStack }).modifyFiber
      target fun f => { f with state := .current, entered := true }).Tells t n work :=
    hverified.congr rfl rfl
  have hexchanged := hsuspended.modifyCarrier (g := fun c => { c with current := target })
    (fun _ => ⟨rfl, rfl⟩) fun _ => rfl
  exact hexchanged.congr rfl rfl

theorem Tells.enter_returning (h : s.Tells t n work) (hr : s.enter t target .returning = .ok s') :
    s'.Tells t n work := by
  obtain ⟨⟨⟩, -, hr⟩ := bind_eq_ok_iff.1 hr
  obtain ⟨s₁, hverify, hr⟩ := bind_eq_ok_iff.1 hr
  exact Except.ok.inj hr ▸ h.exchange hverify

theorem Tells.enter_terminating (h : s.Tells t (n + 1) work)
    (hr : s.enter t target .terminating = .ok s') : s'.Tells t n (work + 1) := by
  obtain ⟨⟨⟩, -, hr⟩ := bind_eq_ok_iff.1 hr
  obtain ⟨s₁, hverify, hr⟩ := bind_eq_ok_iff.1 hr
  exact (h.exchange hverify).retireSource hr

theorem live_of_terminate (hs : s.Sound) (hr : s.terminate t id = .ok s') : s.Live t id := by
  obtain ⟨howns, -, s₁, hwithdraw, -⟩ := terminate_cases hs hr
  have hended := deregistered_of_withdraw hs.registry hwithdraw
  exact ⟨hended.was_registered id (List.mem_singleton_self id), howns⟩

theorem live_of_enter (hs : s.Sound) (hc : s.carrier? t = some c)
    (hr : s.enter t target .terminating = .ok s') : s.Live t c.current := by
  obtain ⟨-, ⟨f, hf, -⟩, s₁, hs₁, hx, hkind⟩ := enter_cases hs hc hr
  obtain ⟨hkind, -⟩ | ⟨-, howns, -, s₂, hwithdraw, -⟩ := hkind
  · exact SwitchKind.noConfusion hkind
  have hended := deregistered_of_withdraw hs₁.registry hwithdraw
  refine (hx.live_iff hf).1 ⟨?_, howns⟩
  exact hended.was_registered c.current (List.mem_singleton_self c.current)

end Switching

section Operations

variable {e : Option Event} {operation : ThreadOperation}

/-- An operation of a thread leaves it at most one more fiber that has ended. -/
theorem length_ended_of_performOn {c' : Carrier} (hs : s.Sound) (hc : s.carrier? t = some c)
    (hr : s.performOn t c operation = .ok (s', e)) (hc' : s'.carrier? t = some c') :
    c'.ended.length ≤ c.ended.length + 1 := by
  cases operation with
  | create request continuation =>
    obtain ⟨⟨outcome, s₁⟩, hcreate, heq⟩ := map_eq_ok_iff.1 hr
    obtain ⟨rfl, -⟩ := Prod.mk.inj heq
    by_cases hrequest : request = .pooled
    · subst hrequest
      obtain rfl := Option.some.inj (hc'.symm.trans (carrier?_of_create hc hcreate))
      have := c.length_idleAfter_le s.settings.idleCacheSize
      simp only [Carrier.ended, Option.toList_none, List.nil_append, List.length_tail] at this ⊢
      omega
    · rw [carrier?_of_create_ne hrequest hcreate, hc] at hc'
      exact Option.some.inj hc' ▸ Nat.le_succ _
  | terminate fiber =>
    obtain ⟨s₁, hretire, hr⟩ := bind_eq_ok_iff.1 (eq_ok_of_map_mk hr)
    have hc₁ : (s₁.unhold fiber).carrier? t = some c := (carrier?_of_retire hretire).trans hc
    obtain rfl := Option.some.inj (hc'.symm.trans (carrier?_of_parkOrRelease hc₁ hr))
    simp only [Carrier.ended, List.length_append]
    split_ifs
    · exact Nat.le_refl _
    · exact Nat.le_succ _
  | switch target kind =>
    obtain rfl := Option.some.inj (hc'.symm.trans (carrier?_of_enter hc (eq_ok_of_map_mk hr)))
    cases kind with
    | returning => exact Nat.le_succ _
    | terminating =>
      have := c.length_idleAfter_le s.settings.idleCacheSize
      simp only [Carrier.ended, Option.toList_some, List.length_append, List.length_singleton]
        at this ⊢
      omega
  | reclaim =>
    obtain rfl := Option.some.inj (hc'.symm.trans (carrier?_of_reclaim hc (eq_ok_of_map_mk hr)))
    exact Nat.le_succ_of_le (c.length_idleAfter_le s.settings.idleCacheSize)
  | detach =>
    rw [carrier?_of_detach hs hc (eq_ok_of_map_mk hr)] at hc'
    cases hc'
  | scratch operation =>
    obtain ⟨scratch, -, heq⟩ := map_eq_ok_iff.1 hr
    obtain ⟨rfl, -⟩ := Prod.mk.inj heq
    have hkept := carrier?_modifyCarrier_self (g := fun c => { c with scratch }) hc fun _ => rfl
    exact Option.some.inj (hkept.symm.trans hc') ▸ Nat.le_succ _
  | setMode mode =>
    obtain ⟨rfl, -⟩ := Prod.mk.inj (Except.ok.inj hr)
    have hkept := carrier?_modifyCarrier_self (g := fun c => { c with mode }) hc fun _ => rfl
    exact Option.some.inj (hkept.symm.trans hc') ▸ Nat.le_succ _

/-- What a thread does while it stays attached keeps its counters in step with its live fibers. -/
theorem Tells.performOn (h : s.Tells t ids.length work) (hlive : s.HasLive t ids) (hs : s.Sound)
    (hc : s.carrier? t = some c) (hr : s.performOn t c operation = .ok (s', e))
    (hstays : operation ≠ .detach) :
    s'.Tells t (e.elim ids (liveAfter t ids)).length (work + 1) := by
  have h' := h.mono (Nat.le_succ work)
  have hends : ∀ id, s.Live t id → s.Tells t ((ids.erase id).length + 1) work := by
    intro id hid
    rwa [List.length_erase_add_one ((hlive.mem_iff id).2 hid)]
  cases operation with
  | create request continuation =>
    obtain ⟨⟨outcome, s₁⟩, hcreate, heq⟩ := map_eq_ok_iff.1 hr
    obtain ⟨rfl, rfl⟩ := Prod.mk.inj heq
    exact h.create hcreate
  | terminate fiber =>
    obtain ⟨s₁, hterminate, heq⟩ := map_eq_ok_iff.1 hr
    obtain ⟨rfl, rfl⟩ := Prod.mk.inj heq
    exact (hends fiber (live_of_terminate hs hterminate)).terminate hterminate
  | switch target kind =>
    obtain ⟨s₁, henter, heq⟩ := map_eq_ok_iff.1 hr
    obtain ⟨rfl, rfl⟩ := Prod.mk.inj heq
    cases kind with
    | returning => exact h'.enter_returning henter
    | terminating => exact (hends c.current (live_of_enter hs hc henter)).enter_terminating henter
  | reclaim =>
    obtain ⟨s₁, hreclaim, heq⟩ := map_eq_ok_iff.1 hr
    obtain ⟨rfl, rfl⟩ := Prod.mk.inj heq
    exact h'.reclaim hreclaim
  | detach => exact absurd rfl hstays
  | scratch operation =>
    obtain ⟨scratch, -, heq⟩ := map_eq_ok_iff.1 hr
    obtain ⟨rfl, rfl⟩ := Prod.mk.inj heq
    exact h'.modifyCarrier (fun _ => ⟨rfl, rfl⟩) fun _ => rfl
  | setMode mode =>
    obtain ⟨rfl, rfl⟩ := Prod.mk.inj (Except.ok.inj hr)
    exact h'.modifyCarrier (fun _ => ⟨rfl, rfl⟩) fun _ => rfl

/-- The events of one thread are not about the live fibers of another. -/
theorem HasLive.liveAfter_eq (h : s.HasLive u ids) (hs : s.Sound) (hc : s.carrier? t = some c)
    (hr : s.performOn t c operation = .ok (s', e)) (hu : u ≠ t) :
    e.elim ids (liveAfter u ids) = ids := by
  have hother : ∀ id, s.Live t id → ids.erase id = ids := by
    intro id hid
    refine List.erase_of_not_mem fun hmem => hu ?_
    exact ((h.mem_iff id).1 hmem).unique hid
  cases operation with
  | create request continuation =>
    obtain ⟨⟨outcome, s₁⟩, -, heq⟩ := map_eq_ok_iff.1 hr
    obtain ⟨-, rfl⟩ := Prod.mk.inj heq
    cases request <;> cases outcome <;> simp [Event.ofRequest?, liveAfter, Ne.symm hu]
  | terminate fiber =>
    obtain ⟨s₁, hterminate, heq⟩ := map_eq_ok_iff.1 hr
    obtain ⟨-, rfl⟩ := Prod.mk.inj heq
    exact hother fiber (live_of_terminate hs hterminate)
  | switch target kind =>
    obtain ⟨s₁, henter, heq⟩ := map_eq_ok_iff.1 hr
    obtain ⟨-, rfl⟩ := Prod.mk.inj heq
    cases kind with
    | returning => rfl
    | terminating => exact hother c.current (live_of_enter hs hc henter)
  | setMode mode =>
    obtain ⟨-, rfl⟩ := Prod.mk.inj (Except.ok.inj hr)
    rfl
  | _ =>
    obtain ⟨_, -, heq⟩ := map_eq_ok_iff.1 hr
    obtain ⟨-, rfl⟩ := Prod.mk.inj heq
    rfl

end Operations

end FiberSystem

end PooledFibers
