import Mathlib.Data.List.Basic
import Mathlib.Tactic.Common
import PooledFibers.Proofs.FiberSystem.Stock
import PooledFibers.Proofs.Statistics

/-!
# What each thread has to itself

No two threads share a statistics slot, and a switch that has not returned is between fibers of its
own thread (`Partitioned`). Every operation of a run keeps this. What a thread does leaves the slots of
the others alone (`Move.tallies`), and gives its own slot back when it is detached
(`slots_of_detach`).
-/

namespace PooledFibers

namespace FiberSystem

/-- The statistics slot of a thread, if it is attached and has one. -/
def slotOf (s : FiberSystem) (t : ThreadToken) : Option Nat := (s.carrier? t).bind Carrier.slot

/-- A switch that has not returned is one of its own thread. -/
def Confined (s : FiberSystem) : Prop := ∀ call ∈ s.calls, s.CallOf call.thread call

/-- The heap fibers have stacks of one size, and each thread has its slot and its switches to
itself. -/
structure Partitioned (s : FiberSystem) : Prop where
  region : ∀ id f, s.fibers.get? id = some f → f.isThreadFiber = false →
    f.region.size = s.pool.stackSize
  calls : s.Confined
  claimed : ∀ t k, s.slotOf t = some k → (s.statistics.slot? k).isSome = true
  apart : ∀ t u k, s.slotOf t = some k → s.slotOf u = some k → t = u

/-- The threads keep their slots, and only the slot of `t` is written to. -/
structure Tallies (s : FiberSystem) (t : ThreadToken) (s' : FiberSystem) : Prop where
  slotOf : ∀ u, s'.slotOf u = s.slotOf u
  claimed : ∀ k, (s'.statistics.slot? k).isSome = (s.statistics.slot? k).isSome
  others : ∀ k, s.slotOf t ≠ some k → s'.statistics.slot? k = s.statistics.slot? k

open Outcome

variable {s s' s'' s₁ : FiberSystem} {t u : ThreadToken} {c : Carrier} {id : FiberId}
  {call : SwitchCall}

section Tallies

theorem slotOf_congr (h : s'.carrier? u = s.carrier? u) : s'.slotOf u = s.slotOf u := by
  rw [slotOf, slotOf, h]

theorem record_eq (s : FiberSystem) (t : ThreadToken) (g : Statistics → Nat → Statistics) :
    s.record t g = match s.slotOf t with
      | some k => { s with statistics := g s.statistics k }
      | none => s := by
  rw [record, slotOf, carrier]
  cases s.carrier? t <;> rfl

theorem exists_record (s : FiberSystem) (t : ThreadToken) (g : Statistics → Nat → Statistics) :
    ∃ statistics, s.record t g = { s with statistics } := by
  rw [record_eq]
  split
  · exact ⟨_, rfl⟩
  · exact ⟨s.statistics, rfl⟩

theorem slotOf_record (g : Statistics → Nat → Statistics) (u : ThreadToken) :
    (s.record t g).slotOf u = s.slotOf u :=
  slotOf_congr ((same_record s t g).carrier? u)

/-- A change of the thread's own slot is none of another one. -/
theorem slot?_record {g : Statistics → Nat → Statistics}
    (hg : ∀ st k slot, k ≠ slot → (g st slot).slot? k = st.slot? k) {k : Nat}
    (hk : s.slotOf t ≠ some k) : (s.record t g).statistics.slot? k = s.statistics.slot? k := by
  rw [record_eq]
  cases hslot : s.slotOf t with
  | none => rfl
  | some slot =>
    refine hg s.statistics k slot ?_
    rintro rfl
    exact hk hslot

theorem tallies_of_eq (hcarrier : ∀ u, s'.carrier? u = s.carrier? u)
    (hstatistics : s'.statistics = s.statistics) : s.Tallies t s' where
  slotOf u := slotOf_congr (hcarrier u)
  claimed k := by rw [hstatistics]
  others k _ := by rw [hstatistics]

theorem Tallies.trans (h : s.Tallies t s') (h' : s'.Tallies t s'') : s.Tallies t s'' where
  slotOf u := (h'.slotOf u).trans (h.slotOf u)
  claimed k := (h'.claimed k).trans (h.claimed k)
  others k hk := (h'.others k (by rwa [h.slotOf])).trans (h.others k hk)

theorem tallies_record (s : FiberSystem) (t : ThreadToken) (g : Tally → Tally) :
    s.Tallies t (s.record t fun statistics slot => statistics.record slot g) where
  slotOf := slotOf_record _
  claimed k := by
    rw [record_eq]
    cases s.slotOf t with
    | none => rfl
    | some slot => exact Statistics.isSome_slot?_record g
  others k hk := slot?_record (fun _ _ _ hne => Statistics.slot?_record_of_ne hne g) hk

theorem Move.tallies (h : s.Move t s') : s.Tallies t s' := by
  induction h with
  | tally s g => exact tallies_record s t g
  | @carrier s g hg hroom =>
    refine ⟨fun u => ?_, fun _ => rfl, fun _ _ => rfl⟩
    rw [slotOf, slotOf, carrier?_modifyCarrier fun c => (hg c).1]
    split_ifs
    · cases s.carrier? u <;> simp [hg]
    · rfl
  | enroll _ hr =>
    obtain ⟨registry, -, rfl⟩ := register_eq_ok_iff.1 hr
    exact tallies_of_eq (fun _ => rfl) rfl
  | withdraw _ hr =>
    obtain ⟨registry, -, rfl⟩ := unregister_eq_ok_iff.1 hr
    exact tallies_of_eq (fun _ => rfl) rfl
  | unregister _ hr =>
    obtain ⟨registry, -, rfl⟩ := unregister_eq_ok_iff.1 hr
    exact tallies_of_eq (fun _ => rfl) rfl
  | reap _ hr =>
    obtain rfl | ⟨-, _, _, -, -, -, rfl⟩ := reap_cases hr <;>
      exact tallies_of_eq (fun _ => rfl) rfl
  | renew _ hr =>
    obtain ⟨machine, -, rfl⟩ := exists_of_renew hr
    exact tallies_of_eq (fun _ => rfl) rfl
  | trans _ _ ih ih' => exact ih.trans ih'
  | _ => exact tallies_of_eq (fun _ => rfl) rfl

/-- A thread that is detached has no slot any more; the other slots stay as they were. -/
theorem slots_of_detach (h : s.Sound) (hc : s.carrier? t = some c) (hr : s.detach t = .ok s') :
    (∀ u, s'.slotOf u = if u = t then none else s.slotOf u)
      ∧ ∀ k, s.slotOf t ≠ some k → s'.statistics.slot? k = s.statistics.slot? k := by
  obtain ⟨s₁, s₂, hmove₁, hmove₂, hmove₃⟩ := moves_of_detach h hc hr
  have h₁ := hmove₁.tallies
  have h₂ := hmove₂.tallies
  have h₃ := hmove₃.tallies
  have hgone : ∀ u, { s₂ with carriers := s₂.carriers.filter fun c => c.token ≠ t }.slotOf u
      = if u = t then none else s.slotOf u := by
    intro u
    rw [slotOf, carrier?_filter]
    split_ifs
    · rfl
    · exact (h₂.slotOf u).trans ((slotOf_record _ u).trans (h₁.slotOf u))
  refine ⟨fun u => (h₃.slotOf u).trans (hgone u), fun k hk => ?_⟩
  have hk₁ : s₁.slotOf t ≠ some k := by rwa [h₁.slotOf]
  rw [h₃.others k (by rw [hgone, if_pos rfl]; exact nofun), h₂.others k (by rwa [slotOf_record]),
    slot?_record (fun _ _ _ => Statistics.slot?_unregister_of_ne) hk₁, h₁.others k hk]

end Tallies

section Confined

theorem Confined.inherits (h : s.Confined) (hi : s.Inherits s') (hcalls : s'.calls = s.calls) :
    s'.Confined :=
  fun call hcall => hi.callOf (h call (hcalls ▸ hcall))

theorem Move.confined (hm : s.Move t s') (h : s.Confined) : s'.Confined := by
  induction hm with
  | @calls s calls hcalls =>
    intro call hcall
    have hsame := (same_calls s calls).inherits
    obtain hmem | hcallOf := hcalls call hcall
    · exact hsame.callOf (h call hmem)
    · exact hcallOf.thread ▸ hsame.callOf hcallOf
  | tally s g => exact h.inherits (Move.tally s g).inherits (calls_record _)
  | enroll howned hr =>
    refine h.inherits (Move.enroll howned hr).inherits ?_
    obtain ⟨registry, -, rfl⟩ := register_eq_ok_iff.1 hr
    rfl
  | withdraw howned hr =>
    refine h.inherits (Move.withdraw howned hr).inherits ?_
    obtain ⟨registry, -, rfl⟩ := unregister_eq_ok_iff.1 hr
    rfl
  | unregister howns hr =>
    refine h.inherits (Move.unregister howns hr).inherits ?_
    obtain ⟨registry, -, rfl⟩ := unregister_eq_ok_iff.1 hr
    rfl
  | reap _ hr =>
    refine h.inherits (inherits_of_reap hr) ?_
    obtain rfl | ⟨-, _, _, -, -, -, rfl⟩ := reap_cases hr <;> rfl
  | renew _ hr =>
    refine h.inherits (inherits_of_renew hr) ?_
    obtain ⟨machine, -, rfl⟩ := exists_of_renew hr
    rfl
  | carrier hg hroom => exact h.inherits (Move.carrier hg hroom).inherits rfl
  | fiber howned hg hrecord => exact h.inherits (Move.fiber howned hg hrecord).inherits rfl
  | make _ hacquire => exact h.inherits (inherits_of_acquire hacquire) rfl
  | makeNone hacquire => exact h.inherits (Move.makeNone (t := t) hacquire).inherits rfl
  | trans _ _ ih ih' => exact ih' (ih h)
  | _ => exact h.inherits (inherits_of_fibers rfl rfl rfl) rfl

end Confined

section Partitioned

theorem partitioned_of_ofSettings {host : Host} {settings : Settings}
    {provider : PageProvider}
    {policy : Option Bool} (hs : ofSettings host settings provider policy = .ok (.ok s)) :
    s.Partitioned := by
  obtain ⟨-, registry, -, rfl⟩ := ofSettings_cases hs
  refine ⟨?_, ?_, ?_, ?_⟩
  · exact fun id f hf => absurd hf (Option.some_ne_none f).symm
  · exact fun call hcall => absurd hcall List.not_mem_nil
  · exact fun t k hk => absurd hk (Option.some_ne_none k).symm
  · exact fun t u k hk => absurd hk (Option.some_ne_none k).symm

theorem Kept.stocked (h : s.Kept []) (hp : s.Partitioned) : s.Stocked :=
  ⟨h.registry, h.keys, h.accounts, hp.region⟩

/-- A change that has nothing to do with threads and switches. -/
theorem Partitioned.inherits (h : s.Partitioned) (hi : s.Inherits s')
    (hcarrier : ∀ u, s'.carrier? u = s.carrier? u) (hstatistics : s'.statistics = s.statistics)
    (hcalls : s'.calls = s.calls) : s.Inherits s' ∧ s'.Partitioned := by
  refine ⟨hi, hi.region h.region, h.calls.inherits hi hcalls, fun t k hk => ?_,
    fun t u k ht hu => ?_⟩
  · rw [slotOf_congr (hcarrier t)] at hk
    exact hstatistics ▸ h.claimed t k hk
  · rw [slotOf_congr (hcarrier t)] at ht
    rw [slotOf_congr (hcarrier u)] at hu
    exact h.apart t u k ht hu

theorem Move.partitioned (hm : s.Move t s') (h : s.Partitioned) :
    s.Inherits s' ∧ s'.Partitioned := by
  refine ⟨hm.inherits, hm.inherits.region h.region, hm.confined h.calls, fun u k hk => ?_,
    fun u v k hu hv => ?_⟩
  · rw [hm.tallies.slotOf] at hk
    rw [hm.tallies.claimed]
    exact h.claimed u k hk
  · rw [hm.tallies.slotOf] at hu hv
    exact h.apart u v k hu hv

theorem Partitioned.detach (h : s.Partitioned) (hs : s.Sound) (hc : s.carrier? t = some c)
    (hr : s.detach t = .ok s') : s.Inherits s' ∧ s'.Partitioned := by
  obtain ⟨hslots, hothers⟩ := slots_of_detach hs hc hr
  obtain ⟨s₁, s₂, hmove₁, hmove₂, hmove₃⟩ := moves_of_detach hs hc hr
  have hsigned := (same_record s₁ t Statistics.unregister).inherits
  have hdropped : s₂.Inherits { s₂ with carriers := s₂.carriers.filter fun c => c.token ≠ t } :=
    inherits_of_fibers rfl rfl rfl
  have hinherits := hmove₁.inherits.trans (hsigned.trans (hmove₂.inherits.trans
    (hdropped.trans hmove₃.inherits)))
  have hstays : ∀ u k, s'.slotOf u = some k → s.slotOf u = some k ∧ u ≠ t := by
    intro u k hk
    rw [hslots] at hk
    split_ifs at hk with hu
    exact ⟨hk, hu⟩
  refine ⟨hinherits, ?_⟩
  constructor
  case region => exact hinherits.region h.region
  case calls =>
    have hsigned := (hmove₁.confined h.calls).inherits hsigned (calls_record _)
    exact hmove₃.confined ((hmove₂.confined hsigned).inherits hdropped rfl)
  case claimed =>
    intro u k hk
    obtain ⟨hk, hu⟩ := hstays u k hk
    rw [hothers k fun ht => hu (h.apart u t k hk ht)]
    exact h.claimed u k hk
  case apart =>
    exact fun u v k hu hv => h.apart u v k (hstays u k hu).1 (hstays v k hv).1

/-- A thread that comes claims a slot that was free, if there is one. -/
theorem slots_of_attach {thread : Nat} {name : String} {bounds : Except IoError StackBounds}
    {outcome : Except Failure ThreadToken} (hs : s.Sound)
    (hr : s.attach thread name bounds = .ok (outcome, s')) : s' = s ∨ ∃ c : Carrier, c.ended = []
      ∧ (∀ u, s'.carrier? u = if u = s.nextToken then some c else s.carrier? u)
      ∧ (∀ k, c.slot = some k →
        s.statistics.slot? k = none ∧ s'.statistics.slot? k = some (thread, {}))
      ∧ ∀ k, c.slot ≠ some k → s'.statistics.slot? k = s.statistics.slot? k := by
  obtain ⟨rfl, -⟩ | ⟨-, region, registry, statistics, slot, -, hstatistics, rfl⟩ := attach_cases hr
  · exact .inl rfl
  obtain ⟨hnew, hothers⟩ := Statistics.slot?_of_register hstatistics
  have hcarrier := fun u => carrier?_append (s := s) (u := u)
    { token := s.nextToken, name, threadFiber := s.nextFiber, current := s.nextFiber, slot }
    hs.nextToken_not_given
  exact .inr ⟨_, rfl, hcarrier, hnew, hothers⟩

theorem slotOf_of_attach (hcarrier : ∀ u, s'.carrier? u
      = if u = s.nextToken then some c else s.carrier? u) (u : ThreadToken) :
    s'.slotOf u = if u = s.nextToken then c.slot else s.slotOf u := by
  rw [slotOf, hcarrier]
  split_ifs <;> rfl

/-- The slot that a thread claims when it comes is none that was claimed before. -/
theorem Partitioned.slot_ne (h : s.Partitioned) {slot : Option Nat}
    (hfree : ∀ k, slot = some k → s.statistics.slot? k = none) {k : Nat}
    (hk : s.slotOf u = some k) : slot ≠ some k := by
  intro hslot
  have hsome := h.claimed u k hk
  rw [hfree k hslot] at hsome
  exact Bool.noConfusion hsome

theorem Partitioned.attach {thread : Nat} {name : String} {bounds : Except IoError StackBounds}
    {outcome : Except Failure ThreadToken} (h : s.Partitioned) (hs : s.Sound)
    (hr : s.attach thread name bounds = .ok (outcome, s')) : s.Inherits s' ∧ s'.Partitioned := by
  obtain rfl | ⟨c, -, hcarrier, hnew, hothers⟩ := slots_of_attach hs hr
  · exact ⟨(Same.refl _).inherits, h⟩
  have hinherits : s.Inherits s' ∧ s'.calls = s.calls := by
    obtain ⟨rfl, -⟩ | ⟨-, region, registry, statistics, slot, -, -, hs'⟩ := attach_cases hr
    · exact ⟨(Same.refl _).inherits, rfl⟩
    · have hadded : s.Inherits (s.addFiber (.ofThread s.nextFiber s.nextToken name region)) :=
        inherits_of_make rfl (fun hheap => Bool.noConfusion hheap) rfl
      exact ⟨hs' ▸ hadded.trans (inherits_of_fibers rfl rfl rfl), hs' ▸ rfl⟩
  have hslots := slotOf_of_attach hcarrier
  have hclaimed : ∀ u k, s.slotOf u = some k → c.slot ≠ some k :=
    fun u k => h.slot_ne fun k hk => (hnew k hk).1
  refine ⟨hinherits.1, ?_⟩
  constructor
  case region => exact hinherits.1.region h.region
  case calls => exact h.calls.inherits hinherits.1 hinherits.2
  case claimed =>
    intro u k hk
    rw [hslots] at hk
    split_ifs at hk
    · rw [(hnew k hk).2, Option.isSome_some]
    · rw [hothers k (hclaimed u k hk)]
      exact h.claimed u k hk
  case apart =>
    intro u v k hu hv
    rw [hslots] at hu hv
    split_ifs at hu hv with hu' hv' hv'
    · exact hu'.trans hv'.symm
    · exact absurd hu (hclaimed v k hv)
    · exact absurd hv (hclaimed u k hu)
    · exact h.apart u v k hu hv

theorem Partitioned.performOn {operation : ThreadOperation} {e : Option Event} (h : s.Partitioned)
    (hs : s.Sound) (hc : s.carrier? t = some c)
    (hr : s.performOn t c operation = .ok (s', e)) : s.Inherits s' ∧ s'.Partitioned := by
  cases operation with
  | detach => exact h.detach hs hc (eq_ok_of_map_mk hr)
  | _ => exact (move_of_performOn hs hc hr nofun).partitioned h

theorem Partitioned.perform {operation : Operation} {e : Option Event} (h : s.Partitioned)
    (hs : s.Sound) (hr : s.perform operation = .ok (s', e)) : s.Inherits s' ∧ s'.Partitioned := by
  cases performed_of_perform hr with
  | nothing => exact ⟨(Same.refl s).inherits, h⟩
  | attach hattach => exact h.attach hs hattach
  | perform hc hperform => exact h.performOn hs hc hperform
  | returnFrom hcall hreturn =>
    exact (move_of_returnFrom hs (h.calls _ hcall) hreturn).partitioned h
  | @drop fiber _ hdrop =>
    have hunheld : s.Inherits (s.unhold fiber) := inherits_of_fibers rfl rfl rfl
    refine h.inherits (hunheld.trans (inherits_of_reap hdrop)) (fun u => ?_) ?_ ?_ <;>
      obtain rfl | ⟨-, _, _, -, -, -, rfl⟩ := reap_cases hdrop <;> rfl
  | lease hlease =>
    obtain ⟨⟨_ | lease, pool⟩, hacquire, hlease⟩ := bind_eq_ok_iff.1 hlease <;>
      simp only [pure_eq_ok, Except.ok.injEq, Prod.mk.injEq] at hlease <;>
      obtain ⟨-, rfl⟩ := hlease <;>
      exact h.inherits (inherits_of_fibers rfl rfl (Pool.alike_of_acquire hacquire).geometry)
        (fun _ => rfl) rfl rfl
  | unlease _ hunlease =>
    obtain ⟨pool, hrelease, hs'⟩ := bind_eq_ok_iff.1 hunlease
    obtain rfl := Except.ok.inj hs'
    exact h.inherits (inherits_of_fibers rfl rfl (Pool.alike_of_release hrelease).geometry)
      (fun _ => rfl) rfl rfl
  | @saveResume fiber address =>
    exact h.inherits (inherits_of_modify (g := fun f => { f with resume := Fiber.resumeAt? address })
      rfl (fun _ => ⟨rfl, rfl⟩) rfl rfl) (fun _ => rfl) rfl rfl
  | hold _ | write | addContinuation | dropContinuation =>
    exact h.inherits (inherits_of_fibers rfl rfl rfl) (fun _ => rfl) rfl rfl

end Partitioned

end FiberSystem

end PooledFibers
