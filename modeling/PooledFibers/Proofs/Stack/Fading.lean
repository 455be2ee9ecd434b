import Mathlib.Tactic.Common
import PooledFibers.Machine.AddressRange
import PooledFibers.Machine.Pages

/-!
# What requests do to memory

Requests on pages write nothing: words turn to zeros at most, where fresh pages come in or pages
are given back. `Machine.FadesBy` says which requests were made, and that no word is lost elsewhere.
-/

namespace PooledFibers

/-- The memory that a request turns to zeros. -/
def PageCall.cleared? : PageCall → Option AddressRange
  | .reserve bytes (.ok low) => some ⟨low, low + bytes⟩
  | .uncommit low bytes (.ok ()) => some ⟨low, low + bytes⟩
  | _ => none

namespace Machine

/-- Each word is as it was, or zero. -/
def Fades (m m' : Machine) : Prop := ∀ a, m'.read a = m.read a ∨ m'.read a = .zero

/-- Requests were made, the latest first, and a word that is lost was in memory that one of them
turned to zeros. -/
structure FadesBy (m : Machine) (made : List PageCall) (m' : Machine) : Prop where
  calls : m'.calls = made ++ m.calls
  fades : m.Fades m'
  read : ∀ a, m'.read a ≠ m.read a →
    ∃ call ∈ made, ∃ range, call.cleared? = some range ∧ range.contains a = true

variable {m m' m'' : Machine} {made made' : List PageCall}

theorem Fades.refl (m : Machine) : m.Fades m := fun _ => .inl rfl

theorem Fades.trans (h : m.Fades m') (h' : m'.Fades m'') : m.Fades m'' := by
  intro a
  obtain heq | hzero := h' a
  · exact heq ▸ h a
  · exact .inr hzero

theorem read_of_words (h : m'.words = m.words) (a : Nat) : m'.read a = m.read a := by
  simp [read, h]

theorem fades_of_words (h : m'.words = m.words) : m.Fades m' := fun a => .inl (read_of_words h a)

theorem read_clear (m : Machine) (low bytes a : Nat) : (m.clear low bytes).read a
    = if AddressRange.contains ⟨low, low + bytes⟩ a then .zero else m.read a := by
  simp only [read, clear, Table.get?_eraseIf, AddressRange.contains]
  by_cases h : low ≤ a ∧ a < low + bytes <;> simp [h]

section FadesBy

theorem FadesBy.trans (h : m.FadesBy made m') (h' : m'.FadesBy made' m'') :
    m.FadesBy (made' ++ made) m'' where
  calls := by rw [h'.calls, h.calls, List.append_assoc]
  fades := h.fades.trans h'.fades
  read a ha := by
    by_cases heq : m'.read a = m.read a
    · obtain ⟨call, hcall, hclear⟩ := h'.read a (heq ▸ ha)
      exact ⟨call, List.mem_append_left _ hcall, hclear⟩
    · obtain ⟨call, hcall, hclear⟩ := h.read a heq
      exact ⟨call, List.mem_append_right _ hcall, hclear⟩

/-- A word stays where no request clears. -/
theorem FadesBy.read_eq (h : m.FadesBy made m') {a : Nat} (ha : ∀ call ∈ made, ∀ range,
    call.cleared? = some range → range.contains a = false) : m'.read a = m.read a := by
  by_contra hne
  obtain ⟨call, hcall, range, hclear, hmem⟩ := h.read a hne
  exact Bool.noConfusion ((ha call hcall range hclear).symm.trans hmem)

theorem fadesBy_of_words (hwords : m'.words = m.words) (hcalls : m'.calls = made ++ m.calls) :
    m.FadesBy made m' :=
  ⟨hcalls, fades_of_words hwords, fun a ha => absurd (read_of_words hwords a) ha⟩

theorem FadesBy.refl (m : Machine) : m.FadesBy [] m := fadesBy_of_words rfl rfl

theorem fadesBy_notice (m : Machine) (n : Notice) : m.FadesBy [] (m.notice n) :=
  fadesBy_of_words rfl rfl

/-- A request that clears memory and is then on the books. -/
theorem fadesBy_clear {call : PageCall} {low bytes : Nat}
    (hcall : call.cleared? = some ⟨low, low + bytes⟩) :
    m.FadesBy [call] ((m.log call).clear low bytes) := by
  refine ⟨rfl, fun a => ?_, fun a ha => ?_⟩
  · rw [read_clear]
    split_ifs
    · exact .inr rfl
    · exact .inl rfl
  · rw [read_clear] at ha
    split_ifs at ha with hmem
    · exact ⟨call, List.mem_singleton_self call, _, hcall, hmem⟩
    · exact absurd rfl ha

theorem fadesBy_guard {low bytes : Nat} {outcome : Except IoError Unit}
    (h : m.guard low bytes = (outcome, m')) : m.FadesBy [.guard low bytes outcome] m' := by
  obtain ⟨rfl, rfl⟩ := Prod.mk.inj h
  exact fadesBy_of_words rfl rfl

theorem fadesBy_uncommit {low bytes : Nat} {outcome : Except IoError Unit}
    (h : m.uncommit low bytes = (outcome, m')) : m.FadesBy [.uncommit low bytes outcome] m' := by
  obtain ⟨rfl, rfl⟩ := Prod.mk.inj h
  split <;> rename_i houtcome
  · rw [houtcome]
    exact fadesBy_clear rfl
  · exact fadesBy_of_words rfl rfl

theorem fadesBy_reserve {bytes : Nat} {outcome : Except IoError Nat}
    (h : m.reserve bytes = (outcome, m')) : m.FadesBy [.reserve bytes outcome] m' := by
  obtain ⟨rfl, rfl⟩ := Prod.mk.inj h
  split <;> rename_i houtcome
  · rw [houtcome]
    exact fadesBy_clear rfl
  · exact fadesBy_of_words rfl rfl

end FadesBy

end Machine

end PooledFibers
