/-!
# Finite tables

A `Table` maps finitely many keys to values. `get?_insert`, `get?_erase` and `get?_modify` say what
each operation does to a lookup.
-/

namespace PooledFibers

/-- Entries with pairwise different keys, the latest insertion first. -/
structure Table (κ α : Type) where
  entries : List (κ × α)

namespace Table

variable {κ α : Type} [DecidableEq κ]

def empty : Table κ α := ⟨[]⟩

instance : Inhabited (Table κ α) := ⟨empty⟩

def get? (t : Table κ α) (k : κ) : Option α :=
  (t.entries.find? fun e => decide (e.1 = k)).map (·.2)

def contains (t : Table κ α) (k : κ) : Bool := (t.get? k).isSome

/-- Drops the keys that satisfy `p`. -/
def eraseIf (t : Table κ α) (p : κ → Bool) : Table κ α :=
  ⟨t.entries.filter fun e => !p e.1⟩

def erase (t : Table κ α) (k : κ) : Table κ α := t.eraseIf fun j => decide (j = k)

def insert (t : Table κ α) (k : κ) (a : α) : Table κ α :=
  ⟨(k, a) :: (t.erase k).entries⟩

def modify (t : Table κ α) (k : κ) (f : α → α) : Table κ α :=
  ⟨t.entries.map fun e => if e.1 = k then (e.1, f e.2) else e⟩

def keys (t : Table κ α) : List κ := t.entries.map (·.1)

def size (t : Table κ α) : Nat := t.entries.length

@[simp] theorem get?_empty (k : κ) : (empty : Table κ α).get? k = none := rfl

theorem get?_eraseIf (t : Table κ α) (p : κ → Bool) (k : κ) :
    (t.eraseIf p).get? k = if p k then none else t.get? k := by
  obtain ⟨es⟩ := t
  simp only [get?, eraseIf]
  induction es with
  | nil => simp
  | cons e es ih =>
    by_cases hk : e.1 = k
    · subst hk
      by_cases hp : p e.1
      · simpa [List.filter_cons, hp] using ih
      · simp [hp]
    · by_cases hp : p e.1
      · simpa [List.filter_cons, hp, List.find?_cons, hk] using ih
      · simpa [List.filter_cons, hp, List.find?_cons, hk] using ih

@[simp] theorem get?_erase (t : Table κ α) (j k : κ) :
    (t.erase j).get? k = if k = j then none else t.get? k := by
  simp [erase, get?_eraseIf]

@[simp] theorem get?_insert (t : Table κ α) (j k : κ) (a : α) :
    (t.insert j a).get? k = if k = j then some a else t.get? k := by
  by_cases h : k = j
  · subst h; simp [insert, get?]
  · have := get?_erase t j k
    simp only [h, if_false] at this ⊢
    rw [← this]
    simp [insert, get?, Ne.symm h]

@[simp] theorem get?_modify (t : Table κ α) (j k : κ) (f : α → α) :
    (t.modify j f).get? k = if k = j then (t.get? k).map f else t.get? k := by
  obtain ⟨es⟩ := t
  simp only [get?, modify]
  induction es with
  | nil => simp
  | cons e es ih =>
    rw [List.map_cons, List.find?_cons, List.find?_cons]
    by_cases hk : e.1 = k
    · subst hk
      by_cases hj : e.1 = j <;> simp [hj]
    · have hd : decide ((if e.1 = j then (e.1, f e.2) else e).1 = k) = false := by
        by_cases hj : e.1 = j <;> simpa [hj] using hk
      rw [hd, decide_eq_false hk]
      exact ih

end Table

end PooledFibers
