import PooledFibers.Proofs.Settings.Grammar
import PooledFibers.Proofs.Settings.Sizes
import PooledFibers.Proofs.Settings.Usable

/-!
# What the variables say

Each setting has a variable of its own (`Settings.variableTable`), which settles by itself what is asked
for and what is noticed (`Variable.Told`): a value that is accepted counts, anything else leaves the
default in place, and a value that is refused is noticed once. Only the stack geometry is looked at
as a whole, and goes back to its defaults if the slab has no 64-bit size.

## Main statements

* `told_ofVariables`
-/

namespace PooledFibers.Settings

open Text

/-- The value of a setting. -/
inductive Value
  | number (n : Nat)
  | flag (b : Bool)

/-- What values a variable takes. -/
inductive VariableKind
  | number
  | positive
  | shards
  | flag
  deriving DecidableEq

/-- A variable and the setting it is for. -/
structure Variable where
  name : String
  kind : VariableKind
  field : Settings → Value
  /-- Whether the size of a slab depends on the setting. -/
  geometry : Bool := false

/-- The variables in the order of the settings. -/
def variableTable : List Variable :=
  [{ name := "FIBER_STACK_SIZE", kind := .positive, field := (.number ·.stackSize),
     geometry := true },
   { name := "FIBER_STACK_SHADOW_PAGES", kind := .number, field := (.number ·.shadowPages),
     geometry := true },
   { name := "FIBER_STACK_YELLOW_PAGES", kind := .number, field := (.number ·.yellowPages),
     geometry := true },
   { name := "FIBER_STACK_RED_PAGES", kind := .number, field := (.number ·.redPages),
     geometry := true },
   { name := "FIBER_GUARD_PAGES", kind := .flag, field := (.flag ·.guardPages) },
   { name := "FIBER_STACKS_PER_SLAB", kind := .positive, field := (.number ·.stacksPerSlab),
     geometry := true },
   { name := "FIBER_PHYSICAL_CACHE_MAX", kind := .number, field := (.number ·.physicalCacheMax) },
   { name := "FIBER_REGISTRY_SHARDS", kind := .shards, field := (.number ·.registryShards) },
   { name := "FIBER_IDLE_CACHE_SIZE", kind := .number, field := (.number ·.idleCacheSize) },
   { name := "FIBER_VERIFY_ON_YIELD", kind := .flag, field := (.flag ·.verifyOnYield) },
   { name := "FIBER_YIELD_WITH_MONITOR", kind := .flag, field := (.flag ·.yieldWithMonitor) },
   { name := "FIBER_HEAVY_MONITORS", kind := .flag, field := (.flag ·.heavyMonitors) },
   { name := "FIBER_MAX_STACK_TRACE_DEPTH", kind := .positive,
     field := (.number ·.maxStackTraceDepth) }]

/-- A text without white space around it is accepted as a value. -/
inductive VariableKind.Accepts : VariableKind → List Char → Value → Prop
  | number {cs n} (numeral : Numeral cs n) (word : n < 2 ^ 64) : Accepts number cs (.number n)
  | positive {cs n} (numeral : Numeral cs n) (word : n < 2 ^ 64) (nonzero : n ≠ 0) :
    Accepts positive cs (.number n)
  | shards {cs n k} (numeral : Numeral cs n) (word : n < 2 ^ 64) (power : n = 2 ^ k) :
    Accepts shards cs (.number n)
  | flag {cs b} (word : FlagWord cs b) : Accepts flag cs (.flag b)

namespace Variable

/-- Why a value is refused, with the notice of it. -/
inductive Refusal (v : Variable) (defaults : Settings) (raw : String) (cs : List Char) :
    Notice → Prop
  | unreadable {fallback} (default : v.field defaults = .number fallback) (kind : v.kind ≠ .flag)
    (unreadable : ∀ n, Numeral cs n → 2 ^ 64 ≤ n) :
    v.Refusal defaults raw cs (.unreadableValue v.name raw fallback)
  | zero {fallback} (default : v.field defaults = .number fallback)
    (kind : v.kind = .positive ∨ v.kind = .shards) (zero : Numeral cs 0) :
    v.Refusal defaults raw cs (.zeroValue v.name fallback)
  | shards {n fallback} (default : v.field defaults = .number fallback) (kind : v.kind = .shards)
    (numeral : Numeral cs n) (word : n < 2 ^ 64) (nonzero : n ≠ 0) (power : ∀ k, n ≠ 2 ^ k) :
    v.Refusal defaults raw cs (.shardsNotPowerOfTwo n fallback)
  | flag {fallback} (default : v.field defaults = .flag fallback) (kind : v.kind = .flag)
    (unreadable : ∀ b, ¬FlagWord cs b) :
    v.Refusal defaults raw cs (.unreadableFlag v.name raw fallback)

/-- What a variable with this value, if any, asks for and what is noticed of it. -/
inductive Told (v : Variable) (defaults : Settings) :
    Option String → Value → List Notice → Prop
  | absent : v.Told defaults none (v.field defaults) []
  | blank {raw} (kind : v.kind = .flag) (trimmed : Trimmed raw.toList []) :
    v.Told defaults (some raw) (v.field defaults) []
  | accepted {raw cs value} (trimmed : Trimmed raw.toList cs) (accepts : v.kind.Accepts cs value) :
    v.Told defaults (some raw) value []
  | refused {raw cs notice} (trimmed : Trimmed raw.toList cs)
    (nonblank : ¬(v.kind = .flag ∧ cs = [])) (refused : ∀ value, ¬v.kind.Accepts cs value)
    (refusal : v.Refusal defaults raw cs notice) :
    v.Told defaults (some raw) (v.field defaults) [notice]

end Variable

section Told

variable {v : Variable} {defaults : Settings} {kind : VariableKind} {raw? : Option String}
  {raw : String}
  {cs : List Char} {value value' : Value} {fallback : Nat}

theorem VariableKind.Accepts.unique (h : kind.Accepts cs value) (h' : kind.Accepts cs value') :
    value = value' := by
  cases h with
  | number numeral => cases h' with | number numeral' => rw [numeral.unique numeral']
  | positive numeral => cases h' with | positive numeral' => rw [numeral.unique numeral']
  | shards numeral => cases h' with | shards numeral' => rw [numeral.unique numeral']
  | flag word => cases h' with | flag word' => rw [word.unique word']

theorem not_flagWord_nil (b : Bool) : ¬FlagWord [] b := by
  rw [← flagOf?_toLower_eq_some_iff]
  cases b <;> decide

/-- What a variable asks for depends on its own value alone. -/
theorem Variable.Told.unique {notices notices' : List Notice}
    (h : v.Told defaults raw? value notices) (h' : v.Told defaults raw? value' notices') : value = value' := by
  cases h with
  | absent => cases h'; rfl
  | blank kind trimmed =>
    cases h' with
    | blank => rfl
    | accepted trimmed' accepts =>
      obtain rfl := trimmed.unique trimmed'
      rw [kind] at accepts
      cases accepts with | flag word => exact absurd word (not_flagWord_nil _)
    | refused => rfl
  | accepted trimmed accepts =>
    cases h' with
    | blank kind trimmed' =>
      obtain rfl := trimmed.unique trimmed'
      rw [kind] at accepts
      cases accepts with | flag word => exact absurd word (not_flagWord_nil _)
    | accepted trimmed' accepts' =>
      obtain rfl := trimmed.unique trimmed'
      exact accepts.unique accepts'
    | refused trimmed' _ refused =>
      obtain rfl := trimmed.unique trimmed'
      exact absurd accepts (refused _)
  | refused trimmed _ refused =>
    cases h' with
    | blank => rfl
    | accepted trimmed' accepts =>
      obtain rfl := trimmed.unique trimmed'
      exact absurd accepts (refused _)
    | refused => rfl

theorem Variable.Refusal.not_accepts {notice : Notice} (h : v.Refusal defaults raw cs notice)
    (value : Value) : ¬v.kind.Accepts cs value := by
  generalize hkind : v.kind = kind
  intro accepts
  cases h with
  | unreadable _ kind unreadable =>
    cases accepts with
    | number numeral word => exact absurd word (Nat.not_lt.2 (unreadable _ numeral))
    | positive numeral word => exact absurd word (Nat.not_lt.2 (unreadable _ numeral))
    | shards numeral word => exact absurd word (Nat.not_lt.2 (unreadable _ numeral))
    | flag => exact kind hkind
  | zero _ kind zero =>
    cases accepts with
    | positive numeral _ nonzero => exact nonzero (numeral.unique zero)
    | shards numeral _ power =>
      exact absurd (power.symm.trans (numeral.unique zero)) (Nat.two_pow_pos _).ne'
    | number => simp [hkind] at kind
    | flag => simp [hkind] at kind
  | shards _ kind numeral _ _ power =>
    obtain rfl := hkind.symm.trans kind
    cases accepts with
    | shards numeral' _ power' => exact power _ ((numeral.unique numeral').trans power')
  | flag _ kind unreadable =>
    obtain rfl := hkind.symm.trans kind
    cases accepts with
    | flag word => exact unreadable _ word

/-- A value that is refused with a notice is one that is not accepted. -/
theorem Variable.told_of_refusal {notice : Notice} (trimmed : Trimmed raw.toList cs)
    (nonblank : ¬(v.kind = .flag ∧ cs = [])) (refusal : v.Refusal defaults raw cs notice) :
    v.Told defaults (some raw) (v.field defaults) [notice] :=
  .refused trimmed nonblank refusal.not_accepts refusal

end Told

section Readers

variable {v : Variable} {defaults : Settings} {name : String} {raw? : Option String}
  {raw : String} {value : Value}
  {fallback n k : Nat}

theorem readNumber_of_word (h : wordOf? (trim raw.toList) = some n) :
    readNumber name (some raw) fallback = ⟨n, []⟩ := by
  simp only [readNumber, h]

theorem readNumber_of_unreadable (h : wordOf? (trim raw.toList) = none) :
    readNumber name (some raw) fallback = ⟨fallback, [.unreadableValue name raw fallback]⟩ := by
  simp only [readNumber, h]

theorem readPositive_none (pos : fallback ≠ 0) :
    readPositive name none fallback = ⟨fallback, []⟩ :=
  if_neg pos

theorem readPositive_of_unreadable (pos : fallback ≠ 0)
    (h : wordOf? (trim raw.toList) = none) :
    readPositive name (some raw) fallback = ⟨fallback, [.unreadableValue name raw fallback]⟩ := by
  rw [readPositive, readNumber_of_unreadable h, if_neg pos]

theorem readPositive_of_zero (h : wordOf? (trim raw.toList) = some 0) :
    readPositive name (some raw) fallback = ⟨fallback, [.zeroValue name fallback]⟩ := by
  rw [readPositive, readNumber_of_word h]
  rfl

theorem readPositive_of_word (h : wordOf? (trim raw.toList) = some n) (nonzero : n ≠ 0) :
    readPositive name (some raw) fallback = ⟨n, []⟩ := by
  rw [readPositive, readNumber_of_word h, if_neg nonzero]

/-- A text that is no word is refused by every variable that takes numbers. -/
theorem told_unreadable (kind : v.kind ≠ .flag) (default : v.field defaults = .number fallback)
    (h : wordOf? (trim raw.toList) = none) :
    v.Told defaults (some raw) (.number fallback) [.unreadableValue v.name raw fallback] := by
  rw [← default]
  refine Variable.told_of_refusal (trimmed_trim _) (fun blank => kind blank.1)
    (.unreadable default kind fun n numeral => Nat.le_of_not_lt fun lt => ?_)
  rw [wordOf?_eq_some_iff.2 ⟨numeral, lt⟩] at h
  cases h

theorem told_absent (default : v.field defaults = value) : v.Told defaults none value [] :=
  default ▸ .absent

theorem told_readNumber (kind : v.kind = .number) (default : v.field defaults = .number fallback) :
    v.Told defaults raw? (.number (readNumber v.name raw? fallback).value)
      (readNumber v.name raw? fallback).notices := by
  cases raw? with
  | none => exact told_absent default
  | some raw =>
    cases word : wordOf? (trim raw.toList) with
    | none =>
      rw [readNumber_of_unreadable word]
      exact told_unreadable (by simp [kind]) default word
    | some n =>
      obtain ⟨numeral, lt⟩ := wordOf?_eq_some_iff.1 word
      rw [readNumber_of_word word]
      exact .accepted (trimmed_trim _) (kind ▸ .number numeral lt)

theorem told_zero (default : v.field defaults = .number fallback)
    (kind : v.kind = .positive ∨ v.kind = .shards) (word : wordOf? (trim raw.toList) = some 0) :
    v.Told defaults (some raw) (.number fallback) [.zeroValue v.name fallback] := by
  have nonblank : ¬(v.kind = .flag ∧ trim raw.toList = []) := by
    rintro ⟨flag, -⟩
    simp [flag] at kind
  rw [← default]
  exact Variable.told_of_refusal (trimmed_trim _) nonblank
    (.zero default kind (wordOf?_eq_some_iff.1 word).1)

theorem told_readPositive (kind : v.kind = .positive)
    (default : v.field defaults = .number fallback) (pos : fallback ≠ 0) :
    v.Told defaults raw? (.number (readPositive v.name raw? fallback).value)
      (readPositive v.name raw? fallback).notices := by
  cases raw? with
  | none => exact readPositive_none pos ▸ told_absent default
  | some raw =>
    cases word : wordOf? (trim raw.toList) with
    | none =>
      rw [readPositive_of_unreadable pos word]
      exact told_unreadable (by simp [kind]) default word
    | some n =>
      by_cases zero : n = 0
      · subst zero
        rw [readPositive_of_zero word]
        exact told_zero default (.inl kind) word
      · obtain ⟨numeral, lt⟩ := wordOf?_eq_some_iff.1 word
        rw [readPositive_of_word word zero]
        exact .accepted (trimmed_trim _) (kind ▸ .positive numeral lt zero)

theorem told_readShards (hname : v.name = "FIBER_REGISTRY_SHARDS") (kind : v.kind = .shards)
    (default : v.field defaults = .number (2 ^ k)) :
    v.Told defaults raw? (.number (readShards raw? (2 ^ k)).value)
      (readShards raw? (2 ^ k)).notices := by
  have pos : 2 ^ k ≠ 0 := (Nat.two_pow_pos k).ne'
  have power : Word.isPowerOfTwo (2 ^ k) = true := Word.isPowerOfTwo_iff.2 ⟨k, rfl⟩
  rw [readShards, ← hname]
  cases raw? with
  | none =>
    rw [readPositive_none pos, if_pos power]
    exact told_absent default
  | some raw =>
    cases word : wordOf? (trim raw.toList) with
    | none =>
      rw [readPositive_of_unreadable pos word, if_pos power]
      exact told_unreadable (by simp [kind]) default word
    | some n =>
      by_cases zero : n = 0
      · subst zero
        rw [readPositive_of_zero word, if_pos power]
        exact told_zero default (.inr kind) word
      · obtain ⟨numeral, lt⟩ := wordOf?_eq_some_iff.1 word
        rw [readPositive_of_word word zero]
        split_ifs with power'
        · obtain ⟨k, rfl⟩ := Word.isPowerOfTwo_iff.1 power'
          exact .accepted (trimmed_trim _) (kind ▸ .shards numeral lt rfl)
        · rw [← default]
          refine Variable.told_of_refusal (trimmed_trim _) (by simp [kind])
            (.shards default kind numeral lt zero fun k eq => power' ?_)
          exact Word.isPowerOfTwo_iff.2 ⟨k, eq⟩

theorem told_readFlag {fallback : Bool} (kind : v.kind = .flag)
    (default : v.field defaults = .flag fallback) :
    v.Told defaults raw? (.flag (readFlag v.name raw? fallback).value)
      (readFlag v.name raw? fallback).notices := by
  cases raw? with
  | none => exact told_absent default
  | some raw =>
    have trimmed := trimmed_trim raw.toList
    rw [readFlag.eq_def]
    simp only []
    split
    case h_1 blank =>
      rw [List.map_eq_nil_iff.1 blank] at trimmed
      exact default ▸ .blank kind trimmed
    case h_2 nonblank =>
      split
      case h_1 b word => exact .accepted trimmed (kind ▸ .flag (flagOf?_toLower_eq_some_iff.1 word))
      case h_2 unreadable =>
        rw [← default]
        refine Variable.told_of_refusal trimmed (fun blank => nonblank (by simp [blank.2]))
          (.flag default kind fun b word => ?_)
        rw [flagOf?_toLower_eq_some_iff.2 word] at unreadable
        cases unreadable

end Readers

section Geometry

/-- The settings with the stack geometry of the defaults. -/
def withDefaultGeometry (s : Settings) : Settings :=
  { s with
    stackSize := 262144
    shadowPages := 20
    yellowPages := 2
    redPages := 1
    stacksPerSlab := 64 }

variable {s : Settings} {k : Nat}

theorem field_withDefaultGeometry :
    ∀ v ∈ variableTable, v.geometry = false → v.field s.withDefaultGeometry = v.field s := by
  simp [variableTable, withDefaultGeometry]

theorem withUsableGeometry_eq (hk : k ≤ 64) (hslab : 0 < s.stacksPerSlab) :
    s.withUsableGeometry (2 ^ k) =
      if 2 ^ 64 ≤ s.stacksPerSlab * s.stackBytes (2 ^ k) then
        ⟨s.withDefaultGeometry, [.geometryOverflow s.stackSize s.stacksPerSlab]⟩
      else ⟨s, []⟩ := by
  have overflow : s.slabBytes? (2 ^ k) = none ↔
      2 ^ 64 ≤ s.stacksPerSlab * s.stackBytes (2 ^ k) := by
    rw [slabBytes?_eq_checked hk hslab, Word.checked_eq_none_iff, Word.bound_eq]
  simp only [withUsableGeometry, overflow]
  rfl

end Geometry

/-- What the variables ask for one by one, before the stack geometry is looked at. -/
theorem exists_asked (debug : Bool) (lookup : String → Option String) (page : Nat) :
    ∃ asked warnings,
      (ofVariables debug lookup page).value = (asked.withUsableGeometry page).value ∧
      List.Forall₂
        (fun v notices => v.Told (.standard debug) (lookup v.name) (v.field asked) notices)
        variableTable warnings ∧
      0 < asked.stacksPerSlab ∧
      (ofVariables debug lookup page).notices =
        warnings.flatten ++ (asked.withUsableGeometry page).notices := by
  -- the settings and the notices are what the parts below are about
  apply Exists.intro
  apply Exists.intro
  refine ⟨rfl, ?told, ?slab, ?notices⟩
  case told =>
    exact .cons (told_readPositive rfl rfl (Nat.succ_ne_zero _)) <| .cons (told_readNumber rfl rfl) <|
      .cons (told_readNumber rfl rfl) <| .cons (told_readNumber rfl rfl) <|
      .cons (told_readFlag rfl rfl) <| .cons (told_readPositive rfl rfl (Nat.succ_ne_zero _)) <|
      .cons (told_readNumber rfl rfl) <| .cons (told_readShards rfl rfl (k := 8) rfl) <|
      .cons (told_readNumber rfl rfl) <| .cons (told_readFlag rfl rfl) <|
      .cons (told_readFlag rfl rfl) <| .cons (told_readFlag rfl rfl) <|
      .cons (told_readPositive rfl rfl (Nat.succ_ne_zero _)) .nil
  case slab => exact Nat.pos_of_ne_zero (readPositive_value_ne_zero (Nat.succ_ne_zero _))
  case notices =>
    simp only [ofVariables, List.flatten_cons, List.flatten_nil, List.append_nil, List.append_assoc]
    rfl

theorem exists_mem_of_forall₂ {α β : Type} {R : α → β → Prop} {as : List α} {bs : List β} {a : α}
    (h : as.Forall₂ R bs) (ha : a ∈ as) : ∃ b ∈ bs, R a b := by
  induction h with
  | nil => cases ha
  | @cons a' b as bs hab _ ih =>
    rcases List.mem_cons.1 ha with rfl | ha
    · exact ⟨b, List.mem_cons_self, hab⟩
    · obtain ⟨b', hb', hR⟩ := ih ha
      exact ⟨b', List.mem_cons_of_mem _ hb', hR⟩

/-- A variable that is not blank and of which nothing is noticed has its way. -/
theorem Variable.Told.accepts {v : Variable} {raw : String} {cs : List Char} {value : Value}
    {defaults : Settings} (h : v.Told defaults (some raw) value [])
    (trimmed : Trimmed raw.toList cs) (nonblank : cs ≠ []) :
    v.kind.Accepts cs value := by
  cases h with
  | blank _ trimmed' => exact absurd (trimmed.unique trimmed') nonblank
  | accepted trimmed' accepts => exact trimmed.unique trimmed' ▸ accepts

/-- Outside the stack geometry nothing is changed after the variables have been read. -/
theorem told_field (debug : Bool) (lookup : String → Option String) {k : Nat} (hk : k ≤ 64)
    {v : Variable} (mem : v ∈ variableTable) (geometry : v.geometry = false) :
    ∃ notices, v.Told (.standard debug) (lookup v.name)
      (v.field (ofVariables debug lookup (2 ^ k)).value) notices := by
  obtain ⟨asked, warnings, value, told, hslab, -⟩ := exists_asked debug lookup (2 ^ k)
  obtain ⟨notices, -, told⟩ := exists_mem_of_forall₂ told mem
  have field : v.field (ofVariables debug lookup (2 ^ k)).value = v.field asked := by
    rw [value, withUsableGeometry_eq hk hslab]
    split_ifs
    · exact field_withDefaultGeometry v mem geometry
    · rfl
  exact ⟨notices, field ▸ told⟩

/-- The settings that any variables give, however the library was built and with pages of any size
that is a power of two. What is
asked for comes from the variables one by one; if the slab that it makes has no 64-bit size, the
defaults of the stack geometry are taken. What is noticed is noticed of the variables in their
order, and then of the geometry. So if nothing is noticed, every variable that is not blank has its
way; and whatever happens, no other variable has a say in a setting outside the geometry. -/
theorem told_ofVariables (debug : Bool) (lookup : String → Option String) {k : Nat}
    (hk : k ≤ 64) :
    ∃ asked warnings,
      List.Forall₂
        (fun v notices => v.Told (.standard debug) (lookup v.name) (v.field asked) notices)
        variableTable warnings ∧
      (ofVariables debug lookup (2 ^ k)).value =
        (if 2 ^ 64 ≤ asked.stacksPerSlab * asked.stackBytes (2 ^ k) then asked.withDefaultGeometry
          else asked) ∧
      (ofVariables debug lookup (2 ^ k)).notices = warnings.flatten ++
        (if 2 ^ 64 ≤ asked.stacksPerSlab * asked.stackBytes (2 ^ k) then
          [.geometryOverflow asked.stackSize asked.stacksPerSlab] else []) ∧
      ((ofVariables debug lookup (2 ^ k)).notices = [] →
        ∀ v ∈ variableTable, ∀ raw cs, lookup v.name = some raw → Trimmed raw.toList cs → cs ≠ [] →
          v.kind.Accepts cs (v.field (ofVariables debug lookup (2 ^ k)).value)) ∧
      ∀ lookup' : String → Option String, ∀ v ∈ variableTable, v.geometry = false →
        lookup' v.name = lookup v.name →
        v.field (ofVariables debug lookup' (2 ^ k)).value
          = v.field (ofVariables debug lookup (2 ^ k)).value := by
  obtain ⟨asked, warnings, value, told, hslab, notices⟩ := exists_asked debug lookup (2 ^ k)
  rw [withUsableGeometry_eq hk hslab] at value notices
  refine ⟨asked, warnings, told, ?value, ?notices, ?silent, ?alone⟩
  case value =>
    rw [value]
    split_ifs <;> rfl
  case notices =>
    rw [notices]
    split_ifs <;> rfl
  case silent =>
    intro silent v mem raw cs present trimmed nonblank
    rw [silent] at notices
    obtain ⟨none, usable⟩ := List.append_eq_nil_iff.1 notices.symm
    obtain ⟨ns, hns, told⟩ := exists_mem_of_forall₂ told mem
    obtain rfl := List.flatten_eq_nil_iff.1 none ns hns
    split_ifs at value usable
    rw [value]
    exact (present ▸ told).accepts trimmed nonblank
  case alone =>
    intro lookup' v mem geometry same
    obtain ⟨_, told⟩ := told_field debug lookup hk mem geometry
    obtain ⟨_, told'⟩ := told_field debug lookup' hk mem geometry
    exact (same ▸ told').unique told

/-- A size with a sign, a zero in front and white space around it, a blank flag, a shard count that
is refused and a flag in capitals, with pages of 4096 bytes. -/
theorem told_ofVariables_of_four : ∃ lookup asked warnings,
    lookup = (fun name => match name with
      | "FIBER_STACK_SIZE" => some " +065536\n"
      | "FIBER_GUARD_PAGES" => some " "
      | "FIBER_REGISTRY_SHARDS" => some "48"
      | "FIBER_HEAVY_MONITORS" => some "YES"
      | _ => none)
      ∧ List.Forall₂
          (fun v notices => v.Told (.standard true) (lookup v.name) (v.field asked) notices)
          variableTable warnings
      ∧ (ofVariables true lookup (2 ^ 12)).value
        = { stackSize := 65536, heavyMonitors := true, verifyOnYield := true }
      ∧ (ofVariables true lookup (2 ^ 12)).notices = [.shardsNotPowerOfTwo 48 256] := by
  let lookup (name : String) : Option String :=
    match name with
    | "FIBER_STACK_SIZE" => some " +065536\n"
    | "FIBER_GUARD_PAGES" => some " "
    | "FIBER_REGISTRY_SHARDS" => some "48"
    | "FIBER_HEAVY_MONITORS" => some "YES"
    | _ => none
  obtain ⟨asked, warnings, told, -⟩ := told_ofVariables true lookup (k := 12) (by decide)
  refine ⟨_, asked, warnings, rfl, told, ?value, ?notices⟩
  case value => decide +kernel
  case notices => decide +kernel

end PooledFibers.Settings
