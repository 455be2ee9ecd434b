import Mathlib.Data.List.Forall2
import Mathlib.Data.List.TakeWhile
import Mathlib.Data.Nat.Digits.Defs
import Mathlib.Tactic.Common
import PooledFibers.Proofs.Alignment
import PooledFibers.Settings.Environment

/-!
# What the values of variables look like

The white space around a value does not count (`Text.Trimmed`). A number is written in decimal
digits, after a plus sign or not (`Text.Numeral`); a flag is one of eight words in upper or lower
case (`Settings.FlagWord`). The readers accept these texts and no others (`Text.trim_eq_iff`,
`Text.wordOf?_eq_some_iff`, `Settings.flagOf?_eq_some_iff`).
-/

namespace PooledFibers

namespace Text

/-- The characters of the Unicode property White_Space. -/
def WhiteSpace (c : Char) : Prop :=
  c.toNat ∈ [0x09, 0x0A, 0x0B, 0x0C, 0x0D, 0x20, 0x85, 0xA0, 0x1680, 0x2000, 0x2001, 0x2002, 0x2003,
    0x2004, 0x2005, 0x2006, 0x2007, 0x2008, 0x2009, 0x200A, 0x2028, 0x2029, 0x202F, 0x205F, 0x3000]

/-- What is left of a text without the white space at its two ends. -/
structure Trimmed (raw core : List Char) : Prop where
  around : ∃ before after, raw = before ++ core ++ after ∧
    (∀ c ∈ before, WhiteSpace c) ∧ ∀ c ∈ after, WhiteSpace c
  first : ∀ c ∈ core.head?, ¬WhiteSpace c
  last : ∀ c ∈ core.getLast?, ¬WhiteSpace c

/-- One or more decimal digits, after a plus sign or not, and their value. -/
def Numeral (cs : List Char) (n : Nat) : Prop :=
  ∃ digits, (cs = digits ∨ cs = '+' :: digits) ∧ digits ≠ [] ∧
    (∀ c ∈ digits, '0' ≤ c ∧ c ≤ '9') ∧
    n = Nat.ofDigits 10 (digits.reverse.map fun c => c.toNat - '0'.toNat)

variable {c : Char} {cs raw core : List Char} {n : Nat}

section Trim

theorem isBlank_iff : isBlank c = true ↔ WhiteSpace c := by
  simp only [isBlank, blankRanges, WhiteSpace, List.any_cons, List.any_nil, Bool.or_false,
    Bool.or_eq_true, Bool.and_eq_true, decide_eq_true_eq, List.mem_cons, List.not_mem_nil, or_false]
  omega

theorem dropWhile_isBlank_append {before : List Char} (blank : ∀ c ∈ before, WhiteSpace c) :
    (before ++ cs).dropWhile isBlank = cs.dropWhile isBlank :=
  List.dropWhile_append_of_pos fun c hc => isBlank_iff.2 (blank c hc)

theorem dropWhile_isBlank_eq_self (first : ∀ c ∈ cs.head?, ¬WhiteSpace c) :
    cs.dropWhile isBlank = cs := by
  cases cs with
  | nil => rfl
  | cons c cs => exact List.dropWhile_cons_of_neg (mt isBlank_iff.1 (first c rfl))

theorem head?_dropWhile_isBlank (cs : List Char) :
    ∀ c ∈ (cs.dropWhile isBlank).head?, ¬WhiteSpace c := by
  intro c hc
  have := List.head?_dropWhile_not isBlank cs
  rw [Option.mem_def.1 hc] at this
  exact fun h => by simp [isBlank_iff.2 h] at this

theorem trimmed_trim (raw : List Char) : Trimmed raw (trim raw) := by
  have front := List.takeWhile_append_dropWhile (p := isBlank) (l := raw)
  have back := List.takeWhile_append_dropWhile (p := isBlank) (l := (raw.dropWhile isBlank).reverse)
  have split : raw.dropWhile isBlank =
      trim raw ++ ((raw.dropWhile isBlank).reverse.takeWhile isBlank).reverse := by
    rw [trim, ← List.reverse_append, back, List.reverse_reverse]
  refine ⟨⟨_, _, by rw [List.append_assoc, ← split, front], fun c hc => ?_, fun c hc => ?_⟩, ?_, ?_⟩
  · exact isBlank_iff.1 (List.mem_takeWhile_imp hc)
  · exact isBlank_iff.1 (List.mem_takeWhile_imp (List.mem_reverse.1 hc))
  · intro c hc
    refine head?_dropWhile_isBlank raw c ?_
    rw [split, List.head?_append, Option.mem_def.1 hc]
    rfl
  · rw [trim, List.getLast?_reverse]
    exact head?_dropWhile_isBlank _

theorem trim_eq_iff : trim raw = core ↔ Trimmed raw core := by
  refine ⟨fun h => h ▸ trimmed_trim raw, ?_⟩
  rintro ⟨⟨before, after, rfl, blankBefore, blankAfter⟩, first, last⟩
  have dropped : (after.reverse ++ core.reverse).dropWhile isBlank = core.reverse := by
    rw [dropWhile_isBlank_append fun c hc => blankAfter c (List.mem_reverse.1 hc)]
    exact dropWhile_isBlank_eq_self (by simpa using last)
  rw [trim, List.append_assoc, dropWhile_isBlank_append blankBefore]
  cases core with
  | nil =>
    have all : (after ++ []).dropWhile isBlank = [].dropWhile isBlank :=
      dropWhile_isBlank_append blankAfter
    rw [List.append_nil] at all
    rw [List.nil_append, all]
    rfl
  | cons c cs =>
    have kept : (c :: cs ++ after).dropWhile isBlank = c :: cs ++ after :=
      dropWhile_isBlank_eq_self first
    rw [kept, List.reverse_append, dropped, List.reverse_reverse]

theorem Trimmed.unique {core' : List Char} (h : Trimmed raw core) (h' : Trimmed raw core') :
    core = core' :=
  (trim_eq_iff.2 h).symm.trans (trim_eq_iff.2 h')

end Trim

section Numeral

theorem isDigit_iff : c.isDigit = true ↔ '0' ≤ c ∧ c ≤ '9' := by
  simp [Char.isDigit, Char.le_def]

theorem digitsValue_eq (cs : List Char) :
    digitsValue cs = Nat.ofDigits 10 (cs.reverse.map fun c => c.toNat - '0'.toNat) := by
  induction cs using List.reverseRecOn with
  | nil => rfl
  | append_singleton cs c ih =>
    rw [digitsValue, List.foldl_append, ← digitsValue, ih, List.reverse_append, List.reverse_singleton,
      List.singleton_append, List.map_cons, Nat.ofDigits_cons, Nat.add_comm]
    rfl

theorem withoutPlus_eq_iff {digits : List Char} (h : ∀ c ∈ digits, '0' ≤ c ∧ c ≤ '9') :
    withoutPlus cs = digits ↔ cs = digits ∨ cs = '+' :: digits := by
  rw [withoutPlus.eq_def]
  split
  case h_1 rest =>
    have plus : '+' :: rest ≠ digits := by
      rintro rfl
      exact absurd (h '+' List.mem_cons_self).1 (by decide)
    simp [plus]
  case h_2 notPlus =>
    have plus : cs ≠ '+' :: digits := notPlus digits
    simp [plus]

theorem Numeral.unique {n' : Nat} (h : Numeral cs n) (h' : Numeral cs n') : n = n' := by
  obtain ⟨digits, eq, -, hdigits, rfl⟩ := h
  obtain ⟨digits', eq', -, hdigits', rfl⟩ := h'
  rw [← (withoutPlus_eq_iff hdigits).2 eq, ← (withoutPlus_eq_iff hdigits').2 eq']

theorem wordOf?_eq_some_iff : wordOf? cs = some n ↔ Numeral cs n ∧ n < 2 ^ 64 := by
  have reads : wordOf? cs = some n ↔ (withoutPlus cs ≠ [] ∧ ∀ c ∈ withoutPlus cs, '0' ≤ c ∧ c ≤ '9') ∧
      digitsValue (withoutPlus cs) = n ∧ n < 2 ^ 64 := by
    simp only [wordOf?, List.all_eq_true, isDigit_iff, Option.ite_none_right_eq_some,
      Word.checked_eq_some_iff, Word.bound_eq]
    constructor
    · rintro ⟨digits, lt, rfl⟩
      exact ⟨digits, rfl, lt⟩
    · rintro ⟨digits, rfl, lt⟩
      exact ⟨digits, lt, rfl⟩
  rw [reads]
  constructor
  · rintro ⟨⟨nonempty, digits⟩, rfl, lt⟩
    exact ⟨⟨_, (withoutPlus_eq_iff digits).1 rfl, nonempty, digits, digitsValue_eq _⟩, lt⟩
  · rintro ⟨⟨digits, eq, nonempty, hdigits, rfl⟩, lt⟩
    obtain rfl := (withoutPlus_eq_iff hdigits).2 eq
    exact ⟨⟨nonempty, hdigits⟩, digitsValue_eq _, lt⟩

end Numeral

end Text

namespace Settings

/-- The character `d`, or the upper case of it if it is a lower-case letter. -/
def IsCaseOf (c d : Char) : Prop :=
  c = d ∨ 'a'.toNat ≤ d.toNat ∧ d.toNat ≤ 'z'.toNat ∧ c.toNat + 32 = d.toNat

/-- One of the eight words, each letter in upper or lower case. -/
def FlagWord (cs : List Char) (b : Bool) : Prop :=
  ∃ word ∈ if b then ["1", "true", "yes", "on"] else ["0", "false", "no", "off"],
    cs.Forall₂ IsCaseOf word.toList

theorem toNat_toLower (c : Char) :
    c.toLower.toNat = if 65 ≤ c.toNat ∧ c.toNat ≤ 90 then c.toNat + 32 else c.toNat := by
  have codes : 'A'.val.toNat = 65 ∧ 'Z'.val.toNat = 90 := ⟨rfl, rfl⟩
  have distance : ('a'.val - 'A'.val).toNat = 32 := rfl
  delta Char.toLower
  simp only [Char.toNat, ge_iff_le, UInt32.le_iff_toNat_le, codes]
  split_ifs with upper
  · simp only [UInt32.toNat_add, distance]
    omega
  · rfl

theorem toLower_eq_iff {c d : Char} (lower : ¬(65 ≤ d.toNat ∧ d.toNat ≤ 90)) :
    c.toLower = d ↔ IsCaseOf c d := by
  have codes : 'a'.toNat = 97 ∧ 'z'.toNat = 122 := ⟨rfl, rfl⟩
  rw [IsCaseOf, ← Char.toNat_inj, ← Char.toNat_inj, toNat_toLower]
  split_ifs <;> omega

theorem map_toLower_eq_iff {cs word : List Char}
    (lower : ∀ d ∈ word, ¬(65 ≤ d.toNat ∧ d.toNat ≤ 90)) :
    cs.map Char.toLower = word ↔ cs.Forall₂ IsCaseOf word := by
  induction word generalizing cs with
  | nil => simp
  | cons d word ih =>
    obtain ⟨first, rest⟩ := List.forall_mem_cons.1 lower
    cases cs with
    | nil => simp
    | cons c cs =>
      rw [List.map_cons, List.cons_eq_cons, toLower_eq_iff first, ih rest, List.forall₂_cons]

theorem flagOf?_eq_some_iff {word : List Char} {b : Bool} :
    flagOf? word = some b ↔
      ∃ w ∈ if b then ["1", "true", "yes", "on"] else ["0", "false", "no", "off"],
        word = w.toList := by
  have disjoint : ∀ w ∈ ["0", "false", "no", "off"], w ∉ ["1", "true", "yes", "on"] := by decide
  have words (l : List String) : (∃ w ∈ l, word = w.toList) ↔ String.ofList word ∈ l := by
    constructor
    · rintro ⟨w, mem, rfl⟩
      rwa [String.ofList_toList]
    · exact fun mem => ⟨_, mem, String.toList_ofList.symm⟩
  rw [words]
  simp only [flagOf?]
  cases b with
  | true =>
    simp only [if_true]
    split_ifs with yes no
    · exact iff_of_true rfl yes
    · exact iff_of_false nofun yes
    · exact iff_of_false nofun yes
  | false =>
    simp only [Bool.false_eq_true, if_false]
    split_ifs with yes no
    · exact iff_of_false nofun fun no => disjoint _ no yes
    · exact iff_of_true rfl no
    · exact iff_of_false nofun no

/-- The reader accepts the eight words and nothing else. -/
theorem flagOf?_toLower_eq_some_iff {cs : List Char} {b : Bool} :
    flagOf? (cs.map Char.toLower) = some b ↔ FlagWord cs b := by
  have lower : ∀ w ∈ if b then ["1", "true", "yes", "on"] else ["0", "false", "no", "off"],
      ∀ d ∈ w.toList, ¬(65 ≤ d.toNat ∧ d.toNat ≤ 90) := by
    cases b <;> simp
  rw [flagOf?_eq_some_iff]
  exact exists_congr fun w => and_congr_right fun mem => map_toLower_eq_iff (lower w mem)

theorem FlagWord.unique {cs : List Char} {b b' : Bool} (h : FlagWord cs b) (h' : FlagWord cs b') :
    b = b' :=
  Option.some.inj
    ((flagOf?_toLower_eq_some_iff.2 h).symm.trans (flagOf?_toLower_eq_some_iff.2 h'))

end Settings

end PooledFibers
