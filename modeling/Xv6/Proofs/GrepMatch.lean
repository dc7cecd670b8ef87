/-
Purpose: The matcher of grep decides the regular language that its patterns denote.
-/
import Xv6.User.Grep
import Mathlib.Computability.Language

namespace Xv6.Grep

open Language (mem_mul mem_one)

/-- One item of a pattern: a character, or a character with `*` behind it. -/
inductive Atom where
  | once (c : UInt8)
  | many (c : UInt8)

/-- The character `c` of a pattern stands for `x`. -/
def Stands (c x : UInt8) : Prop := c = DOT ∨ c = x

/-- The words of an item. -/
def Atom.language : Atom → Language UInt8
  | .once c => {word | ∃ x, Stands c x ∧ word = [x]}
  | .many c => {word | ∀ x ∈ word, Stands c x}

/-- The items of a pattern without its `^`, and whether a `$` that is no item closes it. -/
def readAtoms : List UInt8 → List Atom × Bool
  | [] => ([], false)
  | [c] => if c = DOLLAR then ([], true) else ([.once c], false)
  | c :: d :: re =>
    if d = STAR then ((readAtoms re).1.cons (.many c), (readAtoms re).2)
    else ((readAtoms (d :: re)).1.cons (.once c), (readAtoms (d :: re)).2)

/-- The words that a pattern without its `^` denotes. -/
def words (re : List UInt8) : Language UInt8 := ((readAtoms re).1.map Atom.language).prod

/-- Some part of the text is a word of the pattern, the part being a prefix where the pattern
starts with `^` and a suffix where it ends with `$`. -/
def Occurs (re text : List UInt8) : Prop :=
  let anchored := re.head? = some CARET
  let re := if anchored then re.tail else re
  ∃ before word after, text = before ++ (word ++ after) ∧ word ∈ words re ∧
    (anchored → before = []) ∧ ((readAtoms re).2 = true → after = [])

/-- A word of the pattern starts the text. -/
def Starts (re text : List UInt8) : Prop :=
  ∃ word after, text = word ++ after ∧ word ∈ words re ∧ ((readAtoms re).2 = true → after = [])

theorem matchone_iff {next : List UInt8 → Bool} {c : UInt8} {text : List UInt8} :
    matchone next c text = true ↔ ∃ x rest, text = x :: rest ∧ Stands c x ∧ next rest = true := by
  cases text with
  | nil => simp [matchone]
  | cons x text => simp [matchone, Stands]

theorem matchstar_iff {here : List UInt8 → Bool} {c : UInt8} {text : List UInt8} :
    matchstar here c text = true ↔
      ∃ run rest, text = run ++ rest ∧ (∀ x ∈ run, Stands c x) ∧ here rest = true := by
  induction text with
  | nil =>
    constructor
    · exact fun found => ⟨[], [], rfl, by simp, found⟩
    · rintro ⟨run, rest, split, -, found⟩
      rw [(List.nil_eq_append_iff.mp split).2] at found
      exact found
  | cons x text ih =>
    have test : (x == c || c == DOT) = true ↔ Stands c x := by
      rw [Bool.or_eq_true, beq_iff_eq, beq_iff_eq, or_comm, eq_comm (a := x)]
      exact Iff.rfl
    rw [matchstar, Bool.or_eq_true, Bool.and_eq_true, test, ih]
    constructor
    · rintro (found | ⟨stands, run, rest, rfl, all, found⟩)
      · exact ⟨[], x :: text, rfl, by simp, found⟩
      · exact ⟨x :: run, rest, rfl, List.forall_mem_cons.mpr ⟨stands, all⟩, found⟩
    · rintro ⟨run, rest, split, all, found⟩
      cases run with
      | nil =>
        rw [split]
        exact Or.inl found
      | cons y run =>
        obtain ⟨rfl, rfl⟩ := List.cons.inj split
        obtain ⟨stands, all⟩ := List.forall_mem_cons.mp all
        exact Or.inr ⟨stands, run, rest, rfl, all, found⟩

theorem starts_nil (text : List UInt8) : Starts [] text :=
  ⟨[], text, rfl, mem_one [] |>.mpr rfl, by simp [readAtoms]⟩

theorem starts_once {c : UInt8} {re re' : List UInt8} {text : List UInt8}
    (read : readAtoms re' = ((readAtoms re).1.cons (.once c), (readAtoms re).2)) :
    Starts re' text ↔ ∃ x rest, text = x :: rest ∧ Stands c x ∧ Starts re rest := by
  unfold Starts words
  rw [read]
  constructor
  · rintro ⟨_, after, rfl, mem, last⟩
    obtain ⟨_, ⟨x, stands, rfl⟩, word, inside, rfl⟩ := mem_mul.mp mem
    exact ⟨x, word ++ after, rfl, stands, word, after, rfl, inside, last⟩
  · rintro ⟨x, _, rfl, stands, word, after, rfl, inside, last⟩
    exact ⟨[x] ++ word, after, rfl, mem_mul.mpr ⟨[x], ⟨x, stands, rfl⟩, word, inside, rfl⟩, last⟩

theorem matchhere_iff (re text : List UInt8) : matchhere re text = true ↔ Starts re text := by
  induction re using readAtoms.induct generalizing text with
  | case1 => exact iff_of_true rfl (starts_nil text)
  | case2 =>
    rw [matchhere, if_pos rfl, List.isEmpty_iff]
    constructor
    · rintro rfl
      exact ⟨[], [], rfl, mem_one [] |>.mpr rfl, fun _ => rfl⟩
    · rintro ⟨word, after, rfl, mem, last⟩
      rw [mem_one word |>.mp mem, last rfl]
      rfl
  | case3 c plain =>
    have read : readAtoms [c] = ((readAtoms []).1.cons (.once c), (readAtoms []).2) := if_neg plain
    simp only [matchhere, if_neg plain, starts_once read, matchone_iff, starts_nil]
  | case4 c re ih =>
    rw [matchhere, if_pos rfl, matchstar_iff]
    unfold Starts words
    rw [readAtoms, if_pos rfl]
    constructor
    · rintro ⟨run, rest, rfl, all, found⟩
      obtain ⟨word, after, rfl, mem, last⟩ := (ih rest).mp found
      exact ⟨run ++ word, after, (List.append_assoc ..).symm,
        mem_mul.mpr ⟨run, all, word, mem, rfl⟩, last⟩
    · rintro ⟨_, after, rfl, mem, last⟩
      obtain ⟨run, all, word, inside, rfl⟩ := mem_mul.mp mem
      exact ⟨run, word ++ after, List.append_assoc .., all,
        (ih _).mpr ⟨word, after, rfl, inside, last⟩⟩
  | case5 c d re plain ih =>
    have read : readAtoms (c :: d :: re) =
        ((readAtoms (d :: re)).1.cons (.once c), (readAtoms (d :: re)).2) := by
      rw [readAtoms, if_neg plain]
    rw [starts_once read, matchhere, if_neg plain, matchone_iff]
    simp only [ih]

/-- Looking at every suffix is looking for `.*` in front. -/
theorem matchSuffixes_eq (re text : List UInt8) :
    matchSuffixes re text = matchstar (matchhere re) DOT text := by
  induction text with
  | nil => rfl
  | cons x text ih => simp [matchSuffixes, matchstar, ih]

theorem matchSuffixes_iff (re text : List UInt8) : matchSuffixes re text = true ↔
    ∃ before rest, text = before ++ rest ∧ Starts re rest := by
  simp [matchSuffixes_eq, matchstar_iff, matchhere_iff, Stands]

/-- `match` answers 1 exactly when the pattern occurs in the text. -/
theorem matchRe_iff (re text : List UInt8) : matchRe re text = true ↔ Occurs re text := by
  unfold Occurs matchRe
  split
  · rw [matchSuffixes_iff]
    simp [Starts]
  · split
    · rename_i caret
      rw [matchhere_iff]
      simp [Starts, caret]
    · rename_i plain
      rw [matchSuffixes_iff]
      simp [Starts, plain]

end Xv6.Grep
