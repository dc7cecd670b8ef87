/-
Purpose: Fixed-size tables of reference counts, searched linearly, and the
  invariant that ties every count to the holders of its key.
-/
import Mathlib.Data.Fintype.EquivFin
import Mathlib.Data.List.FinRange
import Mathlib.Tactic.Common

namespace RefTable

open Function
open Finset (univ)

/-- One table entry.  An entry whose count is zero is vacant, whatever key it
still carries. -/
structure Entry (κ : Type) where
  addr : κ
  count : Int
deriving Repr, DecidableEq, Inhabited

/-- A table of `n` entries. -/
abbrev Table (κ : Type) (n : Nat) := Fin n → Entry κ

variable {κ ι : Type} {n : Nat}

/-- Add one reference to the entry at `i`. -/
def bump (table : Table κ n) (i : Fin n) : Table κ n :=
  update table i { table i with count := (table i).count + 1 }

/-- Open the entry at `i` for `key`. -/
def claim (table : Table κ n) (i : Fin n) (key : κ) : Table κ n :=
  update table i { addr := key, count := 1 }

/-- Drop one reference from the entry at `i`. -/
def drop (table : Table κ n) (i : Fin n) : Table κ n :=
  update table i { table i with count := (table i).count - 1 }

/-- First vacant entry. -/
def vacant (table : Table κ n) : Option (Fin n) :=
  (List.finRange n).find? fun i => decide ((table i).count = 0)

theorem vacant_none {table : Table κ n} (missing : vacant table = none)
    (i : Fin n) : (table i).count ≠ 0 := by
  have never := List.find?_eq_none.mp missing i (List.mem_finRange i)
  simpa using never

theorem bump_entry (table : Table κ n) (i j : Fin n) : (bump table i j).addr = (table j).addr ∧
      (bump table i j).count = (table j).count + if i = j then 1 else 0 := by
  by_cases here : j = i
  · subst here
    simp [bump]
  · simp [bump, here, Ne.symm here]

theorem drop_entry (table : Table κ n) (i j : Fin n) : (drop table i j).addr = (table j).addr ∧
      (drop table i j).count = (table j).count - if i = j then 1 else 0 := by
  by_cases here : j = i
  · subst here
    simp [drop]
  · simp [drop, here, Ne.symm here]

theorem claim_self (table : Table κ n) (i : Fin n) (key : κ) :
    claim table i key i = { addr := key, count := 1 } := by
  simp [claim]

theorem claim_of_ne (table : Table κ n) {i j : Fin n} (key : κ)
    (away : j ≠ i) : claim table i key j = table j := by
  simp [claim, away]

section Search

variable [DecidableEq κ]
variable {key : κ}

/-- First entry in use for `key`. -/
def find (table : Table κ n) (key : κ) : Option (Fin n) :=
  (List.finRange n).find? fun i =>
    decide (0 < (table i).count ∧ (table i).addr = key)

/-- The count recorded for `key`. -/
def count (table : Table κ n) (key : κ) : Int :=
  match find table key with
  | some i => (table i).count
  | none => 0

/-- Add a reference to `key`: count the entry in use for it, or open a vacant
one.  A full table loses the reference silently. -/
def retain (table : Table κ n) (key : κ) : Table κ n :=
  match find table key with
  | some i => bump table i
  | none =>
    match vacant table with
    | some i => claim table i key
    | none => table

/-- Drop a reference to `key`; `none` reports that no entry was in use. -/
def release (table : Table κ n) (key : κ) : Option Int × Table κ n :=
  match find table key with
  | some i => (some ((table i).count - 1), drop table i)
  | none => (none, table)

theorem find_some {table : Table κ n} {i : Fin n} (found : find table key = some i) :
    0 < (table i).count ∧ (table i).addr = key := by
  have holds := List.find?_some found
  simpa using holds

theorem find_none {table : Table κ n} (missing : find table key = none) (i : Fin n)
    (inUse : 0 < (table i).count) : (table i).addr ≠ key := by
  intro same
  have never := List.find?_eq_none.mp missing i (List.mem_finRange i)
  simp [inUse, same] at never

end Search

/-! ## Counts and holders -/

section Holders

variable [DecidableEq κ] [Fintype ι]
variable {key : κ}

/-- Number of parties that hold `key`. -/
def holdersOf (held : ι → Option κ) (key : κ) : Nat :=
  (univ.filter fun p => held p = some key).card

/-- No count is negative, every entry in use counts exactly the holders of its
key, no key has two entries in use, and every held key has one. -/
structure Counts (table : Table κ n) (held : ι → Option κ) : Prop where
  nonneg : ∀ i, 0 ≤ (table i).count
  unique : ∀ i j, 0 < (table i).count → 0 < (table j).count →
    (table i).addr = (table j).addr → i = j
  exact : ∀ i, 0 < (table i).count → (table i).count = holdersOf held (table i).addr
  covered : ∀ p key, held p = some key → ∃ i, 0 < (table i).count ∧ (table i).addr = key

theorem holdersOf_pos {held : ι → Option κ} {p : ι}
    (holds : held p = some key) : 0 < holdersOf held key := by
  apply Finset.card_pos.mpr
  exact ⟨p, by simp [holds]⟩

theorem exists_of_holdersOf_pos {held : ι → Option κ}
    (pos : 0 < holdersOf held key) : ∃ p, held p = some key := by
  obtain ⟨p, mem⟩ := Finset.card_pos.mp pos
  exact ⟨p, by simpa using mem⟩

namespace Counts

variable {table : Table κ n} {held : ι → Option κ}

/-- A held key is found at the one entry in use for it. -/
theorem find_of_inUse (counts : Counts table held) {i : Fin n}
    (inUse : 0 < (table i).count) : find table (table i).addr = some i := by
  cases search : find table (table i).addr with
  | some j =>
    obtain ⟨usedJ, sameJ⟩ := find_some search
    rw [counts.unique j i usedJ inUse sameJ]
  | none => exact absurd rfl (find_none search i inUse)

theorem count_eq (counts : Counts table held) (key : κ) : count table key = holdersOf held key := by
  unfold count
  cases found : find table key with
  | some i =>
    obtain ⟨inUse, same⟩ := find_some found
    simp only
    rw [counts.exact i inUse, same]
  | none =>
    simp only
    by_contra differs
    have pos : 0 < holdersOf held key := by omega
    obtain ⟨p, holds⟩ := exists_of_holdersOf_pos pos
    obtain ⟨i, inUse, same⟩ := counts.covered p key holds
    exact find_none found i inUse same

/-- As long as some party holds nothing and the table has an entry for every
party, the table is not full. -/
theorem exists_vacant (counts : Counts table held)
    (room : Fintype.card ι ≤ n) {p : ι} (idle : held p = none) : ∃ i, vacant table = some i := by
  cases found : vacant table with
  | some i => exact ⟨i, rfl⟩
  | none =>
    -- A full table would give every entry a holder of its own, so no party
    -- would be left without a key.
    have inUse : ∀ i, 0 < (table i).count := fun i =>
      lt_of_le_of_ne (counts.nonneg i) (Ne.symm (vacant_none found i))
    have holder : ∀ i, ∃ q, held q = some (table i).addr := by
      intro i
      apply exists_of_holdersOf_pos
      have exact' := counts.exact i (inUse i)
      have used := inUse i
      omega
    choose pick picked using holder
    have injective : Function.Injective pick := by
      intro i j same
      have sameKey : (table i).addr = (table j).addr :=
        Option.some.inj ((picked i).symm.trans (same ▸ picked j))
      exact counts.unique i j (inUse i) (inUse j) sameKey
    have bijective : Function.Bijective pick := by
      rw [Fintype.bijective_iff_injective_and_card]
      refine ⟨injective, le_antisymm ?_ ?_⟩
      · exact Fintype.card_le_of_injective pick injective
      · simpa using room
    obtain ⟨i, here⟩ := bijective.surjective p
    rw [← here, picked i] at idle
    cases idle

end Counts

end Holders

section Updates

variable [DecidableEq κ] [Fintype ι] [DecidableEq ι]
variable {p : ι} {key : κ}

/-- A party that starts holding `key` adds one holder of `key` and none of any
other key. -/
theorem holdersOf_update_some {held : ι → Option κ} (idle : held p = none) (other : κ) :
    holdersOf (update held p (some key)) other =
      holdersOf held other + if key = other then 1 else 0 := by
  unfold holdersOf
  by_cases same : key = other
  · subst same
    have grown : (univ.filter fun q =>
          update held p (some key) q = some key) =
        insert p (univ.filter fun q => held q = some key) := by
      ext q
      by_cases here : q = p <;> simp [here]
    rw [grown, Finset.card_insert_of_notMem (by simp [idle])]
    simp
  · have kept : (univ.filter fun q =>
          update held p (some key) q = some other) =
        univ.filter fun q => held q = some other := by
      ext q
      by_cases here : q = p <;> simp [here, idle, same]
    rw [kept]
    simp [same]

theorem holdersOf_update_none {held : ι → Option κ} (holds : held p = some key) (other : κ) :
    holdersOf (update held p none) other +
        (if key = other then 1 else 0) = holdersOf held other := by
  have idle : update held p none p = none := by simp
  have back : update (update held p none) p (some key) = held := by
    rw [update_idem, ← holds, update_eq_self]
  rw [← holdersOf_update_some idle other, back]

namespace Counts

variable {table : Table κ n} {held : ι → Option κ}
variable {p : ι} {i : Fin n}

theorem bump (counts : Counts table held) (idle : held p = none) (inUse : 0 < (table i).count) :
    Counts (RefTable.bump table i) (update held p (some (table i).addr)) := by
  have entry := bump_entry table i
  have usedBefore : ∀ j, 0 < (RefTable.bump table i j).count → 0 < (table j).count := by
    intro j usedJ
    rw [(entry j).2] at usedJ
    by_cases here : i = j
    · exact here ▸ inUse
    · simpa [here] using usedJ
  refine ⟨?_, ?_, ?_, ?_⟩
  · intro j
    have before := counts.nonneg j
    rw [(entry j).2]
    split <;> omega
  · intro j k usedJ usedK sameAddr
    rw [(entry j).1, (entry k).1] at sameAddr
    exact counts.unique j k (usedBefore j usedJ) (usedBefore k usedK) sameAddr
  · intro j usedJ
    have usedOld := usedBefore j usedJ
    rw [(entry j).1, (entry j).2, holdersOf_update_some idle]
    by_cases here : i = j
    · subst here
      simp [counts.exact i inUse]
    · have ne : (table i).addr ≠ (table j).addr := fun equal =>
        here (counts.unique i j inUse usedOld equal)
      simp [here, ne, counts.exact j usedOld]
  · intro q other holds
    by_cases here : q = p
    · subst here
      simp only [update_self, Option.some.injEq] at holds
      exact ⟨i, by rw [(entry i).2]; split <;> omega, by rw [(entry i).1, holds]⟩
    · rw [update_of_ne here] at holds
      obtain ⟨j, usedJ, sameJ⟩ := counts.covered q other holds
      exact ⟨j, by rw [(entry j).2]; split <;> omega, by rw [(entry j).1, sameJ]⟩

theorem claim (counts : Counts table held) (idle : held p = none)
    {key : κ} (fresh : find table key = none) (empty : (table i).count = 0) :
    Counts (RefTable.claim table i key) (update held p (some key)) := by
  have unheld : holdersOf held key = 0 := by
    have recorded := counts.count_eq key
    simp only [count, fresh] at recorded
    omega
  refine ⟨?_, ?_, ?_, ?_⟩
  · intro j
    by_cases here : j = i
    · subst here
      simp [claim_self]
    · rw [claim_of_ne table key here]
      exact counts.nonneg j
  · intro j k usedJ usedK sameAddr
    simp only [RefTable.claim, update_apply] at usedJ usedK sameAddr
    split_ifs at usedJ usedK sameAddr with hereJ hereK hereK
    · exact hereJ.trans hereK.symm
    · exact absurd sameAddr.symm (find_none fresh k usedK)
    · exact absurd sameAddr (find_none fresh j usedJ)
    · exact counts.unique j k usedJ usedK sameAddr
  · intro j usedJ
    by_cases here : j = i
    · subst here
      simp [claim_self, holdersOf_update_some idle, unheld]
    · rw [claim_of_ne table key here] at usedJ ⊢
      have ne : key ≠ (table j).addr := Ne.symm (find_none fresh j usedJ)
      simp [holdersOf_update_some idle, ne, counts.exact j usedJ]
  · intro q other holds
    by_cases here : q = p
    · subst here
      simp only [update_self, Option.some.injEq] at holds
      subst holds
      exact ⟨i, by simp [claim_self], by simp [claim_self]⟩
    · rw [update_of_ne here] at holds
      obtain ⟨j, usedJ, sameJ⟩ := counts.covered q other holds
      have away : j ≠ i := by
        intro equal
        subst equal
        omega
      rw [← claim_of_ne table key away] at usedJ sameJ
      exact ⟨j, usedJ, sameJ⟩

theorem drop (counts : Counts table held) (inUse : 0 < (table i).count)
    (holds : held p = some (table i).addr) :
    (table i).count - 1 = holdersOf (update held p none) (table i).addr ∧
      Counts (RefTable.drop table i) (update held p none) := by
  have left := holdersOf_update_none holds (table i).addr
  rw [if_pos rfl] at left
  have recorded := counts.exact i inUse
  have entry := drop_entry table i
  have usedBefore : ∀ j, 0 < (RefTable.drop table i j).count → 0 < (table j).count := by
    intro j usedJ
    rw [(entry j).2] at usedJ
    split at usedJ <;> omega
  refine ⟨by omega, ?_, ?_, ?_, ?_⟩
  · intro j
    have before := counts.nonneg j
    rw [(entry j).2]
    by_cases here : i = j
    · subst here
      simp only [if_true]
      omega
    · simpa [here] using before
  · intro j k usedJ usedK sameAddr
    rw [(entry j).1, (entry k).1] at sameAddr
    exact counts.unique j k (usedBefore j usedJ) (usedBefore k usedK) sameAddr
  · intro j usedJ
    have usedOld := usedBefore j usedJ
    rw [(entry j).1, (entry j).2]
    by_cases here : i = j
    · subst here
      simp
      omega
    · have ne : (table i).addr ≠ (table j).addr := fun equal =>
        here (counts.unique i j inUse usedOld equal)
      have kept := holdersOf_update_none holds (table j).addr
      rw [if_neg ne] at kept
      simp [here, counts.exact j usedOld]
      omega
  · intro q other holdsOther
    have away : q ≠ p := by
      intro same
      subst same
      simp at holdsOther
    have heldBefore : held q = some other := by
      simpa [away] using holdsOther
    obtain ⟨j, usedJ, sameJ⟩ := counts.covered q other heldBefore
    refine ⟨j, ?_, by rw [(entry j).1, sameJ]⟩
    rw [(entry j).2]
    by_cases equal : i = j
    · subst equal
      have pos := holdersOf_pos holdsOther
      rw [← sameJ] at pos
      simp
      omega
    · simpa [equal] using usedJ

end Counts

end Updates

end RefTable
