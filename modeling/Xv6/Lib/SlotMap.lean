/-
Purpose: A finite map kept in numbered slots: filling an empty slot binds a
  key, and emptying a slot unbinds the key it holds.
-/
import Mathlib.Logic.Function.Basic

/-- Slots that are empty or hold a key with its value. -/
abbrev SlotMap (κ ν : Type) := Nat → Option (κ × ν)

namespace SlotMap

variable {κ ν : Type} {m : SlotMap κ ν} {key key' : κ} {value value' : ν}
  {k k' : Nat}

/-- Slot `k` binds the key to the value. -/
def Binds (m : SlotMap κ ν) (key : κ) (value : ν) (k : Nat) : Prop :=
  m k = some (key, value)

def Bound (m : SlotMap κ ν) (key : κ) : Prop := ∃ value k, m.Binds key value k

/-- No two slots hold the same key. -/
def Distinct (m : SlotMap κ ν) : Prop :=
  ∀ key value value' k k', m.Binds key value k → m.Binds key value' k' → k = k'

def insert (m : SlotMap κ ν) (k : Nat) (key : κ) (value : ν) : SlotMap κ ν :=
  Function.update m k (some (key, value))

def erase (m : SlotMap κ ν) (k : Nat) : SlotMap κ ν :=
  Function.update m k none

theorem binds_insert (free : m k = none) : (m.insert k key value).Binds key' value' k' ↔
      m.Binds key' value' k' ∨ key' = key ∧ value' = value ∧ k' = k := by
  unfold Binds insert
  by_cases here : k' = k
  · subst here
    rw [Function.update_self, free]
    simp [eq_comm]
  · rw [Function.update_of_ne here]
    simp [here]

theorem binds_erase : (m.erase k).Binds key value k' ↔ m.Binds key value k' ∧ k' ≠ k := by
  unfold Binds erase
  by_cases here : k' = k
  · simp [here]
  · simp [here]

namespace Distinct

theorem insert (distinct : m.Distinct) (free : m k = none)
    (unbound : ¬ m.Bound key) : (m.insert k key value).Distinct := by
  intro shared one two j j' first second
  rw [binds_insert free] at first second
  rcases first with old | ⟨rfl, -, rfl⟩ <;> rcases second with old' | new
  · exact distinct shared one two j j' old old'
  · exact absurd ⟨one, j, new.1 ▸ old⟩ unbound
  · exact absurd ⟨two, j', old'⟩ unbound
  · exact new.2.2.symm

theorem erase (distinct : m.Distinct) : (m.erase k).Distinct := by
  intro shared one two j j' first second
  exact distinct shared one two j j' (binds_erase.mp first).1 (binds_erase.mp second).1

theorem binds_erase (distinct : m.Distinct) (here : m.Binds key value k) :
    (m.erase k).Binds key' value' k' ↔ m.Binds key' value' k' ∧ key' ≠ key := by
  rw [SlotMap.binds_erase]
  refine and_congr_right fun binds => ⟨?_, ?_⟩
  · rintro other rfl
    exact other (distinct _ _ _ _ _ binds here)
  · rintro other rfl
    unfold Binds at here binds
    rw [here] at binds
    exact other (congrArg Prod.fst (Option.some.inj binds)).symm

end Distinct

end SlotMap
