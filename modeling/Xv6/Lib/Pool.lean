/-
Purpose: Resources that are handed out to keys: at most one key has a claim
  on a resource, and counts of claims change by one at a time.
-/
import Mathlib.Data.Finset.Card
import Mathlib.Tactic.Common

namespace Pool

variable {κ : Type}

/-- No two keys claim one resource; zero is no claim. -/
def Exclusive (claim : κ → Nat) : Prop :=
  ∀ a b, claim a ≠ 0 → claim a = claim b → a = b

namespace Exclusive

variable {claim claim' : κ → Nat}

theorem shrink (exclusive : Exclusive claim)
    (kept : ∀ k, claim' k = 0 ∨ claim' k = claim k) : Exclusive claim' := by
  intro a b some same
  have left := (kept a).resolve_left some
  have right := (kept b).resolve_left (same ▸ some)
  apply exclusive a b
  · rw [← left]
    exact some
  · rw [← left, ← right]
    exact same

/-- One key changes its claim, to nothing, to what it had, or to a resource
that nobody claimed; the others give claims up at most. -/
theorem change (exclusive : Exclusive claim) (k₀ : κ)
    (kept : ∀ k, k ≠ k₀ → claim' k = 0 ∨ claim' k = claim k)
    (new : claim' k₀ = 0 ∨ claim' k₀ = claim k₀ ∨ ∀ k, claim k ≠ claim' k₀) : Exclusive claim' := by
  by_cases old : claim' k₀ = 0 ∨ claim' k₀ = claim k₀
  · apply exclusive.shrink
    intro k
    by_cases here : k = k₀
    · rw [here]
      exact old
    · exact kept k here
  · have fresh : ∀ k, claim k ≠ claim' k₀ := by
      rcases new with zero | same | fresh
      · exact absurd (Or.inl zero) old
      · exact absurd (Or.inr same) old
      · exact fresh
    intro a b some same
    by_cases first : a = k₀
    · by_cases second : b = k₀
      · rw [first, second]
      · rcases kept b second with zero | keptB
        · exact absurd (same.trans zero) some
        · rw [first, keptB] at same
          exact absurd same.symm (fresh b)
    · have keptA := (kept a first).resolve_left some
      by_cases second : b = k₀
      · rw [second, keptA] at same
        exact absurd same (fresh a)
      · have keptB := (kept b second).resolve_left (same ▸ some)
        apply exclusive a b
        · rw [← keptA]
          exact some
        · rw [← keptA, ← keptB]
          exact same

end Exclusive

/-- Two predicates that differ at one element count one apart. -/
theorem card_filter_succ [DecidableEq κ] {s : Finset κ} {p q : κ → Prop}
    [DecidablePred p] [DecidablePred q] {a : κ} (mem : a ∈ s) (new : p a)
    (old : ¬ q a) (same : ∀ b ∈ s, b ≠ a → (p b ↔ q b)) :
    (s.filter p).card = (s.filter q).card + 1 := by
  have split : s.filter p = insert a (s.filter q) := by
    ext b
    simp only [Finset.mem_filter, Finset.mem_insert]
    constructor
    · rintro ⟨inside, holds⟩
      by_cases here : b = a
      · exact Or.inl here
      · exact Or.inr ⟨inside, (same b inside here).mp holds⟩
    · rintro (rfl | ⟨inside, holds⟩)
      · exact ⟨mem, new⟩
      · have apart : b ≠ a := by
          rintro rfl
          exact old holds
        exact ⟨inside, (same b inside apart).mpr holds⟩
  rw [split, Finset.card_insert_of_notMem]
  simp [old]

end Pool
