/-
Purpose: A ring of cells with two free-running counters that wrap around, and
  the rules by which it is a first-in first-out queue.
-/
import Mathlib.Data.List.Basic
import Mathlib.Logic.Function.Basic
import Mathlib.Tactic.Common

/-- The cells, and how many were taken and stored so far, as words. -/
structure RingBuffer (α : Type) where
  data : Nat → α
  nread : Nat
  nwrite : Nat

namespace RingBuffer

variable {α : Type}

section Operations

variable (width size : Nat)

/-- Nothing is stored that was not taken. -/
def empty (ring : RingBuffer α) : Bool := ring.nread = ring.nwrite

/-- Every cell is in use. -/
def full (ring : RingBuffer α) : Bool := ring.nwrite = (ring.nread + size) % width

/-- Store in the next cell. -/
def push (ring : RingBuffer α) (x : α) : RingBuffer α :=
  { ring with
    data := Function.update ring.data (ring.nwrite % size) x
    nwrite := (ring.nwrite + 1) % width }

/-- The cell that is taken next. -/
def front (ring : RingBuffer α) : α := ring.data (ring.nread % size)

/-- Take the next cell. -/
def pop (ring : RingBuffer α) : RingBuffer α :=
  { ring with nread := (ring.nread + 1) % width }

/-- How many cells are in use. -/
def used (ring : RingBuffer α) : Nat := (ring.nwrite + width - ring.nread) % width

/-- The contents of the cells in use, oldest first. -/
def buffered (ring : RingBuffer α) : List α :=
  (List.range (ring.used width)).map fun k => ring.data ((ring.nread + k) % size)

end Operations

/-- The ring stands for the queue to which `stored` was added and from which
`taken` was taken. -/
structure Fifo (width size : Nat) (ring : RingBuffer α) (taken stored : List α) : Prop where
  read : ring.nread = taken.length % width
  written : ring.nwrite = stored.length % width
  behind : taken.length ≤ stored.length
  bounded : stored.length ≤ taken.length + size
  delivered : taken = stored.take taken.length
  cells : ∀ k x, taken.length ≤ k → stored[k]? = some x → ring.data (k % size) = x

section Rules

variable {width size : Nat} {ring : RingBuffer α} {taken stored : List α}

theorem mod_cells (divides : size ∣ width) (n : Nat) :
    n % width % size = n % size := Nat.mod_mod_of_dvd n divides

/-- Words of a window no longer than the ring are told apart by their
remainder. -/
theorem eq_of_mod_eq {a b m : Nat} (lower : a ≤ b) (upper : b < a + m)
    (same : a % m = b % m) : a = b := by
  have difference : (b - a) % m = 0 := Nat.sub_mod_eq_zero_of_mod_eq same.symm
  have small : (b - a) % m = b - a := Nat.mod_eq_of_lt (by omega)
  omega

namespace Fifo

theorem start (ring : RingBuffer α) (read : ring.nread = 0)
    (written : ring.nwrite = 0) : Fifo width size ring [] [] where
  read := by simp [read]
  written := by simp [written]
  behind := by simp
  bounded := by simp
  delivered := by simp
  cells k x _ found := by simp at found

section

variable (fifo : Fifo width size ring taken stored)
include fifo

theorem used_eq (wide : size < width) : ring.used width = stored.length - taken.length := by
  have behind := fifo.behind
  have bounded := fifo.bounded
  have pos : 0 < width := by omega
  obtain ⟨n, split⟩ := Nat.exists_eq_add_of_le behind
  unfold used
  rw [fifo.read, fifo.written, split, Nat.add_sub_cancel_left]
  have small := Nat.mod_lt taken.length pos
  -- The numerator is `n` more than the word `taken.length % width`, up to a
  -- multiple of `width`.
  have shifted : (taken.length + n) % width + width - taken.length % width =
      (taken.length + n) % width + (width - taken.length % width) := by omega
  rw [shifted, Nat.mod_add_mod]
  have whole := Nat.div_add_mod taken.length width
  have regroup : taken.length + n + (width - taken.length % width) =
      n + width * (taken.length / width + 1) := by
    rw [Nat.mul_add]
    omega
  rw [regroup, Nat.add_mul_mod_self_left]
  exact Nat.mod_eq_of_lt (by omega)

theorem empty_iff (wide : size < width) : ring.empty = true ↔ stored.length = taken.length := by
  have behind := fifo.behind
  have bounded := fifo.bounded
  simp only [empty, decide_eq_true_eq, fifo.read, fifo.written]
  constructor
  · intro same
    exact (eq_of_mod_eq behind (by omega) same).symm
  · intro same
    rw [same]

theorem full_iff (wide : size < width) :
    ring.full width size = true ↔ stored.length = taken.length + size := by
  have bounded := fifo.bounded
  have behind := fifo.behind
  simp only [full, decide_eq_true_eq, fifo.read, fifo.written, Nat.mod_add_mod]
  constructor
  · intro same
    exact eq_of_mod_eq bounded (by omega) same
  · intro same
    rw [same]

theorem push (divides : size ∣ width) (room : stored.length ≠ taken.length + size) (x : α) :
    Fifo width size (ring.push width size x) taken (stored ++ [x]) where
  read := fifo.read
  written := by
    simp [RingBuffer.push, fifo.written, Nat.mod_add_mod]
  behind := by
    have behind := fifo.behind
    simp only [List.length_append, List.length_singleton]
    omega
  bounded := by
    have bounded := fifo.bounded
    simp only [List.length_append, List.length_singleton]
    omega
  delivered := by
    rw [List.take_append_of_le_length fifo.behind]
    exact fifo.delivered
  cells k y later found := by
    have bounded := fifo.bounded
    simp only [RingBuffer.push, fifo.written, mod_cells divides]
    rcases Nat.lt_trichotomy k stored.length with earlier | rfl | beyond
    · -- An older cell in use is another one than the one just stored in.
      rw [List.getElem?_append_left earlier] at found
      have other : k % size ≠ stored.length % size := by
        intro same
        have equal := eq_of_mod_eq (Nat.le_of_lt earlier) (by omega) same
        omega
      rw [Function.update_of_ne other]
      exact fifo.cells k y later found
    · simp only [List.getElem?_concat_length, Option.some.injEq] at found
      rw [Function.update_self, found]
    · rw [List.getElem?_eq_none (by simp; omega)] at found
      cases found

theorem pop (divides : size ∣ width) (some : stored.length ≠ taken.length) :
    Fifo width size (ring.pop width) (taken ++ [ring.front size]) stored := by
  have behind := fifo.behind
  have inside : taken.length < stored.length := by omega
  have next : ring.front size = stored[taken.length] := by
    unfold front
    rw [fifo.read, mod_cells divides]
    exact fifo.cells _ _ (Nat.le_refl _) (List.getElem?_eq_getElem inside)
  constructor
  case read => simp [RingBuffer.pop, fifo.read, Nat.mod_add_mod]
  case written => exact fifo.written
  case behind =>
    simp only [List.length_append, List.length_singleton]
    omega
  case bounded =>
    have bounded := fifo.bounded
    simp only [List.length_append, List.length_singleton]
    omega
  case delivered =>
    rw [List.length_append, List.length_singleton,
      List.take_succ_eq_append_getElem inside, ← fifo.delivered, next]
  case cells =>
    intro k x later found
    apply fifo.cells k x _ found
    simp only [List.length_append, List.length_singleton] at later
    omega

/-- What was taken and what the cells in use hold is what was stored. -/
theorem taken_append_buffered (divides : size ∣ width) (wide : size < width) :
    taken ++ ring.buffered width size = stored := by
  have cells : ring.buffered width size = stored.drop taken.length := by
    apply List.ext_getElem
    · simp [buffered, fifo.used_eq wide]
    · intro k _ inside
      rw [List.length_drop] at inside
      have found : stored[taken.length + k]? = some stored[taken.length + k] :=
        List.getElem?_eq_getElem (by omega)
      have cell := fifo.cells _ _ (Nat.le_add_right _ k) found
      simp only [buffered, List.getElem_map, List.getElem_range,
        List.getElem_drop, ← cell, fifo.read]
      rw [← mod_cells divides, Nat.mod_add_mod, mod_cells divides]
  rw [cells]
  conv_lhs => rw [fifo.delivered]
  rw [List.length_take_of_le fifo.behind]
  exact List.take_append_drop _ _

end

end Fifo

end Rules

end RingBuffer
