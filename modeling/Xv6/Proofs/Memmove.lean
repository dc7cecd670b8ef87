/-
Purpose: memmove of string.c and of ulib.c: the kernel's moves any two ranges, the library's only
  those in which it overwrites no byte before it has copied it, or copies the same byte anyway.
-/
import Xv6.Lib.Bytes
import Xv6.Param

namespace Xv6.Memmove

open Bytes (Store)
open Function (update update_self update_of_ne)

/-- `while(n-- > 0) *d++ = *s++`. -/
def copyUp (mem : Store) (d s : Nat) : Nat → Store
  | 0 => mem
  | n + 1 => copyUp (update mem d (mem s)) (u32 (d + 1)) (u32 (s + 1)) n

/-- `while(n-- > 0) *--d = *--s`. -/
def copyDown (mem : Store) (d s : Nat) : Nat → Store
  | 0 => mem
  | n + 1 =>
    let d := u32 (d + (2 ^ 32 - 1))
    let s := u32 (s + (2 ^ 32 - 1))
    copyDown (update mem d (mem s)) d s n

/-- `memmove` of string.c, with the memory it leaves. -/
def memmove (mem : Store) (dst src n : Nat) : Nat × Store :=
  (dst, if src < dst ∧ dst < u32 (src + n) then copyDown mem (u32 (dst + n)) (u32 (src + n)) n
    else copyUp mem dst src n)

/-- `memmove` of ulib.c, whose count is an `int`. -/
def ulibMemmove (mem : Store) (dst src : Nat) (n : Int) : Nat × Store :=
  (dst, copyUp mem dst src n.toNat)

/-- What moving `n` bytes means: they are those of the source as it was, and nothing else has
changed. -/
structure Moved (mem : Store) (dst src n : Nat) (mem' : Store) : Prop where
  inside : ∀ i < n, mem' (dst + i) = mem (src + i)
  outside : ∀ a, a < dst ∨ dst + n ≤ a → mem' a = mem a

variable {mem mem' mem'' : Store} {d s n : Nat}

theorem Moved.unique (one : Moved mem d s n mem') (two : Moved mem d s n mem'') : mem' = mem'' := by
  funext a
  by_cases within : d ≤ a ∧ a < d + n
  · obtain ⟨i, rfl⟩ := Nat.exists_eq_add_of_le within.1
    rw [one.inside i (by omega), two.inside i (by omega)]
  · rw [one.outside a (by omega), two.outside a (by omega)]

/-- The addresses of a loop upwards, as long as it runs. -/
theorem copyUp_succ (mem : Store) (dstIn : d + (n + 1) ≤ 2 ^ 32) (srcIn : s + (n + 1) ≤ 2 ^ 32) :
    copyUp mem d s (n + 1) = copyUp (update mem d (mem s)) (d + 1) (s + 1) n := by
  cases n with
  | zero => rfl
  | succ n => rw [copyUp, u32_of_lt (by omega), u32_of_lt (by omega)]

section

variable (dstIn : d + n ≤ 2 ^ 32) (srcIn : s + n ≤ 2 ^ 32)
include dstIn srcIn

theorem copyUp_outside {a : Nat} (outside : a < d ∨ d + n ≤ a) : copyUp mem d s n a = mem a := by
  induction n generalizing mem d s with
  | zero => rfl
  | succ n ih =>
    rw [copyUp_succ mem dstIn srcIn, ih (by omega) (by omega) (by omega), update_of_ne (by omega)]

/-- The loop upwards is right where it reads no byte that it has written. -/
theorem copyUp_moved (apart : d ≤ s ∨ s + n ≤ d) : Moved mem d s n (copyUp mem d s n) := by
  refine ⟨?_, fun a => copyUp_outside dstIn srcIn⟩
  induction n generalizing mem d s with
  | zero => exact nofun
  | succ n ih =>
    rintro (_ | i) less
    · rw [copyUp_succ mem dstIn srcIn, copyUp_outside (by omega) (by omega) (by omega)]
      exact update_self ..
    · have rest := @ih (update mem d (mem s)) (d + 1) (s + 1) (by omega) (by omega) (by omega) i
        (by omega)
      rw [update_of_ne (by omega), Nat.add_right_comm, Nat.add_right_comm s] at rest
      rw [copyUp_succ mem dstIn srcIn]
      exact rest

/-- Otherwise every byte it writes is equal to the one it was copied from, as that is afterwards. -/
theorem copyUp_repeats (below : s < d) {i : Nat} (less : i < n) :
    copyUp mem d s n (d + i) = copyUp mem d s n (s + i) := by
  induction n generalizing mem d s i with
  | zero => exact absurd less (Nat.not_lt_zero i)
  | succ n ih =>
    rw [copyUp_succ mem dstIn srcIn]
    cases i with
    | zero =>
      rw [copyUp_outside (by omega) (by omega) (by omega),
        copyUp_outside (by omega) (by omega) (by omega), Nat.add_zero, Nat.add_zero, update_self,
        update_of_ne (by omega)]
    | succ i =>
      have rest := @ih (update mem d (mem s)) (d + 1) (s + 1) (by omega) (by omega) (by omega) i
        (by omega)
      rwa [Nat.add_right_comm, Nat.add_right_comm s] at rest

/-- So it is right exactly when the source repeats itself at the distance of the ranges. -/
theorem copyUp_moved_iff (below : s < d) :
    Moved mem d s n (copyUp mem d s n) ↔ ∀ i, i + (d - s) < n → mem (d + i) = mem (s + i) := by
  -- both directions compare byte `i + (d - s)` of the source with byte `i` of the destination
  have shift : ∀ i, s + (i + (d - s)) = d + i := by omega
  constructor
  · intro moved i less
    have here := moved.inside (i + (d - s)) less
    rw [copyUp_repeats dstIn srcIn below less, shift, moved.inside i (by omega)] at here
    exact here.symm
  · intro periodic
    refine ⟨fun i => ?_, fun a => copyUp_outside dstIn srcIn⟩
    induction i using Nat.strong_induction_on with
    | _ i ih =>
      intro less
      rw [copyUp_repeats dstIn srcIn below less]
      by_cases early : s + i < d
      · exact copyUp_outside dstIn srcIn (.inl early)
      · obtain ⟨j, rfl⟩ := Nat.exists_eq_add_of_le' (show d - s ≤ i by omega)
        rw [shift, ih j (by omega) (by omega), periodic j less]

theorem copyDown_moved (below : s < d) :
    Moved mem d s n (copyDown mem (u32 (d + n)) (u32 (s + n)) n) := by
  induction n generalizing mem with
  | zero => exact ⟨nofun, fun _ _ => rfl⟩
  | succ n ih =>
    have back : ∀ x, x + (n + 1) ≤ 2 ^ 32 →
        u32 (u32 (x + (n + 1)) + (2 ^ 32 - 1)) = u32 (x + n) := by
      intro x inside
      unfold u32
      omega
    have here := u32_of_lt (x := d + n) (by omega)
    have rest := @ih (update mem (d + n) (mem (s + n))) (by omega) (by omega)
    simp only [copyDown, back d dstIn, back s srcIn]
    rw [here, u32_of_lt (by omega)] at rest ⊢
    constructor
    · intro i less
      by_cases last : i = n
      · rw [last, rest.outside _ (by omega), update_self]
      · rw [rest.inside i (by omega), update_of_ne (by omega)]
    · intro a outside
      rw [rest.outside a (by omega), update_of_ne (by omega)]

end

/-- The kernel's `memmove` moves the bytes of any two ranges inside the address space.  The
library's does so, and then agrees with it, exactly when the destination does not start inside the
source, or the source repeats itself at the distance of the two. -/
theorem memmove_moves (mem : Store) (dst src n : Nat) (dstIn : dst + n ≤ 2 ^ 32)
    (srcIn : src + n ≤ 2 ^ 32) :
    (memmove mem dst src n).1 = dst ∧ Moved mem dst src n (memmove mem dst src n).2 ∧
    (Moved mem dst src n (ulibMemmove mem dst src n).2 ↔ dst ≤ src ∨ src + n ≤ dst ∨
      ∀ i, i + (dst - src) < n → mem (dst + i) = mem (src + i)) ∧
    (ulibMemmove mem dst src n = memmove mem dst src n ↔
      Moved mem dst src n (ulibMemmove mem dst src n).2) := by
  have kernel : Moved mem dst src n (memmove mem dst src n).2 := by
    unfold memmove
    split_ifs with inside
    · exact copyDown_moved dstIn srcIn inside.1
    · refine copyUp_moved dstIn srcIn ?_
      unfold u32 at inside
      omega
  refine ⟨rfl, kernel, ?_, fun same => same ▸ kernel,
    fun moved => Prod.ext rfl (moved.unique kernel)⟩
  by_cases below : src < dst
  · refine (copyUp_moved_iff dstIn srcIn below).trans ⟨fun periodic => .inr (.inr periodic), ?_⟩
    rintro (low | high | periodic)
    · exact absurd below (Nat.not_lt.mpr low)
    · exact fun i less => absurd less (by omega)
    · exact periodic
  · have low := Nat.le_of_not_lt below
    exact iff_of_true (copyUp_moved dstIn srcIn (.inl low)) (.inl low)

/-- Three bytes moved down by one. -/
theorem down_moved : Moved UInt8.ofNat 0 1 3 (ulibMemmove UInt8.ofNat 0 1 3).2 :=
  (memmove_moves UInt8.ofNat 0 1 3 (by decide) (by decide)).2.2.1.mpr (.inl (by decide))

/-- Two bytes moved up by one: the library copies the first of them twice. -/
theorem up_repeated : (memmove UInt8.ofNat 1 0 2).2 2 = 1 ∧
    (ulibMemmove UInt8.ofNat 1 0 2).2 2 = 0 ∧
    ¬ Moved UInt8.ofNat 1 0 2 (ulibMemmove UInt8.ofNat 1 0 2).2 :=
  ⟨by decide, by decide, fun moved => absurd (moved.inside 1 (by decide)) (by decide)⟩

end Xv6.Memmove
