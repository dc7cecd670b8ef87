/-
Purpose: The constants of param.h, mmu.h, fs.h and vm.c, and the address
  arithmetic of mmu.h on 32-bit words.
-/
import Mathlib.Data.Nat.Bitwise
import Mathlib.Tactic.Common

namespace Xv6

/-- Maximum number of processes. -/
abbrev NPROC : Nat := 64

instance : NeZero NPROC := ⟨by decide⟩

/-- End of the user address space. -/
abbrev USERTOP : Nat := 0xA0000
/-- End of the physical memory handed to the allocator. -/
abbrev PHYSTOP : Nat := 0x1000000
/-- Most arguments `exec` accepts. -/
abbrev MAXARG : Nat := 32
/-- Number of shared-memory keys. -/
abbrev MAX_SHM_KEY : Nat := 8
/-- Most pages one shared-memory key can have. -/
abbrev MAX_SHM_PGNUM : Nat := 4
/-- Bytes mapped by a page. -/
abbrev PGSIZE : Nat := 4096
/-- Entries of a page directory. -/
abbrev NPDENTRIES : Nat := 1024

/-- Open files per process. -/
abbrev NOFILE : Nat := 16
/-- Major number of the console. -/
abbrev CONSOLE : Int := 1
/-- Bytes of a disk block. -/
abbrev BSIZE : Nat := 512
/-- Direct block pointers of an inode. -/
abbrev NDIRECT : Nat := 12
/-- Block pointers of an indirect block. -/
abbrev NINDIRECT : Nat := 128
/-- Most blocks of a file. -/
abbrev MAXFILE : Nat := NDIRECT + NINDIRECT

abbrev PTE_P : Nat := 1
abbrev PTE_W : Nat := 2
abbrev PTE_U : Nat := 4

/-- A C `uint`: the value modulo `2^32`. -/
def u32 (x : Nat) : Nat := x % 2 ^ 32

/-- Conversion of a C `int` to `uint`. -/
def toU32 (x : Int) : Nat := (x % 2 ^ 32).toNat

theorem toU32_of_nonneg {x : Int} (nonneg : 0 ≤ x) (small : x < 2 ^ 32) : toU32 x = x.toNat := by
  unfold toU32
  rw [Int.emod_eq_of_lt nonneg small]

theorem toU32_of_neg {x : Int} (negative : x < 0) (small : -2 ^ 32 ≤ x) :
    toU32 x = (x + 2 ^ 32).toNat := by
  unfold toU32
  rw [← Int.add_emod_right, Int.emod_eq_of_lt (by omega) (by omega)]

/-- Conversion of a C `uint` to `int`. -/
def toInt32 (x : Nat) : Int := if x < 2 ^ 31 then x else x - 2 ^ 32

/-- `PGROUNDUP` on a `uint`. -/
def pgroundup (size : Nat) : Nat := u32 (size + (PGSIZE - 1)) / PGSIZE * PGSIZE

/-- `PGROUNDDOWN` on a `uint`. -/
def pgrounddown (a : Nat) : Nat := a / PGSIZE * PGSIZE

/-- `PDX`: index of the page-directory entry for a linear address. -/
def pdx (va : Nat) : Nat := va / (PGSIZE * 1024) % 1024

/-- Number of the virtual page of a linear address. -/
def vpn (va : Nat) : Nat := va / PGSIZE

/-- `PTE_ADDR`: the frame address in a page-table entry. -/
def pteAddr (pte : Nat) : Nat := pte / PGSIZE * PGSIZE

/-- The entry has `PTE_P`. -/
def present (pte : Nat) : Bool := pte % 2 = 1

/-- The entry has `PTE_U`. -/
def userPage (pte : Nat) : Bool := pte / 4 % 2 = 1

/-- The entry `mappages` stores for frame `pa`. -/
def mkPte (pa perm : Nat) : Nat := pa ||| perm ||| PTE_P

theorem u32_of_lt {x : Nat} (small : x < 2 ^ 32) : u32 x = x :=
  Nat.mod_eq_of_lt small

theorem u32_lt (x : Nat) : u32 x < 2 ^ 32 := Nat.mod_lt _ (by decide)

theorem pgroundup_of_le {size : Nat} (small : size ≤ USERTOP) :
    pgroundup size = (size + 4095) / 4096 * 4096 := by
  unfold pgroundup
  rw [u32_of_lt (by simp only [USERTOP] at small; simp only [PGSIZE]; omega)]
  rfl

@[simp] theorem present_mkPte (pa perm : Nat) : present (mkPte pa perm) = true := by
  have low : (mkPte pa perm).testBit 0 = true := by
    simp [mkPte]
  rw [Nat.testBit_zero] at low
  simpa [present] using low

/-- Permission bits do not reach the frame address. -/
theorem pteAddr_mod (pte : Nat) : pteAddr pte % PGSIZE = 0 :=
  Nat.mul_mod_left _ _

theorem pteAddr_mkPte {pa perm : Nat} (small : perm < 4096) :
    pteAddr (mkPte pa perm) = pa / 4096 * 4096 := by
  unfold pteAddr mkPte
  congr 1
  have split : ∀ x y : Nat, (x ||| y) / 4096 = x / 4096 ||| y / 4096 := by
    intro x y
    have shifted := Nat.shiftRight_or_distrib (a := x) (b := y) (i := 12)
    simpa [Nat.shiftRight_eq_div_pow] using shifted
  rw [split, split, Nat.div_eq_of_lt small, show PTE_P / 4096 = 0 from rfl]
  simp

end Xv6
