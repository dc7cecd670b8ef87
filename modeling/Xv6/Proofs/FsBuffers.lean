/-
Purpose: Which calls of the block, inode and directory layers give back every
  buffer they take, and which keep one.
-/
import Xv6.Proofs.FsChecked
import Xv6.Proofs.FsRefs

namespace Xv6.Fs

open Disk FileSys PanicM
open Prod (snd)

variable {d d' : Disk} {leak leak' : Prop} {ip ip' : Inode} {off : Nat} {result : Int}

/-!
Buffers are taken and given back in nested order, so the list of busy buffers
after a balanced call is the list before it.  `Frames Disk.held` says this of a
program, whatever the disk holds; `Gives x` says it of the rest of a program
that has taken the buffer of sector `x`.
-/

variable {α β : Type} {x : Nat}

/-- The program gives back the buffer of sector `x`, taken last, and no
other. -/
def Gives (x : Nat) (program : FsM α) : Prop :=
  ∀ d held value after, d.held = x :: held → program d = .ok (value, after) → after.held = held

namespace Gives

theorem of_wp {program : FsM α} (run : ∀ d held, d.held = x :: held →
      wp program (fun _ after => after.held = held) (fun _ => True) d) : Gives x program :=
  fun d held _ _ taken returned => wp_ok (run d held taken) returned

theorem to_wp {program : FsM α} (gives : Gives x program) {d : Disk}
    {held : List Nat} (taken : d.held = x :: held) :
    wp program (fun _ after => after.held = held) (fun _ => True) d :=
  wp_intro (fun _ _ returned => gives d held _ _ taken returned) fun _ _ => trivial

theorem brelse (x : Nat) : Gives x (brelse x) := by
  refine of_wp fun d held taken => ?_
  have busy : x ∈ d.held := by simp [taken]
  rw [wp_brelse busy]
  simp [release, taken]

theorem throw (reason : FsPanic) : Gives x (throw reason : FsM α) :=
  of_wp fun _ _ _ => trivial

theorem later {first : FsM α} {next : α → FsM β}
    (one : Frames held first) (two : ∀ a, Gives x (next a)) : Gives x (first >>= next) := by
  refine of_wp fun d held taken => ?_
  rw [wp_bind]
  refine one.wp fun a middle same => ?_
  exact (two a).to_wp (same.trans taken)

theorem first {first : FsM α} {next : α → FsM β} (one : Gives x first)
    (two : ∀ a, Frames held (next a)) : Gives x (first >>= next) := by
  refine of_wp fun d held taken => ?_
  refine wp_seq (one.to_wp taken) fun a middle given => ?_
  exact (two a).wp fun _ _ same => same.trans given

theorem ite {condition : Prop} [Decidable condition] {yes no : FsM α}
    (one : Gives x yes) (two : Gives x no) : Gives x (if condition then yes else no) := by
  by_cases holds : condition
  · simpa [holds] using one
  · simpa [holds] using two

end Gives

/-! ## The block layer -/

theorem wp_bread_any {Q : Bytes.Store → Disk → Prop}
    (next : x ∉ d.held → Q (d.sectors x) (d.hold x)) : wp (bread x) Q (fun _ => True) d := by
  unfold bread
  rw [wp_bind, wp_get, wp_ite]
  refine ⟨fun _ => trivial, fun idle => ?_⟩
  rw [wp_ite]
  refine ⟨fun _ => trivial, fun _ => ?_⟩
  rw [wp_bind, wp_set, wp_pure]
  exact next idle

/-- The block is one that a call of `readi` covers. -/
def Inode.Reads (ip : Inode) (off n bn : Nat) : Prop :=
  ip.type ≠ T_DEV ∧ ¬ (ip.size < off ∨ u32 (off + n) < off) ∧
    Covers off (if ip.size < u32 (off + n) then ip.size - off else n) bn

/-- The file has the block, and its pointer is not that of the indirect block,
with its top byte or without. -/
structure Disk.Apart (d : Disk) (ip : Inode) (bn : Nat) : Prop where
  inFile : bn < MAXFILE
  there : d.ptr ip.toDinode (.file bn) ≠ 0
  apart : d.ptr ip.toDinode (.file bn) ≠ ip.addrs INDIRECT ∧
    d.ptr ip.toDinode (.file bn) ≠ realAddr (ip.addrs INDIRECT) ip.type

/-- The entry of the block in the indirect block, where `set_checksum` looks for
it. -/
def Disk.sumEntry (d : Disk) (ip : Inode) (bn : Nat) : Nat :=
  Bytes.word32 (d.sectors (realAddr (ip.addrs INDIRECT) ip.type)) (4 * (bn - NDIRECT))

/-- The buffers kept by a program are none unless `leak`. -/
def Keeps (leak : Prop) (d d' : Disk) : Prop :=
  ∃ kept, d'.held = kept ++ d.held ∧ (kept = [] ↔ ¬ leak)

theorem Keeps.refl (no : ¬ leak) (same : d'.held = d.held) : Keeps leak d d' :=
  ⟨[], same, by simp [no]⟩

theorem Keeps.congr (same : leak ↔ leak') (keeps : Keeps leak d d') : Keeps leak' d d' := by
  obtain ⟨kept, held, none⟩ := keeps
  exact ⟨kept, held, none.trans (not_congr same)⟩

theorem Keeps.trans {d'' : Disk} (one : Keeps leak d d') (two : Keeps leak' d' d'') :
    Keeps (leak ∨ leak') d d'' := by
  obtain ⟨kept, held, none⟩ := one
  obtain ⟨kept', held', none'⟩ := two
  refine ⟨kept' ++ kept, by rw [held', held, List.append_assoc], ?_⟩
  rw [List.append_eq_nil_iff, none, none', not_or, and_comm]

/-- What a round of `writei` for block `bn` leaves alone. -/
structure Beside (d : Disk) (ip : Inode) (bn : Nat) (d' : Disk) (ip' : Inode) : Prop where
  type : ip'.type = ip.type
  indirect : ip'.addrs INDIRECT = ip.addrs INDIRECT
  ptr : ∀ bn' < MAXFILE, bn' ≠ bn →
    d'.ptr ip'.toDinode (.file bn') = d.ptr ip.toDinode (.file bn')
  entry : ∀ bn', NDIRECT ≤ bn' → bn' ≠ bn → d'.sumEntry ip' bn' = d.sumEntry ip bn'

namespace Beside

variable {bn : Nat}

theorem setAddr (beside : Beside d ip bn d' ip) (small : bn < NDIRECT) (addr : Nat) :
    Beside d ip bn d' (ip.setAddr (direct bn small) addr) := by
  have away : INDIRECT ≠ direct bn small := fun same =>
    absurd (congrArg Fin.val same) (Nat.ne_of_gt small)
  have indirect := setAddr_of_ne away ip addr
  refine ⟨rfl, indirect, fun bn' inFile other => ?_, fun bn' wide other => ?_⟩
  · rw [ptr_setAddr away, if_neg, beside.ptr bn' inFile other]
    intro same
    rw [← PtrSlot.file_direct small] at same
    exact other (PtrSlot.file_inj inFile (small.trans_le (by decide)) same)
  · unfold Disk.sumEntry
    rw [indirect]
    exact beside.entry bn' wide other

theorem apart (beside : Beside d ip bn d' ip') {bn' : Nat} (other : bn' ≠ bn)
    (apart : d.Apart ip bn') : d'.Apart ip' bn' := by
  obtain ⟨inFile, there, pointers⟩ := apart
  rw [← beside.ptr bn' inFile other] at there pointers
  rw [← beside.indirect, ← beside.type] at pointers
  exact ⟨inFile, there, pointers⟩

end Beside

/-- The busy buffers. -/
def FileSys.busy (s : FileSys) : List Nat := s.disk.held

end Xv6.Fs
