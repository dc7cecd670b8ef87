/-
Purpose: When `balloc` stays on the disk.  It searches whole bitmap blocks, so
  a disk that is full below its size gives blocks that it does not have.
-/
import Xv6.Proofs.MkfsWellFormed

namespace Xv6.Fs

open PanicM

namespace Disk

/-- Block `b` of the disk was free, and now its bit is set and nothing else has
changed. -/
structure Allocates (d t : Disk) (b : Nat) : Prop where
  onDisk : b < d.superblock.size
  clear : d.used b = false
  set : ∀ c, t.used c = if c = b then true else d.used c
  sectors : ∀ x, x ≠ bblock b d.superblock.ninodes → t.sectors x = d.sectors x

/-- `balloc` gives a free block of the disk, or panics because there is none. -/
def Sound (d : Disk) : Prop :=
  (∃ c < d.superblock.size, d.used c = false) ∧ (∃ b t, balloc d = .ok (b, t) ∧ d.Allocates t b) ∨
  (∀ c < d.superblock.size, d.used c = true) ∧ balloc d = .error .balloc

theorem size_le_bitmapEnd (d : Disk) : d.superblock.size ≤ d.bitmapEnd := by
  unfold bitmapEnd
  simp only [BPB]
  omega

theorem take_sectors (d : Disk) {b x : Nat} (other : x ≠ bblock b d.superblock.ninodes) :
    (d.take b).sectors x = d.sectors x :=
  Function.update_of_ne other ..

end Disk

section Balloc

variable {d : Disk}

theorem balloc_first {b : Nat} (quiet : d.Quiet 1) (inside : b < d.bitmapEnd)
    (clear : d.used b = false) (below : ∀ c < b, d.used c = true) :
    balloc d = .ok (b, d.take b) := by
  have run : wp balloc (fun c t => c = b ∧ t = d.take b) (fun _ => False) d := by
    refine wp_balloc quiet (fun c _ free before => ?_) fun full => ?_
    · have same : c = b := by
        rcases Nat.lt_trichotomy c b with less | same | more
        · rw [below c less] at free
          cases free
        · exact same
        · rw [before b more] at clear
          cases clear
      exact ⟨same, by rw [same]⟩
    · rw [full b inside] at clear
      cases clear
  obtain ⟨c, t, ran, rfl, rfl⟩ := wp_returns run
  exact ran

theorem balloc_full (quiet : d.Quiet 1) (full : ∀ c < d.bitmapEnd, d.used c = true) :
    balloc d = .error .balloc := by
  have run : wp balloc (fun _ _ => False) (fun reason => reason = .balloc) d := by
    refine wp_balloc quiet (fun b inside clear _ => ?_) fun _ => rfl
    rw [full b inside] at clear
    cases clear
  cases ran : balloc d with
  | ok result => exact (wp_ok run ran).elim
  | error reason => rw [wp_error run ran]

theorem exists_first {n : Nat} (some : ∃ c < n, d.used c = false) :
    ∃ b < n, d.used b = false ∧ ∀ c < b, d.used c = true := by
  classical
  have least := Nat.find_spec some
  refine ⟨Nat.find some, least.1, least.2, fun c less => ?_⟩
  have early := Nat.find_min some less
  cases used : d.used c with
  | true => rfl
  | false => exact absurd ⟨less.trans least.1, used⟩ early

/-- `balloc` stays on the disk exactly if a block of the disk is free, or the
bits behind the disk are set as well. -/
theorem balloc_sound_iff (d : Disk) (quiet : d.Quiet 1) :
    d.Sound ↔ (∃ c < d.superblock.size, d.used c = false) ∨ ∀ c < d.bitmapEnd, d.used c = true := by
  constructor
  · rintro (⟨free, _⟩ | ⟨full, panics⟩)
    · exact .inl free
    · refine .inr fun c inside => ?_
      cases used : d.used c with
      | true => rfl
      | false =>
        obtain ⟨b, small, clear, below⟩ := exists_first ⟨c, inside, used⟩
        rw [balloc_first quiet small clear below] at panics
        cases panics
  · rintro (free | full)
    · obtain ⟨b, small, clear, below⟩ := exists_first free
      have inside := small.trans_le d.size_le_bitmapEnd
      refine .inl ⟨free, b, _, balloc_first quiet inside clear below, ?_⟩
      exact ⟨small, clear, d.used_take b, fun x other => d.take_sectors other⟩
    · refine .inr ⟨fun c small => ?_, balloc_full quiet full⟩
      exact full c (small.trans_le d.size_le_bitmapEnd)

end Balloc

/-! ## A disk that fills up -/

/-- `n` blocks are allocated. -/
def ballocs : Nat → FsM Unit
  | 0 => pure ()
  | n + 1 => do
      let _ ← balloc
      ballocs n

/-- The blocks in use are those below `k`. -/
def Disk.UsedBelow (d : Disk) (k : Nat) : Prop :=
  ∀ b < d.bitmapEnd, d.used b = true ↔ b < k

namespace Disk

variable {d : Disk} {k : Nat}

theorem UsedBelow.next (below : d.UsedBelow k) (quiet : d.Quiet 1)
    (inside : k < d.bitmapEnd) : balloc d = .ok (k, d.take k) := by
  have clear : d.used k = false := by
    have unused := (below k inside).not.mpr (Nat.lt_irrefl k)
    rwa [Bool.not_eq_true] at unused
  refine balloc_first quiet inside clear fun c less => ?_
  exact (below c (less.trans inside)).mpr less

theorem UsedBelow.take (below : d.UsedBelow k) : (d.take k).UsedBelow (k + 1) := by
  intro b inside
  have same : (d.take k).bitmapEnd = d.bitmapEnd := by
    unfold bitmapEnd
    rw [superblock_take]
  rw [same] at inside
  rw [used_take]
  by_cases last : b = k
  · rw [if_pos last]
    exact ⟨fun _ => by omega, fun _ => rfl⟩
  · rw [if_neg last, below b inside]
    omega

theorem UsedBelow.wp_ballocs (below : d.UsedBelow k) (quiet : d.Quiet 1)
    (n : Nat) (inside : k + n ≤ d.bitmapEnd) :
    wp (ballocs n) (fun _ t => t.superblock = d.superblock ∧ t.Quiet 1 ∧
      t.UsedBelow (k + n)) (fun _ => False) d := by
  induction n generalizing d k with
  | zero =>
    rw [ballocs, wp_pure]
    exact ⟨rfl, quiet, below⟩
  | succ n ih =>
    have here := below.next quiet (by omega)
    have superblock := d.superblock_take k
    have room : k + 1 + n ≤ (d.take k).bitmapEnd := by
      unfold bitmapEnd at inside ⊢
      rw [superblock]
      omega
    have rest := ih below.take (quiet.congr rfl superblock) room
    rw [ballocs, wp_bind]
    refine wp_intro (fun b t ran => ?_) fun reason ran => ?_
    · rw [here] at ran
      cases ran
      refine wp_imp rest fun _ t filled => ?_
      rw [superblock, Nat.add_assoc, Nat.add_comm 1] at filled
      exact filled
    · rw [here] at ran
      cases ran

end Disk

/-- The image of one file, whose free blocks are allocated one after the other:
the next block is the one behind the disk. -/
theorem oneFile_overruns : ∃ image, Mkfs.Builds Mkfs.oneFile image ∧
    ∃ n d t, ballocs n (Mkfs.disk image) = .ok ((), d) ∧
      d.superblock.size = 1024 ∧ balloc d = .ok (1024, t) ∧ ¬ d.Sound := by
  obtain ⟨image, builds⟩ := Mkfs.exists_builds Mkfs.fits_oneFile (by decide)
  obtain ⟨owner, nodes, finished⟩ := builds.finished (by decide)
  have built := finished.built
  have superblock : (Mkfs.disk image).superblock = ⟨1024, 995, Mkfs.NINODES⟩ := built.decode
  have quiet : (Mkfs.disk image).Quiet 1 := ⟨show 0 + 1 ≤ NBUF by decide, nofun⟩
  have ends : (Mkfs.disk image).bitmapEnd = BPB := by
    unfold Disk.bitmapEnd
    rw [superblock]
    rfl
  have below : (Mkfs.disk image).UsedBelow image.freeblock := by
    intro b inside
    rw [ends] at inside
    exact finished.used_iff inside
  have room : image.freeblock + (1024 - image.freeblock) = 1024 := by
    have fits := built.room
    rw [built.length] at fits
    omega
  obtain ⟨_, d, ran, same, still, full⟩ := wp_returns
    (below.wp_ballocs quiet (1024 - image.freeblock) (by rw [room, ends]; decide))
  rw [room] at full
  rw [superblock] at same
  have ends' : d.bitmapEnd = BPB := by
    unfold Disk.bitmapEnd
    rw [same]
    rfl
  have next := full.next still (by rw [ends']; decide)
  refine ⟨image, builds, _, d, _, ran, by rw [same], next, ?_⟩
  rintro (⟨_, b, t, given, allocates⟩ | ⟨_, panics⟩)
  · rw [next] at given
    cases given
    have small := allocates.onDisk
    rw [same] at small
    exact absurd small (by decide)
  · rw [next] at panics
    cases panics

/-- A disk of one bitmap block without a block in use. -/
def blankDisk : Disk where
  sectors := Function.update (fun _ _ => 0) 1 (Mkfs.superblock 4096 4000 200)
  held := []
  given := []

theorem blankDisk_sound : blankDisk.Sound := by
  refine (balloc_sound_iff blankDisk ⟨by decide, nofun⟩).mpr (.inl ⟨0, ?_, ?_⟩)
  · decide
  · decide

end Xv6.Fs
