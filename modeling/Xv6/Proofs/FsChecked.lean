/-
Purpose: Checksummed files against plain byte arrays: the runs of `readi` and
  `writei` that agree with the array, and a short run that does not.
-/
import Xv6.Proofs.FsRead

namespace Xv6.Fs

open Bytes Function PanicM
open Or (inl inr)
open PtrSlot (file_ne_indirect)

/-! ## Block checksums -/

theorem genChecksum_congr {bp bp' : Bytes.Store}
    (same : ∀ j < BSIZE, bp j = bp' j) : genChecksum bp = genChecksum bp' := by
  unfold genChecksum
  apply List.foldl_ext
  intro sum j mem
  rw [same j (List.mem_range.mp mem)]

theorem genChecksum_zero : genChecksum (fun _ => 0) = 0 := by
  decide +kernel

theorem synthAddr_zero {addr : Nat} (small : addr < 2 ^ 24) : synthAddr addr 0 = addr := by
  rw [synthAddr_eq, Nat.mod_eq_of_lt small]
  simp

theorem synthAddr_realAddr (addr : Nat) (chksum : UInt8) :
    synthAddr (realAddr addr T_CHECKED) chksum = synthAddr addr chksum := by
  rw [realAddr_checked, synthAddr_eq, synthAddr_eq]
  omega

/-! ## Storing a checksum -/

section Summed

variable {ι : Type} [DecidableEq ι] {limit : Nat} {N : ι → Dinode} {i : ι}
  {d d' : Disk} {ip ip' : Inode} {s₀ : PtrSlot} {chksum : UInt8}
  {E : FsPanic → Prop}

/-- The pointer at `s₀` has been given the checksum; everything else is as it
was. -/
structure Summed (d : Disk) (ip : Inode) (s₀ : PtrSlot) (chksum : UInt8)
    (d' : Disk) (ip' : Inode) : Prop where
  superblock : d'.superblock = d.superblock
  held : d'.held = d.held
  given : d'.given = d.given
  used : ∀ c < d.bitmapEnd, d'.used c = d.used c
  rest : ip' = { ip with addrs := ip'.addrs }
  sectors : ∀ x, d'.sectors x ≠ d.sectors x → x = ip.addrs INDIRECT ∧ x ≠ 0
  ptr : ∀ s, d'.ptr ip'.toDinode s = if s = s₀ then synthAddr (d.ptr ip.toDinode s) chksum
    else d.ptr ip.toDinode s

namespace Summed

theorem still (summed : Summed d ip s₀ chksum d' ip') {x : Nat}
    (apart : x ≠ ip.addrs INDIRECT) : d'.sectors x = d.sectors x := by
  by_contra changed
  exact apart (summed.sectors x changed).1

theorem block (summed : Summed d ip s₀ chksum d' ip')
    (checked : ip.type = T_CHECKED) (s : PtrSlot) :
    d'.block ip'.toDinode s = d.block ip.toDinode s := by
  have type : ip'.type = T_CHECKED := by
    rw [summed.rest]
    exact checked
  unfold Disk.block
  rw [summed.ptr, type, checked]
  by_cases here : s = s₀
  · rw [if_pos here, realAddr_synthAddr]
  · rw [if_neg here]

section

variable (summed : Summed d ip s₀ chksum d' ip') (family : d.Owned limit N)
  (here : N i = ip.toDinode) (checked : ip.type = T_CHECKED) (some : d.ptr ip.toDinode s₀ ≠ 0)
include summed family here checked some

omit [DecidableEq ι] in
theorem ptr_eq_zero (s : PtrSlot) : d'.ptr ip'.toDinode s = 0 ↔ d.ptr ip.toDinode s = 0 := by
  rw [summed.ptr]
  by_cases same : s = s₀
  · subst same
    have real := family.real i s (by rw [here]; exact some)
    rw [here] at real
    rw [if_pos rfl]
    constructor
    · intro zero
      have block := realAddr_synthAddr (d.ptr ip.toDinode s) chksum
      unfold Disk.block at real
      rw [checked, ← block, zero, realAddr_zero] at real
      exact absurd rfl real
    · intro zero
      exact absurd zero some
  · rw [if_neg same]

theorem owned (data : s₀ ≠ .indirect) : d'.Owned limit (update N i ip'.toDinode) := by
  have still : ∀ x, d.dataStart ≤ x → x ≠ (N i).addrs INDIRECT → d'.sectors x = d.sectors x := by
    intro x _ apart
    rw [here] at apart
    exact summed.still apart
  have block : ∀ j s, d'.block (update N i ip'.toDinode j) s = d.block (N j) s := by
    intro j s
    by_cases same : j = i
    · subst same
      rw [update_self, summed.block checked, here]
    · rw [update_of_ne same]
      exact congrArg (realAddr · (N j).type) (family.ptr_other same still s)
  apply family.change (k := (i, s₀))
  case superblock => exact summed.superblock
  case used => exact summed.used
  case zero =>
    intro b small clear k inside
    rw [still b (family.free_high clear) (family.free_apart i clear)]
    exact family.free_zero b small clear k inside
  case plain =>
    intro j
    by_cases same : j = i
    · subst same
      rw [update_self]
      have kept := summed.ptr .indirect
      rw [if_neg (Ne.symm data)] at kept
      have plain := family.plain j
      rw [here] at plain
      exact lt_of_eq_of_lt kept plain
    · rw [update_of_ne same]
      exact family.plain j
  case real =>
    intro j s pointer
    rw [block]
    apply family.real
    by_cases same : j = i
    · subst same
      rw [update_self] at pointer
      rw [here]
      intro zero
      exact pointer ((summed.ptr_eq_zero family here checked some s).mpr zero)
    · rw [update_of_ne same, family.ptr_other same still] at pointer
      exact pointer
  case kept => exact fun k _ => inr (block k.1 k.2)
  case new => exact inr (inl (block i s₀))

omit [DecidableEq ι] in
theorem view {s : PtrSlot} (data : s ≠ .indirect) :
    d'.view ip'.toDinode s = d.view ip.toDinode s := by
  funext k
  unfold Disk.view
  rw [summed.block checked]
  by_cases zero : d.ptr ip.toDinode s = 0
  · rw [if_pos zero, if_pos ((summed.ptr_eq_zero family here checked some s).mpr zero)]
  · have real := family.real i s (by rw [here]; exact zero)
    have apart := family.apart (i := i) real (fun pair => data (congrArg Prod.snd pair))
    rw [here] at apart
    rw [if_neg zero, if_neg (fun none => zero
      ((summed.ptr_eq_zero family here checked some s).mp none)),
      summed.still apart]

omit [DecidableEq ι] in
theorem count :
    d'.freeCount limit + d'.claimed ip'.toDinode = d.freeCount limit + d.claimed ip.toDinode := by
  have free : d'.freeCount limit = d.freeCount limit :=
    Disk.freeCount_congr fun c less =>
      summed.used c (less.trans_le family.limit_le)
  have claims : d'.claimed ip'.toDinode = d.claimed ip.toDinode :=
    Disk.claimed_congr (summed.ptr_eq_zero family here checked some)
  rw [free, claims]

end

end Summed

omit [DecidableEq ι] in
theorem wp_setChecksum {bn : Nat} (owned : d.Owned limit N)
    (here : N i = ip.toDinode) (inFile : bn < MAXFILE)
    (idle : ip.addrs INDIRECT ∉ d.held) (few : d.held.length < NBUF)
    (some : d.ptr ip.toDinode (.file bn) ≠ 0) :
    wp (setChecksum ip bn chksum) (fun r d' => Summed d ip (.file bn) chksum d' r.2) E d := by
  unfold setChecksum
  by_cases first : bn < NDIRECT
  · rw [PtrSlot.file_direct first] at some ⊢
    rw [Disk.ptr_addr] at some
    rw [dif_pos first]
    simp only
    rw [if_neg some, wp_pure]
    refine ⟨rfl, rfl, rfl, fun _ _ => rfl, rfl, fun x changed => absurd rfl changed, fun s => ?_⟩
    rw [Disk.ptr_setAddr (direct_ne_indirect first)]
    exact ite_congr rfl (fun same => by rw [same, Disk.ptr_addr]) fun _ => rfl
  · have inRange : bn - NDIRECT < NINDIRECT := by
      have bound : bn < 140 := inFile
      have direct : ¬ bn < 12 := first
      change bn - 12 < 128
      omega
    have slot := PtrSlot.file_entry first inRange
    have indirect : ip.addrs INDIRECT ≠ 0 := by
      intro none
      rw [slot] at some
      exact some (Disk.ptr_entry_none none _)
    have plain := owned.plain i
    have data := owned.indirect (i := i) (by rw [here]; exact indirect)
    have pos := d.one_lt_dataStart
    rw [here] at plain data
    rw [slot] at some ⊢
    rw [Disk.ptr_entry_some indirect] at some
    rw [dif_neg first, if_pos inRange, if_neg indirect, realAddr_of_lt plain]
    simp only
    rw [wp_bind, wp_bread idle few, if_neg some, wp_bind,
      wp_bwrite (by simp), wp_bind, wp_brelse (by simp),
      Disk.hold_setSector_release, wp_pure]
    refine ⟨Disk.superblock_setSector (by omega) .., rfl, rfl,
      fun c small => Disk.used_setSector (inl data.1) _ small, rfl, ?_,
      ?_⟩
    · intro x changed
      by_cases same : x = ip.addrs INDIRECT
      · rw [same]
        exact ⟨rfl, indirect⟩
      · rw [Disk.setSector_of_ne same] at changed
        exact absurd rfl changed
    · intro s
      have entry := Disk.ptr_setEntry indirect ⟨bn - NDIRECT, inRange⟩
        (synthAddr_lt (word32 (d.sectors (ip.addrs INDIRECT)) (4 * (bn - NDIRECT))) chksum) d s
      refine entry.trans ?_
      exact ite_congr rfl (fun same => by rw [same, Disk.ptr_entry_some indirect]) fun _ => rfl

end Summed

/-! ## A checksummed file and its array -/

/-- One inode as a family. -/
def solo (ip : Inode) : Unit → Dinode := fun _ => ip.toDinode

theorem update_solo (ip ip' : Inode) : update (solo ip) () ip'.toDinode = solo ip' := by
  funext _
  exact update_self ..

/-- Exclusive-or of the bytes of one block of an array. -/
def blockSum (content : List UInt8) (bn : Nat) : UInt8 :=
  genChecksum fun j => content.getD (BSIZE * bn + j) 0

/-- The blocks of a checksummed inode hold the bytes of `content`, padded with
zeros, and exactly the blocks that `content` reaches exist. -/
structure Checked (limit : Nat) (d : Disk) (ip : Inode) (content : List UInt8) : Prop where
  owned : d.Owned limit (solo ip)
  idle : d.held = []
  type : ip.type = T_CHECKED
  length : content.length ≤ BSIZE * MAXFILE
  view : ∀ bn < MAXFILE, ∀ j < BSIZE,
    d.view ip.toDinode (.file bn) j = content.getD (BSIZE * bn + j) 0
  sum : ∀ bn < MAXFILE, d.ptr ip.toDinode (.file bn) ≠ 0 → d.ptr ip.toDinode (.file bn) =
      synthAddr (d.block ip.toDinode (.file bn)) (blockSum content bn)
  dense : ∀ bn < MAXFILE, d.ptr ip.toDinode (.file bn) ≠ 0 ↔ BSIZE * bn < content.length
  indirect : ip.addrs INDIRECT ≠ 0 ↔ BSIZE * NDIRECT < content.length
  given : ∀ s, d.ptr ip.toDinode s ≠ 0 → d.block ip.toDinode s ∈ d.given

/-- What a run on one inode leaves alone: the sectors it changes belong to
the bitmap, hold the inode, or are blocks of the inode. -/
structure Touched (limit : Nat) (d : Disk) (ip : Inode) (d' : Disk) (ip' : Inode) : Prop where
  superblock : d'.superblock = d.superblock
  inum : ip'.inum = ip.inum
  kept : ∀ s, d.block ip.toDinode s ≠ 0 → d'.block ip'.toDinode s = d.block ip.toDinode s
  sectors : ∀ x, d'.sectors x ≠ d.sectors x →
    (∃ b < d.bitmapEnd, x = bblock b d.superblock.ninodes) ∨
      x = iblock ip.inum ∨ ∃ s, d'.block ip'.toDinode s = x ∧ x ≠ 0
  count : d'.freeCount limit + d'.claimed ip'.toDinode = d.freeCount limit + d.claimed ip.toDinode

namespace Touched

variable {limit : Nat} {d d' d'' : Disk} {ip ip' ip'' : Inode}

theorem refl (limit : Nat) (d : Disk) (ip : Inode) : Touched limit d ip d ip where
  superblock := rfl
  inum := rfl
  kept := fun _ _ => rfl
  sectors := fun _ changed => absurd rfl changed
  count := rfl

theorem trans (first : Touched limit d ip d' ip') (second : Touched limit d' ip' d'' ip'') :
    Touched limit d ip d'' ip'' where
  superblock := second.superblock.trans first.superblock
  inum := second.inum.trans first.inum
  kept := by
    intro s some
    have same := first.kept s some
    rw [second.kept s (by rw [same]; exact some), same]
  sectors := by
    intro x changed
    by_cases middle : d''.sectors x = d'.sectors x
    · rw [middle] at changed
      rcases first.sectors x changed with bitmap | inode | ⟨s, block, some⟩
      · exact inl bitmap
      · exact inr (inl inode)
      · refine inr (inr ⟨s, ?_, some⟩)
        rw [second.kept s (by rw [block]; exact some), block]
    · have later := second.sectors x middle
      rw [Disk.bitmapEnd_congr first.superblock, first.superblock, first.inum] at later
      exact later
  count := second.count.trans first.count

end Touched

section Round

variable {limit : Nat} {d d₁ d₂ : Disk} {ip ip₁ ip₂ : Inode}
  {content : List UInt8} {bn : Nat}

theorem Grown.touched (grown : Grown limit (solo ip) () d ip d₁ ip₁) :
    Touched limit d ip d₁ ip₁ where
  superblock := grown.superblock
  inum := by rw [grown.rest]
  kept := by
    intro s some
    have type : ip₁.type = ip.type := by rw [grown.rest]
    unfold Disk.block
    rw [grown.kept s (Disk.ptr_ne_zero some), type]
  sectors := by
    intro x changed
    rcases grown.sectors x changed with bitmap | ⟨same, some⟩
    · exact inl bitmap
    · refine inr (inr ⟨.indirect, ?_, some⟩)
      have claim := grown.owned.block_indirect ()
      rw [update_solo] at claim
      exact claim.trans same.symm
  count := grown.count

/-- After `bmap` every block still reads as before, and every pointer still
carries the checksum of its block. -/
theorem Checked.sum_grown (file : Checked limit d ip content)
    (grown : Grown limit (solo ip) () d ip d₁ ip₁) (inFile : bn < MAXFILE)
    (some : d₁.ptr ip₁.toDinode (.file bn) ≠ 0) :
    d₁.ptr ip₁.toDinode (.file bn) =
      synthAddr (d₁.block ip₁.toDinode (.file bn)) (blockSum content bn) := by
  have type : ip₁.type = ip.type := by rw [grown.rest]
  by_cases old : d.ptr ip.toDinode (.file bn) = 0
  · -- A new block is zero, and so is the part of the array it stands for.
    obtain ⟨small, _⟩ := grown.fresh (.file bn) old some
    have zero : blockSum content bn = 0 := by
      rw [← genChecksum_zero]
      apply genChecksum_congr
      intro j inside
      rw [← file.view bn inFile j inside]
      exact if_pos old
    unfold Disk.block
    rw [realAddr_of_lt small, zero, synthAddr_zero small]
  · have sum := file.sum bn inFile old
    unfold Disk.block at sum ⊢
    rw [grown.kept (.file bn) old, type]
    exact sum

/-- The data block at `s₀` has been stored, with its checksum. -/
structure Stored (limit : Nat) (d₁ : Disk) (ip₁ : Inode) (s₀ : PtrSlot)
    (data : Bytes.Store) (d₂ : Disk) (ip₂ : Inode) : Prop where
  owned : d₂.Owned limit (solo ip₂)
  given : d₂.given = d₁.given
  rest : ip₂ = { ip₁ with addrs := ip₂.addrs }
  ptr : ∀ s, d₂.ptr ip₂.toDinode s =
    if s = s₀ then synthAddr (d₁.ptr ip₁.toDinode s) (genChecksum data)
    else d₁.ptr ip₁.toDinode s
  null : ∀ s, d₂.ptr ip₂.toDinode s = 0 ↔ d₁.ptr ip₁.toDinode s = 0
  block : ∀ s, d₂.block ip₂.toDinode s = d₁.block ip₁.toDinode s
  view : ∀ s, s ≠ .indirect → d₂.view ip₂.toDinode s =
    if s = s₀ then data else d₁.view ip₁.toDinode s
  touched : Touched limit d₁ ip₁ d₂ ip₂

theorem Summed.stored {s₀ : PtrSlot} {data : Bytes.Store}
    (summed : Summed (d₁.setSector (d₁.block ip₁.toDinode s₀) data) ip₁ s₀
      (genChecksum data) d₂ ip₂)
    (owned : d₁.Owned limit (solo ip₁)) (checked : ip₁.type = T_CHECKED)
    (isData : s₀ ≠ .indirect) (some : d₁.ptr ip₁.toDinode s₀ ≠ 0) :
    Stored limit d₁ ip₁ s₀ data d₂ ip₂ := by
  have real : d₁.block ip₁.toDinode s₀ ≠ 0 := owned.real () s₀ some
  have written := owned.setData (i := ()) isData real data
  have ptr := owned.ptr_setData (i := ()) isData real data ()
  have view := owned.view_setData (i := ()) isData real data ()
  have block := owned.block_setData (i := ()) isData real data ()
  simp only [solo] at ptr view block
  have some' := some
  rw [← ptr] at some'
  have inside := owned.inData () s₀ real
  have null := summed.ptr_eq_zero written (i := ()) rfl checked some'
  constructor
  case owned =>
    have after := summed.owned written (i := ()) rfl checked some' isData
    rw [update_solo] at after
    exact after
  case given => exact summed.given
  case rest => exact summed.rest
  case ptr =>
    intro s
    rw [summed.ptr, ptr]
  case null =>
    intro s
    rw [null, ptr]
  case block =>
    intro s
    rw [summed.block checked, block]
  case view =>
    intro s dataSlot
    rw [summed.view written (i := ()) rfl checked some' dataSlot, view]
    simp
  case touched =>
    constructor
    case superblock =>
      have pos := d₁.one_lt_dataStart
      have high : 1 < d₁.block ip₁.toDinode s₀ := pos.trans_le inside.1
      rw [summed.superblock, Disk.superblock_setSector high]
    case inum => rw [summed.rest]
    case kept =>
      intro s _
      rw [summed.block checked, block]
    case sectors =>
      intro x changed
      refine inr (inr ?_)
      by_cases indirect : x = ip₁.addrs INDIRECT ∧ x ≠ 0
      · refine ⟨.indirect, ?_, indirect.2⟩
        rw [summed.block checked, block, indirect.1]
        exact owned.block_indirect ()
      · by_cases same : x = d₁.block ip₁.toDinode s₀
        · refine ⟨s₀, ?_, by rw [same]; exact real⟩
          rw [summed.block checked, block, same]
        · have still : d₂.sectors x = (d₁.setSector (d₁.block ip₁.toDinode s₀) data).sectors x := by
            by_contra ne
            exact indirect (summed.sectors x ne)
          rw [still, Disk.setSector_of_ne same] at changed
          exact absurd rfl changed
    case count =>
      rw [summed.count written (i := ()) rfl checked some']
      have free : (d₁.setSector (d₁.block ip₁.toDinode s₀) data).freeCount
          limit = d₁.freeCount limit :=
        Disk.freeCount_congr fun c less =>
          Disk.used_setSector (inl inside.1) data (less.trans_le owned.limit_le)
      have claims : (d₁.setSector (d₁.block ip₁.toDinode s₀) data).claimed
          ip₁.toDinode = d₁.claimed ip₁.toDinode :=
        Disk.claimed_congr fun s => by rw [ptr]
      rw [free, claims]

variable {bytes : List UInt8} {off : Nat}

theorem put_content {old : Bytes.Store} (same : ∀ j < BSIZE,
      old j = content.getD (BSIZE * (off / BSIZE) + j) 0)
    (reached : off ≤ content.length) {j : Nat} (inside : j < BSIZE) :
    put old (off % BSIZE) bytes j = (overwrite content off bytes).getD
        (BSIZE * (off / BSIZE) + j) 0 := by
  have split := Nat.div_add_mod off BSIZE
  rw [getD_overwrite reached]
  by_cases written : off % BSIZE ≤ j ∧ j < off % BSIZE + bytes.length
  · rw [if_pos (by omega)]
    unfold put
    rw [if_pos written]
    congr 1
    omega
  · rw [if_neg (by omega)]
    unfold put
    rw [if_neg written, same j inside]

theorem getD_other (reached : off ≤ content.length)
    (fits : off % BSIZE + bytes.length ≤ BSIZE) {bn j : Nat}
    (other : bn ≠ off / BSIZE) (inside : j < BSIZE) :
    (overwrite content off bytes).getD (BSIZE * bn + j) 0 = content.getD (BSIZE * bn + j) 0 := by
  rw [getD_overwrite reached, if_neg]
  simp only [BSIZE] at *
  omega

theorem Checked.store (file : Checked limit d ip content)
    (grown : Grown limit (solo ip) () d ip d₁ ip₁)
    (some : d₁.ptr ip₁.toDinode (.file (off / BSIZE)) ≠ 0)
    (only : ∀ s, s ≠ .file (off / BSIZE) → (s = .indirect → off / BSIZE < NDIRECT) →
      d₁.ptr ip₁.toDinode s = d.ptr ip.toDinode s)
    (stored : Stored limit d₁ ip₁ (.file (off / BSIZE))
      (put (d₁.sectors (d₁.block ip₁.toDinode (.file (off / BSIZE)))) (off % BSIZE) bytes) d₂ ip₂)
    (idle : d₂.held = []) (reached : off ≤ content.length)
    (inFile : off / BSIZE < MAXFILE) (pos : 0 < bytes.length)
    (fits : off % BSIZE + bytes.length ≤ BSIZE) :
    Checked limit d₂ ip₂ (overwrite content off bytes) := by
  have type : ip₁.type = T_CHECKED := by
    rw [grown.rest]
    exact file.type
  have view : ∀ bn < MAXFILE, ∀ j < BSIZE, d₁.view ip₁.toDinode (.file bn) j =
        content.getD (BSIZE * bn + j) 0 := by
    intro bn small j inside
    rw [grown.view _ (file_ne_indirect bn) j inside]
    exact file.view bn small j inside
  have data : ∀ j < BSIZE, put (d₁.sectors (d₁.block ip₁.toDinode (.file (off / BSIZE))))
        (off % BSIZE) bytes j = (overwrite content off bytes).getD
          (BSIZE * (off / BSIZE) + j) 0 := by
    intro j inside
    refine put_content (fun k less => ?_) reached inside
    rw [← view _ inFile k less]
    unfold Disk.view
    rw [if_neg some]
  have length := length_overwrite reached bytes
  have apart : ∀ bn < MAXFILE, bn ≠ off / BSIZE → PtrSlot.file bn ≠ .file (off / BSIZE) :=
    fun bn small ne same => ne (PtrSlot.file_inj small inFile same)
  constructor
  case owned => exact stored.owned
  case idle => exact idle
  case type =>
    rw [stored.rest]
    exact type
  case length =>
    rw [length]
    have bound := file.length
    simp only [BSIZE, MAXFILE, NDIRECT, NINDIRECT] at *
    omega
  case view =>
    intro bn small j inside
    rw [stored.view _ (file_ne_indirect bn)]
    by_cases here : bn = off / BSIZE
    · rw [here, if_pos rfl]
      exact data j inside
    · rw [if_neg (apart bn small here), view bn small j inside, getD_other reached fits here inside]
  case sum =>
    intro bn small pointer
    rw [stored.block, stored.ptr]
    by_cases here : bn = off / BSIZE
    · subst here
      have block : blockSum (overwrite content off bytes)
          (off / BSIZE) = genChecksum (put (d₁.sectors
            (d₁.block ip₁.toDinode (.file (off / BSIZE))))
            (off % BSIZE) bytes) :=
        genChecksum_congr fun j inside => (data j inside).symm
      rw [if_pos rfl, block]
      unfold Disk.block
      rw [type, synthAddr_realAddr]
    · have block : blockSum (overwrite content off bytes) bn = blockSum content bn :=
        genChecksum_congr fun j inside => getD_other reached fits here inside
      rw [if_neg (apart bn small here), block]
      apply file.sum_grown grown small
      rw [stored.ptr, if_neg (apart bn small here)] at pointer
      exact pointer
  case dense =>
    intro bn small
    rw [Ne, stored.null, length]
    by_cases here : bn = off / BSIZE
    · subst here
      refine iff_of_true some ?_
      simp only [BSIZE] at *
      omega
    · rw [only _ (apart bn small here) (fun same =>
        absurd same (file_ne_indirect bn))]
      refine (file.dense bn small).trans ?_
      simp only [BSIZE] at *
      omega
  case indirect =>
    have kept := stored.null .indirect
    change d₂.ptr ip₂.toDinode .indirect ≠ 0 ↔ _
    rw [Ne, kept, length]
    by_cases direct : off / BSIZE < NDIRECT
    · rw [only .indirect (Ne.symm (file_ne_indirect _)) (fun _ => direct)]
      refine file.indirect.trans ?_
      simp only [BSIZE, NDIRECT] at *
      omega
    · refine iff_of_true ?_ ?_
      · intro none
        have inRange : off / BSIZE - NDIRECT < NINDIRECT := by
          simp only [MAXFILE, NDIRECT, NINDIRECT] at *
          omega
        rw [PtrSlot.file_entry direct inRange] at some
        exact some (Disk.ptr_entry_none none _)
      · simp only [BSIZE, NDIRECT] at *
        omega
  case given =>
    intro s pointer
    rw [Ne, stored.null] at pointer
    rw [stored.block, stored.given]
    by_cases old : d.ptr ip.toDinode s = 0
    · obtain ⟨small, mem⟩ := grown.fresh s old pointer
      unfold Disk.block
      rw [realAddr_of_lt small]
      exact mem
    · have same : d₁.block ip₁.toDinode s = d.block ip.toDinode s := by
        unfold Disk.block
        rw [grown.kept s old, type, file.type]
      rw [same]
      exact grown.given _ (file.given s old)

variable {E : FsPanic → Prop}

theorem Summed.release {x : Nat} {data : Bytes.Store} {s₀ : PtrSlot} {chksum : UInt8}
    (summed : Summed ((d₁.hold x).setSector x data) ip₁ s₀ chksum d₂ ip₂) :
    Summed (d₁.setSector x data) ip₁ s₀ chksum (d₂.release x) ip₂ :=
  { summed with
    held := by
      change d₂.held.erase x = d₁.held
      rw [summed.held]
      exact List.erase_cons_head .. }

/-- A round of `writei` on a block whose bytes cancel out. -/
theorem wp_writeiBlock_checked (file : Checked limit d ip content)
    (reached : off ≤ content.length) (inFile : off / BSIZE < MAXFILE)
    (pos : 0 < bytes.length)
    (fits : off % BSIZE + bytes.length ≤ BSIZE)
    (clean : blockSum content (off / BSIZE) = 0)
    (room : d.lacks ip (off / BSIZE) ≤ d.freeCount limit) :
    wp (writeiBlock ip off bytes) (fun ip' d' =>
      Checked limit d' ip' (overwrite content off bytes) ∧ ip' = { ip with addrs := ip'.addrs } ∧
        Touched limit d ip d' ip') E d := by
  unfold writeiBlock
  refine wp_seq (wp_bmap file.owned (i := ()) rfl file.idle (inr room)
    (fun beyond => absurd inFile (Nat.not_lt_of_le beyond))) ?_
  rintro ⟨sector, ip₁⟩ d₁ ⟨_, grown, value, some, only, _⟩
  simp only at grown value some only ⊢
  rw [value] at some
  have owned := grown.owned
  rw [update_solo] at owned
  have type : ip₁.type = T_CHECKED := by
    rw [grown.rest]
    exact file.type
  have idle := grown.held.trans file.idle
  have real : d₁.block ip₁.toDinode (.file (off / BSIZE)) ≠ 0 := owned.real () _ some
  have small := Nat.lt_of_lt_of_le (owned.inData () _ real).2.1 owned.limit_small
  -- Without a checksum the pointer is the number of the block.
  have plain : sector = d₁.block ip₁.toDinode (.file (off / BSIZE)) := by
    rw [value, file.sum_grown grown inFile some, clean]
    exact synthAddr_zero small
  have isData := file_ne_indirect (off / BSIZE)
  have apart := owned.apart (i := ()) (j := ()) real (fun pair => isData (congrArg Prod.snd pair))
  rw [plain, wp_bind, wp_bread (by rw [idle]; simp) (by rw [idle]; decide),
    wp_bind, wp_bwrite (by simp), if_pos type, wp_bind]
  have held := (owned.setData (i := ()) isData real
    (put (d₁.sectors (d₁.block ip₁.toDinode (.file (off / BSIZE)))) (off % BSIZE) bytes))
  refine wp_imp (wp_setChecksum (held.congr_sectors rfl) (i := ()) rfl inFile ?_ ?_ ?_) ?_
  · change ip₁.addrs INDIRECT ∉ d₁.block ip₁.toDinode _ :: d₁.held
    rw [idle, List.mem_singleton]
    exact Ne.symm apart
  · change (d₁.block ip₁.toDinode _ :: d₁.held).length < NBUF
    rw [idle, List.length_singleton]
    decide
  · intro none
    apply some
    rw [← none]
    exact (owned.ptr_setData (i := ()) isData real _ () _).symm
  · rintro ⟨_, ip₂⟩ d₂ summed
    simp only at summed
    rw [wp_bind, wp_pure, wp_bind, wp_brelse, wp_pure]
    · have stored := summed.release.stored owned type isData some
      have after := summed.release.held.trans idle
      refine ⟨file.store grown some only stored after reached inFile pos
        fits, ?_, grown.touched.trans stored.touched⟩
      rw [stored.rest, grown.rest]
    · rw [summed.held]
      exact List.mem_cons_self

end Round

/-! ## Free blocks -/

/-- Blocks that a file of `n` bytes takes, its indirect block included. -/
def blocksFor (n : Nat) : Nat :=
  (n + (BSIZE - 1)) / BSIZE + if BSIZE * NDIRECT < n then 1 else 0

section Blocks

variable {limit : Nat} {d : Disk} {ip : Inode} {content : List UInt8}

theorem Checked.claimed (file : Checked limit d ip content) :
    d.claimed ip.toDinode = blocksFor content.length := by
  have length := file.length
  have files : (Finset.univ.filter fun s => d.ptr ip.toDinode s ≠ 0).erase
      .indirect = (Finset.range ((content.length + (BSIZE - 1)) / BSIZE)).image
        PtrSlot.file := by
    ext s
    simp only [Finset.mem_erase, Finset.mem_filter, Finset.mem_univ,
      true_and, Finset.mem_image, Finset.mem_range]
    constructor
    · rintro ⟨data, pointer⟩
      obtain ⟨bn, small, rfl⟩ := PtrSlot.exists_file data
      refine ⟨bn, ?_, rfl⟩
      have inside := (file.dense bn small).mp pointer
      simp only [BSIZE] at *
      omega
    · rintro ⟨bn, less, rfl⟩
      have small : bn < MAXFILE := by
        simp only [BSIZE, MAXFILE, NDIRECT, NINDIRECT] at *
        omega
      refine ⟨file_ne_indirect bn, (file.dense bn small).mpr ?_⟩
      simp only [BSIZE] at *
      omega
  have card : ((Finset.range ((content.length + (BSIZE - 1)) / BSIZE)).image
      PtrSlot.file).card = (content.length + (BSIZE - 1)) / BSIZE := by
    rw [Finset.card_image_of_injOn, Finset.card_range]
    intro bn less bn' less' same
    simp only [Finset.coe_range, Set.mem_Iio] at less less'
    apply PtrSlot.file_inj _ _ same
    · simp only [BSIZE, MAXFILE, NDIRECT, NINDIRECT] at *
      omega
    · simp only [BSIZE, MAXFILE, NDIRECT, NINDIRECT] at *
      omega
  unfold Disk.claimed blocksFor
  by_cases some : ip.addrs INDIRECT = 0
  · have none : ¬ BSIZE * NDIRECT < content.length := fun reached => file.indirect.mpr reached some
    rw [if_neg none, Nat.add_zero, ← card, ← files, Finset.erase_eq_of_notMem]
    simpa using some
  · rw [if_pos (file.indirect.mp some), ← card, ← files, Finset.card_erase_add_one]
    simpa using some

theorem Checked.lacks_eq_zero (file : Checked limit d ip content) {bn : Nat}
    (inFile : bn < MAXFILE) (inside : BSIZE * bn < content.length) : d.lacks ip bn = 0 := by
  unfold Disk.lacks Inode.lacks
  rw [if_neg ((file.dense bn inFile).mpr inside)]
  by_cases beyond : NDIRECT ≤ bn
  · have long : BSIZE * NDIRECT < content.length := by
      simp only [BSIZE, NDIRECT] at *
      omega
    rw [if_pos beyond, if_neg (file.indirect.mpr long)]
  · rw [if_neg beyond]

/-- What `bmap` lacks is there as long as the file may still grow. -/
theorem Checked.lacks_le (file : Checked limit d ip content) {off k : Nat}
    (reached : off ≤ content.length) (pos : 0 < k) (inFile : off / BSIZE < MAXFILE)
    (room : blocksFor (max content.length (off + k)) ≤ d.freeCount limit + d.claimed ip.toDinode) :
    d.lacks ip (off / BSIZE) ≤ d.freeCount limit := by
  by_cases inside : BSIZE * (off / BSIZE) < content.length
  · rw [file.lacks_eq_zero inFile inside]
    exact Nat.zero_le _
  · have pointer : d.ptr ip.toDinode (.file (off / BSIZE)) = 0 := by
      by_contra some
      exact inside ((file.dense (off / BSIZE) inFile).mp some)
    rw [file.claimed] at room
    unfold Disk.lacks Inode.lacks
    unfold blocksFor at room
    rw [if_pos pointer]
    by_cases some : ip.addrs INDIRECT = 0
    · have short : ¬ BSIZE * NDIRECT < content.length := fun less => file.indirect.mpr less some
      rw [if_pos some]
      simp only [BSIZE, NDIRECT] at *
      split at room <;> split <;> omega
    · have long := file.indirect.mp some
      rw [if_neg some]
      simp only [BSIZE, NDIRECT] at *
      split at room <;> split <;> omega

end Blocks

/-! ## The loops of `writei` and `readi` -/

section Loops

variable {limit : Nat} {E : FsPanic → Prop}

/-- The loop of `writei`, by induction on the rounds. -/
theorem wp_writeiLoop_checked (fuel : Nat) :
    ∀ {d : Disk} {ip : Inode} {content src : List UInt8} {off : Nat},
      Checked limit d ip content → off ≤ content.length →
      off + src.length ≤ BSIZE * MAXFILE →
      (∀ k, off ≤ k → k < off + src.length → blockSum content (k / BSIZE) = 0) →
      blocksFor (max content.length (off + src.length)) ≤
        d.freeCount limit + d.claimed ip.toDinode →
      src.length ≤ fuel →
      wp (writeiLoop fuel ip src off src.length) (fun ip' d' =>
        Checked limit d' ip' (overwrite content off src) ∧ ip' = { ip with addrs := ip'.addrs } ∧
          Touched limit d ip d' ip') E d := by
  induction fuel with
  | zero =>
    intro d ip content src off file reached bound clean room enough
    have empty : src = [] := List.eq_nil_of_length_eq_zero (by omega)
    subst empty
    unfold writeiLoop
    rw [wp_pure, overwrite_nil]
    exact ⟨file, rfl, Touched.refl ..⟩
  | succ fuel ih =>
    intro d ip content src off file reached bound clean room enough
    unfold writeiLoop
    by_cases done : src.length = 0
    · have empty := List.eq_nil_of_length_eq_zero done
      subst empty
      rw [if_pos done, wp_pure, overwrite_nil]
      exact ⟨file, rfl, Touched.refl ..⟩
    · rw [if_neg done]
      have pos : 0 < src.length := Nat.pos_of_ne_zero done
      have inFile : off / BSIZE < MAXFILE := by
        simp only [BSIZE, MAXFILE, NDIRECT, NINDIRECT] at *
        omega
      generalize part : min src.length (BSIZE - off % BSIZE) = m
      have low : off % BSIZE < BSIZE := Nat.mod_lt _ (by decide)
      have taken : (src.take m).length = m := by
        rw [List.length_take]
        omega
      have dropped : (src.drop m).length = src.length - m := List.length_drop
      simp only
      refine wp_seq (wp_writeiBlock_checked file reached inFile
        (by omega) (by omega) (clean off le_rfl (by omega))
        (file.lacks_le reached pos inFile room)) ?_
      rintro ip₁ d₁ ⟨file₁, rest₁, touched₁⟩
      have length := length_overwrite reached (src.take m)
      have joined := overwrite_append reached (src.take m) (src.drop m)
      rw [List.take_append_drop] at joined
      rw [taken] at length joined
      rw [← dropped]
      refine wp_imp (ih file₁ (by omega) (by omega) ?_ ?_ (by omega)) ?_
      · -- More bytes remain only after the end of the block.
        intro k above less
        have other : k / BSIZE ≠ off / BSIZE := by
          simp only [BSIZE] at *
          omega
        rw [← clean k (by omega) (by omega)]
        apply genChecksum_congr
        intro j inside
        exact getD_other reached (by omega) other inside
      · rw [touched₁.count, length, dropped]
        refine (Nat.le_of_eq (congrArg blocksFor ?_)).trans room
        omega
      · rintro ip₂ d₂ ⟨file₂, rest₂, touched₂⟩
        rw [joined] at file₂
        refine ⟨file₂, ?_, touched₁.trans touched₂⟩
        rw [rest₂, rest₁]

end Loops

/-! ## Reading after damage -/

/-- The sectors have changed, but only those of data blocks of the file. -/
structure Damaged (d : Disk) (ip : Inode) (d' : Disk) : Prop where
  held : d'.held = d.held
  sectors : ∀ x, d'.sectors x ≠ d.sectors x → ∃ bn,
    d.ptr ip.toDinode (.file bn) ≠ 0 ∧ d.block ip.toDinode (.file bn) = x

theorem Damaged.refl (d : Disk) (ip : Inode) : Damaged d ip d where
  held := rfl
  sectors _ changed := absurd rfl changed

/-- The parity of block `bn` is still that of the block as it was. -/
def Disk.Intact (d : Disk) (ip : Inode) (d' : Disk) (bn : Nat) : Prop :=
  genChecksum (d'.sectors (d.block ip.toDinode (.file bn))) =
    genChecksum (d.sectors (d.block ip.toDinode (.file bn)))

/-- Block `bn` is as it was. -/
def Disk.Same (d : Disk) (ip : Inode) (d' : Disk) (bn : Nat) : Prop :=
  ∀ j < BSIZE, d'.sectors (d.block ip.toDinode (.file bn)) j =
    d.sectors (d.block ip.toDinode (.file bn)) j

/-- A byte of the range lies in block `bn`. -/
def Covers (off n bn : Nat) : Prop :=
  ∃ k, off ≤ k ∧ k < off + n ∧ k / BSIZE = bn

theorem covers_first {off left bn : Nat} (some : left ≠ 0) : Covers off left bn ↔ bn = off / BSIZE ∨
      Covers (off + min left (BSIZE - off % BSIZE)) (left - min left (BSIZE - off % BSIZE)) bn := by
  constructor
  · rintro ⟨k, above, below, rfl⟩
    by_cases first : k < off + (BSIZE - off % BSIZE)
    · left
      simp only [BSIZE] at *
      omega
    · right
      refine ⟨k, ?_, ?_, rfl⟩
      · omega
      · omega
  · rintro (rfl | ⟨k, above, below, rfl⟩)
    · exact ⟨off, Nat.le_refl _, by omega, rfl⟩
    · exact ⟨k, by omega, by omega, rfl⟩

section Damage

variable {limit : Nat} {E : FsPanic → Prop} {d d' : Disk} {ip : Inode}
  {content : List UInt8}

theorem Damaged.ptr (damaged : Damaged d ip d') (owned : d.Owned limit (solo ip)) (s : PtrSlot) :
    d'.ptr ip.toDinode s = d.ptr ip.toDinode s := by
  cases s with
  | addr a => rfl
  | entry j =>
    by_cases none : ip.addrs INDIRECT = 0
    · rw [Disk.ptr_entry_none none, Disk.ptr_entry_none none]
    · have same : d'.sectors (ip.addrs INDIRECT) = d.sectors (ip.addrs INDIRECT) := by
        by_contra changed
        obtain ⟨bn, some, block⟩ := damaged.sectors _ changed
        refine owned.apart (i := ()) (j := ()) (owned.real () _ some)
          (fun pair => file_ne_indirect bn (congrArg Prod.snd pair)) block
      rw [Disk.ptr_entry_some none, Disk.ptr_entry_some none, same]

theorem wp_readiBlock_checked {off m : Nat} {Q : Option (List UInt8) × Inode → Disk → Prop}
    (file : Checked limit d ip content) (damaged : Damaged d ip d') (inside : off < content.length)
    (bad : ¬ d.Intact ip d' (off / BSIZE) → ∀ after, Q (none, ip) after)
    (good : d.Intact ip d' (off / BSIZE) → Q (some (slice (d'.sectors (d.block ip.toDinode
        (.file (off / BSIZE)))) (off % BSIZE) m), ip) d') : wp (readiBlock ip off m) Q E d' := by
  have length := file.length
  have idle : d'.held = [] := damaged.held.trans file.idle
  have inFile : off / BSIZE < MAXFILE := by
    simp only [BSIZE, MAXFILE, NDIRECT, NINDIRECT] at *
    omega
  have pointer := (file.dense _ inFile).mpr (by
    simp only [BSIZE] at *
    omega)
  have ptr := damaged.ptr file.owned
  have has : d'.Has ip.toDinode (off / BSIZE + 1) := by
    intro bn below
    rw [ptr]
    have inFile' : bn < MAXFILE := by omega
    refine ⟨inFile', (file.dense bn inFile').mpr ?_⟩
    simp only [BSIZE] at *
    omega
  have block : realAddr (d.ptr ip.toDinode (.file (off / BSIZE))) ip.type =
      d.block ip.toDinode (.file (off / BSIZE)) := rfl
  -- The checksum in the pointer is that of the block as it was.
  have sum : getChecksum (d.ptr ip.toDinode (.file (off / BSIZE))) =
      genChecksum (d.sectors (d.block ip.toDinode (.file (off / BSIZE)))) := by
    rw [file.sum _ inFile pointer, getChecksum_synthAddr]
    refine genChecksum_congr fun j less => ?_
    rw [← file.view _ inFile j less]
    exact if_neg pointer
  unfold readiBlock
  rw [wp_bind]
  refine wp_bmap_there idle has (Nat.lt_succ_self _) ?_
  dsimp only
  rw [ptr, block, sum, wp_bind, wp_bread (by rw [idle]; simp) (by rw [idle]; decide)]
  by_cases intact : d.Intact ip d' (off / BSIZE)
  · rw [if_neg (fun broken => broken.2 intact), wp_bind,
      wp_brelse (by simp), Disk.hold_release, wp_pure]
    exact good intact
  · rw [if_pos ⟨file.type, intact⟩, wp_pure]
    exact bad intact _

theorem Checked.slice_same (file : Checked limit d ip content) {off m : Nat}
    (inside : off < content.length) (fits : off % BSIZE + m ≤ BSIZE)
    (same : d.Same ip d' (off / BSIZE)) :
    slice (d'.sectors (d.block ip.toDinode (.file (off / BSIZE))))
      (off % BSIZE) m = slice (ofList content) off m := by
  have length := file.length
  have inFile : off / BSIZE < MAXFILE := by
    simp only [BSIZE, MAXFILE, NDIRECT, NINDIRECT] at *
    omega
  have pointer := (file.dense _ inFile).mpr (by
    simp only [BSIZE] at *
    omega)
  refine List.map_congr_left fun j mem => ?_
  have less := List.mem_range.mp mem
  have place : BSIZE * (off / BSIZE) + (off % BSIZE + j) = off + j := by
    rw [← Nat.add_assoc, Nat.div_add_mod]
  have byte := file.view _ inFile (off % BSIZE + j) (by omega)
  unfold Disk.view at byte
  rw [if_neg pointer, place] at byte
  rw [same _ (by omega), byte]
  rfl

/-- The loop of `readi`, by induction on the rounds. -/
theorem wp_readiLoop_checked (file : Checked limit d ip content)
    (damaged : Damaged d ip d') (fuel : Nat) :
    ∀ {off left : Nat}, off + left ≤ content.length → left ≤ fuel →
      wp (readiLoop fuel ip off left) (fun r after =>
        (r.1 = false ↔ ∃ bn, Covers off left bn ∧ ¬ d.Intact ip d' bn) ∧
        ((∀ bn, Covers off left bn → d.Same ip d' bn) → after = d' ∧
          r = (true, slice (ofList content) off left, ip)))
        E d' := by
  have nothing : ∀ off bn, ¬ Covers off 0 bn := by
    rintro off bn ⟨k, above, below, _⟩
    omega
  have none : ∀ off, (true = false ↔ ∃ bn, Covers off 0 bn ∧ ¬ d.Intact ip d' bn) :=
    fun off => iff_of_false nofun fun ⟨bn, covers, _⟩ => nothing off bn covers
  induction fuel with
  | zero =>
    intro off left bound enough
    have done : left = 0 := by omega
    subst done
    exact ⟨none off, fun _ => ⟨rfl, rfl⟩⟩
  | succ fuel ih =>
    intro off left bound enough
    unfold readiLoop
    by_cases done : left = 0
    · subst done
      rw [if_pos rfl, wp_pure]
      exact ⟨none off, fun _ => ⟨rfl, rfl⟩⟩
    · rw [if_neg done, wp_bind]
      have split := fun bn => @covers_first off left bn done
      have low : off % BSIZE < BSIZE := Nat.mod_lt _ (by decide)
      generalize part : min left (BSIZE - off % BSIZE) = m at *
      refine wp_readiBlock_checked file damaged (by omega) ?_ ?_
      · intro broken after
        rw [wp_pure]
        refine ⟨iff_of_true rfl ⟨_, (split _).mpr (.inl rfl), broken⟩, fun same => absurd ?_ broken⟩
        exact genChecksum_congr (same _ ((split _).mpr (.inl rfl)))
      · intro intact
        dsimp only
        refine wp_seq (ih (by omega) (by omega)) ?_
        rintro ⟨verified, bytes, ip'⟩ after ⟨broken, whole⟩
        rw [wp_pure]
        constructor
        · refine broken.trans ⟨?_, ?_⟩
          · rintro ⟨bn, covers, bad⟩
            exact ⟨bn, (split bn).mpr (.inr covers), bad⟩
          · rintro ⟨bn, covers, bad⟩
            rcases (split bn).mp covers with rfl | covers
            · exact absurd intact bad
            · exact ⟨bn, covers, bad⟩
        · intro same
          obtain ⟨rfl, rest⟩ := whole fun bn covers =>
            same bn ((split bn).mpr (.inr covers))
          obtain ⟨rfl, rfl, rfl⟩ := by simpa only [Prod.mk.injEq] using rest
          refine ⟨rfl, ?_⟩
          rw [file.slice_same (by omega) (by omega)
            (same _ ((split _).mpr (.inl rfl))), ← slice_add]
          congr 3
          omega

end Damage

end Xv6.Fs
