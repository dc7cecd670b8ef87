/-
Purpose: What the checksums of a file are good for: a read detects every block
  whose parity has changed, and `stati` reports the parity of the contents, as
  long as the file does not have all the blocks it can have.
-/
import Xv6.Proofs.FsCheckedRuns
import Xv6.Proofs.FsOwnership

namespace Xv6.Fs

open Bytes FileOp Disk PanicM
open List (mem_map range)

variable {array : List UInt8} {ops : List FileOp} {chksum : UInt8} {ptrs : List Nat} {limit : Nat}

theorem genChecksum_eq_parity (bp : Bytes.Store) : genChecksum bp = parity (slice bp 0 BSIZE) := by
  unfold genChecksum parity slice
  rw [List.foldl_map]
  simp only [Nat.zero_add]

/-! ## Damaged blocks -/

/-- Writes reach blocks that were not written before, and the end of a read is
a 32-bit number. -/
def FileOp.Fresh (array : List UInt8) : FileOp → Prop
  | .write src off => ∀ k, off ≤ k → k < off + src.length → array.length ≤ BSIZE * (k / BSIZE)
  | .read off n => off ≤ array.length → off + n < 2 ^ 32

/-- Every call of the run is in range, every block is written once, and the
file never takes more than `free` blocks. -/
def WritesOnce (free : Nat) : List UInt8 → List FileOp → Prop
  | _, [] => True
  | array, op :: rest =>
    op.InRange array ∧ op.Fresh array ∧ blocksFor (op.content array).length ≤ free ∧
      WritesOnce free (op.content array) rest

theorem FileOp.Fresh.clean {op : FileOp} (fresh : op.Fresh array) : op.Clean array := by
  cases op with
  | write src off =>
    intro k above below
    have beyond := fresh k above below
    refine Eq.trans (genChecksum_congr fun j _ => ?_) genChecksum_zero
    exact List.getD_eq_default _ _ (by omega)
  | read off n => exact fresh

theorem WritesOnce.meets {free : Nat} (once : WritesOnce free array ops) :
    Meets free array ops := by
  induction ops generalizing array with
  | nil => trivial
  | cons op rest ih =>
    obtain ⟨inRange, fresh, room, later⟩ := once
    exact ⟨inRange, fresh.clean, room, ih later⟩

theorem Disk.not_intact {d d' : Disk} {ip : Inode} {bn j : Nat} (inside : j < BSIZE)
    (differs : d'.sectors (d.block ip.toDinode (.file bn)) j ≠
      d.sectors (d.block ip.toDinode (.file bn)) j)
    (others : ∀ i < BSIZE, i ≠ j → d'.sectors (d.block ip.toDinode (.file bn)) i =
        d.sectors (d.block ip.toDinode (.file bn)) i) : ¬ d.Intact ip d' bn := by
  unfold Disk.Intact
  rw [genChecksum_eq_parity, genChecksum_eq_parity]
  exact parity_slice_ne inside differs others

/-- Every block of a checksummed file was written once, and then the contents
of its data blocks change in any way.  A read inside the file fails exactly if
the parity of a block it covers has changed, which one changed byte is enough
for; and if it covers no block that has changed, it returns the bytes that
were written. -/
theorem corruption_detected (d : Disk) (ip : Inode) (ops : List FileOp)
    (formatted : d.Formatted) (rest : d.AtRest) (empty : ip.Empty)
    (inum : ip.inum < d.superblock.ninodes)
    (once : WritesOnce (d.freeCount d.superblock.size) [] ops) :
    ∃ ip' d', runOps ops ip d = .ok ((answers [] ops, ip'), d') ∧
      ip'.size = (ops.foldl content []).length ∧
      ∀ d'' typed off n, Damaged d' ip' d'' → off ≤ ip'.size → off + n < 2 ^ 32 →
        ∃ result bytes ip'' after, readi typed ip' off n d'' = .ok ((result, bytes, ip''), after) ∧
          (result = -1 ↔ ∃ bn, Covers off (min n (ip'.size - off)) bn ∧ ¬ d'.Intact ip' d'' bn) ∧
          (∀ bn j, Covers off (min n (ip'.size - off)) bn → j < BSIZE →
            d''.sectors (d'.block ip'.toDinode (.file bn)) j ≠
              d'.sectors (d'.block ip'.toDinode (.file bn)) j →
            (∀ i < BSIZE, i ≠ j → d''.sectors (d'.block ip'.toDinode (.file bn)) i =
                d'.sectors (d'.block ip'.toDinode (.file bn)) i) →
            result = -1) ∧
          ((∀ bn, Covers off (min n (ip'.size - off)) bn → d'.Same ip' d'' bn) →
            result = (min n (ip'.size - off) : Nat) ∧
            bytes = ((ops.foldl content []).drop off).take n) := by
  obtain ⟨ip', d', run, opened, -⟩ := run_opens formatted rest empty inum once.meets
  refine ⟨ip', d', run, opened.size, ?_⟩
  intro d'' typed off n damaged reached noWrap
  rw [opened.size] at reached ⊢
  have rule : wp (readi typed ip' off n) _ (fun _ => False) d'' :=
    wp_readi_damaged opened damaged reached noWrap
  obtain ⟨⟨result, bytes, ip''⟩, after, read, failed, whole⟩ := wp_returns rule
  refine ⟨result, bytes, ip'', after, read, failed, ?_, fun same => ?_⟩
  · intro bn j covers inside differs others
    exact failed.mpr ⟨bn, covers, not_intact inside differs others⟩
  · obtain ⟨_, shown⟩ := whole same
    simp only [Prod.mk.injEq] at shown
    exact ⟨shown.1, shown.2.1⟩

/-- One byte of a sector changes. -/
def Disk.flip (d : Disk) (x j : Nat) : Disk :=
  d.setSector x (Function.update (d.sectors x) j (d.sectors x j + 1))

/-- Three bytes are written, and byte 100 of their block changes, which a read of the three does
not return. -/
theorem corruption_detected_behind : ∃ ip' d', runOps [.write [1, 2, 3] 0] sampleInode sampleDisk =
        .ok ((answers [] [.write [1, 2, 3] 0], ip'), d') ∧
      ∃ bytes ip'' after, readi [] ip' 0 3 (d'.flip (d'.block ip'.toDinode (.file 0)) 100) =
        .ok ((-1, bytes, ip''), after) := by
  have once : WritesOnce (sampleDisk.freeCount sampleDisk.superblock.size) []
      [.write [1, 2, 3] 0] := by
    rw [sampleDisk_free]
    exact ⟨by decide, fun _ _ _ => Nat.zero_le _, by decide, trivial⟩
  obtain ⟨ip', d', run, size, detects⟩ := corruption_detected sampleDisk
    sampleInode [.write [1, 2, 3] 0] sampleDisk_formatted ⟨rfl, rfl⟩
    sampleInode_empty sampleInode_inum once
  have three : ip'.size = 3 := size
  have addr : ((runOps [.write [1, 2, 3] 0] sampleInode sampleDisk).toOption.map
      fun result => result.1.2.addrs 0) ≠ some 0 := by decide +kernel
  rw [run] at addr
  generalize block : d'.block ip'.toDinode (.file 0) = x
  have damaged : Damaged d' ip' (d'.flip x 100) := by
    refine ⟨rfl, fun y changed => ⟨0, fun zero => addr (congrArg some zero), ?_⟩⟩
    by_contra other
    exact changed (Function.update_of_ne (Ne.symm (block ▸ other)) ..)
  obtain ⟨result, bytes, ip'', after, read, -, one, -⟩ :=
    detects _ [] 0 3 damaged (Nat.zero_le _) (by decide)
  have failed := one 0 100 ⟨0, by simp [three]⟩ (by decide)
  have sector : (d'.flip x 100).sectors x =
      Function.update (d'.sectors x) 100 (d'.sectors x 100 + 1) :=
    Function.update_self ..
  simp only [block, sector] at failed
  rw [failed (by simp) fun i _ other => Function.update_of_ne other ..] at read
  exact ⟨ip', d', run, bytes, ip'', after, block ▸ read⟩

/-! ## The loops of `aggregate_checksum` -/

theorem xorChecksums_append (chksum : UInt8) (one two : List Nat) :
    xorChecksums chksum (one ++ two) = if (xorChecksums chksum one).2 then xorChecksums chksum one
      else xorChecksums (xorChecksums chksum one).1 two := by
  induction one generalizing chksum with
  | nil => rfl
  | cons addr rest ih =>
    rw [List.cons_append]
    by_cases none : addr = 0
    · simp [xorChecksums, none]
    · simp [xorChecksums, none, ih]

theorem xorChecksums_found (chksum : UInt8) (ptrs : List Nat) :
    (xorChecksums chksum ptrs).2 = true ↔ 0 ∈ ptrs := by
  induction ptrs generalizing chksum with
  | nil => simp [xorChecksums]
  | cons addr rest ih =>
    unfold xorChecksums
    by_cases none : addr = 0
    · simp [none]
    · simp [none, ih, Ne.symm none]

theorem xorChecksums_plain (plain : ∀ addr ∈ ptrs, addr < 2 ^ 24) :
    (xorChecksums chksum ptrs).1 = chksum := by
  induction ptrs with
  | nil => rfl
  | cons addr rest ih =>
    unfold xorChecksums
    by_cases none : addr = 0
    · rw [if_pos none]
    · have zero : getChecksum addr = 0 := by
        unfold getChecksum
        rw [Nat.shiftRight_eq_div_pow, Nat.div_eq_of_lt (plain addr List.mem_cons_self)]
        rfl
      rw [if_neg none, zero, UInt8.xor_zero]
      exact ih fun other mem => plain other (List.mem_cons_of_mem _ mem)

theorem xorChecksums_dense (dense : ∀ addr ∈ ptrs, addr ≠ 0) : xorChecksums chksum ptrs =
      (chksum ^^^ parity (ptrs.map getChecksum), false) := by
  induction ptrs generalizing chksum with
  | nil => simp [xorChecksums]
  | cons addr rest ih =>
    unfold xorChecksums
    rw [if_neg (dense addr List.mem_cons_self), ih fun other mem =>
      dense other (List.mem_cons_of_mem _ mem), UInt8.xor_assoc]
    congr 2
    exact (congrArg (· ^^^ _) (parity_singleton _).symm).trans (parity_append [_] _).symm

/-- The pointers to the blocks of a file, in order. -/
def Disk.filePtrs (d : Disk) (dn : Dinode) : List Nat :=
  (range MAXFILE).map fun bn => d.ptr dn (.file bn)

section Aggregate

variable {d : Disk} {ip : Inode} {E : FsPanic → Prop}
variable {dn : Dinode}

theorem Disk.filePtrs_direct (d : Disk) (dn : Dinode) :
    (range NDIRECT).map (fun bn => d.ptr dn (.file bn)) =
      dn.directPtrs := by
  refine List.ext_getElem (by simp [Dinode.directPtrs]) fun bn less _ => ?_
  have small : bn < NDIRECT := by simpa using less
  simp only [Dinode.directPtrs, List.getElem_map, List.getElem_range, List.getElem_finRange]
  rw [PtrSlot.file_direct small]
  rfl

theorem Disk.filePtrs_indirect (some : dn.addrs INDIRECT ≠ 0) :
    (range NINDIRECT).map (fun j => d.ptr dn (.file (NDIRECT + j))) =
      indirectPtrs (d.sectors (dn.addrs INDIRECT)) := by
  refine List.map_congr_left fun j mem => ?_
  have less := List.mem_range.mp mem
  have same : NDIRECT + j - NDIRECT = j := Nat.add_sub_cancel_left ..
  have inRange : NDIRECT + j - NDIRECT < NINDIRECT := by rwa [same]
  rw [PtrSlot.file_entry (by omega) inRange, ptr_entry_some some]
  simp only [same]

theorem Disk.filePtrs_null (none : dn.addrs INDIRECT = 0) :
    (range NINDIRECT).map (fun j => d.ptr dn (.file (NDIRECT + j))) =
      List.replicate NINDIRECT 0 := by
  refine List.eq_replicate_iff.mpr ⟨by simp, fun addr mem => ?_⟩
  obtain ⟨j, less, rfl⟩ := mem_map.mp mem
  have inRange : NDIRECT + j - NDIRECT < NINDIRECT := by
    rw [Nat.add_sub_cancel_left]
    exact List.mem_range.mp less
  rw [PtrSlot.file_entry (by omega) inRange, ptr_entry_none none]

theorem Disk.filePtrs_split (d : Disk) (dn : Dinode) : d.filePtrs dn = dn.directPtrs ++
      (range NINDIRECT).map (fun j => d.ptr dn (.file (NDIRECT + j))) := by
  unfold filePtrs MAXFILE
  rw [List.range_add, List.map_append, List.map_map, filePtrs_direct]
  rfl

/-- `aggregate_checksum` looks for a null pointer among all pointers of the
file. -/
theorem wp_aggregateChecksum {Q : UInt8 → Disk → Prop} (idle : d.held = [])
    (plain : ip.addrs INDIRECT < 2 ^ 24)
    (found : 0 ∈ d.filePtrs ip.toDinode → Q (xorChecksums 0 (d.filePtrs ip.toDinode)).1 d)
    (missing : 0 ∉ d.filePtrs ip.toDinode → E .aggregateChecksum) :
    wp (aggregateChecksum ip) Q E d := by
  rw [← xorChecksums_found 0] at found missing
  rw [filePtrs_split, xorChecksums_append] at found missing
  unfold aggregateChecksum
  dsimp only
  by_cases early : (xorChecksums 0 ip.directPtrs).2 = true
  · rw [if_pos (.inl early), wp_pure]
    rw [if_pos early] at found
    exact found early
  · rw [if_neg early] at found missing
    by_cases none : ip.addrs INDIRECT = 0
    · have stop : ∀ chksum : UInt8, xorChecksums chksum
          (List.replicate NINDIRECT 0) = (chksum, true) := fun _ => rfl
      rw [if_pos (.inr none), wp_pure]
      rw [filePtrs_null none, stop] at found
      exact found rfl
    · rw [if_neg (fun stop => stop.elim early none), realAddr_of_lt plain,
        wp_bind, wp_bread (by rw [idle]; simp) (by rw [idle]; decide),
        wp_bind, wp_brelse (by simp), hold_release]
      rw [filePtrs_indirect none] at found missing
      split
      · rename_i last
        exact found last
      · rename_i last
        exact missing last

/-- `stati` returns exactly if the file lacks a block, and then it reports
`sum` and changes nothing. -/
def Disk.StatRight (d : Disk) (ip : Inode) (sum : UInt8) : Prop :=
  ((∃ st d', stati ip d = .ok (st, d')) ↔ ∃ bn < MAXFILE, d.ptr ip.toDinode (.file bn) = 0) ∧
  ∀ st d', stati ip d = .ok (st, d') → st.checksum = sum ∧ d' = d

theorem statRight {sum : UInt8} (idle : d.held = []) (plain : ip.addrs INDIRECT < 2 ^ 24)
    (sums : 0 ∈ d.filePtrs ip.toDinode → (xorChecksums 0 (d.filePtrs ip.toDinode)).1 = sum) :
    d.StatRight ip sum := by
  have lacks : (∃ bn < MAXFILE, d.ptr ip.toDinode (.file bn) = 0) ↔ 0 ∈ d.filePtrs ip.toDinode := by
    simp [filePtrs]
  have rule : wp (stati ip) (fun st d' => 0 ∈ d.filePtrs ip.toDinode ∧ st.checksum = sum ∧ d' = d)
      (fun _ => 0 ∉ d.filePtrs ip.toDinode) d := by
    unfold stati
    rw [wp_bind]
    refine wp_aggregateChecksum idle plain (fun found => ?_) fun none => none
    rw [wp_pure]
    exact ⟨found, sums found, rfl⟩
  rw [Disk.StatRight, lacks]
  refine ⟨⟨fun ⟨st, d', ran⟩ => (wp_ok rule ran).1, fun found => ?_⟩,
    fun st d' ran => (wp_ok rule ran).2⟩
  cases ran : stati ip d with
  | ok result => exact ⟨result.1, result.2, rfl⟩
  | error reason => exact absurd found (wp_error rule ran)

theorem statRight_plain {ι : Type} {limit : Nat} {N : ι → Dinode} {i : ι}
    (owned : d.Owned limit N) (here : N i = ip.toDinode)
    (idle : d.held = []) (type : ip.type ≠ T_CHECKED) : d.StatRight ip 0 := by
  refine statRight idle (here ▸ owned.plain i) fun _ => ?_
  refine xorChecksums_plain fun addr mem => ?_
  obtain ⟨bn, _, rfl⟩ := mem_map.mp mem
  by_cases none : d.ptr ip.toDinode (.file bn) = 0
  · rw [none]
    decide
  · have block : d.block ip.toDinode (.file bn) = d.ptr ip.toDinode (.file bn) := if_neg type
    have real := owned.real i (.file bn) (by rw [here]; exact none)
    have inside := (owned.inData i _ real).2.1
    rw [here, block] at inside
    exact inside.trans_le owned.limit_small

end Aggregate

/-- The blocks of an array, one after the other. -/
theorem parity_blocks (content : List UInt8) (n : Nat) (whole : content.length ≤ BSIZE * n) :
    parity ((range n).map (blockSum content)) = parity content := by
  have blocks : ∀ m, parity ((range m).map (blockSum content)) =
      parity (slice (ofList content) 0 (BSIZE * m)) := by
    intro m
    induction m with
    | zero => rfl
    | succ m ih =>
      have sum : blockSum content m = parity (slice (ofList content) (BSIZE * m) BSIZE) := by
        unfold blockSum
        rw [genChecksum_eq_parity]
        simp only [slice, ofList, Nat.zero_add]
      rw [List.range_succ, List.map_append, parity_append, ih,
        Nat.mul_succ, slice_add, parity_append, Nat.zero_add,
        ← sum, List.map_singleton, parity_singleton]
  have tail : slice (ofList content) content.length (BSIZE * n - content.length) =
        List.replicate (BSIZE * n - content.length) 0 := by
    refine List.eq_replicate_iff.mpr ⟨by simp [slice], ?_⟩
    intro byte mem
    obtain ⟨i, _, rfl⟩ := mem_map.mp mem
    exact List.getD_eq_default _ _ (Nat.le_add_right ..)
  have split := slice_add (ofList content) 0 content.length (BSIZE * n - content.length)
  rw [Nat.add_sub_cancel' whole, Nat.zero_add, tail,
    slice_ofList (Nat.le_of_eq (Nat.zero_add _)), List.drop_zero,
    List.take_length] at split
  rw [blocks, split, parity_append, parity_zeros, UInt8.xor_zero]

theorem Checked.statRight {d : Disk} {ip : Inode}
    {content : List UInt8} (file : Checked limit d ip content) :
    d.StatRight ip (parity content) := by
  refine Xv6.Fs.statRight file.idle (file.owned.plain ()) fun found => ?_
  obtain ⟨bn, inFile, null⟩ : ∃ bn < MAXFILE, d.ptr ip.toDinode (.file bn) = 0 := by
    simpa [filePtrs] using found
  have short : content.length ≤ BSIZE * bn :=
    Nat.le_of_not_lt fun inside => (file.dense bn inFile).mpr inside null
  -- The blocks of the array come first, and then a null pointer.
  generalize count : (content.length + (BSIZE - 1)) / BSIZE = n
  obtain ⟨rest, total⟩ : ∃ rest, MAXFILE = n + (rest + 1) :=
    ⟨MAXFILE - n - 1, by simp only [BSIZE] at *; omega⟩
  have last : d.ptr ip.toDinode (.file n) = 0 := by
    by_contra some
    have inside := (file.dense n (by omega)).mp some
    simp only [BSIZE] at *
    omega
  have dense : ∀ addr ∈ (range n).map fun m =>
      d.ptr ip.toDinode (.file m), addr ≠ 0 := by
    intro addr mem
    obtain ⟨m, less, rfl⟩ := mem_map.mp mem
    have inside := List.mem_range.mp less
    refine (file.dense m (by omega)).mpr ?_
    simp only [BSIZE] at *
    omega
  have sums : ((range n).map fun m => d.ptr ip.toDinode (.file m)).map
      getChecksum = (range n).map (blockSum content) := by
    rw [List.map_map]
    refine List.map_congr_left fun m mem => ?_
    have less := List.mem_range.mp mem
    have some := dense _ (List.mem_map_of_mem mem)
    rw [Function.comp_apply, file.sum m (by omega) some, getChecksum_synthAddr]
  unfold filePtrs
  rw [total, List.range_add, List.map_append, xorChecksums_append,
    xorChecksums_dense dense, sums, if_neg Bool.false_ne_true,
    List.range_succ_eq_map]
  simp only [List.map_cons, Nat.add_zero, last, xorChecksums, if_true]
  rw [UInt8.zero_xor]
  exact parity_blocks content n (by simp only [BSIZE] at *; omega)

/-! ## Files without checksums -/

/-- Blocks that the bitmap has room for and the disk has not read as zero, and
every block number has 24 bits. -/
structure Disk.Rounded (d : Disk) : Prop where
  short : d.bitmapEnd ≤ 2 ^ 24
  beyond : ∀ b, d.superblock.size ≤ b → b < d.bitmapEnd → d.IsZero b

theorem owned_empty {d : Disk} {N : Nat → Dinode} (formatted : d.Formatted)
    (rounded : d.Rounded) (empty : ∀ i a, (N i).addrs a = 0) : d.Owned d.bitmapEnd N := by
  refine formatted.owned le_rfl rounded.short ?_ empty
  intro b small clear
  by_cases inside : b < d.superblock.size
  · exact formatted.free_zero b inside clear
  · exact rounded.beyond b (Nat.le_of_not_lt inside) small

/-- A file without blocks, on a disk whose other blocks are not looked at. -/
theorem ready_empty {d : Disk} {ip : Inode} (formatted : d.Formatted)
    (rounded : d.Rounded) (rest : d.AtRest) (plain : ip.type ≠ T_CHECKED)
    (empty : ∀ a, ip.addrs a = 0) (inum : ip.inum < d.superblock.ninodes) :
    Ready d.bitmapEnd (fun _ => ip.toDinode) ip.inum d ip :=
  ⟨⟨owned_empty formatted rounded fun _ => empty, rfl, rest.idle, rfl, rfl, inum,
    fun _ => empty⟩, plain⟩

/-- Calls on a file that is no directory, by induction on the run. -/
theorem wp_runOps_ready (ops : List FileOp) {i : Nat} :
    ∀ {N : Nat → Dinode} {d : Disk} {ip : Inode}, Ready limit N i d ip → ip.type ≠ T_DIR →
      wp (runOps ops ip) (fun r d' => ∃ N', Ready limit N' i d' r.2) Tolerated d := by
  induction ops with
  | nil => exact fun ready _ => ⟨_, ready⟩
  | cons op rest ih =>
    intro N d ip ready file
    have one : wp (op.perform ip) (fun r d' =>
        Advanced limit N i d ip d' r.2) Tolerated d := by
      cases op with
      | write src off =>
        unfold perform
        rw [wp_bind]
        exact wp_writei_ready ready src off fun dir => absurd dir file
      | read off n =>
        unfold perform
        rw [wp_bind]
        exact wp_readi_ready [] ready off n
    unfold runOps
    rw [wp_bind]
    refine wp_imp one fun r d₁ advanced => ?_
    have type : r.2.type = ip.type := by rw [advanced.rest]
    refine wp_seq (ih (ready.advance advanced) (by rwa [type])) ?_
    exact fun _ _ later => later

/-- `stati` returns if and only if the file lacks a block.  It reports 0 for
every inode in every state that calls on files without checksums reach, and
for every file without checksums that starts empty, after any calls on it and
whatever else is on the disk; and it reports the parity of the contents for a
checksummed file that starts empty, after a run in which every write touches
only blocks whose bytes cancel out. -/
theorem stat_checksum (ip : Inode) :
    (∀ s : FileSys, Reach FileSys.Boot Steps (fun _ call => call.Plain) s →
      ∀ i : Nat, ip.toDinode = s.node i → s.disk.StatRight ip 0) ∧
    (∀ (d : Disk) (ops : List FileOp) results ip' d',
      d.Formatted → d.Rounded → d.AtRest → ip.type ≠ T_CHECKED →
      ip.type ≠ T_DIR → (∀ a, ip.addrs a = 0) →
      ip.inum < d.superblock.ninodes →
      runOps ops ip d = .ok ((results, ip'), d') → d'.StatRight ip' 0) ∧
    ∀ (d : Disk) (ops : List FileOp), d.Formatted → d.AtRest →
      ip.Empty → ip.inum < d.superblock.ninodes →
      Meets (d.freeCount d.superblock.size) [] ops →
      ∃ ip' d', runOps ops ip d = .ok ((answers [] ops, ip'), d') ∧
        d'.StatRight ip' (parity (ops.foldl content [])) := by
  refine ⟨?_, ?_, ?_⟩
  · intro s reached i here
    have world := World.reached reached
    refine statRight_plain world.consistent.owned here.symm world.consistent.idle ?_
    have plain := world.consistent.plain i
    rwa [← here] at plain
  · intro d ops results ip' d' formatted rounded rest plain file empty inum run
    obtain ⟨N, ready⟩ := wp_ok (wp_runOps_ready ops
      (ready_empty formatted rounded rest plain empty inum) file) run
    exact statRight_plain ready.owned ready.here ready.idle ready.plain
  · intro d ops formatted rest empty inum meets
    obtain ⟨ip', d', run, opened, -⟩ := run_opens formatted rest empty inum meets
    exact ⟨ip', d', run, opened.file.statRight⟩

/-- The run of bytes that cancel out: `stati` returns their parity. -/
theorem stat_checksum_cancelling : ∃ ip' d', runOps cancellingRun sampleInode sampleDisk =
      .ok ((answers [] cancellingRun, ip'), d') ∧ d'.StatRight ip' 3 :=
  (stat_checksum sampleInode).2.2 sampleDisk cancellingRun sampleDisk_formatted
    ⟨rfl, rfl⟩ sampleInode_empty sampleInode_inum cancellingRun_meets

/-- The sample disk with 200 blocks. -/
def largeDisk : Disk :=
  { sampleDisk with
    sectors := fun x =>
      if x = 1 then ofList [200, 0, 0, 0, 195, 0, 0, 0, 8, 0, 0, 0]
      else sampleDisk.sectors x }

theorem largeDisk_superblock :
    largeDisk.superblock = { size := 200, nblocks := 195, ninodes := 8 } := by
  decide +kernel

theorem largeDisk_formatted : largeDisk.Formatted := by
  refine formatted_blank largeDisk_superblock (by decide) (by decide +kernel) ?_
  intro b one four i _
  simp [largeDisk, sampleDisk, one, four]

/-- A file is written up to the greatest size, and `stati` panics; and a
second write to one block makes `stati` report the parity of that write alone,
not that of the two bytes. -/
theorem fullFile_panics : (∃ src ip' d', src.length = BSIZE * MAXFILE ∧
      runOps [.write src 0] sampleInode largeDisk = .ok ((answers [] [.write src 0], ip'), d') ∧
      ∃ reason, stati ip' d' = .error reason) ∧
    (match runOps [.write [1] 0, .write [2] 1] sampleInode sampleDisk with
      | .ok ((_, ip), d) => (stati ip d).toOption.map fun r => r.1.checksum
      | .error _ => none) = some 2 ∧
    parity ([.write [1] 0, .write [2] 1].foldl content []) =
      3 := by
  refine ⟨?_, by decide +kernel, by decide⟩
  generalize long : List.replicate (BSIZE * MAXFILE) (0 : UInt8) = src
  have length : src.length = BSIZE * MAXFILE := by
    rw [← long, List.length_replicate]
  have free : largeDisk.freeCount largeDisk.superblock.size = 195 := by
    rw [largeDisk_superblock]
    decide +kernel
  have content : ((write src 0).content []).length = BSIZE * MAXFILE := by
    rw [content, length_overwrite (Nat.zero_le _), length]
    decide
  have meets : Meets (largeDisk.freeCount largeDisk.superblock.size) [] [.write src 0] := by
    refine ⟨⟨Nat.zero_le _, by omega⟩, FileOp.Fresh.clean fun _ _ _ => Nat.zero_le _, ?_, trivial⟩
    rw [content, free]
    decide
  obtain ⟨ip', d', run, opened, -⟩ := run_opens largeDisk_formatted
    ⟨rfl, rfl⟩ sampleInode_empty (by rw [largeDisk_superblock]; decide) meets
  refine ⟨src, ip', d', length, run, ?_⟩
  cases ran : stati ip' d' with
  | error reason => exact ⟨reason, rfl⟩
  | ok result =>
    obtain ⟨bn, inFile, null⟩ := opened.file.statRight.1.mp ⟨result.1, result.2, ran⟩
    refine absurd null ((opened.file.dense bn inFile).mpr ?_)
    rw [List.foldl_cons, List.foldl_nil, content]
    exact Nat.mul_lt_mul_of_pos_left inFile (by decide)

end Xv6.Fs
