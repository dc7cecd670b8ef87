/-
Purpose: A directory as a finite map from names to inode numbers, and what
  lookups and writes of single entries do to it.
-/
import Xv6.Lib.SlotMap
import Xv6.Proofs.FsInode

namespace Xv6.Fs

open Bytes PanicM
open Function (update update_self update_of_ne)

/-! ## Entries as slots -/

/-- The entries of a directory; those without an inode are empty. -/
def Disk.slots (d : Disk) (dn : Dinode) : SlotMap (List UInt8) Nat := fun k =>
  if k < DPB * MAXFILE ∧ d.entryInum dn k ≠ 0 then
    some (d.entryKey dn k, d.entryInum dn k)
  else
    none

/-- A directory of whole entries, no two with the same name, whose blocks are
there.  `dirlookup` also reads the rest of the last block, so that must be
empty. -/
structure Directory (d : Disk) (dn : Dinode) : Prop where
  whole : dn.size % DIRENTSIZE = 0
  bound : dn.size ≤ BSIZE * MAXFILE
  has : d.Has dn ((dn.size + (BSIZE - 1)) / BSIZE)
  past : ∀ k, dn.size ≤ DIRENTSIZE * k → d.slots dn k = none
  distinct : (d.slots dn).Distinct

/-- The first empty slot, where the one behind the last entry counts. -/
structure Disk.FirstFree (d : Disk) (dn : Dinode) (k : Nat) : Prop where
  inside : DIRENTSIZE * k ≤ dn.size
  free : d.slots dn k = none
  first : ∀ j < k, d.slots dn j ≠ none

section Slots

variable {d d' : Disk} {dn dn' : Dinode} {ip : Inode} {k : Nat}
  {name : List UInt8} {E : FsPanic → Prop}

theorem Disk.slots_none (small : k < DPB * MAXFILE) :
    d.slots dn k = none ↔ d.entryInum dn k = 0 := by
  unfold slots
  simp [small]

/-- The slots are those of the blocks. -/
theorem Disk.slots_congr (view : ∀ s, d'.view dn' s = d.view dn s) : d'.slots dn' = d.slots dn := by
  have contents : d'.contents dn' = d.contents dn := by
    unfold Disk.contents
    simp only [view]
  unfold slots entryInum entryKey
  rw [contents]

theorem Disk.binds_iff {key : List UInt8} {inum : Nat} :
    (d.slots dn).Binds key inum k ↔ k < DPB * MAXFILE ∧ inum ≠ 0 ∧
      d.entryKey dn k = key ∧ d.entryInum dn k = inum := by
  unfold SlotMap.Binds slots
  rw [Option.ite_none_right_eq_some, Option.some.injEq, Prod.mk.injEq, and_assoc]
  refine and_congr_right fun _ => ⟨?_, ?_⟩
  · rintro ⟨some, key, rfl⟩
    exact ⟨some, key, rfl⟩
  · rintro ⟨some, key, rfl⟩
    exact ⟨some, key, rfl⟩

theorem Disk.matches_binds (small : k < DPB * MAXFILE) :
    d.Matches dn name k ↔ (d.slots dn).Binds (nameKey (nameBytes name)) (d.entryInum dn k) k := by
  rw [matches_iff, binds_iff]
  exact ⟨fun ⟨live, key⟩ => ⟨small, live, key.symm, rfl⟩, fun ⟨_, live, key, _⟩ => ⟨live, key.symm⟩⟩

theorem Directory.slot_lt (dir : Directory d dn) {key : List UInt8}
    {inum : Nat} (binds : (d.slots dn).Binds key inum k) : DIRENTSIZE * k < dn.size := by
  by_contra past
  have none := dir.past k (Nat.le_of_not_lt past)
  rw [SlotMap.Binds, none] at binds
  cases binds

/-- What `dirlookup` does with the inode it holds. -/
def lookupEntry (name : List UInt8) (dp : Inode) : FsM (Option (Nat × Nat) × Inode) :=
  dirlookupLoop name ((dp.size + (BSIZE - 1)) / BSIZE) 0 dp

theorem wp_lookupEntry {Q : Option (Nat × Nat) × Inode → Disk → Prop}
    (dir : Directory d ip.toDinode) (idle : d.held = []) (type : ip.type = T_DIR)
    (found : ∀ inum k, (d.slots ip.toDinode).Binds (nameKey (nameBytes name))
      inum k → Q (some (inum, DIRENTSIZE * k), ip) d)
    (absent : ¬ (d.slots ip.toDinode).Bound (nameKey (nameBytes name)) →
      Q (none, ip) d) : wp (lookupEntry name ip) Q E d := by
  have bound := dir.bound
  have inFile : ∀ {k}, k < DPB * (0 + (ip.size + (BSIZE - 1)) / BSIZE) → k < DPB * MAXFILE := by
    intro k less
    simp only [BSIZE, MAXFILE, NDIRECT, NINDIRECT, DPB] at *
    omega
  refine wp_dirlookupLoop_there _ idle dir.has (by rw [type]; decide) ?_ ?_ ?_
  · intro b _ high _
    omega
  · intro k _ high hit _
    exact found _ k ((Disk.matches_binds (inFile high)).mp hit)
  · rintro missed
    refine absent ?_
    rintro ⟨inum, k, binds⟩
    have less := dir.slot_lt binds
    have high : k < DPB * (0 + (ip.size + (BSIZE - 1)) / BSIZE) := by
      simp only [BSIZE, DIRENTSIZE, DPB] at *
      omega
    refine missed k (Nat.zero_le _) high ?_
    rw [Disk.matches_binds (inFile high), (Disk.binds_iff.mp binds).2.2.2]
    exact binds

/-- A scan over entries that are there, up to one that `stop` accepts. -/
theorem wp_direntScan_there {Q : (Nat × Bool) × Inode → Disk → Prop} (panic : FsPanic)
    (stop : Nat → Bool) (dir : Directory d ip.toDinode) (idle : d.held = [])
    (type : ip.type = T_DIR) (left : Nat) (size : 0 < left → DIRENTSIZE * (k + left) ≤ ip.size)
    (rest : ∀ j stopped, j ≤ k + left →
      (∀ m, k ≤ m → m < j → stop (d.entryInum ip.toDinode m) = false) →
      (if stopped then stop (d.entryInum ip.toDinode j) = true else j = k + left) →
      Q ((DIRENTSIZE * j, stopped), ip) d) :
    wp (direntScan panic stop left (DIRENTSIZE * k) ip) Q E d := by
  have bound := dir.bound
  induction left generalizing k with
  | zero => exact rest k false le_rfl (fun m low high => absurd low (by omega)) rfl
  | succ left ih =>
    replace size := size (Nat.succ_pos left)
    have count : min DIRENTSIZE (ip.size - DIRENTSIZE * k) = DIRENTSIZE := by
      simp only [DIRENTSIZE] at *
      omega
    have inum : word16 (ofList (slice (d.contents ip.toDinode) (DIRENTSIZE * k) DIRENTSIZE)) 0 =
        d.entryInum ip.toDinode k := rfl
    unfold direntScan
    rw [wp_bind]
    apply wp_readi_there [] idle dir.has
    case plain | inode =>
      rw [type]
      decide
    case rest =>
      simp only [count, inum, ne_eq, not_true, if_false]
      rw [wp_ite, wp_pure]
      refine ⟨fun here => rest k true (by omega) (fun m low high => absurd low (by omega)) here,
        fun goes => ih (k := k + 1) (fun _ => by rwa [Nat.add_right_comm, Nat.add_assoc]) ?_⟩
      intro j stopped inside before
      rw [show k + 1 + left = k + (left + 1) by omega]
      refine rest j stopped (by omega) fun m low high => ?_
      rcases Nat.eq_or_lt_of_le low with rfl | later
      · exact Bool.not_eq_true _ ▸ goes
      · exact before m later high
    all_goals
      simp only [BSIZE, MAXFILE, NDIRECT, NINDIRECT, DIRENTSIZE] at *
      omega

end Slots

/-! ## Writing one entry -/

/-- The slot that the bytes of an entry make. -/
def slotOf (entry : Bytes.Store) : Option (List UInt8 × Nat) :=
  let inum := word16 entry 0
  if inum ≠ 0 then some (nameKey fun i => entry (2 + i), inum) else none

theorem slotOf_congr {entry entry' : Bytes.Store} (same : ∀ o < DIRENTSIZE, entry' o = entry o) :
    slotOf entry' = slotOf entry := by
  have inum : word16 entry' 0 = word16 entry 0 :=
    word16_congr fun o less => by
      rw [Nat.zero_add]
      exact same o (by simp only [DIRENTSIZE]; omega)
  have key : (nameKey fun i => entry' (2 + i)) = nameKey fun i => entry (2 + i) := by
    refine nameKey_congr fun o less => same (2 + o) ?_
    simp only [DIRENTSIZE, DIRSIZ] at *
    omega
  unfold slotOf
  rw [inum, key]

theorem Disk.slots_eq {k : Nat} (small : k < DPB * MAXFILE) (d : Disk)
    (dn : Dinode) : d.slots dn k = slotOf fun o => d.contents dn (DIRENTSIZE * k + o) := by
  unfold slots slotOf entryInum entryKey word16
  simp only [small, true_and, Nat.add_assoc, Nat.add_zero, Nat.zero_add]

theorem word16_dirent (inum : Nat) (name : List UInt8) :
    word16 (ofList (dirent inum name)) 0 = inum % 65536 := by
  have bytes : word16 (ofList (dirent inum name)) 0 = inum % 256 + 256 * (inum / 256 % 256) := by
    simp [word16, ofList, dirent, le16]
  omega

theorem slotOf_dirent (inum : Nat) (name : List UInt8) : slotOf (ofList (dirent inum name)) =
    if inum % 65536 ≠ 0 then some (nameKey (nameBytes name), inum % 65536) else none := by
  have key : (nameKey fun i => ofList (dirent inum name) (2 + i)) = nameKey (nameBytes name) := by
    refine nameKey_congr fun i less => ?_
    simp [ofList, dirent, le16, strncpy, nameBytes, less, Nat.add_comm 2]
  unfold slotOf
  simp only [word16_dirent, key]

theorem dirent_ok {n inum off : Nat} (name : List UInt8) (small : inum < n)
    (aligned : off % DIRENTSIZE = 0) : EntriesOk n off (dirent inum name) := by
  have length : (dirent inum name).length = DIRENTSIZE := length_dirent inum name
  constructor
  case off => exact aligned
  case length => rw [length, Nat.mod_self]
  case inums =>
    intro e inside
    rw [length] at inside
    have first : e = 0 := by
      simp only [DIRENTSIZE] at inside
      omega
    rw [first, Nat.mul_zero, word16_dirent]
    exact (Nat.mod_le ..).trans_lt small

/-- Zeros may be written over an entry. -/
theorem zeros_ok {n off : Nat} (some : 0 < n) (aligned : off % DIRENTSIZE = 0) :
    EntriesOk n off (List.replicate DIRENTSIZE 0) := by
  refine ⟨aligned, by decide, fun e _ => ?_⟩
  rw [word16_zero]
  · exact some
  · intro j _
    simp [ofList]

section Write

variable {limit : Nat} {N : Nat → Dinode} {i : Nat} {d d' : Disk}
  {ip ip' : Inode} {k : Nat} {bytes : List UInt8} {E : FsPanic → Prop}

/-- Entry `k` of inode `i` has been written, and the size follows.  An inode that
was on disk as it was in memory still is. -/
structure Wrote (limit : Nat) (N : Nat → Dinode) (i k : Nat)
    (bytes : List UInt8) (d : Disk) (ip : Inode) (d' : Disk) (ip' : Inode) :
    Prop extends Advanced limit N i d ip d' ip' where
  inFile : k < DPB * MAXFILE
  size : ip'.size = max ip.size (DIRENTSIZE * (k + 1))
  slots : d'.slots ip'.toDinode = update (d.slots ip.toDinode) k (slotOf (ofList bytes))
  there : ∀ bn, bn = k / DPB ∨ d.ptr ip.toDinode (.file bn) ≠ 0 → d'.ptr ip'.toDinode (.file bn) ≠ 0
  stored : d.dinode i = ip.toDinode → d'.dinode i = ip'.toDinode

theorem Placed.slots (placed : Placed (DIRENTSIZE * k) bytes d ip d' ip')
    (length : bytes.length = DIRENTSIZE) :
    d'.slots ip'.toDinode = update (d.slots ip.toDinode) k (slotOf (ofList bytes)) := by
  have inFile := placed.inFile
  have whole := placed.contents (by
    rw [length]
    simp only [BSIZE, DIRENTSIZE]
    omega)
  have inside : k < DPB * MAXFILE := by
    simp only [DPB, BSIZE, DIRENTSIZE] at *
    omega
  funext j
  by_cases small : j < DPB * MAXFILE
  · have within : ∀ o < DIRENTSIZE, DIRENTSIZE * j + o < BSIZE * MAXFILE := by
      intro o less
      simp only [DPB, BSIZE, MAXFILE, NDIRECT, NINDIRECT, DIRENTSIZE] at *
      omega
    rw [Disk.slots_eq small]
    by_cases here : j = k
    · subst here
      rw [update_self]
      refine slotOf_congr fun o less => ?_
      rw [whole _ (within o less), put_inside (by rwa [length])]
      rfl
    · rw [update_of_ne here, Disk.slots_eq small]
      refine slotOf_congr fun o less => ?_
      rw [whole _ (within o less), put_outside]
      simp only [DIRENTSIZE] at *
      omega
  · have other : j ≠ k := by
      rintro rfl
      exact small inside
    rw [update_of_ne other]
    unfold Disk.slots
    rw [if_neg (fun both => small both.1), if_neg (fun both => small both.1)]

/-- Blocks that are there need not be allocated. -/
theorem Disk.Has.lacks {n bn : Nat} (has : d.Has ip.toDinode n)
    (below : bn < n) : d.lacks ip bn = 0 := by
  obtain ⟨inFile, some⟩ := has bn below
  unfold Disk.lacks
  rw [if_neg some, Nat.add_zero]
  by_cases indirect : NDIRECT ≤ bn
  · have inRange : bn - NDIRECT < NINDIRECT := by
      simp only [MAXFILE] at inFile
      omega
    rw [PtrSlot.file_entry (Nat.not_lt_of_le indirect) inRange] at some
    rw [if_pos indirect]
    exact if_neg fun none => some (Disk.ptr_entry_none none _)
  · exact if_neg indirect

theorem wp_writei_entry {Q : Int × Inode → Disk → Prop}
    (ready : Ready limit N i d ip) (dir : Directory d ip.toDinode) (type : ip.type = T_DIR)
    (length : bytes.length = DIRENTSIZE)
    (entries : EntriesOk d.superblock.ninodes (DIRENTSIZE * k) bytes)
    (start : DIRENTSIZE * k ≤ ip.size) (inFile : k < DPB * MAXFILE)
    (supply : Supply E limit (d.lacks ip (k / DPB)) d)
    (rest : ∀ d' ip', Wrote limit N i k bytes d ip d' ip' → Q (DIRENTSIZE, ip') d') :
    wp (writei ip bytes (DIRENTSIZE * k)) Q E d := by
  have block : DIRENTSIZE * k / BSIZE = k / DPB := by
    simp only [DIRENTSIZE, BSIZE, DPB]
    omega
  have high : DIRENTSIZE * k + DIRENTSIZE ≤ MAXFILE * BSIZE := by
    simp only [DIRENTSIZE, BSIZE, DPB, MAXFILE, NDIRECT, NINDIRECT] at *
    omega
  have total : u32 (DIRENTSIZE * k + DIRENTSIZE) = DIRENTSIZE * k + DIRENTSIZE :=
    Nat.mod_eq_of_lt (high.trans_lt (by decide))
  have one : min DIRENTSIZE (BSIZE - DIRENTSIZE * k % BSIZE) =
      DIRENTSIZE := by
    simp only [DIRENTSIZE, BSIZE]
    omega
  have loop : wp (writeiLoop DIRENTSIZE ip bytes (DIRENTSIZE * k) DIRENTSIZE)
      (fun ip' d' => Advanced limit N i d ip d' ip' ∧
        Placed (DIRENTSIZE * k) bytes d ip d' ip') E d := by
    unfold writeiLoop
    rw [if_neg (by decide), wp_bind, one, List.take_of_length_le (Nat.le_of_eq length)]
    refine wp_imp (wp_writeiBlock_ready ready bytes (fun _ => entries) (by rwa [block]) ?_) ?_
    · intro past
      rw [block] at past
      simp only [DPB] at *
      omega
    · intro ip' d' both
      rw [Nat.sub_self]
      exact both
  unfold writei
  rw [if_neg (by rw [type]; decide), length, total, if_neg (by omega),
    wp_bind, if_neg (Nat.not_lt_of_le high)]
  refine wp_imp loop ?_
  rintro ip' d' ⟨advanced, placed⟩
  have size := placed.size
  have slots := placed.slots length
  have there := placed.there
  rw [block] at there
  have ready' := ready.advance advanced
  rw [wp_ite]
  constructor
  · rintro ⟨-, grows⟩
    have sized := advanced.trans (ready'.resize (DIRENTSIZE * k + DIRENTSIZE))
    have ready'' := ready.advance sized
    have shows := ready''.shows
    rw [wp_bind]
    apply wp_iupdate_loaded ready''.toLoaded
    refine rest _ _ ⟨sized.trans ready''.writeBack, inFile, ?_, ?_, ?_, fun _ => ?_⟩
    · rw [size] at grows
      rw [Nat.mul_succ]
      exact (Nat.max_eq_right grows.le).symm
    · rw [Disk.slots_congr shows.2]
      exact slots
    · intro bn either
      rw [shows.1]
      exact there bn either
    · exact Disk.dinode_setDinode _ _ (high.trans_lt (by decide)) ready''.addrs_lt
  · intro stays
    have covered : DIRENTSIZE * k + DIRENTSIZE ≤ ip'.size :=
      Nat.le_of_not_lt fun grows => stays ⟨by decide, grows⟩
    rw [size] at covered
    refine rest _ _ ⟨advanced, inFile, ?_, slots, there, fun same => ?_⟩
    · rw [size]
      exact (Nat.max_eq_left covered).symm
    · have mapped := (dir.has (k / DPB) (by
        simp only [DIRENTSIZE, BSIZE, DPB] at *
        omega)).2
      rw [← block] at mapped
      obtain ⟨rfl, inodes⟩ := placed.inodes mapped
      rw [inodes i ready.small, same]

theorem Wrote.directory (wrote : Wrote limit N i k bytes d ip d' ip')
    (dir : Directory d ip.toDinode) (start : DIRENTSIZE * k ≤ ip.size)
    (distinct : (d'.slots ip'.toDinode).Distinct) : Directory d' ip'.toDinode := by
  have inFile := wrote.inFile
  have size := wrote.size
  have whole := dir.whole
  have bound := dir.bound
  constructor
  case whole =>
    rw [size]
    simp only [DIRENTSIZE] at *
    omega
  case bound =>
    rw [size]
    simp only [DIRENTSIZE, BSIZE, DPB] at *
    omega
  case has =>
    intro bn below
    rw [size] at below
    by_cases old : bn < (ip.size + (BSIZE - 1)) / BSIZE
    · obtain ⟨less, some⟩ := dir.has bn old
      exact ⟨less, wrote.there bn (.inr some)⟩
    · have here : bn = k / DPB := by
        simp only [DIRENTSIZE, BSIZE, DPB] at *
        omega
      refine ⟨?_, wrote.there bn (.inl here)⟩
      simp only [DPB] at *
      omega
  case past =>
    intro j beyond
    rw [size] at beyond
    have other : j ≠ k := by
      rintro rfl
      simp only [DIRENTSIZE] at *
      omega
    rw [wrote.slots, update_of_ne other]
    exact dir.past j ((Nat.le_max_left ..).trans beyond)
  case distinct => exact distinct

theorem Wrote.linked {inum : Nat} {name : List UInt8}
    (wrote : Wrote limit N i k (dirent inum name) d ip d' ip') (dir : Directory d ip.toDinode)
    (free : d.FirstFree ip.toDinode k)
    (unbound : ¬ (d.slots ip.toDinode).Bound (nameKey (nameBytes name))) :
    Directory d' ip'.toDinode := by
  refine wrote.directory dir free.inside ?_
  rw [wrote.slots, slotOf_dirent]
  split
  · exact dir.distinct.insert free.free unbound
  · exact dir.distinct.erase

theorem Wrote.cleared (wrote : Wrote limit N i k (List.replicate DIRENTSIZE 0) d ip d' ip')
    (dir : Directory d ip.toDinode) (inside : DIRENTSIZE * k < ip.size) :
    Directory d' ip'.toDinode := by
  refine wrote.directory dir inside.le ?_
  rw [wrote.slots]
  exact dir.distinct.erase

end Write

/-! ## Code that changes entries -/

/-- The part of `dirlink` for a name that is not bound. -/
def bindEntry (name : List UInt8) (inum : Nat) (dp : Inode) : FsM (Int × Inode) := do
  let ((off, _), dp) ← direntScan .dirlinkRead (· == 0) (dp.entries 0) 0 dp
  let (written, dp) ← writei dp (dirent inum name) off
  if written ≠ DIRENTSIZE then throw .dirlink else pure (0, dp)

/-- The part of `sys_unlink` that clears the entry at `off`. -/
def clearEntry (off : Nat) (dp : Inode) : FsM (Int × Inode) := do
  let (written, dp) ← writei dp (List.replicate DIRENTSIZE 0) off
  if written ≠ DIRENTSIZE then throw .unlinkWritei else pure (0, dp)

section Code

variable {limit : Nat} {N : Nat → Dinode} {i inum : Nat} {d : Disk} {ip : Inode}
  {name : List UInt8} {E : FsPanic → Prop} {Q : Int × Inode → Disk → Prop}
  (ready : Ready limit N i d ip)
include ready

theorem wp_bindEntry_ready (known : inum < d.superblock.ninodes) :
    wp (bindEntry name inum ip) (fun r d' => Advanced limit N i d ip d' r.2) Tolerated d := by
  unfold bindEntry
  refine wp_seq (wp_direntScan_ready .dirlinkRead nofun _ _ ready (Nat.zero_mod _)) ?_
  rintro ⟨⟨off, stopped⟩, ip'⟩ d' ⟨scanned, aligned⟩
  rw [← scanned.superblock] at known
  refine wp_seq (wp_writei_ready (ready.advance scanned) _ off
    fun _ => dirent_ok name known aligned) ?_
  intro r d'' written
  rw [wp_ite]
  exact ⟨fun _ => nofun, fun _ => scanned.trans written⟩

theorem wp_clearEntry_ready {off : Nat} (aligned : off % DIRENTSIZE = 0) :
    wp (clearEntry off ip) (fun r d' => Advanced limit N i d ip d' r.2) Tolerated d := by
  unfold clearEntry
  refine wp_seq (wp_writei_ready ready _ off
    fun _ => zeros_ok (Nat.zero_lt_of_lt ready.small) aligned) ?_
  intro r d' written
  rw [wp_ite]
  exact ⟨fun _ => nofun, fun _ => written⟩

variable (dir : Directory d ip.toDinode) (type : ip.type = T_DIR)
include dir type

theorem wp_bindEntry (known : inum < d.superblock.ninodes)
    (supply : Supply E limit (d.lacks ip (ip.size / BSIZE)) d)
    (full : ip.size = BSIZE * MAXFILE → E .dirlink) (rest : ∀ k d' ip', d.FirstFree ip.toDinode k →
      Wrote limit N i k (dirent inum name) d ip d' ip' → Q (0, ip') d') :
    wp (bindEntry name inum ip) Q E d := by
  have whole := dir.whole
  have bound := dir.bound
  have entries : DIRENTSIZE * (0 + ip.entries 0) = ip.size := by
    simp only [Inode.entries, DIRENTSIZE] at *
    omega
  unfold bindEntry
  rw [wp_bind]
  refine wp_direntScan_there (k := 0) .dirlinkRead (· == 0) dir ready.idle type _
    (fun _ => entries.le) ?_
  intro k stopped below before ends
  have inside : DIRENTSIZE * k ≤ ip.size := entries ▸ Nat.mul_le_mul_left _ below
  have free : d.FirstFree ip.toDinode k := by
    refine ⟨inside, ?_, fun m less => ?_⟩
    · cases stopped with
      | true => exact if_neg fun used => used.2 (beq_iff_eq.mp ends)
      | false => exact dir.past k (by rw [show k = _ from ends, entries])
    · rw [ne_eq, Disk.slots_none (by
        simp only [DIRENTSIZE, BSIZE, DPB] at *
        omega)]
      exact beq_eq_false_iff_ne.mp (before m (Nat.zero_le m) less)
  dsimp only
  rw [wp_bind]
  by_cases inFile : k < DPB * MAXFILE
  · refine wp_writei_entry ready dir type (length_dirent ..)
      (dirent_ok name known (Nat.mul_mod_right ..)) inside inFile ?_ ?_
    · by_cases last : DIRENTSIZE * k = ip.size
      · have block : ip.size / BSIZE = k / DPB := by
          simp only [DIRENTSIZE, BSIZE, DPB] at *
          omega
        rwa [← block]
      · rw [dir.has.lacks (by
          simp only [DIRENTSIZE, BSIZE, DPB] at *
          omega)]
        exact .inr (Nat.zero_le _)
    · intro d' ip' wrote
      exact rest k d' ip' free wrote
  · have last : ip.size = BSIZE * MAXFILE ∧ DIRENTSIZE * k = MAXFILE * BSIZE := by
      simp only [DIRENTSIZE, BSIZE, DPB, MAXFILE, NDIRECT, NINDIRECT] at *
      omega
    unfold writei
    rw [if_neg (by rw [type]; decide), length_dirent, last.2, last.1, if_neg (by decide), wp_bind]
    exact full last.1

theorem wp_clearEntry {k : Nat} (inside : DIRENTSIZE * k < ip.size)
    (rest : ∀ d' ip', Wrote limit N i k (List.replicate DIRENTSIZE 0) d ip d' ip' → Q (0, ip') d') :
    wp (clearEntry (DIRENTSIZE * k) ip) Q E d := by
  have bound := dir.bound
  unfold clearEntry
  rw [wp_bind]
  refine wp_writei_entry ready dir type (List.length_replicate ..)
    (zeros_ok (Nat.zero_lt_of_lt ready.small) (Nat.mul_mod_right ..)) inside.le ?_ ?_ rest
  · simp only [DIRENTSIZE, BSIZE, DPB] at *
    omega
  · rw [dir.has.lacks (by
      simp only [DIRENTSIZE, BSIZE, DPB] at *
      omega)]
    exact .inr (Nat.zero_le _)

end Code

/-! ## Directories that stay or are new -/

section Kept

variable {d d' : Disk} {dn dn' : Dinode}

theorem Directory.congr (dir : Directory d dn) (size : dn'.size = dn.size)
    (ptr : ∀ s, d'.ptr dn' s = d.ptr dn s)
    (view : ∀ s, d'.view dn' s = d.view dn s) : Directory d' dn' := by
  have slots := Disk.slots_congr view
  constructor
  case whole => exact size ▸ dir.whole
  case bound => exact size ▸ dir.bound
  case has =>
    intro bn below
    rw [ptr]
    exact dir.has bn (size ▸ below)
  case past => exact slots ▸ size ▸ dir.past
  case distinct => exact slots ▸ dir.distinct

theorem Directory.fresh (size : dn.size = 0) (null : ∀ a, dn.addrs a = 0) : Directory d dn := by
  have empty : ∀ k, d.slots dn k = none := by
    intro k
    have zero : d.entryInum dn k = 0 := by
      refine word16_zero fun j _ => ?_
      unfold Disk.contents Disk.view
      rw [Disk.ptr_null null, if_pos rfl]
    unfold Disk.slots
    rw [if_neg (fun both => both.2 zero)]
  have free : ∀ key inum k, ¬ (d.slots dn).Binds key inum k := by
    intro key inum k binds
    rw [SlotMap.Binds, empty] at binds
    cases binds
  constructor
  case whole | bound => simp [size]
  case has =>
    rw [size]
    exact fun bn below => absurd below (Nat.not_lt_zero bn)
  case past => exact fun k _ => empty k
  case distinct => exact fun key _ _ k _ binds => absurd binds (free key _ k)

end Kept

end Xv6.Fs
