/-
Purpose: Directories are finite maps in every state that processes reach while
  they make and remove names.
-/
import Xv6.Proofs.FsOwnership

namespace Xv6.Fs

open Bytes PanicM
open Function (update)
open FileSys (leave_self leave_leave leave_disk)

variable {s t : FileSys} {hold : InodePtr → Nat} {c dp : InodePtr}
  {name : List UInt8} {E : FsPanic → Prop}

/-! ## Steps -/

/-- The state after boot, with directories that are finite maps. -/
structure FileSys.Mounted (s : FileSys) : Prop extends s.Boot where
  maps : ∀ i, (s.node i).type = T_DIR → Directory s.disk (s.node i)

/-- The invariant holds after a step, and the references there were are kept but for
one that `iput` gives up. -/
def Section.Keeps (part : Section) (hold : InodePtr → Nat) (s t : FileSys) : Prop :=
  ∃ kept hold', Consistent True t hold' ∧ Stable True kept s t ∧ kept ≤ hold' ∧
    ∀ c, 0 < hold c → (part = .iput c → 1 < hold c) → 0 < kept c

theorem Section.keeps {part : Section} (inv : Consistent True s hold)
    (allowed : part.Allowed s) (step : s.Step part t) : part.Keeps hold s t := by
  have held : ∀ {c}, 0 < (s.icache c).ref → 0 < hold c := by
    intro c
    rw [inv.refs]
    omega
  have same : ∀ hold', Consistent True t hold' → Stable True hold s t → hold ≤ hold' →
      part.Keeps hold s t := fun hold' after stable le =>
    ⟨hold, hold', after, stable, le, fun _ held _ => held⟩
  cases part
  all_goals obtain ⟨value, ran⟩ := step
  case iget inum =>
    obtain ⟨after, stable, _⟩ := wp_ok (wp_iget inv allowed) ran
    exact same _ after stable le_addRef
  case idup c =>
    obtain ⟨after, stable, _⟩ := wp_ok (wp_idup (E := Tolerated) inv (held allowed)) ran
    exact same _ after stable le_addRef
  case ilock c =>
    obtain ⟨after, stable, _⟩ := wp_ok (wp_ilock inv (held allowed)) ran
    exact same _ after stable le_rfl
  case iunlock c =>
    obtain ⟨after, stable⟩ := wp_ok (wp_iunlock inv (held allowed)) ran
    exact same _ after stable le_rfl
  case iput c =>
    -- the only step that takes a reference away: the others are `hold - Pi.single c 1`
    have one : Pi.single c 1 ≤ hold := by
      intro c'
      by_cases here : c' = c
      · rw [here, Pi.single_eq_same]
        exact held allowed
      · rw [Pi.single_eq_of_ne here]
        exact Nat.zero_le _
    have split : addRef (hold - Pi.single c 1) c = hold :=
      funext fun c' => Nat.sub_add_cancel (one c')
    obtain ⟨after, stable⟩ := wp_ok (wp_iput (split.symm ▸ inv)) ran
    refine ⟨_, _, after, stable, le_rfl, fun c' held more => ?_⟩
    by_cases here : c' = c
    · subst here
      have two := more rfl
      rw [← split, addRef_self] at two
      omega
    · rwa [← split, addRef_of_ne here] at held
  case ialloc type =>
    obtain ⟨after, stable, _⟩ := wp_ok (wp_ialloc inv allowed fun _ => trivial) ran
    exact same _ after stable le_addRef
  case addLink c delta =>
    obtain ⟨after, stable⟩ := wp_ok (wp_addLink delta inv (held allowed.1) allowed.2) ran
    exact same _ after stable le_rfl
  case init c major minor =>
    obtain ⟨after, stable⟩ := wp_ok (wp_init major minor inv (held allowed.1) allowed.2) ran
    exact same _ after stable le_rfl
  case dirlink c name inum =>
    obtain ⟨⟨ref, valid⟩, small⟩ := allowed
    obtain ⟨after, stable⟩ := wp_ok (wp_dirlink name inv (held ref) valid small) ran
    exact same _ after stable le_rfl
  case clear c off =>
    obtain ⟨⟨ref, valid⟩, type, aligned, inside⟩ := allowed
    obtain ⟨after, stable⟩ := wp_ok (wp_clear inv (held ref) valid type aligned
      fun _ => inside) ran
    exact same _ after stable le_rfl

theorem Consistent.named (reached : Named FileSys.Mounted s) : ∃ hold, Consistent True s hold := by
  apply reached.invariant
  · exact fun s mounted => ⟨0, mounted.consistent fun _ => mounted.maps⟩
  · rintro s part t ⟨hold, inv⟩ allowed step
    obtain ⟨_, hold', after, _⟩ := part.keeps inv allowed step
    exact ⟨hold', after⟩

/-! ## What the functions do to the map -/

/-- The entries of inode `i`. -/
def FileSys.slots (s : FileSys) (i : Nat) : SlotMap (List UInt8) Nat :=
  s.disk.slots (s.node i)

/-- The inode number can stand in an entry. -/
structure Disk.Names (d : Disk) (inum : Nat) : Prop where
  some : inum ≠ 0
  short : inum < 65536
  known : inum < d.superblock.ninodes

namespace FileSys

/-- What `dirlookup` should do in directory `i`. -/
structure Found (s : FileSys) (i : Nat) (name : List UInt8) (r : Option (InodePtr × Nat))
    (t : FileSys) : Prop where
  disk : t.disk = s.disk
  node : t.node = s.node
  missing : r = none ↔ ¬ (s.slots i).Bound (nameKey (nameBytes name))
  place : ∀ ip off, r = some (ip, off) → ∃ k, off = DIRENTSIZE * k ∧
    (s.slots i).Binds (nameKey (nameBytes name)) (t.icache ip).inum k

/-- What `dirlink` should do to directory `i`. -/
def Linked (s : FileSys) (i : Nat) (name : List UInt8) (inum : Nat) (r : Int)
    (t : FileSys) : Prop :=
  let key := nameKey (nameBytes name)
  ((s.slots i).Bound key → r = -1 ∧ t.disk = s.disk ∧ t.node = s.node) ∧
    (¬ (s.slots i).Bound key → r = 0 ∧ ∃ k, s.disk.FirstFree (s.node i) k ∧
      (t.node i).size = max (s.node i).size (DIRENTSIZE * (k + 1)) ∧
      (∀ key' inum' k', (t.slots i).Binds key' inum' k' ↔
        (s.slots i).Binds key' inum' k' ∨ key' = key ∧ inum' = inum ∧ k' = k) ∧
      ∀ j ≠ i, t.slots j = s.slots j)

/-- What clearing the entry of a name should do to directory `i`. -/
def Cleared (s : FileSys) (i : Nat) (key : List UInt8) (t : FileSys) : Prop :=
  (t.node i).size = (s.node i).size ∧
    (∀ key' inum' k', (t.slots i).Binds key' inum' k' ↔
      (s.slots i).Binds key' inum' k' ∧ key' ≠ key) ∧
    ∀ j ≠ i, t.slots j = s.slots j

/-- The directory that is locked is a finite map: no two entries have the same
name, and lookups, links and the clearing of an entry do what they do in the map.
Without a free entry in the cache a lookup panics, and a link panics for want of
free blocks. -/
structure IsMap (s : FileSys) (dp : InodePtr) : Prop where
  distinct : (s.slots (s.icache dp).inum).Distinct
  lookup : ∀ name, wp (dirlookup dp name) (s.Found (s.icache dp).inum name) (· = .iget) s
  link : ∀ name inum, s.disk.Names inum → (s.icache dp).size < BSIZE * MAXFILE →
    wp (dirlink dp name inum) (s.Linked (s.icache dp).inum name inum)
      (fun reason => reason = .iget ∨ reason = .balloc ∧ s.disk.freeCount s.disk.bitmapEnd <
        s.disk.lacks (s.icache dp) ((s.icache dp).size / BSIZE)) s
  clear : ∀ key inum k, (s.slots (s.icache dp).inum).Binds key inum k →
    wp (withInode dp (clearEntry (DIRENTSIZE * k)))
      (fun r t => r = 0 ∧ s.Cleared (s.icache dp).inum key t) (fun _ => False) s

theorem node_entry {new : Inode} (copy : new.toDinode = (s.icache c).toDinode)
    (caches : ∀ i, (s.leave s.disk c new).caches i c = s.caches i c) :
    (s.leave s.disk c new).node = s.node := by
  funext i
  refine node_congr rfl (fun c' => ?_) (fun c' _ => ?_) fun _ => rfl
  · by_cases here : c' = c
    · rw [here, caches]
    · unfold FileSys.caches
      rw [leave_of_ne here]
  · by_cases here : c' = c
    · rw [here, leave_self, copy]
    · rw [leave_of_ne here]

end FileSys

theorem wp_iget_iput {inum : Nat} (full : E .iget) : wp (iget inum) (fun ip =>
      wp (iput ip) (fun _ t => t.disk = s.disk ∧ t.node = s.node) E) E s := by
  refine wp_iget_entry (fun _ => full) (fun c pos _ => ?_) fun c zero _ => ?_
  · refine wp_iput_stays (fun last => ?_) ⟨rfl, ?_⟩
    · rw [leave_self] at last
      have one : (s.icache c).ref + 1 = 1 := last.1
      omega
    · rw [leave_self, leave_leave, leave_disk]
      refine FileSys.node_entry rfl fun i => ?_
      simp [FileSys.caches]
  · refine wp_iput_stays (fun last => ?_) ⟨rfl, ?_⟩
    · rw [leave_self] at last
      exact absurd last.2.1 Bool.false_ne_true
    · rw [leave_self, leave_leave, leave_disk]
      refine FileSys.node_entry rfl fun i => ?_
      simp [FileSys.caches, zero]

section Locked

variable (inv : Consistent True s hold) (held : 0 < hold dp)
  (valid : (s.icache dp).valid = true)
include inv held valid

theorem Consistent.slots_held : s.slots (s.icache dp).inum = s.disk.slots (s.icache dp).toDinode :=
  congrArg s.disk.slots (inv.node_held held valid)

/-- After a write to a directory, the others show what they showed. -/
theorem Consistent.slots_wrote {k : Nat} {bytes : List UInt8} {d : Disk} {ip : Inode}
    (wrote : Wrote s.disk.bitmapEnd s.node (s.icache dp).inum k bytes s.disk (s.icache dp) d ip) :
    ((s.leave d dp ip).node (s.icache dp).inum).size =
        max (s.node (s.icache dp).inum).size (DIRENTSIZE * (k + 1)) ∧
      (s.leave d dp ip).slots (s.icache dp).inum =
        update (s.slots (s.icache dp).inum) k (slotOf (ofList bytes)) ∧
      ∀ j ≠ (s.icache dp).inum, (s.leave d dp ip).slots j = s.slots j := by
  have inum : ip.inum = (s.icache dp).inum := by rw [wrote.rest]
  have ref : ip.ref = (s.icache dp).ref := by rw [wrote.rest]
  have still : ip.valid = true := by rw [wrote.rest]; exact valid
  have here := inv.node_leave held wrote.superblock inum ref still
  have node := inv.node_held held valid
  unfold FileSys.slots
  refine ⟨?_, ?_, fun j other => ?_⟩
  · rw [here, node]
    exact wrote.size
  · rw [here, node]
    exact wrote.slots
  · rw [Consistent.node_leave_of_ne wrote.toApart rfl inum other]
    exact Disk.slots_congr (wrote.view j other)

variable (type : (s.icache dp).type = T_DIR)
include type

theorem wp_dirlookup_map {Q : Option (InodePtr × Nat) → FileSys → Prop}
    (found : ∀ inum k, (s.slots (s.icache dp).inum).Binds (nameKey (nameBytes name)) inum k →
      wp (iget inum) (fun ip t => Q (some (ip, DIRENTSIZE * k)) t) E s)
    (absent : ¬ (s.slots (s.icache dp).inum).Bound (nameKey (nameBytes name)) → Q none s) :
    wp (dirlookup dp name) Q E s := by
  rw [inv.slots_held held valid] at found absent
  unfold dirlookup
  rw [wp_bind, wp_get, wp_ite]
  refine ⟨fun file => absurd type file, fun _ => ?_⟩
  rw [wp_bind, wp_withInode]
  refine wp_lookupEntry ((inv.listed held valid).2 trivial type) inv.idle type
    (fun inum k binds => ?_) fun unbound => ?_
  · rw [s.leave_same]
    exact (wp_bind ..).mpr (found inum k binds)
  · rw [s.leave_same]
    exact absent unbound

theorem Consistent.isMap : s.IsMap dp := by
  have dir := (inv.listed held valid).2 trivial type
  have ready := inv.ready held valid (by rw [type]; decide)
  have slots := inv.slots_held held valid
  have node := inv.node_held held valid
  constructor
  case distinct => exact slots ▸ dir.distinct
  case lookup =>
    intro name
    refine wp_dirlookup_map inv held valid type (fun inum k binds => ?_) fun unbound =>
      ⟨rfl, rfl, ⟨fun _ => unbound, fun _ => rfl⟩, nofun⟩
    have there : ∀ c t, (t.icache c).inum = inum → t.disk = s.disk → t.node = s.node →
        s.Found (s.icache dp).inum name (some (c, DIRENTSIZE * k)) t := by
      intro c t same disk node
      refine ⟨disk, node, ⟨nofun, fun unbound => absurd ⟨inum, k, binds⟩ unbound⟩, ?_⟩
      rintro _ _ ⟨⟩
      exact ⟨k, rfl, same.symm ▸ binds⟩
    refine wp_iget_entry (fun _ => rfl) (fun c pos same => there c _ ?_ rfl ?_) fun c zero _ =>
      there c _ ?_ rfl ?_
    · rw [leave_self]
      exact same
    · refine FileSys.node_entry rfl fun i => ?_
      simp [FileSys.caches, pos, show 0 < (s.icache c).ref + 1 by omega]
    · rw [leave_self]
    · refine FileSys.node_entry rfl fun i => ?_
      simp [FileSys.caches, zero]
  case link =>
    intro name inum names room
    rw [dirlink_eq, wp_bind]
    refine wp_dirlookup_map inv held valid type (fun inum' k binds => ?_) fun unbound => ?_
    · -- `dirlookup` takes a reference to the inode that the name has, and `dirlink` drops it
      refine wp_imp (wp_iget_iput (Or.inl rfl)) fun ip t put => wp_seq put ?_
      rintro _ t' ⟨disk, node⟩
      exact ⟨fun _ => ⟨rfl, disk, node⟩, fun unbound => absurd ⟨inum', k, binds⟩ unbound⟩
    · rw [wp_withInode]
      refine wp_bindEntry ready dir type names.known ?_ (fun full => absurd full room.ne)
        fun k d ip free wrote => ⟨fun bound => absurd bound unbound, fun _ => ?_⟩
      · -- a full disk matters only for the block behind the last one
        by_cases few : s.disk.freeCount s.disk.bitmapEnd <
          s.disk.lacks (s.icache dp) ((s.icache dp).size / BSIZE)
        · exact .inl ⟨rfl, .inr ⟨rfl, few⟩⟩
        · exact .inr (Nat.le_of_not_lt few)
      · obtain ⟨size, written, others⟩ := inv.slots_wrote held valid wrote
        refine ⟨rfl, k, node ▸ free, size, fun key' inum' k' => ?_, others⟩
        rw [written, slotOf_dirent, Nat.mod_eq_of_lt names.short, if_pos names.some]
        exact SlotMap.binds_insert (slots ▸ free.free)
  case clear =>
    intro key inum k binds
    have inside := dir.slot_lt (slots ▸ binds)
    rw [wp_withInode]
    refine wp_clearEntry ready dir type inside fun d ip wrote => ⟨rfl, ?_⟩
    obtain ⟨size, written, others⟩ := inv.slots_wrote held valid wrote
    refine ⟨?_, fun key' inum' k' => ?_, others⟩
    · rw [size, node]
      have whole := dir.whole
      simp only [DIRENTSIZE] at *
      omega
    · rw [written]
      exact (slots ▸ dir.distinct).binds_erase binds

end Locked

/-- In every state that steps of any processes reach, no two entries of a directory
have the same name, and a directory that is locked is a finite map.  What a process
holds stays whatever steps others take, and `create`, `sys_link` and `sys_unlink`
are made of such steps. -/
theorem directories_are_maps (reached : Named FileSys.Mounted s) :
    (∀ i, (s.node i).type = T_DIR → (s.slots i).Distinct) ∧
    (∀ dp, s.Holds dp → (s.icache dp).type = T_DIR → s.IsMap dp) ∧
    (∀ part t c, part.Allowed s → s.Step part t → s.Holds c →
      (part = .iput c → 1 < (s.icache c).ref) → t.Holds c ∧
        (t.icache c).inum = (s.icache c).inum ∧ (t.icache c).type = (s.icache c).type) ∧
    ∀ c path, 0 < (s.icache c).ref →
      (∀ type major minor, type ≠ 0 → wp (create c path type major minor)
        (fun _ t => Named FileSys.Mounted t) Tolerated s) ∧
      (∀ new, wp (sysLink c path new) (fun _ t => Named FileSys.Mounted t) Tolerated s) ∧
      wp (sysUnlink c path) (fun _ t => Named FileSys.Mounted t) Tolerated s := by
  obtain ⟨hold, inv⟩ := Consistent.named reached
  have pos : ∀ {c}, 0 < (s.icache c).ref → 0 < hold c := by
    intro c
    rw [inv.refs]
    omega
  have onwards : ∀ {t}, Stable True hold s t → Named FileSys.Mounted t :=
    fun stable => stable.run trivial _ reached
  refine ⟨fun i type => ((inv.dirs i).2 trivial type).distinct, fun dp holds type =>
    inv.isMap (pos holds.1) holds.2 type, ?_, fun c path held => ⟨?_, ?_, ?_⟩⟩
  · intro part t c allowed step holds more
    rw [inv.refs] at more
    obtain ⟨kept, hold', after, stable, le, stays⟩ := part.keeps inv allowed step
    have held := stays c (pos holds.1) fun put => by
      have := more put
      omega
    obtain ⟨valid, type⟩ := stable.valid c held holds.2
    exact ⟨⟨after.positive (held.trans_le (le c)), valid⟩, stable.inum c held, type⟩
  · exact fun type major minor typed => wp_imp (wp_create path major minor inv
      (pos held) typed fun _ => trivial) fun _ _ after => onwards after.2.1
  · exact fun new => wp_imp (wp_sysLink path new inv (pos held)) fun _ _ after =>
      onwards after.2
  · exact wp_imp (wp_sysUnlink path inv (pos held)) fun _ _ after => onwards after.2

/-! ## A run -/

theorem sampleBoot_slots (k : Nat) : sampleBoot.slots 1 k =
    if k = 0 then some ([46], 1) else if k = 1 then some ([46, 46], 1) else none := by
  by_cases low : k < DPB
  · have all : ∀ k : Fin DPB, sampleBoot.slots 1 k =
        if k.val = 0 then some ([46], 1) else if k.val = 1 then some ([46, 46], 1) else none := by
      decide +kernel
    exact all ⟨k, low⟩
  · have zero : sampleBoot.disk.entryInum (sampleBoot.node 1) k = 0 := by
      refine word16_zero fun o _ => if_pos ?_
      by_contra some
      have first := (sampleBoot_pointer some).2.1
      rw [show PtrSlot.addr 0 = .file 0 from rfl] at first
      simp only [DPB, DIRENTSIZE, BSIZE] at *
      unfold PtrSlot.file at first
      split at first
      · have := congrArg Fin.val (PtrSlot.addr.inj first)
        simp only [direct] at this
        omega
      · cases first
    have few : 1 < k := by
      simp only [DPB] at low
      omega
    rw [if_neg (by omega), if_neg (by omega)]
    exact if_neg fun used => used.2 zero

theorem sampleBoot_mounted : sampleBoot.Mounted := by
  refine ⟨sampleBoot_boot, fun i type => ?_⟩
  have root : i = 1 := by
    rw [sampleBoot_node] at type
    by_cases small : i < 8
    · rw [if_pos small] at type
      have all : ∀ i : Fin 8, (sampleImage.stored i).type = T_DIR → i = 1 := by decide +kernel
      exact congrArg Fin.val (all ⟨i, small⟩ type)
    · rw [if_neg small] at type
      exact absurd type (by decide)
  subst root
  have size : (sampleBoot.node 1).size = 32 := by decide +kernel
  have slots := sampleBoot_slots
  constructor
  case whole | bound =>
    rw [size]
    decide
  case has =>
    rw [size]
    intro bn below
    obtain rfl : bn = 0 := Nat.lt_one_iff.mp below
    decide +kernel
  case past =>
    rw [size]
    intro k high
    refine (slots k).trans ?_
    simp only [DIRENTSIZE] at high
    rw [if_neg (by omega), if_neg (by omega)]
  case distinct =>
    intro key one two k k' first second
    have dots : ∀ {k inum}, (sampleBoot.slots 1).Binds key inum k →
        k = 0 ∧ key = [46] ∨ k = 1 ∧ key = [46, 46] := by
      intro k inum binds
      rw [SlotMap.Binds, slots] at binds
      split at binds
      · cases binds
        exact .inl ⟨‹_›, rfl⟩
      · split at binds
        · cases binds
          exact .inr ⟨‹_›, rfl⟩
        · cases binds
    rcases dots first with ⟨rfl, dot⟩ | ⟨rfl, dot⟩ <;>
      rcases dots second with ⟨rfl, dot'⟩ | ⟨rfl, dot'⟩
    · rfl
    · exact absurd (dot.symm.trans dot') (by decide)
    · exact absurd (dot.symm.trans dot') (by decide)
    · rfl

/-- A checksummed file `/a` is made, linked as `/b`, and `/a` is removed. -/
def sampleNames : FM InodePtr := do
  let root ← iget ROOTINO
  let _ ← makeNode root samplePath T_CHECKED 0 0
  let _ ← sysLink root samplePath [47, 98]
  let _ ← sysUnlink root samplePath
  ilock root
  pure root

theorem sampleNames_named (mounted : s.Mounted) {root : InodePtr}
    (returned : sampleNames s = .ok (root, t)) : Named FileSys.Mounted t ∧ t.Holds root := by
  suffices run : wp sampleNames (fun root t => Named FileSys.Mounted t ∧ t.Holds root) Tolerated s
    from wp_ok run returned
  unfold sampleNames
  refine wp_seq (wp_iget (mounted.consistent (C := True) fun _ => mounted.maps) mounted.root) ?_
  rintro root s₁ ⟨got, stable₁, _⟩
  refine wp_seq (wp_makeNode samplePath 0 0 got addRef_pos (by decide) fun _ => trivial) ?_
  rintro _ s₂ ⟨made, stable₂⟩
  refine wp_seq (wp_sysLink samplePath [47, 98] made addRef_pos) ?_
  rintro _ s₃ ⟨linked, stable₃⟩
  refine wp_seq (wp_sysUnlink samplePath linked addRef_pos) ?_
  rintro _ s₄ ⟨unlinked, stable₄⟩
  refine wp_seq (wp_ilock unlinked addRef_pos) ?_
  rintro _ s₅ ⟨locked, stable₅, valid, _⟩
  have run := stable₂.trans (stable₃.trans (stable₄.trans stable₅))
  exact ⟨run.run trivial _ (stable₁.run trivial _ (.start mounted)),
    locked.positive addRef_pos, valid⟩

theorem sampleNames_is_map : ∃ root t, sampleNames sampleBoot = .ok (root, t) ∧
    t.slots 1 2 = none ∧ t.slots 1 3 = some ([98], 2) ∧ t.IsMap root := by
  have shown : (sampleNames sampleBoot).toOption.map (fun r =>
      (r.2.slots 1 2, r.2.slots 1 3, (r.2.icache r.1).type)) =
      some (none, some ([98], 2), T_DIR) := by
    decide +kernel
  cases run : sampleNames sampleBoot with
  | error reason =>
    rw [run] at shown
    cases shown
  | ok r =>
    obtain ⟨root, t⟩ := r
    rw [run] at shown
    simp only [Except.toOption, Option.map_some, Option.some.injEq, Prod.mk.injEq] at shown
    obtain ⟨removed, linked, type⟩ := shown
    obtain ⟨reached, holds⟩ := sampleNames_named sampleBoot_mounted run
    exact ⟨root, t, rfl, removed, linked, (directories_are_maps reached).2.1 root holds type⟩

end Xv6.Fs
