/-
Purpose: The inodes of a file system, each taken from the cache where it is
  cached; the invariant that ties the disk, the cache and the references to
  it together; and what the operations of the cache do to it.
-/
import Xv6.Fs.Calls
import Xv6.Lib.Run
import Xv6.Proofs.FsDirectories
import Xv6.Proofs.FsTruncate
import Mathlib.Algebra.Group.Pi.Basic

namespace Xv6.Fs

open Dinode FsPanic PanicM
open Function (update_self update_of_ne update_eq_self)

/-! ## The inodes of a file system -/

/-- Inode `i` as the disk has it. -/
def Disk.stored (d : Disk) (i : Nat) : Dinode :=
  if (d.dinode i).type = 0 then blank else d.dinode i

namespace FileSys

variable {s s' : FileSys} {i : Nat} {c : InodePtr}

/-- Entry `c` of the cache is in use and holds inode `i`. -/
def caches (s : FileSys) (i : Nat) (c : InodePtr) : Bool :=
  0 < (s.icache c).ref && (s.icache c).valid && (s.icache c).inum == i

/-- Inode `i`: the copy in memory where one is cached. -/
def node (s : FileSys) (i : Nat) : Dinode :=
  if i < s.disk.superblock.ninodes then
    match (List.finRange NINODE).find? (s.caches i) with
    | some c => (s.icache c).toDinode
    | none => s.disk.stored i
  else
    blank

theorem caches_iff : s.caches i c = true ↔ 0 < (s.icache c).ref ∧ (s.icache c).valid = true ∧
      (s.icache c).inum = i := by
  simp [caches, and_assoc]

theorem node_cached (small : i < s.disk.superblock.ninodes) (cached : s.caches i c = true)
    (unique : ∀ c', s.caches i c' = true → c' = c) : s.node i = (s.icache c).toDinode := by
  unfold node
  rw [if_pos small]
  cases search : (List.finRange NINODE).find? (s.caches i) with
  | some c' => rw [unique c' (List.find?_some search)]
  | none =>
    rw [List.find?_eq_none] at search
    exact absurd cached (search c (List.mem_finRange c))

theorem node_stored (small : i < s.disk.superblock.ninodes)
    (uncached : ∀ c, s.caches i c = false) : s.node i = s.disk.stored i := by
  unfold node
  rw [if_pos small]
  cases search : (List.finRange NINODE).find? (s.caches i) with
  | some c =>
    have cached := List.find?_some search
    rw [uncached c] at cached
    exact Bool.noConfusion cached
  | none => rfl

theorem node_congr (superblock : s'.disk.superblock = s.disk.superblock)
    (caches : ∀ c, s'.caches i c = s.caches i c)
    (copies : ∀ c, s.caches i c = true → (s'.icache c).toDinode = (s.icache c).toDinode)
    (disk : i < s.disk.superblock.ninodes →
      s'.disk.dinode i = s.disk.dinode i) : s'.node i = s.node i := by
  unfold node
  rw [superblock, funext caches]
  refine ite_congr rfl (fun small => ?_) fun _ => rfl
  cases search : (List.finRange NINODE).find? (s.caches i) with
  | some c => exact copies c (List.find?_some search)
  | none =>
    unfold Disk.stored
    rw [disk small]

@[simp] theorem setInode_self (s : FileSys) (c : InodePtr) (node : Inode) :
    (s.setInode c node).icache c = node := update_self ..

theorem setInode_of_ne {c' : InodePtr} (ne : c' ≠ c) (s : FileSys)
    (node : Inode) : (s.setInode c node).icache c' = s.icache c' :=
  update_of_ne ne ..

/-- A new disk and a new entry `c`: what code of the inode layer leaves. -/
def leave (s : FileSys) (d : Disk) (c : InodePtr) (node : Inode) : FileSys :=
  { s with disk := d }.setInode c node

@[simp] theorem leave_disk (s : FileSys) (d : Disk) (c : InodePtr)
    (node : Inode) : (s.leave d c node).disk = d := rfl

@[simp] theorem leave_self (s : FileSys) (d : Disk) (c : InodePtr)
    (node : Inode) : (s.leave d c node).icache c = node := setInode_self ..

theorem leave_same (s : FileSys) (c : InodePtr) : s.leave s.disk c (s.icache c) = s := by
  unfold leave setInode
  rw [update_eq_self]

@[simp] theorem leave_leave (s : FileSys) (d d' : Disk) (c : InodePtr) (node node' : Inode) :
    (s.leave d c node).leave d' c node' = s.leave d' c node' := by
  unfold leave setInode
  simp only [Function.update_idem]

theorem leave_of_ne {c' : InodePtr} (ne : c' ≠ c) (s : FileSys) (d : Disk) (node : Inode) :
    (s.leave d c node).icache c' = s.icache c' := setInode_of_ne ne ..

end FileSys

/-! ## The invariant -/

section Hold

variable {hold : InodePtr → Nat} {c c' : InodePtr}

/-- One reference more to entry `c`. -/
def addRef (hold : InodePtr → Nat) (c : InodePtr) : InodePtr → Nat :=
  hold + Pi.single c 1

@[simp] theorem addRef_self : addRef hold c c = hold c + 1 := by
  simp [addRef]

theorem addRef_of_ne (ne : c' ≠ c) : addRef hold c c' = hold c' := by
  simp [addRef, Pi.single_eq_of_ne ne]

theorem addRef_comm : addRef (addRef hold c) c' = addRef (addRef hold c') c :=
  add_right_comm ..

theorem le_addRef : hold ≤ addRef hold c := by
  intro c'
  simp [addRef]

theorem addRef_pos : 0 < addRef hold c c := by simp

end Hold

/-!
The invariant is used for two kinds of runs.  Where `C` is false, files are read
and written, but none has checksums.  Where `C` is true, names are made and
removed but no file is written: checksummed inodes are empty, every directory is
a finite map, and an inode in memory is as it is on disk.
-/

variable {C : Prop}

/-- The copy of an inode in memory and the inode on disk. -/
structure Copied (C : Prop) (dn core : Dinode) : Prop extends Synced dn core where
  typed : core.type ≠ 0
  whole : C → dn = core

/-- The entries of the cache to which there are references, `hold` of each, agree with the disk. -/
structure Cached (C : Prop) (d : Disk) (icache : InodePtr → Inode) (hold : InodePtr → Nat) :
    Prop where
  refs : ∀ c, (icache c).ref = hold c
  unique : ∀ c c', 0 < hold c → 0 < hold c' → (icache c).inum = (icache c').inum → c = c'
  inums : ∀ c, 0 < hold c → (icache c).inum < d.superblock.ninodes
  synced : ∀ c, 0 < hold c → (icache c).valid = true →
    Copied C (d.dinode (icache c).inum) (icache c).toDinode

/-- What a directory holds. -/
def Disk.Listed (C : Prop) (d : Disk) (dn : Dinode) : Prop :=
  d.DirOk dn ∧ (C → dn.type = T_DIR → Directory d dn)

theorem Disk.Listed.congr {d d' : Disk} {dn dn' : Dinode} (listed : d.Listed C dn)
    (superblock : d'.superblock = d.superblock) (type : dn'.type = dn.type)
    (size : dn'.size = dn.size) (ptr : ∀ s, d'.ptr dn' s = d.ptr dn s)
    (view : ∀ s, d'.view dn' s = d.view dn s) : d'.Listed C dn' :=
  ⟨listed.1.congr superblock type fun s _ k _ => by rw [view],
    fun c dir => (listed.2 c (type.symm.trans dir)).congr size ptr view⟩

theorem Disk.Listed.fresh {d : Disk} {dn : Dinode} (some : 0 < d.superblock.ninodes)
    (size : dn.size = 0) (null : ∀ a, dn.addrs a = 0) : d.Listed C dn := by
  have blank : d.DirOk blank := fun dir => absurd (dir : (0 : UInt16) = T_DIR) (by decide)
  exact ⟨blank.shrink some (fun a => .inl (null a)) (.inr null), fun _ _ => .fresh size null⟩

/-- The pointers of all inodes own their blocks, the cache agrees with the
disk, and `hold` says how many references to each entry there are. -/
structure Consistent (C : Prop) (s : FileSys) (hold : InodePtr → Nat) : Prop extends
    Cached C s.disk s.icache hold where
  owned : s.disk.Owned s.disk.bitmapEnd s.node
  idle : s.disk.held = []
  origin : ∀ i sl, s.disk.block (s.node i) sl ≠ 0 →
    s.disk.block (s.node i) sl < s.disk.superblock.size ∨ s.disk.block (s.node i) sl ∈ s.disk.given
  checked : ∀ i, (s.node i).type = T_CHECKED → C ∧ ∀ a, (s.node i).addrs a = 0
  dirs : ∀ i, s.disk.Listed C (s.node i)
  root : ROOTINO < s.disk.superblock.ninodes

/-- On disk `d`, inode `i` may be `n`. -/
structure Replaces (C : Prop) (s : FileSys) (i : Nat) (d : Disk) (n : Dinode) : Prop where
  owned : d.Owned s.disk.bitmapEnd (Function.update s.node i n)
  origin : ∀ sl, d.block n sl ≠ 0 →
    d.block n sl < s.disk.superblock.size ∨ d.block n sl ∈ d.given
  checked : n.type = T_CHECKED → C ∧ ∀ a, n.addrs a = 0
  dirs : d.Listed C n

theorem Cached.set {d d' : Disk} {icache : InodePtr → Inode} {hold hold' : InodePtr → Nat}
    {c : InodePtr} {new : Inode} (cached : Cached C d icache hold)
    (superblock : d'.superblock = d.superblock) (ref : new.ref = hold' c)
    (others : ∀ c', c' ≠ c → hold' c' = hold c' ∧
      (0 < hold c' → d'.dinode (icache c').inum = d.dinode (icache c').inum))
    (fresh : 0 < hold' c → new.inum < d.superblock.ninodes ∧
      (∀ c', c' ≠ c → 0 < hold c' → (icache c').inum ≠ new.inum) ∧
      (new.valid = true → Copied C (d'.dinode new.inum) new.toDinode)) :
    Cached C d' (Function.update icache c new) hold' where
  refs c' := by
    by_cases here : c' = c
    · rw [here, update_self, ref]
    · rw [update_of_ne here, (others c' here).1, cached.refs]
  unique a b heldA heldB same := by
    by_contra ne
    by_cases first : a = c <;> by_cases second : b = c
    · exact ne (first.trans second.symm)
    · rw [first, update_self, update_of_ne second] at same
      rw [(others b second).1] at heldB
      exact (fresh (first ▸ heldA)).2.1 b second heldB same.symm
    · rw [second, update_self, update_of_ne first] at same
      rw [(others a first).1] at heldA
      exact (fresh (second ▸ heldB)).2.1 a first heldA same
    · rw [update_of_ne first, update_of_ne second] at same
      rw [(others a first).1] at heldA
      rw [(others b second).1] at heldB
      exact ne (cached.unique a b heldA heldB same)
  inums c' held := by
    rw [superblock]
    by_cases here : c' = c
    · rw [here] at held ⊢
      rw [update_self]
      exact (fresh held).1
    · rw [(others c' here).1] at held
      rw [update_of_ne here]
      exact cached.inums c' held
  synced c' held read := by
    by_cases here : c' = c
    · rw [here] at held read ⊢
      rw [update_self] at read ⊢
      exact (fresh held).2.2 read
    · rw [(others c' here).1] at held
      rw [update_of_ne here] at read ⊢
      rw [(others c' here).2 held]
      exact cached.synced c' held read

/-! ## Steps -/

/-- What a process does to inodes while it makes or removes names.  Others may
do something between two of its steps, also while it holds a lock. -/
inductive Section where
  | iget (inum : Nat)
  | idup (c : InodePtr)
  | ilock (c : InodePtr)
  | iunlock (c : InodePtr)
  | iput (c : InodePtr)
  | ialloc (type : UInt16)
  | addLink (c : InodePtr) (delta : UInt16)
  | init (c : InodePtr) (major minor : UInt16)
  | dirlink (c : InodePtr) (name : List UInt8) (inum : Nat)
  | clear (c : InodePtr) (off : Nat)

/-- There is a reference to the entry, and the inode has been read. -/
def FileSys.Holds (s : FileSys) (c : InodePtr) : Prop :=
  0 < (s.icache c).ref ∧ (s.icache c).valid = true

/-- A process calls functions on inodes that it has a reference to, and reads
and writes those that it has locked. -/
def Section.Allowed (s : FileSys) : Section → Prop
  | .iget inum => inum < s.disk.superblock.ninodes
  | .idup c | .ilock c | .iunlock c | .iput c => 0 < (s.icache c).ref
  | .ialloc type => type ≠ 0
  | .addLink c _ | .init c _ _ => s.Holds c
  | .dirlink c _ inum => s.Holds c ∧ inum < s.disk.superblock.ninodes
  | .clear c off => s.Holds c ∧ (s.icache c).type = T_DIR ∧ off % DIRENTSIZE = 0 ∧
      off < (s.icache c).size

def Returns {α : Type} (program : FM α) (s t : FileSys) : Prop :=
  ∃ value, program s = .ok (value, t)

/-- The fields that `create` sets in a new inode. -/
def Inode.init (major minor : UInt16) (node : Inode) : Inode :=
  { node with
    major := major
    minor := minor
    nlink := 1 }

def FileSys.Step (s : FileSys) : Section → FileSys → Prop
  | .iget inum => Returns (iget inum) s
  | .idup c => Returns (idup c) s
  | .ilock c => Returns (ilock c) s
  | .iunlock c => Returns (iunlock c) s
  | .iput c => Returns (iput c) s
  | .ialloc type => Returns (ialloc type) s
  | .addLink c delta => Returns (addLink c delta) s
  | .init c major minor => Returns (do
      updInode c (Inode.init major minor)
      iupdateAt c) s
  | .dirlink c name inum => Returns (dirlink c name inum) s
  | .clear c off => Returns (withInode c (clearEntry off)) s

/-- States that steps of any processes lead to. -/
abbrev Named (init : FileSys → Prop) : FileSys → Prop :=
  Reach init FileSys.Step Section.Allowed

/-- Entries to which there are references keep their inode; files and current
directories are untouched.  Where `C` is true the change is made of steps. -/
structure Stable (C : Prop) (hold : InodePtr → Nat) (s s' : FileSys) : Prop where
  ftable : s'.ftable = s.ftable
  cwd : s'.cwd = s.cwd
  superblock : s'.disk.superblock = s.disk.superblock
  inum : ∀ c, 0 < hold c → (s'.icache c).inum = (s.icache c).inum
  valid : ∀ c, 0 < hold c → (s.icache c).valid = true →
    (s'.icache c).valid = true ∧ (s'.icache c).type = (s.icache c).type
  run : C → ∀ init, Named init s → Named init s'

namespace Stable

variable {hold hold' : InodePtr → Nat} {s s' s'' : FileSys}

theorem refl (hold : InodePtr → Nat) (s : FileSys) : Stable C hold s s where
  ftable := rfl
  cwd := rfl
  superblock := rfl
  inum := fun _ _ => rfl
  valid := fun _ _ valid => ⟨valid, rfl⟩
  run := fun _ _ reached => reached

theorem trans (first : Stable C hold s s') (second : Stable C hold s' s'') :
    Stable C hold s s'' where
  ftable := second.ftable.trans first.ftable
  cwd := second.cwd.trans first.cwd
  superblock := second.superblock.trans first.superblock
  inum := fun c held => (second.inum c held).trans (first.inum c held)
  valid := by
    intro c held valid
    obtain ⟨middle, type⟩ := first.valid c held valid
    obtain ⟨last, type'⟩ := second.valid c held middle
    exact ⟨last, type'.trans type⟩
  run := fun c init reached => second.run c init (first.run c init reached)

theorem mono (stable : Stable C hold s s') (le : hold' ≤ hold) : Stable C hold' s s' :=
  { stable with
    inum := fun c held => stable.inum c (held.trans_le (le c))
    valid := fun c held => stable.valid c (held.trans_le (le c)) }

theorem weaken (stable : Stable C hold s s') : Stable False hold s s' :=
  { stable with run := nofun }

theorem step (C : Prop) (hold : InodePtr → Nat) {α : Type} {program : FM α}
    {Q : α → FileSys → Prop} {E : FsPanic → Prop} (part : Section)
    (code : s.Step part = Returns program s) (allowed : C → part.Allowed s)
    (run : wp program (fun r t => Stable False hold s t ∧ (Stable C hold s t → Q r t)) E s) :
    wp program Q E s := by
  refine wp_imp (wp_run run) ?_
  rintro r t ⟨ran, stable, rest⟩
  exact rest { stable with
    run := fun c _ reached => .next reached (allowed c) (code ▸ ⟨r, ran⟩) }

end Stable

namespace Consistent

variable {s s' : FileSys} {hold hold' : InodePtr → Nat} {c : InodePtr} {new : Inode}

section

variable (inv : Consistent C s hold)
include inv

theorem positive (held : 0 < hold c) : 0 < (s.icache c).ref := by
  rw [inv.refs]
  omega

theorem caches_iff {i : Nat} :
    s.caches i c = true ↔ 0 < hold c ∧ (s.icache c).valid = true ∧ (s.icache c).inum = i := by
  rw [FileSys.caches_iff, inv.refs]
  simp

theorem node_held (held : 0 < hold c) (valid : (s.icache c).valid = true) :
    s.node (s.icache c).inum = (s.icache c).toDinode := by
  apply FileSys.node_cached (inv.inums c held)
  · exact inv.caches_iff.mpr ⟨held, valid, rfl⟩
  · intro c' cached
    obtain ⟨held', _, same⟩ := inv.caches_iff.mp cached
    exact inv.unique c' c held' held same

theorem replaces (i : Nat) : Replaces C s i s.disk (s.node i) where
  owned := (update_eq_self i s.node).symm ▸ inv.owned
  origin := inv.origin i
  checked := inv.checked i
  dirs := inv.dirs i

theorem inum_ne (held : 0 < hold c) (same : new.inum = (s.icache c).inum) (c' : InodePtr)
    (other : c' ≠ c) (held' : 0 < hold c') : (s.icache c').inum ≠ new.inum :=
  fun equal => other (inv.unique c' c held' held (equal.trans same))

theorem loaded (held : 0 < hold c) (valid : (s.icache c).valid = true) :
    Loaded s.disk.bitmapEnd s.node (s.icache c).inum s.disk (s.icache c) where
  owned := inv.owned
  here := inv.node_held held valid
  idle := inv.idle
  atEnd := rfl
  inum := rfl
  small := inv.inums c held
  empty := by
    have checked := inv.checked (s.icache c).inum
    rw [inv.node_held held valid] at checked
    exact fun type => (checked type).2

theorem ready (held : 0 < hold c) (valid : (s.icache c).valid = true)
    (plain : (s.icache c).type ≠ T_CHECKED) :
    Ready s.disk.bitmapEnd s.node (s.icache c).inum s.disk (s.icache c) :=
  ⟨inv.loaded held valid, plain⟩

theorem listed (held : 0 < hold c) (valid : (s.icache c).valid = true) :
    s.disk.Listed C (s.icache c).toDinode :=
  inv.node_held held valid ▸ inv.dirs (s.icache c).inum

/-- The invariant after a change that concerns inode `i`, on disk or in
memory. -/
theorem replace {i : Nat} (apart : Apart s.node i s.disk s'.disk)
    (others : ∀ j ≠ i, s'.node j = s.node j)
    (replaces : Replaces C s i s'.disk (s'.node i)) (cached : Cached C s'.disk s'.icache hold') :
    Consistent C s' hold' := by
  have superblock := apart.superblock
  have node : s'.node = Function.update s.node i (s'.node i) := by
    funext j
    by_cases here : j = i
    · rw [here, update_self]
    · rw [update_of_ne here, others j here]
  constructor
  case toCached => exact cached
  case owned =>
    rw [Disk.bitmapEnd_congr superblock, node]
    exact replaces.owned
  case idle => exact apart.held.trans inv.idle
  case origin =>
    intro j sl some
    rw [superblock]
    by_cases here : j = i
    · rw [here] at some ⊢
      exact replaces.origin sl some
    · rw [others j here, apart.block here] at some ⊢
      exact (inv.origin j sl some).imp_right (apart.given _)
  case checked =>
    intro j
    by_cases here : j = i
    · rw [here]
      exact replaces.checked
    · rw [others j here]
      exact inv.checked j
  case dirs =>
    intro j
    by_cases here : j = i
    · rw [here]
      exact replaces.dirs
    · rw [others j here]
      exact (inv.dirs j).congr superblock rfl rfl (apart.ptr j here) (apart.view j here)
  case root =>
    rw [superblock]
    exact inv.root

/-- The invariant depends on the disk and the inodes; what remains is about
the cache. -/
theorem renode (disk : s'.disk = s.disk) (node : s'.node = s.node)
    (cached : Cached C s'.disk s'.icache hold') : Consistent C s' hold' := by
  refine inv.replace (i := ROOTINO) (disk ▸ Apart.refl) (fun j _ => congrFun node j) ?_
    cached
  rw [disk, node]
  exact inv.replaces ROOTINO

end

section Leave

variable {d : Disk} {i : Nat}

/-- Where entry `c` has the inode it had, the other inodes are as they
were. -/
theorem node_leave_of_ne (apart : Apart s.node i s.disk d)
    (old : (s.icache c).inum = i) (same : new.inum = i) {j : Nat}
    (other : j ≠ i) : (s.leave d c new).node j = s.node j := by
  apply FileSys.node_congr apart.superblock
  · intro c'
    unfold FileSys.caches
    by_cases here : c' = c
    · subst here
      have ne : (i == j) = false := beq_false_of_ne (Ne.symm other)
      rw [FileSys.leave_self, old, same, ne, Bool.and_false, Bool.and_false]
    · rw [FileSys.leave_of_ne here]
  · intro c' cached
    by_cases here : c' = c
    · subst here
      have inum := (FileSys.caches_iff.mp cached).2.2
      exact absurd (inum.symm.trans old) other
    · rw [FileSys.leave_of_ne here]
  · intro small
    exact apart.dinode j small other

section

variable (inv : Consistent C s hold)
include inv

/-- Nobody but entry `c` caches its inode. -/
theorem caches_leave (held : 0 < hold c) (same : new.inum = (s.icache c).inum) {c' : InodePtr}
    (cached : (s.leave d c new).caches new.inum c' = true) : c' = c := by
  by_contra here
  obtain ⟨positive, _, inum⟩ := FileSys.caches_iff.mp cached
  rw [FileSys.leave_of_ne here] at positive inum
  rw [inv.refs] at positive
  exact here (inv.unique c' c (by omega) held (inum.trans same))

theorem node_leave (held : 0 < hold c) (superblock : d.superblock = s.disk.superblock)
    (same : new.inum = (s.icache c).inum) (ref : new.ref = (s.icache c).ref)
    (valid : new.valid = true) : (s.leave d c new).node (s.icache c).inum = new.toDinode := by
  have shown : (s.leave d c new).node new.inum = ((s.leave d c new).icache c).toDinode := by
    apply FileSys.node_cached
    · rw [FileSys.leave_disk, superblock, same]
      exact inv.inums c held
    · rw [FileSys.caches_iff, FileSys.leave_self, ref, inv.refs]
      exact ⟨by omega, valid, rfl⟩
    · exact fun c' cached => inv.caches_leave held same cached
  rw [same, FileSys.leave_self] at shown
  exact shown

theorem node_leave_stored (held : 0 < hold c) (superblock : d.superblock = s.disk.superblock)
    (same : new.inum = (s.icache c).inum) (invalid : new.valid = false) :
    (s.leave d c new).node (s.icache c).inum = d.stored (s.icache c).inum := by
  apply FileSys.node_stored
  · rw [FileSys.leave_disk, superblock]
    exact inv.inums c held
  · intro c'
    rw [← same]
    by_contra cached
    rw [Bool.not_eq_false] at cached
    have here := inv.caches_leave held same cached
    rw [here] at cached
    have valid := (FileSys.caches_iff.mp cached).2.1
    rw [FileSys.leave_self, invalid] at valid
    exact Bool.noConfusion valid

theorem leave (held : 0 < hold c) (apart : Apart s.node i s.disk d) (old : (s.icache c).inum = i)
    (same : new.inum = i) (ref : new.ref = (s.icache c).ref)
    (replaces : Replaces C s i d ((s.leave d c new).node i))
    (synced : new.valid = true → Copied C (d.dinode i) new.toDinode) :
    Consistent C (s.leave d c new) hold := by
  subst old
  refine inv.replace apart (fun j other => node_leave_of_ne apart rfl same other) replaces
    (inv.toCached.set apart.superblock ?_ (fun c' other => ⟨rfl, fun held' => ?_⟩)
      fun _ => ⟨same ▸ inv.inums c held, inv.inum_ne held same, same ▸ synced⟩)
  · rw [ref, inv.refs]
  · exact apart.dinode _ (inv.inums c' held')
      (same ▸ inv.inum_ne held same c' other held')

end

theorem stable_leave (superblock : d.superblock = s.disk.superblock)
    (inum : 0 < hold c → new.inum = (s.icache c).inum)
    (valid : 0 < hold c → (s.icache c).valid = true →
      new.valid = true ∧ new.type = (s.icache c).type) : Stable False hold s (s.leave d c new) where
  ftable := rfl
  cwd := rfl
  superblock := superblock
  run := False.elim
  inum := by
    intro c' held
    by_cases here : c' = c
    · rw [here] at held ⊢
      rw [FileSys.leave_self]
      exact inum held
    · rw [FileSys.leave_of_ne here]
  valid := by
    intro c' held
    by_cases here : c' = c
    · rw [here] at held ⊢
      rw [FileSys.leave_self]
      exact valid held
    · rw [FileSys.leave_of_ne here]
      exact fun valid => ⟨valid, rfl⟩

/-- The invariant after references to entry `c` have come or gone, with one
left if the entry holds a copy. -/
theorem reref (new : Inode) (inv : Consistent C s hold) (held : 0 < hold c)
    (core : new.toDinode = (s.icache c).toDinode) (inum : new.inum = (s.icache c).inum)
    (valid : new.valid = (s.icache c).valid) (ref : new.ref = hold' c)
    (others : ∀ c', c' ≠ c → hold' c' = hold c') (kept : new.valid = true → 0 < hold' c) :
    Consistent C (s.leave s.disk c new) hold' ∧ (s.leave s.disk c new).node = s.node := by
  have node : (s.leave s.disk c new).node = s.node := by
    funext i
    apply FileSys.node_congr
    · rfl
    · intro c'
      by_cases here : c' = c
      · have positive : 0 < (s.icache c).ref := by
          rw [inv.refs]
          omega
        unfold FileSys.caches
        rw [here, FileSys.leave_self, inum, valid, decide_eq_true positive]
        cases read : (s.icache c).valid with
        | true =>
          have left := kept (valid.trans read)
          rw [ref, decide_eq_true (by omega)]
        | false => simp
      · unfold FileSys.caches
        rw [FileSys.leave_of_ne here]
    · intro c' _
      by_cases here : c' = c
      · rw [here, FileSys.leave_self, core]
      · rw [FileSys.leave_of_ne here]
    · exact fun _ => rfl
  refine ⟨inv.renode rfl node (inv.toCached.set rfl ref
    (fun c' other => ⟨others c' other, fun _ => rfl⟩) fun _ =>
      ⟨inum ▸ inv.inums c held, inv.inum_ne held inum, fun read => ?_⟩), node⟩
  rw [core, inum]
  exact inv.synced c held (valid.symm.trans read)

theorem load (new : Inode) (inv : Consistent C s hold)
    (held : 0 < hold c) (unread : (s.icache c).valid = false)
    (inum : new.inum = (s.icache c).inum) (ref : new.ref = (s.icache c).ref)
    (valid : new.valid = true) (core : new.toDinode = s.disk.dinode (s.icache c).inum)
    (typed : (s.disk.dinode (s.icache c).inum).type ≠ 0) :
    Consistent C (s.leave s.disk c new) hold ∧ (s.leave s.disk c new).node = s.node := by
  have before := inv.node_leave_stored (d := s.disk) held rfl rfl unread
  rw [FileSys.leave_same] at before
  have shown : (s.leave s.disk c new).node (s.icache c).inum = s.node (s.icache c).inum := by
    rw [inv.node_leave held rfl inum ref valid, before, core]
    exact (if_neg typed).symm
  constructor
  · refine inv.leave held Apart.refl rfl inum ref (shown ▸ inv.replaces _) fun _ => ?_
    rw [core]
    exact ⟨⟨rfl, fun _ => Or.inr rfl⟩, typed, fun _ => rfl⟩
  · funext j
    by_cases here : j = (s.icache c).inum
    · rw [here]
      exact shown
    · exact node_leave_of_ne Apart.refl rfl inum here

/-- The invariant after an unused entry has been given to an inode that is not
cached. -/
theorem recycle (new : Inode) (inv : Consistent C s hold) (unused : hold c = 0)
    (small : new.inum < s.disk.superblock.ninodes)
    (absent : ∀ c', 0 < hold c' → (s.icache c').inum ≠ new.inum)
    (ref : new.ref = 1) (invalid : new.valid = false) :
    Consistent C (s.leave s.disk c new) (addRef hold c) ∧ (s.leave s.disk c new).node = s.node := by
  have node : (s.leave s.disk c new).node = s.node := by
    funext i
    apply FileSys.node_congr
    · rfl
    · intro c'
      by_cases here : c' = c
      · have zero := inv.refs c
        unfold FileSys.caches
        rw [here, FileSys.leave_self, invalid, zero, unused]
        simp
      · unfold FileSys.caches
        rw [FileSys.leave_of_ne here]
    · intro c' cached
      have positive := (inv.caches_iff.mp cached).1
      rw [FileSys.leave_of_ne]
      rintro rfl
      omega
    · exact fun _ => rfl
  refine ⟨inv.renode rfl node (inv.toCached.set rfl ?_
    (fun c' other => ⟨addRef_of_ne other, fun _ => rfl⟩) fun _ =>
      ⟨small, fun c' _ => absent c', fun read => ?_⟩), node⟩
  · rw [ref, addRef_self, unused]
    rfl
  · rw [invalid] at read
    exact Bool.noConfusion read

/-- The invariant after the last reference to entry `c` is gone: its inode is
then what the disk has, which may lack pointers that were not written back. -/
theorem drop (inv : Consistent C s (addRef hold c)) (last : hold c = 0)
    (read : (s.icache c).valid = true) (inum : new.inum = (s.icache c).inum) (ref : new.ref = 0) :
    Consistent C (s.leave s.disk c new) hold := by
  have held : 0 < addRef hold c c := addRef_pos
  have own := inv.node_held held read
  have synced := inv.synced c held read
  have shown : (s.leave s.disk c new).node (s.icache c).inum = s.disk.dinode (s.icache c).inum := by
    have stored : (s.leave s.disk c new).node (s.icache c).inum =
        s.disk.stored (s.icache c).inum := by
      apply FileSys.node_stored
      · exact inv.inums c held
      · intro c'
        rw [← inum]
        by_contra cached
        rw [Bool.not_eq_false] at cached
        have here := inv.caches_leave held inum cached
        rw [here] at cached
        have positive := (FileSys.caches_iff.mp cached).1
        rw [FileSys.leave_self, ref] at positive
        omega
    rw [stored]
    exact if_neg (by rw [synced.type]; exact synced.typed)
  have old := inv.replaces (s.icache c).inum
  rw [own] at old
  refine inv.replace (i := (s.icache c).inum) Apart.refl
    (fun j other => node_leave_of_ne Apart.refl rfl inum other)
    (shown.symm ▸ ⟨?_, fun sl some => ?_, fun type => ?_, ?_⟩) ?_
  · apply inv.owned.shrink
    · intro j a
      by_cases here : j = (s.icache c).inum
      · rw [here, update_self, own]
        exact synced.addrs a
      · rw [update_of_ne here]
        exact Or.inr rfl
    · intro j
      by_cases here : j = (s.icache c).inum
      · rw [here, update_self, own]
        exact Or.inl synced.type
      · rw [update_of_ne here]
        exact Or.inl rfl
  · have same := (Disk.block_shrink synced.addrs (Or.inl synced.type) s.disk sl).resolve_left some
    change s.disk.block _ sl ≠ 0 at some
    change s.disk.block _ sl < _ ∨ s.disk.block _ sl ∈ _
    rw [same] at some ⊢
    exact old.origin sl some
  · obtain ⟨c, null⟩ := old.checked (synced.type.symm.trans type)
    exact ⟨c, fun a => (synced.addrs a).elim id fun same => same.trans (null a)⟩
  · refine ⟨old.dirs.1.shrink (Nat.zero_lt_of_lt inv.root) synced.addrs (Or.inl synced.type),
      fun c => ?_⟩
    rw [synced.whole c]
    exact old.dirs.2 c
  · refine inv.toCached.set rfl ?_ (fun c' other => ⟨(addRef_of_ne other).symm, fun _ => rfl⟩)
      fun left => absurd left (by omega)
    rw [ref, last]
    rfl

end Leave

end Consistent

/-! ## Code of the inode layer -/

section Rules

variable {α : Type} {s : FileSys} {hold : InodePtr → Nat} {c : InodePtr}
  {E : FsPanic → Prop}

variable {Q : Unit → FileSys → Prop} {inum : Nat}

theorem wp_onDisk {program : FsM α} {Q : α → FileSys → Prop} : wp (onDisk program) Q E s ↔
      wp program (fun value d => Q value { s with disk := d }) E s.disk := by
  unfold onDisk wp
  cases outcome : program s.disk with
  | ok result => simp only [outcome]
  | error reason => simp only [outcome]

theorem wp_withInode {program : Inode → FsM (α × Inode)} {Q : α → FileSys → Prop} :
    wp (withInode c program) Q E s ↔ wp (program (s.icache c))
        (fun r d => Q r.1 (s.leave d c r.2)) E s.disk := by
  unfold withInode
  rw [wp_bind, wp_get, wp_bind, wp_onDisk]
  exact Iff.rfl

theorem wp_updInode {update : Inode → Inode} :
    wp (updInode c update) Q E s ↔ Q () (s.leave s.disk c (update (s.icache c))) := Iff.rfl

section

variable (inv : Consistent C s hold) (held : 0 < hold c)
  (valid : (s.icache c).valid = true)
include inv held valid

/-- Code that works on an inode which is held and has been read. -/
theorem wp_withInode_advanced {program : Inode → FsM (α × Inode)} {Q : α → FileSys → Prop}
    {P : α × Inode → Disk → Prop} (plain : (s.icache c).type ≠ T_CHECKED)
    (run : wp (program (s.icache c)) (fun r d =>
      Advanced s.disk.bitmapEnd s.node (s.icache c).inum s.disk (s.icache c) d r.2 ∧
      (C → d.dinode (s.icache c).inum = r.2.toDinode ∧
        (r.2.type = T_DIR → Directory d r.2.toDinode)) ∧ P r d) Tolerated s.disk)
    (rest : ∀ r d, P r d → Consistent C (s.leave d c r.2) hold →
      Stable False hold s (s.leave d c r.2) → Q r.1 (s.leave d c r.2)) :
    wp (withInode c program) Q Tolerated s := by
  rw [wp_withInode]
  refine wp_imp run ?_
  rintro ⟨value, new⟩ d ⟨advanced, strict, outcome⟩
  simp only at advanced strict
  have type : new.type = (s.icache c).type := advanced.type
  have inum : new.inum = (s.icache c).inum := by rw [advanced.rest]
  have ref : new.ref = (s.icache c).ref := by rw [advanced.rest]
  have still : new.valid = true := by rw [advanced.rest]; exact valid
  have shown : (s.leave d c new).node (s.icache c).inum = new.toDinode :=
    inv.node_leave held advanced.superblock inum ref still
  have old := inv.replaces (s.icache c).inum
  rw [inv.node_held held valid] at old
  have synced := inv.synced c held valid
  refine rest _ d outcome ?_
    (Consistent.stable_leave advanced.superblock (fun _ => inum) fun _ _ => ⟨still, type⟩)
  refine inv.leave held advanced.toApart rfl inum ref (shown.symm ▸
    ⟨advanced.owned, fun sl some => ?_, fun checked => absurd (type.symm.trans checked) plain,
      advanced.dirs old.dirs.1, fun c => (strict c).2⟩) fun _ =>
    ⟨advanced.synced synced.toSynced, type ▸ synced.typed, fun c => (strict c).1⟩
  rcases advanced.origin sl some with same | fresh
  · rw [same] at some ⊢
    exact (old.origin sl some).imp_right (advanced.given _)
  · exact Or.inr fresh

section Directories

variable (type : (s.icache c).type = T_DIR)
include type

/-- Code that reads a directory: where directories are maps, it changes nothing. -/
theorem wp_withInode_reads {program : Inode → FsM (α × Inode)} {Q : α → FileSys → Prop}
    {P R : α → Prop} (run : wp (program (s.icache c)) (fun r d =>
      Advanced s.disk.bitmapEnd s.node (s.icache c).inum s.disk (s.icache c) d r.2 ∧ P r.1)
      Tolerated s.disk)
    (reads : C → Directory s.disk (s.icache c).toDinode → wp (program (s.icache c))
      (fun r d => (r.2 = s.icache c ∧ d = s.disk) ∧ R r.1) Tolerated s.disk)
    (rest : ∀ value t, P value → (C → t = s ∧ R value) → Consistent C t hold →
      Stable C hold s t → Q value t) : wp (withInode c program) Q Tolerated s := by
  have listed := inv.listed held valid
  refine wp_withInode_advanced inv held valid (by rw [type]; decide)
    (wp_imp (wp_also run fun c => reads c (listed.2 c type)) fun r d both =>
      ⟨both.1.1, fun c => ?_, both⟩) ?_
  · rw [(both.2 c).1.1, (both.2 c).1.2]
    exact ⟨(inv.synced _ held valid).whole c, listed.2 c⟩
  rintro ⟨value, new⟩ d ⟨⟨_, known⟩, strict⟩ after stable
  have same : C → s.leave d c new = s := by
    intro strictly
    obtain ⟨⟨rfl, rfl⟩, -⟩ := strict strictly
    exact s.leave_same c
  exact rest value _ known (fun c => ⟨same c, (strict c).2⟩) after
    { stable with run := fun c _ reached => (same c).symm ▸ reached }

theorem wp_withInode_entry {program : Inode → FsM (α × Inode)}
    (run : wp (program (s.icache c)) (fun r d =>
      Advanced s.disk.bitmapEnd s.node (s.icache c).inum s.disk (s.icache c) d r.2)
      Tolerated s.disk) (map : C → Directory s.disk (s.icache c).toDinode →
      s.disk.dinode (s.icache c).inum = (s.icache c).toDinode →
      wp (program (s.icache c)) (fun r d => d.dinode (s.icache c).inum = r.2.toDinode ∧
        Directory d r.2.toDinode) Tolerated s.disk) :
    wp (withInode c program) (fun _ t => Consistent C t hold ∧ Stable False hold s t)
      Tolerated s := by
  have listed := inv.listed held valid
  have whole := (inv.synced c held valid).whole
  refine wp_withInode_advanced (P := fun _ _ => True) inv held valid
    (by rw [type]; decide)
    (wp_imp (wp_also run fun c => map c (listed.2 c type) (whole c)) fun _ _ both =>
      ⟨both.1, fun c => ⟨(both.2 c).1, fun _ => (both.2 c).2⟩, trivial⟩)
    fun _ _ _ after stable => ⟨after, stable⟩

end Directories

/-- Fields other than the type, the size and the pointers are changed and
written back. -/
theorem wp_recount {update : Inode → Inode} {Q : Unit → FileSys → Prop}
    (fields : ∀ node, update node = { node with
      major := (update node).major
      minor := (update node).minor
      nlink := (update node).nlink })
    (rest : ∀ t, Consistent C t hold → Stable False hold s t → Q () t) :
    wp (do
      updInode c update
      iupdateAt c) Q Tolerated s := by
  have old := inv.loaded held valid
  have synced := inv.synced c held valid
  have before := inv.replaces (s.icache c).inum
  rw [old.here] at before
  generalize counted : update (s.icache c) = new
  have core := fields (s.icache c)
  rw [counted] at core
  have type : new.type = (s.icache c).type := by rw [core]
  have size : new.size = (s.icache c).size := by rw [core]
  have addrs : new.addrs = (s.icache c).addrs := by rw [core]
  have inum : new.inum = (s.icache c).inum := by rw [core]
  have ref : new.ref = (s.icache c).ref := by rw [core]
  have still : new.valid = true := by rw [core]; exact valid
  have loaded : Loaded s.disk.bitmapEnd (Function.update s.node (s.icache c).inum new.toDinode)
      (s.icache c).inum s.disk new :=
    ⟨old.owned.congr_update (old.here ▸ addrs) (old.here ▸ type), update_self .., old.idle, rfl,
      inum, old.small, type.symm ▸ addrs.symm ▸ old.empty⟩
  have written := loaded.writeBack
  have owned := written.owned
  rw [Function.update_idem] at owned
  have shown : (s.leave (s.disk.setDinode (s.icache c).inum new.toDinode) c new).node
      (s.icache c).inum = new.toDinode :=
    inv.node_leave held written.superblock inum ref still
  have ptr : ∀ sl, (s.disk.setDinode (s.icache c).inum new.toDinode).ptr new.toDinode sl =
      s.disk.ptr (s.icache c).toDinode sl := fun sl =>
    (loaded.shows.1 sl).trans (Disk.ptr_addrs addrs ..)
  rw [wp_bind, wp_updInode, iupdateAt, wp_withInode, FileSys.leave_self, wp_bind, counted]
  apply wp_iupdate_loaded loaded
  rw [wp_pure, FileSys.leave_leave]
  refine rest _ (inv.leave held written.toApart.update rfl inum ref (shown.symm ▸
    ⟨owned, fun sl => ?_, type.symm ▸ addrs.symm ▸ before.checked, before.dirs.congr
      written.superblock type size ptr fun sl => (loaded.shows.2 sl).trans
        (Disk.view_addrs type addrs ..)⟩) fun _ =>
    ⟨written.synced (synced.keep type fun a _ => congrFun addrs a), type ▸ synced.typed,
      fun c => Disk.dinode_setDinode _ _ ?_ loaded.addrs_lt⟩)
    (Consistent.stable_leave written.superblock (fun _ => inum) fun _ _ => ⟨still, type⟩)
  · have block : (s.disk.setDinode (s.icache c).inum new.toDinode).block new.toDinode sl =
        s.disk.block (s.icache c).toDinode sl := by
      unfold Disk.block
      rw [ptr, type]
    rw [block]
    exact before.origin sl
  · rw [size, ← synced.whole c]
    exact Bytes.word32_lt ..

end

theorem Stable.since {s' : FileSys} {program : FM α} {P : α → FileSys → Prop}
    (stable : Stable C hold s s') (run : wp program (fun r t => P r t ∧ Stable C hold s' t) E s') :
    wp program (fun r t => P r t ∧ Stable C hold s t) E s' :=
  wp_imp run fun _ _ => And.imp_right stable.trans

theorem Stable.since_pure {β : Type} {s' : FileSys} {first : FM β} {value : α}
    {P : α → FileSys → Prop} (stable : Stable C hold s s')
    (run : wp first (fun _ t => P value t ∧ Stable C hold s' t) E s') :
    wp (first >>= fun _ => pure value) (fun r t => P r t ∧ Stable C hold s t) E s' := by
  rw [wp_bind]
  exact wp_imp run fun _ _ => And.imp_right stable.trans

/-! ## References -/

theorem wp_idup (inv : Consistent C s hold) (held : 0 < hold c) :
    wp (idup c) (fun _ s' => Consistent C s' (addRef hold c) ∧
      Stable C hold s s' ∧ (s'.icache c).inum = (s.icache c).inum ∧
      s'.node = s.node) E s := by
  refine Stable.step C hold (.idup c) rfl (fun _ => inv.positive held) ?_
  unfold idup
  rw [wp_updInode]
  have ref : (s.icache c).ref + 1 = addRef hold c c := by
    rw [inv.refs, addRef_self]
    rfl
  have referenced : Consistent C (s.leave s.disk c { s.icache c with ref := (s.icache c).ref + 1 })
        (addRef hold c) ∧
      (s.leave s.disk c
        { s.icache c with ref := (s.icache c).ref + 1 }).node = s.node :=
    Consistent.reref _ inv held rfl rfl rfl ref
      (fun c' ne => addRef_of_ne ne) fun _ => addRef_pos
  obtain ⟨after, node⟩ := referenced
  refine ⟨Consistent.stable_leave rfl (fun _ => rfl) fun _ valid => ⟨valid, rfl⟩,
    fun stable => ⟨after, stable, ?_, node⟩⟩
  rw [FileSys.leave_self]

theorem FileSys.findInode_some (found : s.findInode inum = some c) :
    0 < (s.icache c).ref ∧ (s.icache c).inum = inum := by
  simpa using List.find?_some found

theorem FileSys.findInode_none (none : s.findInode inum = none) :
    0 < (s.icache c).ref → (s.icache c).inum ≠ inum := by
  have absent := List.find?_eq_none.mp none c (List.mem_finRange c)
  simpa using absent

theorem FileSys.emptyInode_some (found : s.emptyInode = some c) : (s.icache c).ref = 0 := by
  simpa using List.find?_some found

/-- The entry that `iget` returns: one for the inode, or else one that is not in
use. -/
theorem wp_iget_entry {Q : InodePtr → FileSys → Prop}
    (full : (∀ c, (s.icache c).ref ≠ 0) → E .iget)
    (found : ∀ c, 0 < (s.icache c).ref → (s.icache c).inum = inum →
      Q c (s.leave s.disk c { s.icache c with ref := (s.icache c).ref + 1 }))
    (unused : ∀ c, (s.icache c).ref = 0 →
      (∀ c', 0 < (s.icache c').ref → (s.icache c').inum ≠ inum) →
      Q c (s.leave s.disk c
        { s.icache c with
          inum := inum
          ref := 1
          busy := false
          valid := false })) : wp (iget inum) Q E s := by
  unfold iget
  rw [wp_bind, wp_get]
  cases search : s.findInode inum with
  | some c =>
    obtain ⟨positive, same⟩ := FileSys.findInode_some search
    exact found c positive same
  | none =>
    cases empty : s.emptyInode with
    | none =>
      exact full fun c => by simpa using List.find?_eq_none.mp empty c (List.mem_finRange c)
    | some c =>
      exact unused c (FileSys.emptyInode_some empty) fun c' => FileSys.findInode_none search

theorem wp_iget (inv : Consistent C s hold) (small : inum < s.disk.superblock.ninodes) :
    wp (iget inum) (fun c s' => Consistent C s' (addRef hold c) ∧
      Stable C hold s s' ∧ (s'.icache c).inum = inum ∧ s'.node = s.node)
      Tolerated s := by
  refine Stable.step C hold (.iget inum) rfl (fun _ => small)
    (wp_iget_entry (fun _ => noConfusion) (fun c positive same => ?_) fun c zero absent => ?_)
  · rw [inv.refs] at positive
    obtain ⟨after, stable, inum, node⟩ := wp_updInode.mp
      (wp_idup (E := Tolerated) inv (c := c) (by omega))
    exact ⟨stable.weaken, fun stable => ⟨after, stable, inum.trans same, node⟩⟩
  · rw [inv.refs] at zero
    have unused : hold c = 0 := by omega
    obtain ⟨after, node⟩ := Consistent.recycle
      { s.icache c with
        inum := inum
        ref := 1
        busy := false
        valid := false } inv unused small
      (fun c' held => absent c' (inv.positive held)) rfl rfl
    refine ⟨Consistent.stable_leave rfl (fun held => by omega) fun held => by omega,
      fun stable => ⟨after, stable, ?_, node⟩⟩
    rw [FileSys.leave_self]

/-! ## Locks -/

theorem Consistent.setBusy (inv : Consistent C s hold) (held : 0 < hold c) (busy : Bool) :
    Consistent C (s.leave s.disk c { s.icache c with busy := busy }) hold ∧
      (s.leave s.disk c { s.icache c with busy := busy }).node = s.node := by
  have same := inv.refs c
  exact Consistent.reref { s.icache c with busy := busy } inv held rfl
    rfl rfl same (fun _ _ => rfl) fun _ => held

/-- The entry that `ilock` leaves: as it was, or filled from the disk. -/
theorem wp_ilock_entry {Q : Unit → FileSys → Prop} (idle : s.disk.held = [])
    (refuses : ¬ 0 < (s.icache c).ref → E .ilock) (sleeps : (s.icache c).busy = true → E .asleep)
    (free : (s.disk.dinode (s.icache c).inum).type = 0 → E .ilockType)
    (read : (s.icache c).valid = true → Q () (s.leave s.disk c { s.icache c with busy := true }))
    (fills : (s.icache c).valid = false → (s.disk.dinode (s.icache c).inum).type ≠ 0 →
      Q () (s.leave s.disk c (({ s.icache c with busy := true } : Inode).fill
        (s.disk.dinode (s.icache c).inum)))) : wp (ilock c) Q E s := by
  unfold ilock
  rw [wp_bind, wp_get, wp_ite, wp_ite]
  refine ⟨fun none => refuses (by omega), fun _ => ⟨fun busy => sleeps busy, fun _ => ?_⟩⟩
  rw [wp_bind, wp_updInode, wp_ite]
  refine ⟨fun valid => read valid, fun unread => ?_⟩
  rw [wp_bind, wp_withInode, FileSys.leave_self, FileSys.leave_disk]
  refine wp_bread_brelse (idle ▸ List.not_mem_nil) (by rw [idle]; decide) ?_
  rw [wp_pure, FileSys.leave_leave, wp_ite]
  exact ⟨free, fills (Bool.eq_false_of_not_eq_true unread)⟩

theorem wp_ilock (inv : Consistent C s hold) (held : 0 < hold c) :
    wp (ilock c) (fun _ s' => Consistent C s' hold ∧ Stable C hold s s' ∧
      (s'.icache c).valid = true ∧ s'.node = s.node) Tolerated s := by
  refine Stable.step C hold (.ilock c) rfl (fun _ => inv.positive held)
    (wp_ilock_entry inv.idle (fun _ => noConfusion) (fun _ => noConfusion)
      (fun _ => noConfusion) (fun read => ?_) fun unread typed => ?_)
  · obtain ⟨after, node⟩ := inv.setBusy held true
    refine ⟨Consistent.stable_leave rfl (fun _ => rfl) fun _ valid => ⟨valid, rfl⟩,
      fun stable => ⟨after, stable, ?_, node⟩⟩
    rw [FileSys.leave_self]
    exact read
  · obtain ⟨loaded, same⟩ := Consistent.load (({ s.icache c with busy := true } : Inode).fill
        (s.disk.dinode (s.icache c).inum)) inv held unread rfl rfl rfl
      rfl typed
    refine ⟨Consistent.stable_leave rfl (fun _ => rfl) fun _ valid => ?_,
      fun stable => ⟨loaded, stable, ?_, same⟩⟩
    · rw [unread] at valid
      exact Bool.noConfusion valid
    · rw [FileSys.leave_self]
      rfl

theorem wp_iunlock (inv : Consistent C s hold) (held : 0 < hold c) :
    wp (iunlock c) (fun _ s' => Consistent C s' hold ∧ Stable C hold s s') Tolerated s := by
  refine Stable.step C hold (.iunlock c) rfl (fun _ => inv.positive held) ?_
  unfold iunlock
  rw [wp_bind, wp_get, wp_ite, wp_updInode]
  refine ⟨fun _ => noConfusion, fun _ => ?_⟩
  exact ⟨Consistent.stable_leave rfl (fun _ => rfl) fun _ valid => ⟨valid, rfl⟩,
    fun stable => ⟨(inv.setBusy held false).1, stable⟩⟩

/-! ## `iput` -/

theorem wp_iput_stays
    (stays : ¬ ((s.icache c).ref = 1 ∧ (s.icache c).valid ∧ (s.icache c).nlink = 0))
    (rest : Q () (s.leave s.disk c { s.icache c with ref := (s.icache c).ref - 1 })) :
    wp (iput c) Q E s := by
  unfold iput
  rw [wp_bind, wp_get, wp_ite]
  exact ⟨fun last => absurd last stays, fun _ => rest⟩

theorem wp_iputFree (inv : Consistent C s hold) (held : 0 < hold c)
    (read : (s.icache c).valid = true) (rest : ∀ d, d.superblock = s.disk.superblock →
      Consistent C (s.leave d c (s.icache c).freed) hold →
      Q () (s.leave d c (s.icache c).freed)) : wp (iputFree c) Q Tolerated s := by
  unfold iputFree
  rw [wp_withInode]
  refine wp_imp (wp_freeInode (inv.loaded held read)) ?_
  rintro ⟨_, new⟩ d ⟨rfl, apart, owned, typeless⟩
  apply rest d apart.superblock
  have shown : (s.leave d c (s.icache c).freed).node (s.icache c).inum =
      blank := by
    have stored : (s.leave d c (s.icache c).freed).node (s.icache c).inum =
        d.stored (s.icache c).inum :=
      inv.node_leave_stored held apart.superblock rfl rfl
    rw [stored]
    exact if_pos typeless
  refine inv.leave held apart rfl rfl rfl (shown.symm ▸ ⟨owned, fun sl some => ?_,
    fun checked => absurd (checked : (0 : UInt16) = T_CHECKED) (by decide),
    .fresh (apart.superblock ▸ Nat.zero_lt_of_lt inv.root) rfl fun _ => rfl⟩)
    Bool.noConfusion
  exact absurd (Disk.block_null (fun _ => rfl) ..) some

section

variable (inv : Consistent C s (addRef hold c))
include inv

theorem Consistent.unref (kept : (s.icache c).valid = true → 0 < hold c) :
    Consistent C (s.leave s.disk c
      { s.icache c with ref := (s.icache c).ref - 1 }) hold := by
  have ref := inv.refs c
  rw [addRef_self, Int.natCast_succ] at ref
  have less : (s.icache c).ref - 1 = hold c := by omega
  exact (Consistent.reref { s.icache c with ref := (s.icache c).ref - 1 }
    inv addRef_pos rfl rfl rfl less
    (fun c' ne => (addRef_of_ne ne).symm) kept).1

/-- The reference that `iput` gives up is the last of `addRef hold c`. -/
theorem wp_iput :
    wp (iput c) (fun _ s' => Consistent C s' hold ∧ Stable C hold s s') Tolerated s := by
  have held : 0 < addRef hold c c := addRef_pos
  have ref := inv.refs c
  rw [addRef_self, Int.natCast_succ] at ref
  refine Stable.step C hold (.iput c) rfl (fun _ => inv.positive held) ?_
  unfold iput
  rw [wp_bind, wp_get, wp_ite]
  constructor
  · rintro ⟨one, read, _⟩
    have last : hold c = 0 := by omega
    simp only
    rw [wp_ite]
    refine ⟨fun _ => noConfusion, fun _ => ?_⟩
    rw [wp_bind]
    apply wp_iputFree inv held read
    intro d superblock freed
    rw [wp_updInode]
    refine ⟨?_, fun stable => ⟨?_, stable⟩⟩
    · rw [FileSys.leave_disk, FileSys.leave_leave]
      exact Consistent.stable_leave superblock (fun held => by omega) fun held => by omega
    · apply freed.unref
      rw [FileSys.leave_self]
      exact Bool.noConfusion
  · intro _
    rw [wp_updInode]
    refine ⟨Consistent.stable_leave rfl (fun _ => rfl) fun _ valid => ⟨valid, rfl⟩,
      fun stable => ⟨?_, stable⟩⟩
    · by_cases last : hold c = 0 ∧ (s.icache c).valid = true
      · exact inv.drop last.1 last.2 rfl (by
          change (s.icache c).ref - 1 = 0
          omega)
      · exact inv.unref fun read =>
          Nat.pos_of_ne_zero fun zero => last ⟨zero, read⟩

theorem wp_iunlockput :
    wp (iunlockput c) (fun _ s' => Consistent C s' hold ∧ Stable C hold s s') Tolerated s := by
  unfold iunlockput
  refine wp_seq (wp_iunlock inv addRef_pos) ?_
  rintro _ s' ⟨unlocked, stable⟩
  refine wp_imp (wp_iput unlocked) ?_
  rintro _ s'' ⟨released, stable'⟩
  exact ⟨released, (stable.mono le_addRef).trans stable'⟩

end

/-! ## `ialloc` -/

/-- Mark inode `i` allocated. -/
def Disk.allocInode (d : Disk) (i : Nat) (type : UInt16) : Disk :=
  d.setSector (iblock i) (Bytes.put (Bytes.fill (d.sectors (iblock i)) (dinodeBase i) 0 DINODESIZE)
      (dinodeBase i) (Bytes.le16 type.toNat))

theorem Disk.dinode_allocInode (d : Disk) (i : Nat) (type : UInt16) :
    (d.allocInode i type).dinode i = fresh type := by
  unfold Disk.dinode Disk.allocInode
  rw [Disk.setSector_self, load_fresh]

theorem Disk.dinode_allocInode_of_ne {i j : Nat} (ne : j ≠ i) (d : Disk)
    (type : UInt16) : (d.allocInode i type).dinode j = d.dinode j := by
  apply Disk.dinode_setSector_of_ne ne
  intro a outside
  rw [Bytes.put_outside]
  · unfold Bytes.fill
    rw [if_neg (by omega)]
  · simp only [Bytes.le16, List.length_cons, List.length_nil, DINODESIZE] at *
    omega

theorem wp_iallocLoop {d : Disk} (type : UInt16) (idle : d.held = [])
    (left inum : Nat) (inside : inum + left ≤ d.superblock.ninodes) :
    wp (iallocLoop type left inum) (fun i d' => i < d.superblock.ninodes ∧
      (d.dinode i).type = 0 ∧ d' = d.allocInode i type) Tolerated d := by
  induction left generalizing inum with
  | zero => exact noConfusion
  | succ left ih =>
    have quiet : d.Quiet 1 := quiet_of_idle idle (by decide)
    unfold iallocLoop
    rw [wp_bind, wp_bread (by rw [idle]; simp) quiet.few, wp_ite]
    constructor
    · intro free
      rw [wp_bind, wp_bwrite (by simp), wp_bind, wp_brelse (by simp),
        wp_pure, Disk.hold_setSector_release]
      exact ⟨by omega, free, rfl⟩
    · intro _
      rw [wp_bind, wp_brelse (by simp), Disk.hold_release]
      exact ih (inum + 1) (by omega)

theorem Consistent.uncached (inv : Consistent C s hold) {i : Nat}
    (free : (s.disk.dinode i).type = 0) (c : InodePtr) : s.caches i c = false := by
  by_contra cached
  rw [Bool.not_eq_false] at cached
  obtain ⟨held, valid, rfl⟩ := inv.caches_iff.mp cached
  have synced := inv.synced c held valid
  exact synced.typed (synced.type.symm.trans free)

theorem Consistent.alloc (inv : Consistent C s hold) {i : Nat}
    (small : i < s.disk.superblock.ninodes)
    (free : (s.disk.dinode i).type = 0) {type : UInt16} (typed : type ≠ 0)
    (checked : type = T_CHECKED → C) :
    Consistent C { s with disk := s.disk.allocInode i type } hold ∧
      FileSys.node { s with disk := s.disk.allocInode i type } i = fresh type := by
  have uncached := inv.uncached free
  have low := s.disk.iblock_lt_dataStart small
  have superblock : (s.disk.allocInode i type).superblock =
      s.disk.superblock := Disk.superblock_setSector (one_lt_iblock i) ..
  have shown : FileSys.node { s with disk := s.disk.allocInode i type } i = fresh type := by
    have stored : FileSys.node { s with disk := s.disk.allocInode i type } i =
        (s.disk.allocInode i type).stored i := by
      apply FileSys.node_stored
      · rw [superblock]
        exact small
      · exact uncached
    rw [stored]
    unfold Disk.stored
    rw [Disk.dinode_allocInode]
    exact if_neg typed
  refine ⟨?_, shown⟩
  apply inv.replace (i := i)
  case apart =>
    exact Apart.of_still inv.owned superblock rfl (fun _ mem => mem)
      (fun j _ other => Disk.dinode_allocInode_of_ne other ..)
      fun x data _ => Disk.setSector_of_ne (by omega) ..
  case others =>
    intro j other
    apply FileSys.node_congr
    · exact superblock
    · exact fun _ => rfl
    · exact fun _ _ => rfl
    · exact fun _ => Disk.dinode_allocInode_of_ne other ..
  case replaces =>
    rw [shown]
    refine ⟨(inv.owned.setInode small _).clear i _ fun _ => rfl, fun sl some => ?_,
      fun type => ⟨checked type, fun _ => rfl⟩,
      .fresh (superblock ▸ Nat.zero_lt_of_lt inv.root) rfl fun _ => rfl⟩
    exact absurd (Disk.block_null (fun _ => rfl) ..) some
  case cached =>
    refine ⟨inv.refs, inv.unique, superblock ▸ inv.inums,
      fun c held valid => ?_⟩
    have other : (s.icache c).inum ≠ i := by
      rintro rfl
      have cached := inv.caches_iff.mpr ⟨held, valid, rfl⟩
      rw [uncached c] at cached
      exact Bool.noConfusion cached
    have old := inv.synced c held valid
    rw [← Disk.dinode_allocInode_of_ne other s.disk type] at old
    exact old

theorem wp_ialloc {type : UInt16} (inv : Consistent C s hold)
    (typed : type ≠ 0) (checked : type = T_CHECKED → C) :
    wp (ialloc type) (fun c s' => Consistent C s' (addRef hold c) ∧
      Stable C hold s s' ∧ (s'.node (s'.icache c).inum).type = type)
      Tolerated s := by
  refine Stable.step C hold (.ialloc type) rfl (fun _ => typed) ?_
  unfold ialloc
  have quiet : s.disk.Quiet (0 + 1) := quiet_of_idle inv.idle (by decide)
  rw [wp_bind, wp_onDisk, wp_bind]
  apply wp_readsb quiet
  refine wp_imp (wp_iallocLoop type inv.idle _ 1
    (Nat.add_sub_cancel' inv.root.le).le) ?_
  rintro i d ⟨small, free, rfl⟩
  obtain ⟨allocated, shown⟩ := inv.alloc small free typed checked
  have superblock : (s.disk.allocInode i type).superblock =
      s.disk.superblock := Disk.superblock_setSector (one_lt_iblock i) ..
  refine wp_imp (wp_iget allocated (by rw [superblock]; exact small)) ?_
  rintro c s' ⟨after, stable, inum, node⟩
  refine ⟨⟨stable.ftable, stable.cwd, stable.superblock.trans superblock, stable.inum, stable.valid,
    nofun⟩, fun stable => ⟨after, stable, ?_⟩⟩
  rw [inum, node, shown]
  rfl

end Rules

end Xv6.Fs
