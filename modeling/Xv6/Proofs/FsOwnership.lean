/-
Purpose: Block ownership in every run of the file system that starts from a
  well-formed image.
-/
import Xv6.Proofs.FsWorld

namespace Xv6.Fs

open Bytes PanicM

namespace FileSys

/-- A block pointer of inode `i`; the inode in memory counts where one is
cached, and inodes that are not in use have no pointers. -/
def pointer (s : FileSys) (i : Nat) (sl : PtrSlot) : Nat :=
  s.disk.ptr (s.node i) sl

/-- Every block has one pointer at most; blocks with a pointer are marked in
the bitmap and lie in the data area; blocks of the data area that are not
marked are zero. -/
structure BlocksOwned (s : FileSys) : Prop where
  distinct : ∀ i j sl tl, s.pointer i sl ≠ 0 → s.pointer i sl = s.pointer j tl → i = j ∧ sl = tl
  marked : ∀ i sl, s.pointer i sl ≠ 0 →
    s.disk.IsData (s.pointer i sl) ∧ s.disk.used (s.pointer i sl) = true
  clear : ∀ b, s.disk.IsData b → s.disk.used b = false → s.disk.IsZero b

/-- The state after boot, with a well-formed image on disk: its blocks are
owned, the blocks before the data are marked, no file has checksums, and the
entries of directories name inodes of the disk.  Block numbers have 24 bits,
as the pointers of checksummed files need.  The bitmap may have room for more
blocks than the disk has; what is not there reads as zero. -/
structure Boot (s : FileSys) : Prop where
  owned : s.BlocksOwned
  fits : s.disk.dataStart ≤ s.disk.superblock.size
  short : s.disk.bitmapEnd ≤ 2 ^ 24
  metadata : ∀ b < s.disk.dataStart, s.disk.used b = true
  beyond : ∀ b, s.disk.superblock.size ≤ b → b < s.disk.bitmapEnd → s.disk.IsZero b
  plain : ∀ i, (s.node i).type ≠ T_CHECKED
  dirs : ∀ i, s.disk.DirOk (s.node i)
  root : ROOTINO < s.disk.superblock.ninodes
  idle : s.disk.held = []
  fresh : s.disk.given = []
  icache : ∀ c, (s.icache c).ref = 0
  ftable : ∀ f, (s.ftable f).ref = 0 ∧ (s.ftable f).type = .none
  cwd : ∀ p, s.cwd p = none

end FileSys

/-- A call that returns. -/
def Steps (s : FileSys) (call : Call) (s' : FileSys) : Prop :=
  call.perform s = .ok ((), s')

variable {s : FileSys}

theorem FileSys.Boot.users (boot : s.Boot) : s.users = 0 := by
  funext c
  have files : refCount s.targets c = 0 := by
    apply Finset.card_eq_zero.mpr
    apply Finset.filter_eq_empty_iff.mpr
    intro f _
    unfold FileSys.targets
    rw [File.target_none (boot.ftable f).2]
    simp
  have cwds : refCount s.cwd c = 0 := by
    apply Finset.card_eq_zero.mpr
    apply Finset.filter_eq_empty_iff.mpr
    intro p _
    rw [boot.cwd p]
    simp
  unfold FileSys.users
  rw [Pi.add_apply, files, cwds]
  rfl

theorem FileSys.Boot.consistent {C : Prop} (boot : s.Boot)
    (maps : C → ∀ i, (s.node i).type = T_DIR → Directory s.disk (s.node i)) : Consistent C s 0 := by
  have block : ∀ i sl, s.disk.block (s.node i) sl = s.pointer i sl :=
    fun i _ => if_neg (boot.plain i)
  have ends := s.disk.bitmapEnd_ge
  constructor
  case owned =>
    constructor
    case fits => exact boot.fits
    case limit_le => exact Nat.le_refl _
    case limit_small => exact boot.short
    case metadata => exact boot.metadata
    case free_zero =>
      intro b small clear
      by_cases inside : b < s.disk.superblock.size
      · apply boot.owned.clear b _ clear
        refine ⟨?_, inside⟩
        by_contra low
        rw [boot.metadata b (Nat.lt_of_not_le low)] at clear
        exact Bool.noConfusion clear
      · exact boot.beyond b (Nat.le_of_not_lt inside) small
    case plain =>
      intro i
      by_cases none : (s.node i).addrs INDIRECT = 0
      · rw [none]
        decide
      · have data := (boot.owned.marked i .indirect none).1
        have short := boot.short
        exact data.2.trans_le (ends.trans short)
    case real =>
      intro i sl some
      rw [block]
      exact some
    case inData =>
      intro i sl some
      rw [block] at some ⊢
      obtain ⟨data, marked⟩ := boot.owned.marked i sl some
      exact ⟨data.1, data.2.trans_le ends, marked⟩
    case exclusive =>
      rintro ⟨i, sl⟩ ⟨j, tl⟩ some same
      simp only [block] at some same
      obtain ⟨rfl, rfl⟩ := boot.owned.distinct i j sl tl some same
      rfl
  case idle => exact boot.idle
  case origin =>
    intro i sl some
    rw [block] at some ⊢
    exact Or.inl (boot.owned.marked i sl some).1.2
  case checked => exact fun i type => absurd type (boot.plain i)
  case dirs => exact fun i => ⟨boot.dirs i, fun c => maps c i⟩
  case root => exact boot.root
  case toCached =>
    have free : ∀ c, ¬ 0 < (0 : InodePtr → Nat) c := fun _ => Nat.lt_irrefl 0
    exact ⟨boot.icache, fun c _ held => absurd held (free c), fun c held => absurd held (free c),
      fun c held => absurd held (free c)⟩

theorem FileSys.Boot.world (boot : s.Boot) : World s := by
  constructor
  case consistent => exact boot.users ▸ boot.consistent nofun
  case files =>
    constructor
    · intro f c target
      rw [File.target_none (boot.ftable f).2] at target
      cases target
    · intro f c target
      rw [File.target_none (boot.ftable f).2] at target
      cases target

/-- As long as `balloc` has not given out blocks past the end of the disk, the
invariant says who owns which block. -/
theorem World.blocksOwned (world : World s)
    (room : ∀ b ∈ s.disk.given, b < s.disk.superblock.size) : s.BlocksOwned := by
  have consistent := world.consistent
  have block : ∀ i sl, s.disk.block (s.node i) sl = s.pointer i sl :=
    fun i _ => if_neg (consistent.plain i)
  constructor
  case distinct =>
    intro i j sl tl some same
    rw [← block] at some
    rw [← block, ← block] at same
    exact Prod.mk.inj (consistent.owned.exclusive (i, sl) (j, tl) some same)
  case marked =>
    intro i sl some
    rw [← block] at some ⊢
    obtain ⟨low, _, marked⟩ := consistent.owned.inData i sl some
    refine ⟨⟨low, ?_⟩, marked⟩
    rcases consistent.origin i sl some with inside | given
    · exact inside
    · exact room _ given
  case clear =>
    intro b data clear
    exact consistent.owned.free_zero b (data.2.trans_le s.disk.bitmapEnd_ge) clear

/-- The block that `balloc` returns reads as zero pointers. -/
theorem World.balloc_zero (world : World s) {b : Nat} {after : Disk}
    (returned : balloc s.disk = .ok (b, after)) (j : Nat)
    (small : j < NINDIRECT) : word32 (after.sectors b) (4 * j) = 0 := by
  have owned := world.consistent.owned
  have run : wp balloc (fun b after => ∀ j < NINDIRECT,
      word32 (after.sectors b) (4 * j) = 0) Tolerated s.disk := by
    apply wp_balloc (quiet_of_idle world.consistent.idle (by decide))
    · intro b inside clear _ j small
      have high := owned.free_high clear
      have bitmap := s.disk.bblock_lt_dataStart inside
      rw [Disk.take_sectors_of_ne (by omega)]
      apply word32_zero
      intro k less
      apply owned.free_zero b inside clear
      simp only [NINDIRECT, BSIZE] at *
      omega
    · exact fun _ => FsPanic.noConfusion
  exact wp_ok run returned j small

theorem World.reached (reached : Reach FileSys.Boot Steps (fun _ call => call.Plain) s) :
    World s := by
  apply reached.invariant
  · exact fun _ boot => boot.world
  · intro s call s' world plain returned
    exact wp_ok (wp_call world plain) returned

/-- In every state that calls on files without checksums reach from a
well-formed image, no block has two pointers, every block with a pointer is
marked and lies in the data area, and every unmarked block of the data area is
zero, as long as the blocks given out lie on the disk.  No call panics in
`bfree`, and a block fresh from `balloc` reads as zero pointers. -/
theorem blocks_owned (reached : Reach FileSys.Boot Steps (fun _ call => call.Plain) s) :
    ((∀ b ∈ s.disk.given, b < s.disk.superblock.size) → s.BlocksOwned) ∧
      (∀ call : Call, call.Plain → call.perform s ≠ .error .bfree) ∧
      ∀ b after, balloc s.disk = .ok (b, after) → ∀ j < NINDIRECT,
        word32 (after.sectors b) (4 * j) = 0 := by
  have world := World.reached reached
  refine ⟨world.blocksOwned, ?_, fun b after returned =>
    world.balloc_zero returned⟩
  intro call plain panicked
  exact wp_error (wp_call world plain) panicked rfl

/-- In every such state the count of a cached inode is the number of open files and current
directories that refer to it, entries in use are for different inodes, of an entry that has been
read the disk has the type and no other pointers, directories name inodes of the disk, and no call
has kept a buffer. -/
theorem inodes_counted (reached : Reach FileSys.Boot Steps (fun _ call => call.Plain) s) :
    (∀ c, (s.icache c).ref = s.users c) ∧
    (∀ c c', 0 < s.users c → 0 < s.users c' → (s.icache c).inum = (s.icache c').inum → c = c') ∧
    (∀ c, 0 < s.users c → (s.icache c).valid = true → (s.icache c).type ≠ 0 ∧
      Synced (s.disk.dinode (s.icache c).inum) (s.icache c).toDinode) ∧
    (∀ i, s.disk.DirOk (s.node i)) ∧ s.disk.held = [] := by
  have consistent := (World.reached reached).consistent
  refine ⟨consistent.refs, consistent.unique, fun c held valid => ?_,
    fun i => (consistent.dirs i).1, consistent.idle⟩
  have copied := consistent.synced c held valid
  exact ⟨copied.typed, copied.toSynced⟩

/-! ## A run -/

/-- A list of calls, as long as they return. -/
def runCalls : List Call → FileSys → Except FsPanic FileSys
  | [], s => .ok s
  | call :: rest, s =>
    match call.perform s with
    | .ok (_, s') => runCalls rest s'
    | .error reason => .error reason

theorem reach_runCalls {calls : List Call} {s t : FileSys}
    (reached : Reach FileSys.Boot Steps (fun _ call => call.Plain) s)
    (plain : ∀ call ∈ calls, call.Plain) (run : runCalls calls s = .ok t) :
    Reach FileSys.Boot Steps (fun _ call => call.Plain) t := by
  induction calls generalizing s with
  | nil =>
    cases run
    exact reached
  | cons call rest ih =>
    unfold runCalls at run
    cases outcome : call.perform s with
    | error reason =>
      rw [outcome] at run
      cases run
    | ok result =>
      rw [outcome] at run
      have next := Reach.next reached (plain call List.mem_cons_self) outcome
      exact ih next (fun other mem => plain other (List.mem_cons_of_mem _ mem)) run

/-- A disk of 16 blocks with 8 inodes.  The root directory has one block, with
the entries `.` and `..`. -/
def sampleImage : Disk where
  sectors := fun x =>
    if x = 1 then ofList [16, 0, 0, 0, 10, 0, 0, 0, 8, 0, 0, 0]
    else if x = 2 then put (fun _ => 0) 64 [1, 0, 0, 0, 0, 0, 1, 0, 32, 0, 0, 0, 5, 0, 0, 0]
    else if x = 4 then ofList [63]
    else if x = 5 then ofList (dirent 1 dotName ++ dirent 1 dotDotName)
    else fun _ => 0
  held := []
  given := []

/-- The state after boot with that disk. -/
def sampleBoot : FileSys where
  disk := sampleImage
  icache := fun _ =>
    { Dinode.blank with
      inum := 0
      ref := 0
      busy := false
      valid := false }
  ftable := fun _ =>
    { type := .none
      ref := 0
      readable := false
      writable := false
      ip := 0
      off := 0 }
  cwd := fun _ => none

theorem sampleImage_superblock :
    sampleImage.superblock = { size := 16, nblocks := 10, ninodes := 8 } := by
  decide +kernel

theorem sampleImage_dataStart : sampleImage.dataStart = 5 := by
  unfold Disk.dataStart
  rw [sampleImage_superblock]
  decide

theorem sampleImage_zero {b : Nat} (one : b ≠ 1) (two : b ≠ 2)
    (four : b ≠ 4) (five : b ≠ 5) : sampleImage.IsZero b := by
  intro k _
  unfold sampleImage
  simp only [if_neg one, if_neg two, if_neg four, if_neg five]

theorem sampleBoot_node (i : Nat) : sampleBoot.node i =
    if i < 8 then sampleImage.stored i else Dinode.blank := by
  have ninodes : sampleBoot.disk.superblock.ninodes = 8 := by
    change sampleImage.superblock.ninodes = 8
    rw [sampleImage_superblock]
  by_cases small : i < 8
  · rw [if_pos small]
    apply FileSys.node_stored
    · rw [ninodes]
      exact small
    · exact fun _ => rfl
  · rw [if_neg small]
    unfold FileSys.node
    rw [ninodes, if_neg small]

theorem sampleBoot_pointer {i : Nat} {sl : PtrSlot} (some : sampleBoot.pointer i sl ≠ 0) :
    i = 1 ∧ sl = .addr 0 ∧ sampleBoot.pointer i sl = 5 := by
  unfold FileSys.pointer at *
  rw [sampleBoot_node] at *
  by_cases small : i < 8
  · rw [if_pos small] at *
    have all : ∀ i : Fin 8, ∀ sl : PtrSlot, sampleImage.ptr (sampleImage.stored i) sl ≠ 0 →
        i = 1 ∧ sl = .addr 0 ∧ sampleImage.ptr (sampleImage.stored i) sl = 5 := by
      decide +kernel
    obtain ⟨inode, place, value⟩ := all ⟨i, small⟩ sl some
    exact ⟨congrArg Fin.val inode, place, value⟩
  · rw [if_neg small] at some
    exact absurd (Disk.ptr_null (fun _ => rfl) _ sl) some

theorem sampleBoot_boot : sampleBoot.Boot := by
  have used : ∀ b < 6, sampleImage.used b = true := by decide +kernel
  have start := sampleImage_dataStart
  have super := sampleImage_superblock
  constructor
  case owned =>
    constructor
    case distinct =>
      intro i j sl tl some same
      obtain ⟨rfl, rfl, _⟩ := sampleBoot_pointer some
      rw [same] at some
      obtain ⟨rfl, rfl, _⟩ := sampleBoot_pointer some
      exact ⟨rfl, rfl⟩
    case marked =>
      intro i sl some
      obtain ⟨_, _, value⟩ := sampleBoot_pointer some
      rw [value]
      refine ⟨⟨start.le, ?_⟩, used 5 (by decide)⟩
      change 5 < sampleImage.superblock.size
      rw [super]
      decide
    case clear =>
      intro b data clear
      have low : 5 ≤ b := start.ge.trans data.1
      have five : b ≠ 5 := by
        rintro rfl
        exact absurd clear (by decide +kernel)
      exact sampleImage_zero (by omega) (by omega) (by omega) five
  case fits =>
    change sampleImage.dataStart ≤ sampleImage.superblock.size
    rw [start, super]
    decide
  case short =>
    change sampleImage.bitmapEnd ≤ _
    unfold Disk.bitmapEnd
    rw [super]
    decide
  case metadata =>
    intro b low
    change b < sampleImage.dataStart at low
    rw [start] at low
    exact used b (by omega)
  case beyond =>
    intro b high _
    change sampleImage.superblock.size ≤ b at high
    rw [super] at high
    change 16 ≤ b at high
    exact sampleImage_zero (by omega) (by omega) (by omega) (by omega)
  case plain =>
    intro i
    rw [sampleBoot_node]
    by_cases small : i < 8
    · rw [if_pos small]
      have all : ∀ i : Fin 8, (sampleImage.stored i).type ≠ T_CHECKED := by
        decide +kernel
      exact all ⟨i, small⟩
    · rw [if_neg small]
      decide
  case dirs =>
    have entries : ∀ e : Fin DPB, direntInum
        (sampleImage.view (sampleImage.stored 1) (.addr 0)) e < 8 := by
      decide +kernel
    intro i _ sl _ e inside
    change _ < sampleImage.superblock.ninodes
    rw [super]
    by_cases none : sampleBoot.pointer i sl = 0
    · have zero : direntInum (sampleBoot.disk.view (sampleBoot.node i) sl) e =
          0 := word16_zero fun _ _ => if_pos none
      rw [zero]
      decide
    · obtain ⟨rfl, rfl, _⟩ := sampleBoot_pointer none
      rw [sampleBoot_node]
      exact entries ⟨e, inside⟩
  case root =>
    change 1 < sampleImage.superblock.ninodes
    rw [super]
    decide
  case idle | fresh => rfl
  case icache | cwd => exact fun _ => rfl
  case ftable => exact fun _ => ⟨rfl, rfl⟩

/-- The path `/a`. -/
def samplePath : List UInt8 := [47, 97]

/-- A file is made, written, closed and removed again. -/
def sampleCalls : List Call :=
  [.start 0, .openFile 0 samplePath (O_CREATE + O_RDWR) true,
    .write 0 [1, 2, 3], .close 0, .unlink 0 samplePath]

theorem sampleCalls_plain : ∀ call ∈ sampleCalls, call.Plain := by
  simp [sampleCalls, Call.Plain, hasFlag]
  decide

theorem sampleBoot_runs {α : Type} {calls : List Call} {show_ : FileSys → α} {value : α}
    (plain : ∀ call ∈ calls, call.Plain)
    (shown : (runCalls calls sampleBoot).toOption.map show_ = some value) :
    ∃ s, runCalls calls sampleBoot = .ok s ∧ show_ s = value ∧
      Reach FileSys.Boot Steps (fun _ call => call.Plain) s := by
  cases run : runCalls calls sampleBoot with
  | error reason =>
    rw [run] at shown
    cases shown
  | ok s =>
    rw [run] at shown
    exact ⟨s, rfl, Option.some.inj shown, reach_runCalls (.start sampleBoot_boot) plain run⟩

theorem sampleCalls_blocks_owned :
    ∃ s, runCalls sampleCalls sampleBoot = .ok s ∧ s.disk.given = [6] ∧
      s.BlocksOwned := by
  have shown : (runCalls sampleCalls sampleBoot).toOption.map
      (fun s => (s.disk.given, s.disk.superblock.size)) = some ([6], 16) := by
    decide +kernel
  obtain ⟨s, run, shown, reached⟩ := sampleBoot_runs sampleCalls_plain shown
  obtain ⟨blocks, size⟩ := Prod.mk.inj shown
  refine ⟨s, run, blocks, (blocks_owned reached).1 ?_⟩
  rw [blocks, size]
  decide

/-- While the file is open, and after a fork. -/
theorem sampleCalls_inodes_counted :
    ∃ s, runCalls (sampleCalls.take 3 ++ [.fork 0 1]) sampleBoot = .ok s ∧
      (s.users 0 : Int) = 2 ∧ (s.users 1 : Int) = 1 := by
  have plain : ∀ call ∈ sampleCalls.take 3 ++ [.fork 0 1], call.Plain := by
    intro call mem
    rcases List.mem_append.mp mem with early | last
    · exact sampleCalls_plain call (List.mem_of_mem_take early)
    · rw [List.mem_singleton.mp last]
      trivial
  have shown : (runCalls (sampleCalls.take 3 ++ [.fork 0 1]) sampleBoot).toOption.map
      (fun s => ((s.icache 0).ref, (s.icache 1).ref)) = some (2, 1) := by
    decide +kernel
  obtain ⟨s, run, shown, reached⟩ := sampleBoot_runs plain shown
  obtain ⟨root, file⟩ := Prod.mk.inj shown
  have counted := (inodes_counted reached).1
  exact ⟨s, run, (counted 0).symm.trans root, (counted 1).symm.trans file⟩

end Xv6.Fs
