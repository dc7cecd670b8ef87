/-
Purpose: mkfs encodes a directory tree of the host: every file and directory
  gets the next inode number, and a directory holds the entries of what is in
  it.
-/
import Xv6.Proofs.MkfsNodes

namespace Xv6

open Fs Mkfs
open Function (update update_self update_of_ne update_idem)

namespace Entries

/-- Files and directories below a directory. -/
def count : Entries → Nat
  | .nil => 0
  | .file _ _ rest => 1 + rest.count
  | .dir _ children rest => 1 + children.count + rest.count

/-- Entries of a directory, without `.` and `..`. -/
def number : Entries → Nat
  | .nil => 0
  | .file _ _ rest => 1 + rest.number
  | .dir _ _ rest => 1 + rest.number

/-- The entries as they are on disk, when inode `next` is the first free
one. -/
def dirents (next : Nat) : Entries → List UInt8
  | .nil => []
  | .file name _ rest => dirent next name ++ rest.dirents (next + 1)
  | .dir name children rest =>
    dirent next name ++ rest.dirents (next + 1 + children.count)

/-- Blocks of a directory. -/
def dirBlocks (entries : Entries) : Nat :=
  blocks (nblocks (32 + 16 * entries.number))

/-- Blocks that files and directories below a directory take. -/
def cost : Entries → Nat
  | .nil => 0
  | .file _ bytes rest => blocks (nblocks bytes.length) + rest.cost
  | .dir _ children rest => children.dirBlocks + children.cost + rest.cost

/-- No file and no directory is too large. -/
def Small : Entries → Prop
  | .nil => True
  | .file _ bytes rest => bytes.length ≤ MAXFILE * 512 ∧ rest.Small
  | .dir _ children rest =>
    32 + 16 * children.number ≤ MAXFILE * 512 ∧ children.Small ∧ rest.Small

theorem number_le_count (entries : Entries) : entries.number ≤ entries.count := by
  induction entries with
  | nil => exact Nat.le_refl 0
  | file name bytes rest ih =>
    unfold number count
    omega
  | dir name children rest _ ih =>
    unfold number count
    omega

theorem length_dirents (entries : Entries) (next : Nat) :
    (entries.dirents next).length = 16 * entries.number := by
  induction entries generalizing next with
  | nil => rfl
  | file name bytes rest ih | dir name children rest _ ih =>
    unfold dirents number
    rw [List.length_append, length_dirent, ih]
    omega

end Entries

namespace Mkfs

open PanicM Entries

variable {nodes' : Nat → Node} {Q : Unit → FsImage → Prop} {t : FsImage} {rest : Entries} {b : Nat}

/-- The first two entries of a directory. -/
def dots (cur parent : Nat) : List UInt8 :=
  dirent cur [46] ++ dirent parent [46, 46]

/-- The directory `cur` below `parent`, whose entries start with inode
`next`. -/
def dirNode (cur parent next : Nat) (entries : Entries) : Node where
  type := T_DIR
  size := ((32 + 16 * entries.number) / BSIZE + 1) * BSIZE
  content := dots cur parent ++ entries.dirents next

/-- What the entries of directory `cur` name is in the image, numbered from
`next` on. -/
def Encodes (nodes : Nat → Node) (next cur : Nat) : Entries → Prop
  | .nil => True
  | .file _ bytes rest =>
    nodes next = ⟨T_FILE, bytes.length, bytes⟩ ∧ Encodes nodes (next + 1) cur rest
  | .dir _ children rest =>
    nodes next = dirNode next cur (next + 1) children ∧ Encodes nodes (next + 1) next children ∧
      Encodes nodes (next + 1 + children.count) cur rest

theorem Encodes.congr {nodes : Nat → Node} {next cur : Nat}
    {entries : Entries} (encodes : Encodes nodes next cur entries)
    (same : ∀ i, next ≤ i → i < next + entries.count → nodes' i = nodes i) :
    Encodes nodes' next cur entries := by
  induction entries generalizing next cur with
  | nil => trivial
  | file name bytes rest ih =>
    unfold count at same
    refine ⟨(same next le_rfl (by omega)).trans encodes.1, ?_⟩
    exact ih encodes.2 fun i low high => same i (by omega) (by omega)
  | dir name children rest ihChildren ihRest =>
    unfold count at same
    refine ⟨(same next le_rfl (by omega)).trans encodes.1, ?_, ?_⟩
    · exact ihChildren encodes.2.1 fun i low high =>
        same i (by omega) (by omega)
    · exact ihRest encodes.2.2 fun i low high =>
        same i (by omega) (by omega)

variable {s : FsImage} {owner : Owner} {nodes : Nat → Node} {cur : Nat}
  {E : Exit → Prop}

/-- The entries find room: in the image, and in directory `cur`, which has
`length` bytes. -/
structure Room (s : FsImage) (length : Nat) (entries : Entries) : Prop where
  small : entries.Small
  inside : length + 16 * entries.number ≤ MAXFILE * 512
  image : s.freeblock + entries.cost + blocks (nblocks (length + 16 * entries.number)) ≤
    s.length + blocks (nblocks length)

/-- What the loop of `add_dir` leaves. -/
structure Added (cur : Nat) (s : FsImage) (nodes : Nat → Node)
    (entries : Entries) (t : FsImage) (owner : Owner) (nodes' : Nat → Node) :
    Prop where
  built : Built t owner nodes'
  freeinode : t.freeinode = s.freeinode + entries.count
  count : t.freeblock + blocks (nblocks (nodes cur).content.length) = s.freeblock + entries.cost +
      blocks (nblocks ((nodes cur).content.length + 16 * entries.number))
  dir : nodes' cur = ⟨(nodes cur).type, (nodes cur).content.length + 16 * entries.number,
    (nodes cur).content ++ entries.dirents s.freeinode⟩
  kept : ∀ i, i < s.freeinode → i ≠ cur → nodes' i = nodes i
  encodes : Encodes nodes' s.freeinode cur entries

theorem wp_addDots (parent : Nat)
    (built : Built s owner nodes) (low : 1 ≤ cur) (there : cur < s.freeinode)
    (empty : nodes cur = ⟨T_DIR, 0, []⟩) (fails : s.length < s.freeblock + 1 → ∀ reason, E reason)
    (next : ∀ t owner', Built t owner' (update nodes cur ⟨T_DIR, 32, dots cur parent⟩) →
      t.freeinode = s.freeinode → t.freeblock = s.freeblock + 1 → Q () t) :
    wp (addDots cur parent) Q E s := by
  have size : (nodes cur).size = (nodes cur).content.length := by rw [empty]; rfl
  have one : blocks (nblocks 16) = 1 ∧ blocks (nblocks (16 + 16)) = 1 ∧
      blocks (nblocks 0) = 0 := by decide
  have maxfile : MAXFILE * 512 = 71680 := rfl
  unfold addDots
  rw [wp_bind]
  refine wp_iappend _ built low there size ?_ ?_
  · intro full
    refine fails ?_
    unfold Full at full
    rw [empty, length_dirent] at full
    simp only [List.length_nil, Nat.zero_add] at full
    omega
  · intro t owner' after freeinode count
    rw [empty, length_dirent] at after count
    simp only [List.length_nil, Nat.zero_add, List.nil_append] at after count
    have room := after.room
    have length := after.length
    rw [← freeinode] at there
    refine wp_iappend _ after low there ?_ ?_ ?_
    · rw [update_self]
      exact (length_dirent cur [46]).symm
    · intro full
      exfalso
      unfold Full at full
      rw [update_self] at full
      simp only [length_dirent] at full
      omega
    · intro u owner'' done freeinode' count'
      rw [update_self] at done count'
      simp only [length_dirent, update_idem] at done count'
      refine next u owner'' done (freeinode'.trans freeinode) ?_
      omega

/-- An entry is appended and the loop goes on, which `ih` is about. -/
theorem wp_addEntry {inum : Nat} (name : List UInt8)
    (ih : ∀ {s owner nodes} {Q : Unit → FsImage → Prop}, Built s owner nodes →
      cur < s.freeinode → (nodes cur).size = (nodes cur).content.length →
      s.freeinode + rest.count ≤ NINODES →
      (¬ Room s (nodes cur).content.length rest → ∀ reason, E reason) →
      (∀ t owner' nodes', Added cur s nodes rest t owner' nodes' → Q () t) →
      wp (addEntries cur rest) Q E s)
    (built : Built s owner nodes) (low : 1 ≤ cur) (there : cur < s.freeinode) {node : Node}
    (here : nodes cur = node) (size : node.size = node.content.length)
    (inodes : s.freeinode + rest.count ≤ NINODES)
    (fails : ¬ (rest.Small ∧ node.content.length + 16 * (1 + rest.number) ≤ MAXFILE * 512 ∧
      s.freeblock + rest.cost + blocks (nblocks (node.content.length + 16 * (1 + rest.number))) ≤
        s.length + blocks (nblocks node.content.length)) → ∀ reason, E reason)
    (next : ∀ t owner' nodes', Built t owner' nodes' → t.freeinode = s.freeinode + rest.count →
      t.freeblock + blocks (nblocks node.content.length) = s.freeblock + rest.cost +
        blocks (nblocks (node.content.length + 16 * (1 + rest.number))) →
      nodes' cur = ⟨node.type, node.content.length + 16 * (1 + rest.number),
        node.content ++ (dirent inum name ++ rest.dirents s.freeinode)⟩ →
      (∀ i, i < s.freeinode → i ≠ cur → nodes' i = nodes i) →
      Encodes nodes' s.freeinode cur rest → Q () t) :
    wp (do iappend cur (dirent inum name); addEntries cur rest) Q E s := by
  have total : node.content.length + 16 + 16 * rest.number =
      node.content.length + 16 * (1 + rest.number) := by omega
  have mono := total ▸ blocks_nblocks_mono (node.content.length + 16) (16 * rest.number)
  rw [wp_bind]
  refine wp_iappend _ built low there (here ▸ size) ?_ ?_
  · intro full
    refine fails fun ⟨_, inside, image⟩ => ?_
    unfold Full at full
    rw [here, length_dirent] at full
    omega
  · intro t owner' after freeinode count
    rw [here, length_dirent] at after count
    have length := after.length.trans built.length.symm
    rw [← freeinode] at there inodes next
    refine ih after there ?_ inodes ?_ ?_
    · simp only [update_self, List.length_append, length_dirent]
    · simp only [update_self, List.length_append, length_dirent]
      refine fun tight => fails fun ⟨small, inside, image⟩ => tight ⟨small, total ▸ inside, ?_⟩
      rw [total]
      omega
    · intro u owner'' nodes' added
      have dir := added.dir
      have after := added.count
      simp only [update_self, List.length_append, length_dirent, total, List.append_assoc]
        at dir after
      refine next u owner'' nodes' added.built added.freeinode (by omega) dir ?_ added.encodes
      intro i old other
      rw [added.kept i old other, update_of_ne other]

theorem wp_addEntries (entries : Entries)
    (built : Built s owner nodes) (low : 1 ≤ cur) (there : cur < s.freeinode)
    (size : (nodes cur).size = (nodes cur).content.length)
    (inodes : s.freeinode + entries.count ≤ NINODES)
    (fails : ¬ Room s (nodes cur).content.length entries → ∀ reason, E reason)
    (next : ∀ t owner' nodes', Added cur s nodes entries t owner' nodes' → Q () t) :
    wp (addEntries cur entries) Q E s := by
  induction entries generalizing s owner nodes cur Q with
  | nil =>
    refine next s owner nodes ⟨built, rfl, rfl, ?_, fun _ _ _ => rfl, trivial⟩
    unfold dirents
    rw [List.append_nil]
    exact congrArg (fun size => (⟨(nodes cur).type, size, (nodes cur).content⟩ : Node)) size
  | file name bytes rest ih =>
    unfold count at inodes
    have child : cur ≠ s.freeinode := Nat.ne_of_lt there
    have mono := blocks_nblocks_mono (nodes cur).content.length (16 * (1 + rest.number))
    unfold addEntries
    rw [wp_bind]
    refine wp_ialloc T_FILE built (by omega) (by omega) ?_
    intro s1 built1 freeinode1 freeblock1
    have length1 := built1.length.trans built.length.symm
    have empty : update nodes s.freeinode ⟨T_FILE, 0, []⟩
        s.freeinode = ⟨T_FILE, 0, []⟩ := update_self ..
    rw [wp_bind]
    refine wp_addFile bytes built1 (by omega) (by omega) ?_ ?_ ?_ _ (by omega)
    · rw [empty]
      rfl
    · intro full
      refine fails fun room => ?_
      have image := room.image
      have fits := room.small.1
      unfold Full at full
      rw [empty] at full
      simp only [List.length_nil, Nat.zero_add] at full
      have zero : blocks (nblocks 0) = 0 := by decide
      unfold cost number at image
      omega
    · intro s2 owner2 built2 freeinode2 count2
      rw [empty] at built2 count2
      simp only [List.length_nil, Nat.zero_add, List.nil_append, update_idem] at built2 count2
      have length2 := built2.length.trans built.length.symm
      have zero : blocks (nblocks 0) = 0 := by decide
      have same : update nodes s.freeinode ⟨T_FILE, bytes.length, bytes⟩ cur = nodes cur :=
        update_of_ne child ..
      refine wp_addEntry name (fun built there => ih built low there) built2 low (by omega) same
        size (by omega) ?_ ?_
      · refine fun tight => fails fun room => tight ⟨room.small.2, room.inside, ?_⟩
        have image := room.image
        simp only [cost, number] at image
        omega
      · intro t owner' nodes' built freeinode count dir kept encodes
        rw [freeinode2, freeinode1] at dir kept encodes
        refine next t owner' nodes' ⟨built, ?_, ?_, dir, ?_, ?_, encodes⟩
        · simp only [Entries.count]
          omega
        · simp only [cost, number]
          omega
        · intro i old other
          rw [kept i (by omega) other, update_of_ne (Nat.ne_of_lt old)]
        · rw [kept s.freeinode (by omega) (Ne.symm child), update_self]
  | dir name children rest ihChildren ihRest =>
    unfold count at inodes
    have child : cur ≠ s.freeinode := Nat.ne_of_lt there
    have one : blocks (nblocks 32) = 1 ∧ blocks (nblocks 0) = 0 := by decide
    have mono := blocks_nblocks_mono (nodes cur).content.length (16 * (1 + rest.number))
    have mono' := blocks_nblocks_mono 32 (16 * children.number)
    unfold addEntries
    rw [wp_bind]
    refine wp_ialloc T_DIR built (by omega) (by omega) ?_
    intro s1 built1 freeinode1 freeblock1
    have length1 := built1.length.trans built.length.symm
    rw [wp_bind]
    refine wp_addDots cur built1 (by omega) (by omega) (update_self ..) ?_ ?_
    · intro full
      refine fails fun room => ?_
      have image := room.image
      simp only [cost, dirBlocks, number] at image
      omega
    · intro s2 owner2 built2 freeinode2 freeblock2
      rw [update_idem] at built2
      have length2 := built2.length.trans built.length.symm
      have made : update nodes s.freeinode ⟨T_DIR, 32, dots s.freeinode cur⟩ s.freeinode =
          ⟨T_DIR, 32, dots s.freeinode cur⟩ := update_self ..
      have dotsLength : (dots s.freeinode cur).length = 32 := by
        unfold dots
        rw [List.length_append, length_dirent, length_dirent]
      rw [wp_bind]
      refine ihChildren built2 (by omega) (by omega) ?_ (by omega) ?_ ?_
      · rw [made]
        exact dotsLength.symm
      · rw [made]
        simp only [dotsLength]
        intro tight
        refine fails fun room => tight ⟨room.small.2.1, room.small.1, ?_⟩
        have image := room.image
        simp only [cost, dirBlocks, number] at image
        omega
      · intro s3 owner3 nodes3 added
        have dir3 := added.dir
        have count3 := added.count
        have kept3 := added.kept
        have encodes3 := added.encodes
        have freeinode3 := added.freeinode
        have length3 := added.built.length.trans built.length.symm
        have two : s2.freeinode = s.freeinode + 1 := by omega
        rw [made] at dir3 count3
        rw [two] at dir3 kept3 encodes3
        simp only [dotsLength] at dir3 count3
        have parent3 : nodes3 cur = nodes cur := by
          rw [kept3 cur (by omega) child, update_of_ne child]
        have few := number_le_count children
        have ninodes : NINODES = 200 := rfl
        rw [wp_bind]
        refine wp_fixSize added.built (by omega) (by omega) ?_ ?_
        · rw [dir3]
          simp only
          omega
        · rw [dir3]
          intro s4 built4 freeinode4 freeblock4
          have length4 := built4.length.trans built.length.symm
          have same : update nodes3 s.freeinode
              (dirNode s.freeinode cur (s.freeinode + 1) children) cur =
              nodes cur :=
            (update_of_ne child ..).trans parent3
          change Built s4 owner3 (update nodes3 s.freeinode
            (dirNode s.freeinode cur (s.freeinode + 1) children)) at built4
          refine wp_addEntry name (fun built there => ihRest built low there) built4 low
            (by omega) same size (by omega) ?_ ?_
          · refine fun tight => fails fun room => tight ⟨room.small.2.2, room.inside, ?_⟩
            have image := room.image
            simp only [cost, dirBlocks, number] at image
            omega
          · intro t owner' nodes' built freeinode count dir kept encodes
            have four : s4.freeinode = s.freeinode + 1 + children.count := by omega
            rw [four] at dir kept encodes
            refine next t owner' nodes' ⟨built, ?_, ?_, dir, ?_, ?_, ?_, encodes⟩
            · simp only [Entries.count]
              omega
            · simp only [cost, dirBlocks, number]
              omega
            · intro i old other
              have older := Nat.ne_of_lt old
              rw [kept i (by omega) other, update_of_ne older,
                kept3 i (by omega) older, update_of_ne older]
            · rw [kept s.freeinode (by omega) (Ne.symm child), update_self]
            · refine encodes3.congr fun i above below => ?_
              rw [kept i (by omega) (by omega), update_of_ne (by omega)]

/-- The whole tree finds room. -/
structure Fits (entries : Entries) : Prop where
  small : entries.Small
  root : 32 + 16 * entries.number ≤ MAXFILE * 512
  image : DATA + entries.dirBlocks + entries.cost ≤ 1024

/-- The image that mkfs leaves for the tree. -/
structure Finished (entries : Entries) (s : FsImage) (owner : Owner)
    (nodes : Nat → Node) : Prop where
  built : Built s owner nodes
  freeinode : s.freeinode = 2 + entries.count
  root : nodes ROOTINO = dirNode ROOTINO ROOTINO 2 entries
  encodes : Encodes nodes 2 ROOTINO entries
  bitmap : s.sectors (NINODES / IPB + 3) = bitmap s.freeblock

/-- The image after `mkfs`. -/
def blankImage : FsImage where
  sectors := update (fun _ _ => 0) 1 (superblock 1024 995 NINODES)
  length := 1024
  freeinode := 1
  freeblock := DATA
  usedblocks := DATA

theorem wp_mkfs (next : Q () blankImage) : wp (mkfs 995 NINODES 1024) Q E start := by
  unfold mkfs assert wsect
  exact next

theorem blankImage_sectors (other : b ≠ 1) : blankImage.sectors b = fun _ => 0 := by
  unfold blankImage
  dsimp only
  rw [update_of_ne other]

theorem built_blankImage (nodes : Nat → Node) : Built blankImage (fun _ => none) nodes where
  pool := by
    refine ⟨Nat.le_refl _, ?_, ?_, rfl⟩
    · intro b high o _
      have other : b ≠ 1 := by
        rintro rfl
        exact absurd high (by decide)
      rw [blankImage_sectors other]
    · intro b
      refine ⟨fun no => absurd rfl no, fun inside => ?_⟩
      exact absurd (inside.1.trans_lt inside.2) (Nat.lt_irrefl _)
  room := by decide
  length := rfl
  inodes := by decide
  superblock := by
    unfold blankImage
    exact update_self 1 (superblock 1024 995 NINODES) fun _ _ => 0
  node := fun i low below => absurd low (Nat.not_le.mpr below)
  owners := nofun
  blank := by
    intro i _ _
    change UInt16.ofNat (Bytes.word16 (blankImage.sectors (i2b i)) _) = 0
    rw [blankImage_sectors (one_ne_i2b i).symm]
    rfl

/-- The image with another bitmap block. -/
def setBitmap (s : FsImage) (buf : Bytes.Store) : FsImage :=
  { s with
    sectors := update s.sectors (NINODES / IPB + 3) buf }

theorem setBitmap_sectors (buf : Bytes.Store) (other : b ≠ NINODES / IPB + 3) :
    (setBitmap s buf).sectors b = s.sectors b :=
  update_of_ne other ..

theorem Built.setBitmap (built : Built s owner nodes) (buf : Bytes.Store) :
    Built (setBitmap s buf) owner nodes := by
  have data : ∀ b, DATA ≤ b → (Mkfs.setBitmap s buf).sectors b = s.sectors b := by
    intro b high
    refine setBitmap_sectors buf ?_
    rintro rfl
    exact absurd high (by decide)
  have same : ∀ i, i < NINODES → (disk (Mkfs.setBitmap s buf)).dinode i = (disk s).dinode i := by
    intro i small
    have block := i2b_lt small
    have sector : (Mkfs.setBitmap s buf).sectors (i2b i) = s.sectors (i2b i) := by
      refine setBitmap_sectors buf ?_
      simp only [DATA, NINODES, IPB] at block ⊢
      omega
    exact congrArg (fun sector => Dinode.load sector (dinodeBase i)) sector
  refine { built with pool := ?_, superblock := ?_, node := ?_, blank := ?_ }
  · refine { built.pool with fresh := ?_ }
    intro b high
    have low := built.pool.low
    rw [data b (low.trans high)]
    exact built.pool.fresh b high
  · rw [setBitmap_sectors buf (by decide)]
    exact built.superblock
  · intro i low there
    have isNode := built.node i low there
    have small := there.trans_le built.inodes
    constructor
    all_goals rw [same i small]
    · exact isNode.type
    · exact isNode.nlink
    · exact isNode.size
    · exact Holds.frame isNode.stores (fun b idx owned => data b (built.pool.below owned).1)
        (fun _ _ owned => owned) fun _ _ owned => owned
  · intro i outside small
    rw [same i small]
    exact built.blank i outside small

/-- `main` on a tree that has not too many files and directories. -/
theorem wp_main (entries : Entries) (few : 2 + entries.count ≤ NINODES)
    (fails : ¬ Fits entries → ∀ reason, E reason)
    (next : ∀ t owner nodes, Finished entries t owner nodes → Q () t) :
    wp (main entries) Q E start := by
  have one : blocks (nblocks 32) = 1 := by decide
  have ninodes : NINODES = 200 := rfl
  have number := number_le_count entries
  have mono := blocks_nblocks_mono 32 (16 * entries.number)
  unfold main
  rw [wp_bind]
  refine wp_mkfs ?_
  rw [wp_bind]
  refine wp_ialloc T_DIR (built_blankImage fun _ => ⟨0, 0, []⟩) (by decide) (by decide) ?_
  intro s1 built1 freeinode1 freeblock1
  have length1 := built1.length
  have first : blankImage.freeinode = 1 := rfl
  have blocks1 : s1.freeblock = DATA := freeblock1
  rw [first] at built1 freeinode1 ⊢
  unfold assert
  rw [wp_bind, wp_ite]
  refine ⟨fun _ => ?_, fun other => absurd rfl other⟩
  rw [wp_pure, wp_bind]
  unfold addDir
  rw [wp_bind]
  refine wp_addDots 1 built1 (by decide) (by omega) (update_self ..) ?_ ?_
  · intro full
    refine fails fun fits => ?_
    have image := fits.image
    unfold dirBlocks at image
    omega
  · intro s2 owner2 built2 freeinode2 freeblock2
    have length2 := built2.length
    have dotsLength : (dots 1 1).length = 32 := rfl
    rw [wp_bind]
    refine wp_addEntries entries built2 (by decide) (by omega) ?_ (by omega) ?_ ?_
    · rw [update_self]
      rfl
    · rw [update_self]
      simp only [dotsLength]
      intro tight
      refine fails fun fits => tight ⟨fits.small, fits.root, ?_⟩
      have image := fits.image
      unfold dirBlocks at image
      omega
    · intro s3 owner3 nodes3 added
      have dir3 := added.dir
      have encodes3 := added.encodes
      have freeinode3 := added.freeinode
      rw [update_self] at dir3
      rw [freeinode2, freeinode1] at dir3 encodes3
      simp only [dotsLength] at dir3
      refine wp_fixSize added.built (by decide) (by omega) ?_ ?_
      · rw [dir3]
        simp only
        omega
      · rw [dir3]
        intro s4 built4 freeinode4 freeblock4
        have room := built4.room
        have length4 := built4.length
        have used := built4.pool.used
        rw [wp_bind, wp_get]
        unfold Mkfs.balloc assert
        rw [wp_bind, wp_ite]
        refine ⟨fun _ => ?_, fun other => absurd other (by omega)⟩
        rw [wp_pure]
        have inside : NINODES / IPB + 3 < s4.length := by
          rw [length4]
          decide
        refine wp_wsect inside ?_
        refine next (setBitmap s4 (bitmap s4.usedblocks)) owner3 _
          ⟨built4.setBitmap _, ?_, update_self .., ?_, ?_⟩
        · change s4.freeinode = _
          omega
        · exact encodes3.congr fun i low _ =>
            update_of_ne (by omega) ..
        · rw [used]
          unfold setBitmap
          dsimp only
          rw [update_self]

end Mkfs

end Xv6
