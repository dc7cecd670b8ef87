/-
Purpose: The files and directories of the image while mkfs builds it: what
  `ialloc`, `iappend` and the end of `add_dir` do to them.
-/
import Xv6.Proofs.MkfsBlocks

namespace Xv6.Mkfs

open PanicM Fs

variable {Q : Unit → FsImage → Prop}

/-- What the image holds under an inode number. -/
structure Node where
  type : UInt16
  size : Nat
  content : List UInt8

variable {s t : FsImage} {owner owner' : Owner} {nodes : Nat → Node}
  {i j : Nat} {din : Dinode} {E : Exit → Prop}

/-- The image as a disk. -/
def disk (s : FsImage) : Disk :=
  { sectors := s.sectors, held := [], given := [] }

/-- Inode `i` of the image is `node`. -/
structure IsNode (s : FsImage) (owner : Owner) (i : Nat) (node : Node) : Prop where
  type : ((disk s).dinode i).type = node.type
  nlink : ((disk s).dinode i).nlink = 1
  size : ((disk s).dinode i).size = node.size
  stores : Stores s.sectors owner i ((disk s).dinode i) node.content

/-- The image that mkfs has built so far, with as many inodes as the file
system has. -/
structure Built (s : FsImage) (owner : Owner) (nodes : Nat → Node) : Prop where
  pool : Pool s owner
  room : s.freeblock ≤ s.length
  length : s.length = 1024
  inodes : s.freeinode ≤ NINODES
  superblock : s.sectors 1 = superblock 1024 995 NINODES
  node : ∀ i, 1 ≤ i → i < s.freeinode → IsNode s owner i (nodes i)
  owners : ∀ b i idx, owner b = some (i, idx) → 1 ≤ i ∧ i < s.freeinode
  blank : ∀ i, i = 0 ∨ s.freeinode ≤ i → i < NINODES → ((disk s).dinode i).type = 0

/-- An inode is written. -/
def setInode (s : FsImage) (i : Nat) (din : Dinode) : FsImage :=
  { s with sectors := ((disk s).setDinode i din).sectors }

theorem disk_setInode (s : FsImage) (i : Nat) (din : Dinode) :
    disk (setInode s i din) = (disk s).setDinode i din := rfl

theorem i2b_lt (small : i < NINODES) : i2b i < DATA - 2 := by
  simp only [i2b, IPB, NINODES, DATA] at *
  omega

theorem one_ne_i2b (i : Nat) : 1 ≠ i2b i :=
  Nat.ne_of_lt (Nat.lt_of_lt_of_le (by decide) (Nat.le_add_left 2 (i / IPB)))

theorem setInode_sectors {b : Nat} (other : b ≠ i2b i) :
    (setInode s i din).sectors b = s.sectors b :=
  Function.update_of_ne other ..

theorem wp_winode (small : i < NINODES)
    (length : s.length = 1024) (next : Q () (setInode s i din)) : wp (winode i din) Q E s := by
  have block := i2b_lt small
  simp only [DATA] at block
  unfold winode
  rw [wp_bind]
  refine wp_rsect (fun there => wp_wsect there next) fun outside => ?_
  omega

theorem wp_rinode {Q : Dinode → FsImage → Prop} (small : i < NINODES)
    (length : s.length = 1024) (next : Q ((disk s).dinode i) s) : wp (rinode i) Q E s := by
  have block := i2b_lt small
  simp only [DATA] at block
  unfold rinode
  rw [wp_bind]
  refine wp_rsect (fun _ => next) fun outside => ?_
  omega

theorem Pool.setInode (pool : Pool s owner) (small : i < NINODES) :
    Pool (setInode s i din) owner := by
  have block := i2b_lt small
  refine { pool with fresh := ?_ }
  intro b beyond
  have high : s.freeblock ≤ b := beyond
  have low := pool.low
  rw [setInode_sectors (by simp only [DATA] at *; omega)]
  exact pool.fresh b high

theorem Stores.setInode {content : List UInt8} {dn : Dinode}
    (stores : Stores s.sectors owner j dn content) (pool : Pool s owner) (small : i < NINODES) :
    Stores (setInode s i din).sectors owner j dn content := by
  have block := i2b_lt small
  refine Holds.frame stores (fun b idx owned => ?_) (fun _ _ same => same) fun _ _ same => same
  have low := (pool.below owned).1
  exact setInode_sectors (by simp only [DATA] at *; omega)

theorem IsNode.setInode {node : Node} (isNode : IsNode s owner j node)
    (pool : Pool s owner) (small : i < NINODES) (other : j ≠ i) :
    IsNode (setInode s i din) owner j node := by
  have same : (disk (Mkfs.setInode s i din)).dinode j = (disk s).dinode j :=
    Disk.dinode_setDinode_of_ne other (disk s) din
  constructor
  all_goals rw [same]
  · exact isNode.type
  · exact isNode.nlink
  · exact isNode.size
  · exact isNode.stores.setInode pool small

theorem Stores.addrs_lt {content : List UInt8}
    (stores : Stores s.sectors owner i din content) (pool : Pool s owner)
    (room : s.freeblock ≤ 1024) (a : Fin (NDIRECT + 1)) : din.addrs a < 2 ^ 32 := by
  have word : din.words a = din.addrs a := dif_pos a.isLt
  rw [← word]
  by_cases low : (a : Nat) < NDIRECT
  · by_cases present : (a : Nat) < nblocks content.length
    · have owned := stores.there a (.inl present)
      have place : cell s.sectors din a = din.words a := if_pos low
      rw [place] at owned
      have below := (pool.below owned).2
      omega
    · rw [stores.direct_null a (by omega) low]
      decide
  · have last : (a : Nat) = NDIRECT := by omega
    rw [last]
    cases deep : decide (NDIRECT < nblocks content.length) with
    | true =>
      have owned := stores.there MAXFILE (.inr ⟨rfl, deep⟩)
      have below := (pool.below owned).2
      have place : cell s.sectors din MAXFILE = din.words NDIRECT := rfl
      omega
    | false =>
      rw [stores.indirect_null deep]
      decide

theorem Stores.isNode {content : List UInt8}
    (stores : Stores s.sectors owner i din content) (pool : Pool s owner)
    (room : s.freeblock ≤ 1024) (small : i < NINODES) (nlink : din.nlink = 1)
    (size : din.size < 2 ^ 32) :
    IsNode (Mkfs.setInode s i din) owner i ⟨din.type, din.size, content⟩ := by
  have same : (disk (Mkfs.setInode s i din)).dinode i = din := by
    unfold Disk.dinode
    rw [disk_setInode, Disk.setDinode, Disk.setSector_self]
    exact din.load_store size (stores.addrs_lt pool room)
  constructor
  all_goals rw [same]
  · exact nlink
  · exact stores.setInode pool small

theorem Adds.dinode (adds : Adds i s owner t owner') (small : j < NINODES) :
    (disk t).dinode j = (disk s).dinode j := by
  have block := i2b_lt small
  have same : t.sectors (i2b j) = s.sectors (i2b j) :=
    adds.frame _ (.inl (by simp only [DATA] at *; omega))
  exact congrArg (fun sector => Dinode.load sector (dinodeBase j)) same

theorem IsNode.adds {node : Node} (isNode : IsNode s owner j node)
    (adds : Adds i s owner t owner') (small : j < NINODES) (other : j ≠ i) :
    IsNode t owner' j node := by
  have same := adds.dinode small
  constructor
  all_goals rw [same]
  · exact isNode.type
  · exact isNode.nlink
  · exact isNode.size
  · exact Holds.adds isNode.stores adds other

namespace Built

theorem write (din : Dinode) {content : List UInt8} (built : Built s owner nodes)
    (low : 1 ≤ i) (there : i < s.freeinode) (adds : Adds i s owner t owner')
    (pool : Pool t owner') (room : t.freeblock ≤ t.length)
    (stores : Stores t.sectors owner' i din content) (nlink : din.nlink = 1)
    (size : din.size < 2 ^ 32) :
    Built (setInode t i din) owner' (Function.update nodes i ⟨din.type, din.size, content⟩) := by
  have few := built.inodes
  have small : i < NINODES := Nat.lt_of_lt_of_le there few
  have length : t.length = 1024 := adds.length.trans built.length
  have freeinode : (setInode t i din).freeinode = s.freeinode := adds.freeinode
  constructor
  case pool => exact pool.setInode small
  case room => exact room
  case length => exact length
  case inodes =>
    rw [freeinode]
    exact few
  case superblock =>
    rw [setInode_sectors (one_ne_i2b i), adds.frame 1 (.inl (by decide))]
    exact built.superblock
  case node =>
    intro j lowJ thereJ
    rw [freeinode] at thereJ
    by_cases same : j = i
    · rw [same, Function.update_self]
      exact stores.isNode pool (by omega) small nlink size
    · rw [Function.update_of_ne same]
      exact ((built.node j lowJ thereJ).adds adds (by omega) same).setInode pool small same
  case owners =>
    intro b j idx owned
    rw [freeinode]
    by_cases same : j = i
    · rw [same]
      exact ⟨low, there⟩
    · exact built.owners b j idx (adds.grown b j idx owned same)
  case blank =>
    intro j outside smallJ
    rw [freeinode] at outside
    have other : j ≠ i := by omega
    have kept : (disk (setInode t i din)).dinode j = (disk t).dinode j :=
      Disk.dinode_setDinode_of_ne other (disk t) din
    rw [kept, adds.dinode smallJ]
    exact built.blank j outside smallJ

theorem alloc (built : Built s owner nodes) (type : UInt16)
    (some : 1 ≤ s.freeinode) (room : s.freeinode < NINODES) :
    Built (setInode { s with freeinode := s.freeinode + 1 } s.freeinode (newDinode type)) owner
      (Function.update nodes s.freeinode ⟨type, 0, []⟩) := by
  have unowned : ∀ b idx, owner b ≠ .some (s.freeinode, idx) := by
    intro b idx owned
    exact Nat.lt_irrefl _ (built.owners b _ idx owned).2
  have words : ∀ k, (newDinode type).words k = 0 := by
    intro k
    unfold Dinode.words
    split <;> rfl
  have stores : Stores s.sectors owner s.freeinode (newDinode type) [] := by
    constructor
    case few | room => decide
    case there =>
      rintro idx (less | ⟨-, no⟩)
      · exact absurd less (Nat.not_lt_zero idx)
      · exact absurd no (by decide)
    case back => exact fun b idx owned => absurd owned (unowned b idx)
    case large =>
      intro high
      exact absurd high (by decide)
    case small => exact fun _ => by decide
    case direct_null => exact fun idx _ _ => words idx
    case indirect_null => exact fun _ => words NDIRECT
    case entry_null =>
      intro deep
      exact absurd deep (by decide)
    case bytes =>
      intro idx less
      exact absurd less (Nat.not_lt_zero idx)
  have pool : Pool { s with freeinode := s.freeinode + 1 } owner :=
    ⟨built.pool.low, built.pool.fresh, built.pool.owned, built.pool.used⟩
  have fits : s.freeblock ≤ 1024 := built.length ▸ built.room
  constructor
  case pool => exact pool.setInode room
  case room => exact built.room
  case length => exact built.length
  case inodes => exact room
  case superblock =>
    rw [setInode_sectors (one_ne_i2b s.freeinode)]
    exact built.superblock
  case node =>
    intro j lowJ thereJ
    have thereJ' : j < s.freeinode + 1 := thereJ
    by_cases same : j = s.freeinode
    · rw [same, Function.update_self]
      exact Stores.isNode (s := { s with freeinode := s.freeinode + 1 })
        stores pool fits room rfl (Nat.two_pow_pos 32)
    · rw [Function.update_of_ne same]
      have old := built.node j lowJ (by omega)
      have old' : IsNode { s with freeinode := s.freeinode + 1 } owner j
          (nodes j) := ⟨old.type, old.nlink, old.size, old.stores⟩
      exact old'.setInode pool room same
  case owners =>
    intro b j idx owned
    have old := built.owners b j idx owned
    exact ⟨old.1, Nat.lt_succ_of_lt old.2⟩
  case blank =>
    intro j outside smallJ
    have outside' : j = 0 ∨ s.freeinode + 1 ≤ j := outside
    have other : j ≠ s.freeinode := by omega
    have kept : (disk (setInode { s with freeinode := s.freeinode + 1 }
        s.freeinode (newDinode type))).dinode j = (disk s).dinode j :=
      Disk.dinode_setDinode_of_ne other (disk s) _
    rw [kept]
    exact built.blank j (by omega) smallJ

end Built

/-! ## The operations of mkfs -/

theorem wp_ialloc {Q : Nat → FsImage → Prop} (type : UInt16)
    (built : Built s owner nodes) (some : 1 ≤ s.freeinode) (room : s.freeinode < NINODES)
    (next : ∀ t, Built t owner (Function.update nodes s.freeinode ⟨type, 0, []⟩) →
      t.freeinode = s.freeinode + 1 → t.freeblock = s.freeblock →
      Q s.freeinode t) : wp (ialloc type) Q E s := by
  unfold ialloc
  rw [wp_bind, wp_get, wp_bind, wp_set, wp_bind]
  refine wp_winode room built.length ?_
  exact next _ (built.alloc type some room) rfl rfl

theorem wp_fixSize (built : Built s owner nodes) (low : 1 ≤ i) (there : i < s.freeinode)
    (small : (nodes i).size < 2 ^ 31) (next : ∀ t, Built t owner (Function.update nodes i
        ⟨(nodes i).type, ((nodes i).size / BSIZE + 1) * BSIZE, (nodes i).content⟩) →
      t.freeinode = s.freeinode → t.freeblock = s.freeblock → Q () t) : wp (fixSize i) Q E s := by
  have less : i < NINODES := Nat.lt_of_lt_of_le there built.inodes
  have node := built.node i low there
  unfold fixSize
  rw [wp_bind]
  refine wp_rinode less built.length ?_
  refine wp_winode less built.length ?_
  have after := built.write
    { (disk s).dinode i with
      size := (((disk s).dinode i).size / BSIZE + 1) * BSIZE } low there
    (.refl i s owner) built.pool built.room (node.stores.inode rfl) node.nlink
    (by
      simp only [node.size, BSIZE]
      omega)
  refine next _ ?_ rfl rfl
  rw [← node.type, ← node.size]
  exact after

theorem Built.unchanged (built : Built s owner nodes)
    (size : (nodes i).size = (nodes i).content.length) :
    Built s owner (Function.update nodes i
      ⟨(nodes i).type, (nodes i).content.length + ([] : List UInt8).length,
        (nodes i).content ++ []⟩) := by
  have same : (⟨(nodes i).type, (nodes i).content.length, (nodes i).content
      ⟩ : Node) = nodes i := by rw [← size]
  rw [List.append_nil, List.length_nil, Nat.add_zero, same, Function.update_eq_self]
  exact built

section Append

variable (bytes : List UInt8) (built : Built s owner nodes) (low : 1 ≤ i) (there : i < s.freeinode)
  (size : (nodes i).size = (nodes i).content.length)
  (fails : Full s (nodes i).content bytes.length → ∀ reason, E reason)
  (next : ∀ t owner', Built t owner' (Function.update nodes i
      ⟨(nodes i).type, (nodes i).content.length + bytes.length, (nodes i).content ++ bytes⟩) →
    t.freeinode = s.freeinode →
    t.freeblock + blocks (nblocks (nodes i).content.length) =
      s.freeblock + blocks (nblocks ((nodes i).content.length + bytes.length)) →
    Q () t)
include built low there size fails next

/-- `iappend` adds bytes to a file whose size is that of its content. -/
theorem wp_iappend : wp (iappend i bytes) Q E s := by
  have length := built.length
  have small : i < NINODES := Nat.lt_of_lt_of_le there built.inodes
  have node := built.node i low there
  unfold iappend
  rw [wp_bind]
  refine wp_rinode small length ?_
  rw [wp_bind, node.size, size]
  refine wp_appendLoop bytes.length bytes (Nat.le_refl _) built.pool node.stores
    built.room (by omega) fails ?_
  intro din t owner' appended
  obtain ⟨addrs, same⟩ := appended.rest
  have type : din.type = (nodes i).type := by
    rw [same]
    exact node.type
  have nlink : din.nlink = 1 := by
    rw [same]
    exact node.nlink
  have count := appended.count
  have few := appended.stores.few
  have total : ((nodes i).content ++ bytes).length =
      (nodes i).content.length + bytes.length := List.length_append
  rw [total] at count
  have fits : (nodes i).content.length + bytes.length < 2 ^ 32 := by
    unfold nblocks at few
    rw [total] at few
    simp only [MAXFILE, NDIRECT, NINDIRECT] at few
    omega
  simp only
  refine wp_winode small (appended.adds.length.trans length) ?_
  have after := built.write
    { din with size := (nodes i).content.length + bytes.length } low there
    appended.adds appended.pool appended.room (appended.stores.inode rfl)
    nlink fits
  refine next _ owner' ?_ appended.adds.freeinode count
  rw [← type]
  exact after

theorem wp_addFile (fuel : Nat) (enough : bytes.length ≤ 512 * fuel) :
    wp (addFile i fuel bytes) Q E s := by
  induction fuel generalizing s owner nodes bytes with
  | zero =>
    have empty : bytes = [] := List.length_eq_zero_iff.mp (by omega)
    subst empty
    exact next s owner (built.unchanged size) rfl rfl
  | succ fuel ih =>
    unfold addFile
    by_cases empty : bytes = []
    · subst empty
      rw [if_pos rfl, wp_pure]
      exact next s owner (built.unchanged size) rfl rfl
    · rw [if_neg empty, wp_bind]
      have some : 0 < bytes.length := List.length_pos_iff.mpr empty
      have first : (bytes.take 512).length = min 512 bytes.length := List.length_take
      have left : (bytes.drop 512).length = bytes.length - 512 := List.length_drop
      have whole : (bytes.take 512).length + (bytes.drop 512).length = bytes.length := by omega
      have mono := blocks_nblocks_mono ((nodes i).content.length + (bytes.take 512).length)
        (bytes.drop 512).length
      rw [Nat.add_assoc, whole] at mono
      refine wp_iappend _ built low there size ?_ ?_
      · intro full
        refine fails ?_
        unfold Full at full ⊢
        omega
      · intro t owner' after freeinode count
        have room := after.room
        have length := after.length
        have length' := built.length
        rw [← freeinode] at there
        refine ih (bytes.drop 512) after there ?_ ?_ ?_ (by omega)
        all_goals rw [Function.update_self]
        · exact List.length_append.symm
        · intro full
          refine fails ?_
          unfold Full at full ⊢
          simp only [List.length_append, Nat.add_assoc] at full
          rw [whole] at full
          omega
        · intro u owner'' built' freeinode' count'
          simp only [Function.update_idem, List.length_append, Nat.add_assoc,
            List.append_assoc, List.take_append_drop, whole]
            at built' count'
          refine next u owner'' built' (freeinode'.trans freeinode) ?_
          omega

end Append

end Xv6.Mkfs
