/-
Purpose: The image of mkfs as the kernel reads it: the pointers of its inodes,
  the bytes behind them, and the entries of its directories.
-/
import Xv6.Proofs.MkfsTree
import Xv6.Proofs.FsRead

namespace Xv6

open Fs Mkfs

/-! ## Entries as records -/

/-- Entries of a directory as inode numbers and names, when inode `next` is
the first free one. -/
def Entries.list (next : Nat) : Entries → List (Nat × List UInt8)
  | .nil => []
  | .file name _ rest => (next, name) :: rest.list (next + 1)
  | .dir name children rest =>
    (next, name) :: rest.list (next + 1 + children.count)

theorem Entries.length_list (entries : Entries) (next : Nat) :
    (entries.list next).length = entries.number := by
  induction entries generalizing next with
  | nil => rfl
  | file name bytes rest ih | dir name children rest _ ih =>
    simp only [list, number, List.length_cons, ih]
    omega

/-- Numbers given to entries lie in the numbers used for the tree. -/
theorem Entries.mem_list {entries : Entries} {next : Nat}
    {entry : Nat × List UInt8} (mem : entry ∈ entries.list next) :
    next ≤ entry.1 ∧ entry.1 < next + entries.count := by
  induction entries generalizing next with
  | nil => cases mem
  | file name bytes rest ih | dir name children rest _ ih =>
    simp only [list, List.mem_cons, count] at mem ⊢
    rcases mem with rfl | mem
    · dsimp only
      omega
    · have inside := ih mem
      omega

namespace Mkfs

/-- All entries of a directory. -/
def records (cur parent next : Nat) (entries : Entries) : List (Nat × List UInt8) :=
  (cur, [46]) :: (parent, [46, 46]) :: entries.list next

/-- Records one after the other. -/
def encode (entries : List (Nat × List UInt8)) : List UInt8 :=
  entries.flatMap fun entry => dirent entry.1 entry.2

theorem encode_list (entries : Entries) (next : Nat) :
    encode (entries.list next) = entries.dirents next := by
  induction entries generalizing next with
  | nil => rfl
  | file name bytes rest ih | dir name children rest _ ih =>
    simp only [Entries.list, Entries.dirents, ← ih]
    exact List.flatMap_cons

theorem dirNode_content (cur parent next : Nat) (entries : Entries) :
    (dirNode cur parent next entries).content = encode (records cur parent next entries) := by
  unfold dirNode dots records
  rw [← encode_list, List.append_assoc]
  unfold encode
  rw [List.flatMap_cons, List.flatMap_cons]

/-- A byte of the records; beyond the end there are empty records. -/
theorem getD_encode (entries : List (Nat × List UInt8)) (k : Nat) {o : Nat} (small : o < 16) :
    (encode entries).getD (16 * k + o) 0 =
      (dirent (entries.getD k (0, [])).1 (entries.getD k (0, [])).2).getD o
        0 := by
  induction entries generalizing k with
  | nil =>
    have zero : ∀ o < 16, (dirent 0 []).getD o 0 = 0 := by decide
    exact (zero o small).symm
  | cons entry rest ih =>
    have split : encode (entry :: rest) = dirent entry.1 entry.2 ++ encode rest := List.flatMap_cons
    have length := length_dirent entry.1 entry.2
    rw [split]
    cases k with
    | zero =>
      rw [List.getD_append _ _ _ _ (by omega), Nat.mul_zero, Nat.zero_add]
      rfl
    | succ k =>
      rw [List.getD_append_right _ _ _ _ (by omega)]
      have shift : 16 * (k + 1) + o - (dirent entry.1 entry.2).length = 16 * k + o := by omega
      rw [shift, ih k]
      rfl

theorem getD_dirent_inum (inum : Nat) (name : List UInt8) :
    (dirent inum name).getD 0 0 = UInt8.ofNat inum ∧
      (dirent inum name).getD 1 0 = UInt8.ofNat (inum / 256) := ⟨rfl, rfl⟩

theorem getD_dirent_name (inum : Nat) (name : List UInt8) {o : Nat}
    (small : o < DIRSIZ) : (dirent inum name).getD (2 + o) 0 = name.getD o 0 := by
  unfold dirent strncpy
  rw [List.getD_append_right _ _ _ _ (Nat.le_add_right 2 o)]
  have shift : 2 + o - (Bytes.le16 inum).length = o := Nat.add_sub_cancel_left 2 o
  rw [shift, List.getD_eq_getElem?_getD, List.getElem?_map, List.getElem?_range small]
  rfl

/-! ## Pointers and contents -/

variable {s : FsImage} {owner : Owner} {nodes : Nat → Node} {i n idx : Nat}
  {din : Dinode} {deep : Bool} {content : List UInt8}

namespace Holds

section

variable (holds : Holds s.sectors owner i din n deep content)
include holds

theorem ptr_file (pool : Pool s owner) (present : idx < n) :
    (disk s).ptr din (.file idx) = cell s.sectors din idx := by
  have few := holds.few
  unfold cell
  by_cases small : idx < NDIRECT
  · rw [if_pos small, PtrSlot.file_direct small, words_direct din idx small]
    rfl
  · have isDeep := holds.large (by omega)
    have indirect : din.addrs INDIRECT ≠ 0 :=
      pool.ne_zero (holds.there MAXFILE (.inr ⟨rfl, isDeep⟩))
    have inRange : idx - NDIRECT < NINDIRECT := by
      simp only [MAXFILE] at few
      omega
    rw [if_neg small, if_neg (by omega), PtrSlot.file_entry small inRange]
    exact if_neg indirect

theorem ptr_null (beyond : n ≤ idx) (small : idx < MAXFILE) : (disk s).ptr din (.file idx) = 0 := by
  by_cases low : idx < NDIRECT
  · rw [PtrSlot.file_direct low]
    exact (words_direct din idx low).symm.trans (holds.direct_null idx beyond low)
  · have inRange : idx - NDIRECT < NINDIRECT := by
      simp only [MAXFILE] at small
      omega
    rw [PtrSlot.file_entry low inRange]
    simp only [Disk.ptr]
    cases deep with
    | true =>
      have entry := holds.entry_null rfl idx beyond (by omega) small
      exact ite_eq_left_iff.mpr fun _ => entry
    | false => exact if_pos (holds.indirect_null rfl)

theorem owner_ptr (pool : Pool s owner) (slot : PtrSlot) (some : (disk s).ptr din slot ≠ 0) :
    ∃ idx, owner ((disk s).ptr din slot) = .some (i, idx) := by
  by_cases indirect : slot = .indirect
  · subst indirect
    cases deep with
    | true => exact ⟨MAXFILE, holds.there MAXFILE (.inr ⟨rfl, rfl⟩)⟩
    | false => exact absurd (holds.indirect_null rfl) some
  · obtain ⟨idx, small, rfl⟩ := PtrSlot.exists_file indirect
    by_cases present : idx < n
    · rw [holds.ptr_file pool present]
      exact ⟨idx, holds.there idx (.inl present)⟩
    · exact absurd (holds.ptr_null (by omega) small) some

theorem exists_ptr (pool : Pool s owner) {b : Nat} (owned : owner b = .some (i, idx)) :
    ∃ slot, (disk s).ptr din slot = b := by
  obtain ⟨present | ⟨rfl, isDeep⟩, place⟩ := holds.back b idx owned
  · exact ⟨.file idx, (holds.ptr_file pool present).trans place⟩
  · exact ⟨.indirect, place⟩

theorem contents (pool : Pool s owner) (plain : din.type ≠ T_CHECKED) {off : Nat}
    (small : off < MAXFILE * 512) : (disk s).contents din off = content.getD off 0 := by
  have split : 512 * (off / 512) + off % 512 = off := Nat.div_add_mod off 512
  have block : ∀ slot, (disk s).block din slot = (disk s).ptr din slot := fun slot => if_neg plain
  unfold Disk.contents Disk.view
  rw [block]
  by_cases present : off / 512 < n
  · have owned := holds.there (off / 512) (.inl present)
    rw [holds.ptr_file pool present, if_neg (pool.ne_zero owned)]
    have byte := holds.bytes (off / 512) present (off % 512) (Nat.mod_lt off (by decide))
    rwa [split] at byte
  · have inFile : off / 512 < MAXFILE := by omega
    have null : (disk s).ptr din (.file (off / BSIZE)) = 0 :=
      holds.ptr_null (Nat.le_of_not_lt present) inFile
    have room := holds.room
    rw [if_pos null, List.getD_eq_default _ _ (by omega)]

end

end Holds

namespace Built

theorem contents (built : Built s owner nodes) (low : 1 ≤ i)
    (there : i < s.freeinode) (plain : (nodes i).type ≠ T_CHECKED) {off : Nat}
    (small : off < MAXFILE * 512) :
    (disk s).contents ((disk s).dinode i) off = (nodes i).content.getD off 0 := by
  have node := built.node i low there
  refine Holds.contents node.stores built.pool ?_ small
  rw [node.type]
  exact plain

section Directory

variable (built : Built s owner nodes) (low : 1 ≤ i) (there : i < s.freeinode)
  {list : List (Nat × List UInt8)} (type : (nodes i).type = T_DIR)
  (encoded : (nodes i).content = encode list) {k : Nat} (small : k < MAXFILE * DPB)

include built low there type encoded small

theorem direntByte {o : Nat} (less : o < 16) :
    (disk s).contents ((disk s).dinode i) (16 * k + o) =
      (dirent (list.getD k (0, [])).1 (list.getD k (0, [])).2).getD o 0 := by
  have plain : (nodes i).type ≠ T_CHECKED := by
    rw [type]
    decide
  simp only [DPB] at small
  rw [built.contents low there plain (by omega), encoded, getD_encode list k less]

theorem nameByte {o : Nat} (less : o < DIRSIZ) :
    (disk s).contents ((disk s).dinode i) (DIRENTSIZE * k + 2 + o) =
      (list.getD k (0, [])).2.getD o 0 := by
  have place : DIRENTSIZE * k + 2 + o = 16 * k + (2 + o) := Nat.add_assoc ..
  rw [← getD_dirent_name (list.getD k (0, [])).1 _ less, place]
  simp only [DIRSIZ] at less
  exact built.direntByte low there type encoded small (by omega)

theorem entry (number : (list.getD k (0, [])).1 < 65536) :
    (disk s).entryInum ((disk s).dinode i) k = (list.getD k (0, [])).1 ∧
      (disk s).entryName ((disk s).dinode i) k = strncpy (list.getD k (0, [])).2 := by
  have bytes : ∀ o < 16, _ := fun _ => built.direntByte low there type encoded small
  constructor
  · have first := bytes 0 (by decide)
    have second := bytes 1 (by decide)
    rw [(getD_dirent_inum _ _).1] at first
    rw [(getD_dirent_inum _ _).2] at second
    unfold Disk.entryInum Bytes.word16
    rw [show DIRENTSIZE * k = 16 * k + 0 from rfl, first, second,
      UInt8.toNat_ofNat', UInt8.toNat_ofNat']
    omega
  · unfold Disk.entryName Bytes.slice strncpy
    refine List.map_congr_left fun o mem => ?_
    exact built.nameByte low there type encoded small (List.mem_range.mp mem)

end Directory

end Built

end Mkfs

end Xv6
