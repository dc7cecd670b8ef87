/-
Purpose: Which trees of the host give an image that the kernel can keep
  consistent.
-/
import Xv6.Proofs.MkfsView
import Mathlib.Algebra.BigOperators.Group.Finset.Basic
import Mathlib.Algebra.Order.BigOperators.Group.Finset

namespace Xv6

open PanicM Entries Fs Mkfs
open Finset (mem_filter mem_range mem_singleton)

namespace Mkfs

/-! ## What the kernel needs -/

/-- Inode number `i` has been given out. -/
def Uses (s : FsImage) (i : Nat) : Prop := 1 ≤ i ∧ i < s.freeinode

/-- An inode in use has a pointer to block `b`. -/
def Refers (s : FsImage) (b : Nat) : Prop :=
  b ≠ 0 ∧ ∃ i slot, Uses s i ∧ (disk s).ptr ((disk s).dinode i) slot = b

/-- Entries of directory `d`, used or not. -/
def entries (s : FsImage) (d : Nat) : Nat :=
  ((disk s).dinode d).size / DIRENTSIZE

/-- Entries of directory `d` other than `.` that name inode `i`. -/
def namings (s : FsImage) (i d : Nat) : Finset Nat :=
  (Finset.range (entries s d)).filter fun k =>
    (disk s).entryInum ((disk s).dinode d) k = i ∧
      (disk s).entryName ((disk s).dinode d) k ≠ strncpy [46]

/-- Directories in use. -/
def directories (s : FsImage) : Finset Nat :=
  (Finset.range s.freeinode).filter fun d =>
    1 ≤ d ∧ ((disk s).dinode d).type = T_DIR

/-- What the kernel relies on, and keeps. -/
structure WellFormed (s : FsImage) : Prop where
  superblock : (disk s).superblock = ⟨1024, 995, NINODES⟩
  inodes : ∀ i, Uses s i → i < (disk s).superblock.ninodes
  blocks : ∀ b, b < s.freeblock ∨ Refers s b → b < (disk s).superblock.size
  writes : ∀ i, Uses s i → iblock i < bblock 0 (disk s).superblock.ninodes
  bitmap : ∀ b < BPB, (disk s).used b = true ↔ b < (disk s).dataStart ∨ Refers s b
  addresses : ∀ i, Uses s i → ∀ bn, bn < (((disk s).dinode i).size + (BSIZE - 1)) / BSIZE →
      bn < MAXFILE ∧ (disk s).ptr ((disk s).dinode i) (.file bn) ≠ 0
  names : ∀ d ∈ directories s, ∀ j k, j < entries s d → k < entries s d →
    (disk s).entryInum ((disk s).dinode d) j ≠ 0 →
    (disk s).entryInum ((disk s).dinode d) k ≠ 0 →
    (disk s).entryName ((disk s).dinode d) j = (disk s).entryName ((disk s).dinode d) k → j = k
  nlink : ∀ i ∈ directories s, ((disk s).dinode i).nlink.toNat =
    ∑ d ∈ directories s, (namings s i d).card

end Mkfs

namespace Entries

/-- Names of a directory. -/
def names : Entries → List (List UInt8)
  | .nil => []
  | .file name _ rest => name :: rest.names
  | .dir name _ rest => name :: rest.names

/-- A name that the host can have in a directory, `.` and `..` apart. -/
def Name (name : List UInt8) : Prop :=
  name ≠ [] ∧ 0 ∉ name ∧ SLASH ∉ name ∧ name ≠ [46] ∧ name ≠ [46, 46]

instance (name : List UInt8) : Decidable (Name name) :=
  inferInstanceAs (Decidable (_ ∧ _))

/-- The names are names of the host. -/
def Named : Entries → Prop
  | .nil => True
  | .file name _ rest => Name name ∧ rest.Named
  | .dir name children rest => Name name ∧ children.Named ∧ rest.Named

/-- There are files only. -/
def Flat : Entries → Prop
  | .nil => True
  | .file _ _ rest => rest.Flat
  | .dir _ _ _ => False

theorem Flat.number_eq {entries : Entries} (flat : entries.Flat) :
    entries.number = entries.count := by
  induction entries with
  | nil => rfl
  | file name bytes rest ih =>
    simp only [number, count, ih flat]
  | dir => exact absurd flat id

theorem map_list (entries : Entries) (next : Nat) :
    (entries.list next).map Prod.snd = entries.names := by
  induction entries generalizing next with
  | nil => rfl
  | file name bytes rest ih | dir name children rest _ ih =>
    simp only [list, names, List.map_cons, ih]

theorem Named.mem {entries : Entries} (named : entries.Named)
    {name : List UInt8} (mem : name ∈ entries.names) : Name name := by
  induction entries with
  | nil => cases mem
  | file first bytes rest ih =>
    rcases List.mem_cons.mp mem with rfl | mem
    · exact named.1
    · exact ih named.2 mem
  | dir first children rest _ ih =>
    rcases List.mem_cons.mp mem with rfl | mem
    · exact named.1
    · exact ih named.2.2 mem

end Entries

/-! ## Names -/

theorem Fs.getD_strncpy (name : List UInt8) {o : Nat} (small : o < DIRSIZ) :
    (strncpy name).getD o 0 = name.getD o 0 := by
  unfold strncpy
  rw [List.getD_eq_getElem?_getD, List.getElem?_map, List.getElem?_range small]
  rfl

/-- A name of the host is cut to `.` or `..` only if it is that name. -/
theorem Entries.Name.strncpy_ne {name : List UInt8} (host : Name name) :
    strncpy name ≠ strncpy [46] ∧ strncpy name ≠ strncpy [46, 46] := by
  obtain ⟨some, noZero, -, notDot, notDots⟩ := host
  have bytes : ∀ {other : List UInt8}, strncpy name = strncpy other →
      ∀ o < DIRSIZ, name.getD o 0 = other.getD o 0 := by
    intro other same o small
    rw [← getD_strncpy name small, same, getD_strncpy other small]
  have ends : ∀ {a : UInt8} {rest : List UInt8}, 0 ∉ a :: rest → a ≠ 0 := by
    rintro a rest no rfl
    exact no (List.mem_cons_self ..)
  constructor
  · intro same
    have first := bytes same 0 (by decide)
    have second := bytes same 1 (by decide)
    rcases name with _ | ⟨a, _ | ⟨b, rest⟩⟩
    · exact some rfl
    · exact notDot (congrArg (fun a => [a]) first)
    · exact ends (fun mem => noZero (List.mem_cons_of_mem a mem)) second
  · intro same
    have first := bytes same 0 (by decide)
    have second := bytes same 1 (by decide)
    have third := bytes same 2 (by decide)
    rcases name with _ | ⟨a, _ | ⟨b, _ | ⟨c, rest⟩⟩⟩
    · exact some rfl
    · have zero : (0 : UInt8) = 46 := second
      exact absurd zero (by decide)
    · obtain rfl : a = 46 := first
      obtain rfl : b = 46 := second
      exact notDots rfl
    · exact ends (fun mem => noZero (List.mem_cons_of_mem a (List.mem_cons_of_mem b mem))) third

namespace Mkfs

variable {s : FsImage} {owner : Owner} {nodes : Nat → Node}
  {entries : Entries}

variable {cur i : Nat} {children : Entries} {α : Type}

/-! ## Blocks -/

theorem bit_bitmap (used b : Nat) : Bytes.bit (bitmap used) b = decide (b < used) := by
  induction used with
  | zero => simp [bitmap, Bytes.bit]
  | succ used ih =>
    have step : bitmap (used + 1) = Bytes.setBit (bitmap used) used true := by
      unfold bitmap
      rw [List.range_succ, List.foldl_append]
      rfl
    rw [step, Bytes.bit_setBit, ih]
    by_cases last : b = used
    · rw [if_pos last, last]
      exact (decide_eq_true (Nat.lt_succ_self used)).symm
    · rw [if_neg last]
      exact decide_eq_decide.mpr (by omega)

theorem Built.decode (built : Built s owner nodes) :
    (disk s).superblock = ⟨1024, 995, NINODES⟩ := by
  unfold Disk.superblock
  change Superblock.decode (s.sectors 1) = _
  rw [built.superblock]
  decide +kernel

theorem Built.dataStart (built : Built s owner nodes) : (disk s).dataStart = DATA := by
  unfold Disk.dataStart
  rw [built.decode]
  rfl

theorem Built.refers_iff (built : Built s owner nodes) (b : Nat) :
    Refers s b ↔ DATA ≤ b ∧ b < s.freeblock := by
  constructor
  · rintro ⟨some, i, slot, ⟨low, there⟩, rfl⟩
    have node := built.node i low there
    obtain ⟨idx, owned⟩ := Holds.owner_ptr node.stores built.pool slot some
    exact built.pool.below owned
  · intro inside
    obtain ⟨⟨i, idx⟩, owned⟩ := Option.ne_none_iff_exists'.mp ((built.pool.owned b).mpr inside)
    obtain ⟨low, there⟩ := built.owners b i idx owned
    have node := built.node i low there
    obtain ⟨slot, place⟩ := Holds.exists_ptr node.stores built.pool owned
    exact ⟨built.pool.ne_zero owned, i, slot, ⟨low, there⟩, place⟩

theorem Finished.used_iff (finished : Finished entries s owner nodes) {b : Nat}
    (small : b < BPB) : (disk s).used b = true ↔ b < s.freeblock := by
  have block : bblock b NINODES = NINODES / IPB + 3 := by
    unfold bblock
    rw [Nat.div_eq_of_lt small, Nat.zero_add]
  unfold Disk.used
  rw [finished.built.decode, Nat.mod_eq_of_lt small]
  change Bytes.bit (s.sectors (bblock b NINODES)) b = true ↔ _
  rw [block, finished.bitmap, bit_bitmap, decide_eq_true_iff]

/-! ## Inodes -/

/-- A file of the host, as the image has it. -/
def IsFile (node : Node) : Prop :=
  node.type = T_FILE ∧ node.size = node.content.length

theorem Encodes.isFile {next : Nat} (flat : entries.Flat)
    (encodes : Encodes nodes next cur entries) (low : next ≤ i)
    (high : i < next + entries.count) : IsFile (nodes i) := by
  induction entries generalizing next with
  | nil => exact absurd high (by simp only [count]; omega)
  | file name bytes rest ih =>
    simp only [count] at high
    by_cases first : i = next
    · rw [first, encodes.1]
      exact ⟨rfl, rfl⟩
    · exact ih flat encodes.2 (by omega) (by omega)
  | dir => exact absurd flat id

theorem Encodes.exists_dir {next : Nat} (deep : ¬ entries.Flat)
    (encodes : Encodes nodes next cur entries) :
    ∃ i children, next ≤ i ∧ i < next + entries.count ∧
      nodes i = dirNode i cur (i + 1) children := by
  induction entries generalizing next with
  | nil => exact absurd trivial deep
  | file name bytes rest ih =>
    obtain ⟨i, children, low, high, same⟩ := ih deep encodes.2
    simp only [count]
    exact ⟨i, children, by omega, by omega, same⟩
  | dir name children rest _ _ =>
    simp only [count]
    exact ⟨next, children, by omega, by omega, encodes.1⟩

section

variable (built : Built s owner nodes)
include built

theorem Built.dirEntry {parent next k : Nat} (uses : Uses s i)
    (node : nodes i = dirNode i parent next children) (small : k < MAXFILE * DPB)
    (number : ((records i parent next children).getD k (0, [])).1 < 65536) :
    (disk s).entryInum ((disk s).dinode i) k = ((records i parent next children).getD k (0, [])).1 ∧
      (disk s).entryName ((disk s).dinode i) k =
        strncpy ((records i parent next children).getD k (0, [])).2 := by
  refine built.entry uses.1 uses.2 ?_ ?_ small number
  · rw [node]
    rfl
  · rw [node]
    exact dirNode_content i parent next children

theorem Built.mem_directories (uses : Uses s i) : i ∈ directories s ↔ (nodes i).type = T_DIR := by
  have node := built.node i uses.1 uses.2
  unfold directories
  rw [mem_filter, mem_range, node.type]
  exact ⟨fun found => found.2.2, fun dir => ⟨uses.2, uses.1, dir⟩⟩

theorem Built.entries_eq {parent next : Nat} (uses : Uses s i)
    (node : nodes i = dirNode i parent next children) :
    Mkfs.entries s i = ((32 + 16 * children.number) / 512 + 1) * 32 := by
  unfold Mkfs.entries
  rw [(built.node i uses.1 uses.2).size, node]
  simp only [dirNode, BSIZE, DIRENTSIZE]
  omega

theorem Built.parent_named {parent next : Nat} (uses : Uses s i)
    (node : nodes i = dirNode i parent next children)
    (small : parent < 65536) : 1 ∈ namings s parent i := by
  obtain ⟨inum, name⟩ := built.dirEntry (k := 1) uses node (by decide) small
  unfold namings
  rw [mem_filter, mem_range, built.entries_eq uses node, inum, name]
  refine ⟨by omega, rfl, ?_⟩
  change strncpy [46, 46] ≠ strncpy [46]
  decide

end

namespace Finished

variable {k : Nat}

section

variable (finished : Finished entries s owner nodes)
include finished

theorem uses_root : Uses s ROOTINO :=
  ⟨Nat.le_refl _, by rw [finished.freeinode, ROOTINO]; omega⟩

theorem two_le_namings (deep : ¬ entries.Flat) :
    2 ≤ ∑ d ∈ directories s, (namings s ROOTINO d).card := by
  have built := finished.built
  have root := finished.uses_root
  obtain ⟨c, children, low, high, node⟩ := finished.encodes.exists_dir deep
  have uses : Uses s c := ⟨by omega, by rw [finished.freeinode]; exact high⟩
  have apart : ROOTINO ≠ c := by
    simp only [ROOTINO]
    omega
  have rootNamed : 1 ≤ (namings s ROOTINO ROOTINO).card :=
    Finset.card_pos.mpr ⟨1, built.parent_named root finished.root (by decide)⟩
  have childNamed : 1 ≤ (namings s ROOTINO c).card :=
    Finset.card_pos.mpr ⟨1, built.parent_named uses node (by decide)⟩
  have subset : {ROOTINO, c} ⊆ directories s := by
    intro d mem
    rcases Finset.mem_insert.mp mem with rfl | mem
    · exact (built.mem_directories root).mpr (by rw [finished.root]; rfl)
    · rw [mem_singleton.mp mem]
      exact (built.mem_directories uses).mpr (by rw [node]; rfl)
  calc
    2 ≤ (namings s ROOTINO ROOTINO).card + (namings s ROOTINO c).card := by
      omega
    _ = ∑ d ∈ {ROOTINO, c}, (namings s ROOTINO d).card :=
      (Finset.sum_pair (f := fun d => (namings s ROOTINO d).card) apart).symm
    _ ≤ ∑ d ∈ directories s, (namings s ROOTINO d).card := Finset.sum_le_sum_of_subset subset

theorem directories_eq (flat : entries.Flat) : directories s = {ROOTINO} := by
  have built := finished.built
  ext d
  rw [mem_singleton]
  constructor
  · intro mem
    obtain ⟨below, low, -⟩ := mem_filter.mp mem
    have uses : Uses s d := ⟨low, mem_range.mp below⟩
    have dir := (built.mem_directories uses).mp mem
    by_contra other
    have high := uses.2
    rw [finished.freeinode] at high
    simp only [ROOTINO] at other
    have isFile := finished.encodes.isFile flat (i := d) (by omega) high
    rw [isFile.1] at dir
    exact absurd dir (by decide)
  · rintro rfl
    exact (built.mem_directories finished.uses_root).mpr (by rw [finished.root]; rfl)

theorem records_inum (k : Nat) :
    ((records ROOTINO ROOTINO 2 entries).getD k (0, [])).1 < NINODES ∧ (k < 2 + entries.number →
        0 < ((records ROOTINO ROOTINO 2 entries).getD k (0, [])).1) ∧
      (2 ≤ k → ((records ROOTINO ROOTINO 2 entries).getD k (0, [])).1 ≠ ROOTINO) := by
  have inodes := finished.built.inodes
  rw [finished.freeinode] at inodes
  have length := entries.length_list 2
  have root : ROOTINO < NINODES ∧ 0 < ROOTINO := by decide
  rcases k with _ | _ | k
  · exact ⟨root.1, fun _ => root.2, fun low => absurd low (by decide)⟩
  · exact ⟨root.1, fun _ => root.2, fun low => absurd low (by decide)⟩
  · change ((entries.list 2).getD k (0, [])).1 < NINODES ∧ (k + 2 < 2 + entries.number →
        0 < ((entries.list 2).getD k (0, [])).1) ∧
      (2 ≤ k + 2 → ((entries.list 2).getD k (0, [])).1 ≠ ROOTINO)
    by_cases inside : k < (entries.list 2).length
    · rw [List.getD_eq_getElem _ _ inside]
      have bounds := mem_list (List.getElem_mem inside)
      simp only [ROOTINO]
      omega
    · rw [List.getD_eq_default _ _ (by omega)]
      exact ⟨by decide, fun less => absurd less (by omega), fun _ => by decide⟩

theorem rootEntry (inside : k < Mkfs.entries s ROOTINO) :
    (disk s).entryInum ((disk s).dinode ROOTINO) k =
        ((records ROOTINO ROOTINO 2 entries).getD k (0, [])).1 ∧
      (disk s).entryName ((disk s).dinode ROOTINO) k =
        strncpy ((records ROOTINO ROOTINO 2 entries).getD k (0, [])).2 := by
  have inodes := finished.built.inodes
  rw [finished.freeinode] at inodes
  have number := entries.number_le_count
  have small : k < MAXFILE * DPB := by
    have few : 2 + entries.count ≤ 200 := inodes
    rw [finished.built.entries_eq finished.uses_root finished.root] at inside
    have bound : (32 + 16 * entries.number) / 512 + 1 ≤ MAXFILE := by
      refine Nat.le_trans (m := 10) ?_ (by decide)
      omega
    exact inside.trans_le (Nat.mul_le_mul_right 32 bound)
  refine finished.built.dirEntry finished.uses_root finished.root small ?_
  exact Nat.lt_trans (finished.records_inum k).1 (by decide)

/-- Only the entry `..` of the root names the root. -/
theorem namings_root : namings s ROOTINO ROOTINO = {1} := by
  ext k
  rw [mem_singleton]
  constructor
  · intro mem
    obtain ⟨below, inum, name⟩ := mem_filter.mp mem
    obtain ⟨inumIs, nameIs⟩ := finished.rootEntry (mem_range.mp below)
    rw [inumIs] at inum
    rw [nameIs] at name
    rcases k with _ | _ | k
    · exact absurd rfl name
    · rfl
    · exact absurd inum ((finished.records_inum _).2.2 (by omega))
  · rintro rfl
    exact finished.built.parent_named finished.uses_root finished.root (by decide)

end

/-- The names in the root. -/
def rootNames (entries : Entries) : List (List UInt8) :=
  strncpy [46] :: strncpy [46, 46] :: entries.names.map strncpy

theorem length_rootNames (entries : Entries) : (rootNames entries).length = 2 + entries.number := by
  unfold rootNames
  rw [List.length_cons, List.length_cons, List.length_map,
    ← entries.map_list 2, List.length_map, entries.length_list]
  omega

theorem nodup_rootNames (named : entries.Named) :
    (rootNames entries).Nodup ↔ (entries.names.map strncpy).Nodup := by
  have other : ∀ copy ∈ entries.names.map strncpy,
      copy ≠ strncpy [46] ∧ copy ≠ strncpy [46, 46] := by
    intro copy mem
    obtain ⟨name, found, rfl⟩ := List.mem_map.mp mem
    exact (named.mem found).strncpy_ne
  have apart : strncpy [46] ≠ strncpy [46, 46] := by decide
  unfold rootNames
  rw [List.nodup_cons, List.nodup_cons, List.mem_cons]
  constructor
  · exact fun nodup => nodup.2.2
  · intro nodup
    refine ⟨?_, fun mem => (other _ mem).2 rfl, nodup⟩
    rintro (same | mem)
    · exact apart same
    · exact (other _ mem).1 rfl

section

variable (finished : Finished entries s owner nodes)
include finished

theorem rootName (inside : k < (rootNames entries).length) :
    k < Mkfs.entries s ROOTINO ∧ (disk s).entryInum ((disk s).dinode ROOTINO) k ≠ 0 ∧
      (disk s).entryName ((disk s).dinode ROOTINO) k = (rootNames entries)[k] := by
  have names : rootNames entries = (records ROOTINO ROOTINO 2 entries).map
      fun entry => strncpy entry.2 := by
    unfold rootNames records
    rw [← entries.map_list 2, List.map_map]
    rfl
  have less : k < 2 + entries.number := by
    rwa [length_rootNames] at inside
  have slot : k < Mkfs.entries s ROOTINO := by
    rw [finished.built.entries_eq finished.uses_root finished.root]
    omega
  obtain ⟨inum, name⟩ := finished.rootEntry slot
  refine ⟨slot, ?_, ?_⟩
  · rw [inum]
    exact Nat.ne_of_gt ((finished.records_inum k).2.1 less)
  · have there : k < (records ROOTINO ROOTINO 2 entries).length := by
      rwa [names, List.length_map] at inside
    rw [name, List.getD_eq_getElem _ _ there]
    simp only [names, List.getElem_map]

theorem rootEmpty (slot : k < Mkfs.entries s ROOTINO) (beyond : (rootNames entries).length ≤ k) :
    (disk s).entryInum ((disk s).dinode ROOTINO) k = 0 := by
  have length : (records ROOTINO ROOTINO 2 entries).length = 2 + entries.number := by
    unfold records
    rw [List.length_cons, List.length_cons, entries.length_list]
    omega
  rw [length_rootNames] at beyond
  rw [(finished.rootEntry slot).1, List.getD_eq_default _ _ (by omega)]

theorem names_iff (named : entries.Named) :
    (∀ j k, j < Mkfs.entries s ROOTINO → k < Mkfs.entries s ROOTINO →
      (disk s).entryInum ((disk s).dinode ROOTINO) j ≠ 0 →
      (disk s).entryInum ((disk s).dinode ROOTINO) k ≠ 0 →
      (disk s).entryName ((disk s).dinode ROOTINO) j =
        (disk s).entryName ((disk s).dinode ROOTINO) k → j = k) ↔
      (entries.names.map strncpy).Nodup := by
  rw [← nodup_rootNames named, List.nodup_iff_injective_getElem]
  constructor
  · rintro distinct ⟨j, insideJ⟩ ⟨k, insideK⟩ same
    obtain ⟨slotJ, someJ, nameJ⟩ := finished.rootName insideJ
    obtain ⟨slotK, someK, nameK⟩ := finished.rootName insideK
    refine Fin.ext (distinct j k slotJ slotK someJ someK ?_)
    rw [nameJ, nameK]
    exact same
  · intro injective j k slotJ slotK someJ someK same
    have insideJ : j < (rootNames entries).length := by
      by_contra beyond
      exact someJ (finished.rootEmpty slotJ (by omega))
    have insideK : k < (rootNames entries).length := by
      by_contra beyond
      exact someK (finished.rootEmpty slotK (by omega))
    rw [(finished.rootName insideJ).2.2, (finished.rootName insideK).2.2]
      at same
    have equal : (⟨j, insideJ⟩ : Fin (rootNames entries).length) = ⟨k, insideK⟩ := injective same
    exact congrArg Fin.val equal

end

end Finished

/-- Every block of inode `i` below its size has an address. -/
def Addressed (s : FsImage) (i : Nat) : Prop :=
  ∀ bn, bn < (((disk s).dinode i).size + (BSIZE - 1)) / BSIZE →
    bn < MAXFILE ∧ (disk s).ptr ((disk s).dinode i) (.file bn) ≠ 0

/-- Sizes that end in the last block that the contents take have addresses
for all their blocks. -/
theorem Built.addressed (built : Built s owner nodes) (uses : Uses s i)
    (size : ((nodes i).size + 511) / 512 = nblocks (nodes i).content.length) : Addressed s i := by
  intro bn below
  have node := built.node i uses.1 uses.2
  have few := node.stores.few
  rw [node.size] at below
  have present : bn < nblocks (nodes i).content.length := size ▸ below
  refine ⟨present.trans_le few, ?_⟩
  rw [Holds.ptr_file node.stores built.pool present]
  exact built.pool.ne_zero (node.stores.there bn (.inl present))

theorem Built.not_addressed (built : Built s owner nodes) (uses : Uses s i)
    (size : nblocks (nodes i).content.length < ((nodes i).size + 511) / 512) : ¬ Addressed s i := by
  intro addressed
  have node := built.node i uses.1 uses.2
  rw [← node.size] at size
  obtain ⟨small, address⟩ := addressed _ size
  exact address (Holds.ptr_null node.stores le_rfl small)

theorem Finished.addressed_root_iff (finished : Finished entries s owner nodes) :
    Addressed s ROOTINO ↔ (entries.number + 2) % DPB ≠ 0 := by
  have length : (dirNode ROOTINO ROOTINO 2 entries).content.length = 32 + 16 * entries.number := by
    unfold dirNode dots
    simp only [List.length_append, length_dirent, length_dirents]
  have size : (dirNode ROOTINO ROOTINO 2 entries).size =
      ((32 + 16 * entries.number) / 512 + 1) * 512 := rfl
  constructor
  · intro addressed whole
    refine finished.built.not_addressed finished.uses_root ?_ addressed
    rw [finished.root, length, size]
    unfold nblocks
    simp only [DPB] at whole
    omega
  · intro broken
    refine finished.built.addressed finished.uses_root ?_
    rw [finished.root, length, size]
    unfold nblocks
    simp only [DPB] at broken
    omega

/-! ## How many inodes are used

A tree that is too large for the inode table overwrites the blocks behind the
table; the counter still tells how many inodes were given out. -/

/-- The program gives out no inode. -/
abbrev KeepsInodes {α : Type} (program : M α) : Prop :=
  PanicM.Frames FsImage.freeinode program

namespace KeepsInodes

open PanicM

theorem assert (condition : Prop) [Decidable condition] : KeepsInodes (Mkfs.assert condition) :=
  .ite (.pure ()) (.throw Exit.assertion)

theorem wsect (sec : Nat) (buf : Bytes.Store) : KeepsInodes (Mkfs.wsect sec buf) :=
  .modify fun _ => rfl

theorem rsect (sec : Nat) : KeepsInodes (Mkfs.rsect sec) :=
  .bind .get fun _ => .ite (.pure _) (.throw Exit.read)

theorem winode (inum : Nat) (din : Dinode) : KeepsInodes (Mkfs.winode inum din) :=
  .bind (rsect _) fun _ => wsect _ _

theorem rinode (inum : Nat) : KeepsInodes (Mkfs.rinode inum) :=
  .bind (rsect _) fun _ => .pure _

theorem takeBlock : KeepsInodes Mkfs.takeBlock :=
  .of_wp fun _ => rfl

theorem indirectBlock (din : Dinode) : KeepsInodes (Mkfs.indirectBlock din) :=
  .ite (.bind takeBlock fun _ => .pure _) (.pure _)

theorem fileBlock (din : Dinode) (fbn : Nat) : KeepsInodes (Mkfs.fileBlock din fbn) := by
  unfold Mkfs.fileBlock
  split
  · exact .ite (.bind takeBlock fun _ => .pure _) (.pure _)
  · refine .bind (indirectBlock din) fun found => ?_
    refine .bind (rsect _) fun _ => .ite ?_ (.pure _)
    exact .bind takeBlock fun _ => .bind (wsect _ _) fun _ => .pure _

theorem appendLoop (fuel : Nat) (din : Dinode) (off : Nat) (p : List UInt8) :
    KeepsInodes (Mkfs.appendLoop fuel din off p) := by
  induction fuel generalizing din off p with
  | zero => exact .pure _
  | succ fuel ih =>
    refine .ite (.pure _) ?_
    refine .bind (assert _) fun _ => .bind (fileBlock _ _) fun found => ?_
    exact .bind (rsect _) fun _ => .bind (wsect _ _) fun _ => ih _ _ _

theorem iappend (inum : Nat) (p : List UInt8) : KeepsInodes (Mkfs.iappend inum p) :=
  .bind (rinode _) fun _ => .bind (appendLoop _ _ _ _) fun _ => winode _ _

theorem addFile (inum fuel : Nat) (bytes : List UInt8) :
    KeepsInodes (Mkfs.addFile inum fuel bytes) := by
  induction fuel generalizing bytes with
  | zero => exact .pure _
  | succ fuel ih =>
    exact .ite (.pure _) (.bind (iappend _ _) fun _ => ih _)

theorem addDots (cur parent : Nat) : KeepsInodes (Mkfs.addDots cur parent) :=
  .bind (iappend _ _) fun _ => iappend _ _

theorem fixSize (cur : Nat) : KeepsInodes (Mkfs.fixSize cur) :=
  .bind (rinode _) fun _ => winode _ _

end KeepsInodes

/-- The program gives out `n` inodes if it returns. -/
def Allocates {α : Type} (n : Nat) (program : M α) : Prop :=
  ∀ s, wp program (fun _ t => t.freeinode = s.freeinode + n) (fun _ => True) s

theorem KeepsInodes.allocates {program : M α} (keeps : KeepsInodes program) : Allocates 0 program :=
  fun s => PanicM.Frames.to_wp keeps s

theorem Allocates.bind {β : Type} {n m : Nat} {first : M α}
    {next : α → M β} (one : Allocates n first)
    (two : ∀ a, Allocates m (next a)) : Allocates (n + m) (first >>= next) := by
  intro s
  rw [wp_bind]
  refine wp_imp (one s) fun a middle count => ?_
  refine wp_imp (two a middle) fun _ _ more => ?_
  rw [more, count, Nat.add_assoc]

theorem allocates_ialloc (type : UInt16) : Allocates 1 (ialloc type) := by
  intro s
  unfold ialloc
  rw [wp_bind, wp_get, wp_bind, wp_set]
  exact (PanicM.Frames.bind (KeepsInodes.winode _ _) fun _ => .pure _).to_wp _

theorem allocates_addEntries (cur : Nat) (entries : Entries) :
    Allocates entries.count (addEntries cur entries) := by
  induction entries generalizing cur with
  | nil => exact fun _ => rfl
  | file name bytes rest ih =>
    have run := (allocates_ialloc T_FILE).bind fun child =>
      (KeepsInodes.addFile child (bytes.length / 512 + 1) bytes).allocates
        |>.bind fun _ =>
      (KeepsInodes.iappend cur (dirent child name)).allocates.bind fun _ =>
      ih cur
    rwa [Nat.zero_add, Nat.zero_add] at run
  | dir name children rest ihChildren ihRest =>
    have run := (allocates_ialloc T_DIR).bind fun child =>
      (KeepsInodes.addDots child cur).allocates.bind fun _ =>
      (ihChildren child).bind fun _ =>
      (KeepsInodes.fixSize child).allocates.bind fun _ =>
      (KeepsInodes.iappend cur (dirent child name)).allocates.bind fun _ =>
      ihRest cur
    rwa [Nat.zero_add, Nat.zero_add, Nat.zero_add, ← Nat.add_assoc] at run

theorem allocates_main (entries : Entries) : Allocates (1 + entries.count) (main entries) := by
  have format : KeepsInodes (mkfs 995 NINODES 1024) :=
    .bind (KeepsInodes.assert _) fun _ => .bind (.modify fun _ => rfl)
      fun _ => KeepsInodes.wsect _ _
  have bits : KeepsInodes (do balloc (← get).usedblocks) :=
    .bind .get fun s => .bind (KeepsInodes.assert (s.usedblocks < 512 * 8))
      fun _ => KeepsInodes.wsect _ _
  have run := format.allocates.bind fun _ =>
    (allocates_ialloc T_DIR).bind fun root =>
    (KeepsInodes.assert (root = ROOTINO)).allocates.bind fun _ =>
    ((KeepsInodes.addDots root root).allocates.bind fun _ =>
      (allocates_addEntries root entries).bind fun _ =>
      (KeepsInodes.fixSize root).allocates).bind fun _ =>
    bits.allocates
  simp only [Nat.zero_add, Nat.add_zero] at run
  exact run

/-! ## The images of mkfs -/

theorem Builds.freeinode (builds : Builds entries s) : s.freeinode = 2 + entries.count := by
  have count := wp_ok (allocates_main entries start) builds
  rw [count]
  change 1 + (1 + entries.count) = _
  omega

theorem Builds.finished (builds : Builds entries s) (few : 2 + entries.count ≤ NINODES) :
    ∃ owner nodes, Finished entries s owner nodes :=
  wp_ok (wp_main (E := fun _ => True) (Q := fun _ t => ∃ owner nodes,
      Finished entries t owner nodes) entries few (fun _ _ => trivial)
      fun _ owner nodes finished => ⟨owner, nodes, finished⟩) builds

theorem Finished.wellFormed (finished : Finished entries s owner nodes)
    (named : entries.Named) (flat : entries.Flat) (broken : (entries.count + 2) % DPB ≠ 0)
    (distinct : (entries.names.map strncpy).Nodup) : WellFormed s := by
  have built := finished.built
  have inodes := built.inodes
  have room := built.room
  have length := built.length
  constructor
  case superblock => exact built.decode
  case inodes =>
    intro i uses
    rw [built.decode]
    exact uses.2.trans_le inodes
  case blocks =>
    intro b used
    rw [built.decode]
    change b < 1024
    rcases used with below | refers
    · omega
    · have inside := (built.refers_iff b).mp refers
      omega
  case writes =>
    intro i uses
    rw [built.decode]
    have block := i2b_lt (uses.2.trans_le inodes)
    exact block.trans_le (by decide)
  case bitmap =>
    intro b small
    have low := built.pool.low
    rw [finished.used_iff small, built.dataStart, built.refers_iff]
    omega
  case addresses =>
    intro i uses
    by_cases isRoot : i = ROOTINO
    · rw [isRoot]
      exact finished.addressed_root_iff.mpr (flat.number_eq ▸ broken)
    · have high := uses.2
      have low := uses.1
      rw [finished.freeinode] at high
      simp only [ROOTINO] at isRoot
      have isFile := finished.encodes.isFile flat (i := i) (by omega) high
      exact built.addressed uses (by rw [isFile.2]; rfl)
  case names =>
    intro d mem
    rw [finished.directories_eq flat, mem_singleton] at mem
    rw [mem]
    exact (finished.names_iff named).mpr distinct
  case nlink =>
    intro i mem
    rw [finished.directories_eq flat] at mem ⊢
    rw [mem_singleton.mp mem, Finset.sum_singleton, finished.namings_root, Finset.card_singleton,
      (built.node ROOTINO finished.uses_root.1 finished.uses_root.2).nlink]
    rfl

/-- mkfs gives the kernel an image that it can keep consistent exactly if the
tree is a directory of files, at most 198 of them and with the two entries for
the dots no multiple of the entries in a block, whose names differ in their
first 14 bytes. -/
theorem wellFormed_iff (entries : Entries) (named : entries.Named)
    (image : FsImage) (builds : Builds entries image) :
    WellFormed image ↔ entries.Flat ∧ entries.count + 2 ≤ NINODES ∧
      (entries.count + 2) % DPB ≠ 0 ∧ (entries.names.map strncpy).Nodup := by
  constructor
  · intro good
    have few : 2 + entries.count ≤ NINODES := by
      by_contra many
      have uses : Uses image NINODES := by
        refine ⟨by decide, ?_⟩
        rw [builds.freeinode]
        omega
      have below := good.inodes NINODES uses
      rw [good.superblock] at below
      exact Nat.lt_irrefl NINODES below
    obtain ⟨owner, nodes, finished⟩ := builds.finished few
    have root := finished.uses_root
    have rootDir : ROOTINO ∈ directories image :=
      (finished.built.mem_directories root).mpr (by rw [finished.root]; rfl)
    have flat : entries.Flat := by
      by_contra deep
      have many := finished.two_le_namings deep
      have nlink := good.nlink ROOTINO rootDir
      rw [(finished.built.node ROOTINO root.1 root.2).nlink] at nlink
      change 1 = _ at nlink
      omega
    refine ⟨flat, by omega, ?_, ?_⟩
    · have addressed := finished.addressed_root_iff.mp (good.addresses ROOTINO root)
      rwa [flat.number_eq] at addressed
    · exact (finished.names_iff named).mp (good.names ROOTINO rootDir)
  · rintro ⟨flat, few, broken, distinct⟩
    obtain ⟨owner, nodes, finished⟩ := builds.finished (by omega)
    exact finished.wellFormed named flat broken distinct

/-- A directory with one empty file. -/
def oneFile : Entries := .file [97] [] .nil

/-- A directory with one empty directory. -/
def oneDir : Entries := .dir [97] .nil .nil

/-- mkfs exits with status 0 on a small tree. -/
theorem exists_builds {entries : Entries} (fits : Fits entries)
    (few : 2 + entries.count ≤ NINODES) : ∃ image, Builds entries image := by
  have run := wp_main (E := fun _ => False) (Q := fun _ _ => True) entries few
    (fun tight => absurd fits tight) fun _ _ _ _ => trivial
  obtain ⟨_, image, built, _⟩ := wp_returns run
  exact ⟨image, built⟩

theorem fits_oneFile : Fits oneFile :=
  ⟨⟨by decide, trivial⟩, by decide, by decide⟩

theorem fits_oneDir : Fits oneDir :=
  ⟨⟨by decide, trivial, trivial⟩, by decide, by decide⟩

/-- One file gives a good image. -/
theorem oneFile_wellFormed : oneFile.Named ∧ ∃ image, Builds oneFile image ∧ WellFormed image := by
  have named : oneFile.Named := ⟨by decide, trivial⟩
  obtain ⟨image, builds⟩ := exists_builds fits_oneFile (by decide)
  refine ⟨named, image, builds, ?_⟩
  exact (wellFormed_iff oneFile named image builds).mpr ⟨trivial, by decide, by decide, by decide⟩

/-- One directory does not: the link count of the root is 1, but both `..`
entries name the root. -/
theorem oneDir_links : oneDir.Named ∧ ∃ image, Builds oneDir image ∧
    ((disk image).dinode ROOTINO).nlink.toNat = 1 ∧
    2 ≤ ∑ d ∈ directories image, (namings image ROOTINO d).card ∧
    ¬ WellFormed image := by
  obtain ⟨image, builds⟩ := exists_builds fits_oneDir (by decide)
  obtain ⟨owner, nodes, finished⟩ := builds.finished (by decide)
  have root := finished.uses_root
  have links : ((disk image).dinode ROOTINO).nlink.toNat = 1 := by
    rw [(finished.built.node ROOTINO root.1 root.2).nlink]
    rfl
  have named := finished.two_le_namings id
  refine ⟨⟨by decide, trivial, trivial⟩, image, builds, links, named, ?_⟩
  intro good
  have rootDir : ROOTINO ∈ directories image :=
    (finished.built.mem_directories root).mpr (by rw [finished.root]; rfl)
  have rule := good.nlink ROOTINO rootDir
  omega

end Mkfs

end Xv6
