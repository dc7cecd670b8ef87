/-
Purpose: Reading files and directories all of whose blocks are there: nothing
  on the disk changes, and what is read is what the blocks hold.
-/
import Xv6.Proofs.FsOwned
import Xv6.Fs.Dir

namespace Xv6.Fs

open Bytes PanicM

/-! ## Contents -/

namespace Disk

/-- The bytes of a file; what has no block reads as zero. -/
def contents (d : Disk) (dn : Dinode) : Bytes.Store :=
  fun off => d.view dn (.file (off / BSIZE)) (off % BSIZE)

/-- Inode number in entry `k` of a directory. -/
def entryInum (d : Disk) (dn : Dinode) (k : Nat) : Nat :=
  word16 (d.contents dn) (DIRENTSIZE * k)

/-- Name in entry `k` of a directory. -/
def entryName (d : Disk) (dn : Dinode) (k : Nat) : List UInt8 :=
  slice (d.contents dn) (DIRENTSIZE * k + 2) DIRSIZ

/-- The file has its first `n` blocks. -/
def Has (d : Disk) (dn : Dinode) (n : Nat) : Prop :=
  ∀ bn < n, bn < MAXFILE ∧ d.ptr dn (.file bn) ≠ 0

theorem contents_sectors {d d' : Disk} (same : d'.sectors = d.sectors)
    (dn : Dinode) : d'.contents dn = d.contents dn := by
  obtain ⟨sectors, held, given⟩ := d
  obtain ⟨sectors', held', given'⟩ := d'
  obtain rfl : sectors' = sectors := same
  rfl

theorem Has.sectors {d d' : Disk} {dn : Dinode} {n : Nat} (has : d.Has dn n)
    (same : d'.sectors = d.sectors) : d'.Has dn n := by
  obtain ⟨sectors, held, given⟩ := d
  obtain ⟨sectors', held', given'⟩ := d'
  obtain rfl : sectors' = sectors := same
  exact has

end Disk

section Read

variable {d : Disk} {ip : Inode} {n bn : Nat} {E : FsPanic → Prop}

theorem wp_bmap_there {Q : Nat × Inode → Disk → Prop} (idle : d.held = [])
    (has : d.Has ip.toDinode n) (below : bn < n) (rest : Q (d.ptr ip.toDinode (.file bn), ip) d) :
    wp (bmap ip bn) Q E d := by
  obtain ⟨inFile, some⟩ := has bn below
  unfold bmap
  by_cases small : bn < NDIRECT
  · rw [PtrSlot.file_direct small] at some rest
    simp only [Disk.ptr] at some rest
    rw [dif_pos small]
    unfold bmapAddr
    rw [if_neg some, wp_pure]
    exact rest
  · have inRange : bn - NDIRECT < NINDIRECT := by
      simp only [MAXFILE] at inFile
      omega
    rw [PtrSlot.file_entry small inRange] at some rest
    have indirect : ip.addrs INDIRECT ≠ 0 := by
      intro none
      exact some (if_pos none)
    have entry : d.ptr ip.toDinode (.entry ⟨bn - NDIRECT, inRange⟩) =
        word32 (d.sectors (ip.addrs INDIRECT)) (4 * (bn - NDIRECT)) :=
      if_neg indirect
    rw [entry] at some rest
    rw [dif_neg small, if_pos inRange, wp_bind]
    unfold bmapAddr
    rw [if_neg indirect, wp_pure, wp_bind]
    unfold bmapEntry
    rw [wp_bind, wp_bread (by rw [idle]; exact List.not_mem_nil)
      (by rw [idle]; decide), if_neg some, wp_bind,
      wp_brelse (List.mem_cons_self ..)]
    rw [wp_pure, Disk.hold_release, wp_pure]
    exact rest

theorem wp_readiBlock_there {Q : Option (List UInt8) × Inode → Disk → Prop}
    {off m : Nat} (idle : d.held = []) (has : d.Has ip.toDinode n)
    (below : off / BSIZE < n) (plain : ip.type ≠ T_CHECKED) (inside : off % BSIZE + m ≤ BSIZE)
    (rest : Q (some (slice (d.contents ip.toDinode) off m), ip) d) :
    wp (readiBlock ip off m) Q E d := by
  have some := (has _ below).2
  have same : slice (d.sectors (d.ptr ip.toDinode (.file (off / BSIZE))))
      (off % BSIZE) m = slice (d.contents ip.toDinode) off m := by
    unfold slice
    refine List.map_congr_left fun o mem => ?_
    have less := List.mem_range.mp mem
    have block : (off + o) / BSIZE = off / BSIZE := by
      simp only [BSIZE] at *
      omega
    have place : (off + o) % BSIZE = off % BSIZE + o := by
      simp only [BSIZE] at *
      omega
    unfold Disk.contents Disk.view Disk.block
    rw [block, place, if_neg some, realAddr, if_neg plain]
  unfold readiBlock
  rw [wp_bind]
  refine wp_bmap_there idle has below ?_
  dsimp only
  rw [realAddr, if_neg plain, wp_bind,
    wp_bread (by rw [idle]; exact List.not_mem_nil) (by rw [idle]; decide),
    if_neg (fun checked => plain checked.1), wp_bind,
    wp_brelse (List.mem_cons_self ..), Disk.hold_release, wp_pure, same]
  exact rest

theorem wp_readiLoop_there (fuel : Nat) {off left : Nat}
    {Q : Bool × List UInt8 × Inode → Disk → Prop}
    (enough : left ≤ fuel) (idle : d.held = []) (has : d.Has ip.toDinode n)
    (below : off + left ≤ BSIZE * n) (plain : ip.type ≠ T_CHECKED)
    (rest : Q (true, slice (d.contents ip.toDinode) off left, ip) d) :
    wp (readiLoop fuel ip off left) Q E d := by
  induction fuel generalizing off left Q with
  | zero =>
    have none : left = 0 := Nat.le_zero.mp enough
    subst none
    exact rest
  | succ fuel ih =>
    unfold readiLoop
    by_cases none : left = 0
    · subst none
      rw [if_pos rfl, wp_pure]
      exact rest
    · rw [if_neg none, wp_bind]
      have pos : 0 < min left (BSIZE - off % BSIZE) := by
        simp only [BSIZE]
        omega
      have total : min left (BSIZE - off % BSIZE) +
          (left - min left (BSIZE - off % BSIZE)) = left := by omega
      refine wp_readiBlock_there idle has ?_ plain ?_ ?_
      · simp only [BSIZE] at *
        omega
      · simp only [BSIZE]
        omega
      · dsimp only
        rw [wp_bind]
        refine ih (by omega) (by omega) ?_
        rw [wp_pure, ← slice_add, total]
        exact rest

theorem wp_readi_there {Q : Int × List UInt8 × Inode → Disk → Prop}
    (typed : List UInt8) (idle : d.held = []) (has : d.Has ip.toDinode n)
    (size : ip.size ≤ BSIZE * n) (small : ip.size < 2 ^ 31)
    (plain : ip.type ≠ T_CHECKED) (inode : ip.type ≠ T_DEV) {off m : Nat}
    (start : off ≤ ip.size) (word : off + m < 2 ^ 32)
    (rest : Q (↑(min m (ip.size - off)), slice (d.contents ip.toDinode)
      off (min m (ip.size - off)), ip) d) : wp (readi typed ip off m) Q E d := by
  have total : u32 (off + m) = off + m := Nat.mod_eq_of_lt word
  have count : (if ip.size < u32 (off + m) then ip.size - off else m) = min m (ip.size - off) := by
    rw [total]
    split <;> omega
  unfold readi
  rw [if_neg inode, if_neg (by omega), wp_bind]
  simp only [count]
  refine wp_readiLoop_there _ le_rfl idle has ?_ plain ?_
  · omega
  · rw [wp_pure]
    have value : toInt32 (min m (ip.size - off)) = ↑(min m (ip.size - off)) := if_pos (by omega)
    simp only [if_true, value]
    exact rest

end Read

/-! ## Names -/

/-- A name as it is compared: its first `DIRSIZ` bytes up to a NUL. -/
def nameKey (bytes : Nat → UInt8) : List UInt8 :=
  ((List.range DIRSIZ).map bytes).takeWhile (· != 0)

theorem strncmp_eq_zero (p q : Nat → UInt8) (n i : Nat) :
    strncmp p q n i = 0 ↔ ((List.range' i n).map p).takeWhile (· != 0) =
      ((List.range' i n).map q).takeWhile (· != 0) := by
  induction n generalizing i with
  | zero => exact ⟨fun _ => rfl, fun _ => rfl⟩
  | succ n ih =>
    unfold strncmp
    rw [List.range'_succ, List.map_cons, List.map_cons, List.takeWhile_cons, List.takeWhile_cons]
    by_cases go : p i ≠ 0 ∧ p i = q i
    · have some := go.1
      rw [if_pos go, ih, ← go.2]
      simp [some]
    · rw [if_neg go]
      have same : ((p i).toNat : Int) - (q i).toNat = 0 ↔ p i = q i := by
        rw [← UInt8.toNat_inj]
        omega
      rw [same]
      by_cases ends : p i = 0
      · by_cases endsQ : q i = 0
        · simp [ends, endsQ]
        · simp [ends, endsQ, Ne.symm endsQ]
      · have ne : p i ≠ q i := fun equal => go ⟨ends, equal⟩
        by_cases endsQ : q i = 0
        · simp [ends, endsQ]
        · simp [ends, endsQ, ne]

theorem namecmp_iff (p q : Nat → UInt8) : namecmp p q = 0 ↔ nameKey p = nameKey q := by
  unfold namecmp nameKey
  rw [strncmp_eq_zero, List.range_eq_range']

theorem nameKey_congr {p q : Nat → UInt8} (same : ∀ i < DIRSIZ, p i = q i) :
    nameKey p = nameKey q := by
  unfold nameKey
  rw [List.map_congr_left fun i mem => same i (List.mem_range.mp mem)]

theorem nameKey_name {name : List UInt8} (zeroFree : 0 ∉ name)
    (short : name.length ≤ DIRSIZ) : nameKey (nameBytes name) = name := by
  have padded : (List.range DIRSIZ).map (nameBytes name) =
      name ++ List.replicate (DIRSIZ - name.length) 0 := by
    refine List.ext_getElem (by simp [short]) fun i less _ => ?_
    rw [List.getElem_append]
    unfold nameBytes
    split <;> rename_i inside
    · simp [inside]
    · simp [Nat.le_of_not_lt inside]
  have all : ∀ byte ∈ name, (byte != 0) = true :=
    fun byte member => bne_iff_ne.mpr fun zero => zeroFree (zero ▸ member)
  unfold nameKey
  rw [padded, List.takeWhile_append_of_pos all]
  simp

/-- Names that are not too long are compared exactly. -/
theorem namecmp_eq_zero {name other : List UInt8} {q : Nat → UInt8}
    (zeroFree : 0 ∉ name) (zeroFree' : 0 ∉ other)
    (short : name.length ≤ DIRSIZ) (short' : other.length ≤ DIRSIZ)
    (bytes : ∀ i < DIRSIZ, q i = other.getD i 0) :
    namecmp (nameBytes name) q = 0 ↔ name = other := by
  rw [namecmp_iff, nameKey_congr bytes, nameKey_name zeroFree short]
  exact Eq.congr_right (nameKey_name zeroFree' short')

/-! ## Lookup -/

section Lookup

variable {d : Disk} {ip : Inode} {n : Nat} {name : List UInt8}
  {E : FsPanic → Prop}

/-- The key of entry `k`. -/
def Disk.entryKey (d : Disk) (dn : Dinode) (k : Nat) : List UInt8 :=
  nameKey fun i => d.contents dn (DIRENTSIZE * k + 2 + i)

/-- Entry `k` of the directory is in use and has the name. -/
def Disk.Matches (d : Disk) (dn : Dinode) (name : List UInt8) (k : Nat) : Prop :=
  d.entryInum dn k ≠ 0 ∧ namecmp (nameBytes name)
    (fun i => d.contents dn (DIRENTSIZE * k + 2 + i)) = 0

theorem Disk.matches_iff {dn : Dinode} {k : Nat} : d.Matches dn name k ↔
    d.entryInum dn k ≠ 0 ∧ nameKey (nameBytes name) = d.entryKey dn k :=
  and_congr_right fun _ => namecmp_iff ..

theorem direntFind_block (name : List UInt8) {bn : Nat} (has : d.Has ip.toDinode n) (below : bn < n)
    (plain : ip.type ≠ T_CHECKED) {e : Nat} (small : e < DPB) :
    direntInum (d.sectors (d.ptr ip.toDinode (.file bn))) e =
        d.entryInum ip.toDinode (DPB * bn + e) ∧
      (namecmp (nameBytes name) (fun i => d.sectors
          (d.ptr ip.toDinode (.file bn)) (DIRENTSIZE * e + 2 + i)) = 0 ↔
        namecmp (nameBytes name) (fun i => d.contents ip.toDinode
          (DIRENTSIZE * (DPB * bn + e) + 2 + i)) = 0) := by
  have some := (has bn below).2
  have byte : ∀ o < 16, d.contents ip.toDinode (DIRENTSIZE * (DPB * bn + e) + o) =
      d.sectors (d.ptr ip.toDinode (.file bn)) (DIRENTSIZE * e + o) := by
    intro o less
    simp only [DPB] at small
    have block : (DIRENTSIZE * (DPB * bn + e) + o) / BSIZE = bn := by
      simp only [DIRENTSIZE, DPB, BSIZE]
      omega
    have place : (DIRENTSIZE * (DPB * bn + e) + o) % BSIZE = DIRENTSIZE * e + o := by
      simp only [DIRENTSIZE, DPB, BSIZE]
      omega
    unfold Disk.contents Disk.view Disk.block
    rw [block, place, if_neg some, realAddr, if_neg plain]
  constructor
  · have first := byte 0 (by decide)
    have second := byte 1 (by decide)
    rw [Nat.add_zero, Nat.add_zero] at first
    unfold direntInum Disk.entryInum word16
    rw [first, second]
  · rw [namecmp_iff, namecmp_iff]
    refine Eq.congr_right (nameKey_congr fun i less => ?_)
    simp only [DIRSIZ] at less
    rw [Nat.add_assoc, Nat.add_assoc]
    exact (byte (2 + i) (by omega)).symm

theorem direntFind_test {bn : Nat} (has : d.Has ip.toDinode n)
    (below : bn < n) (plain : ip.type ≠ T_CHECKED) {e : Nat} (small : e < DPB) :
    (direntInum (d.sectors (d.ptr ip.toDinode (.file bn))) e != 0 &&
      namecmp (nameBytes name) (fun i => d.sectors
        (d.ptr ip.toDinode (.file bn)) (DIRENTSIZE * e + 2 + i)) == 0) =
        true ↔ d.Matches ip.toDinode name (DPB * bn + e) := by
  obtain ⟨inum, compared⟩ := direntFind_block name has below plain small
  rw [Bool.and_eq_true, bne_iff_ne, beq_iff_eq, inum, compared]
  rfl

/-- `dirlookup` finds the first entry with the name, as long as the blocks up
to that entry are there. -/
theorem wp_dirlookupLoop_there {Q : Option (Nat × Nat) × Inode → Disk → Prop}
    (left : Nat) {bn : Nat} (idle : d.held = [])
    (has : d.Has ip.toDinode n) (plain : ip.type ≠ T_CHECKED)
    (there : ∀ b, bn ≤ b → b < bn + left → (∀ j, DPB * bn ≤ j → j < DPB * b →
      ¬ d.Matches ip.toDinode name j) → b < n)
    (found : ∀ k, DPB * bn ≤ k → k < DPB * (bn + left) → d.Matches ip.toDinode name k →
      (∀ j, DPB * bn ≤ j → j < k → ¬ d.Matches ip.toDinode name j) →
      Q (some (d.entryInum ip.toDinode k, DIRENTSIZE * k), ip) d)
    (absent : (∀ k, DPB * bn ≤ k → k < DPB * (bn + left) →
      ¬ d.Matches ip.toDinode name k) → Q (none, ip) d) :
    wp (dirlookupLoop name left bn ip) Q E d := by
  induction left generalizing bn with
  | zero => exact absent fun k low high => absurd low (Nat.not_le_of_lt high)
  | succ left ih =>
    have below : bn < n := there bn le_rfl (by omega)
      fun j low high => absurd low (Nat.not_le_of_lt high)
    unfold dirlookupLoop
    rw [wp_bind]
    refine wp_bmap_there idle has below ?_
    refine wp_bread_brelse (by rw [idle]; exact List.not_mem_nil) (by rw [idle]; decide) ?_
    have test : ∀ {e}, e < DPB → (_ ↔ d.Matches ip.toDinode name (DPB * bn + e)) :=
      fun small => direntFind_test has below plain small
    cases search : direntFind (d.sectors (d.ptr ip.toDinode (.file bn))) name with
    | some e =>
      unfold direntFind at search
      rw [List.find?_range_eq_some] at search
      obtain ⟨hit, inside, before⟩ := search
      have small := List.mem_range.mp inside
      have offset : BSIZE * bn + DIRENTSIZE * e = DIRENTSIZE * (DPB * bn + e) := by
        simp only [BSIZE, DIRENTSIZE, DPB]
        omega
      dsimp only
      rw [wp_pure, (direntFind_block name has below plain small).1, offset]
      simp only [DPB] at *
      refine found _ (by omega) (by omega) ((test small).mp hit) ?_
      intro j low high hits
      have index : 32 * bn + (j - 32 * bn) = j := by omega
      rw [← index] at hits
      have missed := before (j - 32 * bn) (by omega)
      rw [(test (by omega)).mpr hits] at missed
      cases missed
    | none =>
      unfold direntFind at search
      rw [List.find?_range_eq_none] at search
      have missed : ∀ j, DPB * bn ≤ j → j < DPB * (bn + 1) → ¬ d.Matches ip.toDinode name j := by
        intro j low high hits
        have small : j - DPB * bn < DPB := by
          simp only [DPB] at *
          omega
        rw [← Nat.add_sub_of_le low] at hits
        have miss := search _ small
        rw [(test small).mpr hits] at miss
        cases miss
      have later : ∀ {high : Nat}, (∀ j, DPB * (bn + 1) ≤ j → j < high →
          ¬ d.Matches ip.toDinode name j) → ∀ j, DPB * bn ≤ j →
          j < high → ¬ d.Matches ip.toDinode name j := by
        intro high rest j low less
        by_cases here : j < DPB * (bn + 1)
        · exact missed j low here
        · exact rest j (Nat.le_of_not_lt here) less
      have total : bn + 1 + left = bn + (left + 1) := by omega
      refine ih ?_ ?_ ?_
      · intro b low high none
        exact there b (by omega) (by omega) (later none)
      · intro k low high hit first
        rw [total] at high
        simp only [DPB] at *
        exact found k (by omega) high hit (later first)
      · intro none
        rw [total] at none
        exact absent (later none)

end Lookup

end Xv6.Fs
