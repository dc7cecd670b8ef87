/-
Purpose: What the block layer does to the sectors: rules for buffers, exact
  rules for `balloc` and `bfree` in terms of the bitmap, and the round trip
  of inodes through the disk.
-/
import Xv6.Fs.Inode

namespace Xv6.Fs

open Bytes PanicM

variable {α : Type} {d : Disk} {E : FsPanic → Prop}
variable {x k bi i : Nat} {Q : Unit → Disk → Prop} {bp : Bytes.Store}

/-! ## Buffers -/

namespace Disk

@[simp] theorem hold_held (d : Disk) (x : Nat) : (d.hold x).held = x :: d.held := rfl

@[simp] theorem setSector_held (d : Disk) (x : Nat) (data : Bytes.Store) :
    (d.setSector x data).held = d.held := rfl

theorem setSector_self (d : Disk) (x : Nat) (data : Bytes.Store) :
    (d.setSector x data).sectors x = data := Function.update_self ..

theorem setSector_of_ne {x y : Nat} (ne : y ≠ x) (d : Disk) (data : Bytes.Store) :
    (d.setSector x data).sectors y = d.sectors y :=
  Function.update_of_ne ne ..

@[simp] theorem hold_release (d : Disk) (x : Nat) : (d.hold x).release x = d := by
  simp [hold, release]

@[simp] theorem hold_setSector_release (d : Disk) (x y : Nat) (data : Bytes.Store) :
    ((d.hold x).setSector y data).release x = d.setSector y data := by
  simp [hold, release, setSector]

end Disk

theorem wp_bread {Q : Bytes.Store → Disk → Prop} (idle : x ∉ d.held) (few : d.held.length < NBUF) :
    wp (bread x) Q E d ↔ Q (d.sectors x) (d.hold x) := by
  unfold bread
  rw [wp_bind, wp_get, if_neg idle, if_neg (Nat.not_le_of_lt few), wp_bind, wp_set, wp_pure]

theorem wp_bwrite {data : Bytes.Store} (busy : x ∈ d.held) :
    wp (bwrite x data) Q E d ↔ Q () (d.setSector x data) := by
  unfold bwrite
  rw [wp_bind, wp_get, if_pos busy, wp_set]

theorem wp_brelse (busy : x ∈ d.held) : wp (brelse x) Q E d ↔ Q () (d.release x) := by
  unfold brelse
  rw [wp_bind, wp_get, if_pos busy, wp_set]

theorem wp_bread_brelse {next : Bytes.Store → FsM α} {Q : α → Disk → Prop} (idle : x ∉ d.held)
    (few : d.held.length < NBUF) (rest : wp (next (d.sectors x)) Q E d) :
    wp (do
      let bp ← bread x
      brelse x
      next bp) Q E d := by
  rw [wp_bind, wp_bread idle few, wp_bind, wp_brelse (by simp), Disk.hold_release]
  exact rest

theorem wp_change (update : Bytes.Store → Bytes.Store) (idle : x ∉ d.held)
    (few : d.held.length < NBUF) (rest : Q () (d.setSector x (update (d.sectors x)))) :
    wp (do
      let bp ← bread x
      bwrite x (update bp)
      brelse x) Q E d := by
  rw [wp_bind, wp_bread idle few, wp_bind, wp_bwrite (by simp),
    wp_brelse (by simp), Disk.hold_setSector_release]
  exact rest

/-! ## The bitmap -/

namespace Disk

variable {x b : Nat}

/-- At least `k` buffers are idle, and no buffer of the superblock, an inode
or the bitmap is busy. -/
def Quiet (d : Disk) (k : Nat) : Prop :=
  d.held.length + k ≤ NBUF ∧ ∀ x ∈ d.held, d.dataStart ≤ x

/-- Set or clear the bitmap bit of block `b`. -/
def setUsed (d : Disk) (b : Nat) (value : Bool) : Disk :=
  d.setSector (bblock b d.superblock.ninodes)
    (setBit (d.sectors (bblock b d.superblock.ninodes)) (b % BPB) value)

/-- What `balloc` does when it returns `b`. -/
def take (d : Disk) (b : Nat) : Disk := (d.setUsed b true).give b

/-- What `bfree` does to block `b`. -/
def free (d : Disk) (b : Nat) : Disk :=
  (d.setSector b (fill (d.sectors b) 0 0 BSIZE)).setUsed b false

theorem superblock_setSector (high : 1 < x) (d : Disk) (data : Bytes.Store) :
    (d.setSector x data).superblock = d.superblock := by
  unfold superblock
  rw [setSector_of_ne (by omega)]

theorem one_lt_bblock (b ninodes : Nat) : 1 < bblock b ninodes := by
  unfold bblock
  simp only [BPB, IPB]
  omega

@[simp] theorem superblock_setUsed (d : Disk) (b : Nat) (value : Bool) :
    (d.setUsed b value).superblock = d.superblock :=
  superblock_setSector (one_lt_bblock ..) ..

@[simp] theorem superblock_take (d : Disk) (b : Nat) :
    (d.take b).superblock = d.superblock := superblock_setUsed d b true

theorem used_setUsed (d : Disk) (b c : Nat) (value : Bool) :
    (d.setUsed b value).used c = if c = b then value else d.used c := by
  unfold used
  rw [superblock_setUsed]
  by_cases sameBlock : c / BPB = b / BPB
  · have sector : bblock c d.superblock.ninodes = bblock b d.superblock.ninodes := by
      unfold bblock
      rw [sameBlock]
    have sameBit : c % BPB = b % BPB ↔ c = b := by
      simp only [BPB] at sameBlock ⊢
      omega
    rw [sector, setUsed, setSector_self, bit_setBit]
    simp only [sameBit]
  · have sector : bblock c d.superblock.ninodes ≠ bblock b d.superblock.ninodes := by
      unfold bblock
      omega
    have ne : c ≠ b := by
      intro same
      exact sameBlock (by rw [same])
    rw [setUsed, setSector_of_ne sector, if_neg ne]

theorem used_take (d : Disk) (b c : Nat) : (d.take b).used c = if c = b then true else d.used c :=
  used_setUsed d b c true

theorem used_setSector (above : d.dataStart ≤ x ∨
    (1 < x ∧ x < d.superblock.ninodes / IPB + 3)) (data : Bytes.Store)
    (small : b < d.bitmapEnd) : (d.setSector x data).used b = d.used b := by
  have high : 1 < x := by
    unfold dataStart at above
    simp only [BPB, IPB] at above
    omega
  unfold used
  rw [superblock_setSector high, setSector_of_ne]
  unfold bitmapEnd dataStart at *
  unfold bblock
  simp only [BPB, IPB] at *
  omega

theorem bblock_lt_dataStart (small : b < d.bitmapEnd) :
    bblock b d.superblock.ninodes < d.dataStart := by
  unfold bitmapEnd dataStart bblock at *
  simp only [BPB, IPB] at *
  omega

namespace Quiet

variable {k x : Nat}

theorem idle (quiet : d.Quiet k) (low : x < d.dataStart) : x ∉ d.held := by
  intro busy
  exact absurd (quiet.2 x busy) (Nat.not_le_of_lt low)

theorem few (quiet : d.Quiet (k + 1)) : d.held.length < NBUF := by
  have room := quiet.1
  omega

theorem hold (quiet : d.Quiet (k + 1)) (high : d.dataStart ≤ x) : (d.hold x).Quiet k := by
  constructor
  · have room := quiet.1
    simp only [hold_held, List.length_cons]
    omega
  · intro y busy
    rcases List.mem_cons.mp busy with same | busy
    · rw [same]
      exact high
    · exact quiet.2 y busy

theorem congr {d' : Disk} (quiet : d.Quiet k)
    (held : d'.held = d.held) (superblock : d'.superblock = d.superblock) : d'.Quiet k := by
  unfold Quiet dataStart at *
  rw [held, superblock]
  exact quiet

end Quiet

theorem one_lt_dataStart (d : Disk) : 1 < d.dataStart := by
  unfold dataStart
  simp only [BPB, IPB]
  omega

end Disk

theorem wp_readsb {Q : Superblock → Disk → Prop}
    (quiet : d.Quiet (k + 1)) (rest : Q d.superblock d) : wp readsb Q E d :=
  wp_bread_brelse (quiet.idle d.one_lt_dataStart) quiet.few (by rw [wp_pure]; exact rest)

theorem firstClear_some (found : firstClear bp = some bi) :
    bi < BPB ∧ bit bp bi = false ∧ ∀ j < bi, bit bp j = true := by
  unfold firstClear at found
  obtain ⟨clear, small, below⟩ := List.find?_range_eq_some.mp found
  rw [Bool.not_eq_true'] at clear
  refine ⟨List.mem_range.mp small, clear, fun j less => ?_⟩
  have set := below j less
  rw [Bool.not_not] at set
  exact set

theorem firstClear_none (full : firstClear bp = none) : ∀ j < BPB, bit bp j = true := by
  unfold firstClear at full
  intro j less
  have set := List.find?_range_eq_none.mp full j less
  rw [Bool.not_not] at set
  exact set

theorem used_in_block (d : Disk) (k : Nat) (small : bi < BPB) : d.used (BPB * k + bi) =
      bit (d.sectors (bblock (BPB * k) d.superblock.ninodes)) bi := by
  have quotient : (BPB * k + bi) / BPB = BPB * k / BPB := by
    simp only [BPB] at *
    omega
  have remainder : (BPB * k + bi) % BPB = bi := by
    simp only [BPB] at *
    omega
  unfold Disk.used bblock
  rw [quotient, remainder]

/-- The search from bitmap block `k` on finds the first clear bit. -/
theorem wp_ballocLoop {Q : Nat → Disk → Prop} (quiet : d.Quiet 1)
    (left k : Nat) (inside : BPB * (k + left) ≤ d.bitmapEnd)
    (found : ∀ b, BPB * k ≤ b → b < BPB * (k + left) → d.used b = false →
      (∀ c, BPB * k ≤ c → c < b → d.used c = true) → Q b (d.take b))
    (full : (∀ c, BPB * k ≤ c → c < BPB * (k + left) → d.used c = true) → E .balloc) :
    wp (ballocLoop d.superblock.ninodes left (BPB * k)) Q E d := by
  induction left generalizing k with
  | zero =>
    unfold ballocLoop
    rw [wp_throw]
    apply full
    intro c low high
    exact absurd high (Nat.not_lt_of_le low)
  | succ left ih =>
    have first : BPB * k < d.bitmapEnd := by
      simp only [BPB] at *
      omega
    have idle := quiet.idle (d.bblock_lt_dataStart first)
    unfold ballocLoop
    rw [wp_bind, wp_bread idle quiet.few]
    cases search : firstClear (d.sectors (bblock (BPB * k) d.superblock.ninodes)) with
    | some bi =>
      obtain ⟨small, clear, below⟩ := firstClear_some search
      have sector : bblock (BPB * k + bi) d.superblock.ninodes =
          bblock (BPB * k) d.superblock.ninodes := by
        unfold bblock
        simp only [BPB] at *
        omega
      have offset : (BPB * k + bi) % BPB = bi := by
        simp only [BPB] at *
        omega
      simp only
      rw [wp_bind, wp_bwrite (by simp), wp_bind, wp_brelse (by simp),
        Disk.hold_setSector_release, wp_bind, wp_modify, wp_pure]
      have post := found (BPB * k + bi) (Nat.le_add_right _ _) (by simp only [BPB] at *; omega)
        (by rw [used_in_block d k small, clear])
        (by
          intro c low high
          obtain ⟨j, rfl⟩ := Nat.exists_eq_add_of_le low
          rw [used_in_block d k (by omega)]
          exact below j (by omega))
      unfold Disk.take Disk.setUsed at post
      rw [sector, offset] at post
      exact post
    | none =>
      have used := firstClear_none search
      have covered : ∀ c, BPB * k ≤ c → c < BPB * (k + 1) → d.used c = true := by
        intro c low high
        obtain ⟨j, rfl⟩ := Nat.exists_eq_add_of_le low
        have small : j < BPB := by
          simp only [BPB] at *
          omega
        rw [used_in_block d k small]
        exact used j small
      simp only
      rw [wp_bind, wp_brelse (by simp), Disk.hold_release, ← Nat.mul_succ]
      have shift : k + 1 + left = k + (left + 1) := by omega
      apply ih (k + 1)
      · rw [shift]
        exact inside
      · intro b low high clear below
        rw [shift] at high
        apply found b (by simp only [BPB] at *; omega) high clear
        intro c above less
        by_cases inBlock : c < BPB * (k + 1)
        · exact covered c above inBlock
        · exact below c (Nat.le_of_not_lt inBlock) less
      · intro rest
        apply full
        intro c above less
        by_cases inBlock : c < BPB * (k + 1)
        · exact covered c above inBlock
        · exact rest c (Nat.le_of_not_lt inBlock) (by rw [shift]; exact less)

/-- `balloc` takes the first block of the bitmap whose bit is clear, and
panics when there is none. -/
theorem wp_balloc {Q : Nat → Disk → Prop} (quiet : d.Quiet 1)
    (found : ∀ b < d.bitmapEnd, d.used b = false → (∀ c < b, d.used c = true) → Q b (d.take b))
    (full : (∀ c < d.bitmapEnd, d.used c = true) → E .balloc) : wp balloc Q E d := by
  unfold balloc
  rw [wp_bind]
  apply wp_readsb quiet
  have search := wp_ballocLoop (E := E) (Q := Q) quiet ((d.superblock.size + (BPB - 1)) / BPB) 0
    (by rw [Nat.zero_add, Nat.mul_comm]; exact Nat.le_refl _)
  rw [Nat.mul_zero, Nat.zero_add, Nat.mul_comm] at search
  apply search
  · intro b _ small clear below
    exact found b small clear fun c less => below c (Nat.zero_le c) less
  · intro used
    exact full fun c small => used c (Nat.zero_le c) small

/-- `bfree` of a block of the data area whose bit is set. -/
theorem wp_bfree {b : Nat} (quiet : d.Quiet 1)
    (idle : b ∉ d.held) (low : d.dataStart ≤ b) (small : b < d.bitmapEnd) (used : d.used b = true)
    (rest : Q () (d.free b)) : wp (bfree b) Q E d := by
  have high : 1 < b := d.one_lt_dataStart.trans_le low
  have zeroed := wp_change (fun bp => fill bp 0 0 BSIZE) (x := b)
    (E := E) (Q := fun _ after => after = d.setSector b
      (fill (d.sectors b) 0 0 BSIZE)) idle quiet.few rfl
  unfold bfree
  rw [wp_bind]
  refine wp_imp zeroed fun _ middle same => ?_
  subst same
  have superblock := Disk.superblock_setSector high d (fill (d.sectors b) 0 0 BSIZE)
  have still : (d.setSector b (fill (d.sectors b) 0 0 BSIZE)).Quiet 1 := quiet.congr rfl superblock
  have sector : bblock b d.superblock.ninodes < d.dataStart := d.bblock_lt_dataStart small
  rw [wp_bind]
  apply wp_readsb still
  have idleBitmap : bblock b d.superblock.ninodes ∉
      (d.setSector b (fill (d.sectors b) 0 0 BSIZE)).held :=
    quiet.idle sector
  rw [superblock, wp_bind, wp_bread idleBitmap still.few, Disk.setSector_of_ne (by omega)]
  unfold Disk.used at used
  rw [if_pos used, wp_bind, wp_bwrite (by simp), wp_brelse (by simp), Disk.hold_setSector_release]
  unfold Disk.free Disk.setUsed at rest
  rw [superblock, Disk.setSector_of_ne (by omega)] at rest
  exact rest

theorem one_lt_iblock (i : Nat) : 1 < iblock i :=
  Nat.lt_add_left _ (by decide)

theorem iblock_lt {n : Nat} (small : i < n) : iblock i < n / IPB + 3 := by
  unfold iblock
  simp only [IPB] at *
  omega

theorem Disk.iblock_lt_dataStart (small : i < d.superblock.ninodes) : iblock i < d.dataStart := by
  have inode := iblock_lt small
  unfold Disk.dataStart
  simp only [IPB, BPB] at *
  omega

/-- Store an inode. -/
def Disk.setDinode (d : Disk) (i : Nat) (dn : Dinode) : Disk :=
  d.setSector (iblock i) (dn.store (d.sectors (iblock i)) (dinodeBase i))

theorem wp_iupdate {ip : Inode} (quiet : d.Quiet (k + 1)) (small : ip.inum < d.superblock.ninodes)
    (rest : Q () (d.setDinode ip.inum ip.toDinode)) : wp (iupdate ip) Q E d :=
  wp_change (fun bp => ip.toDinode.store bp (dinodeBase ip.inum))
    (quiet.idle (d.iblock_lt_dataStart small)) quiet.few rest

/-! ## Inodes on disk -/

namespace Dinode

variable {data : Bytes.Store} {base : Nat}

theorem store_outside (dn : Dinode) {a : Nat} (outside : a < base ∨ base + DINODESIZE ≤ a) :
    dn.store data base a = data a := by
  unfold store
  simp only [DINODESIZE] at outside
  rw [putWords_outside, put_outside, put_outside, put_outside, put_outside, put_outside]
  all_goals simp only [le16, le32, List.length_cons, List.length_nil, NDIRECT]
  all_goals omega

theorem load_congr {data' : Bytes.Store}
    (same : ∀ k < DINODESIZE, data (base + k) = data' (base + k)) :
    load data base = load data' base := by
  have short : ∀ o, o + 2 ≤ DINODESIZE → word16 data (base + o) = word16 data' (base + o) := by
    intro o inside
    apply word16_congr
    intro k less
    rw [Nat.add_assoc]
    exact same (o + k) (by omega)
  have long : ∀ o, o + 4 ≤ DINODESIZE → word32 data (base + o) = word32 data' (base + o) := by
    intro o inside
    apply word32_congr
    intro k less
    rw [Nat.add_assoc]
    exact same (o + k) (by omega)
  have addrs : ∀ i : Fin (NDIRECT + 1), word32 data (base + 12 + 4 * i) =
        word32 data' (base + 12 + 4 * i) := by
    intro i
    have bound := i.isLt
    rw [Nat.add_assoc]
    apply long
    simp only [NDIRECT, DINODESIZE] at *
    omega
  have first := short 0 (by decide)
  rw [Nat.add_zero] at first
  unfold load
  rw [first, short 2 (by decide), short 4 (by decide), short 6 (by decide), long 8 (by decide)]
  simp only [addrs]

theorem load_store_type (dn : Dinode) : (load (dn.store data base) base).type = dn.type := by
  have small := dn.type.toNat_lt
  have word : word16 (dn.store data base) base = dn.type.toNat := by
    unfold store
    rw [word16_putWords_outside (by omega), word16_put_outside (by omega),
      word16_put_outside (by omega), word16_put_outside (by omega),
      word16_put_outside (by omega), word16_put_le16 small]
  unfold load
  simp only [word, UInt16.ofNat_toNat]

theorem load_store_addrs (dn : Dinode) (small : ∀ a, dn.addrs a < 2 ^ 32) :
    (load (dn.store data base) base).addrs = dn.addrs := by
  funext i
  have word : dn.words i = dn.addrs i := dif_pos i.isLt
  unfold load store
  simp only
  rw [word32_putWords i.isLt (by rw [word]; exact small i), word]

/-- An inode reads back as it was stored. -/
theorem load_store (dn : Dinode) (size : dn.size < 2 ^ 32) (small : ∀ a, dn.addrs a < 2 ^ 32) :
    load (dn.store data base) base = dn := by
  have type : (load (dn.store data base) base).type = dn.type := load_store_type dn
  have addrs : (load (dn.store data base) base).addrs = dn.addrs := load_store_addrs dn small
  have major : word16 (dn.store data base) (base + 2) = dn.major.toNat := by
    unfold store
    rw [word16_putWords_outside (by omega), word16_put_outside (by omega),
      word16_put_outside (by omega), word16_put_outside (by omega),
      word16_put_le16 dn.major.toNat_lt]
  have minor : word16 (dn.store data base) (base + 4) = dn.minor.toNat := by
    unfold store
    rw [word16_putWords_outside (by omega), word16_put_outside (by omega),
      word16_put_outside (by omega), word16_put_le16 dn.minor.toNat_lt]
  have nlink : word16 (dn.store data base) (base + 6) = dn.nlink.toNat := by
    unfold store
    rw [word16_putWords_outside (by omega), word16_put_outside (by omega),
      word16_put_le16 dn.nlink.toNat_lt]
  have length : word32 (dn.store data base) (base + 8) = dn.size := by
    unfold store
    rw [word32_congr fun _ _ => putWords_outside (by omega), word32_put_le32 size]
  unfold load at type addrs ⊢
  simp only [major, minor, nlink, length, UInt16.ofNat_toNat] at type addrs ⊢
  rw [type, addrs]

/-- The inode that `ialloc` leaves: the type, and zeros. -/
def fresh (type : UInt16) : Dinode where
  type := type
  major := 0
  minor := 0
  nlink := 0
  size := 0
  addrs := fun _ => 0

theorem load_fresh (type : UInt16) : load (put (fill data base 0 DINODESIZE) base
      (le16 type.toNat)) base = fresh type := by
  have small := type.toNat_lt
  have zero : ∀ o, 2 ≤ o → o < DINODESIZE → put (fill data base 0 DINODESIZE) base
        (le16 type.toNat) (base + o) = 0 := by
    intro o low high
    have beyond : base + (le16 type.toNat).length ≤ base + o := by
      simpa [le16] using low
    rw [put_outside (Or.inr beyond)]
    unfold fill
    rw [if_pos (by omega)]
  have short : ∀ o, 2 ≤ o → o + 2 ≤ DINODESIZE → word16 (put (fill data base 0 DINODESIZE) base
        (le16 type.toNat)) (base + o) = 0 := by
    intro o low high
    apply word16_zero
    intro k less
    rw [Nat.add_assoc]
    exact zero (o + k) (by omega) (by omega)
  have long : ∀ o, 2 ≤ o → o + 4 ≤ DINODESIZE → word32 (put (fill data base 0 DINODESIZE) base
        (le16 type.toNat)) (base + o) = 0 := by
    intro o low high
    apply word32_zero
    intro k less
    rw [Nat.add_assoc]
    exact zero (o + k) (by omega) (by omega)
  have addrs : ∀ i : Fin (NDIRECT + 1), word32 (put (fill data base 0 DINODESIZE) base
        (le16 type.toNat)) (base + 12 + 4 * i) = 0 := by
    intro i
    have bound := i.isLt
    rw [Nat.add_assoc]
    apply long
    · omega
    · simp only [NDIRECT, DINODESIZE] at *
      omega
  unfold load
  rw [word16_put_le16 small, short 2 (by decide) (by decide),
    short 4 (by decide) (by decide), short 6 (by decide) (by decide),
    long 8 (by decide) (by decide), UInt16.ofNat_toNat]
  simp only [addrs]
  rfl

end Dinode

namespace Disk

variable {i j : Nat}

theorem dinode_setSector_of_ne (ne : j ≠ i) {bytes : Bytes.Store}
    (outside : ∀ a, a < dinodeBase i ∨ dinodeBase i + DINODESIZE ≤ a →
      bytes a = d.sectors (iblock i) a) : (d.setSector (iblock i) bytes).dinode j = d.dinode j := by
  unfold dinode
  by_cases sameBlock : iblock j = iblock i
  · rw [sameBlock, setSector_self]
    apply Dinode.load_congr
    intro k less
    apply outside
    unfold iblock dinodeBase at *
    simp only [IPB, DINODESIZE] at *
    omega
  · rw [setSector_of_ne sameBlock]

theorem dinode_setDinode_of_ne (ne : j ≠ i) (d : Disk)
    (dn : Dinode) : (d.setDinode i dn).dinode j = d.dinode j :=
  dinode_setSector_of_ne ne fun _ => dn.store_outside

theorem dinode_setDinode_type (d : Disk) (i : Nat) (dn : Dinode) :
    ((d.setDinode i dn).dinode i).type = dn.type := by
  unfold dinode setDinode
  rw [setSector_self, Dinode.load_store_type]

theorem dinode_setDinode_addrs (d : Disk) (i : Nat) {dn : Dinode}
    (small : ∀ a, dn.addrs a < 2 ^ 32) : ((d.setDinode i dn).dinode i).addrs = dn.addrs := by
  unfold dinode setDinode
  rw [setSector_self, Dinode.load_store_addrs dn small]

theorem dinode_setDinode (d : Disk) (i : Nat) {dn : Dinode} (size : dn.size < 2 ^ 32)
    (small : ∀ a, dn.addrs a < 2 ^ 32) : (d.setDinode i dn).dinode i = dn := by
  unfold dinode setDinode
  rw [setSector_self, Dinode.load_store dn size small]

end Disk

end Xv6.Fs
