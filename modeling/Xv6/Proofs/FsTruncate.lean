/-
Purpose: `itrunc` frees the blocks of an inode, each of them once, and leaves
  them zero; the other inodes are untouched.
-/
import Xv6.Proofs.FsInode

namespace Xv6.Fs

open Function PanicM
open List (finRange mem_append mem_cons_of_mem mem_cons_self mem_map)

/-! ## Freed blocks -/

namespace Disk

section Free

variable {d : Disk} {b : Nat}

theorem superblock_free (low : d.dataStart ≤ b) : (d.free b).superblock = d.superblock := by
  have pos := d.one_lt_dataStart
  unfold free
  rw [superblock_setUsed, superblock_setSector (by omega)]

theorem used_free (low : d.dataStart ≤ b) {c : Nat} (small : c < d.bitmapEnd) :
    (d.free b).used c = if c = b then false else d.used c := by
  unfold free
  rw [used_setUsed, used_setSector (Or.inl low) _ small]

theorem free_sectors_of_ne (low : d.dataStart ≤ b) {x : Nat}
    (ne : x ≠ b) (bitmap : x ≠ bblock b d.superblock.ninodes) :
    (d.free b).sectors x = d.sectors x := by
  have pos := d.one_lt_dataStart
  unfold free setUsed
  rw [superblock_setSector (by omega), setSector_of_ne bitmap, setSector_of_ne ne]

theorem isZero_free (low : d.dataStart ≤ b) (small : b < d.bitmapEnd) : (d.free b).IsZero b := by
  have pos := d.one_lt_dataStart
  have bitmap := d.bblock_lt_dataStart small
  intro k inside
  unfold free setUsed
  rw [superblock_setSector (by omega), setSector_of_ne (by omega), setSector_self]
  unfold Bytes.fill
  rw [if_pos (by omega)]

end Free

/-- The blocks of the list are marked, and no inode of `N` has a pointer to
them; null pointers in the list do not count. -/
structure Loose (limit : Nat) (N : Nat → Dinode) (d : Disk) (L : List Nat) : Prop where
  inData : ∀ b ∈ L, b ≠ 0 → d.dataStart ≤ b ∧ b < limit ∧ d.used b = true
  unclaimed : ∀ b ∈ L, b ≠ 0 → ∀ j s, d.block (N j) s ≠ b
  distinct : L.Pairwise fun a b => a ≠ 0 → a ≠ b

section Release

variable {limit : Nat} {N : Nat → Dinode} {d d' d'' : Disk} {b : Nat}
  {L rest : List Nat}

theorem Loose.tail (loose : Loose limit N d (b :: L)) : Loose limit N d L where
  inData := fun c mem => loose.inData c (mem_cons_of_mem b mem)
  unclaimed := fun c mem => loose.unclaimed c (mem_cons_of_mem b mem)
  distinct := loose.distinct.of_cons

theorem Owned.free (owned : d.Owned limit N) (low : d.dataStart ≤ b)
    (small : b < limit) (unclaimed : ∀ j s, d.block (N j) s ≠ b) :
    (d.free b).Owned limit N ∧ ∀ j s, (d.free b).block (N j) s = d.block (N j) s := by
  have inBitmap := small.trans_le owned.limit_le
  have bitmap := d.bblock_lt_dataStart inBitmap
  have look : ∀ j s, (d.free b).ptr (N j) s = d.ptr (N j) s := by
    intro j
    refine (owned.look (j := j) fun s some => ?_).1
    have inside := owned.inData j s some
    exact free_sectors_of_ne low (unclaimed j s) (by omega)
  refine ⟨?_, fun j s => congrArg (realAddr · (N j).type) (look j s)⟩
  apply owned.keep (superblock_free low) look
  case used =>
    intro c inside owner marked
    have other : c ≠ b := by
      rcases owner with metadata | ⟨j, s, rfl⟩
      · omega
      · exact unclaimed j s
    rw [used_free low inside, if_neg other, marked]
  case zero =>
    intro c less clear
    have inside := less.trans_le owned.limit_le
    rw [used_free low inside] at clear
    by_cases same : c = b
    · rw [same]
      exact isZero_free low inBitmap
    · rw [if_neg same] at clear
      have data := owned.free_high clear
      intro k less
      rw [free_sectors_of_ne low same (by omega)]
      exact owned.free_zero c (by omega) clear k less

theorem Loose.free (loose : Loose limit N d (b :: L)) (some : b ≠ 0)
    (owned : d.Owned limit N) : Loose limit N (d.free b) L := by
  obtain ⟨low, small, _⟩ := loose.inData b mem_cons_self some
  have block := (owned.free low small (loose.unclaimed b mem_cons_self some)).2
  constructor
  case inData =>
    intro c mem real
    obtain ⟨data, inside, marked⟩ := loose.tail.inData c mem real
    have ne : c ≠ b := fun same =>
      (List.pairwise_cons.mp loose.distinct).1 c mem some same.symm
    rw [dataStart_congr (superblock_free low),
      used_free low (inside.trans_le owned.limit_le),
      if_neg ne]
    exact ⟨data, inside, marked⟩
  case unclaimed =>
    intro c mem real j s
    rw [block]
    exact loose.tail.unclaimed c mem real j s
  case distinct => exact loose.distinct.of_cons

/-- The blocks of the list may have been freed; no other data sector and no
inode has changed. -/
structure Released (L : List Nat) (d d' : Disk) : Prop where
  superblock : d'.superblock = d.superblock
  held : d'.held = d.held
  given : d'.given = d.given
  inode : ∀ j < d.superblock.ninodes, d'.sectors (iblock j) = d.sectors (iblock j)
  still : ∀ x, d.dataStart ≤ x → x ∉ L → d'.sectors x = d.sectors x

theorem Released.refl (L : List Nat) (d : Disk) : Released L d d where
  superblock := rfl
  held := rfl
  given := rfl
  inode := fun _ _ => rfl
  still := fun _ _ _ => rfl

theorem Released.trans (first : Released L d d')
    (second : Released L d' d'') : Released L d d'' where
  superblock := second.superblock.trans first.superblock
  held := second.held.trans first.held
  given := second.given.trans first.given
  inode := by
    intro j small
    rw [second.inode j (by rw [first.superblock]; exact small), first.inode j small]
  still := by
    intro x data apart
    rw [second.still x (by rw [dataStart_congr first.superblock]; exact data)
      apart, first.still x data apart]

theorem Released.mono {M : List Nat} (released : Released L d d')
    (subset : ∀ b ∈ L, b ∈ M) : Released M d d' :=
  { released with
    still := fun x data apart =>
      released.still x data fun mem => apart (subset x mem) }

/-- Freeing blocks while the buffer of another is busy. -/
theorem Released.unhold {x : Nat} (released : Released L (d.hold x) d') :
    Released L d (d'.release x) :=
  { released with
    held := by
      unfold release
      rw [released.held, hold_held, List.erase_cons_head] }

theorem released_free (low : d.dataStart ≤ b) (small : b < d.bitmapEnd)
    (mem : b ∈ L) : Released L d (d.free b) where
  superblock := superblock_free low
  held := rfl
  given := rfl
  inode := by
    intro j less
    have inode := d.iblock_lt_dataStart less
    exact free_sectors_of_ne low (by omega) (iblock_ne_bblock less b)
  still := by
    intro x data apart
    have bitmap := d.bblock_lt_dataStart small
    apply free_sectors_of_ne low _ (by omega)
    rintro rfl
    exact apart mem

/-- The blocks of the list have been freed, and nothing else has happened to
the bitmap; null pointers in the list do not count. -/
structure Freed (L : List Nat) (d d' : Disk) : Prop extends Released L d d' where
  cleared : ∀ b ∈ L, b ≠ 0 → d'.used b = false ∧ d'.IsZero b
  kept : ∀ b < d.bitmapEnd, (b ∈ L → b = 0) → d'.used b = d.used b

theorem Freed.nulls (null : ∀ b ∈ L, b = 0) (d : Disk) : Freed L d d where
  toReleased := Released.refl L d
  cleared := fun b mem some => absurd (null b mem) some
  kept := fun _ _ _ => rfl

theorem Freed.null (freed : Freed L d d') : Freed (0 :: L) d d' where
  toReleased := freed.toReleased.mono fun _ => mem_cons_of_mem 0
  cleared := by
    intro c mem some
    exact freed.cleared c ((List.mem_cons.mp mem).resolve_left some) some
  kept := by
    intro c small apart
    exact freed.kept c small fun mem => apart (mem_cons_of_mem 0 mem)

theorem Freed.cons (low : d.dataStart ≤ b) (small : b < d.bitmapEnd)
    (once : b ∉ L) (freed : Freed L (d.free b) d') : Freed (b :: L) d d' := by
  have superblock := superblock_free low
  have bitmapEnd := bitmapEnd_congr superblock
  constructor
  case toReleased =>
    exact (released_free low small mem_cons_self).trans
      (freed.toReleased.mono fun _ => mem_cons_of_mem b)
  case cleared =>
    intro c mem some
    rcases List.mem_cons.mp mem with rfl | mem
    · have still := freed.still c (by rw [dataStart_congr superblock]; exact low) once
      constructor
      · rw [freed.kept c (by rw [bitmapEnd]; exact small)
          fun mem => absurd mem once, used_free low small, if_pos rfl]
      · intro k inside
        rw [still]
        exact isZero_free low small k inside
    · exact freed.cleared c mem some
  case kept =>
    intro c less apart
    have ne : c ≠ b := by
      rintro rfl
      have zero := apart mem_cons_self
      have pos := d.one_lt_dataStart
      omega
    rw [freed.kept c (by rw [bitmapEnd]; exact less) fun mem => apart (mem_cons_of_mem b mem),
      used_free low less, if_neg ne]

theorem Freed.append (first : Freed L d d') (second : Freed rest d' d'')
    (inData : ∀ b ∈ L, b ≠ 0 → d.dataStart ≤ b ∧ b < d.bitmapEnd)
    (apart : ∀ b ∈ L, b ≠ 0 → b ∉ rest) : Freed (L ++ rest) d d'' := by
  have bitmapEnd := bitmapEnd_congr first.superblock
  constructor
  case toReleased =>
    exact (first.toReleased.mono fun _ => List.mem_append_left rest).trans
      (second.toReleased.mono fun _ => List.mem_append_right L)
  case cleared =>
    intro c mem some
    rcases mem_append.mp mem with early | late
    · obtain ⟨low, small⟩ := inData c early some
      have once := apart c early some
      obtain ⟨clear, zero⟩ := first.cleared c early some
      have still := second.still c (by rw [dataStart_congr first.superblock]; exact low) once
      constructor
      · rw [second.kept c (by rw [bitmapEnd]; exact small) fun mem => absurd mem once, clear]
      · intro k inside
        rw [still]
        exact zero k inside
    · exact second.cleared c late some
  case kept =>
    intro c less outside
    rw [second.kept c (by rw [bitmapEnd]; exact less)
      fun mem => outside (List.mem_append_right L mem),
      first.kept c less fun mem =>
        outside (List.mem_append_left rest mem)]

theorem Freed.unhold {x : Nat} (freed : Freed L (d.hold x) d') : Freed L d (d'.release x) where
  toReleased := freed.toReleased.unhold
  cleared := freed.cleared
  kept := freed.kept

end Release

end Disk

/-! ## `itrunc` -/

section Truncate

variable {limit : Nat} {N : Nat → Dinode} {i : Nat} {d d' : Disk}
  {ip : Inode} {E : FsPanic → Prop}

/-- `bfree` of the blocks of a list, before those of `rest`: it does not
panic. -/
theorem wp_bfreeAll (L : List Nat) {rest : List Nat} {d : Disk}
    (owned : d.Owned limit N) (loose : d.Loose limit N (L ++ rest))
    (quiet : d.Quiet 1) (idle : ∀ b ∈ L, b ≠ 0 → b ∉ d.held) :
    wp (bfreeAll L) (fun _ d' => d'.Owned limit N ∧
      Disk.Freed L d d' ∧ d'.Loose limit N rest) E d := by
  induction L generalizing d with
  | nil => exact ⟨owned, Disk.Freed.nulls (by simp) d, loose⟩
  | cons b L ih =>
    unfold bfreeAll
    by_cases some : b ≠ 0
    · obtain ⟨low, small, marked⟩ := loose.inData b mem_cons_self some
      have inBitmap := small.trans_le owned.limit_le
      rw [if_pos some, wp_bind]
      apply wp_bfree quiet (idle b mem_cons_self some) low inBitmap marked
      have freed := (owned.free low small (loose.unclaimed b mem_cons_self some)).1
      have once : b ∉ L := by
        intro mem
        exact (List.pairwise_cons.mp loose.distinct).1 b (List.mem_append_left rest mem) some rfl
      refine wp_imp (ih freed (loose.free some owned)
        (quiet.congr rfl (Disk.superblock_free low)) fun c mem real =>
          idle c (mem_cons_of_mem b mem) real) ?_
      rintro _ d' ⟨owned', freed, loose'⟩
      exact ⟨owned', Disk.Freed.cons low inBitmap once freed, loose'⟩
    · rw [if_neg some]
      refine wp_imp (ih owned loose.tail quiet fun c mem =>
        idle c (mem_cons_of_mem b mem)) ?_
      rintro _ d' ⟨owned', freed, loose'⟩
      rw [not_not.mp some]
      exact ⟨owned', freed.null, loose'⟩

/-- The inode after `itrunc`. -/
def Inode.truncated (ip : Inode) : Inode :=
  { ip with addrs := fun _ => 0, size := 0 }

/-- The pointers in the indirect block of an inode. -/
def Disk.entryPtrs (d : Disk) (dn : Dinode) : List Nat :=
  (finRange NINDIRECT).map fun j => d.ptr dn (.entry j)

theorem Disk.indirectPtrs_eq (d : Disk) {dn : Dinode} (some : dn.addrs INDIRECT ≠ 0) :
    indirectPtrs (d.sectors (dn.addrs INDIRECT)) = d.entryPtrs dn := by
  unfold indirectPtrs Disk.entryPtrs
  apply List.ext_getElem
  · simp
  · intro n first second
    simp only [List.getElem_map, List.getElem_range, List.getElem_finRange]
    rw [Disk.ptr_entry_some some]
    rfl

/-- The places of pointers, in the order in which `itrunc` frees the
blocks. -/
def PtrSlot.all : List PtrSlot :=
  (finRange NDIRECT).map (fun a => .addr a.castSucc) ++
    ((finRange NINDIRECT).map .entry ++ [.indirect])

theorem PtrSlot.mem_all (s : PtrSlot) : s ∈ PtrSlot.all := by
  unfold PtrSlot.all
  rw [mem_append, mem_append, List.mem_singleton]
  cases s with
  | addr a =>
    induction a using Fin.lastCases with
    | last => exact Or.inr (Or.inr rfl)
    | cast a => exact Or.inl (List.mem_map_of_mem (List.mem_finRange a))
  | entry j =>
    exact Or.inr (Or.inl (List.mem_map_of_mem (List.mem_finRange j)))

theorem PtrSlot.nodup_all : PtrSlot.all.Nodup := by
  unfold PtrSlot.all
  have direct : ((finRange NDIRECT).map fun a =>
      PtrSlot.addr a.castSucc).Nodup :=
    (List.nodup_finRange _).map fun a b same =>
      Fin.castSucc_injective _ (PtrSlot.addr.inj same)
  have entries : ((finRange NINDIRECT).map PtrSlot.entry).Nodup :=
    (List.nodup_finRange _).map fun a b same => PtrSlot.entry.inj same
  refine direct.append (entries.append (List.nodup_singleton _) ?_) ?_
  · simp [PtrSlot.indirect]
  · intro s direct other
    obtain ⟨a, _, rfl⟩ := mem_map.mp direct
    rcases mem_append.mp other with entry | last
    · obtain ⟨j, _, same⟩ := mem_map.mp entry
      exact PtrSlot.noConfusion same
    · have same := PtrSlot.addr.inj (List.mem_singleton.mp last)
      have index := congrArg Fin.val same
      exact absurd index (Nat.ne_of_lt a.isLt)

theorem Disk.map_ptr_all (d : Disk) (dn : Dinode) : PtrSlot.all.map (d.ptr dn) =
      dn.directPtrs ++ (d.entryPtrs dn ++ [dn.addrs INDIRECT]) := by
  unfold PtrSlot.all Dinode.directPtrs Disk.entryPtrs
  rw [List.map_append, List.map_append, List.map_map, List.map_map, List.map_singleton]
  rfl

theorem Disk.Owned.clear (owned : d.Owned limit N) (i : Nat) (dn : Dinode)
    (null : ∀ a, dn.addrs a = 0) : d.Owned limit (update N i dn) := by
  apply owned.shrink
  · intro j a
    by_cases here : j = i
    · rw [here, update_self, null]
      exact Or.inl rfl
    · rw [update_of_ne here]
      exact Or.inr rfl
  · intro j
    by_cases here : j = i
    · rw [here, update_self]
      exact Or.inr null
    · rw [update_of_ne here]
      exact Or.inl rfl

/-- The blocks of an inode that gives all its pointers up, where every pointer
is the number of its block. -/
theorem Disk.Owned.loose (owned : d.Owned limit N) (here : N i = ip.toDinode)
    (bare : ∀ s, d.block ip.toDinode s = d.ptr ip.toDinode s) :
    d.Owned limit (update N i ip.truncated.toDinode) ∧
      d.Loose limit (update N i ip.truncated.toDinode) (PtrSlot.all.map (d.ptr ip.toDinode)) := by
  have block : ∀ s, d.block (N i) s = d.ptr ip.toDinode s := by
    rw [here]
    exact bare
  have null : ∀ s, d.block ip.truncated.toDinode s = 0 := Disk.block_null (fun _ => rfl) d
  constructor
  · exact owned.clear i ip.truncated.toDinode fun _ => rfl
  · constructor
    case inData =>
      intro b mem some
      obtain ⟨s, _, rfl⟩ := mem_map.mp mem
      rw [← block] at some ⊢
      exact owned.inData i s some
    case unclaimed =>
      intro b mem some j t
      obtain ⟨s, _, rfl⟩ := mem_map.mp mem
      by_cases here : j = i
      · rw [here, update_self, null]
        exact some.symm
      · rw [← block] at some ⊢
        rw [update_of_ne here]
        apply Ne.symm
        apply owned.block_ne some
        intro pair
        exact here (congrArg Prod.fst pair).symm
    case distinct =>
      apply List.pairwise_map.mpr
      apply PtrSlot.nodup_all.imp
      intro s t ne some
      rw [← block, ← block]
      rw [← block] at some
      apply owned.block_ne some
      intro pair
      exact ne (congrArg Prod.snd pair)

theorem wp_freeIndirect {α : Type} {next : FsM α} {d : Disk} {x : Nat}
    {L : List Nat} {Q : α → Disk → Prop} (owned : d.Owned limit N)
    (loose : d.Loose limit N (L ++ [x])) (idle : d.held = []) (some : x ≠ 0)
    (entries : indirectPtrs (d.sectors x) = L)
    (rest : ∀ d', d'.Owned limit N → Disk.Freed (L ++ [x]) d d' → wp next Q E d') :
    wp (do
      let bp ← bread x
      bfreeAll (indirectPtrs bp)
      brelse x
      bfree x
      next) Q E d := by
  have quiet : d.Quiet 2 := quiet_of_idle idle (by decide)
  have apart : ∀ b ∈ L, b ≠ 0 → b ≠ x := fun b mem real =>
    (List.pairwise_append.mp loose.distinct).2.2 b mem x (List.mem_singleton_self x) real
  have low := (loose.inData x (List.mem_append_right L (List.mem_singleton_self x)) some).1
  rw [wp_bind, wp_bread (by rw [idle]; simp) quiet.few, entries, wp_bind]
  have holding : (d.hold x).Loose limit N (L ++ [x]) :=
    ⟨loose.inData, loose.unclaimed, loose.distinct⟩
  refine wp_imp (wp_bfreeAll L (owned.congr_sectors rfl) holding (quiet.hold low) ?_) ?_
  · intro b mem real
    rw [Disk.hold_held, idle]
    simpa using apart b mem real
  · rintro _ d' ⟨owned', freed, loose'⟩
    have busy : x ∈ d'.held := by
      rw [freed.held]
      exact mem_cons_self
    have unheld := freed.unhold
    have idle' : (d'.release x).held = [] := unheld.held.trans idle
    obtain ⟨low', small, marked⟩ := loose'.inData x (List.mem_singleton_self x) some
    have inBitmap := small.trans_le owned'.limit_le
    rw [wp_bind, wp_brelse busy, wp_bind]
    apply wp_bfree (quiet_of_idle idle' (by decide)) (by rw [idle']; simp) low' inBitmap marked
    have free : (d'.release x).Owned limit N := owned'.congr_sectors rfl
    apply rest
    · exact (free.free low' small (loose'.unclaimed x (List.mem_singleton_self x) some)).1
    · apply unheld.append (Disk.Freed.cons low' inBitmap List.not_mem_nil
        (Disk.Freed.nulls (by simp) _))
      · intro b mem real
        obtain ⟨data, inside, _⟩ := loose.inData b (List.mem_append_left [x] mem) real
        exact ⟨data, inside.trans_le owned.limit_le⟩
      · intro b mem real
        rw [List.mem_singleton]
        exact apart b mem real

/-- `itrunc` of an inode whose pointers carry no checksum frees its blocks
before the empty inode is written. -/
theorem wp_itrunc {Q : Inode → Disk → Prop} (owned : d.Owned limit N)
    (here : N i = ip.toDinode) (idle : d.held = [])
    (bare : ∀ s, d.block ip.toDinode s = d.ptr ip.toDinode s)
    (rest : ∀ d', d'.Owned limit (update N i ip.truncated.toDinode) →
      Disk.Freed (PtrSlot.all.map (d.ptr ip.toDinode)) d d' →
      wp (do
        iupdate ip.truncated
        pure ip.truncated) Q E d') : wp (itrunc ip) Q E d := by
  obtain ⟨cleared, loose⟩ := owned.loose here bare
  rw [Disk.map_ptr_all] at loose rest
  have inData : ∀ b ∈ ip.directPtrs, b ≠ 0 → d.dataStart ≤ b ∧ b < d.bitmapEnd := by
    intro b mem real
    obtain ⟨data, inside, _⟩ := loose.inData b (List.mem_append_left _ mem) real
    exact ⟨data, inside.trans_le owned.limit_le⟩
  have distinct : ∀ b ∈ ip.directPtrs, b ≠ 0 →
      b ∉ d.entryPtrs ip.toDinode ++ [ip.addrs INDIRECT] := by
    intro b mem real late
    exact (List.pairwise_append.mp loose.distinct).2.2 b mem b late real rfl
  unfold itrunc
  refine wp_seq (wp_bfreeAll ip.directPtrs cleared loose
    (quiet_of_idle idle (by decide)) (by rw [idle]; simp)) ?_
  rintro _ d' ⟨owned', freed, loose'⟩
  by_cases none : ip.addrs INDIRECT = 0
  · have entries : ∀ b ∈ d.entryPtrs ip.toDinode ++ [ip.addrs INDIRECT], b = 0 := by
      intro b mem
      rcases mem_append.mp mem with entry | last
      · obtain ⟨j, _, rfl⟩ := mem_map.mp entry
        exact Disk.ptr_entry_none none j
      · rw [List.mem_singleton.mp last]
        exact none
    rw [if_neg (not_not.mpr none)]
    exact rest d' owned' (freed.append (Disk.Freed.nulls entries d') inData distinct)
  · have mem : ip.addrs INDIRECT ∈ d.entryPtrs ip.toDinode ++ [ip.addrs INDIRECT] :=
      List.mem_append_right _ (List.mem_singleton_self _)
    have same : d'.sectors (ip.addrs INDIRECT) = d.sectors (ip.addrs INDIRECT) := by
      apply freed.still _ (loose.inData _ (List.mem_append_right _ mem) none).1
      intro direct
      exact distinct _ direct none mem
    rw [if_pos none]
    apply wp_freeIndirect owned' loose' (freed.held.trans idle) none
    · rw [same, d.indirectPtrs_eq none]
    · intro d'' owned'' freed'
      exact rest d'' owned'' (freed.append freed' inData distinct)

theorem wp_itrunc_loaded (ready : Loaded limit N i d ip) :
    wp (itrunc ip) (fun ip' d' => ip' = ip.truncated ∧ Apart N i d d' ∧
      Loaded limit (update N i ip.truncated.toDinode) i d' ip.truncated) Tolerated d := by
  apply wp_itrunc ready.owned ready.here ready.idle ready.block
  intro d' owned' freed
  have ready' : Loaded limit (update N i ip.truncated.toDinode) i d' ip.truncated :=
    { owned := owned'
      here := update_self ..
      idle := freed.held.trans ready.idle
      atEnd := by
        rw [Disk.bitmapEnd_congr freed.superblock]
        exact ready.atEnd
      inum := ready.inum
      small := by
        rw [freed.superblock]
        exact ready.small
      empty := fun _ _ => rfl }
  have apart : Apart N i d d' := by
    apply Apart.of_still ready.owned freed.superblock freed.held
    · intro b mem
      rw [freed.given]
      exact mem
    · intro j small _
      unfold Disk.dinode
      rw [freed.inode j small]
    · intro x data apart
      apply freed.still x data
      intro mem
      obtain ⟨s, _, rfl⟩ := mem_map.mp mem
      apply apart s
      rw [ready.here, ready.block]
  rw [wp_bind]
  apply wp_iupdate_loaded ready'
  have written := ready'.writeBack
  have owned := written.owned
  rw [update_idem] at owned
  have bitmap := Disk.bitmapEnd_congr written.superblock
  exact ⟨rfl, apart.trans written.toApart.update, { ready' with
    owned := owned
    atEnd := ready'.atEnd.trans bitmap.symm
    small := written.superblock.symm ▸ ready'.small }⟩

/-- An inode that is not in use. -/
abbrev Dinode.blank : Dinode := Dinode.fresh 0

/-- `ip->type = 0`. -/
def Inode.typeless (ip : Inode) : Inode := { ip with type := 0 }

/-- The inode in memory after `iput` has freed it. -/
def Inode.freed (ip : Inode) : Inode :=
  { ip.truncated.typeless with
    busy := false
    valid := false }

/-- `iput` of the last reference to an inode that no entry names. -/
theorem wp_freeInode (ready : Loaded limit N i d ip) : wp (do
      let node ← itrunc { ip with busy := true }
      let node := { node with type := 0 }
      iupdate node
      pure ((), { node with
        busy := false
        valid := false }))
      (fun r d' => r.2 = ip.freed ∧ Apart N i d d' ∧ d'.Owned limit (update N i Dinode.blank) ∧
        (d'.dinode i).type = 0) Tolerated d := by
  have busy : Loaded limit N i d { ip with busy := true } :=
    ⟨ready.owned, ready.here, ready.idle, ready.atEnd, ready.inum, ready.small, ready.empty⟩
  generalize busyIs : ({ ip with busy := true } : Inode) = node at busy
  refine wp_seq (wp_itrunc_loaded busy) ?_
  rintro _ d' ⟨rfl, apart, emptied⟩
  have owned := emptied.owned.clear i node.truncated.typeless.toDinode fun _ => rfl
  rw [update_idem] at owned
  have typeless : Loaded limit (update N i node.truncated.typeless.toDinode) i d'
      node.truncated.typeless :=
    { owned := owned
      here := update_self ..
      idle := emptied.idle
      atEnd := emptied.atEnd
      inum := emptied.inum
      small := emptied.small
      empty := fun _ _ => rfl }
  have written := typeless.writeBack
  have last := written.owned.clear i Dinode.blank fun _ => rfl
  rw [update_idem, update_idem] at last
  rw [wp_bind]
  apply wp_iupdate_loaded typeless
  refine ⟨?_, apart.trans written.toApart.update, last, Disk.dinode_setDinode_type ..⟩
  rw [← busyIs]
  rfl

end Truncate

end Xv6.Fs
