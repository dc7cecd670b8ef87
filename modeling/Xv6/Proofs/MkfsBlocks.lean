/-
Purpose: The blocks of a file that mkfs writes: which block of the image holds
  which part of which file, and what `iappend` does to the file and to all
  others.
-/
import Xv6.Tools.Mkfs
import Xv6.Proofs.FsDisk

namespace Xv6.Mkfs

open Bytes PanicM Fs
open Function (update update_self update_of_ne)

variable {sec k : Nat} {Q : Nat × Dinode → FsImage → Prop}

/-- First data block. -/
abbrev DATA : Nat := 29

/-- The two parts of a file's block list: index `MAXFILE` is the indirect
block. -/
abbrev Owner := Nat → Option (Nat × Nat)

/-- Where the inode says that block `idx` is. -/
def cell (sectors : Nat → Bytes.Store) (din : Dinode) (idx : Nat) : Nat :=
  if idx < NDIRECT then din.words idx
  else if idx = MAXFILE then din.words NDIRECT
  else word32 (sectors (din.words NDIRECT)) (4 * (idx - NDIRECT))

/-- Blocks that are not in use hold zeros, and `owner` tells of every block in
use which file it belongs to. -/
structure Pool (s : FsImage) (owner : Owner) : Prop where
  low : DATA ≤ s.freeblock
  fresh : ∀ b, s.freeblock ≤ b → ∀ o < 512, s.sectors b o = 0
  owned : ∀ b, owner b ≠ none ↔ DATA ≤ b ∧ b < s.freeblock
  used : s.usedblocks = s.freeblock

/-- Inode `i` with the copy `din` has `n` data blocks, an indirect block if
`deep`, and in them the bytes of `content` and then zeros. -/
structure Holds (sectors : Nat → Bytes.Store) (owner : Owner) (i : Nat)
    (din : Dinode) (n : Nat) (deep : Bool) (content : List UInt8) : Prop where
  few : n ≤ MAXFILE
  room : content.length ≤ 512 * n
  there : ∀ idx, idx < n ∨ idx = MAXFILE ∧ deep = true →
    owner (cell sectors din idx) = some (i, idx)
  back : ∀ b idx, owner b = some (i, idx) →
    (idx < n ∨ idx = MAXFILE ∧ deep = true) ∧ cell sectors din idx = b
  large : NDIRECT < n → deep = true
  small : n < NDIRECT → deep = false
  direct_null : ∀ idx, n ≤ idx → idx < NDIRECT → din.words idx = 0
  indirect_null : deep = false → din.words NDIRECT = 0
  entry_null : deep = true → ∀ idx, n ≤ idx → NDIRECT ≤ idx → idx < MAXFILE →
    word32 (sectors (din.words NDIRECT)) (4 * (idx - NDIRECT)) = 0
  bytes : ∀ idx < n, ∀ o < 512, sectors (cell sectors din idx) o = content.getD (512 * idx + o) 0

/-- What work on inode `i` does to the rest of the image: only blocks of `i`
and new blocks change. -/
structure Adds (i : Nat) (s : FsImage) (owner : Owner) (t : FsImage) (owner' : Owner) : Prop where
  frame : ∀ b, b < DATA ∨ (∃ j idx, owner b = some (j, idx) ∧ j ≠ i) → t.sectors b = s.sectors b
  kept : ∀ b place, owner b = some place → owner' b = some place
  grown : ∀ b j idx, owner' b = some (j, idx) → j ≠ i → owner b = some (j, idx)
  freeinode : t.freeinode = s.freeinode
  length : t.length = s.length

variable {s t : FsImage} {owner owner' : Owner} {i j n idx : Nat}
  {din din' : Dinode} {deep : Bool} {content : List UInt8}
  {E : Exit → Prop}

theorem Adds.refl (i : Nat) (s : FsImage) (owner : Owner) : Adds i s owner s owner :=
  ⟨fun _ _ => rfl, fun _ _ same => same, fun _ _ _ same _ => same, rfl, rfl⟩

theorem Adds.trans {u : FsImage} {owner'' : Owner}
    (one : Adds i s owner t owner') (two : Adds i t owner' u owner'') :
    Adds i s owner u owner'' where
  frame b outside := by
    rw [two.frame b ?_, one.frame b outside]
    rcases outside with low | ⟨j, idx, owned, other⟩
    · exact .inl low
    · exact .inr ⟨j, idx, one.kept b _ owned, other⟩
  kept b place owned := two.kept b place (one.kept b place owned)
  grown b j idx owned other := one.grown b j idx (two.grown b j idx owned other) other
  freeinode := two.freeinode.trans one.freeinode
  length := two.length.trans one.length

/-! ## Pointers -/

theorem words_update (din : Dinode) {a : Nat} (inside : a < NDIRECT + 1) (x idx : Nat) :
    Dinode.words
      { din with addrs := update din.addrs ⟨a, inside⟩ x } idx =
      if idx = a then x else din.words idx := by
  unfold Dinode.words
  by_cases here : idx = a
  · subst here
    rw [if_pos rfl, dif_pos inside]
    exact update_self ..
  · rw [if_neg here]
    by_cases small : idx < NDIRECT + 1
    · rw [dif_pos small, dif_pos small]
      refine update_of_ne ?_ ..
      rintro ⟨rfl⟩
      exact here rfl
    · rw [dif_neg small, dif_neg small]

theorem words_direct (din : Dinode) (idx : Nat) (small : idx < NDIRECT) :
    din.words idx = din.addrs (direct idx small) :=
  dif_pos (Nat.lt_succ_of_lt small)

theorem words_indirect (din : Dinode) : din.words NDIRECT = din.addrs INDIRECT := rfl

namespace Holds

variable {sectors sectors' : Nat → Bytes.Store}
variable {x : Nat}

theorem cells (holds : Holds sectors owner i din n deep content)
    (indirect : deep = true → sectors' (din.words NDIRECT) = sectors (din.words NDIRECT))
    (idx : Nat) (present : idx < n ∨ idx = MAXFILE ∧ deep = true) :
    cell sectors' din idx = cell sectors din idx := by
  unfold cell
  cases deep with
  | true => rw [indirect rfl]
  | false =>
    have few : ¬ NDIRECT < n := fun high => nomatch holds.large high
    have less := present.resolve_right nofun
    have shallow : idx < NDIRECT := by omega
    rw [if_pos shallow, if_pos shallow]

theorem place {k : Nat} (holds : Holds sectors owner i din n deep content)
    (n' : Nat) (deep' : Bool) (unowned : owner x = none)
    (same : ∀ idx, idx < n ∨ idx = MAXFILE ∧ deep = true →
      cell sectors' din' idx = cell sectors din idx) (last : cell sectors' din' k = x)
    (present : ∀ idx, idx < n' ∨ idx = MAXFILE ∧ deep' = true ↔
      idx = k ∨ idx < n ∨ idx = MAXFILE ∧ deep = true) :
    (∀ idx, idx < n' ∨ idx = MAXFILE ∧ deep' = true →
      update owner x (some (i, k)) (cell sectors' din' idx) = some (i, idx)) ∧
    ∀ b idx, update owner x (some (i, k)) b = some (i, idx) →
      (idx < n' ∨ idx = MAXFILE ∧ deep' = true) ∧ cell sectors' din' idx = b := by
  constructor
  · intro idx there
    by_cases here : idx = k
    · rw [here, last, update_self]
    · have before := ((present idx).mp there).resolve_left here
      have owned := holds.there idx before
      rw [same idx before, update_of_ne _, owned]
      intro taken
      rw [taken, unowned] at owned
      cases owned
  · intro b idx owned
    rw [present]
    by_cases here : b = x
    · rw [here, update_self] at owned
      cases owned
      exact ⟨.inl rfl, last.trans here.symm⟩
    · rw [update_of_ne here] at owned
      obtain ⟨before, there⟩ := holds.back b idx owned
      exact ⟨.inr before, (same idx before).trans there⟩

theorem frame (holds : Holds sectors owner i din n deep content)
    (same : ∀ b idx, owner b = some (i, idx) → sectors' b = sectors b)
    (kept : ∀ b idx, owner b = some (i, idx) → owner' b = some (i, idx))
    (grown : ∀ b idx, owner' b = some (i, idx) → owner b = some (i, idx)) :
    Holds sectors' owner' i din n deep content := by
  have indirect : deep = true → sectors' (din.words NDIRECT) = sectors (din.words NDIRECT) :=
    fun isDeep => same _ _ (holds.there MAXFILE (.inr ⟨rfl, isDeep⟩))
  have cells := holds.cells indirect
  refine { holds with there := ?_, back := ?_, entry_null := ?_, bytes := ?_ }
  · intro idx present
    rw [cells idx present]
    exact kept _ _ (holds.there idx present)
  · intro b idx owned
    obtain ⟨present, here⟩ := holds.back b idx (grown b idx owned)
    exact ⟨present, (cells idx present).trans here⟩
  · intro isDeep idx beyond high inside
    rw [indirect isDeep]
    exact holds.entry_null isDeep idx beyond high inside
  · intro idx less o inside
    rw [cells idx (.inl less), same _ _ (holds.there idx (.inl less))]
    exact holds.bytes idx less o inside

theorem adds (holds : Holds s.sectors owner j din n deep content)
    (adds : Adds i s owner t owner') (other : j ≠ i) :
    Holds t.sectors owner' j din n deep content :=
  holds.frame (fun b idx owned => adds.frame b (.inr ⟨j, idx, owned, other⟩))
    (fun b idx owned => adds.kept b (j, idx) owned)
    (fun b idx owned => adds.grown b j idx owned other)

section

variable (holds : Holds sectors owner i din n deep content)
include holds

theorem inode (same : din'.addrs = din.addrs) : Holds sectors owner i din' n deep content := by
  have words : din'.words = din.words := by
    funext k
    unfold Dinode.words
    rw [same]
  have cells : cell sectors din' = cell sectors din := by
    funext k
    unfold cell
    rw [words]
  constructor
  case few => exact holds.few
  case room => exact holds.room
  case there => exact cells ▸ holds.there
  case back => exact cells ▸ holds.back
  case large => exact holds.large
  case small => exact holds.small
  case direct_null => exact words ▸ holds.direct_null
  case indirect_null => exact words ▸ holds.indirect_null
  case entry_null => exact words ▸ holds.entry_null
  case bytes => exact cells ▸ holds.bytes

theorem beyond (o : Nat) : content.getD (512 * n + o) 0 = 0 := by
  have room := holds.room
  exact List.getD_eq_default _ _ (by omega)

theorem addDirect (low : n < NDIRECT)
    (unowned : owner x = none) (zero : ∀ o < 512, sectors x o = 0) :
    Holds sectors (update owner x (some (i, n))) i
      { din with addrs := update din.addrs (direct n low) x } (n + 1)
      deep content := by
  have shallow := holds.small low
  subst shallow
  have words := fun idx => words_update din (Nat.lt_succ_of_lt low) x idx
  have cells : ∀ idx, idx < n ∨ idx = MAXFILE ∧ false = true → cell sectors
      { din with addrs := update din.addrs (direct n low) x } idx =
      cell sectors din idx := by
    intro idx present
    have less := present.resolve_right nofun
    unfold cell
    rw [if_pos (by omega), if_pos (by omega)]
    exact (words idx).trans (if_neg (by omega))
  have last : cell sectors
      { din with addrs := update din.addrs (direct n low) x } n =
      x := by
    unfold cell
    rw [if_pos low]
    exact (words n).trans (if_pos rfl)
  obtain ⟨there, back⟩ := holds.place (n + 1) false unowned cells last (by
    simp
    omega)
  constructor
  case there => exact there
  case back => exact back
  case few =>
    simp only [MAXFILE]
    omega
  case room =>
    have room := holds.room
    omega
  case large =>
    intro high
    omega
  case small => exact fun _ => rfl
  case direct_null =>
    intro idx beyond inside
    exact (words idx).trans ((if_neg (by omega)).trans (holds.direct_null idx (by omega) inside))
  case indirect_null =>
    intro _
    exact (words NDIRECT).trans ((if_neg (by omega)).trans (holds.indirect_null rfl))
  case entry_null => exact nofun
  case bytes =>
    intro idx less o inside
    by_cases here : idx = n
    · subst here
      rw [last, zero o inside, holds.beyond]
    · have before : idx < n := by omega
      rw [cells idx (.inl before)]
      exact holds.bytes idx before o inside

end

theorem addIndirect (holds : Holds sectors owner i din NDIRECT false content)
    (unowned : owner x = none) (zero : ∀ o < 512, sectors x o = 0) :
    Holds sectors (update owner x (some (i, MAXFILE))) i
      { din with addrs := update din.addrs INDIRECT x } NDIRECT true
      content := by
  have words := fun idx => words_update din (Nat.lt_succ_self NDIRECT) x idx
  have cells : ∀ idx, idx < NDIRECT ∨ idx = MAXFILE ∧ false = true → cell sectors
      { din with addrs := update din.addrs INDIRECT x } idx =
      cell sectors din idx := by
    intro idx present
    have less := present.resolve_right nofun
    unfold cell
    rw [if_pos less, if_pos less]
    exact (words idx).trans (if_neg (by omega))
  have last : cell sectors
      { din with addrs := update din.addrs INDIRECT x } MAXFILE =
      x := (words NDIRECT).trans (if_pos rfl)
  obtain ⟨there, back⟩ := holds.place NDIRECT true unowned cells last
    (by simp [or_comm])
  constructor
  case few => exact holds.few
  case room => exact holds.room
  case there => exact there
  case back => exact back
  case large => exact fun _ => rfl
  case small =>
    intro less
    omega
  case direct_null =>
    intro idx beyond inside
    omega
  case indirect_null => exact nofun
  case entry_null =>
    intro _ idx _ high inside
    have place : Dinode.words
        { din with addrs := update din.addrs INDIRECT x } NDIRECT =
        x := last
    rw [place]
    refine word32_zero fun k less => zero _ ?_
    simp only [NDIRECT, MAXFILE, NINDIRECT] at *
    omega
  case bytes =>
    intro idx less o inside
    rw [cells idx (.inl less)]
    exact holds.bytes idx less o inside

theorem addEntry (holds : Holds sectors owner i din n true content)
    (high : NDIRECT ≤ n) (inside : n < MAXFILE) (unowned : owner x = none)
    (zero : ∀ o < 512, sectors x o = 0) (small : x < 2 ^ 32) :
    Holds (update sectors (din.words NDIRECT)
        (put (sectors (din.words NDIRECT)) (4 * (n - NDIRECT)) (le32 x)))
      (update owner x (some (i, n))) i din (n + 1) true content := by
  have ind : owner (din.words NDIRECT) = some (i, MAXFILE) := holds.there MAXFILE (.inr ⟨rfl, rfl⟩)
  have indFresh : din.words NDIRECT ≠ x := by
    intro same
    rw [same, unowned] at ind
    cases ind
  generalize table : update sectors (din.words NDIRECT)
    (put (sectors (din.words NDIRECT)) (4 * (n - NDIRECT)) (le32 x)) = sectors'
  have indirect : sectors' (din.words NDIRECT) =
      put (sectors (din.words NDIRECT)) (4 * (n - NDIRECT)) (le32 x) := by
    rw [← table, update_self]
  have elsewhere : ∀ b, b ≠ din.words NDIRECT → sectors' b = sectors b := by
    intro b other
    rw [← table, update_of_ne other]
  -- a pointer of the indirect block, after the write
  have entry : ∀ idx, NDIRECT ≤ idx → idx < MAXFILE →
      word32 (sectors' (din.words NDIRECT)) (4 * (idx - NDIRECT)) = if idx = n then x
        else word32 (sectors (din.words NDIRECT)) (4 * (idx - NDIRECT)) := by
    intro idx from12 below
    rw [indirect]
    by_cases here : idx = n
    · rw [if_pos here, here]
      exact word32_put_le32 small
    · rw [if_neg here]
      refine word32_put_outside ?_
      simp only [le32, List.length_cons, List.length_nil]
      omega
  have cells : ∀ idx, idx < n ∨ idx = MAXFILE ∧ true = true →
      cell sectors' din idx = cell sectors din idx := by
    intro idx present
    unfold cell
    refine ite_congr rfl (fun _ => rfl) fun shallow =>
      ite_congr rfl (fun _ => rfl) fun isInd => ?_
    rw [entry idx (by omega) (by omega), if_neg (by omega)]
  have last : cell sectors' din n = x := by
    unfold cell
    rw [if_neg (by omega), if_neg (by omega), entry n high inside, if_pos rfl]
  obtain ⟨there, back⟩ := holds.place (n + 1) true unowned cells last (by
    simp
    omega)
  constructor
  case there => exact there
  case back => exact back
  case few => omega
  case room =>
    have room := holds.room
    omega
  case large => exact fun _ => rfl
  case small =>
    intro less
    omega
  case direct_null =>
    intro idx beyond below
    omega
  case indirect_null =>
    intro never
    cases never
  case entry_null =>
    intro _ idx beyond from12 below
    rw [entry idx from12 below, if_neg (by omega)]
    exact holds.entry_null rfl idx (by omega) from12 below
  case bytes =>
    intro idx less o byte
    by_cases here : idx = n
    · subst here
      rw [last, elsewhere x (Ne.symm indFresh), zero o byte, holds.beyond]
    · have before : idx < n := by omega
      have notInd : cell sectors din idx ≠ din.words NDIRECT := by
        intro same
        have owned := holds.there idx (.inl before)
        rw [same, ind, Option.some.injEq, Prod.mk.injEq] at owned
        omega
      rw [cells idx (.inl before), elsewhere _ notInd]
      exact holds.bytes idx before o byte

theorem write {k : Nat} (holds : Holds sectors owner i din n deep content)
    (piece : List UInt8) (present : k < n) (after : 512 * k ≤ content.length)
    (within : content.length + piece.length ≤ 512 * (k + 1)) :
    Holds (update sectors (cell sectors din k)
        (put (sectors (cell sectors din k)) (content.length - 512 * k) piece))
      owner i din n deep (content ++ piece) := by
  have ownedK := holds.there k (.inl present)
  have few := holds.few
  have apart : ∀ idx, idx ≠ k → (idx < n ∨ idx = MAXFILE ∧ deep = true) →
      cell sectors din idx ≠ cell sectors din k := by
    intro idx other there same
    have owned := holds.there idx there
    rw [same, ownedK, Option.some.injEq, Prod.mk.injEq] at owned
    exact other owned.2.symm
  generalize table : update sectors (cell sectors din k)
    (put (sectors (cell sectors din k)) (content.length - 512 * k) piece) = sectors'
  have elsewhere : ∀ b, b ≠ cell sectors din k → sectors' b = sectors b := by
    intro b other
    rw [← table, update_of_ne other]
  have indirect : deep = true → sectors' (din.words NDIRECT) = sectors (din.words NDIRECT) := by
    intro isDeep
    refine elsewhere _ (apart MAXFILE ?_ (.inr ⟨rfl, isDeep⟩))
    omega
  have cells := holds.cells indirect
  refine { holds with
    room := ?_, there := ?_, back := ?_, entry_null := ?_, bytes := ?_ }
  · rw [List.length_append]
    omega
  · intro idx there
    rw [cells idx there]
    exact holds.there idx there
  · intro b idx owned
    obtain ⟨there, place⟩ := holds.back b idx owned
    exact ⟨there, (cells idx there).trans place⟩
  · intro isDeep idx beyond high inside
    rw [indirect isDeep]
    exact holds.entry_null isDeep idx beyond high inside
  · intro idx less o inside
    have old := holds.bytes idx less o inside
    have kept : ¬ (content.length ≤ 512 * idx + o ∧
        512 * idx + o < content.length + piece.length) →
        content.getD (512 * idx + o) 0 = (content ++ piece).getD (512 * idx + o) 0 := by
      intro outside
      by_cases before : 512 * idx + o < content.length
      · rw [List.getD_append _ _ _ _ before]
      · rw [List.getD_eq_default _ _ (by omega),
          List.getD_eq_default _ _ (by rw [List.length_append]; omega)]
    rw [cells idx (.inl less)]
    by_cases here : idx = k
    · subst here
      rw [← table, update_self]
      unfold put
      by_cases written : content.length - 512 * idx ≤ o ∧
          o < content.length - 512 * idx + piece.length
      · rw [if_pos written, List.getD_append_right _ _ _ _ (by omega)]
        congr 1
        omega
      · rw [if_neg written, old, kept (by omega)]
    · rw [elsewhere _ (apart idx here (.inl less)), old, kept (by omega)]

end Holds

/-! ## Steps -/

theorem wp_rsect {Q : Bytes.Store → FsImage → Prop} (there : sec < s.length → Q (s.sectors sec) s)
    (missing : s.length ≤ sec → E .read) : wp (rsect sec) Q E s := by
  unfold rsect
  rw [wp_bind, wp_get, wp_ite]
  exact ⟨there, fun outside => missing (Nat.le_of_not_lt outside)⟩

theorem wp_wsect {buf : Bytes.Store} {Q : Unit → FsImage → Prop} (there : sec < s.length)
    (next : Q () { s with sectors := update s.sectors sec buf }) :
    wp (wsect sec buf) Q E s := by
  have same : max s.length (sec + 1) = s.length := Nat.max_eq_left there
  unfold wsect
  rw [wp_modify, same]
  exact next

/-- A block has been taken. -/
def taken (s : FsImage) : FsImage :=
  { s with
    freeblock := s.freeblock + 1
    usedblocks := s.usedblocks + 1 }

theorem wp_takeBlock {Q : Nat → FsImage → Prop}
    (next : Q s.freeblock (taken s)) : wp takeBlock Q E s := next

namespace Pool

variable {b : Nat}

section

variable (pool : Pool s owner)
include pool

theorem unowned : owner s.freeblock = none := by
  by_contra some
  exact absurd ((pool.owned s.freeblock).mp some).2 (Nat.lt_irrefl _)

theorem below {place : Nat × Nat} (owned : owner b = some place) : DATA ≤ b ∧ b < s.freeblock :=
  (pool.owned b).mp (by rw [owned]; exact Option.some_ne_none place)

theorem take (place : Nat × Nat) : Pool (taken s) (update owner s.freeblock (some place)) := by
  have low := pool.low
  constructor
  case low => exact Nat.le_succ_of_le low
  case fresh => exact fun b beyond => pool.fresh b (Nat.le_of_succ_le beyond)
  case owned =>
    intro b
    by_cases here : b = s.freeblock
    · rw [here, update_self]
      simp only [ne_eq, reduceCtorEq, not_false_eq_true, taken, true_iff]
      exact ⟨low, Nat.lt_succ_self _⟩
    · rw [update_of_ne here, pool.owned b]
      simp only [taken]
      omega
  case used => exact congrArg (· + 1) pool.used

theorem write (below : b < s.freeblock) (data : Bytes.Store) :
    Pool { s with sectors := update s.sectors b data } owner := by
  refine { pool with fresh := ?_ }
  intro c beyond
  have other : c ≠ b := by
    rintro rfl
    exact absurd below (Nat.not_lt_of_le beyond)
  simp only [update_of_ne other]
  exact pool.fresh c beyond

theorem adds_take (i idx : Nat) : Adds i s owner (taken s)
      (update owner s.freeblock (some (i, idx))) where
  frame _ _ := rfl
  kept b place owned := by
    have other : b ≠ s.freeblock := Nat.ne_of_lt (pool.below owned).2
    rw [update_of_ne other]
    exact owned
  grown b j idx' owned ne := by
    by_cases here : b = s.freeblock
    · rw [here, update_self, Option.some.injEq, Prod.mk.injEq] at owned
      exact absurd owned.1.symm ne
    · rwa [update_of_ne here] at owned
  freeinode := rfl
  length := rfl

theorem adds_write (owned : owner b = some (i, idx)) (data : Bytes.Store) :
    Adds i s owner { s with sectors := update s.sectors b data } owner where
  frame c outside := by
    have other : c ≠ b := by
      rintro rfl
      rcases outside with low | ⟨j, idx', also, ne⟩
      · exact absurd (pool.below owned).1 (Nat.not_le_of_lt low)
      · rw [owned, Option.some.injEq, Prod.mk.injEq] at also
        exact ne also.1.symm
    exact update_of_ne other ..
  kept _ _ same := same
  grown _ _ _ same _ := same
  freeinode := rfl
  length := rfl

end

end Pool

/-- The blocks that a file with `n` data blocks takes. -/
def blocks (n : Nat) : Nat := n + if NDIRECT < n then 1 else 0

/-- The state after a block of a file was looked up or added. -/
structure Placed (i : Nat) (s : FsImage) (owner : Owner) (din : Dinode)
    (n : Nat) (content : List UInt8) (k x : Nat) (din' : Dinode)
    (t : FsImage) (owner' : Owner) : Prop where
  pool : Pool t owner'
  holds : Holds t.sectors owner' i din' (max n (k + 1)) (decide (NDIRECT < max n (k + 1))) content
  adds : Adds i s owner t owner'
  place : cell t.sectors din' k = x
  count : t.freeblock + blocks n = s.freeblock + blocks (max n (k + 1))
  latest : t.freeblock = s.freeblock ∨ t.freeblock = x + 1
  rest : ∃ addrs, din' = { din with addrs := addrs }

theorem Pool.ne_zero (pool : Pool s owner) {b : Nat} {place : Nat × Nat}
    (owned : owner b = some place) : b ≠ 0 := by
  have low := (pool.below owned).1
  simp only [DATA] at low
  omega

/-- The second half of `fileBlock`: block `k` through the indirect block. -/
theorem wp_entryBlock (pool : Pool s owner) (holds : Holds s.sectors owner i din n true content)
    (high : NDIRECT ≤ k) (le : k ≤ n) (inside : k < MAXFILE)
    (there : din.words NDIRECT < s.length) (small : s.freeblock < 2 ^ 32)
    (next : ∀ x t owner', Pool t owner' →
      Holds t.sectors owner' i din (max n (k + 1)) true content →
      Adds i s owner t owner' → cell t.sectors din k = x →
      t.freeblock = s.freeblock + (max n (k + 1) - n) →
      (t.freeblock = s.freeblock ∨ t.freeblock = x + 1) → Q (x, din) t) :
    wp (do
      let indirect ← rsect (din.words NDIRECT)
      if word32 indirect (4 * (k - NDIRECT)) = 0 then do
        let x ← takeBlock
        wsect (din.words NDIRECT) (put indirect (4 * (k - NDIRECT)) (le32 x))
        pure (x, din)
      else
        pure (word32 indirect (4 * (k - NDIRECT)), din)) Q E s := by
  have ind : owner (din.words NDIRECT) = some (i, MAXFILE) := holds.there MAXFILE (.inr ⟨rfl, rfl⟩)
  have entry : cell s.sectors din k =
      word32 (s.sectors (din.words NDIRECT)) (4 * (k - NDIRECT)) := by
    unfold cell
    rw [if_neg (by omega), if_neg (by omega)]
  rw [wp_bind]
  refine wp_rsect (fun _ => ?_) fun outside => absurd there (by omega)
  rcases Nat.lt_or_eq_of_le le with old | new
  · have owned := holds.there k (.inl old)
    rw [← entry, if_neg (pool.ne_zero owned), wp_pure]
    have same : max n (k + 1) = n := Nat.max_eq_left old
    refine next _ s owner pool (same.symm ▸ holds) (.refl i s owner) rfl ?_ (.inl rfl)
    omega
  · subst new
    have same : max k (k + 1) = k + 1 := Nat.max_eq_right (Nat.le_succ k)
    rw [if_pos (holds.entry_null rfl k le_rfl high inside), wp_bind]
    refine wp_takeBlock ?_
    rw [wp_bind]
    refine wp_wsect there ?_
    rw [wp_pure]
    have added := holds.addEntry high inside pool.unowned (pool.fresh _ le_rfl) small
    have indBelow : din.words NDIRECT < (taken s).freeblock := Nat.lt_succ_of_lt (pool.below ind).2
    have keptInd : update owner s.freeblock (some (i, k))
        (din.words NDIRECT) = some (i, MAXFILE) := by
      rw [update_of_ne (Nat.ne_of_lt (pool.below ind).2), ind]
    have pool' := pool.take (i, k)
    refine next s.freeblock _ _ (pool'.write indBelow _)
      (by rw [same]; exact added) ((pool.adds_take i k).trans (pool'.adds_write keptInd _)) ?_ ?_
      (.inr rfl)
    · exact (added.back s.freeblock k (update_self ..)).2
    · simp only [taken]
      omega

/-- `fileBlock` finds block `k`, or adds it where the file ends. -/
theorem wp_fileBlock (pool : Pool s owner)
    (holds : Holds s.sectors owner i din n (decide (NDIRECT < n)) content)
    (le : k ≤ n) (inside : k < MAXFILE) (room : s.freeblock ≤ s.length)
    (small : s.length + 2 < 2 ^ 32)
    (fails : s.length + blocks n < s.freeblock + blocks (max n (k + 1)) → E .read)
    (next : ∀ x din' t owner', Placed i s owner din n content k x din' t owner' → Q (x, din') t) :
    wp (fileBlock din k) Q E s := by
  unfold fileBlock
  split
  · rename_i low
    have place : cell s.sectors din k = din.words k := if_pos low
    rcases Nat.lt_or_eq_of_le le with old | new
    · have owned := holds.there k (.inl old)
      have same : max n (k + 1) = n := Nat.max_eq_left old
      rw [place] at owned
      rw [← words_direct din k low, if_neg (pool.ne_zero owned), wp_pure]
      refine next _ din s owner ⟨pool, ?_, .refl i s owner, place, ?_, .inl rfl, ⟨din.addrs, rfl⟩⟩
      · rw [same]
        exact holds
      · rw [same]
    · subst new
      have same : max k (k + 1) = k + 1 := Nat.max_eq_right (Nat.le_succ k)
      have null : din.addrs (direct k low) = 0 :=
        (words_direct din k low).symm.trans (holds.direct_null k le_rfl low)
      have added := holds.addDirect low pool.unowned (pool.fresh _ le_rfl)
      rw [if_pos null, wp_bind]
      refine wp_takeBlock ?_
      rw [wp_pure]
      refine next _ _ _ _ ⟨pool.take (i, k), ?_, pool.adds_take i k, ?_, ?_, .inr rfl, ⟨_, rfl⟩⟩
      · have shape : decide (NDIRECT < max k (k + 1)) = decide (NDIRECT < k) := by
          rw [same]
          exact decide_eq_decide.mpr (by omega)
        rw [shape, same]
        exact added
      · exact (added.back s.freeblock k (update_self ..)).2
      · simp only [taken, blocks, same]
        rw [if_neg (by omega), if_neg (by omega)]
        omega
  · rename_i high
    rw [Nat.not_lt] at high
    have deepAfter : decide (NDIRECT < max n (k + 1)) = true := decide_eq_true (by omega)
    rw [wp_bind]
    unfold indirectBlock
    rcases Nat.lt_or_eq_of_le (high.trans le) with deep | edge
    · -- the indirect block is there
      have isDeep : decide (NDIRECT < n) = true := decide_eq_true deep
      rw [isDeep] at holds
      have ind : owner (din.words NDIRECT) = some (i, MAXFILE) :=
        holds.there MAXFILE (.inr ⟨rfl, rfl⟩)
      have below := (pool.below ind).2
      rw [← words_indirect, if_neg (pool.ne_zero ind), wp_pure]
      refine wp_entryBlock pool holds high le inside (by omega) (by omega) ?_
      intro x t owner' pool' holds' adds place count latest
      refine next x din t owner' ⟨pool', deepAfter ▸ holds', adds, place, ?_,
        latest, ⟨din.addrs, rfl⟩⟩
      simp only [blocks]
      rw [count, if_pos deep, if_pos (by omega)]
      omega
    · -- the file grows beyond its direct blocks
      subst edge
      have atEnd : k = NDIRECT := by omega
      subst atEnd
      have shallow : decide (NDIRECT < NDIRECT) = false := by decide
      have grown : blocks NDIRECT = 12 ∧ blocks (max NDIRECT (NDIRECT + 1)) = 14 := by decide
      rw [shallow] at holds
      have null : din.addrs INDIRECT = 0 :=
        (words_indirect din).symm.trans (holds.indirect_null rfl)
      rw [if_pos null, wp_bind]
      refine wp_takeBlock ?_
      rw [wp_pure]
      have added := holds.addIndirect pool.unowned (pool.fresh _ le_rfl)
      have pool' := pool.take (i, MAXFILE)
      have place' : Dinode.words
          { din with addrs := update din.addrs INDIRECT s.freeblock }
          NDIRECT = s.freeblock :=
        (added.back s.freeblock MAXFILE (update_self ..)).2
      by_cases inFile : s.freeblock < s.length
      · have entry := wp_entryBlock (s := taken s) (E := E) (Q := Q) pool'
          added le_rfl le_rfl inside
          (by rw [place']; exact inFile) (by simp only [taken]; omega)
        rw [place'] at entry
        refine entry ?_
        intro x t owner' pool'' holds' adds place count latest
        refine next x _ t owner' ⟨pool'', deepAfter ▸ holds',
          (pool.adds_take i MAXFILE).trans adds, place, ?_, ?_, ⟨_, rfl⟩⟩
        · rw [count, grown.1, grown.2]
          simp only [taken, NDIRECT]
          omega
        · refine .inr (latest.resolve_left ?_)
          rw [count]
          simp only [taken, NDIRECT]
          omega
      · rw [wp_bind]
        refine wp_rsect (fun there => absurd there ?_) fun _ => fails ?_
        · simp only [taken]
          exact inFile
        · rw [grown.1, grown.2]
          omega

/-! ## The loop -/

/-- Data blocks of a file of `length` bytes. -/
def nblocks (length : Nat) : Nat := (length + 511) / 512

theorem blocks_mono {m : Nat} (le : n ≤ m) : blocks n ≤ blocks m := by
  unfold blocks
  split <;> split <;> omega

theorem blocks_nblocks_mono (length n : Nat) :
    blocks (nblocks length) ≤ blocks (nblocks (length + n)) := by
  apply blocks_mono
  unfold nblocks
  omega

/-- Inode `i` holds `content` in as many blocks as it needs. -/
def Stores (sectors : Nat → Bytes.Store) (owner : Owner) (i : Nat)
    (din : Dinode) (content : List UInt8) : Prop :=
  Holds sectors owner i din (nblocks content.length)
    (decide (NDIRECT < nblocks content.length)) content

/-- The state after `content` of inode `i` has become `content'`. -/
structure Appended (i : Nat) (s : FsImage) (owner : Owner) (din : Dinode)
    (content content' : List UInt8) (din' : Dinode) (t : FsImage)
    (owner' : Owner) : Prop where
  pool : Pool t owner'
  stores : Stores t.sectors owner' i din' content'
  adds : Adds i s owner t owner'
  room : t.freeblock ≤ t.length
  count : t.freeblock + blocks (nblocks content.length) =
    s.freeblock + blocks (nblocks content'.length)
  rest : ∃ addrs, din' = { din with addrs := addrs }

/-- The bytes do not fit into the file or into the image. -/
def Full (s : FsImage) (content : List UInt8) (n : Nat) : Prop :=
  MAXFILE * 512 < content.length + n ∨ s.length + blocks (nblocks content.length) <
      s.freeblock + blocks (nblocks (content.length + n))

theorem wp_appendLoop {Q : Dinode × Nat → FsImage → Prop} (fuel : Nat)
    (p : List UInt8) (enough : p.length ≤ fuel) (pool : Pool s owner)
    (stores : Stores s.sectors owner i din content)
    (room : s.freeblock ≤ s.length) (small : s.length + 2 < 2 ^ 32)
    (fails : Full s content p.length → ∀ reason, E reason)
    (next : ∀ din' t owner', Appended i s owner din content (content ++ p) din' t owner' →
      Q (din', content.length + p.length) t) : wp (appendLoop fuel din content.length p) Q E s := by
  induction fuel generalizing s owner din content p with
  | zero =>
    have empty : p = [] := List.length_eq_zero_iff.mp (by omega)
    subst empty
    rw [List.append_nil] at next
    exact next din s owner ⟨pool, stores, .refl i s owner, room, rfl, ⟨din.addrs, rfl⟩⟩
  | succ fuel ih =>
    unfold appendLoop
    by_cases empty : p = []
    · subst empty
      rw [if_pos rfl, wp_pure]
      rw [List.append_nil] at next
      exact next din s owner ⟨pool, stores, .refl i s owner, room, rfl, ⟨din.addrs, rfl⟩⟩
    · rw [if_neg empty]
      have some : 0 < p.length := List.length_pos_iff.mpr empty
      generalize fbn : content.length / 512 = k
      have piece := Nat.div_add_mod content.length 512
      have within := Nat.mod_lt content.length (y := 512) (by decide)
      rw [fbn] at piece
      have n : nblocks content.length ≤ k + 1 ∧ k ≤ nblocks content.length := by
        unfold nblocks
        omega
      have after : max (nblocks content.length) (k + 1) = k + 1 := Nat.max_eq_right n.1
      have atLeast : k + 1 ≤ nblocks (content.length + p.length) := by
        unfold nblocks
        omega
      simp only
      rw [wp_bind]
      unfold assert
      rw [wp_ite]
      refine ⟨fun inside => ?_, fun outside => fails (.inl ?_) _⟩
      · rw [wp_pure, wp_bind]
        have grows := blocks_mono atLeast
        refine wp_fileBlock pool stores n.2 inside room small ?_ ?_
        · rw [after]
          exact fun full => fails (.inr (by omega)) _
        · intro x din' t owner' placed
          have holds := placed.holds
          have count := placed.count
          have length := placed.adds.length
          have latest := placed.latest
          rw [after] at holds count
          have owned := holds.there k (.inl (Nat.lt_succ_self k))
          rw [placed.place] at owned
          have below := (placed.pool.below owned).2
          simp only
          rw [wp_bind]
          refine wp_rsect (fun there => ?_) fun outside => ?_
          · rw [wp_bind]
            refine wp_wsect there ?_
            generalize taking : min p.length ((k + 1) * 512 - content.length) = n1
            have taken1 : (p.take n1).length = n1 := by
              rw [List.length_take]
              omega
            have written := holds.write (k := k) (p.take n1)
              (Nat.lt_succ_self k) (by omega) (by rw [taken1]; omega)
            have total : (content ++ p.take n1).length = content.length + n1 := by
              rw [List.length_append, taken1]
            have now : nblocks (content ++ p.take n1).length = k + 1 := by
              rw [total]
              unfold nblocks
              omega
            have left : (p.drop n1).length = p.length - n1 := List.length_drop
            rw [placed.place, Nat.mul_comm 512 k] at written
            have storesNow : Stores (update t.sectors x
                (put (t.sectors x) (content.length - k * 512)
                  (p.take n1))) owner' i din' (content ++ p.take n1) := by
              unfold Stores
              rw [now]
              exact written
            have whole : content ++ p.take n1 ++ p.drop n1 = content ++ p := by
              rw [List.append_assoc, List.take_append_drop]
            have lengths : content.length + n1 + (p.drop n1).length =
                content.length + p.length := by omega
            rw [← total]
            refine ih (p.drop n1) (by omega) (placed.pool.write below _) storesNow (by
                simp only
                omega) (by
                simp only
                omega) ?_ ?_
            · intro full
              refine fails ?_
              unfold Full at full ⊢
              rw [now, total, lengths] at full
              simp only at full
              omega
            · intro din'' u owner'' appended
              rw [total, lengths]
              refine next din'' u owner'' ⟨appended.pool, ?_, ?_, appended.room, ?_, ?_⟩
              · rw [← whole]
                exact appended.stores
              · exact (placed.adds.trans (placed.pool.adds_write owned _)).trans appended.adds
              · have more := appended.count
                rw [now, whole] at more
                simp only at more
                omega
              · obtain ⟨addrs, first⟩ := placed.rest
                obtain ⟨addrs', second⟩ := appended.rest
                exact ⟨addrs', by rw [second, first]⟩
          · refine fails (.inr ?_) _
            rcases latest with same | new
            · omega
            · omega
      · have size : MAXFILE * 512 ≤ k * 512 := Nat.mul_le_mul_right 512 (Nat.le_of_not_lt outside)
        omega

end Xv6.Mkfs
