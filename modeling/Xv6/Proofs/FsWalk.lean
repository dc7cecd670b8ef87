/-
Purpose: Path lookup on a disk that nobody changes: namex follows the entries
  of the directories and leaves one reference behind.
-/
import Xv6.Proofs.FsCache
import Xv6.Proofs.FsResolve

namespace Xv6.Fs

open FileSys PanicM

variable {c : InodePtr} {Q : Unit → FileSys → Prop} {path : List UInt8}

/-! ## A cache at rest -/

/-- A cache entry that nobody has locked and that agrees with the disk if it
has been read. -/
def Calm (d : Disk) (node : Inode) : Prop :=
  node.busy = false ∧ (node.valid = true → node.toDinode = d.dinode node.inum)

/-- No buffer is busy, no inode is locked, and two entries of the inode cache
are unused, as many as a path lookup takes. -/
structure Settled (s : FileSys) : Prop where
  idle : s.disk.held = []
  refs : ∀ c, 0 ≤ (s.icache c).ref
  calm : ∀ c, 0 < (s.icache c).ref → Calm s.disk (s.icache c)
  free : ∃ a b, a ≠ b ∧ (s.icache a).ref = 0 ∧ (s.icache b).ref = 0

/-- State `s` has, compared with `s₀`, `hold c` more references to each entry `c`,
and no entry is locked but `lock`. -/
structure Holding (s₀ s : FileSys) (hold : InodePtr → Nat) (lock : Option InodePtr) : Prop where
  disk : s.disk = s₀.disk
  refs : ∀ c, (s.icache c).ref = (s₀.icache c).ref + hold c
  locked : ∀ c ∈ lock, 0 < (s.icache c).ref ∧ (s.icache c).valid = true
  busy : ∀ c, 0 < (s.icache c).ref → (s.icache c).busy = decide (lock = some c)
  copy : ∀ c, 0 < (s.icache c).ref → (s.icache c).valid = true →
    (s.icache c).toDinode = s.disk.dinode (s.icache c).inum

variable {s s₀ : FileSys} {ip : InodePtr} {i : Nat} {E : FsPanic → Prop}
  {hold hold' : InodePtr → Nat} {lock lock' : Option InodePtr}

theorem Settled.holding (settled : Settled s) : Holding s s 0 none where
  disk := rfl
  refs := fun _ => (Int.add_zero _).symm
  locked := nofun
  busy := fun c held => (settled.calm c held).1
  copy := fun c held => (settled.calm c held).2

namespace Holding

theorem ref_pos (holding : Holding s₀ s (addRef hold ip) lock) (settled : Settled s₀) :
    0 < (s.icache ip).ref := by
  have old := settled.refs ip
  rw [holding.refs ip, addRef_self]
  omega

theorem free (holding : Holding s₀ s (addRef 0 ip) lock) (settled : Settled s₀) :
    ∃ a, (s.icache a).ref = 0 := by
  obtain ⟨a, b, apart, freeA, freeB⟩ := settled.free
  by_cases same : a = ip
  · refine ⟨b, ?_⟩
    rw [holding.refs b, addRef_of_ne (fun also => apart (same.trans also.symm)), freeB]
    rfl
  · refine ⟨a, ?_⟩
    rw [holding.refs a, addRef_of_ne same, freeA]
    rfl

theorem set (holding : Holding s₀ s hold lock) {node : Inode}
    (ref : node.ref = (s₀.icache c).ref + hold' c)
    (others : ∀ x ≠ c, hold' x = hold x ∧ (lock' = some x ↔ lock = some x))
    (locked : lock' = some c → 0 < node.ref ∧ node.valid = true)
    (busy : 0 < node.ref → node.busy = decide (lock' = some c))
    (copy : 0 < node.ref → node.valid = true → node.toDinode = s.disk.dinode node.inum) :
    Holding s₀ (s.leave s.disk c node) hold' lock' := by
  constructor
  case disk => exact holding.disk
  all_goals
    intro x
    by_cases here : x = c
    · subst here
      rw [leave_self]
      assumption
    rw [leave_of_ne here]
  · rw [(others x here).1]
    exact holding.refs x
  · exact fun lock => holding.locked x ((others x here).2.mp lock)
  · rw [decide_eq_decide.mpr (others x here).2]
    exact holding.busy x
  · exact holding.copy x

end Holding

/-! ## References and locks -/

theorem wp_iget_held {Q : InodePtr → FileSys → Prop} (holding : Holding s₀ s hold lock)
    (room : ∃ a, (s.icache a).ref = 0)
    (next : ∀ c t, Holding s₀ t (addRef hold c) lock → (t.icache c).inum = i →
      (∀ x, 0 < (s.icache x).ref → (t.icache x).inum = (s.icache x).inum) → Q c t) :
    wp (iget i) Q E s := by
  have others : ∀ c, ∀ x ≠ c, addRef hold c x = hold x ∧ (lock = some x ↔ lock = some x) :=
    fun c x other => ⟨addRef_of_ne other, Iff.rfl⟩
  have inums : ∀ {c node}, (0 < (s.icache c).ref → node.inum = (s.icache c).inum) →
      ∀ x, 0 < (s.icache x).ref → ((s.leave s.disk c node).icache x).inum = (s.icache x).inum := by
    intro c node same x held
    by_cases here : x = c
    · rw [here, leave_self]
      exact same (here ▸ held)
    · rw [leave_of_ne here]
  refine wp_iget_entry (fun full => absurd room.choose_spec (full _)) (fun c held same => ?_)
    fun c zero _ => ?_
  · refine next c _ (holding.set ?_ (others c) ?_ ?_ ?_) (by rw [leave_self]; exact same)
      (inums fun _ => rfl)
    · rw [addRef_self, Int.natCast_succ, ← Int.add_assoc, ← holding.refs c]
    · exact fun lock => ⟨Int.lt_add_one_of_le held.le, (holding.locked c lock).2⟩
    · exact fun _ => holding.busy c held
    · exact fun _ => holding.copy c held
  · have free : lock ≠ some c := fun lock => by
      have := (holding.locked c lock).1
      omega
    refine next c _ (holding.set ?_ (others c) ?_ ?_ nofun) (by rw [leave_self])
      (inums fun held => by omega)
    · rw [addRef_self, Int.natCast_succ, ← Int.add_assoc, ← holding.refs c, zero]
      rfl
    · exact fun lock => absurd lock free
    · exact fun _ => (decide_eq_false free).symm

theorem wp_ilock_held (holding : Holding s₀ s hold none) (held : 0 < (s.icache ip).ref)
    (inum : (s.icache ip).inum = i) (idle : s.disk.held = []) (used : (s.disk.dinode i).type ≠ 0)
    (next : ∀ t, Holding s₀ t hold (some ip) → (t.icache ip).inum = i → Q () t) :
    wp (ilock ip) Q E s := by
  have locks : ∀ x ≠ ip, hold x = hold x ∧ (some ip = some x ↔ none = some x) := fun x other =>
    ⟨rfl, iff_of_false (fun same => other (Option.some.inj same).symm) nofun⟩
  refine wp_ilock_entry idle (absurd held) (fun busy => ?_) (fun free => absurd (inum ▸ free) used)
    (fun valid => next _ (holding.set (holding.refs ip) locks (fun _ => ⟨held, valid⟩)
      (fun _ => (decide_eq_true rfl).symm) fun _ => holding.copy ip held) ?_)
    fun _ _ => next _ (holding.set (holding.refs ip) locks (fun _ => ⟨held, rfl⟩)
      (fun _ => (decide_eq_true rfl).symm) fun _ _ => rfl) ?_
  · simp [holding.busy ip held] at busy
  all_goals
    rw [leave_self]
    exact inum

theorem wp_iunlockput_held (holding : Holding s₀ s (addRef hold ip) (some ip))
    (linked : (s.icache ip).nlink ≠ 0)
    (next : ∀ t, Holding s₀ t hold none → (∀ c, (t.icache c).inum = (s.icache c).inum) → Q () t) :
    wp (iunlockput ip) Q E s := by
  obtain ⟨held, valid⟩ := holding.locked ip rfl
  have busy : (s.icache ip).busy = true := by simp [holding.busy ip held]
  unfold iunlockput iunlock
  rw [wp_bind, wp_bind, wp_get,
    if_neg (by rw [busy]; simp only [not_true_eq_false, false_or]; omega), wp_updInode]
  refine wp_iput_stays (fun free => linked ?_) ?_
  · rw [leave_self] at free
    exact free.2.2
  rw [leave_self, leave_leave, leave_disk]
  refine next _ (holding.set ?_ (fun x other => ⟨(addRef_of_ne other).symm, ?_⟩) nofun
    (fun _ => rfl) fun _ _ => ?_) fun c => ?_
  · have ref := holding.refs ip
    rw [addRef_self, Int.natCast_succ] at ref
    change (s.icache ip).ref - 1 = _
    omega
  · exact iff_of_false nofun fun same => other (Option.some.inj same).symm
  · exact holding.copy ip held valid
  · by_cases here : c = ip
    · rw [here, leave_self]
    · rw [leave_of_ne here]

/-! ## One step of a path -/

/-- `name` leads from directory `i` to inode `child`: an entry has that name,
no entry before it has, and all blocks up to that entry are there. -/
structure Disk.Child (d : Disk) (i : Nat) (name : List UInt8) (child : Nat) : Prop where
  type : (d.dinode i).type = T_DIR
  linked : (d.dinode i).nlink ≠ 0
  entry : ∃ n k, d.Has (d.dinode i) n ∧ k / DPB < n ∧
    k < DPB * (((d.dinode i).size + (BSIZE - 1)) / BSIZE) ∧
    d.Matches (d.dinode i) name k ∧
    (∀ j < k, ¬ d.Matches (d.dinode i) name j) ∧
    d.entryInum (d.dinode i) k = child

variable {name : List UInt8} {child : Nat}

theorem wp_dirlookup_child {Q : Option (InodePtr × Nat) → FileSys → Prop}
    (leads : s.disk.Child i name child)
    (node : (s.icache ip).toDinode = s.disk.dinode i) (idle : s.disk.held = [])
    (next : ∀ off, wp (iget child) (fun c t => Q (some (c, off)) t) E s) :
    wp (dirlookup ip name) Q E s := by
  obtain ⟨n, k, has, there, inside, hit, first, inum⟩ := leads.entry
  rw [← node] at has inside hit first inum
  have type : (s.icache ip).type = T_DIR := by
    rw [node]
    exact leads.type
  unfold dirlookup
  rw [wp_bind, wp_get, if_neg (not_not.mpr type), wp_bind, wp_withInode]
  rw [← Nat.zero_add (_ / BSIZE)] at inside
  refine wp_dirlookupLoop_there _ idle has (by rw [type]; decide) ?_ ?_
    fun missed => absurd hit (missed k (Nat.zero_le k) inside)
  · intro b _ _ missed
    by_contra past
    refine missed k (Nat.zero_le k) ?_ hit
    simp only [DPB] at *
    omega
  · intro j _ _ other before
    obtain rfl : j = k := by
      rcases Nat.lt_trichotomy j k with less | same | more
      · exact absurd other (first j less)
      · exact same
      · exact absurd hit (before k (Nat.zero_le k) more)
    dsimp only
    rw [leave_same, wp_bind, inum]
    exact next _

/-! ## Paths -/

/-- The names lead from inode `i` to inode `target`. -/
inductive Disk.Walk (d : Disk) : Nat → List (List UInt8) → Nat → Prop where
  | here (i : Nat) : d.Walk i [] i
  | step {i child target : Nat} {name : List UInt8}
      {names : List (List UInt8)} (leads : d.Child i name child)
      (walk : d.Walk child names target) : d.Walk i (name :: names) target

theorem Disk.Walk.congr {d : Disk} (d' : Disk)
    (same : d'.sectors = d.sectors) {target : Nat} {names : List (List UInt8)}
    (walk : d.Walk i names target) : d'.Walk i names target := by
  obtain ⟨sectors, held, given⟩ := d
  obtain ⟨sectors', held', given'⟩ := d'
  obtain rfl : sectors' = sectors := same
  induction walk with
  | here i => exact .here i
  | step leads _ ih =>
    exact .step ⟨leads.type, leads.linked, leads.entry⟩ ih

theorem wp_namexLoop_walk {target fuel : Nat} {names : List (List UInt8)}
    {last : List UInt8} (settled : Settled s₀) (walk : s₀.disk.Walk i names target)
    (holding : Holding s₀ s (addRef 0 ip) none) (inum : (s.icache ip).inum = i)
    (spells : elements path = names) (enough : names.length < fuel) :
    wp (namexLoop false fuel ip path last) (fun found t => ∃ c name, found = some (c, name) ∧
        Holding s₀ t (addRef 0 c) none ∧ (t.icache c).inum = target) E s := by
  induction walk generalizing s ip path last fuel with
  | here i =>
    obtain ⟨fuel, rfl⟩ := Nat.exists_eq_succ_of_ne_zero (Nat.ne_of_gt enough)
    unfold namexLoop
    rw [skipelem_none spells]
    exact ⟨ip, last, rfl, holding, inum⟩
  | step leads walk ih =>
    rename_i i child target name names
    obtain ⟨fuel, rfl⟩ := Nat.exists_eq_succ_of_ne_zero (Nat.ne_zero_of_lt enough)
    obtain ⟨rest, skips, spellsRest⟩ := skipelem_some spells
    unfold namexLoop
    rw [skips]
    dsimp only
    rw [wp_bind]
    refine wp_ilock_held holding (holding.ref_pos settled) inum (holding.disk ▸ settled.idle) ?_ ?_
    · rw [holding.disk, leads.type]
      decide
    intro t locked inum
    obtain ⟨held, valid⟩ := locked.locked ip rfl
    have copy := locked.copy ip held valid
    rw [inum, locked.disk] at copy
    rw [wp_bind, wp_get, copy, if_neg (not_not.mpr leads.type), if_neg (Bool.false_ne_true ·.1),
      wp_bind]
    rw [← locked.disk] at leads copy
    refine wp_dirlookup_child leads copy (locked.disk ▸ settled.idle) fun off =>
      wp_iget_held locked (locked.free settled) fun c t' got isChild same => ?_
    rw [addRef_comm] at got
    dsimp only
    rw [wp_bind]
    obtain ⟨held', valid'⟩ := got.locked ip rfl
    have linked := got.copy ip held' valid'
    rw [same ip held, inum, got.disk, ← locked.disk] at linked
    refine wp_iunlockput_held got ?_ fun u after others =>
      ih after ((others c).trans isChild) spellsRest ?_
    · rw [linked]
      exact leads.linked
    · rw [List.length_cons] at enough
      omega

theorem wp_namei_walk {target : Nat} {names : List (List UInt8)} (cwd : InodePtr)
    (settled : Settled s) (walk : s.disk.Walk ROOTINO names target)
    (absolute : path.head? = some SLASH) (spells : elements path = names)
    (enough : names.length ≤ path.length) :
    wp (namei cwd path) (fun found t => ∃ c, found = some c ∧
      Holding s t (addRef 0 c) none ∧ (t.icache c).inum = target) E s := by
  obtain ⟨a, _, _, zero, _⟩ := settled.free
  unfold namei namex
  dsimp only
  rw [wp_bind, if_pos absolute, wp_bind]
  refine wp_iget_held settled.holding ⟨a, zero⟩ fun ip t got inum _ => ?_
  refine wp_imp (wp_namexLoop_walk settled walk got inum spells (Nat.lt_succ_of_le enough)) ?_
  rintro found u ⟨c, name, rfl, after⟩
  exact ⟨c, rfl, after⟩

end Xv6.Fs
