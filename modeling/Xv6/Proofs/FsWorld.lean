/-
Purpose: Block ownership in every run of the file system: the references that
  open files and current directories hold are those the inode cache counts,
  and every call keeps the invariant.
-/
import Xv6.Lib.Run
import Xv6.Proofs.FsCalls

namespace Xv6.Fs

open FileSys File PanicM
open Function (update_self update_of_ne update_eq_self update_idem)

variable {s s' : FileSys} {hold : InodePtr → Nat} {c : InodePtr}
variable {κ : Type}

/-! ## References from files and processes -/

/-- How many of the pointers `g` lead to entry `c`. -/
def refCount {κ : Type} [Fintype κ] (g : κ → Option InodePtr)
    (c : InodePtr) : Nat := (Finset.univ.filter fun k => g k = some c).card

theorem refCount_pos [Fintype κ] {g : κ → Option InodePtr} {k : κ}
    (points : g k = some c) : 0 < refCount g c := by
  apply Finset.card_pos.mpr
  exact ⟨k, Finset.mem_filter.mpr ⟨Finset.mem_univ k, points⟩⟩

theorem refCount_update [Fintype κ] [DecidableEq κ]
    {g : κ → Option InodePtr} {k : κ} (free : g k = none) (c : InodePtr) :
    refCount (Function.update g k (some c)) = addRef (refCount g) c := by
  funext c'
  by_cases same : c' = c
  · rw [same, addRef_self]
    apply Pool.card_filter_succ (Finset.mem_univ k)
    · rw [update_self]
    · rw [free]
      simp
    · intro b _ ne
      rw [update_of_ne ne]
  · rw [addRef_of_ne same]
    apply congrArg Finset.card
    apply Finset.filter_congr
    intro b _
    by_cases here : b = k
    · rw [here, update_self, free]
      simp [Ne.symm same]
    · rw [update_of_ne here]

theorem addRef_add_left (hold more : InodePtr → Nat) (c : InodePtr) :
    addRef hold c + more = addRef (hold + more) c := by
  unfold addRef
  exact add_right_comm ..

theorem addRef_add_right (hold more : InodePtr → Nat) (c : InodePtr) :
    more + addRef hold c = addRef (more + hold) c := by
  unfold addRef
  exact (add_assoc ..).symm

/-- A file that `fileclose` has closed. -/
def File.closed (file : File) : File := { file with ref := 0, type := .none }

/-- The inode of an open file. -/
def File.target (file : File) : Option InodePtr :=
  match file.type with
  | .none => none
  | .inode => some file.ip

namespace FileSys

/-- The inodes of the open files. -/
def targets (s : FileSys) (f : Fin NFILE) : Option InodePtr :=
  (s.ftable f).target

/-- The references to entry `c` that open files and current directories
hold. -/
def users (s : FileSys) : InodePtr → Nat := refCount s.targets + refCount s.cwd

/-- Replace one current directory. -/
def changeCwd (s : FileSys) (p : Slot) (ip : Option InodePtr) : FileSys :=
  { s with cwd := Function.update s.cwd p ip }

variable {f : Fin NFILE} {file : File} {p : Slot}

theorem users_congr (ftable : s'.ftable = s.ftable) (cwd : s'.cwd = s.cwd) :
    s'.users = s.users := by
  unfold users targets
  rw [ftable, cwd]

@[simp] theorem setFile_self (s : FileSys) (f : Fin NFILE) (file : File) :
    (s.setFile f file).ftable f = file := update_self ..

theorem setFile_of_ne {f' : Fin NFILE} (ne : f' ≠ f) (s : FileSys)
    (file : File) : (s.setFile f file).ftable f' = s.ftable f' :=
  update_of_ne ne ..

theorem targets_setFile (s : FileSys) (f : Fin NFILE) (file : File) : (s.setFile f file).targets =
      Function.update s.targets f file.target := by
  funext f'
  unfold targets
  by_cases here : f' = f
  · rw [here, update_self, setFile_self]
  · rw [update_of_ne here, setFile_of_ne here]

theorem users_setFile (same : file.target = (s.ftable f).target) :
    (s.setFile f file).users = s.users := by
  have targets : Function.update s.targets f file.target = s.targets := by
    rw [same]
    exact update_eq_self ..
  unfold users
  rw [targets_setFile, targets]
  rfl

theorem users_open (free : (s.ftable f).target = none) (target : file.target = some c) :
    (s.setFile f file).users = addRef s.users c := by
  have closed : s.targets f = none := free
  unfold users
  rw [targets_setFile, target, refCount_update closed, addRef_add_left]
  rfl

theorem users_close (target : (s.ftable f).target = some c) (closed : file.target = none) :
    s.users = addRef (s.setFile f file).users c := by
  have back : (s.setFile f file).setFile f (s.ftable f) = s := by
    unfold setFile
    rw [update_idem, update_eq_self]
  have free : ((s.setFile f file).ftable f).target = none := by
    rw [setFile_self]
    exact closed
  rw [← users_open free target, back]

theorem users_enter (free : s.cwd p = none) (c : InodePtr) :
    (s.changeCwd p (some c)).users = addRef s.users c := by
  unfold users changeCwd
  rw [refCount_update free, addRef_add_right]
  rfl

theorem users_leave (there : s.cwd p = some c) : s.users = addRef (s.changeCwd p none).users c := by
  have back : (s.changeCwd p none).changeCwd p (some c) = s := by
    unfold changeCwd
    rw [update_idem, ← there, update_eq_self]
  rw [← users_enter (update_self ..) c, back]

theorem users_target (target : (s.ftable f).target = some c) : 0 < s.users c := by
  have counted : 0 < refCount s.targets c := refCount_pos (k := f) target
  exact Nat.add_pos_left counted _

theorem users_cwd (there : s.cwd p = some c) : 0 < s.users c :=
  Nat.add_pos_right _ (refCount_pos there)

end FileSys

/-- Files that are open have references, and none that may be written is a
directory. -/
structure FilesOk (s : FileSys) : Prop where
  opened : ∀ f c, (s.ftable f).target = some c → 0 < (s.ftable f).ref
  writable : ∀ f c, (s.ftable f).target = some c → (s.ftable f).writable = true →
    (s.icache c).valid = true ∧ (s.icache c).type ≠ T_DIR

/-- What holds between system calls. -/
structure World (s : FileSys) : Prop where
  consistent : Consistent False s s.users
  files : FilesOk s

/-- The invariant of the cache is not about files and current directories. -/
theorem Consistent.frame (consistent : Consistent False s hold)
    (disk : s'.disk = s.disk) (icache : s'.icache = s.icache) : Consistent False s' hold := by
  obtain ⟨d, i, ftable, cwd⟩ := s
  obtain ⟨d', i', ftable', cwd'⟩ := s'
  cases disk
  cases icache
  exact ⟨consistent.toCached, consistent.owned, consistent.idle, consistent.origin,
    consistent.checked, consistent.dirs, consistent.root⟩

theorem Consistent.plain (consistent : Consistent False s hold) (i : Nat) :
    (s.node i).type ≠ T_CHECKED := fun checked => (consistent.checked i checked).1

theorem Consistent.plain_held (consistent : Consistent False s hold) (held : 0 < hold c)
    (valid : (s.icache c).valid = true) : (s.icache c).type ≠ T_CHECKED :=
  consistent.node_held held valid ▸ consistent.plain (s.icache c).inum

theorem FilesOk.stable (files : FilesOk s) (stable : Stable False hold s s')
    (held : ∀ f c, (s.ftable f).target = some c → 0 < hold c) : FilesOk s' where
  opened := by
    rw [stable.ftable]
    exact files.opened
  writable := by
    rw [stable.ftable]
    intro f c target writable
    obtain ⟨valid, type⟩ := files.writable f c target writable
    obtain ⟨valid', type'⟩ := stable.valid c (held f c target) valid
    rw [type']
    exact ⟨valid', type⟩

theorem FilesOk.world (files : FilesOk s) (after : Consistent False s' s.users)
    (stable : Stable False s.users s s') : World s' where
  consistent := by
    rw [users_congr stable.ftable stable.cwd]
    exact after
  files := files.stable stable fun _ _ => users_target

/-! ## Open files -/

section Files

variable {f : Fin NFILE} {file : File}
variable {E : FsPanic → Prop} {Q : Unit → FileSys → Prop}

theorem wp_updFile {update : File → File} :
    wp (updFile f update) Q E s ↔ Q () (s.setFile f (update (s.ftable f))) := Iff.rfl

theorem File.target_inode (type : file.type = .inode) : file.target = some file.ip := by
  unfold target
  rw [type]

theorem File.target_none (type : file.type = .none) : file.target = none := by
  unfold target
  rw [type]

theorem FilesOk.setFile (files : FilesOk s) (opened : ∀ c, file.target = some c → 0 < file.ref)
    (writable : ∀ c, file.target = some c → file.writable = true →
      (s.icache c).valid = true ∧ (s.icache c).type ≠ T_DIR) : FilesOk (s.setFile f file) where
  opened := by
    intro f' c target
    by_cases here : f' = f
    · rw [here, setFile_self] at target ⊢
      exact opened c target
    · rw [setFile_of_ne here] at target ⊢
      exact files.opened f' c target
  writable := by
    intro f' c target allowed
    by_cases here : f' = f
    · rw [here, setFile_self] at target allowed
      exact writable c target allowed
    · rw [setFile_of_ne here] at target allowed
      exact files.writable f' c target allowed

theorem FilesOk.close (files : FilesOk s) : FilesOk (s.setFile f (s.ftable f).closed) :=
  files.setFile nofun nofun

theorem World.setFile (world : World s) (file : File) (target : file.target = (s.ftable f).target)
    (ref : 0 < (s.ftable f).ref → 0 < file.ref) (writable : file.writable = (s.ftable f).writable) :
    World (s.setFile f file) ∧ (s.setFile f file).users = s.users := by
  have users : (s.setFile f file).users = s.users := users_setFile target
  refine ⟨⟨?_, ?_⟩, users⟩
  · rw [users]
    exact world.consistent.frame rfl rfl
  · apply world.files.setFile
    · intro c points
      rw [target] at points
      exact ref (world.files.opened f c points)
    · intro c points allowed
      rw [target] at points
      rw [writable] at allowed
      exact world.files.writable f c points allowed

theorem wp_filedup (world : World s) : wp (filedup f) (fun _ s' => World s') Tolerated s := by
  unfold filedup
  rw [wp_bind, wp_get, wp_ite, wp_updFile]
  refine ⟨fun _ => FsPanic.noConfusion, fun _ => ?_⟩
  exact (world.setFile { s.ftable f with ref := (s.ftable f).ref + 1 } rfl
    (fun pos => Int.lt_add_one_of_le pos.le) rfl).1

theorem wp_fileclose (world : World s) : wp (fileclose f) (fun _ s' => World s') Tolerated s := by
  unfold fileclose
  rw [wp_bind, wp_get, wp_ite, wp_ite, wp_updFile]
  refine ⟨fun _ => FsPanic.noConfusion, fun _ => ⟨fun more => ?_, fun _ => ?_⟩⟩
  · exact (world.setFile { s.ftable f with ref := (s.ftable f).ref - 1 } rfl
      (fun _ => Int.sub_pos.mpr more) rfl).1
  · rw [wp_bind, wp_updFile]
    have files := world.files.close (f := f)
    have before : Consistent False (s.setFile f (s.ftable f).closed) s.users :=
      world.consistent.frame rfl rfl
    cases type : (s.ftable f).type with
    | none =>
      have users : (s.setFile f (s.ftable f).closed).users = s.users :=
        users_setFile (target_none type).symm
      exact ⟨users ▸ before, files⟩
    | inode =>
      have users : s.users = addRef (s.setFile f (s.ftable f).closed).users (s.ftable f).ip :=
        users_close (target_inode type) rfl
      rw [users] at before
      refine wp_imp (wp_iput before) ?_
      rintro _ s₁ ⟨after, stable⟩
      exact files.world after stable

theorem wp_advance (world : World s) (r : Int) :
    wp (advance f r) (fun _ s' => World s' ∧ s'.users = s.users) E s := by
  unfold advance
  rw [wp_ite, wp_updFile]
  exact ⟨fun _ => world.setFile _ rfl (fun pos => pos) rfl, fun _ => ⟨world, rfl⟩⟩

/-- The common shape of `fileread` and `filewrite`. -/
theorem wp_transfer {α β : Type} {program : Inode → FsM (α × Inode)}
    (count : α → Int) (result : α → β) (world : World s) (held : 0 < s.users c)
    (run : ∀ s₁, Stable False s.users s s₁ →
      Ready s₁.disk.bitmapEnd s₁.node (s₁.icache c).inum s₁.disk (s₁.icache c) →
      wp (program (s₁.icache c)) (fun r d' =>
        Advanced s₁.disk.bitmapEnd s₁.node (s₁.icache c).inum s₁.disk
          (s₁.icache c) d' r.2) Tolerated s₁.disk) :
    wp (do
      ilock c
      let value ← withInode c program
      advance f (count value)
      iunlock c
      pure (result value)) (fun _ s' => World s') Tolerated s := by
  refine wp_seq (wp_ilock world.consistent held) ?_
  rintro _ s₁ ⟨locked, stable₁, valid₁, _⟩
  have world₁ := world.files.world locked stable₁
  have users₁ := users_congr stable₁.ftable stable₁.cwd
  have held₁ : 0 < s₁.users c := by
    rw [users₁]
    exact held
  have plain := world₁.consistent.plain_held held₁ valid₁
  have ready := world₁.consistent.ready held₁ valid₁ plain
  rw [wp_bind]
  refine wp_withInode_advanced (P := fun _ _ => True) world₁.consistent held₁ valid₁ plain
    (wp_imp (run s₁ stable₁ ready) fun _ _ advanced => ⟨advanced, nofun, trivial⟩) ?_
  rintro ⟨value, node⟩ d _ moved stable₂
  have world₂ := world₁.files.world moved stable₂
  have users₂ := users_congr stable₂.ftable stable₂.cwd
  refine wp_seq (wp_advance world₂ (count value)) ?_
  rintro _ s₃ ⟨world₃, users₃⟩
  have held₃ : 0 < s₃.users c := by
    rw [users₃, users₂]
    exact held₁
  refine wp_seq (wp_iunlock world₃.consistent held₃) ?_
  rintro _ s₄ ⟨unlocked, stable₄⟩
  exact world₃.files.world unlocked stable₄

theorem wp_fileread (typed : List UInt8) (n : Nat) (world : World s) :
    wp (fileread typed f n) (fun _ s' => World s') Tolerated s := by
  unfold fileread
  rw [wp_bind, wp_get, wp_ite]
  refine ⟨fun _ => ?_, fun _ => world⟩
  cases type : (s.ftable f).type with
  | none => exact FsPanic.noConfusion
  | inode =>
    apply wp_transfer (fun value : Int × List UInt8 => value.1)
      (fun value => (value.1, value.2)) world
      (users_target (target_inode type))
    intro s₁ _ ready
    refine wp_seq (wp_readi_ready typed ready (s.ftable f).off n) ?_
    rintro ⟨r, bytes, node⟩ d advanced
    exact advanced

theorem wp_filewrite (src : List UInt8) (world : World s) :
    wp (filewrite f src) (fun _ s' => World s') Tolerated s := by
  unfold filewrite
  rw [wp_bind, wp_get, wp_ite]
  refine ⟨fun writable => ?_, fun _ => world⟩
  cases type : (s.ftable f).type with
  | none => exact FsPanic.noConfusion
  | inode =>
    have target := target_inode type
    have held := users_target target
    obtain ⟨valid, noDir⟩ := world.files.writable f _ target writable
    apply wp_transfer (fun value : Int => value) (fun value => value) world held
    intro s₁ stable₁ ready
    apply wp_writei_ready ready
    intro dir
    rw [(stable₁.valid _ held valid).2] at dir
    exact absurd dir noDir

theorem wp_filealloc
    {Q : Option (Fin NFILE) → FileSys → Prop} (full : Q none s)
    (found : ∀ f, (s.ftable f).ref = 0 → Q (some f) (s.setFile f { s.ftable f with ref := 1 })) :
    wp filealloc Q E s := by
  unfold filealloc
  rw [wp_bind, wp_get]
  cases search : (List.finRange NFILE).find? fun f =>
      (s.ftable f).ref == 0 with
  | none => exact full
  | some f =>
    simp only
    rw [wp_bind, wp_updFile, wp_pure]
    exact found f (by simpa using List.find?_some search)

/-- `fileclose` of a file that has just been allocated. -/
theorem wp_fileclose_unused (ref : (s.ftable f).ref = 1) (type : (s.ftable f).type = .none)
    (rest : Q () (s.setFile f (s.ftable f).closed)) : wp (fileclose f) Q E s := by
  unfold fileclose
  rw [wp_bind, wp_get, wp_ite, wp_ite]
  refine ⟨fun closed => ?_, fun _ => ⟨fun more => ?_, fun _ => ?_⟩⟩
  · omega
  · omega
  · rw [wp_bind, wp_updFile, type]
    exact rest

/-- The state between `filealloc` and the end of `open`: the file has no inode
yet, and there is a reference to entry `ip` that it does not hold. -/
structure Opening (s : FileSys) (f : Fin NFILE) (ip : InodePtr) : Prop where
  consistent : Consistent False s (addRef s.users ip)
  files : FilesOk s
  ref : (s.ftable f).ref = 1
  type : (s.ftable f).type = .none

theorem Opening.stable (opening : Opening s f c) (after : Consistent False s' (addRef s.users c))
    (stable : Stable False (addRef s.users c) s s') : Opening s' f c where
  consistent := by
    rw [users_congr stable.ftable stable.cwd]
    exact after
  files := opening.files.stable stable fun _ _ target =>
    (users_target target).trans_le (le_addRef _)
  ref := by
    rw [stable.ftable]
    exact opening.ref
  type := by
    rw [stable.ftable]
    exact opening.type

theorem Opening.alloc (consistent : Consistent False s (addRef s.users c))
    (files : FilesOk s) (unused : (s.ftable f).ref = 0) :
    Opening (s.setFile f { s.ftable f with ref := 1 }) f c := by
  have closed : (s.ftable f).target = none := by
    cases target : (s.ftable f).target with
    | none => rfl
    | some c =>
      have pos := files.opened f c target
      omega
  have users : (s.setFile f { s.ftable f with ref := 1 }).users = s.users := users_setFile rfl
  constructor
  case consistent =>
    rw [users]
    exact consistent.frame rfl rfl
  case files =>
    apply files.setFile
    · exact fun _ _ => Int.one_pos
    · intro c target
      have none : (s.ftable f).target = some c := target
      rw [closed] at none
      cases none
  case ref => rw [setFile_self]
  case type =>
    rw [setFile_self]
    cases type : (s.ftable f).type with
    | none => rfl
    | inode =>
      rw [target_inode type] at closed
      cases closed

theorem Opening.finish (opening : Opening s f c) (file : File)
    (target : file.target = some c) (ref : file.ref = (s.ftable f).ref)
    (writable : file.writable = true → (s.icache c).valid = true ∧ (s.icache c).type ≠ T_DIR) :
    World (s.setFile f file) where
  consistent := by
    rw [users_open (target_none opening.type) target]
    exact opening.consistent.frame rfl rfl
  files := by
    apply opening.files.setFile
    · intro _ _
      rw [ref, opening.ref]
      exact Int.one_pos
    · intro c' points allowed
      rw [target] at points
      cases points
      exact writable allowed

theorem Opening.cancel (opening : Opening s f c) :
    Consistent False (s.setFile f (s.ftable f).closed)
      (addRef (s.setFile f (s.ftable f).closed).users c) ∧
    FilesOk (s.setFile f (s.ftable f).closed) := by
  have users : (s.setFile f (s.ftable f).closed).users = s.users :=
    users_setFile (target_none opening.type).symm
  rw [users]
  exact ⟨opening.consistent.frame rfl rfl, opening.files.close⟩

/-- Giving up the one reference that no file and no process holds. -/
theorem wp_iunlockput_world (consistent : Consistent False s (addRef s.users c))
    (files : FilesOk s) : wp (iunlockput c) (fun _ s' => World s') Tolerated s := by
  refine wp_imp (wp_iunlockput consistent) ?_
  rintro _ s₁ ⟨after, stable⟩
  exact files.world after stable

theorem wp_sysOpen (path : List UInt8) {omode : Nat} (fdFree : Bool)
    (world : World s) (held : 0 < s.users c)
    (unchecked : hasFlag omode O_CREATE = true → hasFlag omode O_CHECKED = false) :
    wp (sysOpen c path omode fdFree) (fun _ s' => World s') Tolerated s := by
  unfold sysOpen
  refine wp_seq (wp_openInode path world.consistent held unchecked) ?_
  rintro found s₁ ⟨opened, stable₁, facts⟩
  cases found with
  | none => exact world.files.world opened stable₁
  | some ip =>
    obtain ⟨valid₁, rights⟩ := facts ip rfl
    have files₁ : FilesOk s₁ := world.files.stable stable₁ fun _ _ => users_target
    have consistent₁ : Consistent False s₁ (addRef s₁.users ip) := by
      rw [users_congr stable₁.ftable stable₁.cwd]
      exact opened
    simp only
    rw [wp_bind]
    apply wp_filealloc
    · simp only
      rw [wp_bind]
      exact wp_iunlockput_world consistent₁ files₁
    · intro f unused
      have opening := Opening.alloc consistent₁ files₁ unused
      simp only
      rw [wp_ite]
      constructor
      · intro _
        refine wp_seq (wp_iunlock opening.consistent addRef_pos) ?_
        rintro _ s₂ ⟨unlocked, stable₂⟩
        obtain ⟨valid₂, type₂⟩ := stable₂.valid ip addRef_pos valid₁
        rw [wp_bind, wp_updFile, wp_pure]
        apply (opening.stable unlocked stable₂).finish
        case target | ref => rfl
        intro writable
        refine ⟨valid₂, fun dir => ?_⟩
        rw [type₂] at dir
        simp only [rights dir] at writable
        exact absurd writable (by decide)
      · intro _
        rw [wp_bind]
        apply wp_fileclose_unused opening.ref opening.type
        obtain ⟨cancelled, files⟩ := opening.cancel
        rw [wp_bind]
        exact wp_iunlockput_world cancelled files

end Files

/-! ## Current directories -/

section Cwd

variable {p : Slot}

theorem wp_setCwd {E : FsPanic → Prop} {ip : Option InodePtr}
    {Q : Unit → FileSys → Prop} :
    wp (setCwd p ip) Q E s ↔ Q () (s.changeCwd p ip) := Iff.rfl

theorem FilesOk.changeCwd (files : FilesOk s) (ip : Option InodePtr) :
    FilesOk (s.changeCwd p ip) := ⟨files.opened, files.writable⟩

theorem FileSys.users_changeCwd (stable : Stable False hold s s') (ip : Option InodePtr) :
    (s'.changeCwd p ip).users = (s.changeCwd p ip).users := by
  apply users_congr
  · exact stable.ftable
  · unfold changeCwd
    rw [stable.cwd]

theorem World.enter (consistent : Consistent False s (addRef s.users c))
    (files : FilesOk s) (free : s.cwd p = none) : World (s.changeCwd p (some c)) where
  consistent := by
    rw [users_enter free]
    exact consistent.frame rfl rfl
  files := files.changeCwd _

theorem wp_start (world : World s) :
    wp (Call.start p).perform (fun _ s' => World s') Tolerated s := by
  change wp (get >>= _) _ _ _
  rw [wp_bind, wp_get]
  cases there : s.cwd p with
  | some c => exact world
  | none =>
    simp only
    refine wp_seq (wp_iget world.consistent world.consistent.root) ?_
    rintro ip s₁ ⟨got, stable, _⟩
    rw [wp_setCwd]
    apply World.enter
    · rw [users_congr stable.ftable stable.cwd]
      exact got
    · exact world.files.stable stable fun _ _ => users_target
    · rw [stable.cwd]
      exact there

theorem wp_withCwd {α : Type} {body : InodePtr → FM α} (world : World s)
    (run : ∀ c, s.cwd p = some c → wp (body c) (fun _ s' => World s') Tolerated s) :
    wp (withCwd p body) (fun _ s' => World s') Tolerated s := by
  unfold withCwd
  rw [wp_bind, wp_get]
  cases there : s.cwd p with
  | none => exact world
  | some c =>
    simp only
    rw [wp_bind]
    exact run c there

theorem wp_fork {child : Slot} (world : World s) :
    wp (Call.fork p child).perform (fun _ s' => World s') Tolerated s := by
  apply wp_withCwd world
  intro c there
  rw [wp_bind, wp_get]
  cases free : s.cwd child with
  | some _ => exact world
  | none =>
    simp only
    refine wp_seq (wp_idup world.consistent (users_cwd there)) ?_
    rintro _ s₁ ⟨got, stable, _⟩
    rw [wp_setCwd]
    apply World.enter
    · rw [users_congr stable.ftable stable.cwd]
      exact got
    · exact world.files.stable stable fun _ _ => users_target
    · rw [stable.cwd]
      exact free

theorem wp_exit (world : World s) :
    wp (Call.exit p).perform (fun _ s' => World s') Tolerated s := by
  apply wp_withCwd world
  intro c there
  have before := world.consistent
  rw [users_leave there] at before
  refine wp_seq (wp_iput before) ?_
  rintro _ s₁ ⟨after, stable⟩
  rw [wp_setCwd]
  constructor
  · rw [users_changeCwd stable]
    exact after.frame rfl rfl
  · have held : ∀ f c, (s.ftable f).target = some c → 0 < (s.changeCwd p none).users c := by
      intro f c target
      exact users_target (s := s.changeCwd p none) target
    exact (world.files.stable stable held).changeCwd none

theorem wp_sysChdir (path : List UInt8) (world : World s) (there : s.cwd p = some c) :
    wp (sysChdir p c path) (fun _ s' => World s') Tolerated s := by
  unfold sysChdir
  refine wp_seq (wp_namei path world.consistent (users_cwd there)) ?_
  rintro found s₁ ⟨walked, stable₁⟩
  cases found with
  | none => exact world.files.world walked stable₁
  | some ip =>
    simp only
    refine wp_seq (wp_ilock walked addRef_pos) ?_
    rintro _ s₂ ⟨locked, stable₂, _⟩
    have until₂ := stable₁.trans (stable₂.mono le_addRef)
    rw [wp_bind, wp_get, wp_ite]
    constructor
    · intro _
      refine wp_seq (wp_iunlockput locked) ?_
      rintro _ s₃ ⟨after, stable₃⟩
      exact world.files.world after (until₂.trans stable₃)
    · intro _
      refine wp_seq (wp_iunlock locked addRef_pos) ?_
      rintro _ s₃ ⟨unlocked, stable₃⟩
      -- The reference of the old directory, without the process's own.
      have users := users_leave there
      have less : (s.changeCwd p none).users ≤ s.users := by
        rw [users]
        exact le_addRef
      have until₃ := (until₂.trans (stable₃.mono le_addRef)).mono less
      have before : Consistent False s₃ (addRef (addRef (s.changeCwd p none).users ip) c) := by
        rw [addRef_comm, ← users]
        exact unlocked
      refine wp_seq (wp_iput before) ?_
      rintro _ s₄ ⟨after, stable₄⟩
      have until₄ := until₃.trans (stable₄.mono le_addRef)
      have emptied : (s₄.changeCwd p none).changeCwd p (some ip) = s₄.changeCwd p (some ip) := by
        unfold changeCwd
        rw [update_idem]
      have held : ∀ f c, (s.ftable f).target = some c → 0 < (s.changeCwd p none).users c := by
        intro f c target
        exact users_target (s := s.changeCwd p none) target
      rw [wp_bind, wp_setCwd, wp_pure, ← emptied]
      apply World.enter
      · rw [users_changeCwd until₄]
        exact after.frame rfl rfl
      · exact (world.files.stable until₄ held).changeCwd none
      · exact update_self ..

end Cwd

/-! ## Runs -/

/-- Calls that make no checksummed files. -/
def Call.Plain : Call → Prop
  | .openFile _ _ omode _ => hasFlag omode O_CREATE = true → hasFlag omode O_CHECKED = false
  | _ => True

/-- Every call keeps the invariant, and none frees a block that is free. -/
theorem wp_call (world : World s) {call : Call} (plain : call.Plain) :
    wp call.perform (fun _ s' => World s') Tolerated s := by
  have stays : ∀ {α : Type} {p : Slot} (body : InodePtr → FM α), (∀ c, 0 < s.users c → wp (body c)
        (fun _ s' => Consistent False s' s.users ∧ Stable False s.users s s')
        Tolerated s) →
      wp (withCwd p body) (fun _ s' => World s') Tolerated s := by
    intro α p body run
    apply wp_withCwd world
    intro c there
    refine wp_imp (run c (users_cwd there)) ?_
    rintro _ s' ⟨after, stable⟩
    exact world.files.world after stable
  cases call with
  | start p => exact wp_start world
  | fork p child => exact wp_fork world
  | exit p => exact wp_exit world
  | chdir p path =>
    exact wp_withCwd world fun c there => wp_sysChdir path world there
  | openFile p path omode fdFree =>
    exact wp_withCwd world fun c there =>
      wp_sysOpen path fdFree world (users_cwd there) plain
  | mkdir p path =>
    exact stays _ fun c held => wp_makeNode path 0 0 world.consistent held (by decide) nofun
  | mknod p path major minor =>
    exact stays _ fun c held => wp_makeNode path major minor
      world.consistent held (by decide) nofun
  | link p old new =>
    exact stays _ fun c held => wp_sysLink old new world.consistent held
  | unlink p path =>
    exact stays _ fun c held => wp_sysUnlink path world.consistent held
  | read f n typed =>
    change wp (fileread typed f n >>= _) _ _ _
    rw [wp_bind]
    exact wp_fileread typed n world
  | write f src =>
    change wp (filewrite f src >>= _) _ _ _
    rw [wp_bind]
    exact wp_filewrite src world
  | dup f => exact wp_filedup world
  | close f => exact wp_fileclose world

end Xv6.Fs
