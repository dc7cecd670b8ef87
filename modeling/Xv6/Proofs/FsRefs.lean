/-
Purpose: References to cached inodes, call by call: every function of the
  inode, directory and path layers changes the counts by exactly the
  references it hands out and takes back, whatever is on the disk.
-/
import Mathlib.Algebra.Group.Pi.Lemmas
import Mathlib.Tactic.Abel
import Xv6.Fs.Calls
import Xv6.Proofs.FsCache

namespace Xv6.Fs

open PanicM

variable {α β : Type}
variable {c : InodePtr}

/-! ## The block and inode layers -/

/-- Every value the program returns satisfies `P`. -/
def Yields (P : α → Prop) (program : FsM α) : Prop :=
  ∀ d, wp program (fun value _ => P value) (fun _ => True) d

namespace Yields

variable {P : α → Prop} {Q : β → Prop}

theorem pure {value : α} (holds : P value) : Yields P (pure value : FsM α) := fun _ => holds

theorem throw (reason : FsPanic) : Yields P (throw reason : FsM α) :=
  fun _ => trivial

theorem any (program : FsM α) : Yields (fun _ => True) program :=
  fun _ => wp_intro (fun _ _ _ => trivial) fun _ _ => trivial

theorem bind {first : FsM α} {next : α → FsM β} (one : Yields P first)
    (two : ∀ value, P value → Yields Q (next value)) : Yields Q (first >>= next) := by
  intro d
  exact wp_seq (one d) fun value after holds => two value holds after

theorem skip {first : FsM α} {next : α → FsM β}
    (two : ∀ value, Yields Q (next value)) : Yields Q (first >>= next) :=
  (any first).bind fun value _ => two value

theorem ite {condition : Prop} [Decidable condition] {yes no : FsM α}
    (one : Yields P yes) (two : Yields P no) : Yields P (if condition then yes else no) := by
  split
  · exact one
  · exact two

end Yields

/-- What the code of these layers leaves alone in an inode: the number of its
references, and its type. -/
def Inode.tag (ip : Inode) : Int × UInt16 := (ip.ref, ip.type)

variable {ip : Inode}

theorem bmapAddr_tag (i : Fin (NDIRECT + 1)) :
    Yields (fun r => r.2.tag = ip.tag) (bmapAddr ip i) := by
  unfold bmapAddr
  exact .ite (.skip fun _ => .pure rfl) (.pure rfl)

theorem bmap_tag (bn : Nat) : Yields (fun r => r.2.tag = ip.tag) (bmap ip bn) := by
  unfold bmap
  split
  · exact bmapAddr_tag _
  · refine .ite ?_ (.throw _)
    exact (bmapAddr_tag _).bind fun _ same => .skip fun _ => .pure same

theorem setChecksum_tag (bn : Nat) (chksum : UInt8) :
    Yields (fun r => r.2.tag = ip.tag) (setChecksum ip bn chksum) := by
  unfold setChecksum
  split
  · exact .ite (.pure rfl) (.pure rfl)
  · refine .ite (.ite (.pure rfl) ?_) (.throw _)
    refine .skip fun _ => .ite (.pure rfl) ?_
    exact .skip fun _ => .skip fun _ => .pure rfl

theorem readiBlock_tag (off m : Nat) :
    Yields (fun r => r.2.tag = ip.tag) (readiBlock ip off m) := by
  unfold readiBlock
  refine (bmap_tag _).bind fun _ same => .skip fun _ => ?_
  exact .ite (.pure same) (.skip fun _ => .pure same)

theorem writeiBlock_tag (off : Nat) (bytes : List UInt8) :
    Yields (fun r => r.tag = ip.tag) (writeiBlock ip off bytes) := by
  unfold writeiBlock
  refine (bmap_tag _).bind fun place same => .skip fun _ => .skip fun _ => ?_
  have done : ∀ node : Inode, node.tag = ip.tag → Yields (fun r : Inode => r.tag = ip.tag) (do
        brelse place.1
        pure node) := fun _ kept => .skip fun _ => .pure kept
  refine .ite ?_ (done place.2 same)
  exact (setChecksum_tag _ _).bind fun marked kept =>
    done marked.2 (kept.trans same)

theorem readiLoop_tag (fuel off left : Nat) :
    Yields (fun r => r.2.2.tag = ip.tag) (readiLoop fuel ip off left) := by
  induction fuel generalizing ip off left with
  | zero => exact .pure rfl
  | succ fuel ih =>
    refine .ite (.pure rfl) ?_
    refine (readiBlock_tag _ _).bind fun ⟨bytes, node⟩ same => ?_
    cases bytes with
    | none => exact .pure same
    | some bytes =>
      exact (ih _ _).bind fun _ kept =>
        .pure (kept.trans same)

theorem writeiLoop_tag (fuel : Nat) (src : List UInt8) (off left : Nat) :
    Yields (fun r => r.tag = ip.tag) (writeiLoop fuel ip src off left) := by
  induction fuel generalizing ip src off left with
  | zero => exact .pure rfl
  | succ fuel ih =>
    refine .ite (.pure rfl) ?_
    refine (writeiBlock_tag _ _).bind fun node same => ?_
    intro d
    exact wp_imp (ih _ _ _ d) fun _ _ kept =>
      kept.trans same

theorem readi_tag (typed : List UInt8) (off n : Nat) :
    Yields (fun r => r.2.2.tag = ip.tag) (readi typed ip off n) := by
  unfold readi
  refine .ite (.ite (.pure rfl) (.pure rfl)) (.ite (.pure rfl) ?_)
  exact (readiLoop_tag _ _ _).bind fun _ same => .pure same

theorem writei_tag (src : List UInt8) (off : Nat) :
    Yields (fun r => r.2.tag = ip.tag) (writei ip src off) := by
  unfold writei
  refine .ite (.pure rfl) (.ite (.pure rfl) ?_)
  refine (writeiLoop_tag _ _ _ _).bind fun _ same => ?_
  exact .ite (.skip fun _ => .pure same) (.pure same)

theorem itrunc_tag : Yields (fun r => r.tag = ip.tag) (itrunc ip) := by
  have done : Yields (fun r : Inode => r.tag = ip.tag) (do
      let ip := { ip with addrs := fun _ => 0, size := 0 }
      iupdate ip
      pure ip) := .skip fun _ => .pure rfl
  unfold itrunc
  refine .skip fun _ => .ite ?_ done
  exact .skip fun _ => .skip fun _ => .skip fun _ => .skip fun _ => done

theorem dirlookupLoop_tag (name : List UInt8) (left bn : Nat) :
    Yields (fun r => r.2.tag = ip.tag) (dirlookupLoop name left bn ip) := by
  induction left generalizing ip bn with
  | zero => exact .pure rfl
  | succ left ih =>
    refine (bmap_tag _).bind fun ⟨sector, node⟩ same => ?_
    refine .skip fun bp => .skip fun _ => ?_
    cases direntFind bp name with
    | some e => exact .pure same
    | none =>
      intro d
      exact wp_imp (ih _ d) fun _ _ kept =>
        kept.trans same

theorem direntScan_tag (panic : FsPanic) (stop : Nat → Bool) (left off : Nat) :
    Yields (fun r => r.2.tag = ip.tag) (direntScan panic stop left off ip) := by
  induction left generalizing ip off with
  | zero => exact .pure rfl
  | succ left ih =>
    refine (readi_tag _ _ _).bind fun ⟨result, de, node⟩ same => ?_
    refine .ite (.throw _) (.ite (.pure same) ?_)
    intro d
    exact wp_imp (ih _ d) fun _ _ kept => kept.trans same

/-! ## The cache -/

/-- The program changes the number of references to every entry of the cache
by `delta` of its result, and neither files nor current directories. -/
def Accounts (program : FM α) (delta : α → InodePtr → Int) : Prop :=
  ∀ s, wp program (fun value t =>
      (∀ c, (t.icache c).ref = (s.icache c).ref + delta value c) ∧
        t.ftable = s.ftable ∧ t.cwd = s.cwd)
    (fun _ => True) s

/-- One reference to entry `c`. -/
def one (c : InodePtr) : InodePtr → Int := Pi.single c 1

/-- The reference that comes with a result. -/
def mayOne : Option InodePtr → InodePtr → Int
  | none => 0
  | some c => one c

namespace Accounts

variable {delta : α → InodePtr → Int}
variable {total : β → InodePtr → Int}

theorem pure {value : α} (nothing : delta value = 0) : Accounts (pure value) delta := by
  intro s
  refine ⟨fun c => ?_, rfl, rfl⟩
  rw [nothing, Pi.zero_apply, add_zero]

theorem throw (reason : FsPanic) : Accounts (throw reason : FM α) delta := fun _ => trivial

theorem bind {first : FM α} {next : α → FM β} (one : Accounts first delta)
    (two : ∀ value, Accounts (next value) fun result => total result - delta value) :
    Accounts (first >>= next) total := by
  intro s
  refine wp_seq (one s) fun value t ⟨changed, ftable, cwd⟩ => ?_
  refine wp_imp (two value t) fun result u ⟨rest, ftable', cwd'⟩ => ?_
  refine ⟨fun c => ?_, ftable'.trans ftable, cwd'.trans cwd⟩
  rw [rest c, changed c]
  simp only [Pi.sub_apply]
  omega

theorem still {first : FM α} {next : α → FM β} (one : Accounts first fun _ => 0)
    (two : ∀ value, Accounts (next value) total) : Accounts (first >>= next) total := by
  refine one.bind fun value => ?_
  simp only [sub_zero]
  exact two value

theorem read {next : FileSys → FM β}
    (two : ∀ s, Accounts (next s) total) : Accounts (get >>= next) total := by
  intro s
  rw [wp_bind, wp_get]
  exact two s s

theorem ite {condition : Prop} [Decidable condition] {yes no : FM α}
    (first : Accounts yes delta) (second : Accounts no delta) :
    Accounts (if condition then yes else no) delta := by
  split
  · exact first
  · exact second

end Accounts

theorem accounts_onDisk (program : FsM α) : Accounts (onDisk program) fun _ => 0 := by
  intro s
  rw [wp_onDisk]
  refine wp_intro (fun value d _ => ⟨fun c => ?_, rfl, rfl⟩) fun _ _ => trivial
  simp only [Pi.zero_apply, add_zero]

theorem accounts_updInode (c : InodePtr) (update : Inode → Inode) (n : Int)
    (ref : ∀ node, (update node).ref = node.ref + n) :
    Accounts (updInode c update) fun _ => Pi.single c n := by
  intro s
  rw [wp_updInode]
  refine ⟨fun c' => ?_, rfl, rfl⟩
  by_cases here : c' = c
  · simp only [here, Pi.single_eq_same, FileSys.leave_self, ref]
  · simp only [Pi.single_eq_of_ne here, add_zero, FileSys.leave_of_ne here]

theorem accounts_updInode_still (c : InodePtr) (update : Inode → Inode)
    (ref : ∀ node, (update node).ref = node.ref) : Accounts (updInode c update) fun _ => 0 := by
  have moved := accounts_updInode c update 0 fun node => by
    rw [ref node, add_zero]
  rwa [Pi.single_zero] at moved

theorem accounts_withInode {program : Inode → FsM (α × Inode)}
    (ref : ∀ node, Yields (fun r => r.2.ref = node.ref) (program node)) :
    Accounts (withInode c program) fun _ => 0 := by
  intro s
  rw [wp_withInode]
  refine wp_imp (ref (s.icache c) s.disk) fun result d same => ?_
  refine ⟨fun c' => ?_, rfl, rfl⟩
  simp only [Pi.zero_apply, add_zero]
  by_cases here : c' = c
  · rw [here, FileSys.leave_self, same]
  · rw [FileSys.leave_of_ne here]

theorem accounts_withTag {program : Inode → FsM (α × Inode)}
    (tag : ∀ node, Yields (fun r => r.2.tag = node.tag) (program node)) :
    Accounts (withInode c program) fun _ => 0 :=
  accounts_withInode fun node d =>
    wp_imp (tag node d) fun _ _ same => congrArg Prod.fst same

theorem accounts_iupdateAt (c : InodePtr) : Accounts (iupdateAt c) fun _ => 0 :=
  accounts_withInode fun _ => .skip fun _ => .pure rfl

theorem accounts_idup (c : InodePtr) : Accounts (idup c) fun _ => one c :=
  accounts_updInode c _ 1 fun _ => rfl

theorem accounts_iget (inum : Nat) : Accounts (iget inum) one := by
  intro s
  unfold iget
  rw [wp_bind, wp_get]
  cases found : s.findInode inum with
  | some c =>
    simp only
    rw [wp_bind]
    exact accounts_idup c s
  | none =>
    simp only
    cases empty : s.emptyInode with
    | none => trivial
    | some c =>
      have unused : (s.icache c).ref = 0 := by
        simpa using List.find?_some empty
      rw [wp_bind, wp_updInode]
      refine ⟨fun c' => ?_, rfl, rfl⟩
      by_cases here : c' = c
      · rw [here, one, Pi.single_eq_same, unused, FileSys.leave_self, zero_add]
      · rw [one, Pi.single_eq_of_ne here, add_zero, FileSys.leave_of_ne here]

theorem accounts_ilock (c : InodePtr) : Accounts (ilock c) fun _ => 0 := by
  unfold ilock
  refine .read fun s => .ite (.throw _) (.ite (.throw _) ?_)
  refine Accounts.still (accounts_updInode_still c _ ?_) fun _ => ?_
  · exact fun _ => rfl
  refine .ite (.pure rfl) ?_
  refine (accounts_withInode fun _ => .skip fun _ => .skip fun _ =>
    .pure rfl).still fun _ => ?_
  exact .ite (.throw _) (.pure rfl)

theorem accounts_iunlock (c : InodePtr) : Accounts (iunlock c) fun _ => 0 := by
  unfold iunlock
  exact .read fun s =>
    .ite (.throw _) (accounts_updInode_still c _ fun _ => rfl)

theorem accounts_iput (c : InodePtr) : Accounts (iput c) fun _ => -one c := by
  have freed : Accounts (iputFree c) fun _ => 0 :=
    accounts_withInode fun _ => itrunc_tag.bind fun _ same =>
      .skip fun _ => .pure (congrArg Prod.fst same)
  have dropped : Accounts (updInode c fun node => { node with ref := node.ref - 1 })
      fun _ => -one c := by
    rw [one, ← Pi.single_neg]
    exact accounts_updInode c _ (-1) fun _ => rfl
  unfold iput
  refine .read fun s => .ite (.ite ?_ (freed.still fun _ => dropped)) dropped
  exact fun _ => trivial

theorem accounts_iunlockput (c : InodePtr) : Accounts (iunlockput c) fun _ => -one c :=
  (accounts_iunlock c).still fun _ => accounts_iput c

theorem accounts_ialloc (type : UInt16) : Accounts (ialloc type) one :=
  (accounts_onDisk _).still fun inum => accounts_iget inum

/-! ## Directories and paths -/

/-- The reference that comes with a place. -/
def placeOne (place : Option (InodePtr × β)) : InodePtr → Int :=
  mayOne (place.map Prod.fst)

theorem accounts_dirlookup (dp : InodePtr) (name : List UInt8) :
    Accounts (dirlookup dp name) placeOne := by
  unfold dirlookup
  refine .read fun s => .ite (.throw _) ?_
  refine (accounts_withTag fun _ => dirlookupLoop_tag _ _ _).still fun found => ?_
  cases found with
  | none => exact .pure rfl
  | some entry =>
    refine (accounts_iget entry.1).bind fun ip => .pure ?_
    exact sub_self (one ip)

theorem accounts_dirlink (dp : InodePtr) (name : List UInt8) (inum : Nat) :
    Accounts (dirlink dp name inum) fun _ => 0 := by
  unfold dirlink
  refine (accounts_dirlookup dp name).bind fun found => ?_
  cases found with
  | some entry =>
    refine (accounts_iput entry.1).bind fun _ => .pure ?_
    simp [placeOne, mayOne]
  | none =>
    refine (accounts_withTag fun _ => direntScan_tag _ _ _ _).still fun _ => ?_
    refine (accounts_withTag fun _ => writei_tag _ _).still fun _ => ?_
    exact .ite (.throw _) (.pure (sub_self 0))

/-- The loop of `namex` takes the reference to the inode it starts from. -/
theorem accounts_namexLoop (parent : Bool) (fuel : Nat) (ip : InodePtr) (path name : List UInt8) :
    Accounts (namexLoop parent fuel ip path name) fun place => placeOne place - one ip := by
  -- the three exits that give the inode back
  have back : ∀ c, Accounts (do
      iunlockput c
      pure (none : Option (InodePtr × List UInt8)))
      fun place => placeOne place - one c := by
    intro c
    refine (accounts_iunlockput c).bind fun _ => .pure ?_
    simp [placeOne, mayOne]
  induction fuel generalizing ip path name with
  | zero => exact .pure (sub_self (one ip))
  | succ fuel ih =>
    unfold namexLoop
    cases skipelem path with
    | none =>
      refine .ite ?_ (.pure (sub_self (one ip)))
      refine (accounts_iput ip).bind fun _ => .pure ?_
      simp [placeOne, mayOne]
    | some step =>
      refine (accounts_ilock ip).still fun _ => .read fun s => ?_
      refine .ite (back ip) (.ite ?_ ?_)
      · exact (accounts_iunlock ip).still fun _ => .pure (sub_self (one ip))
      · refine (accounts_dirlookup ip step.2).bind fun found => ?_
        cases found with
        | none =>
          simp only [placeOne, mayOne, Option.map_none, sub_zero]
          exact back ip
        | some next =>
          refine (accounts_iunlockput ip).bind fun _ => ?_
          have rest := ih next.1 step.1 step.2
          have same : ∀ place : Option (InodePtr × List UInt8),
              placeOne place - one ip - placeOne (some next) - -one ip =
                placeOne place - one next.1 := by
            intro place
            simp only [placeOne, mayOne, Option.map_some]
            abel
          simp only [same]
          exact rest

theorem accounts_namex (cwd : InodePtr) (path : List UInt8) (parent : Bool) :
    Accounts (namex cwd path parent) placeOne := by
  have walk : ∀ ip, Accounts (namexLoop parent (path.length + 1) ip path [])
      fun place => placeOne place - one ip :=
    fun ip => accounts_namexLoop _ _ ip _ _
  unfold namex
  refine .ite ?_ ?_
  · exact (accounts_iget ROOTINO).bind walk
  · exact (accounts_idup cwd).bind fun _ => walk cwd

theorem accounts_namei (cwd : InodePtr) (path : List UInt8) : Accounts (namei cwd path) mayOne := by
  refine (accounts_namex cwd path false).bind fun found => .pure ?_
  exact sub_self (placeOne found)

/-! ## Creation -/

theorem accounts_addLink (c : InodePtr) (delta : UInt16) :
    Accounts (addLink c delta) fun _ => 0 := by
  refine Accounts.still (accounts_updInode_still c _ ?_) fun _ =>
    accounts_iupdateAt c
  exact fun _ => rfl

/-- A new inode keeps its reference, the directory's is given back. -/
theorem accounts_createNew (dp ip : InodePtr) (name : List UInt8) (type major minor : UInt16) :
    Accounts (createNew dp ip name type major minor) fun _ => -one dp := by
  have entered : ∀ inum, Accounts (do
      if (← dirlink dp name inum) < 0 then
        throw .createDirlink
      iunlockput dp) fun _ => -one dp := by
    intro inum
    refine (accounts_dirlink dp name inum).still fun _ => .ite ?_ ?_
    · exact fun _ => trivial
    · exact accounts_iunlockput dp
  unfold createNew
  refine (accounts_ilock ip).still fun _ => ?_
  refine Accounts.still (accounts_updInode_still ip _ ?_) fun _ => ?_
  · exact fun _ => rfl
  refine (accounts_iupdateAt ip).still fun _ => .read fun s => ?_
  refine .ite ?_ (entered _)
  refine (accounts_addLink dp 1).still fun _ => ?_
  refine (accounts_dirlink ip _ _).still fun _ => .ite (fun _ => trivial) ?_
  refine (accounts_dirlink ip _ _).still fun _ => .ite (fun _ => trivial) ?_
  exact entered _

theorem accounts_create (cwd : InodePtr) (path : List UInt8) (type major minor : UInt16) :
    Accounts (create cwd path type major minor) mayOne := by
  unfold create nameiparent
  refine (accounts_namex cwd path true).bind fun found => ?_
  cases found with
  | none => exact .pure (sub_self 0)
  | some place =>
    refine (accounts_ilock place.1).still fun _ => ?_
    refine (accounts_dirlookup place.1 place.2).bind fun entry => ?_
    cases entry with
    | some entry =>
      refine (accounts_iunlockput place.1).bind fun _ => ?_
      refine (accounts_ilock entry.1).still fun _ => .read fun s => ?_
      refine .ite (.pure ?_) ?_
      · simp [placeOne, mayOne]
      · refine (accounts_iunlockput entry.1).bind fun _ => .pure ?_
        simp only [placeOne, mayOne, Option.map_some]
        abel
    | none =>
      refine (accounts_ialloc type).bind fun ip => ?_
      refine (accounts_createNew place.1 ip place.2 type major minor).bind fun _ => .pure ?_
      simp [placeOne, mayOne]

/-- The first half of `open` hands out a reference with the inode. -/
theorem accounts_openInode (cwd : InodePtr) (path : List UInt8)
    (omode : Nat) : Accounts (openInode cwd path omode) mayOne := by
  unfold openInode
  refine .ite (accounts_create _ _ _ _ _) ?_
  refine (accounts_namei cwd path).bind fun found => ?_
  cases found with
  | none => exact .pure (sub_self 0)
  | some ip =>
    refine (accounts_ilock ip).still fun _ => .read fun s => .ite ?_ ?_
    · refine (accounts_iunlockput ip).bind fun _ => .pure ?_
      simp [mayOne]
    · exact .pure (sub_self (one ip))

end Xv6.Fs
