/-
Purpose: Between calls every count of the file table is the number of
  descriptors that point to the file, and a call that fails leaves all
  references as they were.
-/
import Mathlib.Data.Fintype.Prod
import Xv6.Fs.Files
import Xv6.Proofs.FsRefs

/-- The entry that the last `fileclose` leaves. -/
def Xv6.FileEntry.shut (file : FileEntry) : FileEntry :=
  { file with ref := 0, type := .none }

namespace Xv6.Files

open PanicM RefTable
open Function (update update_apply update_self update_of_ne update_eq_self update_idem
  forall_update_iff)
open Fs (FM InodePtr NFILE Accounts)

variable {α : Type} {s t : Files} {extra : Fin NFILE → Int} {p : Slot}
  {f : Fin NFILE} {fd : Fin NOFILE}

variable {Q : Unit → Files → Prop} {result : Int} {delta : InodePtr → Int} {f0 f1 : Fin NFILE}
variable {np : Slot}

/-! ## Counts -/

/-- All descriptors. -/
def fds (s : Files) (q : Slot × Fin NOFILE) : Option (Fin NFILE) :=
  s.ofile q.1 q.2

/-- The number of descriptors that point to `f`. -/
def pointers (s : Files) (f : Fin NFILE) : Nat := holdersOf s.fds f

theorem fds_setFd (s : Files) (p : Slot) (fd : Fin NOFILE) (file : Option (Fin NFILE)) :
    (s.setFd p fd file).fds = update s.fds (p, fd) file := by
  funext ⟨q, gd⟩
  by_cases sameP : q = p
  · subst sameP
    by_cases sameFd : gd = fd
    · subst sameFd
      simp [fds, setFd]
    · simp [fds, setFd, sameFd]
  · simp [fds, setFd, sameP]

/-- Every count is the number of descriptors and of the `extra` references
that the code in progress holds, and a file with no reference has no type.
Where a descriptor is set before the file is counted, `extra` is negative. -/
structure Balanced (s : Files) (extra : Fin NFILE → Int) : Prop where
  counted : ∀ f, (s.ftable f).ref = s.pointers f + extra f
  closed : ∀ f, (s.ftable f).ref = 0 → (s.ftable f).type = .none

/-- One reference to `f`. -/
def own (f : Fin NFILE) : Fin NFILE → Int := Pi.single f 1

theorem own_apply (f g : Fin NFILE) : own f g = if f = g then 1 else 0 := by
  unfold own
  rw [Pi.single_apply]
  exact if_congr eq_comm rfl rfl

namespace Balanced

theorem congr (balanced : s.Balanced extra) (ftable : t.ftable = s.ftable)
    (ofile : t.ofile = s.ofile) : t.Balanced extra := by
  have pointers : ∀ f, t.pointers f = s.pointers f := by
    intro f
    unfold Files.pointers fds
    rw [ofile]
  constructor
  · intro f
    rw [ftable, pointers]
    exact balanced.counted f
  · rw [ftable]
    exact balanced.closed

theorem setFile (n : Int) (file : FileEntry) (balanced : s.Balanced extra)
    (count : file.ref = (s.ftable f).ref + n) (closed : file.ref = 0 → file.type = .none) :
    (s.setFile f file).Balanced (extra + Pi.single f n) := by
  constructor
  · intro g
    have before := balanced.counted g
    change (update s.ftable f file g).ref = s.pointers g + (extra g + (Pi.single f n : _ → Int) g)
    rw [update_apply, Pi.single_apply]
    split_ifs with here
    · subst here
      omega
    · omega
  · exact (forall_update_iff s.ftable fun _ now => now.ref = 0 → now.type = .none).mpr
      ⟨closed, fun g _ => balanced.closed g⟩

theorem setEntry (file : FileEntry) (balanced : s.Balanced extra)
    (count : file.ref = (s.ftable f).ref) (inUse : (s.ftable f).ref ≠ 0) :
    (s.setFile f file).Balanced extra := by
  have after := balanced.setFile 0 file (count.trans (add_zero _).symm)
    fun zero => absurd (count.symm.trans zero) inUse
  rwa [Pi.single_zero, add_zero] at after

section

variable (balanced : s.Balanced extra)
include balanced

theorem install (free : s.ofile p fd = none) :
    (s.setFd p fd (some f)).Balanced (extra - own f) := by
  refine ⟨fun g => ?_, balanced.closed⟩
  have counted := balanced.counted g
  have unheld : s.fds (p, fd) = none := free
  have grown : holdersOf (update s.fds (p, fd) (some f)) g =
      holdersOf s.fds g + if f = g then 1 else 0 :=
    holdersOf_update_some unheld g
  unfold Files.pointers at counted ⊢
  rw [fds_setFd, grown, Pi.sub_apply, own_apply]
  refine counted.trans ?_
  split <;> push_cast <;> omega

theorem remove (points : s.ofile p fd = some f) : (s.setFd p fd none).Balanced (extra + own f) := by
  refine ⟨fun g => ?_, balanced.closed⟩
  have counted := balanced.counted g
  have held : s.fds (p, fd) = some f := points
  have shrunk : holdersOf (update s.fds (p, fd) none) g +
      (if f = g then 1 else 0) = holdersOf s.fds g :=
    holdersOf_update_none held g
  unfold Files.pointers at counted ⊢
  rw [fds_setFd, Pi.add_apply, own_apply]
  refine counted.trans ?_
  rw [← shrunk]
  split <;> push_cast <;> omega

theorem dup (inUse : 1 ≤ (s.ftable f).ref) :
    (s.setFile f { s.ftable f with ref := (s.ftable f).ref + 1 }).Balanced (extra + own f) := by
  refine balanced.setFile 1 _ rfl fun zero => ?_
  simp only at zero
  omega

theorem shut (last : (s.ftable f).ref = 1) :
    (s.setFile f (s.ftable f).shut).Balanced (extra - own f) := by
  rw [sub_eq_add_neg, own, ← Pi.single_neg]
  refine balanced.setFile (-1) _ ?_ fun _ => rfl
  rw [last]
  rfl

end

/-- With the same descriptors the counts are the same. -/
theorem ref_eq (before : s.Balanced extra) (after : t.Balanced extra)
    (ofile : t.ofile = s.ofile) (f : Fin NFILE) : (t.ftable f).ref = (s.ftable f).ref := by
  rw [before.counted f, after.counted f]
  unfold Files.pointers fds
  rw [ofile]

theorem inUse (balanced : s.Balanced 0) (points : s.ofile p fd = some f) :
    1 ≤ (s.ftable f).ref := by
  have held : s.fds (p, fd) = some f := points
  have pos : 0 < s.pointers f := holdersOf_pos held
  rw [balanced.counted f, Pi.zero_apply]
  omega

end Balanced

/-! ## Rules -/

/-- The system does not stop in file.c. -/
def Calm (reason : Stop) : Prop := reason ≠ .filedup ∧ reason ≠ .fileclose

theorem wp_onFs_any {program : FM α} {Q : α → Files → Prop}
    (next : ∀ value fs, program s.fs = .ok (value, fs) → Q value { s with fs := fs }) :
    wp (onFs program) Q Calm s := by
  unfold onFs wp
  cases outcome : program s.fs with
  | error reason =>
    simp only [outcome]
    exact ⟨nofun, nofun⟩
  | ok result =>
    simp only [outcome]
    exact next _ _ outcome

theorem wp_onFs {program : FM α} {delta : α → InodePtr → Int}
    {Q : α → Files → Prop} (accounts : Accounts program delta)
    (next : ∀ value fs, (∀ c, (fs.icache c).ref = (s.fs.icache c).ref + delta value c) →
      Q value { s with fs := fs }) :
    wp (onFs program) Q Calm s :=
  wp_onFs_any fun value fs returned =>
    next value fs (wp_ok (accounts s.fs) returned).1

theorem wp_filealloc {Q : Option (Fin NFILE) → Files → Prop}
    (balanced : s.Balanced extra) (full : Q none s)
    (found : ∀ f, (s.ftable f).ref = 0 → (s.ftable f).type = .none →
      (s.setFile f { s.ftable f with ref := 1 }).Balanced (extra + own f) →
      Q (some f) (s.setFile f { s.ftable f with ref := 1 })) :
    wp filealloc Q Calm s := by
  unfold filealloc
  rw [wp_bind, wp_get]
  split
  · exact full
  · rename_i f search
    have zero : (s.ftable f).ref = 0 := by simpa using List.find?_some search
    refine found f zero (balanced.closed f zero) ?_
    refine balanced.setFile 1 _ ?_ nofun
    rw [zero]
    rfl

theorem wp_filedup (inUse : 1 ≤ (s.ftable f).ref) (next : Q ()
      (s.setFile f { s.ftable f with ref := (s.ftable f).ref + 1 })) :
    wp (filedup f) Q Calm s := by
  unfold filedup
  rw [wp_bind, wp_get, if_neg (by omega)]
  exact next

theorem wp_fdalloc {Q : Option (Fin NOFILE) → Files → Prop} (full : Q none s)
    (found : ∀ fd, s.ofile p fd = none → Q (some fd) (s.setFd p fd (some f))) :
    wp (fdalloc p f) Q Calm s := by
  unfold fdalloc
  rw [wp_bind, wp_get]
  split
  · exact full
  · rename_i fd search
    exact found fd (by simpa using List.find?_some search)

theorem wp_fileclose_new (balanced : s.Balanced extra) (ref : (s.ftable f).ref = 1)
    (type : (s.ftable f).type = .none) (next : (s.setFile f (s.ftable f).shut).Balanced
      (extra - own f) → Q () (s.setFile f (s.ftable f).shut)) : wp (fileclose f) Q Calm s := by
  unfold fileclose
  rw [wp_bind, wp_get]
  simp only [ref, type]
  exact next (balanced.shut ref)

theorem wp_fileclose_pipe (ref : (s.ftable f).ref = 1) (type : (s.ftable f).type = .pipe)
    (next : Q () ((s.setFile f (s.ftable f).shut).setPipe (s.ftable f).pipe
      ((s.pipes (s.ftable f).pipe).bind fun ends =>
        ends.close (s.ftable f).writable))) : wp (fileclose f) Q Calm s := by
  unfold fileclose
  rw [wp_bind, wp_get]
  simp only [ref, type]
  exact next

theorem wp_fileclose (balanced : s.Balanced extra) (inUse : 1 ≤ (s.ftable f).ref)
    (next : ∀ t, t.Balanced (extra - own f) → t.ofile = s.ofile →
      t.state = s.state → t.initproc = s.initproc → Q () t) : wp (fileclose f) Q Calm s := by
  unfold fileclose
  rw [wp_bind, wp_get]
  simp only
  rw [if_neg (by omega)]
  split
  · rename_i many
    refine next _ ?_ rfl rfl rfl
    rw [sub_eq_add_neg, own, ← Pi.single_neg]
    refine balanced.setFile (-1) _ rfl fun zero => ?_
    simp only at zero
    omega
  · have last : (s.ftable f).ref = 1 := by omega
    have shut := balanced.shut last
    rw [wp_bind]
    cases type : (s.ftable f).type with
    | none => exact next _ shut rfl rfl rfl
    | pipe => exact next _ (shut.congr rfl rfl) rfl rfl rfl
    | inode =>
      refine wp_onFs (Fs.accounts_iput _) fun _ fs _ => ?_
      exact next _ (shut.congr rfl rfl) rfl rfl rfl

theorem wp_argfd {Q : Option (Fin NOFILE × Fin NFILE) → Files → Prop} (n : Int) (missing : Q none s)
    (found : ∀ fd f, s.ofile p fd = some f → Q (some (fd, f)) s) : wp (argfd p n) Q Calm s := by
  unfold argfd
  rw [wp_bind, wp_get]
  split
  · rename_i small
    rw [wp_pure]
    cases points : s.ofile p ⟨n.toNat, by omega⟩ with
    | none => exact missing
    | some f => exact found _ f points
  · exact missing

/-! ## Calls -/

/-- Descriptors, pipes and the references to files are as they were; those to
inodes have changed by `delta`. -/
structure Unchanged (delta : InodePtr → Int) (s t : Files) : Prop where
  ofile : t.ofile = s.ofile
  files : ∀ f, (t.ftable f).ref = (s.ftable f).ref
  pipes : t.pipes = s.pipes
  inodes : ∀ c, (t.fs.icache c).ref = (s.fs.icache c).ref + delta c

/-- A call of process `p` has returned. -/
structure Returned (p : Slot) (delta : InodePtr → Int) (s : Files)
    (result : Int) (t : Files) : Prop where
  balanced : t.Balanced 0
  state : t.state = s.state
  others : ∀ q, q ≠ p → t.ofile q = s.ofile q
  failed : result = -1 → Unchanged delta s t

theorem setFd_others (s : Files) (fd : Fin NOFILE)
    (file : Option (Fin NFILE)) (q : Slot) (other : q ≠ p) :
    (s.setFd p fd file).ofile q = s.ofile q := update_of_ne other ..

theorem Balanced.returned (balanced : s.Balanced 0) : Returned p 0 s result s where
  balanced := balanced
  state := rfl
  others _ _ := rfl
  failed _ := ⟨rfl, fun _ => rfl, rfl, fun _ => (add_zero _).symm⟩

theorem Balanced.undone (before : s.Balanced 0) (after : t.Balanced 0) (state : t.state = s.state)
    (ofile : t.ofile = s.ofile) (pipes : t.pipes = s.pipes)
    (inodes : ∀ c, (t.fs.icache c).ref = (s.fs.icache c).ref + delta c) :
    Returned p delta s result t where
  balanced := after
  state := state
  others q _ := by rw [ofile]
  failed _ := ⟨ofile, before.ref_eq after ofile, pipes, inodes⟩

theorem wp_sysDup (n : Int) (balanced : s.Balanced 0) :
    wp (sysDup p n) (Returned p 0 s) Calm s := by
  unfold sysDup
  rw [wp_bind]
  refine wp_argfd n balanced.returned fun _ f points => ?_
  simp only [wp_bind]
  refine wp_fdalloc balanced.returned fun fd free => ?_
  simp only [wp_bind]
  have inUse := balanced.inUse points
  refine wp_filedup inUse ?_
  have after := (balanced.install (f := f) free).dup inUse
  rw [sub_add_cancel] at after
  exact ⟨after, rfl, setFd_others s fd (some f), by omega⟩

theorem wp_sysClose (n : Int) (balanced : s.Balanced 0) :
    wp (sysClose p n) (Returned p 0 s) Calm s := by
  unfold sysClose
  rw [wp_bind]
  refine wp_argfd n balanced.returned fun fd f points => ?_
  simp only [wp_bind, wp_modify]
  refine wp_fileclose (balanced.remove points) (balanced.inUse points)
    fun t after ofile state _ => ?_
  rw [add_sub_cancel_right] at after
  refine ⟨after, state, fun q other => ?_, by omega⟩
  rw [ofile]
  exact setFd_others s fd none q other

/-- The second half of `open` gives back the reference to the inode, or puts it
into the file. -/
theorem wp_openFile (ip : InodePtr) (omode : Nat) (balanced : s.Balanced 0) :
    wp (openFile p ip omode) (Returned p (-Fs.one ip) s) Calm s := by
  unfold openFile
  rw [wp_bind]
  refine wp_filealloc balanced ?_ fun f unused untyped taken => ?_
  · simp only
    rw [wp_bind]
    refine wp_onFs (Fs.accounts_iunlockput ip) fun _ fs inodes => ?_
    rw [wp_pure]
    exact balanced.undone (balanced.congr rfl rfl) rfl rfl rfl inodes
  · have entry : (s.setFile f { s.ftable f with ref := 1 }).ftable f =
        { s.ftable f with ref := 1 } := update_self ..
    simp only [wp_bind]
    refine wp_fdalloc ?_ fun fd free => ?_
    · simp only
      rw [wp_bind]
      refine wp_fileclose_new taken (by rw [entry]) (by rw [entry, untyped]) fun back => ?_
      rw [wp_bind]
      refine wp_onFs (Fs.accounts_iunlockput ip) fun _ fs inodes => ?_
      rw [add_sub_cancel_right] at back
      exact balanced.undone (back.congr rfl rfl) rfl rfl rfl inodes
    · simp only
      rw [wp_bind]
      refine wp_onFs (Fs.accounts_iunlock ip) fun _ fs _ => ?_
      have installed := taken.install (f := f) free
      rw [add_sub_cancel_right] at installed
      rw [wp_bind]
      refine ⟨?_, rfl, setFd_others s fd (some f), by omega⟩
      refine Balanced.setEntry _ (installed.congr rfl rfl) rfl ?_
      exact ne_of_eq_of_ne (congrArg FileEntry.ref entry) one_ne_zero

theorem wp_sysOpen (cwd : InodePtr) (path : List UInt8) (omode : Nat) (balanced : s.Balanced 0) :
    wp (sysOpen p cwd path omode) (Returned p 0 s) Calm s := by
  unfold sysOpen
  rw [wp_bind]
  refine wp_onFs (Fs.accounts_openInode cwd path omode) fun found fs inodes => ?_
  have walked : Balanced { s with fs := fs } 0 := balanced.congr rfl rfl
  cases found with
  | none =>
    simp only [wp_pure]
    exact balanced.undone walked rfl rfl rfl inodes
  | some ip =>
    refine wp_imp (wp_openFile ip omode walked) fun result t done => ?_
    refine ⟨done.balanced, done.state, done.others, fun fail => ?_⟩
    obtain ⟨ofile, files, pipes, refs⟩ := done.failed fail
    refine ⟨ofile, files, pipes, fun c => ?_⟩
    rw [refs c, inodes c]
    simp only [Fs.mayOne, Pi.neg_apply, Pi.zero_apply]
    omega

/-! ## Pipes -/

/-- File `f` is one end of the pipe in `page`, with one reference. -/
structure IsEnd (s : Files) (page : Nat) (writable : Bool) (f : Fin NFILE) : Prop where
  ref : (s.ftable f).ref = 1
  type : (s.ftable f).type = .pipe
  pipe : (s.ftable f).pipe = page
  writable : (s.ftable f).writable = writable

/-- Apart from the file table and the pipes nothing has changed. -/
structure Aside (s t : Files) : Prop where
  fs : t.fs = s.fs
  ofile : t.ofile = s.ofile
  state : t.state = s.state

theorem setFile_of_ne {g : Fin NFILE} (other : g ≠ f) (s : Files)
    (file : FileEntry) : (s.setFile f file).ftable g = s.ftable g :=
  update_of_ne other ..

theorem setFile_self (s : Files) (f : Fin NFILE) (file : FileEntry) :
    (s.setFile f file).ftable f = file := update_self ..

theorem Aside.trans {u : Files} (one : Aside s t) (two : Aside t u) : Aside s u :=
  ⟨two.fs.trans one.fs, two.ofile.trans one.ofile, two.state.trans one.state⟩

theorem IsEnd.keep {page : Nat} {writable : Bool}
    (isEnd : IsEnd s page writable f) (same : t.ftable f = s.ftable f) :
    IsEnd t page writable f := by
  constructor
  all_goals rw [same]
  · exact isEnd.ref
  · exact isEnd.type
  · exact isEnd.pipe
  · exact isEnd.writable

theorem wp_pipeEnd (page : Nat) (writable : Bool)
    (balanced : s.Balanced extra) (ref : (s.ftable f).ref = 1)
    (next : ∀ t, t.Balanced extra → IsEnd t page writable f →
      (∀ g, g ≠ f → t.ftable g = s.ftable g) → Aside s t →
      t.pipes = s.pipes → Q () t) :
    wp (updFile f fun file => file.pipeEnd page writable) Q Calm s := by
  have after := balanced.setEntry (f := f) ((s.ftable f).pipeEnd page writable) rfl (by omega)
  have entry := s.setFile_self f ((s.ftable f).pipeEnd page writable)
  refine next _ after ?_ (fun g other => setFile_of_ne other s _) ⟨rfl, rfl, rfl⟩ rfl
  exact ⟨(congrArg FileEntry.ref entry).trans ref,
    congrArg FileEntry.type entry, congrArg FileEntry.pipe entry,
    congrArg FileEntry.writable entry⟩

theorem wp_makePipe {Q : Option (Fin NFILE × Fin NFILE) → Files → Prop} (pg : Nat)
    (ne : f1 ≠ f0)
    (balanced : s.Balanced extra) (ref0 : (s.ftable f0).ref = 1)
    (ref1 : (s.ftable f1).ref = 1)
    (made : ∀ t, t.Balanced extra → IsEnd t pg false f0 → IsEnd t pg true f1 → Aside s t →
      t.pipes = update s.pipes pg (some { readopen := true, writeopen := true }) →
      Q (some (f0, f1)) t) :
    wp (do
      modify fun s => s.setPipe pg (some { readopen := true, writeopen := true })
      updFile f0 fun file => file.pipeEnd pg false
      updFile f1 fun file => file.pipeEnd pg true
      pure (some (f0, f1))) Q Calm s := by
  have paged : Balanced (s.setPipe pg (some { readopen := true, writeopen := true })) extra :=
    balanced.congr rfl rfl
  rw [wp_bind, wp_modify, wp_bind]
  refine wp_pipeEnd pg false paged ref0 fun t first end0 kept aside pipes => ?_
  rw [wp_bind]
  refine wp_pipeEnd pg true first ((congrArg FileEntry.ref
    (kept f1 ne)).trans ref1) fun u second end1 kept' aside' pipes' => ?_
  refine made u second (end0.keep (kept' f0 ne.symm)) end1 ?_ (pipes'.trans pipes)
  have base : Aside s (s.setPipe pg
      (some { readopen := true, writeopen := true })) := ⟨rfl, rfl, rfl⟩
  exact (base.trans aside).trans aside'

theorem wp_pipealloc {Q : Option (Fin NFILE × Fin NFILE) → Files → Prop}
    (page : Option Nat) (balanced : s.Balanced 0)
    (failed : ∀ t, t.Balanced 0 → Aside s t → t.pipes = s.pipes → Q none t)
    (made : ∀ pg f0 f1 t, page = some pg → f1 ≠ f0 →
      t.Balanced (own f0 + own f1) → IsEnd t pg false f0 →
      IsEnd t pg true f1 → Aside s t →
      t.pipes = update s.pipes pg (some { readopen := true, writeopen := true }) →
      Q (some (f0, f1)) t) :
    wp (pipealloc page) Q Calm s := by
  unfold pipealloc
  rw [wp_bind]
  refine wp_filealloc balanced ?_ fun f0 unused0 untyped0 taken0 => ?_
  · exact failed s balanced ⟨rfl, rfl, rfl⟩ rfl
  rw [zero_add] at taken0
  have entry0 := s.setFile_self f0 { s.ftable f0 with ref := 1 }
  simp only [wp_bind]
  refine wp_filealloc taken0 ?_ fun f1 unused1 untyped1 taken1 => ?_
  · simp only
    rw [wp_bind]
    refine wp_fileclose_new taken0 (by rw [entry0]) (by rw [entry0, untyped0]) fun back => ?_
    rw [sub_self] at back
    exact failed _ back ⟨rfl, rfl, rfl⟩ rfl
  have ne : f1 ≠ f0 := by
    rintro rfl
    rw [entry0] at unused1
    cases unused1
  generalize firstly : s.setFile f0 { s.ftable f0 with ref := 1 } = s1 at *
  have aside1 : Aside s s1 := firstly ▸ ⟨rfl, rfl, rfl⟩
  have pipes1 : s1.pipes = s.pipes := firstly ▸ rfl
  have entry1 := s1.setFile_self f1 { s1.ftable f1 with ref := 1 }
  have kept0 := setFile_of_ne ne.symm s1 { s1.ftable f1 with ref := 1 }
  simp only
  cases page with
  | none =>
    simp only [wp_bind]
    refine wp_fileclose_new taken1 (by rw [kept0, entry0]) (by rw [kept0, entry0, untyped0])
      fun back0 => ?_
    rw [add_sub_cancel_left] at back0
    have kept1 := (setFile_of_ne ne (s1.setFile f1
      { s1.ftable f1 with ref := 1 }) ((s1.setFile f1
        { s1.ftable f1 with ref := 1 }).ftable f0).shut).trans entry1
    refine wp_fileclose_new back0 (by rw [kept1]) (by rw [kept1, untyped1]) fun back1 => ?_
    rw [sub_self] at back1
    exact failed _ back1 ⟨aside1.fs, aside1.ofile, aside1.state⟩ pipes1
  | some pg =>
    refine wp_makePipe pg ne taken1 (by rw [kept0, entry0])
      (by rw [entry1]) fun t after end0 end1 aside pipes => ?_
    refine made pg f0 f1 t rfl ne after end0 end1 ?_ ?_
    · exact ⟨aside.fs.trans aside1.fs, aside.ofile.trans aside1.ofile,
        aside.state.trans aside1.state⟩
    · rw [pipes, ← pipes1]
      rfl

theorem wp_closeBoth {Q : Int → Files → Prop} {pg : Nat}
    (ne : f1 ≠ f0) (balanced : s.Balanced (own f0 + own f1))
    (end0 : IsEnd s pg false f0) (end1 : IsEnd s pg true f1)
    (opened : s.pipes pg = some { readopen := true, writeopen := true })
    (next : ∀ t, t.Balanced 0 → Aside s t → t.pipes = update s.pipes pg none → Q (-1) t) :
    wp (do
      fileclose f0
      fileclose f1
      pure (-1)) Q Calm s := by
  rw [wp_bind]
  refine wp_fileclose_pipe end0.ref end0.type ?_
  have back0 := balanced.shut (f := f0) end0.ref
  rw [add_sub_cancel_left] at back0
  have kept1 := setFile_of_ne ne s (s.ftable f0).shut
  rw [end0.pipe, end0.writable, opened]
  generalize closed : (s.setFile f0 (s.ftable f0).shut).setPipe pg
    ((some ({ readopen := true, writeopen := true } : PipeEnds)).bind
      fun ends => ends.close false) = s1
  have back0' : s1.Balanced (own f1) := closed ▸ back0.congr rfl rfl
  have end1' : IsEnd s1 pg true f1 := closed ▸ end1.keep kept1
  have aside1 : Aside s s1 := closed ▸ ⟨rfl, rfl, rfl⟩
  have pipes1 : s1.pipes = update s.pipes pg
      (some { readopen := false, writeopen := true }) := closed ▸ rfl
  rw [wp_bind]
  refine wp_fileclose_pipe end1'.ref end1'.type ?_
  have back1 := back0'.shut (f := f1) end1'.ref
  rw [sub_self] at back1
  refine next _ (back1.congr rfl rfl) (aside1.trans ⟨rfl, rfl, rfl⟩) ?_
  rw [end1'.pipe, end1'.writable]
  change update s1.pipes pg _ = _
  rw [pipes1, update_self, update_idem]
  rfl

theorem setFd_undo (free : s.ofile p fd = none) (file : Option (Fin NFILE)) :
    (s.setFd p fd file).setFd p fd none = s := by
  unfold setFd
  simp only [update_self, update_idem]
  rw [← free, update_eq_self, update_eq_self]

theorem wp_sysPipe (page : Option Nat) (balanced : s.Balanced 0)
    (fresh : ∀ pg, page = some pg → s.pipes pg = none) :
    wp (sysPipe p page) (Returned p 0 s) Calm s := by
  unfold sysPipe
  rw [wp_bind]
  refine wp_pipealloc page balanced ?_ ?_
  · intro t after aside pipes
    simp only [wp_pure]
    refine balanced.undone after aside.state aside.ofile pipes fun c => ?_
    rw [aside.fs, Pi.zero_apply, add_zero]
  · intro pg f0 f1 t given ne taken end0 end1 aside pipes
    -- the exit on which both files are closed again
    have undo : wp (do
        fileclose f0
        fileclose f1
        pure (-1)) (Returned p 0 s) Calm t := by
      refine wp_closeBoth ne taken end0 end1
        (by rw [pipes, update_self]) fun u after aside' gone => ?_
      refine balanced.undone after (aside'.state.trans aside.state)
        (aside'.ofile.trans aside.ofile) ?_ fun c => ?_
      · rw [gone, pipes, update_idem, ← fresh pg given, update_eq_self]
      · rw [aside'.fs, aside.fs, Pi.zero_apply, add_zero]
    simp only [wp_bind]
    refine wp_fdalloc undo fun fd0 free0 => ?_
    simp only [wp_bind]
    refine wp_fdalloc ?_ fun fd1 free1 => ?_
    · simp only
      rw [wp_bind, wp_modify, setFd_undo free0]
      exact undo
    · have after := (taken.install (f := f0) free0).install (f := f1) free1
      rw [add_sub_cancel_left, sub_self] at after
      simp only [wp_pure]
      refine ⟨after, aside.state, fun q other => ?_, by omega⟩
      rw [setFd_others _ fd1 _ q other, setFd_others _ fd0 _ q other, aside.ofile]

/-! ## Processes -/

/-- Only processes that run have descriptors. -/
def Clean (s : Files) : Prop :=
  ∀ q, (s.state q).live = false → ∀ fd, s.ofile q fd = none

/-- What holds between calls. -/
structure Sound (s : Files) : Prop where
  balanced : s.Balanced 0
  clean : s.Clean

theorem Returned.sound (done : Returned p delta s result t) (sound : s.Sound)
    (live : (s.state p).live = true) : t.Sound := by
  refine ⟨done.balanced, fun q dead fd => ?_⟩
  rw [done.state] at dead
  have other : q ≠ p := by
    rintro rfl
    exact absurd (live.symm.trans dead) (by decide)
  rw [done.others q other]
  exact sound.clean q dead fd

theorem wp_allocproc {Q : Option Slot → Files → Prop} (kstack : Bool) (full : Q none s)
    (found : ∀ np, s.state np = .unused → Q (some np) (s.setState np .embryo)) :
    wp (allocproc kstack) Q Calm s := by
  unfold allocproc
  rw [wp_bind, wp_get]
  split
  · exact full
  · rename_i np search
    have unused : s.state np = .unused := by
      simpa using List.find?_some search
    cases kstack with
    | true => exact found np unused
    | false => exact full

/-- The loop over the descriptors of `p`: the free descriptors of `np` get
references of their own. -/
theorem wp_dupFiles (list : List (Fin NOFILE)) (nodup : list.Nodup)
    (balanced : s.Balanced 0) (free : ∀ fd ∈ list, s.ofile np fd = none)
    (next : ∀ t, t.Balanced 0 → (∀ q, q ≠ np → t.ofile q = s.ofile q) →
      t.state = s.state → Q () t) : wp (dupFiles p np list) Q Calm s := by
  induction list generalizing s with
  | nil => exact next s balanced (fun _ _ => rfl) rfl
  | cons fd rest ih =>
    rw [List.nodup_cons] at nodup
    rw [dupFiles, wp_bind, wp_get]
    cases points : s.ofile p fd with
    | none =>
      exact ih nodup.2 balanced (fun gd mem => free gd (List.mem_cons_of_mem fd mem)) next
    | some f =>
      have after := (balanced.dup (balanced.inUse points)).install (f := f)
        (free fd List.mem_cons_self)
      rw [add_sub_cancel_right] at after
      simp only [wp_bind]
      refine wp_filedup (balanced.inUse points) ?_
      rw [wp_modify]
      refine ih nodup.2 after ?_ ?_
      · intro gd mem
        have other : gd ≠ fd := ne_of_mem_of_not_mem mem nodup.1
        simp only [setFd, update_self, update_of_ne other]
        exact free gd (List.mem_cons_of_mem fd mem)
      · intro t balancedT others state
        refine next t balancedT (fun q away => ?_) state
        rw [others q away]
        exact setFd_others _ fd (some f) q away

theorem wp_share (cwd : InodePtr) (balanced : s.Balanced 0) (free : ∀ fd, s.ofile np fd = none)
    (next : ∀ t, t.Balanced 0 → (∀ q, q ≠ np → t.ofile q = s.ofile q) →
      t.state = update s.state np .runnable → Q () t) : wp (share p np cwd) Q Calm s := by
  unfold share
  rw [wp_bind]
  refine wp_dupFiles _ (List.nodup_finRange _) balanced
    (fun fd _ => free fd) fun t after others state => ?_
  rw [wp_bind]
  refine wp_onFs_any fun _ fs _ => ?_
  refine next _ (after.congr rfl rfl) others ?_
  rw [← state]
  rfl

theorem Sound.started (sound : s.Sound) (balanced : t.Balanced 0)
    (others : ∀ q, q ≠ np → t.ofile q = s.ofile q)
    (state : t.state = update s.state np .runnable) : t.Sound := by
  refine ⟨balanced, fun q dead fd => ?_⟩
  have other : q ≠ np := by
    rintro rfl
    rw [state, update_self] at dead
    cases dead
  rw [state, update_of_ne other] at dead
  rw [others q other]
  exact sound.clean q dead fd

/-- `fork` and `clone` once there is a slot. -/
theorem wp_share_sound (cwd : InodePtr) (sound : s.Sound) (unused : s.state np = .unused) :
    wp (share p np cwd) (fun _ t => t.Sound) Calm (s.setState np .embryo) := by
  have free : ∀ fd, s.ofile np fd = none := sound.clean np (by rw [unused]; rfl)
  refine wp_share cwd (sound.balanced.congr rfl rfl) free fun t after others state => ?_
  refine sound.started after others (state.trans ?_)
  simp only [setState, update_idem]

theorem wp_fork (cwd : InodePtr) (kstack copied : Bool) (sound : s.Sound) :
    wp (fork p cwd kstack copied) (fun _ t => t.Sound) Calm s := by
  unfold fork
  rw [wp_bind]
  refine wp_allocproc kstack sound fun np unused => ?_
  cases copied with
  | true =>
    simp only [if_true]
    exact wp_seq (wp_share_sound cwd sound unused) fun _ _ done => done
  | false =>
    simp only [Bool.false_eq_true, if_false]
    rw [wp_bind, wp_modify, wp_pure]
    have back : (s.setState np .embryo).setState np .unused = s := by
      unfold setState
      rw [update_idem, ← unused, update_eq_self]
    rw [back]
    exact sound

theorem wp_clone (cwd : InodePtr) (kstack copyout : Bool) (sound : s.Sound) :
    wp (clone p cwd kstack copyout) (fun _ t => t.Sound) Calm s := by
  unfold clone
  rw [wp_bind]
  refine wp_allocproc kstack sound fun np unused => ?_
  simp only
  exact wp_seq (wp_share_sound cwd sound unused) fun _ _ done => done

theorem wp_closeFiles (list : List (Fin NOFILE)) (balanced : s.Balanced 0)
    (next : ∀ t, t.Balanced 0 → (∀ q, q ≠ p → t.ofile q = s.ofile q) →
      (∀ fd, fd ∈ list ∨ s.ofile p fd = none → t.ofile p fd = none) →
      t.state = s.state → Q () t) : wp (closeFiles p list) Q Calm s := by
  induction list generalizing s with
  | nil =>
    refine next s balanced (fun _ _ => rfl) (fun fd shut => ?_) rfl
    exact shut.resolve_left List.not_mem_nil
  | cons fd rest ih =>
    rw [closeFiles, wp_bind, wp_get]
    cases points : s.ofile p fd with
    | none =>
      refine ih balanced fun t after others shut state =>
        ?_
      refine next t after others (fun gd done => shut gd ?_) state
      rcases done with mem | none
      · rcases List.mem_cons.mp mem with rfl | later
        · exact .inr points
        · exact .inl later
      · exact .inr none
    | some f =>
      simp only [wp_bind]
      refine wp_fileclose balanced (balanced.inUse points) fun t closed ofile state _ => ?_
      rw [wp_modify]
      have pointsT : t.ofile p fd = some f := by rw [ofile, points]
      have removed := closed.remove pointsT
      rw [sub_add_cancel] at removed
      refine ih removed fun u after others shut stateU => ?_
      refine next u after ?_ ?_ (stateU.trans state)
      · intro q other
        rw [others q other, setFd_others t fd none q other, ofile]
      · intro gd done
        by_cases here : gd = fd
        · refine shut gd (.inr ?_)
          simp [setFd, here]
        · refine shut gd ?_
          rcases done with mem | none
          · exact .inl ((List.mem_cons.mp mem).resolve_left here)
          · refine .inr ?_
            simp only [setFd, update_self, update_of_ne here]
            rw [ofile]
            exact none

theorem wp_exit (cwd : InodePtr) (sound : s.Sound) :
    wp (exit p cwd) (fun _ t => t.Sound) Calm s := by
  unfold exit
  rw [wp_bind, wp_get]
  split
  · exact ⟨nofun, nofun⟩
  · rw [wp_bind]
    refine wp_closeFiles _ sound.balanced fun t after others shut state => ?_
    rw [wp_bind]
    refine wp_onFs_any fun _ fs _ => ?_
    rw [wp_bind, wp_modify, wp_pure]
    refine ⟨after.congr rfl rfl, fun q dead fd => ?_⟩
    by_cases here : q = p
    · subst here
      exact shut fd (.inl (List.mem_finRange fd))
    · have deadS : (s.state q).live = false := by
        rw [← state]
        simpa [setState, here] using dead
      exact (congrFun (others q here) fd).trans (sound.clean q deadS fd)

/-! ## Runs -/

/-- The calls that make descriptors. -/
def Call.opens : Call → Bool
  | .openFile .. | .dup .. | .pipe .. => true
  | _ => false

theorem wp_withCwd {Q : Int → Files → Prop} {body : InodePtr → M Int}
    (nobody : Q (-1) s) (some : ∀ cwd, wp (body cwd) Q Calm s) : wp (withCwd p body) Q Calm s := by
  unfold withCwd
  rw [wp_bind, wp_get]
  cases s.fs.cwd p with
  | none => exact nobody
  | some cwd => exact some cwd

theorem wp_perform (call : Call) (enabled : call.enabled s = true) (sound : s.Sound) :
    wp call.perform (fun result t => t.Sound ∧
      (call.opens = true → result = -1 → Unchanged 0 s t)) Calm s := by
  have opened : ∀ p, (s.state p).live = true → ∀ result t, Returned p 0 s result t → t.Sound ∧
        (call.opens = true → result = -1 → Unchanged 0 s t) :=
    fun p live result t done =>
      ⟨done.sound sound live, fun _ fail => done.failed fail⟩
  cases call with
  | openFile p path omode =>
    refine wp_withCwd (opened p enabled _ _ sound.balanced.returned) fun cwd => ?_
    exact wp_imp (wp_sysOpen cwd path omode sound.balanced) (opened p enabled)
  | dup p fd =>
    exact wp_imp (wp_sysDup fd sound.balanced) (opened p enabled)
  | pipe p page =>
    simp only [Call.enabled, Bool.and_eq_true] at enabled
    obtain ⟨live, free⟩ := enabled
    refine wp_imp (wp_sysPipe page sound.balanced ?_) (opened p live)
    rintro pg rfl
    simpa using free
  | close p fd =>
    exact wp_imp (wp_sysClose fd sound.balanced) (opened p enabled)
  | fork p kstack copied =>
    refine wp_withCwd ⟨sound, nofun⟩ fun cwd => ?_
    exact wp_imp (wp_fork cwd kstack copied sound) fun _ _ done =>
      ⟨done, nofun⟩
  | clone p kstack copyout =>
    refine wp_withCwd ⟨sound, nofun⟩ fun cwd => ?_
    exact wp_imp (wp_clone cwd kstack copyout sound) fun _ _ done =>
      ⟨done, nofun⟩
  | exit p =>
    refine wp_withCwd ⟨sound, nofun⟩ fun cwd => ?_
    exact wp_imp (wp_exit cwd sound) fun _ _ done => ⟨done, nofun⟩
  | reap p =>
    have zombie : s.state p = .zombie := by
      simpa [Call.enabled] using enabled
    refine ⟨⟨sound.balanced.congr rfl rfl, fun q dead => ?_⟩, nofun⟩
    by_cases here : q = p
    · subst here
      exact sound.clean q (by rw [zombie]; rfl)
    · exact sound.clean q (by simpa [setState, here] using dead)

theorem Starts.sound (starts : Starts s) : s.Sound := by
  refine ⟨⟨fun f => ?_, fun f _ => (starts.ftable f).2⟩, fun q _ fd =>
    starts.ofile q fd⟩
  have nobody : s.pointers f = 0 := by
    unfold pointers holdersOf fds
    simp [starts.ofile]
  rw [(starts.ftable f).1, nobody]
  rfl

theorem Sound.step {call : Call} (sound : s.Sound) (taken : step s call = some t) : t.Sound := by
  unfold Files.step at taken
  rw [Option.ite_none_right_eq_some] at taken
  obtain ⟨enabled, taken⟩ := taken
  cases outcome : call.perform s with
  | error reason => simp only [outcome, reduceCtorEq] at taken
  | ok result =>
    simp only [outcome, Option.some.injEq] at taken
    rw [← taken]
    exact (wp_ok (wp_perform call enabled sound) outcome).1

/-- Between the calls of every run, the count of a file is the number of
descriptors that point to it and a file that is not counted has no type; no
call stops in `filedup` or `fileclose`; and an `open`, `dup` or `pipe` that
fails leaves the descriptors and all references as they were. -/
theorem refs_balanced (reached : Reaches s) : (∀ f, (s.ftable f).ref = s.pointers f) ∧
    (∀ f, (s.ftable f).ref = 0 → (s.ftable f).type = .none) ∧
    (∀ call : Call, call.enabled s = true → ∀ reason, call.perform s = .error reason →
      reason ≠ .filedup ∧ reason ≠ .fileclose) ∧
    (∀ call : Call, call.enabled s = true → call.opens = true → ∀ t,
      call.perform s = .ok (-1, t) → Unchanged 0 s t) := by
  have sound : s.Sound := reached.invariant (fun _ starts => starts.sound)
    fun _ _ _ sound _ taken => sound.step taken
  refine ⟨fun f => ?_, sound.balanced.closed, ?_, ?_⟩
  · rw [sound.balanced.counted f, Pi.zero_apply, add_zero]
  · intro call enabled reason stopped
    exact wp_error (wp_perform call enabled sound) stopped
  · intro call enabled opens t returned
    exact (wp_ok (wp_perform call enabled sound) returned).2 opens rfl

/-- One process, on a file system that holds nothing. -/
def booted : Files where
  fs :=
    { disk := { sectors := fun _ _ => 0, held := [], given := [] }
      icache := fun _ =>
        { type := 1, major := 0, minor := 0, nlink := 1, size := 0,
          addrs := fun _ => 0, inum := 1, ref := 1, busy := false,
          valid := true }
      ftable := fun _ =>
        { type := .none, ref := 0, readable := false, writable := false,
          ip := 0, off := 0 }
      cwd := fun p => if p = 0 then some 0 else none }
  ftable _ :=
    { type := .none, ref := 0, readable := false, writable := false,
      pipe := 0, ip := 0, off := 0 }
  pipes _ := none
  state p := if p = 0 then .runnable else .unused
  ofile _ _ := none
  initproc := 0

theorem booted_starts : Starts booted where
  ftable _ := ⟨rfl, rfl⟩
  pipes _ := rfl
  ofile _ _ := rfl
  state _ other := if_neg other
  init := rfl

/-- A pipe whose read end is duplicated and then shared with a child, which
closes one descriptor; another child comes and goes. -/
def sharedPipe : List Call :=
  [.pipe 0 (some 4096), .dup 0 0, .fork 0 true true, .close 1 2,
    .clone 0 true false, .exit 2, .reap 2]

theorem sharedPipe_run : ((sharedPipe.foldlM step booted).map fun s =>
      ((s.ftable 0).ref, (s.ftable 1).ref, (Call.pipe 0 none).enabled s,
        ((Call.pipe 0 none).perform s).toOption.map Prod.fst)) =
      some (3, 2, true, some (-1)) := by
  decide +kernel

theorem sharedPipe_balanced : ∃ s t : Files, Reaches s ∧ s.pointers 0 = 3 ∧ s.pointers 1 = 2 ∧
    (Call.pipe 0 none).perform s = .ok (-1, t) ∧ Unchanged 0 s t := by
  obtain ⟨s, run, facts⟩ := Option.map_eq_some_iff.mp sharedPipe_run
  simp only [Prod.mk.injEq] at facts
  obtain ⟨first, second, enabled, failed⟩ := facts
  have reached : Reaches s := Reach.foldlM (.start booted_starts) run
  have balanced := refs_balanced reached
  have count0 := balanced.1 0
  have count1 := balanced.1 1
  obtain ⟨result, returned, value⟩ := Option.map_eq_some_iff.mp failed
  cases outcome : (Call.pipe 0 none).perform s with
  | error reason =>
    rw [outcome] at returned
    cases returned
  | ok pair =>
    rw [outcome] at returned
    obtain ⟨r, t⟩ := pair
    cases returned
    simp only at value
    subst value
    exact ⟨s, t, reached, by omega, by omega, outcome, balanced.2.2.2 _ enabled rfl t outcome⟩

end Xv6.Files
