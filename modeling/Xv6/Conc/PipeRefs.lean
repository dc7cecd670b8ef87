/-
Purpose: References to the ends of a pipe: a call on an end holds one, the
  last close of an end clears its flag once, and the close that finds both
  flags cleared passes the page to `kfree`, once.
-/
import Mathlib.Algebra.Order.BigOperators.Group.Finset
import Xv6.Conc.Sleepers

namespace Xv6.Sleepers

open Monitor
open Function (update update_self update_of_ne)
open Finset (mem_univ univ)

variable {ι : Type}

/-! ## What a thread holds -/

/-- The end whose flag is to be cleared next. -/
def Point.closes : Point ι → Option Bool
  | .pipe (.closeEnter writable _) | .pipe (.closeFlag writable _) =>
    some writable
  | _ => none

/-- The flag is cleared and the test of both flags comes next. -/
def Point.tests : Point ι → Bool
  | .pipe (.closeWake ..) | .pipe (.closeTest _) => true
  | _ => false

/-- The page goes to `kfree`. -/
def Point.frees : Point ι → Bool
  | .pipe (.freeRelease _) | .pipe (.freePage _) => true
  | _ => false

/-- References are counted, an end that is referred to is open, and once both
ends are closed the page is passed to `kfree` or about to be. -/
structure Referred [Fintype ι] (d : Data ι) : Prop where
  counted : ∀ writable, d.ref writable = ∑ t, d.ofile t writable
  opened : ∀ writable, 0 < d.ref writable → d.pipe.opened writable = true
  unfreed : d.pipe.closed = false → d.log.pending = none ∧ d.log.frees = 0
  freed : d.pipe.closed = true → d.log.pending ≠ none ∧ d.log.frees = 0 ∨
      d.log.pending = none ∧ d.log.frees = 1

/-- What thread `t` at point `p` has to do with the pipe. -/
structure Engaged (t : ι) (p : Point ι) (d : Data ι) : Prop where
  uses : ∀ writable, p.uses = some writable → 0 < d.ofile t writable
  closes : ∀ writable, p.closes = some writable →
    d.log.closer writable = some t ∧ d.ref writable = 0 ∧ d.pipe.opened writable = true
  pends : d.log.pending = some t → p.tests = true ∨ p.frees = true
  tests : p.tests = true → d.pipe.closed = true → d.log.pending = some t
  frees : p.frees = true → d.log.pending = some t

variable {t u : ι} {p q : Point ι} {d d' : Data ι} {w : Bool} {n m : Nat}

/-! ## Points and data that are alike -/

theorem outside_idle (outside : p.outside = true) :
    p.closes = none ∧ p.tests = false ∧ p.frees = false := by
  cases p with
  | pipe p =>
    cases p with
    | writeEnter | readEnter | dup | close => exact ⟨rfl, rfl, rfl⟩
    | _ => cases outside
  | _ => exact ⟨rfl, rfl, rfl⟩

theorem Engaged.idle (free : d.log.pending ≠ some t)
    (closes : q.closes = none) (tests : q.tests = false) (frees : q.frees = false)
    (uses : ∀ w, q.uses = some w → 0 < d.ofile t w) : Engaged t q d where
  uses := uses
  closes w isClosing := by simp [closes] at isClosing
  pends pending := absurd pending free
  tests isTesting := by simp [tests] at isTesting
  frees isFreeing := by simp [frees] at isFreeing

theorem Engaged.unpending (engaged : Engaged t p d) (calm : p.tests = false ∧ p.frees = false) :
    d.log.pending ≠ some t := by
  intro pending
  rcases engaged.pends pending with tests | frees
  · rw [calm.1] at tests
    cases tests
  · rw [calm.2] at frees
    cases frees

theorem Engaged.admitted (engaged : Engaged t p d)
    (outside : p.outside = true) (admits : Admits t p d q) : Engaged t q d := by
  obtain ⟨closes, tests, frees⟩ := outside_idle admits.outside
  apply Engaged.idle (engaged.unpending (outside_idle outside).2) closes tests frees
  intro w uses
  rcases admits.uses w uses with before | pos
  · exact engaged.uses w before
  · exact pos

/-- Two points that have the same to do with the pipe. -/
def SameRole (p q : Point ι) : Prop :=
  q.uses = p.uses ∧ q.closes = p.closes ∧ q.tests = p.tests ∧ q.frees = p.frees

theorem Engaged.goto (engaged : Engaged t p d) (same : SameRole p q) : Engaged t q d := by
  obtain ⟨uses, closes, tests, frees⟩ := same
  constructor
  case uses => exact uses ▸ engaged.uses
  case closes => exact closes ▸ engaged.closes
  case pends => exact tests ▸ frees ▸ engaged.pends
  case tests => exact tests ▸ engaged.tests
  case frees => exact frees ▸ engaged.frees

/-- The references, the flags and what is pending are as before. -/
structure SameRefs (d d' : Data ι) : Prop where
  ofile : d'.ofile = d.ofile
  ref : d'.ref = d.ref
  readopen : d'.pipe.readopen = d.pipe.readopen
  writeopen : d'.pipe.writeopen = d.pipe.writeopen
  closer : d'.log.closer = d.log.closer
  pending : d'.log.pending = d.log.pending
  frees : d'.log.frees = d.log.frees

theorem SameRefs.closed (same : SameRefs d d') : d'.pipe.closed = d.pipe.closed := by
  simp only [Pipe.closed, same.readopen, same.writeopen]

theorem SameRefs.opened (same : SameRefs d d') (writable : Bool) :
    d'.pipe.opened writable = d.pipe.opened writable := by
  simp only [Pipe.opened, same.readopen, same.writeopen]

theorem Engaged.same (engaged : Engaged t p d) (same : SameRefs d d') : Engaged t p d' where
  uses := by
    rw [same.ofile]
    exact engaged.uses
  closes w := by
    rw [same.closer, same.ref, same.opened]
    exact engaged.closes w
  pends := by
    rw [same.pending]
    exact engaged.pends
  tests := by
    rw [same.closed, same.pending]
    exact engaged.tests
  frees := by
    rw [same.pending]
    exact engaged.frees

theorem copyIn_flags (call : Write) (left i : Nat) (pipe : Pipe) :
    (copyIn call left i pipe).2.readopen = pipe.readopen ∧
      (copyIn call left i pipe).2.writeopen = pipe.writeopen := by
  induction left generalizing i pipe with
  | zero => exact ⟨rfl, rfl⟩
  | succ left ih =>
    simp only [copyIn]
    split_ifs
    · exact ⟨rfl, rfl⟩
    · exact ih (i + 1) (pipe.store (call.addr i))

theorem copyOut_flags (left : Nat) (got : List UInt8) (pipe : Pipe) :
    (copyOut left got pipe).2.readopen = pipe.readopen ∧
      (copyOut left got pipe).2.writeopen = pipe.writeopen := by
  induction left generalizing got pipe with
  | zero => exact ⟨rfl, rfl⟩
  | succ left ih =>
    simp only [copyOut]
    split_ifs
    · exact ⟨rfl, rfl⟩
    · exact ih _ pipe.take.2

theorem writeLoop_sameRefs (t : ι) (call : Write) (i : Nat) (killed : Bool)
    (d : Data ι) : SameRefs d (writeLoop t call i killed d).2 := by
  obtain ⟨reads, writes⟩ := copyIn_flags call (call.n - i).toNat i d.pipe
  simp only [writeLoop]
  split_ifs
  all_goals exact ⟨rfl, rfl, reads, writes, rfl, rfl, rfl⟩

theorem readLoop_sameRefs (t : ι) (n : Int) (killed : Bool) (d : Data ι) :
    SameRefs d (readLoop t n killed d).2 := by
  obtain ⟨reads, writes⟩ := copyOut_flags n.toNat [] d.pipe
  simp only [readLoop]
  split_ifs
  · exact ⟨rfl, rfl, rfl, rfl, rfl, rfl, rfl⟩
  · exact ⟨rfl, rfl, rfl, rfl, rfl, rfl, rfl⟩
  · exact ⟨rfl, rfl, reads, writes, rfl, rfl, rfl⟩

theorem closeFlag_opened (t : ι) (w exits : Bool) (d : Data ι) (w' : Bool) :
    (closeFlag t w exits d).2.pipe.opened w' = if w' = w then false else d.pipe.opened w' := by
  cases w <;> cases w' <;> rfl

theorem closeFlag_pending (w exits : Bool) (unpending : d.log.pending = none) :
    (closeFlag t w exits d).2.log.pending =
      if (closeFlag t w exits d).2.pipe.closed then some t else none := by
  rw [← unpending]
  rfl

theorem Pipe.closed_iff (pipe : Pipe) : pipe.closed = true ↔ ∀ w, pipe.opened w = false := by
  simp [Pipe.closed, Pipe.opened]

theorem tests_held (tests : q.tests = true) : q.held = some .pipe := by
  cases q with
  | pipe q =>
    cases q with
    | closeWake | closeTest => rfl
    | _ => cases tests
  | _ => cases tests

section FreePage

variable (exits : Bool) (engaged : Engaged t (.pipe (.freePage exits)) d)
  (pipe : d'.pipe = d.pipe) (ofile : d'.ofile = d.ofile) (ref : d'.ref = d.ref)
  (pending : d'.log.pending = none)

include engaged pipe ofile ref pending

theorem freePage_quiet (closer : d'.log.closer = d.log.closer) (ne : u ≠ t)
    (other : Engaged u q d) : Engaged u q d' := by
  have mine : d.log.pending = some t := engaged.frees rfl
  constructor
  case uses =>
    rw [ofile]
    exact other.uses
  case closes =>
    rw [closer, ref, pipe]
    exact other.closes
  case pends => exact fun theirs => nomatch pending.symm.trans theirs
  case tests =>
    intro tests closed
    have theirs := other.tests tests (pipe ▸ closed)
    rw [mine] at theirs
    exact absurd (Option.some.inj theirs).symm ne
  case frees =>
    intro frees
    have theirs := other.frees frees
    rw [mine] at theirs
    exact absurd (Option.some.inj theirs).symm ne

variable [Fintype ι]

theorem Referred.freePage (referred : Referred d)
    (frees : d'.log.frees = d.log.frees + 1) : Referred d' := by
  have mine : d.log.pending = some t := engaged.frees rfl
  have closed : d.pipe.closed = true := by
    cases closed : d.pipe.closed with
    | true => rfl
    | false =>
      rw [(referred.unfreed closed).1] at mine
      cases mine
  constructor
  case counted =>
    rw [ofile, ref]
    exact referred.counted
  case opened =>
    rw [ref, pipe]
    exact referred.opened
  case unfreed =>
    intro stillOpen
    rw [pipe, closed] at stillOpen
    cases stillOpen
  case freed =>
    intro _
    rcases referred.freed closed with ⟨-, unfreed⟩ | ⟨none, -⟩
    · exact Or.inr ⟨pending, by rw [frees, unfreed]⟩
    · rw [mine] at none
      cases none

end FreePage

variable [Fintype ι]

theorem Referred.ofile_le (referred : Referred d) (t : ι) (writable : Bool) :
    d.ofile t writable ≤ d.ref writable := by
  rw [referred.counted]
  exact Finset.single_le_sum (f := fun t => d.ofile t writable)
    (fun _ _ => Nat.zero_le _) (mem_univ t)

theorem Referred.same (referred : Referred d) (same : SameRefs d d') : Referred d' where
  counted := by
    rw [same.ofile, same.ref]
    exact referred.counted
  opened w := by
    rw [same.ref, same.opened]
    exact referred.opened w
  unfreed := by
    rw [same.closed, same.pending, same.frees]
    exact referred.unfreed
  freed := by
    rw [same.closed, same.pending, same.frees]
    exact referred.freed

/-- A step that leaves the references alone. -/
theorem same_engages (referred : Referred d) (engaged : Engaged t p d)
    (same : SameRefs d d') (role : SameRole p q) : Referred d' ∧ Engaged t q d' :=
  ⟨referred.same same, (engaged.same same).goto role⟩

theorem Referred.unpending (referred : Referred d) (isOpen : d.pipe.opened w = true) :
    d.log.pending = none ∧ d.log.frees = 0 := by
  apply referred.unfreed
  cases closed : d.pipe.closed with
  | false => rfl
  | true =>
    have shut := d.pipe.closed_iff.mp closed w
    rw [isOpen] at shut
    cases shut

theorem closeFlag_engages (w exits : Bool) (referred : Referred d)
    (engaged : Engaged t (.pipe (.closeFlag w exits)) d) :
    Referred (closeFlag t w exits d).2 ∧
      Engaged t (closeFlag t w exits d).1 (closeFlag t w exits d).2 := by
  obtain ⟨closer, zero, isOpen⟩ := engaged.closes w rfl
  obtain ⟨unpending, unfreed⟩ := referred.unpending isOpen
  have pending := closeFlag_pending (t := t) w exits unpending
  have frees : (closeFlag t w exits d).2.log.frees = 0 := unfreed
  constructor
  · constructor
    case counted => exact referred.counted
    case opened =>
      intro w' pos
      have other : w' ≠ w := by
        rintro rfl
        have pos : 0 < d.ref w' := pos
        omega
      rw [closeFlag_opened, if_neg other]
      exact referred.opened w' pos
    case unfreed =>
      intro stillOpen
      rw [pending, stillOpen]
      exact ⟨rfl, frees⟩
    case freed =>
      intro closed
      rw [pending, closed]
      exact Or.inl ⟨nofun, frees⟩
  · constructor
    case uses | closes | frees => exact nofun
    case pends => exact fun _ => Or.inl rfl
    case tests =>
      intro _ closed
      rw [pending, closed]
      rfl

/-- The other threads at the flags: those between the flag and the test are
kept out by the lock. -/
theorem closeFlag_quiet (w exits : Bool) (referred : Referred d)
    (engaged : Engaged t (.pipe (.closeFlag w exits)) d) (ne : u ≠ t)
    (apart : q.tests = false) (other : Engaged u q d) : Engaged u q (closeFlag t w exits d).2 := by
  obtain ⟨closer, zero, isOpen⟩ := engaged.closes w rfl
  obtain ⟨unpending, -⟩ := referred.unpending isOpen
  constructor
  case uses => exact other.uses
  case closes =>
    intro w' closes
    obtain ⟨theirs, zero', isOpen'⟩ := other.closes w' closes
    have away : w' ≠ w := by
      rintro rfl
      rw [closer] at theirs
      exact ne (Option.some.inj theirs).symm
    refine ⟨theirs, zero', ?_⟩
    rw [closeFlag_opened, if_neg away]
    exact isOpen'
  case pends =>
    intro pending
    rw [closeFlag_pending w exits unpending] at pending
    split_ifs at pending
    exact absurd (Option.some.inj pending).symm ne
  case tests =>
    intro tests
    rw [apart] at tests
    cases tests
  case frees =>
    intro frees
    have pending := other.frees frees
    rw [unpending] at pending
    cases pending

/-! ## Counting -/

variable [DecidableEq ι]

theorem sum_change {f g : ι → Nat} (a : ι) (same : ∀ u, u ≠ a → g u = f u) :
    ∑ u, g u + f a = ∑ u, f u + g a := by
  have others : ∑ u ∈ univ.erase a, g u = ∑ u ∈ univ.erase a, f u :=
    Finset.sum_congr rfl fun u mem =>
      same u (Finset.ne_of_mem_erase mem)
  have left := Finset.add_sum_erase univ g (mem_univ a)
  have right := Finset.add_sum_erase univ f (mem_univ a)
  omega

theorem Referred.recount (referred : Referred d) (t : ι) (writable : Bool)
    {n m : Nat} (balance : d.ref writable + n = m + d.ofile t writable) (w : Bool) :
    update d.ref writable m w = ∑ u, update d.ofile t (update (d.ofile t) writable n) u w := by
  have change := sum_change (f := fun u => d.ofile u w) (g := fun u => update d.ofile t
      (update (d.ofile t) writable n) u w) t
    (fun u ne => by simp [ne])
  have counted := referred.counted w
  by_cases same : w = writable
  · subst same
    simp only [update_self] at change ⊢
    omega
  · simp only [update_self, update_of_ne same] at change ⊢
    omega

/-! ## Code outside the pipe -/

theorem Referred.untouched (referred : Referred d) (untouched : Untouched d d') : Referred d' := by
  obtain ⟨pipe, log, files⟩ := untouched
  constructor
  case unfreed =>
    rw [pipe, log]
    exact referred.unfreed
  case freed =>
    rw [pipe, log]
    exact referred.freed
  case counted =>
    intro w
    cases files with
    | same ofile ref =>
      rw [ofile, ref]
      exact referred.counted w
    | forked parent child ofile ref =>
      have change := sum_change (f := fun u => d.ofile u w) (g := fun u => d'.ofile u w) child
        (fun u ne => by simp [ofile, ne])
      have counted := referred.counted w
      simp only [ofile, ref, update_self] at change ⊢
      omega
  case opened =>
    intro w pos
    rw [pipe]
    apply referred.opened w
    cases files with
    | same ofile ref => rwa [ref] at pos
    | forked parent child ofile ref =>
      have le := referred.ofile_le parent w
      simp only [ref] at pos
      omega

theorem Engaged.untouched (engaged : Engaged t p d) (referred : Referred d)
    (untouched : Untouched d d') : Engaged t p d' := by
  obtain ⟨pipe, log, files⟩ := untouched
  constructor
  case uses =>
    intro w uses
    have pos := engaged.uses w uses
    cases files with
    | same ofile ref => rwa [ofile]
    | forked parent child ofile ref =>
      rw [ofile]
      by_cases same : t = child
      · subst same
        rw [update_self]
        omega
      · rwa [update_of_ne same]
  case closes =>
    intro w closes
    obtain ⟨closer, zero, isOpen⟩ := engaged.closes w closes
    rw [pipe, log]
    refine ⟨closer, ?_, isOpen⟩
    cases files with
    | same ofile ref => rwa [ref]
    | forked parent child ofile ref =>
      have le := referred.ofile_le parent w
      simp only [ref]
      omega
  case pends =>
    rw [log]
    exact engaged.pends
  case tests =>
    rw [pipe, log]
    exact engaged.tests
  case frees =>
    rw [log]
    exact engaged.frees

theorem Aloof.engages {instr : Code ι} (aloof : Aloof t p instr)
    (outside : p.outside = true) : instr.steps Referred Engaged t p := by
  cases instr with
  | act run =>
    intro killed d referred engaged
    obtain ⟨admits, untouched⟩ := aloof killed d
    refine ⟨referred.untouched untouched, ?_⟩
    exact (engaged.admitted outside admits).untouched referred untouched
  | choose ok =>
    exact fun d q admitted _ engaged =>
      engaged.admitted outside (aloof d q admitted)
  | _ =>
    obtain ⟨there, unused⟩ := aloof.next rfl
    exact fun d _ engaged => engaged.admitted outside
      ⟨there, fun w uses => by simp [unused] at uses⟩

/-! ## The code of pipes -/

section Refile

variable (referred : Referred d) (has : 0 < d.ofile t w)
  (ofile : d'.ofile = update d.ofile t (update (d.ofile t) w n))
  (ref : d'.ref = update d.ref w m) (pipe : d'.pipe = d.pipe)
  (pending : d'.log.pending = d.log.pending)

include referred has ofile ref pipe pending

theorem Referred.refile (balance : d.ref w + n = m + d.ofile t w)
    (frees : d'.log.frees = d.log.frees) : Referred d' where
  counted w' := by
    rw [ofile, ref]
    exact referred.recount t w balance w'
  opened w' pos := by
    rw [pipe]
    apply referred.opened w'
    by_cases same : w' = w
    · subst same
      exact has.trans_le (referred.ofile_le t w')
    · rwa [ref, update_of_ne same] at pos
  unfreed := by
    rw [pipe, pending, frees]
    exact referred.unfreed
  freed := by
    rw [pipe, pending, frees]
    exact referred.freed

theorem Engaged.refile (engaged : Engaged u q d) (ne : u ≠ t)
    (closer : ∀ w', w' ≠ w → d'.log.closer w' = d.log.closer w') : Engaged u q d' where
  uses := by
    rw [ofile, update_of_ne ne]
    exact engaged.uses
  closes w' closes := by
    obtain ⟨theirs, zero, isOpen⟩ := engaged.closes w' closes
    have other : w' ≠ w := by
      rintro rfl
      have le := referred.ofile_le t w'
      omega
    rw [closer w' other, ref, update_of_ne other, pipe]
    exact ⟨theirs, zero, isOpen⟩
  pends := by
    rw [pending]
    exact engaged.pends
  tests := by
    rw [pipe, pending]
    exact engaged.tests
  frees := by
    rw [pending]
    exact engaged.frees

end Refile

theorem fileclose_engages (w exits : Bool) (referred : Referred d)
    (engaged : Engaged t (.pipe (.close w exits)) d) :
    Referred (fileclose t w exits d).2 ∧
      Engaged t (fileclose t w exits d).1 (fileclose t w exits d).2 := by
  have has : 0 < d.ofile t w := engaged.uses w rfl
  have le := referred.ofile_le t w
  have free := engaged.unpending ⟨rfl, rfl⟩
  simp only [fileclose]
  split_ifs with none more
  · exact ⟨referred, .idle free rfl rfl rfl (by rintro _ ⟨⟩)⟩
  · obtain ⟨closes, tests, frees⟩ := outside_idle (outside_afterClose (ι := ι) exits)
    refine ⟨referred.refile has rfl rfl rfl rfl (by omega) rfl, ?_⟩
    refine .idle free closes tests frees ?_
    cases exits <;> rintro _ ⟨⟩
  · refine ⟨referred.refile has rfl rfl rfl rfl (by omega) rfl, ?_⟩
    constructor
    case uses => rintro _ ⟨⟩
    case closes =>
      rintro w' closes
      cases closes
      refine ⟨by simp, ?_, referred.opened w (by omega)⟩
      simp only [update_self]
      omega
    case pends => exact fun pending => absurd pending free
    case tests | frees => exact Bool.noConfusion

theorem fileclose_quiet (w exits : Bool) (referred : Referred d)
    (engaged : Engaged t (.pipe (.close w exits)) d) (ne : u ≠ t)
    (other : Engaged u q d) : Engaged u q (fileclose t w exits d).2 := by
  have has : 0 < d.ofile t w := engaged.uses w rfl
  simp only [fileclose]
  split_ifs
  · exact other
  · exact .refile referred has rfl rfl rfl rfl other ne fun _ _ => rfl
  · refine .refile referred has rfl rfl rfl rfl other ne ?_
    exact fun w' apart => update_of_ne apart _ _

theorem pipeCode_engages (t : ι) (p : PipePoint) :
    (pipeCode t p).steps Referred Engaged t (.pipe p) := by
  cases p with
  | writeLoop call i =>
    intro killed d referred engaged
    refine same_engages referred engaged (writeLoop_sameRefs t call i killed d) ?_
    simp only [writeLoop]
    split_ifs <;> exact ⟨rfl, rfl, rfl, rfl⟩
  | readLoop n =>
    intro killed d referred engaged
    refine same_engages referred engaged (readLoop_sameRefs t n killed d) ?_
    simp only [readLoop]
    split_ifs <;> exact ⟨rfl, rfl, rfl, rfl⟩
  | writeReturn | readReturn =>
    intro killed d referred engaged
    refine ⟨referred.same ⟨rfl, rfl, rfl, rfl, rfl, rfl, rfl⟩, ?_⟩
    exact .idle (engaged.unpending ⟨rfl, rfl⟩) rfl rfl rfl (by rintro _ ⟨⟩)
  | dup w =>
    intro killed d referred engaged
    have has : 0 < d.ofile t w := engaged.uses w rfl
    refine ⟨referred.refile has rfl rfl rfl rfl (by omega) rfl, ?_⟩
    exact .idle (engaged.unpending ⟨rfl, rfl⟩) rfl rfl rfl (by rintro _ ⟨⟩)
  | close w exits =>
    exact fun killed d referred engaged =>
      fileclose_engages w exits referred engaged
  | closeFlag w exits =>
    exact fun killed d referred engaged =>
      closeFlag_engages w exits referred engaged
  | closeTest exits =>
    intro killed d referred engaged
    simp only
    split_ifs with closed
    · have pending := engaged.tests rfl closed
      refine ⟨referred, by rintro _ ⟨⟩, by rintro _ ⟨⟩, fun _ => Or.inr rfl, Bool.noConfusion, ?_⟩
      exact fun _ => pending
    · have unpending := (referred.unfreed (by simpa using closed)).1
      refine ⟨referred, .idle ?_ rfl rfl rfl (by rintro _ ⟨⟩)⟩
      rw [unpending]
      exact (Option.some_ne_none t).symm
  | closeRelease exits =>
    cases exits <;> exact fun d _ engaged => engaged.goto ⟨rfl, rfl, rfl, rfl⟩
  | freePage exits =>
    intro killed d referred engaged
    refine ⟨?_, ?_⟩
    · refine .freePage exits engaged ?_ ?_ ?_ ?_ referred ?_ <;> rfl
    · cases exits <;> exact .idle (Option.some_ne_none t).symm rfl rfl rfl (by rintro _ ⟨⟩)
  | _ => exact fun d _ engaged => engaged.goto ⟨rfl, rfl, rfl, rfl⟩

theorem pipeCode_quiet {p : PipePoint} {run : Bool → Data ι → Point ι × Data ι}
    (code : pipeCode t p = .act run) (killed : Bool)
    (referred : Referred d) (engaged : Engaged t (.pipe p) d) (ne : u ≠ t)
    (apart : p.held = some .pipe → q.held = some .pipe → q.tests = false)
    (other : Engaged u q d) : Engaged u q (run killed d).2 := by
  cases p with
  | writeLoop call i =>
    cases code
    exact other.same (writeLoop_sameRefs t call i killed d)
  | readLoop n =>
    cases code
    exact other.same (readLoop_sameRefs t n killed d)
  | writeReturn | readReturn =>
    cases code
    exact other.same ⟨rfl, rfl, rfl, rfl, rfl, rfl, rfl⟩
  | dup w =>
    cases code
    exact .refile referred (engaged.uses w rfl) rfl rfl rfl rfl other ne fun _ _ => rfl
  | close w exits =>
    cases code
    exact fileclose_quiet w exits referred engaged ne other
  | closeFlag w exits =>
    cases code
    apply closeFlag_quiet w exits referred engaged ne _ other
    cases tests : q.tests with
    | false => rfl
    | true =>
      rw [← tests]
      exact apart rfl (tests_held tests)
  | closeTest exits =>
    cases code
    simp only
    split_ifs <;> exact other
  | freePage exits =>
    cases code
    exact freePage_quiet exits engaged rfl rfl rfl rfl rfl ne other
  | _ => cases code

/-- Every thread has what its call needs, whatever the others do. -/
theorem refs_outline (slots : List ι) (initproc : ι) :
    Outline (program slots initproc) .pipe (fun p => p.held = some .pipe)
      (fun p => p.tests = false) Referred Engaged where
  locked := program_locked slots initproc .pipe
  sleeps t p c l next code := by
    rcases p.pipe_or with ⟨p, rfl⟩ | ⟨elsewhere, -⟩
    · cases p with
      | writeSleep | readSleep =>
        cases code
        rfl
      | _ => cases code
    · have aloof := code_aloof slots initproc t elsewhere
      rw [code] at aloof
      exact (outside_idle aloof.1).2.1
  steps t p := by
    rcases p.pipe_or with ⟨q, rfl⟩ | ⟨elsewhere, outside⟩
    · exact pipeCode_engages t q
    · exact (code_aloof slots initproc t elsewhere).engages outside
  quiet t p run killed d code referred engaged u q ne apart other := by
    rcases p.pipe_or with ⟨p, rfl⟩ | ⟨elsewhere, -⟩
    · exact pipeCode_quiet code killed referred engaged ne apart other
    · have aloof := code_aloof slots initproc t elsewhere
      rw [code] at aloof
      exact other.untouched referred (aloof killed d).2

end Xv6.Sleepers
