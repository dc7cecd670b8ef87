/-
Purpose: Who sleeps in a pipe has reason to, except when a killed writer fills
  the pipe and leaves without a wakeup; the page is freed once, with nobody in
  the pipe.
-/
import Xv6.Conc.PipeFifo
import Xv6.Conc.PipeRefs

namespace Xv6.Sleepers

open Point Monitor
open False (elim)
open Or (inl inr)

variable {ι : Type} {slots : List ι} {initproc : ι}

/-! ## The two channels -/

/-- What `piperead` waits for has not happened. -/
def Pipe.starved (p : Pipe) : Prop := p.empty = true ∧ p.writeopen = true

/-- What `pipewrite` waits for has not happened. -/
def Pipe.stuffed (p : Pipe) : Prop := p.isFull = true ∧ p.readopen = true

/-- A reader that has seen the pipe empty. -/
def Point.readSure : Point ι → Prop
  | .pipe (.readSleep _) => True
  | _ => False

/-- A thread that wakes the readers before it releases the lock. -/
def Point.readOwes : Point ι → Prop
  | .pipe (.writeWake ..) | .pipe (.writeDone ..)
  | .pipe (.closeWake true _) => True
  | _ => False

/-- A writer that has seen the pipe full. -/
def Point.writeSure : Point ι → Prop
  | .pipe (.writeWake ..) | .pipe (.writeSleep ..) => True
  | _ => False

/-- A thread that wakes the writers before it releases the lock. -/
def Point.writeOwes : Point ι → Prop
  | .pipe (.readDone _) | .pipe (.closeWake false _) => True
  | _ => False

/-- The point has to do with neither channel. -/
def Point.unconcerned (p : Point ι) : Prop :=
  (¬ p.readOwes ∧ ¬ p.readSure) ∧ ¬ p.writeOwes ∧ ¬ p.writeSure

theorem outside_unconcerned {p : Point ι} (outside : p.outside = true) : p.unconcerned := by
  cases p with
  | pipe p =>
    cases p with
    | writeEnter | readEnter | dup | close => exact ⟨⟨id, id⟩, id, id⟩
    | _ => cases outside
  | _ => exact ⟨⟨id, id⟩, id, id⟩

theorem held_or_unconcerned (p : Point ι) : p.held = some .pipe ∨ p.unconcerned := by
  rcases p.pipe_or with ⟨p, rfl⟩ | ⟨-, outside⟩
  · cases p with
    | writeEnter | writeReturn | readEnter | readReturn | dup | close
    | closeEnter | freePage => exact inr ⟨⟨id, id⟩, id, id⟩
    | _ => exact inl rfl
  · exact inr (outside_unconcerned outside)

/-! ## What the copies see -/

/-- `pipewrite` stops copying at its end or because the pipe is full. -/
theorem copyIn_stops (call : Write) (left i : Nat) (p : Pipe) :
    (copyIn call left i p).1 = i + left ∨ (copyIn call left i p).2.isFull = true := by
  induction left generalizing i p with
  | zero => exact inl rfl
  | succ left ih =>
    simp only [copyIn]
    split_ifs with isFull
    · exact inr isFull
    · rcases ih (i + 1) (p.store (call.addr i)) with
        done | stopped
      · left
        omega
      · exact inr stopped

theorem copyIn_full (call : Write) (left i : Nat) {p : Pipe}
    (isFull : p.isFull = true) : copyIn call left i p = (i, p) := by
  cases left with
  | zero => rfl
  | succ left => simp [copyIn, isFull]

theorem writeLoop_sure {t : ι} {call : Write} {i : Nat} {killed : Bool}
    {d : Data ι} (isSure : (writeLoop t call i killed d).1.writeSure) :
    (writeLoop t call i killed d).2.pipe.stuffed := by
  have stops := copyIn_stops call (call.n - i).toNat i d.pipe
  rcases result : copyIn call (call.n - i).toNat i d.pipe with ⟨j, p⟩
  rw [result] at stops
  simp only [writeLoop, result] at isSure ⊢
  split_ifs at isSure ⊢ with done fails
  · exact isSure.elim
  · exact isSure.elim
  · simp only [Bool.or_eq_true, Bool.not_eq_true', not_or, Bool.not_eq_false] at fails
    refine ⟨?_, fails.1⟩
    rcases stops with done' | isFull
    · omega
    · exact isFull

theorem readLoop_sure {t : ι} {n : Int} {killed : Bool} {d : Data ι}
    (isSure : (readLoop t n killed d).1.readSure) : (readLoop t n killed d).2.pipe.starved := by
  simp only [readLoop] at isSure ⊢
  split_ifs at isSure ⊢ with empty fails
  · exact isSure.elim
  · simpa [Pipe.starved] using empty
  · exact isSure.elim

/-- A writer that stops short in a pipe it found empty had more than a
pipeful to write. -/
theorem copyIn_empty_full (call : Write) (i : Nat) {d : Data ι}
    (queued : Queued d) (empty : d.pipe.empty = true)
    (short : ((copyIn call (call.n - i).toNat i d.pipe).1 : Int) < call.n) :
    (PIPESIZE : Int) < call.n - i := by
  obtain ⟨lower, upper, copied⟩ := copyIn_spec call (call.n - i).toNat i d.pipe queued.ring
  have stops := copyIn_stops call (call.n - i).toNat i d.pipe
  rcases result : copyIn call (call.n - i).toNat i d.pipe with ⟨j, p⟩
  rw [result] at lower upper copied stops short
  have isFull : p.isFull = true := by
    rcases stops with done | isFull
    · simp only at done short
      omega
    · exact isFull
  have before := (queued.ring.empty_iff size_lt).mp empty
  have after := (copied.full_iff size_lt).mp isFull
  simp only [List.length_append, List.length_map, List.length_range'] at after before
  simp only at short lower
  omega

/-! ## A deserted pipe -/

/-- The thread is in `pipeclose`. -/
def Point.closing : Point ι → Bool
  | .pipe p => match p with
    | .closeEnter .. | .closeFlag .. | .closeWake .. | .closeTest _
    | .closeRelease _ | .freeRelease _ | .freePage _ => true
    | _ => false
  | _ => false

theorem calls_uses {p : Point ι} (calls : p.calls = true) : p.uses ≠ none := by
  cases p with
  | pipe p =>
    cases p with
    | dup | close | closeEnter | closeFlag | closeWake | closeTest
    | closeRelease | freeRelease | freePage => cases calls
    | _ => exact nofun
  | _ => cases calls

theorem pending_closing {p : Point ι}
    (pends : p.tests = true ∨ p.frees = true) : p.closing = true := by
  cases p with
  | pipe p =>
    cases p with
    | closeWake | closeTest | freeRelease | freePage => rfl
    | _ => rcases pends with tests | frees <;> contradiction
  | _ => rcases pends with tests | frees <;> contradiction

/-- Both ends are closed and nobody is in a call on the pipe. -/
def Deserted (s : Machine ι) : Prop :=
  s.data.pipe.readopen = false ∧ s.data.pipe.writeopen = false ∧ ∀ t, (s.pc t).calls = false

/-- A closed pipe is deserted: a call holds a reference to an open end. -/
theorem deserted_of_closed [Fintype ι] {s : Machine ι} (referred : Referred s.data)
    (engaged : ∀ t, Engaged t (s.pc t) s.data)
    (closed : s.data.pipe.closed = true) : Deserted s := by
  have shut := s.data.pipe.closed_iff.mp closed
  refine ⟨shut false, shut true, fun t => ?_⟩
  by_contra calls
  obtain ⟨w, uses⟩ := Option.ne_none_iff_exists'.mp (calls_uses (by simpa using calls))
  have has := (engaged t).uses w uses
  have le := referred.ofile_le t w
  have isOpen := referred.opened w (by omega)
  rw [shut w] at isOpen
  cases isOpen

theorem Start.engaged [Fintype ι] {s : Machine ι} (start : Start s) :
    Referred s.data ∧ ∀ t, Engaged t (s.pc t) s.data := by
  constructor
  · constructor
    case counted => exact start.counted
    case opened =>
      rintro (_ | _) -
      · exact start.readopen
      · exact start.writeopen
    case unfreed =>
      intro _
      rw [start.quiet]
      exact ⟨rfl, rfl⟩
    case freed =>
      intro closed
      simp [Pipe.closed, start.readopen] at closed
  · intro t
    rw [start.user t]
    refine .idle ?_ rfl rfl rfl (by rintro _ ⟨⟩)
    rw [start.quiet]
    exact (Option.some_ne_none t).symm

/-! ## The code keeps to the channels -/

variable [DecidableEq ι]

/-- A channel of the pipe is guarded by `p->lock` when the pipe's own code
keeps to it: the rest of the kernel does not touch the pipe. -/
theorem guarded_of_pipe {c : Channel ι} {owes sure : Point ι → Prop}
    {cond : Pipe → Prop} (own : c = .nread ∨ c = .nwrite)
    (idle : ∀ p, p.outside = true → ¬ owes p ∧ ¬ sure p)
    (holds : ∀ p, owes p ∨ sure p → p.held = some .pipe)
    (sleeps : ∀ t p l' next, pipeCode t p = .sleep c l' next → sure (.pipe p))
    (rests : ∀ t p c' l' next, pipeCode t p = .sleep c' l' next → ¬ owes (.pipe p) ∧ ¬ sure next)
    (moves : ∀ t p next, (pipeCode t p).next = some next → (sure next → sure (.pipe p)) ∧
        (owes (.pipe p) → owes next ∨ pipeCode t p = .wakeup c next))
    (acts : ∀ t p run killed d, pipeCode t p = .act run →
      (sure (run killed d).1 → cond (run killed d).2.pipe) ∧ ¬ owes (.pipe p) ∧
        (p.held ≠ some .pipe → (run killed d).2.pipe = d.pipe)) :
    Guarded (program slots initproc) .pipe c (fun p => p.held = some .pipe)
      owes sure (fun d => cond d.pipe) where
  other := nofun
  locked := program_locked slots initproc .pipe
  sureHolds p isSure := holds p (inr isSure)
  owesHolds p owing := holds p (inl owing)
  sleeps t p l' next code := by
    rcases p.pipe_or with ⟨p, rfl⟩ | ⟨elsewhere, -⟩
    · exact sleeps t p l' next code
    · have aloof := code_aloof slots initproc t elsewhere
      rw [code] at aloof
      rcases own with rfl | rfl
      · exact absurd rfl aloof.2.2.1
      · exact absurd rfl aloof.2.2.2
  rests t p c' l' next code := by
    rcases p.pipe_or with ⟨p, rfl⟩ | ⟨elsewhere, outside⟩
    · exact rests t p c' l' next code
    · have aloof := code_aloof slots initproc t elsewhere
      rw [code] at aloof
      exact ⟨(idle p outside).1, (idle next aloof.1).2⟩
  moves t p next follows := by
    rcases p.pipe_or with ⟨p, rfl⟩ | ⟨elsewhere, outside⟩
    · obtain ⟨fresh, debt⟩ := moves t p next follows
      refine ⟨fresh, fun owing => ?_⟩
      rcases debt owing with still | paid
      · exact inl still
      · exact inr (inl paid)
    · have there := ((code_aloof slots initproc t elsewhere).next follows).1
      refine ⟨fun isSure => absurd isSure (idle next there).2, ?_⟩
      exact fun owing => absurd owing (idle p outside).1
  chooses t p ok d q code admitted := by
    rcases p.pipe_or with ⟨p, rfl⟩ | ⟨elsewhere, outside⟩
    · cases p <;> cases code
    · have aloof := code_aloof slots initproc t elsewhere
      rw [code] at aloof
      refine ⟨(idle q (aloof d q admitted).outside).2, ?_⟩
      exact fun owing => absurd owing (idle p outside).1
  acts t p run killed d code := by
    rcases p.pipe_or with ⟨p, rfl⟩ | ⟨elsewhere, outside⟩
    · obtain ⟨sees, unowing, same⟩ := acts t p run killed d code
      refine ⟨sees, fun owing => absurd owing unowing, ?_⟩
      intro unheld reason
      rw [same unheld]
      exact reason
    · have aloof := code_aloof slots initproc t elsewhere
      rw [code] at aloof
      obtain ⟨admits, untouched⟩ := aloof killed d
      refine ⟨?_, fun owing => absurd owing (idle p outside).1, ?_⟩
      · exact fun isSure => absurd isSure (idle _ admits.outside).2
      · intro _ reason
        rw [untouched.pipe]
        exact reason

/-- Who goes to sleep owes no wakeup. -/
theorem pipeCode_rests (t : ι) (p : PipePoint) (c : Channel ι) (l : Lock)
    (next : Point ι) (code : pipeCode t p = .sleep c l next) :
    (¬ (pipe p : Point ι).readOwes ∧ ¬ next.readSure) ∧
      ¬ (pipe p : Point ι).writeOwes ∧ ¬ next.writeSure := by
  cases p with
  | writeSleep | readSleep =>
    cases code
    exact ⟨⟨id, id⟩, id, id⟩
  | _ => cases code

/-- Computing takes place before a wakeup is owed. -/
theorem pipeCode_acts {t : ι} {p : PipePoint} {run : Bool → Data ι → Point ι × Data ι}
    (code : pipeCode t p = .act run) (killed : Bool) (d : Data ι) :
    ((run killed d).1.readSure → (run killed d).2.pipe.starved) ∧
      ((run killed d).1.writeSure → (run killed d).2.pipe.stuffed) ∧
      (¬ (pipe p : Point ι).readOwes ∧ ¬ (pipe p : Point ι).writeOwes) ∧
      (p.held ≠ some .pipe → (run killed d).2.pipe = d.pipe) := by
  cases p with
  | writeLoop call i =>
    cases code
    refine ⟨?_, writeLoop_sure, ⟨id, id⟩, fun unheld => absurd rfl unheld⟩
    simp only [writeLoop]
    split_ifs <;> exact elim
  | readLoop n =>
    cases code
    refine ⟨readLoop_sure, ?_, ⟨id, id⟩, fun unheld => absurd rfl unheld⟩
    simp only [readLoop]
    split_ifs <;> exact elim
  | close writable exits =>
    cases code
    simp only [fileclose]
    split_ifs
    · exact ⟨elim, elim, ⟨id, id⟩, fun _ => rfl⟩
    · cases exits <;> exact ⟨elim, elim, ⟨id, id⟩, fun _ => rfl⟩
    · exact ⟨elim, elim, ⟨id, id⟩, fun _ => rfl⟩
  | closeFlag writable exits =>
    cases code
    exact ⟨elim, elim, ⟨id, id⟩, fun unheld => absurd rfl unheld⟩
  | closeTest exits =>
    cases code
    simp only
    split_ifs <;> exact ⟨elim, elim, ⟨id, id⟩, fun _ => rfl⟩
  | freePage exits =>
    cases code
    cases exits <;> exact ⟨elim, elim, ⟨id, id⟩, fun _ => rfl⟩
  | writeReturn | readReturn | dup =>
    cases code
    exact ⟨elim, elim, ⟨id, id⟩, fun _ => rfl⟩
  | _ => cases code

theorem nread_guarded : Guarded (program slots initproc) .pipe .nread
      (fun p => p.held = some .pipe) readOwes readSure
      (fun d => d.pipe.starved) := by
  apply guarded_of_pipe (inl rfl)
  case idle => exact fun p outside => (outside_unconcerned outside).1
  case holds =>
    intro p concerned
    rcases held_or_unconcerned p with held | unconcerned
    · exact held
    · exact absurd concerned (not_or.mpr unconcerned.1)
  case sleeps =>
    intro t p l' next code
    cases p with
    | readSleep => trivial
    | _ => cases code
  case rests =>
    exact fun t p c' l' next code => (pipeCode_rests t p c' l' next code).1
  case moves =>
    intro t p next follows
    cases p with
    | writeWake | writeDone =>
      cases follows
      exact ⟨elim, fun _ => inr rfl⟩
    | closeWake writable exits =>
      cases follows
      cases writable with
      | true => exact ⟨elim, fun _ => inr rfl⟩
      | false => exact ⟨elim, elim⟩
    | closeRelease exits =>
      cases follows
      cases exits <;> exact ⟨elim, elim⟩
    | writeLoop | readLoop | writeReturn | readReturn | dup | close
    | closeFlag | closeTest | freePage => cases follows
    | _ =>
      cases follows
      exact ⟨elim, elim⟩
  case acts =>
    intro t p run killed d code
    obtain ⟨sees, -, unowing, same⟩ := pipeCode_acts code killed d
    exact ⟨sees, unowing.1, same⟩

theorem nwrite_guarded : Guarded (program slots initproc) .pipe .nwrite
      (fun p => p.held = some .pipe) writeOwes writeSure
      (fun d => d.pipe.stuffed) := by
  apply guarded_of_pipe (inr rfl)
  case idle => exact fun p outside => (outside_unconcerned outside).2
  case holds =>
    intro p concerned
    rcases held_or_unconcerned p with held | unconcerned
    · exact held
    · exact absurd concerned (not_or.mpr unconcerned.2)
  case sleeps =>
    intro t p l' next code
    cases p with
    | writeSleep => trivial
    | _ => cases code
  case rests =>
    exact fun t p c' l' next code => (pipeCode_rests t p c' l' next code).2
  case moves =>
    intro t p next follows
    cases p with
    | readDone =>
      cases follows
      exact ⟨elim, fun _ => inr rfl⟩
    | closeWake writable exits =>
      cases follows
      cases writable with
      | true => exact ⟨elim, elim⟩
      | false => exact ⟨elim, fun _ => inr rfl⟩
    | closeRelease exits =>
      cases follows
      cases exits <;> exact ⟨elim, elim⟩
    | writeLoop | readLoop | writeReturn | readReturn | dup | close
    | closeFlag | closeTest | freePage => cases follows
    | writeWake =>
      cases follows
      exact ⟨id, elim⟩
    | _ =>
      cases follows
      exact ⟨elim, elim⟩
  case acts =>
    intro t p run killed d code
    obtain ⟨-, sees, unowing, same⟩ := pipeCode_acts code killed d
    exact ⟨sees, unowing.2, same⟩

/-! ## Steps that change what is waited for -/

section Calm

variable {s : Machine ι} {t : ι}

theorem nwrite_calm : Calm (program slots initproc) .nwrite (fun p => p.held = some .pipe)
      writeOwes (fun d => d.pipe.stuffed) s t := by
  intro run code held reason
  rcases (s.pc t).pipe_or with ⟨p, here⟩ | ⟨elsewhere, -⟩
  · rw [here] at code
    cases p with
    | writeLoop call i =>
      cases code
      left
      have same : (writeLoop t call i (s.killed t) s.data).2.pipe =
          s.data.pipe := by
        simp only [writeLoop, copyIn_full call _ i reason.1]
        split_ifs <;> rfl
      simp only [same]
      exact reason
    | readLoop n =>
      cases code
      simp only [readLoop]
      split_ifs
      · exact inl reason
      · exact inl reason
      · exact inr (inl trivial)
    | closeFlag writable exits =>
      cases code
      cases writable with
      | true => exact inl reason
      | false => exact inr (inl trivial)
    | closeTest exits =>
      cases code
      simp only
      split_ifs <;> exact inl reason
    | close | writeReturn | readReturn | dup | freePage =>
      rw [here] at held
      cases held
    | _ => cases code
  · have aloof := code_aloof slots initproc t elsewhere
    rw [code] at aloof
    left
    simp only [(aloof (s.killed t) s.data).2.pipe]
    exact reason

/-- The step is not the copy of a killed writer that fills the empty pipe,
with more left to write, while somebody waits for data. -/
def Attentive (s : Machine ι) (label : ι × Point ι) : Prop :=
  ∀ call i, s.mode label.1 = .running →
    s.pc label.1 = .pipe (.writeLoop call i) → s.killed label.1 = true →
    s.data.pipe.empty = true → (PIPESIZE : Int) < call.n - i →
    ∀ u, ¬ (s.mode u).waits .nread

/-- Only `piperead` sleeps on `&p->nread`. -/
theorem nread_sleeper {p next : Point ι} {l : Lock}
    (code : (program slots initproc).code t p = .sleep .nread l next) : next.uses = some false := by
  rcases p.pipe_or with ⟨p, rfl⟩ | ⟨elsewhere, -⟩
  · cases p with
    | readSleep =>
      cases code
      rfl
    | _ => cases code
  · have aloof := code_aloof slots initproc t elsewhere
    rw [code] at aloof
    exact absurd rfl aloof.2.2.1

/-- An empty pipe with writers stays so, or the readers are woken, or nobody
waits. -/
theorem nread_calm [Fintype ι] (queued : Queued s.data) (referred : Referred s.data)
    (engaged : ∀ u, Engaged u (s.pc u) s.data)
    (sleeper : ∀ u, (s.mode u).waits .nread → (s.pc u).uses = some false)
    {q : Point ι} (attentive : Attentive s (t, q)) (running : s.mode t = .running) :
    Calm (program slots initproc) .nread (fun p => p.held = some .pipe)
      readOwes (fun d => d.pipe.starved) s t := by
  intro run code held reason
  rcases (s.pc t).pipe_or with ⟨p, here⟩ | ⟨elsewhere, -⟩
  · rw [here] at code
    cases p with
    | writeLoop call i =>
      cases code
      have short := copyIn_empty_full call i queued reason.1
      obtain ⟨reads, -⟩ := copyIn_flags call (call.n - i).toNat i s.data.pipe
      rcases result : copyIn call (call.n - i).toNat i s.data.pipe with
        ⟨j, p⟩
      simp only [result] at short reads
      simp only [writeLoop, result]
      split_ifs with done fails
      · exact inr (inl trivial)
      · -- The writer leaves without a wakeup: no reader waits, since the
        -- read end is closed or the step would not be attentive.
        right
        right
        intro u waiting
        have isOpen : s.data.pipe.readopen = true := by
          apply referred.opened false
          exact Nat.lt_of_lt_of_le ((engaged u).uses false (sleeper u waiting))
            (referred.ofile_le u false)
        have killed : s.killed t = true := by
          simpa [reads, isOpen] using fails
        exact attentive call i running here killed reason.1 (short (by simpa using done)) u waiting
      · exact inr (inl trivial)
    | readLoop n =>
      cases code
      simp only [readLoop]
      rw [if_pos (by simpa [Pipe.starved] using reason)]
      split_ifs <;> exact inl reason
    | closeFlag writable exits =>
      cases code
      cases writable with
      | true => exact inr (inl trivial)
      | false => exact inl reason
    | closeTest exits =>
      cases code
      simp only
      split_ifs <;> exact inl reason
    | close | writeReturn | readReturn | dup | freePage =>
      rw [here] at held
      cases held
    | _ => cases code
  · have aloof := code_aloof slots initproc t elsewhere
    rw [code] at aloof
    left
    simp only [(aloof (s.killed t) s.data).2.pipe]
    exact reason

end Calm

/-! ## Runs -/

section Runs

variable [Fintype ι] {s : Machine ι}
variable {allowed : Machine ι →
  ι × Point ι → Prop}

theorem refs_asserted (reached : Runs (program slots initproc) Start allowed s) :
    Referred s.data ∧ ∀ t, Engaged t (s.pc t) s.data := by
  obtain ⟨referred, engaged, -⟩ := (refs_outline slots initproc).asserted
    (fun s start => ⟨start.fresh .pipe, start.engaged⟩) reached
  exact ⟨referred, engaged⟩

/-- The page passes to `kfree` at most once, from a deserted pipe, and has
done so when both ends are closed and every `pipeclose` is over. -/
theorem page_freed_once (reached : Runs (program slots initproc) Start allowed s) :
    s.data.log.frees ≤ 1 ∧
    (0 < s.data.log.frees → Deserted s) ∧
    (∀ t exits, s.pc t = .pipe (.freePage exits) → Deserted s) ∧
    (s.data.pipe.readopen = false → s.data.pipe.writeopen = false →
      (∀ t, (s.pc t).closing = false) → s.data.log.frees = 1) := by
  obtain ⟨referred, engaged⟩ := refs_asserted reached
  refine ⟨?_, ?_, ?_, ?_⟩
  · cases closed : s.data.pipe.closed with
    | false => exact (referred.unfreed closed).2 ▸ Nat.zero_le 1
    | true =>
      rcases referred.freed closed with ⟨-, frees⟩ | ⟨-, frees⟩
      · omega
      · omega
  · intro pos
    apply deserted_of_closed referred engaged
    cases closed : s.data.pipe.closed with
    | true => rfl
    | false =>
      have none := (referred.unfreed closed).2
      omega
  · intro t exits here
    apply deserted_of_closed referred engaged
    have pending := (engaged t).frees (by rw [here]; rfl)
    cases closed : s.data.pipe.closed with
    | true => rfl
    | false =>
      rw [(referred.unfreed closed).1] at pending
      cases pending
  · intro readClosed writeClosed isOver
    have closed : s.data.pipe.closed = true := by
      simp [Pipe.closed, readClosed, writeClosed]
    rcases referred.freed closed with ⟨some, -⟩ | ⟨-, frees⟩
    · obtain ⟨t, pending⟩ := Option.ne_none_iff_exists'.mp some
      have closing := pending_closing ((engaged t).pends pending)
      rw [isOver t] at closing
      cases closing
    · exact frees

/-- In a run in which no killed writer fills an empty pipe and leaves while
somebody waits for data, no wakeup is lost: while `p->lock` is free, a process
that sleeps on `&p->nread` finds the pipe empty and its write end open, and one
that sleeps on `&p->nwrite` finds it full and its read end open.  In any run the
page is passed to `kfree` once, with both ends closed and nobody in a call. -/
theorem pipe_wakeups (reached : Runs (program slots initproc) Start Attentive s) :
    (s.lock .pipe = none → ∀ t, sleepingOn .nread (s.mode t) →
      s.data.pipe.nread = s.data.pipe.nwrite ∧ s.data.pipe.writeopen = true) ∧
    (s.lock .pipe = none → ∀ t, sleepingOn .nwrite (s.mode t) →
      s.data.pipe.nwrite = u32 (s.data.pipe.nread + PIPESIZE) ∧ s.data.pipe.readopen = true) ∧
    s.data.log.frees ≤ 1 ∧
    (0 < s.data.log.frees → Deserted s) ∧
    (∀ t exits, s.pc t = .pipe (.freePage exits) → Deserted s) ∧
    (s.data.pipe.readopen = false → s.data.pipe.writeopen = false →
      (∀ t, (s.pc t).closing = false) → s.data.log.frees = 1) := by
  have initially : ∀ s : Machine ι, Start s → Fresh (fun p => p.held = some Lock.pipe) s ∧
        Fresh (fun p => p.held = some Lock.ptable) s :=
    fun s start => ⟨start.fresh .pipe, start.fresh .ptable⟩
  have calm : ∀ (s : Machine ι) t q, Runs (program slots initproc) Start Attentive s →
      Attentive s (t, q) → s.mode t = .running →
      Calm (program slots initproc) .nread (fun p => p.held = some .pipe)
        readOwes (fun d => d.pipe.starved) s t := by
    intro s t q reached attentive running
    obtain ⟨referred, engaged⟩ := refs_asserted reached
    have queued := ((fifo_outline slots initproc).asserted
      (fun s start => ⟨start.fresh .pipe, start.accounted⟩) reached).data
    refine nread_calm queued referred engaged ?_ attentive running
    intro u waiting
    obtain ⟨p, l, code⟩ := sleeping_at (fun s start => start.running) reached waiting
    exact nread_sleeper code
  refine ⟨?_, ?_, page_freed_once reached⟩
  · intro free t sleeps
    obtain ⟨empty, isOpen⟩ := nread_guarded.justified
      (program_locked slots initproc .ptable) initially calm reached free
      sleeps.waits
    exact ⟨by simpa [RingBuffer.empty] using empty, isOpen⟩
  · intro free t sleeps
    obtain ⟨isFull, isOpen⟩ := nwrite_guarded.justified
      (program_locked slots initproc .ptable) initially
      (fun _ _ _ _ _ _ => nwrite_calm) reached free sleeps.waits
    exact ⟨by simpa [Pipe.isFull, RingBuffer.full, u32] using isFull, isOpen⟩

end Runs

/-- Process 0 reads from the empty pipe and goes to sleep. -/
def readerSleeps : List (Fin 3 × Point (Fin 3)) :=
  (0, .trap (.read 1)) :: List.replicate 6 (0, .user)

/-- Then process 1 writes 513 bytes: it fills the pipe, wakes the reader and
goes to sleep itself. -/
def writerSleeps : List (Fin 3 × Point (Fin 3)) :=
  readerSleeps ++ (1, .trap (.write ⟨fun _ => 0, 513⟩)) :: List.replicate 7 (1, .user)

theorem pipe_wakeups_writer : ∃ s, Runs (program [0, 1, (2 : Fin 3)] 2) Start Attentive s ∧
      (∀ c, ¬ sleepingOn c (s.mode 0)) ∧ sleepingOn .nwrite (s.mode 1) ∧
      s.data.pipe.nwrite = u32 (s.data.pipe.nread + PIPESIZE) ∧ s.data.pipe.readopen = true := by
  have outcome : (writerSleeps.foldlM (fun s label =>
        if !s.killed label.1 then step (program [0, 1, 2] 2) s label else none) (made 3)).map
        (fun s => (s.lock .pipe, s.mode 0, s.mode 1)) =
      some (none, .ready .pipe, .asleep .nwrite .pipe) := by
    decide +kernel
  obtain ⟨s, run, facts⟩ := Option.map_eq_some_iff.mp outcome
  simp only [Prod.mk.injEq] at facts
  obtain ⟨free, woken, asleep⟩ := facts
  have reached : Runs (program [0, 1, (2 : Fin 3)] 2) Start Attentive s := by
    apply Reach.checked (s := made 3) _ (.start (made_start (by decide))) run
    intro s label passed call i _ _ killed
    simp [killed] at passed
  have sleeps : sleepingOn .nwrite (s.mode 1) := ⟨.pipe, inr asleep⟩
  refine ⟨s, reached, ?_, sleeps, (pipe_wakeups reached).2.1 free 1 sleeps⟩
  simp [woken, sleepingOn]

/-- Then process 1 starts a write of 513 bytes and is killed by process 2
before it takes the lock. -/
def killedWriter : List (Fin 3 × Point (Fin 3)) :=
  readerSleeps ++ [(1, .trap (.write ⟨fun _ => 0, 513⟩)), (1, .user),
    (2, .trap (.kill 1)), (2, .user), (2, .user), (1, .user), (1, .user),
    (1, .user)]

/-- It fills the pipe and returns -1 without a wakeup: the lock is free, the
pipe has 512 bytes, and the reader sleeps on. -/
theorem killed_writer_leaves_reader_asleep :
    ∃ s, Runs (program [0, 1, (2 : Fin 3)] 2) Start (fun _ _ => True) s ∧
      s.lock .pipe = none ∧ sleepingOn .nread (s.mode 0) ∧
      s.data.pipe.nread = 0 ∧ s.data.pipe.nwrite = 512 := by
  have outcome : (killedWriter.foldlM (step (program [0, 1, 2] 2)) (made 3)).map
        (fun s => (s.lock .pipe, s.mode 0, s.data.pipe.nread, s.data.pipe.nwrite)) =
      some (none, .asleep .nread .pipe, 0, 512) := by
    decide +kernel
  obtain ⟨s, run, facts⟩ := Option.map_eq_some_iff.mp outcome
  simp only [Prod.mk.injEq] at facts
  obtain ⟨free, asleep, nread, nwrite⟩ := facts
  exact ⟨s, Reach.foldlM (.start (made_start (by decide))) run, free,
    ⟨.pipe, inr asleep⟩, nread, nwrite⟩

end Xv6.Sleepers
