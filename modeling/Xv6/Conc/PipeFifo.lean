/-
Purpose: Pipes are lossless first-in first-out queues under any interleaving
  of readers, writers, kills and closes.
-/
import Xv6.Conc.Sleepers

namespace Xv6.Sleepers

open Monitor

variable {ι : Type} [DecidableEq ι]

/-! ## What the calls owe to the log -/

/-- The bytes of one thread in a log, in order. -/
def bytesOf (t : ι) (log : List (ι × UInt8)) : List UInt8 :=
  (log.filter fun entry => entry.1 = t).map Prod.snd

/-- What the `pipewrite` in progress at a point has stored. -/
def Point.written : Point ι → List UInt8
  | .pipe (.writeLoop call i) | .pipe (.writeWake call i)
  | .pipe (.writeSleep call i) | .pipe (.writeFail call i)
  | .pipe (.writeDone call i) | .pipe (.writeRelease call i)
  | .pipe (.writeReturn call i _) => call.first i
  | _ => []

/-- What the `piperead` in progress at a point has taken. -/
def Point.got : Point ι → List UInt8
  | .pipe (.readDone got) | .pipe (.readRelease got)
  | .pipe (.readReturn got _) => got
  | _ => []

/-- A returned `pipewrite` that did not fail stored all its bytes. -/
def Written.sound (w : Written ι) : Prop :=
  0 ≤ w.result → w.result = w.call.n ∧ (w.count : Int) = w.call.n

/-- A returned `piperead` returns how many bytes it delivered, or -1 with
none. -/
def Delivered.sound (r : Delivered ι) : Prop :=
  r.result = r.bytes.length ∨ r.result = -1 ∧ r.bytes = []

/-- What a call knows of its own counters. -/
def Point.sound (t : ι) : Point ι → Prop
  | .pipe (.writeLoop call i) | .pipe (.writeWake call i)
  | .pipe (.writeSleep call i) => i ≤ call.n.toNat
  | .pipe (.writeDone call i) | .pipe (.writeRelease call i) =>
    0 ≤ call.n → (i : Int) = call.n
  | .pipe (.writeReturn call i result) =>
    Written.sound ⟨t, call, i, result⟩
  | .pipe (.readReturn got result) => Delivered.sound ⟨t, got, result⟩
  | _ => True

/-- The log accounts for every byte of thread `t`, by returned calls and the
one in progress at `p`. -/
structure Accounted (t : ι) (p : Point ι) (d : Data ι) : Prop where
  written : bytesOf t d.log.stored = (d.log.writes.filter fun w => w.writer = t).flatMap
      (fun w => w.call.first w.count) ++ p.written
  got : bytesOf t d.log.taken = (d.log.reads.filter fun r => r.reader = t).flatMap
      (fun r => r.bytes) ++ p.got
  sound : p.sound t

/-- The ring stands for the queue of the log, and all returned calls are
sound. -/
structure Queued (d : Data ι) : Prop where
  ring : d.pipe.toRingBuffer.Fifo (2 ^ 32) PIPESIZE
    (d.log.taken.map Prod.snd) (d.log.stored.map Prod.snd)
  writes : ∀ w ∈ d.log.writes, w.sound
  reads : ∀ r ∈ d.log.reads, r.sound

/-! ## Copying -/

theorem size_dvd : PIPESIZE ∣ 2 ^ 32 := by decide

theorem size_lt : PIPESIZE < 2 ^ 32 := by decide

/-- What `pipewrite` copies until its end or until the pipe is full. -/
theorem copyIn_spec (call : Write) (left i : Nat) (p : Pipe) {taken stored : List UInt8}
    (fifo : p.toRingBuffer.Fifo (2 ^ 32) PIPESIZE taken stored) :
    i ≤ (copyIn call left i p).1 ∧ (copyIn call left i p).1 ≤ i + left ∧
      (copyIn call left i p).2.toRingBuffer.Fifo (2 ^ 32) PIPESIZE taken
        (stored ++ (List.range' i ((copyIn call left i p).1 - i)).map call.addr) := by
  induction left generalizing i p stored with
  | zero => simpa [copyIn] using fifo
  | succ left ih =>
    simp only [copyIn]
    split_ifs with isFull
    · simpa using fifo
    · have room := mt (fifo.full_iff size_lt).mpr isFull
      have pushed := fifo.push size_dvd room (call.addr i)
      obtain ⟨lower, upper, copied⟩ := ih (i + 1) (p.store (call.addr i)) pushed
      refine ⟨by omega, by omega, ?_⟩
      obtain ⟨more, split⟩ := Nat.exists_eq_add_of_le lower
      rw [split] at copied ⊢
      rw [show i + 1 + more - i = more + 1 by omega, List.range'_succ]
      rw [show i + 1 + more - (i + 1) = more by omega] at copied
      simpa using copied

theorem copyOut_spec (left : Nat) (taken got : List UInt8) (p : Pipe) {stored : List UInt8}
    (fifo : p.toRingBuffer.Fifo (2 ^ 32) PIPESIZE (taken ++ got) stored) :
    (copyOut left got p).2.toRingBuffer.Fifo (2 ^ 32) PIPESIZE
      (taken ++ (copyOut left got p).1) stored := by
  induction left generalizing got p with
  | zero => exact fifo
  | succ left ih =>
    simp only [copyOut]
    split_ifs with isEmpty
    · exact fifo
    · have some := mt (fifo.empty_iff size_lt).mpr isEmpty
      have popped := fifo.pop size_dvd some
      rw [List.append_assoc] at popped
      exact ih _ p.take.2 popped

/-! ## One step -/

section Step

variable {t : ι} {p q : Point ι} {d d' : Data ι}

theorem Accounted.goto (accounted : Accounted t p d)
    (written : q.written = p.written) (got : q.got = p.got)
    (sound : q.sound t) : Accounted t q d where
  written := written ▸ accounted.written
  got := got ▸ accounted.got
  sound := sound

omit [DecidableEq ι] in
theorem outside_blank (outside : p.outside = true) (t : ι) :
    p.written = [] ∧ p.got = [] ∧ p.sound t := by
  cases p with
  | pipe p =>
    cases p with
    | writeEnter | readEnter | dup | close => exact ⟨rfl, rfl, trivial⟩
    | _ => cases outside
  | _ => exact ⟨rfl, rfl, trivial⟩

theorem Accounted.outside (accounted : Accounted t p d)
    (here : p.outside = true) (there : q.outside = true) : Accounted t q d := by
  obtain ⟨written, got, -⟩ := outside_blank here t
  obtain ⟨written', got', sound⟩ := outside_blank there t
  exact accounted.goto (written'.trans written.symm) (got'.trans got.symm) sound

/-- The ring and the four lists of the log are as before. -/
structure SameBytes (d d' : Data ι) : Prop where
  pipe : d'.pipe.toRingBuffer = d.pipe.toRingBuffer
  stored : d'.log.stored = d.log.stored
  taken : d'.log.taken = d.log.taken
  writes : d'.log.writes = d.log.writes
  reads : d'.log.reads = d.log.reads

theorem Untouched.sameBytes (untouched : Untouched d d') : SameBytes d d' where
  pipe := by rw [untouched.pipe]
  stored := by rw [untouched.log]
  taken := by rw [untouched.log]
  writes := by rw [untouched.log]
  reads := by rw [untouched.log]

omit [DecidableEq ι] in
theorem Queued.same (queued : Queued d) (same : SameBytes d d') : Queued d' where
  ring := by
    rw [same.pipe, same.stored, same.taken]
    exact queued.ring
  writes := by
    rw [same.writes]
    exact queued.writes
  reads := by
    rw [same.reads]
    exact queued.reads

theorem Accounted.same (accounted : Accounted t p d)
    (same : SameBytes d d') : Accounted t p d' where
  written := by
    rw [same.stored, same.writes]
    exact accounted.written
  got := by
    rw [same.taken, same.reads]
    exact accounted.got
  sound := accounted.sound

theorem same_steps (queued : Queued d) (accounted : Accounted t p d) (same : SameBytes d d')
    (blank : q.written = p.written ∧ q.got = p.got ∧ q.sound t) : Queued d' ∧ Accounted t q d' :=
  ⟨queued.same same, (accounted.same same).goto blank.1 blank.2.1 blank.2.2⟩

omit [DecidableEq ι] in
theorem first_append (call : Write) {i j : Nat} (le : i ≤ j) :
    call.first i ++ (List.range' i (j - i)).map call.addr = call.first j := by
  obtain ⟨more, rfl⟩ := Nat.exists_eq_add_of_le le
  unfold Write.first
  rw [← List.map_append, List.range_eq_range', List.range_eq_range',
    Nat.add_sub_cancel_left, ← List.range'_append_1, Nat.zero_add]

@[simp] theorem bytesOf_append (t : ι) (first second : List (ι × UInt8)) :
    bytesOf t (first ++ second) = bytesOf t first ++ bytesOf t second := by
  simp [bytesOf]

theorem bytesOf_map (t u : ι) {α : Type} (xs : List α) (f : α → UInt8) :
    bytesOf u (xs.map fun x => (t, f x)) = if t = u then xs.map f else [] := by
  induction xs with
  | nil => simp [bytesOf]
  | cons x xs ih =>
    rw [List.map_cons, ← List.singleton_append, bytesOf_append, ih]
    by_cases same : t = u <;> simp [bytesOf, same]

theorem writeLoop_steps (call : Write) (i : Nat) (killed : Bool) (queued : Queued d)
    (accounted : Accounted t (.pipe (.writeLoop call i)) d) :
    Queued (writeLoop t call i killed d).2 ∧ Accounted t (writeLoop t call i killed d).1
        (writeLoop t call i killed d).2 := by
  obtain ⟨lower, upper, copied⟩ := copyIn_spec call (call.n - i).toNat i d.pipe queued.ring
  rcases result : copyIn call (call.n - i).toNat i d.pipe with ⟨j, p⟩
  rw [result] at lower upper copied
  have bounded : i ≤ call.n.toNat := accounted.sound
  have reached : j ≤ call.n.toNat := by omega
  -- The log after the copy, whichever way the call goes on.
  have written : ∀ next : Point ι, next.written = call.first j → next.got = [] → next.sound t →
      Accounted t next { d with
        pipe := p
        log := { d.log with stored := d.log.stored ++
          (List.range' i (j - i)).map fun k => (t, call.addr k) } } := by
    intro next isWritten isGot sound
    refine ⟨?_, ?_, sound⟩
    · rw [bytesOf_append, accounted.written, bytesOf_map, if_pos rfl,
        List.append_assoc, isWritten, ← first_append call lower]
      rfl
    · rw [isGot]
      exact accounted.got
  have ring : Queued { d with
      pipe := p
      log := { d.log with stored := d.log.stored ++
        (List.range' i (j - i)).map fun k => (t, call.addr k) } } := by
    refine ⟨?_, queued.writes, queued.reads⟩
    simpa [Function.comp_def] using copied
  simp only [writeLoop, result]
  split_ifs with done fails
  · refine ⟨ring, written _ rfl rfl ?_⟩
    intro pos
    omega
  · exact ⟨ring, written _ rfl rfl trivial⟩
  · exact ⟨ring, written _ rfl rfl reached⟩

theorem readLoop_steps (n : Int) (killed : Bool) (queued : Queued d)
    (accounted : Accounted t (.pipe (.readLoop n)) d) :
    Queued (readLoop t n killed d).2 ∧
      Accounted t (readLoop t n killed d).1 (readLoop t n killed d).2 := by
  have copied := copyOut_spec n.toNat (d.log.taken.map Prod.snd) [] d.pipe
    (by rw [List.append_nil]; exact queued.ring)
  rcases result : copyOut n.toNat [] d.pipe with ⟨got, p⟩
  rw [result] at copied
  simp only [readLoop, result]
  split_ifs
  · exact ⟨queued, accounted.goto rfl rfl trivial⟩
  · exact ⟨queued, accounted.goto rfl rfl trivial⟩
  · refine ⟨⟨?_, queued.writes, queued.reads⟩, ?_, ?_, trivial⟩
    · simpa [Function.comp_def] using copied
    · exact accounted.written
    · rw [bytesOf_append, accounted.got, bytesOf_map, if_pos rfl, List.map_id']
      exact List.append_assoc ..

end Step

/-! ## The outline -/

section Outline

variable (slots : List ι) (initproc : ι)

theorem pipeCode_accounts (t : ι) (p : PipePoint) :
    (pipeCode t p).steps Queued Accounted t (.pipe p) := by
  cases p with
  | writeEnter call =>
    exact fun d _ accounted => accounted.goto rfl rfl (Nat.zero_le _)
  | writeLoop call i =>
    exact fun killed d queued accounted =>
      writeLoop_steps call i killed queued accounted
  | writeFail call i =>
    refine fun d _ accounted => accounted.goto rfl rfl ?_
    intro pos
    cases pos
  | writeRelease call i =>
    refine fun d _ accounted => accounted.goto rfl rfl ?_
    exact fun pos => ⟨rfl, accounted.sound pos⟩
  | writeReturn call i result =>
    intro killed d queued accounted
    refine ⟨⟨queued.ring, ?_, queued.reads⟩, ?_, accounted.got, trivial⟩
    · intro w mem
      rcases List.mem_append.mp mem with old | new
      · exact queued.writes w old
      · rw [List.mem_singleton.mp new]
        exact accounted.sound
    · rw [accounted.written]
      simp [Point.written]
  | readLoop n =>
    exact fun killed d queued accounted =>
      readLoop_steps n killed queued accounted
  | readFail =>
    exact fun d _ accounted => accounted.goto rfl rfl (Or.inr ⟨rfl, rfl⟩)
  | readRelease got =>
    exact fun d _ accounted => accounted.goto rfl rfl (Or.inl rfl)
  | readReturn got result =>
    intro killed d queued accounted
    refine ⟨⟨queued.ring, queued.writes, ?_⟩, accounted.written, ?_, trivial⟩
    · intro r mem
      rcases List.mem_append.mp mem with old | new
      · exact queued.reads r old
      · rw [List.mem_singleton.mp new]
        exact accounted.sound
    · rw [accounted.got]
      simp [Point.got]
  | close writable exits =>
    intro killed d queued accounted
    simp only [fileclose]
    split_ifs
    · exact ⟨queued, accounted.goto rfl rfl trivial⟩
    · exact same_steps queued accounted ⟨rfl, rfl, rfl, rfl, rfl⟩
        (outside_blank (outside_afterClose exits) t)
    · exact same_steps queued accounted ⟨rfl, rfl, rfl, rfl, rfl⟩ ⟨rfl, rfl, trivial⟩
  | closeFlag writable exits =>
    intro killed d queued accounted
    refine same_steps queued accounted ⟨?_, rfl, rfl, rfl, rfl⟩ ⟨rfl, rfl, trivial⟩
    cases writable <;> rfl
  | closeTest exits =>
    intro killed d queued accounted
    simp only
    split_ifs
    · exact ⟨queued, accounted.goto rfl rfl trivial⟩
    · exact ⟨queued, accounted.goto rfl rfl trivial⟩
  | closeRelease exits =>
    obtain ⟨written, got, sound⟩ := outside_blank (outside_afterClose exits) t
    exact fun d _ accounted => accounted.goto written got sound
  | freePage exits =>
    exact fun killed d queued accounted =>
      same_steps queued accounted ⟨rfl, rfl, rfl, rfl, rfl⟩
        (outside_blank (outside_afterClose exits) t)
  | dup writable =>
    exact fun killed d queued accounted =>
      same_steps queued accounted ⟨rfl, rfl, rfl, rfl, rfl⟩ ⟨rfl, rfl, trivial⟩
  | writeWake | writeSleep | writeDone =>
    exact fun d _ accounted => accounted.goto rfl rfl accounted.sound
  | _ => exact fun d _ accounted => accounted.goto rfl rfl trivial

/-- Code that does not touch the pipe. -/
theorem Aloof.accounts {t : ι} {p : Point ι} {instr : Code ι}
    (aloof : Aloof t p instr) (outside : p.outside = true) : instr.steps Queued Accounted t p := by
  cases instr with
  | act run =>
    intro killed d queued accounted
    obtain ⟨admits, untouched⟩ := aloof killed d
    refine ⟨queued.same untouched.sameBytes, ?_⟩
    exact (accounted.same untouched.sameBytes).outside outside admits.outside
  | choose ok =>
    exact fun d q admitted _ accounted =>
      accounted.outside outside (aloof d q admitted).outside
  | _ => exact fun d _ accounted => accounted.outside outside aloof.1

/-- Whose bytes the log has, after a step of `t`. -/
structure Extends (t : ι) (d d' : Data ι) : Prop where
  stored : ∀ u, u ≠ t → bytesOf u d'.log.stored = bytesOf u d.log.stored
  taken : ∀ u, u ≠ t → bytesOf u d'.log.taken = bytesOf u d.log.taken
  writes : ∀ u, u ≠ t → (d'.log.writes.filter fun w => w.writer = u) =
    d.log.writes.filter fun w => w.writer = u
  reads : ∀ u, u ≠ t → (d'.log.reads.filter fun r => r.reader = u) =
    d.log.reads.filter fun r => r.reader = u

theorem SameBytes.extends {d d' : Data ι} (same : SameBytes d d') (t : ι) : Extends t d d' where
  stored u _ := by rw [same.stored]
  taken u _ := by rw [same.taken]
  writes u _ := by rw [same.writes]
  reads u _ := by rw [same.reads]

theorem writeLoop_extends (t : ι) (call : Write) (i : Nat) (killed : Bool)
    (d : Data ι) : Extends t d (writeLoop t call i killed d).2 := by
  have others : ∀ u (xs : List Nat), u ≠ t →
      bytesOf u (d.log.stored ++ xs.map fun k => (t, call.addr k)) = bytesOf u d.log.stored := by
    intro u xs ne
    rw [bytesOf_append, bytesOf_map, if_neg (Ne.symm ne), List.append_nil]
  simp only [writeLoop]
  split_ifs
  all_goals
    exact ⟨fun u ne => others u _ ne, fun _ _ => rfl, fun _ _ => rfl, fun _ _ => rfl⟩

theorem readLoop_extends (t : ι) (n : Int) (killed : Bool) (d : Data ι) :
    Extends t d (readLoop t n killed d).2 := by
  simp only [readLoop]
  split_ifs
  · exact (Untouched.refl d).sameBytes.extends t
  · exact (Untouched.refl d).sameBytes.extends t
  · refine ⟨fun _ _ => rfl, fun u ne => ?_, fun _ _ => rfl, fun _ _ => rfl⟩
    rw [bytesOf_append, bytesOf_map, if_neg (Ne.symm ne), List.append_nil]

theorem pipeCode_extends {t : ι} {p : PipePoint} {run : Bool → Data ι → Point ι × Data ι}
    (code : pipeCode t p = .act run) (killed : Bool) (d : Data ι) :
    Extends t d (run killed d).2 := by
  cases p with
  | writeLoop call i =>
    cases code
    exact writeLoop_extends t call i killed d
  | readLoop n =>
    cases code
    exact readLoop_extends t n killed d
  | writeReturn call i result =>
    cases code
    refine ⟨fun _ _ => rfl, fun _ _ => rfl, fun u ne => ?_, fun _ _ => rfl⟩
    simp [List.filter_append, Ne.symm ne]
  | readReturn got result =>
    cases code
    refine ⟨fun _ _ => rfl, fun _ _ => rfl, fun _ _ => rfl, fun u ne => ?_⟩
    simp [List.filter_append, Ne.symm ne]
  | close writable exits =>
    cases code
    simp only [fileclose]
    split_ifs
    all_goals
      exact ⟨fun _ _ => rfl, fun _ _ => rfl, fun _ _ => rfl, fun _ _ => rfl⟩
  | closeTest exits =>
    cases code
    simp only
    split_ifs
    all_goals
      exact (Untouched.refl d).sameBytes.extends t
  | closeFlag | dup | freePage =>
    cases code
    exact ⟨fun _ _ => rfl, fun _ _ => rfl, fun _ _ => rfl, fun _ _ => rfl⟩
  | _ => cases code

theorem Accounted.quiet {t u : ι} {q : Point ι} {d d' : Data ι}
    (ne : u ≠ t) (extended : Extends t d d') (accounted : Accounted u q d) : Accounted u q d' where
  written := by
    rw [extended.stored u ne, extended.writes u ne]
    exact accounted.written
  got := by
    rw [extended.taken u ne, extended.reads u ne]
    exact accounted.got
  sound := accounted.sound

/-- Every thread answers for its own bytes, whatever the others do. -/
theorem fifo_outline : Outline (program slots initproc) .pipe (fun p => p.held = some .pipe)
      (fun _ => True) Queued Accounted where
  locked := program_locked slots initproc .pipe
  sleeps _ _ _ _ _ _ := trivial
  steps t p := by
    rcases p.pipe_or with ⟨q, rfl⟩ | ⟨elsewhere, outside⟩
    · exact pipeCode_accounts t q
    · exact (code_aloof slots initproc t elsewhere).accounts outside
  quiet t p run killed d code _ _ u q ne _ accounted := by
    apply accounted.quiet ne
    rcases p.pipe_or with ⟨q, rfl⟩ | ⟨elsewhere, -⟩
    · exact pipeCode_extends code killed d
    · have aloof := code_aloof slots initproc t elsewhere
      rw [code] at aloof
      exact (aloof killed d).2.sameBytes.extends t

end Outline

/-! ## Runs -/

section Runs

variable [Fintype ι] {slots : List ι} {initproc : ι}
variable {s : Machine ι}

theorem Start.accounted (start : Start s) : Queued s.data ∧ ∀ t, Accounted t (s.pc t) s.data := by
  constructor
  · refine ⟨?_, ?_, ?_⟩
    · rw [start.quiet]
      exact RingBuffer.Fifo.start _ start.nread start.nwrite
    · simp [start.quiet]
    · simp [start.quiet]
  · intro t
    rw [start.user t]
    constructor
    case written => simp [start.quiet, bytesOf, Point.written]
    case got => simp [start.quiet, bytesOf, Point.got]
    case sound => trivial

/-- Pipes are lossless queues.  In every state reached, the counters are at
most `PIPESIZE` apart, as words; what the readers took, in that order, and then
what is buffered, is what the writers stored.  Each writer's bytes are those of
its calls in order, and a call that returned `n ≥ 0` has stored all its `n`
bytes; each reader's bytes are those its calls delivered. -/
theorem pipe_lossless (reached : Runs (program slots initproc) Start (fun _ _ => True) s) :
    s.data.pipe.used (2 ^ 32) ≤ PIPESIZE ∧
    s.data.log.taken.map Prod.snd ++ s.data.pipe.contents = s.data.log.stored.map Prod.snd ∧
    (∀ t, bytesOf t s.data.log.stored = (s.data.log.writes.filter fun w => w.writer = t).flatMap
        (fun w => w.call.first w.count) ++ (s.pc t).written) ∧
    (∀ w ∈ s.data.log.writes, 0 ≤ w.result → w.result = w.call.n ∧ (w.count : Int) = w.call.n) ∧
    (∀ t, bytesOf t s.data.log.taken = (s.data.log.reads.filter fun r => r.reader = t).flatMap
        (fun r => r.bytes) ++ (s.pc t).got) ∧
    ∀ r ∈ s.data.log.reads, r.result = r.bytes.length ∨ r.result = -1 ∧ r.bytes = [] := by
  obtain ⟨queued, accounted, -⟩ :=
    (fifo_outline slots initproc).asserted
      (fun s start => ⟨start.fresh .pipe, start.accounted⟩) reached
  refine ⟨?_, ?_, fun t => (accounted t).written, queued.writes,
    fun t => (accounted t).got, queued.reads⟩
  · rw [queued.ring.used_eq size_lt]
    have bounded := queued.ring.bounded
    omega
  · exact queued.ring.taken_append_buffered size_dvd size_lt

end Runs

/-- Thread 0 writes two bytes into its new pipe and reads one of them. -/
def writeThenRead : List (Fin 2 × Point (Fin 2)) :=
  [(0, .trap (.write ⟨fun i => if i = 0 then 7 else 9, 2⟩))] ++
    List.replicate 7 (0, .user) ++ [(0, .trap (.read 1))] ++
    List.replicate 7 (0, .user)

/-- After that run the other byte is buffered. -/
theorem pipe_lossless_write_read :
    ∃ s, Runs (program [0, (1 : Fin 2)] 1) Start (fun _ _ => True) s ∧
      s.data.log.stored = [(0, 7), (0, 9)] ∧
      s.data.pipe.contents = [9] := by
  have outcome : (writeThenRead.foldlM (step (program [0, 1] 1)) (made 2)).map
        (fun s => (s.data.log.stored, s.data.log.taken)) =
      some ([(0, 7), (0, 9)], [(0, 7)]) := by
    decide +kernel
  obtain ⟨s, run, facts⟩ := Option.map_eq_some_iff.mp outcome
  simp only [Prod.mk.injEq] at facts
  obtain ⟨stored, taken⟩ := facts
  have reached := Reach.foldlM (.start (made_start (by decide))) run
  obtain ⟨-, whole, -⟩ := pipe_lossless reached
  rw [stored, taken] at whole
  exact ⟨s, reached, stored, List.append_cancel_left whole⟩

end Xv6.Sleepers
