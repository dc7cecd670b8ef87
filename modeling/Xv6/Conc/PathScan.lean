/-
Purpose: String arguments of system calls: fetchstr checks a path where it
  lies in user memory, and skipelem, namex and exec read it there again, while
  other threads of the address space go on storing.
-/
import Xv6.Fs.Disk

namespace Xv6.PathScan

variable {a i sz addr : Nat}

/-! ## Memory that changes between reads -/

/-- User memory when the call starts, and what the other threads store before
each byte that the kernel reads. -/
structure Siblings where
  start : Bytes.Store
  stores : Nat → List (Nat × UInt8)

/-- One store after the other. -/
def storeAll (memory : Bytes.Store) (stores : List (Nat × UInt8)) : Bytes.Store :=
  stores.foldl (fun memory store => Function.update memory store.1 store.2) memory

/-- User memory at the kernel's read number `t`. -/
def Siblings.memory (u : Siblings) : Nat → Bytes.Store
  | 0 => storeAll u.start (u.stores 0)
  | t + 1 => storeAll (u.memory t) (u.stores (t + 1))

/-- The number of reads made, and which string and address each was for, the
latest first. -/
structure Reads where
  time : Nat
  seen : List (Nat × Nat)
deriving DecidableEq

/-- Kernel code that reads user strings.  A scan that has not come to its end
gives no value, and the reads made so far are kept. -/
abbrev ScanM := OptionT (StateM Reads)

variable (u : Siblings) (arg : Nat)

/-- Read one byte of string number `arg`. -/
def peek (a : Nat) : ScanM UInt8 := OptionT.mk fun r =>
  (some (u.memory r.time a), { time := r.time + 1, seen := (arg, a) :: r.seen })

/-- A scan that is not over. -/
def unfinished {α : Type} : ScanM α := OptionT.mk fun r => (none, r)

/-! ## The check -/

/-- The loop of `fetchstr`, `left` bytes before the end of the process. -/
def fetchLoop : Nat → Nat → ScanM (Option Nat)
  | 0, _ => pure none
  | left + 1, s => do
      if (← peek u arg s) = 0 then pure (some s) else fetchLoop left (s + 1)

/-- `fetchstr`: the address of the NUL, or `none` for the return value -1. -/
def fetchstr (sz addr : Nat) : ScanM (Option Nat) :=
  if sz ≤ addr then pure none else fetchLoop u arg (sz - addr) addr

/-- A string that passed the check, and the number of reads made by then. -/
structure PathArg where
  addr : Nat
  nul : Nat
  time : Nat

/-- The calls of `argstr` at the start of a system call, from string `i` on. -/
def argstrs (sz : Nat) : Nat → List Nat → ScanM (Option (List PathArg))
  | _, [] => pure (some [])
  | i, addr :: rest => do
      match ← fetchstr u i sz addr with
      | none => pure none
      | some nul => do
          let r ← get
          match ← argstrs sz (i + 1) rest with
          | none => pure none
          | some more => pure (some (⟨addr, nul, r.time⟩ :: more))

/-! ## The uses -/

/-- Code of `/`. -/
def slash : UInt8 := 47

/-- `while(*path == '/') path++;` -/
def skipSlashes : Nat → Nat → ScanM Nat
  | 0, _ => unfinished
  | fuel + 1, path => do
      if (← peek u arg path) = slash then skipSlashes fuel (u32 (path + 1))
      else pure path

/-- `while(*path != '/' && *path != 0) path++;`, which reads the byte twice. -/
def skipName : Nat → Nat → ScanM Nat
  | 0, _ => unfinished
  | fuel + 1, path => do
      if (← peek u arg path) = slash then
        pure path
      else if (← peek u arg path) = 0 then
        pure path
      else
        skipName fuel (u32 (path + 1))

/-- The reads of `memmove(name, s, n)`. -/
def copyName : Nat → Nat → ScanM Unit
  | 0, _ => pure ()
  | n + 1, s => do
      let _ ← peek u arg s
      copyName n (u32 (s + 1))

/-- `skipelem`; the inner `none` is the null pointer. -/
def skipelem (fuel path : Nat) : ScanM (Option Nat) := do
  let s ← skipSlashes u arg fuel path
  if (← peek u arg s) = 0 then
    pure none
  else do
    let stop ← skipName u arg fuel s
    copyName u arg (min (stop - s) Fs.DIRSIZ) s
    let next ← skipSlashes u arg fuel stop
    pure (some next)

/-- What the file system answers in one round of `namex`: the inode is a
directory, and it has an entry of the name. -/
structure Lookup where
  isDir : Bool
  found : Bool

/-- The loop of `namex`, one round for each answer of the file system.  Gives
whether an inode is returned. -/
def namexLoop (parent : Bool) (fuel : Nat) : Nat → List Lookup → ScanM Bool
  | _, [] => unfinished
  | path, answer :: rest => do
      match ← skipelem u arg fuel path with
      | none => pure (!parent)
      | some next =>
        if answer.isDir = false then
          pure false
        else if parent = true then do
          if (← peek u arg next) = 0 then
            pure true
          else if answer.found then
            namexLoop parent fuel next rest
          else
            pure false
        else if answer.found then
          namexLoop parent fuel next rest
        else
          pure false

/-- `namex`. -/
def namex (parent : Bool) (fuel path : Nat) (answers : List Lookup) : ScanM Bool := do
  let _ ← peek u arg path
  namexLoop u arg parent fuel path answers

/-- `for(last=s=path; *s; s++) if(*s == '/') last = s+1;` -/
def lastElem : Nat → Nat → Nat → ScanM Nat
  | 0, _, _ => unfinished
  | fuel + 1, last, s => do
      if (← peek u arg s) = 0 then
        pure last
      else if (← peek u arg s) = slash then
        lastElem fuel (u32 (s + 1)) (u32 (s + 1))
      else
        lastElem fuel last (u32 (s + 1))

/-- The reads of `safestrcpy` with room for `n` bytes and the NUL. -/
def safestrcpy : Nat → Nat → ScanM Unit
  | 0, _ => pure ()
  | n + 1, t => do
      if (← peek u arg t) = 0 then pure () else safestrcpy n (u32 (t + 1))

/-- What a system call does with a path. -/
inductive PathUse where
  | namei
  | nameiparent
  /-- `exec`, and whether the image could be loaded. -/
  | exec (loaded : Bool)
deriving DecidableEq

/-- One use of a path; gives whether the call goes on. -/
def PathUse.run (use : PathUse) (fuel path : Nat) (answers : List Lookup) : ScanM Bool :=
  match use with
  | .namei => namex u arg false fuel path answers
  | .nameiparent => namex u arg true fuel path answers
  | .exec loaded => do
      if ← namex u arg false fuel path answers then
        if loaded = true then do
          let last ← lastElem u arg fuel path path
          safestrcpy u arg 15 last
          pure true
        else
          pure false
      else
        pure false

/-- The system calls that take paths. -/
inductive PathCall where
  | link
  | unlink
  | open (create : Bool)
  | mkdir
  | mknod
  | chdir
  | exec (loaded : Bool)
deriving DecidableEq

/-- The strings a call uses, in order. -/
def PathCall.uses : PathCall → List (Nat × PathUse)
  | .link => [(0, .namei), (1, .nameiparent)]
  | .unlink => [(0, .nameiparent)]
  | .open create => [(0, if create then .nameiparent else .namei)]
  | .mkdir => [(0, .nameiparent)]
  | .mknod => [(0, .nameiparent)]
  | .chdir => [(0, .namei)]
  | .exec loaded => [(0, .exec loaded)]

/-- The uses of the checked strings; `answers` are those of the file system to
each. -/
def runUses (fuel : Nat) (args : List PathArg) (answers : Nat → List Lookup) :
    List (Nat × PathUse) → ScanM Unit
  | [] => pure ()
  | (i, use) :: rest =>
    match args[i]? with
    | none => pure ()
    | some arg => do
        if ← use.run u i fuel arg.addr (answers i) then
          runUses fuel args answers rest
        else
          pure ()

/-! ## Scans that stay inside -/

section Rules

variable {α β : Type} {since : Nat} {inside : Nat × Nat → Prop}
variable {Q P : α → Prop}

/-- Started at read `since` or later, the program reads only what is `inside`,
and a value it gives is in `Q`. -/
def Stays (since : Nat) (inside : Nat × Nat → Prop) (program : ScanM α) (Q : α → Prop) : Prop :=
  ∀ r : Reads, since ≤ r.time → (∀ read ∈ r.seen, inside read) → since ≤ (program.run r).2.time ∧
      (∀ read ∈ (program.run r).2.seen, inside read) ∧
      ∀ a, (program.run r).1 = some a → Q a

theorem Stays.pure {a : α} (holds : Q a) : Stays since inside (pure a) Q := by
  intro r later seen
  refine ⟨later, seen, ?_⟩
  intro b same
  cases same
  exact holds

theorem Stays.unfinished : Stays since inside unfinished Q := by
  intro r later seen
  exact ⟨later, seen, nofun⟩

theorem run_bind (first : ScanM α) (next : α → ScanM β) (r : Reads) : (first >>= next).run r =
      match first.run r with
      | (some a, after) => (next a).run after
      | (none, after) => (none, after) := by
  simp only [bind, OptionT.bind, OptionT.mk, OptionT.run, StateT.bind]
  cases first r with
  | mk value after =>
    cases value with
    | none => rfl
    | some a => rfl

theorem Stays.bind {Q : β → Prop} {first : ScanM α}
    {next : α → ScanM β} (one : Stays since inside first P)
    (two : ∀ a, P a → Stays since inside (next a) Q) : Stays since inside (first >>= next) Q := by
  intro r later seen
  obtain ⟨time, reads, value⟩ := one r later seen
  rw [run_bind]
  cases outcome : first.run r with
  | mk result after =>
    rw [outcome] at time reads value
    cases result with
    | none => exact ⟨time, reads, nofun⟩
    | some a => exact two a (value a rfl) after time reads

theorem Stays.ite {condition : Prop} [Decidable condition]
    {yes no : ScanM α} (one : condition → Stays since inside yes Q)
    (two : ¬ condition → Stays since inside no Q) :
    Stays since inside (if condition then yes else no) Q := by
  by_cases holds : condition
  · rw [if_pos holds]
    exact one holds
  · rw [if_neg holds]
    exact two holds

theorem Stays.imp {program : ScanM α}
    (stays : Stays since inside program P) (weaker : ∀ a, P a → Q a) :
    Stays since inside program Q := by
  intro r later seen
  obtain ⟨time, reads, value⟩ := stays r later seen
  exact ⟨time, reads, fun a same => weaker a (value a same)⟩

variable {u arg}

theorem Stays.peek {a : Nat} (reads : inside (arg, a)) : Stays since inside (peek u arg a)
      (fun byte => ∃ t, since ≤ t ∧ byte = u.memory t a) := by
  intro r later seen
  refine ⟨Nat.le_succ_of_le later, ?_, ?_⟩
  · intro read mem
    rcases List.mem_cons.mp mem with rfl | old
    · exact reads
    · exact seen read old
  · intro byte same
    cases same
    exact ⟨r.time, later, rfl⟩

end Rules

/-! ## A string whose NUL stays -/

section Kept

variable {u : Siblings} {arg since lo nul : Nat} {inside : Nat × Nat → Prop}
variable {path t s : Nat}

/-- String `arg` runs from `lo` to its NUL, which nobody has removed since
read `since`. -/
structure Intact (u : Siblings) (arg since lo nul : Nat) (inside : Nat × Nat → Prop) : Prop where
  covers : ∀ a, lo ≤ a → a ≤ nul → inside (arg, a)
  zero : ∀ t, since ≤ t → u.memory t nul = 0
  small : nul < 2 ^ 32

variable (intact : Intact u arg since lo nul inside)
include intact

theorem Intact.advance (low : lo ≤ path) (high : path ≤ nul)
    (later : since ≤ t) (more : u.memory t path ≠ 0) :
    lo ≤ u32 (path + 1) ∧ u32 (path + 1) ≤ nul ∧ path ≤ u32 (path + 1) := by
  have other : path ≠ nul := by
    rintro rfl
    exact more (intact.zero t later)
  have small := intact.small
  have next : u32 (path + 1) = path + 1 := Nat.mod_eq_of_lt (by omega)
  omega

theorem Intact.skipSlashes (fuel : Nat) (low : lo ≤ path) (high : path ≤ nul) :
    Stays since inside (skipSlashes u arg fuel path) (fun stop => lo ≤ stop ∧ stop ≤ nul) := by
  induction fuel generalizing path with
  | zero => exact .unfinished
  | succ fuel ih =>
    refine .bind (.peek (intact.covers path low high)) ?_
    rintro byte ⟨t, later, rfl⟩
    refine .ite (fun isSlash => ?_) fun _ => .pure ⟨low, high⟩
    have more : u.memory t path ≠ 0 := by
      rw [isSlash]
      decide
    obtain ⟨low', high', -⟩ := intact.advance low high later more
    exact ih low' high'

theorem Intact.skipName (fuel : Nat) (low : lo ≤ path) (high : path ≤ nul) :
    Stays since inside (skipName u arg fuel path) (fun stop => path ≤ stop ∧ stop ≤ nul) := by
  induction fuel generalizing path with
  | zero => exact .unfinished
  | succ fuel ih =>
    refine .bind (.peek (intact.covers path low high)) fun _ _ => ?_
    refine .ite (fun _ => .pure ⟨le_refl path, high⟩) fun _ => ?_
    refine .bind (.peek (intact.covers path low high)) ?_
    rintro byte ⟨t, later, rfl⟩
    refine .ite (fun _ => .pure ⟨le_refl path, high⟩) fun more => ?_
    obtain ⟨low', high', onward⟩ := intact.advance low high later more
    refine (ih low' high').imp ?_
    rintro stop ⟨above, below⟩
    exact ⟨le_trans onward above, below⟩

theorem Intact.copyName (n : Nat) (low : lo ≤ s) (high : s + n ≤ nul + 1) :
    Stays since inside (copyName u arg n s) (fun _ => True) := by
  induction n generalizing s with
  | zero => exact .pure trivial
  | succ n ih =>
    refine .bind (.peek (intact.covers s low (by omega))) fun _ _ => ?_
    cases n with
    | zero => exact .pure trivial
    | succ n =>
      have small := intact.small
      have next : u32 (s + 1) = s + 1 := Nat.mod_eq_of_lt (by omega)
      exact ih (by omega) (by omega)

theorem Intact.skipelem (fuel : Nat) (low : lo ≤ path) (high : path ≤ nul) :
    Stays since inside (skipelem u arg fuel path)
      (fun next => ∀ p, next = some p → lo ≤ p ∧ p ≤ nul) := by
  refine .bind (intact.skipSlashes fuel low high) ?_
  rintro s ⟨lowS, highS⟩
  refine .bind (.peek (intact.covers s lowS highS)) fun _ _ => ?_
  refine .ite (fun _ => .pure nofun) fun _ => ?_
  refine .bind (intact.skipName fuel lowS highS) ?_
  rintro stop ⟨above, below⟩
  refine .bind (intact.copyName _ lowS (by omega)) fun _ _ => ?_
  refine .bind (intact.skipSlashes fuel (le_trans lowS above) below) ?_
  rintro next ⟨lowN, highN⟩
  refine .pure ?_
  intro p same
  cases same
  exact ⟨lowN, highN⟩

theorem Intact.namexLoop (parent : Bool) (fuel : Nat) (answers : List Lookup) (low : lo ≤ path)
    (high : path ≤ nul) :
    Stays since inside (namexLoop u arg parent fuel path answers) (fun _ => True) := by
  induction answers generalizing path with
  | nil => exact .unfinished
  | cons answer rest ih =>
    refine .bind (intact.skipelem fuel low high) ?_
    intro next bounds
    cases next with
    | none => exact .pure trivial
    | some p =>
      obtain ⟨lowP, highP⟩ := bounds p rfl
      have onward := ih lowP highP
      refine .ite (fun _ => .pure trivial) fun _ => .ite (fun _ => ?_) ?_
      · refine .bind (.peek (intact.covers p lowP highP)) fun _ _ => ?_
        exact .ite (fun _ => .pure trivial) fun _ =>
          .ite (fun _ => onward) fun _ => .pure trivial
      · intro _
        exact .ite (fun _ => onward) fun _ => .pure trivial

theorem Intact.namex (parent : Bool) (fuel : Nat) (answers : List Lookup)
    (low : lo ≤ path) (high : path ≤ nul) :
    Stays since inside (namex u arg parent fuel path answers) (fun _ => True) :=
  .bind (.peek (intact.covers path low high)) fun _ _ =>
    intact.namexLoop parent fuel answers low high

theorem Intact.lastElem (fuel : Nat) {last : Nat} (lowLast : lo ≤ last)
    (highLast : last ≤ nul) (low : lo ≤ s) (high : s ≤ nul) :
    Stays since inside (lastElem u arg fuel last s) (fun stop => lo ≤ stop ∧ stop ≤ nul) := by
  induction fuel generalizing last s with
  | zero => exact .unfinished
  | succ fuel ih =>
    refine .bind (.peek (intact.covers s low high)) ?_
    rintro byte ⟨t, later, rfl⟩
    refine .ite (fun _ => .pure ⟨lowLast, highLast⟩) fun more => ?_
    obtain ⟨low', high', -⟩ := intact.advance low high later more
    refine .bind (.peek (intact.covers s low high)) fun _ _ => ?_
    exact .ite (fun _ => ih low' high' low' high') fun _ => ih lowLast highLast low' high'

theorem Intact.safestrcpy (n : Nat) (low : lo ≤ t) (high : t ≤ nul) :
    Stays since inside (safestrcpy u arg n t) (fun _ => True) := by
  induction n generalizing t with
  | zero => exact .pure trivial
  | succ n ih =>
    refine .bind (.peek (intact.covers t low high)) ?_
    rintro byte ⟨time, later, rfl⟩
    refine .ite (fun _ => .pure trivial) fun more => ?_
    obtain ⟨low', high', -⟩ := intact.advance low high later more
    exact ih low' high'

theorem Intact.use (use : PathUse) (fuel : Nat) (answers : List Lookup) (some : lo ≤ nul) :
    Stays since inside (use.run u arg fuel lo answers) (fun _ => True) := by
  cases use with
  | namei => exact intact.namex false fuel answers (le_refl lo) some
  | nameiparent => exact intact.namex true fuel answers (le_refl lo) some
  | exec loaded =>
    refine .bind (intact.namex false fuel answers (le_refl lo) some) fun _ _ => ?_
    refine .ite (fun _ => .ite (fun _ => ?_) fun _ => .pure trivial) fun _ => .pure trivial
    refine .bind (intact.lastElem fuel (le_refl lo) some (le_refl lo) some) ?_
    rintro last ⟨low, high⟩
    exact .bind (intact.safestrcpy 15 low high) fun _ _ => .pure trivial

end Kept

/-! ## What the check establishes -/

theorem storeAll_zero {memory : Bytes.Store} {stores : List (Nat × UInt8)} (zero : memory a = 0)
    (kept : ∀ store ∈ stores, store.1 = a → store.2 = 0) : storeAll memory stores a = 0 := by
  induction stores generalizing memory with
  | nil => exact zero
  | cons store rest ih =>
    refine ih ?_ fun other mem =>
      kept other (List.mem_cons_of_mem store mem)
    change Function.update memory store.1 store.2 a = 0
    by_cases here : a = store.1
    · subst here
      rw [Function.update_self]
      exact kept store List.mem_cons_self rfl
    · rw [Function.update_of_ne here]
      exact zero

theorem Siblings.memory_zero {u : Siblings} {t₀ : Nat} (zero : u.memory t₀ a = 0)
    (kept : ∀ t, t₀ < t → ∀ store ∈ u.stores t, store.1 = a → store.2 = 0)
    (t : Nat) (later : t₀ ≤ t) : u.memory t a = 0 := by
  induction t, later using Nat.le_induction with
  | base => exact zero
  | succ t later ih =>
    exact storeAll_zero ih (kept (t + 1) (by omega))

/-- A string that passed: it ends before the end of the process, at a byte that
was zero when it was read. -/
structure Passed (u : Siblings) (sz : Nat) (arg : PathArg) : Prop where
  order : arg.addr ≤ arg.nul
  below : arg.nul < sz
  zero : ∃ t, t + 1 = arg.time ∧ u.memory t arg.nul = 0

variable {u} {nul : Nat} {r after : Reads}

theorem fetchLoop_some {arg s left : Nat}
    (run : (fetchLoop u arg left s).run r = (some (some nul), after)) :
    s ≤ nul ∧ nul < s + left ∧ r.time < after.time ∧
      (∃ t, t + 1 = after.time ∧ u.memory t nul = 0) ∧
      ∀ read ∈ after.seen, read ∈ r.seen ∨ read.1 = arg ∧ s ≤ read.2 ∧ read.2 ≤ nul := by
  induction left generalizing s r with
  | zero => cases run
  | succ left ih =>
    rw [fetchLoop, run_bind] at run
    simp only [peek, OptionT.run, OptionT.mk] at run
    split at run
    · rename_i zero
      cases run
      refine ⟨le_refl _, by omega, by simp, ⟨r.time, rfl, zero⟩, ?_⟩
      intro read mem
      rcases List.mem_cons.mp mem with rfl | old
      · exact .inr ⟨rfl, le_refl _, le_refl _⟩
      · exact .inl old
    · obtain ⟨above, below, later, found, reads⟩ := ih run
      refine ⟨by omega, by omega, by simp at later; omega, found, ?_⟩
      intro read mem
      rcases reads read mem with old | new
      · rcases List.mem_cons.mp old with rfl | older
        · exact .inr ⟨rfl, le_refl s, by omega⟩
        · exact .inl older
      · exact .inr ⟨new.1, by omega, new.2.2⟩

theorem fetchstr_some (run : (fetchstr u i sz addr).run r = (some (some nul), after)) :
    Passed u sz ⟨addr, nul, after.time⟩ ∧ r.time < after.time ∧ ∀ read ∈ after.seen, read ∈ r.seen ∨
        read.1 = i ∧ addr ≤ read.2 ∧ read.2 ≤ nul := by
  unfold fetchstr at run
  split at run
  · cases run
  · obtain ⟨above, below, later, found, reads⟩ := fetchLoop_some run
    exact ⟨⟨above, show nul < sz by omega, found⟩, later, reads⟩

/-- All strings of a call have passed: `args` are those from number `i` on. -/
structure AllPassed (u : Siblings) (sz i : Nat) (args : List PathArg) (r after : Reads) : Prop where
  time : r.time ≤ after.time
  passed : ∀ arg ∈ args, Passed u sz arg ∧ arg.time ≤ after.time
  reads : ∀ read ∈ after.seen, read ∈ r.seen ∨ i ≤ read.1 ∧
    ∃ arg, args[read.1 - i]? = some arg ∧ arg.addr ≤ read.2 ∧ read.2 ≤ arg.nul

theorem argstrs_cons {more : List PathArg} {middle : Reads}
    (passed : Passed u sz ⟨addr, nul, middle.time⟩) (later : r.time < middle.time)
    (reads : ∀ read ∈ middle.seen, read ∈ r.seen ∨ read.1 = i ∧ addr ≤ read.2 ∧ read.2 ≤ nul)
    (rest : AllPassed u sz (i + 1) more middle after) :
    AllPassed u sz i (⟨addr, nul, middle.time⟩ :: more) r after := by
  refine ⟨le_trans (le_of_lt later) rest.time, ?_, ?_⟩
  · intro arg mem
    rcases List.mem_cons.mp mem with rfl | tail
    · exact ⟨passed, rest.time⟩
    · exact rest.passed arg tail
  · intro read mem
    rcases rest.reads read mem with before | ⟨above, arg, found, bounds⟩
    · rcases reads read before with old | ⟨here, bounds⟩
      · exact .inl old
      · refine .inr ⟨by omega, ⟨addr, nul, middle.time⟩, ?_, bounds⟩
        rw [here, Nat.sub_self]
        rfl
    · refine .inr ⟨by omega, arg, ?_, bounds⟩
      have index : read.1 - i = read.1 - (i + 1) + 1 := by omega
      rw [index, List.getElem?_cons_succ]
      exact found

variable {args : List PathArg}

theorem argstrs_some {addrs : List Nat}
    (run : (argstrs u sz i addrs).run r = (some (some args), after)) :
    AllPassed u sz i args r after := by
  induction addrs generalizing i r args with
  | nil =>
    cases run
    exact ⟨le_refl _, nofun, fun read mem => .inl mem⟩
  | cons addr rest ih =>
    rw [argstrs, run_bind] at run
    cases first : (fetchstr u i sz addr).run r with
    | mk result middle =>
      rw [first] at run
      cases result with
      | none => cases run
      | some found =>
        cases found with
        | none => cases run
        | some nul =>
          obtain ⟨passed, later, reads⟩ := fetchstr_some first
          have rest_run : (argstrs u sz (i + 1) rest >>= fun more => match more with
                | none => pure none
                | some more =>
                  pure (some (⟨addr, nul, middle.time⟩ :: more))
              : ScanM (Option (List PathArg))).run middle =
              (some (some args), after) := run
          rw [run_bind] at rest_run
          cases second : (argstrs u sz (i + 1) rest).run middle with
          | mk result last =>
            rw [second] at rest_run
            rcases result with _ | _ | more
            · cases rest_run
            · cases rest_run
            · cases rest_run
              exact argstrs_cons passed later reads (ih second)

/-! ## Whole calls -/

/-- The byte of the read lies in the string it was for. -/
def Within (args : List PathArg) (read : Nat × Nat) : Prop :=
  ∃ arg, args[read.1]? = some arg ∧ arg.addr ≤ read.2 ∧ read.2 ≤ arg.nul

/-- From its check on nobody stores anything but zero over the NUL of a
string. -/
def NulKept (u : Siblings) (args : List PathArg) : Prop :=
  ∀ arg ∈ args, ∀ t, arg.time ≤ t → ∀ store ∈ u.stores t, store.1 = arg.nul → store.2 = 0

theorem Passed.intact {since : Nat} {arg : PathArg} (passed : Passed u sz arg) (uint : sz < 2 ^ 32)
    (here : args[i]? = some arg) (kept : NulKept u args) (later : arg.time ≤ since) :
    Intact u i since arg.addr arg.nul (Within args) := by
  obtain ⟨t, time, zero⟩ := passed.zero
  refine ⟨fun a low high => ⟨arg, here, low, high⟩, ?_, lt_trans passed.below uint⟩
  intro t' since_le
  refine Siblings.memory_zero zero ?_ t' (by omega)
  intro t'' after
  exact kept arg (List.mem_of_getElem? here) t'' (by omega)

theorem runUses_stays {since fuel : Nat} (uint : sz < 2 ^ 32) (kept : NulKept u args)
    (passed : ∀ arg ∈ args, Passed u sz arg ∧ arg.time ≤ since)
    (answers : Nat → List Lookup) (uses : List (Nat × PathUse)) :
    Stays since (Within args) (runUses u fuel args answers uses) (fun _ => True) := by
  induction uses with
  | nil => exact .pure trivial
  | cons head rest ih =>
    obtain ⟨i, use⟩ := head
    unfold runUses
    cases here : args[i]? with
    | none => exact .pure trivial
    | some arg =>
      obtain ⟨ok, later⟩ := passed arg (List.mem_of_getElem? here)
      have intact := ok.intact uint here kept later
      exact .bind (intact.use use fuel (answers i) ok.order) fun _ _ =>
        .ite (fun _ => ih) fun _ => .pure trivial

/-- While nobody removes the NUL of a checked string, the call reads only
bytes of that string, below the end of the process. -/
theorem path_confined {u : Siblings} {sz fuel : Nat} (call : PathCall)
    {addrs : List Nat} (answers : Nat → List Lookup) {args : List PathArg}
    {r : Reads} (uint : sz < 2 ^ 32)
    (checked : (argstrs u sz 0 addrs).run ⟨0, []⟩ = (some (some args), r)) (kept : NulKept u args) :
    ∀ read ∈ ((runUses u fuel args answers call.uses).run r).2.seen,
      ∃ arg, args[read.1]? = some arg ∧ arg.addr ≤ read.2 ∧ read.2 ≤ arg.nul ∧ read.2 < sz := by
  have all := argstrs_some checked
  have before : ∀ read ∈ r.seen, Within args read := by
    intro read mem
    rcases all.reads read mem with old | ⟨-, inside⟩
    · cases old
    · exact inside
  obtain ⟨-, reads, -⟩ := runUses_stays uint kept all.passed answers call.uses r (le_refl _) before
  intro read mem
  obtain ⟨arg, here, low, high⟩ := reads read mem
  have below := (all.passed arg (List.mem_of_getElem? here)).1.below
  exact ⟨arg, here, low, high, lt_of_le_of_lt high below⟩

/-- The string at 4 is one letter and its NUL; another thread changes the
letter after the check. -/
def calm : Siblings where
  start := fun a => if a = 5 then 0 else 97
  stores := fun t => if t = 3 then [(4, 98)] else []

theorem calm_confined : (argstrs calm 8 0 [4]).run ⟨0, []⟩ =
        (some (some [⟨4, 5, 2⟩]), ⟨2, [(0, 5), (0, 4)]⟩) ∧
    ∀ read ∈ ((runUses calm 9 [⟨4, 5, 2⟩] (fun _ => [⟨true, true⟩])
        PathCall.unlink.uses).run ⟨2, [(0, 5), (0, 4)]⟩).2.seen,
      ∃ arg, ([⟨4, 5, 2⟩] : List PathArg)[read.1]? = some arg ∧
        arg.addr ≤ read.2 ∧ read.2 ≤ arg.nul ∧ read.2 < 8 := by
  have checked : (argstrs calm 8 0 [4]).run ⟨0, []⟩ =
      (some (some [⟨4, 5, 2⟩]), ⟨2, [(0, 5), (0, 4)]⟩) := rfl
  refine ⟨checked, path_confined .unlink _ (by decide) checked ?_⟩
  intro arg mem t _ store stored here
  cases List.mem_singleton.mp mem
  simp only [calm] at stored
  split at stored
  · cases List.mem_singleton.mp stored
    exact absurd here (by decide)
  · cases stored

/-- The same string, at the end of the process; another thread stores a letter
over its NUL after the check. -/
def hostile : Siblings where
  start := fun a => if a = 5 then 0 else 97
  stores := fun t => if t = 2 then [(5, 97)] else []

/-- `unlink` then reads beyond the NUL and beyond the process. -/
theorem hostile_unconfined : (argstrs hostile 6 0 [4]).run ⟨0, []⟩ =
        (some (some [⟨4, 5, 2⟩]), ⟨2, [(0, 5), (0, 4)]⟩) ∧
      (0, 6) ∈ ((runUses hostile 9 [⟨4, 5, 2⟩] (fun _ => [⟨true, true⟩])
        PathCall.unlink.uses).run ⟨2, [(0, 5), (0, 4)]⟩).2.seen :=
  ⟨rfl, by decide +kernel⟩

end Xv6.PathScan
