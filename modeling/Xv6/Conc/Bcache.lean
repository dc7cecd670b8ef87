/-
Purpose: The buffer cache of bio.c with the request queue of ide.c, used by
  any number of processes: every critical section of bcache.lock and every
  completion of the disk is one step.
-/
import Xv6.Lib.DoublyLinked
import Xv6.Lib.Run
import Xv6.Fs.Disk

namespace Xv6

open Function

/-- A buffer of the cache. -/
abbrev Buf := Fin Fs.NBUF

/-- A node of the list: `none` is `bcache.head`. -/
abbrev BufNode := Option Buf

/-- Where a process is.  `getting` is about to take `bcache.lock` in `bget` for
a sector of a device; `asleep` sleeps there on a buffer; `got` is back in
`bread`; `disk` is in the loop of `iderw`, asleep or about to look again. -/
inductive BufControl where
  | idle
  | getting (dev sector : Nat)
  | asleep (b : Buf) (dev sector : Nat)
  | got (b : Buf)
  | disk (b : Buf) (sleeping : Bool)
deriving DecidableEq

/-- The cache, the disk and the processes.  A buffer with `dev = none` has the
device number -1.  `touched`, `released` and `clock` are read by no code: a
caller has changed the data since the last transfer, when the buffer was last
released, and the number of releases so far. -/
structure Bcache (δ : Type) where
  links : Links BufNode
  dev : Buf → Option Nat
  sector : Buf → Nat
  busy : Buf → Bool
  valid : Buf → Bool
  dirty : Buf → Bool
  data : Buf → δ
  queue : List Buf
  disk : Nat → Nat → δ
  control : Nat → BufControl
  held : Nat → List Buf
  touched : Buf → Bool
  released : Buf → Nat
  clock : Nat

namespace Bcache

variable {δ : Type}

/-- The list that `binit` builds. -/
def initLinks : Links BufNode :=
  (List.finRange Fs.NBUF).foldl (fun links b => links.insertFront none (some b))
    { next := fun _ => none, prev := fun _ => none }

/-- After `binit`, with nobody using the cache. -/
structure Starts (s : Bcache δ) : Prop where
  links : s.links = initLinks
  dev : ∀ b, s.dev b = none
  busy : ∀ b, s.busy b = false
  valid : ∀ b, s.valid b = false
  dirty : ∀ b, s.dirty b = false
  queue : s.queue = []
  control : ∀ p, s.control p = .idle
  held : ∀ p, s.held p = []
  touched : ∀ b, s.touched b = false
  released : ∀ b, s.released b = 0
  clock : s.clock = 0

/-- Process `p` goes to `control`. -/
def goto (s : Bcache δ) (p : Nat) (control : BufControl) : Bcache δ :=
  { s with control := update s.control p control }

/-- The first loop of `bget`, from `head.next`. -/
def cached (s : Bcache δ) (dev sector : Nat) : Option Buf :=
  (Links.search s.links.next none (fun node => match node with
      | some b => s.dev b == some dev && s.sector b == sector
      | none => false)
    (Fs.NBUF + 1) (s.links.next none)).join

/-- The second loop of `bget`, from `head.prev`: the buffer to recycle. -/
def victim (s : Bcache δ) : Option Buf :=
  (Links.search s.links.prev none (fun node => match node with
      | some b => !s.busy b
      | none => false)
    (Fs.NBUF + 1) (s.links.prev none)).join

/-- The critical section of `bget`; `none` is the panic. -/
def bget (s : Bcache δ) (p dev sector : Nat) : Option (Bcache δ) :=
  match s.cached dev sector with
  | some b =>
    if s.busy b then
      some (s.goto p (.asleep b dev sector))
    else
      some { s.goto p (.got b) with
        busy := update s.busy b true
        held := update s.held p (b :: s.held p) }
  | none =>
    match s.victim with
    | some b =>
      some { s.goto p (.got b) with
        dev := update s.dev b (some dev)
        sector := update s.sector b sector
        busy := update s.busy b true
        valid := update s.valid b false
        dirty := update s.dirty b false
        held := update s.held p (b :: s.held p) }
    | none => none

/-- `iderw` up to its first `sleep`; `none` is a panic. -/
def iderw (havedisk1 : Bool) (s : Bcache δ) (p : Nat) (b : Buf) : Option (Bcache δ) :=
  if s.busy b = false ∨ s.valid b = true ∧ s.dirty b = false ∨
      s.dev b ≠ some 0 ∧ havedisk1 = false then
    none
  else
    some { s.goto p (.disk b true) with queue := s.queue ++ [b] }

/-- `wakeup(b)`. -/
def wakeup (s : Bcache δ) (b : Buf) : Bcache δ :=
  { s with
    control := fun p =>
      match s.control p with
      | .asleep c dev sector =>
        if c = b then .getting dev sector else .asleep c dev sector
      | .disk c true => if c = b then .disk c false else .disk c true
      | control => control }

/-- What `idestart` writes to the registers of the controller: one bit of the
device number and 28 bits of the sector number. -/
def idestart (dev sector : Nat) : Nat × Nat :=
  (dev % 2, sector % 2 ^ 28)

/-- `ideintr` for the first request of the queue: the disk has moved the sector
that `idestart` asked for. -/
def ideintr (s : Bcache δ) : Option (Bcache δ) :=
  match s.queue with
  | [] => none
  | b :: rest =>
    match s.dev b with
    | none => none
    | some dev =>
      let (drive, block) := idestart dev (s.sector b)
      some (wakeup
        { s with
          queue := rest
          data := if s.dirty b then s.data
            else update s.data b (s.disk drive block)
          disk := if s.dirty b then
              update s.disk drive (update (s.disk drive) block (s.data b))
            else s.disk
          valid := update s.valid b true
          dirty := update s.dirty b false
          touched := update s.touched b false } b)

/-- `brelse`; `none` is the panic. -/
def brelse (s : Bcache δ) (p : Nat) (b : Buf) : Option (Bcache δ) :=
  if s.busy b then
    some (wakeup
      { s with
        links := (s.links.unlink (some b)).insertFront none (some b)
        busy := update s.busy b false
        held := update s.held p ((s.held p).erase b)
        released := update s.released b (s.clock + 1)
        clock := s.clock + 1 } b)
  else
    none

/-- What may happen. -/
inductive Move (δ : Type) where
  | bread (p dev sector : Nat)
  | bget (p : Nat)
  | check (p : Nat)
  | look (p : Nat)
  | store (p : Nat) (b : Buf) (data : δ)
  | bwrite (p : Nat) (b : Buf)
  | brelse (p : Nat) (b : Buf)
  | ideintr

/-- Process `p` is outside the cache and holds `b`. -/
def Owns (s : Bcache δ) (p : Nat) (b : Buf) : Prop :=
  s.control p = .idle ∧ b ∈ s.held p

instance (s : Bcache δ) (p : Nat) (b : Buf) : Decidable (s.Owns p b) :=
  inferInstanceAs (Decidable (_ ∧ _))

/-- One step, if it is possible.  Callers change, write and release only
buffers they hold, and write what they changed before they release it. -/
def step (havedisk1 : Bool) (s : Bcache δ) : Move δ → Option (Bcache δ)
  | .bread p dev sector =>
    if s.control p = .idle then some (s.goto p (.getting dev sector))
    else none
  | .bget p =>
    match s.control p with
    | .getting dev sector => s.bget p dev sector
    | _ => none
  | .check p =>
    match s.control p with
    | .got b =>
      if s.valid b then some (s.goto p .idle) else iderw havedisk1 s p b
    | _ => none
  | .look p =>
    match s.control p with
    | .disk b false =>
      if s.valid b = true ∧ s.dirty b = false then some (s.goto p .idle)
      else some (s.goto p (.disk b true))
    | _ => none
  | .store p b data =>
    if s.Owns p b then
      some { s with
        data := update s.data b data
        touched := update s.touched b true }
    else
      none
  | .bwrite p b =>
    if s.Owns p b then
      if s.busy b then
        iderw havedisk1
          { s with dirty := update s.dirty b true } p b
      else
        none
    else
      none
  | .brelse p b =>
    if s.Owns p b ∧ s.touched b = false then s.brelse p b else none
  | .ideintr => s.ideintr

/-- The states of all runs. -/
abbrev Reaches (havedisk1 : Bool) : Bcache δ → Prop :=
  Reach Starts (fun s move t => step havedisk1 s move = some t) (fun _ _ => True)

end Bcache

end Xv6
