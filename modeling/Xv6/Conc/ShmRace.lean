/-
Purpose: `shmgetat` and `shm_release` of one key as the separate steps they
  consist of, taken by processes with address spaces of their own; the
  `shm_lock` calls of the source are commented out.
-/
import Xv6.Kernel.Vm
import Xv6.Lib.Run

namespace Xv6

open Function RefTable

/-! ## The table entry of a key -/

namespace SharedMem

/-- The frames recorded for the key. -/
def frames (entry : SharedMem) : List Nat :=
  (List.range entry.numPages).map entry.physAddr

/-- The stores of `shm_add`. -/
def add (entry : SharedMem) (pages : List Nat) : SharedMem where
  count := 1
  numPages := pages.length
  physAddr := fun i =>
    if i < pages.length then pages.getD i 0 else entry.physAddr i

/-- `count_ += delta`. -/
def addCount (entry : SharedMem) (delta : Int) : SharedMem :=
  { entry with count := entry.count + delta }

/-- The frames `shmgetat(key, n)` maps when the key exists: `n` cells of its
local array are filled from the table, the others hold what was on the
stack. -/
def attachFrames (entry : SharedMem) (n : Nat) (stack : Nat → Nat) : List Nat :=
  (List.range entry.numPages).map fun i =>
    if i < n then entry.physAddr i else stack i

theorem frames_add (entry : SharedMem) (pages : List Nat) : (entry.add pages).frames = pages := by
  apply List.ext_getElem
  · simp [frames, add]
  · intro i small bound
    simp [frames, add, bound]

/-- Asking for at least the recorded pages maps exactly the recorded frames. -/
theorem attachFrames_eq {entry : SharedMem} {n : Nat} (stack : Nat → Nat)
    (enough : entry.numPages ≤ n) : entry.attachFrames n stack = entry.frames := by
  apply List.map_congr_left
  intro i mem
  have small : i < n := lt_of_lt_of_le (List.mem_range.mp mem) enough
  simp [small]

end SharedMem

theorem shmAdd_eq (key : Key) (pages : List Nat) (s : Kernel) :
    shmAdd key pages.length (fun i => pages.getD i 0) s =
      .ok ((), s.setShm key ((s.shmTab key).add pages)) := rfl

/-- Counting up and down stores `SharedMem.addCount`. -/
theorem shmCount_eq (key : Key) (delta : Int) (s : Kernel) : shmCount key delta s =
      .ok ((), s.setShm key ((s.shmTab key).addCount delta)) := rfl

/-! ## Processes racing on one key -/

/-- Where a process stands with the key. -/
inductive ShmPhase where
  /-- The mask bit is clear and no call is in progress. -/
  | out
  /-- `shmgetat` saw `count_ == 0`; `allocshm` is next. -/
  | creating (n : Nat)
  /-- `allocshm` mapped these frames; `shm_add` is next. -/
  | created (pages : List Nat)
  /-- `shmgetat` saw `count_ != 0`; `mapshm` is next. -/
  | attaching (n : Nat)
  /-- `mapshm` mapped these frames; `count_++` is next. -/
  | mapped (pages : List Nat)
  /-- The mask bit is set and these frames are mapped. -/
  | joined (pages : List Nat)
  /-- `shm_release` did `count_--`; its test is next. -/
  | dropped
  /-- `shm_release` saw `count_ == 0`; `shm_rm` is next. -/
  | removing
deriving Repr, DecidableEq

namespace ShmPhase

/-- The mask of the process has the bit. -/
def joins : ShmPhase → Bool
  | joined _ => true
  | _ => false

/-- Between the test `count_ == 0` of `shmgetat` and the end of `shm_add`. -/
def creates : ShmPhase → Bool
  | creating _ | created _ => true
  | _ => false

/-- Between the test of `shmgetat` and `count_++`. -/
def attaches : ShmPhase → Bool
  | attaching _ | mapped _ => true
  | _ => false

/-- Between `count_--` and the end of `shm_release`. -/
def releases : ShmPhase → Bool
  | dropped | removing => true
  | _ => false

/-- No call is in progress. -/
def idle : ShmPhase → Bool
  | out | joined _ => true
  | _ => false

/-- A process whose mask has the bit is a holder of the key. -/
def held (phase : ShmPhase) : Option Unit :=
  if phase.joins then some () else none

end ShmPhase

/-- What each process holds. -/
def heldBy (phase : Slot → ShmPhase) : Slot → Option Unit :=
  fun p => (phase p).held

/-- The table entry, the free list and the processes. -/
structure ShmRace where
  entry : SharedMem
  free : List Nat
  phase : Slot → ShmPhase

/-- Steps of the calls.  `fail` is the return of -1 when `allocshm` or
`mapshm` refuses the address. -/
inductive ShmStep where
  | test (p : Slot) (n : Nat)
  | fail (p : Slot)
  | alloc (p : Slot)
  | add (p : Slot)
  | map (p : Slot) (stack : Nat → Nat)
  | increment (p : Slot)
  | decrement (p : Slot)
  | check (p : Slot)
  | remove (p : Slot)

namespace ShmRace

/-- Move one process on. -/
def set (s : ShmRace) (p : Slot) (phase : ShmPhase) : ShmRace :=
  { s with phase := update s.phase p phase }

/-- One step; `none` when it cannot be taken.  Pages that `allocshm` took
before it ran out of memory are not given back. -/
def step (s : ShmRace) : ShmStep → Option ShmRace
  | .test p n =>
    match s.phase p with
    | .out =>
      if MAX_SHM_PGNUM < n then
        none
      else
        some (s.set p (if s.entry.count = 0 then .creating n else .attaching n))
    | _ => none
  | .fail p =>
    match s.phase p with
    | .creating _ | .attaching _ => some (s.set p .out)
    | _ => none
  | .alloc p =>
    match s.phase p with
    | .creating n =>
      if n ≤ s.free.length then
        some
          { s.set p (.created (s.free.take n)) with
            free := s.free.drop n }
      else
        some { s.set p .out with free := [] }
    | _ => none
  | .add p =>
    match s.phase p with
    | .created pages =>
      some { s.set p (.joined pages) with entry := s.entry.add pages }
    | _ => none
  | .map p stack =>
    match s.phase p with
    | .attaching n =>
      some (s.set p (.mapped (s.entry.attachFrames n stack)))
    | _ => none
  | .increment p =>
    match s.phase p with
    | .mapped pages =>
      some { s.set p (.joined pages) with entry := s.entry.addCount 1 }
    | _ => none
  | .decrement p =>
    match s.phase p with
    | .joined _ =>
      some { s.set p .dropped with entry := s.entry.addCount (-1) }
    | _ => none
  | .check p =>
    match s.phase p with
    | .dropped =>
      some (s.set p (if s.entry.count = 0 then .removing else .out))
    | _ => none
  | .remove p =>
    match s.phase p with
    | .removing =>
      some
        { s.set p .out with
          entry := { s.entry with count := 0 }
          free := s.entry.frames.reverse ++ s.free }
    | _ => none

/-- `shm_init`: nobody has the key, and the rest of the entry is arbitrary. -/
def Start (s : ShmRace) : Prop :=
  s.entry.count = 0 ∧ ∀ p, s.phase p = .out

/-- Number of processes whose mask has the bit. -/
def members (s : ShmRace) : Nat :=
  holdersOf (heldBy s.phase) ()

/-- All calls have completed. -/
def Quiet (s : ShmRace) : Prop := ∀ p, (s.phase p).idle = true

/-- All processes with the bit map the same frames, and `count_` is their
number. -/
structure Agrees (s : ShmRace) : Prop where
  same : ∀ p q pages pages', s.phase p = .joined pages → s.phase q = .joined pages' → pages = pages'
  counted : s.entry.count = s.members

/-- The order in which the steps have to come: a test that finds 0 comes while
no other create and no release is under way, the last process leaves while no
attach is under way, and an attach asks for at least the recorded pages. -/
def Orderly (s : ShmRace) : ShmStep → Prop
  | .test _ _ => s.entry.count = 0 → ∀ q, (s.phase q).creates = false ∧ (s.phase q).releases = false
  | .decrement _ => s.entry.count = 1 → ∀ q, (s.phase q).attaches = false
  | .map p _ =>
    match s.phase p with
    | .attaching n => s.entry.numPages ≤ n
    | _ => True
  | _ => True

end ShmRace

/-! ## The invariant of orderly runs -/

/-- `count_` is the number of processes with the bit; they, and those about to
join, map the recorded frames; an attach is under way only on a key that
exists; a create is under way only alone and on a key that does not; and only
such a key is removed. -/
structure ShmInv (entry : SharedMem) (phase : Slot → ShmPhase) : Prop where
  counted : entry.count = holdersOf (heldBy phase) ()
  sharing : ∀ p pages, phase p = .joined pages ∨ phase p = .mapped pages → pages = entry.frames
  attached : ∀ p, (phase p).attaches = true → 0 < entry.count
  alone : ∀ p, (phase p).creates = true → entry.count = 0 ∧
    ∀ q, q ≠ p → (phase q).creates = false ∧ (phase q).releases = false
  ended : ∀ p, phase p = .removing → entry.count = 0

namespace ShmInv

open RefTable (holdersOf)

variable {entry : SharedMem} {phase : Slot → ShmPhase} {p : Slot}
  {next : ShmPhase}

theorem heldBy_update : heldBy (update phase p next) = update (heldBy phase) p next.held := by
  funext q
  by_cases here : q = p
  · subst here
    simp [heldBy]
  · simp [heldBy, here]

theorem holders_join (before : (phase p).held = none) (after : next.held = some ()) :
    holdersOf (heldBy (update phase p next)) () = holdersOf (heldBy phase) () + 1 := by
  have idle : heldBy phase p = none := before
  rw [heldBy_update, after, holdersOf_update_some idle]
  rfl

theorem holders_leave (before : (phase p).held = some ()) (after : next.held = none) :
    holdersOf (heldBy (update phase p next)) () + 1 = holdersOf (heldBy phase) () := by
  have holds : heldBy phase p = some () := before
  rw [heldBy_update, after]
  exact holdersOf_update_none holds ()

section

variable (inv : ShmInv entry phase)
include inv

theorem move (held : next.held = (phase p).held)
    (shares : ∀ pages, next = .joined pages ∨ next = .mapped pages → pages = entry.frames)
    (attaches : next.attaches = true → 0 < entry.count)
    (creates : next.creates = true → entry.count = 0 ∧
      ∀ q, q ≠ p → (phase q).creates = false ∧ (phase q).releases = false)
    (releases : next.releases = true → ∀ q, q ≠ p → (phase q).creates = false)
    (removes : next = .removing → entry.count = 0) : ShmInv entry (update phase p next) := by
  refine ⟨?_, ?_, ?_, ?_, ?_⟩
  · have same := update_eq_self p (heldBy phase)
    rw [heldBy_update, held]
    exact same.symm ▸ inv.counted
  · exact (forall_update_iff phase fun _ now => ∀ pages,
      now = .joined pages ∨ now = .mapped pages → pages = entry.frames).mpr
      ⟨shares, fun q _ => inv.sharing q⟩
  · exact (forall_update_iff phase fun _ now => now.attaches = true → 0 < entry.count).mpr
      ⟨attaches, fun q _ => inv.attached q⟩
  · -- A create of another process stays alone only if `next` is neither a
    -- create nor a release.
    intro q creating
    by_cases here : q = p
    · subst here
      rw [update_self] at creating
      obtain ⟨none, others⟩ := creates creating
      refine ⟨none, fun r away => ?_⟩
      rw [update_of_ne away]
      exact others r away
    · rw [update_of_ne here] at creating
      obtain ⟨none, others⟩ := inv.alone q creating
      refine ⟨none, (forall_update_iff phase fun r now => r ≠ q →
        now.creates = false ∧ now.releases = false).mpr ⟨?_, fun r _ => others r⟩⟩
      intro _
      constructor
      · by_contra creatingToo
        have other := (creates (by simpa using creatingToo)).2 q here
        rw [creating] at other
        cases other.1
      · by_contra releasing
        have other := releases (by simpa using releasing) q here
        rw [creating] at other
        cases other
  · exact (forall_update_iff phase fun _ now => now = .removing → entry.count = 0).mpr
      ⟨removes, fun q _ => inv.ended q⟩

theorem vacant (zero : entry.count = 0) (q : Slot) :
    (phase q).joins = false ∧ (phase q).attaches = false := by
  constructor
  · by_contra joins
    have holds : heldBy phase q = some () := by
      simp only [Bool.not_eq_false] at joins
      simp [heldBy, ShmPhase.held, joins]
    have positive := holdersOf_pos holds
    have counted := inv.counted
    omega
  · by_contra attaches
    have positive := inv.attached q (by simpa using attaches)
    omega

theorem positive {q : Slot} {pages : List Nat}
    (joined : phase q = .joined pages) : 0 < entry.count := by
  have holds : heldBy phase q = some () := by
    simp [heldBy, joined, ShmPhase.held, ShmPhase.joins]
  have positive := holdersOf_pos holds
  have counted := inv.counted
  omega

theorem add {pages : List Nat} (current : phase p = .created pages) :
    ShmInv (entry.add pages) (update phase p (.joined pages)) := by
  obtain ⟨zero, others⟩ := inv.alone p (by simp [current, ShmPhase.creates])
  have empty := inv.vacant zero
  have joins : holdersOf (heldBy (update phase p (.joined pages))) ()
      = holdersOf (heldBy phase) () + 1 :=
    holders_join (by simp [current, ShmPhase.held, ShmPhase.joins]) rfl
  have counted := inv.counted
  refine ⟨?_, ?_, ?_, ?_, ?_⟩
  · change (1 : Int) = _
    omega
  · refine (forall_update_iff phase fun _ now => ∀ kept, now = .joined kept ∨ now = .mapped kept →
      kept = (entry.add pages).frames).mpr ⟨?_, ?_⟩
    · rintro kept (same | same)
      · cases same
        exact (SharedMem.frames_add entry pages).symm
      · cases same
    · rintro q _ kept (same | same)
      · have none := (empty q).1
        simp [same, ShmPhase.joins] at none
      · have none := (empty q).2
        simp [same, ShmPhase.attaches] at none
  · intro q _
    change (0 : Int) < 1
    decide
  · exact fun q creating => absurd creating ((forall_update_iff phase fun _ now =>
      ¬ now.creates = true).mpr ⟨by nofun, fun r away => by simp [(others r away).1]⟩ q)
  · refine (forall_update_iff phase fun _ now => now = .removing → _).mpr
      ⟨nofun, fun r away removing => ?_⟩
    have none := (others r away).2
    rw [removing] at none
    cases none

theorem occupied (positive : 0 < entry.count)
    (q : Slot) : (phase q).creates = false ∧ phase q ≠ .removing := by
  constructor
  · by_contra creates
    have zero := (inv.alone q (by simpa using creates)).1
    omega
  · intro removing
    have zero := inv.ended q removing
    omega

/-- A change of the count of a key that somebody holds, by a process that
neither creates nor removes the key. -/
theorem recount (positive : 0 < entry.count) {delta : Int}
    (counted : entry.count + delta = holdersOf (heldBy (update phase p next)) ())
    (shares : ∀ pages, next = .joined pages ∨ next = .mapped pages → pages = entry.frames)
    (quiet : next.creates = false ∧ next.attaches = false ∧ next ≠ .removing)
    (attached : ∀ q, (phase q).attaches = true → 0 < entry.count + delta) :
    ShmInv (entry.addCount delta) (update phase p next) := by
  have busy := inv.occupied positive
  refine ⟨counted, ?_, ?_, ?_, ?_⟩
  · exact (forall_update_iff phase fun _ now => ∀ pages,
      now = .joined pages ∨ now = .mapped pages → pages = entry.frames).mpr
      ⟨shares, fun q _ => inv.sharing q⟩
  · exact (forall_update_iff phase fun _ now => now.attaches = true → 0 < entry.count + delta).mpr
      ⟨by simp [quiet.2.1], fun q _ => attached q⟩
  · exact fun q creating => absurd creating ((forall_update_iff phase fun _ now =>
      ¬ now.creates = true).mpr ⟨by simp [quiet.1], fun r _ => by simp [(busy r).1]⟩ q)
  · exact fun q removing => absurd removing ((forall_update_iff phase fun _ now =>
      now ≠ .removing).mpr ⟨quiet.2.2, fun r _ => (busy r).2⟩ q)

theorem increment {pages : List Nat} (current : phase p = .mapped pages) :
    ShmInv (entry.addCount 1) (update phase p (.joined pages)) := by
  have positive := inv.attached p (by simp [current, ShmPhase.attaches])
  have joins : holdersOf (heldBy (update phase p (.joined pages))) ()
      = holdersOf (heldBy phase) () + 1 :=
    holders_join (by simp [current, ShmPhase.held, ShmPhase.joins]) rfl
  have counted := inv.counted
  apply inv.recount positive
  · omega
  · rintro kept (same | same)
    · cases same
      exact inv.sharing p pages (.inr current)
    · cases same
  · exact ⟨rfl, rfl, by simp⟩
  · intro q _
    omega

theorem decrement {pages : List Nat} (current : phase p = .joined pages)
    (last : entry.count = 1 → ∀ q, (phase q).attaches = false) :
    ShmInv (entry.addCount (-1)) (update phase p .dropped) := by
  have positive := inv.positive current
  have leaves : holdersOf (heldBy (update phase p .dropped)) () + 1 = holdersOf (heldBy phase) () :=
    holders_leave (by simp [current, ShmPhase.held, ShmPhase.joins]) rfl
  have counted := inv.counted
  apply inv.recount positive
  · omega
  · rintro kept (same | same) <;> cases same
  · exact ⟨rfl, rfl, by simp⟩
  · intro q attaches
    have several : entry.count ≠ 1 := by
      intro one
      rw [last one q] at attaches
      cases attaches
    omega

theorem test (current : phase p = .out) (n : Nat)
    (orderly : entry.count = 0 → ∀ q, (phase q).creates = false ∧ (phase q).releases = false) :
    ShmInv entry (update phase p (if entry.count = 0 then .creating n else .attaching n)) := by
  have outside : none = (phase p).held := by simp [current, ShmPhase.held, ShmPhase.joins]
  by_cases zero : entry.count = 0
  · rw [if_pos zero]
    exact inv.move outside (by simp) nofun (fun _ => ⟨zero, fun q _ => orderly zero q⟩) nofun nofun
  · rw [if_neg zero]
    have counted := inv.counted
    exact inv.move outside (by simp) (fun _ => by omega) nofun nofun nofun

theorem leave (idle : (phase p).joins = false) : ShmInv entry (update phase p .out) :=
  inv.move (by rw [ShmPhase.held, ShmPhase.held, idle]; rfl) (by simp) nofun nofun nofun nofun

/-- `allocshm` of the one create that is under way. -/
theorem alloc {n : Nat} (current : phase p = .creating n) (pages : List Nat) :
    ShmInv entry (update phase p (.created pages)) := by
  refine inv.move ?_ (by simp) nofun (fun _ => ?_) nofun nofun
  · simp [current, ShmPhase.held, ShmPhase.joins]
  · exact inv.alone p (by simp [current, ShmPhase.creates])

theorem map {n : Nat} (current : phase p = .attaching n) (stack : Nat → Nat)
    (enough : entry.numPages ≤ n) :
    ShmInv entry (update phase p (.mapped (entry.attachFrames n stack))) := by
  refine inv.move ?_ ?_ (fun _ => ?_) nofun nofun nofun
  · simp [current, ShmPhase.held, ShmPhase.joins]
  · simp [SharedMem.attachFrames_eq stack enough]
  · exact inv.attached p (by simp [current, ShmPhase.attaches])

/-- The test of `shm_release` that finds 0. -/
theorem check (current : phase p = .dropped) (zero : entry.count = 0) :
    ShmInv entry (update phase p .removing) := by
  refine inv.move ?_ (by simp) nofun nofun (fun _ q away => ?_) fun _ => zero
  · simp [current, ShmPhase.held, ShmPhase.joins]
  · -- A create under way would rule out the release that `p` is in.
    by_contra creates
    have none := ((inv.alone q (by simpa using creates)).2 p away.symm).2
    rw [current] at none
    cases none

end

end ShmInv

namespace ShmRace

/-- The invariant of a state. -/
def Inv (s : ShmRace) : Prop := ShmInv s.entry s.phase

theorem Start.inv {s : ShmRace} (start : s.Start) : s.Inv := by
  obtain ⟨zero, out⟩ := start
  have nobody : holdersOf (heldBy s.phase) () = 0 := by
    simp [holdersOf, heldBy, out, ShmPhase.held, ShmPhase.joins]
  refine ⟨?_, ?_, ?_, ?_, ?_⟩
  · rw [zero, nobody]
    rfl
  · rintro p pages (same | same) <;> simp [out] at same
  · intro p attaches
    simp [out, ShmPhase.attaches] at attaches
  · intro p creates
    simp [out, ShmPhase.creates] at creates
  · exact fun _ _ => zero

theorem Inv.step {s t : ShmRace} {a : ShmStep} (inv : s.Inv)
    (orderly : s.Orderly a) (taken : s.step a = some t) : t.Inv := by
  unfold ShmRace.step at taken
  cases a with (simp only at taken; split at taken <;> try cases taken)
  | test p n =>
    next current =>
      obtain ⟨-, ⟨⟩⟩ := Option.ite_none_left_eq_some.mp taken
      exact ShmInv.test inv current n orderly
  | fail p =>
    all_goals next current => exact ShmInv.leave inv (by simp [current, ShmPhase.joins])
  | alloc p =>
    next current =>
      split at taken <;> cases taken
      · exact ShmInv.alloc inv current _
      · exact ShmInv.leave inv (by simp [current, ShmPhase.joins])
  | add p => next current => exact ShmInv.add inv current
  | map p stack =>
    next current =>
      simp only [Orderly, current] at orderly
      exact ShmInv.map inv current stack orderly
  | increment p => next current => exact ShmInv.increment inv current
  | decrement p => next current => exact ShmInv.decrement inv current orderly
  | check p =>
    next current =>
      by_cases zero : s.entry.count = 0
      · have checked := ShmInv.check inv current zero
        simpa [Inv, set, zero] using checked
      · have left := ShmInv.leave (p := p) inv (by simp [current, ShmPhase.joins])
        simpa [Inv, set, zero] using left
  | remove p =>
    next current =>
      -- The count was 0 already.
      have same : { s.entry with count := 0 } = s.entry := by rw [← ShmInv.ended inv p current]
      change ShmInv { s.entry with count := 0 } _
      rw [same]
      exact ShmInv.leave inv (by simp [current, ShmPhase.joins])

/-- In every run whose steps come in this order, the processes that have the
key map the same frames and `count_` is their number, so never negative; this
holds in every state, not only when all calls have completed. -/
theorem orderly_agrees {s : ShmRace}
    (reached : Reach Start (fun s a t => s.step a = some t) Orderly s) :
    s.Agrees ∧ 0 ≤ s.entry.count := by
  have inv : ShmInv s.entry s.phase := by
    apply Reach.invariant (I := Inv) _ _ reached
    · exact fun _ start => start.inv
    · exact fun _ _ _ inv orderly taken => inv.step orderly taken
  have counted := inv.counted
  refine ⟨⟨?_, counted⟩, by omega⟩
  intro p q pages pages' first second
  rw [inv.sharing p pages (.inl first), inv.sharing q pages' (.inl second)]

/-- A machine with two free pages on which nobody has the key. -/
def twoFreePages : ShmRace where
  entry := { count := 0, numPages := 0, physAddr := fun _ => 0 }
  free := [0x200000, 0x201000]
  phase := fun _ => .out

instance (s : ShmRace) (a : ShmStep) : Decidable (s.Orderly a) := by
  unfold Orderly
  repeat' split
  all_goals infer_instance

/-- Process 0 creates the key; processes 1 and 2 attach to it at the same time,
while 0 leaves. -/
def mixedAttaches : List ShmStep :=
  [.test 0 1, .alloc 0, .add 0, .test 1 1, .test 2 1, .map 2 fun _ => 0, .map 1 fun _ => 0,
    .increment 1, .decrement 0, .increment 2, .check 0]

theorem mixedAttaches_agree : ∃ s : ShmRace, s.phase 1 = .joined [0x200000] ∧
    s.phase 2 = .joined [0x200000] ∧ s.entry.count = 2 ∧ s.Agrees ∧ 0 ≤ s.entry.count := by
  have outcome : (mixedAttaches.foldlM (fun s a => if decide (s.Orderly a) then s.step a else none)
      twoFreePages).map (fun s => (s.phase 1, s.phase 2, s.entry.count)) =
      some (.joined [0x200000], .joined [0x200000], 2) := by
    decide +kernel
  obtain ⟨s, run, facts⟩ := Option.map_eq_some_iff.mp outcome
  simp only [Prod.mk.injEq] at facts
  obtain ⟨first, second, two⟩ := facts
  refine ⟨s, first, second, two, orderly_agrees (Reach.checked ?_ (.start ⟨rfl, fun _ => rfl⟩) run)⟩
  exact fun _ _ => of_decide_eq_true

/-- Two processes ask for the key, and both see `count_ == 0` before either
has recorded its pages. -/
def collidingCreates : List ShmStep :=
  [.test 0 1, .test 1 1, .alloc 0, .alloc 1, .add 0, .add 1]

/-- Both create the key: all calls have completed, the two processes map
different frames, and `count_` is 1. -/
theorem colliding_creates_disagree : ∃ s : ShmRace,
      Reach Start (fun s a t => s.step a = some t) (fun _ _ => True) s ∧
      s.Quiet ∧ s.phase 0 = .joined [0x200000] ∧
      s.phase 1 = .joined [0x201000] ∧ s.entry.count = 1 ∧ ¬ s.Agrees := by
  have outcome : (collidingCreates.foldlM step twoFreePages).map (fun s =>
        (s.phase 0, s.phase 1, s.entry.count, decide (∀ p, (s.phase p).idle = true))) =
      some (.joined [0x200000], .joined [0x201000], 1, true) := by
    decide +kernel
  obtain ⟨s, run, facts⟩ := Option.map_eq_some_iff.mp outcome
  simp only [Prod.mk.injEq, decide_eq_true_eq] at facts
  obtain ⟨first, second, one, quiet⟩ := facts
  refine ⟨s, Reach.foldlM (.start ⟨rfl, fun _ => rfl⟩) run, quiet, first, second, one, ?_⟩
  intro agrees
  have same := agrees.same 0 1 _ _ first second
  exact absurd same (by decide)

end ShmRace

end Xv6
