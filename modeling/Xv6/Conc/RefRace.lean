/-
Purpose: `add_ref` and `delete_ref` as the two steps they consist of, a search
  of the table and a write of the chosen entry, taken by processes that hold
  no common lock.
-/
import Xv6.Kernel.Proc
import Xv6.Lib.Run

namespace Xv6

open RefTable

/-! ## The two steps of a call -/

/-- `pgdir_table.refs`. -/
abbrev Refs := Table Nat NPROC

/-- What the search of `add_ref` settles on. -/
inductive AddChoice where
  | inUse (i : Fin NPROC)
  | vacant (i : Fin NPROC)
  | full
deriving Repr, DecidableEq

/-- The first step of `add_ref`: look for the directory, then for an entry
with count 0. -/
def searchAdd (refs : Refs) (d : Nat) : AddChoice :=
  match find refs d with
  | some i => .inUse i
  | none =>
    match vacant refs with
    | some i => .vacant i
    | none => .full

/-- The second step of `add_ref`: write the chosen entry. -/
def writeAdd (refs : Refs) (d : Nat) : AddChoice → Refs
  | .inUse i => bump refs i
  | .vacant i => claim refs i d
  | .full => refs

/-- The first step of `delete_ref`. -/
def searchDelete (refs : Refs) (d : Nat) : Option (Fin NPROC) := find refs d

/-- The second step of `delete_ref`: decrement the chosen entry and return
what is left in it, or -1. -/
def writeDelete (refs : Refs) : Option (Fin NPROC) → Int × Refs
  | some i => ((refs i).count - 1, drop refs i)
  | none => (-1, refs)

/-- Without interruption the two steps are the atomic `add_ref`. -/
theorem addRef_eq_steps (d : Nat) (s : Kernel) : addRef d s =
      .ok ((), { s with refs := writeAdd s.refs d (searchAdd s.refs d) }) := by
  have same : retain s.refs d = writeAdd s.refs d (searchAdd s.refs d) := by
    unfold retain searchAdd
    cases find s.refs d with
    | some i => rfl
    | none => cases vacant s.refs <;> rfl
  rw [← same]
  rfl

/-- Without interruption the two steps are the atomic `delete_ref`. -/
theorem deleteRef_eq_steps (d : Nat) (s : Kernel) : deleteRef d s =
      .ok ((writeDelete s.refs (searchDelete s.refs d)).1,
        { s with refs := (writeDelete s.refs (searchDelete s.refs d)).2 }) := by
  have same : ((release s.refs d).1.getD (-1), (release s.refs d).2) =
      writeDelete s.refs (searchDelete s.refs d) := by
    unfold release searchDelete
    cases find s.refs d <;> rfl
  rw [← same]
  rfl

/-! ## Processes racing on the table -/

/-- Where the reference of one proc slot stands. -/
inductive Ref where
  | free
  | adding (d : Nat) (choice : AddChoice)
  | holding (d : Nat)
  | deleting (d : Nat) (choice : Option (Fin NPROC)) (waits : Bool)
deriving Repr, DecidableEq

/-- The directory whose reference is added and not yet deleted. -/
def Ref.held : Ref → Option Nat
  | .free | .adding _ _ => none
  | .holding d | .deleting d _ _ => some d

/-- No call works on the reference. -/
def Ref.idle : Ref → Bool
  | .free | .holding _ => true
  | .adding _ _ | .deleting _ _ _ => false

/-- The table, the calls in progress, `ptable.lock` as far as `wait` and
`join` use it, and whether a `pgdir ref` panic has happened. -/
structure Race where
  refs : Refs
  ref : Slot → Ref
  locked : Bool
  panicked : Bool

/-- Steps of the calls.  `wait` and `join` delete the reference of a child
under `ptable.lock`, `exec` deletes its own without it; `fork`, `clone` and
`exec` add without it. -/
inductive RaceStep where
  | startAdd (p : Slot) (d : Nat)
  | startDelete (p : Slot) (waits : Bool)
  | write (p : Slot)
deriving Repr, DecidableEq

namespace Race

variable {s t : Race} {p : Slot} {ref : Ref} {a : RaceStep} {d : Nat}

/-- `init_ref`, before any call. -/
def start : Race where
  refs := fun _ => { addr := 0, count := 0 }
  ref := fun _ => .free
  locked := false
  panicked := false

/-- Advance the call that works on the reference of slot `p`. -/
def setRef (s : Race) (p : Slot) (ref : Ref) : Race :=
  { s with ref := Function.update s.ref p ref }

/-- The second step of the call in progress for slot `p`. -/
def finish (s : Race) (p : Slot) : Option Race :=
  match s.ref p with
  | .adding d choice =>
    some { s.setRef p (.holding d) with refs := writeAdd s.refs d choice }
  | .deleting _ choice waits =>
    some
      { s.setRef p .free with
        refs := (writeDelete s.refs choice).2
        locked := s.locked && !waits
        panicked := decide ((writeDelete s.refs choice).1 < 0) }
  | .free | .holding _ => none

/-- One step; `none` when it cannot be taken.  References to one directory
are interchangeable, so a delete takes a reference that was added, whichever
slot the deleting process had in mind. -/
def step (s : Race) (a : RaceStep) : Option Race :=
  if s.panicked then
    none
  else
    match a with
    | .startAdd p d =>
      match s.ref p with
      | .free => some (s.setRef p (.adding d (searchAdd s.refs d)))
      | _ => none
    | .startDelete p waits =>
      match s.ref p with
      | .holding d =>
        if waits && s.locked then
          none
        else
          some
            { s.setRef p (.deleting d (searchDelete s.refs d) waits) with
              locked := s.locked || waits }
      | _ => none
    | .write p => s.finish p

/-- The step as a relation. -/
def Steps (s : Race) (a : RaceStep) (t : Race) : Prop := s.step a = some t

/-- The directory each slot has a reference to. -/
def held (s : Race) : Slot → Option Nat := fun p => (s.ref p).held

/-- Completed `add_ref`s of `d` minus completed `delete_ref`s. -/
def outstanding (s : Race) (d : Nat) : Nat := holdersOf s.held d

/-- All calls have completed. -/
def Quiet (s : Race) : Prop := ∀ p, (s.ref p).idle = true

/-- The table records the outstanding references: one entry with the right
count for each referenced directory, none for any other, and a `delete_ref`
of a referenced directory does not return -1. -/
structure Settled (s : Race) : Prop where
  recorded : ∀ d, 0 < s.outstanding d →
    ∃ i, (s.refs i).addr = d ∧ (s.refs i).count = s.outstanding d ∧
      ∀ j, 0 < (s.refs j).count → (s.refs j).addr = d → j = i
  referenced : ∀ i, 0 < (s.refs i).count → 0 < s.outstanding (s.refs i).addr
  deletable : ∀ d, 0 < s.outstanding d → 0 ≤ (writeDelete s.refs (searchDelete s.refs d)).1

/-- At a write, what the search saw still holds: the chosen entry is still in
use for the directory, or still vacant with the directory nowhere in the
table. -/
def Undisturbed (s : Race) : RaceStep → Prop
  | .write p =>
    match s.ref p with
    | .adding d (.inUse i) | .deleting d (some i) _ =>
      0 < (s.refs i).count ∧ (s.refs i).addr = d
    | .adding d (.vacant i) => (s.refs i).count = 0 ∧ find s.refs d = none
    | _ => True
  | _ => True

/-! ## The invariant of undisturbed runs -/

/-- The table counts the holders, no search came back empty-handed, and
nothing has panicked. -/
structure Inv (s : Race) : Prop where
  counts : Counts s.refs s.held
  room : ∀ p d, s.ref p ≠ .adding d .full
  found : ∀ p d waits, s.ref p ≠ .deleting d none waits
  running : s.panicked = false

theorem held_setRef (s : Race) (p : Slot) (ref : Ref) :
    (s.setRef p ref).held = Function.update s.held p ref.held := by
  funext q
  by_cases here : q = p
  · subst here
    simp [held, setRef]
  · simp [held, setRef, here]

theorem ref_setRef {q : Slot} {P : Ref → Prop}
    (new : P ref) (old : P (s.ref q)) : P ((s.setRef p ref).ref q) := by
  by_cases here : q = p
  · subst here
    simpa [setRef] using new
  · simpa [setRef, here] using old

theorem step_cases (taken : s.Steps a t) : (∃ p d, s.ref p = .free ∧
      t = s.setRef p (.adding d (searchAdd s.refs d))) ∨
    (∃ p d waits, s.ref p = .holding d ∧
      t = { s.setRef p (.deleting d (searchDelete s.refs d) waits) with
        locked := s.locked || waits }) ∨
    (∃ p d choice, a = .write p ∧ s.ref p = .adding d choice ∧ t = { s.setRef p (.holding d) with
        refs := writeAdd s.refs d choice }) ∨
    (∃ p d choice waits, a = .write p ∧ s.ref p = .deleting d choice waits ∧
      t = { s.setRef p .free with
        refs := (writeDelete s.refs choice).2
        locked := s.locked && !waits
        panicked := decide ((writeDelete s.refs choice).1 < 0) }) := by
  unfold Steps step at taken
  split at taken
  · cases taken
  cases a with
  | startAdd p d =>
    simp only at taken
    split at taken <;> cases taken
    next current => exact .inl ⟨p, d, current, rfl⟩
  | startDelete p waits =>
    simp only at taken
    split at taken
    · next current =>
        obtain ⟨-, ⟨⟩⟩ := Option.ite_none_left_eq_some.mp taken
        exact .inr (.inl ⟨p, _, waits, current, rfl⟩)
    · cases taken
  | write p =>
    simp only [finish] at taken
    split at taken <;> cases taken
    · next current => exact .inr (.inr (.inl ⟨p, _, _, rfl, current, rfl⟩))
    · next current => exact .inr (.inr (.inr ⟨p, _, _, _, rfl, current, rfl⟩))

theorem inv_start : start.Inv := by
  refine ⟨⟨fun _ => le_refl _, ?_, ?_, nofun⟩, nofun, nofun, rfl⟩
  · intro i j inUse
    exact absurd inUse (lt_irrefl _)
  · intro i inUse
    exact absurd inUse (lt_irrefl _)

theorem Inv.searchAdd_ne_full (inv : s.Inv)
    (idle : s.held p = none) (d : Nat) : searchAdd s.refs d ≠ .full := by
  obtain ⟨i, free⟩ := inv.counts.exists_vacant (by simp) idle
  unfold searchAdd
  cases find s.refs d with
  | some j => simp
  | none => simp [free]

theorem Inv.searchDelete_some (inv : s.Inv) (holds : s.held p = some d) :
    ∃ i, searchDelete s.refs d = some i ∧ 0 < (s.refs i).count ∧ (s.refs i).addr = d := by
  obtain ⟨i, inUse, same⟩ := inv.counts.covered p d holds
  refine ⟨i, ?_, inUse, same⟩
  rw [searchDelete, ← same]
  exact inv.counts.find_of_inUse inUse

theorem Inv.set (inv : s.Inv) {refs : Refs} {locked panicked : Bool}
    (counts : Counts refs (Function.update s.held p ref.held)) (room : ∀ d, ref ≠ .adding d .full)
    (found : ∀ d waits, ref ≠ .deleting d none waits) (running : panicked = false) :
    Inv { s.setRef p ref with refs := refs, locked := locked, panicked := panicked } where
  counts := (held_setRef s p ref).symm ▸ counts
  room q d := ref_setRef (P := (· ≠ .adding d .full)) (room d) (inv.room q d)
  found q d waits :=
    ref_setRef (P := (· ≠ .deleting d none waits)) (found d waits) (inv.found q d waits)
  running := running

theorem Inv.write_add (inv : s.Inv) {choice : AddChoice} (current : s.ref p = .adding d choice)
    (undisturbed : s.Undisturbed (.write p)) :
    Inv { s.setRef p (.holding d) with refs := writeAdd s.refs d choice } := by
  have idle : s.held p = none := by simp [held, current, Ref.held]
  simp only [Undisturbed, current] at undisturbed
  refine inv.set ?_ (by simp) (by simp) inv.running
  cases choice with
  | inUse i =>
    obtain ⟨inUse, same⟩ := undisturbed
    subst same
    exact inv.counts.bump idle inUse
  | vacant i => exact inv.counts.claim idle undisturbed.2 undisturbed.1
  | full => exact absurd current (inv.room p d)

theorem Inv.write_delete (inv : s.Inv)
    {choice : Option (Fin NPROC)} {waits : Bool}
    (current : s.ref p = .deleting d choice waits)
    (undisturbed : s.Undisturbed (.write p)) :
    Inv { s.setRef p .free with
      refs := (writeDelete s.refs choice).2
      locked := s.locked && !waits
      panicked := decide ((writeDelete s.refs choice).1 < 0) } := by
  cases choice with
  | none => exact absurd current (inv.found p d waits)
  | some i =>
    simp only [Undisturbed, current] at undisturbed
    obtain ⟨inUse, same⟩ := undisturbed
    subst same
    have holds : s.held p = some (s.refs i).addr := by
      simp [held, current, Ref.held]
    refine inv.set (inv.counts.drop inUse holds).2 (by simp) (by simp) (decide_eq_false ?_)
    change ¬ (s.refs i).count - 1 < 0
    omega

theorem Inv.step (inv : s.Inv) (undisturbed : s.Undisturbed a) (taken : s.Steps a t) : t.Inv := by
  rcases step_cases taken with ⟨p, d, current, rfl⟩ |
    ⟨p, d, waits, current, rfl⟩ | ⟨p, d, choice, rfl, current, rfl⟩ |
    ⟨p, d, choice, waits, rfl, current, rfl⟩
  · have idle : s.held p = none := by simp [held, current, Ref.held]
    refine inv.set ?_ (fun other full => ?_) (by simp) inv.running
    · change Counts s.refs (Function.update s.held p none)
      rw [← idle, Function.update_eq_self]
      exact inv.counts
    · injection full with sameDir noRoom
      exact inv.searchAdd_ne_full idle d noRoom
  · have holds : s.held p = some d := by simp [held, current, Ref.held]
    obtain ⟨i, search, -, -⟩ := inv.searchDelete_some holds
    refine inv.set ?_ (by simp) (by simp [search]) inv.running
    change Counts s.refs (Function.update s.held p (some d))
    rw [← holds, Function.update_eq_self]
    exact inv.counts
  · exact inv.write_add current undisturbed
  · exact inv.write_delete current undisturbed

/-- The invariant is what the table has to record. -/
theorem Inv.settled (inv : s.Inv) : s.Settled := by
  have holder : ∀ d, 0 < s.outstanding d → ∃ i, searchDelete s.refs d = some i ∧
      0 < (s.refs i).count ∧ (s.refs i).addr = d := by
    intro d pos
    obtain ⟨p, holds⟩ := exists_of_holdersOf_pos pos
    exact inv.searchDelete_some holds
  refine ⟨?_, ?_, ?_⟩
  · intro d pos
    obtain ⟨i, -, inUse, same⟩ := holder d pos
    refine ⟨i, same, ?_, ?_⟩
    · rw [inv.counts.exact i inUse, same]
      rfl
    · intro j usedJ sameJ
      exact inv.counts.unique j i usedJ inUse (sameJ.trans same.symm)
  · intro i inUse
    have recorded := inv.counts.exact i inUse
    unfold outstanding
    omega
  · intro d pos
    obtain ⟨i, search, inUse, -⟩ := holder d pos
    rw [search]
    change 0 ≤ (s.refs i).count - 1
    omega

/-- In every run in which each write still finds what its search saw, no
update is lost: the table records the outstanding references in every state,
and no `delete_ref` has returned -1. -/
theorem undisturbed_settled {s : Race} (reached : Reach (· = start) Steps Undisturbed s) :
    s.panicked = false ∧ s.Settled := by
  have inv : s.Inv := by
    apply Reach.invariant _ _ reached
    · rintro _ rfl
      exact inv_start
    · intro s a t inv undisturbed taken
      exact inv.step undisturbed taken
  exact ⟨inv.running, inv.settled⟩

instance (s : Race) (a : RaceStep) : Decidable (s.Undisturbed a) := by
  unfold Undisturbed
  repeat' split
  all_goals infer_instance

/-- Two references to a counted directory are added at the same time; then one is deleted while
another directory gets its first. -/
def mixedCalls : List RaceStep :=
  [.startAdd 0 0x1000, .write 0, .startAdd 1 0x1000, .startAdd 2 0x1000, .write 2, .write 1,
    .startDelete 0 false, .startAdd 3 0x2000, .write 0, .write 3]

theorem mixedCalls_settled : ∃ s : Race, s.refs 0 = { addr := 0x1000, count := 2 } ∧
      s.refs 1 = { addr := 0x2000, count := 1 } ∧ s.panicked = false ∧ s.Settled := by
  have outcome : (mixedCalls.foldlM (fun s a => if decide (s.Undisturbed a) then s.step a else none)
      start).map (fun s => (s.refs 0, s.refs 1)) = some (⟨0x1000, 2⟩, ⟨0x2000, 1⟩) := by
    decide +kernel
  obtain ⟨s, run, facts⟩ := Option.map_eq_some_iff.mp outcome
  obtain ⟨first, second⟩ := Prod.mk.inj facts
  refine ⟨s, first, second, undisturbed_settled (Reach.checked ?_ (.start rfl) run)⟩
  exact fun _ _ => of_decide_eq_true

/-- Two processes have their directories counted; then both `fork`, and both
calls search the table for the child's directory before either writes. -/
def collidingForks : List RaceStep :=
  [.startAdd 0 0x1000, .write 0, .startAdd 1 0x2000, .write 1,
    .startAdd 2 0x3000, .startAdd 3 0x4000, .write 2, .write 3]

/-- Both forks choose the same vacant entry, and one reference is lost: all
calls have completed, slot 2 refers to its directory, and the table has no
entry for it. -/
theorem colliding_forks_lose_reference :
    ∃ s : Race, Reach (· = start) Steps (fun _ _ => True) s ∧ s.Quiet ∧
      0 < s.outstanding 0x3000 ∧ searchDelete s.refs 0x3000 = none ∧
      ¬ s.Settled := by
  have outcome : (collidingForks.foldlM step start).map (fun s =>
        (s.ref 2, searchDelete s.refs 0x3000, decide (∀ p, (s.ref p).idle = true))) =
      some (.holding 0x3000, none, true) := by
    decide +kernel
  obtain ⟨s, run, facts⟩ := Option.map_eq_some_iff.mp outcome
  simp only [Prod.mk.injEq, decide_eq_true_eq] at facts
  obtain ⟨holds, missing, quiet⟩ := facts
  have pos : 0 < s.outstanding 0x3000 :=
    holdersOf_pos (p := 2) (by simp [held, holds, Ref.held])
  refine ⟨s, Reach.foldlM (.start rfl) run, quiet, pos, missing, ?_⟩
  intro settled
  have returned := settled.deletable 0x3000 pos
  rw [missing] at returned
  change (0 : Int) ≤ -1 at returned
  omega

end Race

end Xv6
