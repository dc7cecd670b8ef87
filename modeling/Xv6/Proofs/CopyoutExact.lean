/-
Purpose: What a call of `copyout` answers and stores, and the null pointer that it follows where a
  page table is missing.
-/
import Xv6.Proofs.Copyout
import Xv6.Proofs.Replay

namespace Xv6

open PanicM PgDir

/-- The page of the address is present and accessible to the user. -/
def PgDir.Accessible (dir : PgDir) (va : Nat) : Prop :=
  dir.pde (pdx va) ≠ none ∧ present (dir.pte (vpn va)) = true ∧
    userPage (dir.pte (vpn va)) = true

/-- What `copyout` may answer and leave. -/
structure CopiedOut (s : Kernel) (d va : Nat) (bytes : List UInt8) (ok : Bool) (t : Kernel) :
    Prop where
  rest : t = { s with mem := t.mem }
  answer : ok = true ↔ ∀ i < bytes.length, (s.dirs d).Accessible (va + i)
  stored : ok = true → ∀ i < bytes.length, t.mem ((s.dirs d).phys (va + i)) = bytes.getD i 0
  kept : ∀ a, t.mem a ≠ s.mem a →
    ∃ i < bytes.length, (s.dirs d).Accessible (va + i) ∧ (s.dirs d).phys (va + i) = a

/-- A call for this range is right on every machine that has the directory, whichever process is
running. -/
def PgDir.CopiesRight (dir : PgDir) (va : Nat) (bytes : List UInt8) : Prop :=
  ∀ (s : Kernel) (cur : Slot) (d : Nat), s.dirs d = dir →
    ∃ ok t, copyout cur d va bytes s = .ok (ok, t) ∧ CopiedOut s d va bytes ok t

/-- No page table is missing before the copy ends.  If the whole range is accessible, none of it
lies on frame 0, and addresses that share a byte are to get the same value. -/
structure PgDir.Orderly (dir : PgDir) (va : Nat) (bytes : List UInt8) : Prop where
  table : ∀ k < bytes.length, (∀ i < k, dir.Reachable (va + i)) → dir.pde (pdx (va + k)) ≠ none
  frame : (∀ i < bytes.length, dir.Accessible (va + i)) →
    ∀ i < bytes.length, pteAddr (dir.pte (vpn (va + i))) ≠ 0
  agree : (∀ i < bytes.length, dir.Accessible (va + i)) →
    ∀ i < bytes.length, ∀ j < bytes.length, dir.phys (va + i) = dir.phys (va + j) →
      bytes.getD i 0 = bytes.getD j 0

variable {dir : PgDir} {va : Nat} {bytes : List UInt8}

theorem PgDir.reachable_iff : dir.Reachable va ↔
    dir.Accessible va ∧ pteAddr (dir.pte (vpn va)) ≠ 0 := by
  unfold Reachable userFrame Accessible
  split
  case isTrue all =>
    simp only [Bool.and_eq_true, decide_eq_true_eq] at all
    simp [all]
  case isFalse none =>
    simp only [Bool.and_eq_true, decide_eq_true_eq] at none
    refine iff_of_false (fun found => found.2 rfl) fun found => none ⟨found.1.2, found.2⟩

/-- The stores of a copy that ends early are to accessible addresses. -/
theorem PgDir.store_changes {mem : Bytes.Store} {k : Nat} (front : ∀ i < k, dir.Reachable (va + i))
    {a : Nat} (changed : dir.store mem va (bytes.take k) a ≠ mem a) :
    ∃ i < bytes.length, dir.Accessible (va + i) ∧ dir.phys (va + i) = a := by
  contrapose! changed
  refine store_outside _ fun i inside => ?_
  rw [List.length_take] at inside
  exact changed i (by omega) (reachable_iff.mp (front i (by omega))).1

theorem PgDir.Orderly.right (fits : va + bytes.length ≤ 2 ^ 32) (orderly : dir.Orderly va bytes) :
    dir.CopiesRight va bytes := by
  rintro s cur d rfl
  refine wp_returns (wp_copyoutLoop _ le_rfl fits ?_ ?_ ?_)
  · exact fun k inside front none => absurd none (orderly.table k inside front)
  · intro all
    have user : ∀ i < bytes.length, (s.dirs d).Accessible (va + i) := fun i inside =>
      (reachable_iff.mp (all i inside)).1
    refine ⟨rfl, iff_of_true rfl user, fun _ i inside => ?_, fun a => ?_⟩
    · exact store_inside _ inside fun j small => orderly.agree user j small i inside
    · intro changed
      refine store_changes all (?_ : _ ≠ s.mem a)
      rwa [List.take_length]
  · intro k inside front table missing
    refine ⟨rfl, iff_of_false Bool.false_ne_true fun user => ?_,
      fun none => absurd none Bool.false_ne_true, fun a => store_changes front⟩
    have reached : (s.dirs d).Reachable (va + k) :=
      reachable_iff.mpr ⟨user k inside, orderly.frame user k inside⟩
    exact reached.2 missing

/-- A machine that has the directory at 1, and whose running process has no page. -/
def bareMachine (dir : PgDir) : Kernel :=
  { smallBoot with dirs := fun d => if d = 1 then dir else PgDir.empty }

theorem PgDir.CopiesRight.orderly (fits : va + bytes.length ≤ 2 ^ 32)
    (right : dir.CopiesRight va bytes) : dir.Orderly va bytes := by
  have here : (bareMachine dir).dirs 1 = dir := rfl
  obtain ⟨ok, t, ran, copied⟩ := right (bareMachine dir) 0 1 here
  have stored := copied.stored
  have answer := copied.answer
  rw [here] at stored answer
  constructor
  case table =>
    -- the running process has no page 0, so that a null pointer traps
    intro k inside front none
    have trapped : wp (copyout 0 1 va bytes) (fun _ _ => False) (fun _ => True)
        (bareMachine dir) := by
      refine wp_copyoutLoop _ le_rfl fits (fun _ _ _ _ => ⟨rfl, trivial⟩) ?_ ?_ <;>
        rw [here]
      · exact fun all => (all k inside).1 none
      · intro m small before table missing
        rcases Nat.lt_trichotomy m k with less | rfl | more
        · exact (front m less).2 missing
        · exact table none
        · exact (before k more).1 none
    exact wp_ok trapped ran
  case frame =>
    intro user i inside zero
    have failed : wp (copyout 0 1 va bytes) (fun ok _ => ok = false) (fun _ => True)
        (bareMachine dir) := by
      refine wp_copyoutLoop _ le_rfl fits (fun _ _ _ _ => ⟨rfl, trivial⟩) ?_
        fun _ _ _ _ _ => rfl
      rw [here]
      exact fun all => absurd zero (reachable_iff.mp (all i inside)).2
    exact Bool.false_ne_true ((wp_ok failed ran).symm.trans (answer.mpr user))
  case agree =>
    intro user i inside j inside' same
    have ok := answer.mpr user
    rw [← stored ok i inside, ← stored ok j inside', same]

end Xv6
