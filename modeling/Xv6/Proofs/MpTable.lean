/-
Purpose: The scan of an MP configuration table ends and stays in bounds exactly when the table is a
  sequence of known entries with at most NCPU processors.
-/
import Xv6.Kernel.Mp
import Xv6.Lib.Run

namespace Xv6.Mp

open Bytes

variable {fuel p n conf : Nat}

/-- From `p` up to `e` there are entries of known types, `n` of them processors. -/
inductive MpEntries (mem : Store) (e : Nat) : Nat → Nat → Prop where
  | done {p : Nat} (past : e ≤ p) : MpEntries mem e p 0
  | proc {p n : Nat} (inside : p < e) (type : (mem p).toNat = 0)
      (rest : MpEntries mem e (p + 20) n) : MpEntries mem e p (n + 1)
  | other {p n : Nat} (inside : p < e) (low : 1 ≤ (mem p).toNat) (high : (mem p).toNat ≤ 4)
      (rest : MpEntries mem e (p + 8) n) : MpEntries mem e p n

/-- States of the scan at the head of the loop. -/
def Scanned (mem : Store) (conf : Nat) : MpScan → Prop :=
  Reach (· = mpStart conf) (fun s (_ : Unit) t => s.p < mpEnd mem conf ∧ t = mpStep mem s)
    fun _ _ => True

/-- The scan ends, reads entries that start inside the table, and keeps to `cpus[]`. -/
structure ScanOk (mem : Store) (conf : Nat) : Prop where
  ends : ∃ fuel s, mpinit mem conf fuel = some s
  entries : ∀ s, Scanned mem conf s → s.p < mpEnd mem conf → conf + MPCONFSIZE ≤ s.p
  cpus : ∀ s, Scanned mem conf s → ∀ i ∈ s.cpus, i < NCPU

variable {mem : Store} {e : Nat} {s : MpScan}

theorem mpStep_cases (mem : Store) (s : MpScan) :
    ((mem s.p).toNat = 0 ∧ (mpStep mem s).p = s.p + 20 ∧ (mpStep mem s).ncpu = s.ncpu + 1 ∧
      (mpStep mem s).cpus = s.ncpu :: s.cpus) ∨
    ((mpStep mem s).ncpu = s.ncpu ∧ (mpStep mem s).cpus = s.cpus ∧
      (1 ≤ (mem s.p).toNat ∧ (mem s.p).toNat ≤ 4 ∧ (mpStep mem s).p = s.p + 8 ∨
        4 < (mem s.p).toNat ∧ (mpStep mem s).p = s.p)) := by
  unfold mpStep
  split <;> simp_all
  omega

theorem mpStep_le (mem : Store) (s : MpScan) : s.p ≤ (mpStep mem s).p := by
  have cases := mpStep_cases mem s
  omega

/-- An unknown entry is never passed. -/
theorem mpLoop_unknown (fuel : Nat) (inside : s.p < e) (unknown : 4 < (mem s.p).toNat) :
    mpLoop mem e s fuel = none := by
  induction fuel generalizing s with
  | zero => rfl
  | succ fuel ih =>
    have same : (mpStep mem s).p = s.p := by
      have cases := mpStep_cases mem s
      omega
    rw [mpLoop, if_neg (Nat.not_le.mpr inside), ih (same ▸ inside) (same ▸ unknown)]

theorem entries_of_loop (ends : mpLoop mem e s fuel ≠ none) : ∃ n, MpEntries mem e s.p n := by
  induction fuel generalizing s with
  | zero => exact absurd rfl ends
  | succ fuel ih =>
    by_cases past : e ≤ s.p
    · exact ⟨0, .done past⟩
    have inside := Nat.lt_of_not_le past
    have later := ends
    rw [mpLoop, if_neg past] at later
    obtain ⟨n, rest⟩ := ih later
    rcases mpStep_cases mem s with ⟨type, next, -⟩ | ⟨-, -, ⟨low, high, next⟩ | ⟨unknown, -⟩⟩
    · exact ⟨n + 1, .proc inside type (next ▸ rest)⟩
    · exact ⟨n, .other inside low high (next ▸ rest)⟩
    · exact absurd (mpLoop_unknown (fuel + 1) inside unknown) ends

theorem loop_of_entries (entries : MpEntries mem e p n) (here : s.p = p) :
    ∃ fuel, mpLoop mem e s fuel ≠ none := by
  induction entries generalizing s with
  | done past => exact ⟨1, by simp [mpLoop, here, past]⟩
  | proc inside type rest ih | other inside low high rest ih =>
    obtain ⟨fuel, ends⟩ := ih (s := mpStep mem s) (by
      have cases := mpStep_cases mem s
      subst here
      omega)
    exact ⟨fuel + 1, by simpa [mpLoop, here, Nat.not_le.mpr inside] using ends⟩

theorem mpinit_eq_none : mpinit mem conf fuel = none ↔
    mpLoop mem (mpEnd mem conf) (mpStart conf) fuel = none := Option.map_eq_none_iff

/-- The processors that are still to come find room, where the scan keeps to `cpus[]`. -/
theorem room_of_scan (ok : ∀ s, Scanned mem conf s → ∀ i ∈ s.cpus, i < NCPU)
    (entries : MpEntries mem (mpEnd mem conf) p n) (scanned : Scanned mem conf s)
    (here : s.p = p) : s.ncpu + n ≤ NCPU ∨ n = 0 := by
  induction entries generalizing s with
  | done past => exact Or.inr rfl
  | proc inside type _ ih =>
    subst here
    have next : Scanned mem conf (mpStep mem s) := .next (a := ()) scanned trivial ⟨inside, rfl⟩
    rcases mpStep_cases mem s with ⟨_, step, ncpu, cpus⟩ | ⟨-, -, known | unknown⟩
    · have bound := ok _ next s.ncpu (cpus ▸ List.mem_cons_self)
      have room := ih next step
      omega
    all_goals omega
  | other inside low high _ ih =>
    subst here
    have next : Scanned mem conf (mpStep mem s) := .next (a := ()) scanned trivial ⟨inside, rfl⟩
    rcases mpStep_cases mem s with ⟨type, -⟩ | ⟨ncpu, -, ⟨_, _, step⟩ | unknown⟩
    · omega
    · have room := ih next step
      omega
    · omega

/-- Known entries with at most NCPU processors keep the scan in bounds. -/
theorem scan_of_entries (few : n ≤ NCPU)
    (entries : MpEntries mem (mpEnd mem conf) (conf + MPCONFSIZE) n)
    (scanned : Scanned mem conf s) : (∀ i ∈ s.cpus, i < NCPU) ∧
      ∃ m, MpEntries mem (mpEnd mem conf) s.p m ∧ s.ncpu + m ≤ NCPU := by
  refine Reach.invariant (I := fun s => (∀ i ∈ s.cpus, i < NCPU) ∧
    ∃ m, MpEntries mem (mpEnd mem conf) s.p m ∧ s.ncpu + m ≤ NCPU) ?_ ?_ scanned
  · rintro _ rfl
    exact ⟨by simp [mpStart], n, entries, by simpa [mpStart] using few⟩
  · rintro s _ _ ⟨bounded, m, entries, room⟩ _ ⟨inside, rfl⟩
    rcases mpStep_cases mem s with ⟨type, step, ncpu, cpus⟩ | ⟨ncpu, cpus, known | unknown⟩
    · cases entries with
      | done past => omega
      | proc _ _ rest =>
        rw [ncpu, cpus, step]
        exact ⟨List.forall_mem_cons.mpr ⟨by omega, bounded⟩, _, rest, by omega⟩
      | other _ low _ _ => omega
    · cases entries with
      | done past => omega
      | proc _ type _ => omega
      | other _ _ _ rest =>
        rw [ncpu, cpus, known.2.2]
        exact ⟨bounded, m, rest, room⟩
    · cases entries <;> omega

/-- The scan is in order exactly for sequences of known entries with at most NCPU processors. -/
theorem scan_ok_iff (mem : Store) (conf : Nat) : ScanOk mem conf ↔
    ∃ n ≤ NCPU, MpEntries mem (mpEnd mem conf) (conf + MPCONFSIZE) n := by
  constructor
  · rintro ⟨⟨fuel, last, ends⟩, -, cpus⟩
    have loop := mt mpinit_eq_none.mpr (ends ▸ Option.some_ne_none last)
    obtain ⟨n, entries⟩ := entries_of_loop loop
    have room := room_of_scan cpus entries (.start rfl) rfl
    exact ⟨n, by simp only [mpStart] at room; omega, entries⟩
  · rintro ⟨n, few, entries⟩
    obtain ⟨fuel, ends⟩ := loop_of_entries (s := mpStart conf) entries rfl
    refine ⟨⟨fuel, Option.ne_none_iff_exists'.mp (mt mpinit_eq_none.mp ends)⟩, ?_, ?_⟩
    · intro s scanned _
      refine Reach.invariant (I := fun s => conf + MPCONFSIZE ≤ s.p) ?_ ?_ scanned
      · rintro _ rfl
        exact Nat.le_refl _
      · rintro s _ _ low _ ⟨_, rfl⟩
        exact low.trans (mpStep_le mem s)
    · exact fun s scanned => (scan_of_entries few entries scanned).1

/-- A table of 45 bytes whose only entry has the unknown type 5, and sum 0. -/
def oddTable : Store := ofList ([80, 67, 77, 80, 45, 0, 1, 157] ++ List.replicate 36 0 ++ [5])

/-- The table is accepted, and the scan of it does not end. -/
theorem unknown_entry_hangs : mpconfig oddTable 0 = true ∧ ¬ ScanOk oddTable 0 := by
  refine ⟨by decide +kernel, ?_⟩
  rintro ⟨⟨fuel, last, ends⟩, -⟩
  have hangs : mpLoop oddTable (mpEnd oddTable 0) (mpStart 0) fuel = none :=
    mpLoop_unknown fuel (by decide +kernel) (by decide +kernel)
  rw [mpinit_eq_none.mpr hangs] at ends
  cases ends

end Xv6.Mp
