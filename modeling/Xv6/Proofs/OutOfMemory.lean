/-
Purpose: When a failed `fork` or `exec` has lost nothing.  All their failures
  are undone but one: when `setupkvm` runs out of pages, those it has taken
  are never given back.
-/
import Xv6.Proofs.CloneFailure
import Xv6.Proofs.ExecLayout
import Xv6.Proofs.ForkCopy

namespace Xv6

open Function PanicM

/-- The kernel half of a failed call: the same pages are free, the counts of
directories and keys, the caller and its mappings are as before, and no slot
has come into use. -/
structure KernelKept (s t : Kernel) (cur : Slot) : Prop where
  free : ∀ page, page ∈ t.freelist ↔ page ∈ s.freelist
  refs : t.refs = s.refs
  shm : t.shmTab = s.shmTab
  caller : t.proc cur = s.proc cur
  mappings : t.dirs (s.proc cur).pgdir = s.dirs (s.proc cur).pgdir
  slots : ∀ i, (s.proc i).state = .unused → (t.proc i).state = .unused

/-- A process that makes the call. -/
structure Calling (img : Image) (m : Machine) (cur : Slot) : Prop where
  forker : Forker img m.kernel cur
  states : ∀ i, m.files.state i = (m.kernel.proc i).state
  cwd : ∃ cwd, m.files.fs.cwd cur = some cwd

/-! ## The kernel half -/

section Kernel

variable {img : Image} {s t w : Kernel} {cur : Slot}
variable {argv : List (List UInt8)}

theorem KernelKept.refl (s : Kernel) (cur : Slot) : KernelKept s s cur :=
  ⟨fun _ => Iff.rfl, rfl, rfl, rfl, rfl, fun _ unused => unused⟩

/-- Nothing is lost when the tables are as before and all pages are back. -/
theorem KernelKept.of_records (records : t.records = s.records) (free : t.freelist.Perm s.freelist)
    (dirs : t.dirs (s.proc cur).pgdir = s.dirs (s.proc cur).pgdir) : KernelKept s t cur where
  free _ := free.mem_iff
  refs := congrArg (fun records => records.1.refs) records
  shm := congrArg Prod.snd records
  caller := congrFun (Kernel.proc_eq records) cur
  mappings := dirs
  slots i unused := by rw [Kernel.proc_eq records]; exact unused

/-- No page is left of those that were free. -/
theorem KernelKept.not_empty (filled : s.freelist ≠ [])
    (empty : t.freelist = []) : ¬ KernelKept s t cur := by
  intro kept
  obtain ⟨page, mem⟩ := List.exists_mem_of_ne_nil _ filled
  have there := (kept.free page).mpr mem
  rw [empty] at there
  cases there

theorem KernelKept.forkUndone {np : Slot} {page : Nat} {rest : List Nat}
    (forker : Forker img s cur) (found : s.unusedSlot = some np) (list : s.freelist = page :: rest)
    (records : t.records = (s.embryo np page rest).records) (free : t.freelist.Perm rest)
    (dirs : t.dirs (s.proc cur).pgdir = s.dirs (s.proc cur).pgdir) :
    KernelKept s (t.forkUndone np) cur := by
  have other := forker.other found
  have proc : t.proc = (s.embryo np page rest).proc := Kernel.proc_eq records
  have stack : (t.proc np).kstack = page := by
    rw [proc]
    change (update s.proc np _ np).kstack = _
    rw [update_self]
    rfl
  constructor
  case free =>
    intro p
    change p ∈ (t.proc np).kstack :: t.freelist ↔ _
    rw [stack, list]
    exact (free.cons page).mem_iff
  case refs => exact congrArg (fun records => records.1.refs) records
  case shm => exact congrArg Prod.snd records
  case caller =>
    change update t.proc np _ cur = _
    rw [update_of_ne other, proc]
    exact update_of_ne other _ _
  case mappings => exact dirs
  case slots =>
    intro i unused
    change (update t.proc np _ i).state = _
    by_cases here : i = np
    · rw [here, update_self]
    · rw [update_of_ne here, proc]
      change (update s.proc np _ i).state = _
      rw [update_of_ne here]
      exact unused

/-- A failed `fork` loses the pages that `setupkvm` took in vain. -/
theorem ForkEnds.kept_iff (forker : Forker img s cur) (ends : ForkEnds img s cur (-1) w) :
    KernelKept s w cur ↔ s.unusedSlot = none ∨ s.freelist.length < 2 ∨ 13 < s.freelist.length := by
  generalize result : (-1 : Int) = r at ends
  cases ends with
  | full none => exact ⟨fun _ => .inl none, fun _ => .refl s cur⟩
  | noPage np found empty =>
    refine ⟨fun _ => .inr (.inl (by rw [empty]; decide)), fun _ => ?_⟩
    have other := forker.other found
    refine ⟨fun _ => Iff.rfl, rfl, rfl, update_of_ne other _ _, rfl, fun i unused => ?_⟩
    change (update s.proc np _ i).state = _
    by_cases here : i = np
    · rw [here, update_self]
      rfl
    · rw [update_of_ne here]
      exact unused
  | failed np page rest t found list copied =>
    have away : (s.proc cur).pgdir ∉ rest := by
      intro mem
      apply forker.inUse
      rw [list]
      exact List.mem_cons_of_mem page mem
    have total : s.freelist.length = rest.length + 1 := by
      rw [list, List.length_cons]
    have records := copied.records
    cases copied with
    | empty none =>
      change rest = [] at none
      refine ⟨fun _ => .inr (.inl ?_), fun _ => ?_⟩
      · rw [total, none]
        decide
      · exact .forkUndone forker found list rfl (.refl _) rfl
    | short _ filled few _ empty _ =>
      change rest ≠ [] at filled
      change rest.length < 13 at few
      have some := List.length_pos_of_ne_nil filled
      constructor
      · intro kept
        exfalso
        obtain ⟨p, mem⟩ := List.exists_mem_of_ne_nil _ filled
        have nodup := forker.stocked.nodup
        rw [list, List.nodup_cons] at nodup
        have back := (kept.free p).mpr (by
          rw [list]
          exact List.mem_cons_of_mem page mem)
        have stack : (t.proc np).kstack = page := by
          rw [Kernel.proc_eq records]
          change (update s.proc np _ np).kstack = _
          rw [update_self]
          rfl
        change p ∈ (t.proc np).kstack :: t.freelist at back
        rw [stack, empty, List.mem_singleton] at back
        exact nodup.1 (back ▸ mem)
      · rintro (none | few' | many)
        · rw [found] at none
          cases none
        · omega
        · omega
    | undone _ enough _ _ free dirs =>
      change 13 ≤ rest.length at enough
      refine ⟨fun _ => .inr (.inr (by omega)), fun _ => ?_⟩
      exact .forkUndone forker found list records free (dirs _ away)
  | done => omega

/-- A failed `exec` loses the pages that `setupkvm` took in vain. -/
theorem LoadEnds.kept_iff {file : Option FileImage}
    {F : Prop} {I : Nat → List Nat → Nat → Kernel → Prop} (inUse : (s.proc cur).pgdir ∉ s.freelist)
    (ends : LoadEnds img s cur file argv F I none t) :
    KernelKept s t cur ↔ program file = none ∨ s.freelist.length = 0 ∨ 13 ≤ s.freelist.length := by
  cases ends with
  | absent none => exact ⟨fun _ => .inl none, fun _ => .refl s cur⟩
  | empty _ none =>
    refine ⟨fun _ => .inr (.inl ?_), fun _ => .refl s cur⟩
    rw [none]
    rfl
  | short _ there filled few _ empty _ =>
    have some := List.length_pos_of_ne_nil filled
    constructor
    · exact fun kept => absurd kept (KernelKept.not_empty filled empty)
    · rintro (none | zero | many)
      · exact absurd none there
      · omega
      · omega
  | undone _ _ enough records free dirs _ =>
    exact ⟨fun _ => .inr (.inr enough), fun _ =>
      .of_records records free (dirs _ inUse)⟩

end Kernel

/-! ## Both halves -/

section Files

variable {img : Image} {m m' : Machine} {cur : Slot}

/-- Without a copy of the address space no reference is taken. -/
theorem Calling.wp_files {E : Files.Stop → Prop} (calling : Calling img m cur) (kstack : Bool) :
    wp (Files.withCwd cur fun cwd => Files.fork cur cwd kstack false)
      (fun _ files => files = m.files) E m.files := by
  obtain ⟨cwd, here⟩ := calling.cwd
  rw [Files.withCwd, wp_bind, wp_get, here]
  dsimp only
  rw [Files.fork, wp_bind, Files.allocproc, wp_bind, wp_get]
  split
  · exact rfl
  · rename_i np found
    have unused : m.files.state np = .unused := by
      have holds := List.find?_some found
      simpa using holds
    split
    · rw [wp_bind, wp_modify, wp_pure]
      dsimp only
      rw [if_neg Bool.false_ne_true, wp_bind, wp_modify, wp_pure]
      unfold Files.setState
      simp only [update_idem]
      rw [← unused, update_eq_self]
    · exact rfl

end Files

/-- A program at the path has no segment that wraps around. -/
def Machine.Straight (m : Machine) (typed : List UInt8) (cur : Slot) (path : List UInt8) : Prop :=
  ∀ cwd file fs, m.files.fs.cwd cur = some cwd →
    Fs.execFile typed cwd path m.files.fs = .ok (file, fs) → Xv6.Straight file

section Calls

variable {img : Image} {m : Machine} {cur : Slot}

end Calls

/-! ## Too few pages -/

end Xv6
