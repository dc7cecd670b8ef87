/-
Purpose: The thread library owns each stack block exactly once, as long as
  clone does not fail and a thread is joined only when there is one; runs in
  which it leaks a block and frees a stray pointer.
-/
import Xv6.User.ThreadLib

namespace Xv6

open Bytes Function
open List (mem_cons)

variable {arg : Nat}

/-! ## A block and its stack page -/

namespace BlockOk

variable {ptr : Nat}

theorem stack_eq (ok : BlockOk ptr) : stackOf ptr = (ptr / PGSIZE + 1) * PGSIZE := by
  have fits := ok.fits
  simp only [stackOf, u32, PGSIZE, STACKBLOCK, USERTOP] at *
  omega

theorem stack_inside (ok : BlockOk ptr) : stackOf ptr % PGSIZE = 0 ∧ ptr + 4 ≤ stackOf ptr ∧
      stackOf ptr + PGSIZE ≤ ptr + STACKBLOCK := by
  have aligned := ok.aligned
  rw [ok.stack_eq]
  simp only [PGSIZE, STACKBLOCK] at *
  omega

theorem wordBelow_eq (ok : BlockOk ptr) : wordBelow (stackOf ptr) = stackOf ptr - 4 := by
  have inside := ok.stack_inside
  have fits := ok.fits
  simp only [wordBelow, u32, PGSIZE, STACKBLOCK, USERTOP] at *
  omega

theorem threadSp_eq (ok : BlockOk ptr) : threadSp (stackOf ptr) = stackOf ptr + 4088 := by
  have inside := ok.stack_inside
  have fits := ok.fits
  simp only [threadSp, u32, PGSIZE, STACKBLOCK, USERTOP] at *
  omega

end BlockOk

/-- What `thread_create` and `clone` store for the block `ptr`. -/
def storeStack (memory : Bytes.Store) (ptr arg : Nat) : Bytes.Store :=
  put (put memory (wordBelow (stackOf ptr)) (le32 ptr)) (threadSp (stackOf ptr)) (threadWords arg)

/-- The word below the stack is the block. -/
theorem storeStack_self {memory : Bytes.Store} {ptr : Nat} (ok : BlockOk ptr) :
    word32 (storeStack memory ptr arg) (wordBelow (stackOf ptr)) =
      ptr := by
  have inside := ok.stack_inside
  have fits := ok.fits
  unfold storeStack
  rw [word32_put_outside, word32_put_le32]
  · simp only [STACKBLOCK, USERTOP] at fits
    omega
  · rw [ok.wordBelow_eq, ok.threadSp_eq]
    omega

theorem storeStack_other {memory : Bytes.Store} {ptr other : Nat}
    (ok : BlockOk ptr) (okOther : BlockOk other)
    (apart : ptr + STACKBLOCK ≤ other ∨ other + STACKBLOCK ≤ ptr) :
    word32 (storeStack memory ptr arg) (wordBelow (stackOf other)) =
      word32 memory (wordBelow (stackOf other)) := by
  have inside := ok.stack_inside
  have insideOther := okOther.stack_inside
  have length : (le32 ptr).length = 4 := rfl
  simp only [PGSIZE, STACKBLOCK] at *
  unfold storeStack
  rw [word32_put_outside, word32_put_outside]
  · rw [ok.wordBelow_eq, okOther.wordBelow_eq, length]
    omega
  · rw [ok.threadSp_eq, okOther.wordBelow_eq, threadWords_length]
    omega

namespace ThreadLib

variable {s t : ThreadLib}
variable {i : Slot} {pid b : Nat}

/-! ## The library when nothing fails -/

/-- What the library asks of a move: `clone` accepts its arguments and does not
fail, and there is a thread to join. -/
def Clean (s : ThreadLib) : Move → Prop
  | .create (some ptr) fcn arg env =>
    (env.framed = true ∧ env.Points fcn ∧ env.Points arg ∧ env.Points (stackOf ptr)) ∧
      s.unusedSlot ≠ none ∧ env.page = true ∧ env.copied = true
  | .join _ framed => framed = true ∧ ∃ i, s.isKid i = true
  | _ => True

theorem unusedSlot_congr (same : t.slot = s.slot) : t.unusedSlot = s.unusedSlot := by
  unfold unusedSlot
  rw [same]

theorem clone_clean (found : s.unusedSlot = some i) (arg stack : Nat) {env : CloneEnv}
    (page : env.page = true) (copied : env.copied = true) :
    s.clone arg stack env = ((s.nextpid : Int),
        { s with
          memory := put s.memory (threadSp stack) (threadWords arg)
          slot := update s.slot i (.kid s.nextpid false)
          ustack := update s.ustack i stack
          nextpid := s.nextpid + 1 }) := by
  simp only [clone, found, page, copied, if_true]

/-- `thread_create` when `clone` does not fail. -/
def withThread (s : ThreadLib) (i : Slot) (ptr arg : Nat) : ThreadLib :=
  { s with
    blocks := ptr :: s.blocks
    memory := storeStack s.memory ptr arg
    slot := update s.slot i (.kid s.nextpid false)
    ustack := update s.ustack i (stackOf ptr)
    nextpid := s.nextpid + 1
    made := (s.nextpid, ptr) :: s.made }

theorem withThread_memory (i : Slot) (ptr arg : Nat) :
    (s.withThread i ptr arg).memory = storeStack s.memory ptr arg := by
  simp only [withThread]

theorem threadCreate_clean {ptr fcn arg : Nat} {env : CloneEnv} (found : s.unusedSlot = some i)
    (args : env.framed = true ∧ env.Points fcn ∧ env.Points arg ∧ env.Points (stackOf ptr))
    (page : env.page = true) (copied : env.copied = true) :
    s.threadCreate (some ptr) fcn arg env = ((s.nextpid : Int), s.withThread i ptr arg) := by
  have again : unusedSlot { s with
      blocks := ptr :: s.blocks
      memory := put s.memory (wordBelow (stackOf ptr)) (le32 ptr) } = some i :=
    (unusedSlot_congr (by dsimp only)).trans found
  unfold threadCreate sysClone
  dsimp only
  rw [if_pos args, clone_clean again _ _ page copied, if_neg (by simp)]
  unfold withThread storeStack
  simp only [Int.toNat_natCast]

theorem zombieKid_slot (found : s.zombieKid = some (i, pid)) : s.slot i = .kid pid true := by
  obtain ⟨j, -, here⟩ := List.exists_of_findSome?_eq_some found
  cases slot : s.slot j with
  | unused => simp [slot] at here
  | other => simp [slot] at here
  | kid qid zombie =>
    cases zombie with
    | false => simp [slot] at here
    | true =>
      simp only [slot, Option.some.injEq, Prod.mk.injEq] at here
      obtain ⟨rfl, rfl⟩ := here
      exact slot

/-- The caller owns the blocks of the threads it has created and not yet
joined. -/
structure Owned (s : ThreadLib) : Prop where
  nodup : s.blocks.Nodup
  live : ∀ b, b ∈ s.blocks ↔ ∃ pid, (pid, b) ∈ s.made
  one_block : ∀ pid b c, (pid, b) ∈ s.made → (pid, c) ∈ s.made → b = c
  one_pid : ∀ pid qid b, (pid, b) ∈ s.made → (qid, b) ∈ s.made → pid = qid
  past : ∀ pid b, (pid, b) ∈ s.made → pid < s.nextpid
  ok : ∀ b ∈ s.blocks, BlockOk b
  apart : ∀ b ∈ s.blocks, ∀ c ∈ s.blocks, b ≠ c → b + STACKBLOCK ≤ c ∨ c + STACKBLOCK ≤ b
  word : ∀ b ∈ s.blocks, word32 s.memory (wordBelow (stackOf b)) = b
  kid : ∀ i pid zombie, s.slot i = .kid pid zombie → ∃ b, (pid, b) ∈ s.made ∧ s.ustack i = stackOf b
  one_slot : ∀ i j pid y z, s.slot i = .kid pid y → s.slot j = .kid pid z → i = j

theorem Owned.slots (owned : s.Owned) {slot : Slot → ThreadSlot}
    (same : ∀ i pid zombie, slot i = .kid pid zombie → ∃ z, s.slot i = .kid pid z) :
    Owned { s with slot := slot } := by
  refine { owned with kid := ?_, one_slot := ?_ }
  · intro i pid zombie here
    obtain ⟨z, before⟩ := same i pid zombie here
    exact owned.kid i pid z before
  · intro i j pid y z hereI hereJ
    obtain ⟨y', beforeI⟩ := same i pid y hereI
    obtain ⟨z', beforeJ⟩ := same j pid z hereJ
    exact owned.one_slot i j pid y' z' beforeI beforeJ

theorem Owned.setSlot (owned : s.Owned) {entry : ThreadSlot}
    (same : ∀ pid zombie, entry = .kid pid zombie → ∃ z, s.slot i = .kid pid z) :
    Owned { s with slot := update s.slot i entry } := by
  refine owned.slots fun j pid zombie here => ?_
  by_cases eq : j = i
  · subst eq
    rw [update_self] at here
    exact same pid zombie here
  · rw [update_of_ne eq] at here
    exact ⟨zombie, here⟩

theorem Owned.withThread (owned : s.Owned) {ptr : Nat} (arg : Nat)
    (contract : s.Mallocs ptr) : (s.withThread i ptr arg).Owned := by
  have ok : BlockOk ptr := contract.toBlockOk
  have size : 0 < STACKBLOCK := by decide
  have fresh : ptr ∉ s.blocks := by
    intro mem
    rcases contract.apart ptr mem with before | before <;> omega
  have unknown : ∀ pid, (pid, ptr) ∉ s.made := fun pid mem =>
    fresh ((owned.live ptr).mpr ⟨pid, mem⟩)
  have unborn : ∀ b, (s.nextpid, b) ∉ s.made := fun b mem =>
    Nat.lt_irrefl _ (owned.past _ b mem)
  constructor
  case nodup => exact List.nodup_cons.mpr ⟨fresh, owned.nodup⟩
  case live =>
    intro b
    constructor
    · intro mem
      rcases mem_cons.mp mem with rfl | old
      · exact ⟨s.nextpid, List.mem_cons_self⟩
      · obtain ⟨pid, entry⟩ := (owned.live b).mp old
        exact ⟨pid, List.mem_cons_of_mem _ entry⟩
    · rintro ⟨pid, entry⟩
      rcases mem_cons.mp entry with new | old
      · cases new
        exact List.mem_cons_self
      · exact List.mem_cons_of_mem _ ((owned.live b).mpr ⟨pid, old⟩)
  case one_block =>
    intro pid b c entryB entryC
    rcases mem_cons.mp entryB, mem_cons.mp entryC with ⟨⟨rfl, rfl⟩ | oldB, ⟨rfl, rfl⟩ | oldC⟩
    · rfl
    · exact absurd oldC (unborn c)
    · exact absurd oldB (unborn b)
    · exact owned.one_block pid b c oldB oldC
  case one_pid =>
    intro pid qid b entryP entryQ
    rcases mem_cons.mp entryP, mem_cons.mp entryQ with ⟨⟨rfl, rfl⟩ | oldP, ⟨rfl, rfl⟩ | oldQ⟩
    · rfl
    · exact absurd oldQ (unknown qid)
    · exact absurd oldP (unknown pid)
    · exact owned.one_pid pid qid b oldP oldQ
  case past =>
    intro pid b entry
    rcases mem_cons.mp entry with ⟨rfl, rfl⟩ | old
    · exact Nat.lt_succ_self _
    · exact Nat.lt_succ_of_lt (owned.past pid b old)
  case ok => exact List.forall_mem_cons.mpr ⟨ok, owned.ok⟩
  case apart =>
    intro b memberB c memberC different
    rcases mem_cons.mp memberB, mem_cons.mp memberC with ⟨rfl | oldB, rfl | oldC⟩
    · exact absurd rfl different
    · exact contract.apart c oldC
    · exact (contract.apart b oldB).symm
    · exact owned.apart b oldB c oldC different
  case word =>
    intro b mem
    rw [withThread_memory]
    rcases mem_cons.mp mem with rfl | old
    · exact storeStack_self ok
    · rw [storeStack_other ok (owned.ok b old) (contract.apart b old)]
      exact owned.word b old
  case kid =>
    intro j pid zombie here
    by_cases same : j = i
    · subst same
      simp only [ThreadLib.withThread, update_self, ThreadSlot.kid.injEq] at here ⊢
      exact ⟨ptr, by rw [here.1]; exact List.mem_cons_self, rfl⟩
    · simp only [ThreadLib.withThread, update_of_ne same] at here ⊢
      obtain ⟨b, entry, stack⟩ := owned.kid j pid zombie here
      exact ⟨b, List.mem_cons_of_mem _ entry, stack⟩
  case one_slot =>
    -- an old thread does not have the pid that is given out now
    have older : ∀ j pid z, s.slot j = .kid pid z → pid ≠ s.nextpid := by
      rintro j pid z here rfl
      obtain ⟨b, entry, -⟩ := owned.kid j _ z here
      exact unborn b entry
    intro j k pid y z hereJ hereK
    simp only [ThreadLib.withThread, update_apply] at hereJ hereK
    split_ifs at hereJ hereK with sameJ sameK sameK
    · rw [sameJ, sameK]
    · cases hereJ
      exact absurd rfl (older k _ z hereK)
    · cases hereK
      exact absurd rfl (older j _ y hereJ)
    · exact owned.one_slot j k pid y z hereJ hereK

/-- `thread_join` of the thread in slot `i`. -/
def withoutThread (s : ThreadLib) (i : Slot) (pid b : Nat) : ThreadLib :=
  { s with
    slot := update s.slot i .unused
    blocks := s.blocks.erase b
    frees := b :: s.frees
    made := s.made.filter fun entry => (entry.1 : Int) != pid }

theorem mem_withoutThread {entry : Nat × Nat} :
    entry ∈ (s.withoutThread i pid b).made ↔ entry ∈ s.made ∧ entry.1 ≠ pid := by
  have kept : (s.withoutThread i pid b).made =
      s.made.filter fun entry => (entry.1 : Int) != pid := rfl
  rw [kept, List.mem_filter, bne_iff_ne, Ne, Int.ofNat_inj]

/-- `thread_join` with a thread to join takes the stack of a thread that has
exited. -/
theorem threadJoin_clean (owned : s.Owned) {garbage : Nat} {result : Int}
    (joinable : ∃ i, s.isKid i = true) (joined : s.threadJoin garbage true = some (result, t)) :
    ∃ i pid b, s.slot i = .kid pid true ∧ (pid, b) ∈ s.made ∧
      result = pid ∧ t = s.withoutThread i pid b := by
  simp only [threadJoin, sysJoin, Bool.true_eq_false, if_false] at joined
  cases found : s.zombieKid with
  | none =>
    obtain ⟨i, isKid⟩ := joinable
    have some : (List.finRange NPROC).any s.isKid = true :=
      List.any_eq_true.mpr ⟨i, List.mem_finRange i, isKid⟩
    simp only [found, some, if_true, reduceCtorEq] at joined
  | some entry =>
    obtain ⟨i, pid⟩ := entry
    have here := zombieKid_slot found
    obtain ⟨b, mem, stack⟩ := owned.kid i pid true here
    have word := owned.word b ((owned.live b).mpr ⟨pid, mem⟩)
    refine ⟨i, pid, b, here, mem, ?_⟩
    simp only [found, stack, word, Option.some.injEq, Prod.mk.injEq] at joined
    exact ⟨joined.1.symm, joined.2.symm⟩

theorem Owned.withoutThread (owned : s.Owned)
    (here : s.slot i = .kid pid true) (mem : (pid, b) ∈ s.made) :
    (s.withoutThread i pid b).Owned := by
  have left : ∀ c, c ∈ s.blocks.erase b → c ∈ s.blocks := fun c inside =>
    List.mem_of_mem_erase inside
  have before : ∀ {j qid zombie}, (s.withoutThread i pid b).slot j = .kid qid zombie →
      j ≠ i ∧ s.slot j = .kid qid zombie := by
    intro j qid zombie hereJ
    simp only [ThreadLib.withoutThread, update_apply] at hereJ
    split_ifs at hereJ with same
    exact ⟨same, hereJ⟩
  constructor
  case nodup => exact owned.nodup.erase b
  case live =>
    intro c
    have erased : c ∈ (s.withoutThread i pid b).blocks ↔
        c ≠ b ∧ c ∈ s.blocks := owned.nodup.mem_erase_iff
    rw [erased, owned.live]
    constructor
    · rintro ⟨other, qid, entry⟩
      refine ⟨qid, mem_withoutThread.mpr ⟨entry, ?_⟩⟩
      rintro rfl
      exact other (owned.one_block _ c b entry mem)
    · rintro ⟨qid, entry⟩
      obtain ⟨old, other⟩ := mem_withoutThread.mp entry
      refine ⟨?_, qid, old⟩
      rintro rfl
      exact other (owned.one_pid qid pid c old mem)
  case one_block =>
    intro qid c d entryC entryD
    exact owned.one_block qid c d (mem_withoutThread.mp entryC).1 (mem_withoutThread.mp entryD).1
  case one_pid =>
    intro qid rid c entryQ entryR
    exact owned.one_pid qid rid c (mem_withoutThread.mp entryQ).1 (mem_withoutThread.mp entryR).1
  case past =>
    intro qid c entry
    exact owned.past qid c (mem_withoutThread.mp entry).1
  case ok => exact fun c inside => owned.ok c (left c inside)
  case apart =>
    intro c insideC d insideD
    exact owned.apart c (left c insideC) d (left d insideD)
  case word => exact fun c inside => owned.word c (left c inside)
  case kid =>
    intro j qid zombie hereJ
    obtain ⟨other, was⟩ := before hereJ
    obtain ⟨c, entry, stack⟩ := owned.kid j qid zombie was
    refine ⟨c, mem_withoutThread.mpr ⟨entry, ?_⟩, stack⟩
    rintro rfl
    exact other (owned.one_slot j i _ zombie true was here)
  case one_slot =>
    intro j k qid y z hereJ hereK
    exact owned.one_slot j k qid y z (before hereJ).2 (before hereK).2

/-- A slot that nobody uses goes to another process. -/
theorem Owned.occupy (owned : s.Owned) (unused : s.slot i = .unused) (ustack : Nat) : Owned { s with
      slot := update s.slot i .other
      ustack := update s.ustack i ustack
      nextpid := s.nextpid + 1 } := by
  have slots : Owned { s with slot := update s.slot i .other } := owned.setSlot nofun
  refine { slots with past := ?_, kid := ?_ }
  · intro pid b entry
    exact Nat.lt_succ_of_lt (owned.past pid b entry)
  · intro j pid zombie here
    have other : j ≠ i := by
      rintro rfl
      simp only [update_self, reduceCtorEq] at here
    simp only [update_of_ne other] at here ⊢
    exact owned.kid j pid zombie here

theorem Owned.step (owned : s.Owned) {move : Move} (clean : s.Clean move)
    (taken : s.step move = some t) : t.Owned := by
  cases move with
  | create ptr fcn arg env =>
    simp only [ThreadLib.step] at taken
    split at taken
    · rename_i contract
      cases taken
      cases ptr with
      | none => exact owned
      | some ptr =>
        obtain ⟨args, some, page, copied⟩ := clean
        obtain ⟨i, found⟩ := Option.ne_none_iff_exists'.mp some
        rw [threadCreate_clean found args page copied]
        exact owned.withThread arg (contract ptr rfl)
    · cases taken
  | join garbage framed =>
    obtain ⟨⟨result, after⟩, joined, rfl⟩ := Option.map_eq_some_iff.mp taken
    obtain ⟨rfl, joinable⟩ := clean
    obtain ⟨i, pid, b, here, mem, -, rfl⟩ := threadJoin_clean owned joinable joined
    exact owned.withoutThread here mem
  | exit i =>
    simp only [ThreadLib.step] at taken
    split at taken
    · rename_i pid here
      cases taken
      refine owned.setSlot ?_
      rintro qid zombie ⟨rfl, rfl⟩
      exact ⟨false, here⟩
    · cases taken
  | exec i | vacate i =>
    simp only [ThreadLib.step] at taken
    split at taken
    · cases taken
      exact owned.setSlot nofun
    · cases taken
  | occupy i ustack =>
    simp only [ThreadLib.step] at taken
    split at taken
    · rename_i here
      cases taken
      exact owned.occupy here ustack
    · cases taken

theorem Starts.owned (starts : s.Starts) : s.Owned := by
  have noBlock : ∀ b, b ∉ s.blocks := by
    rw [starts.blocks]
    exact fun b => List.not_mem_nil
  have noThread : ∀ entry, entry ∉ s.made := by
    rw [starts.made]
    exact fun entry => List.not_mem_nil
  have noKid : ∀ i pid zombie, s.slot i ≠ .kid pid zombie := by
    intro i pid zombie here
    have none := starts.slots i
    simp [isKid, here] at none
  constructor
  case nodup =>
    rw [starts.blocks]
    exact List.nodup_nil
  case live =>
    intro b
    constructor
    · intro mem
      exact absurd mem (noBlock b)
    · rintro ⟨pid, entry⟩
      exact absurd entry (noThread _)
  case one_block => exact fun pid b c entry => absurd entry (noThread _)
  case one_pid => exact fun pid qid b entry => absurd entry (noThread _)
  case past => exact fun pid b entry => absurd entry (noThread _)
  case ok | apart | word => exact fun b mem => absurd mem (noBlock b)
  case kid => exact fun i pid zombie here => absurd here (noKid i pid zombie)
  case one_slot =>
    exact fun i j pid y z here => absurd here (noKid i pid y)

/-- The blocks in use are those of the threads created and not yet joined, a
join frees the block of the thread it returns, and the stack page with the word
below it lies inside every block. -/
theorem stacks_owned {s : ThreadLib} (reached : Reaches Clean s) :
    (s.blocks.Nodup ∧ ∀ b, b ∈ s.blocks ↔ ∃ pid, (pid, b) ∈ s.made) ∧
      (∀ garbage result t, (∃ i, s.isKid i = true) → s.threadJoin garbage true = some (result, t) →
        ∃ pid b : Nat, result = pid ∧ (pid, b) ∈ s.made ∧
          t.frees = b :: s.frees ∧ t.blocks = s.blocks.erase b ∧
          ∀ entry, entry ∈ t.made ↔ entry ∈ s.made ∧ entry ≠ (pid, b)) ∧
      ∀ ptr, s.Mallocs ptr → stackOf ptr % PGSIZE = 0 ∧ ptr ≤ wordBelow (stackOf ptr) ∧
        wordBelow (stackOf ptr) + 4 = stackOf ptr ∧
        stackOf ptr + PGSIZE ≤ ptr + STACKBLOCK := by
  have owned : s.Owned :=
    Reach.invariant (fun s starts => starts.owned)
      (fun s move t owned clean taken => owned.step clean taken) reached
  refine ⟨⟨owned.nodup, owned.live⟩, ?_, ?_⟩
  · intro garbage result t joinable joined
    obtain ⟨i, pid, b, -, mem, returned, rfl⟩ := threadJoin_clean owned joinable joined
    refine ⟨pid, b, returned, mem, rfl, rfl, ?_⟩
    rintro ⟨qid, c⟩
    rw [mem_withoutThread]
    constructor
    · rintro ⟨entry, other⟩
      refine ⟨entry, ?_⟩
      rintro ⟨rfl, rfl⟩
      exact other rfl
    · rintro ⟨entry, other⟩
      refine ⟨entry, ?_⟩
      rintro rfl
      exact other (by rw [owned.one_block _ c b entry mem])
  · intro ptr contract
    have inside := contract.stack_inside
    have below := contract.wordBelow_eq
    exact ⟨inside.1, by omega, by omega, inside.2.2⟩

/-- The first two slots belong to other processes, the second one of which is
the caller. -/
def small : ThreadLib where
  memory := fun _ => 0
  blocks := []
  slot := fun i => if (i : Nat) < 2 then .other else .unused
  ustack := fun _ => 0
  nextpid := 3
  made := []
  frees := []

theorem small_starts : small.Starts where
  blocks := rfl
  made := rfl
  slots := by decide

instance (s : ThreadLib) (move : Move) : Decidable (s.Clean move) :=
  match move with
  | .create (some _) _ _ _ => inferInstanceAs (Decidable ((_ ∧ _ ∧ _ ∧ _) ∧ _ ∧ _ ∧ _))
  | .join _ _ => inferInstanceAs (Decidable (_ ∧ ∃ _, _))
  | .create none _ _ _ | .exit _ | .exec _ | .occupy _ _ | .vacate _ =>
    inferInstanceAs (Decidable True)

/-- The caller has 32 KB, and nothing fails. -/
def roomy : CloneEnv := { sz := 32768, framed := true, page := true, copied := true }

/-- Two threads are created, and the second is joined first. -/
def twoThreads : List Move :=
  [.create (some 16) 96 7 roomy, .create (some 8216) 96 8 roomy, .exit 3, .join 0 true]

theorem twoThreads_owned : ∃ s, Reaches Clean s ∧
    (s.blocks, s.made, s.frees) = ([16], [(3, 16)], [8216]) ∧
    ∀ b, b ∈ s.blocks ↔ ∃ pid, (pid, b) ∈ s.made := by
  have run : (twoThreads.foldlM (fun s move =>
      if decide (s.Clean move) then s.step move else none) small).map
        (fun s => (s.blocks, s.made, s.frees)) =
      some ([16], [(3, 16)], [8216]) := by
    decide +kernel
  obtain ⟨s, reaches, shown⟩ := Option.map_eq_some_iff.mp run
  have reached : Reaches Clean s :=
    Reach.checked (fun _ _ => of_decide_eq_true) (.start small_starts) reaches
  exact ⟨s, reached, shown, (stacks_owned reached).1.2⟩

/-- A join with no thread returns -1 and calls `free`; a `clone` that finds no
page for the kernel stack, or whose argument is no address of the caller, leaves
its block allocated. -/
theorem stacks_stray : small.Starts ∧ small.Mallocs 16 ∧
    (small.threadJoin 4096 true).map (fun joined => (joined.1, joined.2.frees)) =
      some (-1, [0]) ∧
    ∀ call ∈ [(7, { roomy with page := false }), (0xffffffff, roomy)],
      ((small.threadCreate (some 16) 96 call.1 call.2).1,
        (small.threadCreate (some 16) 96 call.1 call.2).2.blocks,
        (small.threadCreate (some 16) 96 call.1 call.2).2.made) = (-1, [16], []) := by
  refine ⟨small_starts, by decide, ?_, ?_⟩ <;> decide +kernel

end ThreadLib

end Xv6
