/-
Purpose: The argument stack that `exec` builds: where the strings and the
  words go, what the new address space shows there, and when they do not fit.
-/
import Xv6.Proofs.NewDir

namespace Xv6

open PanicM
open Bytes (le32)
open List (length_append length_cons length_nil)

/-! ## Addresses -/

/-- The addresses of the strings, first argument first. -/
def argPtrs (sp : Nat) : List (List UInt8) → List Nat
  | [] => []
  | arg :: rest => argSp sp arg :: argPtrs (argSp sp arg) rest

/-- The stack pointer below the strings. -/
def argEnd (sp : Nat) : List (List UInt8) → Nat
  | [] => sp
  | arg :: rest => argEnd (argSp sp arg) rest

/-- No string reaches below address 0. -/
def ArgsFit (sp : Nat) : List (List UInt8) → Prop
  | [] => True
  | arg :: rest => arg.length + 1 ≤ sp ∧ ArgsFit (argSp sp arg) rest

instance ArgsFit.decidable : (sp : Nat) → (args : List (List UInt8)) → Decidable (ArgsFit sp args)
  | _, [] => .isTrue trivial
  | sp, arg :: rest =>
    haveI := ArgsFit.decidable (argSp sp arg) rest
    inferInstanceAs (Decidable (_ ∧ _))

/-- Bytes of the words below the strings. -/
def ustackSize (args : List (List UInt8)) : Nat := (3 + args.length + 1) * 4

/-- Neither the strings nor the words reach below address 0. -/
def StackFits (top : Nat) (args : List (List UInt8)) : Prop :=
  ArgsFit top args ∧ ustackSize args ≤ argEnd top args

instance (top : Nat) (args : List (List UInt8)) : Decidable (StackFits top args) :=
  inferInstanceAs (Decidable (_ ∧ _))

/-- The arguments are strings of a 32-bit machine. -/
def Strings (args : List (List UInt8)) : Prop :=
  ∀ arg ∈ args, arg.length + 1 < 2 ^ 32

instance (args : List (List UInt8)) : Decidable (Strings args) :=
  inferInstanceAs (Decidable (∀ _ ∈ _, _))

section Addresses

variable {sp top : Nat} {arg : List UInt8} {args : List (List UInt8)}

theorem argSp_fits (fits : arg.length + 1 ≤ sp) (small : sp < 2 ^ 32) :
    argSp sp arg = (sp - (arg.length + 1)) / 4 * 4 := by
  unfold argSp u32
  omega

theorem argSp_lt (sp : Nat) (arg : List UInt8) : argSp sp arg < 2 ^ 32 := by
  have := u32_lt (sp + 2 ^ 32 - (arg.length + 1))
  unfold argSp
  omega

theorem argSp_below (fits : arg.length + 1 ≤ sp) (small : sp < 2 ^ 32) :
    argSp sp arg + (arg ++ [0]).length ≤ sp := by
  rw [argSp_fits fits small, length_append, List.length_singleton]
  omega

/-- A string that does not fit is placed so that it reaches the last page of
the address space. -/
theorem argSp_wrapped (tooFar : sp < arg.length + 1) (string : arg.length + 1 < 2 ^ 32) :
    0xFFFFF000 < argSp sp arg + (arg ++ [0]).length := by
  rw [length_append, List.length_singleton]
  unfold argSp u32
  omega

theorem argEnd_le (fits : ArgsFit sp args) (small : sp < 2 ^ 32) : argEnd sp args ≤ sp := by
  induction args generalizing sp with
  | nil => exact Nat.le_refl sp
  | cons arg rest ih =>
    have below := argSp_below fits.1 small
    have later := ih fits.2 (argSp_lt sp arg)
    rw [argEnd]
    omega

theorem length_argPtrs : (argPtrs sp args).length = args.length := by
  induction args generalizing sp with
  | nil => rfl
  | cons arg rest ih =>
    rw [argPtrs, length_cons, length_cons, ih]

/-- A range of addresses: its start and its length. -/
abbrev Extent := Nat × Nat

/-- The two ranges have no address in common. -/
def Extent.Apart (one two : Extent) : Prop :=
  one.1 + one.2 ≤ two.1 ∨ two.1 + two.2 ≤ one.1

/-- The ranges of the strings. -/
def argExtents (ptrs : List Nat) (args : List (List UInt8)) : List Extent :=
  List.zipWith (fun ptr arg => (ptr, arg.length + 1)) ptrs args

theorem argExtents_bounds (fits : ArgsFit sp args) (small : sp < 2 ^ 32) :
    ∀ range ∈ argExtents (argPtrs sp args) args,
      argEnd sp args ≤ range.1 ∧ range.1 + range.2 ≤ sp := by
  induction args generalizing sp with
  | nil => exact fun _ impossible => nomatch impossible
  | cons arg rest ih =>
    have below := argSp_below fits.1 small
    rw [length_append, List.length_singleton] at below
    have last := argEnd_le fits.2 (argSp_lt sp arg)
    intro range member
    rcases List.mem_cons.mp member with rfl | member
    · exact ⟨last, below⟩
    · have bounds := ih fits.2 (argSp_lt sp arg) range member
      rw [argEnd]
      omega

theorem argExtents_apart (fits : ArgsFit sp args) (small : sp < 2 ^ 32) :
    (argExtents (argPtrs sp args) args).Pairwise Extent.Apart := by
  induction args generalizing sp with
  | nil => exact .nil
  | cons arg rest ih =>
    refine .cons (fun range member => .inr ?_) (ih fits.2 (argSp_lt sp arg))
    exact (argExtents_bounds fits.2 (argSp_lt sp arg) range member).2

end Addresses

/-! ## Bytes -/

/-- The directory shows the bytes from address `va` on. -/
def Kernel.BytesAt (s : Kernel) (d va : Nat) (bytes : List UInt8) : Prop :=
  ∀ i < bytes.length, s.userByte d (va + i) = some (bytes.getD i 0)

/-- The directory shows a string and the byte 0 behind it. -/
def Kernel.StringAt (s : Kernel) (d ptr : Nat) (arg : List UInt8) : Prop :=
  s.BytesAt d ptr (arg ++ [0])

/-- The memory after the strings are copied. -/
def PgDir.storeArgs (dir : PgDir) (mem : Bytes.Store) (sp : Nat) : List (List UInt8) → Bytes.Store
  | [] => mem
  | arg :: rest =>
    dir.storeArgs (dir.store mem (argSp sp arg) (arg ++ [0])) (argSp sp arg) rest

section Stored

variable {img : Image} {s : Kernel} {d sp top : Nat} {arg : List UInt8}
  {args : List (List UInt8)}

variable {a : Nat}

/-- The addresses below `top` are the user's, each with a byte of its own; the
last page of the address space is the kernel's. -/
structure Open (img : Image) (s : Kernel) (d top : Nat) : Prop where
  ok : UserDir img s d
  low : top ≤ USERTOP
  user : ∀ a < top, (s.dirs d).userFrame (vpn a) ≠ none
  table : ∃ table, (s.dirs d).pde 1023 = some table
  closed : (s.dirs d).userFrame 0xFFFFF = none

section

variable (space : Open img s d top)
include space

theorem Open.maps (below : a < top) : (s.dirs d).Maps a := by
  obtain ⟨page, there⟩ := Option.ne_none_iff_exists'.mp (space.user a below)
  have low := space.low
  constructor
  · unfold vpn
    simp only [PGSIZE, USERTOP, userPages] at *
    omega
  · rw [(PgDir.userFrame_some there).1]
    exact Option.some_ne_none _

theorem Open.congr {t : Kernel} (free : t.freelist = s.freelist) (dirs : t.dirs = s.dirs) :
    Open img t d top := by
  obtain ⟨⟨walk, nodup, pages, page, distinct⟩, low, user, table, closed⟩ := space
  rw [← dirs] at walk page distinct user table closed
  rw [← free] at nodup pages page
  exact ⟨⟨walk, nodup, pages, page, distinct⟩, low, user, table, closed⟩

theorem Open.setMem (mem : Bytes.Store) : Open img { s with mem := mem } d top :=
  space.congr rfl rfl

theorem Open.lt : top < 2 ^ 32 := by
  have low := space.low
  simp only [USERTOP] at low
  omega

theorem Open.store {va : Nat}
    {bytes : List UInt8} (fits : va + bytes.length ≤ top)
    (below : a < top) :
    Kernel.userByte { s with mem := (s.dirs d).store s.mem va bytes } d a =
      if va ≤ a ∧ a < va + bytes.length then some (bytes.getD (a - va) 0)
      else s.userByte d a := by
  have seen := space.maps below
  rw [Kernel.userByte_phys seen, Kernel.userByte_phys ((space.setMem _).maps below)]
  dsimp only
  rw [space.ok.store_userByte (fun i small => space.maps (by omega)) seen]
  split
  · rfl
  · rfl

theorem Open.storeArgs_outside (fits : ArgsFit sp args) (below : sp ≤ top)
    (seen : a < top) (apart : a < argEnd sp args ∨ sp ≤ a) :
    Kernel.userByte { s with mem := (s.dirs d).storeArgs s.mem sp args } d a = s.userByte d a := by
  have small := space.lt
  induction args generalizing sp s with
  | nil => rfl
  | cons arg rest ih =>
    have within := argSp_below fits.1 (by omega)
    have last := argEnd_le fits.2 (argSp_lt sp arg)
    have later := ih (space.setMem ((s.dirs d).store s.mem (argSp sp arg) (arg ++ [0])))
      fits.2 (by omega) (by rw [argEnd] at apart; omega)
    rw [PgDir.storeArgs]
    refine later.trans ?_
    rw [space.store (by omega) seen, if_neg]
    rw [argEnd] at apart
    omega

/-- Every string is there. -/
theorem Open.storeArgs_strings (fits : ArgsFit sp args) (below : sp ≤ top) :
    List.Forall₂ (Kernel.StringAt
      { s with mem := (s.dirs d).storeArgs s.mem sp args } d)
      (argPtrs sp args) args := by
  have small := space.lt
  induction args generalizing sp s with
  | nil => exact .nil
  | cons arg rest ih =>
    have within := argSp_below fits.1 (by omega)
    have after := space.setMem ((s.dirs d).store s.mem (argSp sp arg) (arg ++ [0]))
    refine .cons ?_ (ih after fits.2 (by omega))
    intro i inside
    -- The later strings lie below this one.
    refine (after.storeArgs_outside fits.2 (by omega) (by omega) (.inr (by omega))).trans ?_
    rw [space.store (by omega) (by omega), if_pos (by omega), Nat.add_sub_cancel_left]

end

end Stored

/-! ## The loop over the arguments -/

section Push

variable {img : Image} {s : Kernel} {cur : Slot} {d sp top : Nat}
  {args : List (List UInt8)} {E : Panic → Prop}

/-- In an open address space `copyout` fails exactly when it wraps around. -/
theorem wp_copyout_open {Q : Bool → Kernel → Prop} {va : Nat}
    {bytes : List UInt8} (space : Open img s d top)
    (filled : bytes ≠ []) (low : va < 2 ^ 32)
    (place : va + bytes.length ≤ top ∨ 0xFFFFF000 < va + bytes.length)
    (trap : present ((s.dirs (s.proc cur).pgdir).pte 0) = false → E .trap)
    (done : va + bytes.length ≤ top → Q true { s with mem := (s.dirs d).store s.mem va bytes })
    (fail : 0xFFFFF000 < va + bytes.length → ∀ mem, Q false { s with mem := mem }) :
    wp (copyout cur d va bytes) Q E s := by
  rcases place with fits | wraps
  · have small := space.lt
    have low := space.low
    refine wp_copyoutLoop _ le_rfl (by omega) ?_ (fun _ => done fits) ?_
    · intro k inside _ none
      have first : pdx (va + k) = 0 := by
        unfold pdx
        simp only [PGSIZE, USERTOP] at *
        omega
      rw [first] at none
      exact absurd none (Option.ne_none_iff_exists'.mpr space.ok.walk)
    · intro k inside _ _ missing
      exact absurd missing (space.user _ (by omega))
  · exact wp_copyoutLoop_wrapped _ le_rfl filled low wraps
      space.table space.closed trap (fail wraps)

/-- The loop of `exec` over the arguments, by induction on them. -/
theorem wp_pushArgs {Q : Option (Nat × List Nat) → Kernel → Prop}
    (ptrs : List Nat) (space : Open img s d top) (strings : Strings args)
    (below : sp ≤ top) (count : ptrs.length ≤ MAXARG)
    (trap : present ((s.dirs (s.proc cur).pgdir).pte 0) = false → E .trap)
    (done : ArgsFit sp args → ptrs.length + args.length ≤ MAXARG →
      Q (some (argEnd sp args, (argPtrs sp args).reverse ++ ptrs))
        { s with mem := (s.dirs d).storeArgs s.mem sp args })
    (fail : ¬ (ArgsFit sp args ∧ ptrs.length + args.length ≤ MAXARG) →
      ∀ mem, Q none { s with mem := mem }) :
    wp (pushArgs cur d sp ptrs args) Q E s := by
  induction args generalizing sp ptrs s with
  | nil =>
    rw [pushArgs, wp_pure]
    exact done trivial count
  | cons arg rest ih =>
    have string := strings arg List.mem_cons_self
    have small := space.lt
    have low := space.low
    have within : arg.length + 1 ≤ sp → argSp sp arg + (arg ++ [0]).length ≤ sp := fun fits =>
      argSp_below fits (below.trans_lt small)
    have wrapped : sp < arg.length + 1 →
        0xFFFFF000 < argSp sp arg + (arg ++ [0]).length := fun tooFar =>
      argSp_wrapped tooFar string
    rw [pushArgs]
    split
    · rename_i many
      refine fail ?_ s.mem
      rintro ⟨_, few⟩
      rw [length_cons] at few
      omega
    · rename_i few
      rw [wp_bind]
      refine wp_copyout_open space (by simp) (argSp_lt sp arg) ?_ trap ?_ ?_
      · by_cases fits : arg.length + 1 ≤ sp
        · exact .inl ((within fits).trans below)
        · exact .inr (wrapped (by omega))
      · intro reached
        have fits : arg.length + 1 ≤ sp := by
          by_contra tooFar
          have := wrapped (by omega)
          simp only [USERTOP] at low
          omega
        have inside := within fits
        rw [if_pos rfl]
        refine ih _ (space.setMem _)
          (fun other member => strings other (List.mem_cons_of_mem _ member))
          (by omega) (by rw [length_cons]; omega) trap ?_ ?_
        · intro later all
          have total := done ⟨fits, later⟩ (by
            rw [length_cons] at all ⊢
            omega)
          rw [argPtrs, List.reverse_cons, List.append_assoc] at total
          exact total
        · intro tooFar mem
          refine fail ?_ mem
          rintro ⟨⟨_, later⟩, all⟩
          refine tooFar ⟨later, ?_⟩
          rw [length_cons] at all ⊢
          omega
      · intro reached mem
        rw [if_neg Bool.false_ne_true, wp_pure]
        refine fail ?_ mem
        rintro ⟨⟨fits, _⟩, _⟩
        have inside := within fits
        simp only [USERTOP] at low
        omega

end Push

/-! ## The whole stack -/

/-- The argument vector below `sz`, as the program finds it: the words at `esp`
and the strings they point to, in ranges that have nothing in common. -/
structure ArgLayout (s : Kernel) (d sz esp : Nat) (argv : List (List UInt8))
    (ptrs : List Nat) : Prop where
  words : s.BytesAt d esp (([0xffffffff, argv.length, esp + 12] ++ ptrs ++ [0]).flatMap le32)
  strings : List.Forall₂ (s.StringAt d) ptrs argv
  apart : ((esp, ustackSize argv) :: argExtents ptrs argv).Pairwise Extent.Apart
  below : ∀ range ∈ (esp, ustackSize argv) :: argExtents ptrs argv, range.1 + range.2 ≤ sz

/-- The stack pointer of the program. -/
def execEsp (top : Nat) (argv : List (List UInt8)) : Nat :=
  argEnd top argv - ustackSize argv

section Build

variable {img : Image} {s₀ s : Kernel} {cur : Slot} {d top : Nat}
  {tables pages : List Nat} {argv : List (List UInt8)} {E : Panic → Prop}

variable {t : Kernel} {ptrs : List Nat} {sz : Nat} {Q : Option (Nat × Nat) → Kernel → Prop}

theorem length_le32s (words : List Nat) : (words.flatMap le32).length = 4 * words.length := by
  induction words with
  | nil => rfl
  | cons word rest ih =>
    rw [List.flatMap_cons, length_append, ih, length_cons]
    change 4 + _ = _
    omega

theorem ustackWords_fits (top : Nat) (argv : List (List UInt8))
    (fits : ustackSize argv ≤ argEnd top argv) (small : argEnd top argv < 2 ^ 32) :
    ustackWords (argEnd top argv) (argPtrs top argv).reverse =
      [0xffffffff, argv.length, execEsp top argv + 12] ++ argPtrs top argv ++ [0] := by
  have array : u32 (argEnd top argv + 2 ^ 32 - (argv.length + 1) * 4) = execEsp top argv + 12 := by
    unfold execEsp
    unfold ustackSize at *
    unfold u32
    omega
  unfold ustackWords
  rw [List.length_reverse, length_argPtrs, List.reverse_reverse, array]

theorem strings_kept {args : List (List UInt8)} (strings : List.Forall₂ (s.StringAt d) ptrs args)
    (kept : ∀ range ∈ argExtents ptrs args, ∀ a, range.1 ≤ a →
      a < range.1 + range.2 → t.userByte d a = s.userByte d a) :
    List.Forall₂ (t.StringAt d) ptrs args := by
  induction strings with
  | nil => exact .nil
  | cons string rest ih =>
    refine .cons ?_ (ih fun range member =>
      kept range (List.mem_cons_of_mem _ member))
    intro i inside
    rw [kept _ List.mem_cons_self _ (Nat.le_add_right _ i)]
    · exact string i inside
    · simpa using inside

theorem ArgLayout.kept {esp : Nat} (layout : ArgLayout s d sz esp argv ptrs)
    (length : ptrs.length = argv.length) (same : ∀ a < sz, t.userByte d a = s.userByte d a) :
    ArgLayout t d sz esp argv ptrs where
  words i inside := by
    have low := layout.below _ List.mem_cons_self
    have size := inside
    rw [length_le32s] at size
    simp only [length_append, length_cons, length_nil, length, ustackSize] at size low
    rw [same _ (by omega)]
    exact layout.words i inside
  strings := strings_kept layout.strings fun range member a _ before =>
    same a (by
      have low := layout.below _ (List.mem_cons_of_mem _ member)
      omega)
  apart := layout.apart
  below := layout.below

/-- The memory that `exec` leaves. -/
def PgDir.storeStack (dir : PgDir) (mem : Bytes.Store) (top : Nat)
    (argv : List (List UInt8)) : Bytes.Store :=
  dir.store (dir.storeArgs mem top argv) (execEsp top argv)
    (([0xffffffff, argv.length, execEsp top argv + 12] ++ argPtrs top argv ++ [0]).flatMap le32)

/-- The state with the arguments below `top`. -/
def Kernel.stacked (s : Kernel) (d top : Nat) (argv : List (List UInt8)) : Kernel :=
  { s with mem := (s.dirs d).storeStack s.mem top argv }

theorem length_stackWords (top : Nat) (argv : List (List UInt8)) :
    (([0xffffffff, argv.length, execEsp top argv + 12] ++ argPtrs top argv ++
      [0]).flatMap le32).length = ustackSize argv := by
  rw [length_le32s]
  simp only [length_append, length_cons, length_nil, length_argPtrs, ustackSize]
  omega

theorem Open.storeStack_below (space : Open img s d top)
    (fits : StackFits top argv) {a : Nat} (below : a < execEsp top argv) :
    (s.stacked d top argv).userByte d a = s.userByte d a := by
  have last := argEnd_le fits.1 space.lt
  have room := fits.2
  have length := length_stackWords top argv
  have after := space.setMem ((s.dirs d).storeArgs s.mem top argv)
  unfold execEsp at below length
  unfold Kernel.stacked PgDir.storeStack execEsp
  refine (after.store (by rw [length]; omega) (by omega)).trans ?_
  rw [if_neg (by omega)]
  exact space.storeArgs_outside fits.1 le_rfl (by omega) (.inl (by omega))

theorem Open.layout (space : Open img s d top) (fits : StackFits top argv) :
    ArgLayout (s.stacked d top argv) d top (execEsp top argv) argv (argPtrs top argv) := by
  have last := argEnd_le fits.1 space.lt
  have room := fits.2
  have length := length_stackWords top argv
  have bounds := argExtents_bounds fits.1 space.lt
  have after := space.setMem ((s.dirs d).storeArgs s.mem top argv)
  have start : execEsp top argv + ustackSize argv = argEnd top argv := by
    unfold execEsp
    omega
  constructor
  case words =>
    intro i inside
    refine (after.store (by omega) (by omega)).trans ?_
    rw [if_pos (by omega), Nat.add_sub_cancel_left]
  case strings =>
    refine strings_kept (space.storeArgs_strings fits.1 le_rfl) ?_
    intro range member a above before
    have low := bounds range member
    refine (after.store (by omega) (by omega)).trans ?_
    rw [if_neg (by omega)]
  case apart =>
    refine .cons (fun range member => .inl ?_) (argExtents_apart fits.1 space.lt)
    have low := bounds range member
    dsimp only
    omega
  case below =>
    intro range member
    rcases List.mem_cons.mp member with rfl | member
    · dsimp only
      omega
    · exact (bounds range member).2

theorem wp_pushStack (space : Open img s d top) (strings : Strings argv)
    (trap : present ((s.dirs (s.proc cur).pgdir).pte 0) = false → E .trap)
    (built : StackFits top argv → argv.length ≤ MAXARG →
      Q (some (top, execEsp top argv)) (s.stacked d top argv))
    (failed : ¬ (StackFits top argv ∧ argv.length ≤ MAXARG) → ∀ mem, Q none { s with mem := mem }) :
    wp (do
      match ← pushArgs cur d top [] argv with
      | none => pure none
      | some (sp, ptrs) => do
          let words := ustackWords sp ptrs
          let esp := u32 (sp + 2 ^ 32 - words.length * 4)
          if ← copyout cur d esp (words.flatMap le32) then
            pure (some (top, esp))
          else
            pure none) Q E s := by
  have small := space.lt
  have high := space.low
  rw [wp_bind]
  refine wp_pushArgs [] space strings le_rfl (Nat.zero_le _) trap ?_ ?_
  rotate_left
  · intro why
    rw [length_nil, Nat.zero_add] at why
    exact failed fun all => why ⟨all.1.1, all.2⟩
  intro argsFit few
  rw [length_nil, Nat.zero_add] at few
  rw [List.append_nil]
  have below := argEnd_le argsFit small
  have count : (ustackWords (argEnd top argv)
      (argPtrs top argv).reverse).length * 4 = ustackSize argv := by
    unfold ustackWords ustackSize
    simp only [length_append, length_cons, length_nil, List.length_reverse, length_argPtrs]
  have size : ((ustackWords (argEnd top argv) (argPtrs top argv).reverse).flatMap le32).length =
      ustackSize argv := by
    rw [length_le32s]
    omega
  simp only [count, wp_bind]
  have pos : 0 < ustackSize argv := by
    unfold ustackSize
    omega
  have modest : ustackSize argv ≤ 144 := by
    unfold ustackSize
    simp only [MAXARG] at few
    omega
  have filled : (ustackWords (argEnd top argv) (argPtrs top argv).reverse).flatMap le32 ≠ [] := by
    intro none
    rw [none, length_nil] at size
    omega
  have place : ustackSize argv ≤ argEnd top argv →
      u32 (argEnd top argv + 2 ^ 32 - ustackSize argv) = execEsp top argv := by
    intro fits
    unfold u32 execEsp
    omega
  have wrap : argEnd top argv < ustackSize argv →
      0xFFFFF000 < u32 (argEnd top argv + 2 ^ 32 - ustackSize argv) + ustackSize argv := by
    intro tooFar
    unfold u32
    omega
  refine wp_copyout_open (space.setMem _) filled (u32_lt _) ?_ trap ?_ ?_
  · rw [size]
    by_cases fits : ustackSize argv ≤ argEnd top argv
    · left
      rw [place fits]
      unfold execEsp
      omega
    · exact .inr (wrap (by omega))
  · intro reached
    rw [size] at reached
    have fits : ustackSize argv ≤ argEnd top argv := by
      by_contra tooFar
      have high' := wrap (by omega)
      simp only [USERTOP] at high
      omega
    rw [if_pos rfl, wp_pure, place fits, ustackWords_fits top argv fits (by omega)]
    exact built ⟨argsFit, fits⟩ few
  · intro reached mem
    rw [if_neg Bool.false_ne_true, wp_pure]
    refine failed ?_ mem
    rintro ⟨⟨_, fits⟩, _⟩
    rw [size, place fits] at reached
    unfold execEsp at reached
    simp only [USERTOP] at high
    omega

theorem Fresh.space (stocked : Stocked img s₀) (fresh : Fresh img s₀ d tables pages s) :
    Open img s d (pages.length * PGSIZE) := by
  have limit := fresh.limit
  have count := fresh.count
  constructor
  case ok => exact fresh.userDir stocked
  case low =>
    simp only [PGSIZE, USERTOP, userPages] at *
    omega
  case user =>
    intro a below
    have inside : vpn a < pages.length := by
      unfold vpn
      simp only [PGSIZE] at *
      omega
    rw [fresh.userFrame stocked, if_pos inside]
    exact Option.some_ne_none _
  case table =>
    refine ⟨tables.get ⟨11, by omega⟩, ?_⟩
    rw [fresh.pde, kernelDir_pde (show tableIndex 1023 = some 11 from rfl)]
    exact List.getElem?_eq_getElem _
  case closed =>
    rw [fresh.userFrame stocked, if_neg]
    simp only [userPages] at limit
    omega

/-- Why the arguments cannot be put behind `n` pages: there is no room or no
page for the stack, or they do not fit. -/
def NoStack (s : Kernel) (cur : Slot) (n : Nat) (argv : List (List UInt8)) : Prop :=
  (s.proc cur).shm < (n + 1) * PGSIZE ∨ s.freelist = [] ∨
    ¬ (StackFits ((n + 1) * PGSIZE) argv ∧ argv.length ≤ MAXARG)

/-- The part of `exec` after the segments.  It fails when there is no page for
the stack or the arguments do not fit; otherwise the new address space has one
page more, and the arguments are in it. -/
theorem wp_buildStack (stocked : Stocked img s₀) (fresh : Fresh img s₀ d tables pages s)
    (size : pages.length = pagesOf sz) (low : sz ≤ USERTOP) (shm : (s.proc cur).shm ≤ USERTOP)
    (bound : pages.length ≤ pagesOf (s.proc cur).shm) (strings : Strings argv)
    (trap : present ((s.dirs (s.proc cur).pgdir).pte 0) = false → E .trap)
    (away : (s.proc cur).pgdir ≠ d)
    (refused : NoStack s cur pages.length argv → ∀ t more, Fresh img s₀ d tables (pages ++ more) t →
      (pages ++ more).length ≤ pagesOf (s.proc cur).shm → Q none t)
    (built : ∀ t page, Grown d pages.length [page] zeros s t →
      Fresh img s₀ d tables (pages ++ [page]) t →
      (pages.length + 1) * PGSIZE ≤ (s.proc cur).shm →
      StackFits ((pages.length + 1) * PGSIZE) argv →
      argv.length ≤ MAXARG →
      Q (some ((pages.length + 1) * PGSIZE, execEsp ((pages.length + 1) * PGSIZE) argv))
        (t.stacked d ((pages.length + 1) * PGSIZE) argv)) :
    wp (buildStack img cur d sz argv) Q E s := by
  have start : pgroundup sz = pages.length * PGSIZE := by
    rw [pgroundup_pages low, size]
  have stop : u32 (pages.length * PGSIZE + PGSIZE) = (pages.length + 1) * PGSIZE := by
    have within := pagesOf_le low
    rw [Nat.succ_mul]
    apply u32_of_lt
    simp only [PGSIZE, userPages] at *
    omega
  have whole : ∀ n, pagesOf (n * PGSIZE) = n := by
    intro n
    unfold pagesOf
    simp only [PGSIZE]
    omega
  unfold buildStack
  rw [start, stop, wp_bind]
  refine wp_allocuvm_fresh stocked fresh (whole _).symm shm ?_ ?_ ?_
  · intro why t after
    rw [whole, whole] at why
    have none : NoStack s cur pages.length argv := by
      refine why.imp_right fun few => .inl ?_
      exact List.eq_nil_of_length_eq_zero (by omega)
    rw [if_pos rfl, wp_pure]
    refine refused none t [] ?_ ?_
    · rw [List.append_nil]
      exact after
    · rw [List.append_nil]
      exact bound
  · intro impossible
    simp only [PGSIZE] at impossible
    omega
  · intro _ fits t more grown after count
    rw [whole, length_append] at count
    obtain ⟨page, rfl⟩ := List.length_eq_one_iff.mp (show more.length = 1 by omega)
    have space := after.space stocked
    rw [length_append, List.length_singleton] at space
    have ptable : t.proc = s.proc := Kernel.proc_eq grown.records
    have same : t.dirs (t.proc cur).pgdir = s.dirs (s.proc cur).pgdir := by
      rw [ptable, grown.dirs _ away]
    rw [← same] at trap
    have last : (pages ++ [page]).length ≤ pagesOf (s.proc cur).shm := by
      have mono := pagesOf_mono fits
      rw [whole] at mono
      rw [length_append, List.length_singleton]
      exact mono
    have failed : ¬ (StackFits ((pages.length + 1) * PGSIZE) argv ∧
        argv.length ≤ MAXARG) → ∀ mem, Q none { t with mem := mem } :=
      fun why mem => refused (.inr (.inr why)) _ [page] (after.congr rfl rfl rfl) last
    rw [if_neg (by simp only [PGSIZE]; omega)]
    exact wp_pushStack space strings trap
      (fun stack few => built t page grown after fits stack few) failed

end Build

end Xv6
