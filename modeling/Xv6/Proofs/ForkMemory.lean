/-
Purpose: The two address spaces after a `fork`: private memory is copied and
  kept apart, shared memory is one and the same.
-/
import Xv6.Proofs.ForkCopy
import Xv6.Proofs.Replay

namespace Xv6

open Kernel PgDir Function PanicM

/-- A process that calls `fork`, with an address space of its own pages whose
kernel part is as `setupkvm` made it. -/
structure Forkable (img : Image) (s : Kernel) (cur : Slot) : Prop extends Forker img s cur where
  space : UserDir img s (s.proc cur).pgdir
  kernel : ∀ v, userPages ≤ v → (s.dirs (s.proc cur).pgdir).entry v =
    (kernelDir img [] 0x100000).entry v

/-- The state after a store through a directory. -/
def Kernel.stored (w : Kernel) (d va : Nat) (bytes : List UInt8) : Kernel :=
  { w with mem := (w.dirs d).store w.mem va bytes }

/-- The address space `child` of `w` is a copy of `parent` as it was in `s`. -/
structure ForkCopied (s w : Kernel) (parent child sz shm : Nat) : Prop where
  bytes : ∀ a < sz, ∃ byte, s.userByte parent a = some byte ∧ w.userByte child a = some byte
  fresh : ∀ v < pagesOf sz, ∃ page ∈ s.freelist, (w.dirs child).frame v = some page
  distinct : ∀ v < pagesOf sz, ∀ v' < pagesOf sz,
    (w.dirs child).frame v = (w.dirs child).frame v' → v = v'
  kept : w.dirs parent = s.dirs parent
  shared : ∀ v, shm ≤ v * PGSIZE → v < userPages → ∃ page,
    (w.dirs parent).frame v = some page ∧ (w.dirs child).frame v = some page
  kernel : ∀ v, userPages ≤ v → (w.dirs child).entry v = (w.dirs parent).entry v
  isolated : ∀ va bytes, va + bytes.length ≤ sz → ∀ a < USERTOP,
    (w.stored parent va bytes).userByte child a = w.userByte child a ∧
    (w.stored child va bytes).userByte parent a = w.userByte parent a
  seen : ∀ va bytes, shm ≤ va → va + bytes.length ≤ USERTOP →
    ∀ i < bytes.length, ∀ d ∈ [parent, child], ∀ e ∈ [parent, child],
      (w.stored d va bytes).userByte e (va + i) = some (bytes.getD i 0)

/-- What `fork` leaves: the child has `pages`, which were free, below page `v`
and the pages of its parent from there on. -/
structure Child (img : Image) (s w : Kernel) (parent child v : Nat) (pages : List Nat) : Prop where
  dir : w.dirs parent = s.dirs parent
  walk : ∃ table, (w.dirs child).pde 0 = some table
  frame : ∀ x < userPages, (w.dirs child).frame x = if v ≤ x then (s.dirs parent).frame x
    else if x < pages.length then some (pages.getD x 0) else none
  count : pages.length ≤ v
  nodup : (pages ++ w.freelist).Nodup
  taken : pages ++ w.freelist ⊆ s.freelist
  mapped : ∀ x < userPages, x < pages.length ∨ v ≤ x → (s.dirs parent).frame x ≠ none
  copied : ∀ x < pages.length, ∀ o < PGSIZE, w.mem (pages.getD x 0 + o) = s.pageBytes parent x o
  kernel : ∀ x, userPages ≤ x → (w.dirs child).entry x = (w.dirs parent).entry x

section Child

variable {img : Image} {s w : Kernel} {parent child v : Nat}
  {pages : List Nat}

/-- A store through one directory leaves alone what another one shows on pages
of its own. -/
theorem Kernel.stored_apart {d e va a : Nat} {bytes : List UInt8}
    (first : UserDir img w d) (second : UserDir img w e) (low : vpn a < userPages)
    (maps : ∀ i < bytes.length, (w.dirs d).Maps (va + i))
    (apart : ∀ i < bytes.length, ∀ p, (w.dirs d).frame (vpn (va + i)) = some p →
      (w.dirs e).frame (vpn a) ≠ some p) : (w.stored d va bytes).userByte e a = w.userByte e a := by
  apply userByte_congr
  · rfl
  · intro p holds
    apply store_outside
    intro i small same
    obtain ⟨q, there, phys⟩ := (maps i small).frame
    have one := (first.page _ (maps i small).1 q there).1.aligned
    have other := (second.page _ low p holds).1.aligned
    rw [phys] at same
    have equal : q = p := by
      simp only [PGSIZE] at *
      omega
    exact apart i small q there (equal ▸ holds)

namespace Child

variable (made : Child img s w parent child v pages) (space : UserDir img s parent)
variable {sz va a : Nat} {bytes : List UInt8}

include made space

theorem apart {x y p : Nat} (small : x < userPages)
    (holds : (s.dirs parent).frame x = some p) (inside : y < pages.length) :
    pages.getD y 0 ≠ p := by
  rintro rfl
  exact (space.page x small _ holds).2 (made.taken (List.mem_append_left _ (getD_mem inside)))

theorem userDir_parent : UserDir img w parent where
  walk := by
    rw [made.dir]
    exact space.walk
  nodup := (List.nodup_append.mp made.nodup).2.1
  free page member := space.free page (made.taken (List.mem_append_right _ member))
  page x small p holds := by
    rw [made.dir] at holds
    obtain ⟨real, away⟩ := space.page x small p holds
    exact ⟨real, fun free => away (made.taken (List.mem_append_right _ free))⟩
  distinct x small y small' p first second := by
    rw [made.dir] at first second
    exact space.distinct x small y small' p first second

omit space in
theorem frame_cases {x p : Nat} (small : x < userPages) (holds : (w.dirs child).frame x = some p) :
    v ≤ x ∧ (s.dirs parent).frame x = some p ∨ x < pages.length ∧ pages.getD x 0 = p := by
  rw [made.frame x small] at holds
  split_ifs at holds with shared new
  · exact .inl ⟨shared, holds⟩
  · exact .inr ⟨new, Option.some.inj holds⟩

theorem userDir_child : UserDir img w child where
  walk := made.walk
  nodup := (List.nodup_append.mp made.nodup).2.1
  free page member := space.free page (made.taken (List.mem_append_right _ member))
  page x small p holds := by
    rcases made.frame_cases small holds with ⟨-, holds⟩ | ⟨inside, rfl⟩
    · obtain ⟨real, away⟩ := space.page x small p holds
      exact ⟨real, fun free => away (made.taken (List.mem_append_right _ free))⟩
    · have member := getD_mem inside
      refine ⟨space.free _ (made.taken (List.mem_append_left _ member)), fun free => ?_⟩
      exact (List.nodup_append.mp made.nodup).2.2 _ member _ free rfl
  distinct x small y small' p first second := by
    rcases made.frame_cases small first with ⟨-, first⟩ | ⟨inside, same⟩ <;>
      rcases made.frame_cases small' second with ⟨-, second⟩ | ⟨inside', same'⟩
    · exact space.distinct x small y small' p first second
    · exact absurd same' (made.apart space small first inside')
    · exact absurd same (made.apart space small' second inside)
    · have own := (List.nodup_append.mp made.nodup).1
      rw [← same', List.getD_eq_getElem _ _ inside, List.getD_eq_getElem _ _ inside'] at same
      exact (own.getElem_inj_iff).mp same

/-- A store below the shared pages goes to pages that only the one directory
has: to new ones of the child, or to pages of the parent that the child has
copies of. -/
theorem isolated {d e : Nat} (which : d = parent ∧ e = child ∨ d = child ∧ e = parent)
    (size : pages.length = pagesOf sz) (fits : va + bytes.length ≤ sz)
    (limit : v ≤ userPages) (below : a < USERTOP) :
    (w.stored d va bytes).userByte e a = w.userByte e a := by
  have count := made.count
  have low : vpn a < userPages := vpn_lt.mpr below
  have inside : ∀ i < bytes.length, vpn (va + i) < pages.length := by
    intro i small
    rw [size]
    exact vpn_lt_pagesOf (by omega)
  rcases which with ⟨rfl, rfl⟩ | ⟨rfl, rfl⟩
  · apply stored_apart (made.userDir_parent space) (made.userDir_child space) low
    · intro i small
      have page := inside i small
      refine ⟨by omega, ?_⟩
      rw [made.dir]
      exact made.mapped _ (by omega) (.inl page)
    · intro i small p holds there
      have page := inside i small
      rw [made.dir] at holds
      rcases made.frame_cases low there with ⟨shared, there⟩ | ⟨new, same⟩
      · have same := space.distinct _ (by omega) _ low p holds there
        omega
      · exact made.apart space (by omega) holds new same
  · have own : ∀ i < bytes.length, (w.dirs d).frame (vpn (va + i)) =
        some (pages.getD (vpn (va + i)) 0) := by
      intro i small
      have page := inside i small
      rw [made.frame _ (by omega), if_neg (by omega), if_pos page]
    apply stored_apart (made.userDir_child space) (made.userDir_parent space) low
    · intro i small
      have page := inside i small
      refine ⟨by omega, ?_⟩
      rw [own i small]
      exact Option.some_ne_none _
    · intro i small p holds there
      rw [own i small] at holds
      rw [made.dir] at there
      exact made.apart space low there (inside i small) (Option.some.inj holds)

theorem seen (above : v * PGSIZE ≤ va)
    (fits : va + bytes.length ≤ USERTOP) {i : Nat} (small : i < bytes.length)
    {d e : Nat} (first : d = parent ∨ d = child) (second : e = parent ∨ e = child) :
    (w.stored d va bytes).userByte e (va + i) = some (bytes.getD i 0) := by
  have page : ∀ j < bytes.length, vpn (va + j) < userPages ∧ v ≤ vpn (va + j) := by
    intro j inside
    have low : v * PGSIZE ≤ va + j := by omega
    exact ⟨vpn_lt.mpr (Nat.lt_of_lt_of_le (by omega) fits),
      (Nat.le_div_iff_mul_le (by decide)).mpr low⟩
  have frames : ∀ x, x = parent ∨ x = child → ∀ j < bytes.length, (w.dirs x).frame (vpn (va + j)) =
        (s.dirs parent).frame (vpn (va + j)) := by
    rintro x (rfl | rfl) j inside
    · rw [made.dir]
    · rw [made.frame _ (page j inside).1, if_pos (page j inside).2]
  have maps : ∀ x, x = parent ∨ x = child → ∀ j < bytes.length, (w.dirs x).Maps (va + j) := by
    intro x which j inside
    refine ⟨(page j inside).1, ?_⟩
    rw [frames x which j inside]
    exact made.mapped _ (page j inside).1 (.inr (page j inside).2)
  have ok : UserDir img w d := by
    rcases first with rfl | rfl
    · exact made.userDir_parent space
    · exact made.userDir_child space
  have same : (w.stored d va bytes).userByte e (va + i) =
      (w.stored d va bytes).userByte d (va + i) := by
    unfold userByte
    change ((w.dirs e).frame _).map _ = ((w.dirs d).frame _).map _
    rw [frames e second i small, frames d first i small]
  rw [same, userByte_phys (s := w.stored d va bytes) (maps d first i small)]
  change some ((w.dirs d).store w.mem va bytes ((w.dirs d).phys (va + i))) = _
  rw [ok.store_userByte (maps d first) (maps d first i small),
    if_pos (by omega), Nat.add_sub_cancel_left]

theorem forkCopied {shm : Nat} (size : pages.length = pagesOf sz)
    (start : v * PGSIZE = shm) (limit : v ≤ userPages) : ForkCopied s w parent child sz shm := by
  have count := made.count
  have own : ∀ x < pagesOf sz, (w.dirs child).frame x = some (pages.getD x 0) := by
    intro x small
    rw [made.frame x (by omega), if_neg (by omega), if_pos (by omega)]
  have upper : ∀ x, shm ≤ x * PGSIZE → v ≤ x := by
    intro x above
    rw [← start] at above
    exact Nat.le_of_mul_le_mul_right above (by decide)
  constructor
  case bytes =>
    intro a below
    have page := vpn_lt_pagesOf below
    obtain ⟨p, holds⟩ := Option.ne_none_iff_exists'.mp
      (made.mapped (vpn a) (by omega) (.inl (by omega)))
    refine ⟨s.mem (p + a % PGSIZE), ?_, ?_⟩
    · unfold userByte
      rw [holds, Option.map_some]
    · unfold userByte
      rw [own _ page, Option.map_some, made.copied _ (by omega) _ (Nat.mod_lt a (by decide))]
      unfold pageBytes
      rw [(frame_eq_some.mp holds).2]
  case fresh =>
    intro x small
    exact ⟨_, made.taken (List.mem_append_left _ (getD_mem (by omega))), own x small⟩
  case distinct =>
    intro x small y small' same
    rw [own y small'] at same
    exact (made.userDir_child space).distinct x (by omega) y (by omega) _ same (own y small')
  case kept => exact made.dir
  case shared =>
    intro x above below
    obtain ⟨p, holds⟩ := Option.ne_none_iff_exists'.mp (made.mapped x below (.inr (upper x above)))
    refine ⟨p, ?_, ?_⟩
    · rw [made.dir, holds]
    · rw [made.frame x below, if_pos (upper x above), holds]
  case kernel => exact made.kernel
  case isolated =>
    intro va bytes fits a below
    exact ⟨made.isolated space (.inl ⟨rfl, rfl⟩) size fits limit below,
      made.isolated space (.inr ⟨rfl, rfl⟩) size fits limit below⟩
  case seen =>
    intro va bytes above fits i small d first e second
    rw [← start] at above
    exact made.seen space above fits small (by simpa using first) (by simpa using second)

end Child

end Child

section Fork

variable {img : Image} {s t u : Kernel} {cur np : Slot} {page d v n : Nat}
  {rest tables pages : List Nat}

/-- The address space of the child, from what `copyuvm` and `copyshm` do. -/
theorem Forkable.child (forkable : Forkable img s cur) (list : s.freelist = page :: rest)
    (fresh : Fresh img (s.embryo np page rest) d tables pages t)
    (length : pages.length = pagesOf (s.proc cur).sz)
    (lower : ∀ x < pagesOf (s.proc cur).sz, present ((s.dirs (s.proc cur).pgdir).pte x) = true)
    (copies : UsedPages img (s.embryo np page rest) (s.proc cur).pgdir 0 (pagesOf (s.proc cur).sz) →
      ∀ x < pagesOf (s.proc cur).sz, ∀ o < PGSIZE, t.mem (pages.getD x 0 + o) =
        s.pageBytes (s.proc cur).pgdir x o)
    (start : v * PGSIZE = (s.proc cur).shm) (total : v + n = userPages)
    (shared : Shared (s.proc cur).pgdir d v n (t.withDir np d) u)
    (upper : ∀ x, v ≤ x → x < userPages → present ((s.dirs (s.proc cur).pgdir).pte x) = true) :
    Child img s (u.forked cur np) (s.proc cur).pgdir d v pages := by
  have stocked := forkable.stocked
  have subset : rest ⊆ s.freelist := by
    rw [list]
    exact List.subset_cons_self page rest
  have stocked' : Stocked img (s.embryo np page rest) := by
    have nodup := stocked.nodup
    rw [list] at nodup
    exact ⟨(List.nodup_cons.mp nodup).2, fun p member =>
      stocked.page p (subset member)⟩
  have taken : d :: (tables ++ pages) ++ t.freelist ⊆ rest := fresh.free.subset
  have apart : (s.proc cur).pgdir ≠ d := by
    intro same
    exact forkable.inUse (same ▸ subset (taken (List.mem_append_left _ List.mem_cons_self)))
  have source : t.dirs (s.proc cur).pgdir = s.dirs (s.proc cur).pgdir := fresh.dirs _ apart
  have count : pages.length ≤ v := by
    have fits := forkable.fits
    rw [length, ← Nat.mul_le_mul_right_iff (show 0 < PGSIZE by decide)]
    unfold pagesOf
    simp only [PGSIZE] at *
    omega
  have mapped : ∀ x < userPages, x < pages.length ∨ v ≤ x →
      present ((s.dirs (s.proc cur).pgdir).pte x) = true := by
    intro x small which
    rcases which with low | high
    · exact lower x (length ▸ low)
    · exact upper x high small
  -- The last assignments of `fork` touch neither memory nor directories.
  have entries : ∀ x, ((u.forked cur np).dirs d).pte x = if v ≤ x ∧ x < v + n then
        mkPte (pteAddr ((s.dirs (s.proc cur).pgdir).pte x)) (PTE_W ||| PTE_U)
      else (t.dirs d).pte x := by
    intro x
    refine (shared.pte x).trans ?_
    change (if _ then mkPte (pteAddr ((t.dirs _).pte x)) _ else _) = _
    rw [source]
    rfl
  constructor
  case dir =>
    exact (shared.dirs _ apart).trans source
  case walk =>
    obtain ⟨table, entry⟩ := fresh.walk
    exact ⟨table, (congrFun shared.pde 0).trans entry⟩
  case frame =>
    intro x small
    by_cases high : v ≤ x
    · rw [if_pos high]
      have there := upper x high small
      rw [frame_eq_some.mpr ⟨there, rfl⟩, frame_eq_some, entries, if_pos ⟨high, by omega⟩]
      exact ⟨present_mkPte .., pteAddr_user (pteAddr_mod _)⟩
    · rw [if_neg high, ← fresh.frame stocked' small]
      apply frame_congr
      rw [entries, if_neg (by omega)]
  case count => exact count
  case nodup =>
    change (pages ++ u.freelist).Nodup
    have all := fresh.nodup stocked'
    rw [shared.free]
    change (pages ++ t.freelist).Nodup
    rw [List.cons_append, List.append_assoc] at all
    exact (List.nodup_append.mp (List.nodup_cons.mp all).2).2.1
  case taken =>
    change pages ++ u.freelist ⊆ _
    rw [shared.free]
    change pages ++ t.freelist ⊆ _
    intro p member
    refine subset (taken ?_)
    simp only [List.mem_append, List.mem_cons] at member ⊢
    tauto
  case mapped =>
    intro x small which
    rw [frame_eq_some.mpr ⟨mapped x small which, rfl⟩]
    exact Option.some_ne_none _
  case copied =>
    intro x small o inside
    refine (congrFun shared.mem _).trans ?_
    refine copies ?_ x (length ▸ small) o inside
    intro y _ below p holds
    obtain ⟨real, away⟩ := forkable.space.page y (by omega) p holds
    exact ⟨real, fun free => away (subset free)⟩
  case kernel =>
    intro x high
    have parent : (u.forked cur np).dirs (s.proc cur).pgdir =
        s.dirs (s.proc cur).pgdir := (shared.dirs _ apart).trans source
    have own : ((u.forked cur np).dirs d).entry x = (t.dirs d).entry x := by
      apply entry_congr
      rw [entries, if_neg (by omega)]
    rw [own, fresh.entry, if_neg (by omega), parent, forkable.kernel x high]
    rfl

/-- `fork` copies the private memory of its caller and shares the rest. -/
theorem fork_copies (img : Image) (s w : Kernel) (cur : Slot) (pid : Int)
    (forkable : Forkable img s cur) (ran : fork img cur s = .ok (pid, w)) (success : pid ≠ -1) :
    ∃ np, s.unusedSlot = some np ∧ (w.proc np).pid = pid ∧
      ForkCopied s w (s.proc cur).pgdir (w.proc np).pgdir (s.proc cur).sz (s.proc cur).shm := by
  have ends := wp_ok (wp_fork_ends (E := fun _ => True) forkable.toForker
    (fun _ _ _ _ => trivial) fun _ _ _ _ _ => trivial) ran
  cases ends with
  | full => exact absurd rfl success
  | noPage => exact absurd rfl success
  | failed => exact absurd rfl success
  | done np page rest d v n t u found list copied start total shared present =>
    cases copied with
    | done _ tables pages _ fresh length here copies _ =>
    have child : (u.forked cur np).proc np =
        { (u.proc np).inherit (u.proc cur) cur with state := .runnable } :=
      update_self _ _ _
    have slot : (u.proc np).pgdir = d ∧ (u.proc np).pid = s.nextpid := by
      rw [proc_eq shared.records]
      change (update t.proc np _ np).pgdir = d ∧ (update t.proc np _ np).pid = s.nextpid
      rw [update_self, fresh.proc]
      refine ⟨rfl, ?_⟩
      change (update s.proc np _ np).pid = _
      rw [update_self]
      rfl
    refine ⟨np, found, ?_, ?_⟩
    · rw [child]
      exact congrArg Int.ofNat slot.2
    · rw [child]
      change ForkCopied s _ _ (u.proc np).pgdir _ _
      rw [slot.1]
      exact (forkable.child list fresh length here copies start total shared
        present).forkCopied forkable.space length start (by omega)

end Fork

/-! ## A process with a private and a shared page -/

/-- The running process has the page 0 for itself and shares the last one;
fifteen pages are free. -/
def twoPages : Kernel :=
  { onePage ((List.range 15).map fun i => 0x600000 + i * PGSIZE) with
    dirs := fun _ =>
      { pde := fun i => if i = 0 then some 0x201000 else none
        pte := fun v =>
          if v = 0 then 0x400007
          else if v = 159 then 0x401007
          else (kernelDir smallImage [] 0x100000).pte v }
    proc := fun i =>
      { (onePage []).proc i with
        shm := 159 * PGSIZE
        shmKeyMask := 1
        shmVa := fun _ => 159 * PGSIZE }
    shmTab := fun key =>
      { count := if key = 0 then 1 else 0
        numPages := if key = 0 then 1 else 0
        physAddr := fun _ => 0x401000 } }

theorem twoPages_frame {v : Nat} (small : v < userPages) (d : Nat) : (twoPages.dirs d).frame v =
      if v = 0 then some 0x400000 else if v = 159 then some 0x401000
      else none := by
  unfold frame entry
  change (if present (if v = 0 then 0x400007 else if v = 159 then 0x401007
    else (kernelDir smallImage [] 0x100000).pte v) then
    some (if v = 0 then 0x400007 else if v = 159 then 0x401007
      else (kernelDir smallImage [] 0x100000).pte v) else none).map pteAddr = _
  split
  · rfl
  · split
    · rfl
    · have kernel : (kernelDir smallImage [] 0x100000).entry v = none := kernelDir_entry_user small
      unfold entry at kernel
      rw [kernel]
      rfl

theorem twoPages_frame_cases {d v p : Nat} (small : v < userPages)
    (holds : (twoPages.dirs d).frame v = some p) :
    v = 0 ∧ p = 0x400000 ∨ v = 159 ∧ p = 0x401000 := by
  rw [twoPages_frame small] at holds
  split at holds
  · rename_i first
    exact .inl ⟨first, (Option.some.inj holds).symm⟩
  · split at holds
    · rename_i last
      exact .inr ⟨last, (Option.some.inj holds).symm⟩
    · cases holds

theorem twoPages_forkable : Forkable smallImage twoPages 0 where
  stocked := ⟨by decide, by decide⟩
  inUse := by decide
  walk := ⟨0x201000, rfl⟩
  fits := by decide
  top := by decide
  aligned := by decide
  here := by decide
  space :=
    { walk := ⟨0x201000, rfl⟩
      nodup := by decide
      free := by decide
      page := by
        intro v small p holds
        rcases twoPages_frame_cases small holds with ⟨_, rfl⟩ | ⟨_, rfl⟩
        · decide
        · decide
      distinct := by
        intro v small w small' p first second
        rcases twoPages_frame_cases small first with ⟨_, rfl⟩ | ⟨_, rfl⟩
        · rcases twoPages_frame_cases small' second with ⟨_, _⟩ | ⟨_, _⟩
          · omega
          · omega
        · rcases twoPages_frame_cases small' second with ⟨_, _⟩ | ⟨_, _⟩
          · omega
          · omega }
  kernel := by
    intro v high
    apply entry_congr
    change (if v = 0 then _ else if v = 159 then _ else _) = _
    simp only [userPages] at high
    rw [if_neg (by omega), if_neg (by omega)]

seal PanicM.wp in
theorem twoPages_fork : ∃ w, fork smallImage 0 twoPages = .ok (2, w) := by
  have lower : ∀ v < pagesOf (twoPages.proc 0).sz,
      present ((twoPages.dirs (twoPages.proc 0).pgdir).pte v) = false →
      False := by
    intro v small missing
    have first : v = 0 := by
      change v < 1 at small
      omega
    subst first
    cases missing
  have upper : ∀ v, (twoPages.proc 0).shm ≤ v * PGSIZE → v < userPages →
      present ((twoPages.dirs (twoPages.proc 0).pgdir).pte v) = false →
      False := by
    intro v above small missing
    have last : v = 159 := by
      change 159 * 4096 ≤ v * 4096 at above
      simp only [userPages] at small
      omega
    subst last
    cases missing
  obtain ⟨pid, w, ran, ends⟩ :=
    wp_returns (wp_fork_ends (E := fun _ => False) twoPages_forkable.toForker
      (fun _ => lower) fun _ => upper)
  cases ends with
  | full none => exact absurd none (by decide +kernel)
  | noPage _ _ empty => exact absurd empty (by decide)
  | failed np page rest t _ list ends =>
    have fourteen : rest.length = 14 := by
      have length := congrArg List.length list
      change 15 = _ at length
      rw [List.length_cons] at length
      omega
    cases ends with
    | empty none =>
      change rest = [] at none
      rw [none] at fourteen
      cases fourteen
    | short _ _ few =>
      change rest.length < 13 at few
      omega
    | undone _ _ few =>
      change rest.length < 13 + 1 at few
      omega
  | done => exact ⟨_, ran⟩

/-- The private page is copied, the shared one is shared. -/
theorem twoPages_copied : ∃ w, fork smallImage 0 twoPages = .ok (2, w) ∧
    ∃ np, twoPages.unusedSlot = some np ∧ (w.proc np).pid = (2 : Int) ∧
      ForkCopied twoPages w 0x200000 (w.proc np).pgdir 4096 (159 * PGSIZE) := by
  obtain ⟨w, ran⟩ := twoPages_fork
  exact ⟨w, ran, fork_copies smallImage twoPages w 0 2 twoPages_forkable ran (by decide)⟩

end Xv6
