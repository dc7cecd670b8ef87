/-
Purpose: Directories made by `setupkvm` and filled with user pages from the
  free list, as `fork` and `exec` do it: what they map, and that `freevm` gives
  every page of them back.
-/
import Xv6.Proofs.FreeVm
import Xv6.Proofs.Copyout

namespace Xv6

open Function PanicM

/-- The free list holds pages of the allocator, each once. -/
structure Stocked (img : Image) (s : Kernel) : Prop where
  nodup : s.freelist.Nodup
  page : ∀ page ∈ s.freelist, img.Page page

/-- The directory `d` was made by `setupkvm` after `s₀`: it has the tables
`tables`, and `pages` are its first user pages.  The contents of the pages are
not said. -/
structure Fresh (img : Image) (s₀ : Kernel) (d : Nat) (tables pages : List Nat)
    (s : Kernel) : Prop where
  records : s.records = s₀.records
  count : tables.length = 12
  limit : pages.length ≤ userPages
  free : (d :: (tables ++ pages) ++ s.freelist).Perm s₀.freelist
  dirs : ∀ e, e ≠ d → s.dirs e = s₀.dirs e
  pde : (s.dirs d).pde = (kernelDir img tables 0x100000).pde
  entry : ∀ w, (s.dirs d).entry w =
    if w < pages.length then some (mkPte (pages.getD w 0) (PTE_W ||| PTE_U))
    else (kernelDir img tables 0x100000).entry w

section Kernel

variable {img : Image} {tables : List Nat} {v w : Nat}

theorem kernelDir_entry_user (small : w < userPages) : (kernelDir img tables v).entry w = none := by
  have word : (kernelDir img tables v).pte w = 0 := by
    apply if_neg
    unfold kernelPage
    simp only [userPages] at small
    omega
  unfold PgDir.entry
  rw [word]
  rfl

theorem userPage_kernel {x : Nat} (v : Nat) :
    userPage (mkPte (x * PGSIZE) (kernelPerm img v)) = false := by
  have bit : (mkPte (x * PGSIZE) (kernelPerm img v)).testBit 2 = false := by
    have page : (x * PGSIZE).testBit 2 = false := by
      rw [show PGSIZE = 2 ^ 12 from rfl, Nat.testBit_mul_two_pow]
      rfl
    have perm : (kernelPerm img v).testBit 2 = false := by
      unfold kernelPerm
      split <;> rfl
    unfold mkPte
    rw [Nat.testBit_or, Nat.testBit_or, page, perm]
    rfl
  unfold userPage
  rw [Nat.testBit_eq_decide_div_mod_eq] at bit
  exact bit

/-- No page of the kernel is open to the user. -/
theorem kernelDir_userFrame : (kernelDir img tables v).userFrame w = none := by
  apply if_neg
  intro all
  simp only [Bool.and_eq_true, decide_eq_true_eq] at all
  obtain ⟨⟨there, user⟩, _⟩ := all
  unfold kernelDir at there user
  dsimp only at there user
  split at user
  · rw [userPage_kernel] at user
    cases user
  · cases user

theorem PgDir.userFrame_entry (dir : PgDir) (w : Nat) :
    dir.userFrame w = (dir.entry w).bind fun word =>
      if userPage word && pteAddr word ≠ 0 then some (pteAddr word)
      else none := by
  unfold PgDir.userFrame PgDir.entry
  by_cases there : present (dir.pte w) = true
  · rw [if_pos there, there, Bool.true_and]
    rfl
  · rw [if_neg there, Bool.eq_false_iff.mpr there]
    rfl

theorem userPage_mkPte (page : Nat) : userPage (mkPte page (PTE_W ||| PTE_U)) = true := by
  have bit : (mkPte page (PTE_W ||| PTE_U)).testBit 2 = true := by
    unfold mkPte
    rw [Nat.testBit_or, Nat.testBit_or, show
      (PTE_W ||| PTE_U).testBit 2 = true from rfl, Bool.or_true, Bool.true_or]
  unfold userPage
  rw [Nat.testBit_eq_decide_div_mod_eq] at bit
  exact bit

theorem Image.Page.userFrame {dir : PgDir} {page : Nat} (ok : img.Page page)
    (here : dir.entry w = some (mkPte page (PTE_W ||| PTE_U))) : dir.userFrame w = some page := by
  rw [dir.userFrame_entry, here, Option.bind_some, userPage_mkPte, pteAddr_user ok.aligned]
  have real : page ≠ 0 := Nat.ne_of_gt ok.pos
  simp [real]

end Kernel

namespace Fresh

variable {img : Image} {s₀ s t : Kernel} {d : Nat} {tables pages : List Nat}
  {E : Panic → Prop}

theorem congr (fresh : Fresh img s₀ d tables pages s)
    (records : t.records = s.records) (free : t.freelist = s.freelist)
    (dirs : t.dirs = s.dirs) : Fresh img s₀ d tables pages t where
  records := records.trans fresh.records
  count := fresh.count
  limit := fresh.limit
  free := free ▸ fresh.free
  dirs e other := by rw [dirs, fresh.dirs e other]
  pde := by rw [dirs, fresh.pde]
  entry w := by rw [dirs, fresh.entry]

theorem proc (fresh : Fresh img s₀ d tables pages s) : s.proc = s₀.proc :=
  Kernel.proc_eq fresh.records

variable (stocked : Stocked img s₀) (fresh : Fresh img s₀ d tables pages s)

include stocked fresh

theorem nodup : (d :: (tables ++ pages) ++ s.freelist).Nodup :=
  fresh.free.nodup_iff.mpr stocked.nodup

theorem page {p : Nat} (member : p ∈ d :: (tables ++ pages) ++ s.freelist) : img.Page p :=
  stocked.page p (fresh.free.subset member)

theorem userPage {w : Nat} (inside : w < pages.length) : img.Page (pages.getD w 0) :=
  fresh.page stocked (List.mem_append_left _ (List.mem_cons_of_mem d
    (List.mem_append_right tables (getD_mem inside))))

omit stocked in
theorem walk : ∃ table, (s.dirs d).pde 0 = some table := by
  have count := fresh.count
  refine ⟨tables.get ⟨0, by omega⟩, ?_⟩
  rw [fresh.pde, kernelDir_pde (show tableIndex 0 = some 0 from rfl)]
  exact List.getElem?_eq_getElem _

theorem frame {w : Nat} (small : w < userPages) : (s.dirs d).frame w =
    if w < pages.length then some (pages.getD w 0) else none := by
  unfold PgDir.frame
  rw [fresh.entry]
  split
  · rename_i inside
    rw [Option.map_some, pteAddr_user (fresh.userPage stocked inside).aligned]
  · rw [kernelDir_entry_user small, Option.map_none]

theorem userFrame (w : Nat) : (s.dirs d).userFrame w =
    if w < pages.length then some (pages.getD w 0) else none := by
  split
  · rename_i inside
    refine (fresh.userPage stocked inside).userFrame ?_
    rw [fresh.entry, if_pos inside]
  · rename_i outside
    rw [PgDir.userFrame_entry, fresh.entry, if_neg outside, ← PgDir.userFrame_entry]
    exact kernelDir_userFrame

theorem stocked_rest : Stocked img s where
  nodup := (List.nodup_append.mp (fresh.nodup stocked)).2.1
  page _ member := fresh.page stocked (List.mem_append_right _ member)

theorem userDir : UserDir img s d where
  walk := fresh.walk
  nodup := (fresh.stocked_rest stocked).nodup
  free := (fresh.stocked_rest stocked).page
  page v small p holds := by
    rw [fresh.frame stocked small] at holds
    split at holds
    · rename_i inside
      rw [List.getD_eq_getElem _ _ inside] at holds
      cases holds
      have member : pages[v] ∈ d :: (tables ++ pages) :=
        List.mem_cons_of_mem d (List.mem_append_right tables (List.getElem_mem _))
      refine ⟨fresh.page stocked (List.mem_append_left _ member), ?_⟩
      exact fun free => (List.nodup_append.mp (fresh.nodup stocked)).2.2
        _ member _ free rfl
    · cases holds
  distinct v small w small' p first second := by
    rw [fresh.frame stocked small] at first
    rw [fresh.frame stocked small'] at second
    split at first
    · split at second
      · rename_i inside inside'
        rw [List.getD_eq_getElem _ _ inside] at first
        rw [List.getD_eq_getElem _ _ inside'] at second
        have own : pages.Nodup := by
          have all := fresh.nodup stocked
          rw [List.nodup_append, List.nodup_cons, List.nodup_append] at all
          exact all.1.2.2.1
        exact (own.getElem_inj_iff).mp ((Option.some.inj first).trans (Option.some.inj second).symm)
      · cases second
    · cases first

end Fresh

section Rules

variable {img : Image} {s₀ s t u : Kernel} {d : Nat}
  {tables pages : List Nat} {E : Panic → Prop}

/-! ## Making and filling -/

theorem zeroed_outside (tables : List Nat) (mem : Bytes.Store) {a : Nat}
    (apart : ∀ table ∈ tables, ¬ InPage table a) :
    tables.foldl (fun mem table => Bytes.fill mem table 0 PGSIZE) mem a = mem a := by
  induction tables generalizing mem with
  | nil => rfl
  | cons table rest ih =>
    rw [List.foldl_cons, ih]
    · exact if_neg (apart table List.mem_cons_self)
    · exact fun other member => apart other (List.mem_cons_of_mem _ member)

/-- `setupkvm` makes a directory, or finds too few pages for one.  In the
second case the pages it took are lost. -/
inductive SetupEnds (img : Image) (s : Kernel) : Option Nat → Kernel → Prop
  | empty : s.freelist = [] → SetupEnds img s none s
  | short (t : Kernel) : s.freelist ≠ [] → s.freelist.length < 13 →
      t.records = s.records → t.freelist = [] →
      (∀ e ∉ s.freelist, t.dirs e = s.dirs e) → SetupEnds img s none t
  | done (d : Nat) (tables : List Nat) (t : Kernel) :
      Fresh img s d tables [] t → 13 ≤ s.freelist.length →
      s.freelist = d :: (tables ++ t.freelist) →
      (∀ a, (∀ page ∈ s.freelist, ¬ InPage page a) → t.mem a = s.mem a) →
      SetupEnds img s (some d) t

theorem wp_setupkvm_ends (img : Image) (s : Kernel) : wp (setupkvm img) (SetupEnds img s) E s := by
  refine wp_setupkvm .empty ?_ ?_
  · intro d tables v list few
    refine .short _ ?_ ?_ rfl rfl ?_
    · rw [list]
      exact List.cons_ne_nil _ _
    · rw [list, List.length_cons]
      omega
    · intro e away
      refine update_of_ne ?_ _ _
      rintro rfl
      exact away (by rw [list]; exact List.mem_cons_self)
  · intro d tables rest list count
    refine .done d tables _ ?_ ?_ list ?_
    · constructor
      case records => rfl
      case count => exact count
      case limit => exact Nat.zero_le _
      case free =>
        rw [List.append_nil, list]
        exact .refl _
      case dirs => exact fun e other => update_of_ne other _ _
      case pde =>
        change (update s.dirs d _ d).pde = _
        rw [update_self]
      case entry =>
        intro w
        change (update s.dirs d _ d).entry w = _
        rw [update_self, List.length_nil, if_neg (Nat.not_lt_zero w)]
    · rw [list]
      simp only [List.length_cons, List.length_append]
      omega
    · intro a apart
      rw [list] at apart
      refine (zeroed_outside tables _ ?_).trans (if_neg (apart d List.mem_cons_self))
      exact fun table member => apart table (List.mem_cons_of_mem d
        (List.mem_append_left rest member))

theorem Fresh.grow {content : Nat → Nat → UInt8} {more : List Nat}
    (fresh : Fresh img s₀ d tables pages s) (grown : Grown d pages.length more content s t)
    (limit : pages.length + more.length ≤ userPages) : Fresh img s₀ d tables (pages ++ more) t := by
  constructor
  case records => exact grown.records.trans fresh.records
  case count => exact fresh.count
  case limit =>
    rw [List.length_append]
    exact limit
  case free =>
    have free := fresh.free
    rw [grown.free] at free
    simpa only [List.cons_append, List.append_assoc] using free
  case dirs =>
    intro e other
    rw [grown.dirs e other, fresh.dirs e other]
  case pde => rw [grown.pde, fresh.pde]
  case entry =>
    intro w
    rw [grown.entry, fresh.entry, List.length_append]
    by_cases old : w < pages.length
    · rw [if_neg (by omega), if_pos old, if_pos (by omega), List.getD_append _ _ _ _ old]
    · by_cases new : w < pages.length + more.length
      · rw [if_pos (by omega), if_pos new, List.getD_append_right _ _ _ _ (by omega)]
      · rw [if_neg (by omega), if_neg old, if_neg new]

theorem Fresh.restored (fresh : Fresh img s₀ d tables pages s)
    (restored : Restored s t) (dirs : ∀ e, e ≠ d → t.dirs e = s.dirs e) :
    Fresh img s₀ d tables pages t where
  records := restored.records.trans fresh.records
  count := fresh.count
  limit := fresh.limit
  free := (restored.free.append_left _).trans fresh.free
  dirs e other := by rw [dirs e other, fresh.dirs e other]
  pde := by rw [restored.pde, fresh.pde]
  entry w := by rw [restored.entry, fresh.entry]

/-- `allocuvm` on a new directory never panics: it refuses, has nothing to do,
grows the directory, or runs out of pages and leaves the directory as it was. -/
theorem wp_allocuvm_fresh {Q : Nat → Kernel → Prop} {cur : Slot}
    {oldsz newsz : Nat} (stocked : Stocked img s₀) (fresh : Fresh img s₀ d tables pages s)
    (size : pages.length = pagesOf oldsz) (top : (s.proc cur).shm ≤ USERTOP)
    (refused : (s.proc cur).shm < newsz ∨ s.freelist.length < pagesOf newsz - pagesOf oldsz →
      ∀ t, Fresh img s₀ d tables pages t → Q 0 t) (kept : newsz < oldsz → Q oldsz s)
    (grown : oldsz ≤ newsz → newsz ≤ (s.proc cur).shm → ∀ t more,
      Grown d pages.length more zeros s t →
      Fresh img s₀ d tables (pages ++ more) t →
      (pages ++ more).length = pagesOf newsz → Q newsz t) :
    wp (allocuvm img cur d oldsz newsz) Q E s := by
  have absent : ∀ w, pagesOf oldsz ≤ w → w < userPages → (s.dirs d).frame w = none := by
    intro w above below
    rw [fresh.frame stocked below, if_neg (by omega)]
  refine wp_allocuvm_grown (fresh.userDir stocked) top
    (fun tooFar => refused (.inl tooFar) s fresh) kept ?_ ?_ ?_
  · intro le fits t more mapped count _
    have within := pagesOf_le (fits.trans top)
    have le' := pagesOf_mono le
    rw [← size] at mapped
    refine grown le fits t more mapped (fresh.grow mapped (by omega)) ?_
    rw [List.length_append]
    omega
  · intro le fits t u more mapped few out _ shrunk
    have within := pagesOf_le (fits.trans top)
    have all : s.freelist.length < pagesOf newsz - pagesOf oldsz := by
      rw [mapped.free, out, List.append_nil]
      exact few
    refine refused (.inr all) u (fresh.restored ?_ ?_)
    · exact mapped.undo shrunk (fresh.userDir stocked) (by omega)
        fun w above below => absent w above (by omega)
    · intro e other
      rw [shrunk.dirs e other, mapped.dirs e other]
  · intro fits w above below _ there
    have within := pagesOf_le (fits.trans top)
    exact absurd (absent w above (by omega)) there

/-! ## Giving everything back -/

/-- The entries of a new directory are the tables it was given. -/
theorem Fresh.tables_eq (fresh : Fresh img s₀ d tables pages s) : (s.dirs d).tables = tables := by
  have count := fresh.count
  have split : List.range NPDENTRIES =
      List.range' 0 4 ++ List.range' 4 1012 ++ List.range' 1016 8 := by
    rw [List.range_eq_range', List.range'_append_1, List.range'_append_1]
  have low : (List.range' 0 4).filterMap (s.dirs d).pde = tables.take 4 := by
    apply filterMap_range'
    · rw [List.length_take]
      omega
    · intro i small
      rw [List.length_take] at small
      have index : tableIndex (0 + i) = some i := by
        unfold tableIndex
        rw [if_pos (by omega), Nat.zero_add]
      rw [fresh.pde, kernelDir_pde index, List.getElem?_eq_getElem (by omega),
        List.getD_eq_getElem _ _ (by rw [List.length_take]; omega),
        List.getElem_take]
    · intro w above below
      rw [List.length_take] at above
      omega
  have middle : (List.range' 4 1012).filterMap (s.dirs d).pde = [] := by
    apply List.filterMap_eq_nil_iff.mpr
    intro i member
    have bounds := List.mem_range'_1.mp member
    have index : tableIndex i = none := by
      unfold tableIndex
      rw [if_neg (by omega), if_neg (by omega)]
    rw [fresh.pde]
    change (tableIndex i).bind _ = none
    rw [index, Option.bind_none]
  have high : (List.range' 1016 8).filterMap (s.dirs d).pde = tables.drop 4 := by
    apply filterMap_range'
    · rw [List.length_drop]
      omega
    · intro i small
      rw [List.length_drop] at small
      have index : tableIndex (1016 + i) = some (4 + i) := by
        unfold tableIndex
        rw [if_neg (by omega), if_pos (by omega), Option.some.injEq]
        omega
      rw [fresh.pde, kernelDir_pde index, List.getElem?_eq_getElem (by omega),
        List.getD_eq_getElem _ _ (by rw [List.length_drop]; omega),
        List.getElem_drop]
    · intro w above below
      rw [List.length_drop] at above
      omega
  unfold PgDir.tables
  rw [split, List.filterMap_append, List.filterMap_append, low, middle, high,
    List.append_nil, List.take_append_drop]

/-- `freevm` of a new directory gives back what was taken since `s₀`. -/
theorem wp_freevm_fresh {Q : Unit → Kernel → Prop} {cur : Slot}
    (stocked : Stocked img s₀) (fresh : Fresh img s₀ d tables pages s)
    (top : (s.proc cur).shm ≤ USERTOP) (below : pages.length ≤ pagesOf (s.proc cur).shm)
    (next : ∀ t, t.records = s₀.records → t.freelist.Perm s₀.freelist →
      (∀ e, e ≠ d → t.dirs e = s₀.dirs e) →
      (∀ a, (∀ page ∈ s₀.freelist, ¬ InPage page a) → t.mem a = s.mem a) →
      Q () t) : wp (freevm img cur d) Q E s := by
  have within := pagesOf_le top
  have frames : (s.dirs d).frames 0 (pagesOf (s.proc cur).shm) = pages := by
    apply filterMap_range' pages below
    · intro i small
      rw [fresh.frame stocked (by omega), if_pos (by omega), Nat.zero_add]
    · intro w above less
      rw [fresh.frame stocked (by omega), if_neg (by omega)]
  have owned : (s.dirs d).owned d (pagesOf (s.proc cur).shm) = pages ++ tables ++ [d] := by
    unfold PgDir.owned
    rw [frames, fresh.tables_eq]
  have taken : ∀ page ∈ pages ++ tables ++ [d], page ∈ s₀.freelist := by
    intro page member
    apply fresh.free.subset
    simp only [List.mem_append, List.mem_cons, List.not_mem_nil] at member ⊢
    tauto
  refine wp_freevm_freed fresh.walk top ?_ ?_
  · rw [owned]
    exact fun page member => stocked.page page (taken page member)
  · intro t freed
    have free := freed.free
    have outside := freed.outside
    rw [owned] at free outside
    refine next t (freed.records.trans fresh.records) ?_ ?_ ?_
    · rw [free]
      refine List.Perm.trans ?_ fresh.free
      refine ((List.reverse_perm _).trans ?_).append_right _
      refine List.perm_append_comm.trans ?_
      rw [List.singleton_append]
      exact List.perm_append_comm.cons d
    · intro e other
      rw [freed.dirs e other, fresh.dirs e other]
    · intro a apart
      exact outside a fun page member => apart page (taken page member)

end Rules

end Xv6
