/-
Purpose: What the loops of vm.c do to an address space, exactly: which pages
  they take from the free list or give back to it, what the directory maps
  afterwards, and what the pages hold.
-/
import Xv6.Proofs.KernelFrames
import Xv6.Proofs.Kvm

namespace Xv6

open PanicM
open Function (update update_self update_of_ne)
open List (length_cons length_nil)

variable {img : Image} {s t u : Kernel} {E : Panic → Prop} {d v : Nat}
variable {a w v' n' x size oldsz newsz : Nat} {dir dir' : PgDir} {Q : Nat → Kernel → Prop}

/-! ## Pages, mappings and bytes -/

/-- A page of the memory that the allocator manages. -/
structure Image.Page (img : Image) (page : Nat) : Prop where
  aligned : page % PGSIZE = 0
  above : img.kend ≤ page
  below : page < PHYSTOP

instance (img : Image) (page : Nat) : Decidable (img.Page page) :=
  decidable_of_iff (page % PGSIZE = 0 ∧ img.kend ≤ page ∧ page < PHYSTOP)
    ⟨fun ⟨aligned, above, below⟩ => ⟨aligned, above, below⟩,
      fun ok => ⟨ok.aligned, ok.above, ok.below⟩⟩

/-- The byte at `a` belongs to the page. -/
def InPage (page a : Nat) : Prop := page ≤ a ∧ a < page + PGSIZE

/-- The entry word of a page that is mapped. -/
def PgDir.entry (dir : PgDir) (v : Nat) : Option Nat :=
  if present (dir.pte v) then some (dir.pte v) else none

/-- The frame behind a page that is mapped. -/
def PgDir.frame (dir : PgDir) (v : Nat) : Option Nat :=
  (dir.entry v).map pteAddr

/-- The byte that a directory shows at a user address. -/
def Kernel.userByte (s : Kernel) (d va : Nat) : Option UInt8 :=
  ((s.dirs d).frame (vpn va)).map fun page => s.mem (page + va % PGSIZE)

theorem InPage.unique {page other : Nat} (here : InPage page a)
    (there : InPage other a) (aligned : page % PGSIZE = 0)
    (aligned' : other % PGSIZE = 0) : page = other := by
  unfold InPage at here there
  simp only [PGSIZE] at *
  omega

theorem InPage.of_offset {page o : Nat} (inside : o < PGSIZE) : InPage page (page + o) := by
  unfold InPage
  omega

theorem Image.Page.pos {page : Nat} (ok : img.Page page) : 0 < page := by
  have above := ok.above
  have data := img.text_lt_data
  have kend := img.data_lt_kend
  omega

theorem PgDir.frame_eq_some {page : Nat} : dir.frame v = some page ↔
      present (dir.pte v) = true ∧ pteAddr (dir.pte v) = page := by
  unfold PgDir.frame PgDir.entry
  split <;> simp_all

theorem PgDir.frame_congr (same : dir'.pte w = dir.pte w) : dir'.frame w = dir.frame w := by
  unfold PgDir.frame PgDir.entry
  rw [same]

theorem PgDir.entry_congr (same : dir'.pte w = dir.pte w) : dir'.entry w = dir.entry w := by
  unfold PgDir.entry
  rw [same]

theorem pteAddr_user {page : Nat} (aligned : page % PGSIZE = 0) :
    pteAddr (mkPte page (PTE_W ||| PTE_U)) = page := by
  rw [pteAddr_mkPte user_perm]
  exact Nat.div_mul_cancel (Nat.dvd_of_mod_eq_zero aligned)

/-- A directory whose user pages are pages of the allocator, each mapped once
and none of them free. -/
structure UserDir (img : Image) (s : Kernel) (d : Nat) : Prop where
  walk : ∃ table, (s.dirs d).pde 0 = some table
  nodup : s.freelist.Nodup
  free : ∀ page ∈ s.freelist, img.Page page
  page : ∀ v < userPages, ∀ p, (s.dirs d).frame v = some p → img.Page p ∧ p ∉ s.freelist
  distinct : ∀ v < userPages, ∀ w < userPages, ∀ p,
    (s.dirs d).frame v = some p → (s.dirs d).frame w = some p → v = w

/-! ## Pages mapped -/

/-- The first pages of the free list are mapped at `v` and the pages after
it, and hold the bytes of `content`. -/
structure Grown (d v : Nat) (pages : List Nat) (content : Nat → Nat → UInt8)
    (s t : Kernel) : Prop where
  records : t.records = s.records
  free : s.freelist = pages ++ t.freelist
  dirs : ∀ e, e ≠ d → t.dirs e = s.dirs e
  pde : (t.dirs d).pde = (s.dirs d).pde
  pte : ∀ w, (t.dirs d).pte w = if v ≤ w ∧ w < v + pages.length then
      mkPte (pages.getD (w - v) 0) (PTE_W ||| PTE_U)
    else (s.dirs d).pte w
  inside : ∀ i < pages.length, ∀ o < PGSIZE, t.mem (pages.getD i 0 + o) = content (v + i) o
  outside : ∀ a, (∀ page ∈ pages, ¬ InPage page a) → t.mem a = s.mem a

/-- Contents of new pages: all zero. -/
def zeros : Nat → Nat → UInt8 := fun _ _ => 0

section Grown

variable {content : Nat → Nat → UInt8} {pages : List Nat} {page : Nat}
variable {w o va : Nat}

theorem getD_mem {i : Nat} (inside : i < pages.length) : pages.getD i 0 ∈ pages := by
  rw [List.getD_eq_getElem _ _ inside]
  exact List.getElem_mem _

theorem Grown.refl (d v : Nat) (content : Nat → Nat → UInt8) (s : Kernel) :
    Grown d v [] content s s where
  records := rfl
  free := rfl
  dirs _ _ := rfl
  pde := rfl
  pte w := by
    rw [if_neg]
    simp only [length_nil]
    omega
  inside _ impossible := absurd impossible (Nat.not_lt_zero _)
  outside _ _ := rfl

theorem Grown.cons (one : Grown d v [page] content s t) (rest : Grown d (v + 1) pages content t u)
    (aligned : ∀ p ∈ page :: pages, p % PGSIZE = 0) (fresh : page ∉ pages) :
    Grown d v (page :: pages) content s u where
  records := rest.records.trans one.records
  free := by
    rw [one.free, rest.free]
    rfl
  dirs e other := (rest.dirs e other).trans (one.dirs e other)
  pde := rest.pde.trans one.pde
  pte w := by
    rw [rest.pte, one.pte]
    simp only [length_cons, length_nil]
    by_cases first : w = v
    · subst first
      rw [if_neg (by omega), if_pos (by omega), if_pos (by omega),
        Nat.sub_self, List.getD_cons_zero, List.getD_cons_zero]
    · by_cases later : v + 1 ≤ w ∧ w < v + 1 + pages.length
      · have index : w - v = (w - (v + 1)) + 1 := by omega
        rw [if_pos later, if_pos (by omega), index, List.getD_cons_succ]
      · rw [if_neg later, if_neg (by omega), if_neg (by omega)]
  inside i small o less := by
    cases i with
    | zero =>
      rw [List.getD_cons_zero, rest.outside, Nat.add_zero]
      · exact one.inside 0 (by simp) o less
      · intro other member here
        have same := here.unique (InPage.of_offset less)
          (aligned other (List.mem_cons_of_mem page member))
          (aligned page List.mem_cons_self)
        exact fresh (same ▸ member)
    | succ i =>
      rw [List.getD_cons_succ]
      have later := rest.inside i
        (by simpa only [length_cons, Nat.add_lt_add_iff_right] using small) o less
      rwa [Nat.add_assoc, Nat.add_comm 1 i] at later
  outside a apart := by
    rw [rest.outside a fun other member =>
        apart other (List.mem_cons_of_mem page member),
      one.outside a fun other member => apart other
        (by rw [List.mem_singleton.mp member]; exact List.mem_cons_self)]

theorem Grown.single {rest : List Nat} (list : s.freelist = page :: rest)
    (records : t.records = s.records) (free : t.freelist = rest)
    (dirs : t.dirs = update s.dirs d ((s.dirs d).setPte v (mkPte page (PTE_W ||| PTE_U))))
    (inside : ∀ o < PGSIZE, t.mem (page + o) = content v o)
    (outside : ∀ a, ¬ InPage page a → t.mem a = s.mem a) : Grown d v [page] content s t where
  records := records
  free := by
    rw [list, free]
    rfl
  dirs e other := by rw [dirs, update_of_ne other]
  pde := by
    rw [dirs, update_self]
    rfl
  pte w := by
    rw [dirs, update_self]
    simp only [PgDir.setPte, length_cons, length_nil]
    by_cases here : w = v
    · subst here
      rw [update_self, if_pos (by omega), Nat.sub_self, List.getD_cons_zero]
    · rw [update_of_ne here, if_neg (by omega)]
  inside i small o less := by
    have zero : i = 0 := by simpa using small
    subst zero
    exact inside o less
  outside a apart := outside a (apart page (List.mem_singleton_self page))

theorem Grown.pages_subset (grown : Grown d v pages content s t) : pages ⊆ s.freelist := by
  rw [grown.free]
  exact List.subset_append_left pages t.freelist

theorem Grown.frame (grown : Grown d v pages content s t)
    (aligned : ∀ page ∈ pages, page % PGSIZE = 0) (w : Nat) :
    (t.dirs d).frame w = if v ≤ w ∧ w < v + pages.length then some (pages.getD (w - v) 0)
      else (s.dirs d).frame w := by
  split
  · rename_i inside
    have member : pages.getD (w - v) 0 ∈ pages := getD_mem (by omega)
    rw [PgDir.frame_eq_some, grown.pte, if_pos inside]
    exact ⟨present_mkPte .., pteAddr_user (aligned _ member)⟩
  · rename_i outside
    apply PgDir.frame_congr
    rw [grown.pte, if_neg outside]

theorem Grown.userDir (grown : Grown d v pages content s t)
    (ok : UserDir img s d) : UserDir img t d := by
  have nodup := ok.nodup
  rw [grown.free] at nodup
  have split := List.nodup_append.mp nodup
  have aligned : ∀ page ∈ pages, page % PGSIZE = 0 := fun page member =>
    (ok.free page (grown.pages_subset member)).aligned
  have frame := grown.frame aligned
  have index : ∀ w, v ≤ w ∧ w < v + pages.length → pages.getD (w - v) 0 ∈ pages := by
    intro w inside
    rw [List.getD_eq_getElem _ _ (by omega)]
    exact List.getElem_mem _
  have still : t.freelist ⊆ s.freelist := by
    rw [grown.free]
    exact List.subset_append_right pages t.freelist
  constructor
  case walk =>
    rw [grown.pde]
    exact ok.walk
  case nodup => exact split.2.1
  case free => exact fun page member => ok.free page (still member)
  case page =>
    intro w small p holds
    rw [frame] at holds
    split at holds
    · rename_i inside
      cases holds
      exact ⟨ok.free _ (grown.pages_subset (index w inside)), fun member =>
        split.2.2 _ (index w inside) _ member rfl⟩
    · obtain ⟨page, used⟩ := ok.page w small p holds
      exact ⟨page, fun member => used (still member)⟩
  case distinct =>
    intro w small x small' p first second
    rw [frame] at first second
    split at first
    · rename_i inside
      cases first
      split at second
      · rename_i inside'
        have same := Option.some.inj second
        rw [List.getD_eq_getElem _ _ (by omega), List.getD_eq_getElem _ _ (by omega)] at same
        have index := (split.1.getElem_inj_iff).mp same
        omega
      · exact absurd (grown.pages_subset (index w inside)) (ok.page x small' _ second).2
    · split at second
      · rename_i inside
        cases second
        exact absurd (grown.pages_subset (index x inside)) (ok.page w small _ first).2
      · exact ok.distinct w small x small' p first second

theorem Kernel.userByte_page (inside : o < PGSIZE) : s.userByte d (w * PGSIZE + o) =
      ((s.dirs d).frame w).map fun page => s.mem (page + o) := by
  have number : vpn (w * PGSIZE + o) = w := by
    unfold vpn
    simp only [PGSIZE] at *
    omega
  have offset : (w * PGSIZE + o) % PGSIZE = o := by
    simp only [PGSIZE] at *
    omega
  unfold Kernel.userByte
  rw [number, offset]

theorem PgDir.entry_eq_none {dir : PgDir} : dir.entry w = none ↔ dir.frame w = none := by
  unfold PgDir.frame
  rw [Option.map_eq_none_iff]

theorem Kernel.userByte_congr (frame : (t.dirs d).frame (vpn va) = (s.dirs d).frame (vpn va))
    (mem : ∀ p, (s.dirs d).frame (vpn va) = some p →
      t.mem (p + va % PGSIZE) = s.mem (p + va % PGSIZE)) : t.userByte d va = s.userByte d va := by
  unfold Kernel.userByte
  rw [frame]
  cases holds : (s.dirs d).frame (vpn va) with
  | none => rfl
  | some p => exact congrArg some (mem p holds)

theorem Grown.userByte_old (grown : Grown d v pages content s t)
    (ok : UserDir img s d) (small : vpn va < userPages)
    (apart : ¬ (v ≤ vpn va ∧ vpn va < v + pages.length)) : t.userByte d va = s.userByte d va := by
  apply Kernel.userByte_congr
  · apply PgDir.frame_congr
    rw [grown.pte, if_neg apart]
  · intro p holds
    obtain ⟨page, used⟩ := ok.page _ small p holds
    apply grown.outside
    intro other member here
    have listed := grown.pages_subset member
    have same := here.unique (InPage.of_offset (Nat.mod_lt va (by decide)))
      (ok.free other listed).aligned page.aligned
    exact used (same ▸ listed)

theorem Grown.userByte_new (grown : Grown d v pages content s t)
    (ok : UserDir img s d) (inside : o < PGSIZE) (above : v ≤ w) (below : w < v + pages.length) :
    t.userByte d (w * PGSIZE + o) = some (content w o) := by
  have aligned : ∀ page ∈ pages, page % PGSIZE = 0 := fun page member =>
    (ok.free page (grown.pages_subset member)).aligned
  have holds := grown.inside (w - v) (by omega) o inside
  rw [Nat.add_sub_cancel' above] at holds
  rw [Kernel.userByte_page inside, grown.frame aligned, if_pos ⟨above, below⟩,
    Option.map_some, holds]

theorem Grown.entry (grown : Grown d v pages content s t) (w : Nat) : (t.dirs d).entry w =
      if v ≤ w ∧ w < v + pages.length then
        some (mkPte (pages.getD (w - v) 0) (PTE_W ||| PTE_U))
      else (s.dirs d).entry w := by
  unfold PgDir.entry
  rw [grown.pte]
  split
  · rw [if_pos (present_mkPte ..)]
  · rfl

end Grown

/-! ## Pages unmapped -/

/-- The frames behind `n` pages from `v` on. -/
def PgDir.frames (dir : PgDir) (v n : Nat) : List Nat :=
  (List.range' v n).filterMap dir.frame

/-- The `n` pages from `v` on are unmapped. -/
structure Cleared (d v n : Nat) (s t : Kernel) : Prop where
  records : t.records = s.records
  dirs : ∀ e, e ≠ d → t.dirs e = s.dirs e
  pde : (t.dirs d).pde = (s.dirs d).pde
  pte : ∀ w, (t.dirs d).pte w = if (v ≤ w ∧ w < v + n) ∧ present ((s.dirs d).pte w) = true then 0
    else (s.dirs d).pte w

theorem Cleared.entry {n : Nat} (cleared : Cleared d v n s t) (w : Nat) : (t.dirs d).entry w =
      if v ≤ w ∧ w < v + n then none else (s.dirs d).entry w := by
  have pte := cleared.pte w
  by_cases inside : v ≤ w ∧ w < v + n
  · rw [if_pos inside]
    unfold PgDir.entry
    by_cases mapped : present ((s.dirs d).pte w) = true
    · rw [if_pos ⟨inside, mapped⟩] at pte
      rw [pte]
      rfl
    · rw [if_neg fun both => mapped both.2] at pte
      rw [pte, if_neg mapped]
  · rw [if_neg fun both => inside both.1] at pte
    rw [if_neg inside]
    exact PgDir.entry_congr pte

theorem Cleared.skip {n : Nat} (rest : Cleared d v n s t)
    (absent : present ((s.dirs d).pte x) = false)
    (range : ∀ w, w ≠ x → (v ≤ w ∧ w < v + n ↔ v' ≤ w ∧ w < v' + n')) : Cleared d v' n' s t where
  records := rest.records
  dirs := rest.dirs
  pde := rest.pde
  pte w := by
    rw [rest.pte]
    by_cases here : w = x
    · subst here
      rw [if_neg (by simp [absent]), if_neg (by simp [absent])]
    · exact if_congr (and_congr_left fun _ => range w here) rfl rfl

theorem Cleared.clear {n : Nat} (rest : Cleared d v n t u)
    (mapped : present ((s.dirs d).pte x) = true) (records : t.records = s.records)
    (dirs : t.dirs = update s.dirs d ((s.dirs d).setPte x 0)) (inside : v' ≤ x ∧ x < v' + n')
    (range : ∀ w, w ≠ x → (v ≤ w ∧ w < v + n ↔ v' ≤ w ∧ w < v' + n')) : Cleared d v' n' s u := by
  have dir : t.dirs d = (s.dirs d).setPte x 0 := by
    rw [dirs, update_self]
  constructor
  case records => exact rest.records.trans records
  case dirs =>
    intro e other
    rw [rest.dirs e other, dirs, update_of_ne other]
  case pde =>
    rw [rest.pde, dir]
    rfl
  case pte =>
    intro w
    rw [rest.pte, dir]
    by_cases here : w = x
    · subst here
      have zero : ((s.dirs d).setPte w 0).pte w = 0 := update_self ..
      rw [zero, ite_self, if_pos ⟨inside, mapped⟩]
    · have same : ((s.dirs d).setPte x 0).pte w = (s.dirs d).pte w := update_of_ne here ..
      rw [same]
      exact if_congr (and_congr_left fun _ => range w here) rfl rfl

/-- The pages from `v` on are unmapped, and those that were mapped are given
back. -/
structure Shrunk (d v n : Nat) (s t : Kernel) : Prop extends Cleared d v n s t where
  free : t.freelist = ((s.dirs d).frames v n).reverse ++ s.freelist
  outside : ∀ a, (∀ page ∈ (s.dirs d).frames v n, ¬ InPage page a) → t.mem a = s.mem a

section Shrunk

variable {n : Nat}
variable {dir : PgDir} {Q : Unit → Kernel → Prop}

theorem PgDir.frames_succ (dir : PgDir) (v n : Nat) :
    dir.frames v (n + 1) = (dir.frame v).toList ++ dir.frames (v + 1) n := by
  unfold PgDir.frames
  rw [List.range'_succ, List.filterMap_cons]
  cases dir.frame v <;> rfl

theorem PgDir.mem_frames {page : Nat} : page ∈ dir.frames v n ↔
      ∃ w, (v ≤ w ∧ w < v + n) ∧ dir.frame w = some page := by
  unfold PgDir.frames
  simp [List.mem_filterMap, List.mem_range'_1]

theorem PgDir.frames_congr {dir' : PgDir} (same : ∀ w, v ≤ w → w < v + n → dir'.pte w = dir.pte w) :
    dir'.frames v n = dir.frames v n := by
  unfold PgDir.frames
  apply List.filterMap_congr
  intro w member
  obtain ⟨above, below⟩ := List.mem_range'_1.mp member
  exact PgDir.frame_congr (same w above below)

theorem Shrunk.refl (d v : Nat) (s : Kernel) : Shrunk d v 0 s s where
  records := rfl
  free := rfl
  dirs _ _ := rfl
  pde := rfl
  pte w := by rw [if_neg (by omega)]
  outside _ _ := rfl

theorem Shrunk.skip (absent : present ((s.dirs d).pte v) = false)
    (rest : Shrunk d (v + 1) n s t) : Shrunk d v (n + 1) s t := by
  have frames : (s.dirs d).frames v (n + 1) = (s.dirs d).frames (v + 1) n := by
    rw [PgDir.frames_succ]
    unfold PgDir.frame PgDir.entry
    rw [absent]
    rfl
  constructor
  case toCleared =>
    exact rest.toCleared.skip absent fun w other => by omega
  case free => rw [frames, rest.free]
  case outside =>
    intro a apart
    rw [frames] at apart
    exact rest.outside a apart

theorem Shrunk.cons {page : Nat} (mapped : (s.dirs d).frame v = some page)
    (rest : Shrunk d (v + 1) n ((s.freed page).setDir d (((s.freed page).dirs d).setPte v 0)) t) :
    Shrunk d v (n + 1) s t := by
  obtain ⟨there, _⟩ := PgDir.frame_eq_some.mp mapped
  have dir : ((s.freed page).setDir d (((s.freed page).dirs d).setPte v 0)).dirs d =
      (s.dirs d).setPte v 0 := update_self ..
  have later : ((s.dirs d).setPte v 0).frames (v + 1) n = (s.dirs d).frames (v + 1) n :=
    PgDir.frames_congr fun w above _ => update_of_ne (by omega) ..
  have frames : (s.dirs d).frames v (n + 1) = page :: (s.dirs d).frames (v + 1) n := by
    rw [PgDir.frames_succ, mapped]
    rfl
  constructor
  case toCleared =>
    exact rest.toCleared.clear there rfl rfl (by omega) fun w other => by omega
  case free =>
    rw [rest.free, dir, later, frames, List.reverse_cons, List.append_assoc]
    rfl
  case outside =>
    intro a apart
    rw [frames] at apart
    rw [rest.outside a]
    · exact if_neg (apart page List.mem_cons_self)
    · rw [dir, later]
      exact fun other member => apart other (List.mem_cons_of_mem page member)

theorem Shrunk.userByte (shrunk : Shrunk d v n s t) (ok : UserDir img s d)
    (limit : v + n ≤ userPages) {va : Nat} (small : vpn va < userPages)
    (apart : ¬ (v ≤ vpn va ∧ vpn va < v + n)) : t.userByte d va = s.userByte d va := by
  apply Kernel.userByte_congr
  · unfold PgDir.frame
    rw [shrunk.entry, if_neg apart]
  · intro p holds
    obtain ⟨page, _⟩ := ok.page _ small p holds
    apply shrunk.outside
    intro other member here
    obtain ⟨w, inside, frame⟩ := PgDir.mem_frames.mp member
    have same := here.unique (InPage.of_offset (Nat.mod_lt va (by decide)))
      (ok.page w (by omega) other frame).1.aligned page.aligned
    rw [same] at frame
    have number := ok.distinct _ small w (by omega) p holds frame
    exact apart (number ▸ inside)

theorem Kernel.walk_setPte {word : Nat} (walk : ∃ table, (t.dirs d).pde 0 = some table) :
    ∃ table, ((t.setDir d ((t.dirs d).setPte v word)).dirs d).pde 0 = some table := by
  change ∃ table, (update t.dirs d _ d).pde 0 = some table
  rwa [update_self]

theorem Kernel.frame_setPte {word : Nat} (other : w ≠ v) :
    ((t.setDir d ((t.dirs d).setPte v word)).dirs d).frame w = (t.dirs d).frame w := by
  apply PgDir.frame_congr
  change (update t.dirs d _ d).pte w = _
  rw [update_self]
  exact update_of_ne other ..

theorem wp_kfree_page {page : Nat} (ok : img.Page page) (next : Q () (s.freed page)) :
    wp (kfree img page) Q E s := by
  have passes : ¬ (page % PGSIZE ≠ 0 ∨ page < img.kend ∨ PHYSTOP ≤ page) := by
    have aligned := ok.aligned
    have above := ok.above
    have below := ok.below
    omega
  unfold kfree
  rw [if_neg passes]
  exact next

/-- The loop of `deallocuvm`, by induction on its rounds. -/
theorem wp_deallocLoop_shrunk (n : Nat) (walk : ∃ table, (s.dirs d).pde 0 = some table)
    (limit : v + n ≤ userPages)
    (pages : ∀ w, v ≤ w → w < v + n → ∀ p, (s.dirs d).frame w = some p → img.Page p)
    (next : ∀ t, Shrunk d v n s t → Q () t) : wp (deallocLoop img d (v * PGSIZE) n) Q E s := by
  induction n generalizing v s with
  | zero => exact next s (.refl d v s)
  | succ n ih =>
    simp only [deallocLoop, wp_bind]
    refine wp_walk_user walk (by omega) ?_
    simp only [readPte, wp_bind, wp_get, wp_pure]
    split
    · rename_i mapped
      have frame : (s.dirs d).frame v = some (pteAddr ((s.dirs d).pte v)) :=
        PgDir.frame_eq_some.mpr ⟨mapped, rfl⟩
      have ok := pages v le_rfl (by omega) _ frame
      rw [if_neg (Nat.ne_of_gt ok.pos), wp_bind]
      refine wp_kfree_page ok ?_
      rw [wp_bind, ← Nat.add_one_mul]
      refine wp_writePte (ih (Kernel.walk_setPte walk) (by omega) ?_ fun t rest => ?_)
      · intro w above below p holds
        rw [Kernel.frame_setPte (t := s.freed _) (by omega)] at holds
        exact pages w (by omega) (by omega) p holds
      · exact next t (.cons frame rest)
    · rename_i unmapped
      rw [← Nat.add_one_mul]
      refine ih walk (by omega) (fun w above below => pages w (by omega) (by omega)) ?_
      intro t rest
      exact next t (.skip (Bool.eq_false_iff.mpr unmapped) rest)

end Shrunk

/-! ## Sizes in bytes -/

/-- Pages that `size` bytes take. -/
def pagesOf (size : Nat) : Nat := (size + 4095) / 4096

theorem pagesTo_zero (size : Nat) : pagesTo 0 size = pagesOf size := rfl

theorem pagesOf_mono {c : Nat} (le : a ≤ c) : pagesOf a ≤ pagesOf c :=
  Nat.div_le_div_right (by omega)

theorem pagesOf_le (small : size ≤ USERTOP) : pagesOf size ≤ userPages := by
  simp only [pagesOf, USERTOP, userPages] at small ⊢
  omega

theorem pgroundup_pages (small : size ≤ USERTOP) : pgroundup size = pagesOf size * PGSIZE :=
  pgroundup_of_le small

theorem pagesTo_pages (n size : Nat) : pagesTo (n * PGSIZE) size = pagesOf size - n := by
  simp only [pagesTo, pagesOf, PGSIZE]
  omega

theorem vpn_lt {n : Nat} : vpn a < n ↔ a < n * PGSIZE :=
  Nat.div_lt_iff_lt_mul (by decide)

theorem le_pagesOf_mul (size : Nat) : size ≤ pagesOf size * PGSIZE := by
  unfold pagesOf
  simp only [PGSIZE]
  omega

theorem vpn_lt_pagesOf (below : a < size) : vpn a < pagesOf size :=
  vpn_lt.mpr (below.trans_le (le_pagesOf_mul size))

/-- The pages of a size are those that start below it. -/
theorem lt_pagesOf : w < pagesOf size ↔ w * PGSIZE < size := by
  simp only [pagesOf, PGSIZE]
  omega

theorem wp_deallocuvm_shrunk (walk : ∃ table, (s.dirs d).pde 0 = some table)
    (small : oldsz ≤ USERTOP) (pages : ∀ w, pagesOf newsz ≤ w → w < pagesOf oldsz →
      ∀ p, (s.dirs d).frame w = some p → img.Page p) (kept : oldsz ≤ newsz → Q oldsz s)
    (next : newsz < oldsz → ∀ t, Shrunk d (pagesOf newsz)
      (pagesOf oldsz - pagesOf newsz) s t → Q newsz t) :
    wp (deallocuvm img d oldsz newsz) Q E s := by
  unfold deallocuvm
  split
  · rename_i grows
    exact kept grows
  · rename_i shrinks
    have le : pagesOf newsz ≤ pagesOf oldsz := pagesOf_mono (by omega)
    have limit := pagesOf_le small
    rw [pgroundup_pages (by omega), pagesTo_pages, wp_bind]
    refine wp_deallocLoop_shrunk _ walk (by omega) ?_ ?_
    · intro w above below
      exact pages w above (by omega)
    · intro t shrunk
      exact next (by omega) t shrunk

/-! ## Shared pages unmapped -/

/-- The pages from `v` on are unmapped, and none is given back. -/
structure Unmapped (d v n : Nat) (s t : Kernel) : Prop extends Cleared d v n s t where
  free : t.freelist = s.freelist
  mem : t.mem = s.mem

section Unmapped

variable {n : Nat}
variable {Q : Unit → Kernel → Prop}

theorem Unmapped.refl (d v : Nat) (s : Kernel) : Unmapped d v 0 s s where
  records := rfl
  free := rfl
  mem := rfl
  dirs _ _ := rfl
  pde := rfl
  pte w := by rw [if_neg (by omega)]

theorem Unmapped.skip (absent : present ((s.dirs d).pte (v + n)) = false)
    (rest : Unmapped d v n s t) : Unmapped d v (n + 1) s t where
  toCleared := rest.toCleared.skip absent fun w other => by omega
  free := rest.free
  mem := rest.mem

theorem Unmapped.last (mapped : present ((s.dirs d).pte (v + n)) = true) (rest : Unmapped d v n
      (s.setDir d ((s.dirs d).setPte (v + n) 0)) t) : Unmapped d v (n + 1) s t where
  toCleared := rest.toCleared.clear mapped rfl rfl (by omega) fun w other => by omega
  free := rest.free
  mem := rest.mem

variable (walk : ∃ table, (s.dirs d).pde 0 = some table) (limit : v + n ≤ userPages)
  (real : ∀ w, v ≤ w → w < v + n → ∀ p, (s.dirs d).frame w = some p → p ≠ 0)
  (next : ∀ t, Unmapped d v n s t → Q () t)
include walk limit real next

/-- The loop of `deallocshm`, by induction on its rounds, from the last page
down. -/
theorem wp_deallocShmLoop_unmapped : wp (deallocShmLoop d ((v + n) * PGSIZE - PGSIZE) n) Q E s := by
  induction n generalizing s with
  | zero => exact next s (.refl d v s)
  | succ n ih =>
    have last : (v + (n + 1)) * PGSIZE - PGSIZE = (v + n) * PGSIZE := by
      rw [← Nat.add_assoc, Nat.succ_mul, Nat.add_sub_cancel]
    rw [last, deallocShmLoop, wp_bind]
    refine wp_walk_user walk (by omega) ?_
    simp only [readPte, wp_bind, wp_get, wp_pure]
    split
    · rename_i mapped
      have frame : (s.dirs d).frame (v + n) = some (pteAddr ((s.dirs d).pte (v + n))) :=
        PgDir.frame_eq_some.mpr ⟨mapped, rfl⟩
      rw [if_neg (real (v + n) (by omega) (by omega) _ frame), wp_bind]
      refine wp_writePte (ih (Kernel.walk_setPte walk) (by omega) ?_ fun t rest => ?_)
      · intro w above below p holds
        rw [Kernel.frame_setPte (by omega)] at holds
        exact real w above (by omega) p holds
      · exact next t (.last mapped rest)
    · rename_i unmapped
      refine ih walk (by omega) (fun w above below => real w above (by omega)) ?_
      intro t rest
      exact next t (.skip (Bool.eq_false_iff.mpr unmapped) rest)

theorem wp_deallocshm_unmapped : wp (deallocshm d (v * PGSIZE) ((v + n) * PGSIZE)) Q E s := by
  unfold deallocshm
  split
  · rename_i nothing
    have zero : n = 0 := by
      simp only [PGSIZE] at nothing
      omega
    subst zero
    exact next s (.refl d v s)
  · rename_i some
    have top : pgrounddown ((v + n) * PGSIZE - PGSIZE) = (v + n) * PGSIZE - PGSIZE := by
      simp only [pgrounddown, PGSIZE] at *
      omega
    have count : ((v + n) * PGSIZE - PGSIZE + PGSIZE - v * PGSIZE) / PGSIZE =
        n := by
      simp only [PGSIZE] at *
      omega
    dsimp only
    rw [top, count]
    exact wp_deallocShmLoop_unmapped walk limit real next

end Unmapped

/-! ## Growing -/

variable {content : Nat → Nat → UInt8} {page : Nat} {pages : List Nat}

/-- One user page is mapped, unless there is one already. -/
theorem wp_mappages_checked {Q : Bool → Kernel → Prop} {pa perm : Nat}
    (walk : ∃ table, (s.dirs d).pde 0 = some table) (small : v < userPages)
    (remap : (s.dirs d).frame v ≠ none → E .remap)
    (next : (s.dirs d).frame v = none → Q true (s.setDir d ((s.dirs d).setPte v (mkPte pa perm)))) :
    wp (mappages d (v * PGSIZE) PGSIZE pa perm) Q E s := by
  by_cases mapped : present ((s.dirs d).pte v) = true
  · rw [mappages_one small, mapLoop, wp_bind]
    refine wp_walk_user walk small ?_
    simp only [readPte, wp_bind, wp_get, wp_pure, if_pos mapped]
    refine remap ?_
    rw [PgDir.frame_eq_some.mpr ⟨mapped, rfl⟩]
    exact Option.some_ne_none _
  · have absent : (s.dirs d).frame v = none := by
      unfold PgDir.frame PgDir.entry
      rw [if_neg mapped]
      rfl
    exact wp_mappages_user walk small (Bool.eq_false_iff.mpr mapped) (next absent)

theorem wp_mapNew_grown {Q : Bool → Kernel → Prop} {m : Kernel}
    (content : Nat → Nat → UInt8) {page : Nat} {rest : List Nat}
    (walk : ∃ table, (s.dirs d).pde 0 = some table) (small : v < userPages)
    (list : s.freelist = page :: rest) (records : m.records = s.records)
    (free : m.freelist = rest) (dirs : m.dirs = s.dirs)
    (inside : ∀ o < PGSIZE, m.mem (page + o) = content v o)
    (outside : ∀ a, ¬ InPage page a → m.mem a = s.mem a)
    (remap : (s.dirs d).frame v ≠ none → E .remap)
    (next : (s.dirs d).frame v = none → ∀ t, Grown d v [page] content s t → Q true t) :
    wp (mappages d (v * PGSIZE) PGSIZE page (PTE_W ||| PTE_U)) Q E m := by
  refine wp_mappages_checked (by rw [dirs]; exact walk) small
    (by rw [dirs]; exact remap) fun absent => ?_
  rw [dirs] at absent
  refine next absent _ (.single list records free ?_ inside outside)
  change update m.dirs d _ = _
  rw [dirs]

theorem Grown.extend (ok : UserDir img s d) (one : Grown d v [page] content s t)
    (rest : Grown d (v + 1) pages content t u) : Grown d v (page :: pages) content s u := by
  have list : s.freelist = page :: t.freelist := one.free
  have nodup := ok.nodup
  rw [list] at nodup
  have subset := rest.pages_subset
  refine one.cons rest ?_ ?_
  · intro p member
    refine (ok.free p ?_).aligned
    rw [list]
    rcases List.mem_cons.mp member with rfl | member
    · exact List.mem_cons_self
    · exact List.mem_cons_of_mem page (subset member)
  · intro member
    exact (List.nodup_cons.mp nodup).1 (subset member)

theorem Grown.frame_of_ne (one : Grown d v [page] content s t) (other : w ≠ v) :
    (t.dirs d).frame w = (s.dirs d).frame w := by
  apply PgDir.frame_congr
  rw [one.pte]
  simp only [length_cons, length_nil]
  rw [if_neg (by omega)]

theorem Grown.absent {n : Nat} (one : Grown d v [page] content s t)
    (first : (s.dirs d).frame v = none)
    (others : ∀ w, v + 1 ≤ w → w < v + 1 + n → (t.dirs d).frame w = none)
    (w : Nat) (above : v ≤ w) (below : w < v + (n + 1)) : (s.dirs d).frame w = none := by
  by_cases here : w = v
  · rw [here]
    exact first
  · rw [← one.frame_of_ne here]
    exact others w (by omega) (by omega)

/-- The loop of `allocuvm`, by induction on its rounds: it maps a page in each
of them, or finds one that is mapped, or runs out of pages and unmaps the
whole range. -/
theorem wp_allocLoop_grown (n : Nat) (ok : UserDir img s d)
    (less : oldsz < newsz) (small : newsz ≤ USERTOP) (limit : v + n ≤ userPages)
    (grown : ∀ t pages, Grown d v pages zeros s t → pages.length = n →
      (∀ w, v ≤ w → w < v + n → (s.dirs d).frame w = none) → Q newsz t)
    (short : ∀ t u pages, Grown d v pages zeros s t → pages.length < n → t.freelist = [] →
      (∀ w, v ≤ w → w < v + pages.length → (s.dirs d).frame w = none) →
      Shrunk d (pagesOf oldsz) (pagesOf newsz - pagesOf oldsz) t u → Q 0 u)
    (remap : ∀ w, v ≤ w → w < v + n → w < v + s.freelist.length →
      (s.dirs d).frame w ≠ none → E .remap) :
    wp (allocLoop img d oldsz newsz (v * PGSIZE) n) Q E s := by
  induction n generalizing v s with
  | zero =>
    exact grown s [] (.refl d v zeros s) rfl fun w above below =>
      absurd below (by omega)
  | succ n ih =>
    rw [allocLoop, wp_bind]
    apply wp_kalloc
    · intro empty
      have le := pagesOf_mono less.le
      have within := pagesOf_le small
      rw [wp_bind]
      refine wp_deallocuvm_shrunk ok.walk small ?_ ?_ ?_
      · intro w _ below p holds
        exact (ok.page w (by omega) p holds).1
      · intro impossible
        exact absurd impossible (by omega)
      · intro _ u shrunk
        refine short s u [] (.refl d v zeros s) (by simp) empty ?_ shrunk
        intro w above below
        rw [length_nil] at below
        exact absurd below (by omega)
    · intro page rest list
      rw [wp_bind, zeroPage, wp_modify, wp_bind]
      refine wp_mapNew_grown zeros ok.walk (by omega) list rfl
        rfl rfl (fun o inside => if_pos (InPage.of_offset inside))
        (fun a outside => if_neg outside) ?_ ?_
      · exact remap v le_rfl (by omega) (by rw [list]; simp)
      · intro absent t one
        have free : s.freelist = page :: t.freelist := one.free
        rw [← Nat.add_one_mul]
        refine ih (one.userDir ok) (by omega) ?_ ?_ ?_
        · intro x pages more count apart
          exact grown x (page :: pages) (.extend ok one more)
            (by simp [count]) (one.absent absent apart)
        · intro x y pages more few empty apart shrunk
          exact short x y (page :: pages) (.extend ok one more)
            (by simpa using few) empty (one.absent absent apart) shrunk
        · intro w above below reached there
          rw [one.frame_of_ne (by omega)] at there
          refine remap w (by omega) (by omega) ?_ there
          rw [free, length_cons]
          omega

theorem wp_allocuvm_grown {cur : Slot} (ok : UserDir img s d) (top : (s.proc cur).shm ≤ USERTOP)
    (refused : (s.proc cur).shm < newsz → Q 0 s) (kept : newsz < oldsz → Q oldsz s)
    (grown : oldsz ≤ newsz → newsz ≤ (s.proc cur).shm → ∀ t pages,
      Grown d (pagesOf oldsz) pages zeros s t →
      pages.length = pagesOf newsz - pagesOf oldsz →
      (∀ w, pagesOf oldsz ≤ w → w < pagesOf newsz → (s.dirs d).frame w = none) → Q newsz t)
    (short : oldsz ≤ newsz → newsz ≤ (s.proc cur).shm → ∀ t u pages,
      Grown d (pagesOf oldsz) pages zeros s t →
      pages.length < pagesOf newsz - pagesOf oldsz → t.freelist = [] →
      (∀ w, pagesOf oldsz ≤ w → w < pagesOf oldsz + pages.length → (s.dirs d).frame w = none) →
      Shrunk d (pagesOf oldsz) (pagesOf newsz - pagesOf oldsz) t u → Q 0 u)
    (remap : newsz ≤ (s.proc cur).shm → ∀ w, pagesOf oldsz ≤ w →
      w < pagesOf newsz → w < pagesOf oldsz + s.freelist.length →
      (s.dirs d).frame w ≠ none → E .remap) : wp (allocuvm img cur d oldsz newsz) Q E s := by
  unfold allocuvm
  rw [wp_bind, wp_get]
  split
  · rename_i above
    exact refused above
  split
  · rename_i smaller
    exact kept smaller
  · rename_i fits grows
    have below : newsz ≤ USERTOP := by omega
    have limit := pagesOf_le below
    have le : pagesOf oldsz ≤ pagesOf newsz := pagesOf_mono (by omega)
    rw [pgroundup_pages (by omega), pagesTo_pages]
    by_cases same : oldsz = newsz
    · subst same
      rw [Nat.sub_self]
      refine grown le_rfl (by omega) s [] (.refl ..) (by simp) ?_
      intro w above below
      exact absurd below (by omega)
    · refine wp_allocLoop_grown _ ok (by omega) below (by omega) ?_ ?_ ?_
      · intro t pages more count absent
        refine grown (by omega) (by omega) t pages more count ?_
        intro w above within
        exact absent w above (by omega)
      · intro t u pages more few empty absent shrunk
        exact short (by omega) (by omega) t u pages more few empty absent shrunk
      · intro w above within reached there
        exact remap (by omega) w above (by omega) reached there

/-! ## Growing undone -/

/-- All mappings are as before, the same pages are free, and no other page has
changed. -/
structure Restored (s t : Kernel) : Prop where
  records : t.records = s.records
  free : t.freelist.Perm s.freelist
  pde : ∀ e, (t.dirs e).pde = (s.dirs e).pde
  entry : ∀ e w, (t.dirs e).entry w = (s.dirs e).entry w
  mem : ∀ a, (∀ page ∈ s.freelist, ¬ InPage page a) → t.mem a = s.mem a

theorem filterMap_range' {f : Nat → Option Nat} (pages : List Nat) {n : Nat}
    (fits : pages.length ≤ n) (some : ∀ i < pages.length, f (v + i) = some (pages.getD i 0))
    (none : ∀ w, v + pages.length ≤ w → w < v + n → f w = none) :
    (List.range' v n).filterMap f = pages := by
  induction pages generalizing v n with
  | nil =>
    apply List.filterMap_eq_nil_iff.mpr
    intro w member
    obtain ⟨above, below⟩ := List.mem_range'_1.mp member
    exact none w above below
  | cons page pages ih =>
    obtain ⟨m, rfl⟩ : ∃ m, n = m + 1 := ⟨n - 1, by rw [length_cons] at fits; omega⟩
    rw [length_cons] at fits none
    have first := some 0 (by simp)
    rw [Nat.add_zero, List.getD_cons_zero] at first
    rw [List.range'_succ, List.filterMap_cons_some first]
    congr 1
    apply ih (by omega)
    · intro i small
      have later := some (i + 1) (by rw [length_cons]; omega)
      rw [List.getD_cons_succ] at later
      rw [← later, Nat.add_assoc, Nat.add_comm 1 i]
    · intro w above below
      exact none w (by omega) (by omega)

theorem Grown.entry_undo {n : Nat} (grown : Grown d v pages content s t)
    (cleared : Cleared d v n t u) (fits : pages.length ≤ n)
    (absent : ∀ w, v ≤ w → w < v + n → (s.dirs d).frame w = none)
    (e w : Nat) : (u.dirs e).entry w = (s.dirs e).entry w := by
  by_cases here : e = d
  · subst here
    rw [cleared.entry]
    by_cases inside : v ≤ w ∧ w < v + n
    · rw [if_pos inside, PgDir.entry_eq_none.mpr (absent w inside.1 inside.2)]
    · rw [if_neg inside, grown.entry, if_neg (by omega)]
  · rw [cleared.dirs e here, grown.dirs e here]

theorem Grown.undo {n : Nat} (grown : Grown d v pages content s t) (shrunk : Shrunk d v n t u)
    (ok : UserDir img s d) (fits : pages.length ≤ n)
    (absent : ∀ w, v ≤ w → w < v + n → (s.dirs d).frame w = none) : Restored s u := by
  have aligned : ∀ page ∈ pages, page % PGSIZE = 0 := fun page member =>
    (ok.free page (grown.pages_subset member)).aligned
  have frames : (t.dirs d).frames v n = pages := by
    apply filterMap_range' pages fits
    · intro i small
      rw [grown.frame aligned, if_pos (by omega), Nat.add_sub_cancel_left]
    · intro w above below
      rw [grown.frame aligned, if_neg (by omega)]
      exact absent w (by omega) below
  constructor
  case records => exact shrunk.records.trans grown.records
  case free =>
    rw [shrunk.free, frames, grown.free]
    exact (List.reverse_perm pages).append_right t.freelist
  case pde =>
    intro e
    by_cases here : e = d
    · rw [here, shrunk.pde, grown.pde]
    · rw [shrunk.dirs e here, grown.dirs e here]
  case entry => exact grown.entry_undo shrunk.toCleared fits absent
  case mem =>
    intro a apart
    rw [shrunk.outside a, grown.outside a]
    · exact fun page member => apart page (grown.pages_subset member)
    · rw [frames]
      exact fun page member => apart page (grown.pages_subset member)

/-! ## A process of one page -/

/-- One running process with a page of memory, on a machine with the free
pages `free`. -/
def onePage (free : List Nat) : Kernel where
  freelist := free
  freecount := free.length
  mem := fun _ => 0
  dirs := fun _ =>
    { pde := fun i => if i = 0 then some 0x201000 else none
      pte := fun v => if v = 0 then 0x400007 else 0 }
  proc := fun i =>
    { sz := 4096, pgdir := 0x200000, kstack := 0x202000
      state := if i = 0 then .running else .unused
      pid := 1, parent := none, tf := { eax := 0, eip := 0, esp := 0 }
      chan := none, killed := false, shm := USERTOP, shmKeyMask := 0
      shmVa := fun _ => 0, ustack := 0 }
  nextpid := 2
  initproc := 0
  refs := fun i => { addr := if i = 0 then 0x200000 else 0
                     count := if i = 0 then 1 else 0 }
  shmTab := fun _ => { count := 0, numPages := 0, physAddr := fun _ => 0 }

theorem onePage_entry (free : List Nat) (d v : Nat) :
    ((onePage free).dirs d).entry v = if v = 0 then some 0x400007 else none := by
  change (if present (if v = 0 then 0x400007 else 0) then _ else _) = _
  by_cases first : v = 0
  · subst first
    rfl
  · rw [if_neg first, if_neg first]
    rfl

theorem onePage_frame (free : List Nat) (d v : Nat) :
    ((onePage free).dirs d).frame v = if v = 0 then some 0x400000 else none := by
  unfold PgDir.frame
  rw [onePage_entry]
  split <;> rfl

theorem onePage_userDir {free : List Nat} (nodup : free.Nodup)
    (pages : ∀ page ∈ free, img.Page page) (page : img.Page 0x400000)
    (used : 0x400000 ∉ free) (d : Nat) : UserDir img (onePage free) d where
  walk := ⟨0x201000, rfl⟩
  nodup := nodup
  free := pages
  page := by
    intro v _ p holds
    rw [onePage_frame] at holds
    split at holds
    · cases holds
      exact ⟨page, used⟩
    · cases holds
  distinct := by
    intro v _ w _ p first second
    rw [onePage_frame] at first second
    split at first
    · split at second
      · omega
      · cases second
    · cases first

end Xv6
