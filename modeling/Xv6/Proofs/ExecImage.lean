/-
Purpose: What the pages of a program hold when `exec` returns.  Loading is
  exact for segments that are aligned and do not wrap; the arguments leave the
  segments alone exactly when they fit into the stack page.
-/
import Mathlib.Data.List.Pairwise
import Xv6.Proofs.ExecLayout

namespace Xv6

open PanicM

/-! ## Segments -/

/-- The program headers that `exec` loads, in order; `none` when one cannot be
read. -/
def loadHeaders (file : List UInt8) (off : Nat) : Nat → Option (List ProgHdr)
  | 0 => some []
  | left + 1 =>
    (readProgHdr file off).bind fun ph =>
      (loadHeaders file (u32 (off + proghdrSize)) left).map fun rest =>
        if ph.type = ELF_PROG_LOAD then ph :: rest else rest

/-- The segments have no address in common. -/
def ProgHdr.Apart (one two : ProgHdr) : Prop :=
  Extent.Apart (one.va, one.memsz) (two.va, two.memsz)

instance : Std.Symm ProgHdr.Apart := ⟨fun _ _ => Or.symm⟩

/-- Segments that start at page boundaries, do not wrap around and do not
overlap. -/
structure WellPlaced (segments : List ProgHdr) : Prop where
  aligned : ∀ ph ∈ segments, ph.va % PGSIZE = 0
  inside : ∀ ph ∈ segments, ph.va + ph.memsz < 2 ^ 32
  apart : segments.Pairwise ProgHdr.Apart

/-- The address shows a byte of the file. -/
def ProgHdr.Covers (ph : ProgHdr) (a : Nat) : Prop :=
  ph.va ≤ a ∧ a < ph.va + ph.filesz

instance (ph : ProgHdr) (a : Nat) : Decidable (ph.Covers a) :=
  inferInstanceAs (Decidable (_ ∧ _))

/-- What memory shows after the segments were loaded, the latest one first. -/
def imageByte (file : List UInt8) (segments : List ProgHdr) (a : Nat) : UInt8 :=
  match segments.find? fun ph => ph.Covers a with
  | some ph => file.getD (ph.offset + (a - ph.va)) 0
  | none => 0

/-- The bytes of one segment are those of the file, and zeros behind them. -/
def SegmentAt (s : Kernel) (d : Nat) (file : List UInt8) (ph : ProgHdr) : Prop :=
  ∀ i < ph.memsz, s.userByte d (ph.va + i) =
    some (if i < ph.filesz then file.getD (ph.offset + i) 0 else 0)

/-! ## Loading a segment -/

section Loaduvm

variable {img : Image} {s : Kernel} {d top : Nat} {file : List UInt8}
  {E : Panic → Prop}

variable {Q : Bool → Kernel → Prop} {addr offset : Nat}

/-- The loop of `loaduvm`, by induction on its rounds: it stores the bytes of
the file, or the file is too short. -/
theorem wp_loadLoop_stored {sz : Nat} (left : Nat) {i : Nat} (space : Open img s d top)
    (short : file.length < 2 ^ 31) (aligned : addr % PGSIZE = 0)
    (page : i % PGSIZE = 0) (rounds : left = pagesTo i sz)
    (fits : addr + sz ≤ top) (small : offset + i < 2 ^ 32)
    (done : sz ≤ i ∨ offset + sz ≤ file.length → Q true { s with
        mem := (s.dirs d).store s.mem (addr + i) ((file.drop (offset + i)).take (sz - i)) })
    (fail : file.length < offset + sz → ∀ t, t.records = s.records →
      t.freelist = s.freelist → t.dirs = s.dirs → Q false t) :
    wp (loadLoop d addr file offset sz i left) Q E s := by
  induction left generalizing s i with
  | zero =>
    have tooFar : sz ≤ i := by
      unfold pagesTo at rounds
      simp only [PGSIZE] at *
      omega
    have result := done (.inl tooFar)
    rw [Nat.sub_eq_zero_of_le tooFar, List.take_zero] at result
    exact result
  | succ left ih =>
    have more : i < sz ∧ left = pagesTo (i + PGSIZE) sz := by
      unfold pagesTo at *
      simp only [PGSIZE] at *
      omega
    have low := space.low
    have first : pdx (addr + i) = 0 := by
      unfold pdx
      simp only [PGSIZE, USERTOP] at *
      omega
    have start : (addr + i) % PGSIZE = 0 := by
      rw [Nat.add_mod, aligned, page]
      rfl
    have phys : pteAddr ((s.dirs d).pte (vpn (addr + i))) = (s.dirs d).phys (addr + i) := by
      unfold PgDir.phys
      rw [start, Nat.add_zero]
    have place : u32 (addr + i) = addr + i := by
      apply u32_of_lt
      simp only [USERTOP] at low
      omega
    obtain ⟨table, entry⟩ := space.ok.walk
    rw [loadLoop, wp_bind, place]
    refine wp_walkpgdir (fun _ _ => ?_) (fun none _ => ?_)
      (fun _ never => absurd never Bool.false_ne_true)
      (fun _ _ _ never => absurd never Bool.false_ne_true)
    rotate_left
    · rw [first, entry] at none
      cases none
    simp only [readPte, wp_bind, wp_get, wp_pure, phys, u32_of_lt small]
    generalize chunk : min (sz - i) PGSIZE = n
    have bounds : n ≤ PGSIZE ∧ i + n ≤ sz ∧ 0 < n ∧ (i + n = sz ∨ n = PGSIZE) := by
      simp only [PGSIZE] at *
      omega
    unfold fileRead
    split
    · rename_i unread
      split at unread
      · rename_i why
        refine fail ?_ s rfl rfl rfl
        unfold u32 at why
        omega
      · cases unread
    · rename_i bytes read
      split at read
      · cases read
      cases read
      generalize taken : (file.drop (offset + i)).take n = bytes
      have length : bytes.length = min n (file.length - (offset + i)) := by
        rw [← taken, List.length_take, List.length_drop]
      have stored : (s.dirs d).store s.mem (addr + i) bytes =
          Bytes.put s.mem ((s.dirs d).phys (addr + i)) bytes :=
        PgDir.store_page bytes (by omega)
      rw [wp_bind, wp_modify, ← stored]
      split
      · rename_i full
        have next : (i + PGSIZE) % PGSIZE = 0 := by
          rw [Nat.add_mod_right]
          exact page
        refine ih (space.congr rfl rfl) next more.2 ?_ ?_
          fun short t records free dirs => fail short t records free dirs
        · simp only [PGSIZE] at *
          omega
        · intro read
          have result := done (.inr (by omega))
          suffices whole : (s.dirs d).store
              ((s.dirs d).store s.mem (addr + i) bytes) (addr + (i + PGSIZE))
              ((file.drop (offset + (i + PGSIZE))).take (sz - (i + PGSIZE))) =
              (s.dirs d).store s.mem (addr + i) ((file.drop (offset + i)).take (sz - i)) by
            rw [← whole] at result
            exact result
          rcases bounds.2.2.2 with last | middle
          · rw [show sz - (i + PGSIZE) = 0 by omega, List.take_zero,
              show sz - i = n by omega, taken]
            rfl
          · subst middle
            rw [show sz - i = PGSIZE + (sz - (i + PGSIZE)) by omega,
              List.take_add, taken, List.drop_drop, PgDir.store_append, full,
              Nat.add_assoc, Nat.add_assoc]
      · rename_i part
        exact fail (by omega) _ rfl rfl rfl

theorem wp_loaduvm_stored {sz : Nat} (space : Open img s d top) (short : file.length < 2 ^ 31)
    (aligned : addr % PGSIZE = 0) (fits : addr + sz ≤ top)
    (small : offset < 2 ^ 32)
    (done : sz = 0 ∨ offset + sz ≤ file.length → Q true { s with
        mem := (s.dirs d).store s.mem addr ((file.drop offset).take sz) })
    (fail : file.length < offset + sz → ∀ t, t.records = s.records →
      t.freelist = s.freelist → t.dirs = s.dirs → Q false t) :
    wp (loaduvm d addr file offset sz) Q E s := by
  unfold loaduvm
  rw [if_neg (not_not.mpr aligned)]
  exact wp_loadLoop_stored _ space short aligned rfl rfl fits small
    (fun read => done (read.imp_left Nat.eq_zero_of_le_zero)) fail

end Loaduvm

/-! ## What the segments leave in memory -/

section Bytes

variable {file : List UInt8} {segments : List ProgHdr} {ph : ProgHdr} {a : Nat}

theorem imageByte_none (none : ∀ ph ∈ segments, ¬ ph.Covers a) : imageByte file segments a = 0 := by
  have missing : segments.find? (fun ph => ph.Covers a) = Option.none := by
    rw [List.find?_eq_none]
    intro ph member
    rw [decide_eq_true_eq]
    exact none ph member
  unfold imageByte
  rw [missing]

theorem imageByte_cons : imageByte file (ph :: segments) a =
    if ph.Covers a then file.getD (ph.offset + (a - ph.va)) 0
    else imageByte file segments a := by
  unfold imageByte
  rw [List.find?_cons]
  by_cases covers : ph.Covers a
  · rw [if_pos covers, decide_eq_true covers]
  · rw [if_neg covers, decide_eq_false covers]

/-- Where only one segment covers an address, the byte is that of the
segment. -/
theorem imageByte_unique (member : ph ∈ segments) (covers : ph.Covers a)
    (unique : ∀ other ∈ segments, other.Covers a → other = ph) :
    imageByte file segments a = file.getD (ph.offset + (a - ph.va)) 0 := by
  unfold imageByte
  cases found : segments.find? fun ph => ph.Covers a with
  | none =>
    rw [List.find?_eq_none] at found
    exact absurd (decide_eq_true covers) (found ph member)
  | some other =>
    have covered := List.find?_some found
    rw [decide_eq_true_eq] at covered
    rw [unique other (List.mem_of_find?_eq_some found) covered]

theorem getD_take_drop {i n offset : Nat} (inside : i < n) :
    ((file.drop offset).take n).getD i 0 = file.getD (offset + i) 0 := by
  simp only [List.getD_eq_getElem?_getD, List.getElem?_take, List.getElem?_drop, if_pos inside]

end Bytes

/-- Where the last segment ends. -/
def segmentsEnd : List ProgHdr → Nat
  | [] => 0
  | ph :: rest => max (ph.va + ph.memsz) (segmentsEnd rest)

/-- The pages of the directory hold the segments loaded so far, and `sz` is
where the last one ends. -/
structure ImageAt (file : List UInt8) (segments : List ProgHdr) (d : Nat)
    (pages : List Nat) (sz : Nat) (s : Kernel) : Prop where
  bytes : ∀ a < pages.length * PGSIZE, s.userByte d a = some (imageByte file segments a)
  fits : ∀ ph ∈ segments, ph.filesz ≤ ph.memsz
  size : sz = segmentsEnd segments

section Image

variable {img : Image} {s₀ s t : Kernel} {cur : Slot} {d sz : Nat}
  {tables pages more : List Nat} {file : List UInt8} {E : Panic → Prop}
  {segments : List ProgHdr} {ph : ProgHdr}

variable {off : Nat}

theorem le_segmentsEnd (member : ph ∈ segments) : ph.va + ph.memsz ≤ segmentsEnd segments := by
  induction member with
  | head rest => exact Nat.le_max_left _ _
  | tail other _ ih =>
    exact ih.trans (Nat.le_max_right _ _)

section

variable (image : ImageAt file segments d pages sz s)
include image

theorem ImageAt.inside (member : ph ∈ segments) : ph.filesz ≤ ph.memsz ∧ ph.va + ph.memsz ≤ sz := by
  rw [image.size]
  exact ⟨image.fits ph member, le_segmentsEnd member⟩

theorem ImageAt.grow (ok : UserDir img s d) (size : pages.length = pagesOf sz)
    (grown : Grown d pages.length more zeros s t) (limit : (pages ++ more).length ≤ userPages) :
    ImageAt file segments d (pages ++ more) sz t where
  bytes a below := by
    rw [List.length_append] at below limit
    have page := vpn_lt.mpr below
    by_cases old : vpn a < pages.length
    · rw [grown.userByte_old ok (by omega) (by omega)]
      exact image.bytes a (vpn_lt.mp old)
    · have zero := grown.userByte_new ok (Nat.mod_lt a (by decide)) (Nat.le_of_not_lt old) page
      rw [show vpn a * PGSIZE + a % PGSIZE = a from
        Nat.div_add_mod' a PGSIZE] at zero
      rw [zero, imageByte_none]
      · rfl
      · intro ph member covers
        obtain ⟨fits, inside⟩ := image.inside member
        have reach := le_pagesOf_mul sz
        rw [← size] at reach
        refine old (vpn_lt.mpr ?_)
        calc a < ph.va + ph.filesz := covers.2
          _ ≤ ph.va + ph.memsz := Nat.add_le_add_left fits _
          _ ≤ sz := inside
          _ ≤ pages.length * PGSIZE := reach
  fits := image.fits
  size := image.size

theorem ImageAt.load (space : Open img s d (pages.length * PGSIZE)) (fits : ph.filesz ≤ ph.memsz)
    (below : ph.va + ph.memsz ≤ pages.length * PGSIZE)
    (read : ph.filesz = 0 ∨ ph.offset + ph.filesz ≤ file.length) :
    ImageAt file (ph :: segments) d pages (max (ph.va + ph.memsz) sz) { s with
      mem := (s.dirs d).store s.mem ph.va ((file.drop ph.offset).take ph.filesz) } where
  bytes a low := by
    have length : ((file.drop ph.offset).take ph.filesz).length =
        ph.filesz := by
      rw [List.length_take, List.length_drop]
      omega
    refine (space.store (by rw [length]; omega) low).trans ?_
    rw [length, imageByte_cons, image.bytes a low]
    by_cases covers : ph.va ≤ a ∧ a < ph.va + ph.filesz
    · rw [if_pos covers, if_pos (show ph.Covers a from covers), getD_take_drop (by omega)]
    · rw [if_neg covers, if_neg (show ¬ ph.Covers a from covers)]
  fits other member := by
    rcases List.mem_cons.mp member with rfl | member
    · exact fits
    · exact image.fits other member
  size := by
    rw [segmentsEnd, image.size]

end

theorem ImageAt.segment (image : ImageAt file segments.reverse d pages sz s)
    (size : pages.length = pagesOf sz) (placed : WellPlaced segments)
    (member : ph ∈ segments) : SegmentAt s d file ph := by
  intro i inside
  have bounds := image.inside (List.mem_reverse.mpr member)
  have reach := le_pagesOf_mul sz
  rw [← size] at reach
  have unique : ∀ other ∈ segments.reverse, other.Covers (ph.va + i) → other = ph := by
    intro other later covers
    by_contra different
    have limits := image.inside later
    have apart := placed.apart.forall (List.mem_reverse.mp later) member different
    unfold ProgHdr.Apart Extent.Apart at apart
    unfold ProgHdr.Covers at covers
    dsimp only at apart
    omega
  rw [image.bytes _ (by omega)]
  split
  · rename_i loaded
    rw [imageByte_unique (List.mem_reverse.mpr member)
      ⟨Nat.le_add_right _ i, by omega⟩ unique, Nat.add_sub_cancel_left]
  · rename_i zero
    rw [imageByte_none]
    intro other later covers
    have same := unique other later covers
    subst same
    exact zero (by have := covers.2; omega)

/-- Why a segment is not loaded into a new directory. -/
def ProgHdr.Refused (ph : ProgHdr) (s₀ : Kernel) (cur : Slot) (file : List UInt8) : Prop :=
  ph.memsz < ph.filesz ∨ ph.va + ph.memsz = 0 ∨ (s₀.proc cur).shm < ph.va + ph.memsz ∨
    s₀.freelist.length < 13 + pagesOf (ph.va + ph.memsz) ∨
    file.length < ph.offset + ph.filesz

theorem readProgHdr_offset (read : readProgHdr file off = some ph) : ph.offset < 2 ^ 32 := by
  unfold readProgHdr at read
  split at read
  · split at read
    · cases read
      exact Bytes.word32_lt _ _
    · cases read
  · cases read

/-- The loop over the program headers, by induction on their number, for
segments at page boundaries that do not wrap around. -/
theorem wp_loadSegments_image (left : Nat) {pages : List Nat} {loaded : List ProgHdr} {F : Prop}
    (caller : ExecCaller img s₀ cur) (short : file.length < 2 ^ 31)
    (fresh : Fresh img s₀ d tables pages s)
    (size : pages.length = pagesOf sz) (bound : sz ≤ (s₀.proc cur).shm)
    (headers : loadHeaders file off left = some segments)
    (aligned : ∀ ph ∈ segments, ph.va % PGSIZE = 0)
    (inside : ∀ ph ∈ segments, ph.va + ph.memsz < 2 ^ 32) (image : ImageAt file loaded d pages sz s)
    (why : ∀ ph ∈ segments, ph.Refused s₀ cur file → F) :
    wp (loadSegments img cur d file off sz left) (Segments img s₀ cur d tables F
        (ImageAt file (segments.reverse ++ loaded) d)) E s := by
  induction left generalizing s pages off sz loaded segments with
  | zero =>
    cases headers
    exact ⟨pages, fresh, size, bound, image⟩
  | succ left ih =>
    have le : pages.length ≤ pagesOf (s₀.proc cur).shm := by
      rw [size]
      exact pagesOf_mono bound
    rw [loadHeaders, Option.bind_eq_some_iff] at headers
    obtain ⟨ph, read, headers⟩ := headers
    obtain ⟨rest, later, headers⟩ := Option.map_eq_some_iff.mp headers
    rw [loadSegments, read]
    dsimp only
    by_cases load : ph.type = ELF_PROG_LOAD
    rotate_left
    · rw [if_neg load] at headers
      subst headers
      rw [if_pos load]
      exact ih fresh size bound later aligned inside image why
    rw [if_pos load] at headers
    subst headers
    have first := List.mem_cons_self (a := ph) (l := rest)
    have refused : ph.Refused s₀ cur file → ∀ {t pages}, Fresh img s₀ d tables pages t →
        pages.length ≤ pagesOf (s₀.proc cur).shm →
        Segments img s₀ cur d tables F (ImageAt file ((ph :: rest).reverse ++ loaded) d) none t :=
      fun reason _ _ fresh le => ⟨why ph first reason, _, fresh, le⟩
    rw [if_neg (not_not.mpr load)]
    split
    · rename_i small
      exact refused (.inl small) fresh le
    rename_i fits
    have fits := Nat.le_of_not_lt fits
    rw [wp_bind, u32_of_lt (inside ph first)]
    -- What follows once the size is known.
    have continued : ∀ grown t more, Fresh img s₀ d tables more t →
        more.length = pagesOf grown → grown ≤ (s₀.proc cur).shm →
        grown = max (ph.va + ph.memsz) sz →
        ImageAt file loaded d more sz t →
        wp (if grown = 0 then pure none else do
          if ← loaduvm d ph.va file ph.offset ph.filesz then
            loadSegments img cur d file (u32 (off + proghdrSize)) grown left
          else pure none)
          (Segments img s₀ cur d tables F
            (ImageAt file ((ph :: rest).reverse ++ loaded) d)) E t := by
      intro grown t more fresh size bound last image
      have le : more.length ≤ pagesOf (s₀.proc cur).shm := by
        rw [size]
        exact pagesOf_mono bound
      have reach := le_pagesOf_mul grown
      rw [← size] at reach
      have space := fresh.space caller.stocked
      split
      · rename_i none
        exact refused (.inr (.inl (by omega))) fresh le
      rw [wp_bind]
      refine wp_loaduvm_stored space short (aligned ph first) (by omega)
        (readProgHdr_offset read) ?_ ?_
      · intro all
        have after := image.load space fits (by omega) all
        rw [← last] at after
        rw [if_pos rfl, List.reverse_cons, List.append_assoc]
        exact ih (fresh.congr rfl rfl rfl) size bound later
          (fun other member => aligned other (List.mem_cons_of_mem _ member))
          (fun other member => inside other (List.mem_cons_of_mem _ member))
          after fun other member => why other (List.mem_cons_of_mem _ member)
      · intro few u records free dirs
        rw [if_neg Bool.false_ne_true, wp_pure]
        exact refused (.inr (.inr (.inr (.inr few)))) (fresh.congr records free dirs) le
    have shm : (s.proc cur).shm ≤ USERTOP := by
      rw [fresh.proc]
      exact caller.shm
    have total := fresh.free.length_eq
    have count := fresh.count
    simp only [List.length_append, List.length_cons] at total
    refine wp_allocuvm_fresh caller.stocked fresh size shm ?_ ?_ ?_
    · intro reason t after
      rw [if_pos rfl]
      refine refused (.inr (.inr ?_)) after le
      rw [fresh.proc] at reason
      refine reason.imp_right fun few => .inl ?_
      omega
    · intro less
      exact continued sz s pages fresh size bound (by omega) image
    · intro more below t added grown after length
      rw [fresh.proc] at below
      exact continued _ t _ after length below (by omega)
        (image.grow (fresh.userDir caller.stocked) size grown after.limit)

end Image

/-! ## The stack page -/

/-- Bytes that the strings take below the top of the stack, when `n` bytes are
taken already: each string starts at a multiple of four. -/
def argRoom (n : Nat) : List (List UInt8) → Nat
  | [] => n
  | arg :: rest => argRoom ((n + arg.length + 1 + 3) / 4 * 4) rest

/-- Bytes that the arguments take below the top of the stack. -/
def stackRoom (argv : List (List UInt8)) : Nat :=
  argRoom 0 argv + ustackSize argv

/-- Every segment is as it was loaded, and the arguments lie in the page that
was allocated for the stack. -/
structure ImageKept (w : Kernel) (cur : Slot) (file : List UInt8)
    (segments : List ProgHdr) (argv : List (List UInt8)) : Prop where
  segments : ∀ ph ∈ segments, SegmentAt w (w.proc cur).pgdir file ph
  stack : ∃ ptrs : List Nat, ptrs.length = argv.length ∧
    ArgLayout w (w.proc cur).pgdir (w.proc cur).sz (w.proc cur).tf.esp argv ptrs ∧
    ∀ range ∈ ((w.proc cur).tf.esp, ustackSize argv) :: argExtents ptrs argv,
      (w.proc cur).sz ≤ range.1 + PGSIZE

section Stack

variable {img : Image} {s t w : Kernel} {cur : Slot} {new : Loaded}
  {argv : List (List UInt8)} {tables pages : List Nat} {page sz : Nat}
  {before grown : Kernel} {file : List UInt8} {segments : List ProgHdr}

/-- By induction on the arguments: `top` is a multiple of four, so only the
bytes taken so far decide how far a string is rounded. -/
theorem argEnd_argRoom {top n : Nat} {args : List (List UInt8)}
    (whole : top % 4 = 0) (small : top < 2 ^ 32) (taken : n ≤ top) (fits : ArgsFit (top - n) args) :
    argEnd (top - n) args + argRoom n args = top := by
  induction args generalizing n with
  | nil => exact Nat.sub_add_cancel taken
  | cons arg rest ih =>
    obtain ⟨first, later⟩ := fits
    have next : argSp (top - n) arg = top - (n + arg.length + 1 + 3) / 4 * 4 := by
      rw [argSp_fits first (by omega)]
      omega
    rw [next] at later
    rw [argEnd, argRoom, next]
    exact ih (by omega) later

theorem execEsp_stackRoom {top : Nat} (whole : top % 4 = 0)
    (small : top < 2 ^ 32) (fits : StackFits top argv) :
    execEsp top argv + stackRoom argv = top := by
  have strings := argEnd_argRoom whole small (Nat.zero_le top) fits.1
  have words := fits.2
  rw [Nat.sub_zero] at strings
  unfold execEsp stackRoom
  omega

theorem loadSegments_new {E : Panic → Prop} {image : FileImage} {elf : ElfHdr}
    {d : Nat} {F : Prop} (caller : ExecCaller img s cur) (fresh : Fresh img s d tables [] t)
    (headers : loadHeaders image.bytes elf.phoff elf.phnum = some segments)
    (placed : WellPlaced segments) (why : ∀ ph ∈ segments, ph.Refused s cur image.bytes → F) :
    wp (loadSegments img cur d image.bytes elf.phoff 0 elf.phnum) (Segments img s cur d tables F
        (ImageAt image.bytes segments.reverse d)) E t := by
  have short : image.bytes.length < 2 ^ 31 := image.short.trans_lt (by decide)
  have empty : ImageAt image.bytes [] d [] 0 t :=
    ⟨fun a impossible => absurd impossible (by simp), (fun _ impossible => nomatch impossible), rfl⟩
  have loaded := wp_loadSegments_image (E := E) elf.phnum caller short fresh rfl
    (Nat.zero_le _) headers placed.aligned placed.inside empty why
  rw [List.append_nil] at loaded
  exact loaded

section NewImage

variable (stocked : Stocked img s)
  (image : NewImage img s cur argv new tables pages page before grown t)

include stocked image

theorem NewImage.userByte_below (committed : Committed s cur new t w) {a : Nat}
    (old : vpn a < pages.length) (below : a < new.esp) :
    w.userByte new.dir a = before.userByte new.dir a := by
  have limit := image.loaded.limit
  have inside := vpn_lt.mp old
  have last : a < new.sz := by
    rw [image.size, Nat.succ_mul]
    exact Nat.lt_add_right PGSIZE inside
  rw [committed.userByte stocked image last, image.state]
  rw [image.esp] at below
  rw [(image.space stocked).storeStack_below image.fits below]
  exact image.stack.userByte_old (image.loaded.userDir stocked) (by omega) (by omega)

theorem NewImage.stackRoom : new.esp + stackRoom argv = new.sz := by
  rw [image.esp]
  refine execEsp_stackRoom ?_ (image.space stocked).lt image.fits
  rw [image.size]
  simp only [PGSIZE]
  omega

theorem NewImage.kept_iff (holds : ImageAt file segments.reverse new.dir pages sz before)
    (size : pages.length = pagesOf sz) (placed : WellPlaced segments)
    (committed : Committed s cur new t w) :
    ImageKept w cur file segments argv ↔ Xv6.stackRoom argv ≤ PGSIZE := by
  have room := image.stackRoom stocked
  constructor
  · intro kept
    obtain ⟨ptrs, _, _, inside⟩ := kept.stack
    have first := inside _ List.mem_cons_self
    rw [committed.sz, committed.esp] at first
    omega
  · intro small
    have low : pages.length * PGSIZE ≤ new.esp := by
      have total := image.size
      rw [Nat.succ_mul] at total
      omega
    have layout := image.layout stocked committed
    constructor
    case segments =>
      intro ph member i inside
      have bounds := holds.inside (List.mem_reverse.mpr member)
      have reach := le_pagesOf_mul sz
      rw [← size] at reach
      have old : ph.va + i < pages.length * PGSIZE := by omega
      rw [committed.pgdir, image.userByte_below stocked committed (vpn_lt.mpr old) (by omega)]
      exact holds.segment size placed member i inside
    case stack =>
      refine ⟨argPtrs new.sz argv, length_argPtrs, layout, ?_⟩
      intro range member
      rw [committed.sz, committed.esp] at *
      rcases List.mem_cons.mp member with rfl | member
      · dsimp only
        omega
      · have start := (argExtents_bounds image.fits.1 (image.space stocked).lt range member).1
        have esp := image.esp
        unfold execEsp at esp
        omega

end NewImage

/-- The arguments leave the segments of the new image alone exactly when they
fit into the page allocated for the stack. -/
theorem exec_image_iff (img : Image) (s w : Kernel) (cur : Slot)
    (image : FileImage) (elf : ElfHdr) (segments : List ProgHdr)
    (argv : List (List UInt8)) (ready : ExecReady img s cur)
    (strings : Strings argv) (header : program (some image) = some (image, elf))
    (headers : loadHeaders image.bytes elf.phoff elf.phnum = some segments)
    (placed : WellPlaced segments) (ran : exec img cur (some image) argv s = .ok (0, w)) :
    ImageKept w cur image.bytes segments argv ↔ stackRoom argv ≤ PGSIZE := by
  have caller := ready.toExecCaller
  have ends := wp_ok (wp_exec_ends (E := fun _ => True) True
    (ImageAt image.bytes segments.reverse) ready strings
    (fun image' elf' d tables t here _ fresh => by
      rw [header] at here
      cases here
      exact loadSegments_new caller fresh headers placed fun _ _ _ => trivial)
    fun _ _ _ _ _ _ _ _ _ _ _ _ => trivial) ran
  generalize result : (0 : Int) = r at ends
  cases ends with
  | failed => cases result
  | done new tables pages page sz before grown t _ built holds size committed =>
    exact built.kept_iff caller.stocked holds size placed committed

end Stack

/-! ## A program of one page -/

/-- The segment of `oneSegment`: the file itself, and zeros up to the end of
the page. -/
def oneSegmentHdr : ProgHdr where
  type := ELF_PROG_LOAD
  offset := 0
  va := 0
  filesz := 84
  memsz := PGSIZE

/-- An ELF header and a program header for the page at address 0. -/
def oneSegment : FileImage where
  bytes := [0x7F, 0x45, 0x4C, 0x46] ++ List.replicate 24 0 ++ [52, 0, 0, 0] ++
    List.replicate 12 0 ++ [1, 0] ++ List.replicate 6 0 ++
    ([1, 0, 0, 0] ++ List.replicate 12 0 ++ [84, 0, 0, 0] ++ [0, 0x10, 0, 0] ++ List.replicate 8 0)
  short := by decide

/-- Pages for a directory, its tables, a segment and a stack. -/
def fifteen : List Nat := (List.range 15).map fun i => 0x600000 + i * PGSIZE

theorem fifteen_ready : ExecReady smallImage (onePage fifteen) 0 := by
  apply onePage_ready
  · decide
  · decide
  · decide

theorem oneSegment_program : program (some oneSegment) = some (oneSegment,
    { magic := ELF_MAGIC, entry := 0, phoff := 52, phnum := 1 }) :=
  rfl

theorem oneSegment_headers : loadHeaders oneSegment.bytes 52 1 = some [oneSegmentHdr] := by
  decide

theorem oneSegment_placed : WellPlaced [oneSegmentHdr] where
  aligned := by decide
  inside := by decide
  apart := List.pairwise_singleton _ _

theorem oneSegment_accepted : ∀ ph ∈ [oneSegmentHdr],
    ¬ ph.Refused (onePage fifteen) 0 oneSegment.bytes := by
  intro ph member
  rw [List.mem_singleton.mp member]
  unfold ProgHdr.Refused
  rintro (small | empty | high | few | short)
  · exact absurd small (by decide)
  · exact absurd empty (by decide)
  · exact absurd high (by decide)
  · exact absurd few (by decide)
  · exact absurd short (by decide)

/-- The program starts whenever its arguments fit into its two pages, and then
they are found where they were put. -/
theorem oneSegment_runs {argv : List (List UInt8)} (strings : Strings argv)
    (fits : StackFits (2 * PGSIZE) argv) (few : argv.length ≤ MAXARG) :
    ∃ w, exec smallImage 0 (some oneSegment) argv (onePage fifteen) =
        .ok (0, w) ∧ (w.proc 0).tf.esp = execEsp (2 * PGSIZE) argv ∧
      LaidOut w 0 argv := by
  have counted : ¬ (RefTable.release (onePage fifteen).refs
      ((onePage fifteen).proc 0).pgdir).1.getD (-1) < 0 := by
    decide +kernel
  have caller := fifteen_ready.toExecCaller
  obtain ⟨result, w, ran, ends⟩ := wp_returns (wp_exec_ends False
    (fun d pages sz => ImageAt oneSegment.bytes [oneSegmentHdr] d pages sz)
    fifteen_ready strings
    (fun image elf d tables t here _ fresh => by
      rw [oneSegment_program] at here
      cases here
      exact loadSegments_new (E := fun _ => False) caller fresh
        oneSegment_headers oneSegment_placed oneSegment_accepted)
    fun _ _ _ _ _ _ _ _ _ _ _ bad => counted bad)
  have one : ∀ {pages : List Nat} {d sz t}, ImageAt oneSegment.bytes [oneSegmentHdr] d pages sz t →
      pages.length = pagesOf sz → pages.length = 1 := by
    intro pages d sz t image size
    rw [size, image.size]
    decide
  cases ends with
  | done new tables pages page sz before grown t _ built holds size committed =>
    refine ⟨w, ran, ?_, _, length_argPtrs, built.layout caller.stocked committed⟩
    rw [committed.esp, built.esp, built.size, one holds size]
  | failed _ why =>
    exfalso
    rcases why with absent | short | impossible | ⟨d, tables, pages, sz,
      before, fresh, image, size, tooFar | none | unfit⟩
    · rw [oneSegment_program] at absent
      cases absent
    · exact absurd short (by decide)
    · exact impossible
    · rw [one image size, fresh.proc] at tooFar
      exact absurd tooFar (by decide)
    · have length := fresh.free.length_eq
      have count := fresh.count
      simp only [none, List.length_append, List.length_cons, List.length_nil,
        one image size] at length
      change _ = 15 at length
      omega
    · rw [one image size] at unfit
      exact unfit ⟨fits, few⟩

/-- Twenty times a string of 400 bytes, all from one page of the caller. -/
def manyArgs : List (List UInt8) := List.replicate 20 (List.replicate 400 0x61)

/-- The program starts, but the byte at address 16 is that of the return
address and no longer that of the file. -/
theorem manyArgs_overwrite : ∃ w, exec smallImage 0 (some oneSegment) manyArgs
    (onePage fifteen) = .ok (0, w) ∧ w.userByte (w.proc 0).pgdir 16 = some 0xff ∧
      oneSegment.bytes.getD 16 0 = 0 ∧
      ¬ ImageKept w 0 oneSegment.bytes [oneSegmentHdr] manyArgs := by
  have strings : Strings manyArgs := by decide +kernel
  have fits : StackFits (2 * PGSIZE) manyArgs := by decide +kernel
  obtain ⟨w, ran, esp, ptrs, length, layout⟩ := oneSegment_runs strings fits (by decide)
  rw [show execEsp (2 * PGSIZE) manyArgs = 16 by decide +kernel] at esp
  rw [esp] at layout
  have byte : w.userByte (w.proc 0).pgdir 16 = some 0xff := layout.words 0 (by simp [Bytes.le32])
  refine ⟨w, ran, byte, rfl, fun kept => ?_⟩
  have segment := kept.segments oneSegmentHdr List.mem_cons_self 16 (by decide)
  change w.userByte (w.proc 0).pgdir 16 = _ at segment
  rw [byte] at segment
  exact absurd segment (by decide)

/-- A short argument leaves the segment alone. -/
theorem shortArg_kept : ∃ w, exec smallImage 0 (some oneSegment) [[0x61]]
    (onePage fifteen) = .ok (0, w) ∧ ImageKept w 0 oneSegment.bytes [oneSegmentHdr] [[0x61]] := by
  obtain ⟨w, ran, _⟩ := oneSegment_runs (show Strings [[0x61]] by decide) (by decide) (by decide)
  refine ⟨w, ran, (exec_image_iff smallImage (onePage fifteen) w 0 oneSegment _
    [oneSegmentHdr] [[0x61]] fifteen_ready (by decide) oneSegment_program
    oneSegment_headers oneSegment_placed ran).mpr ?_⟩
  decide

end Xv6
