/-
Purpose: kalloc.c and vm.c: the page allocator, page directories, user
  memory and the shared-memory table.
-/
import Xv6.Kernel.State

namespace Xv6

variable (img : Image)

/-! ## Physical pages -/

/-- Take the first page of the free list. -/
def kalloc : KM (Option Nat) := do
  let s ← get
  match s.freelist with
  | [] => pure none
  | page :: rest =>
    set { s with freelist := rest, freecount := s.freecount - 1 }
    pure (some page)

/-- Put a page back: junk-fill it and push it on the free list. -/
def kfree (v : Nat) : KM Unit :=
  if v % PGSIZE ≠ 0 ∨ v < img.kend ∨ PHYSTOP ≤ v then
    throw .kfree
  else
    modify fun s =>
      { s with
        mem := Bytes.fill s.mem v 1 PGSIZE
        freelist := v :: s.freelist
        freecount := s.freecount + 1 }

/-- `memset(page, 0, PGSIZE)`. -/
def zeroPage (page : Nat) : KM Unit :=
  modify fun s => { s with mem := Bytes.fill s.mem page 0 PGSIZE }

/-! ## Page directories -/

/-- The entry word of a virtual page. -/
def readPte (d v : Nat) : KM Nat := do
  let s ← get
  pure ((s.dirs d).pte v)

/-- Store an entry word. -/
def writePte (d v word : Nat) : KM Unit :=
  modify fun s =>
    s.setDir d { s.dirs d with
      pte := Function.update (s.dirs d).pte v word }

/-- The page `table` becomes the zeroed page table of directory entry `i`. -/
def PgDir.addTable (dir : PgDir) (i table : Nat) : PgDir where
  pde := Function.update dir.pde i (some table)
  pte := fun v => if v / 1024 = i then 0 else dir.pte v

/-- The page whose entry `walkpgdir` returns a pointer to; `none` is the null
pointer. -/
def walkpgdir (d va : Nat) (create : Bool) : KM (Option Nat) := do
  let s ← get
  match (s.dirs d).pde (pdx va) with
  | some _ => pure (some (vpn va))
  | none =>
    if create then do
      match ← kalloc with
      | none => pure none
      | some table =>
        zeroPage table
        modify fun s => s.setDir d ((s.dirs d).addTable (pdx va) table)
        pure (some (vpn va))
    else
      pure none

/-- The loop of `mappages`, for the pages from `a` that are still to map. -/
def mapLoop (d a pa perm : Nat) : Nat → KM Bool
  | 0 => pure true
  | left + 1 => do
      match ← walkpgdir d a true with
      | none => pure false
      | some v =>
        if present (← readPte d v) then
          throw .remap
        else do
          writePte d v (mkPte pa perm)
          mapLoop d (a + PGSIZE) (pa + PGSIZE) perm left

/-- Map the pages that meet `[la, la + size)`; `false` is the return value
-1. -/
def mappages (d la size pa perm : Nat) : KM Bool :=
  let a := pgrounddown la
  let last := pgrounddown (u32 (la + size - 1))
  mapLoop d a pa perm (u32 (last + 2 ^ 32 - a) / PGSIZE + 1)

/-- `kmap`: the kernel ranges of every directory. -/
def kmap : List (Nat × Nat × Nat) :=
  [(USERTOP, 0x100000, PTE_W), (0x100000, img.data, 0),
    (img.data, PHYSTOP, PTE_W), (0xFE000000, 0, PTE_W)]

/-- The loop of `setupkvm` over the kernel ranges. -/
def mapKernel (d : Nat) : List (Nat × Nat × Nat) → KM Bool
  | [] => pure true
  | (start, stop, perm) :: rest => do
      if ← mappages d start (u32 (stop + 2 ^ 32 - start)) start perm then
        mapKernel d rest
      else
        pure false

/-- A new directory with the kernel mapped.  When a page table cannot be
allocated the pages taken so far are not given back. -/
def setupkvm : KM (Option Nat) := do
  match ← kalloc with
  | none => pure none
  | some d =>
    zeroPage d
    modify fun s => s.setDir d PgDir.empty
    if ← mapKernel d (kmap img) then
      pure (some d)
    else
      pure none

/-- `switchuvm`, for the check it makes. -/
def switchuvm (i : Slot) : KM Unit := do
  let s ← get
  if (s.proc i).pgdir = 0 then throw .switchuvm else pure ()

/-! ## User memory -/

/-- Pages from `a` up to `limit`. -/
def pagesTo (a limit : Nat) : Nat := (limit + (PGSIZE - 1) - a) / PGSIZE

/-- The loop of `deallocuvm`. -/
def deallocLoop (d a : Nat) : Nat → KM Unit
  | 0 => pure ()
  | left + 1 => do
      match ← walkpgdir d a false with
      | none => deallocLoop d (a + PGSIZE) left
      | some v => do
          let pte ← readPte d v
          if present pte then
            if pteAddr pte = 0 then
              throw .kfree
            else do
              kfree img (pteAddr pte)
              writePte d v 0
              deallocLoop d (a + PGSIZE) left
          else
            deallocLoop d (a + PGSIZE) left

/-- Unmap and free the pages above `newsz`; returns the new size. -/
def deallocuvm (d oldsz newsz : Nat) : KM Nat :=
  if oldsz ≤ newsz then
    pure oldsz
  else do
    deallocLoop img d (pgroundup newsz) (pagesTo (pgroundup newsz) oldsz)
    pure newsz

/-- The loop of `allocuvm`.  The result of `mappages` is ignored, as in the
source. -/
def allocLoop (d oldsz newsz a : Nat) : Nat → KM Nat
  | 0 => pure newsz
  | left + 1 => do
      match ← kalloc with
      | none => do
          let _ ← deallocuvm img d newsz oldsz
          pure 0
      | some page => do
          zeroPage page
          let _ ← mappages d a PGSIZE page (PTE_W ||| PTE_U)
          allocLoop d oldsz newsz (a + PGSIZE) left

/-- Grow the user part of `d` from `oldsz` to `newsz` on behalf of the
current process `cur`; returns the new size, or 0. -/
def allocuvm (cur : Slot) (d oldsz newsz : Nat) : KM Nat := do
  let s ← get
  if (s.proc cur).shm < newsz then
    pure 0
  else if newsz < oldsz then
    pure oldsz
  else
    allocLoop img d oldsz newsz (pgroundup oldsz) (pagesTo (pgroundup oldsz) newsz)

/-- The loop of `freevm` over the directory entries. -/
def freeTables (d : Nat) : List Nat → KM Unit
  | [] => pure ()
  | i :: rest => do
      let s ← get
      match (s.dirs d).pde i with
      | some table => do
          kfree img table
          freeTables d rest
      | none => freeTables d rest

/-- Free a directory, its page tables and the user pages below the shared
memory of the current process. -/
def freevm (cur : Slot) (d : Nat) : KM Unit :=
  if d = 0 then
    throw .freevm
  else do
    let s ← get
    let _ ← deallocuvm img d (s.proc cur).shm 0
    freeTables img d (List.range NPDENTRIES)
    kfree img d

/-- The loop of `copyuvm`; `false` is the jump to `bad`. -/
def copyLoop (src d i : Nat) : Nat → KM Bool
  | 0 => pure true
  | left + 1 => do
      match ← walkpgdir src i false with
      | none => throw .copyuvmExist
      | some v => do
          let pte ← readPte src v
          if present pte then do
            match ← kalloc with
            | none => pure false
            | some page => do
                modify fun s =>
                  { s with
                    mem := Bytes.copy s.mem page s.mem (pteAddr pte) PGSIZE }
                if ← mappages d i PGSIZE page (PTE_W ||| PTE_U) then
                  copyLoop src d (i + PGSIZE) left
                else
                  pure false
          else
            throw .copyuvmPresent

/-- Copy the user part of a directory. -/
def copyuvm (cur : Slot) (src sz : Nat) : KM (Option Nat) := do
  match ← setupkvm img with
  | none => pure none
  | some d => do
      if ← copyLoop src d 0 (pagesTo 0 sz) then
        pure (some d)
      else do
        freevm img cur d
        pure none

/-- Start of the user part of memory in the initial process. -/
def inituvm (d : Nat) (code : List UInt8) : KM Unit :=
  if PGSIZE ≤ code.length then
    throw .inituvm
  else do
    match ← kalloc with
    | none => throw .trap
    | some page => do
        zeroPage page
        let _ ← mappages d 0 PGSIZE page (PTE_W ||| PTE_U)
        modify fun s => { s with mem := Bytes.put s.mem page code }

/-! ## Access to user memory -/

/-- The word a null page-table-entry pointer reads: the first word of the
current process's own address space, or a fault when that is not mapped. -/
def readNull (cur : Slot) : KM Nat := do
  let s ← get
  let pte := (s.dirs (s.proc cur).pgdir).pte 0
  if present pte then
    pure (Bytes.word32 s.mem (pteAddr pte))
  else
    throw .trap

/-- Physical address of a user page; `none` is the null pointer. -/
def uva2ka (cur : Slot) (d uva : Nat) : KM (Option Nat) := do
  let pte ←
    match ← walkpgdir d uva false with
    | some v => readPte d v
    | none => readNull cur
  if present pte && userPage pte && pteAddr pte ≠ 0 then
    pure (some (pteAddr pte))
  else
    pure none

/-- The loop of `copyout`; every iteration stores at least one byte, so the
length bounds their number. -/
def copyoutLoop (cur : Slot) (d va : Nat) (bytes : List UInt8) : Nat → KM Bool
  | 0 => pure true
  | fuel + 1 =>
    if bytes = [] then
      pure true
    else do
      let va0 := pgrounddown va
      match ← uva2ka cur d va0 with
      | none => pure false
      | some pa0 => do
          let n := min (PGSIZE - (va - va0)) bytes.length
          modify fun s =>
            { s with
              mem := Bytes.put s.mem (pa0 + (va - va0)) (bytes.take n) }
          copyoutLoop cur d (u32 (va0 + PGSIZE)) (bytes.drop n) fuel

/-- Copy bytes to a user address of directory `d`; `false` is -1. -/
def copyout (cur : Slot) (d va : Nat) (bytes : List UInt8) : KM Bool :=
  copyoutLoop cur d va bytes bytes.length

/-- A store by kernel code to a user address of the current process. -/
def storeUser (cur : Slot) (va : Nat) : List UInt8 → KM Unit
  | [] => pure ()
  | byte :: rest => do
      let s ← get
      let pte := (s.dirs (s.proc cur).pgdir).pte (vpn va)
      if present pte then do
        modify fun s =>
          { s with mem := Bytes.put s.mem (pteAddr pte + va % PGSIZE) [byte] }
        storeUser cur (va + 1) rest
      else
        throw .trap

/-! ## Loading a program -/

/-- `readi` on the contents of an ordinary file; `none` is -1. -/
def fileRead (file : List UInt8) (off n : Nat) : Option (List UInt8) :=
  if file.length < off ∨ u32 (off + n) < off then
    none
  else
    some ((file.drop off).take n)

/-- The loop of `loaduvm`, `left` pages before the end of the segment. -/
def loadLoop (d addr : Nat) (file : List UInt8) (offset sz i : Nat) : Nat → KM Bool
  | 0 => pure true
  | left + 1 => do
      match ← walkpgdir d (u32 (addr + i)) false with
      | none => throw .loaduvmExist
      | some v => do
          let pa := pteAddr (← readPte d v)
          let n := min (sz - i) PGSIZE
          match fileRead file (u32 (offset + i)) n with
          | none => pure false
          | some bytes => do
              modify fun s =>
                { s with mem := Bytes.put s.mem pa bytes }
              if bytes.length = n then
                loadLoop d addr file offset sz (i + PGSIZE) left
              else
                pure false

/-- Load a program segment; `false` is -1. -/
def loaduvm (d addr : Nat) (file : List UInt8) (offset sz : Nat) : KM Bool :=
  if addr % PGSIZE ≠ 0 then
    throw .loaduvmAlign
  else
    loadLoop d addr file offset sz 0 (pagesTo 0 sz)

/-! ## Shared memory -/

/-- `shm_key_used`, for a key in range. -/
def shmKeyUsed (key : Key) (mask : Nat) : Bool := mask.testBit key

/-- `shm_add`, for arguments that pass its sanity check. -/
def shmAdd (key : Key) (numPages : Nat) (physAddr : Nat → Nat) : KM Unit :=
  modify fun s =>
    s.setShm key
      { count := 1
        numPages := numPages
        physAddr := fun i =>
          if i < numPages then physAddr i else (s.shmTab key).physAddr i }

/-- Add `delta` to the count of one key. -/
def shmCount (key : Key) (delta : Int) : KM Unit :=
  modify fun s =>
    s.setShm key
      { s.shmTab key with count := (s.shmTab key).count + delta }

/-- `shm_add_count`: one more address space holds every key of `mask`. -/
def shmAddCount (mask : Nat) : List Key → KM Unit
  | [] => pure ()
  | key :: rest => do
      if shmKeyUsed key mask then shmCount key 1 else pure ()
      shmAddCount mask rest

/-- The loop of `deallocshm`, from the page at `a` downwards. -/
def deallocShmLoop (d a : Nat) : Nat → KM Unit
  | 0 => pure ()
  | left + 1 => do
      match ← walkpgdir d a false with
      | none => deallocShmLoop d (a - PGSIZE) left
      | some v => do
          let pte ← readPte d v
          if present pte then
            if pteAddr pte = 0 then
              throw .kfree
            else do
              writePte d v 0
              deallocShmLoop d (a - PGSIZE) left
          else
            deallocShmLoop d (a - PGSIZE) left

/-- Unmap, without freeing, the pages of `[oldShm, newShm)`.  The source
counts `a` down to `oldShm`, which is never 0 here. -/
def deallocshm (d oldShm newShm : Nat) : KM Unit :=
  if newShm ≤ oldShm then
    pure ()
  else
    let top := pgrounddown (newShm - PGSIZE)
    deallocShmLoop d top ((top + PGSIZE - oldShm) / PGSIZE)

/-- The loop of `allocshm`: the pages taken so far are in `taken`, the first
one last. -/
def allocShmLoop (d newShm oldShm a : Nat) (taken : List Nat) : Nat → KM (Option (List Nat))
  | 0 => pure (some taken.reverse)
  | left + 1 => do
      match ← kalloc with
      | none => do
          deallocshm d newShm oldShm
          pure none
      | some page => do
          zeroPage page
          let _ ← mappages d a PGSIZE page (PTE_W ||| PTE_U)
          allocShmLoop d newShm oldShm (a + PGSIZE) (page :: taken) left

/-- The check `allocshm` and `mapshm` make before they map anything. -/
def shmRefused (oldShm newShm sz : Nat) : Bool :=
  oldShm % PGSIZE ≠ 0 || newShm % PGSIZE ≠ 0 || USERTOP < oldShm ||
    newShm < sz

/-- Pages of `[newShm, oldShm)`. -/
def shmPages (newShm oldShm : Nat) : Nat := pagesTo newShm oldShm

/-- Allocate and map new shared pages below `oldShm`; the pages it stored
through `phys_addr`, or `none` for the return value 0. -/
def allocshm (d oldShm newShm sz : Nat) : KM (Option (List Nat)) :=
  if shmRefused oldShm newShm sz then
    pure none
  else do
    let pages ← allocShmLoop d newShm oldShm newShm [] (shmPages newShm oldShm)
    pure (if newShm = 0 then none else pages)

/-- The loop of `mapshm`. -/
def mapShmLoop (d a i : Nat) (physAddr : Nat → Nat) : Nat → KM Unit
  | 0 => pure ()
  | left + 1 => do
      let _ ← mappages d a PGSIZE (physAddr i) (PTE_W ||| PTE_U)
      mapShmLoop d (a + PGSIZE) (i + 1) physAddr left

/-- Map existing pages below `oldShm`; `false` is the return value 0. -/
def mapshm (d oldShm newShm sz : Nat) (physAddr : Nat → Nat) : KM Bool :=
  if shmRefused oldShm newShm sz then
    pure false
  else do
    mapShmLoop d newShm 0 physAddr (shmPages newShm oldShm)
    pure (newShm ≠ 0)

/-- The loop of `copyshm`. -/
def copyShmLoop (src dst shm i : Nat) : Nat → KM Bool
  | 0 => pure true
  | left + 1 => do
      match ← walkpgdir src i false with
      | none => throw .copyshmExist
      | some v => do
          let pte ← readPte src v
          if present pte then do
            if ← mappages dst i PGSIZE (pteAddr pte) (PTE_W ||| PTE_U) then
              copyShmLoop src dst shm (i + PGSIZE) left
            else do
              deallocshm dst shm USERTOP
              pure false
          else
            throw .copyshmPresent

/-- Share the pages of `[shm, USERTOP)` with another directory. -/
def copyshm (src shm dst : Nat) : KM Bool :=
  copyShmLoop src dst shm shm (pagesTo shm USERTOP)

/-- `shm_rm`: free the pages of a key. -/
def shmRm (key : Key) : KM Unit := do
  let s ← get
  freePages ((List.range (s.shmTab key).numPages).map (s.shmTab key).physAddr)
  modify fun s => s.setShm key { s.shmTab key with count := 0 }
where
  /-- The loop of `shm_rm`. -/
  freePages : List Nat → KM Unit
    | [] => pure ()
    | page :: rest => do
        kfree img page
        freePages rest

/-- The loop of `shm_release` over the keys. -/
def releaseKeys (mask : Nat) : List Key → KM Unit
  | [] => pure ()
  | key :: rest => do
      if shmKeyUsed key mask then do
        shmCount key (-1)
        let s ← get
        if (s.shmTab key).count = 0 then shmRm img key else pure ()
      else
        pure ()
      releaseKeys mask rest

/-- `shm_release`: unmap the shared pages of a directory and drop its
references. -/
def shmRelease (d shm mask : Nat) : KM Unit := do
  deallocshm d shm USERTOP
  releaseKeys img mask (List.finRange MAX_SHM_KEY)

/-- The address `shmgetat` asks for, `num_pages` pages below `shm`, as a
`uint`. -/
def shmBelow (shm numPages : Nat) : Nat :=
  u32 (shm + 2 ^ 32 - numPages * PGSIZE)

/-- What `shmgetat` stores in the current proc once the pages are mapped. -/
def attach (cur : Slot) (key : Key) (va : Nat) : KM Unit :=
  modify fun s =>
    s.setProc cur
      { s.proc cur with
        shmVa := Function.update (s.proc cur).shmVa key va
        shm := va
        shmKeyMask := (s.proc cur).shmKeyMask ||| 2 ^ (key : Nat) }

/-- `shmgetat`.  `stack` is the content of the uninitialised local array
`phys_addr`; `none` is the return value -1. -/
def shmgetat (cur : Slot) (key numPages : Int) (stack : Nat → Nat) : KM (Option Nat) :=
  if inRange : 0 ≤ key ∧ key < MAX_SHM_KEY then
    if 0 ≤ numPages ∧ numPages ≤ MAX_SHM_PGNUM then do
      let k : Key := ⟨key.toNat, by simp only [MAX_SHM_KEY] at *; omega⟩
      let n := numPages.toNat
      let s ← get
      let p := s.proc cur
      if shmKeyUsed k p.shmKeyMask then
        pure (some (p.shmVa k))
      else if (s.shmTab k).count = 0 then do
        match ← allocshm p.pgdir p.shm (shmBelow p.shm n) p.sz with
        | none => pure none
        | some pages => do
            shmAdd k n fun i => pages.getD i 0
            attach cur k (shmBelow p.shm n)
            pure (some (shmBelow p.shm n))
      else do
        -- Only the first `n` cells of the local array are filled, but the
        -- table's own number of pages is mapped from it.
        let physAddr := fun i =>
          if i < n then (s.shmTab k).physAddr i else stack i
        let m := (s.shmTab k).numPages
        if ← mapshm p.pgdir p.shm (shmBelow p.shm m) p.sz physAddr then do
          shmCount k 1
          attach cur k (shmBelow p.shm m)
          pure (some (shmBelow p.shm m))
        else
          pure none
    else
      pure none
  else
    pure none

end Xv6
