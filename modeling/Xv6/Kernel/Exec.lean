/-
Purpose: exec.c: loading an ELF file, building the argument stack and
  replacing the address space.
-/
import Xv6.Kernel.Proc

namespace Xv6

open Bytes

variable (img : Image)

/-- Contents of an ordinary file: no file is longer than `MAXFILE` blocks. -/
structure FileImage where
  bytes : List UInt8
  short : bytes.length ≤ MAXFILE * BSIZE

def ELF_MAGIC : Nat := 0x464C457F
def ELF_PROG_LOAD : Nat := 1

/-- Size of `struct elfhdr`. -/
def elfhdrSize : Nat := 52

/-- Size of `struct proghdr`. -/
def proghdrSize : Nat := 32

/-- The program-header fields `exec` reads. -/
structure ProgHdr where
  type : Nat
  offset : Nat
  va : Nat
  filesz : Nat
  memsz : Nat
deriving Repr, DecidableEq

def ProgHdr.decode (bytes : List UInt8) : ProgHdr where
  type := word32 (ofList bytes) 0
  offset := word32 (ofList bytes) 4
  va := word32 (ofList bytes) 8
  filesz := word32 (ofList bytes) 16
  memsz := word32 (ofList bytes) 20

/-- The ELF-header fields `exec` reads. -/
structure ElfHdr where
  magic : Nat
  entry : Nat
  phoff : Nat
  phnum : Nat
deriving Repr, DecidableEq

def ElfHdr.decode (bytes : List UInt8) : ElfHdr where
  magic := word32 (ofList bytes) 0
  entry := word32 (ofList bytes) 24
  phoff := word32 (ofList bytes) 28
  phnum := word16 (ofList bytes) 44

/-- The program header at `off`, if the file has all of it. -/
def readProgHdr (file : List UInt8) (off : Nat) : Option ProgHdr :=
  match fileRead file off proghdrSize with
  | some bytes =>
    if bytes.length = proghdrSize then some (.decode bytes) else none
  | none => none

/-- The ELF header, if the file has all of it.  The source compares the
result of `readi` with an unsigned size, so -1 would pass as a full header;
by `fileRead_zero` an ordinary file never gives -1 here. -/
def readElfHdr (file : List UInt8) : Option ElfHdr :=
  let bytes := file.take elfhdrSize
  if bytes.length < elfhdrSize then none else some (.decode bytes)

/-- The loop of `exec` over the program headers: the size reached, or `none`
for the jump to `bad`. -/
def loadSegments (cur : Slot) (d : Nat) (file : List UInt8) (off sz : Nat) : Nat → KM (Option Nat)
  | 0 => pure (some sz)
  | left + 1 =>
    match readProgHdr file off with
    | none => pure none
    | some ph =>
      if ph.type ≠ ELF_PROG_LOAD then
        loadSegments cur d file (u32 (off + proghdrSize)) sz left
      else if ph.memsz < ph.filesz then
        pure none
      else do
        let grown ← allocuvm img cur d sz (u32 (ph.va + ph.memsz))
        if grown = 0 then
          pure none
        else if ← loaduvm d ph.va file ph.offset ph.filesz then
          loadSegments cur d file (u32 (off + proghdrSize)) grown left
        else
          pure none

/-- `sp -= strlen(arg) + 1; sp &= ~3`. -/
def argSp (sp : Nat) (arg : List UInt8) : Nat :=
  u32 (sp + 2 ^ 32 - (arg.length + 1)) / 4 * 4

/-- The loop of `exec` over the arguments: the stack pointer and the pointers
pushed so far, latest first. -/
def pushArgs (cur : Slot) (d sp : Nat) (ptrs : List Nat) :
    List (List UInt8) → KM (Option (Nat × List Nat))
  | [] => pure (some (sp, ptrs))
  | arg :: rest =>
    if MAXARG ≤ ptrs.length then
      pure none
    else do
      if ← copyout cur d (argSp sp arg) (arg ++ [0]) then
        pushArgs cur d (argSp sp arg) (argSp sp arg :: ptrs) rest
      else
        pure none

/-- The words below the strings: fake return address, `argc`, the address of
the pointer array, the pointers and a null word. -/
def ustackWords (sp : Nat) (ptrs : List Nat) : List Nat :=
  [0xffffffff, ptrs.length, u32 (sp + 2 ^ 32 - (ptrs.length + 1) * 4)] ++ ptrs.reverse ++ [0]

/-- The part of `exec` after the segments: stack page, strings and `ustack`.
Gives the size and the stack pointer. -/
def buildStack (cur : Slot) (d sz : Nat) (argv : List (List UInt8)) : KM (Option (Nat × Nat)) := do
  let top ← allocuvm img cur d (pgroundup sz) (u32 (pgroundup sz + PGSIZE))
  if top = 0 then
    pure none
  else do
    match ← pushArgs cur d top [] argv with
    | none => pure none
    | some (sp, ptrs) => do
        let words := ustackWords sp ptrs
        let esp := u32 (sp + 2 ^ 32 - words.length * 4)
        if ← copyout cur d esp (words.flatMap le32) then
          pure (some (top, esp))
        else
          pure none

/-- Build the new image in a fresh directory. -/
def loadImage (cur : Slot) (d : Nat) (file : List UInt8) (elf : ElfHdr)
    (argv : List (List UInt8)) : KM (Option (Nat × Nat)) := do
  match ← loadSegments img cur d file elf.phoff 0 elf.phnum with
  | none => pure none
  | some sz => buildStack img cur d sz argv

/-- Commit to the new image: move the caller's reference, switch to the new
directory and, after the last reference, free the old one. -/
def commitExec (cur : Slot) (d sz esp entry : Nat) : KM Unit := do
  let s ← get
  let old := (s.proc cur).pgdir
  let left ← deleteRef old
  addRef d
  updProc cur fun p =>
    { p with
      pgdir := d
      sz := sz
      tf := { p.tf with eip := entry, esp := esp }
      ustack := pgrounddown sz }
  switchuvm cur
  if left < 0 then
    throw .pgdirRef
  else if left = 0 then do
    let s ← get
    shmRelease img old (s.proc cur).shm (s.proc cur).shmKeyMask
    freevm img cur old
  else
    pure ()
  updProc cur fun p => { p with shm := USERTOP, shmKeyMask := 0 }

/-- `exec` of a file (`none` when the path names none): 0 or -1. -/
def exec (cur : Slot) (file : Option FileImage) (argv : List (List UInt8)) : KM Int :=
  match file with
  | none => pure (-1)
  | some file =>
    match readElfHdr file.bytes with
    | none => pure (-1)
    | some elf =>
      if elf.magic ≠ ELF_MAGIC then
        pure (-1)
      else do
        match ← setupkvm img with
        | none => pure (-1)
        | some d => do
            match ← loadImage img cur d file.bytes elf argv with
            | some (sz, esp) => do
                commitExec img cur d sz esp elf.entry
                pure 0
            | none => do
                freevm img cur d
                pure (-1)

/-- A new image, ready to be committed to. -/
structure Loaded where
  dir : Nat
  sz : Nat
  esp : Nat
  entry : Nat
deriving DecidableEq

/-- `exec` up to its commit: everything that can still fail. -/
def execLoad (cur : Slot) (file : Option FileImage)
    (argv : List (List UInt8)) : KM (Option Loaded) :=
  match file with
  | none => pure none
  | some file =>
    match readElfHdr file.bytes with
    | none => pure none
    | some elf =>
      if elf.magic ≠ ELF_MAGIC then
        pure none
      else do
        match ← setupkvm img with
        | none => pure none
        | some d => do
            match ← loadImage img cur d file.bytes elf argv with
            | some (sz, esp) => pure (some ⟨d, sz, esp, elf.entry⟩)
            | none => do
                freevm img cur d
                pure none

/-- `exec` is its loading part followed by its commit. -/
theorem exec_eq_load_commit (cur : Slot) (file : Option FileImage) (argv : List (List UInt8)) :
    exec img cur file argv = (do
      match ← execLoad img cur file argv with
      | none => pure (-1)
      | some new => do
          commitExec img cur new.dir new.sz new.esp new.entry
          pure 0) := by
  cases file with
  | none => rfl
  | some file =>
    unfold exec execLoad
    dsimp only
    cases readElfHdr file.bytes with
    | none => rfl
    | some elf =>
      dsimp only
      split
      · rfl
      · simp only [bind_assoc]
        congr 1
        funext dir
        cases dir with
        | none => rfl
        | some d =>
          dsimp only
          simp only [bind_assoc]
          congr 1
          funext loaded
          cases loaded with
          | none => simp
          | some new => rfl

end Xv6
