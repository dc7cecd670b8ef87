/-
Purpose: The directory and path layers of fs.c.
-/
import Xv6.Fs.Cache

namespace Xv6.Fs

/-!
Names and paths are the bytes before the terminating NUL; reading beyond the
end of such a list gives that NUL.
-/

/-- Bytes of a `struct dirent`. -/
abbrev DIRENTSIZE : Nat := 16
/-- Entries of a directory block. -/
abbrev DPB : Nat := 32

/-- The byte `/`. -/
abbrev SLASH : UInt8 := 47

/-! ## Names -/

/-- `strncmp` from index `i` on, for at most `n` more bytes. -/
def strncmp (p q : Nat → UInt8) : (n i : Nat) → Int
  | 0, _ => 0
  | n + 1, i =>
    if p i ≠ 0 ∧ p i = q i then strncmp p q n (i + 1)
    else (p i).toNat - (q i).toNat

/-- `namecmp`. -/
def namecmp (s t : Nat → UInt8) : Int := strncmp s t DIRSIZ 0

/-- A name as it is compared. -/
def nameBytes (name : List UInt8) : Nat → UInt8 := fun i => name.getD i 0

/-- `strncpy` of a name into the `DIRSIZ` bytes of an entry. -/
def strncpy (name : List UInt8) : List UInt8 :=
  (List.range DIRSIZ).map fun i => name.getD i 0

/-- A `struct dirent`. -/
def dirent (inum : Nat) (name : List UInt8) : List UInt8 :=
  Bytes.le16 inum ++ strncpy name

theorem length_dirent (inum : Nat) (name : List UInt8) : (dirent inum name).length = 16 := by
  unfold dirent strncpy
  rw [List.length_append, List.length_map, List.length_range]
  rfl

/-! ## Lookup -/

/-- `de->inum` of entry `e` of a directory block. -/
def direntInum (bp : Bytes.Store) (e : Nat) : Nat :=
  Bytes.word16 bp (DIRENTSIZE * e)

/-- The first entry of a block with the name. -/
def direntFind (bp : Bytes.Store) (name : List UInt8) : Option Nat :=
  (List.range DPB).find? fun e =>
    direntInum bp e != 0 && namecmp (nameBytes name) (fun i => bp (DIRENTSIZE * e + 2 + i)) == 0

/-- The loop of `dirlookup` over the `left` blocks from `bn` on: the inode
number and the offset of the entry found. -/
def dirlookupLoop (name : List UInt8) : (left bn : Nat) → Inode → FsM (Option (Nat × Nat) × Inode)
  | 0, _, dp => pure (none, dp)
  | left + 1, bn, dp => do
      let (sector, dp) ← bmap dp bn
      let bp ← bread sector
      brelse sector
      match direntFind bp name with
      | some e =>
        pure (some (direntInum bp e, BSIZE * bn + DIRENTSIZE * e), dp)
      | none => dirlookupLoop name left (bn + 1) dp

/-- `dirlookup`: the inode and the offset of its entry. -/
def dirlookup (dp : InodePtr) (name : List UInt8) : FM (Option (InodePtr × Nat)) := do
  let s ← get
  if (s.icache dp).type ≠ T_DIR then
    throw .dirlookup
  else do
    let found ← withInode dp fun node =>
      dirlookupLoop name ((node.size + (BSIZE - 1)) / BSIZE) 0 node
    match found with
    | none => pure none
    | some (inum, off) => do
        let ip ← iget inum
        pure (some (ip, off))

/-- The search of `dirlink` and `isdirempty`: the `left` entries from `off` on
are read, until one meets `stop`.  The offset reached, and whether the search
stopped there. -/
def direntScan (panic : FsPanic) (stop : Nat → Bool) : (left off : Nat) →
    Inode → FsM ((Nat × Bool) × Inode)
  | 0, off, dp => pure ((off, false), dp)
  | left + 1, off, dp => do
      let (result, de, dp) ← readi [] dp off DIRENTSIZE
      if result ≠ DIRENTSIZE then
        throw panic
      else if stop (Bytes.word16 (Bytes.ofList de) 0) then
        pure ((off, true), dp)
      else
        direntScan panic stop left (off + DIRENTSIZE) dp

/-- Entries from `off` to the end of the directory. -/
def Inode.entries (dp : Inode) (off : Nat) : Nat :=
  (dp.size + (DIRENTSIZE - 1) - off) / DIRENTSIZE

/-- `dirlink`. -/
def dirlink (dp : InodePtr) (name : List UInt8) (inum : Nat) : FM Int := do
  match ← dirlookup dp name with
  | some (ip, _) => do
      iput ip
      pure (-1)
  | none => do
      let (off, _) ← withInode dp fun node =>
        direntScan .dirlinkRead (· == 0) (node.entries 0) 0 node
      let written ← withInode dp fun node => writei node (dirent inum name) off
      if written ≠ DIRENTSIZE then throw .dirlink else pure 0

/-! ## Paths -/

/-- `skipelem`: the rest of the path and the element in front of it, cut to
`DIRSIZ` bytes. -/
def skipelem (path : List UInt8) : Option (List UInt8 × List UInt8) :=
  match path.dropWhile (· == SLASH) with
  | [] => none
  | elem =>
    some ((elem.dropWhile (· != SLASH)).dropWhile (· == SLASH),
      (elem.takeWhile (· != SLASH)).take DIRSIZ)

/-- The loop of `namex`.  Every round takes at least one byte off the path. -/
def namexLoop (parent : Bool) : (fuel : Nat) → InodePtr → List UInt8 →
    (name : List UInt8) → FM (Option (InodePtr × List UInt8))
  | 0, ip, _, name => pure (some (ip, name))
  | fuel + 1, ip, path, name =>
    match skipelem path with
    | none =>
      if parent then do
        iput ip
        pure none
      else
        pure (some (ip, name))
    | some (rest, name) => do
        ilock ip
        let s ← get
        if (s.icache ip).type ≠ T_DIR then do
          iunlockput ip
          pure none
        else if parent ∧ rest = [] then do
          iunlock ip
          pure (some (ip, name))
        else do
          match ← dirlookup ip name with
          | none => do
              iunlockput ip
              pure none
          | some (next, _) => do
              iunlockput ip
              namexLoop parent fuel next rest name

/-- `namex`: the inode, with the last element of the path for
`nameiparent`. -/
def namex (cwd : InodePtr) (path : List UInt8) (parent : Bool) :
    FM (Option (InodePtr × List UInt8)) := do
  let ip ← if path.head? = some SLASH then iget ROOTINO else do
      idup cwd
      pure cwd
  namexLoop parent (path.length + 1) ip path []

/-- `namei`. -/
def namei (cwd : InodePtr) (path : List UInt8) : FM (Option InodePtr) := do
  let found ← namex cwd path false
  pure (found.map Prod.fst)

/-- `nameiparent`. -/
def nameiparent (cwd : InodePtr) (path : List UInt8) :
    FM (Option (InodePtr × List UInt8)) := namex cwd path true

end Xv6.Fs
