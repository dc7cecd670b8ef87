/-
Purpose: The kernel's memory and processes together with its open files, for
  the calls that touch both.
-/
import Xv6.Fs.Files
import Xv6.Kernel.Exec

namespace Xv6

/-- The two halves of the kernel's state.  Both record in which state each
slot of the process table is. -/
structure Machine where
  kernel : Kernel
  files : Files

/-- What `exec` does to the file system: look the file up, lock it, read it
and let go of it.  The code reads it piece by piece, here it is read at once;
the lock is held all the while. -/
def Fs.execFile (typed : List UInt8) (cwd : Fs.InodePtr) (path : List UInt8) :
    Fs.FM (Option FileImage) := do
  match ← Fs.namei cwd path with
  | none => pure none
  | some ip => do
      Fs.ilock ip
      let bytes ← Fs.withInode ip fun node => do
        let (_, bytes, node) ← Fs.readi typed node 0 node.size
        pure (bytes, node)
      Fs.iunlockput ip
      pure (some ⟨bytes.take (MAXFILE * BSIZE), List.length_take_le _ _⟩)

namespace Machine

/-- `clone`, over both halves: the first one decides whether a kernel stack
can be allocated and whether the stack of the thread can be written.  `none`
is a panic. -/
def clone (cur : Slot) (fcn arg stack : Nat) (m : Machine) : Option (Int × Machine) :=
  match Xv6.clone cur fcn arg stack m.kernel with
  | .error _ => none
  | .ok (result, kernel) =>
    let shared := Files.withCwd cur fun cwd =>
      Files.clone cur cwd (m.kernel.freelist ≠ []) (result ≠ -1)
    match shared m.files with
    | .error _ => none
    | .ok (_, files) => some (result, ⟨kernel, files⟩)

variable (img : Image)

/-- `fork`, over both halves: the first one decides whether a kernel stack can
be allocated and the address space copied. -/
def fork (cur : Slot) (m : Machine) : Option (Int × Machine) :=
  match Xv6.fork img cur m.kernel with
  | .error _ => none
  | .ok (result, kernel) =>
    let shared := Files.withCwd cur fun cwd =>
      Files.fork cur cwd (m.kernel.freelist ≠ []) (result ≠ -1)
    match shared m.files with
    | .error _ => none
    | .ok (_, files) => some (result, ⟨kernel, files⟩)

/-- `exec` of a path, over both halves: the second one finds the file.  The
process has a current directory. -/
def exec (typed : List UInt8) (cur : Slot) (path : List UInt8)
    (argv : List (List UInt8)) (m : Machine) : Option (Int × Machine) :=
  match m.files.fs.cwd cur with
  | none => none
  | some cwd =>
    match Fs.execFile typed cwd path m.files.fs with
    | .error _ => none
    | .ok (file, fs) =>
      match Xv6.exec img cur file argv m.kernel with
      | .error _ => none
      | .ok (result, kernel) =>
        some (result, ⟨kernel, { m.files with fs := fs }⟩)

end Machine

end Xv6
