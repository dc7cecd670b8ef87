/-
Purpose: What the functions of vm.c and exec.c leave alone: the process table,
  the reference table and, except for the shared-memory calls, `shm_tab`.
-/
import Xv6.Kernel.Exec

namespace Xv6

open PanicM

/-- What `ptable`, `initproc`, `nextpid` and `pgdir_table` hold. -/
structure Ptable where
  proc : Slot → Proc
  initproc : Slot
  nextpid : Nat
  refs : RefTable.Table Nat NPROC

/-- The process and reference tables of a kernel state. -/
def Kernel.ptable (s : Kernel) : Ptable where
  proc := s.proc
  initproc := s.initproc
  nextpid := s.nextpid
  refs := s.refs

/-- The process, reference and shared-memory tables. -/
def Kernel.records (s : Kernel) : Ptable × (Key → SharedMem) :=
  (s.ptable, s.shmTab)

theorem Kernel.proc_eq {s t : Kernel} (same : t.records = s.records) : t.proc = s.proc :=
  congrArg (fun records => records.1.proc) same

/-- The program leaves all three tables alone. -/
abbrev FrameRecords {α : Type} (program : KM α) : Prop :=
  Frames Kernel.records program

/-- The program leaves the process and reference tables alone. -/
abbrev FramePtable {α : Type} (program : KM α) : Prop :=
  Frames Kernel.ptable program

theorem FrameRecords.ptable {α : Type} {program : KM α}
    (frames : FrameRecords program) : FramePtable program :=
  Frames.weaken frames Prod.fst

variable (img : Image)

/-! ## Pages and directories -/

theorem kalloc_frames : FrameRecords kalloc := by
  refine .of_wp fun s => ?_
  simp only [kalloc, wp_bind, wp_get]
  cases s.freelist with
  | nil => rfl
  | cons page rest => rfl

theorem kfree_frames (v : Nat) : FrameRecords (kfree img v) :=
  .ite (.throw _) (.modify fun _ => rfl)

theorem zeroPage_frames (page : Nat) : FrameRecords (zeroPage page) :=
  .modify fun _ => rfl

theorem readPte_frames (d v : Nat) : FrameRecords (readPte d v) :=
  .bind .get fun _ => .pure _

theorem writePte_frames (d v word : Nat) : FrameRecords (writePte d v word) :=
  .modify fun _ => rfl

theorem walkpgdir_frames (d va : Nat) (create : Bool) : FrameRecords (walkpgdir d va create) := by
  refine .bind .get fun s => ?_
  cases (s.dirs d).pde (pdx va) with
  | some _ => exact .pure _
  | none =>
    refine .ite ?_ (.pure _)
    exact .bindOption kalloc_frames (.pure _) fun table =>
      .bind (zeroPage_frames table) fun _ => .bind (.modify fun _ => rfl) fun _ => .pure _

theorem mapLoop_frames (d a pa perm left : Nat) : FrameRecords (mapLoop d a pa perm left) := by
  induction left generalizing a pa with
  | zero => exact .pure _
  | succ left ih =>
    refine .bindOption (walkpgdir_frames d a true) (.pure _) fun v => ?_
    refine .bind (readPte_frames d v) fun pte => .ite (.throw _) ?_
    exact .bind (writePte_frames d v _) fun _ => ih _ _

theorem mappages_frames (d la size pa perm : Nat) : FrameRecords (mappages d la size pa perm) :=
  mapLoop_frames _ _ _ _ _

theorem mapKernel_frames (d : Nat) (ranges : List (Nat × Nat × Nat)) :
    FrameRecords (mapKernel d ranges) := by
  induction ranges with
  | nil => exact .pure _
  | cons range rest ih =>
    obtain ⟨start, stop, perm⟩ := range
    refine .bind (mappages_frames _ _ _ _ _) fun mapped => ?_
    exact .ite ih (.pure _)

theorem setupkvm_frames : FrameRecords (setupkvm img) := by
  refine .bindOption kalloc_frames (.pure _) fun d => ?_
  refine .bind (zeroPage_frames d) fun _ => .bind (.modify fun _ => rfl) fun _ => ?_
  exact .bind (mapKernel_frames d _) fun _ => .ite (.pure _) (.pure _)

theorem switchuvm_frames (i : Slot) : FrameRecords (switchuvm i) :=
  .bind .get fun _ => .ite (.throw _) (.pure _)

/-! ## User memory -/

theorem deallocLoop_frames (d a left : Nat) : FrameRecords (deallocLoop img d a left) := by
  induction left generalizing a with
  | zero => exact .pure _
  | succ left ih =>
    refine .bindOption (walkpgdir_frames d a false) (ih _) fun v => ?_
    refine .bind (readPte_frames d v) fun pte => .ite (.ite (.throw _) ?_) (ih _)
    exact .bind (kfree_frames img _) fun _ => .bind (writePte_frames d v 0) fun _ => ih _

theorem deallocuvm_frames (d oldsz newsz : Nat) : FrameRecords (deallocuvm img d oldsz newsz) :=
  .ite (.pure _) (.bind (deallocLoop_frames img d _ _) fun _ => .pure _)

theorem allocLoop_frames (d oldsz newsz a left : Nat) :
    FrameRecords (allocLoop img d oldsz newsz a left) := by
  induction left generalizing a with
  | zero => exact .pure _
  | succ left ih =>
    refine .bindOption kalloc_frames ?_ fun page => ?_
    · exact .bind (deallocuvm_frames img d newsz oldsz) fun _ => .pure _
    · exact .bind (zeroPage_frames page) fun _ => .bind (mappages_frames _ _ _ _ _) fun _ => ih _

theorem allocuvm_frames (cur : Slot) (d oldsz newsz : Nat) :
    FrameRecords (allocuvm img cur d oldsz newsz) :=
  .bind .get fun _ => .ite (.pure _) (.ite (.pure _) (allocLoop_frames img d oldsz newsz _ _))

theorem freeTables_frames (d : Nat) (entries : List Nat) :
    FrameRecords (freeTables img d entries) := by
  induction entries with
  | nil => exact .pure _
  | cons i rest ih =>
    refine .bind .get fun s => ?_
    cases (s.dirs d).pde i with
    | none => exact ih
    | some table => exact .bind (kfree_frames img table) fun _ => ih

theorem freevm_frames (cur : Slot) (d : Nat) : FrameRecords (freevm img cur d) :=
  .ite (.throw _) (.bind .get fun _ => .bind (deallocuvm_frames img d _ 0) fun _ =>
    .bind (freeTables_frames img d _) fun _ => kfree_frames img d)

theorem copyLoop_frames (src d i left : Nat) : FrameRecords (copyLoop src d i left) := by
  induction left generalizing i with
  | zero => exact .pure _
  | succ left ih =>
    refine .bindOption (walkpgdir_frames src i false) (.throw _) fun v => ?_
    refine .bind (readPte_frames src v) fun pte => .ite ?_ (.throw _)
    refine .bindOption kalloc_frames (.pure _) fun page => ?_
    exact .bind (.modify fun _ => rfl) fun _ => .bind (mappages_frames _ _ _ _ _) fun _ =>
      .ite (ih _) (.pure _)

theorem copyuvm_frames (cur : Slot) (src sz : Nat) : FrameRecords (copyuvm img cur src sz) :=
  .bindOption (setupkvm_frames img) (.pure _) fun d =>
    .bind (copyLoop_frames src d 0 _) fun _ => .ite (.pure _)
      (.bind (freevm_frames img cur d) fun _ => .pure _)

theorem inituvm_frames (d : Nat) (code : List UInt8) : FrameRecords (inituvm d code) :=
  .ite (.throw _) (.bindOption kalloc_frames (.throw _) fun page =>
    .bind (zeroPage_frames page) fun _ =>
      .bind (mappages_frames _ _ _ _ _) fun _ => .modify fun _ => rfl)

theorem uva2ka_frames (cur : Slot) (d uva : Nat) : FrameRecords (uva2ka cur d uva) := by
  refine .bindOption (walkpgdir_frames d uva false) ?_ fun v => ?_
  · exact .bind (.bind .get fun _ => .ite (.pure _) (.throw _)) fun _ => .ite (.pure _) (.pure _)
  · exact .bind (readPte_frames d v) fun _ => .ite (.pure _) (.pure _)

theorem copyoutLoop_frames (cur : Slot) (d va : Nat) (bytes : List UInt8)
    (fuel : Nat) : FrameRecords (copyoutLoop cur d va bytes fuel) := by
  induction fuel generalizing va bytes with
  | zero => exact .pure _
  | succ fuel ih =>
    exact .ite (.pure _) (.bindOption (uva2ka_frames cur d _) (.pure _) fun _ =>
      .bind (.modify fun _ => rfl) fun _ => ih _ _)

theorem copyout_frames (cur : Slot) (d va : Nat) (bytes : List UInt8) :
    FrameRecords (copyout cur d va bytes) :=
  copyoutLoop_frames cur d va bytes _

theorem storeUser_frames (cur : Slot) (va : Nat) (bytes : List UInt8) :
    FrameRecords (storeUser cur va bytes) := by
  induction bytes generalizing va with
  | nil => exact .pure _
  | cons byte rest ih =>
    exact .bind .get fun _ => .ite (.bind (.modify fun _ => rfl) fun _ =>
      ih _) (.throw _)

/-! ## Loading -/

theorem loadLoop_frames (d addr : Nat) (file : List UInt8) (offset sz i left : Nat) :
    FrameRecords (loadLoop d addr file offset sz i left) := by
  induction left generalizing i with
  | zero => exact .pure _
  | succ left ih =>
    refine .bindOption (walkpgdir_frames d _ false) (.throw _) fun v => ?_
    refine .bind (readPte_frames d v) fun pte => ?_
    dsimp only
    cases fileRead file (u32 (offset + i)) (min (sz - i) PGSIZE) with
    | none => exact .pure _
    | some bytes => exact .bind (.modify fun _ => rfl) fun _ => .ite (ih _) (.pure _)

theorem loaduvm_frames (d addr : Nat) (file : List UInt8)
    (offset sz : Nat) : FrameRecords (loaduvm d addr file offset sz) :=
  .ite (.throw _) (loadLoop_frames d addr file offset sz 0 _)

theorem loadSegments_frames (cur : Slot) (d : Nat) (file : List UInt8) (off sz left : Nat) :
    FrameRecords (loadSegments img cur d file off sz left) := by
  induction left generalizing off sz with
  | zero => exact .pure _
  | succ left ih =>
    unfold loadSegments
    cases readProgHdr file off with
    | none => exact .pure _
    | some ph =>
      refine .ite (ih _ _) (.ite (.pure _) ?_)
      refine .bind (allocuvm_frames img cur d sz _) fun grown => .ite (.pure _) ?_
      exact .bind (loaduvm_frames d ph.va file _ _) fun _ => .ite (ih _ _) (.pure _)

theorem pushArgs_frames (cur : Slot) (d sp : Nat) (ptrs : List Nat) (argv : List (List UInt8)) :
    FrameRecords (pushArgs cur d sp ptrs argv) := by
  induction argv generalizing sp ptrs with
  | nil => exact .pure _
  | cons arg rest ih =>
    exact .ite (.pure _) (.bind (copyout_frames cur d _ _) fun _ =>
      .ite (ih _ _) (.pure _))

theorem buildStack_frames (cur : Slot) (d sz : Nat) (argv : List (List UInt8)) :
    FrameRecords (buildStack img cur d sz argv) := by
  refine .bind (allocuvm_frames img cur d _ _) fun top => .ite (.pure _) ?_
  exact .bindOption (pushArgs_frames cur d top [] argv) (.pure _) fun result =>
    .bind (copyout_frames cur d _ _) fun _ => .ite (.pure _) (.pure _)

theorem loadImage_frames (cur : Slot) (d : Nat) (file : List UInt8)
    (elf : ElfHdr) (argv : List (List UInt8)) : FrameRecords (loadImage img cur d file elf argv) :=
  .bindOption (loadSegments_frames img cur d file _ 0 _) (.pure _) fun sz =>
    buildStack_frames img cur d sz argv

theorem execLoad_frames (cur : Slot) (file : Option FileImage) (argv : List (List UInt8)) :
    FrameRecords (execLoad img cur file argv) := by
  unfold execLoad
  cases file with
  | none => exact .pure _
  | some file =>
    dsimp only
    cases readElfHdr file.bytes with
    | none => exact .pure _
    | some elf =>
      refine .ite (.pure _) (.bindOption (setupkvm_frames img) (.pure _) fun d => ?_)
      exact .bindOption (loadImage_frames img cur d file.bytes elf argv)
        (.bind (freevm_frames img cur d) fun _ => .pure _) fun new => .pure _

/-! ## Shared memory -/

theorem shmCount_frames (key : Key) (delta : Int) : FramePtable (shmCount key delta) :=
  .modify fun _ => rfl

theorem shmAddCount_frames (mask : Nat) (keys : List Key) :
    FramePtable (shmAddCount mask keys) := by
  induction keys with
  | nil => exact .pure _
  | cons key rest ih =>
    unfold shmAddCount
    exact .ite (.bind (shmCount_frames key 1) fun _ => ih) ih

theorem deallocShmLoop_frames (d a left : Nat) : FrameRecords (deallocShmLoop d a left) := by
  induction left generalizing a with
  | zero => exact .pure _
  | succ left ih =>
    refine .bindOption (walkpgdir_frames d a false) (ih _) fun v => ?_
    refine .bind (readPte_frames d v) fun pte => .ite (.ite (.throw _) ?_) (ih _)
    exact .bind (writePte_frames d v 0) fun _ => ih _

theorem deallocshm_frames (d oldShm newShm : Nat) : FrameRecords (deallocshm d oldShm newShm) :=
  .ite (.pure _) (deallocShmLoop_frames d _ _)

theorem copyShmLoop_frames (src dst shm i left : Nat) :
    FrameRecords (copyShmLoop src dst shm i left) := by
  induction left generalizing i with
  | zero => exact .pure _
  | succ left ih =>
    refine .bindOption (walkpgdir_frames src i false) (.throw _) fun v => ?_
    refine .bind (readPte_frames src v) fun pte => .ite ?_ (.throw _)
    exact .bind (mappages_frames _ _ _ _ _) fun _ =>
      .ite (ih _) (.bind (deallocshm_frames dst shm USERTOP) fun _ => .pure _)

theorem copyshm_frames (src shm dst : Nat) : FrameRecords (copyshm src shm dst) :=
  copyShmLoop_frames src dst shm shm _

theorem freePages_frames (pages : List Nat) : FrameRecords (shmRm.freePages img pages) := by
  induction pages with
  | nil => exact .pure _
  | cons page rest ih => exact .bind (kfree_frames img page) fun _ => ih

theorem shmRm_frames (key : Key) : FramePtable (shmRm img key) :=
  .bind .get fun _ =>
    .bind (freePages_frames img _).ptable fun _ => .modify fun _ => rfl

theorem releaseKeys_frames (mask : Nat) (keys : List Key) :
    FramePtable (releaseKeys img mask keys) := by
  induction keys with
  | nil => exact .pure _
  | cons key rest ih =>
    unfold releaseKeys
    refine .ite ?_ ih
    refine .bind (shmCount_frames key (-1)) fun _ => .bind .get fun _ => ?_
    exact .ite (.bind (shmRm_frames img key) fun _ => ih) ih

theorem shmRelease_frames (d shm mask : Nat) : FramePtable (shmRelease img d shm mask) :=
  .bind (deallocshm_frames d shm USERTOP).ptable fun _ =>
    releaseKeys_frames img mask _

end Xv6
