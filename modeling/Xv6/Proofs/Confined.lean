/-
Purpose: Which calls of `read` and `write` stay inside the memory of the
  process.  A count that is not negative is always safe; a negative one passes
  `argptr` and is then clipped against the file as an unsigned number.
-/
import Xv6.Kernel.Syscall
import Mathlib.Data.List.TakeWhile

namespace Xv6

variable {ip : FileInode} {major : Int}

/-! ## Addresses touched by a copy -/

theorem span_add (addr m k : Nat) : span addr (m + k) = span addr m ++ span (addr + m) k := by
  unfold span
  rw [List.range_add, List.map_append, List.map_map]
  congr 1
  apply List.map_congr_left
  intro i _
  simp [Nat.add_assoc]

theorem confined_nil (u : UserProc) : Confined u [] := by
  intro a member
  cases member

theorem confined_span {u : UserProc} {addr k : Nat} (below : addr < u.sz)
    (noWrap : addr + k ≤ 2 ^ 32) : Confined u (span addr k) ↔ addr + k ≤ u.sz := by
  constructor
  · intro confined
    cases k with
    | zero => omega
    | succ last =>
      have member : u32 (addr + last) ∈ span addr (last + 1) := by
        simp only [span, List.mem_map, List.mem_range]
        exact ⟨last, by omega, rfl⟩
      have inside := confined _ member
      rw [u32_of_lt (by omega)] at inside
      omega
  · intro fits a member
    simp only [span, List.mem_map, List.mem_range] at member
    obtain ⟨i, small, rfl⟩ := member
    rw [u32_of_lt (by omega)]
    omega

/-- Number of bytes, of the `left` from offset `off` on, that come before the
first block that is not `ok`. -/
def bytesBefore (ok : Nat → Bool) (off left : Nat) : Nat :=
  ((List.range' off left).takeWhile fun a => ok (a / BSIZE)).length

theorem bytesBefore_le (ok : Nat → Bool) (off left : Nat) : bytesBefore ok off left ≤ left := by
  have shorter := (List.takeWhile_sublist (l := List.range' off left)
    fun a => ok (a / BSIZE)).length_le
  simpa [bytesBefore] using shorter

theorem bytesBefore_stop {ok : Nat → Bool} {off left : Nat}
    (bad : ok (off / BSIZE) = false) : bytesBefore ok off left = 0 := by
  cases left with
  | zero => rfl
  | succ rest => simp [bytesBefore, List.range'_succ, bad]

/-- A round of the copy loop, in a block that is `ok`. -/
theorem bytesBefore_round {ok : Nat → Bool} {off m : Nat} (rest : Nat)
    (good : ok (off / BSIZE) = true) (inBlock : m ≤ BSIZE - off % BSIZE) :
    bytesBefore ok off (m + rest) = m + bytesBefore ok (off + m) rest := by
  have same : ∀ a ∈ List.range' off m, ok (a / BSIZE) = true := by
    intro a member
    rw [List.mem_range'_1] at member
    have block : a / BSIZE = off / BSIZE := by
      simp only [BSIZE] at *
      omega
    rw [block]
    exact good
  have parts : List.range' off (m + rest) = List.range' off m ++ List.range' (off + m) rest := by
    simp
  unfold bytesBefore
  rw [parts, List.takeWhile_append_of_pos same]
  simp

/-- The copy loop touches the bytes before the first block that is not
`ok`. -/
theorem transfer_eq_span (ok : Nat → Bool) {fuel : Nat} : ∀ (addr off left : Nat), left ≤ fuel →
      transfer ok addr off left fuel = span addr (bytesBefore ok off left) := by
  -- Induction on the fuel; one round takes `m ≥ 1` of the bytes that remain.
  induction fuel with
  | zero =>
    intro addr off left enough
    rw [Nat.le_zero.mp enough]
    rfl
  | succ fuel ih =>
    intro addr off left enough
    unfold transfer
    split
    case isTrue done =>
      rw [done]
      rfl
    case isFalse more =>
      split
      case isTrue good =>
        have step : 0 < min left (BSIZE - off % BSIZE) := by
          simp only [BSIZE]
          omega
        generalize round : min left (BSIZE - off % BSIZE) = m at step
        have within : m ≤ left ∧ m ≤ BSIZE - off % BSIZE := by omega
        have total : m + (left - m) = left := by omega
        have counted := bytesBefore_round (left - m) good within.2
        rw [total] at counted
        have onwards := ih (addr + m) (off + m) (left - m) (by omega)
        change span addr m ++ transfer ok (addr + m) (off + m) (left - m) fuel = _
        rw [counted, span_add, onwards]
      case isFalse bad =>
        rw [bytesBefore_stop (by simpa using bad)]
        rfl

theorem copyBytes_touched (ok : Nat → Bool) (addr off n : Nat) (stopped : Nat → Option Int) :
    (copyBytes ok addr off n stopped).touched = span addr (bytesBefore ok off n) :=
  transfer_eq_span ok addr off n (le_refl n)

/-! ## What the argument checks let through -/

theorem argint_range {u : UserProc} {i : Nat} {n : Int}
    (fetched : u.argint i = some n) : -2 ^ 31 ≤ n ∧ n < 2 ^ 31 := by
  unfold UserProc.argint UserProc.fetchint at fetched
  split at fetched
  · cases fetched
  · cases fetched
    generalize u32 (u.esp + 4 + 4 * i) = a
    have word := Bytes.word32_lt u.mem a
    unfold toInt32
    split <;> omega

/-- A negative count is huge as a `uint`. -/
theorem toU32_negative {n : Int} (negative : n < 0) (range : -2 ^ 31 ≤ n) :
    2 ^ 31 ≤ toU32 n ∧ toU32 n < 2 ^ 32 ∧ toInt32 (toU32 n) = n := by
  rw [toU32_of_neg negative (by omega)]
  unfold toInt32
  refine ⟨by omega, by omega, ?_⟩
  split <;> omega

theorem argptr_some {u : UserProc} {i p : Nat} {size : Int} (accepted : u.argptr i size = some p) :
    p < u.sz ∧ u32 (p + toU32 size) ≤ u.sz := by
  unfold UserProc.argptr at accepted
  split at accepted
  · cases accepted
  · split at accepted
    · cases accepted
    case isFalse checks =>
      cases accepted
      omega

/-- A count that is not negative fits behind an accepted pointer. -/
theorem argptr_fits {u : UserProc} {i p : Nat} {n : Int}
    (accepted : u.argptr i n = some p) (nonneg : 0 ≤ n) (small : n < 2 ^ 31) :
    p + n.toNat ≤ u.sz := by
  obtain ⟨below, fits⟩ := argptr_some accepted
  have top := u.szLe
  simp only [USERTOP] at top
  rw [toU32_of_nonneg nonneg (by omega), u32_of_lt (by omega)] at fits
  exact fits

/-! ## Copies to and from inodes -/

/-- When a copy with a negative count stays inside the process: it is refused,
or the bytes up to the limit, as far as the copy gets, fit behind the
pointer. -/
def CopyFits (u : UserProc) (ok : Nat → Bool) (size limit off : Nat) (n : Int) (p : Nat) : Prop :=
  size < off ∨ 2 ^ 32 ≤ off + toU32 n ∨ p + bytesBefore ok off (limit - off) ≤ u.sz

section Copy

variable {u : UserProc} {ok : Nat → Bool} {size limit off p : Nat} {n : Int}
  {stopped : Nat → Option Int}

theorem inodeCopy_nonneg (nonneg : 0 ≤ n) (small : n < 2 ^ 31) : ∃ k ≤ n.toNat,
      (inodeCopy ok size limit stopped p off (toU32 n)).touched = span p k := by
  rw [toU32_of_nonneg nonneg (by omega)]
  unfold inodeCopy
  split
  · exact ⟨0, Nat.zero_le _, rfl⟩
  case isFalse accepted =>
    have sum : u32 (off + n.toNat) ≤ off + n.toNat := Nat.mod_le _ _
    refine ⟨_, ?_, copyBytes_touched _ _ _ _ _⟩
    apply le_trans (bytesBefore_le _ _ _)
    split <;> omega

theorem inodeCopy_neg (below : p < u.sz) (negative : n < 0)
    (range : -2 ^ 31 ≤ n) (top : limit ≤ MAXFILE * BSIZE) (offLt : off < 2 ^ 32) :
    Confined u (inodeCopy ok size limit stopped p off (toU32 n)).touched ↔
      CopyFits u ok size limit off n p := by
  obtain ⟨large, bounded, -⟩ := toU32_negative negative range
  have szLe := u.szLe
  simp only [USERTOP, MAXFILE, NDIRECT, NINDIRECT, BSIZE] at szLe top
  unfold inodeCopy CopyFits
  split
  case isTrue refused =>
    have reason : size < off ∨ 2 ^ 32 ≤ off + toU32 n := by
      rcases refused with past | wrapped
      · exact .inl past
      · right
        by_contra small
        rw [u32_of_lt (by omega)] at wrapped
        omega
    constructor
    · intro _
      rcases reason with past | wrapped
      · exact .inl past
      · exact .inr (.inl wrapped)
    · intro _
      exact confined_nil u
  case isFalse accepted =>
    have noWrap : off + toU32 n < 2 ^ 32 := by
      by_contra wraps
      have wrapped : u32 (off + toU32 n) = off + toU32 n - 2 ^ 32 := by
        unfold u32
        omega
      omega
    have clipped : limit < u32 (off + toU32 n) := by
      rw [u32_of_lt noWrap]
      omega
    have shorter := bytesBefore_le ok off (limit - off)
    rw [copyBytes_touched, if_pos clipped, confined_span below (by omega)]
    constructor
    · intro fits
      exact .inr (.inr fits)
    · rintro (past | wrapped | fits)
      · omega
      · omega
      · exact fits

end Copy

/-! ## The calls -/

theorem consoleLoop_le (left : Nat) (keys : List UInt8) : (consoleLoop left keys).1 ≤ left := by
  induction left generalizing keys with
  | zero => exact le_refl 0
  | succ left ih =>
    cases keys with
    | nil => exact Nat.zero_le _
    | cons c rest =>
      have onwards := ih rest
      unfold consoleLoop
      split
      · exact Nat.zero_le _
      · split
        · exact Nat.le_add_left 1 left
        · exact Nat.succ_le_succ onwards

theorem toInt32_toU32 {n : Int} (range : -2 ^ 31 ≤ n ∧ n < 2 ^ 31) : toInt32 (toU32 n) = n := by
  by_cases negative : n < 0
  · exact (toU32_negative negative range.1).2.2
  · rw [toU32_of_nonneg (by omega) (by omega)]
    unfold toInt32
    split <;> omega

/-- The copy touches no more than the first `n` addresses; none for a negative
`n`. -/
def Short (p : Nat) (n : Int) (touched : List Nat) : Prop :=
  ∃ k ≤ n.toNat, touched = span p k

theorem Short.refused (p : Nat) (n : Int) : Short p n Outcome.refused.touched :=
  ⟨0, Nat.zero_le _, rfl⟩

/-- Behind a pointer that `argptr` accepted for `n` bytes, such a copy is
confined. -/
theorem Short.confined {u : UserProc} {i p : Nat} {n : Int}
    {touched : List Nat} (short : Short p n touched)
    (accepted : u.argptr i n = some p) (small : n < 2 ^ 31) : Confined u touched := by
  obtain ⟨k, atMost, rfl⟩ := short
  have below := (argptr_some accepted).1
  have top := u.szLe
  simp only [USERTOP] at top
  apply (confined_span below (by omega)).mpr
  by_cases nonneg : 0 ≤ n
  · have fits := argptr_fits accepted nonneg small
    omega
  · omega

/-- A read of `n` bytes is safe when `n` is not negative, when the file cannot
be read, when it is a pipe or a device, or when what `readi` makes of a
negative `n` fits. -/
def ReadFits (u : UserProc) (f : OpenFile) (n : Int) (p : Nat) : Prop :=
  0 ≤ n ∨ f.readable = false ∨ ∀ ip, f.kind = .inode ip → (∃ major, ip.type = .dev major) ∨
      CopyFits u ip.readOk ip.size ip.size f.off n p

/-- The same for a write, which `writei` clips to the largest file. -/
def WriteFits (u : UserProc) (f : OpenFile) (n : Int) (p : Nat) : Prop :=
  0 ≤ n ∨ f.writable = false ∨ ∀ ip, f.kind = .inode ip → (∃ major, ip.type = .dev major) ∨
      CopyFits u ip.room ip.size (MAXFILE * BSIZE) f.off n p

theorem readi_ordinary (ordinary : ¬ ∃ major, ip.type = .dev major) (env : Env) (p off n : Nat) :
    readi env ip p off n = inodeCopy ip.readOk ip.size ip.size
      (fun block => if ip.room block then some (-1) else none) p off n := by
  unfold readi
  split
  case h_1 major same => exact absurd ⟨major, same⟩ ordinary
  case h_2 => rfl

theorem writei_ordinary (ordinary : ¬ ∃ major, ip.type = .dev major) (p off n : Nat) :
    writei ip p off n = inodeCopy ip.room ip.size (MAXFILE * BSIZE) (fun _ => none) p off n := by
  unfold writei
  split
  case h_1 major same => exact absurd ⟨major, same⟩ ordinary
  case h_2 => rfl

theorem readi_dev_short {n : Int} (dev : ip.type = .dev major) (range : -2 ^ 31 ≤ n ∧ n < 2 ^ 31)
    (env : Env) (p off : Nat) : Short p n (readi env ip p off (toU32 n)).touched := by
  unfold readi
  rw [dev]
  dsimp only
  rw [toInt32_toU32 range]
  split
  · exact ⟨_, consoleLoop_le _ _, rfl⟩
  · exact Short.refused p n

theorem writei_dev_short {n : Int} (dev : ip.type = .dev major) (range : -2 ^ 31 ≤ n ∧ n < 2 ^ 31)
    (p off : Nat) : Short p n (writei ip p off (toU32 n)).touched := by
  unfold writei
  rw [dev]
  dsimp only
  rw [toInt32_toU32 range]
  split
  · exact ⟨_, le_refl _, rfl⟩
  · exact Short.refused p n

section Behind

variable {u : UserProc} {f : OpenFile} {i p : Nat} {n : Int}

/-- `fileread` and `filewrite` behind an accepted pointer. -/
theorem file_confined_iff (accepted : u.argptr i n = some p)
    (range : -2 ^ 31 ≤ n ∧ n < 2 ^ 31) (able : Bool) {pipe : Outcome}
    {inode : FileInode → Outcome} {ok : FileInode → Nat → Bool}
    {limit : FileInode → Nat} {broken : FileInode → Nat → Option Int}
    (small : ∀ ip, limit ip ≤ MAXFILE * BSIZE) (piped : Short p n pipe.touched)
    (device : ∀ ip major, ip.type = .dev major → Short p n (inode ip).touched)
    (ordinary : ∀ ip, (¬ ∃ major, ip.type = .dev major) → inode ip =
      inodeCopy (ok ip) ip.size (limit ip) (broken ip) p f.off (toU32 n)) :
    Confined u (if able then
        match f.kind with
        | .pipe => pipe
        | .inode ip => inode ip
      else .refused).touched ↔
      0 ≤ n ∨ able = false ∨ ∀ ip, f.kind = .inode ip → (∃ major, ip.type = .dev major) ∨
          CopyFits u (ok ip) ip.size (limit ip) f.off n p := by
  have safe : ∀ touched, Short p n touched → Confined u touched :=
    fun _ short => short.confined accepted range.2
  cases able with
  | false => exact iff_of_true (confined_nil u) (.inr (.inl rfl))
  | true =>
    cases kind : f.kind with
    | pipe => exact iff_of_true (safe _ piped) (.inr (.inr nofun))
    | inode ip =>
      by_cases dev : ∃ major, ip.type = .dev major
      · obtain ⟨major, isDev⟩ := dev
        refine iff_of_true (safe _ (device ip major isDev)) (.inr (.inr ?_))
        rintro _ ⟨⟩
        exact .inl ⟨major, isDev⟩
      · simp only [if_true]
        rw [ordinary ip dev]
        by_cases nonneg : 0 ≤ n
        · exact iff_of_true (safe _ (inodeCopy_nonneg nonneg range.2)) (.inl nonneg)
        · rw [inodeCopy_neg (argptr_some accepted).1 (by omega) range.1 (small ip) f.offLt]
          simp [nonneg, dev]

theorem fileread_confined_iff (accepted : u.argptr i n = some p)
    (range : -2 ^ 31 ≤ n ∧ n < 2 ^ 31) (env : Env) :
    Confined u (fileread env f p n).touched ↔ ReadFits u f n p := by
  apply file_confined_iff accepted range f.readable (fun ip => ip.sizeLe)
  case piped =>
    unfold piperead
    split
    · exact Short.refused p n
    · exact ⟨_, min_le_left _ _, rfl⟩
  case device => exact fun ip major dev => readi_dev_short dev range env p f.off
  case ordinary => exact fun ip dev => readi_ordinary dev env p f.off _

theorem filewrite_confined_iff (accepted : u.argptr i n = some p)
    (range : -2 ^ 31 ≤ n ∧ n < 2 ^ 31) (env : Env) :
    Confined u (filewrite env f p n).touched ↔ WriteFits u f n p := by
  apply file_confined_iff accepted range f.writable (fun _ => le_refl _)
  case piped =>
    unfold pipewrite
    split
    · exact ⟨_, le_refl _, rfl⟩
    case isFalse full => exact ⟨_, by omega, rfl⟩
  case device => exact fun ip major dev => writei_dev_short dev range p f.off
  case ordinary => exact fun ip dev => writei_ordinary dev p f.off _

end Behind

theorem bufferArgs_some {u : UserProc} {f : OpenFile} {n : Int} {p : Nat}
    (args : u.bufferArgs = some (f, n, p)) : u.argptr 1 n = some p ∧ -2 ^ 31 ≤ n ∧ n < 2 ^ 31 := by
  unfold UserProc.bufferArgs at args
  cases file : u.argfd 0 with
  | none => simp [file] at args
  | some g =>
    cases count : u.argint 2 with
    | none => simp [file, count] at args
    | some m =>
      cases pointer : u.argptr 1 m with
      | none => simp [file, count, pointer] at args
      | some q =>
        simp [file, count, pointer] at args
        obtain ⟨rfl, rfl, rfl⟩ := args
        exact ⟨pointer, argint_range count⟩

/-- For every process, stack, open file and environment: the addresses that
`sys_read` or `sys_write` touches lie inside the process exactly when the
arguments that passed the checks fit. -/
theorem sysRead_sysWrite_confined_iff (u : UserProc) (env : Env) :
    (Confined u (sysRead u env).touched ↔
      ∀ f n p, u.bufferArgs = some (f, n, p) → ReadFits u f n p) ∧
    (Confined u (sysWrite u env).touched ↔
      ∀ f n p, u.bufferArgs = some (f, n, p) → WriteFits u f n p) := by
  cases args : u.bufferArgs with
  | none =>
    simp only [sysRead, sysWrite, args]
    exact ⟨iff_of_true (confined_nil u) (by simp), iff_of_true (confined_nil u) (by simp)⟩
  | some values =>
    obtain ⟨f, n, p⟩ := values
    obtain ⟨accepted, range⟩ := bufferArgs_some args
    simp only [sysRead, sysWrite, args]
    rw [fileread_confined_iff accepted range, filewrite_confined_iff accepted range]
    simp

/-- A readable ordinary file of 100 bytes, at its start. -/
def hundredBytes : OpenFile where
  readable := true
  writable := false
  kind := .inode
    { type := .file
      size := 100
      sizeLe := by decide
      intact := fun _ => true
      room := fun _ => true }
  off := 0
  offLt := by decide

/-- A process of two pages that calls `read(0, (char*)8191, -1)`. -/
def readsMinusOne : UserProc where
  sz := 8192
  szLe := by decide
  esp := 4096
  mem := Bytes.put (fun _ => 0) 4100 (Bytes.le32 0 ++ Bytes.le32 8191 ++ Bytes.le32 0xffffffff)
  ofile := fun fd => if fd = 0 then some hundredBytes else none

/-- A machine on which nothing else happens. -/
def stillEnv : Env where
  pipeKilled := false
  pipeBytes := 0
  pipeRoom := 0
  keys := []

/-- The arguments pass the checks, and the kernel stores the whole file from
the last byte of the process on. -/
theorem readsMinusOne_not_confined : readsMinusOne.argptr 1 (-1) = some 8191 ∧
      (sysRead readsMinusOne stillEnv).result = some 100 ∧
      8192 ∈ (sysRead readsMinusOne stillEnv).touched ∧
      ¬ Confined readsMinusOne (sysRead readsMinusOne stillEnv).touched := by
  have fd : readsMinusOne.argfd 0 = some hundredBytes := rfl
  have count : readsMinusOne.argint 2 = some (-1) := by decide +kernel
  have pointer : readsMinusOne.argptr 1 (-1) = some 8191 := by decide +kernel
  have call : sysRead readsMinusOne stillEnv =
      inodeCopy (fun _ => true) 100 100 (fun _ => some (-1)) 8191 0 (toU32 (-1)) := by
    simp only [sysRead, UserProc.bufferArgs, fd, count]
    rfl
  have outcome : (inodeCopy (fun _ => true) 100 100 (fun _ => some (-1)) 8191 0
        (toU32 (-1))).result = some 100 ∧
      8192 ∈ (inodeCopy (fun _ => true) 100 100 (fun _ => some (-1)) 8191 0
        (toU32 (-1))).touched := by
    decide +kernel
  rw [call]
  refine ⟨pointer, outcome.1, outcome.2, ?_⟩
  intro confined
  have inside := confined 8192 outcome.2
  exact absurd inside (lt_irrefl _)

end Xv6
