/-
Purpose: Path resolution is lookup element by element: the elements that
  skipelem finds in a string, and namex as a fold over them.
-/
import Xv6.Fs.Dir

namespace Xv6.Fs

open Bytes

variable {elem path : List UInt8}

/-! ## Scanning a string in memory -/

/-- `while(test(*path)) path++;` -/
def skipWhile (mem : Bytes.Store) (test : UInt8 → Bool) : (fuel : Nat) → Nat → Option Nat
  | 0, _ => none
  | fuel + 1, path =>
    if test (mem path) then skipWhile mem test fuel (path + 1)
    else some path

/-- `skipelem` with its pointers: the new `path`, null at the end, and the
buffer `name`.  An element of `DIRSIZ` bytes and more gets no NUL. -/
def skipelemAt (mem : Bytes.Store) (fuel path : Nat) (name : Bytes.Store) :
    Option (Option Nat × Bytes.Store) := do
  let s ← skipWhile mem (· == SLASH) fuel path
  if mem s = 0 then
    pure (none, name)
  else do
    let stop ← skipWhile mem (fun byte => byte != SLASH && byte != 0) fuel s
    let len := stop - s
    let name := if DIRSIZ ≤ len then copy name 0 mem s DIRSIZ
      else put (copy name 0 mem s len) len [0]
    let next ← skipWhile mem (· == SLASH) fuel stop
    pure (some next, name)

/-- The string at address `p`, and the NUL after it. -/
structure CString (mem : Bytes.Store) (p : Nat) (str : List UInt8) : Prop where
  bytes : ∀ i ≤ str.length, mem (p + i) = str.getD i 0
  free : 0 ∉ str

/-- A buffer of `DIRSIZ` bytes holds a name, and a NUL if there is room. -/
structure Holds (buffer : Bytes.Store) (name : List UInt8) : Prop where
  bytes : ∀ i < DIRSIZ, i ≤ name.length → buffer i = name.getD i 0
  short : name.length ≤ DIRSIZ

section Scan

variable {mem : Bytes.Store} {p fuel : Nat} {str : List UInt8}

theorem CString.head (string : CString mem p str) : mem p = str.getD 0 0 :=
  string.bytes 0 (Nat.zero_le _)

/-- The loop stops where the bytes that meet the test end. -/
theorem CString.skipWhile (test : UInt8 → Bool) (string : CString mem p str)
    (enough : str.length < fuel) (stops : test 0 = false) :
    skipWhile mem test fuel p = some (p + (str.takeWhile test).length) ∧
      CString mem (p + (str.takeWhile test).length) (str.dropWhile test) := by
  induction str generalizing p fuel with
  | nil =>
    obtain ⟨fuel, rfl⟩ := Nat.exists_eq_add_of_lt enough
    rw [Fs.skipWhile, string.head, List.getD_nil, stops]
    exact ⟨rfl, string⟩
  | cons byte rest ih =>
    obtain ⟨fuel, rfl⟩ := Nat.exists_eq_succ_of_ne_zero (Nat.ne_zero_of_lt enough)
    have tail : CString mem (p + 1) rest := by
      refine ⟨fun i inside => ?_, fun zero => string.free (.tail _ zero)⟩
      have next := string.bytes (i + 1) (Nat.succ_le_succ inside)
      rwa [List.getD_cons_succ, Nat.add_comm i, ← Nat.add_assoc] at next
    rw [Fs.skipWhile, string.head, List.getD_cons_zero]
    by_cases meets : test byte = true
    · obtain ⟨found, after⟩ := ih tail (Nat.lt_of_succ_lt_succ enough)
      have place : p + 1 + (rest.takeWhile test).length =
          p + ((byte :: rest).takeWhile test).length := by
        rw [List.takeWhile_cons_of_pos meets, List.length_cons]
        omega
      rw [if_pos meets, found, List.dropWhile_cons_of_pos meets, ← place]
      exact ⟨rfl, after⟩
    · rw [if_neg meets, List.takeWhile_cons_of_neg meets, List.dropWhile_cons_of_neg meets]
      exact ⟨rfl, string⟩

theorem CString.head_eq_zero (string : CString mem p str) : mem p = 0 ↔ str = [] := by
  rw [string.head]
  cases str with
  | nil => exact iff_of_true rfl rfl
  | cons byte rest =>
    exact iff_of_false (fun zero => string.free (zero ▸ List.mem_cons_self)) nofun

theorem skipName_eq (free : 0 ∉ str) :
    str.takeWhile (fun byte => byte != SLASH && byte != 0) = str.takeWhile (· != SLASH) ∧
      str.dropWhile (fun byte => byte != SLASH && byte != 0) = str.dropWhile (· != SLASH) := by
  induction str with
  | nil => exact ⟨rfl, rfl⟩
  | cons byte rest ih =>
    have some : byte ≠ 0 := fun zero => free (zero ▸ List.mem_cons_self)
    obtain ⟨taken, dropped⟩ := ih fun zero => free (.tail _ zero)
    simp only [List.takeWhile_cons, List.dropWhile_cons, taken, dropped]
    simp [some]

/-- The two ways to copy an element, which starts the string, to the
buffer. -/
theorem CString.holds_copy (string : CString mem p str) (name : Bytes.Store)
    {elem rest : List UInt8} (parts : elem ++ rest = str) :
    Holds (if DIRSIZ ≤ elem.length then copy name 0 mem p DIRSIZ
      else put (copy name 0 mem p elem.length) elem.length [0])
      (elem.take DIRSIZ) := by
  have byte : ∀ i < elem.length, mem (p + i) = elem.getD i 0 := by
    intro i inside
    rw [string.bytes i (by rw [← parts, List.length_append]; omega), ← parts,
      List.getD_append _ _ _ _ inside]
  have short := List.length_take_le DIRSIZ elem
  refine ⟨fun i small inside => ?_, short⟩
  rw [List.length_take] at inside
  by_cases long : DIRSIZ ≤ elem.length
  · rw [if_pos long, copy, if_pos (by omega), Nat.sub_zero, byte i (by omega)]
    simp [small]
  · rw [if_neg long, List.take_of_length_le (by omega)]
    by_cases last : i = elem.length
    · subst last
      rw [put, if_pos (by simp), List.getD_eq_default _ _ le_rfl, Nat.sub_self]
      rfl
    · rw [put_outside (by omega), copy, if_pos (by omega), Nat.sub_zero, byte i (by omega)]

theorem CString.skipelemAt (string : CString mem p str) (enough : str.length < fuel) :
    match skipelem str with
    | none => ∀ name, skipelemAt mem fuel p name = some (none, name)
    | some (rest, elem) => ∃ next, CString mem next rest ∧ ∀ name, ∃ buffer,
        skipelemAt mem fuel p name = some (some next, buffer) ∧ Holds buffer elem := by
  obtain ⟨found, start⟩ := string.skipWhile (· == SLASH) enough rfl
  unfold skipelem Fs.skipelemAt
  simp only [found, Option.bind_eq_bind, Option.bind_some]
  generalize p + (str.takeWhile (· == SLASH)).length = s at start ⊢
  have shorter := (List.dropWhile_sublist (· == SLASH) (l := str)).length_le
  generalize str.dropWhile (· == SLASH) = path at start shorter ⊢
  cases path with
  | nil =>
    intro name
    rw [if_pos (start.head_eq_zero.mpr rfl)]
    rfl
  | cons byte tail =>
    have fits : (byte :: tail).length < fuel := by omega
    obtain ⟨stopped, after⟩ := start.skipWhile (fun byte => byte != SLASH && byte != 0) fits rfl
    obtain ⟨taken, dropped⟩ := skipName_eq start.free
    rw [taken] at stopped after
    rw [dropped] at after
    have parts := List.takeWhile_append_dropWhile (p := (· != SLASH)) (l := byte :: tail)
    have total := congrArg List.length parts
    rw [List.length_append] at total
    have fits' : ((byte :: tail).dropWhile (· != SLASH)).length < fuel := by
      omega
    obtain ⟨ended, last⟩ := after.skipWhile (· == SLASH) fits' rfl
    refine ⟨_, last, fun name => ⟨_, ?_, start.holds_copy name parts⟩⟩
    rw [if_neg (fun zero => nomatch start.head_eq_zero.mp zero), stopped,
      Option.bind_some, ended, Option.bind_some, Nat.add_sub_cancel_left]
    rfl

end Scan

/-! ## The elements of a path -/

/-- The substrings between slashes that are not empty, cut to `DIRSIZ`
bytes. -/
def elements (path : List UInt8) : List (List UInt8) :=
  ((path.splitOn SLASH).filter (· ≠ [])).map (·.take DIRSIZ)

theorem elements_append (path : List UInt8) (plain : ∀ byte ∈ elem, (byte == SLASH) = false) :
    elements (elem ++ SLASH :: path) = if elem = [] then elements path
      else elem.take DIRSIZ :: elements path := by
  have split := List.splitOnP_append_cons_of_forall_mem plain SLASH rfl path
  unfold elements List.splitOn
  rw [split]
  by_cases empty : elem = []
  · rw [if_pos empty, List.filter_cons_of_neg (by simp [empty])]
  · rw [if_neg empty, List.filter_cons_of_pos (by simp [empty]), List.map_cons]

theorem elements_single (some : elem ≠ []) (plain : ∀ byte ∈ elem, (byte == SLASH) = false) :
    elements elem = [elem.take DIRSIZ] := by
  unfold elements List.splitOn
  rw [List.splitOnP_eq_singleton plain, List.filter_cons_of_pos (by simp [some])]
  rfl

theorem elements_dropWhile (path : List UInt8) :
    elements (path.dropWhile (· == SLASH)) = elements path := by
  induction path with
  | nil => rfl
  | cons byte rest ih =>
    by_cases slash : byte = SLASH
    · subst slash
      have first := @elements_append [] rest nofun
      rw [List.dropWhile_cons_of_pos rfl, ih]
      exact first.symm
    · rw [List.dropWhile_cons_of_neg (by simpa using slash)]

/-- `skipelem` takes the elements one by one. -/
theorem elements_skipelem (path : List UInt8) : match skipelem path with
    | none => elements path = []
    | some (rest, elem) => elements path = elem :: elements rest ∧ rest.length < path.length := by
  have shorter := (List.dropWhile_sublist (· == SLASH) (l := path)).length_le
  rw [← elements_dropWhile path]
  have head := List.head?_dropWhile_not (· == SLASH) path
  unfold skipelem
  generalize path.dropWhile (· == SLASH) = start at *
  cases start with
  | nil => rfl
  | cons byte tail =>
    have first : (byte != SLASH) = true := by simpa using head
    dsimp only
    have parts := List.takeWhile_append_dropWhile (p := (· != SLASH)) (l := byte :: tail)
    have total := congrArg List.length parts
    have last := (List.dropWhile_sublist (· == SLASH)
      (l := (byte :: tail).dropWhile (· != SLASH))).length_le
    have some : (byte :: tail).takeWhile (· != SLASH) ≠ [] := by
      simp [first]
    have plain : ∀ other ∈ (byte :: tail).takeWhile (· != SLASH), (other == SLASH) = false := by
      intro other member
      simpa using List.all_eq_true.mp List.all_takeWhile other member
    have after := List.head?_dropWhile_not (· != SLASH) (byte :: tail)
    have pos := List.length_pos_iff.mpr some
    rw [List.length_append] at total
    refine ⟨?_, by omega⟩
    rw [elements_dropWhile]
    generalize (byte :: tail).takeWhile (· != SLASH) = elem at *
    generalize (byte :: tail).dropWhile (· != SLASH) = rest at *
    rw [← parts]
    cases rest with
    | nil =>
      rw [List.append_nil, elements_single some plain]
      rfl
    | cons slash path =>
      have same : slash = SLASH := by simpa using after
      have skipped := @elements_append [] path nofun
      rw [same, elements_append path plain, if_neg some]
      exact congrArg (elem.take DIRSIZ :: ·) skipped.symm

/-- A path element that `skipelem` takes whole. -/
def IsElement (name : List UInt8) : Prop :=
  name ≠ [] ∧ SLASH ∉ name ∧ name.length ≤ DIRSIZ

theorem elements_join {names : List (List UInt8)} (whole : ∀ name ∈ names, IsElement name) :
    elements (names.flatMap (SLASH :: ·)) = names := by
  induction names with
  | nil => rfl
  | cons name names ih =>
    obtain ⟨some, noSlash, short⟩ := whole name List.mem_cons_self
    have plain : ∀ byte ∈ name, (byte == SLASH) = false := by
      intro byte member
      exact beq_false_of_ne fun slash => noSlash (slash ▸ member)
    have rest := ih fun other member => whole other (.tail _ member)
    rw [List.flatMap_cons, List.cons_append]
    refine (@elements_append [] _ nofun).trans ?_
    rw [if_pos rfl]
    cases names with
    | nil =>
      rw [List.flatMap_nil, List.append_nil, elements_single some plain,
        List.take_of_length_le short]
    | cons next names =>
      rw [List.flatMap_cons, List.cons_append] at rest ⊢
      rw [elements_append _ plain, if_neg some, List.take_of_length_le short]
      exact congrArg (name :: ·) ((@elements_append [] _ nofun).symm.trans rest)

theorem skipelem_none (spells : elements path = []) : skipelem path = none := by
  have first := elements_skipelem path
  cases taken : skipelem path with
  | none => rfl
  | some found =>
    rw [taken, spells] at first
    cases first.1

theorem skipelem_some {name : List UInt8} {names : List (List UInt8)}
    (spells : elements path = name :: names) :
    ∃ rest, skipelem path = some (rest, name) ∧ elements rest = names := by
  have first := elements_skipelem path
  cases taken : skipelem path with
  | none =>
    rw [taken, spells] at first
    cases first
  | some found =>
    rw [taken, spells] at first
    obtain ⟨rfl, rfl⟩ := List.cons.inj first.1
    exact ⟨found.1, rfl, rfl⟩

/-- Calling `skipelem` again and again on the string at `p` gives these names
and ends; what was in the buffer does not matter. -/
inductive Scans (mem : Bytes.Store) (fuel : Nat) : Nat → List (List UInt8) → Prop where
  | done {p : Nat} (ends : ∀ name, skipelemAt mem fuel p name = some (none, name)) :
      Scans mem fuel p []
  | next {p q : Nat} {elem : List UInt8} {names : List (List UInt8)}
      (takes : ∀ name, ∃ buffer, skipelemAt mem fuel p name =
        some (some q, buffer) ∧ Holds buffer elem)
      (rest : Scans mem fuel q names) : Scans mem fuel p (elem :: names)

theorem CString.scans {mem : Bytes.Store} {p fuel : Nat}
    (string : CString mem p path) (enough : path.length < fuel) :
    Scans mem fuel p (elements path) := by
  induction size : path.length using Nat.strongRecOn generalizing p path with
  | ind n ih =>
    have step := string.skipelemAt enough
    have first := elements_skipelem path
    cases taken : skipelem path with
    | none =>
      rw [taken] at step first
      rw [first]
      exact .done step
    | some found =>
      obtain ⟨rest, elem⟩ := found
      rw [taken] at step first
      obtain ⟨next, after, takes⟩ := step
      rw [first.1]
      exact .next takes (ih rest.length (size ▸ first.2) after (first.2.trans enough) rfl)

/-! ## The fold -/

/-- One lookup: from a directory to the inode that the name leads to. -/
def descend (ip : InodePtr) (name : List UInt8) : FM (Option InodePtr) := do
  ilock ip
  let s ← get
  if (s.icache ip).type ≠ T_DIR then do
    iunlockput ip
    pure none
  else do
    match ← dirlookup ip name with
    | none => do
        iunlockput ip
        pure none
    | some (next, _) => do
        iunlockput ip
        pure (some next)

/-- The lookups one after the other, up to the first that fails. -/
def follow : InodePtr → List (List UInt8) → FM (Option InodePtr)
  | ip, [] => pure (some ip)
  | ip, name :: names => do
      match ← descend ip name with
      | none => pure none
      | some next => follow next names

/-- The inode is handed to the caller if it is a directory. -/
def keepDir (name : List UInt8) (ip : InodePtr) : FM (Option (InodePtr × List UInt8)) := do
  ilock ip
  let s ← get
  if (s.icache ip).type ≠ T_DIR then do
    iunlockput ip
    pure none
  else do
    iunlock ip
    pure (some (ip, name))

/-- Where the lookup of a path starts. -/
def startOf (cwd : InodePtr) (path : List UInt8) : FM InodePtr :=
  if path.head? = some SLASH then iget ROOTINO else do
    idup cwd
    pure cwd

/-- `nameiparent` from a given inode on. -/
def followParent (ip : InodePtr) (names : List (List UInt8)) :
    FM (Option (InodePtr × List UInt8)) :=
  match names.getLast? with
  | none => do
      iput ip
      pure none
  | some last => do
      match ← follow ip names.dropLast with
      | none => pure none
      | some dp => keepDir last dp

/-- A round of `namex`, if `nameiparent` does not stop there, is one lookup. -/
theorem namexLoop_descend {parent : Bool} {rest : List UInt8}
    (taken : skipelem path = some (rest, elem)) (onwards : ¬ (parent ∧ rest = []))
    (fuel : Nat) (ip : InodePtr) (name : List UInt8) :
    namexLoop parent (fuel + 1) ip path name = descend ip elem >>= fun looked =>
      match looked with
      | none => pure none
      | some next => namexLoop parent fuel next rest elem := by
  rw [namexLoop, taken, descend]
  simp only [bind_assoc]
  refine bind_congr fun _ => bind_congr fun s => ?_
  by_cases dir : (s.icache ip).type ≠ T_DIR
  · rw [if_pos dir, if_pos dir]
    simp only [bind_assoc, pure_bind]
  · rw [if_neg dir, if_neg dir, if_neg onwards, bind_assoc]
    refine bind_congr fun looked => ?_
    cases looked with
    | none | some => simp only [bind_assoc, pure_bind]

theorem namexLoop_follow (fuel : Nat)
    (enough : path.length < fuel) (ip : InodePtr) (name : List UInt8) :
    (namexLoop false fuel ip path name >>= fun found =>
      pure (found.map Prod.fst)) = follow ip (elements path) := by
  induction fuel generalizing path ip name with
  | zero => exact absurd enough (Nat.not_lt_zero _)
  | succ fuel ih =>
    have first := elements_skipelem path
    cases taken : skipelem path with
    | none =>
      rw [taken] at first
      rw [first, namexLoop, taken]
      rfl
    | some found =>
      obtain ⟨rest, elem⟩ := found
      rw [taken] at first
      rw [first.1, follow, namexLoop_descend taken (Bool.false_ne_true ·.1), bind_assoc]
      refine bind_congr fun looked => ?_
      cases looked with
      | none => rfl
      | some next => exact ih (by omega) next elem

theorem skipelem_last {rest : List UInt8} (taken : skipelem path = some (rest, elem)) :
    elements rest = [] ↔ rest = [] := by
  unfold skipelem at taken
  split at taken
  · cases taken
  · cases taken
    have head := List.head?_dropWhile_not (· == SLASH)
      ((path.dropWhile (· == SLASH)).dropWhile (· != SLASH))
    generalize ((path.dropWhile (· == SLASH)).dropWhile
      (· != SLASH)).dropWhile (· == SLASH) = rest at *
    cases rest with
    | nil => exact iff_of_true rfl rfl
    | cons byte tail =>
      have plain : ¬ (byte == SLASH) = true := by simpa using head
      have first := elements_skipelem (byte :: tail)
      unfold skipelem at first
      rw [List.dropWhile_cons_of_neg (p := (· == SLASH)) plain] at first
      dsimp only at first
      rw [first.1]
      exact iff_of_false nofun nofun

theorem namexLoop_followParent (fuel : Nat)
    (enough : path.length < fuel) (ip : InodePtr) (name : List UInt8) :
    namexLoop true fuel ip path name = followParent ip (elements path) := by
  induction fuel generalizing path ip name with
  | zero => exact absurd enough (Nat.not_lt_zero _)
  | succ fuel ih =>
    have first := elements_skipelem path
    cases taken : skipelem path with
    | none =>
      rw [taken] at first
      rw [first, namexLoop, taken]
      rfl
    | some found =>
      obtain ⟨rest, elem⟩ := found
      rw [taken] at first
      have last := skipelem_last taken
      rw [first.1]
      by_cases ends : rest = []
      · rw [last.mpr ends, namexLoop, taken]
        simp only [ends, and_self, if_true]
        rfl
      · obtain ⟨next, names, more⟩ := List.exists_cons_of_ne_nil (fun none => ends (last.mp none))
        rw [followParent, more, List.getLast?_cons_cons, List.dropLast_cons_cons, ← more]
        cases final : (elements rest).getLast? with
        | none =>
          rw [more, List.getLast?_eq_none_iff] at final
          cases final
        | some word =>
          dsimp only
          rw [follow, bind_assoc, namexLoop_descend taken (ends ·.2)]
          refine bind_congr fun looked => ?_
          cases looked with
          | none => rfl
          | some child =>
            dsimp only
            rw [ih (by omega) child elem, followParent, final]

theorem namex_start (cwd : InodePtr) (path : List UInt8) (parent : Bool) :
    namex cwd path parent = startOf cwd path >>= fun ip =>
      namexLoop parent (path.length + 1) ip path [] := by
  unfold namex startOf
  split
  · rfl
  · rw [bind_assoc]

/-- For every string in memory, calling `skipelem` again and again gives the
substrings between its slashes, cut to `DIRSIZ` bytes, and ends.  In every
state, `namei` is the fold of the lookups over them, from the root if the path
starts with a slash and from `cwd` otherwise; and `nameiparent` is the fold
over all but the last, which it returns with the inode if that is a directory;
without any element it gives up the inode it started from. -/
theorem path_resolution (cwd : InodePtr) (path : List UInt8) :
    (∀ mem p fuel, CString mem p path → path.length < fuel → Scans mem fuel p (elements path)) ∧
    namei cwd path = (startOf cwd path >>= fun ip => follow ip (elements path)) ∧
    nameiparent cwd path = (startOf cwd path >>= fun ip => followParent ip (elements path)) := by
  refine ⟨fun mem p fuel string enough => string.scans enough, ?_, ?_⟩
  · rw [namei, namex_start, bind_assoc]
    exact bind_congr fun ip => namexLoop_follow _ (Nat.lt_succ_self _) ip []
  · rw [nameiparent, namex_start]
    exact bind_congr fun ip =>
      namexLoop_followParent _ (Nat.lt_succ_self _) ip []

/-- Slashes in front, between and after; the last element has 15 bytes. -/
example : elements ("//ab///c/.long-file-name/".toUTF8.toList) =
    ["ab", "c", ".long-file-nam"].map (·.toUTF8.toList) := by
  decide +kernel

end Xv6.Fs
