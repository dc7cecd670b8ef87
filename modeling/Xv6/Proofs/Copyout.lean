/-
Purpose: What `copyout` does, byte by byte: it stores where the directory maps
  the addresses, and succeeds when every one of them is a user address.
-/
import Xv6.Proofs.UserPages

namespace Xv6

open Bytes PgDir PanicM
open List (length_cons)

/-- The frame that `uva2ka` finds behind a page. -/
def PgDir.userFrame (dir : PgDir) (v : Nat) : Option Nat :=
  if present (dir.pte v) && userPage (dir.pte v) && pteAddr (dir.pte v) ≠ 0
  then some (pteAddr (dir.pte v)) else none

/-- The physical address behind a mapped address. -/
def PgDir.phys (dir : PgDir) (va : Nat) : Nat :=
  pteAddr (dir.pte (vpn va)) + va % PGSIZE

/-- Store bytes through a directory. -/
def PgDir.store (dir : PgDir) (mem : Bytes.Store) (va : Nat) : List UInt8 → Bytes.Store
  | [] => mem
  | byte :: rest => dir.store (put mem (dir.phys va) [byte]) (va + 1) rest

section Store

variable {dir : PgDir} {mem : Bytes.Store} {va : Nat}
variable {a : Nat}

theorem PgDir.userFrame_some {v page : Nat} (there : dir.userFrame v = some page) :
    dir.frame v = some page ∧ page ≠ 0 := by
  unfold userFrame at there
  split at there
  · rename_i all
    simp only [Bool.and_eq_true, decide_eq_true_eq] at all
    cases there
    exact ⟨frame_eq_some.mpr ⟨all.1.1, rfl⟩, all.2⟩
  · cases there

theorem PgDir.store_append (xs ys : List UInt8) : dir.store mem va (xs ++ ys) =
      dir.store (dir.store mem va xs) (va + xs.length) ys := by
  induction xs generalizing mem va with
  | nil => rfl
  | cons byte rest ih =>
    rw [List.cons_append, store, ih, store, length_cons, Nat.add_assoc, Nat.add_comm 1]

theorem put_cons (mem : Bytes.Store) (dst : Nat) (byte : UInt8) (rest : List UInt8) :
    put (put mem dst [byte]) (dst + 1) rest = put mem dst (byte :: rest) := by
  funext a
  unfold put
  simp only [length_cons, List.length_nil]
  by_cases later : dst + 1 ≤ a ∧ a < dst + 1 + rest.length
  · have index : a - dst = (a - (dst + 1)) + 1 := by omega
    rw [if_pos later, if_pos (by omega), index, List.getD_cons_succ]
  · rw [if_neg later]
    by_cases first : a = dst
    · subst first
      rw [if_pos (by omega), if_pos (by omega), Nat.sub_self,
        List.getD_cons_zero, List.getD_cons_zero]
    · rw [if_neg (by omega), if_neg (by omega)]

/-- Within a page the bytes are stored in one run. -/
theorem PgDir.store_page (bytes : List UInt8) (fits : va % PGSIZE + bytes.length ≤ PGSIZE) :
    dir.store mem va bytes = put mem (dir.phys va) bytes := by
  induction bytes generalizing mem va with
  | nil =>
    funext a
    unfold put
    rw [if_neg (by simp only [List.length_nil]; omega)]
    rfl
  | cons byte rest ih =>
    rw [length_cons] at fits
    rw [store]
    cases rest with
    | nil => rfl
    | cons next rest =>
      rw [length_cons] at fits
      have page : vpn (va + 1) = vpn va := by
        unfold vpn
        simp only [PGSIZE] at *
        omega
      have offset : (va + 1) % PGSIZE = va % PGSIZE + 1 := by
        simp only [PGSIZE] at *
        omega
      have phys : dir.phys (va + 1) = dir.phys va + 1 := by
        unfold phys
        rw [page, offset, Nat.add_assoc]
      rw [ih (by
        rw [offset, length_cons]
        omega), phys, put_cons]

theorem PgDir.store_outside (bytes : List UInt8)
    (apart : ∀ i < bytes.length, dir.phys (va + i) ≠ a) : dir.store mem va bytes a = mem a := by
  induction bytes generalizing mem va with
  | nil => rfl
  | cons byte rest ih =>
    have here := apart 0 (by simp)
    rw [Nat.add_zero] at here
    rw [store, ih]
    · apply put_outside
      simp only [length_cons, List.length_nil]
      omega
    · intro i small
      have later := apart (i + 1) (by rw [length_cons]; omega)
      rwa [Nat.add_comm i 1, ← Nat.add_assoc] at later

/-- What was stored is there, where the addresses that lead to the same byte get
the same value. -/
theorem PgDir.store_inside (bytes : List UInt8) {i : Nat} (inside : i < bytes.length)
    (agree : ∀ j < bytes.length, dir.phys (va + j) = dir.phys (va + i) →
      bytes.getD j 0 = bytes.getD i 0) :
    dir.store mem va bytes (dir.phys (va + i)) = bytes.getD i 0 := by
  induction bytes using List.reverseRecOn with
  | nil => exact absurd inside (Nat.not_lt_zero i)
  | append_singleton front last ih =>
    have length : (front ++ [last]).length = front.length + 1 := List.length_append ..
    rw [store_append, store, store]
    by_cases here : dir.phys (va + front.length) = dir.phys (va + i)
    · -- the last byte is stored there
      rw [← agree front.length (by omega) here, ← here]
      have stored : put (dir.store mem va front) (dir.phys (va + front.length)) [last]
          (dir.phys (va + front.length) + 0) = [last].getD 0 0 := put_inside (by simp)
      simpa using stored
    · have early : i < front.length := by
        rcases Nat.lt_succ_iff_lt_or_eq.mp (length ▸ inside) with early | rfl
        · exact early
        · exact absurd rfl here
      have value : ∀ j < front.length, (front ++ [last]).getD j 0 = front.getD j 0 :=
        fun j small => List.getD_append _ _ _ _ small
      rw [put_outside (by simp only [List.length_singleton]; omega), value i early]
      refine ih early fun j small same => ?_
      rw [← value j small, ← value i early]
      exact agree j (by omega) same

/-- A mapped address. -/
def PgDir.Maps (dir : PgDir) (va : Nat) : Prop :=
  vpn va < userPages ∧ dir.frame (vpn va) ≠ none

theorem PgDir.Maps.frame (maps : dir.Maps va) : ∃ page,
    dir.frame (vpn va) = some page ∧ dir.phys va = page + va % PGSIZE := by
  obtain ⟨page, holds⟩ := Option.ne_none_iff_exists'.mp maps.2
  refine ⟨page, holds, ?_⟩
  unfold phys
  rw [(frame_eq_some.mp holds).2]

variable {img : Image} {s : Kernel} {d : Nat}

theorem Kernel.userByte_phys (maps : (s.dirs d).Maps va) :
    s.userByte d va = some (s.mem ((s.dirs d).phys va)) := by
  obtain ⟨page, holds, phys⟩ := maps.frame
  unfold Kernel.userByte
  rw [holds, phys, Option.map_some]

theorem UserDir.phys_inj (ok : UserDir img s d) {b : Nat}
    (first : (s.dirs d).Maps a) (second : (s.dirs d).Maps b)
    (same : (s.dirs d).phys a = (s.dirs d).phys b) : a = b := by
  obtain ⟨p, holds, phys⟩ := first.frame
  obtain ⟨q, holds', phys'⟩ := second.frame
  have aligned := (ok.page _ first.1 p holds).1.aligned
  have aligned' := (ok.page _ second.1 q holds').1.aligned
  rw [phys, phys'] at same
  have page : p = q := by
    simp only [PGSIZE] at *
    omega
  subst page
  have number := ok.distinct _ first.1 _ second.1 p holds holds'
  unfold vpn at number
  simp only [PGSIZE] at *
  omega

theorem UserDir.store_userByte (ok : UserDir img s d) {bytes : List UInt8}
    (maps : ∀ i < bytes.length, (s.dirs d).Maps (va + i)) (seen : (s.dirs d).Maps a) :
    (s.dirs d).store s.mem va bytes ((s.dirs d).phys a) =
      if va ≤ a ∧ a < va + bytes.length then bytes.getD (a - va) 0
      else s.mem ((s.dirs d).phys a) := by
  split
  · rename_i inside
    obtain ⟨i, rfl⟩ := Nat.exists_eq_add_of_le inside.1
    rw [Nat.add_sub_cancel_left]
    apply store_inside _ (by omega)
    intro j small same
    rw [Nat.add_left_cancel (ok.phys_inj (maps j small) seen same)]
  · rename_i outside
    apply store_outside
    intro i small same
    have number := ok.phys_inj (maps i small) seen same
    omega

end Store

/-! ## The loop -/

section Loop

variable {s : Kernel} {cur : Slot} {E : Panic → Prop} {d : Nat}
variable {Q : Option Nat → Kernel → Prop} {bytes : List UInt8}

theorem vpn_pgrounddown (va : Nat) : vpn (pgrounddown va) = vpn va := by
  unfold vpn pgrounddown
  simp only [PGSIZE]
  omega

theorem pdx_pgrounddown (va : Nat) : pdx (pgrounddown va) = pdx va := by
  unfold pdx pgrounddown
  simp only [PGSIZE]
  omega

theorem sub_pgrounddown (va : Nat) : va - pgrounddown va = va % PGSIZE := by
  unfold pgrounddown
  simp only [PGSIZE]
  omega

/-- Where there is no page table, the null pointer is read. -/
theorem wp_uva2ka {va : Nat} (null : (s.dirs d).pde (pdx va) = none →
      present ((s.dirs (s.proc cur).pgdir).pte 0) = false ∧ E .trap)
    (next : (s.dirs d).pde (pdx va) ≠ none → Q ((s.dirs d).userFrame (vpn va)) s) :
    wp (uva2ka cur d va) Q E s := by
  unfold uva2ka
  rw [wp_bind]
  refine wp_walkpgdir (fun table entry => ?_) (fun none _ => ?_)
    (fun _ impossible => nomatch impossible) (fun _ _ _ impossible => nomatch impossible)
  · have found := next (by rw [entry]; exact Option.some_ne_none table)
    simp only [readPte, wp_bind, wp_get, wp_pure]
    unfold userFrame at found
    split at found
    · rename_i all
      rw [if_pos all]
      exact found
    · rename_i none
      rw [if_neg none]
      exact found
  · obtain ⟨absent, trap⟩ := null none
    simp only [readNull, wp_bind, wp_get, absent]
    exact trap

theorem copyoutLoop_nil (cur : Slot) (d va fuel : Nat) :
    copyoutLoop cur d va [] fuel = pure true := by
  cases fuel <;> rfl

/-- The address has its page table and a page that `uva2ka` finds. -/
def PgDir.Reachable (dir : PgDir) (va : Nat) : Prop :=
  dir.pde (pdx va) ≠ none ∧ dir.userFrame (vpn va) ≠ none

/-- The loop of `copyout`, by induction on its rounds: it ends at the first
address that it does not reach. -/
theorem wp_copyoutLoop {Q : Bool → Kernel → Prop} (fuel : Nat)
    {va : Nat} (enough : bytes.length ≤ fuel)
    (fits : va + bytes.length ≤ 2 ^ 32)
    (null : ∀ k < bytes.length, (∀ i < k, (s.dirs d).Reachable (va + i)) →
      (s.dirs d).pde (pdx (va + k)) = none →
      present ((s.dirs (s.proc cur).pgdir).pte 0) = false ∧ E .trap)
    (done : (∀ i < bytes.length, (s.dirs d).Reachable (va + i)) →
      Q true { s with mem := (s.dirs d).store s.mem va bytes })
    (fail : ∀ k < bytes.length, (∀ i < k, (s.dirs d).Reachable (va + i)) →
      (s.dirs d).pde (pdx (va + k)) ≠ none → (s.dirs d).userFrame (vpn (va + k)) = none →
      Q false { s with mem := (s.dirs d).store s.mem va (bytes.take k) }) :
    wp (copyoutLoop cur d va bytes fuel) Q E s := by
  induction fuel generalizing va bytes s with
  | zero =>
    have empty : bytes = [] := List.eq_nil_of_length_eq_zero (by omega)
    subst empty
    exact done fun i impossible => absurd impossible (Nat.not_lt_zero i)
  | succ fuel ih =>
    by_cases empty : bytes = []
    · subst empty
      rw [copyoutLoop_nil]
      exact done fun i impossible => absurd impossible (Nat.not_lt_zero i)
    have some := List.length_pos_of_ne_nil empty
    have first : ∀ i < 0, (s.dirs d).Reachable (va + i) := fun i none =>
      absurd none (Nat.not_lt_zero i)
    rw [copyoutLoop, if_neg empty]
    dsimp only
    rw [wp_bind]
    refine wp_uva2ka (by rw [pdx_pgrounddown]; exact null 0 some first) ?_
    rw [vpn_pgrounddown, pdx_pgrounddown]
    intro table
    cases frame : (s.dirs d).userFrame (vpn va) with
    | none => exact fail 0 some first table frame
    | some pa0 =>
      -- the addresses of the page are reached as the first one is
      have inPage : ∀ i < PGSIZE - va % PGSIZE, (s.dirs d).Reachable (va + i) := by
        intro i inside
        have page : vpn (va + i) = vpn va := by
          unfold vpn
          simp only [PGSIZE] at *
          omega
        have entry : pdx (va + i) = pdx va := by
          unfold pdx
          simp only [PGSIZE] at *
          omega
        unfold Reachable
        rw [page, entry, frame]
        exact ⟨table, Option.some_ne_none _⟩
      have phys : pa0 + va % PGSIZE = (s.dirs d).phys va := by
        have holds := (frame_eq_some.mp (userFrame_some frame).1).2
        rw [← holds]
        rfl
      dsimp only
      rw [wp_bind, wp_modify, sub_pgrounddown, phys]
      by_cases last : bytes.length ≤ PGSIZE - va % PGSIZE
      · have whole : min (PGSIZE - va % PGSIZE) bytes.length =
            bytes.length := Nat.min_eq_right last
        have low : va % PGSIZE < PGSIZE := Nat.mod_lt va (by decide)
        rw [whole, List.take_length, List.drop_length, copyoutLoop_nil,
          wp_pure, ← store_page bytes (by omega)]
        exact done fun i inside => inPage i (inside.trans_le last)
      · have part : min (PGSIZE - va % PGSIZE) bytes.length =
            PGSIZE - va % PGSIZE := Nat.min_eq_left (by omega)
        have low : va % PGSIZE < PGSIZE := Nat.mod_lt va (by decide)
        generalize chunk : PGSIZE - va % PGSIZE = n at *
        have pos : 0 < n := by omega
        have next : u32 (pgrounddown va + PGSIZE) = va + n := by
          unfold u32 pgrounddown
          simp only [PGSIZE] at *
          omega
        have length : (bytes.take n).length = n := by
          rw [List.length_take]
          omega
        have rest : (bytes.drop n).length = bytes.length - n := List.length_drop ..
        have stored : (s.dirs d).store s.mem va (bytes.take n) =
            put s.mem ((s.dirs d).phys va) (bytes.take n) :=
          store_page (bytes.take n) (by rw [length]; omega)
        have split : ∀ xs, (s.dirs d).store ((s.dirs d).store s.mem va (bytes.take n)) (va + n) xs =
            (s.dirs d).store s.mem va (bytes.take n ++ xs) := by
          intro xs
          rw [store_append, length]
        have ahead : ∀ m, (∀ i < m, (s.dirs d).Reachable (va + n + i)) →
            ∀ i < n + m, (s.dirs d).Reachable (va + i) := by
          intro m all i inside
          by_cases early : i < n
          · exact inPage i early
          · have later := all (i - n) (by omega)
            rwa [Nat.add_assoc, Nat.add_sub_cancel' (by omega)] at later
        rw [part, next, ← stored]
        refine ih (by omega) (by omega) ?_ ?_ ?_
        · intro k inside front
          rw [rest] at inside
          have later := null (n + k) (by omega) (ahead k front)
          rwa [← Nat.add_assoc] at later
        · intro all
          dsimp only at all ⊢
          rw [split, List.take_append_drop]
          exact done fun i inside => ahead _ all i (by rw [rest]; omega)
        · intro k inside front table missing
          rw [rest] at inside
          dsimp only at table missing ⊢
          rw [split, ← List.take_add]
          apply fail (n + k) (by omega) (ahead k front)
          · rwa [← Nat.add_assoc]
          · rwa [← Nat.add_assoc]

/-- Where there is no page table, the null pointer is read: a trap, or any
answer. -/
theorem wp_uva2ka_any {va : Nat}
    (trap : present ((s.dirs (s.proc cur).pgdir).pte 0) = false → E .trap)
    (next : ∀ result, Q result s) : wp (uva2ka cur d va) Q E s := by
  unfold uva2ka
  rw [wp_bind]
  refine wp_walkpgdir (fun _ _ => ?_) (fun _ _ => ?_) (fun _ impossible => nomatch impossible)
    (fun _ _ _ impossible => nomatch impossible)
  · simp only [readPte, wp_bind, wp_get, wp_pure]
    split
    · exact next _
    · exact next _
  · simp only [readNull, wp_bind, wp_get]
    split
    · simp only [wp_pure]
      split
      · exact next _
      · exact next _
    · rename_i absent
      exact trap (Bool.eq_false_iff.mpr absent)

/-- Bytes that reach the last page of the address space, which belongs to the
kernel, are not copied. -/
theorem wp_copyoutLoop_wrapped {Q : Bool → Kernel → Prop} (fuel : Nat) {va : Nat}
    (enough : bytes.length ≤ fuel) (filled : bytes ≠ []) (low : va < 2 ^ 32)
    (reach : 0xFFFFF000 < va + bytes.length)
    (table : ∃ table, (s.dirs d).pde 1023 = some table)
    (closed : (s.dirs d).userFrame 0xFFFFF = none)
    (trap : present ((s.dirs (s.proc cur).pgdir).pte 0) = false → E .trap)
    (next : ∀ mem, Q false { s with mem := mem }) :
    wp (copyoutLoop cur d va bytes fuel) Q E s := by
  induction fuel generalizing va bytes s with
  | zero => exact absurd (List.eq_nil_of_length_eq_zero (by omega)) filled
  | succ fuel ih =>
    rw [copyoutLoop, if_neg filled]
    dsimp only
    rw [wp_bind]
    by_cases last : vpn va = 0xFFFFF
    · have entry : pdx va = 1023 := by
        unfold vpn at last
        unfold pdx
        simp only [PGSIZE] at *
        omega
      refine wp_uva2ka (fun none => ?_) fun _ => ?_
      · rw [pdx_pgrounddown, entry] at none
        exact absurd none (Option.ne_none_iff_exists'.mpr table)
      · rw [vpn_pgrounddown, last, closed]
        exact next s.mem
    · refine wp_uva2ka_any trap fun result => ?_
      cases result with
      | none => exact next s.mem
      | some pa0 =>
        dsimp only
        rw [wp_bind, wp_modify, sub_pgrounddown]
        have part : min (PGSIZE - va % PGSIZE) bytes.length = PGSIZE - va % PGSIZE := by
          unfold vpn at last
          simp only [PGSIZE] at *
          omega
        have after : u32 (pgrounddown va + PGSIZE) = va + (PGSIZE - va % PGSIZE) := by
          unfold vpn at last
          unfold u32 pgrounddown
          simp only [PGSIZE] at *
          omega
        have chunk : va + (PGSIZE - va % PGSIZE) ≤ 0xFFFFF000 := by
          unfold vpn at last
          simp only [PGSIZE] at *
          omega
        have length : (bytes.drop (PGSIZE - va % PGSIZE)).length =
            bytes.length - (PGSIZE - va % PGSIZE) := List.length_drop ..
        have pos : 0 < PGSIZE - va % PGSIZE := Nat.sub_pos_of_lt (Nat.mod_lt va (by decide))
        rw [part, after]
        refine ih (by omega) ?_ (by omega) (by omega) table closed trap fun mem => next mem
        intro none
        rw [none, List.length_nil] at length
        omega

end Loop

end Xv6
