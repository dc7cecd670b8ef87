/-
Purpose: What grep writes for the chunks that its reads deliver, and when that is exactly the
  matching lines.
-/
import Xv6.User.Grep

namespace Xv6.Grep

open Bytes
open Function (update update_of_ne update_idem update_eq_self_iff)
open List (length_append)

variable {out lines : List (List UInt8)} {pattern : List UInt8}

/-! ## Contents of the buffer -/

section Contents

variable {buf buf' : Bytes.Store} {p n : Nat} {xs ys : List UInt8}

theorem slice_congr (same : ∀ i, p ≤ i → i < p + n → buf' i = buf i) :
    slice buf' p n = slice buf p n := by
  refine List.map_congr_left fun i inside => ?_
  have small := List.mem_range.mp inside
  exact same _ (by omega) (by omega)

theorem slice_append_iff : slice buf p (xs ++ ys).length = xs ++ ys ↔
    slice buf p xs.length = xs ∧ slice buf (p + xs.length) ys.length = ys := by
  rw [length_append, slice_add]
  constructor
  · exact fun same => List.append_inj same (by simp [slice])
  · rintro ⟨one, two⟩
    rw [one, two]

theorem slice_one (x : UInt8) : slice buf p 1 = [x] ↔ buf p = x := by
  simp [slice]

theorem put_one (x : UInt8) : put buf p [x] = update buf p x := by
  funext i
  by_cases here : i = p
  · simp [put, here]
  · rw [update_of_ne here, put_outside (by rw [List.length_singleton]; omega)]

theorem slice_put : slice (put buf p xs) p xs.length = xs := by
  apply List.ext_getElem
  · simp [slice]
  · intro i small inside
    simp [slice, put_inside inside, inside]

theorem put_slice (dst : Nat) : put buf dst (slice buf' p n) = copy buf dst buf' p n := by
  funext i
  unfold put copy slice
  rw [List.length_map, List.length_range]
  refine ite_congr rfl (fun inside => ?_) fun _ => rfl
  rw [List.getD_eq_getElem?_getD, List.getElem?_map, List.getElem?_range (by omega)]
  rfl

theorem put_self (held : slice buf p xs.length = xs) : put buf p xs = buf := by
  rw [← held, put_slice]
  funext i
  unfold copy
  split_ifs with inside
  · rw [Nat.add_sub_cancel' inside.1]
  · rfl

theorem put_append : put buf p (xs ++ ys) = put (put buf p xs) (p + xs.length) ys := by
  funext i
  unfold put
  rw [length_append]
  by_cases first : i - p < xs.length
  · rw [List.getD_append _ _ _ _ first]
    split_ifs <;> first | rfl | omega
  · rw [List.getD_append_right _ _ _ _ (Nat.le_of_not_lt first), Nat.sub_sub]
    split_ifs <;> first | rfl | omega

end Contents

/-- The bytes of newline-terminated lines. -/
def text (lines : List (List UInt8)) : List UInt8 := (lines.map (· ++ [NEWLINE])).flatten

/-- A stretch that `strchr` passes over. -/
def Plain (xs : List UInt8) : Prop := NEWLINE ∉ xs ∧ 0 ∉ xs

/-- What grep has to write for the lines. -/
def wanted (pattern : List UInt8) (lines : List (List UInt8)) : List (List UInt8) :=
  (lines.filter (matchRe pattern)).map (· ++ [NEWLINE])

/-- The lines as the inner loop leaves them: the newline of a line that does not match stays a
NUL. -/
def left (pattern : List UInt8) (lines : List (List UInt8)) : List UInt8 :=
  (lines.map fun line => line ++ [if matchRe pattern line then NEWLINE else 0]).flatten

theorem length_left : (left pattern lines).length = (text lines).length := by
  simp [left, text, Function.comp_def]

theorem text_cons (line : List UInt8) (lines : List (List UInt8)) :
    text (line :: lines) = (line ++ [NEWLINE]) ++ text lines := rfl

theorem strchr_plain {buf : Bytes.Store} {p left : Nat} {xs : List UInt8} (plain : Plain xs)
    (held : slice buf p xs.length = xs) :
    strchr buf p (xs.length + left) = strchr buf (p + xs.length) left := by
  induction xs generalizing p with
  | nil => simp
  | cons x xs ih =>
    obtain ⟨first, rest⟩ := (slice_append_iff : slice buf p ([x] ++ xs).length = _ ↔ _).mp held
    have here := (slice_one x).mp first
    obtain ⟨newline, zero⟩ := plain
    rw [List.mem_cons, not_or] at newline zero
    rw [List.length_singleton] at rest
    rw [List.length_cons, Nat.add_right_comm, strchr, here, if_neg (Ne.symm zero.1),
      if_neg (Ne.symm newline.1), ih ⟨newline.2, zero.2⟩ rest, Nat.add_right_comm, Nat.add_assoc]

/-- The inner loop over a buffer that holds lines, an unfinished line, and then a NUL or nothing
more. -/
theorem scanLines_spec (lines : List (List UInt8)) {tail : List UInt8} {buf : Bytes.Store}
    {p fuel : Nat} (plain : ∀ line ∈ lines, Plain line) (open_ : Plain tail)
    (held : slice buf p (text lines ++ tail).length = text lines ++ tail)
    (room : p + (text lines ++ tail).length ≤ BUFSIZE)
    (nul : p + (text lines ++ tail).length < BUFSIZE → buf (p + (text lines ++ tail).length) = 0)
    (enough : (text lines).length < fuel) :
    scanLines pattern p buf out fuel = if p + (text lines ++ tail).length < BUFSIZE then
      some (p + (text lines).length, put buf p (left pattern lines), out ++ wanted pattern lines)
    else none := by
  induction lines generalizing p buf out fuel with
  | nil =>
    obtain ⟨fuel, rfl⟩ := Nat.exists_eq_succ_of_ne_zero (Nat.ne_zero_of_lt enough)
    simp only [text, List.map_nil, List.flatten_nil, List.nil_append] at held room nul ⊢
    obtain ⟨rest, size⟩ := Nat.exists_eq_add_of_le room
    rw [scanLines, show BUFSIZE - p = tail.length + rest by omega, strchr_plain open_ held]
    cases rest with
    | zero => rw [if_neg (by omega), strchr]
    | succ rest =>
      rw [if_pos (by omega), strchr, if_pos (nul (by omega)), put_self rfl]
      simp [wanted]
  | cons line lines ih =>
    obtain ⟨fuel, rfl⟩ := Nat.exists_eq_succ_of_ne_zero (Nat.ne_zero_of_lt enough)
    obtain ⟨here, plain⟩ := List.forall_mem_cons.mp plain
    rw [text_cons, List.append_assoc] at held room nul ⊢
    obtain ⟨first, rest⟩ := slice_append_iff.mp held
    obtain ⟨body, newline⟩ := slice_append_iff.mp first
    replace newline := (slice_one _).mp newline
    simp only [length_append, List.length_singleton, text_cons] at rest room nul enough ⊢
    have found : strchr buf p (BUFSIZE - p) = some (some (p + line.length)) := by
      rw [show BUFSIZE - p = line.length + (BUFSIZE - p - line.length - 1 + 1) by omega,
        strchr_plain here body, strchr, newline, if_neg (by decide), if_pos rfl]
    -- the rest of the buffer is as before, whatever is left where the newline was
    have onward : ∀ x out, scanLines pattern (p + line.length + 1) (update buf (p + line.length) x)
        out fuel = if p + (line.length + 1 + ((text lines).length + tail.length)) < BUFSIZE then
          some (p + (line.length + 1 + (text lines).length),
            put buf p (line ++ [x] ++ left pattern lines), out ++ wanted pattern lines)
        else none := by
      intro x out
      have away : ∀ i, p + line.length + 1 ≤ i → update buf (p + line.length) x i = buf i :=
        fun i past => update_of_ne (by omega) ..
      rw [ih plain, put_append, put_append, put_self body, put_one, length_append]
      · simp only [length_append, List.length_singleton, Nat.add_assoc]
      · rw [slice_congr fun i low _ => away i low, length_append]
        exact rest
      · rw [length_append]
        omega
      · rw [length_append]
        intro less
        rw [away _ (by omega), ← nul (by omega)]
        congr 1
        omega
      · omega
    rw [scanLines, found]
    dsimp only
    simp only [put_one, update_idem]
    rw [show p + line.length - p = line.length by omega,
      slice_congr fun i _ small => update_of_ne (by omega) .., body]
    by_cases hit : matchRe pattern line = true
    · have whole : slice (update buf (p + line.length) NEWLINE) p (p + line.length + 1 - p) =
          line ++ [NEWLINE] := by
        rw [update_eq_self_iff.mpr newline.symm, Nat.add_assoc, Nat.add_sub_cancel_left, ← first,
          length_append]
        rfl
      rw [if_pos hit, if_pos hit, whole, onward]
      simp [wanted, left, hit]
    · rw [if_neg hit, if_neg hit, onward]
      simp [wanted, left, hit]

/-! ## The outer loop -/

/-- The bytes that earlier reads left behind the first `fill` bytes of the buffer, up to a NUL. -/
structure Stale (buf : Bytes.Store) (fill : Nat) (stale : List UInt8) : Prop where
  held : slice buf fill stale.length = stale
  room : fill + stale.length < BUFSIZE
  nul : buf (fill + stale.length) = 0

/-- The part of an unfinished line that is not lost. -/
def kept (done : List (List UInt8)) (rest : List UInt8) : List UInt8 :=
  if done = [] then [] else rest

/-- The lines that grep sees in the chunks, with the unfinished line `carry` at the front of the
buffer.  A read without a newline loses the bytes of its line so far.  Where a newline is left
among the stale bytes, these are taken for lines; `m` is negative then, so that no other read may
follow. -/
inductive Sees (pattern : List UInt8) :
    List UInt8 → Bytes.Store → List (List UInt8) → List (List UInt8) → Prop
  | eof {carry buf} : Sees pattern carry buf [] []
  | read {carry buf chunk chunks stale done rest seen}
    (behind : Stale buf (carry ++ chunk).length stale)
    (split : carry ++ chunk = text done ++ rest) (plain : ∀ line ∈ done, Plain line)
    (none : Plain (rest ++ stale))
    (later : Sees pattern (kept done rest) (put (put (put buf carry.length chunk) 0
      (left pattern done)) 0 (kept done rest)) chunks seen) :
    Sees pattern carry buf (chunk :: chunks) (done ++ seen)
  | stale {carry buf chunk stale done rest} (behind : Stale buf (carry ++ chunk).length stale)
    (split : carry ++ chunk ++ stale = text done ++ rest) (plain : ∀ line ∈ done, Plain line)
    (none : Plain rest) (newline : NEWLINE ∈ stale) : Sees pattern carry buf [chunk] done

section Read

variable {carry chunk stale rest : List UInt8} {done chunks seen : List (List UInt8)}
  {buf : Bytes.Store}

variable (front : slice buf 0 carry.length = carry)
include front

theorem slice_fill : slice (put buf carry.length chunk) 0 (carry ++ chunk).length =
    carry ++ chunk := by
  rw [slice_append_iff, Nat.zero_add]
  refine ⟨?_, slice_put⟩
  rw [slice_congr fun i _ small => put_outside (by omega)]
  exact front

theorem grep_round (held : slice buf (carry ++ chunk).length stale.length = stale)
    (room : (carry ++ chunk).length + stale.length ≤ BUFSIZE)
    (nul : (carry ++ chunk).length + stale.length < BUFSIZE →
      buf ((carry ++ chunk).length + stale.length) = 0)
    (split : carry ++ chunk ++ stale = text done ++ rest) (plain : ∀ line ∈ done, Plain line)
    (open_ : Plain rest) : grep pattern carry.length buf out (chunk :: chunks) =
      if (carry ++ chunk).length + stale.length < BUFSIZE then
        let buf' := put (put buf carry.length chunk) 0 (left pattern done)
        let m : Int := (carry ++ chunk).length - (text done).length
        if done = [] then grep pattern 0 buf' (out ++ wanted pattern done) chunks
        else grep pattern m (copy buf' 0 buf' (text done).length m.toNat)
          (out ++ wanted pattern done) chunks
      else none := by
  have size := congrArg List.length split
  have filled : slice (put buf carry.length chunk) 0 (text done ++ rest).length =
      text done ++ rest := by
    rw [← split, slice_append_iff, Nat.zero_add]
    refine ⟨slice_fill front, ?_⟩
    rw [slice_congr fun i _ small => put_outside (by rw [length_append] at *; omega)]
    exact held
  simp only [length_append] at size room nul ⊢
  have scan := @scanLines_spec out pattern done rest _ 0 (BUFSIZE + 1) plain open_ filled
    (by rw [length_append]; omega)
    (by
      rw [length_append, Nat.zero_add, ← size]
      intro less
      rw [put_outside (by omega), nul less])
    (by omega)
  have start : ((carry.length : Int) + chunk.length - chunk.length).toNat = carry.length := by
    omega
  have empty : (text done).length = 0 ↔ done = [] := by
    cases done with
    | nil => simp [text]
    | cons line done => simp [text]
  rw [length_append, Nat.zero_add, Nat.zero_add, ← size] at scan
  rw [grep, if_neg (by omega)]
  simp only [start, scan]
  by_cases ends : carry.length + chunk.length + stale.length < BUFSIZE
  · simp only [if_pos ends, Option.bind_eq_bind, Option.bind_some, empty, Int.natCast_add]
  · simp only [if_neg ends, Option.bind_eq_bind, Option.bind_none]

theorem grep_read (behind : Stale buf (carry ++ chunk).length stale)
    (split : carry ++ chunk = text done ++ rest) (plain : ∀ line ∈ done, Plain line)
    (none : Plain (rest ++ stale)) : grep pattern carry.length buf out (chunk :: chunks) =
      grep pattern (kept done rest).length (put (put (put buf carry.length chunk) 0
        (left pattern done)) 0 (kept done rest)) (out ++ wanted pattern done) chunks := by
  have held : slice (put buf carry.length chunk) 0 _ = _ := slice_fill front
  rw [split, slice_append_iff, Nat.zero_add] at held
  rw [grep_round front behind.held behind.room.le (fun _ => behind.nul)
    (by rw [split, List.append_assoc]) plain none, if_pos behind.room]
  unfold kept
  by_cases nothing : done = []
  · simp only [if_pos nothing]
    rw [@put_self _ _ [] rfl]
    rfl
  · simp only [if_neg nothing]
    rw [split, length_append, Int.natCast_add, add_sub_cancel_left, Int.toNat_natCast, ← put_slice,
      slice_congr fun i low _ => put_outside (by rw [length_left]; omega), held.2]

/-- What grep writes for the lines that it sees. -/
theorem Sees.grep (sees : Sees pattern carry buf chunks seen) :
    grep pattern carry.length buf out chunks = some (out ++ wanted pattern seen) := by
  induction sees generalizing out with
  | eof => simp [Grep.grep, wanted]
  | read behind split plain none _ ih =>
    rw [grep_read front behind split plain none, ih slice_put]
    simp [wanted]
  | stale behind split plain none _ =>
    rw [grep_round front behind.held behind.room.le (fun _ => behind.nul) split plain none,
      if_pos behind.room]
    simp only [Grep.grep, ite_self]

end Read

end Xv6.Grep
