/-
Purpose: Byte-addressed memories, and the little-endian words and the bits
  stored in them.
-/
import Mathlib.Data.Nat.Bitwise
import Mathlib.Tactic.Common

namespace Bytes

open UInt8 (ofNat)

variable {dst a i w n : Nat} {bytes : List UInt8}

/-- A memory, or any other run of bytes, indexed from zero. -/
abbrev Store := Nat → UInt8

/-- Set `n` bytes at `dst` to `value`. -/
def fill (store : Store) (dst : Nat) (value : UInt8) (n : Nat) : Store :=
  fun a => if dst ≤ a ∧ a < dst + n then value else store a

/-- Store the bytes of a list at `dst`. -/
def put (store : Store) (dst : Nat) (bytes : List UInt8) : Store :=
  fun a => if dst ≤ a ∧ a < dst + bytes.length then
    bytes.getD (a - dst) 0 else store a

/-- Copy `n` bytes from offset `start` of `source` to `dst`. -/
def copy (store : Store) (dst : Nat) (source : Store) (start n : Nat) : Store :=
  fun a => if dst ≤ a ∧ a < dst + n then source (start + (a - dst))
    else store a

/-- The `n` bytes at `start`. -/
def slice (store : Store) (start n : Nat) : List UInt8 :=
  (List.range n).map fun i => store (start + i)

/-- Little-endian 16-bit word at `a`. -/
def word16 (store : Store) (a : Nat) : Nat :=
  (store a).toNat + 256 * (store (a + 1)).toNat

/-- Little-endian 32-bit word at `a`. -/
def word32 (store : Store) (a : Nat) : Nat :=
  word16 store a + 65536 * word16 store (a + 2)

/-- The four bytes of a 32-bit word, lowest first. -/
def le32 (w : Nat) : List UInt8 :=
  [ofNat w, ofNat (w / 256), ofNat (w / 65536), ofNat (w / 16777216)]

/-- The two bytes of a 16-bit word, lowest first. -/
def le16 (w : Nat) : List UInt8 := [ofNat w, ofNat (w / 256)]

/-- Store the `n` 32-bit words of `words` from `dst` on. -/
def putWords (store : Store) (dst n : Nat) (words : Nat → Nat) : Store :=
  fun a => if dst ≤ a ∧ a < dst + 4 * n then
    (le32 (words ((a - dst) / 4))).getD ((a - dst) % 4) 0 else store a

/-- A list as a store that reads zero beyond its end. -/
def ofList (bytes : List UInt8) : Store := fun i => bytes.getD i 0

/-- Bit `i`, counted from the lowest bit of the first byte. -/
def bit (store : Store) (i : Nat) : Bool :=
  (store (i / 8)).toNat.testBit (i % 8)

/-- Set or clear bit `i`. -/
def setBit (store : Store) (i : Nat) (value : Bool) : Store :=
  Function.update store (i / 8) (ofNat (if value then (store (i / 8)).toNat ||| 2 ^ (i % 8)
        else (store (i / 8)).toNat &&& (255 ^^^ 2 ^ (i % 8))))

/-- A byte array with the bytes of `src` written from `off` on; it grows
where they reach beyond its end. -/
def overwrite (content : List UInt8) (off : Nat) (src : List UInt8) : List UInt8 :=
  content.take off ++ src ++ content.drop (off + src.length)

/-! ## Reads after writes -/

variable {store store' : Store}

theorem put_outside (outside : a < dst ∨ dst + bytes.length ≤ a) :
    put store dst bytes a = store a := by
  unfold put
  rw [if_neg (by omega)]

theorem put_inside (inside : i < bytes.length) :
    put store dst bytes (dst + i) = bytes.getD i 0 := by
  unfold put
  rw [if_pos (by omega), Nat.add_sub_cancel_left]

theorem word16_lt (store : Store) (a : Nat) : word16 store a < 65536 := by
  have low := (store a).toNat_lt
  have high := (store (a + 1)).toNat_lt
  unfold word16
  omega

theorem word32_lt (store : Store) (a : Nat) : word32 store a < 2 ^ 32 := by
  have low := word16_lt store a
  have high := word16_lt store (a + 2)
  unfold word32
  omega

/-- A word depends on its four bytes. -/
theorem word32_congr (same : ∀ i < 4, store (a + i) = store' (a + i)) :
    word32 store a = word32 store' a := by
  unfold word32 word16
  have first := same 0 (by decide)
  have second := same 1 (by decide)
  have third := same 2 (by decide)
  have fourth := same 3 (by decide)
  simp only [Nat.add_zero, Nat.add_assoc] at *
  rw [first, second, third, fourth]

theorem word32_zero (zero : ∀ i < 4, store (a + i) = 0) : word32 store a = 0 := by
  have same : word32 store a = word32 (fun _ => 0) a := word32_congr zero
  rw [same]
  rfl

theorem word32_put_outside (outside : a + 4 ≤ dst ∨ dst + bytes.length ≤ a) :
    word32 (put store dst bytes) a = word32 store a := by
  apply word32_congr
  intro i small
  exact put_outside (by omega)

theorem word32_put_le32 (small : w < 2 ^ 32) : word32 (put store a (le32 w)) a = w := by
  have byte : ∀ i < 4, put store a (le32 w) (a + i) = (le32 w).getD i 0 :=
    fun i small => put_inside (by simpa [le32] using small)
  have first := byte 0 (by decide)
  have second := byte 1 (by decide)
  have third := byte 2 (by decide)
  have fourth := byte 3 (by decide)
  simp only [Nat.add_zero] at first
  unfold word32 word16
  rw [Nat.add_assoc a 2 1, first, second, third, fourth]
  simp only [le32, List.getD_cons_zero, List.getD_cons_succ, UInt8.toNat_ofNat']
  omega

theorem word16_congr (same : ∀ i < 2, store (a + i) = store' (a + i)) :
    word16 store a = word16 store' a := by
  have first := same 0 (by decide)
  have second := same 1 (by decide)
  unfold word16
  simp only [Nat.add_zero] at first
  rw [first, second]

theorem word16_zero (zero : ∀ i < 2, store (a + i) = 0) : word16 store a = 0 := by
  have same : word16 store a = word16 (fun _ => 0) a := word16_congr zero
  rw [same]
  rfl

theorem word16_put_outside (outside : a + 2 ≤ dst ∨ dst + bytes.length ≤ a) :
    word16 (put store dst bytes) a = word16 store a := by
  apply word16_congr
  intro i small
  exact put_outside (by omega)

theorem word16_put_le16 (small : w < 65536) : word16 (put store a (le16 w)) a = w := by
  have byte : ∀ i < 2, put store a (le16 w) (a + i) = (le16 w).getD i 0 :=
    fun i small => put_inside (by simpa [le16] using small)
  have first := byte 0 (by decide)
  have second := byte 1 (by decide)
  simp only [Nat.add_zero] at first
  unfold word16
  rw [first, second]
  simp only [le16, List.getD_cons_zero, List.getD_cons_succ, UInt8.toNat_ofNat']
  omega

theorem putWords_outside {words : Nat → Nat} (outside : a < dst ∨ dst + 4 * n ≤ a) :
    putWords store dst n words a = store a := by
  unfold putWords
  rw [if_neg (by omega)]

theorem word16_putWords_outside {words : Nat → Nat} (outside : a + 2 ≤ dst) :
    word16 (putWords store dst n words) a = word16 store a :=
  word16_congr fun _ _ => putWords_outside (by omega)

theorem word32_putWords {words : Nat → Nat} (inside : i < n) (small : words i < 2 ^ 32) :
    word32 (putWords store dst n words) (dst + 4 * i) = words i := by
  have single : word32 (put store (dst + 4 * i) (le32 (words i)))
      (dst + 4 * i) = words i := word32_put_le32 small
  rw [← single]
  apply word32_congr
  intro k less
  have quotient : (dst + 4 * i + k - dst) / 4 = i := by omega
  have remainder : (dst + 4 * i + k - dst) % 4 = k := by omega
  rw [put_inside (by simpa [le32] using less)]
  unfold putWords
  rw [if_pos (by omega), quotient, remainder]

theorem toNat_ofNat_of_lt (small : n < 256) : (ofNat n).toNat = n := by
  rw [UInt8.toNat_ofNat']
  exact Nat.mod_eq_of_lt small

/-- Setting a bit changes that bit and no other. -/
theorem bit_setBit (store : Store) (i j : Nat) (value : Bool) :
    bit (setBit store i value) j = if j = i then value else bit store j := by
  by_cases sameByte : j / 8 = i / 8
  · have old := (store (i / 8)).toNat_lt
    have position : 2 ^ (i % 8) < 256 := Nat.pow_lt_pow_right (by decide) (Nat.mod_lt i (by decide))
    have low : j % 8 < 8 := Nat.mod_lt j (by decide)
    have mask : (255 : Nat).testBit (j % 8) = true := by
      rw [show (255 : Nat) = 2 ^ 8 - 1 from rfl, Nat.testBit_two_pow_sub_one]
      simpa using low
    have same : j = i ↔ i % 8 = j % 8 := by omega
    unfold bit setBit
    rw [sameByte, Function.update_self]
    cases value with
    | true =>
      rw [if_pos rfl, toNat_ofNat_of_lt (Nat.or_lt_two_pow (n := 8) old
        position), Nat.testBit_or, Nat.testBit_two_pow]
      by_cases here : i % 8 = j % 8 <;> simp [same, here]
    | false =>
      have small : (store (i / 8)).toNat &&& (255 ^^^ 2 ^ (i % 8)) < 256 :=
        lt_of_le_of_lt Nat.and_le_left old
      rw [if_neg (by decide), toNat_ofNat_of_lt small, Nat.testBit_and,
        Nat.testBit_xor, Nat.testBit_two_pow, mask]
      by_cases here : i % 8 = j % 8 <;> simp [same, here]
  · have ne : j ≠ i := by
      intro same
      exact sameByte (by rw [same])
    unfold bit setBit
    rw [Function.update_of_ne sameByte, if_neg ne]

/-! ## Byte arrays -/

variable {content src : List UInt8} {off : Nat}

theorem length_overwrite (inside : off ≤ content.length) (src : List UInt8) :
    (overwrite content off src).length = max content.length (off + src.length) := by
  simp only [overwrite, List.length_append, List.length_take, List.length_drop]
  omega

theorem overwrite_nil (content : List UInt8) (off : Nat) : overwrite content off [] = content := by
  simp [overwrite]

theorem getD_overwrite (inside : off ≤ content.length) (k : Nat) :
    (overwrite content off src).getD k 0 =
      if off ≤ k ∧ k < off + src.length then src.getD (k - off) 0
      else content.getD k 0 := by
  have front : (content.take off).length = off := by
    rw [List.length_take]
    omega
  simp only [overwrite, List.append_assoc, List.getD_eq_getElem?_getD]
  by_cases before : k < off
  · rw [if_neg (by omega), List.getElem?_append_left (by omega), List.getElem?_take_of_lt before]
  · rw [List.getElem?_append_right (by omega), front]
    by_cases written : k - off < src.length
    · rw [if_pos (by omega), List.getElem?_append_left written]
    · rw [if_neg (by omega), List.getElem?_append_right (by omega), List.getElem?_drop]
      congr 2
      omega

theorem slice_add (store : Store) (start m n : Nat) : slice store start (m + n) =
      slice store start m ++ slice store (start + m) n := by
  unfold slice
  rw [List.range_add, List.map_append, List.map_map]
  congr 1
  apply List.map_congr_left
  intro i _
  simp only [Function.comp_apply, Nat.add_assoc]

theorem slice_ofList (inside : off + n ≤ content.length) :
    slice (ofList content) off n = (content.drop off).take n := by
  apply List.ext_getElem
  · simp only [slice, List.length_map, List.length_range, List.length_take, List.length_drop]
    omega
  · intro i left right
    have less : off + i < content.length := by
      simp only [List.length_take, List.length_drop] at right
      omega
    simp [slice, ofList, less]

theorem overwrite_append (inside : off ≤ content.length) (src more : List UInt8) :
    overwrite (overwrite content off src) (off + src.length) more =
      overwrite content off (src ++ more) := by
  have front : (content.take off ++ src).length = off + src.length := by
    rw [List.length_append, List.length_take]
    omega
  have kept : (content.take off ++ src ++ content.drop (off + src.length)).take (off + src.length) =
      content.take off ++ src := List.take_left' front
  have rest : (content.take off ++ src ++ content.drop (off + src.length)).drop
        (off + src.length + more.length) =
      content.drop (off + (src ++ more).length) := by
    rw [List.drop_append, front, List.drop_eq_nil_of_le (by omega),
      List.nil_append, List.drop_drop, List.length_append]
    congr 1
    omega
  unfold overwrite
  rw [kept, rest, List.append_assoc (content.take off) src more]

/-! ## Parity -/

/-- Exclusive-or of the bytes of a list. -/
def parity (bytes : List UInt8) : UInt8 := bytes.foldl (· ^^^ ·) 0

@[simp] theorem parity_nil : parity [] = 0 := rfl

theorem parity_append (one two : List UInt8) : parity (one ++ two) = parity one ^^^ parity two := by
  have later : two.foldl (· ^^^ ·) (parity one ^^^ 0) =
      parity one ^^^ parity two := List.foldl_assoc
  rw [UInt8.xor_zero] at later
  exact List.foldl_append.trans later

@[simp] theorem parity_singleton (byte : UInt8) : parity [byte] = byte :=
  UInt8.zero_xor

theorem parity_zeros (n : Nat) : parity (List.replicate n 0) = 0 := by
  induction n with
  | zero => rfl
  | succ n ih => rw [List.replicate_succ', parity_append, ih]; rfl

/-- One byte that differs makes the parity differ. -/
theorem parity_slice_ne {j : Nat} (inside : j < n) (differs : store' j ≠ store j)
    (others : ∀ i < n, i ≠ j → store' i = store i) :
    parity (slice store' 0 n) ≠ parity (slice store 0 n) := by
  obtain ⟨rest, rfl⟩ := Nat.exists_eq_add_of_lt inside
  have before : slice store' 0 j = slice store 0 j :=
    List.map_congr_left fun i mem => by
      have less := List.mem_range.mp mem
      exact others _ (by omega) (by omega)
  have after : slice store' (j + 1) rest = slice store (j + 1) rest :=
    List.map_congr_left fun i mem => by
      have less := List.mem_range.mp mem
      exact others _ (by omega) (by omega)
  have split : ∀ bytes : Store, parity (slice bytes 0 (j + rest + 1)) =
      parity (slice bytes 0 j) ^^^ bytes j ^^^ parity (slice bytes (j + 1) rest) := by
    intro bytes
    have one : slice bytes j 1 = [bytes j] := rfl
    rw [Nat.add_right_comm, slice_add, slice_add, Nat.zero_add, Nat.zero_add,
      one, parity_append, parity_append, parity_singleton]
  rw [split, split, before, after, Ne, UInt8.xor_left_inj, UInt8.xor_right_inj]
  exact differs

end Bytes
