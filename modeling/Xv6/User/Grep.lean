/-
Purpose: grep.c: the matcher for patterns with ^ . * $, and the loop that reads a file and writes
  the lines that match.
-/
import Xv6.Lib.Bytes

namespace Xv6.Grep

/-!
A C string is the list of the bytes in front of its NUL, so the byte behind the last one of a list
is the NUL.  `buf` is a store; an access outside its 1024 bytes ends the run with `none`.
-/

abbrev NEWLINE : UInt8 := 10
abbrev DOLLAR : UInt8 := 36
abbrev STAR : UInt8 := 42
abbrev DOT : UInt8 := 46
abbrev CARET : UInt8 := 94

/-! ## The matcher -/

/-- `matchstar(c, re, text)`, where `here` is `matchhere(re, ·)`. -/
def matchstar (here : List UInt8 → Bool) (c : UInt8) : List UInt8 → Bool
  | [] => here []
  | x :: text => here (x :: text) || ((x == c || c == DOT) && matchstar here c text)

/-- The last test of `matchhere`, where `next` is `matchhere(re+1, ·)`. -/
def matchone (next : List UInt8 → Bool) (c : UInt8) : List UInt8 → Bool
  | [] => false
  | x :: text => (c == DOT || c == x) && next text

/-- `matchhere(re, text)`: search for `re` at the beginning of `text`. -/
def matchhere : List UInt8 → List UInt8 → Bool
  | [], _ => true
  | [c], text => if c = DOLLAR then text.isEmpty else matchone (matchhere []) c text
  | c :: d :: re, text =>
    if d = STAR then matchstar (matchhere re) c text else matchone (matchhere (d :: re)) c text

/-- The loop of `match` over the suffixes of `text`, the empty one included. -/
def matchSuffixes (re : List UInt8) : List UInt8 → Bool
  | [] => matchhere re []
  | x :: text => matchhere re (x :: text) || matchSuffixes re text

/-- `match(re, text)`. -/
def matchRe (re text : List UInt8) : Bool :=
  match re with
  | [] => matchSuffixes [] text
  | c :: rest => if c = CARET then matchhere rest text else matchSuffixes (c :: rest) text

/-! ## The loop -/

/-- Bytes of `buf`. -/
abbrev BUFSIZE : Nat := 1024

/-- `strchr(buf + p, '\n')`, with `left` bytes of `buf` from `p` on. -/
def strchr (buf : Bytes.Store) (p : Nat) : Nat → Option (Option Nat)
  | 0 => none
  | left + 1 =>
    if buf p = 0 then some none
    else if buf p = NEWLINE then some (some p)
    else strchr buf (p + 1) left

/-- The inner loop of `grep`, with what it leaves in `p`, `buf` and the list of writes.  Every
round passes a newline, so `fuel` bounds the rounds. -/
def scanLines (pattern : List UInt8) (p : Nat) (buf : Bytes.Store) (out : List (List UInt8)) :
    Nat → Option (Nat × Bytes.Store × List (List UInt8))
  | 0 => none
  | fuel + 1 =>
    match strchr buf p (BUFSIZE - p) with
    | none => none
    | some none => some (p, buf, out)
    | some (some q) =>
      let buf := Bytes.put buf q [0]
      let hit := matchRe pattern (Bytes.slice buf p (q - p))
      let buf := if hit then Bytes.put buf q [NEWLINE] else buf
      scanLines pattern (q + 1) buf (if hit then out ++ [Bytes.slice buf p (q + 1 - p)] else out)
        fuel

/-- `grep(pattern, fd)`, where the calls of `read` return the chunks one after the other and then
0; the result is what was written. -/
def grep (pattern : List UInt8) (m : Int) (buf : Bytes.Store) (out : List (List UInt8)) :
    List (List UInt8) → Option (List (List UInt8))
  | [] => some out
  | chunk :: chunks =>
    if m < 0 ∨ BUFSIZE < m + chunk.length then none
    else do
      let m := m + chunk.length
      let (p, buf, out) ← scanLines pattern 0 (Bytes.put buf (m - chunk.length).toNat chunk) out
        (BUFSIZE + 1)
      if p = 0 then grep pattern 0 buf out chunks
      else
        let m := m - p
        grep pattern m (Bytes.copy buf 0 buf p m.toNat) out chunks

end Xv6.Grep
