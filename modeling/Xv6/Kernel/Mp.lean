/-
Purpose: mp.c: the check of the MP configuration table, and the scan of its entries.
-/
import Xv6.Lib.Bytes

namespace Xv6.Mp

open Bytes

/-- Most processors. -/
abbrev NCPU : Nat := 8

/-- `sizeof(struct mpconf)`. -/
abbrev MPCONFSIZE : Nat := 44

/-- `sum`: the bytes added up as a `uchar`. -/
def sumBytes (bytes : List UInt8) : UInt8 := bytes.foldl (· + ·) 0

/-- `conf->length`. -/
def confLength (mem : Store) (conf : Nat) : Nat := word16 mem (conf + 4)

/-- `mpconfig` accepts the table at `conf`: signature, version and sum of its bytes. -/
def mpconfig (mem : Store) (conf : Nat) : Bool :=
  slice mem conf 4 = [80, 67, 77, 80] ∧ (mem (conf + 6) = 1 ∨ mem (conf + 6) = 4) ∧
    sumBytes (slice mem conf (confLength mem conf)) = 0

/-- The variables of `mpinit`; `cpus` has the indices at which `cpus[]` was stored to, the latest
first. -/
structure MpScan where
  p : Nat
  ncpu : Nat
  ismp : Bool
  bcpu : Nat
  ioapicid : UInt8
  cpus : List Nat
deriving DecidableEq

/-- One round of the loop, for the entry at `p`. -/
def mpStep (mem : Store) (s : MpScan) : MpScan :=
  match (mem s.p).toNat with
  | 0 =>
    { s with
      p := s.p + 20
      ncpu := s.ncpu + 1
      ismp := s.ismp && s.ncpu = (mem (s.p + 1)).toNat
      bcpu := if (mem (s.p + 3)).toNat.testBit 1 then s.ncpu else s.bcpu
      cpus := s.ncpu :: s.cpus }
  | 2 => { s with p := s.p + 8, ioapicid := mem (s.p + 1) }
  | 1 | 3 | 4 => { s with p := s.p + 8 }
  | _ => { s with ismp := false }

/-- The loop up to `e`; `none` when the rounds do not suffice. -/
def mpLoop (mem : Store) (e : Nat) (s : MpScan) : Nat → Option MpScan
  | 0 => none
  | fuel + 1 => if e ≤ s.p then some s else mpLoop mem e (mpStep mem s) fuel

/-- Where the loop of `mpinit` starts. -/
def mpStart (conf : Nat) : MpScan :=
  { p := conf + MPCONFSIZE, ncpu := 0, ismp := true, bcpu := 0, ioapicid := 0, cpus := [] }

/-- End of the table. -/
def mpEnd (mem : Store) (conf : Nat) : Nat := conf + confLength mem conf

/-- `mpinit` for the table at `conf`, with its fall back to one processor. -/
def mpinit (mem : Store) (conf fuel : Nat) : Option MpScan :=
  (mpLoop mem (mpEnd mem conf) (mpStart conf) fuel).map fun s =>
    if s.ismp then s else { s with ncpu := 1, ioapicid := 0 }

end Xv6.Mp
