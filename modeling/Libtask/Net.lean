import Libtask.Lib.Strtoul
import Libtask.Print
import Mathlib.Logic.Function.Basic

/-!
# Addresses

`parseip`, `netlookup` and the text of `netaccept`, from `net.c`.  A string is the list of its
bytes in front of the NUL, and a pointer into it is what is left from there on.  The array
`addr` of `parseip` is not initialised, so what it holds at first is a parameter.  The four
bytes of an address are in the order of memory.
-/

namespace Libtask

open Function (update)
open Strtoul (strtoul)

/-- The two high bits of the first byte. -/
def CLASS (addr : Nat → UInt8) : Nat := (addr 0).toNat >>> 6

/-- The loop of `parseip`, with this many turns left: `addr` and `i` behind it, or nothing if
it returns -1. -/
def parseipLoop : Nat → (Nat → UInt8) → List UInt8 → Option ((Nat → UInt8) × Nat)
  | 0, addr, _ => some (addr, 4)
  | left + 1, addr, p =>
      let i := 4 - (left + 1)
      if p = [] then some (addr, i)
      else
        let (v, p) := strtoul p
        let x := (v.setWidth 32).toInt
        if x < 0 ∨ x ≥ 256 then none
        else if p.head? ≠ some '.'.toUInt8 ∧ p ≠ [] then none
        else
          let p := if p.head? = some '.'.toUInt8 then p.tail else p
          parseipLoop left (update addr i (UInt8.ofNat x.toNat)) p

/-- The `switch` of `parseip`. -/
def classRules (addr : Nat → UInt8) (i : Nat) : Option (Nat → UInt8) :=
  match CLASS addr with
  | 0 | 1 =>
      if i = 3 then
        let addr := update addr 3 (addr 2)
        let addr := update addr 2 (addr 1)
        some (update addr 1 0)
      else if i = 2 then
        let addr := update addr 3 (addr 1)
        let addr := update addr 2 0
        some (update addr 1 0)
      else if i ≠ 4 then none
      else some addr
  | 2 =>
      if i = 3 then
        let addr := update addr 3 (addr 2)
        some (update addr 2 0)
      else if i ≠ 4 then none
      else some addr
  | _ => some addr

/-- The bytes that `parseip` stores at `ip`, or nothing if it returns -1. -/
def parseip (name : List UInt8) (addr : Nat → UInt8) : Option (List UInt8) := do
  let (addr, i) ← parseipLoop 4 addr name
  let addr ← classRules addr i
  return [addr 0, addr 1, addr 2, addr 3]

/-- The address that `netlookup` finds.  `gethostbyname` is the blocking name resolution. -/
def netlookup (gethostbyname : List UInt8 → Option (List UInt8)) (name : List UInt8)
    (addr : Nat → UInt8) : Option (List UInt8) :=
  match parseip name addr with
  | some ip => some ip
  | none => gethostbyname name

/-- `"%d.%d.%d.%d"` -/
def serverFormat : List UInt8 :=
  ['%', 'd', '.', '%', 'd', '.', '%', 'd', '.', '%', 'd'].map Char.toUInt8

/-- What `netaccept` writes to the 16 bytes at `server`. -/
def netacceptServer (strerror : List UInt8) (server : Bytes.Memory) (ip : List UInt8) :
    Except PrintFault Buffer :=
  vsnprint strerror 16 server serverFormat fun k =>
    { word := BitVec.ofNat 64 (ip[k]?.getD 0).toNat }

end Libtask
