import Libtask.Lib.Bytes
import Libtask.Lib.Outcome
import Mathlib.Algebra.Group.Nat.Defs

/-!
# The print library

`printstr`, `vseprint` and `vsnprint` of `print.c`.  A C string is the list of its bytes in
front of the NUL.  A pointer into the buffer is an offset from its start.  An `int` is an
`Int` that `toInt` brings back into its range wherever the code can leave it.
-/

namespace Libtask

/-- Accesses that C leaves undefined, and a failed assertion. -/
inductive PrintFault where
  /-- a write outside of the buffer -/
  | store
  /-- a read behind the end of an argument -/
  | load
  /-- a write in front of `buf` -/
  | digits
  /-- a read behind the NUL of the format -/
  | format
  /-- `assert(w < edst)` -/
  | assertion
  | fuel
  deriving DecidableEq, Repr

/-- A buffer of `size` bytes. -/
structure Buffer where
  size : Nat
  mem : Bytes.Memory

/-- Conversion to `int`. -/
def toInt (x : Int) : Int := x.bmod (2 ^ 32)

def Buffer.store (b : Buffer) (p : Int) (bytes : List UInt8) : Except PrintFault Buffer :=
  if 0 ≤ p ∧ p + bytes.length ≤ b.size then
    .ok { b with mem := Bytes.write b.mem p.toNat bytes }
  else .error .store

/-- `memmove` from a string.  A negative count is a huge `size_t`. -/
def Buffer.memmove (b : Buffer) (p : Int) (s : List UInt8) (l : Int) :
    Except PrintFault Buffer :=
  if 0 ≤ l ∧ l ≤ s.length then b.store p (s.take l.toNat) else .error .load

def Buffer.memset (b : Buffer) (p : Int) (c : UInt8) (l : Int) : Except PrintFault Buffer :=
  if 0 ≤ l then b.store p (List.replicate l.toNat c) else .error .store

/-- Pad `s` to a field of `size` characters, on the right if `size` is negative. -/
def printstr (b : Buffer) (dst edst : Int) (s : List UInt8) (size : Int) :
    Except PrintFault (Buffer × Int) :=
  let sign : Int := if size < 0 then -1 else 1
  let size := if size < 0 then toInt (-size) else size
  if dst ≥ edst then .ok (b, dst)
  else do
    let l := toInt s.length
    let n := if l < size then size else l
    let n := if n ≥ edst - dst then toInt (edst - dst - 1) else n
    let l := if l > n then n else l
    if sign < 0 then
      let b ← b.memmove dst s l
      let b ← if n - l ≠ 0 then b.memset (dst + l) ' '.toUInt8 (n - l) else .ok b
      return (b, dst + n)
    else
      let b ← if n - l ≠ 0 then b.memset dst ' '.toUInt8 (n - l) else .ok b
      let b ← b.memmove (dst + n - l) s l
      return (b, dst + n)

/-! ## Numbers -/

structure Flags where
  long : Bool := false
  longLong : Bool := false
  unsigned : Bool := false
  deriving DecidableEq, Repr

/-- `l`, and `l` once more. -/
def Flags.setLong (fl : Flags) : Flags :=
  if fl.long then { fl with longLong := true } else { fl with long := true }

/-- An argument, as `va_arg` reads it: a number of up to 64 bits, or a string. -/
structure Arg where
  word : BitVec 64 := 0
  str : List UInt8 := []

/-- `luv`, read in the type that the flags tell. -/
def Arg.luv (arg : Arg) (fl : Flags) : BitVec 64 :=
  if fl.longLong then arg.word
  else if fl.long then arg.word
  else if fl.unsigned then (arg.word.setWidth 32).setWidth 64
  else (arg.word.setWidth 32).signExtend 64

/-- The local array `buf`: the bytes in front of `p`, and the string at `p`. -/
structure DigitBuf where
  room : Nat
  text : List UInt8

/-- `*--p = c` -/
def DigitBuf.push (d : DigitBuf) (c : UInt8) : Except PrintFault DigitBuf :=
  match d.room with
  | 0 => .error .digits
  | room + 1 => .ok { room, text := c :: d.text }

/-- `static char digits[]` -/
def digits : List UInt8 :=
  ['0', '1', '2', '3', '4', '5', '6', '7', '8', '9', 'a', 'b', 'c', 'd', 'e', 'f'].map Char.toUInt8

/-- The loop that writes the digits of `luv`, from the last one on. -/
def pushDigits (base : Nat) : Nat → Nat → DigitBuf → Except PrintFault DigitBuf
  | _, 0, d => .ok d
  | 0, _ + 1, _ => .error .fuel
  | fuel + 1, luv, d => do
      let d ← d.push ((digits[luv % base]?).getD 0)
      pushDigits base fuel (luv / base) d

/-- The string that is made for a number.  `neg` is computed by the code and not used. -/
def num (fl : Flags) (base : Nat) (arg : Arg) : Except PrintFault (List UInt8) := do
  let luv := arg.luv fl
  let luv := if ¬fl.unsigned ∧ luv.toInt < 0 then -luv else luv
  let zero := luv = 0
  let d ← DigitBuf.push { room := 30, text := [] } 0
  let d ← pushDigits base 64 luv.toNat { d with text := [] }
  let d ← if base = 16 then do (← d.push 'x'.toUInt8).push '0'.toUInt8 else .ok d
  let d ← if base = 8 ∨ zero then d.push '0'.toUInt8 else .ok d
  return d.text

/-! ## Directives -/

/-- The flags, the width and the verb of a directive, and the format behind it; nothing if the
directive is cut off by the end of the format.  `p` starts behind the `%`. -/
def directive (fl : Flags) (size sign : Int) :
    List UInt8 → Option (Flags × Int × UInt8 × List UInt8)
  | [] => none
  | c :: p =>
      if c = '-'.toUInt8 then directive fl size (-1) p
      else if '0'.toUInt8 ≤ c ∧ c ≤ '9'.toUInt8 then
        directive fl (toInt (size * 10 + c.toNat - '0'.toUInt8.toNat)) sign p
      else if c = 'l'.toUInt8 then directive fl.setLong size sign p
      else if c = 'u'.toUInt8 then directive { fl with unsigned := true } size sign p
      else some (fl, toInt (size * sign), c, p)

/-- What `printstr` is given for a verb; nothing for an unknown verb.  `strerror` is the text
for `errno`. -/
def verbText (strerror : List UInt8) (fl : Flags) (verb : UInt8) (arg : Arg) :
    Option (Except PrintFault (List UInt8)) :=
  if verb = 'd'.toUInt8 then some (num fl 10 arg)
  else if verb = 'o'.toUInt8 then some (num fl 8 arg)
  else if verb = 'p'.toUInt8 ∨ verb = 'x'.toUInt8 then some (num fl 16 arg)
  else if verb = 'c'.toUInt8 then
    let c : UInt8 := UInt8.ofBitVec (arg.word.setWidth 8)
    some (.ok (if c = 0 then [] else [c]))
  else if verb = 's'.toUInt8 then some (.ok arg.str)
  else if verb = 'r'.toUInt8 then some (.ok strerror)
  else none

/-- `"X*verb*"` -/
def badVerb : List UInt8 := ['X', '*', 'v', 'e', 'r', 'b', '*'].map Char.toUInt8

/-- The main loop of `vseprint`, where `ap` arguments were read so far. -/
def vseprintLoop (strerror : List UInt8) (arg : Nat → Arg) (edst : Int) :
    Nat → Buffer → Int → List UInt8 → Nat → Except PrintFault (Buffer × Int)
  | _, b, w, [], _ => .ok (b, w)
  | fuel, b, w, c :: p, ap =>
      if w < edst - 1 then
        match fuel with
        | 0 => .error .fuel
        | fuel + 1 =>
            if c ≠ '%'.toUInt8 then do
              let b ← b.store w [c]
              vseprintLoop strerror arg edst fuel b (w + 1) p ap
            else
              match directive {} 0 1 p with
              | none => .error .format
              | some (fl, size, verb, p) =>
                  match verbText strerror fl verb (arg ap) with
                  | some text => do
                      let s ← text
                      let (b, w) ← printstr b w edst s size
                      let ap := if verb = 'r'.toUInt8 then ap else ap + 1
                      vseprintLoop strerror arg edst fuel b w p ap
                  | none => vseprintLoop strerror arg edst fuel b w badVerb.tail ap
      else .ok (b, w)

def vseprint (strerror : List UInt8) (b : Buffer) (dst edst : Int) (fmt : List UInt8)
    (arg : Nat → Arg) : Except PrintFault Buffer := do
  let (b, w) ← vseprintLoop strerror arg edst (fmt.length + 7) b dst fmt 0
  if w < edst then b.store w [0] else .error .assertion

/-- `vsnprint`, for a buffer of `n` bytes. -/
def vsnprint (strerror : List UInt8) (n : Nat) (mem : Bytes.Memory) (fmt : List UInt8)
    (arg : Nat → Arg) : Except PrintFault Buffer :=
  vseprint strerror { size := n, mem } 0 n fmt arg

/-- `taskstate`, where `mem` is the array `state`, of 256 bytes.  The size that is passed is the
one of `name`. -/
def taskstate (strerror : List UInt8) (mem : Bytes.Memory) (fmt : List UInt8)
    (arg : Nat → Arg) : Except PrintFault Buffer :=
  vseprint strerror { size := 256, mem } 0 256 fmt arg

end Libtask
