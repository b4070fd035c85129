import Libtask.Task
import Libtask.Lib.Bytes

/-!
# Channels

The functions of `channel.c`.  A channel keeps its blocked alternatives in the
arrays `asend` and `arecv`; `Dir` names one of the two, which is what `chanarray`
computes from an op.  Sizes and positions follow the 32-bit arithmetic of the
code.
-/

namespace Libtask

open Function (update)

/-! ## Queues of alternatives -/

/-- One of the two queues of a channel. -/
inductive Dir where
  | asend
  | arecv
  deriving DecidableEq, Repr

def Channel.queue (chan : Channel) : Dir → Altarray
  | .asend => chan.asend
  | .arecv => chan.arecv

def Channel.setQueue (chan : Channel) : Dir → Altarray → Channel
  | .asend, ar => { chan with asend := ar }
  | .arecv, ar => { chan with arecv := ar }

def addarray (ar : Altarray) (alt : AltPtr) : Altarray :=
  { a := ar.a ++ [alt], m := if ar.n = ar.m then ar.m + 16 else ar.m }

/-- The last entry takes the place of entry `i`. -/
def delarray (ar : Altarray) (i : Nat) : Altarray :=
  match ar.a.getLast? with
  | some last => { ar with a := (ar.a.set i last).dropLast }
  | none => ar

/-- `CHANSND+CHANRCV-op`.  It is only used as an argument of `chanarray`, for
which every op but the two queued ones is the same; `CHANNOBLK` would wrap to a
number that is no op. -/
def otherop : Op → Op
  | .chanend => .channop
  | .chansnd => .chanrcv
  | .chanrcv => .chansnd
  | .channop => .chanend
  | .channoblk => .channoblk

def chanarray : Op → Option Dir
  | .chansnd => some .asend
  | .chanrcv => some .arecv
  | _ => none

def altcanexec (s : St) (a : Alt) : Bool :=
  if a.op = .channop then false
  else
    let c := s.chan a.c
    if c.bufsize = 0 then
      match chanarray (otherop a.op) with
      | some dir => (c.queue dir).n ≠ 0
      | none => false
    else
      match a.op with
      | .chansnd => c.nbuf < c.bufsize
      | .chanrcv => c.nbuf > 0
      | _ => false

/-- Replace a queue of channel `c`. -/
def setQueue (s : St) (c : ChanPtr) (dir : Dir) (ar : Altarray) : St :=
  s.setChan c ((s.chan c).setQueue dir ar)

/-- `altqueue(p)`, where `a` is what `p` points to. -/
def altqueue (s : St) (p : AltPtr) (a : Alt) : Except Halt St :=
  match chanarray a.op with
  | some dir => .ok (setQueue s a.c dir (addarray ((s.chan a.c).queue dir) p))
  | none => fault .wildAlt

/-- `altdequeue(p)`, where `a` is what `p` points to. -/
def altdequeue (s : St) (p : AltPtr) (a : Alt) : Except Halt St :=
  match chanarray a.op with
  | none => abort (.altdequeueOp a.op)
  | some dir =>
      let ar := (s.chan a.c).queue dir
      match ar.a.idxOf? p with
      | some i => .ok (setQueue s a.c dir (delarray ar i))
      | none => abort .altdequeueSelf

/-- The loop of `altalldequeue` over the entries `alts` from pointer `p` on. -/
def altalldequeueLoop (s : St) (p : AltPtr) : List Alt → Except Halt St
  | [] => fault .wildAlt
  | a :: rest =>
      if a.op = .chanend ∨ a.op = .channoblk then .ok s
      else do
        let s ← if a.op = .channop then pure s else altdequeue s p a
        altalldequeueLoop s { p with idx := p.idx + 1 } rest

def altalldequeue (s : St) (p : AltPtr) : Except Halt St :=
  altalldequeueLoop s p ((s.alts p.base).drop p.idx)

/-! ## Moving data -/

/-- What a move from `src` takes: zero bytes if it is nil. -/
def amoveBytes (mem : Bytes.Memory) (src : Option Nat) (n : Nat) : List UInt8 :=
  match src with
  | some p => Bytes.read mem p n
  | none => List.replicate n 0

/-- Store what a move takes at `dst`, unless that is nil. -/
def amove (mem : Bytes.Memory) (dst : Option Nat) (bytes : List UInt8) : Bytes.Memory :=
  match dst with
  | some p => Bytes.write mem p bytes
  | none => mem

/-- An `Alt` pointer with what it points to. -/
abbrev AltRef := AltPtr × Alt

/-- `c->off*c->elemsize` -/
def recvPos (c : Channel) : Nat := c.off * c.elemsize % 2 ^ 32

/-- `(c->off+c->nbuf)%c->bufsize*c->elemsize` -/
def sendPos (c : Channel) : Nat :=
  (c.off + c.nbuf) % 2 ^ 32 % c.bufsize * c.elemsize % 2 ^ 32

/-- The element at byte `pos` of the buffer lies in the area requested for it. -/
def InBuffer (c : Channel) (pos : Nat) : Prop := (pos + c.elemsize : Int) ≤ c.bufbytes

instance (c : Channel) (pos : Nat) : Decidable (InBuffer c pos) :=
  inferInstanceAs (Decidable (_ ≤ _))

/-- The branch `if(r)` of `altcopy`: receive the oldest element of the buffer. -/
def altcopyRecv (s : St) (self : TaskPtr) (c : ChanPtr) (r : AltRef) : Except Halt St :=
  let chan := s.chan c
  if ¬InBuffer chan (recvPos chan) then fault (.bufRange c)
  else if chan.nbuf = 0 then fault (.nbufUnderflow c)
  else
    let value := Bytes.read chan.buf (recvPos chan) chan.elemsize
    let off := (chan.off + 1) % 2 ^ 32
    let s := { s with mem := amove s.mem r.2.v value }
    let s := s.setChan c { chan with
      nbuf := chan.nbuf - 1
      off := if off = chan.bufsize then 0 else off }
    .ok (s.log (.received self r.1 c value))

/-- The branch `if(s)` of `altcopy`: send behind the newest element. -/
def altcopySend (s : St) (self : TaskPtr) (c : ChanPtr) (x : AltRef) : Except Halt St :=
  let chan := s.chan c
  if chan.bufsize = 0 then fault (.divByZero c)
  else if ¬InBuffer chan (sendPos chan) then fault (.bufRange c)
  else
    let value := amoveBytes s.mem x.2.v chan.elemsize
    let s := s.setChan c { chan with
      buf := Bytes.write chan.buf (sendPos chan) value
      nbuf := (chan.nbuf + 1) % 2 ^ 32 }
    .ok (s.log (.sent self x.1 c value))

/-- The direct copy of `altcopy`, past the buffer. -/
def altcopyDirect (s : St) (self : TaskPtr) (c : ChanPtr) (x r : AltRef) : St :=
  let value := amoveBytes s.mem x.2.v (s.chan c).elemsize
  let s := { s with mem := amove s.mem r.2.v value }
  (s.log (.sent self x.1 c value)).log (.received self r.1 c value)

/-- `altcopy`, after the sender `x` and the receiver `r` are told apart. -/
def altcopyMove (s : St) (self : TaskPtr) (c : ChanPtr) (x r : Option AltRef) :
    Except Halt St :=
  match x, r with
  | some x, some r =>
      if (s.chan c).nbuf = 0 then .ok (altcopyDirect s self c x r)
      else do
        let s ← altcopyRecv s self c r
        altcopySend s self c x
  | none, some r => altcopyRecv s self c r
  | some x, none => altcopySend s self c x
  | none, none => .ok s

/-- `altcopy(x, r)`; its caller always passes a first alternative. -/
def altcopy (s : St) (self : TaskPtr) (x : AltRef) (r : Option AltRef) : Except Halt St :=
  let c := x.2.c
  if x.2.op = .chanrcv then
    if r.all fun r => r.2.op = .chansnd then altcopyMove s self c r (some x)
    else abort .altcopyAssert
  else if x.2.op = .chansnd ∧ r.all fun r => r.2.op = .chanrcv then
    altcopyMove s self c (some x) r
  else abort .altcopyAssert

/-! ## Executing alternatives -/

/-- Assign to fields of an alternative. -/
def setAlt (s : St) (p : AltPtr) (f : Alt → Alt) : Except Halt St :=
  if p.idx < (s.alts p.base).length then
    .ok { s with alts := update s.alts p.base ((s.alts p.base).modify p.idx f) }
  else fault .wildAlt

/-- The alternative that `altexec` picks from the other queue of the channel. -/
def altpick (s : St) (a : Alt) (rand : Nat) : Option AltPtr :=
  match chanarray (otherop a.op) with
  | some dir =>
      let ar := (s.chan a.c).queue dir
      ar.a[rand % ar.n]?
  | none => none

/-- `altexec(p)`, where `rand()` returns `rand`. -/
def altexec (s : St) (self : TaskPtr) (p : AltPtr) (rand : Nat) : Except Halt St :=
  match s.alt? p with
  | none => fault .wildAlt
  | some a =>
      match altpick s a rand with
      | none => altcopy s self (p, a) none
      | some other =>
          match s.alt? other with
          | none => fault .wildAlt
          | some o => do
              let s ← altcopy s self (p, a) (some (other, o))
              let s ← altalldequeue s o.xalt
              let s ← setAlt s o.xalt fun first => { first with xalt := other }
              taskready s o.task

/-- The ops that an alt array may hold before its terminator. -/
def Op.isAlternative : Op → Bool
  | .chansnd => true
  | .chanrcv => true
  | .channop => true
  | _ => false

def Op.isTerminator : Op → Bool
  | .chanend => true
  | .channoblk => true
  | _ => false

/-- The number of alternatives before the terminator. -/
def altcount : List Alt → Nat
  | [] => 0
  | a :: rest => if a.op.isTerminator then 0 else altcount rest + 1

/-- The second loop of `chanalt`: the index of executable alternative number `j`,
counted from index `i`. -/
def chanpick (s : St) : List Alt → Nat → Nat → Option Nat
  | [], _, _ => none
  | a :: rest, i, j =>
      if altcanexec s a then
        if j = 0 then some i else chanpick s rest (i + 1) (j - 1)
      else chanpick s rest (i + 1) j

/-- The loop of `chanalt` that queues its alternatives, from pointer `p` on. -/
def altqueueLoop (s : St) (p : AltPtr) : List Alt → Except Halt St
  | [] => .ok s
  | a :: rest => do
      let s ← if a.op = .channop then pure s else altqueue s p a
      altqueueLoop s { p with idx := p.idx + 1 } rest

/-- `chanalt` on the array at `base`, up to its `taskswitch`.  `rand1` and `rand2`
are what `rand()` returns in `chanalt` and in `altexec`. -/
def chanalt (s : St) (self : TaskPtr) (base rand1 rand2 : Nat) (pc : Pc) :
    Except Halt (St × Flow) :=
  let n := altcount (s.alts base)
  match (s.alts base)[n]? with
  | none => fault .wildAlt
  | some terminator =>
      let canblock := terminator.op = .chanend
      let alts := ((s.alts base).take n).map fun a =>
        { a with task := self, xalt := ⟨base, 0⟩ }
      let s := { s with alts := update s.alts base (alts ++ (s.alts base).drop n) }
      let ncan := alts.countP (altcanexec s)
      match if ncan ≠ 0 then chanpick s alts 0 (rand1 % ncan) else none with
      | some i => do
          let s ← altexec s self ⟨base, i⟩ rand2
          return (s, .ret (some i))
      | none =>
          if ¬canblock then .ok (s, .ret (some (-1)))
          else do
            let s ← altqueueLoop s ⟨base, 0⟩ alts
            return (s.log (.altBlock self base), .switch pc)

/-- The part of `chanalt` behind its `taskswitch`. -/
def chanaltResume (s : St) (self : TaskPtr) (base : Nat) : Except Halt (St × Int) :=
  match s.alt? ⟨base, 0⟩ with
  | some first =>
      if first.xalt.base = base then
        .ok (s.log (.altReturn self base first.xalt.idx), first.xalt.idx)
      else fault .wildAlt
  | none => fault .wildAlt

/-- The local array of `_chanop`. -/
def chanopAlts (c : ChanPtr) (op : Op) (p : Option Nat) (canblock : Bool) : List Alt :=
  [{ c, v := p, op, task := 0, xalt := ⟨0, 0⟩ },
   { c, v := p, op := if canblock then .chanend else .channoblk, task := 0, xalt := ⟨0, 0⟩ }]

/-- What `_chanop` makes of the result of `chanalt`. -/
def chanopResult (r : Int) : Int := if r < 0 then -1 else 1

/-! ## Creation -/

/-- An `int` as the value of an `unsigned int`. -/
def toUint (i : Int) : Nat := (i % 2 ^ 32).toNat

/-- `bufsize*elemsize` as the `int` that the code computes. -/
def bufArea (elemsize bufsize : Int) : Int := (BitVec.ofInt 32 (bufsize * elemsize)).toInt

/-- `chancreate`, where `malloc` returned `c`, with `junk` behind the header.  Its `memset` of
the header stays in the block if `bufsize*elemsize` is not negative as an `int`; for a value
between -64 and 0 the block is shorter than the header. -/
def chancreate (s : St) (c : Option ChanPtr) (elemsize bufsize : Int)
    (junk : Bytes.Memory) : Except Halt St :=
  match c with
  | none => .error .chancreateMalloc
  | some c =>
      .ok { s.setChan c {
          elemsize := toUint elemsize
          bufsize := toUint bufsize
          buf := junk
          bufbytes := bufArea elemsize bufsize } with
        chans := c :: s.chans }

end Libtask
