import Libtask.Fdwrite
import Libtask.Lib.Interaction
import Libtask.Lib.Sockets
import Libtask.Net

/-!
# Reading, writing and dialing

The functions of `fd.c` and `net.c` that make system calls, as parts of programs that call their
environment.  Each one goes on with `next` when it returns; a loop goes back to a label `again` of
its caller.

The debugging strings of `taskstate` and the `errno` that `netdial` leaves are left out.
-/

namespace Libtask.Netio

/-- What a task asks of the system, and `fdwait`. -/
inductive Call where
  | os (c : Sockets.Call)
  | fdwait (fd : Int) (rw : Char)
  /-- reads an array of this size that was not initialised -/
  | junk (size : Nat)
  deriving DecidableEq

abbrev Answer := Sockets.Answer

/-- How a task ends the program. -/
inductive Stop where
  | taskexitall (status : Int)
  | abort
  deriving DecidableEq

abbrev Prog (L : Type) := Interaction.Prog Call Answer L Stop

abbrev Proc (L : Type) := Interaction.Proc Call Answer L Stop

/-- What the system does.  Nothing changes in `fdwait`, as far as the descriptors go. -/
def does (os : Sockets.Os) : Call → Answer → Option Sockets.Os
  | .os c, a => Sockets.does os c a
  | .fdwait _ _, _ => some os
  | .junk _, _ => some os

variable {L : Type}

/-- Go on with the answer of a system call. -/
abbrev sys (c : Sockets.Call) (next : Answer → Prog L) : Prog L := .call (.os c) next

abbrev fdwait (fd : Int) (rw : Char) (next : Prog L) : Prog L := .call (.fdwait fd rw) fun _ => next

/-! ## `fd.c` -/

/-- `O_NONBLOCK` -/
def nonblock : BitVec 32 := 0x800

def fdnoblock (fd : Int) (next : Prog L) : Prog L :=
  sys (.getfl fd) fun flags =>
    sys (.setfl fd (BitVec.ofInt 32 flags.r ||| nonblock)) fun _ => next

/-- `errno == EAGAIN` after a call that failed. -/
def Answer.again (a : Answer) : Prop := a.r < 0 ∧ a.errno = .eagain

instance (a : Answer) : Decidable (Answer.again a) := inferInstanceAs (Decidable (_ ∧ _))

/-- One turn of the loop of `fdread`. -/
def fdread (fd : Int) (n : Nat) (again : L) (next : Answer → Prog L) : Prog L :=
  sys (.read fd n) fun m => if Answer.again m then fdwait fd 'r' (.goto again) else next m

/-- `fdwrite` from one `write` or `fdwait` to the next. -/
def fdwrite (fd : Int) (buf : List UInt8) (s : Fdwrite.St) (again : Fdwrite.St → L)
    (next : Int → Prog L) : Prog L :=
  match s.pc with
  | .ret r => next r
  | .fdwait => fdwait fd 'w' (.goto (again { s with pc := .write }))
  | .write =>
      sys (.write fd (buf.drop s.tot.toNat)) fun m =>
        .goto (again (Fdwrite.wrote fd buf.length s m.r (m.errno = .eagain)))

/-! ## `net.c` -/

/-- `INADDR_ANY`, what `memset` leaves in `sa.sin_addr` -/
def anyAddress : List UInt8 := [0, 0, 0, 0]

/-- The port in `sa.sin_port`, a `uint16_t`. -/
def htons (port : Int) : Nat := (port % 2 ^ 16).toNat

def sockType (istcp : Bool) : Sockets.SockType := if istcp then .stream else .dgram

/-- `Libtask.netlookup`, where the answer to `gethostbyname` is negative if it returns 0. -/
def netlookup (name : List UInt8) (next : Option (List UInt8) → Prog L) : Prog L :=
  .call (.junk 4) fun addr =>
    match parseip name fun i => addr.data.getD i 0 with
    | some ip => next (some ip)
    | none => sys (.gethostbyname name) fun he => next (if he.r < 0 then none else some he.data)

/-- `netannounce` from `bind` on. -/
def bindAt (istcp : Bool) (fd : Int) (ip : List UInt8) (port : Int) (next : Int → Prog L) :
    Prog L :=
  sys (.bind fd ip (htons port)) fun b =>
    if b.r < 0 then sys (.close fd) fun _ => next (-1)
    else if istcp then sys (.listen fd 16) fun _ => fdnoblock fd (next fd)
    else fdnoblock fd (next fd)

/-- `netannounce` from `socket` on. -/
def announceAt (istcp : Bool) (ip : List UInt8) (port : Int) (next : Int → Prog L) : Prog L :=
  sys (.socket (sockType istcp)) fun fd =>
    if fd.r < 0 then next (-1)
    else if istcp then
      sys (.getsockopt fd.r .type) fun n =>
        if n.r ≥ 0 then sys (.setsockopt fd.r .reuseaddr 1) fun _ => bindAt istcp fd.r ip port next
        else bindAt istcp fd.r ip port next
    else bindAt istcp fd.r ip port next

def netannounce (istcp : Bool) (server : Option (List UInt8)) (port : Int)
    (next : Int → Prog L) : Prog L :=
  match server with
  | none => announceAt istcp anyAddress port next
  | some server =>
      if server = ['*'.toUInt8] then announceAt istcp anyAddress port next
      else netlookup server fun
        | none => next (-1)
        | some ip => announceAt istcp ip port next

/-- Its results are the descriptor, and the address and port of the client. -/
def netaccept (fd : Int) (next : Int → List UInt8 → Prog L) : Prog L :=
  fdwait fd 'r' (sys (.accept fd) fun cfd =>
    if cfd.r < 0 then next (-1) []
    else fdnoblock cfd.r (sys (.setsockopt cfd.r .nodelay 1) fun _ => next cfd.r cfd.data))

/-- `netdial` from `connect` on. -/
def dialAt (fd : Int) (ip : List UInt8) (port : Int) (next : Int → Prog L) : Prog L :=
  sys (.connect fd ip (htons port)) fun c =>
    if c.r < 0 ∧ c.errno ≠ .einprogress then sys (.close fd) fun _ => next (-1)
    else fdwait fd 'w' (sys (.getpeername fd) fun p =>
      if p.r ≥ 0 then next fd
      else sys (.getsockopt fd .error) fun _ => sys (.close fd) fun _ => next (-1))

def netdial (istcp : Bool) (server : List UInt8) (port : Int) (next : Int → Prog L) : Prog L :=
  netlookup server fun
    | none => next (-1)
    | some ip =>
        sys (.socket (sockType istcp)) fun fd =>
          if fd.r < 0 then next (-1)
          else fdnoblock fd.r (
            if istcp then dialAt fd.r ip port next
            else sys (.setsockopt fd.r .broadcast 1) fun _ => dialAt fd.r ip port next)

end Libtask.Netio
