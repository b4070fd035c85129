import Libtask.Task

/-!
# Timers and polling

The functions of `fd.c` that move tasks: `taskdelay`, `fdwait` and the system task
`fdtask`.  Times are nanoseconds, reduced modulo `2 ^ 64` as `uvlong` is.
-/

namespace Libtask

open Function (update)

def maxfd : Nat := 1024

def pollin : Nat := 1

def pollout : Nat := 4

/-- What a call of `poll` does: it fails, or it stores `revents` in the entries. -/
inductive PollResult where
  | eintr
  | error
  | ready (revents : Nat → Nat)

/-- What the system calls return while a task is dispatched: `nsec()` before and
after `poll`, and `poll`.  A task that returns from `taskdelay` reads `now`. -/
structure Env where
  now : Nat := 0
  poll : PollResult := .eintr
  nowAfter : Nat := 0

/-! ## Waiting -/

/-- Start `fdtask` unless it was started, with the memory that `m` says. -/
def startfdtask (s : St) (m : Alloc) : Except Halt St :=
  if s.startedfdtask then .ok s
  else do
    let (s, _) ← taskcreate { s with startedfdtask := true } m .fdtask
    return s

/-- The first task of the list whose alarm is not before `due`.  The loop follows
`next`; the length of the list is enough `fuel`. -/
def delayPosition (s : St) (due : Nat) : Nat → Option TaskPtr → Option TaskPtr
  | _, none => none
  | 0, some t => some t
  | fuel + 1, some t =>
      if (s.task t).alarmtime < due then delayPosition s due fuel (s.lists.links.next t)
      else some t

/-- `taskdelay` up to its `taskswitch`, where `nsec()` returns `now`. -/
def taskdelay (s : St) (self : TaskPtr) (ms now : Nat) (m : Alloc) :
    Except Halt (St × Flow) := do
  let s ← startfdtask s m
  let due := (now + ms * 1000000) % 2 ^ 64
  let position := delayPosition s due (s.seq .sleeping).length (head s .sleeping)
  match s.lists.insert? .sleeping self position with
  | none => fault .tasklist
  | some lists =>
      let s := { s with lists }
      let s := s.setTask self fun task => { task with alarmtime := due }
      let s :=
        if (s.task self).system then s
        else
          { s with
            taskcount := if s.sleepingcounted = 0 then s.taskcount + 1 else s.taskcount
            sleepingcounted := s.sleepingcounted + 1 }
      return (s, .switch (.taskdelay now))

/-- What `taskdelay` returns, as an `unsigned int`. -/
def taskdelayReturn (start now : Nat) : Int :=
  ((now + 2 ^ 64 - start) % 2 ^ 64 / 1000000 % 2 ^ 32 : Nat)

/-- The event bits that `fdwait` asks for. -/
def fdbits (rw : Char) : Nat :=
  if rw = 'r' then pollin else if rw = 'w' then pollout else 0

/-- `fdwait` up to its `taskswitch`. -/
def fdwait (s : St) (self : TaskPtr) (fd : Int) (rw : Char) (m : Alloc) :
    Except Halt (St × Flow) := do
  let s ← startfdtask s m
  if s.npollfd ≥ maxfd then abort .tooManyPollFds
  else
    let entry : Pollfd := { fd, events := fdbits rw, revents := 0 }
    let s := { s with
      polltask := update s.polltask s.npollfd self
      pollfd := update s.pollfd s.npollfd entry
      npollfd := s.npollfd + 1 }
    return (s, .switch .fdwait)

/-! ## The passes of fdtask -/

/-- The timeout for `poll`, in milliseconds, where `nsec()` returns `now`. -/
def polltimeout (s : St) (now : Nat) : Int :=
  match head s .sleeping with
  | none => -1
  | some t =>
      let alarm := (s.task t).alarmtime
      if now ≥ alarm then 0
      else if (now + 5 * 1000 * 1000 * 1000) % 2 ^ 64 ≥ alarm then
        (BitVec.ofNat 32 ((alarm - now) / 1000000)).toInt
      else 5000

/-- The inner loop over the poll table: entry `i` has events, so its task becomes
ready and the last entry takes its place. -/
def pollwakeWhile (i : Nat) : Nat → St → Except Halt St
  | fuel, s =>
      if i < s.npollfd ∧ (s.pollfd i).revents ≠ 0 then
        match fuel with
        | 0 => fault .fuel
        | fuel + 1 =>
            if maxfd < s.npollfd then fault .pollRange
            else do
              let s ← taskready s (s.polltask i)
              let last := s.npollfd - 1
              pollwakeWhile i fuel { s with
                npollfd := last
                pollfd := update s.pollfd i (s.pollfd last)
                polltask := update s.polltask i (s.polltask last) }
      else .ok s

/-- The outer loop over the poll table, from entry `i` on. -/
def pollwake : Nat → Nat → St → Except Halt St
  | fuel, i, s =>
      if i < s.npollfd then
        match fuel with
        | 0 => fault .fuel
        | fuel + 1 => do
            let s ← pollwakeWhile i s.npollfd s
            pollwake fuel (i + 1) s
      else .ok s

/-- The loop that wakes the sleepers whose alarm is not after `now`. -/
def alarmwake (now : Nat) : Nat → St → Except Halt (St × List TaskPtr)
  | fuel, s =>
      match head s .sleeping with
      | none => .ok (s, [])
      | some t =>
          if now ≥ (s.task t).alarmtime then
            match fuel with
            | 0 => fault .fuel
            | fuel + 1 => do
                let s ← deltask s .sleeping t
                let s :=
                  if (s.task t).system then s
                  else
                    { s with
                      taskcount :=
                        if s.sleepingcounted - 1 = 0 then s.taskcount - 1 else s.taskcount
                      sleepingcounted := s.sleepingcounted - 1 }
                let s ← taskready s t
                let (s, woken) ← alarmwake now fuel s
                return (s, t :: woken)
          else .ok (s, [])

/-- `fdtask` gives up the CPU in the `taskyield` of its loop. -/
def fdtaskYield (s : St) (self : TaskPtr) : Except Halt (St × Flow) := do
  let (s, n) ← taskyield s self
  return (s, .switch (.fdtaskYield n))

/-- One pass of `fdtask`, from the return of `taskyield` to its next call. -/
def fdtaskPass (s : St) (self : TaskPtr) (n : BitVec 32) (env : Env) :
    Except Halt (St × Flow) :=
  if taskyieldReturn s n > 0 then fdtaskYield s self
  else
    let s := s.log (.poll (polltimeout s env.now) s.npollfd)
    match env.poll with
    | .eintr => fdtaskYield s self
    | .error => .error .pollError
    | .ready revents => do
        let s := { s with
          pollfd := fun i =>
            if i < s.npollfd then { s.pollfd i with revents := revents i } else s.pollfd i }
        let s ← pollwake s.npollfd 0 s
        let (s, woken) ← alarmwake env.nowAfter (s.seq .sleeping).length s
        fdtaskYield (s.log (.alarm env.nowAfter woken)) self

end Libtask
