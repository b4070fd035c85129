import Libtask.Runtime

/-!
# What operations leave alone

Specification of the list primitives, and the frame relations under which the
correctness arguments of the components are independent of each other: the
operations on locks and channels are quiet on everything else, and every operation
that is not about locks is quiet on them.
-/

namespace Libtask

open Function (update)
open Outcome (bind_eq_ok)

/-! ## List primitives -/

theorem addtask_ok {s s' : St} {l : ListId} {t : TaskPtr} (done : addtask s l t = .ok s') :
    ∃ lists : Tasklists, s' = { s with lists } ∧ s.home t = none ∧
      lists.seq = update s.seq l (s.seq l ++ [t]) ∧ lists.home = update s.home t (some l) := by
  unfold addtask at done
  split at done
  next lists pushed =>
    obtain ⟨free, seqEq, homeEq⟩ := Dlist.Dlists.push?_eq_some pushed
    exact ⟨lists, (Except.ok.inj done).symm, free, seqEq, homeEq⟩
  next => cases done

theorem deltask_ok {s s' : St} {l : ListId} {t : TaskPtr} (done : deltask s l t = .ok s') :
    ∃ lists : Tasklists, s' = { s with lists } ∧ s.home t = some l ∧
      lists.seq = update s.seq l ((s.seq l).erase t) ∧ lists.home = update s.home t none := by
  unfold deltask at done
  split at done
  next lists removed =>
    obtain ⟨held, seqEq, homeEq⟩ := Dlist.Dlists.remove?_eq_some removed
    exact ⟨lists, (Except.ok.inj done).symm, held, seqEq, homeEq⟩
  next => cases done

theorem addtask_free (s : St) (l : ListId) (t : TaskPtr) (free : s.home t = none) :
    ∃ s', addtask s l t = .ok s' := by
  simp only [addtask, Dlist.Dlists.push?, dif_pos free]
  exact ⟨_, rfl⟩

theorem deltask_held (s : St) (l : ListId) (t : TaskPtr) (held : s.home t = some l) :
    ∃ s', deltask s l t = .ok s' := by
  simp only [deltask, Dlist.Dlists.remove?, dif_pos held]
  exact ⟨_, rfl⟩

@[simp] theorem head_eq (s : St) (l : ListId) : head s l = (s.seq l).head? :=
  s.lists.head_eq l

theorem mem_seq_iff (s : St) (t : TaskPtr) (l : ListId) : t ∈ s.seq l ↔ s.home t = some l :=
  s.lists.mem_seq t l

theorem taskready_ok {s s' : St} {t : TaskPtr} (done : taskready s t = .ok s') :
    ∃ lists : Tasklists, s.home t = none ∧
      s' = { s with lists, task := update s.task t { s.task t with ready := true } } ∧
      lists.seq = update s.seq .taskrunqueue (s.seq .taskrunqueue ++ [t]) ∧
      lists.home = update s.home t (some .taskrunqueue) := by
  obtain ⟨lists, rfl, free, seqEq, homeEq⟩ := addtask_ok done
  exact ⟨lists, free, rfl, seqEq, homeEq⟩

/-! ## Waking tasks -/

/-- The tasks `woken`, the first ones of the list `l`, move to the run queue in
their order. -/
structure Woken (s s' : St) (l : ListId) (woken : List TaskPtr) : Prop where
  taken : s.seq l = woken ++ s'.seq l
  run : s'.seq .taskrunqueue = s.seq .taskrunqueue ++ woken
  other : ∀ l', l' ≠ l → l' ≠ .taskrunqueue → s'.seq l' = s.seq l'
  home : ∀ t, s'.home t = if t ∈ woken then some .taskrunqueue else s.home t
  task : ∀ t, s'.task t = if t ∈ woken then { s.task t with ready := true } else s.task t

theorem Woken.nil {s s' : St} {l : ListId} (lists : s'.lists = s.lists)
    (task : s'.task = s.task) : Woken s s' l [] where
  taken := by simp [St.seq, lists]
  run := by simp [St.seq, lists]
  other := by simp [St.seq, lists]
  home := by simp [St.home, lists]
  task := by simp [task]

theorem Woken.append {s s₁ s' : St} {l : ListId} {first second : List TaskPtr}
    (before : Woken s s₁ l first) (after : Woken s₁ s' l second) :
    Woken s s' l (first ++ second) where
  taken := by rw [before.taken, after.taken, List.append_assoc]
  run := by rw [after.run, before.run, List.append_assoc]
  other l' notSource notRun := by
    rw [after.other l' notSource notRun, before.other l' notSource notRun]
  home t := by
    rw [after.home, before.home]
    by_cases inFirst : t ∈ first <;> by_cases inSecond : t ∈ second <;> simp [inFirst, inSecond]
  task t := by
    rw [after.task, before.task]
    by_cases inFirst : t ∈ first <;> by_cases inSecond : t ∈ second <;> simp [inFirst, inSecond]

/-- Only the lists and the `ready` flags matter. -/
theorem Woken.congr {s₀ s s' s₁ : St} {l : ListId} {woken : List TaskPtr}
    (woke : Woken s s' l woken) (lists : s₀.lists = s.lists) (task : s₀.task = s.task)
    (lists' : s₁.lists = s'.lists) (task' : s₁.task = s'.task) : Woken s₀ s₁ l woken := by
  constructor
  · simpa only [St.seq, lists, lists'] using woke.taken
  · simpa only [St.seq, lists, lists'] using woke.run
  · simpa only [St.seq, lists, lists'] using woke.other
  · simpa only [St.home, lists, lists'] using woke.home
  · simpa only [task, task'] using woke.task

/-- `deltask` of the head of a list, then `taskready`, with changes to other
variables in between. -/
theorem woken_head {s s₁ s₂ s' : St} {l : ListId} {t : TaskPtr} (notRun : l ≠ .taskrunqueue)
    (isHead : head s l = some t) (removed : deltask s l t = .ok s₁)
    (readied : taskready s₂ t = .ok s') (lists : s₂.lists = s₁.lists)
    (task : s₂.task = s₁.task) : Woken s s' l [t] := by
  obtain ⟨lists₁, rfl, held, seqEq, homeEq⟩ := deltask_ok removed
  obtain ⟨lists', free, rfl, seqEq', homeEq'⟩ := taskready_ok readied
  simp only [St.seq, St.home, lists] at seqEq' homeEq'
  obtain ⟨rest, split⟩ := List.head?_eq_some_iff.mp (by simpa using isHead)
  have differs : ListId.taskrunqueue ≠ l := Ne.symm notRun
  have notListed : t ∉ s.seq .taskrunqueue := by
    rw [mem_seq_iff, held]
    simpa using notRun
  constructor
  · simp [seqEq', seqEq, notRun, split]
  · simp [seqEq', seqEq, differs]
  · intro l' notSource notRun'
    simp [seqEq', seqEq, notSource, notRun']
  · intro u
    by_cases same : u = t
    · simp [homeEq', same]
    · simp [homeEq', homeEq, same]
  · intro u
    by_cases same : u = t
    · simp [same, task]
    · simp [same, task]

/-! ## The three parts of the state -/

/-- The part of the library that an event is about. -/
inductive Part where
  | locks
  | channels
  | tasks
  deriving DecidableEq

def Event.part : Event → Part
  | .qlockGrant .. | .qlockBlock .. | .qunlock .. => .locks
  | .rlockGrant .. | .rlockBlock .. | .wlockGrant .. | .wlockBlock .. => .locks
  | .runlock .. | .wunlock .. => .locks
  | .tasksleep .. | .taskwakeup .. | .sleepReturn .. => .locks
  | .sent .. | .received .. | .altBlock .. | .altReturn .. => .channels
  | .dispatch .. | .exit .. | .poll .. | .alarm .. => .tasks

/-- The events about one part. -/
def St.events (s : St) (part : Part) : List Event :=
  s.trace.filter fun e => e.part = part

theorem events_log (s : St) (e : Event) (part : Part) :
    (s.log e).events part = s.events part ++ if e.part = part then [e] else [] := by
  by_cases same : e.part = part <;> simp [St.events, St.log, same]

/-- The waiting lists of locks and condition variables. -/
def ListId.isWaiting : ListId → Bool
  | .taskrunqueue | .sleeping => false
  | _ => true

/-- A task without its `ready` flag, which is about the run queue. -/
def Task.still (task : Task) : Task := { task with ready := false }

/-- Nothing about locks and condition variables changes. -/
structure KeepsLocks (s s' : St) : Prop where
  owner : s'.owner = s.owner
  rwlock : s'.rwlock = s.rwlock
  rendez : s'.rendez = s.rendez
  waiting : ∀ l, l.isWaiting = true → s'.seq l = s.seq l
  events : s'.events .locks = s.events .locks

/-- Nothing about channels changes. -/
structure KeepsChannels (s s' : St) : Prop where
  chans : s'.chans = s.chans
  chan : s'.chan = s.chan
  alts : s'.alts = s.alts
  mem : s'.mem = s.mem
  events : s'.events .channels = s.events .channels

/-- Variables of the scheduler, of the poll table and of the timers. -/
structure Globals where
  taskcount : Int
  tasknswitch : BitVec 32
  taskexitval : Int
  taskrunning : Option TaskPtr
  alltask : List TaskPtr
  alltaskcap : Nat
  taskidgen : Nat
  pollfd : Nat → Pollfd
  polltask : Nat → TaskPtr
  npollfd : Nat
  startedfdtask : Bool
  sleepingcounted : Int

def St.globals (s : St) : Globals where
  taskcount := s.taskcount
  tasknswitch := s.tasknswitch
  taskexitval := s.taskexitval
  taskrunning := s.taskrunning
  alltask := s.alltask
  alltaskcap := s.alltaskcap
  taskidgen := s.taskidgen
  pollfd := s.pollfd
  polltask := s.polltask
  npollfd := s.npollfd
  startedfdtask := s.startedfdtask
  sleepingcounted := s.sleepingcounted

/-- Nothing about tasks changes, except which of them are ready. -/
structure KeepsTasks (s s' : St) : Prop where
  globals : s'.globals = s.globals
  still : ∀ t, (s'.task t).still = (s.task t).still
  sleeping : s'.seq .sleeping = s.seq .sleeping
  events : s'.events .tasks = s.events .tasks

theorem KeepsLocks.refl (s : St) : KeepsLocks s s := ⟨rfl, rfl, rfl, fun _ _ => rfl, rfl⟩

theorem KeepsChannels.refl (s : St) : KeepsChannels s s := ⟨rfl, rfl, rfl, rfl, rfl⟩

theorem KeepsTasks.refl (s : St) : KeepsTasks s s := ⟨rfl, fun _ => rfl, rfl, rfl⟩

theorem KeepsLocks.trans {s₁ s₂ s₃ : St} (first : KeepsLocks s₁ s₂)
    (second : KeepsLocks s₂ s₃) : KeepsLocks s₁ s₃ where
  owner := second.owner.trans first.owner
  rwlock := second.rwlock.trans first.rwlock
  rendez := second.rendez.trans first.rendez
  waiting l isWaiting := (second.waiting l isWaiting).trans (first.waiting l isWaiting)
  events := second.events.trans first.events

theorem KeepsChannels.trans {s₁ s₂ s₃ : St} (first : KeepsChannels s₁ s₂)
    (second : KeepsChannels s₂ s₃) : KeepsChannels s₁ s₃ where
  chans := second.chans.trans first.chans
  chan := second.chan.trans first.chan
  alts := second.alts.trans first.alts
  mem := second.mem.trans first.mem
  events := second.events.trans first.events

theorem KeepsTasks.trans {s₁ s₂ s₃ : St} (first : KeepsTasks s₁ s₂)
    (second : KeepsTasks s₂ s₃) : KeepsTasks s₁ s₃ where
  globals := second.globals.trans first.globals
  still t := (second.still t).trans (first.still t)
  sleeping := second.sleeping.trans first.sleeping
  events := second.events.trans first.events

theorem KeepsTasks.pc {s s' : St} (keeps : KeepsTasks s s') (t : TaskPtr) :
    (s'.task t).pc = (s.task t).pc := by
  simpa [Task.still] using congrArg Task.pc (keeps.still t)

theorem KeepsTasks.system {s s' : St} (keeps : KeepsTasks s s') (t : TaskPtr) :
    (s'.task t).system = (s.task t).system := by
  simpa [Task.still] using congrArg Task.system (keeps.still t)

theorem KeepsTasks.alltask {s s' : St} (keeps : KeepsTasks s s') : s'.alltask = s.alltask :=
  congrArg Globals.alltask keeps.globals

theorem KeepsTasks.taskrunning {s s' : St} (keeps : KeepsTasks s s') :
    s'.taskrunning = s.taskrunning :=
  congrArg Globals.taskrunning keeps.globals

/-! ## List primitives and the parts -/

theorem addtask_keepsChannels {s s' : St} {l : ListId} {t : TaskPtr}
    (done : addtask s l t = .ok s') : KeepsChannels s s' := by
  obtain ⟨lists, rfl, -⟩ := addtask_ok done
  exact ⟨rfl, rfl, rfl, rfl, rfl⟩

theorem addtask_keepsLocks {s s' : St} {l : ListId} {t : TaskPtr}
    (done : addtask s l t = .ok s') (notWaiting : l.isWaiting = false) : KeepsLocks s s' := by
  obtain ⟨lists, rfl, -, seqEq, -⟩ := addtask_ok done
  refine ⟨rfl, rfl, rfl, fun l' isWaiting => ?_, rfl⟩
  have different : l' ≠ l := by
    rintro rfl
    simp [notWaiting] at isWaiting
  simp [seqEq, different]

theorem addtask_keepsTasks {s s' : St} {l : ListId} {t : TaskPtr}
    (done : addtask s l t = .ok s') (notSleeping : l ≠ .sleeping) : KeepsTasks s s' := by
  obtain ⟨lists, rfl, -, seqEq, -⟩ := addtask_ok done
  exact ⟨rfl, fun _ => rfl, by simp [seqEq, Ne.symm notSleeping], rfl⟩

theorem deltask_keepsChannels {s s' : St} {l : ListId} {t : TaskPtr}
    (done : deltask s l t = .ok s') : KeepsChannels s s' := by
  obtain ⟨lists, rfl, -⟩ := deltask_ok done
  exact ⟨rfl, rfl, rfl, rfl, rfl⟩

theorem deltask_keepsLocks {s s' : St} {l : ListId} {t : TaskPtr}
    (done : deltask s l t = .ok s') (notWaiting : l.isWaiting = false) : KeepsLocks s s' := by
  obtain ⟨lists, rfl, -, seqEq, -⟩ := deltask_ok done
  refine ⟨rfl, rfl, rfl, fun l' isWaiting => ?_, rfl⟩
  have different : l' ≠ l := by
    rintro rfl
    simp [notWaiting] at isWaiting
  simp [seqEq, different]

theorem setTask_keepsLocks (s : St) (t : TaskPtr) (f : Task → Task) :
    KeepsLocks s (s.setTask t f) :=
  ⟨rfl, rfl, rfl, fun _ _ => rfl, rfl⟩

theorem setTask_keepsChannels (s : St) (t : TaskPtr) (f : Task → Task) :
    KeepsChannels s (s.setTask t f) :=
  ⟨rfl, rfl, rfl, rfl, rfl⟩

theorem log_keepsLocks (s : St) {e : Event} (notLocks : e.part ≠ .locks) :
    KeepsLocks s (s.log e) :=
  ⟨rfl, rfl, rfl, fun _ _ => rfl, by simp [events_log, notLocks]⟩

theorem log_keepsChannels (s : St) {e : Event} (notChannels : e.part ≠ .channels) :
    KeepsChannels s (s.log e) :=
  ⟨rfl, rfl, rfl, rfl, by simp [events_log, notChannels]⟩

theorem log_keepsTasks (s : St) {e : Event} (notTasks : e.part ≠ .tasks) :
    KeepsTasks s (s.log e) :=
  ⟨rfl, fun _ => rfl, rfl, by simp [events_log, notTasks]⟩

theorem taskready_keepsLocks {s s' : St} {t : TaskPtr} (done : taskready s t = .ok s') :
    KeepsLocks s s' :=
  (setTask_keepsLocks s t _).trans (addtask_keepsLocks done rfl)

theorem taskready_keepsChannels {s s' : St} {t : TaskPtr} (done : taskready s t = .ok s') :
    KeepsChannels s s' :=
  (setTask_keepsChannels s t _).trans (addtask_keepsChannels done)

theorem taskready_keepsTasks {s s' : St} {t : TaskPtr} (done : taskready s t = .ok s') :
    KeepsTasks s s' := by
  unfold taskready at done
  refine KeepsTasks.trans ?_ (addtask_keepsTasks done (by simp))
  refine ⟨rfl, fun u => ?_, rfl, rfl⟩
  by_cases same : u = t
  · subst same
    simp [St.setTask, Task.still]
  · simp [St.setTask, same]

theorem Woken.keepsTasks {s s' : St} {l : ListId} {woken : List TaskPtr}
    (woke : Woken s s' l woken) (notSleeping : l ≠ .sleeping)
    (globals : s'.globals = s.globals) (events : s'.events .tasks = s.events .tasks) :
    KeepsTasks s s' where
  globals := globals
  still t := by
    rw [woke.task]
    split <;> rfl
  sleeping := woke.other _ (Ne.symm notSleeping) (by simp)
  events := events

end Libtask
