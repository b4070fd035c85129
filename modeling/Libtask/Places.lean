import Libtask.StepFrame

/-!
# The place of every task

The global invariant: where each live task is, and what the task table, the lists,
the poll table and the channels hold because of it.  The parameter `run` is the
task in its own code or inside a library call, of which nothing is said but that it
is in no list.  The clauses about single tasks are stated for one task, so that an
operation has to be looked at only for the tasks that it moves.
-/

namespace Libtask

open Function (update update_self update_of_ne update_apply)

/-- The list in which a task that gave up the CPU at `pc` waits until it is woken. -/
def Pc.waitlist : Pc → Option ListId
  | .qlock l => some (.qwaiting l)
  | .rlock l => some (.rwaiting l)
  | .wlock l => some (.wwaiting l)
  | .tasksleep r => some (.waiting r)
  | .tasksleepQlock _ l => some (.qwaiting l)
  | .taskdelay _ => some .sleeping
  | _ => none

/-- `t` is live and gave up the CPU at `pc`. -/
structure Stopped (run : Option TaskPtr) (s : St) (t : TaskPtr) (pc : Pc) : Prop where
  live : t ∈ s.alltask
  idle : run ≠ some t
  pc : (s.task t).pc = pc

theorem stopped_away {s : St} {t : TaskPtr} {pc : Pc} (live : t ∈ s.alltask)
    (pcEq : (s.task t).pc = pc) : Stopped none s t pc :=
  ⟨live, by simp, pcEq⟩

/-! ## Clauses -/

/-- The task table. -/
structure Table (s : St) : Prop where
  nodup : s.alltask.Nodup
  slot : ∀ i t, s.alltask[i]? = some t → (s.task t).alltaskslot = i
  blocks : s.alltaskcap % 64 = 0
  room : s.alltask.length ≤ s.alltaskcap
  staying : ∀ t, t ∈ s.alltask → (s.task t).exiting = false

/-- The lists, for task `t`. -/
structure Listed (run : Option TaskPtr) (s : St) (t : TaskPtr) : Prop where
  running : run = some t → t ∈ s.alltask ∧ s.home t = none
  live : ∀ l, s.home t = some l → t ∈ s.alltask
  ready : (s.task t).ready = true ↔ s.home t = some .taskrunqueue
  waits : ∀ l, s.home t = some l → l ≠ .taskrunqueue → (s.task t).pc.waitlist = some l
  outside : ∀ pc, Stopped run s t pc → s.home t = none →
    pc = .fdwait ∨ ∃ a, pc.altbase = some a
  going : ∀ pc, Stopped run s t pc → pc ≠ .taskexit

/-- The poll table. -/
structure Polled (run : Option TaskPtr) (s : St) : Prop where
  room : s.npollfd ≤ maxfd
  owner : ∀ i, i < s.npollfd →
    Stopped run s (s.polltask i) .fdwait ∧ s.home (s.polltask i) = none
  unique : ∀ i j, i < s.npollfd → j < s.npollfd → s.polltask i = s.polltask j → i = j
  entry : ∀ t, Stopped run s t .fdwait → s.home t = none → ∃ i, i < s.npollfd ∧ s.polltask i = t

/-- The alt array at `a` while task `t` is blocked on it. -/
structure Waiting (s : St) (t : TaskPtr) (a : Nat) : Prop where
  isTerminated : terminated (s.alts a) = true
  own : ∀ i alt, i < altcount (s.alts a) → (s.alts a)[i]? = some alt →
    alt.task = t ∧ alt.xalt = ⟨a, 0⟩
  queued : ∀ i alt dir, i < altcount (s.alts a) → (s.alts a)[i]? = some alt →
    chanarray alt.op = some dir → (⟨a, i⟩ : AltPtr) ∈ s.queue alt.c dir

/-- The array at `a` of a task that was woken: the first entry tells which
alternative was executed. -/
def Told (s : St) (a : Nat) : Prop :=
  ∃ first alt, s.alt? ⟨a, 0⟩ = some first ∧ first.xalt.base = a ∧
    s.alt? first.xalt = some alt ∧ chanarray alt.op ≠ none

/-- The queues of the channels. -/
structure Parked (run : Option TaskPtr) (s : St) : Prop where
  queues : Queues s
  known : ∀ c dir p, p ∈ s.queue c dir → c ∈ s.chans
  owner : ∀ c dir p, p ∈ s.queue c dir →
    ∃ t pc, Stopped run s t pc ∧ pc.altbase = some p.base ∧ s.home t = none
  waiting : ∀ t pc a, Stopped run s t pc → pc.altbase = some a → s.home t = none →
    Waiting s t a
  told : ∀ t pc a, Stopped run s t pc → pc.altbase = some a → s.home t ≠ none → Told s a
  distinct : ∀ t u pc pc' a, Stopped run s t pc → Stopped run s u pc' →
    pc.altbase = some a → pc'.altbase = some a → t = u

/-- The whole invariant. -/
structure Inv (run : Option TaskPtr) (s : St) : Prop where
  table : Table s
  listed : ∀ t, Listed run s t
  polled : Polled run s
  parked : Parked run s

/-! ## Tasks that an operation does not move -/

/-- Two states agree on where task `t` is. -/
structure SameAt (run : Option TaskPtr) (s : St) (run' : Option TaskPtr) (s' : St)
    (t : TaskPtr) : Prop where
  live : t ∈ s'.alltask ↔ t ∈ s.alltask
  run : run' = some t ↔ run = some t
  home : s'.home t = s.home t
  ready : (s'.task t).ready = (s.task t).ready
  pc : (s'.task t).pc = (s.task t).pc

section

variable {run run' : Option TaskPtr} {s s' : St} {t : TaskPtr}

theorem SameAt.stopped (same : SameAt run s run' s' t) (pc : Pc) :
    Stopped run' s' t pc ↔ Stopped run s t pc := by
  constructor
  · rintro ⟨live, idle, pcEq⟩
    exact ⟨same.live.mp live, fun running => idle (same.run.mpr running), same.pc ▸ pcEq⟩
  · rintro ⟨live, idle, pcEq⟩
    exact ⟨same.live.mpr live, fun running => idle (same.run.mp running),
      same.pc.trans pcEq⟩

theorem SameAt.listed (same : SameAt run s run' s' t) (listed : Listed run s t) :
    Listed run' s' t := by
  constructor
  · intro running
    obtain ⟨live, free⟩ := listed.running (same.run.mp running)
    exact ⟨same.live.mpr live, same.home.trans free⟩
  · intro l homeEq
    exact same.live.mpr (listed.live l (same.home ▸ homeEq))
  · rw [same.ready, same.home]
    exact listed.ready
  · intro l homeEq notRun
    rw [same.pc]
    exact listed.waits l (same.home ▸ homeEq) notRun
  · intro pc stopped free
    exact listed.outside pc ((same.stopped pc).mp stopped) (same.home ▸ free)
  · intro pc stopped
    exact listed.going pc ((same.stopped pc).mp stopped)

/-- A task that waits for the CPU. -/
theorem Listed.queued (idle : run ≠ some t) (live : t ∈ s.alltask)
    (home : s.home t = some .taskrunqueue) (ready : (s.task t).ready = true)
    (going : (s.task t).pc ≠ .taskexit) : Listed run s t := by
  constructor
  · exact fun running => absurd running idle
  · exact fun _ _ => live
  · rw [ready, home]
    simp
  · intro l homeEq notRun
    rw [home] at homeEq
    exact absurd (Option.some.inj homeEq).symm notRun
  · intro pc _ free
    simp [home] at free
  · intro pc stopped
    exact stopped.pc ▸ going

/-- A task that is in no list is not ready. -/
theorem Listed.notReady (listed : Listed run s t) (free : s.home t = none) :
    (s.task t).ready = false := by
  simpa [free] using listed.ready

/-- A task that gave up the CPU outside of the lists. -/
theorem Listed.away {pc : Pc} (free : s.home t = none) (ready : (s.task t).ready = false)
    (pcEq : (s.task t).pc = pc) (away : pc = .fdwait ∨ ∃ a, pc.altbase = some a) :
    Listed none s t := by
  constructor
  · intro running
    cases running
  · simp [free]
  · simp [ready, free]
  · simp [free]
  · intro pc' stopped _
    exact stopped.pc ▸ pcEq ▸ away
  · rintro pc' stopped rfl
    rw [← pcEq, stopped.pc] at away
    simp [Pc.altbase] at away

/-- The task that runs. -/
theorem Listed.runs (live : t ∈ s.alltask) (free : s.home t = none)
    (ready : (s.task t).ready = false) : Listed (some t) s t := by
  constructor
  · exact fun _ => ⟨live, free⟩
  · simp [free]
  · simp [ready, free]
  · simp [free]
  · exact fun pc stopped _ => absurd rfl stopped.idle
  · exact fun pc stopped => absurd rfl stopped.idle

/-- A task that is not in the table. -/
theorem Listed.gone (gone : t ∉ s.alltask) (free : s.home t = none)
    (ready : (s.task t).ready = false) : Listed none s t := by
  constructor
  · intro running
    cases running
  · simp [free]
  · simp [ready, free]
  · simp [free]
  · exact fun pc stopped _ => absurd stopped.live gone
  · exact fun pc stopped => absurd stopped.live gone

/-- Two states agree on the task table. -/
structure SameTable (s s' : St) : Prop where
  alltask : s'.alltask = s.alltask
  alltaskcap : s'.alltaskcap = s.alltaskcap
  slot : ∀ t, (s'.task t).alltaskslot = (s.task t).alltaskslot
  exiting : ∀ t, (s'.task t).exiting = (s.task t).exiting

/-- Other fields of one task are written. -/
theorem SameTable.of_update {task : Task} (alltask : s'.alltask = s.alltask)
    (alltaskcap : s'.alltaskcap = s.alltaskcap) (taskEq : s'.task = update s.task t task)
    (slot : task.alltaskslot = (s.task t).alltaskslot)
    (exiting : task.exiting = (s.task t).exiting) : SameTable s s' := by
  refine ⟨alltask, alltaskcap, fun u => ?_, fun u => ?_⟩
  · by_cases isT : u = t
    · rw [taskEq, isT, update_self, slot]
    · rw [taskEq, update_of_ne isT]
  · by_cases isT : u = t
    · rw [taskEq, isT, update_self, exiting]
    · rw [taskEq, update_of_ne isT]

/-- Two states agree on the task table and on the poll table. -/
structure SameTables (s s' : St) : Prop extends SameTable s s' where
  npollfd : s'.npollfd = s.npollfd
  polltask : s'.polltask = s.polltask

theorem KeepsTasks.sameTables (keeps : KeepsTasks s s') : SameTables s s' where
  alltask := keeps.alltask
  alltaskcap := congrArg Globals.alltaskcap keeps.globals
  slot t := by simpa [Task.still] using congrArg Task.alltaskslot (keeps.still t)
  exiting t := by simpa [Task.still] using congrArg Task.exiting (keeps.still t)
  npollfd := congrArg Globals.npollfd keeps.globals
  polltask := congrArg Globals.polltask keeps.globals

theorem Table.congr (table : Table s) (same : SameTable s s') : Table s' := by
  constructor
  · exact same.alltask ▸ table.nodup
  · intro i t atIndex
    rw [same.slot]
    exact table.slot i t (same.alltask ▸ atIndex)
  · exact same.alltaskcap ▸ table.blocks
  · rw [same.alltask, same.alltaskcap]
    exact table.room
  · intro t live
    rw [same.exiting]
    exact table.staying t (same.alltask ▸ live)

/-- The tasks that stopped at certain places are the same in two states, up to some
that were woken. -/
structure SameStopped (kind : Pc → Prop) (run : Option TaskPtr) (s : St)
    (run' : Option TaskPtr) (s' : St) : Prop where
  old : ∀ t pc, kind pc → Stopped run' s' t pc → Stopped run s t pc ∧ s'.home t = s.home t
  kept : ∀ t pc, kind pc → Stopped run s t pc → s.home t = none → Stopped run' s' t pc

/-- It is enough to look at the tasks that were moved. -/
theorem sameStopped_of_sameAt {kind : Pc → Prop} (moved : TaskPtr → Prop)
    (same : ∀ t, ¬moved t → SameAt run s run' s' t)
    (noNew : ∀ t pc, moved t → kind pc → ¬Stopped run' s' t pc)
    (noOld : ∀ t pc, moved t → kind pc → Stopped run s t pc → s.home t ≠ none) :
    SameStopped kind run s run' s' := by
  constructor
  · intro t pc isKind stopped
    by_cases isMoved : moved t
    · exact absurd stopped (noNew t pc isMoved isKind)
    · exact ⟨((same t isMoved).stopped pc).mp stopped, (same t isMoved).home⟩
  · intro t pc isKind stopped free
    by_cases isMoved : moved t
    · exact absurd free (noOld t pc isMoved isKind stopped)
    · exact ((same t isMoved).stopped pc).mpr stopped

/-- No task was moved. -/
theorem sameStopped_of_same {kind : Pc → Prop} (same : ∀ t, SameAt run s run' s' t) :
    SameStopped kind run s run' s' where
  old t pc _ stopped := ⟨((same t).stopped pc).mp stopped, (same t).home⟩
  kept t pc _ stopped _ := ((same t).stopped pc).mpr stopped

theorem SameStopped.free {kind : Pc → Prop} (same : SameStopped kind run s run' s') {pc : Pc}
    (isKind : kind pc) (stopped : Stopped run s t pc) (free : s.home t = none) :
    Stopped run' s' t pc ∧ s'.home t = none := by
  have kept := same.kept t pc isKind stopped free
  exact ⟨kept, (same.old t pc isKind kept).2.trans free⟩

theorem Polled.congr (polled : Polled run s)
    (same : SameStopped (· = .fdwait) run s run' s') (npollfd : s'.npollfd = s.npollfd)
    (polltask : s'.polltask = s.polltask) : Polled run' s' := by
  constructor
  · exact npollfd ▸ polled.room
  · intro i inside
    rw [polltask]
    obtain ⟨stopped, free⟩ := polled.owner i (npollfd ▸ inside)
    exact same.free rfl stopped free
  · intro i j iInside jInside
    rw [polltask]
    exact polled.unique i j (npollfd ▸ iInside) (npollfd ▸ jInside)
  · intro t stopped free
    obtain ⟨old, homeEq⟩ := same.old t _ rfl stopped
    rw [npollfd, polltask]
    exact polled.entry t old (homeEq ▸ free)

/-- In `chanalt`. -/
def InAlt (pc : Pc) : Prop := ∃ a, pc.altbase = some a

/-- The array stays, and what is queued from it. -/
theorem Waiting.congr {a : Nat} (waiting : Waiting s t a) (alts : s'.alts a = s.alts a)
    (queue : ∀ c dir i, ⟨a, i⟩ ∈ s.queue c dir → ⟨a, i⟩ ∈ s'.queue c dir) :
    Waiting s' t a := by
  constructor
  · rw [alts]
    exact waiting.isTerminated
  · rw [alts]
    exact waiting.own
  · rw [alts]
    intro i alt dir inside atIndex dirEq
    exact queue _ _ _ (waiting.queued i alt dir inside atIndex dirEq)

theorem Told.congr {a : Nat} (told : Told s a) (alts : s'.alts a = s.alts a) : Told s' a := by
  obtain ⟨first, alt, firstEq, sameBase, altEq, isQueued⟩ := told
  refine ⟨first, alt, ?_, sameBase, ?_, isQueued⟩
  · simpa only [St.alt?, alts] using firstEq
  · simpa only [St.alt?, sameBase, alts] using altEq

/-- The queues stay, and so do the arrays of the tasks in `chanalt`. -/
theorem Parked.congr (parked : Parked run s) (same : SameStopped InAlt run s run' s')
    (queue : ∀ c dir, s'.queue c dir = s.queue c dir)
    (fits : ∀ c dir, ((s'.chan c).queue dir).Fits)
    (chans : ∀ c, c ∈ s.chans → c ∈ s'.chans)
    (alts : ∀ t pc a, Stopped run s t pc → pc.altbase = some a → s'.alts a = s.alts a) :
    Parked run' s' := by
  constructor
  · refine parked.queues.congr queue fits fun c dir p member => ?_
    obtain ⟨t, pc, stopped, base, -⟩ := parked.owner c dir p member
    simp only [St.alt?, alts t pc p.base stopped base]
  · intro c dir p member
    exact chans c (parked.known c dir p (queue c dir ▸ member))
  · intro c dir p member
    obtain ⟨t, pc, stopped, base, free⟩ := parked.owner c dir p (queue c dir ▸ member)
    obtain ⟨stopped', free'⟩ := same.free ⟨_, base⟩ stopped free
    exact ⟨t, pc, stopped', base, free'⟩
  · intro t pc a stopped base free
    obtain ⟨old, homeEq⟩ := same.old t pc ⟨a, base⟩ stopped
    have waiting := parked.waiting t pc a old base (homeEq ▸ free)
    exact waiting.congr (alts t pc a old base) fun c dir i member => queue c dir ▸ member
  · intro t pc a stopped base listed
    obtain ⟨old, homeEq⟩ := same.old t pc ⟨a, base⟩ stopped
    exact (parked.told t pc a old base (homeEq ▸ listed)).congr (alts t pc a old base)
  · intro t u pc pc' a stopped stopped' base base'
    exact parked.distinct t u pc pc' a (same.old t pc ⟨a, base⟩ stopped).1
      (same.old u pc' ⟨a, base'⟩ stopped').1 base base'

/-- An entry of a queue is in front of the terminator of its array. -/
theorem Parked.altcount_lt (parked : Parked run s) {c : ChanPtr} {dir : Dir} {p : AltPtr}
    (member : p ∈ s.queue c dir) : p.idx < altcount (s.alts p.base) := by
  obtain ⟨t, pc, stopped, base, free⟩ := parked.owner c dir p member
  obtain ⟨alt, altEq, -, dirEq⟩ := parked.queues.entry c dir p member
  obtain ⟨front, last, split, -, isLast, count⟩ :=
    terminated_split (parked.waiting t pc p.base stopped base free).isTerminated
  simp only [St.alt?, split] at altEq
  rw [count]
  by_contra beyond
  obtain ⟨inside, -⟩ := List.getElem?_eq_some_iff.mp altEq
  have atEnd : p.idx = front.length := by
    simp only [List.length_append, List.length_singleton] at inside
    omega
  obtain rfl : last = alt := by simpa [atEnd] using altEq
  cases opEq : last.op <;> simp_all [Op.isTerminator, chanarray]

/-! ## Moves -/

/-- Two states agree on the queues of all channels. -/
theorem KeepsChannels.parked (keeps : KeepsChannels s s') (parked : Parked run s)
    (same : SameStopped InAlt run s run' s') : Parked run' s' := by
  refine parked.congr same ?_ ?_ ?_ ?_
  · simp [St.queue, keeps.chan]
  · simpa [keeps.chan] using parked.queues.fits
  · simp [keeps.chans]
  · simp [keeps.alts]

/-- No task moves. -/
theorem Inv.quiet (inv : Inv run s) (same : ∀ t, SameAt run s run' s' t)
    (tables : SameTables s s') (channels : KeepsChannels s s') : Inv run' s' where
  table := inv.table.congr tables.toSameTable
  listed t := (same t).listed (inv.listed t)
  polled := inv.polled.congr (sameStopped_of_same same) tables.npollfd tables.polltask
  parked := channels.parked inv.parked (sameStopped_of_same same)

/-- A task that waits in a list is neither in `fdwait` nor in `chanalt`. -/
theorem waitlist_kinds {pc : Pc} {l : ListId} (waits : pc.waitlist = some l) :
    pc ≠ .fdwait ∧ ¬InAlt pc ∧ pc ≠ .taskexit := by
  cases pc <;> simp_all [Pc.waitlist, InAlt, Pc.altbase]

/-- Tasks are woken from a waiting list. -/
theorem Inv.wake {l : ListId} {woken : List TaskPtr} (inv : Inv run s)
    (woke : Woken s s' l woken) (notRun : l ≠ .taskrunqueue) (tables : SameTables s s')
    (channels : KeepsChannels s s') : Inv run s' := by
  have heldAt : ∀ t, t ∈ woken → s.home t = some l := by
    intro t member
    rw [← mem_seq_iff, woke.taken]
    exact List.mem_append_left _ member
  have pcEq : ∀ t, (s'.task t).pc = (s.task t).pc := by
    intro t
    rw [woke.task]
    split <;> rfl
  have same : ∀ t, t ∉ woken → SameAt run s run s' t := by
    intro t unmoved
    constructor
    · rw [tables.alltask]
    · rfl
    · rw [woke.home, if_neg unmoved]
    · rw [woke.task, if_neg unmoved]
    · exact pcEq t
  have kinds : ∀ t, t ∈ woken → (s.task t).pc ≠ .fdwait ∧ ¬InAlt (s.task t).pc ∧
      (s.task t).pc ≠ .taskexit :=
    fun t member => waitlist_kinds ((inv.listed t).waits l (heldAt t member) notRun)
  have noOld : ∀ t, t ∈ woken → s.home t ≠ none := by
    intro t member
    simp [heldAt t member]
  refine ⟨inv.table.congr tables.toSameTable, ?_, ?_, ?_⟩
  · intro t
    by_cases member : t ∈ woken
    · apply Listed.queued
      · intro running
        exact absurd ((inv.listed t).running running).2 (noOld t member)
      · rw [tables.alltask]
        exact (inv.listed t).live l (heldAt t member)
      · rw [woke.home, if_pos member]
      · rw [woke.task, if_pos member]
      · rw [pcEq]
        exact (kinds t member).2.2
    · exact (same t member).listed (inv.listed t)
  · refine inv.polled.congr (sameStopped_of_sameAt (· ∈ woken) same ?_ ?_)
      tables.npollfd tables.polltask
    · rintro t pc member rfl stopped
      exact (kinds t member).1 ((pcEq t).symm.trans stopped.pc)
    · exact fun t pc member _ _ => noOld t member
  · refine channels.parked inv.parked (sameStopped_of_sameAt (· ∈ woken) same ?_ ?_)
    · intro t pc member isKind stopped
      apply (kinds t member).2.1
      rwa [← pcEq, stopped.pc]
    · exact fun t pc member _ _ => noOld t member

/-- The running task puts itself into a list and gives up the CPU. -/
theorem Inv.park {l : ListId} {self : TaskPtr} (inv : Inv (some self) s) (pc : Pc)
    (home : s'.home = update s.home self (some l))
    (others : ∀ t, t ≠ self → s'.task t = s.task t) (pcEq : (s'.task self).pc = pc)
    (ready : (s'.task self).ready = decide (l = .taskrunqueue))
    (waits : l ≠ .taskrunqueue → pc.waitlist = some l)
    (kind : pc ≠ .fdwait ∧ ¬InAlt pc ∧ pc ≠ .taskexit)
    (tables : SameTables s s') (channels : KeepsChannels s s') : Inv none s' := by
  have same : ∀ t, ¬t = self → SameAt (some self) s none s' t := by
    intro t different
    constructor
    · rw [tables.alltask]
    · simp [Ne.symm different]
    · simp only [home, update_of_ne different]
    · rw [others t different]
    · rw [others t different]
  refine ⟨inv.table.congr tables.toSameTable, ?_, ?_, ?_⟩
  · intro t
    by_cases isSelf : t = self
    · subst isSelf
      have homeEq : s'.home t = some l := by simp only [home, update_self]
      constructor
      · intro running
        cases running
      · intro _ _
        rw [tables.alltask]
        exact ((inv.listed t).running rfl).1
      · rw [ready, homeEq]
        simp
      · intro l' homeEq' notRun'
        obtain rfl : l = l' := Option.some.inj (homeEq.symm.trans homeEq')
        rw [pcEq]
        exact waits notRun'
      · intro pc _ free
        simp [homeEq] at free
      · intro pc' stopped
        rw [← stopped.pc, pcEq]
        exact kind.2.2
    · exact (same t isSelf).listed (inv.listed t)
  · refine inv.polled.congr (sameStopped_of_sameAt (· = self) same ?_ ?_)
      tables.npollfd tables.polltask
    · rintro t pc' rfl rfl stopped
      exact kind.1 (pcEq.symm.trans stopped.pc)
    · rintro t pc' rfl - stopped
      exact absurd rfl stopped.idle
  · refine channels.parked inv.parked (sameStopped_of_sameAt (· = self) same ?_ ?_)
    · rintro t pc' rfl isKind stopped
      obtain rfl : pc = pc' := pcEq.symm.trans stopped.pc
      exact kind.2.1 isKind
    · rintro t pc' rfl - stopped
      exact absurd rfl stopped.idle

/-- The running task writes to its own fields. -/
theorem Inv.running {self : TaskPtr} (inv : Inv (some self) s)
    (others : ∀ t, t ≠ self → s'.task t = s.task t) (home : s'.home = s.home)
    (ready : (s'.task self).ready = (s.task self).ready) (tables : SameTables s s')
    (channels : KeepsChannels s s') : Inv (some self) s' := by
  have same : ∀ t, ¬t = self → SameAt (some self) s (some self) s' t := by
    intro t different
    constructor
    · rw [tables.alltask]
    · rfl
    · rw [home]
    · rw [others t different]
    · rw [others t different]
  refine ⟨inv.table.congr tables.toSameTable, ?_, ?_, ?_⟩
  · intro t
    by_cases isSelf : t = self
    · subst isSelf
      obtain ⟨live, free⟩ := (inv.listed t).running rfl
      apply Listed.runs
      · rw [tables.alltask]
        exact live
      · rw [home, free]
      · rw [ready, (inv.listed t).notReady free]
    · exact (same t isSelf).listed (inv.listed t)
  · refine inv.polled.congr (sameStopped_of_sameAt (· = self) same ?_ ?_)
      tables.npollfd tables.polltask
    · rintro t pc rfl - stopped
      exact absurd rfl stopped.idle
    · rintro t pc rfl - stopped
      exact absurd rfl stopped.idle
  · refine channels.parked inv.parked (sameStopped_of_sameAt (· = self) same ?_ ?_)
    · rintro t pc rfl - stopped
      exact absurd rfl stopped.idle
    · rintro t pc rfl - stopped
      exact absurd rfl stopped.idle

/-- The scheduler takes a task off the run queue. -/
theorem Inv.dispatch (inv : Inv none s) (done : taskscheduler s = .ok (s', t)) :
    Inv (some t) s' := by
  have channels := (taskscheduler_frame done).channels
  obtain ⟨-, -, lists, rfl, held, -, homeEq⟩ := taskscheduler_ok done
  have same : ∀ u, ¬u = t → SameAt none s (some t) { s with
      lists
      task := update s.task t { s.task t with ready := false }
      taskrunning := some t
      tasknswitch := s.tasknswitch + 1
      trace := s.trace ++ [.dispatch t] } u := by
    intro u different
    constructor
    · rfl
    · simp [Ne.symm different]
    · simp [homeEq, different]
    · simp [different]
    · simp [different]
  have noOld : ∀ u, u = t → s.home u ≠ none := by
    rintro u rfl
    simp [held]
  refine ⟨?_, ?_, ?_, ?_⟩
  · exact inv.table.congr (.of_update rfl rfl rfl rfl rfl)
  · intro u
    by_cases isT : u = t
    · subst isT
      exact .runs ((inv.listed u).live _ held) (by simp [homeEq]) (by simp)
    · exact (same u isT).listed (inv.listed u)
  · refine inv.polled.congr (sameStopped_of_sameAt (· = t) same ?_ ?_) rfl rfl
    · rintro u pc rfl - stopped
      exact absurd rfl stopped.idle
    · exact fun u pc isT _ _ => noOld u isT
  · refine channels.parked inv.parked (sameStopped_of_sameAt (· = t) same ?_ ?_)
    · rintro u pc rfl - stopped
      exact absurd rfl stopped.idle
    · exact fun u pc isT _ _ => noOld u isT

/-- A new task stands at the end of the table. -/
theorem Table.create {t₀ : TaskPtr} (table : Table s) (fresh : t₀ ∉ s.alltask)
    (alltask : s'.alltask = s.alltask ++ [t₀])
    (cap : s'.alltaskcap =
      if s.alltask.length % 64 = 0 then s.alltask.length + 64 else s.alltaskcap)
    (room : s.alltask.length < s'.alltaskcap)
    (others : ∀ t, t ≠ t₀ → s'.task t = s.task t)
    (slot : (s'.task t₀).alltaskslot = s.alltask.length)
    (exiting : (s'.task t₀).exiting = false) : Table s' := by
  constructor
  · rw [alltask]
    exact table.nodup.append (by simp) (by simpa using fresh)
  · intro i t atIndex
    rw [alltask, List.getElem?_append] at atIndex
    split at atIndex
    next inside =>
      have different : t ≠ t₀ := by
        rintro rfl
        exact fresh (List.mem_of_getElem? atIndex)
      rw [others t different]
      exact table.slot i t atIndex
    next beyond =>
      obtain ⟨inside, rfl⟩ := List.getElem?_eq_some_iff.mp atIndex
      simp only [List.length_singleton] at inside
      simp only [List.getElem_singleton, slot]
      omega
  · rw [cap]
    split
    next => omega
    next => exact table.blocks
  · simp only [alltask, List.length_append, List.length_singleton]
    omega
  · intro t live
    by_cases isNew : t = t₀
    · rw [isNew, exiting]
    · simp only [alltask, List.mem_append, List.mem_singleton, isNew, or_false] at live
      rw [others t isNew]
      exact table.staying t live

/-- A new task enters the table and the run queue. -/
theorem Inv.create {m : Alloc} {pc : Pc} {id : Int} (inv : Inv run s)
    (kind : pc ≠ .fdwait ∧ ¬InAlt pc ∧ pc ≠ .taskexit) (isFresh : freshTask s m = true)
    (done : taskcreate s m pc = .ok (s', id)) : Inv run s' := by
  have channels := (taskcreate_frame done).channels
  obtain ⟨t₀, lists, cap, isTask, free, capEq, room, rfl, -, homeEq⟩ := taskcreate_ok done
  have fresh : t₀ ∉ s.alltask := by simpa [freshTask, isTask] using isFresh
  have notRunning : run ≠ some t₀ := by
    rintro rfl
    exact fresh ((inv.listed t₀).running rfl).1
  obtain ⟨s₁, s₁Eq⟩ : ∃ s₁ : St, s₁ = { s with
      lists
      taskidgen := (s.taskidgen + 1) % 2 ^ 32
      taskcount := s.taskcount + 1
      alltaskcap := cap
      alltask := s.alltask ++ [t₀]
      task := update s.task t₀
        { id := (s.taskidgen + 1) % 2 ^ 32, pc
          alltaskslot := s.alltask.length, ready := true } } := ⟨_, rfl⟩
  rw [← s₁Eq] at channels ⊢
  have taskEq : s₁.task t₀ =
      { id := (s.taskidgen + 1) % 2 ^ 32, pc
        alltaskslot := s.alltask.length, ready := true } := by simp [s₁Eq]
  have same : ∀ t, ¬t = t₀ → SameAt run s run s₁ t := by
    intro t different
    constructor
    · simp [s₁Eq, different]
    · rfl
    · simp [s₁Eq, homeEq, different]
    · simp [s₁Eq, different]
    · simp [s₁Eq, different]
  have noOld : ∀ t pc, t = t₀ → ¬Stopped run s t pc := by
    rintro t pc rfl stopped
    exact fresh stopped.live
  refine ⟨?_, ?_, ?_, ?_⟩
  · apply inv.table.create fresh
    · simp only [s₁Eq]
    · simp only [s₁Eq, capEq]
    · simpa only [s₁Eq] using room
    · intro t different
      simp [s₁Eq, different]
    · rw [taskEq]
    · rw [taskEq]
  · intro t
    by_cases isNew : t = t₀
    · subst isNew
      apply Listed.queued notRunning (by simp [s₁Eq]) (by simp [s₁Eq, homeEq])
      · rw [taskEq]
      · rw [taskEq]
        exact kind.2.2
    · exact (same t isNew).listed (inv.listed t)
  · refine inv.polled.congr (sameStopped_of_sameAt (· = t₀) same ?_ ?_)
      (by simp [s₁Eq]) (by simp [s₁Eq])
    · rintro t pc' rfl rfl stopped
      have pcEq := stopped.pc
      rw [taskEq] at pcEq
      exact kind.1 pcEq
    · exact fun t pc' isNew _ stopped => absurd stopped (noOld t pc' isNew)
  · refine channels.parked inv.parked (sameStopped_of_sameAt (· = t₀) same ?_ ?_)
    · rintro t pc' rfl isKind stopped
      have pcEq : pc = pc' := by rw [← stopped.pc, taskEq]
      exact kind.2.1 (pcEq ▸ isKind)
    · exact fun t pc' isNew _ stopped => absurd stopped (noOld t pc' isNew)

/-- The room for a new task is there. -/
theorem Table.create_room (table : Table s) :
    s.alltask.length <
      if s.alltask.length % 64 = 0 then s.alltask.length + 64 else s.alltaskcap := by
  have blocks := table.blocks
  have room := table.room
  split <;> omega

/-- The last task of the table takes the place of one that is gone. -/
theorem Table.reap {self last : TaskPtr} {i : Nat} (table : Table s)
    (atSlot : s.alltask[i]? = some self) (lastEq : s.alltask.getLast? = some last)
    (alltask : s'.alltask = SwapRemove.swapRemove s.alltask i)
    (cap : s'.alltaskcap = s.alltaskcap)
    (slot : ∀ t, t ≠ self →
      (s'.task t).alltaskslot = if t = last then i else (s.task t).alltaskslot)
    (exiting : ∀ t, t ≠ self → (s'.task t).exiting = (s.task t).exiting) : Table s' := by
  obtain ⟨inside, atSlot⟩ := List.getElem?_eq_some_iff.mp atSlot
  have members : ∀ t, t ∈ s'.alltask ↔ t ∈ s.alltask ∧ t ≠ self := by
    intro t
    rw [alltask, SwapRemove.mem_swapRemove_iff table.nodup inside, atSlot]
  constructor
  · rw [alltask]
    exact SwapRemove.nodup_swapRemove table.nodup inside
  · intro j t atIndex
    rw [slot t ((members t).mp (List.mem_of_getElem? atIndex)).2]
    rw [alltask, SwapRemove.getElem?_swapRemove lastEq inside] at atIndex
    obtain ⟨short, entry⟩ := Option.ite_none_right_eq_some.mp atIndex
    have lastIndex : s.alltask[s.alltask.length - 1]? = some last := by
      rw [← lastEq, List.getLast?_eq_getElem?]
    split at entry
    next here =>
      obtain rfl := Option.some.inj entry
      simp [here]
    next elsewhere =>
      have notLast : t ≠ last := by
        rintro rfl
        have first := table.slot j t entry
        have second := table.slot _ t lastIndex
        omega
      rw [if_neg notLast]
      exact table.slot j t entry
  · exact cap ▸ table.blocks
  · rw [alltask, SwapRemove.length_swapRemove, cap]
    exact Nat.le_trans (Nat.sub_le _ _) table.room
  · intro t live
    obtain ⟨old, different⟩ := (members t).mp live
    rw [exiting t different]
    exact table.staying t old

/-- A task that is gone leaves the table. -/
theorem Inv.reap {self : TaskPtr} (inv : Inv (some self) s) {s₀ : St}
    (lists : s₀.lists = s.lists) (alltask : s₀.alltask = s.alltask)
    (cap : s₀.alltaskcap = s.alltaskcap) (npollfd : s₀.npollfd = s.npollfd)
    (polltask : s₀.polltask = s.polltask) (others : ∀ t, t ≠ self → s₀.task t = s.task t)
    (same : (s₀.task self).alltaskslot = (s.task self).alltaskslot ∧
      (s₀.task self).ready = (s.task self).ready)
    (channels : KeepsChannels s s₀) (done : taskreap s₀ self = .ok s') : Inv none s' := by
  have channels' := channels.trans (taskreap_frame done).channels
  obtain ⟨last, lastEq, inRange, rfl⟩ := taskreap_ok done
  obtain ⟨live, free⟩ := (inv.listed self).running rfl
  obtain ⟨i, inside, atSlot⟩ := List.getElem_of_mem live
  have slotEq : (s.task self).alltaskslot = i :=
    inv.table.slot i self (by simp [inside, atSlot])
  rw [alltask] at lastEq
  obtain ⟨s₁, s₁Eq⟩ : ∃ s₁ : St, s₁ = { s₀ with
      taskcount := if (s₀.task self).system then s₀.taskcount else s₀.taskcount - 1
      alltask := (s₀.alltask.set (s₀.task self).alltaskslot last).dropLast
      task := update s₀.task last
        { s₀.task last with alltaskslot := (s₀.task self).alltaskslot } } := ⟨_, rfl⟩
  rw [← s₁Eq] at channels' ⊢
  have alltaskEq : s₁.alltask = SwapRemove.swapRemove s.alltask i := by
    simp [s₁Eq, SwapRemove.swapRemove, alltask, lastEq, same.1, slotEq]
  have members : ∀ t, t ∈ s₁.alltask ↔ t ∈ s.alltask ∧ t ≠ self := by
    intro t
    rw [alltaskEq, SwapRemove.mem_swapRemove_iff inv.table.nodup inside, atSlot]
  have fields : ∀ t, t ≠ self → (s₁.task t).ready = (s.task t).ready ∧
      (s₁.task t).pc = (s.task t).pc ∧ (s₁.task t).exiting = (s.task t).exiting ∧
      (s₁.task t).alltaskslot = if t = last then i else (s.task t).alltaskslot := by
    intro t different
    by_cases isLast : t = last
    · subst isLast
      simp [s₁Eq, others t different, same.1, slotEq]
    · simp [s₁Eq, isLast, others t different]
  have readySelf : (s₁.task self).ready = (s.task self).ready := by
    by_cases isLast : self = last
    · subst isLast
      simp [s₁Eq, same.2]
    · simp [s₁Eq, isLast, same.2]
  have homeEq : s₁.home = s.home := by simp [s₁Eq, lists]
  have sameAt : ∀ t, ¬t = self → SameAt (some self) s none s₁ t := by
    intro t different
    constructor
    · simp [members, different]
    · simp [Ne.symm different]
    · rw [homeEq]
    · exact (fields t different).1
    · exact (fields t different).2.1
  have noNew : ∀ t pc, t = self → ¬Stopped none s₁ t pc := by
    rintro t pc rfl stopped
    exact ((members t).mp stopped.live).2 rfl
  have noOld : ∀ t pc, t = self → ¬Stopped (some self) s t pc := by
    rintro t pc rfl stopped
    exact stopped.idle rfl
  refine ⟨?_, ?_, ?_, ?_⟩
  · apply inv.table.reap (List.getElem?_eq_some_iff.mpr ⟨inside, atSlot⟩) lastEq alltaskEq
    · simp [s₁Eq, cap]
    · exact fun t different => (fields t different).2.2.2
    · exact fun t different => (fields t different).2.2.1
  · intro t
    by_cases isSelf : t = self
    · subst isSelf
      apply Listed.gone
      · simp [members]
      · rw [homeEq, free]
      · rw [readySelf, (inv.listed t).notReady free]
    · exact (sameAt t isSelf).listed (inv.listed t)
  · refine inv.polled.congr (sameStopped_of_sameAt (· = self) sameAt ?_ ?_)
      (by simp [s₁Eq, npollfd]) (by simp [s₁Eq, polltask])
    · exact fun t pc isSelf _ => noNew t pc isSelf
    · exact fun t pc isSelf _ stopped => absurd stopped (noOld t pc isSelf)
  · refine channels'.parked inv.parked (sameStopped_of_sameAt (· = self) sameAt ?_ ?_)
    · exact fun t pc isSelf _ => noNew t pc isSelf
    · exact fun t pc isSelf _ stopped => absurd stopped (noOld t pc isSelf)

/-! ## The poll table -/

/-- Task `self` is new at the end of the table. -/
theorem Polled.park {self : TaskPtr} (polled : Polled run s) (room : s.npollfd < maxfd)
    (stopped : Stopped run' s' self .fdwait) (free : s'.home self = none)
    (notOld : ∀ pc, ¬Stopped run s self pc)
    (same : ∀ t, ¬t = self → SameAt run s run' s' t)
    (npollfd : s'.npollfd = s.npollfd + 1)
    (polltask : s'.polltask = update s.polltask s.npollfd self) : Polled run' s' := by
  have older : ∀ i, i < s.npollfd → s.polltask i ≠ self ∧ s'.polltask i = s.polltask i := by
    intro i inside
    refine ⟨fun isSelf => ?_, by rw [polltask, update_of_ne (Nat.ne_of_lt inside)]⟩
    exact notOld _ (isSelf ▸ (polled.owner i inside).1)
  have newest : s'.polltask s.npollfd = self := by rw [polltask, update_self]
  constructor
  · rw [npollfd]
    exact room
  · intro i inside
    rcases Nat.lt_or_eq_of_le (Nat.lt_succ_iff.mp (npollfd ▸ inside)) with old | rfl
    · obtain ⟨notSelf, entryEq⟩ := older i old
      obtain ⟨stoppedOld, freeOld⟩ := polled.owner i old
      rw [entryEq, (same _ notSelf).home]
      exact ⟨((same _ notSelf).stopped _).mpr stoppedOld, freeOld⟩
    · rw [newest]
      exact ⟨stopped, free⟩
  · intro i j iInside jInside equal
    rcases Nat.lt_or_eq_of_le (Nat.lt_succ_iff.mp (npollfd ▸ iInside)) with iOld | rfl
    · rcases Nat.lt_or_eq_of_le (Nat.lt_succ_iff.mp (npollfd ▸ jInside)) with jOld | rfl
      · rw [(older i iOld).2, (older j jOld).2] at equal
        exact polled.unique i j iOld jOld equal
      · rw [(older i iOld).2, newest] at equal
        exact absurd equal (older i iOld).1
    · rcases Nat.lt_or_eq_of_le (Nat.lt_succ_iff.mp (npollfd ▸ jInside)) with jOld | rfl
      · rw [(older j jOld).2, newest] at equal
        exact absurd equal.symm (older j jOld).1
      · rfl
  · intro t stoppedT freeT
    rw [npollfd]
    by_cases isSelf : t = self
    · exact ⟨s.npollfd, Nat.lt_succ_self _, newest.trans isSelf.symm⟩
    · obtain ⟨i, inside, entryEq⟩ := polled.entry t (((same t isSelf).stopped _).mp stoppedT)
        ((same t isSelf).home ▸ freeT)
      exact ⟨i, Nat.lt_succ_of_lt inside, (older i inside).2.trans entryEq⟩

/-- The running task enters the poll table and gives up the CPU. -/
theorem Inv.parkPoll {self : TaskPtr} (inv : Inv (some self) s) (room : s.npollfd < maxfd)
    (home : s'.home = s.home) (others : ∀ t, t ≠ self → s'.task t = s.task t)
    (pcEq : (s'.task self).pc = .fdwait) (ready : (s'.task self).ready = (s.task self).ready)
    (table : SameTable s s') (npollfd : s'.npollfd = s.npollfd + 1)
    (polltask : s'.polltask = update s.polltask s.npollfd self)
    (channels : KeepsChannels s s') : Inv none s' := by
  obtain ⟨live, free⟩ := (inv.listed self).running rfl
  have free' : s'.home self = none := by rw [home, free]
  have stoppedSelf : Stopped none s' self .fdwait :=
    stopped_away (by rw [table.alltask]; exact live) pcEq
  have same : ∀ t, ¬t = self → SameAt (some self) s none s' t := by
    intro t different
    constructor
    · rw [table.alltask]
    · simp [Ne.symm different]
    · rw [home]
    · rw [others t different]
    · rw [others t different]
  refine ⟨inv.table.congr table, ?_, ?_, ?_⟩
  · intro t
    by_cases isSelf : t = self
    · subst isSelf
      exact .away free' (ready.trans ((inv.listed t).notReady free)) pcEq (Or.inl rfl)
    · exact (same t isSelf).listed (inv.listed t)
  · exact inv.polled.park room stoppedSelf free' (fun _ stopped => stopped.idle rfl) same
      npollfd polltask
  · refine channels.parked inv.parked (sameStopped_of_sameAt (· = self) same ?_ ?_)
    · rintro t pc rfl ⟨a, base⟩ stopped
      obtain rfl : .fdwait = pc := pcEq.symm.trans stopped.pc
      cases base
    · rintro t pc rfl - stopped
      exact absurd rfl stopped.idle

/-- The last entry takes the place of entry `i`, whose task was woken. -/
theorem Polled.wake {i : Nat} (polled : Polled run s) (inside : i < s.npollfd)
    (woken : s'.home (s.polltask i) ≠ none)
    (same : ∀ t, ¬t = s.polltask i → SameAt run s run' s' t)
    (npollfd : s'.npollfd = s.npollfd - 1)
    (polltask : s'.polltask = update s.polltask i (s.polltask (s.npollfd - 1))) :
    Polled run' s' := by
  have entryEq : ∀ j, s'.polltask j =
      if j = i then s.polltask (s.npollfd - 1) else s.polltask j := by
    intro j
    rw [polltask, update_apply]
  -- an entry of the new table stood at another index of the old one
  have source : ∀ j, j < s'.npollfd → ∃ k, k < s.npollfd ∧ k ≠ i ∧
      s'.polltask j = s.polltask k ∧ k = (if j = i then s.npollfd - 1 else j) := by
    intro j jInside
    rw [npollfd] at jInside
    by_cases here : j = i
    · exact ⟨s.npollfd - 1, by omega, by omega, by rw [entryEq, if_pos here], by simp [here]⟩
    · exact ⟨j, by omega, here, by rw [entryEq, if_neg here], by simp [here]⟩
  constructor
  · rw [npollfd]
    exact Nat.le_trans (Nat.sub_le _ _) polled.room
  · intro j jInside
    obtain ⟨k, kInside, different, sourceEq, -⟩ := source j jInside
    have other : s.polltask k ≠ s.polltask i :=
      fun equal => different (polled.unique k i kInside inside equal)
    obtain ⟨stoppedK, freeK⟩ := polled.owner k kInside
    rw [sourceEq, (same _ other).home]
    exact ⟨((same _ other).stopped _).mpr stoppedK, freeK⟩
  · intro j k jInside kInside equal
    obtain ⟨j', j'Inside, -, jSource, j'Eq⟩ := source j jInside
    obtain ⟨k', k'Inside, -, kSource, k'Eq⟩ := source k kInside
    have := polled.unique j' k' j'Inside k'Inside (jSource.symm.trans (equal.trans kSource))
    rw [npollfd] at jInside kInside
    split at j'Eq <;> split at k'Eq <;> omega
  · intro u stoppedU freeU
    have other : u ≠ s.polltask i := by
      rintro rfl
      exact woken freeU
    obtain ⟨j, jInside, jEq⟩ := polled.entry u
      (((same u other).stopped _).mp stoppedU) ((same u other).home ▸ freeU)
    have different : j ≠ i := by
      rintro rfl
      exact other jEq.symm
    rw [npollfd]
    by_cases isLast : j = s.npollfd - 1
    · exact ⟨i, by omega, by rw [entryEq, if_pos rfl, ← isLast, jEq]⟩
    · exact ⟨j, by omega, by rw [entryEq, if_neg different, jEq]⟩

/-- The task of an entry of the poll table becomes ready, and the last entry takes
the place of its entry. -/
theorem Inv.wakePoll {i : Nat} (inv : Inv run s) (inside : i < s.npollfd)
    (done : taskready s (s.polltask i) = .ok s') :
    Inv run { s' with
      npollfd := s'.npollfd - 1
      pollfd := update s'.pollfd i (s'.pollfd (s'.npollfd - 1))
      polltask := update s'.polltask i (s'.polltask (s'.npollfd - 1)) } := by
  have channels : KeepsChannels s { s' with
      npollfd := s'.npollfd - 1
      pollfd := update s'.pollfd i (s'.pollfd (s'.npollfd - 1))
      polltask := update s'.polltask i (s'.polltask (s'.npollfd - 1)) } :=
    (taskready_keepsChannels done).trans ⟨rfl, rfl, rfl, rfl, rfl⟩
  obtain ⟨stopped, free⟩ := inv.polled.owner i inside
  obtain ⟨t, tEq⟩ : ∃ t, t = s.polltask i := ⟨_, rfl⟩
  rw [← tEq] at stopped free done
  obtain ⟨lists, -, rfl, -, homeEq⟩ := taskready_ok done
  obtain ⟨s₁, s₁Eq⟩ : ∃ s₁ : St, s₁ = { s with
      lists
      task := update s.task t { s.task t with ready := true }
      npollfd := s.npollfd - 1
      pollfd := update s.pollfd i (s.pollfd (s.npollfd - 1))
      polltask := update s.polltask i (s.polltask (s.npollfd - 1)) } := ⟨_, rfl⟩
  rw [← s₁Eq] at channels ⊢
  have home' : s₁.home t = some .taskrunqueue := by simp [s₁Eq, homeEq]
  have table : SameTable s s₁ := by
    rw [s₁Eq]
    exact .of_update rfl rfl rfl rfl rfl
  have same : ∀ u, ¬u = t → SameAt run s run s₁ u := by
    intro u different
    constructor
    · simp [s₁Eq]
    · rfl
    · simp [s₁Eq, homeEq, different]
    · simp [s₁Eq, different]
    · simp [s₁Eq, different]
  have pcEq : (s₁.task t).pc = .fdwait := by
    rw [← stopped.pc]
    simp [s₁Eq]
  refine ⟨inv.table.congr table, ?_, ?_, ?_⟩
  · intro u
    by_cases isT : u = t
    · subst isT
      apply Listed.queued stopped.idle (table.alltask ▸ stopped.live) home'
      · simp [s₁Eq]
      · simp [pcEq]
    · exact (same u isT).listed (inv.listed u)
  · apply inv.polled.wake inside
    · rw [← tEq, home']
      exact Option.some_ne_none _
    · rw [← tEq]
      exact same
    · simp only [s₁Eq]
    · simp only [s₁Eq]
  · refine channels.parked inv.parked (sameStopped_of_sameAt (· = t) same ?_ ?_)
    · rintro u pc rfl ⟨a, base⟩ stopped'
      obtain rfl : .fdwait = pc := pcEq.symm.trans stopped'.pc
      cases base
    · rintro u pc rfl ⟨a, base⟩ stopped'
      obtain rfl : .fdwait = pc := stopped.pc.symm.trans stopped'.pc
      cases base

end

end Libtask
