import Libtask.Blocked

/-!
# Steps keep every task in its place

The global invariant is preserved by each library function, and so by each step.
`After` is what a function leaves behind: a task that goes on, or one whose place
follows from where it gave up the CPU.
-/

namespace Libtask

open Function (update update_self update_of_ne)
open Outcome (bind_eq_ok)

variable {run : Option TaskPtr} {s s' : St} {self : TaskPtr} {flow : Flow}

/-- `t` gives up the CPU at `pc`. -/
abbrev St.setPc (s : St) (t : TaskPtr) (pc : Pc) : St :=
  s.setTask t fun task => { task with pc }

/-- What a library function establishes. -/
def After (self : TaskPtr) (s : St) : Flow → Prop
  | .ret _ => Inv (some self) s
  | .switch pc => self ∈ s.alltask ∧ Inv none (s.setPc self pc)

theorem Inv.live (inv : Inv (some self) s) : self ∈ s.alltask :=
  ((inv.listed self).running rfl).1

theorem Inv.free (inv : Inv (some self) s) : s.home self = none :=
  ((inv.listed self).running rfl).2

/-- Recording an event changes nothing. -/
theorem Inv.log (inv : Inv run s) (e : Event) : Inv run (s.log e) :=
  inv.copied ⟨⟨s.mem, s.chan, _, rfl⟩, fun _ _ => rfl, fun _ => ⟨rfl, rfl, rfl⟩⟩

/-- Variables that the invariant does not mention. -/
theorem Inv.frame (inv : Inv run s) (lists : s'.lists = s.lists) (task : s'.task = s.task)
    (tables : SameTables s s') (channels : KeepsChannels s s') : Inv run s' :=
  inv.quiet (fun t => ⟨by rw [tables.alltask], Iff.rfl, by simp [lists], by rw [task],
    by rw [task]⟩) tables channels

theorem setPc_sameTables (s : St) (t : TaskPtr) (pc : Pc) : SameTables s (s.setPc t pc) := by
  refine ⟨⟨rfl, rfl, fun u => ?_, fun u => ?_⟩, rfl, rfl⟩
  · by_cases same : u = t
    · simp [St.setTask, same]
    · simp [St.setTask, same]
  · by_cases same : u = t
    · simp [St.setTask, same]
    · simp [St.setTask, same]

theorem SameTables.trans {s₁ s₂ s₃ : St} (first : SameTables s₁ s₂)
    (second : SameTables s₂ s₃) : SameTables s₁ s₃ where
  alltask := second.alltask.trans first.alltask
  alltaskcap := second.alltaskcap.trans first.alltaskcap
  slot t := (second.slot t).trans (first.slot t)
  exiting t := (second.exiting t).trans (first.exiting t)
  npollfd := second.npollfd.trans first.npollfd
  polltask := second.polltask.trans first.polltask

theorem SameTables.symm (same : SameTables s s') : SameTables s' s where
  alltask := same.alltask.symm
  alltaskcap := same.alltaskcap.symm
  slot t := (same.slot t).symm
  exiting t := (same.exiting t).symm
  npollfd := same.npollfd.symm
  polltask := same.polltask.symm

/-- Tasks are woken while another one is about to give up the CPU. -/
theorem Woken.setPc {l : ListId} {woken : List TaskPtr} (woke : Woken s s' l woken)
    (t : TaskPtr) (pc : Pc) : Woken (s.setPc t pc) (s'.setPc t pc) l woken where
  taken := woke.taken
  run := woke.run
  other := woke.other
  home := woke.home
  task u := by
    by_cases same : u = t
    · subst same
      simp only [St.setPc, St.setTask, update_self, woke.task]
      split <;> rfl
    · simp only [St.setPc, St.setTask, update_of_ne same, woke.task]

/-! ## Locks and condition variables -/

/-- The caller puts itself into a waiting list. -/
theorem Inv.addtask_park {l : ListId} {pc : Pc} {s₁ : St} (inv : Inv (some self) s)
    (added : addtask s l self = .ok s₁) (waits : pc.waitlist = some l)
    (notRun : l ≠ .taskrunqueue) : Inv none (s₁.setPc self pc) := by
  have channels := addtask_keepsChannels added
  obtain ⟨lists, rfl, -, -, homeEq⟩ := addtask_ok added
  have tables : SameTables s { s with lists } :=
    ⟨⟨rfl, rfl, fun _ => rfl, fun _ => rfl⟩, rfl, rfl⟩
  refine inv.park _ homeEq ?_ ?_ ?_ (fun _ => waits) (waitlist_kinds waits)
    (tables.trans (setPc_sameTables _ _ _)) (channels.trans (setTask_keepsChannels _ _ _))
  · intro t different
    simp [St.setTask, different]
  · simp [St.setTask]
  · have notReady : (s.task self).ready = false := by
      rw [Bool.eq_false_iff]
      intro isReady
      have := (inv.listed self).ready.mp isReady
      rw [inv.free] at this
      cases this
    simp [St.setTask, notReady, notRun]

theorem LockFrame.wake {l : ListId} {woken : List TaskPtr} (frame : LockFrame s s')
    (inv : Inv run s) (woke : Woken s s' l woken) (notRun : l ≠ .taskrunqueue) : Inv run s' :=
  inv.wake woke notRun frame.tasks.sameTables frame.channels

theorem qlockImpl_after {l : QLockPtr} {block : Bool} {pc : Pc} (inv : Inv (some self) s)
    (waits : pc.waitlist = some (.qwaiting l))
    (done : qlockImpl s self l block pc = .ok (s', flow)) : After self s' flow := by
  have frame := qlockImpl_frame done
  rcases qlockImpl_ok done with
    ⟨-, rfl, rfl⟩ | ⟨-, -, rfl, rfl⟩ | ⟨-, -, rfl, s₁, added, rfl⟩
  · exact inv.frame rfl rfl frame.tasks.sameTables frame.channels
  · exact inv
  · refine ⟨?_, (inv.addtask_park added waits (by simp)).log _⟩
    rw [frame.tasks.alltask]
    exact inv.live

theorem after_void {flow' : Flow} (after : After self s flow') : After self s flow'.void := by
  cases flow' with
  | ret r => exact after
  | switch pc => exact after

theorem qunlock_inv {l : QLockPtr} (inv : Inv run s) (done : qunlock s self l = .ok s') :
    Inv run s' := by
  obtain ⟨-, woke, -⟩ := qunlock_ok done
  exact (qunlock_frame done).wake inv woke (by simp)

theorem rlockImpl_after {l : RWLockPtr} {block : Bool} (inv : Inv (some self) s)
    (done : rlockImpl s self l block = .ok (s', flow)) : After self s' flow := by
  have frame := rlockImpl_frame done
  rcases rlockImpl_ok done with
    ⟨-, -, rfl, rfl⟩ | ⟨-, -, rfl, rfl⟩ | ⟨-, -, rfl, s₁, added, rfl⟩
  · exact inv.frame rfl rfl frame.tasks.sameTables frame.channels
  · exact inv
  · refine ⟨?_, (inv.addtask_park added rfl (by simp)).log _⟩
    rw [frame.tasks.alltask]
    exact inv.live

theorem wlockImpl_after {l : RWLockPtr} {block : Bool} (inv : Inv (some self) s)
    (done : wlockImpl s self l block = .ok (s', flow)) : After self s' flow := by
  have frame := wlockImpl_frame done
  rcases wlockImpl_ok done with
    ⟨-, -, rfl, rfl⟩ | ⟨-, -, rfl, rfl⟩ | ⟨-, -, rfl, s₁, added, rfl⟩
  · exact inv.frame rfl rfl frame.tasks.sameTables frame.channels
  · exact inv
  · refine ⟨?_, (inv.addtask_park added rfl (by simp)).log _⟩
    rw [frame.tasks.alltask]
    exact inv.live

theorem runlock_inv {l : RWLockPtr} (inv : Inv run s) (done : runlock s self l = .ok s') :
    Inv run s' := by
  obtain ⟨next, -, woke, -⟩ := runlock_ok done
  exact (runlock_frame done).wake inv woke (by simp)

theorem wunlock_inv {l : RWLockPtr} (inv : Inv run s) (done : wunlock s self l = .ok s') :
    Inv run s' := by
  have frame := wunlock_frame done
  obtain ⟨-, -, next, -, ⟨s₁, wokeReaders, wokeWriter⟩, -⟩ := wunlock_ok done
  have toMiddle : SameTables s { s with lists := s₁.lists, task := s₁.task } := by
    refine ⟨⟨rfl, rfl, fun t => ?_, fun t => ?_⟩, rfl, rfl⟩
    · simp only [wokeReaders.task]
      split <;> rfl
    · simp only [wokeReaders.task]
      split <;> rfl
  have admitted : Inv run { s with lists := s₁.lists, task := s₁.task } :=
    inv.wake (wokeReaders.congr rfl rfl rfl rfl) (by simp) toMiddle ⟨rfl, rfl, rfl, rfl, rfl⟩
  exact admitted.wake (wokeWriter.congr rfl rfl rfl rfl) (by simp)
    (toMiddle.symm.trans frame.tasks.sameTables)
    ⟨frame.channels.chans, frame.channels.chan, frame.channels.alts, frame.channels.mem,
      frame.channels.events⟩

theorem tasksleep_after {r : RendezPtr} (inv : Inv (some self) s)
    (done : tasksleep s self r = .ok (s', flow)) : After self s' flow := by
  have frame := tasksleep_frame done
  obtain ⟨rfl, s₁, added, sleeping⟩ := tasksleep_ok done
  have live : self ∈ s'.alltask := by
    rw [frame.tasks.alltask]
    exact inv.live
  have parked : Inv none ((s₁.log (.tasksleep r self)).setPc self (.tasksleep r)) :=
    (inv.addtask_park added rfl (by simp)).log _
  rcases sleeping with ⟨-, rfl⟩ | ⟨l, -, unlocked⟩
  · exact ⟨live, parked⟩
  · obtain ⟨-, woke, -⟩ := qunlock_ok unlocked
    have unlockFrame := qunlock_frame unlocked
    refine ⟨live, parked.wake (woke.setPc self (.tasksleep r)) (by simp) ?_ ?_⟩
    · exact ((setPc_sameTables _ _ _).symm.trans unlockFrame.tasks.sameTables).trans
        (setPc_sameTables _ _ _)
    · exact ⟨unlockFrame.channels.chans, unlockFrame.channels.chan,
        unlockFrame.channels.alts, unlockFrame.channels.mem, unlockFrame.channels.events⟩

theorem tasksleepResume_after {r : RendezPtr} (inv : Inv (some self) s)
    (done : tasksleepResume s self r = .ok (s', flow)) : After self s' flow := by
  rcases tasksleepResume_ok done with
    ⟨-, rfl, rfl⟩ | ⟨l, s₁, flow', -, locked, ⟨i, rfl, rfl, rfl⟩ | ⟨pc, rfl, rfl, rfl⟩⟩
  · exact inv.log _
  · have after : Inv (some self) s₁ := qlockImpl_after inv rfl locked
    exact after.log _
  · exact qlockImpl_after inv rfl locked

theorem taskwakeupImpl_after {r : RendezPtr} {all : Bool} (inv : Inv (some self) s)
    (done : taskwakeupImpl s r all = .ok (s', flow)) : After self s' flow := by
  obtain ⟨rfl, woke, -⟩ := taskwakeupImpl_ok done
  exact (taskwakeupImpl_frame done).wake inv woke (by simp)

/-! ## Tasks -/

/-- The caller puts itself at the end of the run queue. -/
theorem Inv.taskready_park {pc : Pc} {s₁ : St} (inv : Inv (some self) s)
    (readied : taskready s self = .ok s₁) (kind : pc ≠ .fdwait ∧ ¬InAlt pc ∧ pc ≠ .taskexit) :
    Inv none (s₁.setPc self pc) := by
  have channels := taskready_keepsChannels readied
  have tables := (taskready_keepsTasks readied).sameTables
  obtain ⟨lists, -, rfl, -, homeEq⟩ := taskready_ok readied
  refine inv.park _ homeEq ?_ ?_ ?_ (fun notRun => absurd rfl notRun) kind
    (tables.trans (setPc_sameTables _ _ _)) (channels.trans (setTask_keepsChannels _ _ _))
  · intro t different
    simp [St.setTask, different]
  · simp [St.setTask]
  · simp [St.setTask]

/-- Where the run queue, and only that, brings a task back. -/
theorem taskready_live {t : TaskPtr} (done : taskready s t = .ok s') :
    s'.alltask = s.alltask :=
  (taskready_keepsTasks done).alltask

theorem fdtaskYield_after (inv : Inv (some self) s)
    (done : fdtaskYield s self = .ok (s', flow)) : After self s' flow := by
  obtain ⟨⟨n, rfl⟩, readied⟩ := fdtaskYield_ok done
  refine ⟨?_, inv.taskready_park readied ⟨by simp, ?_, by simp⟩⟩
  · rw [taskready_live readied]
    exact inv.live
  · rintro ⟨a, base⟩
    cases base

theorem tasksystem_inv (inv : Inv (some self) s) : Inv (some self) (tasksystem s self) := by
  unfold tasksystem
  split
  · exact inv
  · refine inv.running ?_ rfl ?_ ⟨⟨rfl, rfl, fun t => ?_, fun t => ?_⟩, rfl, rfl⟩
      ⟨rfl, rfl, rfl, rfl, rfl⟩
    · intro t different
      simp [St.setTask, different]
    · simp [St.setTask]
    · by_cases same : t = self
      · simp [St.setTask, same]
      · simp [St.setTask, same]
    · by_cases same : t = self
      · simp [St.setTask, same]
      · simp [St.setTask, same]

theorem startfdtask_inv {m : Alloc} (inv : Inv run s)
    (fresh : freshTask s m = true) (done : startfdtask s m = .ok s') : Inv run s' := by
  rcases startfdtask_ok done with ⟨-, rfl⟩ | ⟨-, id, created⟩
  · exact inv
  · have started : Inv run { s with startedfdtask := true } :=
      inv.frame rfl rfl ⟨⟨rfl, rfl, fun _ => rfl, fun _ => rfl⟩, rfl, rfl⟩
        ⟨rfl, rfl, rfl, rfl, rfl⟩
    have kind : Pc.fdtask ≠ .fdwait ∧ ¬InAlt .fdtask ∧ Pc.fdtask ≠ .taskexit := by
      simp [InAlt, Pc.altbase]
    exact started.create kind fresh created

theorem taskdelay_after {ms now : Nat} {m : Alloc} (inv : Inv (some self) s)
    (fresh : freshTask s m = true) (done : taskdelay s self ms now m = .ok (s', flow)) :
    After self s' flow := by
  obtain ⟨rfl, s₁, due, position, lists, started, -, -, homeEq, rfl⟩ := taskdelay_ok done
  have inv₁ := startfdtask_inv inv fresh started
  refine ⟨inv₁.live, inv₁.park (.taskdelay now) homeEq ?_ ?_ ?_
    (fun _ => rfl) (waitlist_kinds rfl) ⟨⟨rfl, rfl, fun t => ?_, fun t => ?_⟩, rfl, rfl⟩
    ⟨rfl, rfl, rfl, rfl, rfl⟩⟩
  · intro t different
    simp [St.setTask, different]
  · simp [St.setTask]
  · have notReady : (s₁.task self).ready = false := by
      rw [Bool.eq_false_iff]
      intro isReady
      have := (inv₁.listed self).ready.mp isReady
      rw [inv₁.free] at this
      cases this
    simp [St.setTask, notReady]
  · by_cases same : t = self
    · simp [St.setTask, same]
    · simp [St.setTask, same]
  · by_cases same : t = self
    · simp [St.setTask, same]
    · simp [St.setTask, same]

theorem fdwait_after {fd : Int} {rw : Char} {m : Alloc} (inv : Inv (some self) s)
    (fresh : freshTask s m = true) (done : fdwait s self fd rw m = .ok (s', flow)) :
    After self s' flow := by
  obtain ⟨rfl, s₁, started, room, rfl⟩ := fdwait_ok done
  have inv₁ := startfdtask_inv inv fresh started
  refine ⟨inv₁.live, inv₁.parkPoll room rfl ?_ ?_ ?_ ⟨rfl, rfl, fun t => ?_, fun t => ?_⟩
    rfl rfl ⟨rfl, rfl, rfl, rfl, rfl⟩⟩
  · intro t different
    simp [St.setTask, different]
  · simp [St.setTask]
  · simp [St.setTask]
  · by_cases same : t = self
    · simp [St.setTask, same]
    · simp [St.setTask, same]
  · by_cases same : t = self
    · simp [St.setTask, same]
    · simp [St.setTask, same]

theorem pollwake_inv {fuel i : Nat} (inv : Inv run s) (done : pollwake fuel i s = .ok s') :
    Inv run s' := by
  refine pollwake_induction (motive := Inv run) ?_ inv done
  intro s₁ s₂ i inv₁ inside _ readied
  exact inv₁.wakePoll inside readied

theorem alarmwake_inv {now fuel : Nat} {woken : List TaskPtr} (inv : Inv run s)
    (done : alarmwake now fuel s = .ok (s', woken)) : Inv run s' := by
  refine alarmwake_induction (motive := fun s₁ _ => Inv run s₁) ?_ [] inv done
  intro s₁ s₂ s₃ t woken inv₁ headEq removed readied
  have counted : (countWaking s₂ t).lists = s₂.lists ∧ (countWaking s₂ t).task = s₂.task ∧
      SameTables s₂ (countWaking s₂ t) ∧ KeepsChannels s₂ (countWaking s₂ t) := by
    unfold countWaking
    split
    · exact ⟨rfl, rfl, ⟨⟨rfl, rfl, fun _ => rfl, fun _ => rfl⟩, rfl, rfl⟩,
        ⟨rfl, rfl, rfl, rfl, rfl⟩⟩
    · exact ⟨rfl, rfl, ⟨⟨rfl, rfl, fun _ => rfl, fun _ => rfl⟩, rfl, rfl⟩,
        ⟨rfl, rfl, rfl, rfl, rfl⟩⟩
  obtain ⟨lists, task, tables, channels⟩ := counted
  have woke := woken_head (l := .sleeping) (by simp) (by simpa using headEq) removed readied
    lists task
  have tables₁ : SameTables s₁ s₂ := by
    obtain ⟨lists', rfl, -⟩ := deltask_ok removed
    exact ⟨⟨rfl, rfl, fun _ => rfl, fun _ => rfl⟩, rfl, rfl⟩
  exact inv₁.wake woke (by simp)
    ((tables₁.trans tables).trans (taskready_keepsTasks readied).sameTables)
    (((deltask_keepsChannels removed).trans channels).trans
      (taskready_keepsChannels readied))

theorem fdtaskPass_after {n : BitVec 32} {env : Env} (inv : Inv (some self) s)
    (done : fdtaskPass s self n env = .ok (s', flow)) : After self s' flow := by
  rcases fdtaskPass_ok done with
    yielded | yielded | ⟨revents, s₁, s₂, woken, -, polled, alarmed, yielded⟩
  · exact fdtaskYield_after inv yielded
  · exact fdtaskYield_after (inv.log _) yielded
  · have stored : Inv (some self) { s.log (.poll (polltimeout s env.now) s.npollfd) with
        pollfd := fun i =>
          if i < s.npollfd then { s.pollfd i with revents := revents i }
          else s.pollfd i } :=
      (inv.log (.poll (polltimeout s env.now) s.npollfd)).frame rfl rfl
        ⟨⟨rfl, rfl, fun _ => rfl, fun _ => rfl⟩, rfl, rfl⟩ ⟨rfl, rfl, rfl, rfl, rfl⟩
    exact fdtaskYield_after ((alarmwake_inv (pollwake_inv stored polled) alarmed).log _) yielded

/-! ## Channels -/

/-- `altexec` of an alternative that can proceed. -/
theorem altexec_inv {p : AltPtr} {rand : Nat} (inv : Inv run s)
    (done : altexec s self p rand = .ok s') : Inv run s' := by
  obtain ⟨a, -, ⟨-, copied⟩ | ⟨other, o, s₁, s₂, picked, otherEq, copied, dequeued, -,
    readied⟩⟩ := altexec_ok done
  · exact inv.copied (altcopy_copied copied)
  · have copy := altcopy_copied copied
    have inv₁ := inv.copied copy
    obtain ⟨dir, -, member⟩ := altpick_eq_some picked
    have member₁ : other ∈ s₁.queue a.c dir := by
      simpa only [St.queue, copy.queue] using member
    have otherEq₁ : s₁.alt? other = some o := by
      obtain ⟨mem, chan, trace, rfl⟩ := copy.rest
      exact otherEq
    obtain ⟨s₃, dequeued', removed⟩ := inv₁.parked.altalldequeue member₁ otherEq₁
    rw [dequeued] at dequeued'
    obtain rfl := Except.ok.inj dequeued'
    exact inv₁.wakeAlt member₁ otherEq₁ removed readied

/-- What a terminated array looks like after the first loop of `chanalt`. -/
theorem enter_array (self : TaskPtr) {base : Nat} (isTerminated : terminated (s.alts base) = true) :
    ∃ last, (enter s self base).alts base = entered s self base ++ [last] ∧
      (∀ a ∈ entered s self base, a.op.isAlternative = true ∧ a.task = self ∧
        a.xalt = ⟨base, 0⟩) ∧
      last.op.isTerminator = true ∧ terminator s base = some last.op ∧
      (∀ a ∈ entered s self base, ∃ b ∈ s.alts base, a.op = b.op ∧ a.c = b.c) := by
  obtain ⟨front, last, split, alternatives, isLast, count⟩ := terminated_split isTerminated
  have enteredEq : entered s self base =
      front.map fun a => { a with task := self, xalt := ⟨base, 0⟩ } := by
    rw [entered, count, split, List.take_left]
  refine ⟨last, ?_, ?_, isLast, ?_, ?_⟩
  · simp only [enter, enteredEq, count, update_self]
    rw [split, List.drop_left]
  · rw [enteredEq]
    intro a member
    obtain ⟨b, inFront, rfl⟩ := List.mem_map.mp member
    exact ⟨alternatives b inFront, rfl, rfl⟩
  · simp only [terminator, count]
    simp [split]
  · rw [enteredEq]
    intro a member
    obtain ⟨b, inFront, rfl⟩ := List.mem_map.mp member
    exact ⟨b, by simp [split, inFront], rfl, rfl⟩

theorem terminated_append {front : List Alt} {last : Alt}
    (alternatives : ∀ a ∈ front, a.op.isAlternative = true)
    (isLast : last.op.isTerminator = true) : terminated (front ++ [last]) = true := by
  induction front with
  | nil => simpa [terminated] using isLast
  | cons a front ih =>
      have rest := ih fun b member => alternatives b (by simp [member])
      have first := alternatives a (by simp)
      cases front with
      | nil => simpa [terminated, first] using isLast
      | cons b front => simpa [terminated, first] using rest

/-- `chanalt` on an array that no other task is in. -/
theorem chanalt_after {base rand1 rand2 : Nat} {pc : Pc} (inv : Inv (some self) s)
    (isFree : ArrayFree (some self) s base) (isTerminated : terminated (s.alts base) = true)
    (known : ∀ a ∈ s.alts base, chanarray a.op ≠ none → a.c ∈ s.chans)
    (base? : pc.altbase = some base)
    (done : chanalt s self base rand1 rand2 pc = .ok (s', flow)) : After self s' flow := by
  have entering : Inv (some self) (enter s self base) := inv.writeArray isFree
  rcases chanalt_ok done with
    ⟨-, i, rfl, -, executed⟩ | ⟨-, -, rfl, rfl⟩ | ⟨-, -, rfl, s₁, looped, rfl⟩
  · exact altexec_inv entering executed
  · exact entering
  · obtain ⟨last, array, alternatives, isLast, -, origin⟩ := enter_array self isTerminated
    have isFree' : ArrayFree (some self) (enter s self base) base :=
      fun t pc stopped => isFree t pc ⟨stopped.live, stopped.idle, stopped.pc⟩
    obtain ⟨s₂, looped', enqueued⟩ := altqueueLoop_fresh (i := 0)
      entering.parked.queues.nodup entering.parked.queues.fits
      (fun a member => (alternatives a member).1)
      (fun c dir q member sameBase => absurd sameBase
        (entering.parked.not_queued isFree' member))
    rw [looped] at looped'
    obtain rfl := Except.ok.inj looped'
    refine ⟨?_, entering.parkAlt isFree' array ?_ (fun a member => (alternatives a member).2)
      ?_ enqueued base? ?_⟩
    · obtain ⟨chan, rfl⟩ := enqueued.rest
      exact inv.live
    · rw [array]
      exact terminated_append (fun a member => (alternatives a member).1) isLast
    · intro a member queued
      obtain ⟨b, inArray, opEq, channel⟩ := origin a member
      rw [channel]
      exact known b inArray (opEq ▸ queued)
    · exact ⟨_, rfl⟩

/-- A new channel has empty queues, and nothing was queued at its address. -/
theorem chancreate_inv {c : Option ChanPtr} {elemsize bufsize : Int} {junk : Bytes.Memory}
    (inv : Inv run s) (fresh : (c.all fun c => decide (c ∉ s.chans)) = true)
    (done : chancreate s c elemsize bufsize junk = .ok s') : Inv run s' := by
  obtain ⟨c₀, rfl, rfl⟩ := chancreate_ok done
  have unknown : c₀ ∉ s.chans := by simpa using fresh
  have noEntry : ∀ dir, s.queue c₀ dir = [] := by
    intro dir
    rw [List.eq_nil_iff_forall_not_mem]
    intro p member
    exact unknown (inv.parked.known c₀ dir p member)
  obtain ⟨s', s'Eq⟩ : ∃ s' : St, s' = { s.setChan c₀ {
        elemsize := toUint elemsize
        bufsize := toUint bufsize
        buf := junk
        bufbytes := bufArea elemsize bufsize } with
      chans := c₀ :: s.chans } := ⟨_, rfl⟩
  rw [← s'Eq]
  have same : ∀ t, SameAt run s run s' t := by
    intro t
    subst s'Eq
    exact ⟨Iff.rfl, Iff.rfl, rfl, rfl, rfl⟩
  have tables : SameTables s s' := by
    subst s'Eq
    exact ⟨⟨rfl, rfl, fun _ => rfl, fun _ => rfl⟩, rfl, rfl⟩
  refine ⟨inv.table.congr tables.toSameTable, fun t => (same t).listed (inv.listed t),
    inv.polled.congr (sameStopped_of_same same) tables.npollfd tables.polltask, ?_⟩
  refine inv.parked.congr (sameStopped_of_same same) ?_ ?_ ?_ ?_ <;> subst s'Eq
  · intro c dir
    by_cases same : c = c₀
    · subst same
      rw [noEntry]
      cases dir <;> simp [St.queue, St.setChan, Channel.queue]
    · simp [St.queue, St.setChan, same]
  · intro c dir
    by_cases same : c = c₀
    · subst same
      cases dir <;> simp [St.setChan, Channel.queue, Altarray.Fits, Altarray.n]
    · simpa [St.setChan, same] using inv.parked.queues.fits c dir
  · intro c member
    exact List.mem_cons_of_mem _ member
  · exact fun _ _ _ _ _ => rfl

/-! ## Steps -/

/-- The calls that end the task. -/
def Call.exits : Call → Option Int
  | .taskexit val => some val
  | .taskreturn => some 0
  | _ => none

theorem call_exits {c : Call} {val : Int} (exits : c.exits = some val)
    (done : call s self c = .ok (s', flow)) :
    s' = taskexit s self val ∧ flow = .switch .taskexit := by
  cases c <;> simp only [Call.exits, reduceCtorEq, Option.some.injEq] at exits
  all_goals
    obtain ⟨rfl, rfl⟩ := Prod.mk.inj (Except.ok.inj done)
    exact ⟨by rw [exits], rfl⟩

/-- `chanalt` on an array that nobody is in. -/
theorem chanaltCall_after {a : Nat} {alts : List Alt} {rand1 rand2 : Nat}
    (inv : Inv (some self) s) (isLegal : legal s (.chanalt a alts rand1 rand2) = true)
    (done : call s self (.chanalt a alts rand1 rand2) = .ok (s', flow)) : After self s' flow := by
  simp only [legal, Bool.and_eq_true] at isLegal
  obtain ⟨⟨isFree, isTerminated⟩, known⟩ := isLegal
  have isFree := arrayFree_of_altfree (some self) isFree
  refine chanalt_after (inv.writeArray isFree) ?_ ?_ ?_ rfl done
  · exact fun t pc stopped => isFree t pc ⟨stopped.live, stopped.idle, stopped.pc⟩
  · simpa using isTerminated
  · intro x member queued
    simp only [update_self] at member
    have := List.all_eq_true.mp known x member
    cases opEq : x.op <;> simp_all [chanarray, Op.isTerminator]

/-- `_chanop` builds such an array. -/
theorem chanopCall_after {c : ChanPtr} {op : Op} {v : Option Nat} {canblock : Bool}
    {a rand1 rand2 : Nat} (inv : Inv (some self) s)
    (isLegal : legal s (.chanop c op v canblock a rand1 rand2) = true)
    (done : call s self (.chanop c op v canblock a rand1 rand2) = .ok (s', flow)) :
    After self s' flow := by
  simp only [legal, Bool.and_eq_true, decide_eq_true_eq] at isLegal
  obtain ⟨⟨isFree, known⟩, isOp⟩ := isLegal
  have isFree := arrayFree_of_altfree (some self) isFree
  obtain ⟨flow', inner, shape⟩ := chanop_ok done
  have after : After self s' flow' := by
    refine chanalt_after (inv.writeArray isFree) ?_ ?_ ?_ rfl inner
    · exact fun t pc stopped => isFree t pc ⟨stopped.live, stopped.idle, stopped.pc⟩
    · simp only [update_self]
      rcases isOp with rfl | rfl <;> cases canblock <;> rfl
    · intro x member _
      simp only [update_self, chanopAlts, List.mem_cons, List.not_mem_nil, or_false] at member
      rcases member with rfl | rfl <;> exact known
  rcases shape with ⟨r, rfl, rfl⟩ | ⟨pc, rfl, rfl⟩
  · exact after
  · exact after

theorem call_after {c : Call} (inv : Inv (some self) s) (isLegal : legal s c = true)
    (stays : c.exits = none) (done : call s self c = .ok (s', flow)) : After self s' flow := by
  cases c with
  | taskcreate m =>
      obtain ⟨⟨s₁, id⟩, created, returned⟩ := bind_eq_ok.mp done
      obtain ⟨rfl, rfl⟩ := Prod.mk.inj (Except.ok.inj returned)
      have kind : Pc.user none ≠ .fdwait ∧ ¬InAlt (.user none) ∧ Pc.user none ≠ .taskexit := by
        simp [InAlt, Pc.altbase]
      exact inv.create kind isLegal created
  | tasksystem =>
      obtain ⟨rfl, rfl⟩ := Prod.mk.inj (Except.ok.inj done)
      exact tasksystem_inv inv
  | taskyield =>
      obtain ⟨⟨s₁, n⟩, yielded, returned⟩ := bind_eq_ok.mp done
      obtain ⟨rfl, rfl⟩ := Prod.mk.inj (Except.ok.inj returned)
      have readied := taskyield_ok yielded
      have kind : Pc.taskyield n ≠ .fdwait ∧ ¬InAlt (.taskyield n) ∧
          Pc.taskyield n ≠ .taskexit := by
        simp [InAlt, Pc.altbase]
      exact ⟨by rw [taskready_live readied]; exact inv.live, inv.taskready_park readied kind⟩
  | taskexit val => cases stays
  | taskreturn => cases stays
  | taskexitall val => cases done
  | anyready =>
      obtain ⟨rfl, rfl⟩ := Prod.mk.inj (Except.ok.inj done)
      exact inv
  | taskdelay ms now m =>
      simp only [legal, Bool.and_eq_true] at isLegal
      exact taskdelay_after inv isLegal.2 done
  | fdwait fd rw m => exact fdwait_after inv isLegal done
  | qlock l =>
      obtain ⟨flow', inner, rfl⟩ := qlock_ok done
      exact after_void (qlockImpl_after inv rfl inner)
  | canqlock l => exact qlockImpl_after inv rfl done
  | qunlock l =>
      obtain ⟨inner, rfl⟩ := returning_ok done
      exact qunlock_inv inv inner
  | rlock l =>
      obtain ⟨flow', inner, rfl⟩ := rlock_ok done
      exact after_void (rlockImpl_after inv inner)
  | canrlock l => exact rlockImpl_after inv done
  | runlock l =>
      obtain ⟨inner, rfl⟩ := returning_ok done
      exact runlock_inv inv inner
  | wlock l =>
      obtain ⟨flow', inner, rfl⟩ := wlock_ok done
      exact after_void (wlockImpl_after inv inner)
  | canwlock l => exact wlockImpl_after inv done
  | wunlock l =>
      obtain ⟨inner, rfl⟩ := returning_ok done
      exact wunlock_inv inv inner
  | tasksleep r => exact tasksleep_after inv done
  | taskwakeup r => exact taskwakeupImpl_after inv done
  | taskwakeupall r => exact taskwakeupImpl_after inv done
  | chancreate c elemsize bufsize junk =>
      obtain ⟨inner, rfl⟩ := returning_ok done
      exact chancreate_inv inv isLegal inner
  | chanalt a alts rand1 rand2 => exact chanaltCall_after inv isLegal done
  | chanop c op v canblock a rand1 rand2 => exact chanopCall_after inv isLegal done
  | store p bytes =>
      obtain ⟨rfl, rfl⟩ := Prod.mk.inj (Except.ok.inj done)
      exact inv.copied ⟨⟨_, s.chan, s.trace, rfl⟩, fun _ _ => rfl, fun _ => ⟨rfl, rfl, rfl⟩⟩

theorem resume_after {pc : Pc} {env : Env} (inv : Inv (some self) s) (going : pc ≠ .taskexit)
    (done : resume s self env pc = .ok (s', flow)) : After self s' flow := by
  cases pc with
  | qlock l =>
      obtain ⟨inner, rfl⟩ := returning_ok done
      obtain ⟨-, rfl⟩ := qlockResume_ok inner
      exact inv
  | tasksleep r => exact tasksleepResume_after inv done
  | tasksleepQlock r l =>
      obtain ⟨s₁, owned, returned⟩ := bind_eq_ok.mp done
      obtain ⟨-, rfl⟩ := qlockResume_ok owned
      obtain ⟨rfl, rfl⟩ := Prod.mk.inj (Except.ok.inj returned)
      exact inv.log _
  | chanalt a =>
      obtain ⟨⟨s₁, i⟩, resumed, returned⟩ := bind_eq_ok.mp done
      obtain ⟨rfl, rfl⟩ := Prod.mk.inj (Except.ok.inj returned)
      obtain ⟨first, -, -, -, rfl⟩ := chanaltResume_ok resumed
      exact inv.log _
  | chanop a =>
      obtain ⟨⟨s₁, i⟩, resumed, returned⟩ := bind_eq_ok.mp done
      obtain ⟨rfl, rfl⟩ := Prod.mk.inj (Except.ok.inj returned)
      obtain ⟨first, -, -, -, rfl⟩ := chanaltResume_ok resumed
      exact inv.log _
  | fdtask => exact fdtaskYield_after (tasksystem_inv inv) done
  | fdtaskYield n => exact fdtaskPass_after inv done
  | taskexit => exact absurd rfl going
  | user r =>
      obtain ⟨rfl, rfl⟩ := Prod.mk.inj (Except.ok.inj done)
      exact inv
  | taskyield n =>
      obtain ⟨rfl, rfl⟩ := Prod.mk.inj (Except.ok.inj done)
      exact inv
  | rlock l =>
      obtain ⟨rfl, rfl⟩ := Prod.mk.inj (Except.ok.inj done)
      exact inv
  | wlock l =>
      obtain ⟨rfl, rfl⟩ := Prod.mk.inj (Except.ok.inj done)
      exact inv
  | taskdelay now =>
      obtain ⟨rfl, rfl⟩ := Prod.mk.inj (Except.ok.inj done)
      exact inv
  | fdwait =>
      obtain ⟨rfl, rfl⟩ := Prod.mk.inj (Except.ok.inj done)
      exact inv

/-- What a function established is what the next step starts from. -/
theorem finish_inv (after : After self s flow) (running : s.taskrunning = some self)
    (done : finish self (s, flow) = .ok s') : Inv s'.taskrunning s' := by
  rcases finish_ok done with ⟨r, rfl, rfl⟩ | ⟨pc, rfl, ⟨-, rfl⟩ | ⟨exiting, -⟩⟩
  · have runs : (s.setPc self (.user r)).taskrunning = some self := running
    rw [runs]
    refine Inv.running after ?_ rfl ?_ (setPc_sameTables _ _ _) (setTask_keepsChannels _ _ _)
    · intro t different
      simp [St.setTask, different]
    · simp [St.setTask]
  · exact after.2.frame rfl rfl ⟨⟨rfl, rfl, fun _ => rfl, fun _ => rfl⟩, rfl, rfl⟩
      ⟨rfl, rfl, rfl, rfl, rfl⟩
  · have staying := after.2.table.staying self after.1
    simp only [St.setPc, St.setTask, update_self] at staying
    rw [exiting] at staying
    cases staying

/-- A task that ends itself leaves the table before the next turn. -/
theorem finish_exit_inv {val : Int} (inv : Inv (some self) s)
    (done : finish self (taskexit s self val, .switch .taskexit) = .ok s') :
    Inv s'.taskrunning s' := by
  have exits : ((taskexit s self val).task self).exiting = true := by
    simp [taskexit, St.setTask, St.log]
  rcases finish_ok done with ⟨r, isRet, -⟩ | ⟨pc, isSwitch, ⟨staying, -⟩ | ⟨-, reaped⟩⟩
  · cases isRet
  · rw [exits] at staying
    cases staying
  · obtain rfl := Flow.switch.inj isSwitch
    have notRunning : s'.taskrunning = none := by
      obtain ⟨last, -, -, rfl⟩ := taskreap_ok reaped
      rfl
    rw [notRunning]
    refine inv.reap ?_ ?_ ?_ ?_ ?_ ?_ ⟨?_, ?_⟩ ?_ reaped
    case refine_6 =>
      intro t different
      simp [taskexit, St.setTask, St.log, different]
    case refine_7 | refine_8 => simp [taskexit, St.setTask, St.log]
    case refine_9 =>
      exact (taskexit_frame s self val).channels.trans ⟨rfl, rfl, rfl, rfl, rfl⟩
    all_goals rfl

/-- A dispatched task has not ended itself. -/
theorem dispatch_going {t : TaskPtr} (inv : Inv none s)
    (done : taskscheduler s = .ok (s', t)) : (s'.task t).pc ≠ .taskexit := by
  obtain ⟨-, -, lists, rfl, held, -⟩ := taskscheduler_ok done
  simpa using (inv.listed t).going _ (stopped_away ((inv.listed t).live _ held) rfl)

/-- Every step keeps the invariant. -/
theorem step_inv {a : Act} (inv : Inv s.taskrunning s) (isEnabled : enabled s a)
    (stepped : step s a = .ok s') : Inv s'.taskrunning s' := by
  cases step_shape isEnabled stepped with
  | dispatch idle scheduled resumed finished =>
      rename_i env t s₁ s₂ flow
      rw [idle] at inv
      have running : s₁.taskrunning = some t := by
        obtain ⟨-, -, lists, rfl, -⟩ := taskscheduler_ok scheduled
        rfl
      exact finish_inv
        (resume_after (inv.dispatch scheduled) (dispatch_going inv scheduled) resumed)
        ((resume_taskrunning resumed).trans running) finished
  | call running isLegal called finished =>
      rename_i c self s₂ flow
      rw [running] at inv
      cases exits : c.exits with
      | none =>
          exact finish_inv (call_after inv isLegal exits called)
            ((call_taskrunning called).trans running) finished
      | some val =>
          obtain ⟨rfl, rfl⟩ := call_exits exits called
          exact finish_exit_inv inv finished

end Libtask
