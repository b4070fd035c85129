import Libtask.FdtaskStep
import Libtask.Lib.SwapRemove

/-!
# The poll table

An entry of the poll table belongs to a task that is blocked in `fdwait`, and holds what that
call asked for.  A pass of `fdtask` that gets past its `poll` sweeps the table: it wakes the
tasks of the entries that have events, and keeps the other entries.
-/

namespace Libtask

open Function (update update_self update_of_ne)
open Outcome (bind_eq_ok Avoids)
open Transition

/-- The two parallel arrays as one list. -/
def St.entries (s : St) : List (TaskPtr × Pollfd) :=
  (List.range s.npollfd).map fun i => (s.polltask i, s.pollfd i)

/-- The table after `poll` has stored what it found. -/
def St.stored (s : St) (revents : Nat → Nat) : St :=
  { s with pollfd := fun i =>
      if i < s.npollfd then { s.pollfd i with revents := revents i } else s.pollfd i }

variable {s s' s₁ s₂ : St} {self t u : TaskPtr} {flow : Flow} {a : Act} {code : Code}

@[simp] theorem length_entries (s : St) : s.entries.length = s.npollfd := by
  simp [St.entries]

theorem getElem_entries {i : Nat} (inside : i < s.entries.length) :
    s.entries[i] = (s.polltask i, s.pollfd i) := by
  simp [St.entries]

theorem getElem?_entries {i : Nat} (inside : i < s.npollfd) :
    s.entries[i]? = some (s.polltask i, s.pollfd i) := by
  simp [St.entries, inside]

theorem mem_entries {e : TaskPtr × Pollfd} :
    e ∈ s.entries ↔ ∃ i, i < s.npollfd ∧ (s.polltask i, s.pollfd i) = e := by
  simp [St.entries]

/-! ## Functions that leave the table alone -/

structure KeepsTable (s s' : St) : Prop where
  npollfd : s'.npollfd = s.npollfd
  polltask : s'.polltask = s.polltask
  pollfd : s'.pollfd = s.pollfd

theorem KeepsTable.refl (s : St) : KeepsTable s s := ⟨rfl, rfl, rfl⟩

theorem KeepsTable.trans {s₁ s₂ s₃ : St} (first : KeepsTable s₁ s₂) (second : KeepsTable s₂ s₃) :
    KeepsTable s₁ s₃ :=
  ⟨second.npollfd.trans first.npollfd, second.polltask.trans first.polltask,
    second.pollfd.trans first.pollfd⟩

theorem KeepsTable.entries (keeps : KeepsTable s s') : s'.entries = s.entries := by
  simp only [St.entries, keeps.npollfd, keeps.polltask, keeps.pollfd]

theorem KeepsTasks.keepsTable (keeps : KeepsTasks s s') : KeepsTable s s' :=
  ⟨congrArg Globals.npollfd keeps.globals, congrArg Globals.polltask keeps.globals,
    congrArg Globals.pollfd keeps.globals⟩

theorem startfdtask_keepsTable {m : Alloc} (done : startfdtask s m = .ok s') :
    KeepsTable s s' := by
  rcases startfdtask_ok done with ⟨-, rfl⟩ | ⟨-, id, created⟩
  · exact .refl _
  · obtain ⟨t₀, lists, cap, -, -, -, -, rfl, -⟩ := taskcreate_ok created
    exact ⟨rfl, rfl, rfl⟩

theorem tasksystem_keepsTable (s : St) (self : TaskPtr) : KeepsTable s (tasksystem s self) := by
  unfold tasksystem
  split <;> exact ⟨rfl, rfl, rfl⟩

theorem alarmwake_keepsTable {now fuel : Nat} {woken : List TaskPtr}
    (done : alarmwake now fuel s = .ok (s', woken)) : KeepsTable s s' := by
  refine alarmwake_induction (motive := fun s₁ _ => KeepsTable s s₁) ?_ [] (.refl s) done
  intro s₁ s₂ s₃ t woken before _ removed readied
  obtain ⟨lists, rfl, -⟩ := deltask_ok removed
  have counted : KeepsTable s₁ (countWaking { s₁ with lists } t) := by
    unfold countWaking
    split <;> exact ⟨rfl, rfl, rfl⟩
  exact (before.trans counted).trans (taskready_keepsTasks readied).keepsTable

theorem taskscheduler_keepsTable (done : taskscheduler s = .ok (s', t)) : KeepsTable s s' := by
  obtain ⟨-, -, lists, rfl, -⟩ := taskscheduler_ok done
  exact ⟨rfl, rfl, rfl⟩

theorem finish_keepsTable (done : finish self (s, flow) = .ok s') : KeepsTable s s' := by
  rcases finish_ok done with ⟨r, -, rfl⟩ | ⟨pc, -, ⟨-, rfl⟩ | ⟨-, reaped⟩⟩
  · exact ⟨rfl, rfl, rfl⟩
  · exact ⟨rfl, rfl, rfl⟩
  · obtain ⟨last, -, -, rfl⟩ := taskreap_ok reaped
    exact ⟨rfl, rfl, rfl⟩

theorem fdtaskYield_keepsTable (done : fdtaskYield s self = .ok (s', flow)) : KeepsTable s s' :=
  (taskready_keepsTasks (fdtaskYield_ok done).2).keepsTable

theorem call_keepsTable {c : Call} (other : ∀ fd rw m, c ≠ .fdwait fd rw m)
    (done : call s self c = .ok (s', flow)) : KeepsTable s s' := by
  by_cases part : c.part ≠ .tasks
  · exact (call_keepsTasks part done).keepsTable
  have tasks : c.part = .tasks := not_not.mp part
  cases c <;> simp only [Call.part, reduceCtorEq] at tasks
  case taskcreate m =>
    obtain ⟨⟨s₁, id⟩, created, returned⟩ := bind_eq_ok.mp done
    obtain ⟨rfl, -⟩ := Prod.mk.inj (Except.ok.inj returned)
    obtain ⟨t₀, lists, cap, -, -, -, -, rfl, -⟩ := taskcreate_ok created
    exact ⟨rfl, rfl, rfl⟩
  case tasksystem =>
    obtain ⟨rfl, -⟩ := Prod.mk.inj (Except.ok.inj done)
    exact tasksystem_keepsTable s self
  case taskyield =>
    obtain ⟨⟨s₁, n⟩, yielded, returned⟩ := bind_eq_ok.mp done
    obtain ⟨rfl, -⟩ := Prod.mk.inj (Except.ok.inj returned)
    exact (taskready_keepsTasks (taskyield_ok yielded)).keepsTable
  case taskexitall val => cases done
  case taskdelay ms now m =>
    obtain ⟨-, s₁, due, position, lists, started, -, -, -, rfl⟩ := taskdelay_ok done
    have kept := startfdtask_keepsTable started
    exact ⟨kept.npollfd, kept.polltask, kept.pollfd⟩
  case fdwait fd rw m => exact absurd rfl (other fd rw m)
  all_goals
    obtain ⟨rfl, -⟩ := Prod.mk.inj (Except.ok.inj done)
    exact ⟨rfl, rfl, rfl⟩

theorem resume_keepsTable {pc : Pc} {env : Env} (other : ∀ n, pc ≠ .fdtaskYield n)
    (done : resume s self env pc = .ok (s', flow)) : KeepsTable s s' := by
  by_cases part : pc.part ≠ .tasks
  · exact (resume_keepsTasks part done).keepsTable
  have tasks : pc.part = .tasks := not_not.mp part
  cases pc <;> simp only [Pc.part, reduceCtorEq] at tasks
  case fdtask => exact (tasksystem_keepsTable s self).trans (fdtaskYield_keepsTable done)
  case fdtaskYield n => exact absurd rfl (other n)
  all_goals
    obtain ⟨rfl, -⟩ := Prod.mk.inj (Except.ok.inj done)
    exact .refl _

/-! ## The sweep -/

/-- The entry has events. -/
def Fired (e : TaskPtr × Pollfd) : Bool := decide (e.2.revents ≠ 0)

/-- One turn of the inner loop removes entry `i`. -/
theorem entries_remove {i : Nat} (inside : i < s.npollfd) (keeps : KeepsTable s s₁) :
    St.entries { s₁ with
        npollfd := s.npollfd - 1
        pollfd := update s₁.pollfd i (s₁.pollfd (s.npollfd - 1))
        polltask := update s₁.polltask i (s₁.polltask (s.npollfd - 1)) } =
      SwapRemove.swapRemove s.entries i := by
  have lastEq : s.entries.getLast? =
      some (s.polltask (s.npollfd - 1), s.pollfd (s.npollfd - 1)) := by
    rw [List.getLast?_eq_getElem?, length_entries, getElem?_entries (by omega)]
  apply List.ext_getElem?
  intro j
  rw [SwapRemove.getElem?_swapRemove lastEq (by simpa using inside), length_entries]
  by_cases short : j < s.npollfd - 1
  · rw [if_pos short, getElem?_entries (by exact short)]
    by_cases same : j = i
    · simp [same, keeps.polltask, keeps.pollfd]
    · rw [if_neg same, getElem?_entries (by omega)]
      simp [same, keeps.polltask, keeps.pollfd]
  · rw [if_neg short, List.getElem?_eq_none_iff]
    simpa using short

theorem pollwakeWhile_sweeps {i fuel : Nat} (done : pollwakeWhile i fuel s = .ok s') :
    ∃ removed, s'.seq .taskrunqueue = s.seq .taskrunqueue ++ removed.map Prod.fst ∧
      ¬(i < s'.npollfd ∧ (s'.pollfd i).revents ≠ 0) ∧
      ∀ kept rest, SwapRemove.Sweeps Fired i s'.entries kept rest →
        SwapRemove.Sweeps Fired i s.entries kept (removed ++ rest) := by
  induction fuel generalizing s with
  | zero =>
      unfold pollwakeWhile at done
      split at done
      next => cases done
      next stops =>
        obtain rfl := Except.ok.inj done
        exact ⟨[], by simp, stops, fun _ _ sweeps => sweeps⟩
  | succ fuel ih =>
      unfold pollwakeWhile at done
      split at done
      next going =>
        simp only at done
        split at done
        next => cases done
        next =>
          obtain ⟨s₁, readied, rest⟩ := bind_eq_ok.mp done
          obtain ⟨lists, -, s₁Eq, queueEq, -⟩ := taskready_ok readied
          have keeps := (taskready_keepsTasks readied).keepsTable
          obtain ⟨removed, queue, stops, sweeps⟩ := ih rest
          have inside : i < s.entries.length := by simpa using going.1
          refine ⟨s.entries[i] :: removed, ?_, stops, fun kept rest' sweeps' => ?_⟩
          · rw [queue]
            simp [s₁Eq, queueEq, getElem_entries inside]
          · refine .remove inside ?_ ?_
            · simpa [Fired, getElem_entries inside] using going.2
            · rw [← entries_remove going.1 keeps]
              have sweeps'' := sweeps kept rest' sweeps'
              rw [keeps.npollfd] at sweeps''
              exact sweeps''
      next stops =>
        obtain rfl := Except.ok.inj done
        exact ⟨[], by simp, stops, fun _ _ sweeps => sweeps⟩

/-- The loop over the table is a sweep that wakes the tasks of the entries it removes. -/
theorem pollwake_sweeps {fuel i : Nat} (done : pollwake fuel i s = .ok s') :
    ∃ removed, s'.seq .taskrunqueue = s.seq .taskrunqueue ++ removed.map Prod.fst ∧
      SwapRemove.Sweeps Fired i s.entries s'.entries removed := by
  induction fuel generalizing s i with
  | zero =>
      unfold pollwake at done
      split at done
      next => cases done
      next beyond =>
        obtain rfl := Except.ok.inj done
        exact ⟨[], by simp, .done (by simpa using beyond)⟩
  | succ fuel ih =>
      unfold pollwake at done
      split at done
      next =>
        obtain ⟨s₁, inner, rest⟩ := bind_eq_ok.mp done
        obtain ⟨first, queue, stops, sweeps⟩ := pollwakeWhile_sweeps inner
        obtain ⟨removed, queue', sweeps'⟩ := ih rest
        refine ⟨first ++ removed, ?_, sweeps _ _ ?_⟩
        · rw [queue', queue, List.map_append, List.append_assoc]
        · by_cases inside : i < s₁.npollfd
          · have within : i < s₁.entries.length := by simpa using inside
            refine .keep within ?_ sweeps'
            rw [getElem_entries within]
            have noEvents : (s₁.pollfd i).revents = 0 := by
              by_contra events
              exact stops ⟨inside, events⟩
            simp [Fired, noEvents]
          · have atEnd : s₁.entries.length ≤ i := by simpa using inside
            obtain ⟨same, rfl⟩ := sweeps'.beyond (Nat.le_succ_of_le atEnd)
            rw [same]
            exact .done atEnd
      next beyond =>
        obtain rfl := Except.ok.inj done
        exact ⟨[], by simp, .done (by simpa using beyond)⟩

/-- What a pass does to the table that gets past its `poll`: `polled` are the tasks it wakes
for it. -/
structure TablePass (t : TaskPtr) (now : Nat) (revents : Nat → Nat) (polled : List TaskPtr)
    (s s' : St) : Prop extends SleepPass t now polled s s' where
  woken : polled.Perm (((s.stored revents).entries.filter Fired).map Prod.fst)
  kept : s'.entries.Perm ((s.stored revents).entries.filter fun e => !Fired e)

theorem fdtaskPass_table {n : BitVec 32} {env : Env} {revents : Nat → Nat}
    (polls : taskyieldReturn s n ≤ 0) (success : env.poll = .ready revents)
    (done : fdtaskPass s self n env = .ok (s', flow)) :
    ∃ polled, TablePass self env.nowAfter revents polled s s' := by
  obtain ⟨s₁, s₂, woken, polled, swept, alarmed, yielded, queue, pass⟩ :=
    fdtaskPass_sleeps polls success done
  obtain ⟨removed, queue', sweeps⟩ := pollwake_sweeps swept
  obtain rfl : removed.map Prod.fst = polled := List.append_cancel_left (queue'.symm.trans queue)
  obtain ⟨go, stay⟩ := sweeps.perm
  have last := fdtaskYield_keepsTable yielded
  have lastKept : KeepsTable s₂ s' := ⟨last.npollfd, last.polltask, last.pollfd⟩
  have kept := (alarmwake_keepsTable alarmed).trans lastKept
  refine ⟨_, pass, go.map Prod.fst, ?_⟩
  rw [KeepsTable.entries ⟨kept.npollfd, kept.polltask, kept.pollfd⟩]
  exact stay

/-- A pass that gets past its `poll`, as a step. -/
theorem PollCall.table {env : Env} {revents : Nat → Nat} (called : PollCall s t s₁)
    (success : env.poll = .ready revents) (stepped : step s (.dispatch env) = .ok s') :
    ∃ polled, TablePass t env.nowAfter revents polled s₁ s' := by
  obtain ⟨n, polls, runsPass⟩ := called.step_eq env
  rw [runsPass] at stepped
  obtain ⟨⟨s₃, flow⟩, resumed, finished⟩ := bind_eq_ok.mp stepped
  obtain ⟨polled, pass⟩ := fdtaskPass_table polls success resumed
  have still := finish_keepsSleep finished
  refine ⟨polled, ⟨still.sleeping.trans pass.sleeping, ?_, still.alarms.trans pass.alarms⟩,
    pass.woken, ?_⟩
  · rw [← pass.queue]
    simp only [St.seq, finish_lists finished]
  · rw [(finish_keepsTable finished).entries]
    exact pass.kept

/-! ## Steps -/

theorem entries_push (s : St) (e : TaskPtr × Pollfd) :
    St.entries { s with
      polltask := update s.polltask s.npollfd e.1
      pollfd := update s.pollfd s.npollfd e.2
      npollfd := s.npollfd + 1 } = s.entries ++ [e] := by
  simp only [St.entries, List.range_succ, List.map_append, List.map_cons, List.map_nil,
    update_self]
  congr 1
  apply List.map_congr_left
  intro i member
  have other : i ≠ s.npollfd := Nat.ne_of_lt (List.mem_range.mp member)
  simp [other]

/-- What a step in which `t` ran did to the poll table. -/
inductive TableTurn (t : TaskPtr) (s s' : St) : Act → Prop where
  | quiet {a : Act} : KeepsTable s s' → TableTurn t s s' a
  | fdwait {fd : Int} {rw : Char} {m : Alloc} :
      s'.entries = s.entries ++ [(t, { fd, events := fdbits rw, revents := 0 })] →
      TableTurn t s s' (.call (.fdwait fd rw m))
  | pass {env : Env} {s₁ : St} {revents : Nat → Nat} {polled : List TaskPtr} :
      PollCall s t s₁ → env.poll = .ready revents →
      TablePass t env.nowAfter revents polled s₁ s' → TableTurn t s s' (.dispatch env)

theorem step_table (isEnabled : enabled s a) (acts : Acts s a t code)
    (stepped : step s a = .ok s') : TableTurn t s s' a := by
  cases step_shape isEnabled stepped with
  | call running isLegal called finished =>
      rename_i c self s₂ flow
      obtain ⟨rfl, -⟩ := acts.unique (.call running)
      by_cases waits : ∃ fd rw m, c = .fdwait fd rw m
      · obtain ⟨fd, rw, m, rfl⟩ := waits
        obtain ⟨-, s₁, started, -, rfl⟩ := fdwait_ok called
        refine .fdwait ?_
        rw [(finish_keepsTable finished).entries,
          ← (startfdtask_keepsTable started).entries]
        exact entries_push s₁ (t, { fd, events := fdbits rw, revents := 0 })
      · refine .quiet ((call_keepsTable ?_ called).trans (finish_keepsTable finished))
        exact fun fd rw m isWait => waits ⟨fd, rw, m, isWait⟩
  | dispatch idle scheduled resumed finished =>
      rename_i env u s₁ s₂ flow
      have scheduledTable := taskscheduler_keepsTable scheduled
      have finishedTable := finish_keepsTable finished
      obtain ⟨-, isHead, -⟩ := taskscheduler_ok scheduled
      obtain ⟨rfl, -⟩ := acts.unique (.dispatch idle isHead)
      by_cases passes : ∃ n, (s₁.task t).pc = .fdtaskYield n
      · obtain ⟨n, stopped⟩ := passes
        rw [stopped] at resumed
        rcases fdtaskPass_cases resumed with
          ⟨-, yielded⟩ | ⟨polls, ⟨-, yielded⟩ | ⟨revents, -, -, -, success, -⟩⟩
        · exact .quiet ((scheduledTable.trans (fdtaskYield_keepsTable yielded)).trans
            finishedTable)
        · have yieldedTable := fdtaskYield_keepsTable yielded
          have kept : KeepsTable s₁ s₂ :=
            ⟨yieldedTable.npollfd, yieldedTable.polltask, yieldedTable.pollfd⟩
          exact .quiet ((scheduledTable.trans kept).trans finishedTable)
        · have called : PollCall s t s₁ := ⟨idle, scheduled, n, stopped, polls⟩
          obtain ⟨polled, pass⟩ := called.table success stepped
          exact .pass called success pass
      · have kept := resume_keepsTable (fun n stopped => passes ⟨n, stopped⟩) resumed
        exact .quiet ((scheduledTable.trans kept).trans finishedTable)

/-! ## Entries and their calls -/

/-- In a run that led to `s`, the task of entry `e` made the call of `fdwait` that the entry
describes, and was not dispatched since. -/
def WaitsSince (allowed : St → Act → Prop) (s : St) (e : TaskPtr × Pollfd) : Prop :=
  ∃ s₀ s₁ rw m later, Reachable allowed s₀ ∧ s₀.taskrunning = some e.1 ∧
    enabled s₀ (.call (.fdwait e.2.fd rw m)) ∧ allowed s₀ (.call (.fdwait e.2.fd rw m)) ∧
    step s₀ (.call (.fdwait e.2.fd rw m)) = .ok s₁ ∧ e.2.events = fdbits rw ∧
    Reaches runtime allowed s₁ s ∧ dispatches s.trace = dispatches s₁.trace ++ later ∧
    e.1 ∉ later

/-- The task of an entry waits outside of the lists. -/
theorem Inv.entry_waits {run : Option TaskPtr} (inv : Inv run s) {e : TaskPtr × Pollfd}
    (member : e ∈ s.entries) : Stopped run s e.1 .fdwait ∧ s.home e.1 = none := by
  obtain ⟨i, inside, rfl⟩ := mem_entries.mp member
  exact inv.polled.owner i inside

/-- The task of an entry does not act. -/
theorem Acts.not_entry (acts : Acts s a t code) (inv : Inv s.taskrunning s)
    {e : TaskPtr × Pollfd} (member : e ∈ s.entries) : e.1 ≠ t := by
  obtain ⟨stopped, free⟩ := inv.entry_waits member
  rintro rfl
  cases acts with
  | call running => exact stopped.idle running
  | dispatch _ isHead =>
      rw [(mem_seq_iff s _ _).mp (List.mem_of_mem_head? isHead)] at free
      cases free

/-- After a step of another task it still waits. -/
theorem WaitsSince.step {allowed : St → Act → Prop} {e : TaskPtr × Pollfd}
    (waits : WaitsSince allowed s e) (other : e.1 ≠ t) (isEnabled : enabled s a)
    (kept : allowed s a) (stepped : step s a = .ok s') (turned : Turned t code s s') :
    WaitsSince allowed s' e := by
  obtain ⟨s₀, s₁, rw, m, later, reachable, running, isEnabled₀, kept₀, stepped₀, events,
    reaches, dispatched, notYet⟩ := waits
  refine ⟨s₀, s₁, rw, m, later ++ code.dispatched t, reachable, running, isEnabled₀, kept₀,
    stepped₀, events, reaches.step isEnabled kept stepped, ?_, ?_⟩
  · rw [turned.dispatches, dispatched, List.append_assoc]
  · rw [List.mem_append, not_or]
    refine ⟨notYet, ?_⟩
    cases code with
    | call c => simp [Code.dispatched]
    | resume pc => simpa [Code.dispatched] using other

theorem PollCall.entries (called : PollCall s t s₁) : s₁.entries = s.entries :=
  (taskscheduler_keepsTable called.scheduled).entries

/-- An entry that is kept had no events before and after the `poll`, so it is the same. -/
theorem kept_entry {revents : Nat → Nat} {e : TaskPtr × Pollfd}
    (clear : ∀ e ∈ s.entries, e.2.revents = 0)
    (kept : e ∈ (s.stored revents).entries.filter fun e => !Fired e) : e ∈ s.entries := by
  rw [List.mem_filter] at kept
  obtain ⟨member, noEvents⟩ := kept
  obtain ⟨i, inside, rfl⟩ := mem_entries.mp member
  have inside' : i < s.npollfd := inside
  have was : (s.pollfd i).revents = 0 := clear _ (mem_entries.mpr ⟨i, inside', rfl⟩)
  have now : revents i = 0 := by simpa [Fired, St.stored, inside'] using noEvents
  refine mem_entries.mpr ⟨i, inside', ?_⟩
  simp [St.stored, inside', now, ← was]

/-- Every entry describes the call in which its task waits, and has no events. -/
theorem reachable_entries {allowed : St → Act → Prop} (reachable : Reachable allowed s) :
    ∀ e ∈ s.entries, e.2.revents = 0 ∧ WaitsSince allowed s e := by
  apply reachable.invariant fun s => ∀ e ∈ s.entries, e.2.revents = 0 ∧ WaitsSince allowed s e
  · rintro s ⟨rendez, mem, m, started⟩ e member
    obtain ⟨id, created⟩ := main_ok started
    obtain ⟨t₀, lists, cap, -, -, -, -, rfl, -⟩ := taskcreate_ok created
    simp [St.entries, St.zero] at member
  · intro s a s' before ih isEnabled kept stepped
    have inv := reachable_inv before
    obtain ⟨t, code, acts, turned⟩ := exists_turned inv isEnabled stepped
    have old : ∀ e ∈ s.entries, e.2.revents = 0 ∧ WaitsSince allowed s' e := fun e member =>
      ⟨(ih e member).1, (ih e member).2.step (acts.not_entry inv member) isEnabled kept stepped
        turned⟩
    cases step_table isEnabled acts stepped with
    | quiet keeps =>
        rw [keeps.entries]
        exact old
    | fdwait entries =>
        rename_i fd rw m
        intro e member
        rw [entries, List.mem_append, List.mem_singleton] at member
        rcases member with wasThere | rfl
        · exact old e wasThere
        · cases acts with
          | call running =>
              exact ⟨rfl, s, s', rw, m, [], before, running, isEnabled, kept, stepped, rfl, .refl,
                by simp, by simp⟩
    | pass called _ pass =>
        intro e member
        refine old e ?_
        rw [← called.entries]
        refine kept_entry ?_ (pass.kept.mem_iff.mp member)
        rw [called.entries]
        exact fun e member => (ih e member).1

/-- The turn of `fdtask` is not cut short, unless by an error of `poll`. -/
theorem PollCall.proceeds {allowed : St → Act → Prop} {env : Env}
    (reachable : Reachable allowed s) (called : PollCall s t s₁) (noError : env.poll ≠ .error)
    (isEnabled : enabled s (.dispatch env)) : ∃ s', step s (.dispatch env) = .ok s' := by
  have safe := step_not_corrupt (reachable_inv reachable) isEnabled
  have only : OnlyCorrupt (step s (.dispatch env)) := by
    obtain ⟨n, polls, runsPass⟩ := called.step_eq env
    rw [runsPass]
    refine Avoids.bind ?_ fun result _ => finish_onlyCorrupt _ result
    simp only [fdtaskPass, if_neg (Int.not_lt.mpr polls)]
    cases polled : env.poll with
    | eintr => exact fdtaskYield_onlyCorrupt _ _
    | error => exact absurd polled noError
    | ready revents =>
        refine (pollwake_onlyCorrupt _ _ _).bind fun _ _ => ?_
        exact (alarmwake_onlyCorrupt _ _ _).bind fun _ _ => fdtaskYield_onlyCorrupt _ _
  refine Avoids.exists_ok (x := step s (.dispatch env)) fun why stopped _ => ?_
  exact only why stopped (safe why stopped)

/-- An interrupted `poll` changes nothing: `fdtask` goes back to the run queue. -/
theorem PollCall.interrupted {allowed : St → Act → Prop} {env : Env}
    (reachable : Reachable allowed s) (called : PollCall s t s₁) (interrupted : env.poll = .eintr)
    (stepped : step s (.dispatch env) = .ok s') :
    ∃ lists task trace,
      s' = { s with
        lists, trace
        task := update s.task t task
        tasknswitch := s.tasknswitch + 1 } ∧
      lists.seq = update s.seq .taskrunqueue (s₁.seq .taskrunqueue ++ [t]) := by
  obtain ⟨n, polls, runsPass⟩ := called.step_eq env
  rw [runsPass] at stepped
  obtain ⟨⟨s₃, flow⟩, resumed, finished⟩ := bind_eq_ok.mp stepped
  rcases fdtaskPass_cases resumed with
    ⟨busy, -⟩ | ⟨-, ⟨-, yielded⟩ | ⟨revents, -, -, -, success, -⟩⟩
  · omega
  · obtain ⟨-, isHead, lists₁, s₁Eq, -, seqEq, -⟩ := taskscheduler_ok called.scheduled
    obtain ⟨⟨n', rfl⟩, readied⟩ := fdtaskYield_ok yielded
    obtain ⟨lists₂, -, s₃Eq, seqEq', -⟩ := taskready_ok readied
    have inv := reachable_inv reachable
    have live : t ∈ s.alltask :=
      (inv.listed t).live _ ((mem_seq_iff s t _).mp (List.mem_of_mem_head? isHead))
    have staying : (s₃.task t).exiting = false := by
      simpa [s₃Eq, s₁Eq, St.log] using inv.table.staying t live
    rcases finish_ok finished with ⟨r, isReturn, -⟩ | ⟨pc, -, ⟨-, rfl⟩ | ⟨exiting, -⟩⟩
    · cases isReturn
    · refine ⟨lists₂, { s₃.task t with pc }, s₃.trace, ?_, ?_⟩
      · have idle := called.idle
        simp [s₃Eq, s₁Eq, St.log, St.setTask, idle]
      · rw [seqEq']
        simp [s₁Eq, St.log, seqEq]
    · rw [staying] at exiting
      cases exiting
  · rw [interrupted] at success
    cases success

/-! ## The table -/

/-- The tasks of the entries in which `poll` finds events. -/
def St.fired (s : St) (revents : Nat → Nat) : List TaskPtr :=
  ((List.range s.npollfd).filter fun i => decide (revents i ≠ 0)).map s.polltask

/-- The entries in which `poll` finds none. -/
def St.quiet (s : St) (revents : Nat → Nat) : List (TaskPtr × Pollfd) :=
  ((List.range s.npollfd).filter fun i => decide (revents i = 0)).map fun i =>
    (s.polltask i, s.pollfd i)

theorem fired_stored (s : St) (revents : Nat → Nat) :
    ((s.stored revents).entries.filter Fired).map Prod.fst = s.fired revents := by
  simp only [St.entries, St.fired, St.stored, List.filter_map, List.map_map]
  congr 1
  apply List.filter_congr
  intro i member
  simp [Fired, List.mem_range.mp member]

theorem quiet_stored {revents : Nat → Nat}
    (clear : ∀ i, i < s.npollfd → (s.pollfd i).revents = 0) :
    ((s.stored revents).entries.filter fun e => !Fired e) = s.quiet revents := by
  simp only [St.entries, St.quiet, St.stored, List.filter_map]
  have sameFilter : (List.range s.npollfd).filter ((fun e => !Fired e) ∘ fun i =>
      (s.polltask i, if i < s.npollfd then { s.pollfd i with revents := revents i }
        else s.pollfd i)) =
      (List.range s.npollfd).filter fun i => decide (revents i = 0) := by
    apply List.filter_congr
    intro i member
    simp [Fired, List.mem_range.mp member]
  rw [sameFilter]
  apply List.map_congr_left
  intro i member
  obtain ⟨inRange, noEvents⟩ := List.mem_filter.mp member
  have inside : i < s.npollfd := List.mem_range.mp inRange
  have was := clear i inside
  simp only [decide_eq_true_eq] at noEvents
  simp [inside, noEvents, ← was]

/-- The poll table of every run: each entry belongs to a task that is blocked in the call that
the entry describes; no access is out of range; a pass after a successful `poll` makes exactly
the tasks ready whose entries have events, once each, and keeps exactly the other entries; and
an interrupted `poll` changes nothing. -/
theorem poll_table {allowed : St → Act → Prop} {s : St} (reachable : Reachable allowed s) :
    s.npollfd ≤ maxfd ∧
    (∀ i, i < s.npollfd →
      Stopped s.taskrunning s (s.polltask i) .fdwait ∧ s.home (s.polltask i) = none ∧
      (s.pollfd i).revents = 0 ∧ WaitsSince allowed s (s.polltask i, s.pollfd i)) ∧
    (∀ a, enabled s a → step s a ≠ .error (.fault .pollRange)) ∧
    ∀ t s₁ env, PollCall s t s₁ → enabled s (.dispatch env) →
      (∀ revents, env.poll = .ready revents → ∃ s' polled due,
        step s (.dispatch env) = .ok s' ∧
        s'.seq .taskrunqueue = s₁.seq .taskrunqueue ++ polled ++ due ++ [t] ∧
        polled.Perm (s.fired revents) ∧ (∀ u ∈ due, u ∈ s.seq .sleeping) ∧
        (s'.seq .taskrunqueue).Nodup ∧ s'.entries.Perm (s.quiet revents) ∧
        ∀ e ∈ s'.entries, e.2.revents = 0) ∧
      (env.poll = .eintr → ∃ s' lists task trace,
        step s (.dispatch env) = .ok s' ∧
        s' = { s with
          lists, trace
          task := update s.task t task
          tasknswitch := s.tasknswitch + 1 } ∧
        lists.seq = update s.seq .taskrunqueue (s₁.seq .taskrunqueue ++ [t])) := by
  have inv := reachable_inv reachable
  have waits := reachable_entries reachable
  have clear : ∀ i, i < s.npollfd → (s.pollfd i).revents = 0 := fun i inside =>
    (waits _ (mem_entries.mpr ⟨i, inside, rfl⟩)).1
  refine ⟨inv.polled.room, fun i inside => ?_, fun a isEnabled stopped => ?_, ?_⟩
  · obtain ⟨stopped, free⟩ := inv.polled.owner i inside
    exact ⟨stopped, free, waits _ (mem_entries.mpr ⟨i, inside, rfl⟩)⟩
  · exact step_not_corrupt inv isEnabled _ stopped trivial
  · intro t s₁ env called isEnabled
    constructor
    · intro revents success
      have noError : env.poll ≠ .error := by simp [success]
      obtain ⟨s', stepped⟩ := called.proceeds reachable noError isEnabled
      obtain ⟨polled, pass⟩ := called.table success stepped
      have table := taskscheduler_keepsTable called.scheduled
      have clear₁ : ∀ i, i < s₁.npollfd → (s₁.pollfd i).revents = 0 := by
        rw [table.npollfd, table.pollfd]
        exact clear
      have fired : s₁.fired revents = s.fired revents := by
        simp only [St.fired, table.npollfd, table.polltask]
      have quiet : s₁.quiet revents = s.quiet revents := by
        simp only [St.quiet, table.npollfd, table.polltask, table.pollfd]
      have kept : s'.entries.Perm (s.quiet revents) := by
        rw [← quiet, ← quiet_stored clear₁]
        exact pass.kept
      refine ⟨s', polled, _, stepped, pass.queue, ?_, fun u due => ?_, s'.lists.nodup _, kept, ?_⟩
      · rw [← fired, ← fired_stored]
        exact pass.woken
      · rw [called.before.1] at due
        exact List.takeWhile_subset _ due
      · intro e member
        obtain ⟨i, isQuiet, rfl⟩ := List.mem_map.mp (kept.mem_iff.mp member)
        exact clear i (List.mem_range.mp (List.mem_filter.mp isQuiet).1)
    · intro interrupted
      have noError : env.poll ≠ .error := by simp [interrupted]
      obtain ⟨s', stepped⟩ := called.proceeds reachable noError isEnabled
      obtain ⟨lists, task, trace, effect⟩ := called.interrupted reachable interrupted stepped
      exact ⟨s', lists, task, trace, stepped, effect⟩

/-- Two tasks wait for the descriptor 5 and one for 6.  Events in the first and the last entry
leave the second one in the table. -/
theorem poll_table_three : ∃ (s s₁ s' : St) (polled : List TaskPtr),
    PollCall s 9 s₁ ∧ s.npollfd = 3 ∧
    step s (.dispatch { poll := .ready fun i => if i = 1 then 0 else 1 }) = .ok s' ∧
    polled.Perm [1, 3] ∧ s'.entries.Perm [(2, { fd := 5, events := 4, revents := 0 })] := by
  obtain ⟨s, checked, reachable⟩ := exists_run anyAction (fun _ => none)
    [.dispatch {}, .call (.taskcreate (some 2)), .call (.taskcreate (some 3)),
      .call (.fdwait 5 'r' (some 9)), .dispatch {}, .call (.fdwait 5 'w' { malloc := none }),
      .dispatch {}, .call (.fdwait 6 'r' { malloc := none }), .dispatch {}]
    (fun s => decide (s.taskrunning = none) && decide (s.npollfd = 3) &&
      decide (s.polltask 0 = 1) && decide (s.polltask 2 = 3) &&
      decide (s.entries[1]? = some (2, { fd := 5, events := 4, revents := 0 })) &&
      match taskscheduler s with
      | .ok (s₁, t) => decide (t = 9) && decide ((s₁.task 9).pc = .fdtaskYield 4) &&
          decide (taskyieldReturn s₁ 4 ≤ 0)
      | .error _ => false)
    (by decide +kernel)
  simp only [Bool.and_eq_true, decide_eq_true_eq] at checked
  obtain ⟨⟨⟨⟨⟨idle, three⟩, first⟩, last⟩, second⟩, next⟩ := checked
  split at next
  next s₁ t scheduled =>
    simp only [Bool.and_eq_true, decide_eq_true_eq] at next
    obtain ⟨⟨rfl, stopped⟩, polls⟩ := next
    have called : PollCall s 9 s₁ := ⟨idle, scheduled, 4, stopped, polls⟩
    obtain ⟨-, -, -, pass⟩ := poll_table reachable
    obtain ⟨s', polled, -, stepped, -, woken, -, -, kept, -⟩ :=
      (pass 9 s₁ { poll := .ready fun i => if i = 1 then 0 else 1 } called
        ⟨idle, by simp, by simp⟩).1 _ rfl
    refine ⟨s, s₁, s', polled, called, three, stepped, ?_, ?_⟩
    · simpa [St.fired, three, List.range_succ, first, last] using woken
    · have entry : (s.polltask 1, s.pollfd 1) = (2, { fd := 5, events := 4, revents := 0 }) := by
        rw [getElem?_entries (by omega)] at second
        exact Option.some.inj second
      simpa [St.quiet, three, List.range_succ, entry] using kept
  next => cases next

end Libtask
