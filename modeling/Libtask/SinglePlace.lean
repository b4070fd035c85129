import Libtask.Safety

/-!
# Every task is in one place

The global invariant holds in every reachable state.  In terms of the objects of
the library it says that a live task is running, or in one list, or in one entry of
the poll table, or blocked in `chanalt`, and nowhere else.
-/

namespace Libtask

open Function (update update_self update_of_ne)
open Outcome (bind_eq_ok)
open Transition

/-! ## Reachable states -/

theorem zero_inv (rendez : RendezPtr → Option QLockPtr) (mem : Nat → UInt8) :
    Inv none (St.zero rendez mem) := by
  have noQueue : ∀ c dir, (St.zero rendez mem).queue c dir = [] := by
    intro c dir
    cases dir <;> rfl
  have noTask : ∀ t pc, ¬Stopped none (St.zero rendez mem) t pc :=
    fun t pc stopped => by simpa [St.zero] using stopped.live
  refine ⟨?_, ?_, ?_, ?_⟩
  · refine ⟨List.nodup_nil, ?_, rfl, Nat.le_refl _, ?_⟩
    · intro i t atIndex
      simp [St.zero] at atIndex
    · intro t live
      simp [St.zero] at live
  · intro t
    refine ⟨by simp, by simp [St.zero, St.home, Dlist.Dlists.empty], ?_,
      by simp [St.zero, St.home, Dlist.Dlists.empty], ?_, ?_⟩
    · simp [St.zero, Dlist.Dlists.empty]
    · exact fun pc stopped _ => absurd stopped (noTask t pc)
    · exact fun pc stopped => absurd stopped (noTask t pc)
  · refine ⟨Nat.zero_le _, ?_, ?_, ?_⟩
    · intro i inside
      simp [St.zero] at inside
    · intro i j inside
      simp [St.zero] at inside
    · exact fun t stopped _ => absurd stopped (noTask t _)
  · refine ⟨⟨?_, ?_, ?_⟩, ?_, ?_, ?_, ?_, ?_⟩
    · intro c dir p member
      simp [noQueue] at member
    · intro c dir
      simp [noQueue]
    · intro c dir
      cases dir <;> simp [St.zero, Channel.queue, Altarray.Fits, Altarray.n]
    · intro c dir p member
      simp [noQueue] at member
    · intro c dir p member
      simp [noQueue] at member
    · exact fun t pc a stopped _ _ => absurd stopped (noTask t pc)
    · exact fun t pc a stopped _ _ => absurd stopped (noTask t pc)
    · exact fun t u pc pc' a stopped _ _ _ => absurd stopped (noTask t pc)

theorem main_ok {rendez : RendezPtr → Option QLockPtr} {mem : Bytes.Memory} {t : TaskPtr}
    {s : St} (started : main rendez mem t = .ok s) :
    ∃ id, taskcreate (St.zero rendez mem) (some t) (.user none) = .ok (s, id) := by
  obtain ⟨⟨s₁, id⟩, created, returned⟩ := bind_eq_ok.mp started
  obtain rfl := Except.ok.inj returned
  exact ⟨id, created⟩

theorem main_inv {rendez : RendezPtr → Option QLockPtr} {mem : Bytes.Memory} {t : TaskPtr}
    {s : St} (started : main rendez mem t = .ok s) : s.taskrunning = none ∧ Inv none s := by
  obtain ⟨id, created⟩ := main_ok started
  have kind : Pc.user none ≠ .fdwait ∧ ¬InAlt (.user none) ∧ Pc.user none ≠ .taskexit := by
    simp [InAlt, Pc.altbase]
  refine ⟨?_, (zero_inv rendez mem).create kind (by simp [freshTask, St.zero]) created⟩
  obtain ⟨t₀, lists, cap, -, -, -, -, rfl, -⟩ := taskcreate_ok created
  rfl

/-- The invariant holds throughout every run. -/
theorem reachable_inv {allowed : St → Act → Prop} {s : St} (reachable : Reachable allowed s) :
    Inv s.taskrunning s := by
  induction reachable with
  | init start =>
      obtain ⟨rendez, mem, t, started⟩ := start
      obtain ⟨idle, inv⟩ := main_inv started
      rw [idle]
      exact inv
  | step _ isEnabled _ stepped ih => exact step_inv ih isEnabled stepped

/-- A run that is given by its actions. -/
theorem exists_run (allowed : St → Act → Prop) [∀ s a, Decidable (allowed s a)]
    (rendez : RendezPtr → Option QLockPtr) (actions : List Act) (check : St → Bool)
    (executed : ((main rendez (fun _ => 0) 1).toOption.any fun s =>
      (exec runtime allowed s actions).any check) = true) :
    ∃ s, check s = true ∧ Reachable allowed s := by
  cases started : main rendez (fun _ => 0) 1 with
  | error why =>
      rw [started] at executed
      cases executed
  | ok s =>
      rw [started] at executed
      have start : Reachable allowed s := .init ⟨rendez, _, 1, started⟩
      obtain ⟨s', -, checked, reachable⟩ := exists_reachable_exec start executed
      exact ⟨s', checked, reachable⟩

/-- A run that is seen from one of its steps. -/
theorem exists_run_through (allowed : St → Act → Prop) [∀ s a, Decidable (allowed s a)]
    (rendez : RendezPtr → Option QLockPtr) (before : List Act) (first : St → Bool) (act : Act)
    (after : List Act) (last : St → Bool)
    (executed : ((main rendez (fun _ => 0) 1).toOption.any fun s =>
      (exec runtime allowed s before).any fun mid =>
        first mid && (exec runtime allowed mid (act :: after)).any last) = true) :
    ∃ s s₁ s₂, Reachable allowed s ∧ first s = true ∧ enabled s act ∧ allowed s act ∧
      step s act = .ok s₁ ∧ exec runtime allowed s₁ after = some s₂ ∧ last s₂ = true := by
  obtain ⟨s, checked, reachable⟩ := exists_run allowed rendez before _ executed
  obtain ⟨checkedFirst, rest⟩ := Bool.and_eq_true_iff.mp checked
  obtain ⟨s₂, run, checkedLast, -⟩ := exists_reachable_exec reachable rest
  obtain ⟨isEnabled, kept, s₁, stepped, afterwards⟩ := exec_cons run
  exact ⟨s, s₁, s₂, reachable, checkedFirst, isEnabled, kept, stepped,
    afterwards, checkedLast⟩

instance (s : St) (a : Act) : Decidable ((anyAction : St → Act → Prop) s a) :=
  inferInstanceAs (Decidable True)

/-! ## Places -/

/-- Where a live task can be. -/
inductive Place where
  | taskrunning
  | list (l : ListId)
  | polltask
  /-- blocked inside `chanalt` on the array at `a` -/
  | chanalt (a : Nat)
  deriving DecidableEq

/-- The number of entries of the poll table that `t` owns. -/
def St.pollcount (s : St) (t : TaskPtr) : Nat :=
  (List.range s.npollfd).countP fun i => s.polltask i = t

/-- Pointer `p` is in one queue of one channel, where it is once. -/
def St.QueuedOnce (s : St) (p : AltPtr) (c : ChanPtr) (dir : Dir) : Prop :=
  (s.queue c dir).count p = 1 ∧ ∀ c' dir', p ∈ s.queue c' dir' → c' = c ∧ dir' = dir

/-- `t` gave up the CPU in `chanalt` on the array at `a`, and was not woken since. -/
def St.BlockedIn (s : St) (t : TaskPtr) (a : Nat) : Prop :=
  (s.task t).pc.altbase = some a ∧ (s.task t).ready = false ∧ s.taskrunning ≠ some t

/-- `t` is in a place, and there once. -/
def St.At (s : St) (t : TaskPtr) : Place → Prop
  | .taskrunning => s.taskrunning = some t
  | .list l => (s.seq l).count t = 1
  | .polltask => s.pollcount t = 1
  | .chanalt a => s.BlockedIn t a ∧ ∀ i alt, i < altcount (s.alts a) →
      (s.alts a)[i]? = some alt → alt.op ≠ .channop →
        ∃ dir, chanarray alt.op = some dir ∧ s.QueuedOnce ⟨a, i⟩ alt.c dir

/-- Nothing of `t` is in a place. -/
def St.Away (s : St) (t : TaskPtr) : Place → Prop
  | .taskrunning => s.taskrunning ≠ some t
  | .list l => t ∉ s.seq l
  | .polltask => s.pollcount t = 0
  | .chanalt a => ¬s.BlockedIn t a ∧
      ∀ c dir p alt, p ∈ s.queue c dir → s.alt? p = some alt → p.base = a → alt.task ≠ t

section

variable {s : St} {t : TaskPtr}

theorem Inv.ready_iff (inv : Inv s.taskrunning s) (t : TaskPtr) :
    (s.task t).ready = true ↔ t ∈ s.seq .taskrunqueue := by
  rw [mem_seq_iff]
  exact (inv.listed t).ready

theorem Inv.queuedOnce (inv : Inv s.taskrunning s) {p : AltPtr} {c : ChanPtr} {dir : Dir}
    (member : p ∈ s.queue c dir) : s.QueuedOnce p c dir := by
  have queues := inv.parked.queues
  refine ⟨List.count_eq_one_of_mem (queues.nodup c dir) member, fun c' dir' member' => ?_⟩
  obtain ⟨alt, altEq, rfl, dirEq⟩ := queues.entry c dir p member
  obtain ⟨alt', altEq', rfl, dirEq'⟩ := queues.entry c' dir' p member'
  rw [altEq] at altEq'
  obtain rfl := Option.some.inj altEq'
  rw [dirEq] at dirEq'
  exact ⟨rfl, (Option.some.inj dirEq').symm⟩

theorem Inv.pollcount_le (inv : Inv s.taskrunning s) {i : Nat} (inside : i < s.npollfd) :
    s.pollcount (s.polltask i) = 1 := by
  have only : (List.range s.npollfd).countP (fun j => s.polltask j = s.polltask i) =
      (List.range s.npollfd).count i := by
    rw [List.count]
    refine List.countP_congr fun j member => ?_
    have jInside := List.mem_range.mp member
    simp only [decide_eq_true_eq, beq_iff_eq]
    exact ⟨fun equal => inv.polled.unique j i jInside inside equal, fun equal => by rw [equal]⟩
  rw [St.pollcount, only]
  exact List.count_eq_one_of_mem List.nodup_range (List.mem_range.mpr inside)

theorem pollcount_eq_zero (other : ∀ i, i < s.npollfd → s.polltask i ≠ t) :
    s.pollcount t = 0 := by
  rw [St.pollcount, List.countP_eq_zero]
  intro i member
  simpa using other i (List.mem_range.mp member)

/-- A queue pointer belongs to a blocked task. -/
theorem Inv.queue_owner (inv : Inv s.taskrunning s) {c : ChanPtr} {dir : Dir} {p : AltPtr}
    {alt : Alt} (member : p ∈ s.queue c dir) (altEq : s.alt? p = some alt) :
    alt.task ∈ s.alltask ∧ s.BlockedIn alt.task p.base := by
  obtain ⟨-, -, -, ⟨pc, stopped, base⟩, free, -⟩ := inv.parked.blocked member altEq
  refine ⟨stopped.live, by rw [stopped.pc, base], ?_, stopped.idle⟩
  rw [Bool.eq_false_iff]
  intro isReady
  have := (inv.listed alt.task).ready.mp isReady
  rw [free] at this
  cases this

/-- A task that is not blocked in `chanalt` on an array is away from there. -/
theorem Inv.away_chanalt (inv : Inv s.taskrunning s) {a : Nat} (open' : ¬s.BlockedIn t a) :
    s.Away t (.chanalt a) := by
  refine ⟨open', fun c dir p alt member altEq base => ?_⟩
  rintro rfl
  exact open' (base ▸ (inv.queue_owner member altEq).2)

theorem Inv.away_polltask (inv : Inv s.taskrunning s)
    (notThere : ¬Stopped s.taskrunning s t .fdwait ∨ s.home t ≠ none) :
    s.Away t .polltask := by
  refine pollcount_eq_zero fun i inside isT => ?_
  obtain ⟨stopped, free⟩ := inv.polled.owner i inside
  rw [isT] at stopped free
  exact notThere.elim (fun no => no stopped) (fun no => no free)

theorem away_list {l : ListId} (elsewhere : s.home t ≠ some l) : s.Away t (.list l) :=
  fun member => elsewhere ((mem_seq_iff s t l).mp member)

theorem Inv.place_list (inv : Inv s.taskrunning s) {l : ListId} (running : s.taskrunning ≠ some t)
    (homeEq : s.home t = some l) :
    s.At t (.list l) ∧ ∀ other, other ≠ .list l → s.Away t other := by
  refine ⟨?_, fun other different => ?_⟩
  · exact List.count_eq_one_of_mem (s.lists.nodup l) ((mem_seq_iff s t l).mpr homeEq)
  · cases other with
    | taskrunning => exact running
    | list l' =>
        refine away_list ?_
        rw [homeEq]
        exact fun same => different (by rw [Option.some.inj same])
    | polltask => exact inv.away_polltask (Or.inr (by simp [homeEq]))
    | chanalt a =>
        refine inv.away_chanalt fun blocked => ?_
        by_cases onRun : l = .taskrunqueue
        · have isReady := (inv.listed t).ready.mpr (onRun ▸ homeEq)
          rw [blocked.2.1] at isReady
          cases isReady
        · have kinds := waitlist_kinds ((inv.listed t).waits l homeEq onRun)
          exact kinds.2.1 ⟨a, blocked.1⟩

theorem Inv.place_polltask (inv : Inv s.taskrunning s) (stopped : Stopped s.taskrunning s t .fdwait)
    (free : s.home t = none) :
    s.At t .polltask ∧ ∀ other, other ≠ .polltask → s.Away t other := by
  obtain ⟨i, inside, entryEq⟩ := inv.polled.entry t stopped free
  refine ⟨?_, fun other different => ?_⟩
  · have once := inv.pollcount_le inside
    rwa [entryEq] at once
  · cases other with
    | taskrunning => exact stopped.idle
    | list l => exact away_list (by simp [free])
    | polltask => exact absurd rfl different
    | chanalt a =>
        refine inv.away_chanalt fun blocked => ?_
        rw [St.BlockedIn, stopped.pc] at blocked
        cases blocked.1

theorem Inv.place_chanalt (inv : Inv s.taskrunning s) {pc : Pc} {a : Nat}
    (stopped : Stopped s.taskrunning s t pc) (base : pc.altbase = some a)
    (free : s.home t = none) :
    s.At t (.chanalt a) ∧ ∀ other, other ≠ .chanalt a → s.Away t other := by
  have waiting := inv.parked.waiting t pc a stopped base free
  have notReady := (inv.listed t).notReady free
  obtain rfl := stopped.pc
  refine ⟨⟨⟨base, notReady, stopped.idle⟩, ?_⟩, fun other different => ?_⟩
  · intro i alt inside atIndex notHole
    obtain ⟨front, last, split, alternatives, -, count⟩ :=
      terminated_split waiting.isTerminated
    have inFront : alt ∈ front := by
      rw [count] at inside
      rw [split, List.getElem?_append_left inside] at atIndex
      exact List.mem_of_getElem? atIndex
    cases dirEq : chanarray alt.op with
    | none =>
        exact absurd ((chanarray_eq_none_iff (alternatives alt inFront)).mp dirEq) notHole
    | some dir =>
        exact ⟨dir, rfl, inv.queuedOnce (waiting.queued i alt dir inside atIndex dirEq)⟩
  · cases other with
    | taskrunning => exact stopped.idle
    | list l => exact away_list (by simp [free])
    | polltask =>
        refine inv.away_polltask (Or.inl fun polls => ?_)
        rw [polls.pc] at base
        cases base
    | chanalt a' =>
        refine inv.away_chanalt fun blocked => different ?_
        rw [Option.some.inj (base.symm.trans blocked.1)]

/-- A live task is in one place, and away from all others. -/
theorem Inv.place (inv : Inv s.taskrunning s) (live : t ∈ s.alltask) :
    ∃ place, s.At t place ∧ ∀ other, other ≠ place → s.Away t other := by
  by_cases running : s.taskrunning = some t
  · obtain ⟨-, free⟩ := (inv.listed t).running running
    refine ⟨.taskrunning, running, fun other different => ?_⟩
    cases other with
    | taskrunning => exact absurd rfl different
    | list l => exact away_list (by simp [free])
    | polltask => exact inv.away_polltask (Or.inl fun stopped => stopped.idle running)
    | chanalt a => exact inv.away_chanalt fun blocked => blocked.2.2 running
  have stopped : Stopped s.taskrunning s t (s.task t).pc := ⟨live, running, rfl⟩
  cases homeEq : s.home t with
  | some l => exact ⟨.list l, inv.place_list running homeEq⟩
  | none =>
      rcases (inv.listed t).outside _ stopped homeEq with polls | ⟨a, base⟩
      · exact ⟨.polltask, inv.place_polltask (polls ▸ stopped) homeEq⟩
      · exact ⟨.chanalt a, inv.place_chanalt stopped base homeEq⟩

end

/-- In every state of every run each live task is in one place and there once,
`ready` marks the tasks of the run queue, the links of every list are well formed
and hold live tasks only, and no step corrupts a list or a table. -/
theorem single_place {allowed : St → Act → Prop} {s : St} (reachable : Reachable allowed s) :
    s.alltask.Nodup ∧
    (∀ t ∈ s.alltask, ∃ place, s.At t place ∧ ∀ other, other ≠ place → s.Away t other) ∧
    (∀ t, (s.task t).ready = true ↔ t ∈ s.seq .taskrunqueue) ∧
    (∀ l, s.lists.links.Linked l (s.seq l) ∧ ∀ t ∈ s.seq l, t ∈ s.alltask) ∧
    ∀ a why, enabled s a → step s a = .error why → ¬why.corrupt := by
  have inv := reachable_inv reachable
  refine ⟨inv.table.nodup, fun t live => inv.place live, inv.ready_iff, fun l => ?_, ?_⟩
  · refine ⟨s.lists.linked l, fun t member => ?_⟩
    exact (inv.listed t).live l ((mem_seq_iff s t l).mp member)
  · exact fun a why isEnabled stopped => step_not_corrupt inv isEnabled why stopped

/-- A run in which the main task waits to receive while a second one is ready. -/
theorem single_place_receiver : ∃ s : St, s.seq .taskrunqueue = [2] ∧
    (s.task 1).pc = .chanop 20 ∧
    ∀ t ∈ s.alltask, ∃ place, s.At t place ∧ ∀ other, other ≠ place → s.Away t other := by
  obtain ⟨s, checked, reachable⟩ := exists_run anyAction (fun _ => none)
    [.dispatch {}, .call (.taskcreate (some 2)), .call (.chancreate (some 7) 4 0 fun _ => 0),
      .call (.chanop 7 .chanrcv (some 100) true 20 0 0)]
    (fun s => decide (s.seq .taskrunqueue = [2]) && decide ((s.task 1).pc = .chanop 20))
    (by decide +kernel)
  simp only [Bool.and_eq_true, decide_eq_true_eq] at checked
  exact ⟨s, checked.1, checked.2, (single_place reachable).2.1⟩

end Libtask
