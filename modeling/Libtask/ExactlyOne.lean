import Libtask.Fifo

/-!
# chanalt performs one alternative

A call of `chanalt` executes one alternative that can proceed, or its partner executes
one while the call is blocked, and the index that it returns is that of this one.
-/

namespace Libtask

open Function (update update_self update_of_ne)
open Outcome (bind_eq_ok Avoids)
open Transition

/-! ## Histories -/

/-- Who executed which alternative of the array at `base`, if this event says so. -/
def Event.executes (base : Nat) : Event → Option (TaskPtr × Nat)
  | .sent partner a _ _ => if a.base = base then some (partner, a.idx) else none
  | .received partner a _ _ => if a.base = base then some (partner, a.idx) else none
  | _ => none

/-- Who executed which alternatives of the array at `base`, in order. -/
def executions (base : Nat) (events : List Event) : List (TaskPtr × Nat) :=
  events.filterMap (Event.executes base)

/-- A call on the array at `base` blocks or returns. -/
def Event.Bounds (base : Nat) : Event → Prop
  | .altBlock _ a => a = base
  | .altReturn _ a _ => a = base
  | _ => False

/-- A pointer into the array at `base` is queued. -/
def St.QueuedFrom (s : St) (base : Nat) : Prop := ∃ c dir q, q ∈ s.queue c dir ∧ q.base = base

/-- An alternative at `base` that is not a hole. -/
def St.Selects (s : St) (base i : Nat) : Prop :=
  ∃ alt, s.alt? ⟨base, i⟩ = some alt ∧ chanarray alt.op ≠ none

/-- What happened since `t` blocked on the array at `base`: nothing while the array is
queued, and then one alternative was executed and the array was told. -/
structure Pending (s : St) (t : TaskPtr) (base : Nat) (before during : List Event) : Prop where
  split : s.events .channels = before ++ .altBlock t base :: during
  inside : ∀ e ∈ during, ¬e.Bounds base
  queued : s.QueuedFrom base → executions base during = []
  executed : ¬s.QueuedFrom base → ∀ i, s.Selects base i → ∃ u j first, u ≠ t ∧
    executions base during = [(u, j)] ∧ s.alt? ⟨base, 0⟩ = some first ∧ first.xalt = ⟨base, j⟩

section

variable {base : Nat}

@[simp] theorem executions_append (first second : List Event) :
    executions base (first ++ second) = executions base first ++ executions base second :=
  List.filterMap_append

variable {s s' : St} {self t : TaskPtr} {before during : List Event}

/-- Events about other arrays change nothing. -/
theorem Pending.congr {new : List Event} (pending : Pending s t base before during)
    (events : s'.events .channels = s.events .channels ++ new)
    (outside : ∀ e ∈ new, ¬e.Bounds base ∧ e.executes base = none)
    (queue : s'.QueuedFrom base ↔ s.QueuedFrom base) (alts : s'.alts base = s.alts base) :
    Pending s' t base before (during ++ new) := by
  have none? : executions base new = [] :=
    List.filterMap_eq_nil_iff.mpr fun e member => (outside e member).2
  have alt? : ∀ i, s'.alt? ⟨base, i⟩ = s.alt? ⟨base, i⟩ := by
    intro i
    rw [St.alt?, St.alt?, alts]
  constructor
  · rw [events, pending.split, List.append_assoc, List.cons_append]
  · intro e member
    rcases List.mem_append.mp member with old | isNew
    · exact pending.inside e old
    · exact (outside e isNew).1
  · intro isQueued
    rw [executions_append, pending.queued (queue.mp isQueued), none?]
    rfl
  · rintro notQueued i ⟨alt, altEq, selects⟩
    rw [alt?] at altEq
    obtain ⟨u, j, first, different, one, firstEq, told⟩ :=
      pending.executed (mt queue.mpr notQueued) i ⟨alt, altEq, selects⟩
    refine ⟨u, j, first, different, ?_, by rw [alt?]; exact firstEq, told⟩
    rw [executions_append, one, none?]
    rfl

theorem Pending.same (pending : Pending s t base before during)
    (events : s'.events .channels = s.events .channels)
    (queue : s'.QueuedFrom base ↔ s.QueuedFrom base) (alts : s'.alts base = s.alts base) :
    Pending s' t base before during := by
  have events' : s'.events .channels = s.events .channels ++ [] := by
    rw [events, List.append_nil]
  have pending' := pending.congr events' (by simp) queue alts
  rwa [List.append_nil] at pending'

theorem KeepsChannels.pending (keeps : KeepsChannels s s')
    (pending : Pending s t base before during) : Pending s' t base before during := by
  refine pending.same keeps.events ?_ (by rw [keeps.alts])
  simp only [St.QueuedFrom, St.queue, keeps.chan]

/-- The events of an executed alternative: one of its own, and one of its partner. -/
theorem Executed.events {p : AltPtr} {a : Alt} {partner : Option AltRef}
    (executed : Executed s self p a partner s') :
    ∃ new, s'.events .channels = s.events .channels ++ new ∧
      (∀ e ∈ new, ∀ base, ¬e.Bounds base) ∧ ∀ base,
      (p.base ≠ base → executions base new =
        (partner.toList.filter fun o => o.1.base = base).map fun o => (self, o.1.idx)) ∧
      (p.base = base → (∀ o, partner = some o → o.1.base ≠ base) →
        executions base new = [(self, p.idx)]) := by
  cases executed with
  | @sendDirect o isSnd empty =>
      refine ⟨_, by simp only [altcopyDirect, events_log, Event.part, if_true]; exact
        List.append_assoc .., by simp [Event.Bounds], fun base => ⟨fun other => ?_, ?_⟩⟩
      · by_cases same : o.1.base = base <;> simp [executions, Event.executes, other, same]
      · rintro rfl apart
        simp [executions, Event.executes, apart o rfl]
  | @recvDirect o isRcv empty =>
      refine ⟨_, by simp only [altcopyDirect, events_log, Event.part, if_true]; exact
        List.append_assoc .., by simp [Event.Bounds], fun base => ⟨fun other => ?_, ?_⟩⟩
      · by_cases same : o.1.base = base <;> simp [executions, Event.executes, other, same]
      · rintro rfl apart
        simp [executions, Event.executes, apart o rfl]
  | send isSnd buffered room noSender noReceiver sent =>
      obtain ⟨-, -, value, -, rfl⟩ := altcopySend_ok sent
      refine ⟨[.sent self p a.c value], by simp [St.events, Event.part], by simp [Event.Bounds],
        fun base => ⟨fun other => ?_, ?_⟩⟩
      · simp [executions, Event.executes, other]
      · rintro rfl -
        simp [executions, Event.executes]
  | recv isRcv buffered filled noSender noReceiver received =>
      obtain ⟨-, -, value, -, rfl⟩ := altcopyRecv_ok received
      refine ⟨[.received self p a.c value], by simp [St.events, Event.part],
        by simp [Event.Bounds], fun base => ⟨fun other => ?_, ?_⟩⟩
      · simp [executions, Event.executes, other]
      · rintro rfl -
        simp [executions, Event.executes]
  | @refill o s₀ s₁ isRcv buffered full received sent =>
      obtain ⟨-, -, value, -, rfl⟩ := altcopyRecv_ok received
      obtain ⟨-, -, value', -, rfl⟩ := altcopySend_ok sent
      refine ⟨[.received self p a.c value, .sent self o.1 a.c value'],
        by simp [St.events, Event.part], by simp [Event.Bounds],
        fun base => ⟨fun other => ?_, ?_⟩⟩
      · by_cases same : o.1.base = base <;> simp [executions, Event.executes, other, same]
      · rintro rfl apart
        simp [executions, Event.executes, apart o rfl]

/-- An alternative that is executed against a queued one: the array of the other is
dequeued, and told which alternative it was. -/
theorem altexec_told {run : Option TaskPtr} {p : AltPtr} {a : Alt} {rand : Nat}
    (inv : Inv run s) (all : ∀ c, Rendezvous s c) (altEq : s.alt? p = some a)
    (can : altcanexec s a = true) (done : Libtask.altexec s self p rand = .ok s') :
    Executed s self p a none s' ∨
    ∃ other o s₁ dir, other ∈ s.queue a.c dir ∧ s.alt? other = some o ∧
      Executed s self p a (some (other, o)) s₁ ∧
      (∀ c dir q, q ∈ s'.queue c dir ↔ q ∈ s.queue c dir ∧ q.base ≠ other.base) ∧
      s'.alts = update s.alts other.base ((s.alts other.base).modify 0
        fun first => { first with xalt := other }) ∧
      s'.events .channels = s₁.events .channels := by
  rcases altexec_executed inv all altEq can done with
    executed | ⟨other, o, s₁, s₂, otherEq, ⟨dir, member⟩, executed, dequeued, xalt, readied⟩
  · exact Or.inl executed
  · refine Or.inr ⟨other, o, s₁, dir, member, otherEq, executed, ?_, ?_, ?_⟩
    · intro c dir q
      rw [← executed.copied.queue_eq, ← dequeued.member, St.queue,
        (taskready_keepsChannels readied).chan]
      rfl
    · obtain ⟨chan, rfl⟩ := dequeued.rest
      rw [(taskready_keepsChannels readied).alts, xalt, executed.copied.alts]
    · obtain ⟨chan, rfl⟩ := dequeued.rest
      exact (taskready_keepsChannels readied).events

theorem executes_of_executions_nil {new : List Event} (none? : executions base new = []) :
    ∀ e ∈ new, e.executes base = none :=
  List.filterMap_eq_nil_iff.mp none?

/-- A partner that runs an alternative of its own array executes at most one of the
array at `base`, and only while that is queued. -/
theorem Pending.altexec {run : Option TaskPtr} {p : AltPtr} {a : Alt} {rand : Nat}
    (pending : Pending s t base before during) (inv : Inv run s) (all : ∀ c, Rendezvous s c)
    (altEq : s.alt? p = some a) (can : altcanexec s a = true) (apart : p.base ≠ base)
    (notSelf : self ≠ t) (done : Libtask.altexec s self p rand = .ok s') :
    ∃ during', Pending s' t base before during' := by
  rcases altexec_told inv all altEq can done with
    executed | ⟨other, o, s₁, dir, member, otherEq, executed, queue, alts, events⟩
  · obtain ⟨new, events, outside, executions⟩ := executed.events
    have none? : Libtask.executions base new = [] := by
      simpa using (executions base).1 apart
    refine ⟨_, pending.congr events (fun e member => ⟨outside e member base,
      executes_of_executions_nil none? e member⟩) ?_ (by rw [executed.copied.alts])⟩
    simp only [St.QueuedFrom, executed.copied.queue_eq]
  · obtain ⟨new, newEq, outside, executions⟩ := executed.events
    rw [newEq] at events
    have newExecutions := (executions base).1 apart
    by_cases same : other.base = base
    · -- the task is woken: its array was queued, so nothing was executed before
      have before? := pending.queued ⟨a.c, dir, other, member, same⟩
      have notQueued : ¬s'.QueuedFrom base := by
        rintro ⟨c, dir', q, member', base'⟩
        exact ((queue c dir' q).mp member').2 (base'.trans same.symm)
      refine ⟨during ++ new, ?_, ?_, fun isQueued => absurd isQueued notQueued, ?_⟩
      · rw [events, pending.split, List.append_assoc, List.cons_append]
      · intro e member
        rcases List.mem_append.mp member with old | isNew
        · exact pending.inside e old
        · exact outside e isNew base
      · intro _ _ _
        have some? : ∃ first, (s.alts base)[0]? = some first := by
          have inside := (List.getElem?_eq_some_iff.mp otherEq).1
          rw [same] at inside
          exact ⟨(s.alts base)[0], List.getElem?_eq_getElem (by omega)⟩
        obtain ⟨first, firstEq⟩ := some?
        refine ⟨self, other.idx, { first with xalt := other }, notSelf, ?_, ?_, ?_⟩
        · rw [executions_append, before?, newExecutions]
          simp [same]
        · rw [St.alt?, alts, same, update_self]
          simp [firstEq]
        · rw [← same]
    · refine ⟨_, pending.congr events (fun e member => ⟨outside e member base, ?_⟩) ?_ ?_⟩
      · refine executes_of_executions_nil (newExecutions.trans ?_) e member
        simp [same]
      · constructor
        · rintro ⟨c, dir', q, member', base'⟩
          exact ⟨c, dir', q, ((queue c dir' q).mp member').1, base'⟩
        · rintro ⟨c, dir', q, member', base'⟩
          refine ⟨c, dir', q, (queue c dir' q).mpr ⟨member', ?_⟩, base'⟩
          rw [base']
          exact Ne.symm same
      · rw [alts, update_of_ne (Ne.symm same)]

/-- What a step of another task does for one that is blocked. -/
theorem ChannelStep.pending {act : Act} {pc : Pc} (kind : ChannelStep self s s' act)
    (inv : Inv (some self) s) (all : ∀ c, Rendezvous s c) (stopped : Stopped (some self) s t pc)
    (altbase : pc.altbase = some base)
    (other : ∀ env, act = .dispatch env → (s.task self).pc.altbase ≠ some base)
    (pending : Pending s t base before during) :
    ∃ during', Pending s' t base before during' := by
  cases kind with
  | keeps keeps => exact ⟨during, keeps.pending pending⟩
  | @create c₀ elemsize bufsize junk fresh =>
      have queue : ∀ c dir q, q ∈ St.queue { s.setChan c₀ {
            elemsize := toUint elemsize
            bufsize := toUint bufsize
            buf := junk
            bufbytes := bufArea elemsize bufsize } with
          chans := c₀ :: s.chans } c dir ↔ q ∈ s.queue c dir := by
        intro c dir q
        by_cases same : c = c₀
        · subst same
          refine iff_of_false ?_ fun member => fresh (inv.parked.known c dir q member)
          cases dir <;> simp [St.queue, St.setChan, Channel.queue]
        · simp [St.queue, St.setChan, same]
      refine ⟨during, pending.same rfl ?_ rfl⟩
      simp only [St.QueuedFrom, queue]
  | @alt call array rand2 alts pc s' flow entering alted =>
      have apart : array ≠ base := by
        rintro rfl
        exact entering.isFree t _ ⟨stopped.live, stopped.idle, stopped.pc⟩ altbase
      have notSelf : self ≠ t := fun isSelf => stopped.idle (by rw [isSelf])
      have pending₁ : Pending (enter { s with alts := update s.alts array alts } self array) t base
          before during :=
        pending.same rfl Iff.rfl (by simp [enter, Ne.symm apart])
      cases alted with
      | exec atI can executed =>
          exact pending₁.altexec entering.entered_inv (entering.rendezvous all)
            (enter_alt? entering.isTerminated atI) can apart notSelf executed
      | noblock blocked ends => exact ⟨during, pending₁⟩
      | block blocked ends enqueued =>
          have member := enqueued.member
          obtain ⟨chan, rfl⟩ := enqueued.rest
          refine ⟨_, pending₁.congr (events_log _ _ _) ?_ ?_ rfl⟩
          · simp [Event.part, Event.Bounds, Event.executes, apart]
          · constructor
            · rintro ⟨c, dir, q, inQueue, base'⟩
              rcases (member c dir q).mp inQueue with old | ⟨k, b, -, rfl, -⟩
              · exact ⟨c, dir, q, old, base'⟩
              · exact absurd base' apart
            · rintro ⟨c, dir, q, inQueue, base'⟩
              exact ⟨c, dir, q, (member c dir q).mpr (Or.inl inQueue), base'⟩
  | @resumed array first env altbase' altEq sameBase =>
      have apart : array ≠ base := by
        rintro rfl
        exact other env rfl altbase'
      refine ⟨_, pending.congr (events_log _ _ _) ?_ Iff.rfl rfl⟩
      simp [Event.part, Event.Bounds, Event.executes, apart]
  | @store mem call =>
      exact ⟨during, pending.same rfl Iff.rfl rfl⟩

/-- Right after a call blocked, its array is queued and nothing was executed. -/
theorem Alted.pending {rand2 : Nat} {pc : Pc} {s₀ : St} (entering : Entering s₀ self base)
    (alted : Alted s₀ self base rand2 pc s (.switch pc)) :
    Pending s self base (s₀.events .channels) [] := by
  cases alted with
  | block blocked ends enqueued =>
      obtain ⟨last, array, -, isLast, -⟩ := enter_array self entering.isTerminated
      have member := enqueued.member
      obtain ⟨chan, rfl⟩ := enqueued.rest
      refine ⟨events_log _ _ _, by simp, fun _ => rfl, ?_⟩
      rintro notQueued i ⟨alt, altEq, selects⟩
      replace altEq : ((enter s₀ self base).alts base)[i]? = some alt := altEq
      rw [array] at altEq
      refine absurd ?_ notQueued
      rcases Nat.lt_or_ge i (entered s₀ self base).length with inside | behind
      · rw [List.getElem?_append_left inside] at altEq
        obtain ⟨dir, dirEq⟩ := Option.ne_none_iff_exists'.mp selects
        exact ⟨alt.c, dir, ⟨base, 0 + i⟩,
          (member alt.c dir _).mpr (Or.inr ⟨i, alt, altEq, rfl, rfl, dirEq⟩), rfl⟩
      · rw [List.getElem?_append_right behind] at altEq
        have isEnd := List.mem_of_getElem? altEq
        rw [List.mem_singleton] at isEnd
        subst isEnd
        cases opEq : alt.op <;> simp [opEq, Op.isTerminator, chanarray] at isLast selects

/-- The call of a task that gave up the CPU in `chanalt`. -/
theorem call_pending {c : Call} {pc : Pc} (inv : Inv (some self) s) (isLegal : legal s c = true)
    (called : call s self c = .ok (s', .switch pc)) (altbase : pc.altbase = some base) :
    Pending s' self base (s.events .channels) [] := by
  have switches := call_switches called
  cases pc with
  | chanalt a =>
      obtain rfl := Option.some.inj altbase
      cases c <;> simp only [Call.Switches] at switches
      subst switches
      have entering := entering_chanalt inv isLegal
      have blocked := (chanalt_alted entering called).pending entering
      exact blocked
  | chanop a =>
      obtain rfl := Option.some.inj altbase
      cases c <;> simp only [Call.Switches] at switches
      subst switches
      have entering := entering_chanop inv isLegal
      obtain ⟨flow', inner, ⟨r, -, isRet⟩ | ⟨pc', rfl, isSwitch⟩⟩ := chanop_ok called
      · cases isRet
      · obtain rfl := chanalt_switch inner
        have blocked := (chanalt_alted entering inner).pending entering
        exact blocked
  | _ => cases altbase

theorem resume_not_alt {pc pc' : Pc} {env : Env}
    (resumed : resume s self env pc = .ok (s', .switch pc')) : pc'.altbase = none := by
  have switches := resume_switches resumed
  cases pc' with
  | chanalt a => cases pc <;> exact switches.elim
  | chanop a => cases pc <;> exact switches.elim
  | _ => rfl

/-- Every blocked call has executed what its array was told. -/
def AllPending (s : St) : Prop :=
  ∀ t pc base, Stopped s.taskrunning s t pc → pc.altbase = some base →
    ∃ before during, Pending s t base before during

theorem part_of_altbase {pc : Pc} (altbase : pc.altbase = some base) : pc.part ≠ .tasks := by
  cases pc <;> simp_all [Pc.altbase, Pc.part]

theorem dispatch_pending {env : Env} {t : TaskPtr} {s₁ s₂ : St} {flow : Flow}
    (inv : Inv none s) (idle : s.taskrunning = none) (all : ∀ c, Rendezvous s c)
    (scheduled : taskscheduler s = .ok (s₁, t))
    (resumed : resume s₁ t env (s₁.task t).pc = .ok (s₂, flow))
    (finished : finish t (s₂, flow) = .ok s') (pending : AllPending s) : AllPending s' := by
  rintro u pc base ⟨live, -, pcEq⟩ altbase
  have blocked : (s'.task u).pc.part ≠ .tasks := by
    rw [pcEq]
    exact part_of_altbase altbase
  by_cases isT : u = t
  · subst isT
    have flowEq := finish_pc finished u
    rw [if_pos rfl, pcEq] at flowEq
    cases flow with
    | ret r => simp [flowEq, Flow.pc, Pc.altbase] at altbase
    | switch pc' =>
        obtain rfl : pc = pc' := flowEq
        simp [resume_not_alt resumed] at altbase
  · obtain ⟨live₁, pc₁⟩ :=
      (finish_othersStay (resume_unmoved resumed) finished).pc u isT live blocked
    obtain ⟨live₀, pc₀⟩ := taskscheduler_unmoved scheduled live₁
    have scheduledT : t ∈ s.alltask ∧ (s₁.task t).pc = (s.task t).pc := by
      refine ⟨?_, taskscheduler_pc scheduled t⟩
      obtain ⟨-, -, lists, -, held, -⟩ := taskscheduler_ok scheduled
      exact (inv.listed t).live _ held
    have stopped₀ : Stopped none s u pc :=
      stopped_away live₀ ((pc₁.trans pc₀).symm.trans pcEq)
    have stopped₁ : Stopped (some t) s₁ u pc :=
      ⟨live₁, fun same => isT (Option.some.inj same).symm, pc₁.symm.trans pcEq⟩
    have other : (s₁.task t).pc.altbase ≠ some base := by
      intro same
      rw [scheduledT.2] at same
      exact isT (inv.parked.distinct u t pc _ base stopped₀
        (stopped_away scheduledT.1 rfl) altbase same)
    obtain ⟨before, during, now⟩ := pending u pc base (idle ▸ stopped₀) altbase
    have channels := (taskscheduler_frame scheduled).channels
    obtain ⟨during', now'⟩ := (resume_channels resumed).pending (inv.dispatch scheduled)
      (fun c => channels.rendezvous (all c)) stopped₁ altbase (fun _ _ => other)
      (channels.pending now)
    exact ⟨before, during', (finish_frame finished).channels.pending now'⟩

theorem step_pending {act : Act} (inv : Inv s.taskrunning s) (all : ∀ c, Rendezvous s c)
    (isEnabled : enabled s act) (stepped : step s act = .ok s') (pending : AllPending s) :
    AllPending s' := by
  cases step_shape isEnabled stepped with
  | dispatch idle scheduled resumed finished =>
      rw [idle] at inv
      exact dispatch_pending inv idle all scheduled resumed finished pending
  | call running isLegal called finished =>
      rename_i c self s₂ flow
      rw [running] at inv
      rintro u pc base ⟨live, -, pcEq⟩ altbase
      have blocked : (s'.task u).pc.part ≠ .tasks := by
        rw [pcEq]
        exact part_of_altbase altbase
      by_cases isSelf : u = self
      · subst isSelf
        have flowEq := finish_pc finished u
        rw [if_pos rfl, pcEq] at flowEq
        cases flow with
        | ret r => simp [flowEq, Flow.pc, Pc.altbase] at altbase
        | switch pc' =>
            obtain rfl : pc = pc' := flowEq
            exact ⟨_, _, (finish_frame finished).channels.pending
              (call_pending inv isLegal called altbase)⟩
      · obtain ⟨live₀, pc₀⟩ :=
          (finish_othersStay (call_unmoved called) finished).pc u isSelf live blocked
        have stopped₀ : Stopped (some self) s u pc :=
          ⟨live₀, fun same => isSelf (Option.some.inj same).symm, pc₀.symm.trans pcEq⟩
        obtain ⟨before, during, now⟩ := pending u pc base (running ▸ stopped₀) altbase
        obtain ⟨during', now'⟩ :=
          (call_channels inv isLegal called).pending inv all stopped₀ altbase (by simp) now
        exact ⟨before, during', (finish_frame finished).channels.pending now'⟩

theorem reachable_pending {allowed : St → Act → Prop} (reachable : Reachable allowed s) :
    AllPending s := by
  refine reachable.invariant AllPending ?_ ?_
  · rintro s ⟨rendez, mem, t₀, started⟩ u pc base ⟨-, -, pcEq⟩ altbase
    obtain ⟨id, created⟩ := main_ok started
    obtain ⟨t, lists, cap, -, -, -, -, rfl, -⟩ := taskcreate_ok created
    subst pcEq
    by_cases same : u = t
    · simp [same, Pc.altbase] at altbase
    · simp [same, St.zero, Pc.altbase] at altbase
  · intro s act s' before pending isEnabled _ stepped
    exact step_pending (reachable_inv before) (reachable_rendezvous before) isEnabled stepped
      pending

end

/-! ## Calls -/

/-- Alternative `i` of an array can proceed now. -/
def CanProceed (s : St) (alts : List Alt) (i : Nat) : Prop :=
  ∃ a, i < altcount alts ∧ alts[i]? = some a ∧ altcanexec s a = true

section

variable {s s' : St} {self t : TaskPtr} {base rand1 rand2 i : Nat} {alts : List Alt} {flow : Flow}

theorem altcanexec_congr {a b : Alt} (op : b.op = a.op) (c : b.c = a.c)
    (chan : s'.chan = s.chan) : altcanexec s' b = altcanexec s a := by
  unfold altcanexec
  rw [op, c, chan]

/-- The alternatives that `chanalt` finds executable are those that can proceed. -/
theorem canProceed_iff (self : TaskPtr) (base : Nat) : CanProceed s alts i ↔
    ∃ a, (entered { s with alts := update s.alts base alts } self base)[i]? = some a ∧
      altcanexec (enter { s with alts := update s.alts base alts } self base) a = true := by
  simp only [entered, update_self, List.getElem?_map, List.getElem?_take,
    Option.map_eq_some_iff]
  constructor
  · rintro ⟨a, inside, atI, can⟩
    refine ⟨_, ⟨a, by rw [if_pos inside, atI], rfl⟩, ?_⟩
    rw [← can]
    exact altcanexec_congr rfl rfl rfl
  · rintro ⟨b, ⟨a, atI, rfl⟩, can⟩
    obtain ⟨inside, atI⟩ := Option.ite_none_right_eq_some.mp atI
    refine ⟨a, inside, atI, ?_⟩
    rw [← can]
    exact (altcanexec_congr rfl rfl rfl).symm

theorem blocked_not_canProceed
    (blocked : ∀ a ∈ entered { s with alts := update s.alts base alts } self base,
      altcanexec (enter { s with alts := update s.alts base alts } self base) a = false)
    (i : Nat) : ¬CanProceed s alts i := by
  intro can
  obtain ⟨a, atI, can⟩ := (canProceed_iff self base).mp can
  rw [blocked a (List.mem_of_getElem? atI)] at can
  cases can

/-- The own events of a call that executes an alternative. -/
theorem altexec_executions {run : Option TaskPtr} {p : AltPtr} {a : Alt} {rand : Nat}
    (inv : Inv run s) (all : ∀ c, Rendezvous s c) (altEq : s.alt? p = some a)
    (can : altcanexec s a = true)
    (unqueued : ∀ c dir q, q ∈ s.queue c dir → q.base ≠ p.base)
    (done : altexec s self p rand = .ok s') : ∃ new,
      s'.events .channels = s.events .channels ++ new ∧
      executions p.base new = [(self, p.idx)] := by
  rcases altexec_told inv all altEq can done with
    executed | ⟨other, o, s₁, dir, member, -, executed, -, -, events⟩
  · obtain ⟨new, newEq, -, executions⟩ := executed.events
    exact ⟨new, newEq, (executions p.base).2 rfl (by simp)⟩
  · obtain ⟨new, newEq, -, executions⟩ := executed.events
    refine ⟨new, events.trans newEq, (executions p.base).2 rfl fun o' isOther => ?_⟩
    obtain rfl := Option.some.inj isOther
    exact unqueued a.c dir other member

/-- A call that finds an alternative that can proceed executes one of those. -/
theorem chanalt_proceeds (inv : Inv (some self) s) (all : ∀ c, Rendezvous s c)
    (isLegal : legal s (.chanalt base alts rand1 rand2) = true)
    (called : call s self (.chanalt base alts rand1 rand2) = .ok (s', flow))
    (can : CanProceed s alts i) : ∃ j new, CanProceed s alts j ∧ flow = .ret (some (j : Nat)) ∧
      s'.events .channels = s.events .channels ++ new ∧ executions base new = [(self, j)] := by
  have entering := entering_chanalt inv isLegal
  have alted := chanalt_alted entering called
  cases alted with
  | @exec j a _ atJ canJ executed =>
      obtain ⟨new, events, one⟩ := altexec_executions entering.entered_inv
        (entering.rendezvous all) (enter_alt? entering.isTerminated atJ) canJ
        (fun c dir q member => entering.unqueued member) executed
      exact ⟨j, new, (canProceed_iff self base).mpr ⟨a, atJ, canJ⟩, rfl, events, one⟩
  | noblock blocked ends => exact absurd can (blocked_not_canProceed blocked i)
  | block blocked ends enqueued => exact absurd can (blocked_not_canProceed blocked i)

/-- Each of them is the one for some value of `rand()`. -/
theorem chanalt_chooses (self : TaskPtr) (base : Nat) (can : CanProceed s alts i) :
    ∃ rand1, rand1 < altcount alts ∧
    ∀ rand2 s' flow, call s self (.chanalt base alts rand1 rand2) = .ok (s', flow) →
      flow = .ret (some (i : Nat)) := by
  obtain ⟨a, atI, canA⟩ := (canProceed_iff self base).mp can
  obtain ⟨less, picked⟩ := chanpick_countP (i := 0) atI canA
  obtain ⟨b, inside, -⟩ := can
  -- the number of executable alternatives before this one
  obtain ⟨rank, rankEq⟩ : ∃ rank,
      rank = ((entered { s with alts := update s.alts base alts } self base).take i).countP
        (altcanexec (enter { s with alts := update s.alts base alts } self base)) := ⟨_, rfl⟩
  rw [← rankEq] at less picked
  refine ⟨rank, ?_, fun rand2 s' flow called => ?_⟩
  · have := List.countP_le_length (l := (entered { s with alts := update s.alts base alts } self
      base).take i) (p := altcanexec (enter { s with alts := update s.alts base alts } self base))
    have := List.length_take_le i
      (entered { s with alts := update s.alts base alts } self base)
    omega
  · replace called : chanalt { s with alts := update s.alts base alts } self base rank
      rand2 (.chanalt base) = .ok (s', flow) := called
    rcases chanalt_ok called with
      ⟨-, j, flowEq, picked', -⟩ | ⟨none?, -⟩ | ⟨none?, -⟩
    · rw [canCount, Nat.mod_eq_of_lt less, picked] at picked'
      obtain rfl := Option.some.inj picked'
      rw [flowEq, Nat.zero_add]
    · rw [canCount] at none?
      omega
    · rw [canCount] at none?
      omega

/-- A call that finds none returns -1 and changes nothing else, or it blocks. -/
theorem chanalt_stuck (inv : Inv (some self) s)
    (isLegal : legal s (.chanalt base alts rand1 rand2) = true)
    (called : call s self (.chanalt base alts rand1 rand2) = .ok (s', flow))
    (nobody : ∀ i, ¬CanProceed s alts i) :
    (alts[altcount alts]?.map Alt.op ≠ some .chanend ∧ flow = .ret (some (-1)) ∧
      s' = enter { s with alts := update s.alts base alts } self base) ∨
    (alts[altcount alts]?.map Alt.op = some .chanend ∧ flow = .switch (.chanalt base) ∧
      s'.events .channels = s.events .channels ++ [.altBlock self base]) := by
  have entering := entering_chanalt inv isLegal
  have ends : terminator { s with alts := update s.alts base alts } base =
      alts[altcount alts]?.map Alt.op := by
    simp [terminator]
  have alted := chanalt_alted entering called
  cases alted with
  | exec atJ canJ executed =>
      exact absurd ((canProceed_iff self base).mpr ⟨_, atJ, canJ⟩) (nobody _)
  | noblock blocked notEnd => exact Or.inl ⟨ends ▸ notEnd, rfl, rfl⟩
  | block blocked isEnd enqueued =>
      obtain ⟨chan, rfl⟩ := enqueued.rest
      exact Or.inr ⟨ends ▸ isEnd, rfl, events_log _ _ _⟩

/-- On channels whose sizes did not overflow, a call always goes through. -/
theorem chanalt_total {allowed : St → Act → Prop} (reachable : Reachable allowed s)
    (isEnabled : enabled s (.call (.chanalt base alts rand1 rand2)))
    (sound : ∀ a ∈ alts, chanarray a.op ≠ none → (s.chan a.c).Sound) :
    ∃ s', step s (.call (.chanalt base alts rand1 rand2)) = .ok s' := by
  have inv := reachable_inv reachable
  obtain ⟨self, running⟩ := Option.isSome_iff_exists.mp isEnabled.1
  rw [running] at inv
  have entering := entering_chanalt inv isEnabled.2
  have goes : Avoids (fun _ => True) (call s self (.chanalt base alts rand1 rand2)) := by
    refine chanalt_avoids entering.inv entering.isFree entering.isTerminated ?_
    intro p a partner member can isPartner agrees
    obtain ⟨-, -, -, -, -, origin⟩ := enter_array self entering.isTerminated
    obtain ⟨b, inArray, opEq, channel⟩ := origin a member
    have queued : chanarray b.op ≠ none := by
      rw [← opEq]
      rcases altcanexec_op can with isSnd | isRcv
      · simp [isSnd, chanarray]
      · simp [isRcv, chanarray]
    have known := entering.known b inArray queued
    simp only [update_self] at inArray
    have isSound := sound b inArray queued
    rw [← channel] at known isSound
    have fifo := reachable_fifo reachable known isSound
    have fifo' : Fifo (s.chan a.c).elemsize (s.chan a.c).bufsize
        (enter { s with alts := update s.alts base alts } self base) a.c :=
      fifo.congr known rfl rfl rfl
    exact fifo'.copy_avoids isSound.small isSound.area
      (enter { s with alts := update s.alts base alts } self base).alts
      (entering.rendezvous (reachable_rendezvous reachable) a.c) can isPartner agrees
  obtain ⟨⟨s', flow⟩, called⟩ := goes.exists_ok
  have after := call_after inv isEnabled.2 rfl called
  simp only [step, running]
  rw [called]
  cases flow with
  | ret r => exact ⟨_, rfl⟩
  | switch pc =>
      have staying : ((s'.setTask self fun task => { task with pc }).task self).exiting =
          false := by
        simpa [St.setTask] using after.staying
      refine ⟨{ s'.setTask self fun task => { task with pc } with taskrunning := none }, ?_⟩
      simp only [bind, Except.bind, finish, taskschedulerBack, staying, Bool.false_eq_true,
        if_false]

/-- A resumed call returns the index that its array was told; `_chanop` makes 1 of it. -/
theorem resume_alt {pc : Pc} {env : Env} {first : Alt} {r : Option Int}
    (altbase : pc.altbase = some base) (firstEq : s.alt? ⟨base, 0⟩ = some first)
    (resumed : resume s self env pc = .ok (s', .ret r)) :
    s'.events .channels = s.events .channels ++ [.altReturn self base first.xalt.idx] ∧
      r = some (if pc = .chanalt base then (first.xalt.idx : Int) else 1) := by
  have returns : ∀ s₁ j, chanaltResume s self base = .ok (s₁, j) → j = first.xalt.idx ∧
      s₁.events .channels = s.events .channels ++ [.altReturn self base first.xalt.idx] := by
    intro s₁ j done
    obtain ⟨first', firstEq', -, rfl, rfl⟩ := chanaltResume_ok done
    obtain rfl := Option.some.inj (firstEq.symm.trans firstEq')
    exact ⟨rfl, events_log _ _ _⟩
  cases pc <;> simp only [Pc.altbase, reduceCtorEq, Option.some.injEq] at altbase
  case chanalt =>
    subst altbase
    obtain ⟨⟨s₁, j⟩, inner, returned⟩ := bind_eq_ok.mp resumed
    obtain ⟨rfl, flowEq⟩ := Prod.mk.inj (Except.ok.inj returned)
    obtain ⟨rfl, events⟩ := returns _ _ inner
    exact ⟨events, by simpa using (Flow.ret.inj flowEq).symm⟩
  case chanop =>
    subst altbase
    obtain ⟨⟨s₁, j⟩, inner, returned⟩ := bind_eq_ok.mp resumed
    obtain ⟨rfl, flowEq⟩ := Prod.mk.inj (Except.ok.inj returned)
    obtain ⟨rfl, events⟩ := returns _ _ inner
    refine ⟨events, ?_⟩
    rw [← Flow.ret.inj flowEq]
    simp [chanopResult]

/-- A call that blocked returns the one alternative that a partner executed. -/
theorem resumed_result {allowed : St → Act → Prop} {env : Env} (reachable : Reachable allowed s)
    (isEnabled : enabled s (.dispatch env)) (altbase : (s.task t).pc.altbase = some base)
    (stepped : step s (.dispatch env) = .ok s') (runs : s'.taskrunning = some t) :
    ∃ before during u i, s.events .channels = before ++ .altBlock t base :: during ∧
      (∀ e ∈ during, ¬e.Bounds base) ∧ u ≠ t ∧ executions base during = [(u, i)] ∧
      s.Selects base i ∧ s'.events .channels = s.events .channels ++ [.altReturn t base i] ∧
      (s'.task t).pc = .user (some (if (s.task t).pc = .chanalt base then i else 1)) := by
  have inv := reachable_inv reachable
  cases step_shape isEnabled stepped with
  | dispatch idle scheduled resumed finished =>
      rename_i t' s₁ s₂ flow
      have running₁ : s₁.taskrunning = some t' := by
        obtain ⟨-, -, lists, rfl, -⟩ := taskscheduler_ok scheduled
        rfl
      have running₂ : s₂.taskrunning = some t' := (resume_taskrunning resumed).trans running₁
      rcases finish_taskrunning finished running₂ with ⟨r, rfl, goesOn⟩ | ⟨pc, rfl, stops⟩
      · obtain rfl : t' = t := Option.some.inj (goesOn.symm.trans runs)
        rw [idle] at inv
        obtain ⟨-, -, lists, -, held, -⟩ := taskscheduler_ok scheduled
        have stopped : Stopped none s t' (s.task t').pc :=
          stopped_away ((inv.listed t').live _ held) rfl
        obtain ⟨before, during, pending⟩ :=
          reachable_pending reachable t' _ base (idle ▸ stopped) altbase
        obtain ⟨first, alt, firstEq, sameBase, altEq, selects⟩ :=
          inv.parked.told t' _ base stopped altbase (by simp [held])
        -- the task is in the run queue, so its array is not queued any more
        have notQueued : ¬s.QueuedFrom base := by
          rintro ⟨c, dir, q, member, rfl⟩
          obtain ⟨u, pc, stoppedU, baseU, freeU⟩ := inv.parked.owner c dir q member
          obtain rfl := inv.parked.distinct u t' _ _ _ stoppedU stopped baseU altbase
          rw [held] at freeU
          cases freeU
        have someSelects : s.Selects base first.xalt.idx := by
          rw [← sameBase]
          exact ⟨alt, altEq, selects⟩
        obtain ⟨u, i, first', different, one, firstEq', told⟩ :=
          pending.executed notQueued _ someSelects
        rw [firstEq] at firstEq'
        obtain rfl := Option.some.inj firstEq'
        rw [told] at someSelects
        have channels := (taskscheduler_frame scheduled).channels
        have firstEq₁ : s₁.alt? ⟨base, 0⟩ = some first := by
          rw [St.alt?, channels.alts]
          exact firstEq
        rw [taskscheduler_pc scheduled t'] at resumed
        obtain ⟨events, result⟩ := resume_alt altbase firstEq₁ resumed
        rw [told, channels.events] at events
        refine ⟨before, during, u, i, pending.split, pending.inside, different, one,
          someSelects, ?_, ?_⟩
        · rw [(finish_frame finished).channels.events, events]
        · rw [finish_pc finished, if_pos rfl, Flow.pc, result, told]
      · rw [stops] at runs
        cases runs

/-- The task after a call that returned. -/
theorem finish_returned {r : Option Int} (running : s.taskrunning = some self)
    (finished : finish self (s, .ret r) = .ok s') :
    s'.taskrunning = some self ∧ (s'.task self).pc = .user r := by
  have pcEq := finish_pc finished self
  rw [if_pos rfl] at pcEq
  rcases finish_taskrunning finished running with ⟨-, -, goesOn⟩ | ⟨pc, isSwitch, -⟩
  · exact ⟨goesOn, pcEq⟩
  · cases isSwitch

theorem finish_switched {pc : Pc} (running : s.taskrunning = some self)
    (finished : finish self (s, .switch pc) = .ok s') :
    s'.taskrunning = none ∧ (s'.task self).pc = pc := by
  have pcEq := finish_pc finished self
  rw [if_pos rfl] at pcEq
  rcases finish_taskrunning finished running with ⟨r, isRet, -⟩ | ⟨-, -, stops⟩
  · cases isRet
  · exact ⟨stops, pcEq⟩

end

/-- `chanalt` on any array, in any reachable state.  If some alternative can proceed,
the call executes one of those and returns its index, and each of them is the one for
some value of `rand()`.  If none can, the call returns -1 and changes nothing, or it
blocks.  A call that blocked returns the index of the one alternative that was executed
since, by one other task. -/
theorem one_alternative {allowed : St → Act → Prop} {s : St} (reachable : Reachable allowed s) :
    (∀ base alts rand1 rand2 self, s.taskrunning = some self →
      enabled s (.call (.chanalt base alts rand1 rand2)) →
      ((∀ a ∈ alts, chanarray a.op ≠ none → (s.chan a.c).Sound) →
        ∃ s', step s (.call (.chanalt base alts rand1 rand2)) = .ok s') ∧
      ∀ s', step s (.call (.chanalt base alts rand1 rand2)) = .ok s' →
        (∀ i, CanProceed s alts i → ∃ j new, CanProceed s alts j ∧
          s'.taskrunning = some self ∧ (s'.task self).pc = .user (some (j : Nat)) ∧
          s'.events .channels = s.events .channels ++ new ∧
          executions base new = [(self, j)]) ∧
        ((∀ i, ¬CanProceed s alts i) → alts[altcount alts]?.map Alt.op = some .channoblk →
          s'.taskrunning = some self ∧ (s'.task self).pc = .user (some (-1)) ∧
          s'.chan = s.chan ∧ s'.lists = s.lists ∧ ∀ t, t ≠ self → s'.task t = s.task t) ∧
        ((∀ i, ¬CanProceed s alts i) → alts[altcount alts]?.map Alt.op = some .chanend →
          s'.taskrunning = none ∧ (s'.task self).pc = .chanalt base ∧
          s'.events .channels = s.events .channels ++ [.altBlock self base])) ∧
    (∀ base alts i self, s.taskrunning = some self → CanProceed s alts i →
      ∃ rand1, rand1 < altcount alts ∧ ∀ rand2 s',
        step s (.call (.chanalt base alts rand1 rand2)) = .ok s' →
        (s'.task self).pc = .user (some (i : Nat))) ∧
    ∀ env t base s', enabled s (.dispatch env) → (s.task t).pc.altbase = some base →
      step s (.dispatch env) = .ok s' → s'.taskrunning = some t →
      ∃ before during u i, s.events .channels = before ++ .altBlock t base :: during ∧
        (∀ e ∈ during, ¬e.Bounds base) ∧ u ≠ t ∧ executions base during = [(u, i)] ∧
        s.Selects base i ∧ s'.events .channels = s.events .channels ++ [.altReturn t base i] ∧
        (s'.task t).pc = .user (some (if (s.task t).pc = .chanalt base then i else 1)) := by
  have inv := reachable_inv reachable
  have all := reachable_rendezvous reachable
  refine ⟨?_, ?_, ?_⟩
  · intro base alts rand1 rand2 self running isEnabled
    refine ⟨chanalt_total reachable isEnabled, fun s' stepped => ?_⟩
    rw [running] at inv
    cases step_shape isEnabled stepped with
    | call running' isLegal called finished =>
        rename_i self' s₂ flow
        obtain rfl : self' = self := Option.some.inj (running'.symm.trans running)
        have running₂ := (call_taskrunning called).trans running
        have events := (finish_frame finished).channels.events
        refine ⟨fun i can => ?_, fun nobody noblock => ?_, fun nobody isEnd => ?_⟩
        · obtain ⟨j, new, canJ, rfl, newEq, one⟩ := chanalt_proceeds inv all isLegal called can
          obtain ⟨goesOn, pcEq⟩ := finish_returned running₂ finished
          exact ⟨j, new, canJ, goesOn, pcEq, events.trans newEq, one⟩
        · rcases chanalt_stuck inv isLegal called nobody with ⟨-, rfl, rfl⟩ | ⟨isEnd, -⟩
          · obtain ⟨goesOn, pcEq⟩ := finish_returned running₂ finished
            obtain rfl := Except.ok.inj finished
            refine ⟨goesOn, pcEq, rfl, rfl, fun t other => ?_⟩
            simp [St.setTask, other, enter]
          · rw [noblock] at isEnd
            cases isEnd
        · rcases chanalt_stuck inv isLegal called nobody with ⟨notEnd, -⟩ | ⟨-, rfl, blockEq⟩
          · exact absurd isEnd notEnd
          · obtain ⟨stops, pcEq⟩ := finish_switched running₂ finished
            exact ⟨stops, pcEq, events.trans blockEq⟩
  · intro base alts i self running can
    obtain ⟨rand1, less, chosen⟩ := chanalt_chooses self base can
    refine ⟨rand1, less, fun rand2 s' stepped => ?_⟩
    simp only [step, running] at stepped
    obtain ⟨⟨s₂, flow⟩, called, finished⟩ := bind_eq_ok.mp stepped
    obtain rfl := chosen rand2 s₂ flow called
    exact (finish_returned ((call_taskrunning called).trans running) finished).2
  · exact fun env t base s' isEnabled altbase stepped runs =>
      resumed_result reachable isEnabled altbase stepped runs

/-- A run in which a call that blocked on three alternatives, the first of them a hole,
is about to return 2. -/
theorem one_alternative_third : ∃ s s' : St, (s.task 1).pc = .chanalt 20 ∧
    step s (.dispatch {}) = .ok s' ∧ (s'.task 1).pc = .user (some 2) ∧
    ∃ before during u i, s.events .channels = before ++ .altBlock 1 20 :: during ∧
      (∀ e ∈ during, ¬e.Bounds 20) ∧ u ≠ 1 ∧ executions 20 during = [(u, i)] ∧
      s.Selects 20 i ∧ s'.events .channels = s.events .channels ++ [.altReturn 1 20 i] ∧
      (s'.task 1).pc = .user (some (if (s.task 1).pc = .chanalt 20 then i else 1)) := by
  obtain ⟨s, s', s₂, reachable, blocked, isEnabled, -, stepped, runs, checked⟩ :=
    exists_run_through anyAction (fun _ => none)
      [.dispatch {}, .call (.taskcreate (some 2)), .call (.chancreate (some 7) 4 0 fun _ => 0),
        .call (.chancreate (some 8) 4 0 fun _ => 0),
        .call (.chanalt 20 [⟨0, none, .channop, 0, ⟨0, 0⟩⟩, ⟨7, none, .chansnd, 0, ⟨0, 0⟩⟩,
          ⟨8, none, .chanrcv, 0, ⟨0, 0⟩⟩, ⟨0, none, .chanend, 0, ⟨0, 0⟩⟩] 0 0),
        .dispatch {}, .call (.chanop 8 .chansnd (some 100) true 30 0 0), .call .taskyield]
      (fun s => decide ((s.task 1).pc = .chanalt 20))
      (.dispatch {}) []
      (fun s => decide (s.taskrunning = some 1) && decide ((s.task 1).pc = .user (some 2)))
      (by decide +kernel)
  obtain rfl := Option.some.inj runs
  simp only [Bool.and_eq_true, decide_eq_true_eq] at blocked checked
  exact ⟨s, s', blocked, stepped, checked.2, (one_alternative reachable).2.2 {} 1 20 s' isEnabled
    (by rw [blocked]; rfl) stepped checked.1⟩

end Libtask
