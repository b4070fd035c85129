import Libtask.ChannelStep
import Libtask.QueuedAlts

/-!
# No missed rendezvous

Which alternatives can be queued at which fill level of a channel.  An alternative
is queued only if it cannot proceed, and whatever would let it proceed is done by a
partner that runs it instead.
-/

namespace Libtask

open Function (update update_self update_of_ne)
open Outcome (bind_eq_ok)
open Transition

/-- Nobody waits for what the channel could do now. -/
structure Rendezvous (s : St) (c : ChanPtr) : Prop where
  size : (s.chan c).bufsize < 2 ^ 32
  filled : (s.chan c).nbuf ≤ (s.chan c).bufsize
  receivers : (s.chan c).bufsize ≠ 0 → s.queue c .arecv ≠ [] → (s.chan c).nbuf = 0
  senders : (s.chan c).bufsize ≠ 0 → s.queue c .asend ≠ [] →
    (s.chan c).nbuf = (s.chan c).bufsize
  apart : (s.chan c).bufsize = 0 → ∀ p q a b, p ∈ s.queue c .asend → q ∈ s.queue c .arecv →
    s.alt? p = some a → s.alt? q = some b → a.task = b.task

section

variable {run : Option TaskPtr} {s s' : St} {self : TaskPtr} {c : ChanPtr}

theorem Rendezvous.congr (rendezvous : Rendezvous s c)
    (bufsize : (s'.chan c).bufsize = (s.chan c).bufsize)
    (nbuf : (s'.chan c).nbuf = (s.chan c).nbuf)
    (queue : ∀ dir q, q ∈ s'.queue c dir → q ∈ s.queue c dir)
    (tasks : ∀ dir q a, q ∈ s'.queue c dir → s'.alt? q = some a →
      ∃ b, s.alt? q = some b ∧ b.task = a.task) : Rendezvous s' c := by
  have nonempty : ∀ dir, s'.queue c dir ≠ [] → s.queue c dir ≠ [] := by
    intro dir some? empty
    obtain ⟨q, member⟩ := List.exists_mem_of_ne_nil _ some?
    have := queue dir q member
    simp [empty] at this
  constructor
  · rw [bufsize]
    exact rendezvous.size
  · rw [bufsize, nbuf]
    exact rendezvous.filled
  · rw [bufsize, nbuf]
    exact fun buffered some? => rendezvous.receivers buffered (nonempty _ some?)
  · rw [bufsize, nbuf]
    exact fun buffered some? => rendezvous.senders buffered (nonempty _ some?)
  · rw [bufsize]
    intro direct p q a b pMember qMember pEq qEq
    obtain ⟨a', pEq', aTask⟩ := tasks _ p a pMember pEq
    obtain ⟨b', qEq', bTask⟩ := tasks _ q b qMember qEq
    rw [← aTask, ← bTask]
    exact rendezvous.apart direct p q a' b' (queue _ p pMember) (queue _ q qMember) pEq' qEq'

theorem KeepsChannels.rendezvous (keeps : KeepsChannels s s') (rendezvous : Rendezvous s c) :
    Rendezvous s' c := by
  refine rendezvous.congr (by rw [keeps.chan]) (by rw [keeps.chan]) ?_ ?_
  · intro dir q member
    simpa only [St.queue, keeps.chan] using member
  · intro dir q a _ altEq
    exact ⟨a, by simpa only [St.alt?, keeps.alts] using altEq, rfl⟩

/-- Writing to an array that nothing is queued from. -/
theorem Rendezvous.writeArray {base : Nat} {alts : List Alt} (rendezvous : Rendezvous s c)
    (unqueued : s.Unqueued base) :
    Rendezvous { s with alts := update s.alts base alts } c := by
  refine rendezvous.congr rfl rfl (fun _ _ => id) fun dir q a member altEq => ?_
  have different : q.base ≠ base := unqueued c dir q member
  exact ⟨a, by simpa only [St.alt?, update_of_ne different] using altEq, rfl⟩

/-- After a partner was dequeued, told the result and woken. -/
theorem Rendezvous.dequeued (rendezvous : Rendezvous s c) {s₁ : St} {o : Alt} {other : AltPtr}
    (dequeued : Dequeued s s₁ fun q => q.base = other.base)
    (base : o.xalt.base = other.base)
    (done : taskready { s₁ with
      alts := update s₁.alts o.xalt.base ((s₁.alts o.xalt.base).modify o.xalt.idx
        fun first => { first with xalt := other }) } o.task = .ok s') :
    Rendezvous s' c := by
  obtain ⟨bufsize, -, -, -, nbuf, -⟩ := core_fields (dequeued.core c)
  obtain ⟨chan, rfl⟩ := dequeued.rest
  obtain ⟨lists, -, s'Eq, -⟩ := taskready_ok done
  have queue : ∀ dir q, q ∈ s'.queue c dir → q ∈ s.queue c dir ∧ q.base ≠ other.base := by
    intro dir q member
    rw [← dequeued.member]
    simpa [s'Eq, St.queue] using member
  refine rendezvous.congr (by simpa [s'Eq] using bufsize) (by simpa [s'Eq] using nbuf)
    (fun dir q member => (queue dir q member).1) fun dir q a member altEq => ?_
  have different : q.base ≠ o.xalt.base := by
    rw [base]
    exact (queue dir q member).2
  exact ⟨a, by simpa [s'Eq, St.alt?, different] using altEq, rfl⟩

/-- What it takes for an alternative to proceed. -/
theorem altcanexec_iff {a : Alt} : altcanexec s a = true ↔
    (a.op = .chansnd ∧ ((s.chan a.c).bufsize = 0 ∧ s.queue a.c .arecv ≠ [] ∨
      (s.chan a.c).bufsize ≠ 0 ∧ (s.chan a.c).nbuf < (s.chan a.c).bufsize)) ∨
    (a.op = .chanrcv ∧ ((s.chan a.c).bufsize = 0 ∧ s.queue a.c .asend ≠ [] ∨
      (s.chan a.c).bufsize ≠ 0 ∧ 0 < (s.chan a.c).nbuf)) := by
  unfold altcanexec
  by_cases direct : (s.chan a.c).bufsize = 0
  · cases opEq : a.op <;>
      simp [direct, otherop, chanarray, Altarray.n, Channel.queue, St.queue]
  · cases opEq : a.op <;> simp [direct]

/-- The fill level and the queue of the other side, when an alternative proceeds. -/
structure Proceeds (s : St) (a : Alt) (dir : Dir) : Prop where
  other : chanarray (otherop a.op) = some dir
  /-- with no buffer there is a partner -/
  direct : (s.chan a.c).bufsize = 0 → s.queue a.c dir ≠ []
  /-- with a buffer nobody waits on the own side -/
  own : (s.chan a.c).bufsize ≠ 0 → ∀ dir', chanarray a.op = some dir' → s.queue a.c dir' = []
  send : a.op = .chansnd → (s.chan a.c).bufsize ≠ 0 →
    (s.chan a.c).nbuf < (s.chan a.c).bufsize
  recv : a.op = .chanrcv → (s.chan a.c).bufsize ≠ 0 → 0 < (s.chan a.c).nbuf

theorem Rendezvous.proceeds {a : Alt} (rendezvous : Rendezvous s a.c)
    (can : altcanexec s a = true) : ∃ dir, Proceeds s a dir := by
  rcases altcanexec_iff.mp can with ⟨isSnd, how⟩ | ⟨isRcv, how⟩
  · refine ⟨.arecv, by simp [isSnd, otherop, chanarray], ?_, ?_, ?_, by simp [isSnd]⟩
    · intro direct
      exact how.elim And.right fun buffered => absurd direct buffered.1
    · intro buffered dir' dirEq
      obtain rfl : .asend = dir' := by simpa [isSnd, chanarray] using dirEq
      by_contra some?
      have full := rendezvous.senders buffered some?
      rcases how with ⟨direct, -⟩ | ⟨-, room⟩
      · exact buffered direct
      · omega
    · intro _ buffered
      exact how.elim (fun direct => absurd direct.1 buffered) And.right
  · refine ⟨.asend, by simp [isRcv, otherop, chanarray], ?_, ?_, by simp [isRcv], ?_⟩
    · intro direct
      exact how.elim And.right fun buffered => absurd direct buffered.1
    · intro buffered dir' dirEq
      obtain rfl : .arecv = dir' := by simpa [isRcv, chanarray] using dirEq
      by_contra some?
      have empty := rendezvous.receivers buffered some?
      rcases how with ⟨direct, -⟩ | ⟨-, filled⟩
      · exact buffered direct
      · omega
    · intro _ buffered
      exact how.elim (fun direct => absurd direct.1 buffered) And.right

/-- The ways in which an alternative that can proceed is executed. -/
inductive Executed (s : St) (self : TaskPtr) (p : AltPtr) (a : Alt) :
    Option AltRef → St → Prop where
  | sendDirect {o : AltRef} : a.op = .chansnd → (s.chan a.c).nbuf = 0 →
      Executed s self p a (some o) (altcopyDirect s self a.c (p, a) o)
  | recvDirect {o : AltRef} : a.op = .chanrcv → (s.chan a.c).nbuf = 0 →
      Executed s self p a (some o) (altcopyDirect s self a.c o (p, a))
  | send {s₁ : St} : a.op = .chansnd → (s.chan a.c).bufsize ≠ 0 →
      (s.chan a.c).nbuf < (s.chan a.c).bufsize → s.queue a.c .asend = [] →
      s.queue a.c .arecv = [] → altcopySend s self a.c (p, a) = .ok s₁ →
      Executed s self p a none s₁
  | recv {s₁ : St} : a.op = .chanrcv → (s.chan a.c).bufsize ≠ 0 → 0 < (s.chan a.c).nbuf →
      s.queue a.c .asend = [] → s.queue a.c .arecv = [] →
      altcopyRecv s self a.c (p, a) = .ok s₁ → Executed s self p a none s₁
  /-- the oldest element goes out, and that of a blocked sender comes in -/
  | refill {o : AltRef} {s₀ s₁ : St} : a.op = .chanrcv → (s.chan a.c).bufsize ≠ 0 →
      (s.chan a.c).nbuf = (s.chan a.c).bufsize → altcopyRecv s self a.c (p, a) = .ok s₀ →
      altcopySend s₀ self a.c o = .ok s₁ → Executed s self p a (some o) s₁

theorem Rendezvous.executed {p : AltPtr} {a : Alt} {partner : Option AltRef} {s₁ : St}
    (rendezvous : Rendezvous s a.c) (can : altcanexec s a = true)
    (isPartner : PartnerOf s a partner)
    (copied : altcopy s self (p, a) partner = .ok s₁) :
    Executed s self p a partner s₁ := by
  obtain ⟨dir, proceeds⟩ := rendezvous.proceeds can
  have filled := rendezvous.filled
  have queue : ∀ o, partner = some o → s.queue a.c dir ≠ [] := by
    intro o isSome empty
    obtain ⟨dir', dirEq, member⟩ := isPartner.queued o isSome
    obtain rfl := Option.some.inj (proceeds.other.symm.trans dirEq)
    simp [empty] at member
  have nobody : partner = none → s.queue a.c dir = [] :=
    fun none? => isPartner.nobody none? dir proceeds.other
  have buffered : partner = none → (s.chan a.c).bufsize ≠ 0 :=
    fun none? direct => proceeds.direct direct (nobody none?)
  rcases altcopy_ok copied with ⟨isRcv, -, moved⟩ | ⟨isSnd, -, moved⟩
  · replace isRcv : a.op = .chanrcv := isRcv
    obtain rfl : .asend = dir := by simpa [isRcv, otherop, chanarray] using proceeds.other
    rcases altcopyMove_ok moved with
      ⟨x', r', rfl, isSelf, empty, rfl⟩ | ⟨x', r', s₀, rfl, isSelf, some?, received, sent⟩ |
      ⟨r', rfl, isSelf, received⟩ | ⟨x', -, isSelf, -⟩ | ⟨-, isSelf, -⟩
    · obtain rfl := Option.some.inj isSelf
      exact .recvDirect isRcv empty
    · obtain rfl := Option.some.inj isSelf
      replace some? : (s.chan a.c).nbuf ≠ 0 := some?
      have buffered : (s.chan a.c).bufsize ≠ 0 := by omega
      exact .refill isRcv buffered (rendezvous.senders buffered (queue x' rfl)) received sent
    · obtain rfl := Option.some.inj isSelf
      exact .recv isRcv (buffered rfl) (proceeds.recv isRcv (buffered rfl)) (nobody rfl)
        (proceeds.own (buffered rfl) _ (by rw [isRcv]; rfl)) received
    · cases isSelf
    · cases isSelf
  · replace isSnd : a.op = .chansnd := isSnd
    obtain rfl : .arecv = dir := by simpa [isSnd, otherop, chanarray] using proceeds.other
    rcases altcopyMove_ok moved with
      ⟨x', r', isSelf, rfl, empty, rfl⟩ | ⟨x', r', s₀, isSelf, rfl, some?, -, -⟩ |
      ⟨r', isSelf, -⟩ | ⟨x', isSelf, rfl, sent⟩ | ⟨isSelf, -⟩
    · obtain rfl := Option.some.inj isSelf
      exact .sendDirect isSnd empty
    · -- a blocked receiver of a buffered channel means an empty buffer
      replace some? : (s.chan a.c).nbuf ≠ 0 := some?
      have buffered : (s.chan a.c).bufsize ≠ 0 := by omega
      exact absurd (rendezvous.receivers buffered (queue r' rfl)) some?
    · cases isSelf
    · obtain rfl := Option.some.inj isSelf
      exact .send isSnd (buffered rfl) (proceeds.send isSnd (buffered rfl))
        (proceeds.own (buffered rfl) _ (by rw [isSnd]; rfl)) (nobody rfl) sent
    · cases isSelf

/-- Without queues only the fill level matters. -/
theorem Rendezvous.of_empty (size : (s.chan c).bufsize < 2 ^ 32)
    (filled : (s.chan c).nbuf ≤ (s.chan c).bufsize) (empty : ∀ dir, s.queue c dir = []) :
    Rendezvous s c := by
  refine ⟨size, filled, ?_, ?_, ?_⟩
  · exact fun _ some? => absurd (empty _) some?
  · exact fun _ some? => absurd (empty _) some?
  · intro _ p q a b member
    simp [empty] at member

/-- What an executed alternative changes of its own channel, and of the others. -/
theorem Executed.chan {p : AltPtr} {a : Alt} {partner : Option AltRef} {s₁ : St}
    (executed : Executed s self p a partner s₁) (rendezvous : Rendezvous s a.c) :
    (∀ c, c ≠ a.c → s₁.chan c = s.chan c) ∧
    (s₁.chan a.c).bufsize = (s.chan a.c).bufsize ∧
    ((s₁.chan a.c).nbuf = (s.chan a.c).nbuf ∨
      (∀ dir, s.queue a.c dir = []) ∧ (s₁.chan a.c).nbuf ≤ (s.chan a.c).bufsize) := by
  have size := rendezvous.size
  have small := rendezvous.filled
  cases executed with
  | sendDirect isSnd empty => exact ⟨fun _ _ => rfl, rfl, Or.inl rfl⟩
  | recvDirect isRcv empty => exact ⟨fun _ _ => rfl, rfl, Or.inl rfl⟩
  | send isSnd buffered room noSender noReceiver sent =>
      obtain ⟨-, -, value, -, rfl⟩ := altcopySend_ok sent
      refine ⟨fun c different => by simp [St.setChan, different], by simp [St.setChan],
        Or.inr ⟨fun dir => ?_, ?_⟩⟩
      · cases dir
        · exact noSender
        · exact noReceiver
      · simp only [St.setChan, update_self]
        omega
  | recv isRcv buffered filled noSender noReceiver received =>
      obtain ⟨-, -, value, -, rfl⟩ := altcopyRecv_ok received
      refine ⟨fun c different => by simp [St.setChan, different], by simp [St.setChan],
        Or.inr ⟨fun dir => ?_, ?_⟩⟩
      · cases dir
        · exact noSender
        · exact noReceiver
      · simp only [St.setChan, update_self]
        omega
  | refill isRcv buffered full received sent =>
      obtain ⟨-, -, value, -, rfl⟩ := altcopyRecv_ok received
      obtain ⟨-, -, value', -, rfl⟩ := altcopySend_ok sent
      refine ⟨fun c different => by simp [St.setChan, different], by simp [St.setChan],
        Or.inl ?_⟩
      simp only [St.setChan, update_self]
      omega

theorem Executed.copied {p : AltPtr} {a : Alt} {partner : Option AltRef} {s₁ : St}
    (executed : Executed s self p a partner s₁) : Copied s s₁ := by
  cases executed with
  | sendDirect isSnd empty =>
      exact ⟨⟨_, _, _, rfl⟩, fun _ _ => rfl, fun _ => ⟨rfl, rfl, rfl⟩⟩
  | recvDirect isRcv empty =>
      exact ⟨⟨_, _, _, rfl⟩, fun _ _ => rfl, fun _ => ⟨rfl, rfl, rfl⟩⟩
  | send isSnd buffered room noSender noReceiver sent => exact altcopySend_copied sent
  | recv isRcv buffered filled noSender noReceiver received => exact altcopyRecv_copied received
  | refill isRcv buffered full received sent =>
      exact (altcopyRecv_copied received).trans (altcopySend_copied sent)

theorem Copied.alts (copied : Copied s s') : s'.alts = s.alts := by
  obtain ⟨mem, chan, trace, rfl⟩ := copied.rest
  rfl

theorem Copied.queue_eq (copied : Copied s s') (c : ChanPtr) (dir : Dir) :
    s'.queue c dir = s.queue c dir := by
  rw [St.queue, St.queue, copied.queue]

/-- Executing an alternative leaves nobody waiting for what could be done. -/
theorem Executed.rendezvous {p : AltPtr} {a : Alt} {partner : Option AltRef} {s₁ : St}
    (executed : Executed s self p a partner s₁) (all : ∀ c, Rendezvous s c) (c : ChanPtr) :
    Rendezvous s₁ c := by
  obtain ⟨others, bufsize, nbuf⟩ := executed.chan (all a.c)
  have copied := executed.copied
  have sameAlts : ∀ dir q b, q ∈ s₁.queue c dir → s₁.alt? q = some b →
      ∃ b', s.alt? q = some b' ∧ b'.task = b.task := by
    intro dir q b _ altEq
    exact ⟨b, by simpa only [St.alt?, copied.alts] using altEq, rfl⟩
  have sameQueue : ∀ dir q, q ∈ s₁.queue c dir → q ∈ s.queue c dir := by
    intro dir q member
    rwa [copied.queue_eq] at member
  by_cases same : c = a.c
  · subst same
    rcases nbuf with unchanged | ⟨empty, room⟩
    · exact (all a.c).congr bufsize unchanged sameQueue sameAlts
    · refine .of_empty (bufsize ▸ (all a.c).size) (bufsize ▸ room) fun dir => ?_
      rw [copied.queue_eq]
      exact empty dir
  · exact (all c).congr (by rw [others c same]) (by rw [others c same]) sameQueue sameAlts

/-- The parts of `altexec` for an alternative that can proceed. -/
theorem altexec_executed {p : AltPtr} {a : Alt} {rand : Nat} (inv : Inv run s)
    (all : ∀ c, Rendezvous s c) (altEq : s.alt? p = some a) (can : altcanexec s a = true)
    (done : altexec s self p rand = .ok s') :
    Executed s self p a none s' ∨
    ∃ other o s₁ s₂, s.alt? other = some o ∧ (∃ dir, other ∈ s.queue a.c dir) ∧
      Executed s self p a (some (other, o)) s₁ ∧
      Dequeued s₁ s₂ (fun q => q.base = other.base) ∧ o.xalt = ⟨other.base, 0⟩ ∧
      taskready { s₂ with
        alts := update s₂.alts o.xalt.base ((s₂.alts o.xalt.base).modify o.xalt.idx
          fun first => { first with xalt := other }) } o.task = .ok s' := by
  obtain ⟨a', altEq', shape⟩ := altexec_ok done
  rw [altEq] at altEq'
  obtain rfl := Option.some.inj altEq'
  rcases shape with ⟨nobody, copied⟩ | ⟨other, o, s₁, s₂, picked, otherEq, copied, dequeued,
    -, readied⟩
  · exact Or.inl ((all a.c).executed can (partnerOf_none nobody) copied)
  · obtain ⟨dir, dirEq, member⟩ := altpick_eq_some picked
    have executed := (all a.c).executed can (partnerOf_some picked o) copied
    have copy := altcopy_copied copied
    have inv₁ := inv.copied copy
    have member₁ : other ∈ s₁.queue a.c dir := by
      rwa [copy.queue_eq]
    have otherEq₁ : s₁.alt? other = some o := by
      simpa only [St.alt?, copy.alts] using otherEq
    obtain ⟨s₃, dequeued', removed⟩ := inv₁.parked.altalldequeue member₁ otherEq₁
    rw [dequeued] at dequeued'
    obtain rfl := Except.ok.inj dequeued'
    exact Or.inr ⟨other, o, s₁, s₂, otherEq, ⟨dir, member⟩, executed, removed,
      (inv₁.parked.blocked member₁ otherEq₁).2.2.1, readied⟩

theorem Rendezvous.altexec {p : AltPtr} {a : Alt} {rand : Nat} (inv : Inv run s)
    (all : ∀ c, Rendezvous s c) (altEq : s.alt? p = some a) (can : altcanexec s a = true)
    (done : Libtask.altexec s self p rand = .ok s') (c : ChanPtr) : Rendezvous s' c := by
  rcases altexec_executed inv all altEq can done with
    executed | ⟨other, o, s₁, s₂, -, -, executed, dequeued, xalt, readied⟩
  · exact executed.rendezvous all c
  · exact (executed.rendezvous all c).dequeued dequeued (by rw [xalt]) readied

/-- A send that cannot proceed. -/
theorem blocked_sender {a : Alt} (filled : (s.chan a.c).nbuf ≤ (s.chan a.c).bufsize)
    (blocked : altcanexec s a = false) (dirEq : chanarray a.op = some .asend) :
    ((s.chan a.c).bufsize = 0 → s.queue a.c .arecv = []) ∧
      ((s.chan a.c).bufsize ≠ 0 → (s.chan a.c).nbuf = (s.chan a.c).bufsize) := by
  have no := mt (altcanexec_iff (s := s) (a := a)).mpr (by simp [blocked])
  simp only [op_of_asend dirEq, true_and, reduceCtorEq, false_and, or_false, not_or,
    not_and] at no
  refine ⟨fun direct => not_not.mp (no.1 direct), fun buffered => ?_⟩
  have := no.2 buffered
  omega

/-- A receive that cannot proceed. -/
theorem blocked_receiver {a : Alt} (blocked : altcanexec s a = false)
    (dirEq : chanarray a.op = some .arecv) :
    ((s.chan a.c).bufsize = 0 → s.queue a.c .asend = []) ∧
      ((s.chan a.c).bufsize ≠ 0 → (s.chan a.c).nbuf = 0) := by
  have no := mt (altcanexec_iff (s := s) (a := a)).mpr (by simp [blocked])
  simp only [op_of_arecv dirEq, true_and, reduceCtorEq, false_and, false_or, not_or,
    not_and] at no
  refine ⟨fun direct => not_not.mp (no.1 direct), fun buffered => ?_⟩
  have := no.2 buffered
  omega

/-- An array none of whose alternatives can proceed is queued. -/
theorem Rendezvous.enqueued {base : Nat} {alts : List Alt} (all : ∀ c, Rendezvous s c)
    (enqueued : Enqueued s s' base 0 alts) (blocked : ∀ a ∈ alts, altcanexec s a = false)
    (array : ∀ k a, alts[k]? = some a → s.alt? ⟨base, k⟩ = some a)
    (own : ∀ a ∈ alts, a.task = self) (c : ChanPtr) : Rendezvous s' c := by
  obtain ⟨bufsize, -, -, -, nbuf, -⟩ := core_fields (enqueued.core c)
  obtain ⟨size, filled, receivers, senders, apart⟩ := all c
  -- what a new entry of a queue says about the channel
  have newSender : ∀ (k : Nat) (a : Alt), alts[k]? = some a → a.c = c →
      chanarray a.op = some .asend →
      ((s.chan c).bufsize = 0 → s.queue c .arecv = []) ∧
        ((s.chan c).bufsize ≠ 0 → (s.chan c).nbuf = (s.chan c).bufsize) := by
    rintro k a atK rfl dirEq
    exact blocked_sender filled (blocked a (List.mem_of_getElem? atK)) dirEq
  have newReceiver : ∀ (k : Nat) (a : Alt), alts[k]? = some a → a.c = c →
      chanarray a.op = some .arecv →
      ((s.chan c).bufsize = 0 → s.queue c .asend = []) ∧
        ((s.chan c).bufsize ≠ 0 → (s.chan c).nbuf = 0) := by
    rintro k a atK rfl dirEq
    exact blocked_receiver (blocked a (List.mem_of_getElem? atK)) dirEq
  have alt? : ∀ q, s'.alt? q = s.alt? q := by
    obtain ⟨chan, rfl⟩ := enqueued.rest
    exact fun _ => rfl
  constructor
  · rw [bufsize]
    exact size
  · rw [bufsize, nbuf]
    exact filled
  · rw [bufsize, nbuf]
    intro buffered some?
    obtain ⟨q, member⟩ := List.exists_mem_of_ne_nil _ some?
    rcases (enqueued.member c .arecv q).mp member with old | ⟨k, a, atK, -, channel, dirEq⟩
    · exact receivers buffered (List.ne_nil_of_mem old)
    · exact (newReceiver k a atK channel dirEq).2 buffered
  · rw [bufsize, nbuf]
    intro buffered some?
    obtain ⟨q, member⟩ := List.exists_mem_of_ne_nil _ some?
    rcases (enqueued.member c .asend q).mp member with old | ⟨k, a, atK, -, channel, dirEq⟩
    · exact senders buffered (List.ne_nil_of_mem old)
    · exact (newSender k a atK channel dirEq).2 buffered
  · rw [bufsize]
    intro direct p q a b pMember qMember pEq qEq
    rw [alt?] at pEq qEq
    rcases (enqueued.member c .asend p).mp pMember with
      pOld | ⟨k, x, xAtK, rfl, xChannel, xDir⟩
    · rcases (enqueued.member c .arecv q).mp qMember with
        qOld | ⟨j, y, yAtJ, rfl, yChannel, yDir⟩
      · exact apart direct p q a b pOld qOld pEq qEq
      · have none? := (newReceiver j y yAtJ yChannel yDir).1 direct
        simp [none?] at pOld
    · rcases (enqueued.member c .arecv q).mp qMember with
        qOld | ⟨j, y, yAtJ, rfl, yChannel, yDir⟩
      · have none? := (newSender k x xAtK xChannel xDir).1 direct
        simp [none?] at qOld
      · rw [Nat.zero_add, array k x xAtK] at pEq
        rw [Nat.zero_add, array j y yAtJ] at qEq
        obtain rfl := Option.some.inj pEq
        obtain rfl := Option.some.inj qEq
        rw [own x (List.mem_of_getElem? xAtK), own y (List.mem_of_getElem? yAtJ)]

/-! ## All steps -/

theorem ChannelStep.rendezvous {act : Act} (kind : ChannelStep self s s' act)
    (all : ∀ c, Rendezvous s c) (c : ChanPtr) : Rendezvous s' c := by
  cases kind with
  | keeps keeps => exact keeps.rendezvous (all c)
  | @create c₀ elemsize bufsize junk fresh =>
      by_cases same : c = c₀
      · subst same
        refine .of_empty ?_ ?_ ?_
        · simp only [St.setChan, update_self, toUint]
          omega
        · simp [St.setChan]
        · intro dir
          cases dir <;> simp [St.setChan, St.queue, Channel.queue]
      · exact (all c).congr (by simp [St.setChan, same]) (by simp [St.setChan, same])
          (fun dir q member => by simpa [St.setChan, St.queue, same] using member)
          (fun dir q a _ altEq => ⟨a, altEq, rfl⟩)
  | @alt call base rand2 alts pc s' flow entering alted =>
      have unqueued : s.Unqueued base := fun c dir q member => entering.unqueued member
      have all₀ : ∀ c, Rendezvous { s with alts := update s.alts base alts } c :=
        fun c => (all c).writeArray unqueued
      have all₁ : ∀ c, Rendezvous (enter { s with alts := update s.alts base alts } self base) c :=
        fun c => (all₀ c).writeArray unqueued
      cases alted with
      | exec atI can executed =>
          exact Rendezvous.altexec entering.entered_inv all₁
            (enter_alt? entering.isTerminated atI) can executed c
      | noblock blocked ends => exact all₁ c
      | block blocked ends enqueued =>
          obtain ⟨last, array, alternatives, -⟩ :=
            enter_array self entering.isTerminated
          have queued := Rendezvous.enqueued all₁ enqueued blocked
            (fun k a atK => enter_alt? entering.isTerminated atK)
            (fun a member => (alternatives a member).2.1) c
          exact queued.congr rfl rfl (fun _ _ => id) fun _ _ a _ altEq => ⟨a, altEq, rfl⟩
  | resumed altbase altEq sameBase =>
      exact (all c).congr rfl rfl (fun _ _ => id) fun _ _ a _ altEq => ⟨a, altEq, rfl⟩
  | store =>
      exact (all c).congr rfl rfl (fun _ _ => id) fun _ _ a _ altEq => ⟨a, altEq, rfl⟩

theorem zero_rendezvous (rendez : RendezPtr → Option QLockPtr) (mem : Nat → UInt8)
    (c : ChanPtr) : Rendezvous (St.zero rendez mem) c :=
  .of_empty (by simp [St.zero]) (Nat.zero_le _) fun dir => by cases dir <;> rfl

theorem reachable_rendezvous {allowed : St → Act → Prop} {s : St}
    (reachable : Reachable allowed s) (c : ChanPtr) : Rendezvous s c := by
  induction reachable generalizing c with
  | init start =>
      obtain ⟨rendez, mem, t, started⟩ := start
      obtain ⟨id, created⟩ := main_ok started
      exact (taskcreate_frame created).channels.rendezvous (zero_rendezvous rendez mem c)
  | step before isEnabled _ stepped ih =>
      obtain ⟨self, s₀, s₁, -, first, kind, last⟩ :=
        step_channels (reachable_inv before) isEnabled stepped
      exact last.rendezvous (kind.rendezvous (fun c => first.rendezvous (ih c)) c)

/-! ## What blocked tasks wait for -/

/-- A blocked task waits with its whole array. -/
theorem Inv.blocked_waiting {t : TaskPtr} {base : Nat} (inv : Inv s.taskrunning s)
    (live : t ∈ s.alltask) (blocked : s.BlockedIn t base) : Waiting s t base := by
  obtain ⟨altbase, notReady, idle⟩ := blocked
  refine inv.parked.waiting t _ base ⟨live, idle, rfl⟩ altbase ?_
  rw [← Option.not_isSome_iff_eq_none, Option.isSome_iff_exists]
  rintro ⟨l, homeEq⟩
  by_cases onRun : l = .taskrunqueue
  · have isReady := (inv.listed t).ready.mpr (onRun ▸ homeEq)
    rw [notReady] at isReady
    cases isReady
  · exact (waitlist_kinds ((inv.listed t).waits l homeEq onRun)).2.1 ⟨base, altbase⟩

/-- No blocked task waits for something that the buffer or another task could do now. -/
theorem Rendezvous.not_missed {t : TaskPtr} {base i : Nat} {a : Alt}
    (inv : Inv s.taskrunning s) (rendezvous : Rendezvous s a.c) (live : t ∈ s.alltask)
    (blocked : s.BlockedIn t base) (inside : i < altcount (s.alts base))
    (altEq : s.alt? ⟨base, i⟩ = some a) :
    ((s.chan a.c).bufsize ≠ 0 → altcanexec s a = false) ∧
      ((s.chan a.c).bufsize = 0 → ∀ dir p b, chanarray (otherop a.op) = some dir →
        p ∈ s.queue a.c dir → s.alt? p = some b → b.task = t) := by
  have waiting := inv.blocked_waiting live blocked
  have isT : a.task = t := (waiting.own i a inside altEq).1
  have queued : ∀ dir, chanarray a.op = some dir → ⟨base, i⟩ ∈ s.queue a.c dir :=
    fun dir dirEq => waiting.queued i a dir inside altEq dirEq
  constructor
  · intro buffered
    rw [Bool.eq_false_iff]
    intro can
    rcases altcanexec_iff.mp can with
      ⟨isSnd, ⟨direct, -⟩ | ⟨-, room⟩⟩ | ⟨isRcv, ⟨direct, -⟩ | ⟨-, filled⟩⟩
    · exact buffered direct
    · have member := queued .asend (by simp [isSnd, chanarray])
      have full := rendezvous.senders buffered (List.ne_nil_of_mem member)
      omega
    · exact buffered direct
    · have member := queued .arecv (by simp [isRcv, chanarray])
      have empty := rendezvous.receivers buffered (List.ne_nil_of_mem member)
      omega
  · intro direct dir p b dirEq member bEq
    cases opEq : a.op <;> rw [opEq] at dirEq queued <;>
      simp only [otherop, chanarray, Option.some.injEq, reduceCtorEq] at dirEq
    · subst dirEq
      have same := rendezvous.apart direct _ p a b (queued .asend rfl) member altEq bEq
      rw [← same, isT]
    · subst dirEq
      have same := rendezvous.apart direct p _ b a member (queued .arecv rfl) bEq altEq
      rw [same, isT]

end

/-- In every state of every run nobody waits to receive from a buffer that holds an
element, or to send to one with room, at most one side waits at a buffered channel, and
without a buffer no two different tasks wait for each other.  No alternative of a
blocked task could proceed against the buffer or against another task. -/
theorem no_missed_rendezvous {allowed : St → Act → Prop} {s : St}
    (reachable : Reachable allowed s) :
    (∀ c, (s.chan c).bufsize ≠ 0 →
      (s.queue c .arecv ≠ [] → (s.chan c).nbuf = 0) ∧
      (s.queue c .asend ≠ [] → (s.chan c).nbuf = (s.chan c).bufsize) ∧
      (s.queue c .arecv = [] ∨ s.queue c .asend = [])) ∧
    (∀ c, (s.chan c).bufsize = 0 → ∀ p q a b, p ∈ s.queue c .asend → q ∈ s.queue c .arecv →
      s.alt? p = some a → s.alt? q = some b → a.task = b.task) ∧
    ∀ t base i a, t ∈ s.alltask → s.BlockedIn t base → i < altcount (s.alts base) →
      s.alt? ⟨base, i⟩ = some a →
        ((s.chan a.c).bufsize ≠ 0 → altcanexec s a = false) ∧
        ((s.chan a.c).bufsize = 0 → ∀ dir p b, chanarray (otherop a.op) = some dir →
          p ∈ s.queue a.c dir → s.alt? p = some b → b.task = t) := by
  have all := reachable_rendezvous reachable
  refine ⟨fun c buffered => ?_, fun c => (all c).apart, ?_⟩
  · refine ⟨(all c).receivers buffered, (all c).senders buffered, ?_⟩
    by_contra both
    rw [not_or] at both
    have empty := (all c).receivers buffered both.1
    have full := (all c).senders buffered both.2
    exact buffered (full.symm.trans empty)
  · intro t base i a live blocked inside altEq
    exact (all a.c).not_missed (reachable_inv reachable) live blocked inside altEq

/-- A run in which one task waits to send and to receive on a channel without buffer,
and another one waits to send to a full buffer. -/
theorem no_missed_rendezvous_select : ∃ s : St,
    s.queue 7 .asend = [⟨30, 0⟩] ∧ s.queue 7 .arecv = [⟨30, 1⟩] ∧
    (s.chan 8).bufsize = 1 ∧ s.queue 8 .asend = [⟨20, 0⟩] ∧
    ((s.chan 7).bufsize = 0 → ∀ p q a b, p ∈ s.queue 7 .asend → q ∈ s.queue 7 .arecv →
      s.alt? p = some a → s.alt? q = some b → a.task = b.task) := by
  obtain ⟨s, checked, reachable⟩ := exists_run anyAction (fun _ => none)
    [.dispatch {}, .call (.taskcreate (some 2)), .call (.chancreate (some 7) 4 0 fun _ => 0),
      .call (.chancreate (some 8) 4 1 fun _ => 0),
      .call (.chanop 8 .chansnd (some 100) true 20 0 0),
      .call (.chanop 8 .chansnd (some 100) true 20 0 0), .dispatch {},
      .call (.chanalt 30 [⟨7, some 200, .chansnd, 0, ⟨0, 0⟩⟩, ⟨7, none, .chanrcv, 0, ⟨0, 0⟩⟩,
        ⟨0, none, .chanend, 0, ⟨0, 0⟩⟩] 0 0)]
    (fun s => decide (s.queue 7 .asend = [⟨30, 0⟩]) && decide (s.queue 7 .arecv = [⟨30, 1⟩]) &&
      decide ((s.chan 8).bufsize = 1) && decide (s.queue 8 .asend = [⟨20, 0⟩]))
    (by decide +kernel)
  simp only [Bool.and_eq_true, decide_eq_true_eq] at checked
  obtain ⟨⟨⟨sender, receiver⟩, size⟩, full⟩ := checked
  exact ⟨s, sender, receiver, size, full, (no_missed_rendezvous reachable).2.1 7⟩

end Libtask
