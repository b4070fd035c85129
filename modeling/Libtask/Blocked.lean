import Libtask.Places

/-!
# Blocking and waking in chanalt

The moves of the global invariant that are about alternatives: a task that queues
its alternatives and gives up the CPU, and a partner that executes one of them,
dequeues them all and wakes the task.
-/

namespace Libtask

open Function (update update_self update_of_ne update_apply)
open Outcome (bind_eq_ok)

variable {run : Option TaskPtr} {s s' : St} {self : TaskPtr}

/-- No task that gave up the CPU is in `chanalt` on the array at `base`. -/
def ArrayFree (run : Option TaskPtr) (s : St) (base : Nat) : Prop :=
  ∀ t pc, Stopped run s t pc → pc.altbase ≠ some base

theorem arrayFree_of_altfree (run : Option TaskPtr) {base : Nat} (isFree : altfree s base = true) :
    ArrayFree run s base := by
  intro t pc stopped
  have := List.all_eq_true.mp isFree t stopped.live
  rw [← stopped.pc]
  simpa using this

/-- Nothing is queued from an array that nobody is in. -/
theorem Parked.not_queued {base : Nat} (parked : Parked run s) (isFree : ArrayFree run s base)
    {c : ChanPtr} {dir : Dir} {p : AltPtr} (member : p ∈ s.queue c dir) : p.base ≠ base := by
  rintro rfl
  obtain ⟨t, pc, stopped, base, -⟩ := parked.owner c dir p member
  exact isFree t pc stopped base

/-- Writing to such an array changes nothing. -/
theorem Inv.writeArray {base : Nat} {alts : List Alt} (inv : Inv run s)
    (isFree : ArrayFree run s base) :
    Inv run { s with alts := update s.alts base alts } := by
  have same : ∀ t, SameAt run s run { s with alts := update s.alts base alts } t :=
    fun t => ⟨Iff.rfl, Iff.rfl, rfl, rfl, rfl⟩
  refine ⟨inv.table.congr ⟨rfl, rfl, fun _ => rfl, fun _ => rfl⟩,
    fun t => (same t).listed (inv.listed t), ?_, ?_⟩
  · exact inv.polled.congr (sameStopped_of_same same) rfl rfl
  · refine inv.parked.congr (sameStopped_of_same same) (fun _ _ => rfl) inv.parked.queues.fits
      (fun _ => id) ?_
    intro t pc a stopped base'
    have different : a ≠ base := by
      rintro rfl
      exact isFree t pc stopped base'
    exact update_of_ne different _ _

/-- Moving data changes nothing. -/
theorem Inv.copied (inv : Inv run s) (copied : Copied s s') : Inv run s' := by
  have queue : ∀ c dir, s'.queue c dir = s.queue c dir := by
    intro c dir
    rw [St.queue, St.queue, copied.queue]
  have fits : ∀ c dir, ((s'.chan c).queue dir).Fits := by
    intro c dir
    rw [copied.queue]
    exact inv.parked.queues.fits c dir
  obtain ⟨mem, chan, trace, rfl⟩ := copied.rest
  have same : ∀ t, SameAt run s run { s with mem, chan, trace } t :=
    fun t => ⟨Iff.rfl, Iff.rfl, rfl, rfl, rfl⟩
  refine ⟨inv.table.congr ⟨rfl, rfl, fun _ => rfl, fun _ => rfl⟩,
    fun t => (same t).listed (inv.listed t), ?_, ?_⟩
  · exact inv.polled.congr (sameStopped_of_same same) rfl rfl
  · exact inv.parked.congr (sameStopped_of_same same) queue fits (fun _ => id)
      fun _ _ _ _ _ => rfl

/-- The alternatives `front` of an array were queued. -/
theorem Enqueued.queues {base : Nat} {front : List Alt} {last : Alt} {s₁ : St}
    (enqueued : Enqueued s s₁ base 0 front) (queues : Queues s)
    (array : s.alts base = front ++ [last]) (alts : s'.alts = s.alts)
    (chan : s'.chan = s₁.chan) : Queues s' := by
  have queue : ∀ c dir, s'.queue c dir = s₁.queue c dir := by simp [St.queue, chan]
  refine ⟨?_, ?_, ?_⟩
  · intro c dir q member
    rw [queue, enqueued.member] at member
    rw [St.alt?, alts]
    rcases member with old | ⟨k, a, atK, rfl, channel, dirEq⟩
    · exact queues.entry c dir q old
    · refine ⟨a, ?_, channel, dirEq⟩
      simp only [array, Nat.zero_add]
      rw [List.getElem?_append_left (List.getElem?_eq_some_iff.mp atK).1, atK]
  · intro c dir
    rw [queue]
    exact enqueued.nodup c dir
  · intro c dir
    rw [chan]
    exact enqueued.fits c dir

/-- These are all alternatives of the array. -/
theorem Enqueued.waiting {base : Nat} {front : List Alt} {last : Alt} {s₁ : St}
    (enqueued : Enqueued s s₁ base 0 front) (array : s.alts base = front ++ [last])
    (isTerminated : terminated (s.alts base) = true)
    (own : ∀ a ∈ front, a.task = self ∧ a.xalt = ⟨base, 0⟩) (alts : s'.alts = s.alts)
    (queue : ∀ c dir, s'.queue c dir = s₁.queue c dir) : Waiting s' self base := by
  have counted : altcount (s.alts base) = front.length := by
    obtain ⟨front', last', split, -, -, count⟩ := terminated_split isTerminated
    have := congrArg List.length (array.symm.trans split)
    simp only [List.length_append, List.length_singleton] at this
    omega
  have inFront : ∀ i alt, i < altcount (s.alts base) → (s.alts base)[i]? = some alt →
      front[i]? = some alt := by
    intro i alt inside atIndex
    rw [counted] at inside
    rwa [array, List.getElem?_append_left inside] at atIndex
  constructor
  · rw [alts]
    exact isTerminated
  · rw [alts]
    intro i alt inside atIndex
    exact own alt (List.mem_of_getElem? (inFront i alt inside atIndex))
  · rw [alts]
    intro i alt dir inside atIndex dirEq
    rw [queue, enqueued.member]
    exact Or.inr ⟨i, alt, inFront i alt inside atIndex, by simp, rfl, dirEq⟩

/-- Task `self` is new in `chanalt`, on an array of its own that it has queued. -/
theorem Parked.enter {base : Nat} {pc : Pc} {front : List Alt} {s₁ : St}
    (parked : Parked run s) (isFree : ArrayFree run s base)
    (notOld : ∀ pc', ¬Stopped run s self pc') (queues : Queues s')
    (waiting : Waiting s' self base) (enqueued : Enqueued s s₁ base 0 front)
    (known : ∀ a ∈ front, chanarray a.op ≠ none → a.c ∈ s.chans)
    (stopped : Stopped none s' self pc) (altbase : pc.altbase = some base)
    (free : s'.home self = none) (same : ∀ t, ¬t = self → SameAt run s none s' t)
    (queue : ∀ c dir, s'.queue c dir = s₁.queue c dir) (alts : s'.alts = s.alts)
    (chans : s'.chans = s.chans) : Parked none s' := by
  have baseSelf : ∀ pc' a, Stopped none s' self pc' → pc'.altbase = some a → a = base := by
    intro pc' a stopped' base'
    rw [← stopped'.pc, stopped.pc, altbase] at base'
    exact (Option.some.inj base').symm
  have baseOther : ∀ t pc' a, t ≠ self → Stopped none s' t pc' → pc'.altbase = some a →
      a ≠ base := by
    rintro t pc' a different stopped' base' rfl
    exact isFree t pc' (((same t different).stopped pc').mp stopped') base'
  constructor
  · exact queues
  · intro c dir q member
    rw [queue, enqueued.member] at member
    rw [chans]
    rcases member with old | ⟨k, a, atK, -, rfl, dirEq⟩
    · exact parked.known c dir q old
    · exact known a (List.mem_of_getElem? atK) (by simp [dirEq])
  · intro c dir q member
    rw [queue, enqueued.member] at member
    rcases member with old | ⟨k, a, -, rfl, -, -⟩
    · obtain ⟨t, pc', stoppedOld, base', freeT⟩ := parked.owner c dir q old
      have different : t ≠ self := fun isSelf => notOld pc' (isSelf ▸ stoppedOld)
      exact ⟨t, pc', ((same t different).stopped pc').mpr stoppedOld, base',
        (same t different).home.trans freeT⟩
    · exact ⟨self, pc, stopped, altbase, free⟩
  · intro t pc' a stopped' base' freeT
    by_cases isSelf : t = self
    · subst isSelf
      exact baseSelf pc' a stopped' base' ▸ waiting
    · have old := ((same t isSelf).stopped pc').mp stopped'
      have waitingOld := parked.waiting t pc' a old base' ((same t isSelf).home ▸ freeT)
      refine waitingOld.congr (congrFun alts a) fun c dir i member => ?_
      rw [queue, enqueued.member]
      exact Or.inl member
  · intro t pc' a stopped' base' listed
    by_cases isSelf : t = self
    · subst isSelf
      exact absurd free listed
    · have old := ((same t isSelf).stopped pc').mp stopped'
      exact (parked.told t pc' a old base' ((same t isSelf).home ▸ listed)).congr
        (congrFun alts a)
  · intro t u pc' pc'' a stopped' stopped'' base' base''
    by_cases isSelf : t = self
    · by_cases isSelf' : u = self
      · exact isSelf.trans isSelf'.symm
      · exact absurd (baseSelf pc' a (isSelf ▸ stopped') base')
          (baseOther u pc'' a isSelf' stopped'' base'')
    · by_cases isSelf' : u = self
      · exact absurd (baseSelf pc'' a (isSelf' ▸ stopped'') base'')
          (baseOther t pc' a isSelf stopped' base')
      · exact parked.distinct t u pc' pc'' a (((same t isSelf).stopped pc').mp stopped')
          (((same u isSelf').stopped pc'').mp stopped'') base' base''

/-- The running task has queued the alternatives `front` of its array and gives up
the CPU. -/
theorem Inv.parkAlt {base : Nat} {pc : Pc} {front : List Alt} {last : Alt} {s₁ : St}
    (inv : Inv (some self) s) (isFree : ArrayFree (some self) s base)
    (array : s.alts base = front ++ [last])
    (isTerminated : terminated (s.alts base) = true)
    (own : ∀ a ∈ front, a.task = self ∧ a.xalt = ⟨base, 0⟩)
    (known : ∀ a ∈ front, chanarray a.op ≠ none → a.c ∈ s.chans)
    (enqueued : Enqueued s s₁ base 0 front) (base? : pc.altbase = some base)
    (rest : ∃ trace, s' = { s₁.setTask self fun task => { task with pc } with trace }) :
    Inv none s' := by
  obtain ⟨chan, rfl⟩ := enqueued.rest
  obtain ⟨trace, s'Eq⟩ := rest
  obtain ⟨live, free⟩ := (inv.listed self).running rfl
  have home : s'.home = s.home := by simp [s'Eq, St.setTask]
  have pcEq : (s'.task self).pc = pc := by simp [s'Eq, St.setTask]
  have alts : s'.alts = s.alts := by simp [s'Eq, St.setTask]
  have queue : ∀ c dir, s'.queue c dir = St.queue { s with chan } c dir := by
    simp [s'Eq, St.setTask, St.queue]
  have others : ∀ t, t ≠ self → s'.task t = s.task t := by
    intro t different
    simp [s'Eq, St.setTask, different]
  have table : SameTable s s' := by
    rw [s'Eq]
    exact .of_update rfl rfl rfl rfl rfl
  have same : ∀ t, ¬t = self → SameAt (some self) s none s' t := by
    intro t different
    constructor
    · rw [table.alltask]
    · simp [Ne.symm different]
    · rw [home]
    · rw [others t different]
    · rw [others t different]
  have stopped : Stopped none s' self pc := stopped_away (table.alltask ▸ live) pcEq
  refine ⟨inv.table.congr table, ?_, ?_, ?_⟩
  · intro t
    by_cases isSelf : t = self
    · subst isSelf
      apply Listed.away (home ▸ free) ?_ pcEq (Or.inr ⟨base, base?⟩)
      rw [← (inv.listed t).notReady free]
      simp [s'Eq, St.setTask]
    · exact (same t isSelf).listed (inv.listed t)
  · refine inv.polled.congr (sameStopped_of_sameAt (· = self) same ?_ ?_)
      (by simp [s'Eq, St.setTask]) (by simp [s'Eq, St.setTask])
    · rintro t pc' rfl rfl stopped'
      rw [← stopped.pc, stopped'.pc] at base?
      cases base?
    · rintro t pc' rfl - stopped'
      exact absurd rfl stopped'.idle
  · refine inv.parked.enter isFree (fun _ stopped' => stopped'.idle rfl) ?_ ?_ enqueued known
      stopped base? (home ▸ free) same queue alts ?_
    · exact enqueued.queues inv.parked.queues array alts (by simp [s'Eq, St.setTask])
    · exact enqueued.waiting array isTerminated own alts queue
    · simp [s'Eq, St.setTask]

/-- What a queue pointer leads to: the blocked task, and its array. -/
theorem Parked.blocked (parked : Parked run s) {c : ChanPtr} {dir : Dir} {other : AltPtr}
    {o : Alt} (member : other ∈ s.queue c dir) (otherEq : s.alt? other = some o) :
    o.c = c ∧ chanarray o.op = some dir ∧ o.xalt = ⟨other.base, 0⟩ ∧
      (∃ pc, Stopped run s o.task pc ∧ pc.altbase = some other.base) ∧
      s.home o.task = none ∧ Waiting s o.task other.base := by
  obtain ⟨alt, altEq, channel, dirEq⟩ := parked.queues.entry c dir other member
  rw [otherEq] at altEq
  obtain rfl := Option.some.inj altEq
  obtain ⟨t, pc, stopped, base, free⟩ := parked.owner c dir other member
  have waiting := parked.waiting t pc other.base stopped base free
  obtain ⟨rfl, xalt⟩ := waiting.own other.idx o (parked.altcount_lt member) otherEq
  exact ⟨channel, dirEq, xalt, ⟨pc, stopped, base⟩, free, waiting⟩

/-- `altalldequeue` goes through for a queued alternative, and removes its array
from all queues. -/
theorem Parked.altalldequeue (parked : Parked run s) {c : ChanPtr} {dir : Dir}
    {other : AltPtr} {o : Alt} (member : other ∈ s.queue c dir)
    (otherEq : s.alt? other = some o) :
    ∃ s₁, Libtask.altalldequeue s o.xalt = .ok s₁ ∧
      Dequeued s s₁ fun q => q.base = other.base := by
  obtain ⟨-, -, xalt, -, -, isTerminated, own, queued⟩ := parked.blocked member otherEq
  obtain ⟨front, last, split, alternatives, isLast, count⟩ := terminated_split isTerminated
  have atArray : ∀ k a, front[k]? = some a →
      k < front.length ∧ (s.alts other.base)[k]? = some a := by
    intro k a atK
    have inside : k < front.length := (List.getElem?_eq_some_iff.mp atK).1
    exact ⟨inside, by rw [split, List.getElem?_append_left inside, atK]⟩
  have loop : ∃ s₁, altalldequeueLoop s ⟨other.base, 0⟩ (front ++ [last]) = .ok s₁ ∧
      Dequeued s s₁ fun q => q.base = other.base ∧ 0 ≤ q.idx ∧ q.idx < 0 + front.length ∧
        ∃ c dir, q ∈ s.queue c dir := by
    refine altalldequeueLoop_queued parked.queues alternatives isLast ?_ ?_
    · intro k a atK
      simpa [St.alt?] using (atArray k a atK).2
    · intro k a dir' atK dirEq
      obtain ⟨inside, atIndex⟩ := atArray k a atK
      simpa using queued k a dir' (count ▸ inside) atIndex dirEq
  obtain ⟨s₁, done, dequeued⟩ := loop
  refine ⟨s₁, ?_, dequeued.rest, dequeued.core, ?_, dequeued.nodup, dequeued.fits⟩
  · simp only [Libtask.altalldequeue, xalt, List.drop_zero, split]
    exact done
  · intro c' dir' q
    rw [dequeued.member]
    refine and_congr_right fun queuedQ => not_congr ⟨And.left, fun sameBase => ?_⟩
    have inside := parked.altcount_lt queuedQ
    rw [sameBase, count] at inside
    exact ⟨sameBase, Nat.zero_le _, by simpa using inside, c', dir', queuedQ⟩

/-- The first entry of the array tells which alternative was executed. -/
theorem told_of_modify {other : AltPtr} {o : Alt} (otherEq : s.alt? other = some o)
    (isQueued : chanarray o.op ≠ none)
    (alts : s'.alts other.base =
      (s.alts other.base).modify 0 fun first => { first with xalt := other }) :
    Told s' other.base := by
  cases arrayEq : s.alts other.base with
  | nil => simp [St.alt?, arrayEq] at otherEq
  | cons first rest =>
      refine ⟨{ first with xalt := other }, if other.idx = 0 then
        { first with xalt := other } else o, ?_, rfl, ?_, ?_⟩
      · simp [St.alt?, alts, arrayEq]
      · have otherEq' := otherEq
        simp only [St.alt?, arrayEq] at otherEq'
        cases idx : other.idx with
        | zero => simp [St.alt?, alts, arrayEq, idx]
        | succ i => simpa [St.alt?, alts, arrayEq, idx] using otherEq'
      · split
        next first? =>
          have firstEq : first = o := by simpa [St.alt?, arrayEq, first?] using otherEq
          rwa [← firstEq] at isQueued
        next => exact isQueued

/-- Task `t` was woken, and its array is in no queue any more. -/
theorem Parked.leave {t : TaskPtr} {pc : Pc} {base : Nat} (parked : Parked run s)
    (stopped : Stopped run s t pc) (altbase : pc.altbase = some base)
    (still : ∀ pc', Stopped run s' t pc' → Stopped run s t pc') (queues : Queues s')
    (told : Told s' base) (woken : s'.home t ≠ none)
    (same : ∀ u, ¬u = t → SameAt run s run s' u)
    (queue : ∀ c dir q, q ∈ s'.queue c dir ↔ q ∈ s.queue c dir ∧ ¬q.base = base)
    (alts : ∀ a, a ≠ base → s'.alts a = s.alts a) (chans : s'.chans = s.chans) :
    Parked run s' := by
  have old : ∀ u pc', Stopped run s' u pc' → Stopped run s u pc' := by
    intro u pc' stopped'
    by_cases isT : u = t
    · subst isT
      exact still pc' stopped'
    · exact ((same u isT).stopped pc').mp stopped'
  have baseT : ∀ pc' a, Stopped run s t pc' → pc'.altbase = some a → a = base := by
    intro pc' a stopped' base'
    rw [← stopped'.pc, stopped.pc, altbase] at base'
    exact (Option.some.inj base').symm
  -- another task in `chanalt` is in another array
  have otherBase : ∀ u pc' a, u ≠ t → Stopped run s u pc' → pc'.altbase = some a →
      a ≠ base := by
    rintro u pc' a different stopped' base' rfl
    exact different (parked.distinct u t pc' pc _ stopped' stopped base' altbase)
  constructor
  · exact queues
  · intro c dir q member
    rw [chans]
    exact parked.known c dir q ((queue c dir q).mp member).1
  · intro c dir q member
    obtain ⟨queued, different⟩ := (queue c dir q).mp member
    obtain ⟨u, pc', stopped', base', freeU⟩ := parked.owner c dir q queued
    have notT : u ≠ t := by
      rintro rfl
      exact different (baseT pc' _ stopped' base')
    exact ⟨u, pc', ((same u notT).stopped pc').mpr stopped', base',
      (same u notT).home.trans freeU⟩
  · intro u pc' a stopped' base' freeU
    have notT : u ≠ t := by
      rintro rfl
      exact woken freeU
    have different := otherBase u pc' a notT (old u pc' stopped') base'
    have waiting := parked.waiting u pc' a (old u pc' stopped') base'
      ((same u notT).home ▸ freeU)
    exact waiting.congr (alts a different) fun c dir i member =>
      (queue c dir _).mpr ⟨member, different⟩
  · intro u pc' a stopped' base' listed
    by_cases isT : u = t
    · subst isT
      exact baseT pc' a (old u pc' stopped') base' ▸ told
    · have different := otherBase u pc' a isT (old u pc' stopped') base'
      exact (parked.told u pc' a (old u pc' stopped') base'
        ((same u isT).home ▸ listed)).congr (alts a different)
  · intro u v pc' pc'' a stopped' stopped'' base' base''
    exact parked.distinct u v pc' pc'' a (old u pc' stopped') (old v pc'' stopped'')
      base' base''

/-- A partner has dequeued the array of a blocked task; it stores which alternative
it executed, and wakes the task. -/
theorem Inv.wakeAlt (inv : Inv run s) {c : ChanPtr} {dir : Dir} {other : AltPtr} {o : Alt}
    (member : other ∈ s.queue c dir) (otherEq : s.alt? other = some o) {s₁ : St}
    (dequeued : Dequeued s s₁ fun q => q.base = other.base)
    (done : taskready { s₁ with
      alts := update s₁.alts o.xalt.base ((s₁.alts o.xalt.base).modify o.xalt.idx
        fun first => { first with xalt := other }) } o.task = .ok s') : Inv run s' := by
  obtain ⟨channel, dirEq, xalt, ⟨pc, stopped, base⟩, free, waiting⟩ :=
    inv.parked.blocked member otherEq
  obtain ⟨t, tEq⟩ : ∃ t, t = o.task := ⟨_, rfl⟩
  rw [← tEq] at stopped free waiting done
  obtain ⟨chan, rfl⟩ := dequeued.rest
  obtain ⟨lists, -, s'Eq, -, homeEq⟩ := taskready_ok done
  have home' : s'.home t = some .taskrunqueue := by simp [s'Eq, homeEq]
  have table : SameTable s s' := by
    rw [s'Eq]
    exact .of_update rfl rfl rfl rfl rfl
  have pcs : ∀ u, (s'.task u).pc = (s.task u).pc := by
    intro u
    by_cases isT : u = t
    · simp [s'Eq, isT]
    · simp [s'Eq, isT]
  have queue : ∀ c dir q, q ∈ s'.queue c dir ↔ q ∈ s.queue c dir ∧ ¬q.base = other.base := by
    intro c' dir' q
    rw [← dequeued.member c' dir' q]
    simp [s'Eq, St.queue]
  have alts : ∀ a, a ≠ other.base → s'.alts a = s.alts a := by
    intro a different
    simp [s'Eq, xalt, different]
  have same : ∀ u, ¬u = t → SameAt run s run s' u := by
    intro u different
    constructor
    · rw [table.alltask]
    · rfl
    · simp [s'Eq, homeEq, different]
    · simp [s'Eq, different]
    · exact pcs u
  have still : ∀ pc', Stopped run s' t pc' → Stopped run s t pc' := by
    intro pc' stopped'
    exact ⟨stopped.live, stopped.idle, (pcs t).symm.trans stopped'.pc⟩
  have notAlt : ∀ pc', Stopped run s t pc' → pc'.altbase = some other.base := by
    intro pc' stopped'
    rw [← stopped'.pc, stopped.pc, base]
  refine ⟨inv.table.congr table, ?_, ?_, ?_⟩
  · intro u
    by_cases isT : u = t
    · subst isT
      apply Listed.queued stopped.idle (table.alltask ▸ stopped.live) home'
      · simp [s'Eq]
      · rw [pcs, stopped.pc]
        rintro rfl
        cases base
    · exact (same u isT).listed (inv.listed u)
  · refine inv.polled.congr (sameStopped_of_sameAt (· = t) same ?_ ?_)
      (by simp [s'Eq]) (by simp [s'Eq])
    · rintro u pc' rfl rfl stopped'
      cases notAlt _ (still _ stopped')
    · rintro u pc' rfl rfl stopped'
      cases notAlt _ stopped'
  · refine inv.parked.leave stopped base still ?_ ?_ ?_ same queue alts (by simp [s'Eq])
    · refine ⟨?_, ?_, ?_⟩
      · intro c' dir' q memberQ
        obtain ⟨queued, different⟩ := (queue c' dir' q).mp memberQ
        rw [St.alt?, alts _ different]
        exact inv.parked.queues.entry c' dir' q queued
      · intro c' dir'
        simpa [s'Eq, St.queue] using dequeued.nodup c' dir'
      · intro c' dir'
        simpa [s'Eq] using dequeued.fits c' dir'
    · refine told_of_modify otherEq (by simp [dirEq]) ?_
      simp [s'Eq, xalt]
    · rw [home']
      exact Option.some_ne_none _

end Libtask
