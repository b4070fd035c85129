import Libtask.Preserved

/-!
# Stops that are never reached

While the global invariant holds, no library function links a task that is already
in a list, reads behind a table or an alt array, or runs into one of the aborts of
`altdequeue` and `altcopy`.
-/

namespace Libtask

open Function (update update_self update_of_ne)
open Outcome (bind_eq_ok Avoids)

/-- The stops that would mean a corrupted list, table or queue. -/
def Halt.corrupt : Halt → Prop
  | .fault .tasklist | .fault .alltaskRange | .fault .wildAlt => True
  | .fault .pollRange | .fault .fuel => True
  | .abort (.altdequeueOp _) | .abort .altdequeueSelf | .abort .altcopyAssert => True
  | _ => False

/-- These, and the stops of `altcopy` that would be about the buffer of a channel of
some kind. -/
def Halt.wrong (sound : ChanPtr → Prop) : Halt → Prop
  | .fault (.nbufUnderflow c) | .fault (.divByZero c) | .fault (.bufRange c) => sound c
  | why => why.corrupt

theorem wrong_of_corrupt {sound : ChanPtr → Prop} {why : Halt} (corrupt : why.corrupt) :
    why.wrong sound := by
  unfold Halt.wrong
  split
  · exact corrupt.elim
  · exact corrupt.elim
  · exact corrupt.elim
  · exact corrupt

abbrev Safe (sound : ChanPtr → Prop) {α : Type} (x : Except Halt α) : Prop :=
  Avoids (Halt.wrong sound) x

/-- Whoever executes an alternative of such a channel that can proceed stays inside the
buffer. -/
def CopySafe (sound : ChanPtr → Prop) (s : St) : Prop :=
  ∀ alts self p a partner, sound a.c → altcanexec s a = true → PartnerOf s a partner →
    (∀ o, partner = some o → chanarray o.2.op = chanarray (otherop a.op)) →
    Safe sound (altcopy { s with alts } self (p, a) partner)

variable {run : Option TaskPtr} {s s' : St} {self : TaskPtr} {sound : ChanPtr → Prop}
variable {bad : Halt → Prop}

/-! ## Lists -/

theorem addtask_safe {l : ListId} {t : TaskPtr} (free : s.home t = none) :
    Avoids bad (addtask s l t) := by
  obtain ⟨s₁, added⟩ := addtask_free s l t free
  exact .of_ok added

theorem taskready_safe {t : TaskPtr} (free : s.home t = none) : Avoids bad (taskready s t) :=
  addtask_safe free

theorem deltask_head_safe {l : ListId} {t : TaskPtr} (isHead : (s.seq l).head? = some t) :
    Avoids bad (deltask s l t) := by
  obtain ⟨s₁, removed⟩ := deltask_held s l t
    ((mem_seq_iff s t l).mp (List.mem_of_mem_head? isHead))
  exact .of_ok removed

theorem deltask_freed {l : ListId} {t : TaskPtr} (removed : deltask s l t = .ok s') :
    s'.home t = none := by
  obtain ⟨lists, rfl, -, -, homeEq⟩ := deltask_ok removed
  simp [homeEq]

theorem deltask_length {l : ListId} {t : TaskPtr} (removed : deltask s l t = .ok s') :
    (s'.seq l).length + 1 = (s.seq l).length := by
  obtain ⟨lists, rfl, held, seqEq, -⟩ := deltask_ok removed
  have member := (mem_seq_iff s t l).mpr held
  have positive := List.length_pos_of_mem member
  simp only [St.seq, seqEq, update_self] at member positive ⊢
  rw [List.length_erase_of_mem member]
  omega

theorem taskready_length {l : ListId} {t : TaskPtr} (readied : taskready s t = .ok s')
    (notRun : l ≠ .taskrunqueue) : s'.seq l = s.seq l := by
  obtain ⟨lists, -, rfl, seqEq, -⟩ := taskready_ok readied
  simp [seqEq, notRun]

/-! ## Locks and condition variables -/

theorem qlockImpl_safe {l : QLockPtr} {block : Bool} {pc : Pc} (free : s.home self = none) :
    Safe sound (qlockImpl s self l block pc) := by
  unfold qlockImpl
  split
  · exact .ok _
  · split
    · exact (addtask_safe free).bind fun _ _ => .ok _
    · exact .ok _

theorem qlockResume_safe {l : QLockPtr} : Safe sound (qlockResume s self l) := by
  unfold qlockResume
  split
  · exact .ok _
  · exact .error id

theorem qunlock_safe {l : QLockPtr} : Safe sound (qunlock s self l) := by
  unfold qunlock
  split
  · exact .error id
  · simp only [head_eq]
    split
    · exact .ok _
    next t headEq =>
      refine (deltask_head_safe (by simpa [St.setOwner, St.log] using headEq)).bind ?_
      exact fun s₁ removed => taskready_safe (deltask_freed removed)

theorem rlockImpl_safe {l : RWLockPtr} {block : Bool} (free : s.home self = none) :
    Safe sound (rlockImpl s self l block) := by
  simp only [rlockImpl]
  split
  · exact .ok _
  · split
    · exact (addtask_safe free).bind fun _ _ => .ok _
    · exact .ok _

theorem wlockImpl_safe {l : RWLockPtr} {block : Bool} (free : s.home self = none) :
    Safe sound (wlockImpl s self l block) := by
  simp only [wlockImpl]
  split
  · exact .ok _
  · split
    · exact (addtask_safe free).bind fun _ _ => .ok _
    · exact .ok _

theorem handToWriter_safe {l : RWLockPtr} : Safe sound (handToWriter s l) := by
  unfold handToWriter
  split
  · simp only [head_eq]
    split
    next t headEq =>
      refine (deltask_head_safe headEq).bind fun s₁ removed => ?_
      have freed := deltask_freed removed
      refine Avoids.bind (taskready_safe ?_) fun _ _ => .ok _
      exact freed
    · exact .ok _
  · exact .ok _

theorem runlock_safe {l : RWLockPtr} : Safe sound (runlock s self l) :=
  handToWriter_safe.bind fun _ _ => .ok _

theorem admitReaders_safe {l : RWLockPtr} {fuel : Nat}
    (enough : (s.seq (.rwaiting l)).length ≤ fuel) : Safe sound (admitReaders l fuel s) := by
  induction fuel generalizing s with
  | zero =>
      have empty : s.seq (.rwaiting l) = [] := List.length_eq_zero_iff.mp (by omega)
      unfold admitReaders
      simp only [head_eq, empty, List.head?_nil]
      exact .ok _
  | succ fuel ih =>
      unfold admitReaders
      simp only [head_eq]
      split
      · exact .ok _
      next t headEq =>
        refine (deltask_head_safe headEq).bind fun s₁ removed => ?_
        have freed := deltask_freed removed
        refine Avoids.bind (taskready_safe ?_) fun s₂ readied => ?_
        · exact freed
        have shorter := deltask_length removed
        have same := taskready_length (l := .rwaiting l) readied (by simp)
        replace same : s₂.seq (.rwaiting l) = s₁.seq (.rwaiting l) := same
        exact (ih (by rw [same]; omega)).bind fun _ _ => .ok _

theorem wunlock_safe {l : RWLockPtr} : Safe sound (wunlock s self l) := by
  unfold wunlock
  split
  · exact .error id
  · simp only
    split
    · exact .error id
    · exact (admitReaders_safe (Nat.le_refl _)).bind fun _ _ =>
        handToWriter_safe.bind fun _ _ => .ok _

theorem tasksleep_safe {r : RendezPtr} (free : s.home self = none) :
    Safe sound (tasksleep s self r) := by
  refine (addtask_safe free).bind fun s₁ _ => ?_
  simp only
  split
  · exact qunlock_safe.bind fun _ _ => .ok _
  · exact .ok _

theorem tasksleepResume_safe {r : RendezPtr} (free : s.home self = none) :
    Safe sound (tasksleepResume s self r) := by
  unfold tasksleepResume
  split
  · refine (qlockImpl_safe free).bind ?_
    rintro ⟨s₁, flow⟩ -
    cases flow <;> exact .ok _
  · exact .ok _

theorem wakeLoop_safe {r : RendezPtr} {all : Bool} {fuel i : Nat}
    (enough : (s.seq (.waiting r)).length ≤ fuel) : Avoids bad (wakeLoop r all fuel i s) := by
  induction fuel generalizing s i with
  | zero =>
      have empty : s.seq (.waiting r) = [] := List.length_eq_zero_iff.mp (by omega)
      unfold wakeLoop
      simp only [head_eq, empty, List.head?_nil]
      split <;> exact .ok _
  | succ fuel ih =>
      unfold wakeLoop
      simp only [head_eq]
      split
      · exact .ok _
      · split
        · exact .ok _
        next t headEq =>
          refine (deltask_head_safe headEq).bind fun s₁ removed => ?_
          refine (taskready_safe (deltask_freed removed)).bind fun s₂ readied => ?_
          have shorter := deltask_length removed
          have same := taskready_length (l := .waiting r) readied (by simp)
          exact (ih (by rw [same]; omega)).bind fun _ _ => .ok _

theorem taskwakeupImpl_safe {r : RendezPtr} {all : Bool} :
    Avoids bad (taskwakeupImpl s r all) :=
  (wakeLoop_safe (Nat.le_refl _)).bind fun _ _ => .ok _

/-! ## Tasks -/

theorem freshTask_home {t : TaskPtr} (inv : Inv run s) (fresh : t ∉ s.alltask) :
    s.home t = none := by
  cases homeEq : s.home t with
  | none => rfl
  | some l => exact absurd ((inv.listed t).live l homeEq) fresh

theorem taskcreate_safe {m : Alloc} {pc : Pc} (inv : Inv run s)
    (fresh : freshTask s m = true) : Safe sound (taskcreate s m pc) := by
  obtain ⟨malloc, realloc⟩ := m
  cases malloc with
  | none => exact .error id
  | some t₀ =>
      have free : s.lists.home t₀ = none :=
        freshTask_home inv (by simpa [freshTask] using fresh)
      have room := inv.table.create_room
      simp only [taskcreate, taskalloc, Dlist.Dlists.clear?, dif_pos free]
      refine Avoids.bind (.ok _) ?_
      rintro ⟨s₁, t₁⟩ allocated
      obtain ⟨rfl, rfl⟩ := Prod.mk.inj (Except.ok.inj allocated)
      simp only [room, if_true]
      refine Avoids.ite (.error id) (Avoids.bind (taskready_safe ?_) fun _ _ => .ok _)
      exact free

theorem startfdtask_safe {m : Alloc} (inv : Inv run s)
    (fresh : freshTask s m = true) : Safe sound (startfdtask s m) := by
  unfold startfdtask
  split
  · exact .ok _
  · have started : Inv run { s with startedfdtask := true } :=
      inv.frame rfl rfl ⟨⟨rfl, rfl, fun _ => rfl, fun _ => rfl⟩, rfl, rfl⟩
        ⟨rfl, rfl, rfl, rfl, rfl⟩
    exact (taskcreate_safe started fresh).bind fun _ _ => .ok _

/-- `delayPosition` finds the first task of the list whose alarm is not before `due`. -/
theorem delayPosition_eq {due fuel : Nat} (left right : List TaskPtr)
    (split : s.seq .sleeping = left ++ right) (enough : right.length ≤ fuel) :
    delayPosition s due fuel right.head? =
      (right.dropWhile fun u => (s.task u).alarmtime < due).head? := by
  induction right generalizing left fuel with
  | nil => cases fuel <;> rfl
  | cons u rest ih =>
      obtain ⟨fuel, rfl⟩ := Nat.exists_eq_add_one_of_ne_zero (Nat.ne_of_gt
        (Nat.lt_of_lt_of_le (Nat.succ_pos rest.length) enough))
      have linked := s.lists.linked .sleeping
      rw [show s.lists.seq .sleeping = left ++ u :: rest from split] at linked
      have nextEq := (Dlist.Links.Linked.neighbours linked).2
      simp only [List.head?_cons, delayPosition]
      by_cases earlier : (s.task u).alarmtime < due
      · rw [if_pos earlier, nextEq, ih (left ++ [u]) (by simp [split]) (by simpa using enough)]
        simp [earlier]
      · simp [earlier]

theorem taskdelay_safe {ms now : Nat} {m : Alloc} (inv : Inv (some self) s)
    (fresh : freshTask s m = true) : Safe sound (taskdelay s self ms now m) := by
  refine (startfdtask_safe inv fresh).bind fun s₁ started => ?_
  have inv₁ := startfdtask_inv inv fresh started
  obtain ⟨position, positionEq⟩ : ∃ position, position = delayPosition s₁
      ((now + ms * 1000000) % 2 ^ 64) (s₁.seq .sleeping).length (head s₁ .sleeping) := ⟨_, rfl⟩
  have known : ∀ u, position = some u → u ∈ s₁.seq .sleeping := by
    rintro u rfl
    rw [head_eq, delayPosition_eq [] _ rfl (Nat.le_refl _)] at positionEq
    exact (List.dropWhile_sublist _).subset (List.mem_of_head? positionEq.symm)
  have inserts : ∃ lists, s₁.lists.insert? .sleeping self position = some lists :=
    ⟨_, dif_pos ⟨inv₁.free, known⟩⟩
  obtain ⟨lists, inserted⟩ := inserts
  simp only [← positionEq, inserted]
  exact .ok _

theorem fdwait_safe {fd : Int} {rw : Char} {m : Alloc} (inv : Inv (some self) s)
    (fresh : freshTask s m = true) : Safe sound (fdwait s self fd rw m) := by
  refine (startfdtask_safe inv fresh).bind fun s₁ _ => ?_
  simp only
  split
  · exact .error id
  · exact .ok _

theorem fdtaskYield_safe (free : s.home self = none) : Safe sound (fdtaskYield s self) :=
  ((taskready_safe free).bind fun _ _ => .ok _).bind fun _ _ => .ok _

theorem pollwakeWhile_safe {i fuel : Nat} (inv : Inv run s) (enough : s.npollfd ≤ fuel) :
    Safe sound (pollwakeWhile i fuel s) := by
  induction fuel generalizing s with
  | zero =>
      unfold pollwakeWhile
      split
      next going => omega
      next => exact .ok _
  | succ fuel ih =>
      unfold pollwakeWhile
      split
      next going =>
        have room := inv.polled.room
        simp only [Nat.not_lt.mpr room, if_false]
        obtain ⟨-, free⟩ := inv.polled.owner i going.1
        refine (taskready_safe free).bind fun s₁ readied => ?_
        have same : s₁.npollfd = s.npollfd :=
          (taskready_keepsTasks readied).sameTables.npollfd
        refine ih (inv.wakePoll going.1 readied) ?_
        simp only [same]
        omega
      next => exact .ok _

theorem pollwakeWhile_inv {i fuel : Nat} (inv : Inv run s)
    (done : pollwakeWhile i fuel s = .ok s') :
    Inv run s' ∧ s'.npollfd ≤ s.npollfd := by
  refine pollwakeWhile_induction
    (motive := fun s₁ => Inv run s₁ ∧ s₁.npollfd ≤ s.npollfd) ?_ ⟨inv, Nat.le_refl _⟩ done
  rintro s₁ s₂ ⟨inv₁, fewer⟩ inside _ readied
  have same : s₂.npollfd = s₁.npollfd := (taskready_keepsTasks readied).sameTables.npollfd
  refine ⟨inv₁.wakePoll inside readied, ?_⟩
  simp only [same]
  omega

theorem pollwake_safe {i fuel : Nat} (inv : Inv run s) (enough : s.npollfd ≤ fuel + i) :
    Safe sound (pollwake fuel i s) := by
  induction fuel generalizing s i with
  | zero =>
      unfold pollwake
      split
      next going => omega
      next => exact .ok _
  | succ fuel ih =>
      unfold pollwake
      split
      next =>
        refine (pollwakeWhile_safe inv (Nat.le_refl _)).bind fun s₁ inner => ?_
        obtain ⟨inv₁, fewer⟩ := pollwakeWhile_inv inv inner
        exact ih inv₁ (by omega)
      next => exact .ok _

theorem alarmwake_safe {now fuel : Nat} (enough : (s.seq .sleeping).length ≤ fuel) :
    Safe sound (alarmwake now fuel s) := by
  induction fuel generalizing s with
  | zero =>
      have empty : s.seq .sleeping = [] := List.length_eq_zero_iff.mp (by omega)
      unfold alarmwake
      simp only [head_eq, empty, List.head?_nil]
      exact .ok _
  | succ fuel ih =>
      unfold alarmwake
      simp only [head_eq]
      split
      · exact .ok _
      next t headEq =>
        split
        · refine (deltask_head_safe headEq).bind fun s₁ removed => ?_
          have counted : (countWaking s₁ t).lists = s₁.lists := by
            unfold countWaking
            split <;> rfl
          have freed : (countWaking s₁ t).home t = none := by
            have := deltask_freed removed
            simpa only [St.home, counted] using this
          refine Avoids.bind (taskready_safe freed) fun s₂ readied => ?_
          have shorter := deltask_length removed
          have readied' : taskready (countWaking s₁ t) t = .ok s₂ := readied
          have same := taskready_length (l := .sleeping) readied' (by simp)
          simp only [St.seq, counted] at same
          have fewer : (s₂.seq .sleeping).length ≤ fuel := by
            simp only [St.seq, same] at shorter enough ⊢
            omega
          exact (ih fewer).bind fun _ _ => .ok _
        · exact .ok _

theorem fdtaskPass_safe {n : BitVec 32} {env : Env} (inv : Inv (some self) s) :
    Safe sound (fdtaskPass s self n env) := by
  unfold fdtaskPass
  split
  · exact fdtaskYield_safe inv.free
  · simp only
    split
    · exact fdtaskYield_safe inv.free
    · exact .error id
    next revents _ =>
      have stored : Inv (some self) { s.log (.poll (polltimeout s env.now) s.npollfd) with
          pollfd := fun i =>
            if i < s.npollfd then { s.pollfd i with revents := revents i }
            else s.pollfd i } :=
        (inv.log (.poll (polltimeout s env.now) s.npollfd)).frame rfl rfl
          ⟨⟨rfl, rfl, fun _ => rfl, fun _ => rfl⟩, rfl, rfl⟩ ⟨rfl, rfl, rfl, rfl, rfl⟩
      refine (pollwake_safe stored (Nat.le_refl _)).bind fun s₁ polled => ?_
      have inv₁ := pollwake_inv stored polled
      refine (alarmwake_safe (Nat.le_refl _)).bind ?_
      rintro ⟨s₂, woken⟩ alarmed
      exact fdtaskYield_safe (alarmwake_inv inv₁ alarmed).free

/-! ## Channels -/

theorem altcanexec_op {a : Alt} (can : altcanexec s a = true) :
    a.op = .chansnd ∨ a.op = .chanrcv := by
  unfold altcanexec at can
  cases opEq : a.op <;> simp_all [otherop, chanarray]

theorem CopySafe.writeArray (copySafe : CopySafe sound s) (alts : Nat → List Alt) :
    CopySafe sound { s with alts } := by
  intro alts' self p a partner isSound can isPartner agrees
  exact copySafe alts' self p a partner isSound can ⟨isPartner.queued, isPartner.nobody⟩ agrees

/-- `altcopy` stops for nothing but the buffer of its own channel. -/
theorem altcopyRecv_safe {c : ChanPtr} {r : AltRef} (other : ¬sound c) :
    Safe sound (altcopyRecv s self c r) := by
  simp only [altcopyRecv]
  split
  · exact .error other
  · split
    · exact .error other
    · exact .ok _

theorem altcopySend_safe {c : ChanPtr} {x : AltRef} (other : ¬sound c) :
    Safe sound (altcopySend s self c x) := by
  simp only [altcopySend]
  split
  · exact .error other
  · split
    · exact .error other
    · exact .ok _

theorem altcopyMove_safe {c : ChanPtr} {x r : Option AltRef} (other : ¬sound c) :
    Safe sound (altcopyMove s self c x r) := by
  cases x with
  | none =>
      cases r with
      | none => exact .ok _
      | some r => exact altcopyRecv_safe other
  | some x =>
      cases r with
      | none => exact altcopySend_safe other
      | some r =>
          simp only [altcopyMove]
          split
          · exact .ok _
          · exact (altcopyRecv_safe other).bind fun _ _ => altcopySend_safe other

/-- The assertions of `altcopy` hold. -/
theorem altcopy_eq (s : St) (self : TaskPtr) {x : AltRef} {partner : Option AltRef}
    (isOp : x.2.op = .chansnd ∨ x.2.op = .chanrcv)
    (agrees : ∀ o, partner = some o → chanarray o.2.op = chanarray (otherop x.2.op)) :
    (x.2.op = .chansnd ∧
      altcopy s self x partner = altcopyMove s self x.2.c (some x) partner) ∨
    (x.2.op = .chanrcv ∧
      altcopy s self x partner = altcopyMove s self x.2.c partner (some x)) := by
  rcases isOp with isSnd | isRcv
  · have partnerOp : (partner.all fun r => decide (r.2.op = .chanrcv)) = true := by
      cases partner with
      | none => rfl
      | some o =>
          have := agrees o rfl
          rw [isSnd] at this
          cases opEq : o.2.op <;> simp_all [chanarray, otherop]
    exact Or.inl ⟨isSnd, by simp [altcopy, isSnd, partnerOp]⟩
  · have partnerOp : (partner.all fun r => decide (r.2.op = .chansnd)) = true := by
      cases partner with
      | none => rfl
      | some o =>
          have := agrees o rfl
          rw [isRcv] at this
          cases opEq : o.2.op <;> simp_all [chanarray, otherop]
    exact Or.inr ⟨isRcv, by simp [altcopy, isRcv, partnerOp]⟩

theorem altcopy_safe {x : AltRef} {partner : Option AltRef} (other : ¬sound x.2.c)
    (isOp : x.2.op = .chansnd ∨ x.2.op = .chanrcv)
    (agrees : ∀ o, partner = some o → chanarray o.2.op = chanarray (otherop x.2.op)) :
    Safe sound (altcopy s self x partner) := by
  rcases altcopy_eq s self isOp agrees with ⟨-, moves⟩ | ⟨-, moves⟩
  · rw [moves]
    exact altcopyMove_safe other
  · rw [moves]
    exact altcopyMove_safe other

/-- `altexec` of an alternative that can proceed stops only where `altcopy` does. -/
theorem altexec_avoids {p : AltPtr} {a : Alt} {rand : Nat} (inv : Inv run s)
    (altEq : s.alt? p = some a)
    (copy : ∀ partner, PartnerOf s a partner →
      (∀ o, partner = some o → chanarray o.2.op = chanarray (otherop a.op)) →
      Avoids bad (altcopy s self (p, a) partner)) :
    Avoids bad (altexec s self p rand) := by
  simp only [altexec, altEq]
  split
  next nobody => exact copy none (partnerOf_none nobody) (by simp)
  next other picked =>
    obtain ⟨dir, dirEq, member⟩ := altpick_eq_some picked
    obtain ⟨o, otherEq, -, otherDir⟩ := inv.parked.queues.entry a.c dir other member
    simp only [otherEq]
    have agrees : ∀ o', some (other, o) = some o' →
        chanarray o'.2.op = chanarray (otherop a.op) := by
      intro o' isOther
      obtain rfl := Option.some.inj isOther
      rw [dirEq, otherDir]
    refine (copy _ (partnerOf_some picked o) agrees).bind fun s₁ copied => ?_
    have copy := altcopy_copied copied
    have inv₁ := inv.copied copy
    have member₁ : other ∈ s₁.queue a.c dir := by
      simpa only [St.queue, copy.queue] using member
    have otherEq₁ : s₁.alt? other = some o := by
      obtain ⟨mem, chan, trace, rfl⟩ := copy.rest
      exact otherEq
    obtain ⟨s₂, dequeued, removed⟩ := inv₁.parked.altalldequeue member₁ otherEq₁
    obtain ⟨-, -, xalt, -, free, -⟩ := inv₁.parked.blocked member₁ otherEq₁
    refine (Avoids.of_ok dequeued).bind fun s₃ dequeued' => ?_
    rw [dequeued] at dequeued'
    obtain rfl := Except.ok.inj dequeued'
    obtain ⟨chan, rfl⟩ := removed.rest
    have inside : o.xalt.idx < (s₁.alts o.xalt.base).length := by
      have positive : 0 < (s₁.alts other.base).length := by
        simp only [St.alt?] at otherEq₁
        obtain ⟨inside, -⟩ := List.getElem?_eq_some_iff.mp otherEq₁
        omega
      simpa [xalt] using positive
    simp only [setAlt, inside, if_true]
    refine (Avoids.ok _).bind fun s₃ assigned => ?_
    obtain rfl := Except.ok.inj assigned
    exact taskready_safe free

theorem altqueueLoop_safe {base : Nat} {alts : List Alt} (queues : Queues s)
    (alternatives : ∀ a ∈ alts, a.op.isAlternative = true)
    (fresh : ∀ c dir q, q ∈ s.queue c dir → q.base ≠ base) :
    Avoids bad (altqueueLoop s ⟨base, 0⟩ alts) := by
  obtain ⟨s₁, looped, -⟩ := altqueueLoop_fresh (i := 0) queues.nodup queues.fits alternatives
    (fun c dir q member sameBase => absurd sameBase (fresh c dir q member))
  exact .of_ok looped

/-- `chanalt` stops only where the `altcopy` of an alternative that can proceed does. -/
theorem chanalt_avoids {base rand1 rand2 : Nat} {pc : Pc} (inv : Inv (some self) s)
    (isFree : ArrayFree (some self) s base) (isTerminated : terminated (s.alts base) = true)
    (copy : ∀ p a partner, a ∈ entered s self base →
      altcanexec (enter s self base) a = true → PartnerOf (enter s self base) a partner →
      (∀ o, partner = some o → chanarray o.2.op = chanarray (otherop a.op)) →
      Avoids bad (altcopy (enter s self base) self (p, a) partner)) :
    Avoids bad (chanalt s self base rand1 rand2 pc) := by
  obtain ⟨last, array, alternatives, -, terminatorEq, -⟩ :=
    enter_array self isTerminated
  have entering : Inv (some self) (enter s self base) := inv.writeArray isFree
  obtain ⟨lastAlt, lastEq, -⟩ := Option.map_eq_some_iff.mp terminatorEq
  simp only [chanalt, lastEq]
  split
  next i picked =>
    replace picked : (if canCount s self base ≠ 0 then chanpick (enter s self base)
      (entered s self base) 0 (rand1 % canCount s self base) else none) = some i := picked
    obtain ⟨some?, picked⟩ := Option.ite_none_right_eq_some.mp picked
    obtain ⟨k, a, atK, can, picked'⟩ := chanpick_lt (s := enter s self base) (i := 0)
      (Nat.mod_lt rand1 (Nat.pos_of_ne_zero some?))
    obtain rfl : 0 + k = i := Option.some.inj (picked'.symm.trans picked)
    have altEq : (enter s self base).alt? ⟨base, 0 + k⟩ = some a := by
      simp only [St.alt?, array, Nat.zero_add]
      rw [List.getElem?_append_left (List.getElem?_eq_some_iff.mp atK).1, atK]
    refine (altexec_avoids entering altEq fun partner => ?_).bind fun _ _ => .ok _
    exact copy _ a partner (List.mem_of_getElem? atK) can
  next =>
    split
    · exact .ok _
    · have isFree' : ArrayFree (some self) (enter s self base) base :=
        fun t pc stopped => isFree t pc ⟨stopped.live, stopped.idle, stopped.pc⟩
      exact (altqueueLoop_safe entering.parked.queues (fun a member => (alternatives a member).1)
        fun c dir q member => entering.parked.not_queued isFree' member).bind fun _ _ => .ok _

theorem chanalt_safe {base rand1 rand2 : Nat} {pc : Pc} (inv : Inv (some self) s)
    (isFree : ArrayFree (some self) s base) (isTerminated : terminated (s.alts base) = true)
    (copySafe : CopySafe sound s) : Safe sound (chanalt s self base rand1 rand2 pc) := by
  refine chanalt_avoids inv isFree isTerminated fun p a partner _ can isPartner agrees => ?_
  by_cases isSound : sound a.c
  · have copySafe' : CopySafe sound (enter s self base) := copySafe.writeArray _
    exact copySafe' _ self p a partner isSound can isPartner agrees
  · exact altcopy_safe isSound (altcanexec_op can) agrees

theorem chanaltResume_safe {base : Nat} (told : Told s base) :
    Safe sound (chanaltResume s self base) := by
  obtain ⟨first, alt, firstEq, sameBase, -⟩ := told
  simp only [chanaltResume, firstEq, sameBase, if_true]
  exact .ok _

/-! ## Steps -/

theorem returning_safe {r : Option Int} {x : Except Halt St} (safe : Safe sound x) :
    Safe sound (returning r x) :=
  safe.bind fun _ _ => .ok _

theorem call_safe {c : Call} (inv : Inv (some self) s) (isLegal : legal s c = true)
    (copySafe : CopySafe sound s) : Safe sound (call s self c) := by
  cases c with
  | taskcreate m => exact (taskcreate_safe inv isLegal).bind fun _ _ => .ok _
  | tasksystem => exact .ok _
  | taskyield =>
      exact ((taskready_safe inv.free).bind fun _ _ => .ok _).bind fun _ _ => .ok _
  | taskexit val => exact .ok _
  | taskreturn => exact .ok _
  | taskexitall val => exact .error id
  | anyready => exact .ok _
  | taskdelay ms now m =>
      simp only [legal, Bool.and_eq_true] at isLegal
      exact taskdelay_safe inv isLegal.2
  | fdwait fd rw m => exact fdwait_safe inv isLegal
  | qlock l => exact (qlockImpl_safe inv.free).bind fun _ _ => .ok _
  | canqlock l => exact qlockImpl_safe inv.free
  | qunlock l => exact returning_safe qunlock_safe
  | rlock l => exact (rlockImpl_safe inv.free).bind fun _ _ => .ok _
  | canrlock l => exact rlockImpl_safe inv.free
  | runlock l => exact returning_safe runlock_safe
  | wlock l => exact (wlockImpl_safe inv.free).bind fun _ _ => .ok _
  | canwlock l => exact wlockImpl_safe inv.free
  | wunlock l => exact returning_safe wunlock_safe
  | tasksleep r => exact tasksleep_safe inv.free
  | taskwakeup r => exact taskwakeupImpl_safe
  | taskwakeupall r => exact taskwakeupImpl_safe
  | chancreate c elemsize bufsize junk =>
      refine returning_safe ?_
      cases c with
      | none => exact .error id
      | some c => exact .ok _
  | chanalt a alts rand1 rand2 =>
      simp only [legal, Bool.and_eq_true] at isLegal
      obtain ⟨⟨isFree, isTerminated⟩, -⟩ := isLegal
      have isFree := arrayFree_of_altfree (some self) isFree
      refine chanalt_safe (inv.writeArray isFree) ?_ (by simpa using isTerminated)
        (copySafe.writeArray _)
      exact fun t pc stopped => isFree t pc ⟨stopped.live, stopped.idle, stopped.pc⟩
  | chanop c op v canblock a rand1 rand2 =>
      simp only [legal, Bool.and_eq_true, decide_eq_true_eq] at isLegal
      obtain ⟨⟨isFree, -⟩, isOp⟩ := isLegal
      have isFree := arrayFree_of_altfree (some self) isFree
      refine Avoids.bind (chanalt_safe (inv.writeArray isFree) ?_ ?_ (copySafe.writeArray _)) ?_
      · exact fun t pc stopped => isFree t pc ⟨stopped.live, stopped.idle, stopped.pc⟩
      · simp only [update_self]
        rcases isOp with rfl | rfl <;> cases canblock <;> rfl
      · rintro ⟨s₁, flow⟩ -
        cases flow <;> exact .ok _
  | store p bytes => exact .ok _

theorem resume_safe {pc : Pc} {env : Env} (inv : Inv (some self) s)
    (told : ∀ a, pc.altbase = some a → Told s a) : Safe sound (resume s self env pc) := by
  cases pc with
  | qlock l => exact returning_safe qlockResume_safe
  | tasksleep r => exact tasksleepResume_safe inv.free
  | tasksleepQlock r l => exact qlockResume_safe.bind fun _ _ => .ok _
  | chanalt a => exact (chanaltResume_safe (told a rfl)).bind fun _ _ => .ok _
  | chanop a => exact (chanaltResume_safe (told a rfl)).bind fun _ _ => .ok _
  | fdtask => exact fdtaskYield_safe (tasksystem_inv inv).free
  | fdtaskYield n => exact fdtaskPass_safe inv
  | _ => exact .ok _

theorem taskscheduler_safe : Safe sound (taskscheduler s) := by
  unfold taskscheduler
  split
  · exact .error id
  · simp only [head_eq]
    split
    · exact .error id
    next t headEq => exact (deltask_head_safe headEq).bind fun _ _ => .ok _

theorem taskreap_safe {t : TaskPtr} (inside : (s.task t).alltaskslot < s.alltask.length) :
    Safe sound (taskreap s t) := by
  unfold taskreap
  cases (s.task t).system
  all_goals
    simp only [if_true, Bool.false_eq_true, if_false]
    split
    next noLast =>
      rw [List.getLast?_eq_none_iff.mp noLast] at inside
      simp at inside
    next last _ =>
      simp only [inside, if_true]
      exact .ok _

theorem finish_safe {flow : Flow} (slot : (s.task self).exiting = true →
    (s.task self).alltaskslot < s.alltask.length) : Safe sound (finish self (s, flow)) := by
  cases flow with
  | ret r => exact .ok _
  | switch pc =>
      simp only [finish, taskschedulerBack]
      split
      next exiting =>
        refine taskreap_safe ?_
        simpa [St.setTask] using slot (by simpa [St.setTask] using exiting)
      next => exact .ok _

/-- The slot of a live task is in the table. -/
theorem Inv.slot_lt (inv : Inv run s) (live : self ∈ s.alltask) :
    (s.task self).alltaskslot < s.alltask.length := by
  obtain ⟨i, inside, atSlot⟩ := List.getElem_of_mem live
  rw [inv.table.slot i self (by simp [inside, atSlot])]
  exact inside

/-- Where a task was dispatched from, its array tells the result of `chanalt`. -/
theorem dispatch_told {t : TaskPtr} (inv : Inv none s)
    (done : taskscheduler s = .ok (s', t)) (a : Nat)
    (base : (s'.task t).pc.altbase = some a) : Told s' a := by
  obtain ⟨-, -, lists, rfl, held, -⟩ := taskscheduler_ok done
  simp only [update_self] at base
  exact inv.parked.told t _ a (stopped_away ((inv.listed t).live _ held) rfl) base (by simp [held])

theorem After.staying {flow : Flow} (after : After self s flow) :
    (s.task self).exiting = false := by
  cases flow with
  | ret r => exact after.table.staying self after.live
  | switch pc =>
      have staying := after.2.table.staying self after.1
      simpa [St.setTask] using staying

/-- No step out of a state that satisfies the invariant ends in a corrupt stop. -/
theorem step_safe {a : Act} (inv : Inv s.taskrunning s) (isEnabled : enabled s a)
    (copySafe : CopySafe sound s) : Safe sound (step s a) := by
  cases a with
  | dispatch env =>
      rw [isEnabled.1] at inv
      refine taskscheduler_safe.bind ?_
      rintro ⟨s₁, t⟩ scheduled
      have inv₁ := inv.dispatch scheduled
      refine (resume_safe inv₁ (dispatch_told inv scheduled)).bind ?_
      rintro ⟨s₂, flow⟩ resumed
      have after := resume_after inv₁ (dispatch_going inv scheduled) resumed
      refine finish_safe fun exiting => ?_
      rw [after.staying] at exiting
      cases exiting
  | call c =>
      obtain ⟨self, running⟩ := Option.isSome_iff_exists.mp isEnabled.1
      rw [running] at inv
      simp only [step, running]
      refine (call_safe inv isEnabled.2 copySafe).bind ?_
      rintro ⟨s₁, flow⟩ called
      refine finish_safe fun exiting => ?_
      cases exits : c.exits with
      | none =>
          rw [(call_after inv isEnabled.2 exits called).staying] at exiting
          cases exiting
      | some val =>
          obtain ⟨rfl, -⟩ := call_exits exits called
          simpa [taskexit, St.setTask, St.log] using inv.slot_lt inv.live

theorem step_not_corrupt {a : Act} (inv : Inv s.taskrunning s) (isEnabled : enabled s a) :
    Avoids Halt.corrupt (step s a) := by
  have safe : Safe (fun _ => False) (step s a) :=
    step_safe inv isEnabled fun _ _ _ _ _ isSound => isSound.elim
  exact fun why stopped corrupt => safe why stopped (wrong_of_corrupt corrupt)

end Libtask
