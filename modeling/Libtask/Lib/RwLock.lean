import Libtask.Lib.Replay
import Mathlib.Data.List.Nodup

/-!
# A reader-writer lock with batch admission of readers

The lock as a machine over its events.  New readers wait while a writer holds the
lock or waits for it.  The last reader to leave hands the lock to the first waiting
writer.  A leaving writer admits all waiting readers as one batch, or else hands
the lock to the next writer.

The state carries its invariant: a writer excludes readers, and nobody waits for a
lock that is free.
-/

namespace RwLock

variable {τ : Type} [DecidableEq τ]

inductive RwEvent (τ : Type) where
  | readGrant (t : τ)
  | readBlock (t : τ)
  | writeGrant (t : τ)
  | writeBlock (t : τ)
  | readRelease (t : τ) (next : Option τ)
  | writeRelease (t : τ) (batch : List τ) (next : Option τ)

structure RwState (τ : Type) where
  readers : List τ
  writer : Option τ
  rwaiting : List τ
  wwaiting : List τ
  writer_alone : writer ≠ none → readers = []
  wwaiting_held : wwaiting ≠ [] → writer ≠ none ∨ readers ≠ []
  rwaiting_held : rwaiting ≠ [] → writer ≠ none ∨ wwaiting ≠ []

def rwInit : RwState τ where
  readers := []
  writer := none
  rwaiting := []
  wwaiting := []
  writer_alone := fun _ => rfl
  wwaiting_held := fun waits => absurd rfl waits
  rwaiting_held := fun waits => absurd rfl waits

/-- Who gets the write lock when the holds `readers` remain. -/
def heir (readers wwaiting : List τ) : Option τ :=
  if readers = [] then wwaiting.head? else none

omit [DecidableEq τ] in
/-- The first waiting writer, when no reader remains. -/
theorem heir_eq_some {readers wwaiting : List τ} {first : τ}
    (heirEq : heir readers wwaiting = some first) :
    readers = [] ∧ ∃ rest, wwaiting = first :: rest := by
  unfold heir at heirEq
  split at heirEq
  next last => exact ⟨last, List.head?_eq_some_iff.mp heirEq⟩
  next => cases heirEq

omit [DecidableEq τ] in
/-- The waiting writers stay when none of them gets the lock. -/
theorem wwaiting_of_heir_none {readers wwaiting : List τ}
    (heirEq : heir readers wwaiting = none) :
    (if readers = [] then wwaiting.tail else wwaiting) = wwaiting := by
  unfold heir at heirEq
  split at heirEq
  next last =>
    obtain rfl := List.head?_eq_none_iff.mp heirEq
    simp
  next remain => exact if_neg remain

namespace RwState

/-- Nobody holds or waits for write access. -/
def noWriter (s : RwState τ) : Prop := s.writer = none ∧ s.wwaiting = []

instance (s : RwState τ) : Decidable s.noWriter := inferInstanceAs (Decidable (_ ∧ _))

/-- Nobody holds the lock. -/
def free (s : RwState τ) : Prop := s.writer = none ∧ s.readers = []

instance (s : RwState τ) : Decidable s.free := inferInstanceAs (Decidable (_ ∧ _))

omit [DecidableEq τ] in
theorem free_idle (s : RwState τ) (free : s.free) : s.wwaiting = [] ∧ s.rwaiting = [] := by
  obtain ⟨writerEq, readersEq⟩ := free
  have wwaitingEq : s.wwaiting = [] := by
    by_contra waits
    exact (s.wwaiting_held waits).elim (fun held => held writerEq) (fun held => held readersEq)
  refine ⟨wwaitingEq, ?_⟩
  by_contra waits
  exact (s.rwaiting_held waits).elim (fun held => held writerEq) (fun held => held wwaitingEq)

/-- The state in which a lock with readers `readers` and no writer is left, when
the first waiting writer gets it unless there are readers. -/
def passToWriter (readers rwaiting wwaiting : List τ)
    (behind : rwaiting ≠ [] → wwaiting ≠ []) : RwState τ :=
  if empty : readers = [] then
    { readers := []
      writer := wwaiting.head?
      rwaiting
      wwaiting := wwaiting.tail
      writer_alone := fun _ => rfl
      wwaiting_held := by
        intro waits
        left
        cases wwaiting with
        | nil => exact absurd rfl waits
        | cons first rest => simp
      rwaiting_held := by
        intro waits
        left
        cases wwaiting with
        | nil => exact absurd rfl (behind waits)
        | cons first rest => simp }
  else
    { readers
      writer := none
      rwaiting
      wwaiting
      writer_alone := fun held => absurd rfl held
      wwaiting_held := fun _ => Or.inr empty
      rwaiting_held := fun waits => Or.inr (behind waits) }

section

variable (readers rwaiting wwaiting : List τ) (behind : rwaiting ≠ [] → wwaiting ≠ [])

omit [DecidableEq τ] in
@[simp] theorem passToWriter_readers :
    (passToWriter readers rwaiting wwaiting behind).readers = readers := by
  unfold passToWriter
  split
  next empty => exact empty.symm
  next => rfl

omit [DecidableEq τ] in
@[simp] theorem passToWriter_writer :
    (passToWriter readers rwaiting wwaiting behind).writer = heir readers wwaiting := by
  unfold passToWriter heir
  split <;> rfl

omit [DecidableEq τ] in
@[simp] theorem passToWriter_rwaiting :
    (passToWriter readers rwaiting wwaiting behind).rwaiting = rwaiting := by
  unfold passToWriter
  split <;> rfl

omit [DecidableEq τ] in
@[simp] theorem passToWriter_wwaiting :
    (passToWriter readers rwaiting wwaiting behind).wwaiting =
      if readers = [] then wwaiting.tail else wwaiting := by
  unfold passToWriter
  split <;> rfl

end

end RwState

def rwApply (s : RwState τ) : RwEvent τ → Option (RwState τ)
  | .readGrant t =>
      if quiet : s.noWriter then
        some { s with
          readers := s.readers ++ [t]
          writer_alone := fun held => absurd quiet.1 held
          wwaiting_held := fun waits => absurd quiet.2 waits }
      else none
  | .readBlock t =>
      if busy : ¬s.noWriter ∧ t ∉ s.rwaiting then
        some { s with
          rwaiting := s.rwaiting ++ [t]
          rwaiting_held := fun _ => not_and_or.mp busy.1 }
      else none
  | .writeGrant t =>
      if s.free then
        some { s with
          readers := []
          writer := some t
          writer_alone := fun _ => rfl
          wwaiting_held := fun _ => Or.inl nofun
          rwaiting_held := fun _ => Or.inl nofun }
      else none
  | .writeBlock t =>
      if busy : ¬s.free ∧ t ∉ s.wwaiting then
        some { s with
          wwaiting := s.wwaiting ++ [t]
          wwaiting_held := fun _ => not_and_or.mp busy.1
          rwaiting_held := fun _ => Or.inr (by simp) }
      else none
  | .readRelease t next =>
      if held : t ∈ s.readers ∧ next = heir (s.readers.erase t) s.wwaiting then
        some (RwState.passToWriter (s.readers.erase t) s.rwaiting s.wwaiting (by
          intro waits
          refine (s.rwaiting_held waits).resolve_left fun writer => ?_
          simp [s.writer_alone writer] at held))
      else none
  | .writeRelease t batch next =>
      if s.writer = some t ∧ batch = s.rwaiting ∧ next = heir batch s.wwaiting then
        some (RwState.passToWriter s.rwaiting [] s.wwaiting (fun waits => absurd rfl waits))
      else none

def machine : Replay.Machine (RwState τ) (RwEvent τ) := ⟨rwInit, rwApply⟩

/-- What an event requires of the state, and what it does. -/
inductive RwStep (s s' : RwState τ) : RwEvent τ → Prop where
  | readGrant (t : τ) (quiet : s.noWriter)
      (readersEq : s'.readers = s.readers ++ [t]) (writerEq : s'.writer = none)
      (rwaitingEq : s'.rwaiting = s.rwaiting) (wwaitingEq : s'.wwaiting = []) :
      RwStep s s' (.readGrant t)
  | readBlock (t : τ) (busy : ¬s.noWriter) (fresh : t ∉ s.rwaiting)
      (readersEq : s'.readers = s.readers) (writerEq : s'.writer = s.writer)
      (rwaitingEq : s'.rwaiting = s.rwaiting ++ [t]) (wwaitingEq : s'.wwaiting = s.wwaiting) :
      RwStep s s' (.readBlock t)
  | writeGrant (t : τ) (free : s.free)
      (readersEq : s'.readers = []) (writerEq : s'.writer = some t)
      (rwaitingEq : s'.rwaiting = []) (wwaitingEq : s'.wwaiting = []) :
      RwStep s s' (.writeGrant t)
  | writeBlock (t : τ) (busy : ¬s.free) (fresh : t ∉ s.wwaiting)
      (readersEq : s'.readers = s.readers) (writerEq : s'.writer = s.writer)
      (rwaitingEq : s'.rwaiting = s.rwaiting) (wwaitingEq : s'.wwaiting = s.wwaiting ++ [t]) :
      RwStep s s' (.writeBlock t)
  /-- readers remain, or nobody waits to write -/
  | readRelease (t : τ) (held : t ∈ s.readers) (writerWas : s.writer = none)
      (none_next : heir (s.readers.erase t) s.wwaiting = none)
      (readersEq : s'.readers = s.readers.erase t) (writerEq : s'.writer = none)
      (rwaitingEq : s'.rwaiting = s.rwaiting) (wwaitingEq : s'.wwaiting = s.wwaiting) :
      RwStep s s' (.readRelease t none)
  /-- the last reader hands the lock to a writer -/
  | readReleaseLast (t next : τ) (held : s.readers = [t]) (writerWas : s.writer = none)
      (readersEq : s'.readers = []) (writerEq : s'.writer = some next)
      (rwaitingEq : s'.rwaiting = s.rwaiting) (wwaitingEq : s.wwaiting = next :: s'.wwaiting) :
      RwStep s s' (.readRelease t (some next))
  /-- the writer admits the waiting readers, or nobody waits -/
  | writeRelease (t : τ) (held : s.writer = some t)
      (none_next : heir s.rwaiting s.wwaiting = none)
      (readersEq : s'.readers = s.rwaiting) (writerEq : s'.writer = none)
      (rwaitingEq : s'.rwaiting = []) (wwaitingEq : s'.wwaiting = s.wwaiting) :
      RwStep s s' (.writeRelease t s.rwaiting none)
  /-- no reader waits, and the writer hands the lock to the next one -/
  | writeReleaseNext (t next : τ) (held : s.writer = some t) (noReader : s.rwaiting = [])
      (readersEq : s'.readers = []) (writerEq : s'.writer = some next)
      (rwaitingEq : s'.rwaiting = []) (wwaitingEq : s.wwaiting = next :: s'.wwaiting) :
      RwStep s s' (.writeRelease t [] (some next))

theorem rwStep_of_apply {s s' : RwState τ} {e : RwEvent τ}
    (applied : machine.apply s e = some s') : RwStep s s' e := by
  cases e with
  | readGrant t =>
      simp only [machine, rwApply] at applied
      split at applied
      next quiet =>
        obtain rfl := Option.some.inj applied
        exact .readGrant t quiet rfl quiet.1 rfl quiet.2
      next => cases applied
  | readBlock t =>
      simp only [machine, rwApply] at applied
      split at applied
      next busy =>
        obtain rfl := Option.some.inj applied
        exact .readBlock t busy.1 busy.2 rfl rfl rfl rfl
      next => cases applied
  | writeGrant t =>
      simp only [machine, rwApply] at applied
      split at applied
      next free =>
        obtain rfl := Option.some.inj applied
        obtain ⟨wwaitingEq, rwaitingEq⟩ := s.free_idle free
        exact .writeGrant t free rfl rfl rwaitingEq wwaitingEq
      next => cases applied
  | writeBlock t =>
      simp only [machine, rwApply] at applied
      split at applied
      next busy =>
        obtain rfl := Option.some.inj applied
        exact .writeBlock t busy.1 busy.2 rfl rfl rfl rfl
      next => cases applied
  | readRelease t next =>
      simp only [machine, rwApply] at applied
      split at applied
      next held =>
        obtain rfl := Option.some.inj applied
        obtain ⟨member, nextEq⟩ := held
        have writerEq : s.writer = none := by
          by_contra writer
          simp [s.writer_alone writer] at member
        rcases Option.eq_none_or_eq_some (heir (s.readers.erase t) s.wwaiting) with
          heirEq | ⟨first, heirEq⟩
        · obtain rfl : next = none := nextEq.trans heirEq
          refine .readRelease t member writerEq heirEq (by simp) (by simp [heirEq])
            (by simp) ?_
          rw [RwState.passToWriter_wwaiting, wwaiting_of_heir_none heirEq]
        · obtain rfl : next = some first := nextEq.trans heirEq
          obtain ⟨last, rest, wwaitingEq⟩ := heir_eq_some heirEq
          refine .readReleaseLast t first ?_ writerEq (by simp [last]) (by simp [heirEq])
            (by simp) (by simp [last, wwaitingEq])
          have perm := List.perm_cons_erase member
          rw [last] at perm
          exact List.perm_singleton.mp perm
      next => cases applied
  | writeRelease t batch next =>
      simp only [machine, rwApply, Option.ite_none_right_eq_some] at applied
      obtain ⟨⟨writerEq, rfl, nextEq⟩, applied⟩ := applied
      obtain rfl := Option.some.inj applied
      rcases Option.eq_none_or_eq_some (heir s.rwaiting s.wwaiting) with
        heirEq | ⟨first, heirEq⟩
      · obtain rfl : next = none := nextEq.trans heirEq
        refine .writeRelease t writerEq heirEq (by simp) (by simp [heirEq]) (by simp) ?_
        rw [RwState.passToWriter_wwaiting, wwaiting_of_heir_none heirEq]
      · obtain rfl : next = some first := nextEq.trans heirEq
        obtain ⟨none_waiting, rest, wwaitingEq⟩ := heir_eq_some heirEq
        simp only [none_waiting]
        refine .writeReleaseNext t first writerEq none_waiting (by simp)
          (by simpa [none_waiting] using heirEq) (by simp) (by simp [wwaitingEq])

/-! Events that may happen. -/

section

variable {s : RwState τ} (t : τ)

theorem apply_readGrant (quiet : s.noWriter) :
    ∃ s', machine.apply s (.readGrant t) = some s' ∧ s'.readers = s.readers ++ [t] ∧
      s'.writer = s.writer ∧ s'.rwaiting = s.rwaiting ∧ s'.wwaiting = s.wwaiting := by
  simp only [machine, rwApply, dif_pos quiet]
  exact ⟨_, rfl, rfl, rfl, rfl, rfl⟩

theorem apply_readBlock (busy : ¬s.noWriter) (fresh : t ∉ s.rwaiting) :
    ∃ s', machine.apply s (.readBlock t) = some s' ∧ s'.readers = s.readers ∧
      s'.writer = s.writer ∧ s'.rwaiting = s.rwaiting ++ [t] ∧ s'.wwaiting = s.wwaiting := by
  have blocks : ¬s.noWriter ∧ t ∉ s.rwaiting := ⟨busy, fresh⟩
  simp only [machine, rwApply, dif_pos blocks]
  exact ⟨_, rfl, rfl, rfl, rfl, rfl⟩

theorem apply_writeGrant (free : s.free) :
    ∃ s', machine.apply s (.writeGrant t) = some s' ∧ s'.readers = [] ∧
      s'.writer = some t ∧ s'.rwaiting = s.rwaiting ∧ s'.wwaiting = s.wwaiting := by
  simp only [machine, rwApply, if_pos free]
  exact ⟨_, rfl, rfl, rfl, rfl, rfl⟩

theorem apply_writeBlock (busy : ¬s.free) (fresh : t ∉ s.wwaiting) :
    ∃ s', machine.apply s (.writeBlock t) = some s' ∧ s'.readers = s.readers ∧
      s'.writer = s.writer ∧ s'.rwaiting = s.rwaiting ∧ s'.wwaiting = s.wwaiting ++ [t] := by
  have blocks : ¬s.free ∧ t ∉ s.wwaiting := ⟨busy, fresh⟩
  simp only [machine, rwApply, dif_pos blocks]
  exact ⟨_, rfl, rfl, rfl, rfl, rfl⟩

theorem apply_readRelease {next : Option τ} (held : t ∈ s.readers)
    (isNext : next = heir (s.readers.erase t) s.wwaiting) :
    ∃ s', machine.apply s (.readRelease t next) = some s' ∧
      s'.readers = s.readers.erase t ∧ s'.writer = next ∧ s'.rwaiting = s.rwaiting ∧
      s'.wwaiting = if s.readers.erase t = [] then s.wwaiting.tail else s.wwaiting := by
  have legal : t ∈ s.readers ∧ next = heir (s.readers.erase t) s.wwaiting := ⟨held, isNext⟩
  simp only [machine, rwApply, dif_pos legal]
  exact ⟨_, rfl, by simp, by simp [isNext], by simp, by simp⟩

theorem apply_writeRelease {next : Option τ} (held : s.writer = some t)
    (isNext : next = heir s.rwaiting s.wwaiting) :
    ∃ s', machine.apply s (.writeRelease t s.rwaiting next) = some s' ∧
      s'.readers = s.rwaiting ∧ s'.writer = next ∧ s'.rwaiting = [] ∧
      s'.wwaiting = if s.rwaiting = [] then s.wwaiting.tail else s.wwaiting := by
  obtain rfl := isNext
  simp only [machine, rwApply, held, and_self, if_true]
  exact ⟨_, rfl, by simp, by simp, by simp, by simp⟩

end

/-! ## Histories -/

/-- The write hold that an event grants. -/
def RwEvent.writeGrantee : RwEvent τ → Option τ
  | .writeGrant t => some t
  | .readRelease _ next => next
  | .writeRelease _ _ next => next
  | _ => none

/-- The read holds that an event grants. -/
def RwEvent.readGrantees : RwEvent τ → List τ
  | .readGrant t => [t]
  | .writeRelease _ batch _ => batch
  | _ => []

def RwEvent.writeBlocker : RwEvent τ → Option τ
  | .writeBlock t => some t
  | _ => none

def RwEvent.readReleaser : RwEvent τ → Option τ
  | .readRelease t _ => some t
  | _ => none

def RwEvent.writeReleaser : RwEvent τ → Option τ
  | .writeRelease t _ _ => some t
  | _ => none

def writeGrants (log : List (RwEvent τ)) : List τ := log.filterMap RwEvent.writeGrantee

def readGrants (log : List (RwEvent τ)) : List τ := log.flatMap RwEvent.readGrantees

def writeBlocks (log : List (RwEvent τ)) : List τ := log.filterMap RwEvent.writeBlocker

def readReleases (log : List (RwEvent τ)) : List τ := log.filterMap RwEvent.readReleaser

def writeReleases (log : List (RwEvent τ)) : List τ := log.filterMap RwEvent.writeReleaser

/-- Granted, unreleased read holds of `t`. -/
def readHolds (log : List (RwEvent τ)) (t : τ) : Nat :=
  (readGrants log).count t - (readReleases log).count t

/-- Granted, unreleased write holds of `t`. -/
def writeHolds (log : List (RwEvent τ)) (t : τ) : Nat :=
  (writeGrants log).count t - (writeReleases log).count t

section

omit [DecidableEq τ]

variable (log : List (RwEvent τ)) (e : RwEvent τ)

@[simp] theorem readGrants_snoc :
    readGrants (log ++ [e]) = readGrants log ++ e.readGrantees := by
  simp [readGrants]

@[simp] theorem writeGrants_snoc :
    writeGrants (log ++ [e]) = writeGrants log ++ e.writeGrantee.toList :=
  Replay.filterMap_snoc _ log e

@[simp] theorem writeBlocks_snoc :
    writeBlocks (log ++ [e]) = writeBlocks log ++ e.writeBlocker.toList :=
  Replay.filterMap_snoc _ log e

@[simp] theorem readReleases_snoc :
    readReleases (log ++ [e]) = readReleases log ++ e.readReleaser.toList :=
  Replay.filterMap_snoc _ log e

@[simp] theorem writeReleases_snoc :
    writeReleases (log ++ [e]) = writeReleases log ++ e.writeReleaser.toList :=
  Replay.filterMap_snoc _ log e

end

/-- Write holds are exclusive: what was granted and not yet released is the
writer. -/
theorem writeGrants_eq {log : List (RwEvent τ)} {s : RwState τ}
    (accepted : machine.replay log = some s) :
    writeGrants log = writeReleases log ++ s.writer.toList := by
  refine Replay.Machine.replay_induction
    (motive := fun log s => writeGrants log = writeReleases log ++ s.writer.toList)
    rfl ?_ accepted
  intro log s e s' _ ih applied
  simp only [writeGrants_snoc, writeReleases_snoc]
  cases rwStep_of_apply applied with
  | readGrant t quiet readersEq writerEq =>
      simp [ih, writerEq, quiet.1, RwEvent.writeGrantee, RwEvent.writeReleaser]
  | readBlock t busy fresh readersEq writerEq =>
      simp [ih, writerEq, RwEvent.writeGrantee, RwEvent.writeReleaser]
  | writeGrant t free readersEq writerEq =>
      simp [ih, writerEq, free.1, RwEvent.writeGrantee, RwEvent.writeReleaser]
  | writeBlock t busy fresh readersEq writerEq =>
      simp [ih, writerEq, RwEvent.writeGrantee, RwEvent.writeReleaser]
  | readRelease t held writerWas none_next readersEq writerEq =>
      simp [ih, writerEq, writerWas, RwEvent.writeGrantee, RwEvent.writeReleaser]
  | readReleaseLast t next held writerWas readersEq writerEq =>
      simp [ih, writerEq, writerWas, RwEvent.writeGrantee, RwEvent.writeReleaser]
  | writeRelease t held none_next readersEq writerEq =>
      simp [ih, writerEq, held, RwEvent.writeGrantee, RwEvent.writeReleaser]
  | writeReleaseNext t next held noReader readersEq writerEq =>
      simp [ih, writerEq, held, RwEvent.writeGrantee, RwEvent.writeReleaser]

/-- The read holds that were granted and not yet released are the readers. -/
theorem readGrants_perm {log : List (RwEvent τ)} {s : RwState τ}
    (accepted : machine.replay log = some s) :
    (readGrants log).Perm (readReleases log ++ s.readers) := by
  refine Replay.Machine.replay_induction
    (motive := fun log s => (readGrants log).Perm (readReleases log ++ s.readers))
    (by simp [machine, rwInit, readGrants, readReleases]) ?_ accepted
  intro log s e s' _ ih applied
  simp only [readGrants_snoc, readReleases_snoc]
  cases rwStep_of_apply applied with
  | readGrant t quiet readersEq =>
      simpa [readersEq, RwEvent.readGrantees, RwEvent.readReleaser] using ih.append_right [t]
  | readBlock t busy fresh readersEq =>
      simpa [readersEq, RwEvent.readGrantees, RwEvent.readReleaser] using ih
  | writeGrant t free readersEq =>
      simpa [readersEq, free.2, RwEvent.readGrantees, RwEvent.readReleaser] using ih
  | writeBlock t busy fresh readersEq =>
      simpa [readersEq, RwEvent.readGrantees, RwEvent.readReleaser] using ih
  | readRelease t held writerWas none_next readersEq =>
      simp only [readersEq, RwEvent.readGrantees, RwEvent.readReleaser, List.append_nil,
        Option.toList_some, List.append_assoc, List.singleton_append]
      exact ih.trans ((List.perm_cons_erase held).append_left _)
  | readReleaseLast t next held writerWas readersEq =>
      simpa [readersEq, held, RwEvent.readGrantees, RwEvent.readReleaser] using ih
  | writeRelease t held none_next readersEq =>
      have noReaders := s.writer_alone (by simp [held])
      simpa [readersEq, noReaders, RwEvent.readGrantees, RwEvent.readReleaser] using
        ih.append_right s.rwaiting
  | writeReleaseNext t next held noReader readersEq =>
      have noReaders := s.writer_alone (by simp [held])
      simpa [readersEq, noReaders, RwEvent.readGrantees, RwEvent.readReleaser] using ih

theorem readHolds_eq {log : List (RwEvent τ)} {s : RwState τ}
    (accepted : machine.replay log = some s) (t : τ) :
    readHolds log t = s.readers.count t := by
  rw [readHolds, (readGrants_perm accepted).count_eq, List.count_append]
  omega

theorem writeHolds_eq {log : List (RwEvent τ)} {s : RwState τ}
    (accepted : machine.replay log = some s) (t : τ) :
    writeHolds log t = s.writer.toList.count t := by
  rw [writeHolds, writeGrants_eq accepted, List.count_append]
  omega

/-! ## Claims -/

/-- A task that waits to read or reads keeps its claim until it releases a read hold
itself. -/
theorem reader_kept {s s' : RwState τ} {e : RwEvent τ} {t : τ}
    (applied : machine.apply s e = some s') (notReleased : e.readReleaser ≠ some t)
    (claim : t ∈ s.rwaiting ∨ t ∈ s.readers) : t ∈ s'.rwaiting ∨ t ∈ s'.readers := by
  cases rwStep_of_apply applied with
  | readGrant u quiet readersEq writerEq rwaitingEq =>
      rw [readersEq, rwaitingEq]
      exact claim.imp_right (List.mem_append_left _)
  | readBlock u busy fresh readersEq writerEq rwaitingEq =>
      rw [readersEq, rwaitingEq]
      exact claim.imp_left (List.mem_append_left _)
  | writeGrant u free =>
      rw [(s.free_idle free).2, free.2] at claim
      simp at claim
  | writeBlock u busy fresh readersEq writerEq rwaitingEq =>
      rw [readersEq, rwaitingEq]
      exact claim
  | readRelease u held writerWas none_next readersEq writerEq rwaitingEq =>
      have different : t ≠ u := fun equal => notReleased (by simp [RwEvent.readReleaser, equal])
      rw [readersEq, rwaitingEq]
      exact claim.imp_right (List.mem_erase_of_ne different).mpr
  | readReleaseLast u next held writerWas readersEq writerEq rwaitingEq =>
      have different : t ≠ u := fun equal => notReleased (by simp [RwEvent.readReleaser, equal])
      rw [held] at claim
      rw [rwaitingEq]
      exact claim.imp_right fun reads => absurd (List.mem_singleton.mp reads) different
  | writeRelease u held none_next readersEq writerEq rwaitingEq =>
      have noReaders := s.writer_alone (by simp [held])
      rw [noReaders] at claim
      rw [readersEq]
      exact Or.inr (claim.resolve_right List.not_mem_nil)
  | writeReleaseNext u next held noReader =>
      rw [noReader, s.writer_alone (by simp [held])] at claim
      simp at claim

/-- A task that waits to write or writes keeps its claim until it releases the write
hold itself. -/
theorem writer_kept {s s' : RwState τ} {e : RwEvent τ} {t : τ}
    (applied : machine.apply s e = some s') (notReleased : e.writeReleaser ≠ some t)
    (claim : t ∈ s.wwaiting ∨ s.writer = some t) : t ∈ s'.wwaiting ∨ s'.writer = some t := by
  cases rwStep_of_apply applied with
  | readGrant u quiet =>
      rw [quiet.1, quiet.2] at claim
      simp at claim
  | readBlock u busy fresh readersEq writerEq rwaitingEq wwaitingEq =>
      rw [writerEq, wwaitingEq]
      exact claim
  | writeGrant u free =>
      rw [(s.free_idle free).1, free.1] at claim
      simp at claim
  | writeBlock u busy fresh readersEq writerEq rwaitingEq wwaitingEq =>
      rw [writerEq, wwaitingEq]
      exact claim.imp_left (List.mem_append_left _)
  | readRelease u held writerWas none_next readersEq writerEq rwaitingEq wwaitingEq =>
      rw [writerEq, wwaitingEq, ← writerWas]
      exact claim
  | readReleaseLast u next held writerWas readersEq writerEq rwaitingEq wwaitingEq =>
      rw [wwaitingEq, writerWas] at claim
      rw [writerEq]
      simp only [List.mem_cons, reduceCtorEq, or_false] at claim
      exact claim.symm.imp id fun isNext => by rw [isNext]
  | writeRelease u held none_next readersEq writerEq rwaitingEq wwaitingEq =>
      have different : s.writer ≠ some t := by
        rw [held]
        exact notReleased
      rw [wwaitingEq]
      exact Or.inl (claim.resolve_right different)
  | writeReleaseNext u next held noReader readersEq writerEq rwaitingEq wwaitingEq =>
      have different : s.writer ≠ some t := by
        rw [held]
        exact notReleased
      have waits := claim.resolve_right different
      rw [wwaitingEq] at waits
      rw [writerEq]
      exact (List.mem_cons.mp waits).symm.imp id fun isNext => by rw [isNext]

/-! ## Bounded overtaking -/

/-- While `t` waits to read, at most one write hold is granted. -/
theorem reader_overtaken_once {before after : List (RwEvent τ)} {t : τ} {s : RwState τ}
    (accepted : machine.replay (before ++ .readBlock t :: after) = some s)
    (waits : t ∉ readGrants after) : (writeGrants after).length ≤ 1 := by
  obtain ⟨middle, -, resumed⟩ := Replay.Machine.replay_append accepted
  obtain ⟨start, startEq, resumed⟩ := Option.bind_eq_some_iff.mp resumed
  -- a write grant needs the lock without a writer, and `t` outlasts no writer
  have claim : t ∉ readGrants after → t ∈ s.rwaiting ∧
      (s.writer = none → writeGrants after = []) ∧ (writeGrants after).length ≤ 1 := by
    refine Replay.Machine.resume_induction (motive := fun log s => t ∉ readGrants log →
      t ∈ s.rwaiting ∧ (s.writer = none → writeGrants log = []) ∧
        (writeGrants log).length ≤ 1) ?_ ?_ resumed
    · intro _
      cases rwStep_of_apply startEq with
      | readBlock t busy fresh readersEq writerEq rwaitingEq =>
          simp [rwaitingEq, writeGrants]
    · intro log s e s' _ ih applied waits
      simp only [readGrants_snoc, List.mem_append, not_or] at waits
      obtain ⟨member, idle, atMostOne⟩ := ih waits.1
      simp only [writeGrants_snoc]
      cases rwStep_of_apply applied with
      | readGrant u quiet readersEq writerEq rwaitingEq =>
          simp [rwaitingEq, member, idle quiet.1, RwEvent.writeGrantee]
      | readBlock u busy fresh readersEq writerEq rwaitingEq =>
          simp_all [RwEvent.writeGrantee]
      | writeGrant u free readersEq writerEq rwaitingEq =>
          simp [(s.free_idle free).2] at member
      | writeBlock u busy fresh readersEq writerEq rwaitingEq =>
          simp_all [RwEvent.writeGrantee]
      | readRelease u held writerWas none_next readersEq writerEq rwaitingEq =>
          simp [rwaitingEq, member, idle writerWas, RwEvent.writeGrantee]
      | readReleaseLast u next held writerWas readersEq writerEq rwaitingEq =>
          simp [rwaitingEq, writerEq, member, idle writerWas, RwEvent.writeGrantee]
      | writeRelease u held none_next readersEq writerEq rwaitingEq =>
          exact absurd member waits.2
      | writeReleaseNext u next held noReader readersEq writerEq rwaitingEq =>
          simp [noReader] at member
  exact (claim waits).2.2

/-- Write grants go to the waiting writers in queue order, while somebody
waits: `t` blocked behind `ahead`, and nobody was granted the lock but the head of
the queue. -/
structure WriterWaits (t : τ) (ahead : List τ) (log : List (RwEvent τ)) (s : RwState τ) :
    Prop where
  queue : writeGrants log ++ s.wwaiting = ahead ++ t :: writeBlocks log
  no_direct_write : ∀ u, RwEvent.writeGrant u ∉ log
  no_direct_read : ∀ u, RwEvent.readGrant u ∉ log
  waiting : t ∈ s.wwaiting

omit [DecidableEq τ] in
/-- An event that no writer takes part in. -/
theorem WriterWaits.other {t : τ} {ahead : List τ} {log : List (RwEvent τ)} {s s' : RwState τ}
    {e : RwEvent τ} (waits : WriterWaits t ahead log s) (wwaiting : s'.wwaiting = s.wwaiting)
    (noGrantee : e.writeGrantee = none) (noBlocker : e.writeBlocker = none)
    (noReader : ∀ u, .readGrant u ≠ e) : WriterWaits t ahead (log ++ [e]) s' where
  queue := by simpa [wwaiting, noGrantee, noBlocker] using waits.queue
  no_direct_write u := by
    have noWriter : .writeGrant u ≠ e := by
      rintro rfl
      cases noGrantee
    simpa [noWriter] using waits.no_direct_write u
  no_direct_read u := by simpa [noReader u] using waits.no_direct_read u
  waiting := wwaiting ▸ waits.waiting

theorem WriterWaits.step {t : τ} {ahead : List τ} {log : List (RwEvent τ)}
    {s s' : RwState τ} {e : RwEvent τ} (waits : WriterWaits t ahead log s)
    (applied : machine.apply s e = some s') (notGranted : e.writeGrantee ≠ some t) :
    WriterWaits t ahead (log ++ [e]) s' := by
  obtain ⟨queue, noWrite, noRead, member⟩ := id waits
  have nonempty : s.wwaiting ≠ [] := List.ne_nil_of_mem member
  cases rwStep_of_apply applied with
  | readGrant u quiet => exact absurd quiet.2 nonempty
  | writeGrant u free => exact absurd (s.free_idle free).1 nonempty
  | readBlock u busy fresh readersEq writerEq rwaitingEq wwaitingEq =>
      exact waits.other wwaitingEq rfl rfl (by simp)
  | writeBlock u busy fresh readersEq writerEq rwaitingEq wwaitingEq =>
      refine ⟨?_, by simpa using noWrite, by simpa using noRead, by simp [wwaitingEq, member]⟩
      have appended := congrArg (· ++ [u]) queue
      simpa [wwaitingEq, RwEvent.writeGrantee, RwEvent.writeBlocker] using appended
  | readRelease u held writerWas none_next readersEq writerEq rwaitingEq wwaitingEq =>
      exact waits.other wwaitingEq rfl rfl (by simp)
  | readReleaseLast u next held writerWas readersEq writerEq rwaitingEq wwaitingEq =>
      refine ⟨?_, by simpa using noWrite, by simpa using noRead, ?_⟩
      · simpa [wwaitingEq, RwEvent.writeGrantee, RwEvent.writeBlocker] using queue
      · have different : t ≠ next := fun equal => notGranted (by simp [RwEvent.writeGrantee, equal])
        simpa [wwaitingEq, different] using member
  | writeRelease u held none_next readersEq writerEq rwaitingEq wwaitingEq =>
      exact waits.other wwaitingEq rfl rfl (by simp)
  | writeReleaseNext u next held noReader readersEq writerEq rwaitingEq wwaitingEq =>
      refine ⟨?_, by simpa using noWrite, by simpa using noRead, ?_⟩
      · simpa [wwaitingEq, RwEvent.writeGrantee, RwEvent.writeBlocker] using queue
      · have different : t ≠ next := fun equal => notGranted (by simp [RwEvent.writeGrantee, equal])
        simpa [wwaitingEq, different] using member

/-- From the moment a writer blocks until it is granted the lock, grants follow
the queue. -/
theorem writer_waits {before after : List (RwEvent τ)} {t : τ} {s : RwState τ}
    (accepted : machine.replay (before ++ .writeBlock t :: after) = some s)
    (notGranted : t ∉ writeGrants after) :
    ∃ start, machine.replay before = some start ∧ t ∉ start.wwaiting ∧
      WriterWaits t start.wwaiting after s := by
  obtain ⟨start, startAccepted, resumed⟩ := Replay.Machine.replay_append accepted
  obtain ⟨next, nextEq, resumed⟩ := Option.bind_eq_some_iff.mp resumed
  cases rwStep_of_apply nextEq with
  | writeBlock u busy fresh readersEq writerEq rwaitingEq wwaitingEq =>
      refine ⟨start, startAccepted, fresh, ?_⟩
      refine Replay.Machine.resume_induction (motive := fun log s =>
        t ∉ writeGrants log → WriterWaits t start.wwaiting log s) ?_ ?_ resumed notGranted
      · intro _
        exact ⟨by simp [writeGrants, writeBlocks, wwaitingEq], by simp, by simp,
          by simp [wwaitingEq]⟩
      · intro log s e s' _ ih applied notGranted
        simp only [writeGrants_snoc, List.mem_append, Option.mem_toList, not_or] at notGranted
        exact (ih notGranted.1).step applied notGranted.2

omit [DecidableEq τ] in
/-- The write grants that come before the one to `t` go to the tasks that were in
front of it, in their order. -/
theorem WriterWaits.grants_prefix {t : τ} {ahead : List τ} {log : List (RwEvent τ)}
    {s : RwState τ} (waits : WriterWaits t ahead log s) (notGranted : t ∉ writeGrants log) :
    writeGrants log <+: ahead := by
  have isPrefix : writeGrants log <+: ahead ++ t :: writeBlocks log :=
    ⟨s.wwaiting, waits.queue⟩
  by_cases short : (writeGrants log).length ≤ ahead.length
  · exact List.prefix_of_prefix_length_le isPrefix (List.prefix_append _ _) short
  · have longer : ahead ++ [t] <+: writeGrants log := by
      apply List.prefix_of_prefix_length_le _ isPrefix
      · simpa using Nat.succ_le_of_lt (Nat.not_le.mp short)
      · exact ⟨writeBlocks log, by simp⟩
    exact absurd (longer.subset (by simp)) notGranted

/-- When `t` is granted the lock, exactly the tasks that were in front of it have
been. -/
theorem WriterWaits.grants_eq {t : τ} {ahead : List τ} {log : List (RwEvent τ)}
    {s s' : RwState τ} {e : RwEvent τ} (waits : WriterWaits t ahead log s)
    (notGranted : t ∉ writeGrants log) (fresh : t ∉ ahead)
    (applied : machine.apply s e = some s') (granted : e.writeGrantee = some t) :
    writeGrants log = ahead := by
  have nonempty : s.wwaiting ≠ [] := List.ne_nil_of_mem waits.waiting
  have isHead : ∃ rest, s.wwaiting = t :: rest := by
    cases rwStep_of_apply applied with
    | writeGrant u free => exact absurd (s.free_idle free).1 nonempty
    | readReleaseLast u next held writerWas readersEq writerEq rwaitingEq wwaitingEq =>
        obtain rfl : next = t := by simpa [RwEvent.writeGrantee] using granted
        exact ⟨_, wwaitingEq⟩
    | writeReleaseNext u next held noReader readersEq writerEq rwaitingEq wwaitingEq =>
        obtain rfl : next = t := by simpa [RwEvent.writeGrantee] using granted
        exact ⟨_, wwaitingEq⟩
    | _ => simp [RwEvent.writeGrantee] at granted
  obtain ⟨rest, wwaitingEq⟩ := isHead
  obtain ⟨missing, aheadEq⟩ := waits.grants_prefix notGranted
  have queue := waits.queue
  rw [wwaitingEq, ← aheadEq, List.append_assoc] at queue
  have tails := List.append_cancel_left queue
  cases missing with
  | nil => simpa using aheadEq
  | cons u missing =>
      obtain rfl : t = u := by simpa using (List.cons.inj tails).1
      exact absurd (aheadEq ▸ by simp) fresh

/-- Between two write grants at most one batch of readers is admitted. -/
theorem one_batch_between_writers {before segment after : List (RwEvent τ)} {s : RwState τ}
    (accepted : machine.replay (before ++ segment ++ after) = some s)
    (noGrant : writeGrants segment = []) : (writeReleases segment).length ≤ 1 := by
  obtain ⟨middle, middleAccepted, -⟩ := Replay.Machine.replay_append accepted
  obtain ⟨start, startAccepted, -⟩ := Replay.Machine.replay_append middleAccepted
  have startLength := congrArg List.length (writeGrants_eq startAccepted)
  have middleLength := congrArg List.length (writeGrants_eq middleAccepted)
  simp only [writeGrants, writeReleases, List.filterMap_append, List.length_append]
    at noGrant startLength middleLength ⊢
  rw [noGrant, List.length_nil] at middleLength
  have single : start.writer.toList.length ≤ 1 := by cases start.writer <;> simp
  omega

end RwLock
