import Libtask.Lib.Ownership
import Libtask.NetioRun

/-!
# Who owns a descriptor

The discipline of programs that own descriptors and blocks of memory.  A task may write to a
descriptor, wait until it can and shut it down where it owns the descriptor, or was started with the
one of another task.  Whatever else it does with a descriptor is for the owner alone.  Each function
of `net.c` opens at most the descriptor that it returns.
-/

namespace Libtask.Netio

open Ownership (Account Discipline)
open Sockets (Resource)

/-- The resource that only its owner may call this for. -/
def sysUses : Sockets.Call → Option Resource
  | .bind fd _ _ | .listen fd _ | .accept fd | .connect fd _ _ => some (.descriptor fd)
  | .getpeername fd | .getsockopt fd _ | .setsockopt fd _ _ => some (.descriptor fd)
  | .getfl fd | .setfl fd _ | .read fd _ | .close fd => some (.descriptor fd)
  | .free p => some (.block p)
  | .write _ _ | .shutdown _ => none
  | .socket _ | .gethostbyname _ | .malloc _ => none

def uses : Call → Option Resource
  | .os c => sysUses c
  | .fdwait fd rw => if rw = 'r' then some (.descriptor fd) else none
  | .junk _ => none

/-- The descriptor that a call is for, where its caller need not be the owner. -/
def shares : Call → Option Resource
  | .os (.write fd _) | .os (.shutdown fd) => some (.descriptor fd)
  | .fdwait fd rw => if rw = 'r' then none else some (.descriptor fd)
  | _ => none

variable {L : Type}

/-- A program whose tasks have in hand what `account` says.  They may leave a descriptor that they
have bound. -/
def discipline (account : L → Account Resource) : Discipline Call Answer L Resource where
  possible
    | .os c, a => Sockets.possible c a
    | _, _ => True
  gains
    | .os c, a => Sockets.gains c a
    | _, _ => none
  frees
    | .os c => Sockets.frees c
    | _ => none
  uses := uses
  frees_uses := by
    rintro (c | ⟨fd, rw⟩ | size) r isFreed
    · cases c <;> first | exact isFreed | cases isFreed
    · cases isFreed
    · cases isFreed
  shares := shares
  marks
    | .os c, a => Sockets.binds c a
    | _, _ => none
  marks_uses := by
    rintro (c | ⟨fd, rw⟩ | size) a r isMarked
    · cases c with
      | bind fd addr port =>
          simp only [Sockets.binds] at isMarked
          split at isMarked
          · cases isMarked
          · exact ⟨isMarked, rfl⟩
      | _ => cases isMarked
    · cases isMarked
    · cases isMarked
  account := account

variable {account : L → Account Resource}

/-- The system keeps to the discipline. -/
theorem discipline_laws :
    (discipline account).Laws does Sockets.Os.holds Sockets.Os.isBound where
  possible := by
    rintro os (c | ⟨fd, rw⟩ | size) a os' done
    · exact Sockets.does_possible done
    · trivial
    · trivial
  fresh := by
    rintro os (c | ⟨fd, rw⟩ | size) a os' r done isGained
    · exact (Sockets.does_effect done).fresh isGained
    · cases isGained
    · cases isGained
  after := by
    rintro os (c | ⟨fd, rw⟩ | size) a os' done r
    · exact (Sockets.does_effect done).holds r
    · obtain rfl := Option.some.inj done
      simp [discipline]
    · obtain rfl := Option.some.inj done
      simp [discipline]
  marks := by
    rintro os (c | ⟨fd, rw⟩ | size) a os' r done isMarked -
    · exact (Sockets.does_effect done).binds isMarked
    · cases isMarked
    · cases isMarked
  stays := by
    rintro os (c | ⟨fd, rw⟩ | size) a os' r done - isBound kept
    · exact (Sockets.does_effect done).stays isBound kept
    · exact Option.some.inj done ▸ isBound
    · exact Option.some.inj done ▸ isBound

/-- The code keeps to the discipline with this in hand. -/
abbrev Keeps (account : L → Account Resource) (h : Account Resource) (code : Prog L) : Prop :=
  (discipline account).spec.Valid h code

/-- With one more resource. -/
abbrev hold (h : Account Resource) (r : Resource) : Account Resource :=
  { h with own := h.own + {r}, rights := h.rights + {r} }

/-- With what a call gives. -/
def gain (h : Account Resource) (r : Option Resource) : Account Resource :=
  { h with own := h.own + Discipline.ofOption r, rights := h.rights + Discipline.ofOption r }

@[simp] theorem gain_none (h : Account Resource) : gain h none = h := by
  simp [gain]

@[simp] theorem gain_some (h : Account Resource) (r : Resource) : gain h (some r) = hold h r := rfl

/-- With nothing that may be left. -/
abbrev bare (h : Account Resource) : Account Resource := { h with left := ∅ }

variable {h : Account Resource}

theorem keeps_bare {code : Prog L} (keeps : Keeps account (bare h) code) : Keeps account h code :=
  Discipline.valid_mono keeps ⟨rfl, rfl, Set.empty_subset _, le_rfl, subset_rfl⟩

/-! ## System calls -/

/-- A call, after which the caller has at least `h'` in hand. -/
theorem keeps_call {c : Call} {next : Answer → Prog L} (h' : Answer → Account Resource)
    (owned : ∀ r, uses c = some r → r ∈ h.own)
    (shared : ∀ r, shares c = some r → r ∈ h.rights ∧ (r ∈ h.own ∨ r ∈ h.lent))
    (after : ∀ a, (h' a).Le ((discipline account).called h c a))
    (goesOn : ∀ a, Keeps account (h' a) (next a)) : Keeps account h (.call c next) :=
  ⟨⟨owned, shared⟩, fun a _ => Discipline.valid_mono (goesOn a) (after a)⟩

/-- A call that opens and closes nothing. -/
theorem keeps_same {c : Call} {next : Answer → Prog L} (owned : ∀ r, uses c = some r → r ∈ h.own)
    (shared : ∀ r, shares c = some r → r ∈ h.rights ∧ (r ∈ h.own ∨ r ∈ h.lent))
    (noFrees : (discipline account).frees c = none)
    (noGains : ∀ a, (discipline account).gains c a = none)
    (goesOn : ∀ a, Keeps account h (next a)) : Keeps account h (.call c next) := by
  refine keeps_call (fun _ => h) owned shared
    (fun a => ⟨?_, rfl, fun r isLeft => ?_, ?_, subset_rfl⟩) goesOn
  · simp [Discipline.called, Discipline.after, noFrees, noGains]
  · exact Or.inl ⟨isLeft, by simp [noFrees]⟩
  · simp [Discipline.called, Discipline.after, noFrees, noGains]

section
variable {c : Sockets.Call} {next : Answer → Prog L}

/-- A call that may give the caller a resource. -/
theorem keeps_gain (owned : ∀ r, sysUses c = some r → r ∈ h.own) (noShares : shares (.os c) = none)
    (noFrees : Sockets.frees c = none)
    (goesOn : ∀ a, Keeps account (gain h (Sockets.gains c a)) (next a)) :
    Keeps account h (sys c next) := by
  refine keeps_call (fun a => gain h (Sockets.gains c a)) owned (fun r isShare => ?_)
    (fun a => ⟨?_, rfl, fun r isLeft => ?_, ?_, subset_rfl⟩) goesOn
  · rw [noShares] at isShare
    cases isShare
  · simp [gain, Discipline.called, Discipline.after, discipline, noFrees]
  · exact Or.inl ⟨isLeft, by simp [discipline, noFrees]⟩
  · simp [gain, Discipline.called, Discipline.after, discipline, noFrees]

/-- A call that gives a resource back. -/
theorem keeps_free {r : Resource} (frees : Sockets.frees c = some r) (isUse : sysUses c = some r)
    (noShares : shares (.os c) = none) (noGains : ∀ a, Sockets.gains c a = none)
    (goesOn : ∀ a, Keeps account { bare h with rights := h.rights - {r} } (next a)) :
    Keeps account { h with own := h.own + {r} } (sys c next) := by
  refine keeps_call (fun _ => { bare h with rights := h.rights - {r} }) (fun r' isUse' => ?_)
    (fun r' isShare => ?_) (fun a => ⟨?_, rfl, Set.empty_subset _, ?_, subset_rfl⟩) goesOn
  · obtain rfl := Option.some.inj (isUse.symm.trans isUse')
    simp
  · rw [noShares] at isShare
    cases isShare
  · simp [Discipline.called, Discipline.after, discipline, frees, noGains]
  · simp [Discipline.called, Discipline.after, discipline, frees, noGains]

/-- A call that gives back a resource to which the caller has the right. -/
theorem keeps_drop {r : Resource} (frees : Sockets.frees c = some r) (isUse : sysUses c = some r)
    (noShares : shares (.os c) = none) (noGains : ∀ a, Sockets.gains c a = none)
    (goesOn : ∀ a, Keeps account (bare h) (next a)) : Keeps account (hold h r) (sys c next) := by
  refine @keeps_free _ _ { h with rights := h.rights + {r} } _ _ r frees isUse noShares noGains
    fun a => ?_
  simpa only [Multiset.add_sub_cancel_right] using goesOn a

end

section
variable {fd : Int} {next : Prog L}

theorem keeps_fdwait {rw : Char} (owned : rw = 'r' → .descriptor fd ∈ h.own)
    (shared : rw ≠ 'r' → .descriptor fd ∈ h.rights ∧
      (.descriptor fd ∈ h.own ∨ .descriptor fd ∈ h.lent))
    (goesOn : Keeps account h next) : Keeps account h (fdwait fd rw next) := by
  refine keeps_same (fun r isUse => ?_) (fun r isShare => ?_) rfl (fun _ => rfl) fun _ => goesOn
  · simp only [uses] at isUse
    split at isUse
    next isRead => exact Option.some.inj isUse ▸ owned isRead
    next => cases isUse
  · simp only [shares] at isShare
    split at isShare
    next => cases isShare
    next isWrite => exact Option.some.inj isShare ▸ shared isWrite

/-- A task waits until it can read from a descriptor that it owns. -/
theorem keeps_readable (owned : .descriptor fd ∈ h.own) (goesOn : Keeps account h next) :
    Keeps account h (fdwait fd 'r' next) :=
  keeps_fdwait (fun _ => owned) (fun notRead => absurd rfl notRead) goesOn

theorem keeps_close (goesOn : Keeps account (bare h) next) :
    Keeps account (hold h (.descriptor fd)) (sys (.close fd) fun _ => next) :=
  keeps_drop rfl rfl rfl (fun _ => rfl) fun _ => goesOn

/-- A call for a descriptor that the caller owns. -/
theorem keeps_for {c : Sockets.Call} {next : Answer → Prog L} (owned : .descriptor fd ∈ h.own)
    (isUse : sysUses c = some (.descriptor fd)) (noShares : shares (.os c) = none)
    (noFrees : Sockets.frees c = none) (noGains : ∀ a, Sockets.gains c a = none)
    (goesOn : ∀ a, Keeps account h (next a)) : Keeps account h (sys c next) := by
  refine keeps_same (fun r isUse' => ?_) (fun r isShare => ?_) noFrees noGains goesOn
  · exact Option.some.inj (isUse.symm.trans isUse') ▸ owned
  · rw [noShares] at isShare
    cases isShare

theorem keeps_fdnoblock (owned : .descriptor fd ∈ h.own) (goesOn : Keeps account h next) :
    Keeps account h (fdnoblock fd next) :=
  keeps_for owned rfl rfl rfl (fun _ => rfl) fun _ =>
    keeps_for owned rfl rfl rfl (fun _ => rfl) fun _ => goesOn

end

theorem keeps_fdread {fd : Int} {n : Nat} {again : L} {next : Answer → Prog L}
    (owned : .descriptor fd ∈ h.own) (retries : Keeps account h (.goto again))
    (goesOn : ∀ m, Keeps account h (next m)) : Keeps account h (fdread fd n again next) := by
  refine keeps_for owned rfl rfl rfl (fun _ => rfl) fun m => ?_
  split
  · exact keeps_readable owned retries
  · exact goesOn m

/-- `fdwrite` does not need to own its descriptor. -/
theorem keeps_fdwrite {fd : Int} {buf : List UInt8} {s : Fdwrite.St} {again : Fdwrite.St → L}
    {next : Int → Prog L}
    (shared : .descriptor fd ∈ h.rights ∧ (.descriptor fd ∈ h.own ∨ .descriptor fd ∈ h.lent))
    (goesOn : ∀ s, Keeps account h (.goto (again s))) (returns : ∀ r, Keeps account h (next r)) :
    Keeps account h (fdwrite fd buf s again next) := by
  unfold fdwrite
  split
  · exact returns _
  · exact keeps_fdwait (fun isRead => absurd isRead (by decide)) (fun _ => shared) (goesOn _)
  · refine keeps_same (fun r isUse => by cases isUse) (fun r isShare => ?_) rfl (fun _ => rfl)
      fun m => goesOn _
    exact Option.some.inj isShare ▸ shared

/-! ## `net.c` -/

theorem keeps_netlookup {name : List UInt8} {next : Option (List UInt8) → Prog L}
    (goesOn : ∀ ip, Keeps account h (next ip)) : Keeps account h (netlookup name next) := by
  refine keeps_same (fun r isUse => by cases isUse) (fun r isShare => by cases isShare) rfl
    (fun _ => rfl) fun addr => ?_
  split
  · exact goesOn _
  · exact keeps_same (fun r isUse => by cases isUse) (fun r isShare => by cases isShare) rfl
      (fun _ => rfl) fun he => goesOn _

section
variable {next : Int → Prog L}

/-- A new socket, or -1. -/
theorem keeps_socket {type : Sockets.SockType} {next : Answer → Prog L}
    (fails : ∀ a : Answer, a.r < 0 → Keeps account h (next a))
    (opens : ∀ a : Answer, 0 ≤ a.r → Keeps account (hold h (.descriptor a.r)) (next a)) :
    Keeps account h (sys (.socket type) next) := by
  refine keeps_gain (fun r isUse => by cases isUse) rfl rfl fun a => ?_
  by_cases failed : a.r < 0
  · simpa [Sockets.gains, failed] using fails a failed
  · simpa [Sockets.gains, failed] using opens a (by omega)

/-- A descriptor that has been bound may be left. -/
theorem keeps_bind {fd : Int} {ip : List UInt8} {port : Nat} {next : Answer → Prog L}
    (owned : .descriptor fd ∈ h.own)
    (fails : ∀ b : Answer, b.r < 0 → Keeps account h (next b))
    (returns : ∀ b : Answer, 0 ≤ b.r →
      Keeps account { h with left := insert (.descriptor fd) h.left } (next b)) :
    Keeps account h (sys (.bind fd ip port) next) := by
  let bound : Account Resource := { h with left := insert (.descriptor fd) h.left }
  refine keeps_call (fun b => if b.r < 0 then h else bound)
    (fun r isUse => Option.some.inj isUse ▸ owned) (fun r isShare => by cases isShare)
    (fun b => ?_) fun b => ?_
  · have same : h.own = ((discipline account).called h (.os (.bind fd ip port)) b).own := by
      simp [Discipline.called, Discipline.after, discipline, Sockets.frees, Sockets.gains]
    have rights : h.rights ≤ ((discipline account).called h (.os (.bind fd ip port)) b).rights := by
      simp [Discipline.called, Discipline.after, discipline, Sockets.frees, Sockets.gains]
    split
    · exact ⟨same, rfl, fun r isLeft => Or.inl ⟨isLeft, by simp [discipline, Sockets.frees]⟩,
        rights, subset_rfl⟩
    next succeeded =>
      refine ⟨same, rfl, fun r isLeft => ?_, rights, subset_rfl⟩
      rcases isLeft with rfl | isLeft
      · exact Or.inr (if_neg succeeded)
      · exact Or.inl ⟨isLeft, by simp [discipline, Sockets.frees]⟩
  · split
    · exact fails b ‹_›
    · exact returns b (by omega)

theorem keeps_bindAt {istcp : Bool} {fd : Int} {ip : List UInt8} {port : Int}
    (fails : Keeps account (bare h) (next (-1)))
    (returns : Keeps account { hold h (.descriptor fd) with left := insert (.descriptor fd) h.left }
      (next fd)) : Keeps account (hold h (.descriptor fd)) (bindAt istcp fd ip port next) := by
  have owned : Resource.descriptor fd ∈ h.own + {.descriptor fd} := by simp
  refine keeps_bind owned (fun b failed => ?_) fun b succeeded => ?_
  · rw [if_pos failed]
    exact keeps_close fails
  · rw [if_neg (by omega)]
    split
    · exact keeps_for owned rfl rfl rfl (fun _ => rfl) fun _ => keeps_fdnoblock owned returns
    · exact keeps_fdnoblock owned returns

theorem keeps_announceAt {istcp : Bool} {ip : List UInt8} {port : Int}
    (fails : Keeps account (bare h) (next (-1)))
    (returns : ∀ fd, 0 ≤ fd → Keeps account
      { hold h (.descriptor fd) with left := insert (.descriptor fd) h.left } (next fd)) :
    Keeps account h (announceAt istcp ip port next) := by
  refine keeps_socket (fun a failed => ?_) fun a opened => ?_
  · rw [if_pos failed]
    exact keeps_bare fails
  · have owned : Resource.descriptor a.r ∈ h.own + {.descriptor a.r} := by simp
    have bound : Keeps account (hold h (.descriptor a.r)) (bindAt istcp a.r ip port next) :=
      keeps_bindAt fails (returns a.r opened)
    rw [if_neg (by omega)]
    split
    · refine keeps_for owned rfl rfl rfl (fun _ => rfl) fun n => ?_
      split
      · exact keeps_for owned rfl rfl rfl (fun _ => rfl) fun _ => bound
      · exact bound
    · exact bound

/-- `netannounce` opens the descriptor that it returns and binds it, or opens nothing. -/
theorem keeps_netannounce {istcp : Bool} {server : Option (List UInt8)} {port : Int}
    (fails : Keeps account (bare h) (next (-1)))
    (returns : ∀ fd, 0 ≤ fd → Keeps account
      { hold h (.descriptor fd) with left := insert (.descriptor fd) h.left } (next fd)) :
    Keeps account h (netannounce istcp server port next) := by
  unfold netannounce
  split
  · exact keeps_announceAt fails returns
  · split
    · exact keeps_announceAt fails returns
    · refine keeps_netlookup fun ip => ?_
      cases ip with
      | none => exact keeps_bare fails
      | some ip => exact keeps_announceAt fails returns

theorem keeps_netaccept {fd : Int} {next : Int → List UInt8 → Prog L}
    (owned : .descriptor fd ∈ h.own) (fails : Keeps account h (next (-1) []))
    (returns : ∀ cfd client, 0 ≤ cfd → Keeps account (hold h (.descriptor cfd)) (next cfd client)) :
    Keeps account h (netaccept fd next) := by
  refine keeps_readable owned (keeps_gain ?_ rfl rfl fun a => ?_)
  · exact fun r isUse => Option.some.inj isUse ▸ owned
  · by_cases failed : a.r < 0
    · simpa [Sockets.gains, failed] using fails
    · have isNew : Resource.descriptor a.r ∈ h.own + {.descriptor a.r} := by simp
      have kept : Keeps account (hold h (.descriptor a.r))
          (fdnoblock a.r (sys (.setsockopt a.r .nodelay 1) fun _ => next a.r a.data)) :=
        keeps_fdnoblock isNew
          (keeps_for isNew rfl rfl rfl (fun _ => rfl) fun _ => returns a.r a.data (by omega))
      simpa [Sockets.gains, failed] using kept

theorem keeps_dialAt {fd : Int} {ip : List UInt8} {port : Int}
    (fails : Keeps account (bare h) (next (-1)))
    (returns : Keeps account (hold h (.descriptor fd)) (next fd)) :
    Keeps account (hold h (.descriptor fd)) (dialAt fd ip port next) := by
  have owned : Resource.descriptor fd ∈ h.own + {.descriptor fd} := by simp
  have right : Resource.descriptor fd ∈ h.rights + {.descriptor fd} := by simp
  refine keeps_for owned rfl rfl rfl (fun _ => rfl) fun c => ?_
  split
  · exact keeps_close fails
  · refine keeps_fdwait (fun _ => owned) (fun _ => ⟨right, Or.inl owned⟩)
      (keeps_for owned rfl rfl rfl (fun _ => rfl) fun p => ?_)
    split
    · exact returns
    · exact keeps_for owned rfl rfl rfl (fun _ => rfl) fun _ => keeps_close fails

/-- `netdial` opens the descriptor that it returns, or nothing. -/
theorem keeps_netdial {istcp : Bool} {server : List UInt8} {port : Int}
    (fails : Keeps account (bare h) (next (-1)))
    (returns : ∀ fd, 0 ≤ fd → Keeps account (hold h (.descriptor fd)) (next fd)) :
    Keeps account h (netdial istcp server port next) := by
  refine keeps_netlookup fun ip => ?_
  cases ip with
  | none => exact keeps_bare fails
  | some ip =>
      refine keeps_socket (fun a failed => ?_) fun a opened => ?_
      · rw [if_pos failed]
        exact keeps_bare fails
      · have owned : Resource.descriptor a.r ∈ h.own + {.descriptor a.r} := by simp
        rw [if_neg (by omega)]
        refine keeps_fdnoblock owned ?_
        split
        · exact keeps_dialAt fails (returns a.r opened)
        · exact keeps_for owned rfl rfl rfl (fun _ => rfl) fun _ =>
            keeps_dialAt fails (returns a.r opened)

end

/-! ## Rights -/

/-- What the running task gains in a step. -/
def gained (n : State L) : Act → Option Resource
  | .dispatch _ => none
  | .go choice => n.running.bind fun (_, p) =>
      match p.code with
      | .call (.os c) _ => Sockets.gains c choice.answer
      | _ => none

/-- The system gives out nothing that a task still has the right to, such as a descriptor that was
closed by another one. -/
def Unused (account : L → Account Resource) (n : State L) (a : Act) : Prop :=
  ∀ r ∈ gained n a, ∀ t ∈ n.rt.alltask, ∀ p ∈ n.net.proc t, r ∉ (discipline account).rights p

instance (n : State L) (a : Act) : Decidable (Unused account n a) :=
  inferInstanceAs (Decidable (∀ r ∈ gained n a, _))

theorem unused_fresh {code : L → Prog L} {n n' : State L} {a : Act} (unused : Unused account n a)
    (wired : Wired n) (isEnabled : enabled n a) (stepped : step code n a = .ok n') :
    (discipline account).Fresh Sockets.Os.holds n.net n'.net := by
  intro u q r isProc right isHeld
  cases a with
  | dispatch env =>
      rw [(step_dispatch stepped).2] at isHeld
      exact isHeld
  | go choice =>
      obtain ⟨t, p, goes⟩ := step_goes isEnabled stepped
      have net := goes.net
      have answered := goes.answers
      cases isCode : p.code with
      | goto l | ret | stop why =>
          simp only [State.after, isCode] at net
          rw [net] at isHeld
          exact isHeld
      | spawn child next =>
          obtain ⟨v, -, net, -⟩ := goes.spawn_wired wired isCode
          rw [net] at isHeld
          exact isHeld
      | call c next =>
          simp only [Netio.answers, isCode] at answered
          obtain ⟨world, done⟩ := Option.isSome_iff_exists.mp answered
          simp only [State.after, isCode, done] at net
          rw [net] at isHeld
          have laws := @discipline_laws L account
          rcases (laws.after _ _ _ _ done r).mp isHeld with ⟨wasHeld, -⟩ | isGained
          · exact wasHeld
          · have isRunning : n.running = some (t, p) := by
              simp [State.running, goes.running, goes.isProc]
            have isNew : gained n (.go choice) = some r := by
              cases c with
              | os c =>
                  have gains : Sockets.gains c choice.answer = some r := isGained
                  simp [gained, isRunning, isCode, gains]
              | fdwait fd rw | junk size => cases isGained
            exact absurd right (unused r isNew u (wired.procs u q isProc).1 q isProc)

end Libtask.Netio
