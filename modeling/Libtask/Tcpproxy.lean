import Libtask.NetioOwns

/-!
# `tcpproxy.c`

The main task accepts connections.  For each one a `proxytask` dials the server and starts two
tasks `rwtask`, one for each direction.  An `rwtask` closes the descriptor that it reads from, and
only shuts the other one down: each descriptor has one task that closes it.
-/

namespace Libtask.Tcpproxy

open Netio
open Ownership (Account)
open Sockets (Resource)

/-- The arguments, as `taskmain` reads them.  `server` and `port` are global variables of the
program. -/
structure Args where
  argc : Nat := 4
  localport : Int := 0
  server : List UInt8 := []
  port : Int := 0

/-- Where a task goes back to, with its local variables. -/
inductive Label where
  | taskmain
  /-- at `netaccept` -/
  | accepting (fd : Int)
  | proxytask (fd : Int)
  /-- at the start of `rwtask`, whose argument is the array at `a` -/
  | rwtask (a rfd wfd : Int)
  /-- in `fdread` -/
  | reading (rfd wfd : Int)
  /-- in `fdwrite` -/
  | writing (rfd wfd : Int) (buf : List UInt8) (s : Fdwrite.St)
  deriving DecidableEq

/-- The size of `buf`. -/
def bufsize : Nat := 2048

/-- `mkfd2`, which stores its arguments in the array that it returns. -/
def mkfd2 (next : Int → Prog Label) : Prog Label :=
  sys (.malloc 8) fun a => if a.r = 0 then .stop .abort else next a.r

section
variable (args : Args)

def taskmain : Prog Label :=
  if args.argc ≠ 4 then .stop (.taskexitall 1)
  else netannounce true none args.localport fun fd =>
    if fd < 0 then .stop (.taskexitall 1) else fdnoblock fd (.goto (.accepting fd))

/-- One turn of the loop of `taskmain`. -/
def accepting (fd : Int) : Prog Label :=
  netaccept fd fun cfd _ =>
    if cfd ≥ 0 then .spawn (.proxytask cfd) (.goto (.accepting fd)) else .ret

def proxytask (fd : Int) : Prog Label :=
  netdial true args.server args.port fun remotefd =>
    if remotefd < 0 then sys (.close fd) fun _ => .ret
    else mkfd2 fun a => .spawn (.rwtask a fd remotefd)
      (mkfd2 fun b => .spawn (.rwtask b remotefd fd) .ret)

/-- One turn of the loop of `rwtask`. -/
def reading (rfd wfd : Int) : Prog Label :=
  fdread rfd bufsize (.reading rfd wfd) fun m =>
    if m.r > 0 then .goto (.writing rfd wfd m.data (Fdwrite.start m.data.length))
    else sys (.shutdown wfd) fun _ => sys (.close rfd) fun _ => .ret

def tcpproxy : Label → Prog Label
  | .taskmain => taskmain args
  | .accepting fd => accepting fd
  | .proxytask fd => proxytask args fd
  | .rwtask a rfd wfd => sys (.free a) fun _ => .goto (.reading rfd wfd)
  | .reading rfd wfd => reading rfd wfd
  | .writing rfd wfd buf s =>
      fdwrite wfd buf s (.writing rfd wfd buf) fun _ => .goto (.reading rfd wfd)

end

/-! ## Owners -/

/-- What `rwtask` has in hand: it closes one descriptor, and writes to the other one. -/
def relay (rfd wfd : Int) : Account Resource where
  own := {.descriptor rfd}
  rights := {.descriptor wfd}
  lent := {.descriptor wfd}

/-- What a task has in hand at a label.  The main task returns without closing the descriptor that
it listens at when `netaccept` fails. -/
def account : Label → Account Resource
  | .taskmain => { few := 1 }
  | .accepting fd =>
      { own := {.descriptor fd}, few := 1, left := {.descriptor fd}, rights := {.descriptor fd} }
  | .proxytask fd => { own := {.descriptor fd}, rights := {.descriptor fd} }
  | .rwtask a rfd wfd => hold (relay rfd wfd) (.block a)
  | .reading rfd wfd | .writing rfd wfd _ _ => relay rfd wfd

variable {args : Args} {h : Account Resource}

theorem keeps_mkfd2 {next : Int → Prog Label}
    (returns : ∀ a, Keeps account (hold h (.block a)) (next a)) : Keeps account h (mkfd2 next) := by
  refine keeps_gain (fun r isUse => by cases isUse) rfl rfl fun a => ?_
  split
  · trivial
  next isNew => simpa [Sockets.gains, isNew] using returns a.r

/-- A task passes what it starts another task with. -/
theorem keeps_spawn {child : Label} {next : Prog Label} (few : (account child).few = 0)
    (left : (account child).left = ∅) (kept : ∀ r ∈ h.left, r ∈ h.own)
    (goesOn : Keeps account h next) :
    Keeps account
      { h with
        own := h.own + (account child).own
        rights := h.rights + (account child).rights } (.spawn child next) := by
  refine ⟨⟨Multiset.le_add_left _ _, Multiset.le_add_left _ _, few, left⟩,
    Ownership.Discipline.valid_mono goesOn
      ⟨(Multiset.add_sub_cancel_right ..).symm, rfl, fun r isLeft => ⟨isLeft, ?_⟩,
        (Multiset.add_sub_cancel_right ..).ge, subset_rfl⟩⟩
  change r ∈ h.own + (account child).own - (account child).own
  rw [Multiset.add_sub_cancel_right]
  exact kept r isLeft

theorem keeps_goto {l : Label} (more : (account l).Le h) : Keeps account h (.goto l) := more

theorem keeps_ret (few : h.own.card ≤ h.few) (left : ∀ r ∈ h.own, r ∈ h.left) :
    Keeps account h (.ret : Prog Label) :=
  ⟨few, left⟩

/-- A task closes what it still owns, and ends. -/
theorem keeps_close_ret {fd : Int} (owns : h.own = {.descriptor fd}) :
    Keeps account h (sys (.close fd) fun _ => (.ret : Prog Label)) := by
  have closes : Keeps account { h with own := 0 + {.descriptor fd} }
      (sys (.close fd) fun _ => (.ret : Prog Label)) :=
    @keeps_free _ _ { h with own := 0 } _ _ (.descriptor fd) rfl rfl rfl (fun _ => rfl) fun _ =>
      keeps_ret (Nat.zero_le _) fun r member => absurd member (Multiset.notMem_zero r)
  rwa [Multiset.zero_add, ← owns] at closes

theorem keeps_taskmain (args : Args) : Keeps account { few := 1 } (taskmain args) := by
  unfold taskmain
  split
  · trivial
  · refine keeps_netannounce trivial fun fd opened => ?_
    rw [if_neg (by omega)]
    refine keeps_fdnoblock (by simp) (keeps_goto ⟨?_, rfl, ?_, ?_, subset_rfl⟩)
    · exact (Multiset.zero_add _).symm
    · exact fun r isLeft => Or.inl isLeft
    · exact (Multiset.zero_add _).ge

theorem keeps_accepting (fd : Int) : Keeps account (account (.accepting fd)) (accepting fd) := by
  refine keeps_netaccept (Multiset.mem_singleton_self _) (keeps_ret (by simp [account]) ?_)
    fun cfd client opened => ?_
  · exact fun r isOwn => Multiset.mem_singleton.mp isOwn
  · rw [if_pos opened]
    exact @keeps_spawn (account (.accepting fd)) (.proxytask cfd) (.goto (.accepting fd)) rfl rfl
      (fun r isLeft => Multiset.mem_singleton.mpr isLeft) (keeps_goto (.refl _))

theorem keeps_proxytask (args : Args) (fd : Int) :
    Keeps account (account (.proxytask fd)) (proxytask args fd) := by
  refine keeps_netdial (keeps_close_ret rfl) fun remotefd opened => ?_
  rw [if_neg (by omega)]
  refine keeps_mkfd2 fun a => ?_
  -- what is left after the first task was started
  let rest : Account Resource := { own := {.descriptor remotefd}, rights := {.descriptor fd} }
  have first : ({.descriptor fd} + {.descriptor remotefd} + {.block a} : Multiset Resource) =
      {.descriptor remotefd} + ({.descriptor fd} + {.block a}) := by
    rw [← Multiset.add_assoc, Multiset.add_comm {Resource.descriptor fd}]
  have same : hold (hold (account (.proxytask fd)) (.descriptor remotefd)) (.block a) =
      { rest with
        own := rest.own + (account (.rwtask a fd remotefd)).own
        rights := rest.rights + (account (.rwtask a fd remotefd)).rights } :=
    congrArg₂ (fun own rights => ({ own, rights } : Account Resource)) first (Multiset.add_assoc ..)
  rw [same]
  refine keeps_spawn rfl rfl (fun r isLeft => isLeft.elim) (keeps_mkfd2 fun b => ?_)
  have same : hold rest (.block b) =
      { own := 0 + (account (.rwtask b remotefd fd)).own
        rights := 0 + (account (.rwtask b remotefd fd)).rights } :=
    congrArg₂ (fun own rights => ({ own, rights } : Account Resource)) (Multiset.zero_add _).symm
      (Multiset.zero_add _).symm
  rw [same]
  exact @keeps_spawn {} (.rwtask b remotefd fd) .ret rfl rfl (fun r isLeft => isLeft.elim)
    (keeps_ret le_rfl fun r member => absurd member (Multiset.notMem_zero r))

theorem keeps_reading (rfd wfd : Int) :
    Keeps account (account (.reading rfd wfd)) (reading rfd wfd) := by
  refine keeps_fdread (Multiset.mem_singleton_self _) (keeps_goto (.refl _)) fun m => ?_
  split
  · exact keeps_goto (.refl _)
  · refine keeps_same (fun r isUse => by cases isUse) (fun r isShare => ?_) rfl (fun _ => rfl)
      fun _ => keeps_close_ret rfl
    obtain rfl := Option.some.inj isShare
    exact ⟨Multiset.mem_singleton_self _, Or.inr rfl⟩

/-- The code of the proxy keeps to its accounts. -/
theorem tcpproxy_sound (args : Args) : (discipline account).spec.Sound (tcpproxy args) where
  child := fun _ l _ => Ownership.Account.Le.refl (account l)
  code := by
    intro l h here
    refine Ownership.Discipline.valid_mono ?_ here
    change Keeps account (account l) _
    cases l with
    | taskmain => exact keeps_taskmain args
    | accepting fd => exact keeps_accepting fd
    | proxytask fd => exact keeps_proxytask args fd
    | rwtask a rfd wfd =>
        exact @keeps_drop _ _ (relay rfd wfd) _ _ (.block a) rfl rfl rfl (fun _ => rfl) fun _ =>
          keeps_goto (.refl _)
    | reading rfd wfd => exact keeps_reading rfd wfd
    | writing rfd wfd buf s =>
        exact keeps_fdwrite ⟨Multiset.mem_singleton_self _, Or.inr rfl⟩
          (fun _ => keeps_goto (.refl _)) fun _ => keeps_goto (.refl _)

/-- What a task has been given, or has opened, and has neither closed nor passed on. -/
abbrev owned (p : Proc Label) : Multiset Resource := (discipline account).owned p

variable {os : Sockets.Os} {n : State Label}

/-- Each descriptor and each block in use has one owner, up to `lost`. -/
abbrev Tidy (os : Sockets.Os) (net : Netio.Net Label) (lost : Multiset Resource) : Prop :=
  (discipline account).Tidy Sockets.Os.holds Sockets.Os.isBound {r | os.holds r} 1 net lost

theorem reaches_tidy {t : TaskPtr} {net : Netio.Net Label}
    (reaches : Interaction.Reaches (tcpproxy args) Netio.does (.start os t .taskmain) net) :
    ∃ lost, Tidy os net lost :=
  Ownership.Discipline.reaches_tidy reaches (tcpproxy_sound args) discipline_laws rfl rfl

/-- The system when the proxy starts, with three open descriptors. -/
def console : Sockets.Os where
  table fd := if 0 ≤ fd ∧ fd < 3 then some fd.toNat else none
  made := 3
  old fd s isSocket := by
    split at isSocket
    · obtain rfl := Option.some.inj isSocket
      omega
    · cases isSocket
  bound _ := false
  heap _ := false
  input _ := []
  output _ := []

/-- The main task listens at descriptor 3, and waits for a connection. -/
def announces : List Netio.Act :=
  [.dispatch {}, .go {}, .go { answer := { r := 3 } }, .go {}, .go {}, .go {}, .go {},
    .go {}, .go {}, .go {}, .go {}, .go {}, .go { task := some 2 }, .dispatch {},
    .dispatch { poll := .ready fun _ => 1 }, .dispatch {}]

/-- How the proxy ends.  It does not end in `no runnable tasks`, and when all tasks have returned it
holds what it held at the start, and at most the descriptor that it bound to its port. -/
theorem proxy_stops {a : Netio.Act} {ending : Ending}
    (reachable : Netio.Reachable (tcpproxy args) os .taskmain n) (isEnabled : Netio.enabled n a)
    (stopped : Netio.step (tcpproxy args) n a = .error ending) :
    Netio.Ends n a ending ∧ ∀ status, ending = .halt (.taskexitval status) →
      ∃ lost : Multiset Resource, lost.card ≤ 1 ∧ (∀ r ∈ lost, n.net.world.isBound r) ∧
        ∀ r, n.net.world.holds r ↔ os.holds r ∨ r ∈ lost := by
  have ends := netio_stops reachable isEnabled stopped
  refine ⟨ends, ?_⟩
  rintro status rfl
  obtain ⟨-, t, reaches⟩ := reachable_refines reachable
  obtain ⟨lost, tidy⟩ := reaches_tidy reaches
  refine ⟨lost, tidy.card, tidy.marked, fun r => ?_⟩
  cases ends with
  | taskexitval nobody =>
      rw [tidy.parted.held]
      simp only [Ownership.Discipline.mem_ownedAt, nobody]
      simp

theorem proxy_stops_refused : ∃ n : State Label,
    n.net.world.holds (.descriptor 3) ∧
    Netio.Ends n (.dispatch {}) (.halt (.taskexitval 0)) ∧ ∀ status,
      Ending.halt (.taskexitval 0) = .halt (.taskexitval status) →
      ∃ lost : Multiset Resource, lost.card ≤ 1 ∧ (∀ r ∈ lost, n.net.world.isBound r) ∧
        ∀ r, n.net.world.holds r ↔ console.holds r ∨ r ∈ lost := by
  obtain ⟨n, isOpen, reachable, isEnabled, stopped⟩ := exists_netio_end (tcpproxy {}) console
    .taskmain (announces ++ [.go { answer := { r := -1 } }, .go {}]) (.dispatch {})
    (.halt (.taskexitval 0)) (fun n => decide (n.net.world.table 3 ≠ none)) (by decide +kernel)
  have isOpen : n.net.world.table 3 ≠ none := of_decide_eq_true isOpen
  exact ⟨n, isOpen, proxy_stops reachable isEnabled stopped⟩

end Libtask.Tcpproxy
