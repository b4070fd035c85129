import Libtask.TcpproxyRelays

/-!
# Which connection is written to

A task writes to a descriptor by its number.  The other task of the connection may close that
descriptor first, and `accept` may give out the number for another connection, to which the task
then writes.  Until that happens each task is the only one that writes to its connection.
-/

namespace Libtask.Tcpproxy

open Netio
open Transition (anyAction)
open Ownership (Discipline)
open Sockets (Resource)

variable {args : Args} {os : Sockets.Os} {net net' : Netio.Net Label} {n : State Label}
variable {t u : TaskPtr} {p : Proc Label} {a rfd wfd : Int}

/-! ## Owners -/

/-- Only an `rwtask` works with a descriptor that it does not own. -/
theorem Comes.lent (comes : Comes args os u net) (isProc : net.proc t = some p) {r : Resource}
    (isLent : r ∈ (account p.entry).lent) :
    ∃ a rfd wfd, p.entry = .rwtask a rfd wfd ∧ r = .descriptor wfd := by
  have told := comes.told isProc
  cases isEntry : p.entry <;> rw [isEntry] at told isLent
  case rwtask a rfd wfd => exact ⟨a, rfd, wfd, rfl, isLent⟩
  case reading | writing => exact told.elim
  all_goals exact isLent.elim

/-- In each state of each run, every descriptor and every block in use has one task that owns it,
but for those in use at the start and at most the descriptor that was bound to the port, which the
main task may leave.  A task uses only what it owns and what is still in use, but for an `rwtask`,
which writes to a descriptor that it does not own. -/
theorem proxy_owners (reachable : Netio.Reachable (tcpproxy args) os .taskmain n) :
    ∃ lost : Multiset Resource, lost.card ≤ 1 ∧ (∀ r ∈ lost, n.net.world.isBound r) ∧
      (∀ r, n.net.world.holds r ↔
        os.holds r ∨ r ∈ lost ∨ ∃ t p, n.net.proc t = some p ∧ r ∈ owned p) ∧
      (∀ t p, n.net.proc t = some p → (owned p).Nodup ∧
        ∀ r ∈ owned p, ¬os.holds r ∧ r ∉ lost) ∧
      (∀ t u p q r, n.net.proc t = some p → n.net.proc u = some q → r ∈ owned p → r ∈ owned q →
        t = u) ∧
      (∀ t p c next r, n.net.proc t = some p → p.code = .call c next → uses c = some r →
        r ∈ owned p ∧ n.net.world.holds r) ∧
      ∀ t p c next r, n.net.proc t = some p → p.code = .call c next → shares c = some r →
        r ∈ owned p ∧ n.net.world.holds r ∨
          ∃ a rfd wfd, p.entry = .rwtask a rfd wfd ∧ r = .descriptor wfd := by
  obtain ⟨-, u, comes⟩ := reachable_refines reachable
  have comes : Comes args os u n.net := comes
  obtain ⟨lost, tidy⟩ := reaches_tidy comes
  refine ⟨lost, tidy.card, tidy.marked, fun r => ?_, fun t p isProc => ⟨tidy.nodup t p isProc, ?_⟩,
    ?_, ?_, ?_⟩
  · rw [tidy.parted.held]
    simp only [Discipline.mem_ownedAt]
    rfl
  · exact fun r isOwned => tidy.parted.fresh t r (Discipline.mem_ownedAt.mpr ⟨p, isProc, isOwned⟩)
  · exact fun t u p q r isProc isProc' => tidy.apart isProc isProc'
  · exact fun t p c next r isProc isCode => tidy.uses isProc isCode
  · exact fun t p c next r isProc isCode isShare =>
      (tidy.shares isProc isCode isShare).imp_right (comes.lent isProc)

theorem proxy_owners_accepts : ∃ n : State Label,
    n.net.world.table 4 = some 4 ∧ n.rt.alltask.length = 3 ∧
    ∃ lost : Multiset Resource, lost.card ≤ 1 ∧ (∀ r ∈ lost, n.net.world.isBound r) ∧
      (∀ r, n.net.world.holds r ↔
        console.holds r ∨ r ∈ lost ∨ ∃ t p, n.net.proc t = some p ∧ r ∈ owned p) ∧
      (∀ t p, n.net.proc t = some p → (owned p).Nodup ∧
        ∀ r ∈ owned p, ¬console.holds r ∧ r ∉ lost) ∧
      (∀ t u p q r, n.net.proc t = some p → n.net.proc u = some q → r ∈ owned p → r ∈ owned q →
        t = u) ∧
      (∀ t p c next r, n.net.proc t = some p → p.code = .call c next → uses c = some r →
        r ∈ owned p ∧ n.net.world.holds r) ∧
      ∀ t p c next r, n.net.proc t = some p → p.code = .call c next → shares c = some r →
        r ∈ owned p ∧ n.net.world.holds r ∨
          ∃ a rfd wfd, p.entry = .rwtask a rfd wfd ∧ r = .descriptor wfd := by
  obtain ⟨n, checked, reachable⟩ := exists_netio_run (tcpproxy {}) console .taskmain
    (announces ++ [.go { answer := { r := 4 } }, .go {}, .go {}, .go {}, .go { task := some 3 }])
    (fun n => decide (n.net.world.table 4 = some 4) && decide (n.rt.alltask.length = 3))
    (by decide +kernel)
  simp only [Bool.and_eq_true, decide_eq_true_eq] at checked
  exact ⟨n, checked.1, checked.2, proxy_owners reachable⟩

/-! ## Sockets that one task writes to -/

/-- What a task may write to. -/
abbrev rights (p : Proc Label) : Multiset Resource := (discipline account).rights p

/-- The text was written to the socket behind `fd`, to which no other descriptor refers. -/
def Sole (os : Sockets.Os) (fd : Int) (text : List UInt8) : Prop :=
  ∀ s, os.table fd = some s → os.output s = text ∧ ∀ fd', os.table fd' = some s → fd' = fd

theorem Sole.step {os' : Sockets.Os} {fd : Int} {text : List UInt8} {c : Sockets.Call}
    {ans : Answer} (sole : Sole os fd text) (done : Sockets.does os c ans = some os')
    (notNew : Sockets.gains c ans ≠ some (.descriptor fd)) :
    Sole os' fd (text ++ Sockets.said fd c ans) := by
  intro s isSocket
  have effect := Sockets.does_effect done
  obtain ⟨wasSocket, alone⟩ := effect.alone isSocket notNew fun fd' isSocket' wasSocket =>
    (sole s wasSocket).2 fd' isSocket'
  obtain ⟨output, wasAlone⟩ := sole s wasSocket
  exact ⟨by rw [effect.output wasSocket wasAlone, output], alone⟩

theorem sole_opened {os' : Sockets.Os} {fd : Int} {c : Sockets.Call} {ans : Answer}
    (done : Sockets.does os c ans = some os')
    (gained : Sockets.gains c ans = some (.descriptor fd)) : Sole os' fd [] := by
  intro s isSocket
  have effect := Sockets.does_effect done
  obtain ⟨isNew, -, output⟩ := effect.opened gained
  obtain rfl := Option.some.inj (isNew.symm.trans isSocket)
  exact ⟨output, fun fd' => effect.opened_alone gained⟩

/-- What was written to a connection is what the task has written that may write to it. -/
def Outputs (net : Netio.Net Label) : Prop :=
  ∀ t p fd, net.proc t = some p → .descriptor fd ∈ rights p → Sole net.world fd (put fd p.events)

/-- The rights change hands, and nothing else. -/
theorem Outputs.of_rights (outputs : Outputs net) (world : net'.world = net.world)
    (holders : ∀ u q fd, net'.proc u = some q → .descriptor fd ∈ rights q →
      ∃ t p, net.proc t = some p ∧ .descriptor fd ∈ rights p ∧ put fd p.events = put fd q.events) :
    Outputs net' := by
  intro u q fd isProc member
  obtain ⟨t, p, isProc, member, same⟩ := holders u q fd isProc member
  rw [world, ← same]
  exact outputs t p fd isProc member

/-- Only who has the right writes to a descriptor. -/
theorem Comes.said (comes : Comes args os u net) (exclusive : (discipline account).Exclusive net)
    (isProc : net.proc t = some p) {c : Netio.Call} {next : Answer → Prog Label}
    (isCode : p.code = .call c next) {v : TaskPtr} {q : Proc Label} {fd : Int}
    (isProc' : net.proc v = some q) (member : .descriptor fd ∈ rights q) (other : v ≠ t)
    (ans : Answer) : said fd c ans = [] := by
  obtain ⟨lost, tidy⟩ := reaches_tidy comes
  have valid := tidy.meets t p isProc
  rw [isCode] at valid
  cases c with
  | fdwait fd rw | junk size => rfl
  | os c =>
      cases c with
      | write fd' bytes =>
          have right : .descriptor fd' ∈ rights p := (valid.1.2 _ rfl).1
          have different : fd' ≠ fd := by
            rintro rfl
            exact other (exclusive.apart v t q p _ isProc' isProc member right)
          exact if_neg different
      | _ => rfl

section
variable {c : Sockets.Call} {ans : Answer} {next : Answer → Prog Label} {world : Sockets.Os}

/-- A call changes what the caller has written. -/
theorem Outputs.call (outputs : Outputs net) (comes : Comes args os u net)
    (exclusive : (discipline account).Exclusive net) (isProc : net.proc t = some p)
    (isCode : p.code = .call (.os c) next) (done : Sockets.does net.world c ans = some world)
    (fresh : (discipline account).Fresh Sockets.Os.holds net
      ({ net with world }.set t (some (p.called (.os c) ans next)))) :
    Outputs ({ net with world }.set t (some (p.called (.os c) ans next))) := by
  have does : Netio.does net.world (.os c) ans = some world := done
  have notNew {v : TaskPtr} {q : Proc Label} {fd : Int} (isProc' : net.proc v = some q)
      (member : .descriptor fd ∈ rights q) : Sockets.gains c ans ≠ some (.descriptor fd) :=
    fun gained => fresh.gained discipline_laws does gained isProc' member
  intro v q fd isProc' member
  rcases Interaction.Net.proc_set isProc' with ⟨rfl, ⟨⟩⟩ | ⟨other, isOther⟩
  · have nodup := exclusive.nodup v p isProc
    have events : put fd (p.called (.os c) ans next).events =
        put fd p.events ++ Sockets.said fd c ans := put_called fd p.events (.os c) ans
    rw [rights, Discipline.rights_called] at member
    rcases ((discipline account).mem_after_of_nodup nodup).mp member with ⟨wasMine, -⟩ | gained
    · rw [events]
      exact (outputs v p fd isProc wasMine).step done (notNew isProc wasMine)
    · have silent := (comes.quiet_outer isProc (comes.outer_opens isProc isCode gained) fd).2
      have opens : Sockets.said fd c ans = [] :=
        Sockets.said_of_fails (by rintro _ _ rfl; cases gained) fd
      rw [events, silent, opens]
      exact sole_opened done gained
  · have silent : Sockets.said fd c ans = [] :=
      comes.said exclusive isProc isCode isOther member other ans
    have sole := (outputs v q fd isOther member).step done (notNew isOther member)
    rwa [silent, List.append_nil] at sole

end

/-- A task goes on, and may write to no more than it did. -/
theorem Outputs.set {q : Proc Label} (outputs : Outputs net) (isProc : net.proc t = some p)
    (holder : ∀ fd, .descriptor fd ∈ rights q →
      .descriptor fd ∈ rights p ∧ put fd p.events = put fd q.events) :
    Outputs (net.set t (some q)) := by
  refine outputs.of_rights rfl fun v q' fd isProc' member => ?_
  rcases Interaction.Net.proc_set isProc' with ⟨-, ⟨⟩⟩ | ⟨-, isProc'⟩
  · exact ⟨t, p, isProc, holder fd member⟩
  · exact ⟨v, q', isProc', member, rfl⟩

/-- One step in which the system gives out nothing that may still be written to. -/
theorem Outputs.step (outputs : Outputs net) (comes : Comes args os u net)
    (exclusive : (discipline account).Exclusive net)
    (stepped : Interaction.Step (tcpproxy args) Netio.does net net')
    (fresh : (discipline account).Fresh Sockets.Os.holds net net') : Outputs net' := by
  obtain ⟨t, moves⟩ := stepped
  cases moves with
  | goto isProc isCode => exact outputs.set isProc fun fd member => ⟨member, rfl⟩
  | @call p c ans next world isProc isCode done =>
      cases c with
      | os c => exact outputs.call comes exclusive isProc isCode done fresh
      | fdwait fd rw | junk size =>
          obtain rfl := Option.some.inj done
          refine outputs.set isProc fun fd member => ⟨?_, (put_silent rfl fd).symm⟩
          simpa [rights, Discipline.after, discipline] using member
  | @spawn p v child next isProc isCode isNew =>
      obtain ⟨lost, tidy⟩ := reaches_tidy comes
      have meets := tidy.meets t p isProc
      have valid := comes.valid isProc
      rw [isCode] at meets valid
      have less : rights (p.spawned child next) ≤ rights p := by
        rw [rights, Discipline.rights_spawned]
        exact Multiset.sub_le_self _ _
      refine outputs.of_rights rfl fun w q fd isProc' member => ?_
      rcases Interaction.Net.proc_set isProc' with ⟨-, ⟨⟩⟩ | ⟨-, isProc'⟩
      · exact ⟨t, p, isProc, Multiset.mem_of_le meets.1.2.1 member,
          (comes.quiet_outer isProc valid.1.1 fd).2⟩
      · rcases Interaction.Net.proc_set isProc' with ⟨-, ⟨⟩⟩ | ⟨-, isProc'⟩
        · exact ⟨t, p, isProc, Multiset.mem_of_le less member,
            by simp [put, Interaction.Proc.spawned]⟩
        · exact ⟨w, q, isProc', member, rfl⟩
  | ret isProc isCode =>
      refine outputs.of_rights rfl fun v q fd isProc' member => ?_
      rcases Interaction.Net.proc_set isProc' with ⟨-, ⟨⟩⟩ | ⟨-, isProc'⟩
      exact ⟨v, q, isProc', member, rfl⟩

/-- In a run in which the system gives out nothing that a task may still write to. -/
theorem unused_outputs (reachable : Transition.Reachable
    (Netio.system (tcpproxy args) os .taskmain) (Unused account) n) : Outputs n.net := by
  have kept : Wired n ∧ ∃ u, Comes args os u n.net ∧ (discipline account).Exclusive n.net ∧
      Outputs n.net := by
    refine reachable.invariant (fun n => Wired n ∧ ∃ u, Comes args os u n.net ∧
      (discipline account).Exclusive n.net ∧ Outputs n.net) ?_ ?_
    · intro n init
      obtain ⟨wired, u, net⟩ := init_wired init
      refine ⟨wired, u, net ▸ .refl, ?_⟩
      rw [net]
      refine ⟨Discipline.start_exclusive Multiset.nodup_zero, fun v p fd isProc member => ?_⟩
      obtain ⟨-, rfl⟩ := Interaction.Net.proc_start isProc
      exact absurd member (Multiset.notMem_zero _)
    · rintro n a n' - ⟨wired, u, comes, exclusive, outputs⟩ isEnabled unused stepped
      have fresh := unused_fresh unused wired isEnabled stepped
      obtain ⟨wired', net⟩ := step_refines wired isEnabled stepped
      refine ⟨wired', u, ?_⟩
      rcases net with same | moved
      · rw [same]
        exact ⟨comes, exclusive, outputs⟩
      · obtain ⟨lost, tidy⟩ := reaches_tidy comes
        exact ⟨comes.tail moved, exclusive.step tidy.meets discipline_laws moved fresh,
          outputs.step comes exclusive moved fresh⟩
  obtain ⟨-, u, -, -, outputs⟩ := kept
  exact outputs

theorem MayCall.frees {c : Netio.Call} (mayCall : MayCall a rfd wfd c) :
    (discipline account).frees c = none ∨ (discipline account).frees c = some (.block a) ∨
      (discipline account).frees c = some (.descriptor rfd) := by
  cases c with
  | fdwait fd rw | junk size => exact Or.inl rfl
  | os c =>
      cases c with
      | free p => exact Or.inr (Or.inl (congrArg (some <| Resource.block ·) mayCall))
      | close fd => exact Or.inr (Or.inr (congrArg (some <| Resource.descriptor ·) mayCall))
      | _ => exact Or.inl rfl

theorem MayCall.gains {c : Netio.Call} (mayCall : MayCall a rfd wfd c) (ans : Answer) :
    (discipline account).gains c ans = none := by
  cases c with
  | fdwait fd rw | junk size => rfl
  | os c => cases c <;> first | rfl | cases mayCall

/-- An `rwtask` keeps the right to write until it closes the descriptor that it reads from. -/
theorem Comes.keeps_right (comes : Comes args os u net) (isProc : net.proc t = some p)
    (isRwtask : p.entry = .rwtask a rfd wfd) (isOpen : .descriptor rfd ∈ owned p) :
    .descriptor wfd ∈ rights p := by
  have told := comes.told isProc
  rw [isRwtask] at told
  let keeps (h : Ownership.Account Resource) : Prop :=
    h.own.count (.descriptor rfd) ≤ 1 ∧ (.descriptor rfd ∈ h.own → .descriptor wfd ∈ h.rights)
  have kept : keeps (p.events.foldl (discipline account).spec.update (account p.entry)) := by
    refine List.foldlRecOn p.events _ ?_ fun h ⟨one, right⟩ e member => ?_
    · rw [isRwtask]
      exact ⟨by simp [account, relay], fun _ => by simp [account, relay]⟩
    · obtain ⟨c, ans, rfl, mayCall⟩ := told.2 e member
      have own : ((discipline account).called h c ans).own =
          h.own - Discipline.ofOption ((discipline account).frees c) := by
        simp [Discipline.called, Discipline.after, mayCall.gains]
      have same (notClose : ∀ fd, (discipline account).frees c ≠ some (.descriptor fd)) :
          keeps ((discipline account).called h c ans) := by
        simp only [keeps, own]
        refine ⟨(Multiset.count_le_of_le _ (Multiset.sub_le_self _ _)).trans one, fun isOpen => ?_⟩
        exact (discipline account).mem_after ans
          (right (Multiset.mem_of_le (Multiset.sub_le_self _ _) isOpen)) (notClose wfd)
      change keeps ((discipline account).called h c ans)
      rcases mayCall.frees with none | isBlock | isClose
      · exact same fun fd => by simp [none]
      · exact same fun fd => by simp [isBlock]
      · have closed : ((discipline account).called h c ans).own.count (.descriptor rfd) = 0 := by
          rw [own, isClose, Discipline.ofOption_some, Multiset.count_sub,
            Multiset.count_singleton_self]
          omega
        exact ⟨by omega, fun isOpen => absurd closed (Multiset.count_ne_zero.mpr isOpen)⟩
  exact kept.2 isOpen

/-! ## Runs -/

/-- In each state of each run, each `rwtask` has read all that was read from its socket, and has
written a part of it, in order.  Until a `write` fails it has written all of it but one buffer at
most, and all of it when it closes its descriptor and when it ends.  Where the system has given out
no descriptor to which a task could still write, nobody else has written to the socket it writes
to. -/
theorem proxy_relays (reachable : Netio.Reachable (tcpproxy args) os .taskmain n)
    (isProc : n.net.proc t = some p) (isRwtask : p.entry = .rwtask a rfd wfd) :
    (.descriptor rfd ∈ owned p → ∃ s, n.net.world.table rfd = some s ∧
        n.net.world.input s = got rfd p.events) ∧
      (put wfd p.events).Sublist (got rfd p.events) ∧
      (unbroken p.events = true → ∃ rest, got rfd p.events = put wfd p.events ++ rest ∧
        rest.length ≤ bufsize) ∧
      (∀ c next, p.code = .call c next → MayCall a rfd wfd c) ∧
      (unbroken p.events = true →
        (p.code = .ret ∨ ∃ c next, p.code = .call c next ∧ closes c = true) →
        put wfd p.events = got rfd p.events) ∧
      (Transition.Reachable (Netio.system (tcpproxy args) os .taskmain) (Unused account) n →
        .descriptor rfd ∈ owned p → ∀ s, n.net.world.table wfd = some s →
          n.net.world.output s = put wfd p.events) := by
  obtain ⟨-, u, comes⟩ := reachable_refines reachable
  have comes : Comes args os u n.net := comes
  have told := comes.told isProc
  have valid := comes.valid isProc
  rw [isRwtask] at told valid
  obtain ⟨⟨rest, relays, fits⟩, -⟩ := told
  refine ⟨fun isOpen => ?_, (List.sublist_append_left _ _).trans relays.sublist, fun isUnbroken =>
    ⟨rest, (relays.whole isUnbroken).symm, fits⟩, fun c next isCode => ?_,
    fun isUnbroken ends => ?_, fun unused isOpen s isSocket => ?_⟩
  · obtain ⟨s, isSocket, input⟩ := comes.inputs.socket t p rfd isProc isOpen
    exact ⟨s, isSocket, input⟩
  · rw [isCode] at valid
    exact valid.1.1
  · have level : Relays rfd wfd p.events [] := by
      rcases ends with isCode | ⟨c, next, isCode, isClose⟩ <;> rw [isCode] at valid
      · exact valid
      · exact valid.1.2.1 isClose
    have whole := level.whole isUnbroken
    rwa [List.append_nil] at whole
  · have right := comes.keeps_right isProc isRwtask isOpen
    exact (unused_outputs unused t p wfd isProc right s isSocket).1

/-- The proxy dials the server for a connection, and the task from the client to the server has read
three bytes and written two. -/
def connected : List Netio.Act :=
  let writable : Env := { poll := .ready fun i => if i = 1 then 4 else 0 }
  announces ++
    [.go { answer := { r := 4 } }, .go {}, .go {}, .go {}, .go { task := some 3 }, .go {}, .go {},
      .dispatch {}, .dispatch {}, .go {}, .go {}, .go { answer := { data := [1, 2, 3, 4] } },
      .go { answer := { r := 5 } }, .go {}, .go {}, .go {}, .go {}, .dispatch writable,
      .dispatch writable, .dispatch writable, .go {}, .go { answer := { r := 100 } },
      .go { task := some 4 }, .go { answer := { r := 200 } }, .go { task := some 5 }, .go {},
      .dispatch {}, .dispatch {}, .go {}, .go {}, .go {},
      .go { answer := { r := 3, data := [1, 2, 3] } }, .go {}, .go { answer := { r := 2 } }]

theorem proxy_relays_part : ∃ (n : State Label) (p : Proc Label),
    n.net.world.input 4 = [1, 2, 3] ∧ n.net.world.output 5 = [1, 2] ∧
    Transition.Reachable (Netio.system (tcpproxy {}) console .taskmain) (Unused account) n ∧
    (.descriptor 4 ∈ owned p → ∃ s, n.net.world.table 4 = some s ∧
        n.net.world.input s = got 4 p.events) ∧
      (put 5 p.events).Sublist (got 4 p.events) ∧
      (unbroken p.events = true → ∃ rest, got 4 p.events = put 5 p.events ++ rest ∧
        rest.length ≤ bufsize) ∧
      (∀ c next, p.code = .call c next → MayCall 100 4 5 c) ∧
      (unbroken p.events = true →
        (p.code = .ret ∨ ∃ c next, p.code = .call c next ∧ closes c = true) →
        put 5 p.events = got 4 p.events) ∧
      (Transition.Reachable (Netio.system (tcpproxy {}) console .taskmain) (Unused account) n →
        .descriptor 4 ∈ owned p → ∀ s, n.net.world.table 5 = some s →
          n.net.world.output s = put 5 p.events) := by
  obtain ⟨n, checked, reachable⟩ := exists_allowed_run (tcpproxy {}) console .taskmain
    (Unused account) connected (fun n => decide (n.net.world.input 4 = [1, 2, 3]) &&
      decide (n.net.world.output 5 = [1, 2]) &&
      (n.net.proc 4).any fun p : Proc Label => decide (p.entry = .rwtask 100 4 5))
    (by decide +kernel)
  simp only [Option.any_eq_true, Bool.and_eq_true, decide_eq_true_eq] at checked
  obtain ⟨⟨received, written⟩, p, isProc, isRwtask⟩ := checked
  exact ⟨n, p, received, written, reachable, proxy_relays reachable.any isProc isRwtask⟩

/-- The server closes its connection first.  The system gives out the number of the descriptor for
another client, to which the task of the first client then writes. -/
def reuses : List Netio.Act :=
  let accepts : Env := { poll := .ready fun i => if i = 0 then 1 else 0 }
  let writable : Env := { poll := .ready fun i => if i = 0 then 4 else 0 }
  connected ++
    [.go {}, .go { answer := { r := -1, errno := .eagain } }, .go {}, .go {}, .dispatch {}, .go {},
      .go {}, .go {}, .go {}, .go {}, .go {}, .go {}, .dispatch accepts, .dispatch accepts,
      .dispatch accepts, .go { answer := { r := 5 } }, .go {}, .go {}, .go {},
      .go { task := some 6 }, .go {}, .go {}, .dispatch {}, .dispatch {}, .go {}, .go {},
      .go { answer := { data := [1, 2, 3, 4] } }, .go { answer := { r := 6 } }, .go {}, .go {},
      .go {}, .go {}, .dispatch writable, .dispatch writable, .dispatch writable, .go {},
      .go { answer := { r := 1 } }]

/-- Without the condition, a byte of one connection can go to another one. -/
theorem proxy_relays_reused : ∃ (n : State Label) (p q : Proc Label),
    Netio.Reachable (tcpproxy {}) console .taskmain n ∧
    n.net.proc 4 = some p ∧ p.entry = .rwtask 100 4 5 ∧ put 5 p.events = [1, 2, 3] ∧
    n.net.proc 6 = some q ∧ q.entry = .proxytask 5 ∧ .descriptor 5 ∈ owned q ∧
    n.net.world.table 5 = some 6 ∧ n.net.world.output 6 = [3] := by
  obtain ⟨n, checked, reachable⟩ := exists_netio_run (tcpproxy {}) console .taskmain reuses
    (fun n =>
      ((n.net.proc 4).any fun p : Proc Label => decide (p.entry = .rwtask 100 4 5) &&
        decide (put 5 p.events = [1, 2, 3])) &&
      ((n.net.proc 6).any fun q : Proc Label => decide (q.entry = .proxytask 5) &&
        decide (.descriptor 5 ∈ owned q)) &&
      decide (n.net.world.table 5 = some 6) && decide (n.net.world.output 6 = [3]))
    (by decide +kernel)
  simp only [Option.any_eq_true, Bool.and_eq_true, decide_eq_true_eq] at checked
  obtain ⟨⟨⟨first, second⟩, isSocket⟩, output⟩ := checked
  obtain ⟨p, isProc, isRwtask, isPut⟩ := first
  obtain ⟨q, isProc', isProxy, isOwned⟩ := second
  exact ⟨n, p, q, reachable, isProc, isRwtask, isPut, isProc', isProxy, isOwned, isSocket, output⟩

end Libtask.Tcpproxy
