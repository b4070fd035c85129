import Libtask.NetioQuiet
import Libtask.Tcpproxy

/-!
# What the proxy relays

Each `rwtask` reads from one descriptor and writes to another one.  Nobody else reads from its
socket.  It writes what it has read, in order.  While no `write` fails it leaves nothing out: it is
never more than one buffer behind, and it closes its descriptor when it has written everything.
-/

namespace Libtask.Tcpproxy

open Netio
open Interaction (Spec)
open Sockets (Resource)

abbrev Event := Interaction.Event Netio.Call Answer Label

variable {args : Args} {events : List Event} {rest : List UInt8} {a rfd wfd : Int}

/-! ## What was read and written -/

def heard (fd : Int) : Netio.Call → Answer → List UInt8
  | .os c, ans => Sockets.heard fd c ans
  | _, _ => []

/-- The bytes read from a descriptor. -/
def got (fd : Int) (events : List Event) : List UInt8 :=
  events.flatMap fun
    | .called c ans => heard fd c ans
    | .spawned _ => []

/-- The bytes that `write` took for a descriptor. -/
def put (fd : Int) (events : List Event) : List UInt8 :=
  events.flatMap fun
    | .called (.os (.write fd' bytes)) a => if fd' = fd then bytes.take a.r.toNat else []
    | _ => []

/-- No `write` has failed. -/
def unbroken (events : List Event) : Bool :=
  events.all fun
    | .called (.os (.write _ bytes)) a => !Sockets.failed bytes a
    | _ => true

@[simp] theorem got_called (fd : Int) (events : List Event) (c : Netio.Call) (ans : Answer) :
    got fd (events ++ [.called c ans]) = got fd events ++ heard fd c ans := by
  simp [got]

theorem heard_silent {c : Netio.Call} (silent : transfers c = false) (fd : Int) (ans : Answer) :
    heard fd c ans = [] := by
  cases c with
  | os c => cases c <;> first | rfl | cases silent
  | fdwait fd rw | junk size => rfl

theorem got_silent {c : Netio.Call} {ans : Answer} (silent : transfers c = false) (fd : Int) :
    got fd (events ++ [.called c ans]) = got fd events := by
  rw [got_called, heard_silent silent, List.append_nil]

def said (fd : Int) : Netio.Call → Answer → List UInt8
  | .os c, ans => Sockets.said fd c ans
  | _, _ => []

@[simp] theorem put_called (fd : Int) (events : List Event) (c : Netio.Call) (ans : Answer) :
    put fd (events ++ [.called c ans]) = put fd events ++ said fd c ans := by
  cases c with
  | os c => cases c <;> simp [put, said, Sockets.said]
  | fdwait fd rw | junk size => simp [put, said]

theorem put_silent {c : Netio.Call} {ans : Answer} (silent : transfers c = false) (fd : Int) :
    put fd (events ++ [.called c ans]) = put fd events := by
  have nothing : said fd c ans = [] := by
    cases c with
    | os c => cases c <;> first | rfl | cases silent
    | fdwait fd rw | junk size => rfl
  rw [put_called, nothing, List.append_nil]

/-- What was written is part of what was read, in order.  Unless a `write` failed, it is all of it
but `rest`. -/
structure Relays (rfd wfd : Int) (events : List Event) (rest : List UInt8) : Prop where
  sublist : (put wfd events ++ rest).Sublist (got rfd events)
  whole : unbroken events = true → put wfd events ++ rest = got rfd events

namespace Relays

theorem nil : Relays rfd wfd [] [] := ⟨.slnil, fun _ => rfl⟩

/-- A call that neither reads nor writes. -/
theorem other (relays : Relays rfd wfd events rest) {c : Netio.Call} {ans : Answer}
    (silent : transfers c = false) : Relays rfd wfd (events ++ [.called c ans]) rest := by
  have same : unbroken (events ++ [.called c ans]) = unbroken events := by
    cases c with
    | os c =>
        cases c with
        | read fd n | write fd bytes => cases silent
        | _ => simp [unbroken]
    | fdwait fd rw | junk size => simp [unbroken]
  exact ⟨by rw [put_silent silent, got_silent silent]; exact relays.sublist,
    by rw [put_silent silent, got_silent silent, same]; exact relays.whole⟩

theorem read (relays : Relays rfd wfd events []) (n : Nat) (m : Answer) :
    Relays rfd wfd (events ++ [.called (.os (.read rfd n)) m])
      (if 0 ≤ m.r then m.data else []) := by
  have more : got rfd (events ++ [.called (.os (.read rfd n)) m]) =
      got rfd events ++ if 0 ≤ m.r then m.data else [] := by simp [heard, Sockets.heard]
  have same : put wfd (events ++ [.called (.os (.read rfd n)) m]) = put wfd events := by simp [put]
  have sublist := relays.sublist
  rw [List.append_nil] at sublist
  refine ⟨?_, fun isUnbroken => ?_⟩
  · rw [more, same]
    exact sublist.append_right _
  · have whole := relays.whole (by simpa [unbroken] using isUnbroken)
    rw [List.append_nil] at whole
    rw [more, same, whole]

theorem write (relays : Relays rfd wfd events rest) (m : Answer) :
    Relays rfd wfd (events ++ [.called (.os (.write wfd rest)) m]) (rest.drop m.r.toNat) := by
  have same : got rfd (events ++ [.called (.os (.write wfd rest)) m]) = got rfd events := by
    simp [heard, Sockets.heard]
  have more : put wfd (events ++ [.called (.os (.write wfd rest)) m]) ++ rest.drop m.r.toNat =
      put wfd events ++ rest := by simp [put]
  refine ⟨by rw [more, same]; exact relays.sublist, fun isUnbroken => ?_⟩
  rw [more, same]
  exact relays.whole (by
    simp only [unbroken, List.all_append, Bool.and_eq_true] at isUnbroken
    exact isUnbroken.1)

/-- A task that goes on without what is left has written it, or a `write` has failed. -/
theorem done (relays : Relays rfd wfd events rest) (nothing : unbroken events = true → rest = []) :
    Relays rfd wfd events [] := by
  refine ⟨?_, fun isUnbroken => ?_⟩
  · rw [List.append_nil]
    exact (List.sublist_append_left _ _).trans relays.sublist
  · have whole := relays.whole isUnbroken
    rwa [nothing isUnbroken] at whole

end Relays

/-- At most one buffer is left to be written. -/
def Near (rfd wfd : Int) (events : List Event) : Prop :=
  ∃ rest, Relays rfd wfd events rest ∧ rest.length ≤ bufsize

theorem Relays.near (relays : Relays rfd wfd events rest) (fits : rest.length ≤ bufsize) :
    Near rfd wfd events :=
  ⟨rest, relays, fits⟩

/-! ## What is demanded of `rwtask` -/

/-- The calls that `rwtask` makes. -/
def MayCall (a rfd wfd : Int) : Netio.Call → Prop
  | .os (.free p) => p = a
  | .os (.read fd _) | .os (.close fd) => fd = rfd
  | .os (.write fd _) | .os (.shutdown fd) => fd = wfd
  | .fdwait fd rw => fd = rfd ∧ rw = 'r' ∨ fd = wfd ∧ rw = 'w'
  | _ => False

/-- The calls at the end of `rwtask`. -/
def closes : Netio.Call → Bool
  | .os (.shutdown _) | .os (.close _) => true
  | _ => false

/-- In `fdwrite`, with `buf.drop s.tot` still to be written. -/
structure Writing (rfd wfd : Int) (events : List Event) (buf : List UInt8) (s : Fdwrite.St) :
    Prop where
  fits : buf.length ≤ bufsize
  nonneg : 0 ≤ s.tot
  relays : Relays rfd wfd events (buf.drop s.tot.toNat)
  more : (∀ r, s.pc ≠ .ret r) → s.tot < buf.length
  nothing : ∀ r, s.pc = .ret r → unbroken events = true → buf.drop s.tot.toNat = []

/-- What holds of an `rwtask` at a label. -/
def At (a rfd wfd : Int) (events : List Event) : Label → Prop
  | .rwtask a' rfd' wfd' => (a', rfd', wfd') = (a, rfd, wfd) ∧ Relays rfd wfd events []
  | .reading rfd' wfd' => (rfd', wfd') = (rfd, wfd) ∧ Relays rfd wfd events []
  | .writing rfd' wfd' buf s => (rfd', wfd') = (rfd, wfd) ∧ Writing rfd wfd events buf s
  | _ => False

/-- Where the tasks other than `rwtask` are. -/
def outer : Label → Bool
  | .taskmain | .accepting _ | .proxytask _ => true
  | _ => false

/-- Where a task starts. -/
def isStart : Label → Bool
  | .reading _ _ | .writing _ _ _ _ => false
  | _ => true

/-- The history of each `rwtask` is followed; the other tasks read and write nothing. -/
def relaying : Spec Netio.Call Answer Label (Label × List Event) where
  possible := (discipline account).possible
  start l := (l, [])
  called h c ans := (h.1, h.2 ++ [.called c ans])
  spawned h l := (h.1, h.2 ++ [.spawned l])
  inv l h := match h.1 with
    | .rwtask a rfd wfd => At a rfd wfd h.2 l
    | _ => outer h.1 = true ∧ outer l = true
  calls h c := match h.1 with
    | .rwtask a rfd wfd => MayCall a rfd wfd c ∧ (closes c = true → Relays rfd wfd h.2 []) ∧
        ∀ ans, (discipline account).possible c ans → Near rfd wfd (h.2 ++ [.called c ans])
    | _ => transfers c = false
  spawns h l := outer h.1 = true ∧ isStart l = true
  ends h := match h.1 with
    | .rwtask _ rfd wfd => Relays rfd wfd h.2 []
    | _ => True

theorem relaying_records : relaying.Records := ⟨fun _ => rfl, fun _ _ _ => rfl, fun _ _ => rfl⟩

abbrev QuietCode : Prog Label → Prop :=
  Netio.Quiet (fun l => outer l = true) fun l => isStart l = true

theorem valid_quiet {entry : Label} (isOuter : outer entry = true) {code : Prog Label}
    (isQuiet : QuietCode code) (events : List Event) : relaying.Valid (entry, events) code := by
  cases entry with
  | rwtask | reading | writing => cases isOuter
  | taskmain | accepting | proxytask =>
      induction code generalizing events with
      | goto l => exact ⟨rfl, isQuiet⟩
      | call c next ih => exact ⟨isQuiet.1, fun ans _ => ih ans (isQuiet.2 ans) _⟩
      | spawn child next ih => exact ⟨⟨rfl, isQuiet.1⟩, ih isQuiet.2 _⟩
      | ret => trivial
      | stop why => trivial

theorem quiet_mkfd2 {next : Int → Prog Label} (goesOn : ∀ a, QuietCode (next a)) :
    QuietCode (mkfd2 next) := by
  refine quiet_call rfl fun a => ?_
  split
  · trivial
  · exact goesOn _

/-- The tasks other than `rwtask` read and write nothing. -/
theorem quiet_outer {l : Label} (isOuter : outer l = true) : QuietCode (tcpproxy args l) := by
  cases l with
  | taskmain =>
      change QuietCode (taskmain args)
      unfold taskmain
      split
      · trivial
      · refine quiet_netannounce fun fd => ?_
        split
        · trivial
        · exact quiet_fdnoblock rfl
  | accepting fd =>
      change QuietCode (accepting fd)
      refine quiet_netaccept fun cfd client => ?_
      split
      · exact ⟨rfl, rfl⟩
      · trivial
  | proxytask fd =>
      change QuietCode (proxytask args fd)
      refine quiet_netdial fun remotefd => ?_
      split
      · exact quiet_call rfl fun _ => trivial
      · exact quiet_mkfd2 fun a => ⟨rfl, quiet_mkfd2 fun b => ⟨rfl, trivial⟩⟩
  | rwtask a rfd wfd => cases isOuter
  | reading rfd wfd => cases isOuter
  | writing rfd wfd buf s => cases isOuter

/-- The code of an `rwtask` that has done `events`. -/
abbrev Follows (a rfd wfd : Int) (events : List Event) (code : Prog Label) : Prop :=
  relaying.Valid (.rwtask a rfd wfd, events) code

theorem follows_goto {l : Label} (isAt : At a rfd wfd events l) :
    Follows a rfd wfd events (.goto l) :=
  isAt

theorem follows_call {c : Netio.Call} {next : Answer → Prog Label} (mayCall : MayCall a rfd wfd c)
    (level : closes c = true → Relays rfd wfd events [])
    (near : ∀ ans, (discipline account).possible c ans →
      Near rfd wfd (events ++ [.called c ans]))
    (goesOn : ∀ ans, (discipline account).possible c ans →
      Follows a rfd wfd (events ++ [.called c ans]) (next ans)) :
    Follows a rfd wfd events (.call c next) :=
  ⟨⟨mayCall, level, near⟩, goesOn⟩

/-- A call that neither reads nor writes. -/
theorem follows_other {c : Netio.Call} {next : Answer → Prog Label}
    (relays : Relays rfd wfd events rest) (fits : rest.length ≤ bufsize)
    (silent : transfers c = false) (mayCall : MayCall a rfd wfd c)
    (level : closes c = true → rest = [])
    (goesOn : ∀ ans, Relays rfd wfd (events ++ [.called c ans]) rest →
      Follows a rfd wfd (events ++ [.called c ans]) (next ans)) :
    Follows a rfd wfd events (.call c next) :=
  follows_call mayCall (fun isClose => level isClose ▸ relays)
    (fun _ _ => (relays.other silent).near fits) fun ans _ => goesOn ans (relays.other silent)

/-- Such a call when nothing is left to be written. -/
theorem follows_level {c : Netio.Call} {next : Answer → Prog Label}
    (relays : Relays rfd wfd events []) (silent : transfers c = false)
    (mayCall : MayCall a rfd wfd c)
    (goesOn : ∀ ans, Relays rfd wfd (events ++ [.called c ans]) [] →
      Follows a rfd wfd (events ++ [.called c ans]) (next ans)) :
    Follows a rfd wfd events (.call c next) :=
  follows_other relays (Nat.zero_le _) silent mayCall (fun _ => rfl) goesOn

theorem follows_ret (relays : Relays rfd wfd events []) : Follows a rfd wfd events .ret :=
  relays

/-! ## `rwtask` -/

/-- At the start of `fdwrite`. -/
theorem Writing.start {buf : List UInt8} (relays : Relays rfd wfd events buf)
    (fits : buf.length ≤ bufsize) (more : 0 < buf.length) :
    Writing rfd wfd events buf (Fdwrite.start buf.length) := by
  have goesOn : (Fdwrite.start buf.length).pc = .write := if_pos (by omega)
  refine ⟨fits, le_rfl, relays, fun _ => ?_, fun r isRet => ?_⟩
  · simp only [Fdwrite.start]
    omega
  · rw [goesOn] at isRet
    cases isRet

theorem follows_reading (relays : Relays rfd wfd events []) :
    Follows a rfd wfd events (reading rfd wfd) := by
  refine follows_call rfl (fun isClose => by cases isClose) (fun m isPossible => ?_)
    fun m isPossible => ?_
  · refine (relays.read bufsize m).near ?_
    split
    · exact (isPossible.resolve_left (by omega)).2
    · exact Nat.zero_le _
  · have relays := relays.read bufsize m
    split
    next again =>
      rw [if_neg (not_le.mpr again.1)] at relays
      exact follows_level relays rfl (Or.inl ⟨rfl, rfl⟩) fun _ relays => follows_goto ⟨rfl, relays⟩
    next =>
      beta_reduce
      split
      next more =>
        have bounds := isPossible.resolve_left (by omega)
        rw [if_pos (by omega)] at relays
        exact follows_goto ⟨rfl, .start relays bounds.2 (by omega)⟩
      next noMore =>
        have nothing : (if 0 ≤ m.r then m.data else []) = [] := by
          split
          · have bounds := isPossible.resolve_left (by omega)
            exact List.eq_nil_of_length_eq_zero (by omega)
          · rfl
        rw [nothing] at relays
        exact follows_level relays rfl rfl fun _ relays =>
          follows_level relays rfl rfl fun _ relays => follows_ret relays

/-- After a `write` that was asked for all that was left. -/
theorem Writing.wrote {buf : List UInt8} {s : Fdwrite.St} {m : Answer}
    (writing : Writing rfd wfd events buf s) (isWrite : s.pc = .write) :
    Writing rfd wfd (events ++ [.called (.os (.write wfd (buf.drop s.tot.toNat))) m]) buf
      (Fdwrite.wrote wfd buf.length s m.r (m.errno = .eagain)) := by
  have relays := writing.relays.write m
  have nonneg := writing.nonneg
  have more := writing.more (by simp [isWrite])
  have fits := writing.fits
  rw [List.drop_drop] at relays
  have broken (failed : Sockets.failed (buf.drop s.tot.toNat) m = true) :
      unbroken (events ++ [.called (.os (.write wfd (buf.drop s.tot.toNat))) m]) = false := by
    simp [unbroken, failed]
  unfold Fdwrite.wrote
  split
  next again =>
    have none : m.r.toNat = 0 := by omega
    rw [none, Nat.add_zero] at relays
    exact ⟨fits, nonneg, relays, fun _ => more, fun r isRet => by cases isRet⟩
  next notAgain =>
    split
    next negative =>
      have none : m.r.toNat = 0 := by omega
      rw [none, Nat.add_zero] at relays
      refine ⟨fits, nonneg, relays, fun noRet => absurd rfl (noRet m.r), fun r _ isUnbroken => ?_⟩
      rw [broken (by simp_all [Sockets.failed])] at isUnbroken
      cases isUnbroken
    next notNegative =>
      split
      next zero =>
        rw [zero, Int.toNat_zero, Nat.add_zero] at relays
        refine ⟨fits, nonneg, by simpa using relays, fun noRet => absurd rfl (noRet s.tot),
          fun r _ isUnbroken => ?_⟩
        have notEmpty : buf.drop s.tot.toNat ≠ [] := by
          rw [Ne, List.drop_eq_nil_iff]
          omega
        rw [broken (by simp [Sockets.failed, zero, notEmpty])] at isUnbroken
        cases isUnbroken
      next =>
        have sum : (s.tot + m.r).toNat = s.tot.toNat + m.r.toNat := by omega
        refine ⟨fits, by simp only; omega, by simpa only [sum] using relays, ?_, ?_⟩
        · intro noRet
          simp only [Fdwrite.loop] at noRet ⊢
          by_contra isAll
          rw [if_neg isAll] at noRet
          exact noRet _ rfl
        · intro r isRet _
          simp only [Fdwrite.loop] at isRet ⊢
          rw [List.drop_eq_nil_iff]
          split at isRet
          · cases isRet
          · omega

/-- After `fdwait`. -/
theorem Writing.woken {buf : List UInt8} {s : Fdwrite.St} {events' : List Event}
    (writing : Writing rfd wfd events buf s) (isWait : s.pc = .fdwait)
    (relays : Relays rfd wfd events' (buf.drop s.tot.toNat)) :
    Writing rfd wfd events' buf { s with pc := .write } := by
  refine ⟨writing.fits, writing.nonneg, relays, fun _ => ?_, fun r isRet => by cases isRet⟩
  exact writing.more (by simp [isWait])

theorem follows_writing {buf : List UInt8} {s : Fdwrite.St}
    (writing : Writing rfd wfd events buf s) :
    Follows a rfd wfd events (tcpproxy args (.writing rfd wfd buf s)) := by
  have fits : (buf.drop s.tot.toNat).length ≤ bufsize := by
    have := writing.fits
    rw [List.length_drop]
    omega
  simp only [tcpproxy, fdwrite]
  split
  next r isRet => exact follows_goto ⟨rfl, writing.relays.done (writing.nothing r isRet)⟩
  next isWait =>
    refine follows_other writing.relays fits rfl (Or.inr ⟨rfl, rfl⟩)
      (fun isClose => by cases isClose)
      fun _ relays => follows_goto ⟨rfl, writing.woken isWait relays⟩
  next isWrite =>
    refine follows_call rfl (fun isClose => by cases isClose) (fun m _ => ?_)
      fun m _ => follows_goto ⟨rfl, writing.wrote isWrite⟩
    refine (writing.relays.write m).near ?_
    rw [List.length_drop]
    omega

theorem relaying_sound (args : Args) : relaying.Sound (tcpproxy args) where
  child := by
    rintro h l ⟨-, starts⟩
    cases l with
    | reading | writing => cases starts
    | rwtask => exact ⟨rfl, .nil⟩
    | taskmain | accepting | proxytask => exact ⟨rfl, rfl⟩
  code := by
    rintro l ⟨entry, events⟩ here
    cases entry with
    | taskmain | accepting | proxytask => exact valid_quiet rfl (quiet_outer here.2) events
    | reading | writing => cases here.1
    | rwtask a rfd wfd =>
        cases l with
        | taskmain | accepting | proxytask => cases here
        | rwtask a' rfd' wfd' =>
            obtain ⟨⟨⟩, relays⟩ := here
            exact follows_level relays rfl rfl fun _ relays => follows_goto ⟨rfl, relays⟩
        | reading rfd' wfd' =>
            obtain ⟨⟨⟩, relays⟩ := here
            exact follows_reading relays
        | writing rfd' wfd' buf s =>
            obtain ⟨⟨⟩, writing⟩ := here
            exact follows_writing writing

/-! ## What holds of each task -/

/-- What a task has done so far. -/
def Told (entry : Label) (events : List Event) : Prop :=
  match entry with
  | .rwtask a rfd wfd => Near rfd wfd events ∧
      ∀ e ∈ events, ∃ c ans, e = .called c ans ∧ MayCall a rfd wfd c
  | .reading _ _ | .writing _ _ _ _ => False
  | _ => ∀ fd, got fd events = [] ∧ put fd events = []

variable {os : Sockets.Os} {net : Netio.Net Label} {n : State Label}
variable {t u : TaskPtr} {p : Proc Label}

/-- The network comes to `net`. -/
abbrev Comes (args : Args) (os : Sockets.Os) (u : TaskPtr) (net : Netio.Net Label) : Prop :=
  Interaction.Reaches (tcpproxy args) Netio.does (.start os u .taskmain) net

theorem Comes.valid (comes : Comes args os u net) (isProc : net.proc t = some p) :
    relaying.Valid (p.entry, p.events) p.code := by
  have valid := Interaction.Reaches.meets comes (relaying_sound args)
    (@discipline_laws Label account).possible ⟨rfl, rfl⟩ t p isProc
  rwa [relaying_records.ghost] at valid

theorem Comes.told (comes : Comes args os u net) (isProc : net.proc t = some p) :
    Told p.entry p.events := by
  have told := Interaction.Reaches.always comes (fun h => Told h.1 h.2) (relaying_sound args)
    (@discipline_laws Label account).possible ⟨rfl, rfl⟩ ?_ ?_ ?_ t p isProc
  · rwa [relaying_records.ghost] at told
  · exact fun _ => ⟨rfl, rfl⟩
  · rintro ⟨entry, events⟩ c ans calls isPossible told
    cases entry with
    | rwtask a rfd wfd =>
        refine ⟨calls.2.2 ans isPossible, fun e member => ?_⟩
        rcases List.mem_append.mp member with before | isLast
        · exact told.2 e before
        · exact ⟨c, ans, List.mem_singleton.mp isLast, calls.1⟩
    | reading | writing => exact told
    | _ =>
        intro fd
        exact ⟨(got_silent calls fd).trans (told fd).1, (put_silent calls fd).trans (told fd).2⟩
  · rintro ⟨entry, events⟩ l ⟨isOuter, starts⟩ told
    have same (fd : Int) : got fd (events ++ [.spawned l]) = got fd events ∧
        put fd (events ++ [.spawned l]) = put fd events := by simp [got, put]
    constructor
    · cases entry with
      | taskmain | accepting | proxytask =>
          exact fun fd => ⟨(same fd).1.trans (told fd).1, (same fd).2.trans (told fd).2⟩
      | _ => cases isOuter
    · cases l with
      | rwtask =>
          exact ⟨Relays.nil.near (Nat.zero_le _), fun e member => absurd member List.not_mem_nil⟩
      | reading | writing => cases starts
      | _ => exact fun _ => ⟨rfl, rfl⟩

/-! ## What the sockets have received -/

/-- What has been read from the socket behind a descriptor is what its owner has read. -/
structure Inputs (net : Netio.Net Label) : Prop where
  socket : ∀ t p fd, net.proc t = some p → .descriptor fd ∈ owned p →
    ∃ s, net.world.table fd = some s ∧ net.world.input s = got fd p.events
  apart : ∀ t u p q fd fd' s, net.proc t = some p → net.proc u = some q →
    .descriptor fd ∈ owned p → .descriptor fd' ∈ owned q →
    net.world.table fd = some s → net.world.table fd' = some s → fd = fd'

/-- The owners of descriptors change, and nothing else. -/
theorem Inputs.of_owners {net' : Netio.Net Label} (inputs : Inputs net)
    (world : net'.world = net.world)
    (owners : ∀ u q fd, net'.proc u = some q → .descriptor fd ∈ owned q →
      ∃ t p, net.proc t = some p ∧ .descriptor fd ∈ owned p ∧ got fd p.events = got fd q.events) :
    Inputs net' := by
  refine ⟨fun u q fd isProc member => ?_, fun u v q q' fd fd' s isProc isProc' member member' => ?_⟩
  · obtain ⟨t, p, isProc, member, same⟩ := owners u q fd isProc member
    rw [world, ← same]
    exact inputs.socket t p fd isProc member
  · obtain ⟨t, p, isProc, member, -⟩ := owners u q fd isProc member
    obtain ⟨t', p', isProc', member', -⟩ := owners v q' fd' isProc' member'
    rw [world]
    exact inputs.apart t t' p p' fd fd' s isProc isProc' member member'

section
variable {c : Sockets.Call} {ans : Answer} {next : Answer → Prog Label} {world : Sockets.Os}
variable {lost : Multiset Resource}

theorem mem_called {fd : Int} (nodup : (owned p).Nodup) :
    .descriptor fd ∈ owned (p.called (.os c) ans next) ↔
      .descriptor fd ∈ owned p ∧ Sockets.frees c ≠ some (.descriptor fd) ∨
        Sockets.gains c ans = some (.descriptor fd) := by
  have after : owned (p.called (.os c) ans next) = owned p -
      Ownership.Discipline.ofOption (Sockets.frees c) +
      Ownership.Discipline.ofOption (Sockets.gains c ans) :=
    Ownership.Discipline.owned_called ..
  rw [after]
  simp [Multiset.mem_sub_of_nodup nodup]

/-- The socket of a descriptor that has an owner, after a call of the task at `t`. -/
theorem Inputs.kept (inputs : Inputs net)
    (tidy : Tidy os net lost)
    (isProc : net.proc t = some p) (isCode : p.code = .call (.os c) next)
    (done : Sockets.does net.world c ans = some world) {q : Proc Label} {fd : Int}
    (isProc' : net.proc u = some q) (member : .descriptor fd ∈ owned q)
    (notFreed : u = t → Sockets.frees c ≠ some (.descriptor fd)) :
    ∃ s, net.world.table fd = some s ∧ world.table fd = some s ∧
      world.input s = got fd q.events ++ if u = t then heard fd (.os c) ans else [] := by
  obtain ⟨s, isSocket, input⟩ := inputs.socket u q fd isProc' member
  have uses {r : Resource} (isUse : sysUses c = some r) : r ∈ owned p :=
    (tidy.uses isProc isCode isUse).1
  -- only its owner reads from a descriptor and closes it
  have self (used : .descriptor fd ∈ owned p) : u = t :=
    tidy.apart isProc' isProc member used
  have stays : Sockets.frees c ≠ some (.descriptor fd) := fun isFreed =>
    notFreed (self (uses ((discipline account).frees_uses (.os c) _ isFreed))) isFreed
  obtain ⟨isSocket', input'⟩ := (Sockets.does_effect done).input isSocket stays
    (fun fd' n isRead isSocket' => by
      subst isRead
      exact inputs.apart t u p q fd' fd s isProc isProc' (uses rfl) member isSocket' isSocket)
  refine ⟨s, isSocket, isSocket', ?_⟩
  rw [input', input]
  by_cases isSelf : u = t
  · rw [if_pos isSelf]
    rfl
  · have nothing : Sockets.heard fd c ans = [] := by
      cases c with
      | read fd' n =>
          have other : fd' ≠ fd := by
            rintro rfl
            exact isSelf (self (uses rfl))
          simp [Sockets.heard, other]
      | _ => rfl
    rw [if_neg isSelf, nothing]

/-- The socket of a descriptor that the task at `t` opens. -/
theorem opened_unread (done : Sockets.does net.world c ans = some world) {fd : Int}
    (gained : Sockets.gains c ans = some (.descriptor fd)) (unread : got fd p.events = []) :
    world.table fd = some net.world.made ∧
      world.input net.world.made = got fd (p.called (.os c) ans next).events := by
  obtain ⟨isSocket, input, -⟩ := (Sockets.does_effect done).opened gained
  refine ⟨isSocket, input.trans ?_⟩
  change [] = got fd (p.events ++ [.called (.os c) ans])
  rw [got_called, unread, heard, Sockets.heard_of_fails (by rintro _ _ rfl; cases gained)]
  rfl

/-- A call for a descriptor of the caller changes what only the caller has read. -/
theorem Inputs.call (inputs : Inputs net)
    (tidy : Tidy os net lost)
    (isProc : net.proc t = some p) (isCode : p.code = .call (.os c) next)
    (done : Sockets.does net.world c ans = some world)
    (unread : ∀ fd, Sockets.gains c ans = some (.descriptor fd) → got fd p.events = []) :
    Inputs ({ net with world }.set t (some (p.called (.os c) ans next))) := by
  have nodup := tidy.nodup t p isProc
  -- a descriptor had an owner before, or is new
  have owner {u : TaskPtr} {q : Proc Label} {fd : Int}
      (isProc' : ({ net with world }.set t (some (p.called (.os c) ans next))).proc u = some q)
      (member : .descriptor fd ∈ owned q) :
      (∃ q₀ s, net.proc u = some q₀ ∧ .descriptor fd ∈ owned q₀ ∧
        net.world.table fd = some s ∧ world.table fd = some s ∧ world.input s = got fd q.events) ∨
      Sockets.gains c ans = some (.descriptor fd) ∧ q = p.called (.os c) ans next := by
    by_cases isSelf : u = t
    · subst isSelf
      obtain rfl : p.called (.os c) ans next = q := by
        simpa [Interaction.Net.set] using isProc'
      rcases (mem_called nodup).mp member with ⟨wasOwned, notFreed⟩ | gained
      · obtain ⟨s, first, now, input⟩ :=
          inputs.kept tidy isProc isCode done isProc wasOwned fun _ => notFreed
        refine Or.inl ⟨p, s, isProc, wasOwned, first, now, input.trans ?_⟩
        simp [Interaction.Proc.called]
      · exact Or.inr ⟨gained, rfl⟩
    · have isOther : net.proc u = some q := by simpa [Interaction.Net.set, isSelf] using isProc'
      obtain ⟨s, first, now, input⟩ :=
        inputs.kept tidy isProc isCode done isOther member fun same => absurd same isSelf
      rw [if_neg isSelf, List.append_nil] at input
      exact Or.inl ⟨q, s, isOther, member, first, now, input⟩
  refine ⟨fun u q fd isProc' member => ?_, fun u v q q' fd fd' s isProc' isProc'' member member'
    isSocket isSocket' => ?_⟩
  · rcases owner isProc' member with ⟨_, s, -, -, -, isSocket, input⟩ | ⟨gained, rfl⟩
    · exact ⟨s, isSocket, input⟩
    · exact ⟨_, opened_unread done gained (unread fd gained)⟩
  · have opened {fd : Int} (gained : Sockets.gains c ans = some (.descriptor fd)) :
        world.table fd = some net.world.made := ((Sockets.does_effect done).opened gained).1
    change world.table fd = some s at isSocket
    change world.table fd' = some s at isSocket'
    rcases owner isProc' member with ⟨q₀, s₁, was, wasOwned, first, now, -⟩ | ⟨gained, -⟩ <;>
      rcases owner isProc'' member' with
        ⟨q₀', s₂, was', wasOwned', first', now', -⟩ | ⟨gained', -⟩
    · obtain rfl := Option.some.inj (now.symm.trans isSocket)
      obtain rfl := Option.some.inj (now'.symm.trans isSocket')
      exact inputs.apart u v q₀ q₀' fd fd' _ was was' wasOwned wasOwned' first first'
    · obtain rfl := Option.some.inj (now.symm.trans isSocket)
      obtain rfl := Option.some.inj ((opened gained').symm.trans isSocket')
      exact absurd (net.world.old fd _ first) (lt_irrefl _)
    · obtain rfl := Option.some.inj (now'.symm.trans isSocket')
      obtain rfl := Option.some.inj ((opened gained).symm.trans isSocket)
      exact absurd (net.world.old fd' _ first') (lt_irrefl _)
    · obtain ⟨⟩ := gained.symm.trans gained'
      rfl

end

/-- A task goes on, and owns no more than it did. -/
theorem Inputs.set {q : Proc Label} (inputs : Inputs net) (isProc : net.proc t = some p)
    (owner : ∀ fd, .descriptor fd ∈ owned q →
      .descriptor fd ∈ owned p ∧ got fd p.events = got fd q.events) :
    Inputs (net.set t (some q)) := by
  refine inputs.of_owners rfl fun u q' fd isProc' member => ?_
  rcases Interaction.Net.proc_set isProc' with ⟨-, ⟨⟩⟩ | ⟨-, isProc'⟩
  · exact ⟨t, p, isProc, owner fd member⟩
  · exact ⟨u, q', isProc', member, rfl⟩

theorem Comes.quiet_outer (comes : Comes args os u net) (isProc : net.proc t = some p)
    (isOuter : outer p.entry = true) (fd : Int) : got fd p.events = [] ∧ put fd p.events = [] := by
  have told := comes.told isProc
  cases isEntry : p.entry <;> rw [isEntry] at told isOuter
  case rwtask | reading | writing => cases isOuter
  all_goals exact told fd

/-- An `rwtask` opens nothing. -/
theorem Comes.outer_opens {c : Sockets.Call} {ans : Answer} {next : Answer → Prog Label} {fd : Int}
    (comes : Comes args os u net) (isProc : net.proc t = some p)
    (isCode : p.code = .call (.os c) next) (gained : Sockets.gains c ans = some (.descriptor fd)) :
    outer p.entry = true := by
  have told := comes.told isProc
  have valid := comes.valid isProc
  rw [isCode] at valid
  cases isEntry : p.entry <;> rw [isEntry] at told valid
  case rwtask a rfd wfd =>
    have mayCall : MayCall a rfd wfd (.os c) := valid.1.1
    cases c <;> first | cases gained | cases mayCall
  case reading | writing => exact told.elim
  all_goals rfl

theorem Comes.inputs (comes : Comes args os u net) : Inputs net := by
  induction comes with
  | refl =>
      have nothing {t : TaskPtr} {p : Proc Label} {fd : Int}
          (isProc : (Interaction.Net.start os u .taskmain : Netio.Net Label).proc t = some p)
          (member : .descriptor fd ∈ owned p) : False := by
        obtain ⟨-, rfl⟩ := Interaction.Net.proc_start isProc
        exact Multiset.notMem_zero _ member
      exact ⟨fun t p fd isProc member => (nothing isProc member).elim,
        fun t v p q fd fd' s isProc _ member _ _ _ => (nothing isProc member).elim⟩
  | @tail net net' comes stepped inputs =>
      have comes : Comes args os u net := comes
      obtain ⟨lost, tidy⟩ := reaches_tidy comes
      obtain ⟨t, moves⟩ := stepped
      cases moves with
      | goto isProc isCode => exact inputs.set isProc fun fd member => ⟨member, rfl⟩
      | @call p c ans next world isProc isCode done =>
          cases c with
          | os c =>
              exact inputs.call tidy isProc isCode done fun fd gained =>
                (comes.quiet_outer isProc (comes.outer_opens isProc isCode gained) fd).1
          | fdwait fd rw | junk size =>
              obtain rfl := Option.some.inj done
              refine inputs.set isProc fun fd member => ⟨?_, (got_silent rfl fd).symm⟩
              simpa [owned, Ownership.Discipline.after, discipline] using member
      | @spawn p v child next isProc isCode fresh =>
          have meets := tidy.meets t p isProc
          have valid := comes.valid isProc
          rw [isCode] at meets valid
          have less : owned (p.spawned child next) ≤ owned p := by
            rw [owned, Ownership.Discipline.owned_spawned]
            exact Multiset.sub_le_self _ _
          refine inputs.of_owners rfl fun w q fd isProc' member => ?_
          rcases Interaction.Net.proc_set isProc' with ⟨-, ⟨⟩⟩ | ⟨-, isProc'⟩
          · exact ⟨t, p, isProc, Multiset.mem_of_le meets.1.1 member,
              (comes.quiet_outer isProc valid.1.1 fd).1⟩
          · rcases Interaction.Net.proc_set isProc' with ⟨-, ⟨⟩⟩ | ⟨-, isProc'⟩
            · exact ⟨t, p, isProc, Multiset.mem_of_le less member,
                by simp [got, Interaction.Proc.spawned]⟩
            · exact ⟨w, q, isProc', member, rfl⟩
      | ret isProc isCode =>
          refine inputs.of_owners rfl fun u q fd isProc' member => ?_
          rcases Interaction.Net.proc_set isProc' with ⟨-, ⟨⟩⟩ | ⟨-, isProc'⟩
          exact ⟨u, q, isProc', member, rfl⟩

end Libtask.Tcpproxy
