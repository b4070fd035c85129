import Mathlib.Data.Int.Notation
import Mathlib.Logic.Function.Basic

/-!
# Sockets and descriptors

The calls of a program that works with sockets, and what the operating system keeps of them: which
socket each open descriptor refers to, which sockets have been bound to an address, the blocks of
memory in use, and the bytes that went through each socket.  What the system answers is not fixed,
up to what the calls promise.
-/

namespace Sockets

open Function (update update_of_ne)

inductive SockType where
  | stream
  | dgram
  deriving DecidableEq, Repr

inductive SockOpt where
  | type
  | reuseaddr
  | broadcast
  | error
  | nodelay
  deriving DecidableEq, Repr

inductive Errno where
  | eagain
  | einprogress
  | other
  deriving DecidableEq, Repr

inductive Call where
  | socket (type : SockType)
  | bind (fd : Int) (addr : List UInt8) (port : Nat)
  | listen (fd : Int) (backlog : Nat)
  | accept (fd : Int)
  | connect (fd : Int) (addr : List UInt8) (port : Nat)
  | getpeername (fd : Int)
  | getsockopt (fd : Int) (opt : SockOpt)
  | setsockopt (fd : Int) (opt : SockOpt) (val : Int)
  | getfl (fd : Int)
  | setfl (fd : Int) (flags : BitVec 32)
  | gethostbyname (name : List UInt8)
  | read (fd : Int) (n : Nat)
  | write (fd : Int) (bytes : List UInt8)
  | shutdown (fd : Int)
  | close (fd : Int)
  | malloc (size : Nat)
  | free (p : Int)
  deriving DecidableEq, Repr

/-- The result, the error if it is negative, and the bytes that the call stores. -/
structure Answer where
  r : Int := 0
  errno : Errno := .other
  data : List UInt8 := []
  deriving DecidableEq, Repr

/-- A `read` stores as many bytes as it returns, and a `write` takes at most what it is given. -/
def possible : Call → Answer → Prop
  | .read _ n, a => a.r < 0 ∨ a.r = a.data.length ∧ a.data.length ≤ n
  | .write _ bytes, a => a.r ≤ bytes.length
  | _, _ => True

instance (c : Call) (a : Answer) : Decidable (possible c a) := by
  cases c <;> simp only [possible] <;> infer_instance

/-- A `write` that neither took bytes nor is to be tried again. -/
def failed (bytes : List UInt8) (a : Answer) : Bool :=
  if a.r < 0 then a.errno ≠ .eagain else a.r = 0 && !bytes.isEmpty

structure Os where
  /-- the socket behind each open descriptor -/
  table : Int → Option Nat
  /-- how many sockets there have been -/
  made : Nat
  old : ∀ fd s, table fd = some s → s < made
  /-- a `bind` to the socket has succeeded -/
  bound : Nat → Bool
  /-- the blocks that `malloc` has given out -/
  heap : Int → Bool
  /-- what the program has read from each socket -/
  input : Nat → List UInt8
  /-- what it has written -/
  output : Nat → List UInt8

/-- What a program may hold. -/
inductive Resource where
  | descriptor (fd : Int)
  | block (p : Int)
  deriving DecidableEq, Repr

namespace Os

variable (os : Os)

def opened (fd : Int) : Prop := os.table fd ≠ none

def holds : Resource → Prop
  | .descriptor fd => os.opened fd
  | .block p => os.heap p = true

/-- The descriptor refers to a socket that the program has bound to an address. -/
def isBound : Resource → Prop
  | .descriptor fd => ∃ s, os.table fd = some s ∧ os.bound s = true
  | .block _ => False

/-- A new socket at `fd`. -/
def add (fd : Int) : Os where
  table := update os.table fd (some os.made)
  made := os.made + 1
  old fd' s isSocket := by
    rw [Function.update_apply] at isSocket
    split at isSocket
    · exact Option.some.inj isSocket ▸ Nat.lt_succ_self _
    · exact Nat.lt_succ_of_lt (os.old fd' s isSocket)
  bound := update os.bound os.made false
  heap := os.heap
  input := update os.input os.made []
  output := update os.output os.made []

def enter (fd : Int) : Option Os := if os.table fd = none then some (os.add fd) else none

def bind (fd : Int) : Option Os :=
  (os.table fd).map fun s => { os with bound := update os.bound s true }

def take (fd : Int) (bytes : List UInt8) : Option Os :=
  (os.table fd).map fun s => { os with input := update os.input s (os.input s ++ bytes) }

def give (fd : Int) (bytes : List UInt8) : Option Os :=
  (os.table fd).map fun s => { os with output := update os.output s (os.output s ++ bytes) }

def close (fd : Int) : Os :=
  { os with
    table := update os.table fd none
    old := fun fd' s isSocket => by
      rw [Function.update_apply] at isSocket
      split at isSocket
      · cases isSocket
      · exact os.old fd' s isSocket }

def alloc (p : Int) : Option Os :=
  if os.heap p then none else some { os with heap := update os.heap p true }

def free (p : Int) : Os := { os with heap := update os.heap p false }

end Os

/-- What a call does that gets the answer `a`, or nothing if it cannot. -/
def does (os : Os) (c : Call) (a : Answer) : Option Os :=
  if possible c a then
    match c with
    | .socket _ | .accept _ => if a.r < 0 then some os else os.enter a.r
    | .bind fd _ _ => if a.r < 0 then some os else os.bind fd
    | .read fd _ => if a.r < 0 then some os else os.take fd a.data
    | .write fd bytes => if a.r < 0 then some os else os.give fd (bytes.take a.r.toNat)
    | .close fd => some (os.close fd)
    | .malloc _ => if a.r = 0 then some os else os.alloc a.r
    | .free p => some (os.free p)
    | _ => some os
  else none

/-- What a call gives the program. -/
def gains : Call → Answer → Option Resource
  | .socket _, a => if a.r < 0 then none else some (.descriptor a.r)
  | .accept _, a => if a.r < 0 then none else some (.descriptor a.r)
  | .malloc _, a => if a.r = 0 then none else some (.block a.r)
  | _, _ => none

/-- The descriptor that a call binds to an address. -/
def binds : Call → Answer → Option Resource
  | .bind fd _ _, a => if a.r < 0 then none else some (.descriptor fd)
  | _, _ => none

/-- What a call reads from a descriptor. -/
def heard (fd : Int) : Call → Answer → List UInt8
  | .read fd' _, a => if fd' = fd ∧ 0 ≤ a.r then a.data else []
  | _, _ => []

/-- What a call writes to a descriptor. -/
def said (fd : Int) : Call → Answer → List UInt8
  | .write fd' bytes, a => if fd' = fd then bytes.take a.r.toNat else []
  | _, _ => []

/-- What the program gives back with a call. -/
def frees : Call → Option Resource
  | .close fd => some (.descriptor fd)
  | .free p => some (.block p)
  | _ => none

/-! ## Effects -/

/-- What a call changes. -/
inductive Effect (os : Os) (c : Call) (a : Answer) : Os → Prop where
  | same : gains c a = none → frees c = none → binds c a = none →
      (∀ fd n, c = .read fd n → a.r < 0) → (∀ fd bytes, c = .write fd bytes → a.r < 0) →
      Effect os c a os
  | enter {fd : Int} : gains c a = some (.descriptor fd) → frees c = none → binds c a = none →
      os.table fd = none → Effect os c a (os.add fd)
  | alloc {p : Int} : gains c a = some (.block p) → frees c = none → binds c a = none →
      os.heap p = false → Effect os c a { os with heap := update os.heap p true }
  | bind {fd : Int} {addr : List UInt8} {port s : Nat} : c = .bind fd addr port →
      os.table fd = some s → Effect os c a { os with bound := update os.bound s true }
  | close {fd : Int} : c = .close fd → Effect os c a (os.close fd)
  | free {p : Int} : c = .free p → Effect os c a (os.free p)
  | read {fd : Int} {n s : Nat} : c = .read fd n → 0 ≤ a.r → a.data.length ≤ n →
      os.table fd = some s →
      Effect os c a { os with input := update os.input s (os.input s ++ a.data) }
  | write {fd : Int} {bytes : List UInt8} {s : Nat} : c = .write fd bytes → 0 ≤ a.r →
      a.r ≤ bytes.length → os.table fd = some s →
      Effect os c a { os with output := update os.output s (os.output s ++ bytes.take a.r.toNat) }

section
variable {os os' : Os} {c : Call} {a : Answer}

theorem does_possible (done : does os c a = some os') : possible c a := by
  unfold does at done
  split at done
  · assumption
  · cases done

theorem enter_effect {fd : Int} (done : os.enter fd = some os')
    (isNew : gains c a = some (.descriptor fd)) (noFrees : frees c = none)
    (noBinds : binds c a = none) : Effect os c a os' := by
  unfold Os.enter at done
  split at done
  · obtain rfl := Option.some.inj done
    exact .enter isNew noFrees noBinds ‹_›
  · cases done

theorem does_effect (done : does os c a = some os') : Effect os c a os' := by
  have isPossible := does_possible done
  simp only [does, if_pos isPossible] at done
  cases c with
  | socket | accept =>
      simp only at done
      split at done
      next failed =>
        obtain rfl := Option.some.inj done
        exact .same (by simp [gains, failed]) rfl rfl (by simp) (by simp)
      next isNew => exact enter_effect done (by simp [gains, isNew]) rfl rfl
  | malloc size =>
      simp only at done
      split at done
      next failed =>
        obtain rfl := Option.some.inj done
        exact .same (by simp [gains, failed]) rfl rfl (by simp) (by simp)
      next isNew =>
        unfold Os.alloc at done
        split at done
        next => cases done
        next isFree =>
          obtain rfl := Option.some.inj done
          exact .alloc (by simp [gains, isNew]) rfl rfl (by simpa using isFree)
  | bind fd addr port =>
      simp only at done
      split at done
      next failed =>
        obtain rfl := Option.some.inj done
        exact .same rfl rfl (by simp [binds, failed]) (by simp) (by simp)
      next =>
        obtain ⟨s, isSocket, rfl⟩ := Option.map_eq_some_iff.mp done
        exact .bind rfl isSocket
  | close fd =>
      obtain rfl := Option.some.inj done
      exact .close rfl
  | free p =>
      obtain rfl := Option.some.inj done
      exact .free rfl
  | read fd n =>
      simp only at done
      split at done
      next failed =>
        obtain rfl := Option.some.inj done
        exact .same rfl rfl rfl (fun _ _ _ => failed) (by simp)
      next succeeded =>
        obtain ⟨s, isSocket, rfl⟩ := Option.map_eq_some_iff.mp done
        have bounds := isPossible.resolve_left succeeded
        exact .read rfl (by omega) bounds.2 isSocket
  | write fd bytes =>
      simp only at done
      split at done
      next failed =>
        obtain rfl := Option.some.inj done
        exact .same rfl rfl rfl (by simp) (fun _ _ _ => failed)
      next succeeded =>
        obtain ⟨s, isSocket, rfl⟩ := Option.map_eq_some_iff.mp done
        exact .write rfl (by omega) isPossible isSocket
  | _ =>
      obtain rfl := Option.some.inj done
      exact .same rfl rfl rfl (by simp) (by simp)

/-- A call gives the program what it did not hold. -/
theorem Effect.fresh (effect : Effect os c a os') {r : Resource} (gained : gains c a = some r) :
    ¬os.holds r := by
  have other (none : gains c a = none) : False := by
    rw [none] at gained
    cases gained
  cases effect with
  | same none => exact (other none).elim
  | enter isNew _ _ free =>
      obtain rfl := Option.some.inj (gained.symm.trans isNew)
      exact fun held => held free
  | alloc isNew _ _ free =>
      obtain rfl := Option.some.inj (gained.symm.trans isNew)
      simp [Os.holds, free]
  | bind isCall | close isCall | free isCall | read isCall | write isCall =>
      subst isCall
      exact (other rfl).elim

/-- What the program holds after a call. -/
theorem Effect.holds (effect : Effect os c a os') (r : Resource) :
    os'.holds r ↔ os.holds r ∧ frees c ≠ some r ∨ gains c a = some r := by
  have same {os' : Os} (notFreed : frees c = none) (notGained : gains c a = none)
      (table : os'.table = os.table) (heap : os'.heap = os.heap) :
      os'.holds r ↔ os.holds r ∧ frees c ≠ some r ∨ gains c a = some r := by
    cases r <;> simp [Os.holds, Os.opened, notFreed, notGained, table, heap]
  cases effect with
  | same notGained notFreed => exact same notFreed notGained rfl rfl
  | @enter fd isNew notFreed =>
      rw [isNew, notFreed]
      cases r with
      | descriptor fd' =>
          by_cases isIt : fd' = fd
          · simp [Os.holds, Os.opened, Os.add, isIt]
          · simp [Os.holds, Os.opened, Os.add, isIt, Ne.symm isIt]
      | block p => simp [Os.holds, Os.add]
  | @alloc p isNew notFreed =>
      rw [isNew, notFreed]
      cases r with
      | descriptor fd => simp [Os.holds, Os.opened]
      | block p' =>
          by_cases isIt : p' = p
          · simp [Os.holds, isIt]
          · simp [Os.holds, isIt, Ne.symm isIt]
  | @close fd isCall =>
      subst isCall
      cases r with
      | descriptor fd' =>
          by_cases isIt : fd' = fd
          · simp [Os.holds, Os.opened, Os.close, frees, gains, isIt]
          · simp [Os.holds, Os.opened, Os.close, frees, gains, isIt, Ne.symm isIt]
      | block p => simp [Os.holds, Os.close, frees, gains]
  | @free p isCall =>
      subst isCall
      cases r with
      | descriptor fd => simp [Os.holds, Os.opened, Os.free, frees, gains]
      | block p' =>
          by_cases isIt : p' = p
          · simp [Os.holds, Os.free, frees, gains, isIt]
          · simp [Os.holds, Os.free, frees, gains, isIt, Ne.symm isIt]
  | bind isCall | read isCall | write isCall =>
      subst isCall
      exact same rfl rfl rfl rfl

/-- A descriptor is bound by a `bind` that succeeds. -/
theorem Effect.binds (effect : Effect os c a os') {r : Resource} (isBinds : binds c a = some r) :
    os'.isBound r := by
  cases effect with
  | same _ _ none | enter _ _ none | alloc _ _ none =>
      rw [none] at isBinds
      cases isBinds
  | @bind fd addr port s isCall isSocket =>
      subst isCall
      simp only [Sockets.binds] at isBinds
      split at isBinds
      next => cases isBinds
      next =>
        obtain rfl := Option.some.inj isBinds
        exact ⟨s, isSocket, by simp⟩
  | close isCall | free isCall | read isCall | write isCall =>
      subst isCall
      cases isBinds

/-- And it stays bound until it is closed. -/
theorem Effect.stays (effect : Effect os c a os') {r : Resource} (isBound : os.isBound r)
    (kept : frees c ≠ some r) : os'.isBound r := by
  cases r with
  | block p => exact isBound
  | descriptor fd =>
      obtain ⟨s, isSocket, wasBound⟩ := isBound
      cases effect with
      | same | alloc | free | read | write => exact ⟨s, isSocket, wasBound⟩
      | @enter fd₀ _ _ _ isFree =>
          have other : fd ≠ fd₀ := by
            rintro rfl
            rw [isFree] at isSocket
            cases isSocket
          refine ⟨s, by simpa only [Os.add, update_of_ne other] using isSocket, ?_⟩
          simpa only [Os.add, update_of_ne (Nat.ne_of_lt (os.old fd s isSocket))] using wasBound
      | bind => exact ⟨s, isSocket, by simp [Function.update_apply, wasBound]⟩
      | @close fd₀ isCall =>
          subst isCall
          have other : fd ≠ fd₀ := by
            rintro rfl
            exact kept rfl
          exact ⟨s, by simpa only [Os.close, update_of_ne other] using isSocket, wasBound⟩

/-- A new descriptor refers to a new socket. -/
theorem Effect.opened (effect : Effect os c a os') {fd : Int}
    (gained : gains c a = some (.descriptor fd)) :
    os'.table fd = some os.made ∧ os'.input os.made = [] ∧ os'.output os.made = [] := by
  cases effect with
  | enter isGained =>
      obtain ⟨⟩ := gained.symm.trans isGained
      simp [Os.add]
  | same none => cases gained.symm.trans none
  | alloc isGained => cases gained.symm.trans isGained
  | bind isCall | close isCall | free isCall | read isCall | write isCall =>
      subst isCall
      cases gained

/-- A new descriptor is the only one of its socket. -/
theorem Effect.opened_alone (effect : Effect os c a os') {fd fd' : Int}
    (gained : gains c a = some (.descriptor fd)) (isSocket : os'.table fd' = some os.made) :
    fd' = fd := by
  cases effect with
  | enter isGained =>
      obtain ⟨⟩ := gained.symm.trans isGained
      by_contra other
      simp only [Os.add, update_of_ne other] at isSocket
      exact Nat.lt_irrefl _ (os.old fd' _ isSocket)
  | same none => cases gained.symm.trans none
  | alloc isGained => cases gained.symm.trans isGained
  | bind isCall | close isCall | free isCall | read isCall | write isCall =>
      subst isCall
      cases gained

/-- Only a `read` that succeeds reads something. -/
theorem heard_of_fails (fails : ∀ fd n, c = .read fd n → a.r < 0) (fd : Int) :
    heard fd c a = [] := by
  cases c with
  | read fd' n =>
      have negative : ¬0 ≤ a.r := Int.not_le.mpr (fails fd' n rfl)
      simp [heard, negative]
  | _ => rfl

/-- What has been read from the socket of a descriptor that is not closed, where no other descriptor
refers to the socket. -/
theorem Effect.input (effect : Effect os c a os') {fd : Int} {s : Nat}
    (isSocket : os.table fd = some s) (kept : frees c ≠ some (.descriptor fd))
    (alone : ∀ fd' n, c = .read fd' n → os.table fd' = some s → fd' = fd) :
    os'.table fd = some s ∧ os'.input s = os.input s ++ heard fd c a := by
  have silent {text : List UInt8} (fails : ∀ fd n, c = .read fd n → a.r < 0) :
      text = text ++ heard fd c a := by
    rw [heard_of_fails fails, List.append_nil]
  cases effect with
  | same _ _ _ fails => exact ⟨isSocket, silent fails⟩
  | @enter fd₀ isNew _ _ isFree =>
      have other : fd ≠ fd₀ := by
        rintro rfl
        rw [isFree] at isSocket
        cases isSocket
      refine ⟨by simpa only [Os.add, update_of_ne other] using isSocket, ?_⟩
      simp only [Os.add, update_of_ne (Nat.ne_of_lt (os.old fd s isSocket))]
      exact silent (by rintro _ _ rfl; cases isNew)
  | alloc isNew => exact ⟨isSocket, silent (by rintro _ _ rfl; cases isNew)⟩
  | @close fd₀ isCall =>
      subst isCall
      have other : fd ≠ fd₀ := by
        rintro rfl
        exact kept rfl
      exact ⟨by simpa only [Os.close, update_of_ne other] using isSocket, silent (by simp)⟩
  | bind isCall | free isCall | write isCall =>
      subst isCall
      exact ⟨isSocket, silent (by simp)⟩
  | @read fd₀ n s₀ isCall positive _ isSocket₀ =>
      subst isCall
      refine ⟨isSocket, ?_⟩
      by_cases same : s = s₀
      · subst same
        obtain rfl := alone fd₀ n rfl isSocket₀
        simp [heard, positive]
      · have other : fd₀ ≠ fd := by
          rintro rfl
          exact same (Option.some.inj (isSocket.symm.trans isSocket₀))
        simp [heard, other, update_of_ne same]

/-- Only a `write` that succeeds writes something. -/
theorem said_of_fails (fails : ∀ fd bytes, c = .write fd bytes → a.r < 0) (fd : Int) :
    said fd c a = [] := by
  cases c with
  | write fd' bytes =>
      have nothing : a.r.toNat = 0 := Int.toNat_of_nonpos (Int.le_of_lt (fails fd' bytes rfl))
      simp [said, nothing]
  | _ => rfl

/-- A descriptor that the call did not open is alone at its socket, when it was before. -/
theorem Effect.alone (effect : Effect os c a os') {fd : Int} {s : Nat}
    (isSocket : os'.table fd = some s) (notNew : gains c a ≠ some (.descriptor fd))
    (alone : ∀ fd', os.table fd' = some s → os.table fd = some s → fd' = fd) :
    os.table fd = some s ∧ ∀ fd', os'.table fd' = some s → fd' = fd := by
  cases effect with
  | same | alloc | bind | free | read | write =>
      exact ⟨isSocket, fun fd' isSocket' => alone fd' isSocket' isSocket⟩
  | @enter fd₀ isNew =>
      have other : fd ≠ fd₀ := fun same => notNew (same ▸ isNew)
      simp only [Os.add, update_of_ne other] at isSocket
      refine ⟨isSocket, fun fd' isSocket' => ?_⟩
      by_cases isIt : fd' = fd₀
      · simp only [Os.add, isIt, Function.update_self] at isSocket'
        obtain rfl := Option.some.inj isSocket'
        exact absurd (os.old fd _ isSocket) (Nat.lt_irrefl _)
      · simp only [Os.add, update_of_ne isIt] at isSocket'
        exact alone fd' isSocket' isSocket
  | @close fd₀ isCall =>
      have wasOpen {fd' : Int} (isSocket : (os.close fd₀).table fd' = some s) :
          os.table fd' = some s := by
        by_cases isIt : fd' = fd₀
        · simp [Os.close, isIt] at isSocket
        · simpa only [Os.close, update_of_ne isIt] using isSocket
      exact ⟨wasOpen isSocket, fun fd' isSocket' =>
        alone fd' (wasOpen isSocket') (wasOpen isSocket)⟩

/-- What has been written to the socket of a descriptor that is alone there. -/
theorem Effect.output (effect : Effect os c a os') {fd : Int} {s : Nat}
    (isSocket : os.table fd = some s) (alone : ∀ fd', os.table fd' = some s → fd' = fd) :
    os'.output s = os.output s ++ said fd c a := by
  have silent {text : List UInt8} (fails : ∀ fd bytes, c = .write fd bytes → a.r < 0) :
      text = text ++ said fd c a := by
    rw [said_of_fails fails, List.append_nil]
  cases effect with
  | same _ _ _ _ fails => exact silent fails
  | enter isNew =>
      simp only [Os.add, update_of_ne (Nat.ne_of_lt (os.old fd s isSocket))]
      exact silent (by rintro _ _ rfl; cases isNew)
  | alloc isNew => exact silent (by rintro _ _ rfl; cases isNew)
  | bind isCall | close isCall | free isCall | read isCall =>
      subst isCall
      exact silent (by simp)
  | @write fd₀ bytes s₀ isCall _ _ isSocket₀ =>
      subst isCall
      by_cases same : s = s₀
      · subst same
        obtain rfl := alone fd₀ isSocket₀
        simp [said]
      · have other : fd₀ ≠ fd := by
          rintro rfl
          exact same (Option.some.inj (isSocket.symm.trans isSocket₀))
        simp [said, other, update_of_ne same]

end

end Sockets
