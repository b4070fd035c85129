import Mathlib.Logic.Function.Basic
import Mathlib.Logic.Relation

/-!
# Programs that call their environment

A sequential program makes calls and goes on with the answers, jumps to labels, and starts other
programs.  Several programs run on one world, which answers their calls one at a time.

A specification follows the calls of one program with a ghost state.  What it demands of the code at
each label holds of every program of a network, whatever the others do.
-/

namespace Interaction

open Function (update)

/-- A program with calls `C`, answers `A` and labels `L`, which may stop everything for a reason. -/
inductive Prog (C A L S : Type) where
  | goto (l : L)
  | call (c : C) (next : A → Prog C A L S)
  /-- start another program at a label -/
  | spawn (child : L) (next : Prog C A L S)
  | ret
  | stop (why : S)

inductive Event (C A L : Type) where
  | called (c : C) (a : A)
  | spawned (child : L)

/-- A program in execution: where it was started, what it did since then, and what it does next. -/
structure Proc (C A L S : Type) where
  entry : L
  events : List (Event C A L)
  code : Prog C A L S

variable {τ W C A L S H : Type} [DecidableEq τ]

def Proc.start (l : L) : Proc C A L S := { entry := l, events := [], code := .goto l }

namespace Proc

variable (p : Proc C A L S)

def called (c : C) (a : A) (next : A → Prog C A L S) : Proc C A L S :=
  { p with events := p.events ++ [.called c a], code := next a }

def spawned (child : L) (next : Prog C A L S) : Proc C A L S :=
  { p with events := p.events ++ [.spawned child], code := next }

end Proc

structure Net (τ W C A L S : Type) where
  world : W
  proc : τ → Option (Proc C A L S)

namespace Net

def start (w : W) (t : τ) (l : L) : Net τ W C A L S where
  world := w
  proc := update (fun _ => none) t (some (Proc.start l))

def set (n : Net τ W C A L S) (t : τ) (p : Option (Proc C A L S)) : Net τ W C A L S :=
  { n with proc := update n.proc t p }

theorem proc_start {w : W} {t u : τ} {l : L} {p : Proc C A L S}
    (isProc : (start w t l : Net τ W C A L S).proc u = some p) : u = t ∧ p = Proc.start l := by
  by_cases same : u = t
  · exact ⟨same, by simpa [start, same, eq_comm] using isProc⟩
  · simp [start, same] at isProc

theorem proc_set {n : Net τ W C A L S} {t u : τ} {x : Option (Proc C A L S)} {p : Proc C A L S}
    (isProc : (n.set t x).proc u = some p) : u = t ∧ x = some p ∨ u ≠ t ∧ n.proc u = some p := by
  by_cases same : u = t
  · exact Or.inl ⟨same, by simpa [set, same] using isProc⟩
  · exact Or.inr ⟨same, by simpa [set, same] using isProc⟩

end Net

section Steps

variable (code : L → Prog C A L S) (does : W → C → A → Option W)

/-- One step of the program at `t`. -/
inductive Moves (t : τ) (n : Net τ W C A L S) : Net τ W C A L S → Prop where
  | goto {p : Proc C A L S} {l : L} : n.proc t = some p → p.code = .goto l →
      Moves t n (n.set t (some { p with code := code l }))
  | call {p : Proc C A L S} {c : C} {a : A} {next : A → Prog C A L S} {w : W} :
      n.proc t = some p → p.code = .call c next → does n.world c a = some w →
      Moves t n ({ n with world := w }.set t (some (p.called c a next)))
  | spawn {p : Proc C A L S} {u : τ} {child : L} {next : Prog C A L S} :
      n.proc t = some p → p.code = .spawn child next → n.proc u = none →
      Moves t n ((n.set t (some (p.spawned child next))).set u (some (Proc.start child)))
  | ret {p : Proc C A L S} : n.proc t = some p → p.code = .ret → Moves t n (n.set t none)

def Step (n n' : Net τ W C A L S) : Prop := ∃ t, Moves code does t n n'

/-- What the programs can come to, in any order of their steps. -/
abbrev Reaches : Net τ W C A L S → Net τ W C A L S → Prop := Relation.ReflTransGen (Step code does)

end Steps

variable {code : L → Prog C A L S} {does : W → C → A → Option W}

/-- What holds at first and is preserved by each step holds from there on. -/
theorem Reaches.invariant {n n' : Net τ W C A L S} (inv : Net τ W C A L S → Prop)
    (reaches : Reaches code does n n') (now : inv n)
    (preserved : ∀ n n', inv n → Step code does n n' → inv n') : inv n' := by
  induction reaches with
  | refl => exact now
  | tail _ stepped ih => exact preserved _ _ ih stepped

/-! ## Specifications -/

/-- What is followed of a program in a ghost state `H`, and demanded of it. -/
structure Spec (C A L H : Type) where
  /-- the answers that a call can get -/
  possible : C → A → Prop
  start : L → H
  called : H → C → A → H
  spawned : H → L → H
  /-- what holds at a label -/
  inv : L → H → Prop
  calls : H → C → Prop
  spawns : H → L → Prop
  ends : H → Prop

namespace Spec

variable (spec : Spec C A L H)

/-- The program meets the specification up to the next label on each path. -/
def Valid : H → Prog C A L S → Prop
  | h, .goto l => spec.inv l h
  | h, .call c next =>
      spec.calls h c ∧ ∀ a, spec.possible c a → Valid (spec.called h c a) (next a)
  | h, .spawn child next => spec.spawns h child ∧ Valid (spec.spawned h child) next
  | h, .ret => spec.ends h
  | _, .stop _ => True

/-- The code meets the specification. -/
structure Sound (code : L → Prog C A L S) : Prop where
  code : ∀ l h, spec.inv l h → spec.Valid h (code l)
  child : ∀ h l, spec.spawns h l → spec.inv l (spec.start l)

def update (h : H) : Event C A L → H
  | .called c a => spec.called h c a
  | .spawned child => spec.spawned h child

/-- The ghost state of a program in execution. -/
def ghost (p : Proc C A L S) : H := p.events.foldl spec.update (spec.start p.entry)

@[simp] theorem ghost_called (p : Proc C A L S) (c : C) (a : A) (next : A → Prog C A L S) :
    spec.ghost (p.called c a next) = spec.called (spec.ghost p) c a := by
  simp [ghost, Proc.called, update]

@[simp] theorem ghost_spawned (p : Proc C A L S) (child : L) (next : Prog C A L S) :
    spec.ghost (p.spawned child next) = spec.spawned (spec.ghost p) child := by
  simp [ghost, Proc.spawned, update]

end Spec

/-- Each program of a network meets the specification in its own ghost state. -/
def Meets (spec : Spec C A L H) (n : Net τ W C A L S) : Prop :=
  ∀ t p, n.proc t = some p → spec.Valid (spec.ghost p) p.code

variable {spec : Spec C A L H} {n n' : Net τ W C A L S}

theorem Meets.set {t : τ} {p : Option (Proc C A L S)} (meets : Meets spec n)
    (valid : ∀ q, p = some q → spec.Valid (spec.ghost q) q.code) : Meets spec (n.set t p) := by
  intro u q isProc
  rcases Net.proc_set isProc with ⟨-, same⟩ | ⟨-, isProc⟩
  · exact valid q same
  · exact meets u q isProc

theorem Meets.step (meets : Meets spec n) (sound : spec.Sound code)
    (possible : ∀ w c a w', does w c a = some w' → spec.possible c a)
    (stepped : Step code does n n') : Meets spec n' := by
  obtain ⟨t, moves⟩ := stepped
  cases moves with
  | @goto p l isProc isCode =>
      have valid := meets t p isProc
      rw [isCode] at valid
      refine meets.set ?_
      rintro q ⟨⟩
      exact sound.code l _ valid
  | @call p c a next w isProc isCode done =>
      have valid := meets t p isProc
      rw [isCode] at valid
      have meets : Meets spec { n with world := w } := meets
      refine meets.set ?_
      rintro q ⟨⟩
      rw [spec.ghost_called]
      exact valid.2 a (possible _ _ _ _ done)
  | @spawn p u child next isProc isCode fresh =>
      have valid := meets t p isProc
      rw [isCode] at valid
      refine (meets.set ?_).set ?_
      · rintro q ⟨⟩
        rw [spec.ghost_spawned]
        exact valid.2
      · rintro q ⟨⟩
        exact sound.child _ _ valid.1
  | ret isProc isCode =>
      refine meets.set ?_
      rintro q ⟨⟩

/-- Whatever the other programs do, each one meets the specification. -/
theorem Reaches.meets {w : W} {t : τ} {l : L}
    (reaches : Reaches code does (Net.start w t l) n) (sound : spec.Sound code)
    (possible : ∀ w c a w', does w c a = some w' → spec.possible c a)
    (initially : spec.inv l (spec.start l)) : Meets spec n := by
  refine Reaches.invariant _ reaches ?_ fun _ _ meets => meets.step sound possible
  have empty : Meets spec ({ world := w, proc := fun _ => none } : Net τ W C A L S) := by
    intro u p isProc
    cases isProc
  refine empty.set ?_
  rintro q ⟨⟩
  exact initially

/-- What each call and each start of another program preserve holds of every ghost state. -/
theorem Reaches.always {w : W} {t : τ} {l : L}
    (reaches : Reaches code does (Net.start w t l) n) (holds : H → Prop) (sound : spec.Sound code)
    (possible : ∀ w c a w', does w c a = some w' → spec.possible c a)
    (initially : spec.inv l (spec.start l)) (first : holds (spec.start l))
    (called : ∀ h c a, spec.calls h c → spec.possible c a → holds h → holds (spec.called h c a))
    (spawned : ∀ h l, spec.spawns h l → holds h → holds (spec.spawned h l) ∧ holds (spec.start l)) :
    ∀ u p, n.proc u = some p → holds (spec.ghost p) := by
  have set {n : Net τ W C A L S} {u : τ} {q : Option (Proc C A L S)}
      (before : ∀ u p, n.proc u = some p → holds (spec.ghost p))
      (here : ∀ p, q = some p → holds (spec.ghost p)) :
      ∀ v p, (n.set u q).proc v = some p → holds (spec.ghost p) := by
    intro v p isProc
    rcases Net.proc_set isProc with ⟨-, same⟩ | ⟨-, isProc⟩
    · exact here p same
    · exact before v p isProc
  induction reaches with
  | refl =>
      have nobody : ∀ u p, ({ world := w, proc := fun _ => none } : Net τ W C A L S).proc u =
          some p → holds (spec.ghost p) := by
        intro u p isProc
        cases isProc
      refine set nobody ?_
      rintro q ⟨⟩
      exact first
  | tail reaches stepped ih =>
      have meets := Reaches.meets reaches sound possible initially
      obtain ⟨t, moves⟩ := stepped
      cases moves with
      | @goto p l isProc isCode =>
          refine set ih ?_
          rintro q ⟨⟩
          exact ih t p isProc
      | @call p c a next w isProc isCode done =>
          have valid := meets t p isProc
          rw [isCode] at valid
          refine set ih ?_
          rintro q ⟨⟩
          rw [spec.ghost_called]
          exact called _ c a valid.1 (possible _ _ _ _ done) (ih t p isProc)
      | @spawn p u child next isProc isCode fresh =>
          have valid := meets t p isProc
          rw [isCode] at valid
          refine set (set ih ?_) ?_
          · rintro q ⟨⟩
            rw [spec.ghost_spawned]
            exact (spawned _ child valid.1 (ih t p isProc)).1
          · rintro q ⟨⟩
            exact (spawned _ child valid.1 (ih t p isProc)).2
      | ret isProc isCode =>
          refine set ih ?_
          rintro q ⟨⟩

/-! ## Histories -/

/-- A specification whose ghost state is where the program was started and what it did since. -/
structure Spec.Records (spec : Spec C A L (L × List (Event C A L))) : Prop where
  start : ∀ l, spec.start l = (l, [])
  called : ∀ h c a, spec.called h c a = (h.1, h.2 ++ [.called c a])
  spawned : ∀ h l, spec.spawned h l = (h.1, h.2 ++ [.spawned l])

omit [DecidableEq τ] in
theorem Spec.Records.ghost {spec : Spec C A L (L × List (Event C A L))} (records : spec.Records)
    (p : Proc C A L S) : spec.ghost p = (p.entry, p.events) := by
  have follows (h : L × List (Event C A L)) (events : List (Event C A L)) :
      events.foldl spec.update h = (h.1, h.2 ++ events) := by
    induction events generalizing h with
    | nil => simp
    | cons e rest ih =>
        rw [List.foldl_cons, ih]
        cases e with
        | called c a => simp [Spec.update, records.called]
        | spawned l => simp [Spec.update, records.spawned]
  rw [Spec.ghost, follows, records.start]
  rfl

end Interaction
