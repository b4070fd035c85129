import Libtask.Safety

/-!
# Task lists on the heap

`addtask`, `deltask` and the insertion of `taskdelay` once more, as assignments to the fields of
tasks and of task lists.  All lists go through the same two fields of a task, and a task that is in
no list may hold anything in them.  The operations refine those on sequences, which the rest of the
model works with.
-/

namespace Libtask

open Function (update)
open Dlist (Walk Links Dlists)

/-- The fields of a `Task` that its lists use. -/
@[ext] structure TaskLinks where
  next : Option TaskPtr := none
  prev : Option TaskPtr := none
  alarmtime : Nat := 0
  deriving DecidableEq, Repr

@[ext] structure Tasklist where
  head : Option TaskPtr := none
  tail : Option TaskPtr := none
  deriving DecidableEq, Repr

/-- The memory of all tasks and of the task lists `ι`. -/
structure Heap (ι : Type) where
  task : TaskPtr → TaskLinks
  list : ι → Tasklist

namespace Heap

variable {ι : Type} [DecidableEq ι]

/-! ## Assignments -/

/-- Any other use of the memory of a task. -/
def setTask (h : Heap ι) (t : TaskPtr) (fields : TaskLinks) : Heap ι :=
  { h with task := update h.task t fields }

def setNext (h : Heap ι) (t : TaskPtr) (next : Option TaskPtr) : Heap ι :=
  h.setTask t { h.task t with next }

def setPrev (h : Heap ι) (t : TaskPtr) (prev : Option TaskPtr) : Heap ι :=
  h.setTask t { h.task t with prev }

def setAlarmtime (h : Heap ι) (t : TaskPtr) (alarmtime : Nat) : Heap ι :=
  h.setTask t { h.task t with alarmtime }

def setHead (h : Heap ι) (l : ι) (head : Option TaskPtr) : Heap ι :=
  { h with list := update h.list l { h.list l with head } }

def setTail (h : Heap ι) (l : ι) (tail : Option TaskPtr) : Heap ι :=
  { h with list := update h.list l { h.list l with tail } }

/-! ## The operations -/

def addtask (h : Heap ι) (l : ι) (t : TaskPtr) : Heap ι :=
  let h := match (h.list l).tail with
    | some last =>
        let h := h.setNext last (some t)
        h.setPrev t (h.list l).tail
    | none =>
        let h := h.setHead l (some t)
        h.setPrev t none
  let h := h.setTail l (some t)
  h.setNext t none

def deltask (h : Heap ι) (l : ι) (t : TaskPtr) : Heap ι :=
  let h := match (h.task t).prev with
    | some p => h.setNext p (h.task t).next
    | none => h.setHead l (h.task t).next
  match (h.task t).next with
  | some n => h.setPrev n (h.task t).prev
  | none => h.setTail l (h.task t).prev

/-- The loop of `taskdelay`, over the tasks whose alarm is before `due`.  Nothing if `fuel` turns
are too few. -/
def delayPosition (h : Heap ι) (due : Nat) : Nat → Option TaskPtr → Option (Option TaskPtr)
  | _, none => some none
  | 0, some _ => none
  | fuel + 1, some t =>
      if (h.task t).alarmtime < due then delayPosition h due fuel (h.task t).next
      else some (some t)

/-- What `taskdelay` does to the lists, behind its loop. -/
def delayInsert (h : Heap ι) (sleeping : ι) (taskrunning : TaskPtr) (due : Nat)
    (t : Option TaskPtr) : Heap ι :=
  let h := match t with
    | some t =>
        let h := h.setPrev taskrunning (h.task t).prev
        h.setNext taskrunning (some t)
    | none =>
        let h := h.setPrev taskrunning (h.list sleeping).tail
        h.setNext taskrunning none
  let t := taskrunning
  let h := h.setAlarmtime t due
  let h := match (h.task t).prev with
    | some p => h.setNext p (some t)
    | none => h.setHead sleeping (some t)
  match (h.task t).next with
  | some n => h.setPrev n (some t)
  | none => h.setTail sleeping (some t)

/-- The insertion of `taskdelay` into `sleeping`. -/
def taskdelay (h : Heap ι) (sleeping : ι) (taskrunning : TaskPtr) (due fuel : Nat) :
    Option (Heap ι) :=
  (h.delayPosition due fuel (h.list sleeping).head).map
    (h.delayInsert sleeping taskrunning due)

/-! ## The links -/

/-- The heap, field by field. -/
def links (h : Heap ι) : Links TaskPtr ι where
  next t := (h.task t).next
  prev t := (h.task t).prev
  head l := (h.list l).head
  tail l := (h.list l).tail

def alarmtime (h : Heap ι) (t : TaskPtr) : Nat := (h.task t).alarmtime

section

variable (h : Heap ι) (t : TaskPtr) (l : ι)

omit [DecidableEq ι] in
theorem next_eq : (h.task t).next = h.links.next t := rfl

omit [DecidableEq ι] in
theorem prev_eq : (h.task t).prev = h.links.prev t := rfl

omit [DecidableEq ι] in
theorem alarmtime_eq : (h.task t).alarmtime = h.alarmtime t := rfl

omit [DecidableEq ι] in
theorem head_eq : (h.list l).head = h.links.head l := rfl

omit [DecidableEq ι] in
theorem tail_eq : (h.list l).tail = h.links.tail l := rfl

omit [DecidableEq ι] in
theorem links_setTask (fields : TaskLinks) :
    (h.setTask t fields).links = h.links.overwrite t fields.next fields.prev := by
  unfold links setTask Links.overwrite
  congr 1 <;> funext x <;> by_cases same : x = t <;> simp [same]

omit [DecidableEq ι] in
@[simp] theorem links_setNext (next : Option TaskPtr) :
    (h.setNext t next).links = { h.links with next := update h.links.next t next } := by
  simp [setNext, links_setTask, Links.overwrite, prev_eq]

omit [DecidableEq ι] in
@[simp] theorem links_setPrev (prev : Option TaskPtr) :
    (h.setPrev t prev).links = { h.links with prev := update h.links.prev t prev } := by
  simp [setPrev, links_setTask, Links.overwrite, next_eq]

omit [DecidableEq ι] in
@[simp] theorem links_setAlarmtime (alarmtime : Nat) :
    (h.setAlarmtime t alarmtime).links = h.links := by
  simp [setAlarmtime, links_setTask, Links.overwrite, next_eq, prev_eq]

@[simp] theorem links_setHead (head : Option TaskPtr) :
    (h.setHead l head).links = { h.links with head := update h.links.head l head } := by
  unfold links setHead
  congr 1 <;> funext x <;> by_cases same : x = l <;> simp [same]

@[simp] theorem links_setTail (tail : Option TaskPtr) :
    (h.setTail l tail).links = { h.links with tail := update h.links.tail l tail } := by
  unfold links setTail
  congr 1 <;> funext x <;> by_cases same : x = l <;> simp [same]

omit [DecidableEq ι] in
@[simp] theorem alarmtime_setTask (fields : TaskLinks) :
    (h.setTask t fields).alarmtime = update h.alarmtime t fields.alarmtime := by
  funext x
  by_cases same : x = t <;> simp [alarmtime, setTask, same]

omit [DecidableEq ι] in
@[simp] theorem alarmtime_setNext (next : Option TaskPtr) :
    (h.setNext t next).alarmtime = h.alarmtime := by
  simp [setNext, alarmtime_eq]

omit [DecidableEq ι] in
@[simp] theorem alarmtime_setPrev (prev : Option TaskPtr) :
    (h.setPrev t prev).alarmtime = h.alarmtime := by
  simp [setPrev, alarmtime_eq]

omit [DecidableEq ι] in
@[simp] theorem alarmtime_setAlarmtime (alarmtime : Nat) :
    (h.setAlarmtime t alarmtime).alarmtime = update h.alarmtime t alarmtime := by
  simp [setAlarmtime]

@[simp] theorem alarmtime_setHead (head : Option TaskPtr) :
    (h.setHead l head).alarmtime = h.alarmtime := rfl

@[simp] theorem alarmtime_setTail (tail : Option TaskPtr) :
    (h.setTail l tail).alarmtime = h.alarmtime := rfl

/-! ## The operations on links -/

theorem links_addtask : (h.addtask l t).links = h.links.pushBack l t := by
  simp only [addtask, Links.pushBack, tail_eq]
  cases tailEq : h.links.tail l with
  | none => simp
  | some last => simp [tailEq]

theorem links_deltask : (h.deltask l t).links = h.links.unlink l t := by
  simp only [deltask, Links.unlink, next_eq, prev_eq]
  cases prevEq : h.links.prev t with
  | none =>
      simp only [links_setHead]
      cases nextEq : h.links.next t <;> simp [prevEq]
  | some p =>
      simp only [links_setNext]
      cases nextEq : update h.links.next p (h.links.next t) t <;> simp [prevEq]

theorem links_delayInsert (due : Nat) (position : Option TaskPtr) :
    (h.delayInsert l t due position).links = h.links.insertBefore l t position := by
  simp only [delayInsert, Links.insertBefore, next_eq, prev_eq, tail_eq]
  cases position with
  | none =>
      simp only [links_setAlarmtime, links_setNext, links_setPrev, Function.update_self]
      cases tailEq : h.links.tail l with
      | none => simp
      | some p =>
          simp only [links_setAlarmtime, links_setNext, links_setPrev]
          cases nextEq : update (update h.links.next t none) p (some t) t <;> simp
  | some u =>
      simp only [links_setAlarmtime, links_setNext, links_setPrev, Function.update_self]
      cases prevEq : h.links.prev u with
      | none => simp
      | some p =>
          simp only [links_setAlarmtime, links_setNext, links_setPrev]
          cases nextEq : update (update h.links.next t (some u)) p (some t) t <;> simp

theorem alarmtime_addtask : (h.addtask l t).alarmtime = h.alarmtime := by
  unfold addtask
  split <;> simp

theorem alarmtime_deltask : (h.deltask l t).alarmtime = h.alarmtime := by
  simp only [deltask]
  split <;> split <;> simp

theorem alarmtime_delayInsert (due : Nat) (position : Option TaskPtr) :
    (h.delayInsert l t due position).alarmtime = update h.alarmtime t due := by
  cases position <;> simp only [delayInsert] <;> split <;> split <;> simp

end

omit [DecidableEq ι] in
/-- The loop of `taskdelay` on a list that ends. -/
theorem delayPosition_eq (h : Heap ι) (due : Nat) {fuel : Nat} {start : Option TaskPtr}
    {nodes : List TaskPtr} (walk : Walk h.links.next start nodes) (enough : nodes.length ≤ fuel) :
    h.delayPosition due fuel start =
      some (nodes.dropWhile fun u => h.alarmtime u < due).head? := by
  induction walk generalizing fuel with
  | nil => cases fuel <;> rfl
  | @cons u nodes rest ih =>
      obtain ⟨fuel, rfl⟩ : ∃ fuel', fuel = fuel' + 1 :=
        ⟨fuel - 1, by rw [List.length_cons] at enough; omega⟩
      have enough' : nodes.length ≤ fuel := Nat.le_of_succ_le_succ enough
      rw [delayPosition, next_eq, alarmtime_eq, ih enough']
      by_cases earlier : h.alarmtime u < due
      · simp [earlier]
      · simp [earlier]

end Heap

/-! ## Sequences -/

/-- What the task lists stand for: which tasks each list holds, and in which order. -/
structure Sequences (ι : Type) where
  seq : ι → List TaskPtr
  alarmtime : TaskPtr → Nat

inductive ListOp (ι : Type) where
  | addtask (l : ι) (t : TaskPtr)
  | deltask (l : ι) (t : TaskPtr)
  | taskdelay (sleeping : ι) (taskrunning : TaskPtr) (due : Nat)
  /-- any other use of the memory of a task -/
  | write (t : TaskPtr) (fields : TaskLinks)

namespace Sequences

variable {ι : Type} [DecidableEq ι]

/-- All lists are empty. -/
def start (task : TaskPtr → TaskLinks) : Sequences ι where
  seq _ := []
  alarmtime t := (task t).alarmtime

/-- A task that is in no list. -/
def Free (s : Sequences ι) (t : TaskPtr) : Prop := ∀ l, t ∉ s.seq l

def Allowed (s : Sequences ι) : ListOp ι → Prop
  | .addtask _ t => s.Free t
  | .deltask l t => t ∈ s.seq l
  | .taskdelay _ taskrunning _ => s.Free taskrunning
  | .write t _ => s.Free t

/-- The operations on the sequences.  A task that goes to sleep is put directly in front of the
first one whose alarm is not before its own. -/
def step (s : Sequences ι) : ListOp ι → Sequences ι
  | .addtask l t => { s with seq := update s.seq l (s.seq l ++ [t]) }
  | .deltask l t => { s with seq := update s.seq l ((s.seq l).erase t) }
  | .taskdelay sleeping taskrunning due =>
      let earlier := fun u => decide (s.alarmtime u < due)
      { seq := update s.seq sleeping
          ((s.seq sleeping).takeWhile earlier ++
            taskrunning :: (s.seq sleeping).dropWhile earlier)
        alarmtime := update s.alarmtime taskrunning due }
  | .write t fields => { s with alarmtime := update s.alarmtime t fields.alarmtime }

def run (s : Sequences ι) (ops : List (ListOp ι)) : Sequences ι := ops.foldl step s

/-- A list grows by one task at most. -/
theorem length_step (s : Sequences ι) (op : ListOp ι) (l : ι) :
    ((s.step op).seq l).length ≤ (s.seq l).length + 1 := by
  have updated (l₁ : ι) (nodes : List TaskPtr) (grown : nodes.length ≤ (s.seq l₁).length + 1) :
      (update s.seq l₁ nodes l).length ≤ (s.seq l).length + 1 := by
    by_cases same : l = l₁
    · subst same
      rwa [Function.update_self]
    · rw [Function.update_of_ne same]
      exact Nat.le_succ _
  cases op with
  | addtask l₁ t => exact updated l₁ _ (by simp)
  | deltask l₁ t => exact updated l₁ _ (Nat.le_succ_of_le List.length_erase_le)
  | taskdelay sleeping taskrunning due =>
      refine updated sleeping _ (Nat.le_of_eq ?_)
      rw [List.length_append, List.length_cons, ← Nat.add_assoc, ← List.length_append,
        List.takeWhile_append_dropWhile]
  | write t fields => exact Nat.le_succ _

/-- Each operation is allowed when its turn comes. -/
def Legal : Sequences ι → List (ListOp ι) → Prop
  | _, [] => True
  | s, op :: ops => s.Allowed op ∧ Legal (s.step op) ops

end Sequences

/-! ## Runs of the heap -/

namespace Heap

variable {ι : Type} [DecidableEq ι]

/-- All lists are empty, and the tasks hold anything. -/
def start (task : TaskPtr → TaskLinks) : Heap ι where
  task
  list _ := {}

def step (fuel : Nat) (h : Heap ι) : ListOp ι → Option (Heap ι)
  | .addtask l t => some (h.addtask l t)
  | .deltask l t => some (h.deltask l t)
  | .taskdelay sleeping taskrunning due => h.taskdelay sleeping taskrunning due fuel
  | .write t fields => some (h.setTask t fields)

def run (fuel : Nat) : Heap ι → List (ListOp ι) → Option (Heap ι)
  | h, [] => some h
  | h, op :: ops => (h.step fuel op).bind fun h => run fuel h ops

/-- The lists of the heap are well formed and disjoint, and they hold the sequences. -/
structure Represents (h : Heap ι) (s : Sequences ι) : Prop where
  forward : ∀ l, Walk (fun t => (h.task t).next) (h.list l).head (s.seq l)
  backward : ∀ l, Walk (fun t => (h.task t).prev) (h.list l).tail (s.seq l).reverse
  empty : ∀ l, (h.list l).head = none ↔ (h.list l).tail = none
  head : ∀ l t, (h.list l).head = some t → (h.task t).prev = none
  tail : ∀ l t, (h.list l).tail = some t → (h.task t).next = none
  nodup : ∀ l, (s.seq l).Nodup
  disjoint : ∀ l l', l ≠ l' → ∀ t ∈ s.seq l, t ∉ s.seq l'
  alarmtime : ∀ t, (h.task t).alarmtime = s.alarmtime t

/-- The memory determines the sequences. -/
theorem Represents.unique {ι : Type} {h : Heap ι} {s s' : Sequences ι} (first : h.Represents s)
    (second : h.Represents s') : s = s' := by
  obtain ⟨seq, alarmtime⟩ := s
  obtain ⟨seq', alarmtime'⟩ := s'
  congr 1
  · funext l
    exact (first.forward l).unique (second.forward l)
  · funext t
    exact (first.alarmtime t).symm.trans (second.alarmtime t)

/-- A family of lists has the links of the heap, and the sequences. -/
structure Carries (h : Heap ι) (s : Sequences ι) (lists : Dlists TaskPtr ι) : Prop where
  links : lists.links = h.links
  seq : lists.seq = s.seq
  alarmtime : h.alarmtime = s.alarmtime

variable {h : Heap ι} {s : Sequences ι} {lists : Dlists TaskPtr ι}

omit [DecidableEq ι] in
theorem Carries.represents (carries : h.Carries s lists) : h.Represents s := by
  obtain ⟨links, seq, alarm⟩ := carries
  have linked (l : ι) : h.links.Linked l (s.seq l) := by
    rw [← links, ← seq]
    exact lists.linked l
  refine ⟨fun l => (linked l).walks.1, fun l => (linked l).walks.2, fun l => ?_,
    fun l t => (linked l).prev_head, fun l t => (linked l).next_tail, fun l => ?_,
    fun l l' different t member => ?_, fun t => congrFun alarm t⟩
  · rw [head_eq, tail_eq, (linked l).1, (linked l).2.1]
    simp
  · rw [← seq]
    exact lists.nodup l
  · rw [← seq] at member ⊢
    exact lists.disjoint different member

omit [DecidableEq ι] in
theorem Carries.free {t : TaskPtr} (carries : h.Carries s lists) (free : s.Free t) :
    lists.home t = none := by
  cases home : lists.home t with
  | none => rfl
  | some l =>
      have member := (lists.mem_seq t l).mpr home
      rw [carries.seq] at member
      exact absurd member (free l)

theorem Carries.addtask {l : ι} {t : TaskPtr} (carries : h.Carries s lists) (free : s.Free t) :
    (h.addtask l t).Carries (s.step (.addtask l t)) (lists.push l t (carries.free free)) where
  links := by
    rw [links_addtask, ← carries.links]
    rfl
  seq := by
    rw [Sequences.step, ← carries.seq]
    rfl
  alarmtime := by
    rw [alarmtime_addtask]
    exact carries.alarmtime

theorem Carries.deltask {l : ι} {t : TaskPtr} (carries : h.Carries s lists)
    (held : lists.home t = some l) :
    (h.deltask l t).Carries (s.step (.deltask l t)) (lists.remove l t held) where
  links := by
    rw [links_deltask, ← carries.links]
    rfl
  seq := by
    rw [Sequences.step, ← carries.seq]
    rfl
  alarmtime := by
    rw [alarmtime_deltask]
    exact carries.alarmtime

/-- The loop stops at a task of the list, or at its end, and the running task is put in front. -/
theorem Carries.taskdelay {taskrunning : TaskPtr} (sleeping : ι) (due : Nat)
    (carries : h.Carries s lists) (free : s.Free taskrunning) :
    ∃ h' lists', Carries h' (s.step (.taskdelay sleeping taskrunning due)) lists' ∧
      ∀ fuel, (s.seq sleeping).length ≤ fuel →
        h.taskdelay sleeping taskrunning due fuel = some h' := by
  obtain ⟨earlier, earlierEq⟩ : ∃ earlier : TaskPtr → Bool,
      earlier = fun u => decide (s.alarmtime u < due) := ⟨_, rfl⟩
  obtain ⟨position, positionEq⟩ : ∃ position,
      position = ((lists.seq sleeping).dropWhile earlier).head? := ⟨_, rfl⟩
  have known : ∀ u ∈ position, u ∈ lists.seq sleeping := by
    rintro u found
    rw [positionEq] at found
    exact (List.dropWhile_sublist _).subset (List.mem_of_mem_head? found)
  refine ⟨h.delayInsert sleeping taskrunning due position,
    lists.insert sleeping taskrunning position (carries.free free) known,
    ⟨?_, ?_, ?_⟩, fun fuel enough => ?_⟩
  · rw [links_delayInsert, ← carries.links]
    rfl
  · change update lists.seq sleeping (Dlist.insertAt taskrunning position _) = _
    rw [positionEq, Dlist.insertAt_dropWhile taskrunning earlier (lists.nodup sleeping),
      carries.seq, earlierEq]
    rfl
  · rw [alarmtime_delayInsert, carries.alarmtime]
    rfl
  · have walk := carries.represents.forward sleeping
    have found := delayPosition_eq h due walk enough
    rw [carries.alarmtime, ← earlierEq, ← carries.seq, ← positionEq] at found
    rw [Heap.taskdelay, found]
    rfl

omit [DecidableEq ι] in
theorem Carries.setTask {t : TaskPtr} {fields : TaskLinks} (carries : h.Carries s lists)
    (free : s.Free t) :
    (h.setTask t fields).Carries
      { s with alarmtime := update s.alarmtime t fields.alarmtime }
      (lists.overwrite t fields.next fields.prev (carries.free free)) where
  links := by
    rw [links_setTask, ← carries.links]
    rfl
  seq := carries.seq
  alarmtime := by
    rw [alarmtime_setTask, carries.alarmtime]

/-- The lists after one operation. -/
theorem Carries.step (carries : h.Carries s lists) {op : ListOp ι} (allowed : s.Allowed op) :
    ∃ h' lists', Carries h' (s.step op) lists' ∧
      ∀ fuel, (∀ l, (s.seq l).length ≤ fuel) → h.step fuel op = some h' := by
  cases op with
  | addtask l t => exact ⟨_, _, carries.addtask allowed, fun _ _ => rfl⟩
  | deltask l t =>
      have held : lists.home t = some l := by
        rw [← lists.mem_seq, carries.seq]
        exact allowed
      exact ⟨_, _, carries.deltask held, fun _ _ => rfl⟩
  | taskdelay sleeping taskrunning due =>
      obtain ⟨h', lists', carries', inserted⟩ := carries.taskdelay sleeping due allowed
      exact ⟨h', lists', carries', fun fuel enough => inserted fuel (enough sleeping)⟩
  | write t fields => exact ⟨_, _, carries.setTask allowed, fun _ _ => rfl⟩

/-- The lists after a run. -/
theorem Carries.run (carries : h.Carries s lists) {ops : List (ListOp ι)} (legal : s.Legal ops) :
    ∃ h' lists', Carries h' (s.run ops) lists' ∧
      ∀ fuel, (∀ l, (s.seq l).length + ops.length ≤ fuel) → h.run fuel ops = some h' := by
  induction ops generalizing h s lists with
  | nil => exact ⟨h, lists, carries, fun _ _ => rfl⟩
  | cons op ops ih =>
      obtain ⟨allowed, legal⟩ := legal
      obtain ⟨h₁, lists₁, carries₁, stepped⟩ := carries.step allowed
      obtain ⟨h', lists', carries', ran⟩ := ih carries₁ legal
      refine ⟨h', lists', carries', fun fuel enough => ?_⟩
      rw [Heap.run, stepped fuel fun l => Nat.le_trans (Nat.le_add_right _ _) (enough l)]
      apply ran
      intro l
      have grown := s.length_step op l
      have room := enough l
      rw [List.length_cons] at room
      omega

omit [DecidableEq ι] in
/-- The empty lists, whatever is in the tasks. -/
theorem carries_start (task : TaskPtr → TaskLinks) :
    ∃ lists, Carries (start task : Heap ι) (.start task) lists :=
  ⟨{  links := (start task).links
      seq := fun _ => []
      home := fun _ => none
      linked := fun _ => ⟨rfl, rfl, trivial⟩
      mem_seq := by simp
      nodup := by simp }, rfl, rfl, rfl⟩

end Heap

/-- The operations on the heap refine those on sequences.  From empty lists on, over tasks that
hold anything in their fields, every run of allowed operations ends, and it leaves lists that are
well formed, disjoint, and hold what the same operations make of the sequences.  The loop of
`taskdelay` takes no more turns than there were operations. -/
theorem lists_refine_sequences {ι : Type} [DecidableEq ι] (task : TaskPtr → TaskLinks)
    {ops : List (ListOp ι)} (legal : (Sequences.start task).Legal ops) :
    ∃ h, (∀ fuel, ops.length ≤ fuel → (Heap.start task).run fuel ops = some h) ∧
      h.Represents ((Sequences.start task).run ops) := by
  obtain ⟨lists, carries⟩ := Heap.carries_start (ι := ι) task
  obtain ⟨h, lists', carries', ran⟩ := carries.run legal
  refine ⟨h, fun fuel enough => ran fuel fun l => ?_, carries'.represents⟩
  rw [Sequences.start, List.length_nil, Nat.zero_add]
  exact enough

/-- Task 2 leaves the middle of the first list and goes to sleep with the links that it had there.
Task 1 goes to sleep in front of it. -/
def sleepers : List (ListOp Bool) :=
  [.addtask false 1, .addtask false 2, .addtask false 3, .deltask false 2,
    .taskdelay true 2 10, .deltask false 1, .taskdelay true 1 5]

theorem lists_refine_sequences_sleepers : ∃ h,
    (Heap.start fun _ => ⟨some 7, some 8, 0⟩).run 7 sleepers = some h ∧
      h.Represents ((Sequences.start fun _ => ⟨some 7, some 8, 0⟩).run sleepers) := by
  have legal : (Sequences.start fun _ => ⟨some 7, some 8, 0⟩).Legal sleepers := by
    simp [sleepers, Sequences.Legal, Sequences.Allowed, Sequences.Free, Sequences.step,
      Sequences.start]
  obtain ⟨h, ran, represents⟩ := lists_refine_sequences _ legal
  exact ⟨h, ran 7 (Nat.le_refl _), represents⟩

/-! ## The lists of the runtime -/

/-- The lists and the tasks of a state, as they lie in memory. -/
def St.heap (s : St) : Heap ListId where
  task t := ⟨s.lists.links.next t, s.lists.links.prev t, (s.task t).alarmtime⟩
  list l := ⟨s.lists.links.head l, s.lists.links.tail l⟩

theorem Heap.eq_of_links {ι : Type} {h h' : Heap ι} (links : h.links = h'.links)
    (alarmtime : h.alarmtime = h'.alarmtime) : h = h' := by
  obtain ⟨task, list⟩ := h
  obtain ⟨task', list'⟩ := h'
  simp only [Heap.links, Links.mk.injEq] at links
  obtain ⟨next, prev, head, tail⟩ := links
  congr 1
  · funext t
    exact TaskLinks.ext (congrFun next t) (congrFun prev t) (congrFun alarmtime t)
  · funext l
    exact Tasklist.ext (congrFun head l) (congrFun tail l)

/-- Each state holds its sequences in its memory. -/
theorem St.heap_represents (s : St) :
    s.heap.Represents ⟨s.seq, fun t => (s.task t).alarmtime⟩ :=
  Heap.Carries.represents ⟨rfl, rfl, rfl⟩

variable {s s' : St} {l : ListId} {t : TaskPtr}

theorem addtask_heap (added : addtask s l t = .ok s') : s'.heap = s.heap.addtask l t := by
  unfold addtask at added
  split at added
  next lists pushed =>
    obtain rfl := Except.ok.inj added
    apply Heap.eq_of_links
    · rw [Heap.links_addtask]
      exact Dlist.Dlists.push?_links pushed
    · rw [Heap.alarmtime_addtask]
      rfl
  next => cases added

theorem deltask_heap (deleted : deltask s l t = .ok s') : s'.heap = s.heap.deltask l t := by
  unfold deltask at deleted
  split at deleted
  next lists removed =>
    obtain rfl := Except.ok.inj deleted
    apply Heap.eq_of_links
    · rw [Heap.links_deltask]
      exact Dlist.Dlists.remove?_links removed
    · rw [Heap.alarmtime_deltask]
      rfl
  next => cases deleted

/-- `taskdelay` puts the running task where its loop stops. -/
theorem taskdelay_heap {self : TaskPtr} {ms now : Nat} {m : Alloc} {flow : Flow}
    (done : taskdelay s self ms now m = .ok (s', flow)) :
    ∃ s₁ fuel, startfdtask s m = .ok s₁ ∧
      s₁.heap.taskdelay .sleeping self ((now + ms * 1000000) % 2 ^ 64) fuel = some s'.heap := by
  obtain ⟨s₁, started, rest⟩ := Outcome.bind_eq_ok.mp done
  simp only at rest
  split at rest
  next => cases rest
  next lists inserted =>
    generalize (now + ms * 1000000) % 2 ^ 64 = due at rest inserted
    obtain ⟨stateEq, -⟩ := Prod.mk.inj (Except.ok.inj rest)
    have effect : s'.lists = lists ∧
        s'.task = update s₁.task self { s₁.task self with alarmtime := due } := by
      rw [← stateEq]
      cases system : (s₁.task self).system <;> simp [St.setTask, system]
    have walk := s₁.heap_represents.forward .sleeping
    have found := Heap.delayPosition_eq s₁.heap due walk (Nat.le_refl _)
    rw [Libtask.head_eq, delayPosition_eq [] _ rfl (Nat.le_refl _)] at inserted
    refine ⟨s₁, (s₁.seq .sleeping).length, started, ?_⟩
    refine (congrArg (Option.map _) found).trans (congrArg some (Heap.eq_of_links ?_ ?_))
    · rw [Heap.links_delayInsert]
      refine (Dlist.Dlists.insert?_links inserted).symm.trans ?_
      rw [← effect.1]
      rfl
    · rw [Heap.alarmtime_delayInsert]
      funext u
      by_cases same : u = self
      · simp [Heap.alarmtime, St.heap, effect.2, same]
      · simp [Heap.alarmtime, St.heap, effect.2, same]

end Libtask
