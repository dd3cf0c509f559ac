import Mathlib.Data.Int.Notation
import DbAgent.TransitionSystem

/-! `MergeCommitCoalescer` on one event loop. A step runs a task up to its next
suspension; the lock is never held across one, so nobody ever waits for it. -/
namespace DbAgent.Coalescer

open Transition

/-- `_PendingMerge`; the future is known by its number. Times are in µs. -/
structure Pending (ε : Type) where
  id : ℕ
  event : ε
  enqueuedAt : ℤ

inductive Exc where
  | cancelled
  | closed (message : String)
  | runtimeError (message : String)
  | typeError
  | other (n : ℕ)
  deriving DecidableEq, Repr

/-- An element of an answer. `set_exception` refuses a `StopIteration`. -/
inductive Element (α : Type) where
  | value (a : α)
  | exception (e : Exc)
  | stopIteration

/-- How a call of `execute_batch` ends, and what `list()` makes of its answer:
a `TypeError`, another exception, or its elements. -/
inductive Answer (α : Type) where
  | raised (e : Exc)
  | notIterable (typeName : String)
  | iterationRaises (e : Exc)
  | sequence (xs : List (Element α))

inductive Resolution (α : Type) where
  | result (a : α)
  | exception (e : Exc)

/-- The shielded call of a group: waiting for a thread, in `execute_batch`, or
over; `called` says whether a thread was ever found. -/
inductive GroupPhase (α : Type) where
  | scheduled
  | running
  | ended (called : Bool) (answer : Answer α)

structure Group (ε α : Type) where
  batch : List (Pending ε)
  phase : GroupPhase α

inductive DrainerPc (ε : Type) where
  | absent
  | ready
  | collecting (deadline : ℤ)
  | executing (batch : List (Pending ε)) (group : ℕ)
  | finished (cancelled : Bool)

/-- Where a call of `close` stands. -/
inductive CloserPc where
  | idle
  | waiting (drainer : ℕ)
  | returned
  | abandoned

/-- The fields of the coalescer, its tasks, the calls of its groups, and the
history: what was accepted, handed to `execute_batch` and resolved. -/
structure State (ε α : Type) where
  loop : Option ℕ
  queue : List (Pending ε)
  inflight : List (Pending ε)
  arrival : Bool
  drainer : Option ℕ
  closing : Bool
  failure : Option Exc
  tasks : ℕ → DrainerPc ε
  nextTask : ℕ
  groups : List (Group ε α)
  closers : ℕ → CloserPc
  detached : List ℕ
  accepted : List (Pending ε)
  handed : List (List (Pending ε))
  resolved : List (ℕ × Resolution α)

variable {ε α : Type}

def batchSize : ℕ := 8

/-- `MERGE_COMMIT_MAX_WAIT_SECONDS`. -/
def maxWait : ℤ := 10000

def State.setTask (s : State ε α) (d : ℕ) (pc : DrainerPc ε) : State ε α :=
  { s with tasks := Function.update s.tasks d pc }

/-- `_resolve_result` and `_resolve_exception`: a future that is done stays. -/
def settle (log : List (ℕ × Resolution α)) (id : ℕ) (r : Resolution α) :
    List (ℕ × Resolution α) :=
  if id ∈ log.map Prod.fst then log else log ++ [(id, r)]

def settleAll (e : Exc) (log : List (ℕ × Resolution α)) (batch : List (Pending ε)) :
    List (ℕ × Resolution α) :=
  batch.foldl (fun log x => settle log x.id (.exception e)) log

/-- The loop over `zip(batch, resolved)`; the flag says that `set_exception`
has raised. -/
def settleEach : List (ℕ × Resolution α) → List (Pending ε) → List (Element α) →
    List (ℕ × Resolution α) × Bool
  | log, x :: batch, .value a :: xs => settleEach (settle log x.id (.result a)) batch xs
  | log, x :: batch, .exception e :: xs => settleEach (settle log x.id (.exception e)) batch xs
  | log, x :: batch, .stopIteration :: xs =>
    if x.id ∈ log.map Prod.fst then settleEach log batch xs else (log, true)
  | log, _, _ => (log, false)

def State.failEverything (s : State ε α) (e : Exc) : State ε α :=
  { s with
    failure := some e
    closing := true
    drainer := none
    inflight := []
    queue := []
    resolved := settleAll e (settleAll e s.resolved s.inflight) s.queue }

/-- The handlers of `_drain`. -/
def State.crash (s : State ε α) (d : ℕ) : Exc → State ε α
  | .cancelled =>
    (s.failEverything (.closed "the merge coalescer drainer was cancelled")).setTask d
      (.finished true)
  | e => (s.failEverything e).setTask d (.finished false)

def State.exitDrain (s : State ε α) (d : ℕ) : State ε α :=
  { s with drainer := none }.setTask d (.finished false)

def State.takeGroup (s : State ε α) (d : ℕ) : State ε α :=
  match s.queue.take batchSize with
  -- an empty batch goes round the loop, which ends at the empty queue
  | [] => s.exitDrain d
  | x :: xs =>
    State.setTask { s with
      queue := s.queue.drop batchSize
      inflight := x :: xs
      groups := s.groups ++ [⟨x :: xs, .scheduled⟩] } d (.executing (x :: xs) s.groups.length)

/-- `_await_group` at a reading of the clock. -/
def State.awaitGroup (s : State ε α) (d : ℕ) (deadline now : ℤ) : State ε α :=
  if deadline-now ≤ 0 then s.takeGroup d
  else
    let s := { s with arrival := false }
    if batchSize ≤ s.queue.length then s.takeGroup d else s.setTask d (.collecting deadline)

/-- The head of the loop in `_drain_loop`. -/
def State.drainTop (s : State ε α) (d : ℕ) (now : ℤ) : State ε α :=
  match s.queue with
  | [] => s.exitDrain d
  | x :: _ =>
    if batchSize ≤ s.queue.length then s.takeGroup d
    else s.awaitGroup d (x.enqueuedAt+maxWait) now

def answeredText (answered : String) (n : ℕ) : String :=
  "the merge group callback answered " ++ answered ++ " for " ++ n.repr ++ " accepted items"

def State.failBatch (s : State ε α) (d : ℕ) (now : ℤ) (batch : List (Pending ε)) (e : Exc) :
    State ε α :=
  State.drainTop { s with inflight := [], resolved := settleAll e s.resolved batch } d now

/-- `_run_batch` after its `await`. -/
def State.finishBatch (s : State ε α) (d : ℕ) (now : ℤ) (batch : List (Pending ε)) :
    Answer α → State ε α
  -- the members stay in flight for the handler of the drainer
  | .raised .cancelled => s.crash d .cancelled
  | .raised e => s.failBatch d now batch e
  | .notIterable typeName =>
    s.failBatch d now batch (.runtimeError (answeredText typeName batch.length))
  | .iterationRaises e => State.crash { s with inflight := [] } d e
  | .sequence xs =>
    if xs.length ≠ batch.length then
      s.failBatch d now batch (.runtimeError (answeredText xs.length.repr batch.length))
    else
      match settleEach s.resolved batch xs with
      | (log, false) => State.drainTop { s with inflight := [], resolved := log } d now
      | (log, true) => State.crash { s with inflight := [], resolved := log } d .typeError

inductive Event (ε α : Type) where
  | submit (loop : ℕ) (event : ε) (now : ℤ)
  | detach (id : ℕ)
  | run (d : ℕ) (now : ℤ)
  | wake (d : ℕ) (now : ℤ)
  | timeout (d : ℕ)
  | call (g : ℕ)
  | answer (g : ℕ) (a : Answer α)
  | complete (d : ℕ) (now : ℤ)
  | cancel (d : ℕ)
  | close (c : ℕ)
  | closed (c : ℕ)
  | abandon (c : ℕ)

/-- `submit` behind the checks of the event loop and of `_refuse_if_closed`. -/
def State.accept (s : State ε α) (event : ε) (now : ℤ) : State ε α :=
  let x : Pending ε := ⟨s.accepted.length, event, now⟩
  let s := { s with
    queue := s.queue ++ [x]
    arrival := true
    accepted := s.accepted ++ [x] }
  match s.drainer with
  | some _ => s
  | none =>
    { s with drainer := some s.nextTask, nextTask := s.nextTask+1 }.setTask s.nextTask .ready

/-- One step of one task; `none` where it is not enabled. -/
def State.step (s : State ε α) : Event ε α → Option (State ε α)
  | .submit loop event now =>
    -- a second loop, a failure and closing are refused
    if s.loop ≠ none ∧ s.loop ≠ some loop then none
    else if s.failure ≠ none ∨ s.closing = true then some { s with loop := some loop }
    else some (State.accept { s with loop := some loop } event now)
  | .detach id => some { s with detached := s.detached ++ [id] }
  | .run d now =>
    match s.tasks d with
    | .ready => some (s.drainTop d now)
    | _ => none
  | .wake d now =>
    match s.tasks d with
    | .collecting deadline => if s.arrival then some (s.awaitGroup d deadline now) else none
    | _ => none
  | .timeout d =>
    match s.tasks d with
    | .collecting _ => some (s.takeGroup d)
    | _ => none
  | .call g =>
    match s.groups[g]? with
    | some ⟨batch, .scheduled⟩ =>
      some { s with groups := s.groups.set g ⟨batch, .running⟩, handed := s.handed ++ [batch] }
    | _ => none
  | .answer g a =>
    match s.groups[g]?, a with
    | some ⟨batch, .running⟩, a => some { s with groups := s.groups.set g ⟨batch, .ended true a⟩ }
    -- no thread could be had
    | some ⟨batch, .scheduled⟩, .raised e =>
      some { s with groups := s.groups.set g ⟨batch, .ended false (.raised e)⟩ }
    | _, _ => none
  | .complete d now =>
    match s.tasks d with
    | .executing batch g =>
      match s.groups[g]? with
      | some ⟨_, .ended _ a⟩ => some (s.finishBatch d now batch a)
      | _ => none
    | _ => none
  | .cancel d =>
    -- only a drainer that has started running
    match s.tasks d with
    | .collecting _ => some (s.crash d .cancelled)
    | .executing _ _ => some (s.crash d .cancelled)
    | _ => none
  | .close c =>
    match s.closers c with
    | .idle =>
      some { s with
        closing := true
        arrival := true
        closers := Function.update s.closers c (s.drainer.elim .returned .waiting) }
    | _ => none
  | .closed c =>
    match s.closers c with
    | .waiting d =>
      match s.tasks d with
      | .finished _ => some { s with closers := Function.update s.closers c .returned }
      | _ => none
    | _ => none
  | .abandon c =>
    match s.closers c with
    | .waiting _ => some { s with closers := Function.update s.closers c .abandoned }
    | _ => none

def State.initial : State ε α where
  loop := none
  queue := []
  inflight := []
  arrival := false
  drainer := none
  closing := false
  failure := none
  tasks := fun _ => .absent
  nextTask := 0
  groups := []
  closers := fun _ => .idle
  detached := []
  accepted := []
  handed := []
  resolved := []

def system (ε α : Type) : System (State ε α) (Event ε α) where
  init := fun s => s = State.initial
  step := State.step

/-- The answer can be iterated to its end, if at all, and has no
`StopIteration` in it. -/
def Answer.Sound : Answer α → Prop
  | .iterationRaises _ => False
  | .sequence xs => ∀ x ∈ xs, x ≠ .stopIteration
  | _ => True

def Event.Sound (_ : State ε α) : Event ε α → Prop
  | .answer _ a => a.Sound
  | _ => True

end DbAgent.Coalescer
