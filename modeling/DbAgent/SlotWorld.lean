import DbAgent.TransitionSystem
import DbAgent.IngestStore

/-! Any number of ingest requests in any number of gateway workers over one
database: groups of fused merges, and `_ingest_txn` transactions that serialize
on the advisory lock of their slot. -/
namespace DbAgent.Ingest

open Transition

def slotOf (event : AlertEvent) : String × String := (event.platformKey, event.fingerprint)

/-- What the workers have in common; `lockKey` is `correlation_lock_key`, of
which only its being a function of the slot is used. -/
structure Gateway where
  interpreter : Py.Interpreter
  settings : Settings
  lockKey : String × String → ℤ

inductive Phase where
  | active | committed | aborted
  deriving DecidableEq, Repr

structure Group where
  phase : Phase
  writes : Writes

/-- The deciding re-read of a request: the start of its window, and the rows
that were committed when the statement took its snapshot. -/
structure Reread where
  start : Instant
  snapshot : Store

inductive RequestPc where
  | idle
  | queued (event : AlertEvent)
  | grouped (event : AlertEvent) (group : ℕ) (hit : Option Uuid)
  | missed (event : AlertEvent)
  | rejecting (event : AlertEvent) (reason : RejectReason) (writes : Writes)
  | admitted (event : AlertEvent) (a : Admission)
  | locked (event : AlertEvent) (a : Admission)
  | decided (event : AlertEvent) (d : Reread) (r : Response) (writes : Writes)
  | committed (event : AlertEvent) (r : Response)
  | answered (event : AlertEvent) (r : Response)
  | failed (event : AlertEvent)

structure OpenRecord where
  request : ℕ
  event : AlertEvent
  investigationId : Uuid
  reread : Reread

/-- The committed rows, the advisory locks, the groups and the requests.
`opened` and `rereads` record the history: the opens in the order of their
commits, and every deciding re-read. -/
structure World where
  store : Store
  locks : ℤ → Option ℕ
  groups : ℕ → Group
  requests : ℕ → RequestPc
  opened : List OpenRecord
  rereads : List (AlertEvent × Reread)

def World.setRequest (w : World) (q : ℕ) (pc : RequestPc) : World :=
  { w with requests := Function.update w.requests q pc }

def World.setGroup (w : World) (b : ℕ) (g : Group) : World :=
  { w with groups := Function.update w.groups b g }

def World.setLock (w : World) (k : ℤ) (h : Option ℕ) : World :=
  { w with locks := Function.update w.locks k h }

/-- `UPDATE investigations SET status = …` by whoever drives the case. -/
def Store.setStatus (st : Store) (inv : Uuid) (status : Status) : Store :=
  { st with investigations := st.investigations.map (fun r =>
      if r.investigationId = inv then { r with status := status } else r) }

def recordOf (q : ℕ) (event : AlertEvent) (d : Reread) : Response → List OpenRecord
  | .opened inv => [⟨q, event, inv, d⟩]
  | .merged _ => []
  | .rejected _ => []

def World.install (w : World) (q : ℕ) (event : AlertEvent) (d : Reread) (r : Response)
    (st : Store) : World :=
  { w with store := st, opened := w.opened ++ recordOf q event d r }.setRequest q
    (.committed event r)

inductive WorldEvent where
  | submit (q : ℕ) (event : AlertEvent)
  | statement (q b tie : ℕ) (now : Instant)
  | groupCommit (b : ℕ)
  | groupAbort (b : ℕ)
  | resume (q : ℕ)
  | admitEvent (q : ℕ) (clock : Clock)
  | lock (q : ℕ)
  | reread (q tie : ℕ) (clock : Clock) (fresh : Uuid)
  | commit (q : ℕ)
  | release (q : ℕ)
  | rollback (q : ℕ)
  | setStatus (inv : Uuid) (status : Status)
  | setPlatform (key : String) (p : Option Platform)

/-- One statement, commit or rollback of one transaction, or a change made by
another service; `none` where it is not its turn or it has to wait. -/
def World.step (G : Gateway) (w : World) : WorldEvent → Option World
  | .submit q event =>
    match w.requests q with
    | .idle =>
      if precheck G.settings event = none then some (w.setRequest q (.queued event)) else none
    | _ => none
  | .statement q b tie now =>
    match w.requests q, (w.groups b).phase with
    | .queued event, .active =>
      -- the statement sees the rows its own group has inserted before it
      match mergeExistingEventWithAudit (w.store.overlay (w.groups b).writes) tie event
          G.settings.correlationWindowSeconds now with
      | .error _ => some (w.setRequest q (.failed event))
      | .ok r => some ((w.setGroup b ⟨.active, (w.groups b).writes.append r.writes⟩).setRequest q
          (.grouped event b r.value))
    | _, _ => none
  | .groupCommit b =>
    match (w.groups b).phase with
    | .active =>
      match w.store.commit (w.groups b).writes with
      | none => none
      | some st => some ({ w with store := st }.setGroup b ⟨.committed, (w.groups b).writes⟩)
    | _ => none
  | .groupAbort b =>
    match (w.groups b).phase with
    | .active => some (w.setGroup b ⟨.aborted, (w.groups b).writes⟩)
    | _ => none
  | .resume q =>
    match w.requests q with
    | .grouped event b hit =>
      match (w.groups b).phase, hit with
      | .active, _ => none
      | .aborted, _ => some (w.setRequest q (.failed event))
      | .committed, some inv => some (w.setRequest q (.answered event (.merged inv)))
      | .committed, none => some (w.setRequest q (.missed event))
    | _ => none
  | .admitEvent q clock =>
    match w.requests q with
    | .missed event =>
      match admitEvent G.interpreter G.settings w.store event with
      | .error _ => some (w.setRequest q (.failed event))
      | .ok (.error reason) =>
        some (w.setRequest q (.rejecting event reason (rejectWrites event reason clock)))
      | .ok (.ok a) => some (w.setRequest q (.admitted event a))
    | _ => none
  | .lock q =>
    match w.requests q with
    | .admitted event a =>
      if w.locks (G.lockKey (slotOf event)) = none then
        some ((w.setLock (G.lockKey (slotOf event)) (some q)).setRequest q (.locked event a))
      else none
    | _ => none
  | .reread q tie clock fresh =>
    match w.requests q with
    | .locked event a =>
      match decideUnderLock G.settings w.store tie clock fresh event a with
      | .error _ => some ((w.setLock (G.lockKey (slotOf event)) none).setRequest q (.failed event))
      | .ok (r, writes) =>
        let d : Reread := ⟨clock.reread-a.window*1000000, w.store⟩
        some { w.setRequest q (.decided event d r writes) with
          rereads := w.rereads ++ [(event, d)] }
    | _ => none
  | .commit q =>
    match w.requests q with
    | .rejecting event reason writes =>
      match w.store.commit writes with
      | none => none
      | some st => some ({ w with store := st }.setRequest q (.answered event (.rejected reason)))
    | .decided event d r writes =>
      match w.store.commit writes with
      | none => none
      | some st => some (w.install q event d r st)
    | _ => none
  | .release q =>
    match w.requests q with
    -- the advisory lock goes only after the commit is visible
    | .committed event r =>
      some ((w.setLock (G.lockKey (slotOf event)) none).setRequest q (.answered event r))
    | _ => none
  | .rollback q =>
    match w.requests q with
    | .missed event => some (w.setRequest q (.failed event))
    | .rejecting event _ _ => some (w.setRequest q (.failed event))
    | .admitted event _ => some (w.setRequest q (.failed event))
    | .locked event _ =>
      some ((w.setLock (G.lockKey (slotOf event)) none).setRequest q (.failed event))
    | .decided event _ _ _ =>
      some ((w.setLock (G.lockKey (slotOf event)) none).setRequest q (.failed event))
    | _ => none
  | .setStatus inv status => some { w with store := w.store.setStatus inv status }
  | .setPlatform key p =>
    some { w with store := { w.store with platforms := Function.update w.store.platforms key p } }

def World.initial (st : Store) : World where
  store := st
  locks := fun _ => none
  groups := fun _ => ⟨.active, .empty⟩
  requests := fun _ => .idle
  opened := []
  rereads := []

/-- The runs that start from the committed rows `st`. -/
def system (G : Gateway) (st : Store) : System World WorldEvent where
  init := fun w => w = World.initial st
  step := World.step G

/-- A request that has no transaction, or one without the lock and without
rows it could commit. -/
def RequestPc.free : RequestPc → Prop
  | .queued _ => True
  | .missed _ => True
  | .rejecting _ _ _ => True
  | .admitted _ _ => True
  | .grouped _ _ _ => True
  | .idle => True
  | _ => False

inductive WorldStep (G : Gateway) (w : World) : World → Prop
  | submit (q : ℕ) (event : AlertEvent) (hq : w.requests q = .idle) :
    WorldStep G w (w.setRequest q (.queued event))
  | fail (q : ℕ) (event : AlertEvent) (hq : (w.requests q).free) :
    WorldStep G w (w.setRequest q (.failed event))
  | unlock (q : ℕ) (event : AlertEvent)
    (hq : (∃ a, w.requests q = .locked event a) ∨ ∃ d r ws, w.requests q = .decided event d r ws) :
    WorldStep G w ((w.setLock (G.lockKey (slotOf event)) none).setRequest q (.failed event))
  | statement (q b tie : ℕ) (now : Instant) (event : AlertEvent) (r : StatementResult)
    (hq : w.requests q = .queued event) (hb : (w.groups b).phase = .active)
    (hr : mergeExistingEventWithAudit (w.store.overlay (w.groups b).writes) tie event
      G.settings.correlationWindowSeconds now = .ok r) :
    WorldStep G w ((w.setGroup b ⟨.active, (w.groups b).writes.append r.writes⟩).setRequest q
      (.grouped event b r.value))
  | groupCommit (b : ℕ) (st : Store) (hb : (w.groups b).phase = .active)
    (hst : w.store.commit (w.groups b).writes = some st) :
    WorldStep G w ({ w with store := st }.setGroup b ⟨.committed, (w.groups b).writes⟩)
  | groupAbort (b : ℕ) (hb : (w.groups b).phase = .active) :
    WorldStep G w (w.setGroup b ⟨.aborted, (w.groups b).writes⟩)
  | hit (q b : ℕ) (event : AlertEvent) (inv : Uuid)
    (hq : w.requests q = .grouped event b (some inv)) (hb : (w.groups b).phase = .committed) :
    WorldStep G w (w.setRequest q (.answered event (.merged inv)))
  | miss (q b : ℕ) (event : AlertEvent) (hq : w.requests q = .grouped event b none)
    (hb : (w.groups b).phase = .committed) : WorldStep G w (w.setRequest q (.missed event))
  | reject (q : ℕ) (event : AlertEvent) (reason : RejectReason) (clock : Clock)
    (hq : w.requests q = .missed event)
    (ha : admitEvent G.interpreter G.settings w.store event = .ok (.error reason)) :
    WorldStep G w (w.setRequest q (.rejecting event reason (rejectWrites event reason clock)))
  | admitEvent (q : ℕ) (event : AlertEvent) (a : Admission) (hq : w.requests q = .missed event)
    (ha : admitEvent G.interpreter G.settings w.store event = .ok (.ok a)) :
    WorldStep G w (w.setRequest q (.admitted event a))
  | lock (q : ℕ) (event : AlertEvent) (a : Admission) (hq : w.requests q = .admitted event a)
    (hk : w.locks (G.lockKey (slotOf event)) = none) :
    WorldStep G w ((w.setLock (G.lockKey (slotOf event)) (some q)).setRequest q (.locked event a))
  | reread (q tie : ℕ) (clock : Clock) (fresh : Uuid) (event : AlertEvent) (a : Admission)
    (r : Response) (writes : Writes) (hq : w.requests q = .locked event a)
    (hd : decideUnderLock G.settings w.store tie clock fresh event a = .ok (r, writes)) :
    WorldStep G w { w.setRequest q
        (.decided event ⟨clock.reread-a.window*1000000, w.store⟩ r writes) with
      rereads := w.rereads ++ [(event, ⟨clock.reread-a.window*1000000, w.store⟩)] }
  | commitReject (q : ℕ) (event : AlertEvent) (reason : RejectReason) (writes : Writes)
    (st : Store) (hq : w.requests q = .rejecting event reason writes)
    (hst : w.store.commit writes = some st) :
    WorldStep G w ({ w with store := st }.setRequest q (.answered event (.rejected reason)))
  | commit (q : ℕ) (event : AlertEvent) (d : Reread) (r : Response) (writes : Writes)
    (st : Store) (hq : w.requests q = .decided event d r writes)
    (hst : w.store.commit writes = some st) :
    WorldStep G w (w.install q event d r st)
  | release (q : ℕ) (event : AlertEvent) (r : Response)
    (hq : w.requests q = .committed event r) :
    WorldStep G w ((w.setLock (G.lockKey (slotOf event)) none).setRequest q (.answered event r))
  | setStatus (inv : Uuid) (status : Status) :
    WorldStep G w { w with store := w.store.setStatus inv status }
  | setPlatform (key : String) (p : Option Platform) :
    WorldStep G w
      { w with store := { w.store with platforms := Function.update w.store.platforms key p } }

theorem world_step_sound (G : Gateway) (w w' : World) (e : WorldEvent)
    (h : w.step G e = some w') : WorldStep G w w' := by
  cases e <;> grind [World.step, WorldStep, RequestPc.free]

end DbAgent.Ingest
