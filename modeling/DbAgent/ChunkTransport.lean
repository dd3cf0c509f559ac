import Mathlib
import DbAgent.TransitionSystem
import DbAgent.Reassembly

/-! One session of the gateway with its calls of `Dispatch`. The receive loop puts the
frames of the probe into the maps of the handle; a call waits on a channel of its own
and takes itself out of the maps when it ends. -/
namespace DbAgent.Chunks

open Transition List

inductive Frame where
  | chunk (origin : ℕ) (c : Chunk)
  | result (origin : ℕ) (r : TaskResult)

def Frame.origin : Frame → ℕ
  | .chunk origin _ => origin
  | .result origin _ => origin

def Frame.taskId : Frame → String
  | .chunk _ c => c.taskId
  | .result _ r => r.taskId

def errProbeNotConnected : String := "gwserver: no active session for platform"
def errTaskTimeout : String := "gwserver: task dispatch timed out"

/-- `taskOutcome`. -/
structure Delivery where
  result : TaskResult
  data : Bytes
  err : Option String

/-- What `receiveResult` makes of a result and the chunks of its task. -/
def received (m : Option ChunkMap) (r : TaskResult) : Delivery :=
  match reassembleChunks (m.getD ∅) r.chunkCount with
  | .ok data => ⟨r, data, none⟩
  | .error e => ⟨r, [], some e⟩

/-- The branch of its last `select` by which a call ends. -/
inductive Ending where
  | outcome (x : Delivery)
  | sessionClosed
  | cancelled
  | timedOut

/-- What `Dispatch` returns. -/
def Ending.returned (taskId : String) : Ending → Option TaskResult × Bytes × Option String
  | .outcome x => (some x.result, x.data, x.err)
  | .sessionClosed => (none, [], some errProbeNotConnected)
  | .cancelled => (none, [], some "context canceled")
  | .timedOut => (some ⟨taskId, 1, false, false, errTaskTimeout, 0⟩, [], none)

/-- A call has registered itself, has sent its request, has chosen how to end, has
taken itself out of the maps and returned. -/
inductive Stage where
  | sending
  | waiting
  | leaving (ending : Ending)
  | ended (ending : Ending)

def Stage.outcome : Stage → Option Delivery
  | .leaving (.outcome x) => some x
  | .ended (.outcome x) => some x
  | _ => none

structure Call where
  taskId : String
  stage : Stage

/-- `sessionHandle`. `pending` names the call whose channel is in the map, and
`channels` what a channel holds; `delivering` is what the receive loop is about to send.
`log` keeps the frames that were read. -/
structure Session where
  pending : String → Option ℕ
  chunks : String → Option ChunkMap
  channels : ℕ → Option Delivery
  calls : ℕ → Option Call
  delivering : Option (ℕ × Delivery)
  closed : Bool
  log : List Frame

open Session

inductive Event where
  | dispatch (d : ℕ) (taskId : String)
  | send (d : ℕ)
  | chunk (origin : ℕ) (c : Chunk)
  | result (origin : ℕ) (r : TaskResult)
  | deliver
  | take (d : ℕ)
  | giveUp (d : ℕ) (ending : Ending)
  | unregister (d : ℕ)
  | close

def newSessionHandle : Session where
  pending := fun _ => none
  chunks := fun _ => none
  channels := fun _ => none
  calls := fun _ => none
  delivering := none
  closed := false
  log := []

def Session.setCall (s : Session) (d : ℕ) (taskId : String) (stage : Stage) : Session :=
  { s with calls := Function.update s.calls d (some ⟨taskId, stage⟩) }

def Session.registerPending (s : Session) (d : ℕ) (taskId : String) : Session :=
  { s with pending := Function.update s.pending taskId (some d) }

def Session.unregisterPending (s : Session) (taskId : String) : Session :=
  { s with
    pending := Function.update s.pending taskId none
    chunks := Function.update s.chunks taskId none }

def Session.receiveChunk (s : Session) (origin : ℕ) (c : Chunk) : Session :=
  { s with
    chunks := Function.update s.chunks c.taskId (some (store ((s.chunks c.taskId).getD ∅) c))
    log := s.log ++ [.chunk origin c] }

/-- `receiveResult`, up to its send. -/
def Session.receiveResult (s : Session) (origin : ℕ) (r : TaskResult) : Session :=
  { s with
    delivering := (s.pending r.taskId).map fun d => (d, received (s.chunks r.taskId) r)
    log := s.log ++ [.result origin r] }

def Session.mayEnd (s : Session) : Stage → Ending → Bool
  | .sending, .sessionClosed => s.closed
  | .waiting, .sessionClosed => s.closed
  | .waiting, .cancelled => true
  | .waiting, .timedOut => true
  | _, _ => false

def Session.step (s : Session) : Event → Option Session
  | .dispatch d taskId =>
    if (s.calls d).isNone then some ((s.registerPending d taskId).setCall d taskId .sending)
    else none
  | .send d =>
    match s.calls d with
    | some ⟨taskId, .sending⟩ => some (s.setCall d taskId .waiting)
    | _ => none
  | .chunk origin c => if s.delivering.isNone then some (s.receiveChunk origin c) else none
  | .result origin r => if s.delivering.isNone then some (s.receiveResult origin r) else none
  | .deliver =>
    match s.delivering with
    | some (d, x) =>
      -- the channel has room for one outcome: the loop blocks on a full one
      if (s.channels d).isNone then
        some { s with channels := Function.update s.channels d (some x), delivering := none }
      else none
    | none => none
  | .take d =>
    match s.calls d, s.channels d with
    | some ⟨taskId, .waiting⟩, some x =>
      some { s.setCall d taskId (.leaving (.outcome x)) with
        channels := Function.update s.channels d none }
    | _, _ => none
  | .giveUp d ending =>
    match s.calls d with
    | some ⟨taskId, stage⟩ =>
      if s.mayEnd stage ending then some (s.setCall d taskId (.leaving ending)) else none
    | none => none
  | .unregister d =>
    match s.calls d with
    | some ⟨taskId, .leaving ending⟩ =>
      some ((s.unregisterPending taskId).setCall d taskId (.ended ending))
    | _ => none
  | .close => some { s with closed := true }

def session : System Session Event where
  init s := s = newSessionHandle
  step := step

section Steps

inductive Moves (s : Session) : Event → Session → Prop
  | dispatch (d : ℕ) (taskId : String) (h : s.calls d = none) :
      Moves s (.dispatch d taskId) ((s.registerPending d taskId).setCall d taskId .sending)
  | call (e : Event) (d : ℕ) (taskId : String) (stage stage' : Stage)
      (he : e = .send d ∨ ∃ ending, e = .giveUp d ending) (h : s.calls d = some ⟨taskId, stage⟩)
      (h' : stage'.outcome = none) :
      Moves s e (s.setCall d taskId stage')
  | chunk (origin : ℕ) (c : Chunk) (h : s.delivering = none) :
      Moves s (.chunk origin c) (s.receiveChunk origin c)
  | result (origin : ℕ) (r : TaskResult) (h : s.delivering = none) :
      Moves s (.result origin r) (s.receiveResult origin r)
  | deliver (d : ℕ) (x : Delivery) (h : s.delivering = some (d, x)) (h' : s.channels d = none) :
      Moves s .deliver
        { s with channels := Function.update s.channels d (some x), delivering := none }
  | take (d : ℕ) (taskId : String) (x : Delivery) (h : s.calls d = some ⟨taskId, .waiting⟩)
      (h' : s.channels d = some x) :
      Moves s (.take d) { s.setCall d taskId (.leaving (.outcome x)) with
        channels := Function.update s.channels d none }
  | unregister (d : ℕ) (taskId : String) (ending : Ending)
      (h : s.calls d = some ⟨taskId, .leaving ending⟩) :
      Moves s (.unregister d) ((s.unregisterPending taskId).setCall d taskId (.ended ending))
  | close : Moves s .close { s with closed := true }

theorem step_moves {s t : Session} {e : Event} (h : s.step e = some t) : Moves s e t := by
  cases e with
  | send d =>
    simp only [step] at h
    split at h
    · next hd =>
      obtain rfl := Option.some.inj h
      exact .call _ d _ _ _ (Or.inl rfl) hd rfl
    · cases h
  | giveUp d ending =>
    simp only [step] at h
    split at h
    · next taskId stage hd =>
      split at h
      · next hend =>
        obtain rfl := Option.some.inj h
        apply Moves.call _ d taskId stage _ (Or.inr ⟨ending, rfl⟩) hd
        -- an outcome is not among the endings a call gives up with
        cases ending with
        | outcome x => cases stage <;> cases hend
        | sessionClosed | cancelled | timedOut => rfl
      · cases h
    · cases h
  | _ => grind [step, Moves, Option.isNone_iff_eq_none]

end Steps

variable {taskId : String}

section Calls

def Session.taskOf (s : Session) (d : ℕ) : Option String := (s.calls d).map Call.taskId

@[simp] theorem taskOf_setCall_self (s : Session) (d : ℕ) (taskId : String) (stage : Stage) :
    (s.setCall d taskId stage).taskOf d = some taskId := by
  simp [taskOf, setCall]

theorem taskOf_setCall (s : Session) (d : ℕ) (stage stage' : Stage)
    (h : s.calls d = some ⟨taskId, stage⟩) (d' : ℕ) :
    (s.setCall d taskId stage').taskOf d' = s.taskOf d' := by
  by_cases hd : d' = d
  · subst hd
    rw [taskOf_setCall_self, taskOf, h]
    rfl
  · simp [taskOf, setCall, hd]

variable {s t : Session} {e : Event}

theorem Moves.taskOf (h : Moves s e t) (d : ℕ) :
    t.taskOf d = s.taskOf d ∨
      ∃ taskId, e = .dispatch d taskId ∧ s.calls d = none ∧ t.taskOf d = some taskId := by
  cases h with
  | dispatch d' taskId hd =>
    by_cases heq : d = d'
    · simp_all
    · left
      simp [taskOf, setCall, registerPending, heq]
  | call e d' taskId stage stage' he hd hn => exact Or.inl (taskOf_setCall s d' _ _ hd d)
  | take d' taskId x hd hc => exact Or.inl (taskOf_setCall s d' _ _ hd d)
  | unregister d' taskId ending hd =>
    exact Or.inl (taskOf_setCall (s.unregisterPending taskId) d' _ _ hd d)
  | chunk | result | deliver | close => exact Or.inl rfl

theorem Moves.taskOf_mono (h : Moves s e t) {d : ℕ} {taskId : String}
    (hd : s.taskOf d = some taskId) : t.taskOf d = some taskId := by
  rcases h.taskOf d with heq | ⟨_, _, hnone, _⟩
  · rw [heq, hd]
  · rw [Session.taskOf, hnone] at hd
    cases hd

theorem Moves.log (h : Moves s e t) : ∃ new, t.log = s.log ++ new := by
  cases h with
  | chunk origin c _ => exact ⟨[.chunk origin c], rfl⟩
  | result origin r _ => exact ⟨[.result origin r], rfl⟩
  | dispatch | call | deliver | take | unregister | close => exact ⟨[], (append_nil _).symm⟩

def Owned (s : Session) : Prop := ∀ taskId d, s.pending taskId = some d → s.taskOf d = some taskId

theorem Moves.pending (h : Moves s e t) (taskId : String) (d : ℕ) (hp : t.pending taskId = some d) :
    s.pending taskId = some d ∨ e = .dispatch d taskId := by
  cases h with
  | dispatch d' taskId' hd =>
    by_cases heq : taskId = taskId'
    · subst heq
      have hd' : d' = d := by simpa [setCall, registerPending] using hp
      grind
    · exact Or.inl (by simpa [setCall, registerPending, heq] using hp)
  | unregister d' taskId' ending hd =>
    by_cases heq : taskId = taskId'
    · subst heq
      simp [setCall, unregisterPending] at hp
    · exact Or.inl (by simpa [setCall, unregisterPending, heq] using hp)
  | call | chunk | result | deliver | take | close => exact Or.inl hp

theorem Moves.owned (h : Moves s e t) (ho : Owned s) : Owned t := by
  intro taskId d hp
  rcases h.pending taskId d hp with hp' | rfl
  · exact h.taskOf_mono (ho taskId d hp')
  · cases h with
    | dispatch _ _ hd => simp_all
    | call _ _ _ _ _ he => grind

end Calls

section Deliveries

def Held (s : Session) (d : ℕ) (x : Delivery) : Prop :=
  s.delivering = some (d, x) ∨ s.channels d = some x ∨
    (s.calls d).bind (fun c => c.stage.outcome) = some x

theorem taken_setCall (s : Session) (d : ℕ) (stage stage' : Stage)
    (h : s.calls d = some ⟨taskId, stage⟩) (ho : stage'.outcome = stage.outcome) (d' : ℕ) :
    ((s.setCall d taskId stage').calls d').bind (fun c => c.stage.outcome) =
      (s.calls d').bind (fun c => c.stage.outcome) := by
  by_cases hd : d' = d
  · subst hd
    simp [setCall, h, ho]
  · simp [setCall, hd]

variable {s t : Session} {e : Event}

theorem Moves.held (h : Moves s e t) (d : ℕ) (x : Delivery) (hx : Held t d x) :
    Held s d x ∨ ∃ origin r, e = .result origin r ∧
      s.pending r.taskId = some d ∧ x = received (s.chunks r.taskId) r := by
  cases h with
  | dispatch d' taskId hd =>
    refine Or.inl (hx.imp_right (Or.imp_right ?_))
    intro hc
    by_cases heq : d = d'
    · subst heq
      simp [setCall, Stage.outcome] at hc
    · simpa [setCall, registerPending, heq] using hc
  | call e d' taskId stage stage' he hd hn =>
    refine Or.inl (hx.imp_right (Or.imp_right ?_))
    intro hc
    by_cases heq : d = d'
    · subst heq
      simp [setCall, hn] at hc
    · simpa [setCall, heq] using hc
  | chunk origin c hd => exact Or.inl hx
  | result origin r hd =>
    rcases hx with hx | hx
    · obtain ⟨d', hp, heq⟩ := Option.map_eq_some_iff.mp hx
      grind
    · exact Or.inl (Or.inr hx)
  | deliver d' y hd hc =>
    rcases hx with hx | hx | hx
    · cases hx
    · by_cases heq : d = d'
      · subst heq
        have hy : y = x := by simpa using hx
        exact Or.inl (Or.inl (hy ▸ hd))
      · exact Or.inl (Or.inr (Or.inl (by simpa [heq] using hx)))
    · exact Or.inl (Or.inr (Or.inr hx))
  | take d' taskId y hd hc =>
    rcases hx with hx | hx | hx
    · exact Or.inl (Or.inl hx)
    · by_cases heq : d = d'
      · grind
      · exact Or.inl (Or.inr (Or.inl (by simpa [heq] using hx)))
    · by_cases heq : d = d'
      · subst heq
        have hy : y = x := by simpa [setCall, Stage.outcome] using hx
        exact Or.inl (Or.inr (Or.inl (hy ▸ hc)))
      · exact Or.inl (Or.inr (Or.inr (by simpa [setCall, heq] using hx)))
  | unregister d' taskId ending hd =>
    refine Or.inl (hx.imp_right (Or.imp_right ?_))
    intro hc
    have ho : (Stage.ended ending).outcome = (Stage.leaving ending).outcome := by
      cases ending <;> rfl
    rw [taken_setCall (s.unregisterPending taskId) d' _ _ hd ho] at hc
    exact hc
  | close => exact Or.inl hx

def Frame.pick (p : Frame → Bool) : Frame → Option Chunk
  | .chunk origin c => if p (.chunk origin c) then some c else none
  | .result _ _ => none

def chunksOf (p : Frame → Bool) (log : List Frame) : List Chunk := log.filterMap (Frame.pick p)

theorem chunksOf_concat (p : Frame → Bool) (log : List Frame) (origin : ℕ) (c : Chunk) :
    chunksOf p (log ++ [.chunk origin c]) =
      if p (.chunk origin c) then chunksOf p log ++ [c] else chunksOf p log := by
  grind [chunksOf, Frame.pick]

theorem chunksOf_result (p : Frame → Bool) (log : List Frame) (origin : ℕ) (r : TaskResult) :
    chunksOf p (log ++ [.result origin r]) = chunksOf p log := by
  simp [chunksOf, Frame.pick]

/-- The delivery is made of a result of the log and of the chunks before it, all of
them frames that `mine` gives to the call. -/
def From (mine : ℕ → String → Frame → Bool) (log : List Frame) (d : ℕ) (taskId : String)
    (x : Delivery) : Prop :=
  ∃ before origin r after, log = before ++ .result origin r :: after ∧ r.taskId = taskId ∧
    mine d taskId (.result origin r) = true ∧
    x = received (some (buffer (chunksOf (mine d taskId) before))) r

theorem From.append {mine : ℕ → String → Frame → Bool} {log : List Frame} {d : ℕ}
    {taskId : String} {x : Delivery} (h : From mine log d taskId x) (new : List Frame) :
    From mine (log ++ new) d taskId x := by
  obtain ⟨before, origin, r, after, hlog, hrest⟩ := h
  refine ⟨before, origin, r, after ++ new, ?_, hrest⟩
  grind

/-- A call is given its own frames, in the sense of `mine`, and no others. -/
structure Carries (mine : ℕ → String → Frame → Bool) (s : Session) : Prop where
  owned : Owned s
  stored : ∀ taskId d, s.pending taskId = some d →
    (s.chunks taskId).getD ∅ = buffer (chunksOf (mine d taskId) s.log)
  held : ∀ d x, Held s d x → ∃ taskId, s.taskOf d = some taskId ∧ From mine s.log d taskId x

theorem carries_init (mine : ℕ → String → Frame → Bool) : Carries mine newSessionHandle where
  owned := nofun
  stored := nofun
  held := fun _ _ h => by rcases h with h | h | h <;> cases h

/-- What the map of a task holds after a move that does not clear it. The frame that is
read must be in question exactly if it is one of the task. -/
theorem Moves.stored {p : Frame → Bool} (h : Moves s e t) (taskId : String)
    (hs : (s.chunks taskId).getD ∅ = buffer (chunksOf p s.log))
    (hframe : ∀ origin c, e = .chunk origin c →
      (p (.chunk origin c) = true ↔ c.taskId = taskId))
    (hkept : ∀ d, e = .unregister d → s.taskOf d ≠ some taskId) :
    (t.chunks taskId).getD ∅ = buffer (chunksOf p t.log) := by
  cases h with
  | chunk origin c hd =>
    have hiff := hframe origin c rfl
    simp only [Session.receiveChunk]
    rw [chunksOf_concat]
    by_cases heq : taskId = c.taskId
    · subst heq
      rw [if_pos (hiff.mpr rfl), buffer_concat, Function.update_self, Option.getD_some, hs]
    · grind
  | result origin r hd =>
    simp only [Session.receiveResult]
    rw [chunksOf_result]
    exact hs
  | unregister d taskId' ending hd =>
    have hne : taskId ≠ taskId' := by
      intro heq
      apply hkept d rfl
      rw [Session.taskOf, hd, heq]
      rfl
    simpa [Session.setCall, Session.unregisterPending, hne] using hs
  | dispatch | call | deliver | take | close => exact hs

theorem Moves.kept (h : Moves s e t) (taskId : String) (d d' : ℕ) (hp : t.pending taskId = some d)
    (he : e = .unregister d') : s.taskOf d' ≠ some taskId := by
  subst he
  intro htask
  cases h with
  | call _ _ _ _ _ he => grind
  | unregister _ taskId' ending hd =>
    rw [Session.taskOf, hd] at htask
    obtain rfl := Option.some.inj htask
    simp [Session.setCall, Session.unregisterPending] at hp

theorem Moves.carries {mine : ℕ → String → Frame → Bool} (h : Moves s e t) (hc : Carries mine s)
    (hframe : ∀ origin c, e = .chunk origin c → ∀ taskId d, s.pending taskId = some d →
      (mine d taskId (.chunk origin c) = true ↔ c.taskId = taskId))
    (hresult : ∀ origin r, e = .result origin r → ∀ d, s.pending r.taskId = some d →
      mine d r.taskId (.result origin r) = true) (hnew : ∀ d taskId, e = .dispatch d taskId →
      (s.chunks taskId).getD ∅ = buffer (chunksOf (mine d taskId) s.log)) :
    Carries mine t where
  owned := h.owned hc.owned
  stored := by
    intro taskId d hp
    have hkept := fun d' => h.kept taskId d d' hp
    rcases h.pending taskId d hp with hp' | he
    · exact h.stored taskId (hc.stored taskId d hp')
        (fun origin c he => hframe origin c he taskId d hp') hkept
    · apply h.stored taskId (hnew d taskId he) _ hkept
      grind
  held := by
    intro d x hx
    rcases h.held d x hx with hx' | ⟨origin, r, he, hp, hx'⟩
    · obtain ⟨taskId, htask, hfrom⟩ := hc.held d x hx'
      obtain ⟨new, hlog⟩ := h.log
      exact ⟨taskId, h.taskOf_mono htask, hlog ▸ hfrom.append new⟩
    · -- the result that is read ends the log, and the map holds what was read before it
      refine ⟨r.taskId, h.taskOf_mono (hc.owned _ _ hp), s.log, origin, r, [], ?_, rfl,
        hresult origin r he d hp, ?_⟩
      · subst he
        cases h with
        | result => rfl
        | call _ _ _ _ _ he => grind
      · rw [hx', ← hc.stored _ _ hp]
        rfl

end Deliveries

variable {frames : List Chunk}

section Interleavings

def framesOf (taskId : String) (log : List Frame) : List Chunk :=
  chunksOf (fun f => f.taskId = taskId) log

def Distinct (s : Session) (e : Event) : Prop :=
  ∀ d taskId, e = .dispatch d taskId → ∀ d', s.taskOf d' ≠ some taskId

/-- The calls are given the frames of their tasks; what has come for a task that is not
dispatched yet is kept for it. -/
structure Separate (s : Session) : Prop where
  carries : Carries (fun _ taskId f => f.taskId = taskId) s
  early : ∀ taskId, (∀ d, s.taskOf d ≠ some taskId) →
    (s.chunks taskId).getD ∅ = buffer (framesOf taskId s.log)

theorem separate_of_reachVia (s : Session) (hs : session.ReachVia Distinct s) : Separate s := by
  apply reachVia_invariant session Distinct Separate _ _ s hs
  · rintro s rfl
    exact ⟨carries_init _, fun _ _ => rfl⟩
  · intro s e t _ hok hsep ht
    have hm := step_moves ht
    refine ⟨hm.carries hsep.carries ?_ ?_ ?_, ?_⟩
    · intro origin c _ taskId d _
      exact decide_eq_true_iff
    · intro origin r _ d _
      exact decide_eq_true rfl
    · intro d taskId he
      exact hsep.early taskId (hok d taskId he)
    · intro taskId hnone
      have hbefore : ∀ d, s.taskOf d ≠ some taskId :=
        fun d hd => hnone d (hm.taskOf_mono hd)
      exact hm.stored taskId (hsep.early taskId hbefore) (fun _ _ _ => decide_eq_true_iff)
        (fun d _ => hbefore d)

def Frame.isResultOf (taskId : String) : Frame → Bool
  | .result _ r => r.taskId = taskId
  | .chunk _ _ => false

def Session.inFlight (s : Session) (d : ℕ) : ℕ :=
  (if (s.channels d).isSome then 1 else 0)+(if s.delivering.map Prod.fst = some d then 1 else 0)

def Session.results (s : Session) (d : ℕ) : ℕ :=
  (s.taskOf d).elim 0 fun taskId => s.log.countP (Frame.isResultOf taskId)

theorem Moves.results {s t : Session} {e : Event} (h : Moves s e t) (d : ℕ) :
    s.results d ≤ t.results d := by
  cases htask : s.taskOf d with
  | none =>
    rw [Session.results, htask]
    exact Nat.zero_le _
  | some taskId =>
    obtain ⟨new, hlog⟩ := h.log
    rw [Session.results, Session.results, htask, h.taskOf_mono htask, hlog]
    simp

theorem Moves.inFlight {s t : Session} {e : Event} (h : Moves s e t) (d : ℕ) :
    t.inFlight d ≤ s.inFlight d ∨ ∃ origin r, e = .result origin r ∧
      s.pending r.taskId = some d ∧ t.inFlight d ≤ s.inFlight d+1 := by
  cases h with
  | result origin r hd =>
    by_cases hp : s.pending r.taskId = some d
    · grind [Session.inFlight, Session.receiveResult]
    · left
      have hne : (s.receiveResult origin r).delivering.map Prod.fst ≠ some d := by
        simpa [Session.receiveResult, Function.comp_def] using hp
      simp only [Session.inFlight, if_neg hne]
      exact Nat.le_add_right _ _
  | deliver d' x hd hc => grind [Session.inFlight]
  | take d' taskId x hd hc =>
    left
    by_cases heq : d = d'
    · subst heq
      simp only [Session.inFlight, Session.setCall, Function.update_self]
      grind
    · simp only [Session.inFlight, Session.setCall, Function.update_of_ne heq]
      exact Nat.le_refl _
  | dispatch | call | chunk | unregister | close => exact Or.inl (Nat.le_refl _)

def Counted (s : Session) : Prop := Owned s ∧ ∀ d, s.inFlight d ≤ s.results d

theorem counted_of_reachable (s : Session) (hs : session.Reachable s) : Counted s := by
  apply reachable_invariant session Counted _ _ s hs
  · rintro s rfl
    exact ⟨(carries_init fun _ _ _ => true).owned, fun _ => Nat.le_refl 0⟩
  · intro s e t ⟨howned, hcount⟩ ht
    have hm := step_moves ht
    refine ⟨hm.owned howned, ?_⟩
    intro d
    rcases hm.inFlight d with hle | ⟨origin, r, rfl, hp, hle⟩
    · exact hle.trans ((hcount d).trans (hm.results d))
    · have htask := howned _ _ hp
      have hread : t.results d = s.results d+1 := by
        cases hm with
        | result _ _ hd =>
          have htask' : (s.receiveResult origin r).taskOf d = some r.taskId := htask
          grind [results, receiveResult, Frame.isResultOf]
        | call _ _ _ _ _ he => grind
      grind

theorem deliver_enabled (s : Session) (hs : session.Reachable s) (d : ℕ) (x : Delivery)
    (hd : s.delivering = some (d, x)) (hone : s.results d ≤ 1) :
    (s.step .deliver).isSome := by
  have hle := (counted_of_reachable s hs).2 d
  have hfree : s.channels d = none := by
    by_contra hc
    rw [inFlight, if_pos (Option.isSome_iff_ne_none.mpr hc), hd] at hle
    simp at hle
    omega
  simp [step, hd, hfree]

theorem received_payload (outcome : TaskOutcome) (chunkSize : ℤ)
    (hle : (chunkPayload outcome.payload chunkSize).length ≤ 2^32)
    (hperm : frames.Perm (chunkFrames taskId (chunkPayload outcome.payload chunkSize))) :
    received (some (buffer frames))
      (resultFrame taskId outcome (chunkPayload outcome.payload chunkSize)) =
      ⟨resultFrame taskId outcome (chunkPayload outcome.payload chunkSize), outcome.payload,
        none⟩ := by
  have hdata := reassemble_payload taskId _ hle frames hperm
  rw [chunkPayload_flatten] at hdata
  simp only [received, Option.getD_some, resultFrame, hdata]

theorem received_integrity (r : TaskResult) (hfree : ∃ seq, ∀ c ∈ frames, c.seq ≠ seq)
    (hset : ¬∀ seq, (∃ c ∈ frames, c.seq = seq) ↔ seq < r.chunkCount) :
    ∃ detail, received (some (buffer frames)) r = ⟨r, [], some (chunkIntegrity detail)⟩ := by
  obtain ⟨seq, hseq⟩ := hfree
  have hlen : (buffer frames).keys.length < 2^32 := by
    apply keys_length_lt _ seq
    rw [mem_buffer]
    rintro ⟨c, hc, heq⟩
    exact hseq c hc heq
  have hset' : ¬∀ seq, seq ∈ buffer frames ↔ seq < r.chunkCount := by
    simpa only [mem_buffer] using hset
  obtain ⟨detail, herr⟩ := reassembleChunks_integrity _ _ hlen hset'
  refine ⟨detail, ?_⟩
  simp only [received, Option.getD_some, herr]

/-- A call that ends with an outcome returns the result that came for its task, with the output
of the task, if the chunks before it were those of the output, and with an integrity error, if
their numbers were not those announced. -/
theorem chunked_transport (s : Session) (hs : session.ReachVia Distinct s) :
    (∀ d taskId ending, s.calls d = some ⟨taskId, .ended ending⟩ →
      ending ≠ .sessionClosed → ending ≠ .cancelled → ending ≠ .timedOut →
      ∃ before origin r after, s.log = before ++ .result origin r :: after ∧
        r.taskId = taskId ∧
        (∀ (outcome : TaskOutcome) (chunkSize : ℤ),
          (chunkPayload outcome.payload chunkSize).length ≤ 2^32 →
          (framesOf taskId before).Perm
            (chunkFrames taskId (chunkPayload outcome.payload chunkSize)) →
          r = resultFrame taskId outcome (chunkPayload outcome.payload chunkSize) →
          ending.returned taskId = (some r, outcome.payload, none)) ∧
        ((∃ seq, ∀ c ∈ framesOf taskId before, c.seq ≠ seq) →
          (¬∀ seq, (∃ c ∈ framesOf taskId before, c.seq = seq) ↔ seq < r.chunkCount) →
          ∃ detail, ending.returned taskId = (some r, [], some (chunkIntegrity detail)))) ∧
    (∀ d x, s.delivering = some (d, x) →
      s.log.countP (Frame.isResultOf x.result.taskId) ≤ 1 → (s.step .deliver).isSome) := by
  have hsep := separate_of_reachVia s hs
  constructor
  · intro d taskId ending hd hclosed hcancelled htimed
    cases ending with
    | sessionClosed => exact absurd rfl hclosed
    | cancelled => exact absurd rfl hcancelled
    | timedOut => exact absurd rfl htimed
    | outcome x =>
      have hheld : Held s d x := by
        right; right
        rw [hd]
        rfl
      obtain ⟨taskId', htask, before, origin, r, after, hlog, hr, -, hx⟩ :=
        hsep.carries.held d x hheld
      have htaskId : taskId' = taskId := by
        rw [taskOf, hd] at htask
        exact (Option.some.inj htask).symm
      subst htaskId
      have hx' : x = received (some (buffer (framesOf taskId' before))) r := hx
      refine ⟨before, origin, r, after, hlog, hr, ?_, ?_⟩
      · intro outcome chunkSize hle hperm hresult
        rw [hresult, received_payload outcome chunkSize hle hperm] at hx'
        rw [hx', hresult]
        rfl
      · intro hfree hset
        obtain ⟨detail, herr⟩ := received_integrity r hfree hset
        rw [herr] at hx'
        refine ⟨detail, ?_⟩
        rw [hx']
        rfl
  · intro d x hd hone
    apply deliver_enabled s (reachVia_reachable session _ s hs) d x hd
    obtain ⟨taskId, htask, _, _, r, _, _, hr, _, hx⟩ := hsep.carries.held d x (Or.inl hd)
    grind [received, results]

theorem framesOf_map (htask : ∀ c ∈ frames, c.taskId = taskId) (origin : ℕ) :
    framesOf taskId (frames.map (.chunk origin)) = frames := by
  induction frames with
  | nil => rfl
  | cons c frames ih =>
    have hc : Frame.taskId (.chunk origin c) = taskId := htask c mem_cons_self
    have hrest := ih fun c' hc' => htask c' (mem_cons_of_mem _ hc')
    rw [framesOf, chunksOf] at hrest ⊢
    rw [map_cons, filterMap_cons, hrest]
    simp only [Frame.pick, hc, decide_true, if_true]

theorem chunkFrames_taskId (taskId : String) (chunks : List Bytes) :
    ∀ c ∈ chunkFrames taskId chunks, c.taskId = taskId := by
  intro c hc
  obtain ⟨i, -, rfl⟩ := mem_map.mp hc
  rfl

theorem reachVia_chunks (htask : ∀ c ∈ frames, c.taskId = taskId) (origin : ℕ) (s : Session)
    (hs : session.ReachVia Distinct s) (hd : s.delivering = none) :
    ∃ t, session.ReachVia Distinct t ∧ t.pending = s.pending ∧ t.calls = s.calls ∧
      t.channels = s.channels ∧ t.delivering = none ∧
      t.log = s.log ++ frames.map (.chunk origin) ∧
      (t.chunks taskId).getD ∅ = frames.foldl store ((s.chunks taskId).getD ∅) := by
  induction frames generalizing s with
  | nil => grind
  | cons c frames ih =>
    have hc := htask c mem_cons_self
    have hnext : session.ReachVia Distinct (s.receiveChunk origin c) := by
      apply System.ReachVia.step (e := .chunk origin c) hs
      · intro d taskId' he
        cases he
      · simp [session, step, hd]
    obtain ⟨t, ht, hpending, hcalls, hchannels, hdelivering, hlog, hchunks⟩ :=
      ih (fun c' hc' => htask c' (mem_cons_of_mem _ hc')) _ hnext hd
    refine ⟨t, ht, hpending, hcalls, hchannels, hdelivering, ?_, ?_⟩
    · rw [hlog]
      simp [receiveChunk]
    · rw [hchunks, ← hc]
      simp [receiveChunk]

/-- A call whose task yields the given chunks and then its result, and nothing else on
the session. -/
theorem one_call (outcome : TaskOutcome) (chunks : List Bytes) :
    ∃ s, session.ReachVia Distinct s ∧
      s.log = (chunkFrames "t" chunks).map (.chunk 0) ++
        [.result 0 (resultFrame "t" outcome chunks)] ∧
      s.calls 0 = some ⟨"t", .ended (.outcome
        (received (some (buffer (chunkFrames "t" chunks))) (resultFrame "t" outcome chunks)))⟩ := by
  have hstart : session.ReachVia Distinct newSessionHandle := .init rfl
  have hdispatch := System.ReachVia.step (e := .dispatch 0 "t") hstart (fun _ _ _ _ => nofun) rfl
  have hsend := System.ReachVia.step (e := .send 0) hdispatch nofun rfl
  obtain ⟨s, hs, hpending, hcalls, hchannels, hdelivering, hlog, hchunks⟩ :=
    reachVia_chunks (chunkFrames_taskId "t" chunks) 0 _ hsend rfl
  obtain ⟨pending, chunkMaps, channels, calls, delivering, closed, log⟩ := s
  simp only at hpending hcalls hchannels hdelivering hlog hchunks
  subst hpending hcalls hchannels hdelivering hlog
  have hreceived : received (chunkMaps "t") (resultFrame "t" outcome chunks) =
      received (some (buffer (chunkFrames "t" chunks))) (resultFrame "t" outcome chunks) := by
    rw [received, hchunks]
    rfl
  have hrest := run_reachVia session Distinct
    [.result 0 (resultFrame "t" outcome chunks), .deliver, .take 0, .unregister 0] _ _ hs
    (by
      intro e he r d taskId heq
      grind)
    rfl
  refine ⟨_, hrest, rfl, ?_⟩
  rw [← hreceived]
  rfl

/-- A payload of more chunks than there are numbers is not put together again: the
numbers and the count that is announced wrap around. -/
theorem chunk_numbers_wrap :
    ∃ (s : Session) (outcome : TaskOutcome) (before : List Frame) (r : TaskResult)
      (ending : Ending) (detail : String),
      session.ReachVia Distinct s ∧ s.log = before ++ [.result 0 r] ∧
      framesOf "t" before = chunkFrames "t" (chunkPayload outcome.payload 1) ∧
      r = resultFrame "t" outcome (chunkPayload outcome.payload 1) ∧
      s.calls 0 = some ⟨"t", .ended ending⟩ ∧
      ending.returned "t" = (some r, [], some (chunkIntegrity detail)) := by
  obtain ⟨payload, hlen⟩ : ∃ payload : Bytes, payload.length = 2^32+1 :=
    ⟨List.replicate (2^32+1) 0, length_replicate⟩
  have hchunks : (chunkPayload payload 1).length = 2^32+1 := by
    have hne : payload ≠ [] := by
      rintro rfl
      cases hlen
    unfold chunkPayload
    rw [if_neg hne, length_map, length_range, hlen]
    rfl
  have hframes := framesOf_map (chunkFrames_taskId "t" (chunkPayload payload 1)) 0
  obtain ⟨s, hs, hlog, hcall⟩ := one_call ⟨payload, 0, false, false, ""⟩ (chunkPayload payload 1)
  obtain ⟨detail, herr⟩ := reassemble_wrapped "t" _ hchunks
  refine ⟨s, ⟨payload, 0, false, false, ""⟩, _, _, _, detail, hs, hlog, hframes, rfl, hcall, ?_⟩
  simp only [received, Option.getD_some, resultFrame, herr]
  rfl

theorem chunked_transport_three_bytes :
    ∃ (s : Session) (r : TaskResult) (ending : Ending), session.ReachVia Distinct s ∧
      s.calls 0 = some ⟨"t", .ended ending⟩ ∧
      ending.returned "t" = (some r, [1, 2, 3], none) := by
  let outcome : TaskOutcome := ⟨[1, 2, 3], 0, false, false, ""⟩
  obtain ⟨s, hs, hlog, hcall⟩ := one_call outcome (chunkPayload outcome.payload 2)
  obtain ⟨before, origin, r, after, hlog', -, hpayload, -⟩ :=
    (chunked_transport s hs).1 0 "t" _ hcall nofun nofun nofun
  have hframes : chunkFrames "t" (chunkPayload outcome.payload 2) =
      [⟨"t", 0, [1, 2], false⟩, ⟨"t", 1, [3], true⟩] := by
    have hchunks : chunkPayload outcome.payload 2 = [[1, 2], [3]] := by decide
    rw [hchunks]
    rfl
  rw [hlog, hframes] at hlog'
  simp only [map_cons, map_nil, cons_append, nil_append] at hlog'
  rcases before with _ | ⟨f, _ | ⟨g, _ | ⟨h, before⟩⟩⟩
  · cases hlog'
  · cases hlog'
  · -- the result comes after the two chunks
    cases hlog'
    refine ⟨s, _, _, hs, hcall, hpayload outcome 2 (by decide) ?_ rfl⟩
    rw [hframes]
    exact List.Perm.refl _
  · cases before <;> cases hlog'

end Interleavings

section Orphans

def NoOrphans (s : Session) : Prop :=
  ∀ taskId, (s.chunks taskId).isSome → (s.pending taskId).isSome

def Awaited (s : Session) (e : Event) : Prop :=
  ∀ origin c, e = .chunk origin c → (s.pending c.taskId).isSome

theorem Moves.noOrphans {s t : Session} {e : Event} (h : Moves s e t) (hs : NoOrphans s) :
    NoOrphans t ↔ Awaited s e := by
  cases h with
  | dispatch d taskId hd =>
    refine ⟨nofun, fun _ taskId' hc => ?_⟩
    by_cases heq : taskId' = taskId
    · subst heq
      simp [setCall, registerPending]
    · simpa [setCall, registerPending, heq] using hs taskId' hc
  | call e d taskId stage stage' he hd hn =>
    refine ⟨?_, fun _ => hs⟩
    intro _ origin c heq
    grind
  | chunk origin c hd =>
    constructor
    · intro ht origin' c' he
      cases he
      exact ht c.taskId (by simp [receiveChunk])
    · intro hok taskId hc
      by_cases heq : taskId = c.taskId
      · subst heq
        exact hok origin c rfl
      · exact hs taskId (by simpa [receiveChunk, heq] using hc)
  | unregister d taskId ending hd =>
    refine ⟨nofun, fun _ taskId' hc => ?_⟩
    by_cases heq : taskId' = taskId
    · subst heq
      simp [setCall, unregisterPending] at hc
    · have hc' : (s.chunks taskId').isSome := by
        simpa [setCall, unregisterPending, heq] using hc
      simpa [setCall, unregisterPending, heq] using hs taskId' hc'
  | result | deliver | take | close => exact ⟨nofun, fun _ => hs⟩

def framesFrom (d : ℕ) (log : List Frame) : List Chunk := chunksOf (fun f => f.origin = d) log

/-- Chunks come while the call that they answer waits, results then or when nobody does,
and no task id is dispatched while it has a waiter. -/
structure OnTime (s : Session) (e : Event) : Prop where
  chunk : ∀ origin c, e = .chunk origin c → s.pending c.taskId = some origin
  result : ∀ origin r, e = .result origin r →
    s.pending r.taskId = some origin ∨ s.pending r.taskId = none
  dispatch : ∀ d taskId, e = .dispatch d taskId → s.pending taskId = none

/-- The calls are given their own frames, there are no orphans, and no chunk answers a
call that is yet to come. -/
structure Own (s : Session) : Prop where
  carries : Carries (fun d _ f => f.origin = d) s
  noOrphans : NoOrphans s
  origins : ∀ d, s.calls d = none → framesFrom d s.log = []

theorem Moves.origins {s t : Session} {e : Event} (h : Moves s e t) (hok : OnTime s e)
    (ho : Own s) (d : ℕ) (hd : t.calls d = none) : framesFrom d t.log = [] := by
  have hnone : s.calls d = none := by
    cases hc : s.calls d with
    | none => rfl
    | some c =>
      have htask : t.taskOf d = some c.taskId := by
        apply h.taskOf_mono
        rw [Session.taskOf, hc]
        rfl
      rw [Session.taskOf, hd] at htask
      cases htask
  have hbefore := ho.origins d hnone
  cases h with
  | chunk origin c hdel =>
    have hne : ¬decide ((Frame.chunk origin c).origin = d) = true := by
      intro heq
      have htask := ho.carries.owned _ _ (hok.chunk origin c rfl)
      rw [Session.taskOf, show origin = d from of_decide_eq_true heq, hnone] at htask
      cases htask
    rw [framesFrom, Session.receiveChunk, chunksOf_concat, if_neg hne]
    exact hbefore
  | result origin r hdel =>
    rw [framesFrom, Session.receiveResult, chunksOf_result]
    exact hbefore
  | dispatch | call | deliver | take | unregister | close => exact hbefore

theorem own_of_reachVia (s : Session) (hs : session.ReachVia OnTime s) : Own s := by
  apply reachVia_invariant session OnTime Own _ _ s hs
  · rintro s rfl
    exact ⟨carries_init _, fun _ h => h, fun _ _ => rfl⟩
  · intro s e t _ hok ho ht
    have hm := step_moves ht
    have hawaited : Awaited s e := by
      intro origin c he
      rw [hok.chunk origin c he]
      rfl
    refine ⟨hm.carries ho.carries ?_ ?_ ?_, (hm.noOrphans ho.noOrphans).mpr hawaited,
      fun d => hm.origins hok ho d⟩
    · intro origin c he taskId d hp
      have hpending := hok.chunk origin c he
      rw [decide_eq_true_iff]
      constructor
      · -- one call is found under one task only
        intro heq
        have hown := ho.carries.owned _ _ hpending
        have hown' := ho.carries.owned _ _ hp
        rw [show origin = d from heq, hown'] at hown
        grind
      · rintro rfl
        rw [hpending] at hp
        exact Option.some.inj hp
    · intro origin r he d hp
      rw [decide_eq_true_iff]
      rcases hok.result origin r he with hpending | hpending
      · rw [hpending] at hp
        exact Option.some.inj hp
      · grind
    · intro d taskId he
      subst he
      have hfree : s.chunks taskId = none := by
        by_contra hc
        have hp := ho.noOrphans taskId (Option.isSome_iff_ne_none.mpr hc)
        rw [hok.dispatch d taskId rfl] at hp
        cases hp
      have hcall : s.calls d = none := by
        cases hm with
        | dispatch _ _ hd => exact hd
        | call _ _ _ _ _ he => grind
      have hframes : chunksOf (fun f => decide (f.origin = d)) s.log = [] := ho.origins d hcall
      rw [hfree, hframes]
      rfl

/-- There are no orphans along a run exactly if every chunk of it comes while its task has a
waiter. -/
theorem no_orphan_chunks (events : List Event) :
    (session.Along NoOrphans newSessionHandle events ↔
      session.Allowed Awaited newSessionHandle events) ∧
    (∀ s, session.ReachVia OnTime s → NoOrphans s ∧
      (∀ taskId m, s.chunks taskId = some m → ∃ d, s.pending taskId = some d ∧
        bytes m ≤ ((framesFrom d s.log).map fun c => c.data.length).sum) ∧
      (∀ d taskId x, s.calls d = some ⟨taskId, .ended (.outcome x)⟩ →
        ∃ before r after, s.log = before ++ .result d r :: after ∧ r.taskId = taskId ∧
          x = received (some (buffer (framesFrom d before))) r)) := by
  constructor
  · apply along_iff_allowed session NoOrphans Awaited
    · intro s e t hs ht
      exact (step_moves ht).noOrphans hs
    · intro taskId h
      exact h
  · intro s hs
    have ho := own_of_reachVia s hs
    refine ⟨ho.noOrphans, ?_, ?_⟩
    · intro taskId m hm
      have hp := ho.noOrphans taskId (by rw [hm]; rfl)
      obtain ⟨d, hd⟩ := Option.isSome_iff_exists.mp hp
      refine ⟨d, hd, ?_⟩
      have hstored := ho.carries.stored taskId d hd
      rw [hm, Option.getD_some] at hstored
      rw [hstored]
      exact bytes_buffer _
    · intro d taskId x hd
      have hheld : Held s d x := by
        right; right
        rw [hd]
        rfl
      obtain ⟨taskId', htask, before, origin, r, after, hlog, hr, horigin, hx⟩ :=
        ho.carries.held d x hheld
      have hd' : origin = d := of_decide_eq_true horigin
      have htaskId : taskId' = taskId := by
        rw [taskOf, hd] at htask
        exact (Option.some.inj htask).symm
      exact ⟨before, r, after, hd' ▸ hlog, htaskId ▸ hr, hx⟩

theorem no_orphan_chunks_one_call :
    ∃ s x, session.ReachVia OnTime s ∧ s.calls 0 = some ⟨"t", .ended (.outcome x)⟩ ∧
      ∃ before r after, s.log = before ++ .result 0 r :: after ∧ r.taskId = "t" ∧
        x = received (some (buffer (framesFrom 0 before))) r := by
  have hquiet {s : Session} {e : Event} (hc : ∀ origin c, e ≠ .chunk origin c)
      (hr : ∀ origin r, e ≠ .result origin r) (hd : ∀ d taskId, e ≠ .dispatch d taskId) :
      OnTime s e :=
    ⟨fun _ _ h => absurd h (hc _ _), fun _ _ h => absurd h (hr _ _), fun _ _ h => absurd h (hd _ _)⟩
  have hstart : session.ReachVia OnTime newSessionHandle := .init rfl
  have hdispatch := System.ReachVia.step (e := .dispatch 0 "t") hstart
    ⟨nofun, nofun, fun _ _ _ => rfl⟩ rfl
  have hsend := System.ReachVia.step (e := .send 0) hdispatch
    (hquiet (fun _ _ => nofun) (fun _ _ => nofun) (fun _ _ => nofun)) rfl
  have hchunk := System.ReachVia.step (e := .chunk 0 ⟨"t", 0, [1], true⟩) hsend
    ⟨fun _ _ h => by cases h; rfl, nofun, nofun⟩ rfl
  have hresult := System.ReachVia.step (e := .result 0 ⟨"t", 0, false, false, "", 1⟩) hchunk
    ⟨nofun, fun _ _ h => by cases h; exact Or.inl rfl, nofun⟩ rfl
  have hdone := run_reachVia session OnTime [.deliver, .take 0, .unregister 0] _ _ hresult
    (by grind) rfl
  exact ⟨_, _, hdone, rfl, ((no_orphan_chunks []).2 _ hdone).2.2 0 "t" _ rfl⟩

/-- A chunk that comes after its call has timed out stays in the map without a waiter. -/
theorem late_chunk_orphaned :
    (∃ s taskId, session.Reachable s ∧ (s.chunks taskId).isSome ∧ s.pending taskId = none) ∧
    (∃ s x, session.Reachable s ∧ s.calls 1 = some ⟨"t", .ended (.outcome x)⟩ ∧
      framesFrom 1 s.log = [⟨"t", 0, [1], true⟩] ∧ framesFrom 0 s.log = [⟨"t", 0, [0], true⟩] ∧
      x.data = [0] ∧ x.err = none) := by
  have hlate : session.Reachable _ := run_reachable session
    [.dispatch 0 "t", .send 0, .giveUp 0 .timedOut, .unregister 0,
      .chunk 0 ⟨"t", 0, [0], true⟩] newSessionHandle _ (.init rfl) rfl
  have hagain : session.Reachable _ := run_reachable session
    [.dispatch 0 "t", .send 0, .giveUp 0 .timedOut, .unregister 0, .dispatch 1 "t", .send 1,
      .chunk 1 ⟨"t", 0, [1], true⟩, .chunk 0 ⟨"t", 0, [0], true⟩,
      .result 1 ⟨"t", 0, false, false, "", 1⟩, .deliver, .take 1, .unregister 1]
    newSessionHandle _ (.init rfl) rfl
  exact ⟨⟨_, "t", hlate, rfl, rfl⟩, ⟨_, _, hagain, rfl, rfl, rfl, by decide, by decide⟩⟩

end Orphans

end DbAgent.Chunks
