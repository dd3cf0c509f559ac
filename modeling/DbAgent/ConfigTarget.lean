import DbAgent.DockerStream

/-! The container that `Env.ReadConfig` of a swarm runs `cat` in: the first of the tasks that the
engine lists for the service, whatever its state is. -/
namespace DbAgent.Docker

open List

variable {ε τ : Type}

/-- What is read of a `dockerapi.Task`. -/
structure Task where
  id : String
  nodeId : String
  desiredState : String
  state : String
  err : String
  timestamp : String
  containerId : String

structure TargetInfo (τ : Type) where
  name : String
  phase : String
  ready : Bool
  node : String
  startedAt : τ
  lastStateReason : String

/-- `parse` is `time.Parse` with RFC 3339, whose error is dropped. -/
def taskToTargetInfo (parse : String → τ) (t : Task) : TargetInfo τ where
  name := if t.containerId = "" then t.id else t.containerId
  phase := t.state
  ready := t.state = "running" ∧ t.desiredState = "running"
  node := t.nodeId
  startedAt := parse t.timestamp
  lastStateReason := if t.state = "failed" then (if t.err = "" then "failed" else t.err) else ""

inductive ListError (ε : Type) where
  | allServices (e : ε)
  | service (name : String) (e : ε)

/-- The environment of a swarm: the services that are configured, and the engine's answers. -/
structure Env (ε τ : Type) where
  coordinatorService : String
  workerService : String
  configPath : String → String
  parse : String → τ
  listTasks : Option String → Except ε (List Task)
  docker : String → List String → ExecAnswers ε

/-- The loop over the services, with the targets so far. -/
def Env.listServices (E : Env ε τ) :
    List String → List (TargetInfo τ) → Except (ListError ε) (List (TargetInfo τ))
  | [], out => .ok out
  | svc :: rest, out =>
    if svc = "" then E.listServices rest out
    else
      match E.listTasks (some svc) with
      | .error e => .error (.service svc e)
      | .ok tasks => E.listServices rest (out ++ tasks.map (taskToTargetInfo E.parse))

/-- `Env.ListTargets`; `all` is no name of a service. -/
def Env.listTargets (E : Env ε τ) (selector : String) :
    Except (ListError ε) (List (TargetInfo τ)) :=
  if selector = "all" then
    match E.listTasks none with
    | .error e => .error (.allServices e)
    | .ok tasks => .ok (tasks.map (taskToTargetInfo E.parse))
  else
    E.listServices
      (if selector = "" then [E.coordinatorService, E.workerService] else [selector]) []

inductive EnvError (ε : Type) where
  | list (e : ListError ε)
  | engine (e : ε)

/-- The reader of configurations, over the targets of this environment. -/
def Env.reader (E : Env ε τ) : Reader (EnvError ε) where
  workerService := E.workerService
  coordinatorService := E.coordinatorService
  configPath := E.configPath
  listTargets selector :=
    match E.listTargets selector with
    | .error e => .error (.list e)
    | .ok targets => .ok (targets.map (·.name))
  docker container cmd :=
    let api := E.docker container cmd
    { create := api.create.mapError .engine
      start := fun id => (api.start id).mapError .engine
      inspect := fun id => (api.inspect id).mapError .engine }

def Env.serviceOf (E : Env ε τ) (component : String) : String :=
  if component = "coordinator" then E.coordinatorService else E.workerService

/-- The filter that the tasks of a service are asked for with. -/
def filterOf (service : String) : Option String := if service = "all" then none else some service

def Task.Running (t : Task) : Prop := t.state = "running" ∧ t.desiredState = "running"

/-- What `ReadConfig` has the engine execute, and where. -/
def Reader.execCall (R : Reader ε) (component file target : String) :
    Except (ReadError ε) (String × List String) := do
  let container ← R.target component target
  return (container, ["cat", R.configPath file])

theorem readConfig_execCall (R : Reader ε) (component file target : String) :
    R.readConfig component file target = (do
      let call ← R.execCall component file target
      let out := exec (R.docker call.1 call.2)
      match out.err with
      | some e => .error (.exec e)
      | none =>
        if out.exitCode = 0 then .ok out.stdout
        else .error (.exitCode (R.configPath file) out.exitCode out.stderr)) := by
  rw [Reader.readConfig, Reader.execCall]
  cases R.target component target <;> rfl

variable {E : Env ε τ} {tasks : List Task}

theorem listTargets_tasks {service : String} (hname : service ≠ "")
    (hlist : E.listTasks (filterOf service) = .ok tasks) :
    E.listTargets service = .ok (tasks.map (taskToTargetInfo E.parse)) := by
  rw [Env.listTargets]
  by_cases hall : service = "all"
  · rw [filterOf, if_pos hall] at hlist
    rw [if_pos hall, hlist]
  · rw [filterOf, if_neg hall] at hlist
    simp [hall, hname, Env.listServices, hlist]

theorem execCall_first {component : String} (hname : E.serviceOf component ≠ "")
    (hlist : E.listTasks (filterOf (E.serviceOf component)) = .ok tasks) (file container : String) :
    E.reader.execCall component file "" = .ok (container, ["cat", E.configPath file]) ↔
      tasks.head?.map (fun t => (taskToTargetInfo E.parse t).name) = some container := by
  have htargets : E.reader.listTargets (E.serviceOf component) =
      .ok (tasks.map fun t => (taskToTargetInfo E.parse t).name) := by
    simp only [Env.reader, listTargets_tasks hname hlist, map_map]
    rfl
  have htarget : E.reader.target component "" =
      match tasks.map fun t => (taskToTargetInfo E.parse t).name with
      | [] => .error (.noRunningTask (E.serviceOf component))
      | name :: _ => .ok name := by
    have hservice : (if component = "coordinator" then E.reader.coordinatorService
        else E.reader.workerService) = E.serviceOf component := rfl
    rw [Reader.target, if_pos rfl, hservice]
    dsimp only
    rw [htargets]
    cases tasks <;> rfl
  rw [Reader.execCall, htarget]
  cases tasks with
  | nil => exact iff_of_false nofun nofun
  | cons first rest =>
    change Except.ok _ = Except.ok _ ↔ some _ = some _
    rw [Except.ok.injEq, Prod.mk.injEq, Option.some.injEq]
    exact and_iff_left rfl

/-- The file is read in the container of a running task exactly if the first one that is listed has
this container. -/
theorem config_from_running_iff (E : Env ε τ) (component file : String) (tasks : List Task)
    (hname : E.serviceOf component ≠ "")
    (hlist : E.listTasks (filterOf (E.serviceOf component)) = .ok tasks) :
    (∃ t ∈ tasks, t.Running ∧ E.reader.execCall component file "" =
      .ok (t.containerId, ["cat", E.configPath file])) ↔
    ∃ t ∈ tasks, t.Running ∧
      tasks.head?.map (fun t => (taskToTargetInfo E.parse t).name) = some t.containerId := by
  simp only [execCall_first hname hlist]

def swarmOf (tasks : List Task) : Env Unit Unit where
  coordinatorService := "presto-coordinator"
  workerService := "presto-worker"
  configPath _ := "/etc/presto/config.properties"
  parse _ := ()
  listTasks _ := .ok tasks
  docker _ _ := answerOf []

def shutdownTask : Task := ⟨"task1", "node1", "shutdown", "shutdown", "", "", "old"⟩

def runningTask : Task := ⟨"task2", "node1", "running", "running", "", "", "new"⟩

theorem config_from_first_task :
    ∃ t ∈ [runningTask, shutdownTask], t.Running ∧
      (swarmOf [runningTask, shutdownTask]).reader.execCall "worker" "config" "" =
        .ok (t.containerId, ["cat", "/etc/presto/config.properties"]) :=
  (config_from_running_iff (swarmOf [runningTask, shutdownTask]) "worker" "config"
    [runningTask, shutdownTask] (by decide) rfl).mpr
    ⟨runningTask, by simp, ⟨rfl, rfl⟩, rfl⟩

/-- The engine lists the task that was shut down first. -/
theorem config_from_shutdown_task :
    (swarmOf [shutdownTask, runningTask]).reader.execCall "worker" "config" "" =
        .ok ("old", ["cat", "/etc/presto/config.properties"]) ∧
      runningTask.Running ∧ ∀ t ∈ [shutdownTask, runningTask], t.Running →
        t.containerId ≠ "old" := by
  refine ⟨rfl, ⟨rfl, rfl⟩, ?_⟩
  simp [shutdownTask, runningTask, Task.Running]

end DbAgent.Docker
