import Mathlib
import DbAgent.PlaybookSteps
import DbAgent.ServiceEnv

/-! `ExecuteWrite` of the Presto adapter on a runtime environment: the check of the
parameters, the whitelist of the memory playbook, and the operations on config maps,
workloads and services. -/
namespace DbAgent.Writes

open JsonText Py Playbooks Config

/-- The arguments of an operation, a `map[string]any`. -/
abbrev Args := String → Option PyValue

/-- `s, _ := v.(string)`. -/
def asString : Option PyValue → String
  | some ⟨.str s, _⟩ => s
  | _ => ""

/-- `raw, _ := v.([]any)`. -/
def asList : Option PyValue → List PyValue
  | some ⟨.arr xs, h⟩ => elements xs (by rwa [Json.Canonical] at h)
  | _ => []

def patchEntries (items : List PyValue) : List (String × String) :=
  items.filterMap fun item => item.items?.bind fun kvs =>
    if asString (dictGet "key" kvs) = "" then none
    else some (asString (dictGet "key" kvs), asString (dictGet "value" kvs))

/-- `m[k] = v`. -/
def mapInsert (m : List (String × String)) (e : String × String) : List (String × String) :=
  m.filter (fun x => x.1 ≠ e.1) ++ [e]

def toMap (entries : List (String × String)) : List (String × String) := entries.foldl mapInsert []

structure Orders where
  merge : MapOrders
  patches : List (String × String) → List (String × String)
  env : List (String × String) → List (String × String)
  patches_perm : ∀ m, (patches m).Perm m
  env_perm : ∀ m, (env m).Perm m

section Schema

def isText (v : PyValue) : Bool :=
  match v.json with
  | .str _ => true
  | _ => false

def isOneOf (texts : List String) (v : PyValue) : Bool :=
  match v.json with
  | .str s => s ∈ texts
  | _ => false

def hasShape (fields : List (String × (PyValue → Bool))) (v : PyValue) : Bool :=
  match v.items? with
  | some kvs => (fields.all fun f => (dictGet f.1 kvs).any f.2) &&
      kvs.all fun kv => fields.any fun f => f.1 == kv.1
  | none => false

def isEntries (v : PyValue) : Bool :=
  match v with
  | ⟨.arr xs, h⟩ => (elements xs (by rwa [Json.Canonical] at h)).all
      (hasShape [("key", isText), ("value", isText)])
  | _ => false

def schemas : List (String × List (String × (PyValue → Bool))) :=
  [("k8s_patch_configmap", [("name", isText), ("namespace", isText), ("patches", isEntries)]),
    ("k8s_rollout_restart",
      [("kind", isOneOf ["deployment", "statefulset"]), ("name", isText), ("namespace", isText)]),
    ("k8s_delete_pod", [("name", isText), ("namespace", isText)]),
    ("swarm_update_service_env", [("service", isText), ("env", isEntries)]),
    ("swarm_restart_service", [("service", isText)]),
    ("presto_kill_query", [("query_id", isText)])]

end Schema

structure Messages where
  quote : String → String
  notFound : String → String
  invalid : String → Object Number → String

section Environments

structure Service where
  env : List Text
  forceUpdate : ℕ

/-- A cluster: its config maps with their data, and its workloads by kind. -/
structure Cluster where
  defaultNamespace : String
  configMaps : String → String → Option (String → Option Text)
  workloads : String → String → String → Bool

inductive RuntimeEnv where
  | k8s (c : Cluster)
  | docker (services : String → Option Service)

variable (M : Messages)

def Cluster.namespaceOf (c : Cluster) (nspace : String) : String :=
  if nspace = "" then c.defaultNamespace else nspace

/-- `data[key]` of a config map. -/
def Cluster.content (c : Cluster) (nspace name key : String) : Option Text :=
  (c.configMaps nspace name).bind fun data => data key

/-- A strategic merge patch of one key of `data`. -/
def Cluster.setKey (c : Cluster) (nspace name key : String) (value : Text) : Cluster :=
  { c with
    configMaps := fun nspace' name' =>
      if nspace' = nspace ∧ name' = name then
        (c.configMaps nspace name).map fun data => Function.update data key (some value)
      else c.configMaps nspace' name' }

def readConfigMapKey (env : RuntimeEnv) (nspace name key : String) : Except String Text :=
  match env with
  | .docker _ => .error "dockerenv: ReadConfigMapKey is k8s-only"
  | .k8s c =>
    let nspace := c.namespaceOf nspace
    let key := if key = "" then "config.properties" else key
    match c.configMaps nspace name with
    | none => .error ("k8senv: get configmap " ++ nspace ++ "/" ++ name ++ ": " ++ M.notFound name)
    | some data => match data key with
      | none => .error ("k8senv: key " ++ M.quote key ++ " not found in configmap " ++ nspace ++
          "/" ++ name)
      | some content => .ok content

/-- `PatchConfigMap`; the keys of the patch are set one after the other. -/
def patchConfigMap (env : RuntimeEnv) (nspace name : String) (patches : List (String × String)) :
    Except String RuntimeEnv :=
  match env with
  | .docker _ => .error "dockerenv: PatchConfigMap is k8s-only"
  | .k8s c =>
    let nspace := c.namespaceOf nspace
    match c.configMaps nspace name with
    | none =>
      .error ("k8senv: patch configmap " ++ nspace ++ "/" ++ name ++ ": " ++ M.notFound name)
    | some _ =>
      .ok (.k8s (patches.foldl (fun c p => c.setKey nspace name p.1 p.2.toList) c))

/-- `RolloutRestart`. The annotation it sets is not part of the model. -/
def rolloutRestart (env : RuntimeEnv) (nspace kind name : String) : Except String RuntimeEnv :=
  match env with
  | .docker _ => .error "dockerenv: RolloutRestart is k8s-only"
  | .k8s c =>
    let nspace := c.namespaceOf nspace
    if kind ∉ ["deployment", "statefulset"] then
      .error ("k8senv: rollout restart: unknown kind " ++ M.quote kind ++
        " (want deployment|statefulset)")
    else if c.workloads nspace kind name then .ok env
    else .error ("k8senv: rollout restart " ++ kind ++ "/" ++ nspace ++ "/" ++ name ++ ": " ++
      M.notFound name)

def updateServiceEnv (o : Orders) (env : RuntimeEnv) (service : String)
    (patches : List (String × String)) : Except String RuntimeEnv :=
  match env with
  | .k8s _ => .error "k8senv: UpdateServiceEnv is swarm-only"
  | .docker services =>
    match services service with
    | none => .error ("dockerenv: update service env inspect: " ++ M.notFound service)
    | some s =>
      let merged := mergeEnv s.env ((o.env patches).map fun p => (p.1.toList, p.2.toList))
      .ok (.docker (Function.update services service (some { s with env := merged })))

def restartService (env : RuntimeEnv) (service : String) : Except String RuntimeEnv :=
  match env with
  | .k8s _ => .error "k8senv: RestartService is swarm-only"
  | .docker services =>
    match services service with
    | none => .error ("dockerenv: restart service inspect: " ++ M.notFound service)
    | some s =>
      .ok (.docker (Function.update services service
        (some { s with forceUpdate := (s.forceUpdate+1)%2^64 })))

end Environments

section Memory

variable (M : Messages)

def defaultMemoryConfigWhitelist : List String :=
  ["query.max-memory", "query.max-memory-per-node", "query.max-total-memory-per-node",
    "memory.heap-headroom-per-node"]

def checkMemoryConfigWhitelist (whitelist : List String) : List String → Except String Unit
  | [] => .ok ()
  | k :: ks =>
    if k ∈ whitelist then checkMemoryConfigWhitelist whitelist ks
    else .error ("writeops: memory config key " ++ M.quote k ++ " is not in the whitelist")

/-- `extractMemoryPatches`: the keys in their order, and the map. -/
def extractMemoryPatches (op : String) (params : Args) :
    Except String (List String × List (String × String)) :=
  let entries :=
    if op = "k8s_patch_configmap" then patchEntries (asList (params "patches"))
    else if op = "swarm_update_service_env" then patchEntries (asList (params "env"))
    else []
  if entries = [] then .error "no memory config patches provided"
  else .ok (entries.map Prod.fst, toMap entries)

def patchArgument (patches : List (String × String)) : PyValue :=
  .list (patches.map fun p => Patch.toValue ⟨.text p.1, p.2⟩)

def asTexts (patches : List (String × String)) : List (Text × Text) :=
  patches.map fun p => (p.1.toList, p.2.toList)

def applyMemoryConfigWhitelist (o : Orders) (env : RuntimeEnv) (op : String) (params : Args) :
    Except String Args := do
  let (keys, patches) ← extractMemoryPatches op params
  let _ ← checkMemoryConfigWhitelist M defaultMemoryConfigWhitelist keys
  if op = "k8s_patch_configmap" then
    let name := asString (params "name")
    let nspace := asString (params "namespace")
    let fileKey := "config.properties"
    match readConfigMapKey M env nspace name fileKey with
    | .error e => .error ("read configmap " ++ nspace ++ "/" ++ name ++ " key " ++ fileKey ++
      ": " ++ e)
    | .ok current =>
      let merged := mergeProperties o.merge current (asTexts patches)
      return Function.update params "patches"
        (some (patchArgument [(fileKey, String.ofList merged)]))
  else
    return Function.update params "env" (some (patchArgument (o.patches patches)))

end Memory

section Execution

variable (M : Messages)

structure WriteResult where
  ok : Bool
  detail : String
  error : String

def failed (message : String) : WriteResult := ⟨false, "", message⟩

def finish (env : RuntimeEnv) (detail : String) :
    Except String RuntimeEnv → WriteResult × RuntimeEnv
  | .ok env' => (⟨true, detail, ""⟩, env')
  | .error e => (failed e, env)

def execK8sPatchConfigMap (env : RuntimeEnv) (params : Args) : WriteResult × RuntimeEnv :=
  let name := asString (params "name")
  let nspace := asString (params "namespace")
  let patches := toMap (patchEntries (asList (params "patches")))
  finish env ("patched configmap " ++ nspace ++ "/" ++ name ++ " (" ++ patches.length.repr ++
    " keys)")
    (patchConfigMap M env nspace name patches)

def execK8sRolloutRestart (env : RuntimeEnv) (params : Args) : WriteResult × RuntimeEnv :=
  let kind := asString (params "kind")
  let name := asString (params "name")
  let nspace := asString (params "namespace")
  finish env ("rollout restart " ++ kind ++ "/" ++ nspace ++ "/" ++ name)
    (rolloutRestart M env nspace kind name)

def execSwarmUpdateServiceEnv (o : Orders) (env : RuntimeEnv) (params : Args) :
    WriteResult × RuntimeEnv :=
  let service := asString (params "service")
  let patches := toMap (patchEntries (asList (params "env")))
  finish env ("updated service env " ++ service ++ " (" ++ patches.length.repr ++ " keys)")
    (updateServiceEnv M o env service patches)

def execSwarmRestartService (env : RuntimeEnv) (params : Args) : WriteResult × RuntimeEnv :=
  let service := asString (params "service")
  finish env ("restarted service " ++ service) (restartService M env service)

structure RemediationStep where
  playbookId : String
  op : String
  params : Object Number
  signatureOk : Bool

abbrev Elsewhere := String → Args → WriteResult

def dispatchOp (o : Orders) (elsewhere : Elsewhere) (env : RuntimeEnv) (op : String)
    (params : Args) : WriteResult × RuntimeEnv :=
  if op = "k8s_patch_configmap" then execK8sPatchConfigMap M env params
  else if op = "k8s_rollout_restart" then execK8sRolloutRestart M env params
  else if op = "swarm_update_service_env" then execSwarmUpdateServiceEnv M o env params
  else if op = "swarm_restart_service" then execSwarmRestartService M env params
  else (elsewhere op params, env)

def scopedParams (o : Orders) (env : RuntimeEnv) (step : RemediationStep) : Except String Args :=
  if step.playbookId = "presto.adjust_memory_config" ∧
      (step.op = "k8s_patch_configmap" ∨ step.op = "swarm_update_service_env") then
    applyMemoryConfigWhitelist M o env step.op (get step.params)
  else .ok (get step.params)

/-- `ExecuteWrite`, after `Detect`. -/
def executeWrite (o : Orders) (elsewhere : Elsewhere) (writeEnabled : Bool)
    (step : RemediationStep) (env : RuntimeEnv) : WriteResult × RuntimeEnv :=
  if !writeEnabled then (failed "write channel disabled for this deployment", env)
  else if !step.signatureOk then (failed "signature not verified", env)
  else match schemas.lookup step.op with
    | none => (failed ("unknown write-op " ++ M.quote step.op), env)
    | some schema =>
      if !hasShape schema (.ofObject step.params) then
        (failed ("params validation failed: " ++ M.invalid step.op step.params), env)
      else match scopedParams M o env step with
        | .error e => (failed e, env)
        | .ok params => dispatchOp M o elsewhere env step.op params

end Execution

end DbAgent.Writes
