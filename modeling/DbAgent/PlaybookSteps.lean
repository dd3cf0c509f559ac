import DbAgent.PyJson
import DbAgent.StepSigning

/-! The step registry `PLAYBOOK_STEPS` of the worker: what a playbook does on a
deployment, from the parameters of the plan and the resource locators of the
platform. -/
namespace DbAgent.Playbooks

open JsonText Py List Signing

inductive BuildError where
  | valueError (message : String)
  | typeError | keyError | attributeError
  deriving DecidableEq, Repr

structure PyValue where
  json : Json Number
  canonical : json.Canonical

open PyValue

def PyValue.text (s : String) : PyValue := ⟨.str s, trivial⟩

def PyValue.ofObject (o : Object Number) : PyValue := ⟨o.toJson, o.canonical⟩

def elements : (xs : List (Json Number)) → Json.CanonicalList xs → List PyValue
  | [], _ => []
  | x :: xs, h =>
    have h' : x.Canonical ∧ Json.CanonicalList xs := by rwa [Json.CanonicalList] at h
    ⟨x, h'.1⟩ :: elements xs h'.2

def items : (kvs : List (String × Json Number)) → Json.CanonicalMembers kvs →
    List (String × PyValue)
  | [], _ => []
  | (k, v) :: kvs, h =>
    have h' : v.Canonical ∧ Json.CanonicalMembers kvs := by rwa [Json.CanonicalMembers] at h
    (k, ⟨v, h'.1⟩) :: items kvs h'.2

theorem canonicalMembers_map (fields : List (String × PyValue)) :
    Json.CanonicalMembers (fields.map fun kv => (kv.1, kv.2.json)) := by
  induction fields with
  | nil => exact trivial
  | cons kv fields ih =>
    rw [map_cons, Json.CanonicalMembers]
    exact ⟨kv.2.canonical, ih⟩

theorem canonicalList_map (xs : List PyValue) : Json.CanonicalList (xs.map json) := by
  induction xs with
  | nil => exact trivial
  | cons x xs ih =>
    rw [map_cons, Json.CanonicalList]
    exact ⟨x.canonical, ih⟩

def dict (fields : List (String × PyValue)) (h : (fields.map Prod.fst).Pairwise keyLt) :
    Object Number where
  members := fields.map fun kv => (kv.1, kv.2.json)
  canonical := by grind [Json.Canonical, canonicalMembers_map]

def PyValue.list (xs : List PyValue) : PyValue :=
  ⟨.arr (xs.map json), by
    rw [Json.Canonical]
    exact canonicalList_map xs⟩

def dictGet (k : String) : List (String × PyValue) → Option PyValue
  | [] => none
  | (k', v) :: kvs => if k' = k then some v else dictGet k kvs

def PyValue.items? : PyValue → Option (List (String × PyValue))
  | ⟨.obj kvs, h⟩ => some (items kvs (by rw [Json.Canonical] at h; exact h.2))
  | _ => none

def PyValue.get (v : PyValue) (k : String) : Option PyValue := v.items?.bind (dictGet k)

def get (o : Object Number) (k : String) : Option PyValue := (ofObject o).get k

theorem items_map (fields : List (String × PyValue))
    (h : Json.CanonicalMembers (fields.map fun kv => (kv.1, kv.2.json))) :
    items (fields.map fun kv => (kv.1, kv.2.json)) h = fields := by
  induction fields with
  | nil => rfl
  | cons kv fields ih =>
    simp only [map_cons, items, ih]

theorem get_dict (fields : List (String × PyValue)) (h : (fields.map Prod.fst).Pairwise keyLt)
    (k : String) : get (dict fields h) k = dictGet k fields := by
  have hitems := items_map fields (canonicalMembers_map fields)
  change (some (items (fields.map fun kv => (kv.1, kv.2.json)) _)).bind (dictGet k) = _
  rw [hitems]
  rfl

def PyValue.truthy (v : PyValue) : Bool := Py.truthy v.json

/-- `x or d`, for an `x` that may be absent. -/
def orElse (x : Option PyValue) (d : PyValue) : PyValue := (x.filter PyValue.truthy).getD d

def memoryConfigWhitelist : List String :=
  ["query.max-memory", "query.max-memory-per-node", "query.max-total-memory-per-node",
    "memory.heap-headroom-per-node"]

/-- What the interpreter fixes: `str` and `repr`, the orders in which it goes
through a dict and through the whitelist, which is a set, and the items that
`dict.update` reads from a value that is no dict, which are parts of it. -/
structure Runtime where
  str : Json Number → String
  repr : Json Number → String
  order : List (String × PyValue) → List (String × PyValue)
  order_perm : ∀ kvs, (order kvs).Perm kvs
  whitelist : List String
  whitelist_perm : whitelist.Perm memoryConfigWhitelist
  updates : PyValue → Except BuildError (List (String × PyValue))
  updates_allNum : ∀ v kvs p, updates v = .ok kvs → v.json.allNum p = true →
    ∀ kv ∈ kvs, kv.2.json.allNum p = true

variable (R : Runtime)

abbrev Locators := List (String × PyValue)

def defaultLocators (deployment : String) : Locators :=
  if deployment = "swarm" then
    [("worker_service", .text "presto-worker"),
      ("coordinator_service", .text "presto-coordinator"),
      ("config_file", .text "config")]
  else
    [("namespace", .text "presto"),
      ("worker_configmap", .text "presto-worker-config"),
      ("coordinator_configmap", .text "presto-coordinator-config"),
      ("worker_workload_kind", .text "deployment"),
      ("worker_workload_name", .text "presto-worker"),
      ("coordinator_workload_kind", .text "deployment"),
      ("coordinator_workload_name", .text "presto-coordinator"),
      ("config_file_key", .text "config.properties")]

/-- The items `dict.update` reads. -/
def Runtime.updateItems (v : PyValue) : Except BuildError (List (String × PyValue)) :=
  match v.items? with
  | some kvs => .ok kvs
  | none => R.updates v

/-- `resolve_locators`; a platform without a configuration has the empty one.
`update` lets a later item of a name replace an earlier one, so the items are
put in front in reverse. -/
def resolveLocators (deployment : String) (platformConfig : Object Number) :
    Except BuildError Locators := do
  let updates ← R.updateItems
    (orElse (get platformConfig "remediation_targets") (.ofObject Object.empty))
  return updates.reverse ++ defaultLocators deployment

/-- A patch of a configuration. The key may be any value of the parameters. -/
structure Patch where
  key : PyValue
  value : String

def Patch.toValue (p : Patch) : PyValue :=
  .ofObject (dict [("key", p.key), ("value", .text p.value)]
    (show ["key", "value"].Pairwise keyLt by decide))

/-- `for p in x`: a dict is gone through by its names, a string by its characters. -/
def iterate (x : PyValue) : Except BuildError (List PyValue) :=
  match x with
  | ⟨.arr xs, h⟩ => .ok (elements xs h)
  | ⟨.obj kvs, _⟩ => .ok (kvs.map fun kv => .text kv.1)
  | ⟨.str s, _⟩ => .ok (s.toList.map fun c => .text (String.singleton c))
  | _ => .error .typeError

/-- `if k not in MEMORY_CONFIG_WHITELIST: raise`. A list or a dict has no hash. -/
def checkWhitelist (k : Json Number) : Except BuildError String :=
  let refusal := BuildError.valueError
    ("memory config key " ++ R.repr k ++ " is not in the whitelist")
  match k with
  | .str s => if s ∈ memoryConfigWhitelist then .ok s else .error refusal
  | .arr _ => .error .typeError
  | .obj _ => .error .typeError
  -- a number or a boolean has a hash, and is in no set of strings
  | _ => .error refusal

def explicitMemoryPatches : List PyValue → Except BuildError (List (String × String))
  | [] => .ok []
  | p :: ps =>
    match (p.get "key").filter PyValue.truthy with
    -- an entry that is no dict has no key either
    | none => explicitMemoryPatches ps
    | some k => do
      let key ← checkWhitelist R k.json
      let out ← explicitMemoryPatches ps
      return (key, R.str ((p.get "value").elim .null PyValue.json)) :: out

/-- The loop over `memory_params`. -/
def memoryParamPatches : List (String × PyValue) → Except BuildError (List (String × String))
  | [] => .ok []
  | (k, v) :: kvs => do
    let key ← checkWhitelist R (.str k)
    let out ← memoryParamPatches kvs
    return (key, R.str v.json) :: out

def topLevelPatches (params : Object Number) (out : List (String × String)) :
    List String → List (String × String)
  | [] => out
  | k :: ks =>
    match get params k with
    | none => topLevelPatches params out ks
    | some v =>
      if k ∈ out.map Prod.fst then topLevelPatches params out ks
      else topLevelPatches params (out ++ [(k, R.str v.json)]) ks

def memoryPatches (params : Object Number) : Except BuildError (List (String × String)) :=
  match (get params "patches").filter PyValue.truthy with
  | some patches => do
    let ps ← iterate patches
    explicitMemoryPatches R ps
  -- only without explicit patches are the two other sources read
  | none => do
    let mem := orElse (get params "memory_params") (.ofObject Object.empty)
    let kvs ← mem.items?.elim (.error .attributeError) .ok
    let out ← memoryParamPatches R (R.order kvs)
    return topLevelPatches R params out R.whitelist

def PyValue.notNone (v : PyValue) : Bool :=
  match v.json with
  | .null => false
  | _ => true

def explicitConfigPatches : List PyValue → Except BuildError (List Patch)
  | [] => .ok []
  | p :: ps =>
    match (p.get "key").filter notNone with
    | none => explicitConfigPatches ps
    | some key => do
      let value ← (p.get "value").elim (.error .keyError) .ok
      let out ← explicitConfigPatches ps
      return ⟨key, R.str value.json⟩ :: out

def configPatches (params : Object Number) (locators : Locators) :
    Except BuildError (List Patch) :=
  match (get params "patches").filter PyValue.truthy with
  | some patches => do
    let ps ← iterate patches
    explicitConfigPatches R ps
  | none =>
    let value := (get params "config_value").elim .null PyValue.json
    match (get params "config_key").filter PyValue.notNone with
    | none => .ok []
    | some key =>
      -- the whole content of the file, with one property
      let fileKey := orElse (dictGet "config_file_key" locators) (.text "config.properties")
      .ok [⟨fileKey, R.str key.json ++ "=" ++ R.str value ++ "\n"⟩]

structure Step where
  op : String
  params : Object Number

def namespaceOf (locators : Locators) : PyValue :=
  orElse (dictGet "namespace" locators) (.text "presto")

def workerService (locators : Locators) : PyValue :=
  orElse (dictGet "worker_service" locators) (.text "presto-worker")

def swarmRestartService (service : PyValue) : Step where
  op := "swarm_restart_service"
  params := dict [("service", service)] (pairwise_singleton _ _)

def swarmUpdateServiceEnv (service : PyValue) (env : List Patch) : Step where
  op := "swarm_update_service_env"
  params := dict [("env", .list (env.map Patch.toValue)), ("service", service)]
    (show ["env", "service"].Pairwise keyLt by decide)

def k8sPatchConfigmap (name nspace : PyValue) (patches : List Patch) : Step where
  op := "k8s_patch_configmap"
  params := dict
    [("name", name), ("namespace", nspace), ("patches", .list (patches.map Patch.toValue))]
    (show ["name", "namespace", "patches"].Pairwise keyLt by decide)

def k8sRolloutRestart (kind name nspace : PyValue) : Step where
  op := "k8s_rollout_restart"
  params := dict [("kind", kind), ("name", name), ("namespace", nspace)]
    (show ["kind", "name", "namespace"].Pairwise keyLt by decide)

def k8sDeletePod (name nspace : PyValue) : Step where
  op := "k8s_delete_pod"
  params := dict [("name", name), ("namespace", nspace)]
    (show ["name", "namespace"].Pairwise keyLt by decide)

def patchWorkers (deployment : String) (locators : Locators) (patches : List Patch) : List Step :=
  if deployment = "swarm" then
    [swarmUpdateServiceEnv (workerService locators) patches,
      swarmRestartService (workerService locators)]
  else
    [k8sPatchConfigmap
        (orElse (dictGet "worker_configmap" locators) (.text "presto-worker-config"))
        (namespaceOf locators) patches,
      k8sRolloutRestart
        (orElse (dictGet "worker_workload_kind" locators) (.text "deployment"))
        (orElse (dictGet "worker_workload_name" locators) (.text "presto-worker"))
        (namespaceOf locators)]

abbrev Builder := String → Object Number → Locators → Except BuildError (List Step)

def stepsKillQuery : Builder := fun _ params _ =>
  match (get params "query_id").filter PyValue.truthy with
  | none => .error (.valueError "presto.kill_query requires query_id")
  | some qid => .ok [⟨"presto_kill_query",
      dict [("query_id", .text (R.str qid.json))] (pairwise_singleton _ _)⟩]

/-- On a swarm a patch is an environment variable; explicit patches that were
all skipped leave room for `config_key`. -/
def envPatches (params : Object Number) (patches : List Patch) : List Patch :=
  match patches, (get params "config_key").filter PyValue.truthy with
  | [], some key =>
    [⟨.text (R.str key.json), R.str ((get params "config_value").elim (.str "") PyValue.json)⟩]
  | _, _ => patches

def stepsUpdateConfigRestartWorkers : Builder := fun deployment params locators => do
  let patches ← configPatches R params locators
  return patchWorkers deployment locators
    (if deployment = "swarm" then envPatches R params patches else patches)

def stepsRestartCoordinator : Builder := fun deployment _ locators =>
  if deployment = "swarm" then
    .ok [swarmRestartService
      (orElse (dictGet "coordinator_service" locators) (.text "presto-coordinator"))]
  else
    .ok [k8sRolloutRestart
      (orElse (dictGet "coordinator_workload_kind" locators) (.text "deployment"))
      (orElse (dictGet "coordinator_workload_name" locators) (.text "presto-coordinator"))
      (namespaceOf locators)]

def stepsRestartWorker : Builder := fun deployment params locators =>
  let workerId := orElse (get params "worker_id") (orElse (get params "pod")
    (orElse (get params "task") (orElse (dictGet "default_worker_pod" locators)
      (.text "presto-worker-0"))))
  if deployment = "swarm" then .ok [swarmRestartService (workerService locators)]
  else .ok [k8sDeletePod (.text (R.str workerId.json)) (namespaceOf locators)]

/-- `steps_adjust_memory_config`. The whitelist is checked once more. -/
def stepsAdjustMemoryConfig : Builder := fun deployment params locators => do
  let patches ← memoryPatches R params
  -- a mutation nobody has asked for is never made up
  if patches = [] then .error (.valueError "adjust_memory_config requires memory params")
  else
    let _ ← patches.mapM fun p => checkWhitelist R (.str p.1)
    return patchWorkers deployment locators (patches.map fun p => ⟨.text p.1, p.2⟩)

def playbookSteps : List (String × Builder) :=
  [("presto.kill_query", stepsKillQuery R),
    ("presto.update_config_restart_workers", stepsUpdateConfigRestartWorkers R),
    ("presto.restart_coordinator", stepsRestartCoordinator),
    ("presto.restart_worker", stepsRestartWorker R),
    ("presto.adjust_memory_config", stepsAdjustMemoryConfig R)]

/-- The steps `execute_playbook` goes through; an unknown playbook fails. -/
def executeSteps (playbookId deployment : String) (params platformConfig : Object Number) :
    Except BuildError (List Step) := do
  let build ← ((playbookSteps R).lookup playbookId).elim
    (.error (.valueError "unknown playbook")) .ok
  let locators ← resolveLocators R deployment platformConfig
  build deployment params locators

theorem playbookSteps_ids : (playbookSteps R).map Prod.fst = playbookIds := rfl

variable {kvs : List (String × PyValue)} {locators : Locators} {patches : List Patch}
    {params : Object Number}

section Numbers

/-! The numbers in a step are numbers of the parameters or the locators: what a
builder adds is text. -/

variable {p : Number → Bool}

/-- Every number of the values satisfies `p`. -/
def AllNum (p : Number → Bool) (kvs : List (String × PyValue)) : Prop :=
  ∀ kv ∈ kvs, kv.2.json.allNum p = true

theorem allNum_text (s : String) : (text s).json.allNum p = true := rfl

theorem allNum_items (kvs : List (String × Json Number)) (hc : Json.CanonicalMembers kvs)
    (h : Json.allNumMembers p kvs = true) : AllNum p (items kvs hc) := by
  induction kvs with
  | nil => exact forall_mem_nil _
  | cons kv kvs ih =>
    obtain ⟨k, v⟩ := kv
    rw [Json.allNumMembers, Bool.and_eq_true] at h
    exact forall_mem_cons.mpr ⟨h.1, ih _ h.2⟩

theorem allNum_elements (xs : List (Json Number)) (hc : Json.CanonicalList xs)
    (h : Json.allNumList p xs = true) : ∀ v ∈ elements xs hc, v.json.allNum p = true := by
  induction xs with
  | nil => exact forall_mem_nil _
  | cons x xs ih =>
    rw [Json.allNumList, Bool.and_eq_true] at h
    exact forall_mem_cons.mpr ⟨h.1, ih _ h.2⟩

theorem allNum_items? {v : PyValue} (hv : v.items? = some kvs) (h : v.json.allNum p = true) :
    AllNum p kvs := by
  unfold items? at hv
  split at hv
  · cases hv
    exact allNum_items _ _ h
  · cases hv

theorem allNum_dictGet {k : String} {v : PyValue} (hv : dictGet k kvs = some v) (h : AllNum p kvs) :
    v.json.allNum p = true := by
  induction kvs with
  | nil => cases hv
  | cons kv kvs ih =>
    obtain ⟨h1, h2⟩ := forall_mem_cons.mp h
    rw [dictGet] at hv
    split at hv
    · cases hv
      exact h1
    · exact ih hv h2

theorem allNum_get {k : String} {v w : PyValue} (hw : v.get k = some w)
    (h : v.json.allNum p = true) : w.json.allNum p = true := by
  obtain ⟨kvs, hkvs, hget⟩ := Option.bind_eq_some_iff.mp hw
  exact allNum_dictGet hget (allNum_items? hkvs h)

theorem allNum_orElse {x : Option PyValue} {d : PyValue}
    (hx : ∀ v, x = some v → v.json.allNum p = true) (hd : d.json.allNum p = true) :
    (orElse x d).json.allNum p = true := by
  unfold orElse
  cases hf : x.filter PyValue.truthy with
  | none => exact hd
  | some v => simp_all

theorem allNum_locator (h : AllNum p locators) (k s : String) :
    (orElse (dictGet k locators) (.text s)).json.allNum p = true :=
  allNum_orElse (fun _ hv => allNum_dictGet hv h) (allNum_text s)

theorem allNum_fields (fields : List (String × PyValue)) (h : AllNum p fields) :
    Json.allNumMembers p (fields.map fun kv => (kv.1, kv.2.json)) = true := by
  induction fields with
  | nil => rfl
  | cons kv fields ih =>
    obtain ⟨h1, h2⟩ := forall_mem_cons.mp h
    rw [map_cons, Json.allNumMembers, Bool.and_eq_true]
    exact ⟨h1, ih h2⟩

theorem allNum_list (vs : List PyValue) (h : ∀ v ∈ vs, v.json.allNum p = true) :
    (list vs).json.allNum p = true := by
  change Json.allNumList p (vs.map json) = true
  induction vs with
  | nil => rfl
  | cons v vs ih =>
    obtain ⟨h1, h2⟩ := forall_mem_cons.mp h
    rw [map_cons, Json.allNumList, Bool.and_eq_true]
    exact ⟨h1, ih h2⟩

def AllNumPatches (p : Number → Bool) (patches : List Patch) : Prop :=
  ∀ q ∈ patches, q.key.json.allNum p = true

theorem allNum_patchList (h : AllNumPatches p patches) :
    (list (patches.map Patch.toValue)).json.allNum p = true := by
  apply allNum_list
  intro v hv
  obtain ⟨q, hq, rfl⟩ := mem_map.mp hv
  apply allNum_fields [("key", q.key), ("value", .text q.value)]
  exact forall_mem_cons.mpr ⟨h q hq, forall_mem_singleton.mpr (allNum_text _)⟩

theorem allNum_iterate {x : PyValue} {vs : List PyValue} (hx : iterate x = .ok vs)
    (h : x.json.allNum p = true) : ∀ v ∈ vs, v.json.allNum p = true := by
  unfold iterate at hx
  split at hx
  · cases hx
    exact allNum_elements _ _ h
  · cases hx
    exact forall_mem_map.mpr (fun _ _ => allNum_text _)
  · cases hx
    exact forall_mem_map.mpr (fun _ _ => allNum_text _)
  · cases hx

theorem explicitConfigPatches_allNum (vs : List PyValue) (out : List Patch)
    (hout : explicitConfigPatches R vs = .ok out) (h : ∀ v ∈ vs, v.json.allNum p = true) :
    AllNumPatches p out := by
  induction vs generalizing out with
  | nil =>
    cases hout
    exact forall_mem_nil _
  | cons v vs ih =>
    obtain ⟨h1, h2⟩ := forall_mem_cons.mp h
    rw [explicitConfigPatches] at hout
    split at hout
    · exact ih out hout h2
    · rename_i key hkey
      have hget := (Option.filter_eq_some_iff.mp hkey).1
      obtain ⟨value, _, hout⟩ := bind_ok hout
      obtain ⟨rest, hrest, hout⟩ := bind_ok hout
      cases hout
      exact forall_mem_cons.mpr ⟨allNum_get hget h1, ih rest hrest h2⟩

theorem configPatches_allNum (out : List Patch) (hout : configPatches R params locators = .ok out)
    (hp : params.toJson.allNum p = true) (hl : AllNum p locators) : AllNumPatches p out := by
  unfold configPatches at hout
  split at hout
  · rename_i patches hpatches
    have hget := (Option.filter_eq_some_iff.mp hpatches).1
    obtain ⟨vs, hvs, hout⟩ := bind_ok hout
    exact explicitConfigPatches_allNum R vs out hout (allNum_iterate hvs (allNum_get hget hp))
  · dsimp only at hout
    split at hout
    · cases hout
      exact forall_mem_nil _
    · cases hout
      exact forall_mem_singleton.mpr (allNum_locator hl _ _)

theorem envPatches_allNum (params : Object Number) (h : AllNumPatches p patches) :
    AllNumPatches p (envPatches R params patches) := by
  unfold envPatches
  split
  · exact forall_mem_singleton.mpr (allNum_text _)
  · exact h

theorem updateItems_allNum (v : PyValue) (h : R.updateItems v = .ok kvs)
    (hv : v.json.allNum p = true) : AllNum p kvs := by
  unfold Runtime.updateItems at h
  split at h
  · cases h
    exact allNum_items? (by assumption) hv
  · exact R.updates_allNum v kvs p h hv

theorem resolveLocators_allNum (deployment : String) (platformConfig : Object Number)
    (h : resolveLocators R deployment platformConfig = .ok locators)
    (ht : ∀ v, get platformConfig "remediation_targets" = some v → v.json.allNum p = true) :
    AllNum p locators := by
  have htargets := allNum_orElse ht (d := .ofObject Object.empty) rfl
  have hdefault : AllNum p (defaultLocators deployment) := by
    unfold defaultLocators
    split <;> simp [AllNum, text, Json.allNum]
  obtain ⟨updates, hupdates, h⟩ := bind_ok h
  cases h
  intro kv hkv
  rcases mem_append.mp hkv with hkv | hkv
  · exact updateItems_allNum R _ hupdates htargets kv (mem_reverse.mp hkv)
  · exact hdefault kv hkv

end Numbers

section Steps

variable {p : Number → Bool}

/-- The operation is registered, and the numbers of the parameters satisfy `p`. -/
def Step.Sound (p : Number → Bool) (s : Step) : Prop :=
  s.op ∈ writeOps ∧ s.params.toJson.allNum p = true

theorem sound_swarmRestartService {service : PyValue} (h : service.json.allNum p = true) :
    (swarmRestartService service).Sound p := by
  refine ⟨show "swarm_restart_service" ∈ writeOps by decide, allNum_fields _ ?_⟩
  exact forall_mem_singleton.mpr h

theorem sound_swarmUpdateServiceEnv {service : PyValue} {env : List Patch}
    (hs : service.json.allNum p = true) (he : AllNumPatches p env) :
    (swarmUpdateServiceEnv service env).Sound p := by
  refine ⟨show "swarm_update_service_env" ∈ writeOps by decide, allNum_fields _ ?_⟩
  exact forall_mem_cons.mpr ⟨allNum_patchList he, forall_mem_singleton.mpr hs⟩

theorem sound_k8sPatchConfigmap {name nspace : PyValue} (hn : name.json.allNum p = true)
    (hns : nspace.json.allNum p = true) (hp : AllNumPatches p patches) :
    (k8sPatchConfigmap name nspace patches).Sound p := by
  refine ⟨show "k8s_patch_configmap" ∈ writeOps by decide, allNum_fields _ ?_⟩
  simp only [AllNum, forall_mem_cons]
  exact ⟨hn, hns, allNum_patchList hp, forall_mem_nil _⟩

theorem sound_k8sRolloutRestart {kind name nspace : PyValue} (hk : kind.json.allNum p = true)
    (hn : name.json.allNum p = true) (hns : nspace.json.allNum p = true) :
    (k8sRolloutRestart kind name nspace).Sound p := by
  refine ⟨show "k8s_rollout_restart" ∈ writeOps by decide, allNum_fields _ ?_⟩
  simp only [AllNum, forall_mem_cons]
  grind

theorem sound_k8sDeletePod {name nspace : PyValue} (hn : name.json.allNum p = true)
    (hns : nspace.json.allNum p = true) : (k8sDeletePod name nspace).Sound p := by
  refine ⟨show "k8s_delete_pod" ∈ writeOps by decide, allNum_fields _ ?_⟩
  exact forall_mem_cons.mpr ⟨hn, forall_mem_singleton.mpr hns⟩

def SoundSteps (p : Number → Bool) (steps : List Step) : Prop :=
  steps.length ≤ 2 ∧ ∀ s ∈ steps, s.Sound p

theorem soundSteps_one {s : Step} (h : s.Sound p) : SoundSteps p [s] :=
  ⟨by simp, forall_mem_singleton.mpr h⟩

theorem soundSteps_two {s s' : Step} (h : s.Sound p) (h' : s'.Sound p) : SoundSteps p [s, s'] :=
  ⟨le_rfl, forall_mem_cons.mpr ⟨h, forall_mem_singleton.mpr h'⟩⟩

theorem soundSteps_patchWorkers (deployment : String) (hl : AllNum p locators)
    (hp : AllNumPatches p patches) : SoundSteps p (patchWorkers deployment locators patches) := by
  unfold patchWorkers
  split
  · apply soundSteps_two
    · exact sound_swarmUpdateServiceEnv (allNum_locator hl _ _) hp
    · exact sound_swarmRestartService (allNum_locator hl _ _)
  · apply soundSteps_two
    · exact sound_k8sPatchConfigmap (allNum_locator hl _ _) (allNum_locator hl _ _) hp
    · exact sound_k8sRolloutRestart (allNum_locator hl _ _) (allNum_locator hl _ _)
        (allNum_locator hl _ _)

def Builds (p : Number → Bool) (build : Builder) : Prop :=
  ∀ deployment params locators steps, build deployment params locators = .ok steps →
    params.toJson.allNum p = true → AllNum p locators → SoundSteps p steps

theorem builds_stepsKillQuery : Builds p (stepsKillQuery R) := by
  intro deployment params locators steps h _ _
  unfold stepsKillQuery at h
  split at h
  · cases h
  · cases h
    apply soundSteps_one
    refine ⟨show "presto_kill_query" ∈ writeOps by decide, allNum_fields _ ?_⟩
    exact forall_mem_singleton.mpr (allNum_text _)

theorem builds_stepsUpdateConfigRestartWorkers :
    Builds p (stepsUpdateConfigRestartWorkers R) := by
  intro deployment params locators steps h hp hl
  obtain ⟨patches, hpatches, h⟩ := bind_ok h
  cases h
  grind [configPatches_allNum, soundSteps_patchWorkers, envPatches_allNum]

theorem builds_stepsRestartCoordinator : Builds p stepsRestartCoordinator := by
  intro deployment params locators steps h _ hl
  unfold stepsRestartCoordinator at h
  split at h
  · cases h
    exact soundSteps_one (sound_swarmRestartService (allNum_locator hl _ _))
  · cases h
    exact soundSteps_one (sound_k8sRolloutRestart (allNum_locator hl _ _) (allNum_locator hl _ _)
      (allNum_locator hl _ _))

theorem builds_stepsRestartWorker : Builds p (stepsRestartWorker R) := by
  intro deployment params locators steps h _ hl
  unfold stepsRestartWorker at h
  dsimp only at h
  split at h
  · cases h
    exact soundSteps_one (sound_swarmRestartService (allNum_locator hl _ _))
  · cases h
    exact soundSteps_one (sound_k8sDeletePod (allNum_text _) (allNum_locator hl _ _))

end Steps

theorem checkWhitelist_ok {k : Json Number} {s : String} (h : checkWhitelist R k = .ok s) :
    s ∈ memoryConfigWhitelist := by
  unfold checkWhitelist at h
  grind

theorem checkWhitelist_of_mem {s : String} (h : s ∈ memoryConfigWhitelist) :
    checkWhitelist R (.str s) = .ok s := if_pos h

def Whitelisted (out : List (String × String)) : Prop := ∀ p ∈ out, p.1 ∈ memoryConfigWhitelist

variable {out : List (String × String)}

theorem explicitMemoryPatches_whitelisted (ps : List PyValue)
    (h : explicitMemoryPatches R ps = .ok out) : Whitelisted out := by
  -- a key reaches the output only through the check
  induction ps generalizing out with
  | nil =>
    cases h
    exact forall_mem_nil _
  | cons p ps ih =>
    rw [explicitMemoryPatches] at h
    split at h
    · exact ih h
    · obtain ⟨key, hkey, h⟩ := bind_ok h
      obtain ⟨rest, hrest, h⟩ := bind_ok h
      cases h
      exact forall_mem_cons.mpr ⟨checkWhitelist_ok R hkey, ih hrest⟩

theorem memoryParamPatches_whitelisted (h : memoryParamPatches R kvs = .ok out) :
    Whitelisted out := by
  induction kvs generalizing out with
  | nil =>
    cases h
    exact forall_mem_nil _
  | cons kv kvs ih =>
    obtain ⟨key, hkey, h⟩ := bind_ok h
    obtain ⟨rest, hrest, h⟩ := bind_ok h
    cases h
    exact forall_mem_cons.mpr ⟨checkWhitelist_ok R hkey, ih hrest⟩

theorem topLevelPatches_whitelisted (params : Object Number) (ks : List String)
    (hout : Whitelisted out) (hks : ∀ k ∈ ks, k ∈ memoryConfigWhitelist) :
    Whitelisted (topLevelPatches R params out ks) := by
  induction ks generalizing out with
  | nil => exact hout
  | cons k ks ih =>
    obtain ⟨hk, hks⟩ := forall_mem_cons.mp hks
    unfold topLevelPatches
    split
    · exact ih hout hks
    · rename_i v _
      split
      · exact ih hout hks
      · apply ih _ hks
        intro p hp
        rcases mem_append.mp hp with hp | hp
        · exact hout p hp
        · grind

theorem memoryPatches_whitelisted (h : memoryPatches R params = .ok out) : Whitelisted out := by
  unfold memoryPatches at h
  split at h
  · obtain ⟨ps, _, h⟩ := bind_ok h
    exact explicitMemoryPatches_whitelisted R ps h
  · obtain ⟨kvs, _, h⟩ := bind_ok h
    obtain ⟨out', hout', h⟩ := bind_ok h
    cases h
    apply topLevelPatches_whitelisted R params R.whitelist
    · exact memoryParamPatches_whitelisted R hout'
    · intro k hk
      exact R.whitelist_perm.mem_iff.mp hk

theorem mapM_checkWhitelist (h : Whitelisted out) :
    out.mapM (fun p => checkWhitelist R (.str p.1)) = .ok (out.map Prod.fst) := by
  induction out with
  | nil => rfl
  | cons p out ih =>
    obtain ⟨hp, hout⟩ := forall_mem_cons.mp h
    rw [mapM_cons, checkWhitelist_of_mem R hp, ih hout]
    rfl

theorem stepsAdjustMemoryConfig_eq (deployment : String) (locators : Locators)
    (patches : List (String × String)) (h : memoryPatches R params = .ok patches)
    (hne : patches ≠ []) :
    stepsAdjustMemoryConfig R deployment params locators =
      .ok (patchWorkers deployment locators (patches.map fun p => ⟨.text p.1, p.2⟩)) := by
  have hcheck := mapM_checkWhitelist R (memoryPatches_whitelisted R h)
  unfold stepsAdjustMemoryConfig
  rw [h]
  change (if patches = [] then _ else _) = _
  simp_all

theorem builds_stepsAdjustMemoryConfig {p : Number → Bool} :
    Builds p (stepsAdjustMemoryConfig R) := by
  intro deployment params locators steps h _ hl
  obtain ⟨patches, hpatches, hrest⟩ := bind_ok h
  by_cases hne : patches = []
  · grind
  · rw [stepsAdjustMemoryConfig_eq R deployment locators patches hpatches hne] at h
    cases h
    exact soundSteps_patchWorkers deployment hl (forall_mem_map.mpr fun _ _ => allNum_text _)

theorem playbookSteps_builds {p : Number → Bool} (playbookId : String) (build : Builder)
    (h : (playbookSteps R).lookup playbookId = some build) :
    playbookId ∈ playbookIds ∧ Builds p build := by
  obtain ⟨l, r, hlist, _⟩ := lookup_eq_some_iff.mp h
  have hmem : (playbookId, build) ∈ playbookSteps R := by simp [hlist]
  refine ⟨playbookSteps_ids R ▸ mem_map_of_mem hmem, ?_⟩
  simp only [playbookSteps, mem_cons, Prod.mk.injEq, not_mem_nil, or_false] at hmem
  rcases hmem with ⟨_, rfl⟩ | ⟨_, rfl⟩ | ⟨_, rfl⟩ | ⟨_, rfl⟩ | ⟨_, rfl⟩
  · exact builds_stepsKillQuery R
  · exact builds_stepsUpdateConfigRestartWorkers R
  · exact builds_stepsRestartCoordinator
  · exact builds_stepsRestartWorker R
  · exact builds_stepsAdjustMemoryConfig R

/-- A playbook that is run has at most two steps, of registered operations; their
numbers are numbers of the parameters and the remediation targets. -/
theorem executeSteps_sound {p : Number → Bool} (playbookId deployment : String)
    (platformConfig : Object Number) (steps : List Step)
    (h : executeSteps R playbookId deployment params platformConfig = .ok steps)
    (hp : params.toJson.allNum p = true)
    (ht : ∀ v, get platformConfig "remediation_targets" = some v → v.json.allNum p = true) :
    playbookId ∈ playbookIds ∧ SoundSteps p steps := by
  obtain ⟨build, hbuild, h⟩ := bind_ok h
  obtain ⟨locators, hlocators, h⟩ := bind_ok h
  have hl := resolveLocators_allNum R deployment platformConfig hlocators ht
  cases hfound : (playbookSteps R).lookup playbookId with
  | none => grind
  | some found =>
    rw [hfound] at hbuild
    cases hbuild
    obtain ⟨hid, hbuilds⟩ := playbookSteps_builds R playbookId build hfound
    exact ⟨hid, hbuilds deployment params locators steps h hp hl⟩

end DbAgent.Playbooks
