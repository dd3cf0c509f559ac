import DbAgent.PropertiesMerge
import DbAgent.WriteExecution

/-! What the configuration playbooks leave on the platform: the properties of the
workers after `presto.update_config_restart_workers`, and the lines of a config map
after `presto.adjust_memory_config`. -/
namespace DbAgent.Writes

open JsonText Py Playbooks Config List PyValue

section Arguments

theorem elements_map (xs : List PyValue) (h : Json.CanonicalList (xs.map json)) :
    elements (xs.map json) h = xs := by
  induction xs with
  | nil => rfl
  | cons x xs ih => simp only [map_cons, elements, ih]

theorem asList_list (xs : List PyValue) : asList (some (.list xs)) = xs := elements_map xs _

theorem items?_toValue (p : Patch) :
    p.toValue.items? = some [("key", p.key), ("value", .text p.value)] := by
  have hitems := items_map [("key", p.key), ("value", text p.value)]
    (canonicalMembers_map _)
  exact congrArg some hitems

theorem patchEntries_single (key value : String) (h : key ≠ "") :
    patchEntries [Patch.toValue ⟨.text key, value⟩] = [(key, value)] := by
  simp only [patchEntries, filterMap_cons, items?_toValue, Option.bind_some, dictGet]
  simp [asString, text, h]

theorem toMap_single (e : String × String) : toMap [e] = [e] := rfl

theorem mem_of_mem_foldl (entries m : List (String × String)) (x : String × String)
    (h : x ∈ entries.foldl mapInsert m) : x ∈ m ∨ x ∈ entries := by
  induction entries generalizing m with
  | nil => exact Or.inl h
  | cons e entries ih => grind [mapInsert]

theorem mem_of_mem_toMap (entries : List (String × String)) (x : String × String)
    (h : x ∈ toMap entries) : x ∈ entries :=
  (mem_of_mem_foldl entries [] x h).resolve_left not_mem_nil

end Arguments

section Acceptance

variable {M : Messages} {o : Orders} {elsewhere : Elsewhere} {writeEnabled : Bool}
  {step : RemediationStep} {env : RuntimeEnv}

/-- A step that may be run on the environment with the given parameters. -/
structure Runs (M : Messages) (o : Orders) (writeEnabled : Bool) (step : RemediationStep)
    (env : RuntimeEnv) (params : Args) : Prop where
  enabled : writeEnabled = true
  signed : step.signatureOk = true
  valid : ∃ schema, schemas.lookup step.op = some schema ∧
    hasShape schema (.ofObject step.params) = true
  inScope : scopedParams M o env step = .ok params

theorem Runs.executeWrite {params : Args} (h : Runs M o writeEnabled step env params) :
    executeWrite M o elsewhere writeEnabled step env =
      dispatchOp M o elsewhere env step.op params := by
  obtain ⟨schema, hschema, hshape⟩ := h.valid
  unfold Writes.executeWrite
  rw [h.enabled, h.signed, hschema, h.inScope]
  simp [hshape]

theorem runs_of_ok (h : (executeWrite M o elsewhere writeEnabled step env).1.ok = true) :
    ∃ params, Runs M o writeEnabled step env params := by
  unfold executeWrite at h
  split at h
  · cases h
  next henabled =>
  split at h
  · cases h
  next hsigned =>
  split at h
  · cases h
  next schema hschema =>
  split at h
  · cases h
  next hshape =>
  split at h
  · cases h
  next params hscoped =>
  exact ⟨params, by simpa using henabled, by simpa using hsigned,
    ⟨schema, hschema, by simpa using hshape⟩, hscoped⟩

theorem finish_ok {detail : String} {r : Except String RuntimeEnv}
    (h : (finish env detail r).1.ok = true) :
    ∃ env', r = .ok env' ∧ (finish env detail r).2 = env' := by
  cases r with
  | error e => cases h
  | ok env' => exact ⟨env', rfl, rfl⟩

end Acceptance

section Files

theorem effective_single (key value name : Text) (hkey : '\n' ∉ key) (hvalue : '\n' ∉ value) :
    effective (entry key value ++ ['\n']) name = valueOf name (entry key value) := by
  have hone : lines (entry key value) = [entry key value] := by
    have hnewline : ∀ l ∈ [entry key value], '\n' ∉ l := by
      rw [forall_mem_singleton]
      exact newline_notMem_entry hkey hvalue
    have hsplit := splitOn_intercalate '\n' hnewline (cons_ne_nil _ _)
    simpa [lines] using hsplit
  rw [effective, lines_append, hone]
  exact (endsBlind_lastValue name _).trans (lastValue_singleton _)

end Files

variable {env' : RuntimeEnv}

section Clusters

theorem content_setKey (c : Cluster) (nspace name key : String) (value : Text)
    (h : (c.configMaps nspace name).isSome) :
    (c.setKey nspace name key value).content nspace name key = some value := by
  grind [Option.isSome_iff_exists, Cluster.content, Cluster.setKey]

theorem patchConfigMap_single {M : Messages} {c : Cluster} {nspace name key value : String}
    (h : patchConfigMap M (.k8s c) nspace name [(key, value)] = .ok env') :
    (c.configMaps (c.namespaceOf nspace) name).isSome ∧
      env' = .k8s (c.setKey (c.namespaceOf nspace) name key value.toList) := by
  grind [patchConfigMap]

end Clusters

section MemoryConfig

variable {M : Messages} {elsewhere : Elsewhere} {writeEnabled : Bool} {step : RemediationStep}
  {c : Cluster}

def memoryPatchesOf (step : RemediationStep) : List (String × String) :=
  toMap (patchEntries (asList (get step.params "patches")))

def memoryKeys : List Text := defaultMemoryConfigWhitelist.map String.toList

theorem memoryKeys_plain : ∀ k ∈ memoryKeys, Plain k := by
  intro k hk
  simp only [memoryKeys, defaultMemoryConfigWhitelist, map_cons, map_nil,
    mem_cons, not_mem_nil, or_false] at hk
  rcases hk with rfl | rfl | rfl | rfl
  all_goals exact ⟨by decide, _, _, rfl, by decide⟩

theorem whitelisted_of_check (whitelist keys : List String)
    (h : checkMemoryConfigWhitelist M whitelist keys = .ok ()) : ∀ k ∈ keys, k ∈ whitelist := by
  induction keys with
  | nil => exact forall_mem_nil _
  | cons k keys ih =>
    rw [checkMemoryConfigWhitelist] at h
    grind

theorem readConfigMapKey_ok {nspace name : String} {current : Text}
    (h : readConfigMapKey M (.k8s c) nspace name "config.properties" = .ok current) :
    c.content (c.namespaceOf nspace) name "config.properties" = some current := by
  grind [readConfigMapKey, Cluster.content]

/-- A memory step that is accepted: its keys are whitelisted, the file was read, and the
merged content takes the place of the patches, whatever the orders are. -/
theorem applyMemory_ok {o : Orders} {params params' : Args}
    (h : applyMemoryConfigWhitelist M o (.k8s c) "k8s_patch_configmap" params = .ok params') :
    (∀ p ∈ toMap (patchEntries (asList (params "patches"))),
      p.1 ∈ defaultMemoryConfigWhitelist) ∧
    ∃ current, c.content (c.namespaceOf (asString (params "namespace"))) (asString (params "name"))
        "config.properties" = some current ∧
      ∀ o', applyMemoryConfigWhitelist M o' (.k8s c) "k8s_patch_configmap" params =
        .ok (Function.update params "patches" (some (patchArgument [("config.properties",
          String.ofList (mergeProperties o'.merge current
            (asTexts (toMap (patchEntries (asList (params "patches")))))))]))) := by
  obtain ⟨⟨keys, patches⟩, hextract, hthen⟩ := bind_ok h
  obtain ⟨_, hcheck, hrest⟩ := bind_ok hthen
  rw [extractMemoryPatches, if_pos rfl] at hextract
  by_cases hempty : patchEntries (asList (params "patches")) = []
  · grind
  rw [if_neg hempty] at hextract
  obtain ⟨rfl, rfl⟩ := Prod.mk.inj (Except.ok.inj hextract)
  have hkeys := whitelisted_of_check _ _ hcheck
  rw [if_pos rfl] at hrest
  dsimp only at hrest
  cases hread : readConfigMapKey M (.k8s c) (asString (params "namespace"))
      (asString (params "name")) "config.properties" with
  | error e => grind
  | ok current =>
    refine ⟨?_, current, readConfigMapKey_ok hread, ?_⟩
    · intro p hp
      exact hkeys p.1 (mem_map_of_mem (mem_of_mem_toMap _ p hp))
    · intro o'
      unfold applyMemoryConfigWhitelist extractMemoryPatches
      simp only [if_pos, if_neg hempty, hread]
      change (checkMemoryConfigWhitelist M _ _ >>= fun _ => _) = _
      rw [hcheck]
      rfl

theorem executeWrite_memory {o : Orders}
    (hplaybook : step.playbookId = "presto.adjust_memory_config")
    (hop : step.op = "k8s_patch_configmap")
    (hok : (executeWrite M o elsewhere writeEnabled step (.k8s c)).1.ok = true) :
    (∀ p ∈ memoryPatchesOf step, p.1 ∈ defaultMemoryConfigWhitelist) ∧
    ∃ current, c.content (c.namespaceOf (asString (get step.params "namespace")))
        (asString (get step.params "name")) "config.properties" = some current ∧
      ∀ o', (executeWrite M o' elsewhere writeEnabled step (.k8s c)).2 =
        .k8s (c.setKey (c.namespaceOf (asString (get step.params "namespace")))
          (asString (get step.params "name")) "config.properties"
          (mergeProperties o'.merge current (asTexts (memoryPatchesOf step)))) := by
  have hscope (o' : Orders) : scopedParams M o' (.k8s c) step =
      applyMemoryConfigWhitelist M o' (.k8s c) "k8s_patch_configmap" (get step.params) := by
    rw [scopedParams, if_pos ⟨hplaybook, Or.inl hop⟩, hop]
  obtain ⟨params, hruns⟩ := runs_of_ok hok
  have happly := hruns.inScope
  rw [hscope] at happly
  obtain ⟨hkeys, current, hcurrent, hall⟩ := applyMemory_ok happly
  refine ⟨hkeys, current, hcurrent, ?_⟩
  intro o'
  have hruns' : Runs M o' writeEnabled step (.k8s c) _ :=
    ⟨hruns.enabled, hruns.signed, hruns.valid, (hscope o').trans (hall o')⟩
  obtain ⟨data, hdata, -⟩ := Option.bind_eq_some_iff.mp hcurrent
  rw [hruns'.executeWrite, hop, dispatchOp, if_pos rfl, execK8sPatchConfigMap]
  simp only [Function.update_self, Function.update_of_ne (show "name" ≠ "patches" by decide),
    Function.update_of_ne (show "namespace" ≠ "patches" by decide), patchArgument, map_cons,
    map_nil, asList_list, patchEntries_single _ _ (show "config.properties" ≠ "" by decide),
    toMap_single, patchConfigMap, hdata, foldl_cons, foldl_nil, String.toList_ofList]
  rfl

/-- The memory step keeps every line that sets no whitelisted property, whatever the
orders of the maps are, exactly if every value that is taken for a whole file has the
same such lines as the file. -/
theorem memory_whitelist_confined (M : Messages) (elsewhere : Elsewhere) (writeEnabled : Bool)
    (step : RemediationStep) (c : Cluster) (o : Orders)
    (hplaybook : step.playbookId = "presto.adjust_memory_config")
    (hop : step.op = "k8s_patch_configmap")
    (hok : (executeWrite M o elsewhere writeEnabled step (.k8s c)).1.ok = true) :
    ∃ current, c.content (c.namespaceOf (asString (get step.params "namespace")))
        (asString (get step.params "name")) "config.properties" = some current ∧
      ((∀ o', ∃ written, (executeWrite M o' elsewhere writeEnabled step (.k8s c)).2 =
          .k8s (c.setKey (c.namespaceOf (asString (get step.params "namespace")))
            (asString (get step.params "name")) "config.properties" written) ∧
          otherLines memoryKeys written = otherLines memoryKeys current) ↔
        ∀ p ∈ asTexts (memoryPatchesOf step), fileLike p.2 →
          otherLines memoryKeys p.2 = otherLines memoryKeys current) := by
  obtain ⟨hkeys, current, hcurrent, hall⟩ := executeWrite_memory hplaybook hop hok
  refine ⟨current, hcurrent, ?_⟩
  have hkeys' : ∀ p ∈ asTexts (memoryPatchesOf step), p.1 ∈ memoryKeys := by
    intro p hp
    obtain ⟨q, hq, rfl⟩ := mem_map.mp hp
    exact mem_map_of_mem (hkeys q hq)
  have hsome : (c.configMaps (c.namespaceOf (asString (get step.params "namespace")))
      (asString (get step.params "name"))).isSome := by
    obtain ⟨data, hdata, -⟩ := Option.bind_eq_some_iff.mp hcurrent
    rw [hdata]
    rfl
  rw [← mergeProperties_confined current _ hkeys' memoryKeys_plain]
  constructor
  · -- any order of the merge is one of some orders of the whole
    intro h merge
    obtain ⟨written, hwritten, hlines⟩ := h { o with merge := merge }
    rw [hall] at hwritten
    have hcontent := congrArg (fun c' : Cluster =>
      c'.content (c.namespaceOf (asString (get step.params "namespace")))
        (asString (get step.params "name")) "config.properties") (RuntimeEnv.k8s.inj hwritten)
    dsimp only at hcontent
    rw [content_setKey c _ _ _ _ hsome, content_setKey c _ _ _ _ hsome] at hcontent
    rw [Option.some.inj hcontent]
    exact hlines
  · grind

theorem entries_in_order : ∀ m : List (String × String), (id m).Perm m := List.Perm.refl

def inOrder : Orders where
  merge := ⟨id, id, id, perm_listed, perm_listed, perm_listed⟩
  patches := id
  env := id
  patches_perm := entries_in_order
  env_perm := entries_in_order

def clusterOf (content : String) : Cluster where
  defaultNamespace := "presto"
  configMaps := fun _ _ => some fun _ => some content.toList
  workloads := fun _ _ _ => true

def memoryStep (value : String) : RemediationStep where
  playbookId := "presto.adjust_memory_config"
  op := "k8s_patch_configmap"
  params := (k8sPatchConfigmap (.text "presto-worker-config") (.text "presto")
    [⟨.text "query.max-memory", value⟩]).params
  signatureOk := true

def plainMessages : Messages := ⟨id, id, fun op _ => op⟩

theorem memory_whitelist_confined_one_patch :
    ∃ written, (executeWrite plainMessages inOrder (fun _ _ => failed "") true (memoryStep "2GB")
        (.k8s (clusterOf "coordinator=false\nquery.max-memory=1GB\n"))).2 =
        .k8s ((clusterOf "coordinator=false\nquery.max-memory=1GB\n").setKey "presto"
          "presto-worker-config" "config.properties" written) ∧
      otherLines memoryKeys written = ["coordinator=false".toList] := by
  obtain ⟨current, hcurrent, hiff⟩ := memory_whitelist_confined plainMessages
    (fun _ _ => failed "") true (memoryStep "2GB")
    (clusterOf "coordinator=false\nquery.max-memory=1GB\n") inOrder rfl rfl rfl
  obtain rfl := Option.some.inj hcurrent
  have hpatches : asTexts (memoryPatchesOf (memoryStep "2GB")) =
      [("query.max-memory".toList, "2GB".toList)] := rfl
  rw [hpatches] at hiff
  obtain ⟨written, hwritten, hlines⟩ := hiff.mpr
    (forall_mem_singleton.mpr fun hfile => absurd hfile (by decide)) inOrder
  exact ⟨written, hwritten, hlines.trans (by decide)⟩

/-- A value with a line break takes the place of the whole file: a property outside of
the whitelist is removed and another one added. -/
theorem memory_step_replaces_file :
    ∃ (step : RemediationStep) (c : Cluster) (written : Text),
      step.playbookId = "presto.adjust_memory_config" ∧ step.op = "k8s_patch_configmap" ∧
      (executeWrite plainMessages inOrder (fun _ _ => failed "") true step (.k8s c)).1.ok = true ∧
      (executeWrite plainMessages inOrder (fun _ _ => failed "") true step (.k8s c)).2 =
        .k8s (c.setKey "presto" "presto-worker-config" "config.properties" written) ∧
      c.content "presto" "presto-worker-config" "config.properties" =
        some "coordinator=false\nquery.max-memory=1GB\n".toList ∧
      otherLines memoryKeys "coordinator=false\nquery.max-memory=1GB\n".toList =
        ["coordinator=false".toList] ∧
      otherLines memoryKeys written = ["evil=1".toList] := by
  refine ⟨memoryStep "query.max-memory=2GB\nevil=1\n",
    clusterOf "coordinator=false\nquery.max-memory=1GB\n",
    "query.max-memory=2GB\nevil=1\n".toList, rfl, rfl, rfl, ?_, rfl, by decide, by decide⟩
  rfl

end MemoryConfig

section UpdateConfig

variable {M : Messages} {o : Orders} {elsewhere : Elsewhere} {writeEnabled : Bool}

def runSteps (M : Messages) (o : Orders) (elsewhere : Elsewhere) (writeEnabled : Bool)
    (playbookId : String) : List Step → RuntimeEnv → Option RuntimeEnv
  | [], env => some env
  | s :: ss, env =>
    let r := executeWrite M o elsewhere writeEnabled ⟨playbookId, s.op, s.params, true⟩ env
    if r.1.ok then runSteps M o elsewhere writeEnabled playbookId ss r.2 else none

def configParams (key value : String) : Object Number :=
  dict [("config_key", .text key), ("config_value", .text value)]
    (show ["config_key", "config_value"].Pairwise keyLt by decide)

def fileKeyOf (locators : Locators) : PyValue :=
  orElse (dictGet "config_file_key" locators) (.text "config.properties")

def configMapOf (locators : Locators) : PyValue :=
  orElse (dictGet "worker_configmap" locators) (.text "presto-worker-config")

/-- A property of the workers: one that their file defines, or on a swarm a variable of their
service. -/
def workerProperty (locators : Locators) (env : RuntimeEnv) (name : Text) : Option (Option Text) :=
  match env with
  | .k8s c =>
    (c.content (c.namespaceOf (asString (some (Playbooks.namespaceOf locators))))
      (asString (some (configMapOf locators))) (asString (some (fileKeyOf locators)))).bind
      fun content => (effective content name).map some
  | .docker services =>
    (services (asString (some (workerService locators)))).bind fun s => envGet s.env name

variable {locators : Locators}

theorem workerProperty_docker {services : String → Option Service} {s : Service}
    (hs : services (asString (some (workerService locators))) = some s) (name : Text) :
    workerProperty locators (.docker services) name = envGet s.env name := by
  rw [workerProperty, hs]
  rfl

theorem items?_dict (fields : List (String × PyValue)) (h : (fields.map Prod.fst).Pairwise keyLt) :
    (ofObject (dict fields h)).items? = some fields :=
  congrArg some (items_map fields (canonicalMembers_map fields))

theorem hasShape_fields {shape : List (String × (PyValue → Bool))} {v : PyValue}
    {fields : List (String × PyValue)} (hv : v.items? = some fields)
    (hs : hasShape shape v = true) :
    ∀ f ∈ shape, (dictGet f.1 fields).any f.2 = true := by
  rw [hasShape, hv] at hs
  grind

theorem isEntries_list (xs : List PyValue) :
    isEntries (.list xs) = xs.all (hasShape [("key", isText), ("value", isText)]) := by
  have helements := elements_map xs (canonicalList_map xs)
  change (elements (xs.map json) _).all _ = _
  rw [helements]

theorem text_of_isText (v : PyValue) (h : isText v = true) : v = .text (asString (some v)) := by
  obtain ⟨json, hcanonical⟩ := v
  cases json with
  | str s => rfl
  | null | bool | num | arr | obj => cases h

theorem key_text (p : Patch) (h : isEntries (.list [p.toValue]) = true) :
    p.key = .text (asString (some p.key)) := by
  rw [isEntries_list, all_cons, Bool.and_eq_true] at h
  have hkey := hasShape_fields (items?_toValue p) h.1 ("key", isText) mem_cons_self
  exact text_of_isText p.key hkey

theorem fileKeyOf_ne_empty (locators : Locators)
    (h : fileKeyOf locators = .text (asString (some (fileKeyOf locators)))) :
    asString (some (fileKeyOf locators)) ≠ "" := by
  intro hempty
  rw [hempty] at h
  rw [fileKeyOf, orElse] at h
  cases hfilter : (dictGet "config_file_key" locators).filter PyValue.truthy with
  | none =>
    rw [hfilter] at h
    have hname := congrArg (fun v => asString (some v)) h
    exact absurd hname (show "config.properties" ≠ "" by decide)
  | some v =>
    -- an empty text is not truthy
    rw [hfilter, Option.getD_some] at h
    have htruthy := (Option.filter_eq_some_iff.mp hfilter).2
    rw [h] at htruthy
    cases htruthy

def configPatch (locators : Locators) (key value : String) : Patch :=
  ⟨fileKeyOf locators, key ++ "=" ++ value ++ "\n"⟩

theorem steps_eq (R : Runtime) (hstr : ∀ s, R.str (.str s) = s) (deployment : String)
    (locators : Locators) (key value : String) :
    stepsUpdateConfigRestartWorkers R deployment (configParams key value) locators =
      .ok (patchWorkers deployment locators [configPatch locators key value]) := by
  have hpatches : configPatches R (configParams key value) locators =
      .ok [configPatch locators key value] := by
    have hget (k : String) : get (configParams key value) k =
        dictGet k [("config_key", .text key), ("config_value", .text value)] := get_dict _ _ k
    unfold configPatches
    rw [hget, hget, hget]
    change Except.ok [Patch.mk (fileKeyOf locators)
      (R.str (.str key) ++ "=" ++ R.str (.str value) ++ "\n")] = _
    rw [hstr, hstr]
    rfl
  unfold stepsUpdateConfigRestartWorkers
  rw [hpatches]
  change Except.ok (patchWorkers deployment locators _) = _
  simp [envPatches, configPatch, ite_self]

theorem configPatch_text (key value : String) :
    (key ++ "=" ++ value ++ "\n").toList = entry key.toList value.toList ++ ['\n'] := by
  simp [String.toList_append, entry]

variable {env : RuntimeEnv}

theorem update_runs {op : String} {params : Object Number}
    (hok : (executeWrite M o elsewhere writeEnabled
      ⟨"presto.update_config_restart_workers", op, params, true⟩ env).1.ok = true) :
    (∃ schema, schemas.lookup op = some schema ∧ hasShape schema (.ofObject params) = true) ∧
      executeWrite M o elsewhere writeEnabled
        ⟨"presto.update_config_restart_workers", op, params, true⟩ env =
        dispatchOp M o elsewhere env op (get params) := by
  obtain ⟨params', hruns⟩ := runs_of_ok hok
  have hparams : get params = params' := by
    have hscope := hruns.inScope
    rw [scopedParams, if_neg fun h => absurd h.1
      (show "presto.update_config_restart_workers" ≠ "presto.adjust_memory_config" by decide)]
      at hscope
    exact Except.ok.inj hscope
  refine ⟨hruns.valid, ?_⟩
  rw [hruns.executeWrite, hparams]

section Fields

theorem get_of_items? {params : Object Number} {fields : List (String × PyValue)}
    (h : (ofObject params).items? = some fields) (k : String) :
    get params k = dictGet k fields := by
  change (ofObject params).items?.bind (dictGet k) = _
  rw [h]
  rfl

theorem items?_k8sPatchConfigmap (name nspace : PyValue) (patches : List Patch) :
    (ofObject (k8sPatchConfigmap name nspace patches).params).items? =
      some [("name", name), ("namespace", nspace),
        ("patches", .list (patches.map Patch.toValue))] :=
  items?_dict
    [("name", name), ("namespace", nspace), ("patches", .list (patches.map Patch.toValue))]
    (show ["name", "namespace", "patches"].Pairwise keyLt by decide)

theorem items?_swarmUpdateServiceEnv (service : PyValue) (env : List Patch) :
    (ofObject (swarmUpdateServiceEnv service env).params).items? =
      some [("env", .list (env.map Patch.toValue)), ("service", service)] :=
  items?_dict [("env", .list (env.map Patch.toValue)), ("service", service)]
    (show ["env", "service"].Pairwise keyLt by decide)

theorem items?_swarmRestartService (service : PyValue) :
    (ofObject (swarmRestartService service).params).items? = some [("service", service)] :=
  items?_dict [("service", service)] (pairwise_singleton _ _)

end Fields

theorem patchEntries_valid (p : Patch) (hvalid : isEntries (.list [p.toValue]) = true)
    (hne : asString (some p.key) ≠ "") :
    patchEntries (asList (some (.list [p.toValue]))) = [(asString (some p.key), p.value)] := by
  have hp : p = ⟨.text (asString (some p.key)), p.value⟩ := by
    rw [← key_text p hvalid]
  rw [asList_list]
  nth_rewrite 1 [hp]
  exact patchEntries_single _ _ hne

theorem patch_step {nspace name : PyValue} {p : Patch}
    (hne : p.key = .text (asString (some p.key)) → asString (some p.key) ≠ "")
    (hok : (executeWrite M o elsewhere writeEnabled ⟨"presto.update_config_restart_workers",
      "k8s_patch_configmap", (k8sPatchConfigmap name nspace [p]).params, true⟩ env).1.ok = true) :
    ∃ c, env = .k8s c ∧
      (c.configMaps (c.namespaceOf (asString (some nspace))) (asString (some name))).isSome ∧
      (executeWrite M o elsewhere writeEnabled ⟨"presto.update_config_restart_workers",
        "k8s_patch_configmap", (k8sPatchConfigmap name nspace [p]).params, true⟩ env).2 =
        .k8s (c.setKey (c.namespaceOf (asString (some nspace))) (asString (some name))
          (asString (some p.key)) p.value.toList) := by
  obtain ⟨⟨schema, hschema, hshape⟩, heq⟩ := update_runs hok
  have hentries : isEntries (.list [p.toValue]) = true := by
    obtain rfl := Option.some.inj hschema
    exact hasShape_fields (items?_k8sPatchConfigmap name nspace [p]) hshape
      ("patches", isEntries) (by simp)
  rw [heq] at hok ⊢
  rw [dispatchOp, if_pos rfl, execK8sPatchConfigMap] at hok ⊢
  obtain ⟨env', hpatched, henv'⟩ := finish_ok hok
  simp only [get_of_items? (items?_k8sPatchConfigmap name nspace [p])] at hpatched
  change patchConfigMap M env (asString (some nspace)) (asString (some name))
    (toMap (patchEntries (asList (some (.list [p.toValue]))))) = _ at hpatched
  rw [patchEntries_valid p hentries (hne (key_text p hentries)), toMap_single] at hpatched
  cases env with
  | docker services => cases hpatched
  | k8s c => grind [patchConfigMap_single]

theorem env_step {service : PyValue} {p : Patch}
    (hne : p.key = .text (asString (some p.key)) → asString (some p.key) ≠ "")
    (hok : (executeWrite M o elsewhere writeEnabled ⟨"presto.update_config_restart_workers",
      "swarm_update_service_env", (swarmUpdateServiceEnv service [p]).params, true⟩ env).1.ok =
        true) :
    ∃ services s, env = .docker services ∧ services (asString (some service)) = some s ∧
      (executeWrite M o elsewhere writeEnabled ⟨"presto.update_config_restart_workers",
        "swarm_update_service_env", (swarmUpdateServiceEnv service [p]).params, true⟩ env).2 =
        .docker (Function.update services (asString (some service)) (some { s with
          env := mergeEnv s.env [((asString (some p.key)).toList, p.value.toList)] })) := by
  obtain ⟨⟨schema, hschema, hshape⟩, heq⟩ := update_runs hok
  have hentries : isEntries (.list [p.toValue]) = true := by
    obtain rfl := Option.some.inj hschema
    exact hasShape_fields (items?_swarmUpdateServiceEnv service [p]) hshape
      ("env", isEntries) (by simp)
  rw [heq] at hok ⊢
  have hdispatch : dispatchOp M o elsewhere env "swarm_update_service_env"
      (get (swarmUpdateServiceEnv service [p]).params) =
      execSwarmUpdateServiceEnv M o env (get (swarmUpdateServiceEnv service [p]).params) := rfl
  rw [hdispatch, execSwarmUpdateServiceEnv] at hok ⊢
  obtain ⟨env', hupdated, henv'⟩ := finish_ok hok
  simp only [get_of_items? (items?_swarmUpdateServiceEnv service [p])] at hupdated
  change updateServiceEnv M o env (asString (some service))
    (toMap (patchEntries (asList (some (.list [p.toValue]))))) = _ at hupdated
  rw [patchEntries_valid p hentries (hne (key_text p hentries)), toMap_single] at hupdated
  cases env with
  | k8s c => cases hupdated
  | docker services =>
    unfold updateServiceEnv at hupdated
    dsimp only at hupdated
    split at hupdated
    · cases hupdated
    · next s hs =>
      have horder : o.env [(asString (some p.key), p.value)] = [(asString (some p.key), p.value)] :=
        perm_singleton.mp (o.env_perm _)
      grind

theorem rollout_step {kind name nspace : PyValue}
    (hok : (executeWrite M o elsewhere writeEnabled ⟨"presto.update_config_restart_workers",
      "k8s_rollout_restart", (k8sRolloutRestart kind name nspace).params, true⟩ env).1.ok = true) :
    (executeWrite M o elsewhere writeEnabled ⟨"presto.update_config_restart_workers",
      "k8s_rollout_restart", (k8sRolloutRestart kind name nspace).params, true⟩ env).2 = env := by
  obtain ⟨-, heq⟩ := update_runs hok
  rw [heq] at hok ⊢
  have hdispatch : dispatchOp M o elsewhere env "k8s_rollout_restart"
      (get (k8sRolloutRestart kind name nspace).params) =
      execK8sRolloutRestart M env (get (k8sRolloutRestart kind name nspace).params) := rfl
  rw [hdispatch, execK8sRolloutRestart] at hok ⊢
  obtain ⟨env', hrestarted, henv'⟩ := finish_ok hok
  rw [henv']
  unfold rolloutRestart at hrestarted
  grind

theorem restart_step {service : PyValue} {services : String → Option Service} {s : Service}
    (hs : services (asString (some service)) = some s)
    (hok : (executeWrite M o elsewhere writeEnabled
      ⟨"presto.update_config_restart_workers", "swarm_restart_service",
        (swarmRestartService service).params, true⟩ (.docker services)).1.ok = true) :
    (executeWrite M o elsewhere writeEnabled ⟨"presto.update_config_restart_workers",
      "swarm_restart_service", (swarmRestartService service).params, true⟩ (.docker services)).2 =
      .docker (Function.update services (asString (some service))
        (some { s with forceUpdate := (s.forceUpdate+1)%2^64 })) := by
  obtain ⟨-, heq⟩ := update_runs hok
  rw [heq]
  have hget : get (swarmRestartService service).params "service" = some service :=
    get_of_items? (items?_swarmRestartService service) "service"
  have hdispatch : dispatchOp M o elsewhere (.docker services) "swarm_restart_service"
      (get (swarmRestartService service).params) =
      execSwarmRestartService M (.docker services) (get (swarmRestartService service).params) := rfl
  rw [hdispatch, execSwarmRestartService, hget]
  simp only [restartService, hs]
  rfl

def setVariable (locators : Locators) (key value : String) : Text :=
  entry (asString (some (fileKeyOf locators))).toList (entry key.toList value.toList ++ ['\n'])

theorem setVariable_value (locators : Locators) (key value : String)
    (h : envKey (setVariable locators key value) = key.toList) :
    envValue (setVariable locators key value) ≠ some value.toList := by
  intro heq
  have hmem : (setVariable locators key value).contains '=' = true := by
    simp [setVariable, entry]
  rw [envValue, if_pos hmem, h] at heq
  have hlen := congrArg List.length (Option.some.inj heq)
  simp only [setVariable, entry, length_drop, length_append, length_cons,
    length_nil] at hlen
  omega

theorem runSteps_two {playbookId : String} {s s' : Step} {env : RuntimeEnv}
    (h : runSteps M o elsewhere writeEnabled playbookId [s, s'] env = some env') :
    ∃ env₁, (executeWrite M o elsewhere writeEnabled ⟨playbookId, s.op, s.params, true⟩ env).1.ok =
        true ∧
      (executeWrite M o elsewhere writeEnabled ⟨playbookId, s.op, s.params, true⟩ env).2 = env₁ ∧
      (executeWrite M o elsewhere writeEnabled ⟨playbookId, s'.op, s'.params, true⟩ env₁).1.ok =
        true ∧
      (executeWrite M o elsewhere writeEnabled ⟨playbookId, s'.op, s'.params, true⟩ env₁).2 =
        env' := by grind [runSteps]

theorem workerProperty_k8s {key value : String} {env : RuntimeEnv} (hkey : '\n' ∉ key.toList)
    (hvalue : '\n' ∉ value.toList) {deployment : String} (hdeployment : deployment ≠ "swarm")
    (hrun : runSteps M o elsewhere writeEnabled "presto.update_config_restart_workers"
      (patchWorkers deployment locators [configPatch locators key value]) env = some env')
    (name : Text) :
    workerProperty locators env' name =
      (valueOf name (entry key.toList value.toList)).map some := by
  rw [patchWorkers, if_neg hdeployment] at hrun
  obtain ⟨env₁, hok₁, henv₁, hok₂, henv₂⟩ := runSteps_two hrun
  obtain ⟨c, rfl, hsome, hpatched⟩ := patch_step (p := configPatch locators key value)
    (fileKeyOf_ne_empty locators) hok₁
  have hrestarted := rollout_step hok₂
  have henv' : env' = _ := henv₂.symm.trans (hrestarted.trans (henv₁.symm.trans hpatched))
  have hcontent := content_setKey c _ _ (asString (some (fileKeyOf locators)))
    (configPatch locators key value).value.toList hsome
  have hfile : workerProperty locators env' name =
      (effective (configPatch locators key value).value.toList name).map some := by
    rw [henv']
    exact congrArg (fun x => Option.bind x fun content =>
      (effective content name).map some) hcontent
  rw [hfile, configPatch, configPatch_text, effective_single _ _ _ hkey hvalue]

theorem workerProperty_swarm {key value : String} {env : RuntimeEnv}
    (hrun : runSteps M o elsewhere writeEnabled "presto.update_config_restart_workers"
      (patchWorkers "swarm" locators [configPatch locators key value]) env = some env')
    (name : Text) :
    workerProperty locators env' name =
      if envKey (setVariable locators key value) = name
      then some (envValue (setVariable locators key value))
      else workerProperty locators env name := by
  rw [patchWorkers, if_pos rfl] at hrun
  obtain ⟨env₁, hok₁, henv₁, hok₂, henv₂⟩ := runSteps_two hrun
  obtain ⟨services, s, rfl, hs, hupdated⟩ := env_step (p := configPatch locators key value)
    (fileKeyOf_ne_empty locators) hok₁
  have henv₁' : env₁ = _ := henv₁.symm.trans hupdated
  rw [henv₁'] at hok₂ henv₂
  have hrestarted := restart_step (Function.update_self _ _ _) hok₂
  have henv' : env' = _ := henv₂.symm.trans hrestarted
  have hafter : workerProperty locators env' name = envGet (mergeEnv s.env
      [((asString (some (fileKeyOf locators))).toList,
        (configPatch locators key value).value.toList)]) name := by
    rw [henv']
    exact workerProperty_docker (Function.update_self _ _ _) name
  rw [workerProperty_docker hs, hafter, configPatch, configPatch_text, envGet_mergeEnv]
  rfl

section Settings

variable {α β : Type} [DecidableEq α] (f : α → β) {a b : α} {v w : β}

theorem set_eq_set_iff (hne : b = a → w ≠ v) :
    (∀ x, (if b = x then w else f x) = if x = a then v else f x) ↔ f a = v ∧ f b = w := by
  constructor
  · grind
  · grind

end Settings

/-- The playbook changes exactly the property that is named if, on a cluster, a line can define it
and the file defines no other property, and on a swarm, if that is how the variables already were,
with the one that is named like the file. -/
theorem update_config_only_named (R : Runtime) (hstr : ∀ s, R.str (.str s) = s) (M : Messages)
    (o : Orders) (elsewhere : Elsewhere) (writeEnabled : Bool) (deployment : String)
    (locators : Locators) (key value : String) (hkey : '\n' ∉ key.toList)
    (hkey' : '=' ∉ key.toList) (hvalue : '\n' ∉ value.toList) (steps : List Step)
    (hsteps : stepsUpdateConfigRestartWorkers R deployment (configParams key value) locators =
      .ok steps)
    (env env' : RuntimeEnv)
    (hrun : runSteps M o elsewhere writeEnabled "presto.update_config_restart_workers" steps env =
      some env') :
    (∀ name, workerProperty locators env' name =
      if name = key.toList then some (some value.toList) else workerProperty locators env name) ↔
    if deployment = "swarm" then
      workerProperty locators env key.toList = some (some value.toList) ∧
      workerProperty locators env (envKey (setVariable locators key value)) =
        some (envValue (setVariable locators key value))
    else ReadableKey key.toList ∧ trimSpace value.toList = value.toList ∧
      ∀ name, name ≠ key.toList → workerProperty locators env name = none := by
  rw [steps_eq R hstr] at hsteps
  obtain rfl := Except.ok.inj hsteps
  by_cases hdeployment : deployment = "swarm"
  · subst hdeployment
    rw [if_pos rfl]
    simp only [workerProperty_swarm hrun]
    apply set_eq_set_iff (workerProperty locators env)
    grind [setVariable_value]
  · rw [if_neg hdeployment]
    simp only [workerProperty_k8s hkey hvalue hdeployment hrun]
    -- the new file is the line of the key, which defines nothing else
    have hother (hread : ReadableKey key.toList) (htrim : trimSpace value.toList = value.toList)
        (name : Text) (hname : name ≠ key.toList) :
        valueOf name (entry key.toList value.toList) = none :=
      valueOf_other hkey' hread (isLineOf_own_entry hread htrim) hname
    constructor
    · intro h
      have hset := h key.toList
      rw [if_pos rfl] at hset
      obtain ⟨v, hvalueOf, hv⟩ := Option.map_eq_some_iff.mp hset
      obtain ⟨hread, htrim⟩ := readable_of_valueOf (hvalueOf.trans hv)
      refine ⟨hread, htrim, ?_⟩
      intro name hname
      have hkept := h name
      rw [if_neg hname, hother hread htrim name hname] at hkept
      exact hkept.symm
    · rintro ⟨hread, htrim, hnone⟩ name
      by_cases hname : name = key.toList
      · rw [if_pos hname, hname, valueOf_entry hkey' hread htrim]
        rfl
      · rw [if_neg hname, hother hread htrim name hname, hnone name hname]
        rfl

theorem params_in_order : ∀ kvs : List (String × PyValue), (id kvs).Perm kvs := List.Perm.refl

theorem no_updates : ∀ (v : PyValue) (kvs : List (String × PyValue)) (p : Number → Bool),
    (.error .typeError : Except BuildError (List (String × PyValue))) = .ok kvs →
      v.json.allNum p = true → ∀ kv ∈ kvs, kv.2.json.allNum p = true :=
  nofun

def textRuntime : Runtime where
  str := fun v => match v with
    | .str s => s
    | _ => ""
  repr := fun _ => ""
  order := id
  order_perm := params_in_order
  whitelist := memoryConfigWhitelist
  whitelist_perm := List.Perm.refl _
  updates := fun _ => .error .typeError
  updates_allNum := no_updates

def swarmOf (env : List String) : RuntimeEnv :=
  .docker fun _ => some ⟨env.map String.toList, 0⟩

theorem update_config_only_named_single :
    ∃ steps env', stepsUpdateConfigRestartWorkers textRuntime "k8s"
        (configParams "query.max-memory" "2GB") [] = .ok steps ∧
      runSteps plainMessages inOrder (fun _ _ => failed "") true
        "presto.update_config_restart_workers" steps (.k8s (clusterOf "query.max-memory=1GB\n")) =
        some env' ∧
      workerProperty [] env' "query.max-memory".toList = some (some "2GB".toList) := by
  refine ⟨_, _, rfl, rfl, ?_⟩
  have honly := update_config_only_named textRuntime (fun _ => rfl) plainMessages inOrder
    (fun _ _ => failed "") true "k8s" [] "query.max-memory" "2GB" (by decide) (by decide)
    (by decide)
    _ rfl (.k8s (clusterOf "query.max-memory=1GB\n")) _ rfl
  rw [if_neg (by decide)] at honly
  have hread : ReadableKey "query.max-memory".toList := ⟨by decide, by decide, by decide⟩
  have hnone : ∀ name, name ≠ "query.max-memory".toList →
      workerProperty [] (.k8s (clusterOf "query.max-memory=1GB\n")) name = none := by
    intro name hname
    have hfile : "query.max-memory=1GB\n".toList =
        entry "query.max-memory".toList "1GB".toList ++ ['\n'] := by decide
    change (effective "query.max-memory=1GB\n".toList name).map some = none
    rw [hfile, effective_single _ _ _ (by decide) (by decide),
      valueOf_other (by decide) hread (isLineOf_own_entry hread (by decide)) hname]
    rfl
  exact honly.mpr ⟨hread, by decide, hnone⟩ "query.max-memory".toList

/-- On a cluster the other properties of the file are gone; on a swarm the property is
not set, and a variable with the name of the file is. -/
theorem update_config_drops_others :
    (∃ steps env', stepsUpdateConfigRestartWorkers textRuntime "k8s"
        (configParams "query.max-memory" "2GB") [] = .ok steps ∧
      runSteps plainMessages inOrder (fun _ _ => failed "") true
        "presto.update_config_restart_workers" steps
        (.k8s (clusterOf "coordinator=false\nquery.max-memory=1GB\n")) = some env' ∧
      workerProperty [] (.k8s (clusterOf "coordinator=false\nquery.max-memory=1GB\n"))
        "coordinator".toList = some (some "false".toList) ∧
      workerProperty [] env' "coordinator".toList = none) ∧
    (∃ steps env', stepsUpdateConfigRestartWorkers textRuntime "swarm"
        (configParams "query.max-memory" "2GB") [] = .ok steps ∧
      runSteps plainMessages inOrder (fun _ _ => failed "") true
        "presto.update_config_restart_workers" steps (swarmOf ["query.max-memory=1GB"]) =
        some env' ∧
      workerProperty [] env' "query.max-memory".toList = some (some "1GB".toList) ∧
      workerProperty [] (swarmOf ["query.max-memory=1GB"]) "config.properties".toList = none ∧
      workerProperty [] env' "config.properties".toList =
        some (some "query.max-memory=2GB\n".toList)) := by
  exact ⟨⟨_, _, rfl, rfl, by decide, by decide⟩, ⟨_, _, rfl, rfl, by decide, by decide, by decide⟩⟩

end UpdateConfig

end DbAgent.Writes
