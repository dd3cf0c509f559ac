import DbAgent.PlaybookSteps
import DbAgent.SignedStepScope

/-! A step on its way from `execute_playbook` to the probe: it is signed, posted
to the gateway as JSON, decoded there, put into a `RemediationStep`, and its hash
is recomputed from what has arrived. -/
namespace DbAgent.StepDelivery

open JsonText Py Playbooks Signing List

variable {ν : Type}

/-- The numbers `rfc8785.dumps` takes: safe integers and finite floats. -/
def inDomain : Number → Bool
  | .int z => decide (z.natAbs ≤ 2^53-1)
  | .float q => q.isSome

/-- The libraries on the way, with what is assumed of them. A JSON text is read
back as it was written, unless it is nested deeper than the 10000 levels of
`encoding/json`; the canonicalizer of the worker is recursive and ends at the
recursion limit of 1000. -/
structure Libraries (P : Primitives ν) where
  float64 : Number → ν
  encode : Object Number → ByteArray
  decode : ByteArray → Except String (Object Number)
  mismatch : String → Json Number → String
  quote : String → String
  b64encode : ByteArray → String
  stdDecode : String → Except String ByteArray
  rawStdDecode : String → Except String ByteArray
  decode_encode : ∀ o, o.toJson.allNum inDomain = true → o.toJson.depth ≤ 10000 →
    decode (encode o) = .ok o
  stdDecode_b64encode : ∀ b, stdDecode (b64encode b) = .ok b
  worker_depth : ∀ o s, P.workerCanonicalize o = .ok s → o.toJson.depth ≤ 1000
  probe_total : ∀ o, o.toJson.depth ≤ 10000 → ∃ s, P.probeCanonicalize o = .ok s

open Libraries

structure Signer (P : Primitives ν) where
  publicKey : ByteArray
  sign : ByteArray → ByteArray
  size : publicKey.size = 32
  verifies : ∀ message, P.ed25519Verify publicKey message (sign message) = true

variable {P : Primitives ν} (L : Libraries P) (S : Signer P)

section Worker

def Libraries.doubles (o : Object Number) : Object ν :=
  o.bindNum (fun n => .num (L.float64 n)) (fun _ => trivial)

/-- `rfc8785.dumps`: a number is written as the double it stands for, and one
outside the domain raises. -/
def Libraries.dumps (o : Object Number) : Except String String :=
  if o.toJson.allNum inDomain then P.workerCanonicalize (L.doubles o)
  else .error "CanonicalizationError"

/-- `canonical_step_hash`, of what `execute_playbook` passes for a step. -/
def Libraries.stepHash (executionId : Uuid) (playbookId : String) (stepIndex : ℕ) (step : Step) :
    Except String ByteArray :=
  (stepMessage L.dumps (uuidText executionId) playbookId stepIndex step.op step.params).map
    P.sha256

/-- The requests of the probe client: `execute_tool`, `execute_raw_command`,
`execute_write` and `execute_health`. -/
inductive Call where
  | tool (tool : String) (args : Object Number)
  | rawCommand (command : String)
  | write (playbookId : String) (stepIndex : ℕ) (op : String) (params : Object Number)
      (executionId signatureB64 : String)
  | health (builtin : Bool) (customQuery : String) (waitSeconds : ℕ)

def natValue (n : ℕ) : PyValue := ⟨.num (.int n), trivial⟩

/-- The members of the body that `_execute` posts, in the order of their names. -/
def bodyFields (platformKey taskId : String) (timeoutSeconds : ℕ) :
    Call → List (String × PyValue)
  | .tool tool args =>
    [("args", .ofObject args), ("kind", .text "tool"), ("platform_key", .text platformKey),
      ("task_id", .text taskId), ("timeout_seconds", natValue timeoutSeconds),
      ("tool", .text tool)]
  | .rawCommand command =>
    [("command", .text command), ("kind", .text "raw_command"),
      ("platform_key", .text platformKey), ("task_id", .text taskId),
      ("timeout_seconds", natValue timeoutSeconds)]
  | .write playbookId stepIndex op params executionId signatureB64 =>
    [("control_plane_signature", .text signatureB64), ("execution_id", .text executionId),
      ("kind", .text "write"), ("op", .text op), ("params", .ofObject params),
      ("platform_key", .text platformKey), ("playbook_id", .text playbookId),
      ("step_index", natValue stepIndex), ("task_id", .text taskId),
      ("timeout_seconds", natValue timeoutSeconds)]
  | .health builtin customQuery waitSeconds =>
    [("builtin", ⟨.bool builtin, trivial⟩), ("custom_query", .text customQuery),
      ("kind", .text "health"), ("platform_key", .text platformKey), ("task_id", .text taskId),
      ("timeout_seconds", natValue timeoutSeconds), ("wait_seconds", natValue waitSeconds)]

theorem bodyFields_sorted (platformKey taskId : String) (timeoutSeconds : ℕ) (call : Call) :
    ((bodyFields platformKey taskId timeoutSeconds call).map Prod.fst).Pairwise keyLt := by
  cases call with
  | tool tool args =>
    change ["args", "kind", "platform_key", "task_id", "timeout_seconds", "tool"].Pairwise keyLt
    decide
  | rawCommand command =>
    change ["command", "kind", "platform_key", "task_id", "timeout_seconds"].Pairwise keyLt
    decide
  | write playbookId stepIndex op params executionId signatureB64 =>
    change ["control_plane_signature", "execution_id", "kind", "op", "params", "platform_key",
      "playbook_id", "step_index", "task_id", "timeout_seconds"].Pairwise keyLt
    decide
  | health builtin customQuery waitSeconds =>
    change ["builtin", "custom_query", "kind", "platform_key", "task_id", "timeout_seconds",
      "wait_seconds"].Pairwise keyLt
    decide

/-- The body `_execute` posts. -/
def executeBody (platformKey taskId : String) (timeoutSeconds : ℕ) (call : Call) :
    Object Number :=
  dict (bodyFields platformKey taskId timeoutSeconds call) (bodyFields_sorted _ _ _ _)

/-- The loop body of `execute_playbook`: hash, sign, post. The request waits 60
seconds. -/
def signedBody (platformKey : String) (taskId executionId : Uuid) (playbookId : String)
    (stepIndex : ℕ) (step : Step) : Except String (Object Number) :=
  (L.stepHash executionId playbookId stepIndex step).map fun digest =>
    executeBody platformKey (uuidText taskId) 60
      (.write playbookId stepIndex step.op step.params (uuidText executionId)
        (L.b64encode (S.sign digest)))

end Worker

section Gateway

structure ExecuteRequest (ν : Type) where
  platformKey : String
  taskId : String
  kind : String
  tool : String
  args : Option (Object ν)
  command : String
  timeoutSeconds : UInt32
  playbookId : String
  stepIndex : UInt32
  op : String
  params : Option (Object ν)
  executionId : String
  controlPlaneSignatureB64 : String
  builtin : Option Bool
  customQuery : String
  waitSeconds : UInt32

/-- A field of type `string`; `null` leaves a field as it is. -/
def Libraries.stringField (o : Object Number) (k : String) : Except String String :=
  match get o k with
  | none => .ok ""
  | some ⟨.null, _⟩ => .ok ""
  | some ⟨.str s, _⟩ => .ok s
  | some v => .error (L.mismatch k v.json)

/-- A field of type `uint32`. -/
def Libraries.uint32Field (o : Object Number) (k : String) : Except String UInt32 :=
  match get o k with
  | none => .ok 0
  | some ⟨.null, _⟩ => .ok 0
  | some ⟨.num (.int z), _⟩ =>
    if 0 ≤ z ∧ z < 2^32 then .ok (UInt32.ofNat z.toNat)
    else .error (L.mismatch k (.num (.int z)))
  | some v => .error (L.mismatch k v.json)

/-- A field of type `*bool`. -/
def Libraries.boolField (o : Object Number) (k : String) : Except String (Option Bool) :=
  match get o k with
  | none => .ok none
  | some ⟨.null, _⟩ => .ok none
  | some ⟨.bool b, _⟩ => .ok (some b)
  | some v => .error (L.mismatch k v.json)

/-- A field of type `map[string]any`; the numbers in it become doubles. -/
def Libraries.mapField (o : Object Number) (k : String) : Except String (Option (Object ν)) :=
  match get o k with
  | none => .ok none
  | some ⟨.null, _⟩ => .ok none
  | some ⟨.obj kvs, h⟩ => .ok (some (L.doubles ⟨kvs, h⟩))
  | some v => .error (L.mismatch k v.json)

/-- The fields of `executeRequest` from a decoded object. -/
def Libraries.executeRequest (o : Object Number) : Except String (ExecuteRequest ν) := do
  let platformKey ← L.stringField o "platform_key"
  let taskId ← L.stringField o "task_id"
  let kind ← L.stringField o "kind"
  let tool ← L.stringField o "tool"
  let args ← L.mapField o "args"
  let command ← L.stringField o "command"
  let timeoutSeconds ← L.uint32Field o "timeout_seconds"
  let playbookId ← L.stringField o "playbook_id"
  let stepIndex ← L.uint32Field o "step_index"
  let op ← L.stringField o "op"
  let params ← L.mapField o "params"
  let executionId ← L.stringField o "execution_id"
  let controlPlaneSignatureB64 ← L.stringField o "control_plane_signature"
  let builtin ← L.boolField o "builtin"
  let customQuery ← L.stringField o "custom_query"
  let waitSeconds ← L.uint32Field o "wait_seconds"
  return ⟨platformKey, taskId, kind, tool, args, command, timeoutSeconds, playbookId, stepIndex,
    op, params, executionId, controlPlaneSignatureB64, builtin, customQuery, waitSeconds⟩

/-- `structpb.NewStruct`, which takes every value the decoder makes. -/
def newStruct (o : Object ν) : Object (StructNumber ν) :=
  o.bindNum (fun n => .num (.finite n)) (fun _ => trivial)

inductive TaskKind (ν : Type) where
  | tool (toolName : String) (args : Option (Object (StructNumber ν)))
  | raw (command : String)
  | write (step : RemediationStep ν)
  | health (builtin : Bool) (customQuery : String) (waitSeconds : UInt32)

structure TaskRequest (ν : Type) where
  taskId : String
  timeoutSeconds : UInt32
  kind : TaskKind ν

def Libraries.signature (s : String) : Except String ByteArray :=
  match L.stdDecode s with
  | .ok sig => .ok sig
  | .error _ =>
    match L.rawStdDecode s with
    | .ok sig => .ok sig
    | .error e => .error ("control_plane_signature: " ++ e)

/-- The kind of task a request asks for. -/
def Libraries.taskKind (req : ExecuteRequest ν) : Except String (TaskKind ν) :=
  if req.kind = "tool" ∨ req.kind = "" then
    if req.tool = "" then .error "tool required for kind=tool"
    else .ok (.tool req.tool (req.args.map newStruct))
  else if req.kind = "raw_command" then
    if req.command = "" then .error "command required for kind=raw_command"
    else .ok (.raw req.command)
  else if req.kind = "write" then
    if req.op = "" then .error "op required for kind=write"
    else if req.executionId = "" ∨ req.playbookId = "" then
      .error "execution_id and playbook_id required for kind=write"
    else (L.signature req.controlPlaneSignatureB64).map fun sig =>
      .write ⟨req.executionId, req.playbookId, req.stepIndex, req.op,
        req.params.map newStruct, sig⟩
  else if req.kind = "health" then
    .ok (.health (req.builtin.getD true) req.customQuery req.waitSeconds)
  else .error ("unknown kind " ++ L.quote req.kind)

def Libraries.buildTaskRequest (req : ExecuteRequest ν) : Except String (TaskRequest ν) :=
  (L.taskKind req).map fun kind =>
    ⟨req.taskId, if req.timeoutSeconds = 0 then 60 else req.timeoutSeconds, kind⟩

/-- `io.LimitReader` cuts the body off. -/
def limitReader (n : ℕ) (body : ByteArray) : ByteArray :=
  if body.size ≤ n then body else body.extract 0 n

/-- `handleExecute` up to its call of `Dispatch`, with the platform and the task
it passes on. -/
def Libraries.handleExecute (body : ByteArray) : Except String (String × TaskRequest ν) :=
  match L.decode (limitReader (2^20) body) >>= L.executeRequest with
  | .error e => .error ("invalid json: " ++ e)
  | .ok req =>
    if req.platformKey = "" ∨ req.taskId = "" then .error "platform_key and task_id required"
    else (L.buildTaskRequest req).map fun task => (req.platformKey, task)

end Gateway

section Fields

variable {o : Object Number} {k : String}

theorem stringField_none (h : get o k = none) : L.stringField o k = .ok "" := by
  rw [stringField, h]

theorem stringField_text {s : String} (h : get o k = some (.text s)) :
    L.stringField o k = .ok s := by
  rw [stringField, h]
  rfl

theorem uint32Field_none (h : get o k = none) : L.uint32Field o k = .ok 0 := by
  rw [uint32Field, h]

theorem uint32Field_nat {n : ℕ} (h : get o k = some (natValue n)) (hn : n < 2^32) :
    L.uint32Field o k = .ok (UInt32.ofNat n) := by
  have hz : (0 : ℤ) ≤ n ∧ (n : ℤ) < 2^32 := by omega
  rw [uint32Field, h]
  exact if_pos hz

theorem boolField_none (h : get o k = none) : L.boolField o k = .ok none := by
  rw [boolField, h]

theorem mapField_none (h : get o k = none) : L.mapField o k = .ok none := by
  rw [mapField, h]

theorem mapField_object {m : Object Number} (h : get o k = some (.ofObject m)) :
    L.mapField o k = .ok (some (L.doubles m)) := by
  rw [mapField, h]
  rfl

end Fields

theorem executeRequest_write (platformKey taskId playbookId op executionId sig : String)
    (stepIndex timeoutSeconds : ℕ) (params : Object Number) (hi : stepIndex < 2^32)
    (ht : timeoutSeconds < 2^32) :
    L.executeRequest (executeBody platformKey taskId timeoutSeconds
      (.write playbookId stepIndex op params executionId sig)) =
    .ok ⟨platformKey, taskId, "write", "", none, "", UInt32.ofNat timeoutSeconds, playbookId,
      UInt32.ofNat stepIndex, op, some (L.doubles params), executionId, sig, none, "", 0⟩ := by
  have hget (k : String) := get_dict (bodyFields platformKey taskId timeoutSeconds
    (.write playbookId stepIndex op params executionId sig)) (bodyFields_sorted _ _ _ _) k
  -- the fields that a write does not carry keep their zero values
  rw [executeRequest, executeBody,
    stringField_text L ((hget "platform_key").trans rfl),
    stringField_text L ((hget "task_id").trans rfl),
    stringField_text L ((hget "kind").trans rfl),
    stringField_none L ((hget "tool").trans rfl),
    mapField_none L ((hget "args").trans rfl),
    stringField_none L ((hget "command").trans rfl),
    uint32Field_nat L ((hget "timeout_seconds").trans rfl) ht,
    stringField_text L ((hget "playbook_id").trans rfl),
    uint32Field_nat L ((hget "step_index").trans rfl) hi,
    stringField_text L ((hget "op").trans rfl),
    mapField_object L ((hget "params").trans rfl),
    stringField_text L ((hget "execution_id").trans rfl),
    stringField_text L ((hget "control_plane_signature").trans rfl),
    boolField_none L ((hget "builtin").trans rfl),
    stringField_none L ((hget "custom_query").trans rfl),
    uint32Field_none L ((hget "wait_seconds").trans rfl)]
  rfl

theorem structToMap_newStruct (o : Object ν) : structToMap (some (newStruct o)) = o := by
  apply Object.ext_toJson
  -- a finite number comes back as itself, so nothing turns into a string on the way
  change ((o.toJson.bindNum _).bindNum _) = o.toJson
  rw [bindNum_bindNum]
  exact bindNum_num o.toJson

theorem depth_writeBody (platformKey taskId playbookId op executionId sig : String)
    (stepIndex timeoutSeconds : ℕ) (params : Object Number) :
    (executeBody platformKey taskId timeoutSeconds
      (.write playbookId stepIndex op params executionId sig)).toJson.depth =
      params.toJson.depth + 1 := by
  simp [executeBody, dict, bodyFields, Object.toJson, Json.depth, Json.depthMembers,
    PyValue.text, natValue, PyValue.ofObject]

theorem inDomain_nat (n : ℕ) (h : n < 2^32) : inDomain (.int n) = true := by
  simp only [inDomain, decide_eq_true_eq]
  omega

theorem allNum_writeBody (platformKey taskId playbookId op executionId sig : String)
    (stepIndex timeoutSeconds : ℕ) (params : Object Number) (hi : stepIndex < 2^32)
    (ht : timeoutSeconds < 2^32) (h : params.toJson.allNum inDomain = true) :
    (executeBody platformKey taskId timeoutSeconds
      (.write playbookId stepIndex op params executionId sig)).toJson.allNum inDomain = true := by
  have h' : Json.allNumMembers inDomain params.members = true := h
  simp [executeBody, dict, bodyFields, Object.toJson, Json.allNum, Json.allNumMembers,
    PyValue.text, natValue, PyValue.ofObject, inDomain_nat _ hi, inDomain_nat _ ht, h']

theorem depth_doubles (o : Object Number) : (L.doubles o).toJson.depth = o.toJson.depth :=
  depth_bindNum (fun n => .num (L.float64 n)) (fun _ => rfl) o.toJson

theorem dumps_ok {o : Object Number} {s : String} (h : L.dumps o = .ok s) :
    o.toJson.allNum inDomain = true ∧ o.toJson.depth ≤ 1000 ∧
      P.workerCanonicalize (L.doubles o) = .ok s := by
  unfold dumps at h
  split at h
  · rename_i hdomain
    have hdepth := L.worker_depth (L.doubles o) s h
    rw [depth_doubles] at hdepth
    grind
  · cases h

theorem probeCanonicalize_doubles {o : Object Number} {s : String} (h : L.dumps o = .ok s) :
    P.probeCanonicalize (L.doubles o) = .ok s := by
  obtain ⟨_, hdepth, hworker⟩ := dumps_ok L h
  rw [← depth_doubles L] at hdepth
  obtain ⟨s', hprobe⟩ := L.probe_total (L.doubles o) (by omega)
  -- each conforms to RFC 8785, which leaves no choice
  have htext : s'.toList = s.toList := by
    rw [P.probeConforms _ s' hprobe, P.workerConforms _ s hworker]
  rw [hprobe, String.toList_inj.mp htext]

theorem stepHash_of_dumps (executionId : Uuid) (playbookId : String) (stepIndex : ℕ)
    {step : Step} {s : String} (h : L.dumps step.params = .ok s) :
    ∃ digest, L.stepHash executionId playbookId stepIndex step = .ok digest := by
  rw [stepHash, stepMessage, h]
  exact ⟨_, rfl⟩

def Libraries.delivered (executionId : Uuid) (playbookId : String) (stepIndex : ℕ) (step : Step)
    (sig : ByteArray) : RemediationStep ν :=
  ⟨uuidText executionId, playbookId, UInt32.ofNat stepIndex, step.op,
    some (newStruct (L.doubles step.params)), sig⟩

theorem delivered_hash {executionId : Uuid} {playbookId : String} {stepIndex : ℕ} {step : Step}
    {s : String} (sig : ByteArray) (hi : stepIndex < 2^32) (hs : L.dumps step.params = .ok s) :
    (L.delivered executionId playbookId stepIndex step sig).canonicalStepHash P =
      L.stepHash executionId playbookId stepIndex step := by
  have hindex : (UInt32.ofNat stepIndex).toNat = stepIndex := UInt32.toNat_ofNat_of_lt hi
  have hprobe := probeCanonicalize_doubles L hs
  rw [RemediationStep.canonicalStepHash, RemediationStep.message, stepHash,
    delivered]
  dsimp only
  rw [structToMap_newStruct, hindex, stepMessage, stepMessage, hs, hprobe]

theorem uuidText_ne_empty (u : Uuid) : uuidText u ≠ "" := by
  intro h
  have hl := congrArg String.toList h
  simp [uuidText] at hl

theorem handleExecute_write (platformKey : String) (hp : platformKey ≠ "")
    (taskId executionId : Uuid) (playbookId : String) (hid : playbookId ∈ playbookIds)
    (stepIndex : ℕ) (hi : stepIndex < 2^32) (step : Step) (hop : step.op ∈ writeOps)
    (sig : ByteArray) (body : Object Number)
    (hbody : body = executeBody platformKey (uuidText taskId) 60
      (.write playbookId stepIndex step.op step.params (uuidText executionId) (L.b64encode sig)))
    (hdomain : step.params.toJson.allNum inDomain = true)
    (hdepth : step.params.toJson.depth ≤ 1000) (hsize : (L.encode body).size < 2^20) :
    L.handleExecute (L.encode body) = .ok (platformKey, ⟨uuidText taskId, 60,
      .write (L.delivered executionId playbookId stepIndex step sig)⟩) := by
  have hdecode : L.decode (limitReader (2^20) (L.encode body)) = .ok body := by
    rw [limitReader, if_pos (by omega), hbody]
    apply L.decode_encode
    · exact allNum_writeBody _ _ _ _ _ _ _ _ _ hi (by omega) hdomain
    · rw [depth_writeBody]
      omega
  have hrequest : L.executeRequest body = _ :=
    hbody ▸ executeRequest_write L platformKey (uuidText taskId) playbookId step.op
      (uuidText executionId) (L.b64encode sig) stepIndex 60 step.params hi (by omega)
  have hsig : L.signature (L.b64encode sig) = .ok sig := by
    rw [signature, L.stdDecode_b64encode]
  have hread : L.decode (limitReader (2^20) (L.encode body)) >>= L.executeRequest =
      L.executeRequest body := by
    rw [hdecode]
    rfl
  have htask := uuidText_ne_empty taskId
  have hexec := uuidText_ne_empty executionId
  have hplaybook : playbookId ≠ "" := by
    have hall : ∀ q ∈ playbookIds, q ≠ "" := by decide
    exact hall playbookId hid
  have hop' : step.op ≠ "" := by
    have hall : ∀ q ∈ writeOps, q ≠ "" := by decide
    exact hall step.op hop
  -- none of the checks on empty fields applies
  rw [handleExecute, hread, hrequest]
  simp [hp, htask, buildTaskRequest, taskKind, hop', hexec, hplaybook, hsig,
    Except.map, delivered]

theorem verifyStep_signed (keys : KeyRing)
    (hkey : keys.current = S.publicKey ∨ keys.previous = S.publicKey) (r : RemediationStep ν)
    (digest : ByteArray) (hhash : r.canonicalStepHash P = .ok digest)
    (hsig : r.controlPlaneSignature = S.sign digest) :
    ∃ matched, verifyStep P keys true r = .ok matched := by
  have hv := S.verifies digest
  have hsome : (keys.verify P digest (S.sign digest)).isSome = true := by
    rw [verify_isSome, KeyRing.accepts, any_eq_true]
    -- if another key of the ring should verify it first, the step is taken as well
    refine ⟨S.publicKey, ?_, hv⟩
    rw [KeyRing.trusted, mem_filter]
    refine ⟨?_, by simpa using S.size⟩
    rcases hkey with h | h
    · simp [h]
    · simp [h]
  obtain ⟨matched, hm⟩ := Option.isSome_iff_exists.mp hsome
  refine ⟨matched, ?_⟩
  simp only [verifyStep, Bool.not_true, hhash, hsig, hm]
  rfl

/-- Steps verify end to end: for every playbook, deployment, parameters and
targets of which steps are built, the worker signs each step, the step that
arrives at the probe has the digest that was signed, and a probe that has the
key and writes enabled takes it. -/
theorem signed_steps_verify (R : Runtime) (playbookId deployment : String)
    (params platformConfig : Object Number) (hparams : params.toJson.allNum inDomain = true)
    (htargets : ∀ v, get platformConfig "remediation_targets" = some v →
      v.json.allNum inDomain = true) (steps : List Step)
    (hsteps : executeSteps R playbookId deployment params platformConfig = .ok steps)
    (stepIndex : ℕ) (step : Step) (hstep : steps[stepIndex]? = some step) (s : String)
    (hcanonical : P.workerCanonicalize (L.doubles step.params) = .ok s)
    (platformKey : String) (hplatform : platformKey ≠ "") (taskId executionId : Uuid) :
    ∃ digest body, L.stepHash executionId playbookId stepIndex step = .ok digest ∧
      signedBody L S platformKey taskId executionId playbookId stepIndex step = .ok body ∧
      ((L.encode body).size < 2^20 →
        ∃ r, L.handleExecute (L.encode body) =
            .ok (platformKey, ⟨uuidText taskId, 60, .write r⟩) ∧
          r.canonicalStepHash P = .ok digest ∧
          ∀ keys : KeyRing, keys.current = S.publicKey ∨ keys.previous = S.publicKey →
            ∃ matched, verifyStep P keys true r = .ok matched) := by
  obtain ⟨hid, hlength, hsound⟩ := executeSteps_sound R playbookId deployment
    platformConfig steps hsteps hparams htargets
  obtain ⟨hlt, hget⟩ := List.getElem?_eq_some_iff.mp hstep
  obtain ⟨hop, hdomain⟩ := hsound step (hget ▸ getElem_mem hlt)
  -- no playbook has more than two steps, so the index fits its `uint32`
  have hindex : stepIndex < 2^32 := by omega
  have hdumps : L.dumps step.params = .ok s := by
    rw [dumps, if_pos hdomain, hcanonical]
  obtain ⟨_, hdepth, _⟩ := dumps_ok L hdumps
  obtain ⟨digest, hdigest⟩ := stepHash_of_dumps L executionId playbookId stepIndex hdumps
  have hhash := (delivered_hash L (S.sign digest) hindex hdumps).trans hdigest
  have hbody := congrArg (Except.map fun digest => executeBody platformKey (uuidText taskId) 60
    (.write playbookId stepIndex step.op step.params (uuidText executionId)
      (L.b64encode (S.sign digest)))) hdigest
  refine ⟨digest, _, hdigest, hbody, fun hsize => ?_⟩
  refine ⟨L.delivered executionId playbookId stepIndex step (S.sign digest), ?_, hhash, ?_⟩
  · exact handleExecute_write L platformKey hplatform taskId executionId playbookId hid stepIndex
      hindex step hop (S.sign digest) _ rfl hdomain hdepth hsize
  · intro keys hkey
    exact verifyStep_signed S keys hkey _ digest hhash rfl

def numberIndex (n : Number) : ℕ :=
  Encodable.encode (match n with
    | .int z => Sum.inl z
    | .float q => Sum.inr q : ℤ ⊕ Option ℚ)

theorem numberIndex_injective : Function.Injective numberIndex := by
  intro m n h
  have hs := Encodable.encode_injective h
  grind

def indexText : NumberText Number where
  text n := (numberIndex n).repr.toList
  nonempty _ := decimal.nonempty _
  chars _ := decimal.chars _
  injective := fun _ _ h => numberIndex_injective (repr_toList_inj _ _ h)

def jsonBytes (o : Object Number) : ByteArray :=
  (String.ofList (Json.canonicalText indexText o.toJson)).toByteArray

theorem jsonBytes_injective : Function.Injective jsonBytes := by
  intro o o' h
  have ht := String.toByteArray_inj.mp h
  have hl := congrArg String.toList ht
  grind [String.toList_ofList, Object.ext_toJson, canonicalText_injective]

theorem size_jsonBytes (o : Object Number) :
    (jsonBytes o).size ≤ 4 * (Json.canonicalText indexText o.toJson).length := by
  unfold jsonBytes
  induction Json.canonicalText indexText o.toJson with
  | nil => simp
  | cons c cs ih =>
    have hc := c.utf8Size_le_four
    have hs : String.ofList (c :: cs) = String.singleton c ++ String.ofList cs := by
      apply String.toList_inj.mp
      simp
    have h1 : (String.singleton c).toByteArray.size = c.utf8Size := by
      rw [String.size_toByteArray, String.utf8ByteSize_singleton]
    rw [hs, String.toByteArray_append, ByteArray.size_append, h1, length_cons]
    omega

open Classical in
noncomputable def jsonRead (b : ByteArray) : Except String (Object Number) :=
  if h : ∃ o, jsonBytes o = b then .ok h.choose else .error "unexpected end of JSON input"

theorem jsonRead_jsonBytes (o : Object Number) : jsonRead (jsonBytes o) = .ok o := by
  have h : ∃ o', jsonBytes o' = jsonBytes o := ⟨o, rfl⟩
  rw [jsonRead, dif_pos h, jsonBytes_injective h.choose_spec]

/-- The transparent libraries, with a recursion limit in the worker; a message is
hashed to its length. -/
def bounded : Primitives ℕ where
  number := decimal
  sha256 m := ⟨#[UInt8.ofNat m.size]⟩
  ed25519Verify := transparent.ed25519Verify
  workerCanonicalize o :=
    if o.toJson.depth ≤ 1000 then transparent.workerCanonicalize o else .error "RecursionError"
  probeCanonicalize := transparent.probeCanonicalize
  workerConforms := by
    intro o s h
    split at h
    · exact transparent.workerConforms o s h
    · cases h
  probeConforms := transparent.probeConforms

def byteText (b : ByteArray) : String :=
  String.ofList (b.data.toList.map fun x => Char.ofNat x.toNat)

def textBytes (s : String) : ByteArray := ⟨(s.toList.map fun c => UInt8.ofNat c.toNat).toArray⟩

theorem textBytes_byteText (b : ByteArray) : textBytes (byteText b) = b := by
  have hbyte (x : UInt8) : UInt8.ofNat (Char.ofNat x.toNat).toNat = x := by
    have hx := x.toNat_lt
    rw [Char.toNat_ofNat, if_pos (Or.inl (by omega)), UInt8.ofNat_toNat]
  have hmap : ((fun c => UInt8.ofNat c.toNat) ∘ fun x : UInt8 => Char.ofNat x.toNat) = id :=
    funext hbyte
  rw [textBytes, byteText, String.toList_ofList, map_map, hmap, map_id,
    Array.toArray_toList]

noncomputable def sampleLibraries : Libraries bounded where
  float64
    | .int z => z.toNat
    | .float _ => 0
  encode := jsonBytes
  decode := jsonRead
  mismatch k _ := k
  quote s := s
  b64encode := byteText
  stdDecode s := .ok (textBytes s)
  rawStdDecode s := .ok (textBytes s)
  decode_encode o _ _ := jsonRead_jsonBytes o
  stdDecode_b64encode b := by rw [textBytes_byteText]
  worker_depth o s h := by
    by_contra hd
    simp [bounded, hd] at h
  probe_total _ _ := ⟨_, rfl⟩

def sampleSigner : Signer bounded where
  publicKey := sampleRing.current
  sign := id
  size := rfl
  verifies m := by simp [bounded, transparent]

def sampleRuntime : Runtime where
  str
    | .str s => s
    | _ => ""
  repr
    | .str s => s
    | _ => ""
  order := id
  order_perm := List.Perm.refl
  whitelist := memoryConfigWhitelist
  whitelist_perm := List.Perm.refl _
  updates _ := .error .typeError
  updates_allNum _ _ _ h := by cases h

def sampleConfig : Object Number :=
  let targets := dict [("namespace", natValue 7)] (pairwise_singleton _ _)
  dict [("remediation_targets", .ofObject targets)] (pairwise_singleton _ _)

def sampleStep : Step :=
  k8sRolloutRestart (.text "deployment") (.text "presto-coordinator") (natValue 7)

theorem sampleConfig_steps :
    executeSteps sampleRuntime "presto.restart_coordinator" "k8s" Object.empty sampleConfig =
      .ok [sampleStep] := by
  rfl

def sampleDigest : ByteArray := ⟨#[149]⟩

theorem sampleStep_hash :
    sampleLibraries.stepHash 2 "presto.restart_coordinator" 0 sampleStep = .ok sampleDigest := by
  decide +kernel

def sampleBody : Object Number :=
  executeBody "presto-1" (uuidText 1) 60 (.write "presto.restart_coordinator" 0 sampleStep.op
    sampleStep.params (uuidText 2) (byteText sampleDigest))

theorem sampleBody_size : (sampleLibraries.encode sampleBody).size < 2^20 := by
  have hencode : sampleLibraries.encode = jsonBytes := rfl
  have hlength : (Json.canonicalText indexText sampleBody.toJson).length < 1000 := by
    decide +kernel
  have hsize := size_jsonBytes sampleBody
  rw [hencode]
  omega

theorem signed_steps_verify_sampleStep :
    ∃ r, sampleLibraries.handleExecute (sampleLibraries.encode sampleBody) =
        .ok ("presto-1", ⟨uuidText 1, 60, .write r⟩) ∧
      r.canonicalStepHash bounded = .ok sampleDigest ∧
      ∀ keys : KeyRing, keys.current = sampleSigner.publicKey ∨
        keys.previous = sampleSigner.publicKey →
        ∃ matched, verifyStep bounded keys true r = .ok matched := by
  have hbody : signedBody sampleLibraries sampleSigner "presto-1" 1 2 "presto.restart_coordinator"
      0 sampleStep = .ok sampleBody := by
    rw [signedBody, sampleStep_hash]
    rfl
  have htargets : ∀ v, get sampleConfig "remediation_targets" = some v →
      v.json.allNum inDomain = true := by
    intro v hv
    cases hv
    decide
  obtain ⟨digest, body, h1, h2, h3⟩ := signed_steps_verify sampleLibraries sampleSigner
    sampleRuntime "presto.restart_coordinator" "k8s" Object.empty sampleConfig rfl htargets
    [sampleStep] sampleConfig_steps 0 sampleStep rfl _ rfl "presto-1" (by decide) 1 2
  obtain rfl := Except.ok.inj (sampleStep_hash.symm.trans h1)
  obtain rfl := Except.ok.inj (hbody.symm.trans h2)
  exact h3 sampleBody_size

end DbAgent.StepDelivery
