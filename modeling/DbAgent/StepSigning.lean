import DbAgent.CanonicalText
import DbAgent.Records

/-! Signed write steps: what the worker signs in `execute_playbook` and what
the probe recomputes in `handleRemediationStep` before it executes a write. -/
namespace DbAgent.Signing

open JsonText

variable {ν : Type}

/-- The libraries under both sides: SHA-256, ed25519 and the two canonicalizers,
of which conformance to RFC 8785 is assumed. A canonicalizer may refuse. -/
structure Primitives (ν : Type) where
  number : NumberText ν
  sha256 : ByteArray → ByteArray
  ed25519Verify : ByteArray → ByteArray → ByteArray → Bool
  workerCanonicalize : Object ν → Except String String
  probeCanonicalize : Object ν → Except String String
  workerConforms : ∀ o s, workerCanonicalize o = .ok s →
    s.toList = Json.canonicalText number o.toJson
  probeConforms : ∀ o s, probeCanonicalize o = .ok s →
    s.toList = Json.canonicalText number o.toJson

def joinParts : List ByteArray → ByteArray
  | [] => ByteArray.empty
  | [p] => p
  | p :: q :: ps => p ++ ("|".toByteArray ++ joinParts (q :: ps))

def stepMessage (canonicalize : Object ν → Except String String)
    (executionId playbookId : String) (stepIndex : ℕ) (op : String) (params : Object ν) :
    Except String ByteArray :=
  (canonicalize params).map fun canonicalParams =>
    joinParts [executionId.toByteArray, playbookId.toByteArray, stepIndex.repr.toByteArray,
      op.toByteArray, canonicalParams.toByteArray]

/-- `str(uuid)`. -/
def uuidText (u : Uuid) : String :=
  let digits (first count : ℕ) : List Char :=
    (List.range count).map fun i => hexDigit (u.toNat/16^(31-(first+i)))
  String.ofList (digits 0 8 ++ '-' :: (digits 8 4 ++ '-' :: (digits 12 4 ++
    '-' :: (digits 16 4 ++ '-' :: digits 20 12))))

/-- The keys of `PLAYBOOK_STEPS`. -/
def playbookIds : List String :=
  ["presto.kill_query", "presto.update_config_restart_workers", "presto.restart_coordinator",
    "presto.restart_worker", "presto.adjust_memory_config"]

def writeOps : List String :=
  ["k8s_patch_configmap", "k8s_rollout_restart", "k8s_delete_pod", "swarm_update_service_env",
    "swarm_restart_service", "presto_kill_query"]

/-- A step `execute_playbook` signs. -/
structure SignedStep (ν : Type) where
  executionId : Uuid
  playbookId : String
  stepIndex : ℕ
  op : String
  params : Object ν
  playbook_mem : playbookId ∈ playbookIds
  op_mem : op ∈ writeOps

/-- What `canonical_step_hash` hashes for a step. -/
def SignedStep.message (P : Primitives ν) (t : SignedStep ν) : Except String ByteArray :=
  stepMessage P.workerCanonicalize (uuidText t.executionId) t.playbookId t.stepIndex t.op t.params

def SignedStep.canonicalStepHash (P : Primitives ν) (t : SignedStep ν) :
    Except String ByteArray :=
  (t.message P).map P.sha256

/-- The number of a `structpb.Value`: a double, which need not be finite. -/
inductive StructNumber (ν : Type) where
  | finite (n : ν)
  | nan | posInf | negInf

/-- `Value.AsInterface` turns the numbers JSON lacks into strings. -/
def StructNumber.asInterface : StructNumber ν → Json ν
  | .finite n => .num n
  | .nan => .str "NaN"
  | .posInf => .str "Infinity"
  | .negInf => .str "-Infinity"

theorem canonical_asInterface (n : StructNumber ν) : n.asInterface.Canonical := by
  cases n <;> simp [StructNumber.asInterface, Json.Canonical]

/-- `structToMap`; a missing struct is the empty map. -/
def structToMap (s : Option (Object (StructNumber ν))) : Object ν :=
  match s with
  | none => Object.empty
  | some o => o.bindNum StructNumber.asInterface canonical_asInterface

structure RemediationStep (ν : Type) where
  executionId : String
  playbookId : String
  stepIndex : UInt32
  op : String
  params : Option (Object (StructNumber ν))
  controlPlaneSignature : ByteArray

/-- What `CanonicalStepHash` hashes for a request. -/
def RemediationStep.message (P : Primitives ν) (r : RemediationStep ν) :
    Except String ByteArray :=
  stepMessage P.probeCanonicalize r.executionId r.playbookId r.stepIndex.toNat r.op
    (structToMap r.params)

def RemediationStep.canonicalStepHash (P : Primitives ν) (r : RemediationStep ν) :
    Except String ByteArray :=
  (r.message P).map P.sha256

/-- `KeyRing`; no key is the empty one. -/
structure KeyRing where
  current : ByteArray
  previous : ByteArray

inductive KeyMatched where
  | current | previous
  deriving DecidableEq, Repr

def KeyRing.verify (P : Primitives ν) (k : KeyRing) (message signature : ByteArray) :
    Option KeyMatched :=
  if k.current.size = 32 ∧ P.ed25519Verify k.current message signature = true then some .current
  else if k.previous.size = 32 ∧ P.ed25519Verify k.previous message signature = true then
    some .previous
  else none

/-- `VerifyStep`; an error is the `Reason` of a result that is not OK. -/
def verifyStep (P : Primitives ν) (keys : KeyRing) (writeEnabled : Bool)
    (r : RemediationStep ν) : Except String KeyMatched :=
  if !writeEnabled then .error "write_enabled=false for this deployment"
  else match r.canonicalStepHash P with
    | .error e =>
      .error ("canonicalization failed: writeops: canonicalize params: " ++ e)
    | .ok hash =>
      match keys.verify P hash r.controlPlaneSignature with
      | none => .error "signature verification failed"
      | some matched => .ok matched

/-- The step handed to `ExecuteWrite`. -/
structure ExecutedStep (ν : Type) where
  playbookId : String
  stepIndex : UInt32
  op : String
  params : Object ν
  executionId : String
  signatureOK : Bool

/-- `handleRemediationStep` up to its call of `ExecuteWrite`. -/
def handleRemediationStep (P : Primitives ν) (keys : KeyRing) (writeEnabled : Bool)
    (r : RemediationStep ν) : Except String (ExecutedStep ν) :=
  match verifyStep P keys writeEnabled r with
  | .error reason => .error ("write rejected: " ++ reason)
  | .ok _ => .ok ⟨r.playbookId, r.stepIndex, r.op, structToMap r.params, r.executionId, true⟩

end DbAgent.Signing
