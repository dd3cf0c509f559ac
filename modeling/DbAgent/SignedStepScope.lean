import Mathlib.Logic.Function.Basic
import DbAgent.WriteAuthenticity

/-! What a signed step binds when it is delivered again, later, or to another
probe: the probes of a fleet, their key rings, and the writes they execute. -/
namespace DbAgent.Signing

open JsonText

variable {ν : Type}

/-- A deployed probe. It has its key ring and keeps nothing about earlier tasks. -/
structure Probe where
  platformKey : String
  writeEnabled : Bool
  keys : KeyRing

/-- A step that `execute_playbook` has signed and dispatched to a platform. -/
structure IssuedStep (ν : Type) where
  step : SignedStep ν
  platformKey : String
  signature : ByteArray

/-- The probes, and the steps handed to `ExecuteWrite` so far, each with the
platform of the probe that did it. -/
structure Fleet (ν : Type) where
  probes : ℕ → Probe
  executed : List (String × ExecutedStep ν)

inductive FleetEvent (ν : Type) where
  | deliver (i : ℕ) (r : RemediationStep ν)
  | install (i : ℕ) (keys : KeyRing)

def withKeys (probes : ℕ → Probe) (i : ℕ) (keys : KeyRing) : ℕ → Probe :=
  Function.update probes i { probes i with keys := keys }

/-- A task is handled by the probe that receives it, from the flag and the ring
it has at that time. -/
def Fleet.step (P : Primitives ν) (f : Fleet ν) : FleetEvent ν → Fleet ν
  | .deliver i r =>
    match handleRemediationStep P (f.probes i).keys (f.probes i).writeEnabled r with
    | .ok x => { f with executed := f.executed ++ [((f.probes i).platformKey, x)] }
    | .error _ => f
  | .install i keys => { f with probes := withKeys f.probes i keys }

def Fleet.run (P : Primitives ν) (f : Fleet ν) (es : List (FleetEvent ν)) : Fleet ν :=
  es.foldl (Fleet.step P) f

def IssuedStep.Delivers (P : Primitives ν) (t : IssuedStep ν) (r : RemediationStep ν) : Prop :=
  r.message P = t.step.message P ∧ r.controlPlaneSignature = t.signature

/-- What `ExecuteWrite` is handed for a signed step. -/
def SignedStep.toExecuted (t : SignedStep ν) : ExecutedStep ν :=
  ⟨t.playbookId, UInt32.ofNat t.stepIndex, t.op, t.params, uuidText t.executionId, true⟩

def KeyRing.accepts (P : Primitives ν) (k : KeyRing) (hash sig : ByteArray) : Bool :=
  k.trusted.any (fun key => P.ed25519Verify key hash sig)

def Probe.accepts (P : Primitives ν) (p : Probe) (hash sig : ByteArray) : Bool :=
  p.writeEnabled && p.keys.accepts P hash sig

def accepting (P : Primitives ν) (hash sig : ByteArray) :
    (ℕ → Probe) → List (FleetEvent ν) → List String
  | _, [] => []
  | probes, .deliver i _ :: es =>
    if (probes i).accepts P hash sig then
      (probes i).platformKey :: accepting P hash sig probes es
    else accepting P hash sig probes es
  | probes, .install i keys :: es => accepting P hash sig (withKeys probes i keys) es

theorem verify_isSome (P : Primitives ν) (k : KeyRing) (hash sig : ByteArray) :
    (k.verify P hash sig).isSome = k.accepts P hash sig := by
  grind [KeyRing.verify, KeyRing.accepts, KeyRing.trusted]

theorem toExecuted_of_message (P : Primitives ν) (t : SignedStep ν) (r : RemediationStep ν)
    (m : ByteArray) (ht : t.message P = .ok m) (hr : r.message P = .ok m) :
    (⟨r.playbookId, r.stepIndex, r.op, structToMap r.params, r.executionId, true⟩ :
      ExecutedStep ν) = t.toExecuted := by
  grind [message_inj, UInt32.ofNat_toNat, SignedStep.toExecuted]

theorem handleRemediationStep_delivers (P : Primitives ν) (t : IssuedStep ν) (m : ByteArray)
    (ht : t.step.message P = .ok m) (p : Probe) (r : RemediationStep ν) (hr : t.Delivers P r) :
    (p.accepts P (P.sha256 m) t.signature = true ∧
      handleRemediationStep P p.keys p.writeEnabled r = .ok t.step.toExecuted) ∨
    (p.accepts P (P.sha256 m) t.signature = false ∧
      ∃ e, handleRemediationStep P p.keys p.writeEnabled r = .error e) := by
  have hm : r.message P = .ok m := hr.1.trans ht
  have hhash : r.canonicalStepHash P = .ok (P.sha256 m) := by
    rw [RemediationStep.canonicalStepHash, hm]
    rfl
  have hx := toExecuted_of_message P t.step r m ht hm
  unfold Probe.accepts
  rw [← verify_isSome]
  unfold handleRemediationStep verifyStep
  rw [hhash, hr.2]
  grind

theorem fleet_step_executed (P : Primitives ν) (t : IssuedStep ν) (m : ByteArray)
    (ht : t.step.message P = .ok m) (f : Fleet ν) (i : ℕ) (r : RemediationStep ν)
    (hr : t.Delivers P r) :
    f.step P (.deliver i r) =
      if (f.probes i).accepts P (P.sha256 m) t.signature then
        { f with executed := f.executed ++ [((f.probes i).platformKey, t.step.toExecuted)] }
      else f := by grind [handleRemediationStep_delivers, Fleet.step]

/-- Over every sequence of deliveries of a signed step, to any probes and with
rings replaced in between, `ExecuteWrite` is handed that step once for each
delivery that reaches a probe with writes enabled and a ring that verifies the
signature, and for no other. -/
theorem signed_step_scope (P : Primitives ν) (t : IssuedStep ν) (m : ByteArray)
    (ht : t.step.message P = .ok m) (f : Fleet ν) (es : List (FleetEvent ν))
    (hes : ∀ i r, .deliver i r ∈ es → t.Delivers P r) :
    (f.run P es).executed = f.executed ++
      (accepting P (P.sha256 m) t.signature f.probes es).map (·, t.step.toExecuted) := by
  induction es generalizing f with
  | nil => simp [Fleet.run, accepting]
  | cons e es ih =>
    have htail : ∀ i r, .deliver i r ∈ es → t.Delivers P r :=
      fun i r h => hes i r (List.mem_cons_of_mem e h)
    have hrun : f.run P (e :: es) = (f.step P e).run P es := rfl
    rw [hrun, ih (f.step P e) htail]
    cases e with
    | install i keys => rfl
    | deliver i r =>
      have hstep := fleet_step_executed P t m ht f i r (hes i r List.mem_cons_self)
      -- the probes are those before the delivery in both cases
      cases ha : (f.probes i).accepts P (P.sha256 m) t.signature with
      | false =>
        rw [ha] at hstep
        simp [hstep, accepting, ha]
      | true =>
        rw [ha] at hstep
        simp [hstep, accepting, ha]

def sampleIssued : IssuedStep ℕ :=
  ⟨sampleSigned, "presto-us", sampleDelivery.controlPlaneSignature⟩

def sampleFleet : Fleet ℕ where
  probes := fun i => ⟨if i = 0 then "presto-us" else "presto-eu", true, sampleRing⟩
  executed := []

/-- Two deliveries to the wrong probe: the step is executed twice, and never by
the probe of the platform it was issued for. -/
theorem signed_step_replayed :
    ∃ es : List (FleetEvent ℕ), (∀ i r, .deliver i r ∈ es → sampleIssued.Delivers transparent r) ∧
      (sampleFleet.run transparent es).executed.map Prod.fst = ["presto-eu", "presto-eu"] ∧
      sampleIssued.platformKey = "presto-us" := by
  refine ⟨[.deliver 1 sampleDelivery, .deliver 1 sampleDelivery], ?_, ?_, rfl⟩
  · intro i r h
    obtain rfl : r = sampleDelivery := by simp at h; exact h.2
    exact ⟨sampleDelivery_message, rfl⟩
  · simp only [Fleet.run, List.foldl_cons, List.foldl_nil, Fleet.step, sampleFleet,
      sampleDelivery_executed]
    rfl

def sampleDeliveries : List (FleetEvent ℕ) :=
  [.deliver 0 sampleDelivery, .install 1 ⟨ByteArray.empty, ByteArray.empty⟩,
    .deliver 1 sampleDelivery, .deliver 0 sampleDelivery]

theorem signed_step_scope_sampleFleet :
    (sampleFleet.run transparent sampleDeliveries).executed =
      [("presto-us", sampleSigned.toExecuted), ("presto-us", sampleSigned.toExecuted)] := by
  have hes : ∀ i r, .deliver i r ∈ sampleDeliveries → sampleIssued.Delivers transparent r := by
    intro i r h
    obtain rfl : r = sampleDelivery := by
      simp only [sampleDeliveries, List.mem_cons, FleetEvent.deliver.injEq, reduceCtorEq,
        List.not_mem_nil, or_false, false_or] at h
      rcases h with h | h | h <;> exact h.2
    exact ⟨sampleDelivery_message, rfl⟩
  have haccept : ∀ sig : ByteArray, accepting transparent sig sig sampleFleet.probes
      sampleDeliveries = ["presto-us", "presto-us"] := by
    intro sig
    have hsize : (⟨Array.replicate 32 0⟩ : ByteArray).size = 32 := rfl
    simp [accepting, sampleDeliveries, sampleFleet, withKeys, Probe.accepts, KeyRing.accepts,
      KeyRing.trusted, sampleRing, transparent, hsize]
  rw [signed_step_scope transparent sampleIssued sampleDelivery.controlPlaneSignature rfl
    sampleFleet sampleDeliveries hes]
  exact congrArg (List.map (·, sampleSigned.toExecuted)) (haccept sampleIssued.signature)

end DbAgent.Signing
