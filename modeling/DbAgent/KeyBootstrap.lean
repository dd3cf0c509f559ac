import Mathlib
import DbAgent.TransitionSystem
import DbAgent.Records

/-! `bootstrap_from_k8s_secret`: jobs that race to create one Secret, each with
its own file system, and load the winner's key where they lose. -/
namespace DbAgent.KeyBootstrap

open Transition

structure Library where
  publicKey : ByteArray → ByteArray
  b64encode : ByteArray → ByteArray
  b64decode : ByteArray → Option ByteArray
  decode_encode : ∀ b, b64decode (b64encode b) = some b

variable (L : Library)

/-- The files `key_path` and `key_path + ".pub"` of a job. -/
structure Files where
  key : Option ByteArray
  pub : Option ByteArray

/-- The `data` of the Secret: `ed25519.key` and `ed25519.key.pub`. -/
structure SecretData where
  key : Option ByteArray
  pub : Option ByteArray

/-- The file operations that fail in one stretch of a job. A write that is not
atomic and fails leaves the content it is given here. -/
structure Faults where
  readKey : Bool
  createKey : Bool
  readPub : Bool
  writePub : Bool
  readBack : Bool
  storeKey : Option (Option ByteArray)
  restorePub : Option (Option ByteArray)

inductive Raised where
  | osError | valueError
  deriving DecidableEq, Repr

/-- `_write_public_key_sidecar`: only a read that proves the sidecar right
saves the write. -/
def writePublicKeySidecar (f : Faults) (fs : Files) (publicKey : ByteArray) :
    Files × Option Raised :=
  let desired := L.b64encode publicKey
  if fs.pub = some desired ∧ f.readPub = false then (fs, none)
  else if f.writePub then (fs, some .osError)
  else ({ fs with pub := some desired }, none)

/-- `bootstrap_signing_key`: load the key that exists, or create `fresh`. -/
def bootstrapSigningKey (f : Faults) (fresh : ByteArray) (fs : Files) : Files × Option Raised :=
  match fs.key with
  | some raw =>
    if f.readKey then (fs, some .osError)
    else if raw.size ≠ 32 then (fs, some .valueError)
    else writePublicKeySidecar L f fs (L.publicKey raw)
  | none =>
    if f.createKey then (fs, some .osError)
    else writePublicKeySidecar L f { fs with key := some fresh } (L.publicKey fresh)

/-- How a job ends: its exit code, or an exception that leaves the script. -/
inductive Ended where
  | returned (code : ℕ)
  | crashed
  deriving DecidableEq, Repr

/-- `if not raw_b64`, `if pub_b64`: an empty text is false. -/
def truthy (t : Option ByteArray) : Option ByteArray :=
  t.filter (fun b => b.size ≠ 0)

/-- The `.pub` file as `_load_secret_to_path` restores it; whatever goes wrong
there is swallowed. -/
def restorePub (f : Faults) (data : SecretData) (pub : Option ByteArray) : Option ByteArray :=
  match truthy data.pub with
  | none => pub
  | some text =>
    match L.b64decode text, f.restorePub with
    | none, _ => pub
    | some _, some content => content
    | some bytes, none => some bytes

def loadSecretToPath (f : Faults) (fresh : ByteArray) (data : SecretData) (fs : Files) :
    Files × Ended :=
  match truthy data.key with
  | none => (fs, .returned 1)
  | some text =>
    match L.b64decode text with
    | none => (fs, .returned 1)
    | some raw =>
      match f.storeKey with
      | some content => ({ fs with key := content }, .crashed)
      | none =>
        match bootstrapSigningKey L f fresh ⟨some raw, restorePub L f data fs.pub⟩ with
        | (fs, none) => (fs, .returned 0)
        | (fs, some .osError) => (fs, .returned 1)
        | (fs, some .valueError) => (fs, .crashed)

inductive Pc where
  | start
  | creating
  | posting (data : SecretData)
  | conflict
  | loading (data : SecretData)
  | ended (e : Ended)

structure Job where
  files : Files
  pc : Pc

/-- `_create_secret` up to its POST. -/
def createSecret (f : Faults) (fresh : ByteArray) (fs : Files) : Job :=
  match bootstrapSigningKey L f fresh fs with
  | (fs, some .osError) => ⟨fs, .ended (.returned 1)⟩
  | (fs, some .valueError) => ⟨fs, .ended .crashed⟩
  | (fs, none) =>
    match fs.key, f.readBack with
    | some raw, false =>
      ⟨fs, .posting ⟨some (L.b64encode raw), some (L.b64encode (fs.pub.getD ByteArray.empty))⟩⟩
    | _, _ => ⟨fs, .ended .crashed⟩

/-- The answer of the API: the one its state calls for, an error status or a
broken connection, or a success whose body cannot be read. An error answer to
a POST may come from a request that was applied. -/
inductive Answer where
  | regular
  | failure (applied : Bool)
  | garbled

inductive Event where
  | refuse (job : ℕ)
  | get (job : ℕ) (a : Answer)
  | create (job : ℕ) (f : Faults) (fresh : ByteArray)
  | post (job : ℕ) (a : Answer)
  | load (job : ℕ) (f : Faults) (fresh : ByteArray)

structure World where
  secret : Option SecretData
  jobs : ℕ → Job

open World

def World.setJob (w : World) (j : ℕ) (job : Job) : World :=
  { w with jobs := Function.update w.jobs j job }

/-- The job goes on at `pc` with its files as they are. -/
def World.goto (w : World) (j : ℕ) (pc : Pc) : World :=
  w.setJob j ⟨(w.jobs j).files, pc⟩

def World.get (w : World) (j : ℕ) (a : Answer) (missing : Pc) : World :=
  match a, w.secret with
  | .regular, some data => w.goto j (.loading data)
  | .regular, none => w.goto j missing
  | .failure _, _ => w.goto j (.ended (.returned 1))
  | .garbled, _ => w.goto j (.ended .crashed)

def World.post (w : World) (j : ℕ) (a : Answer) (data : SecretData) : World :=
  match a, w.secret with
  | .regular, some _ => w.goto j .conflict
  | .regular, none => { w.goto j (.ended (.returned 0)) with secret := some data }
  | .failure true, none => { w.goto j (.ended (.returned 1)) with secret := some data }
  | .failure _, _ => w.goto j (.ended (.returned 1))
  -- the body of a POST's answer is not parsed
  | .garbled, some _ => w.goto j .conflict
  | .garbled, none => { w.goto j (.ended (.returned 0)) with secret := some data }

def World.step (w : World) : Event → Option World
  | .refuse j =>
    match (w.jobs j).pc with
    | .start => some (w.goto j (.ended (.returned 1)))
    | _ => none
  | .get j a =>
    match (w.jobs j).pc with
    | .start => some (w.get j a .creating)
    | .conflict => some (w.get j a (.ended (.returned 1)))
    | _ => none
  | .create j f fresh =>
    match (w.jobs j).pc with
    | .creating =>
      if fresh.size = 32 then some (w.setJob j (createSecret L f fresh (w.jobs j).files))
      else none
    | _ => none
  | .post j a =>
    match (w.jobs j).pc with
    | .posting data => some (w.post j a data)
    | _ => none
  | .load j f fresh =>
    match (w.jobs j).pc with
    | .loading data =>
      let r := loadSecretToPath L f fresh data (w.jobs j).files
      some (w.setJob j ⟨r.1, .ended r.2⟩)
    | _ => none

def bootstraps : System World Event where
  init w := ∀ j, (w.jobs j).pc = .start
  step := step L

/-- The files hold `raw` and its public key. -/
def KeyPair (fs : Files) (raw : ByteArray) : Prop :=
  fs.key = some raw ∧ fs.pub = some (L.b64encode (L.publicKey raw))

def Holds (secret : Option SecretData) (fs : Files) : Prop :=
  ∃ data text raw, secret = some data ∧ data.key = some text ∧
    L.b64decode text = some raw ∧ KeyPair L fs raw

theorem sidecar_ok (f : Faults) (fs fs' : Files) (raw : ByteArray) (hkey : fs.key = some raw)
    (h : writePublicKeySidecar L f fs (L.publicKey raw) = (fs', none)) : KeyPair L fs' raw := by
  unfold writePublicKeySidecar at h
  dsimp only at h
  split_ifs at h with hsame
  · cases h
    exact ⟨hkey, hsame.1⟩
  · cases h
  · cases h
    exact ⟨hkey, rfl⟩

theorem bootstrapSigningKey_load (f : Faults) (fresh raw : ByteArray) (fs fs' : Files)
    (hkey : fs.key = some raw) (h : bootstrapSigningKey L f fresh fs = (fs', none)) :
    KeyPair L fs' raw := by grind [bootstrapSigningKey, sidecar_ok]

theorem bootstrapSigningKey_ok (f : Faults) (fresh : ByteArray) (fs fs' : Files)
    (h : bootstrapSigningKey L f fresh fs = (fs', none)) : ∃ raw, KeyPair L fs' raw := by
  cases hkey : fs.key with
  | some raw => exact ⟨raw, bootstrapSigningKey_load L f fresh raw fs fs' hkey h⟩
  | none =>
    unfold bootstrapSigningKey at h
    rw [hkey] at h
    dsimp only at h
    split_ifs at h
    · cases h
    · exact ⟨fresh, sidecar_ok L f _ fs' fresh rfl h⟩

theorem loadSecretToPath_ok (f : Faults) (fresh : ByteArray) (data : SecretData) (fs : Files)
    (h : (loadSecretToPath L f fresh data fs).2 = .returned 0) :
    Holds L (some data) (loadSecretToPath L f fresh data fs).1 := by
  unfold loadSecretToPath at h ⊢
  cases hkey : truthy data.key with
  | none =>
    rw [hkey] at h
    cases h
  | some text =>
    have htext : data.key = some text := (Option.filter_eq_some_iff.mp hkey).1
    rw [hkey] at h
    cases hraw : L.b64decode text with
    | none =>
      simp only [hraw] at h
      cases h
    | some raw =>
      cases hstore : f.storeKey with
      | some content => grind
      | none =>
        simp only [hraw, hstore] at h ⊢
        cases hb : bootstrapSigningKey L f fresh ⟨some raw, restorePub L f data fs.pub⟩ with
        | mk fs' e =>
          rw [hb] at h
          cases e with
          | none =>
            have hpair := bootstrapSigningKey_load L f fresh raw _ fs' rfl hb
            exact ⟨data, text, raw, rfl, htext, hraw, hpair⟩
          | some e => cases e <;> cases h

def Sound (secret : Option SecretData) (job : Job) : Prop :=
  match job.pc with
  | .posting data => ∃ raw, data.key = some (L.b64encode raw) ∧ KeyPair L job.files raw
  | .loading data => secret = some data
  | .ended (.returned 0) => Holds L secret job.files
  | _ => True

theorem sound_createSecret (secret : Option SecretData) (f : Faults) (fresh : ByteArray)
    (fs : Files) : Sound L secret (createSecret L f fresh fs) := by
  unfold createSecret
  cases hb : bootstrapSigningKey L f fresh fs with
  | mk fs' e =>
    cases e with
    | some e => cases e <;> exact trivial
    | none =>
      obtain ⟨raw, hpair⟩ := bootstrapSigningKey_ok L f fresh fs fs' hb
      dsimp only
      rw [hpair.1]
      cases f.readBack with
      | false => exact ⟨raw, rfl, hpair⟩
      | true => exact trivial

theorem sound_of_created (data : SecretData) (job : Job) (h : Sound L none job) :
    Sound L (some data) job := by
  obtain ⟨fs, pc⟩ := job
  cases pc with
  | posting d => exact h
  | loading d => cases h
  | ended e =>
    match e with
    | .returned 0 =>
      obtain ⟨_, _, _, hs, -⟩ := h
      cases hs
    | .returned (_ + 1) => exact trivial
    | .crashed => exact trivial
  | _ => exact trivial

def Consistent (w : World) : Prop :=
  ∀ j, Sound L w.secret (w.jobs j)

theorem consistent_setJob (w : World) (j : ℕ) (job : Job) (hw : Consistent L w)
    (h : Sound L w.secret job) : Consistent L (w.setJob j job) := by
  apply (Function.forall_update_iff w.jobs fun _ job' => Sound L w.secret job').mpr
  exact ⟨h, fun i _ => hw i⟩

theorem consistent_created (w : World) (j : ℕ) (data : SecretData) (e : Ended)
    (hw : Consistent L w) (hnone : w.secret = none) (hpc : (w.jobs j).pc = .posting data) :
    Consistent L { w.goto j (.ended e) with secret := some data } := by
  have hpost : Sound L w.secret (w.jobs j) := hw j
  unfold Sound at hpost
  rw [hpc] at hpost
  obtain ⟨raw, hdata, hpair⟩ := hpost
  intro i
  unfold goto setJob
  by_cases hi : i = j
  · subst hi
    simp only [Function.update_self]
    match e with
    | .returned 0 => exact ⟨data, _, raw, rfl, hdata, L.decode_encode raw, hpair⟩
    | .returned (_ + 1) => exact trivial
    | .crashed => exact trivial
  · simp only [Function.update_of_ne hi]
    apply sound_of_created L data
    rw [← hnone]
    exact hw i

theorem consistent_get (w : World) (j : ℕ) (a : Answer) (missing : Pc) (hw : Consistent L w)
    (hm : missing = .creating ∨ missing = .ended (.returned 1)) :
    Consistent L (w.get j a missing) := by
  unfold World.get
  split
  · rename_i data hsecret
    exact consistent_setJob L w j _ hw hsecret
  · apply consistent_setJob L w j _ hw
    rcases hm with rfl | rfl <;> exact trivial
  · exact consistent_setJob L w j _ hw trivial
  · exact consistent_setJob L w j _ hw trivial

theorem consistent_post (w : World) (j : ℕ) (a : Answer) (data : SecretData)
    (hw : Consistent L w) (hpc : (w.jobs j).pc = .posting data) :
    Consistent L (w.post j a data) := by
  unfold post
  split
  · exact consistent_setJob L w j _ hw trivial
  · exact consistent_created L w j data _ hw ‹_› hpc
  · exact consistent_created L w j data _ hw ‹_› hpc
  · exact consistent_setJob L w j _ hw trivial
  · exact consistent_setJob L w j _ hw trivial
  · exact consistent_created L w j data _ hw ‹_› hpc

theorem consistent_step (w w' : World) (e : Event) (hw : Consistent L w)
    (h : w.step L e = some w') : Consistent L w' := by
  cases e with
  | refuse j =>
    simp only [step] at h
    split at h <;> cases h
    exact consistent_setJob L w j _ hw trivial
  | get j a => grind [step, consistent_get]
  | create j f fresh => grind [step, consistent_setJob, sound_createSecret]
  | post j a => grind [step, consistent_post]
  | load j f fresh =>
    simp only [step] at h
    split at h
    · rename_i data hpc
      cases h
      apply consistent_setJob L w j _ hw
      have hsecret : Sound L w.secret (w.jobs j) := hw j
      unfold Sound at hsecret ⊢
      rw [hpc] at hsecret
      dsimp only at hsecret ⊢
      split
      · rename_i hend
        cases hend
      · rename_i hend
        cases hend
      · grind [loadSecretToPath_ok]
      · exact trivial
    · cases h

theorem consistent_reachable (w : World) (h : (bootstraps L).Reachable w) : Consistent L w := by
  apply reachable_invariant (bootstraps L) (Consistent L) _ _ w h
  · intro w hw j
    unfold Sound
    rw [hw j]
    exact trivial
  · intro w e w' hw hs
    exact consistent_step L w w' e hw hs

/-- Every job that returns 0 ends with the key of the Secret and the public key
that belongs to it, so any two of them end with the same key. -/
theorem bootstrap_agreement (w : World) (h : (bootstraps L).Reachable w) (i : ℕ)
    (hi : (w.jobs i).pc = .ended (.returned 0)) :
    Holds L w.secret (w.jobs i).files ∧
      ∀ j, (w.jobs j).pc = .ended (.returned 0) →
        (w.jobs i).files.key = (w.jobs j).files.key := by
  have hholds (j : ℕ) (hj : (w.jobs j).pc = .ended (.returned 0)) :
      Holds L w.secret (w.jobs j).files := by
    have hs : Sound L w.secret (w.jobs j) := consistent_reachable L w h j
    unfold Sound at hs
    rwa [hj] at hs
  refine ⟨hholds i hi, ?_⟩
  intro j hj
  obtain ⟨data, text, raw, hs, ht, hr, hk, -⟩ := hholds i hi
  obtain ⟨data', text', raw', hs', ht', hr', hk', -⟩ := hholds j hj
  grind

def plainLibrary : Library := ⟨id, id, some, fun _ => rfl⟩

def noFaults : Faults := ⟨false, false, false, false, false, none, none⟩

def sampleKey (b : UInt8) : ByteArray := ⟨Array.replicate 32 b⟩

def sampleRace : List Event :=
  [.get 0 .regular, .get 1 .regular, .create 0 noFaults (sampleKey 1),
    .create 1 noFaults (sampleKey 2), .post 0 .regular, .post 1 .regular, .get 1 .regular,
    .load 1 noFaults (sampleKey 3)]

def sampleStart : World := ⟨none, fun _ => ⟨⟨none, none⟩, .start⟩⟩

theorem bootstrap_agreement_sampleRace :
    ∃ w, (bootstraps plainLibrary).run sampleStart sampleRace = some w ∧
      (w.jobs 1).pc = .ended (.returned 0) ∧ (w.jobs 0).pc = .ended (.returned 0) ∧
      Holds plainLibrary w.secret (w.jobs 1).files ∧
      (w.jobs 1).files.key = (w.jobs 0).files.key := by
  have hreach := run_reachable (bootstraps plainLibrary) sampleRace sampleStart _
    (.init fun _ => rfl) rfl
  have hagree := bootstrap_agreement plainLibrary _ hreach 1 rfl
  exact ⟨_, rfl, rfl, rfl, hagree.1, hagree.2 0 rfl⟩

end DbAgent.KeyBootstrap
