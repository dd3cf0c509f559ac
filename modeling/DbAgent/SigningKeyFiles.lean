import DbAgent.CrashProgram
import DbAgent.KeyBootstrap

/-! The signing key on disk: `bootstrap_signing_key` one file operation at a
time, and what calls of it that were killed leave for the next one. -/
namespace DbAgent.KeyFiles

open CrashProgram Transition KeyBootstrap Prog
open KeyBootstrap (Library)

/-- `key_path` with suffixes: none, `.tmp`, `.pub` and `.pub.tmp`. -/
inductive File where
  | key | keyTmp | pub | pubTmp
  deriving DecidableEq, Repr

abbrev KeyDir := Directory File ByteArray

structure SigningKey where
  bytes : ByteArray
  size_eq : bytes.size = 32

inductive Raised where
  | fileNotFound (f : File)
  | fileExists (f : File)
  | valueError
  deriving DecidableEq, Repr

abbrev KeyProg := FileProg File ByteArray Raised

/-- `os.open` with `O_CREAT | O_EXCL`. -/
def openExclusive (f : File) : KeyProg Unit := do
  if ← create f then pure ()
  else .raise (.fileExists f)

def signingKey (raw : ByteArray) : KeyProg SigningKey :=
  if h : raw.size = 32 then pure ⟨raw, h⟩ else .raise .valueError

def load : KeyProg SigningKey := do
  match ← readFile .key with
  | none => .raise (.fileNotFound .key)
  | some raw => signingKey raw

variable (L : Library)

def sidecarHolds (desired : ByteArray) : KeyProg Bool := do
  if ← pathExists .pub then
    let found ← readFile .pub
    return found = some desired
  else return false

/-- `_write_public_key_sidecar`. In a directory that can be written to, its
handler is not reached. -/
def writePublicKeySidecar (publicKey : ByteArray) : KeyProg Unit := do
  let desired := L.b64encode publicKey
  if ← sidecarHolds desired then pure ()
  else
    truncate .pubTmp
    write .pubTmp desired
    chmod .pubTmp
    replace .pubTmp .pub

/-- `bootstrap_signing_key`, where `fresh` is the key that it would generate. -/
def bootstrapSigningKey (fresh : SigningKey) : KeyProg SigningKey := do
  if ← pathExists .key then
    let signer ← load
    writePublicKeySidecar L (L.publicKey signer.bytes)
    return signer
  else
    mkdir
    openExclusive .keyTmp
    write .keyTmp fresh.bytes
    chmod .keyTmp
    replace .keyTmp .key
    writePublicKeySidecar L (L.publicKey fresh.bytes)
    return fresh

structure Call where
  fresh : SigningKey
  killedAfter : Option ℕ

def Call.leaves (c : Call) (d : KeyDir) : KeyDir :=
  match c.killedAfter with
  | none => ((bootstrapSigningKey L c.fresh).exec d).2
  | some n => (bootstrapSigningKey L c.fresh).stopAfter n d

def leave (start : KeyDir) (calls : List Call) : KeyDir :=
  calls.foldl (fun d c => c.leaves L d) start

/-- Behind `calls`, a call that is not killed returns the stored key, which is the
one that was found by any of them, and the sidecar belongs to it. -/
def Idempotent (start : KeyDir) (calls : List Call) (fresh : SigningKey) : Prop :=
  ∃ key d, (bootstrapSigningKey L fresh).exec (leave L start calls) = (.ok key, d) ∧
    d .key = some key.bytes ∧ d .pub = some (L.b64encode (L.publicKey key.bytes)) ∧
    ∀ before after old, calls = before ++ after → leave L start before .key = some old →
      key.bytes = old

def Usable (d : KeyDir) : Prop :=
  match d .key with
  | some raw => raw.size = 32
  | none => d .keyTmp = none

/-- The call finds no key and is killed between the creation of the temporary
file, its third operation, and `os.replace`, its sixth. -/
def Call.Strands (c : Call) (d : KeyDir) : Prop :=
  d .key = none ∧ ∃ n, c.killedAfter = some n ∧ 3 ≤ n ∧ n < 6

section Sidecar

def Same (key tmp : Option ByteArray) (d : KeyDir) : Prop :=
  d .key = key ∧ d .keyTmp = tmp

theorem keeps_writePublicKeySidecar (key tmp : Option ByteArray) (publicKey : ByteArray) :
    (writePublicKeySidecar L publicKey).Keeps (Same key tmp) := by
  have hholds : (sidecarHolds (L.b64encode publicKey)).Keeps (Same key tmp) := by
    refine ⟨fun d hd => hd, ?_⟩
    intro found
    cases found with
    | false => trivial
    | true => exact ⟨fun d hd => hd, fun _ => trivial⟩
  apply keeps_bind hholds
  intro holds
  cases holds with
  | true => trivial
  | false =>
    -- the four operations touch the sidecar and its temporary file
    refine ⟨fun d hd => ?_, fun _ => ⟨fun d hd => ?_, fun _ => ⟨fun d hd => hd, fun _ =>
      ⟨fun d hd => ?_, fun _ => trivial⟩⟩⟩⟩
    all_goals simpa [Same, fileSystem, FileOp.perform, moved] using hd

theorem exec_sidecarHolds (desired : ByteArray) (d : KeyDir) :
    (sidecarHolds desired).exec d = (.ok (decide (d .pub = some desired)), d) := by
  cases hpub : d .pub with
  | none => simp [sidecarHolds, hpub]
  | some found => simp [sidecarHolds, hpub]

theorem exec_writePublicKeySidecar (publicKey : ByteArray) (d : KeyDir) :
    ∃ d', (writePublicKeySidecar L publicKey).exec d = (.ok (), d') ∧
      d' .pub = some (L.b64encode publicKey) ∧ d' .key = d .key := by
  have hexec : (writePublicKeySidecar L publicKey).exec d = _ :=
    exec_bind_ok (exec_sidecarHolds (L.b64encode publicKey) d) _
  by_cases hpub : d .pub = some (L.b64encode publicKey)
  · simp_all
  · simp [hpub] at hexec
    refine ⟨_, hexec, ?_, ?_⟩
    · simp [moved]
    · simp [moved]

end Sidecar

variable {raw : ByteArray}

section Calls

variable (fresh : SigningKey) {d : KeyDir}

theorem keeps_existing (key tmp : Option ByteArray) :
    (do let signer ← load
        writePublicKeySidecar L (L.publicKey signer.bytes)
        return signer : KeyProg SigningKey).Keeps (Same key tmp) := by
  have hload : load.Keeps (Same key tmp) := by
    refine ⟨fun d hd => hd, ?_⟩
    intro found
    cases found with
    | none => trivial
    | some raw =>
      change (signingKey raw).Keeps (Same key tmp)
      unfold signingKey
      split <;> trivial
  apply keeps_bind hload
  intro signer
  exact keeps_bind (keeps_writePublicKeySidecar L key tmp _) fun _ => trivial

theorem exec_load (hkey : d .key = some raw) (hsize : raw.size = 32) :
    load.exec d = (.ok ⟨raw, hsize⟩, d) := by
  simp [load, signingKey, hkey, hsize]

theorem exec_of_key (hkey : d .key = some raw) (hsize : raw.size = 32) :
    ∃ d', (bootstrapSigningKey L fresh).exec d = (.ok ⟨raw, hsize⟩, d') ∧
      d' .pub = some (L.b64encode (L.publicKey raw)) ∧ d' .key = some raw := by
  obtain ⟨d', hexec, hpub, hsame⟩ := exec_writePublicKeySidecar L (L.publicKey raw) d
  refine ⟨d', ?_, hpub, hsame.trans hkey⟩
  have hrest := exec_bind_ok (exec_load hkey hsize) fun signer => do
    writePublicKeySidecar L (L.publicKey signer.bytes)
    return signer
  have hlast := exec_bind_ok hexec fun _ => (return ⟨raw, hsize⟩ : KeyProg SigningKey)
  simpa [bootstrapSigningKey, hkey] using hrest.trans hlast

theorem exec_of_badKey (hkey : d .key = some raw) (hsize : raw.size ≠ 32) :
    (bootstrapSigningKey L fresh).exec d = (.error .valueError, d) := by
  have hload : load.exec d = (.error .valueError, d) := by
    simp [load, signingKey, hkey, hsize]
  simpa [bootstrapSigningKey, hkey] using exec_bind_error hload _

theorem openExclusive_bind_stale {α : Type} (k : Unit → KeyProg α)
    (htmp : (d .keyTmp).isSome) :
    (openExclusive .keyTmp >>= k).exec d = (.error (.fileExists .keyTmp), d) ∧
      ∀ n, (openExclusive .keyTmp >>= k).stopAfter (n+1) d = d :=
  create_bind_old File.keyTmp d (fun new => (if new then pure () else
    .raise (.fileExists .keyTmp) : KeyProg Unit) >>= k) htmp

theorem exec_of_stale (hkey : d .key = none) (htmp : (d .keyTmp).isSome) :
    (bootstrapSigningKey L fresh).exec d = (.error (.fileExists .keyTmp), d) := by
  simp [bootstrapSigningKey, hkey, openExclusive_bind_stale _ htmp]

def installed (d : KeyDir) : KeyDir :=
  moved .keyTmp .key (Function.update d .keyTmp (some fresh.bytes))

theorem openExclusive_bind {α : Type} (k : Unit → KeyProg α) (htmp : d .keyTmp = none) :
    (openExclusive .keyTmp >>= k).exec d = (k ()).exec (Function.update d .keyTmp (some ∅)) ∧
      ∀ n, (openExclusive .keyTmp >>= k).stopAfter (n+1) d =
        (k ()).stopAfter n (Function.update d .keyTmp (some ∅)) :=
  create_bind_new File.keyTmp d (fun new => (if new then pure () else
    .raise (.fileExists .keyTmp) : KeyProg Unit) >>= k) htmp

theorem exec_of_fresh (hkey : d .key = none) (htmp : d .keyTmp = none) :
    ∃ d', (bootstrapSigningKey L fresh).exec d = (.ok fresh, d') ∧
      d' .pub = some (L.b64encode (L.publicKey fresh.bytes)) ∧ d' .key = some fresh.bytes := by
  obtain ⟨d', hexec, hpub, hsame⟩ :=
    exec_writePublicKeySidecar L (L.publicKey fresh.bytes) (installed fresh d)
  refine ⟨d', ?_, hpub, hsame.trans (by simp [installed, moved])⟩
  have hlast := exec_bind_ok hexec fun _ => (return fresh : KeyProg SigningKey)
  simpa [bootstrapSigningKey, hkey, openExclusive_bind _ htmp, installed] using hlast

end Calls

section Refinement

/-- `FileExistsError` and `FileNotFoundError` are kinds of `OSError`. -/
def Raised.kind : Raised → KeyBootstrap.Raised
  | .valueError => .valueError
  | _ => .osError

def raisedBy {α : Type} : Except Raised α → Option KeyBootstrap.Raised
  | .ok _ => none
  | .error e => some e.kind

/-- The operations together do what the function does on the two files at once; a
temporary file that was left behind is the fault that it meets when it creates
the key. -/
theorem exec_refines (fresh : SigningKey) (d : KeyDir) :
    let r := (bootstrapSigningKey L fresh).exec d
    KeyBootstrap.bootstrapSigningKey L
        { KeyBootstrap.noFaults with createKey := (d .keyTmp).isSome } fresh.bytes
        ⟨d .key, d .pub⟩ = (⟨r.2 .key, r.2 .pub⟩, raisedBy r.1) := by
  dsimp only
  have hsidecar (f : KeyBootstrap.Faults) (hr : f.readPub = false) (hw : f.writePub = false)
      (fs : KeyBootstrap.Files) (pk : ByteArray) : KeyBootstrap.writePublicKeySidecar L f fs pk =
        ({ fs with pub := some (L.b64encode pk) }, none) := by
    by_cases hpub : fs.pub = some (L.b64encode pk)
    · simp [KeyBootstrap.writePublicKeySidecar, hr, ← hpub]
    · simp [KeyBootstrap.writePublicKeySidecar, hpub, hw]
  cases hkey : d .key with
  | some raw =>
    by_cases hsize : raw.size = 32
    · obtain ⟨d', hexec, hpub, hkey'⟩ := exec_of_key L fresh hkey hsize
      rw [hexec]
      simp [KeyBootstrap.bootstrapSigningKey, KeyBootstrap.noFaults, hsize, hsidecar, raisedBy,
        hpub, hkey']
    · rw [exec_of_badKey L fresh hkey hsize]
      simp [KeyBootstrap.bootstrapSigningKey, KeyBootstrap.noFaults, hsize, hkey, raisedBy,
        Raised.kind]
  | none =>
    cases htmp : d .keyTmp with
    | some part =>
      rw [exec_of_stale L fresh hkey (by simp [htmp])]
      simp [KeyBootstrap.bootstrapSigningKey, hkey, raisedBy, Raised.kind]
    | none =>
      obtain ⟨d', hexec, hpub, hkey'⟩ := exec_of_fresh L fresh hkey htmp
      rw [hexec]
      simp [KeyBootstrap.bootstrapSigningKey, KeyBootstrap.noFaults, hsidecar, raisedBy, hpub,
        hkey']

end Refinement

section Runs

variable (c : Call) {d : KeyDir}

theorem leaves_of_key (hkey : d .key = some raw) : Same (some raw) (d .keyTmp) (c.leaves L d) := by
  have hkeeps := keeps_existing L (some raw) (d .keyTmp)
  unfold Call.leaves
  cases c.killedAfter with
  | none => simpa [bootstrapSigningKey, hkey] using keeps_exec hkeeps ⟨hkey, rfl⟩
  | some n =>
    cases n with
    | zero => simpa using ⟨hkey, rfl⟩
    | succ n =>
      simpa [bootstrapSigningKey, hkey] using keeps_stopAfter hkeeps n ⟨hkey, rfl⟩

theorem leaves_of_stale (hkey : d .key = none) (htmp : (d .keyTmp).isSome) :
    c.leaves L d = d := by
  unfold Call.leaves
  cases c.killedAfter with
  | none => simp [exec_of_stale L c.fresh hkey htmp]
  | some n =>
    -- the third operation fails, and nothing has changed before it
    match n with
    | 0 => simp
    | 1 => simp [bootstrapSigningKey]
    | 2 => simp [bootstrapSigningKey, hkey]
    | n + 3 => simp [bootstrapSigningKey, hkey, openExclusive_bind_stale _ htmp]

/-- Up to the third operation nothing has changed; from the sixth on the new key
is in its place. -/
theorem leaves_of_fresh (hkey : d .key = none) (htmp : d .keyTmp = none) :
    (c.Strands d ∧ Same none (c.leaves L d .keyTmp) (c.leaves L d) ∧
        (c.leaves L d .keyTmp).isSome) ∨
      (¬c.Strands d ∧ (c.leaves L d = d ∨ Same (some c.fresh.bytes) none (c.leaves L d))) := by
  have hdone : Same (some c.fresh.bytes) none (installed c.fresh d) := by
    simp [Same, installed, moved]
  have hkeeps := keeps_bind
    (keeps_writePublicKeySidecar L (some c.fresh.bytes) none (L.publicKey c.fresh.bytes))
    (f := fun _ => (return c.fresh : KeyProg SigningKey)) fun _ => trivial
  unfold Call.leaves Call.Strands
  cases c.killedAfter with
  | none =>
    right
    refine ⟨by simp, .inr ?_⟩
    simpa [bootstrapSigningKey, hkey, openExclusive_bind _ htmp, installed]
      using keeps_exec hkeeps hdone
  | some n =>
    -- killed behind the exclusive creation and before the rename, it strands the
    -- temporary file
    match n with
    | 0 => simp
    | 1 => simp [bootstrapSigningKey]
    | 2 => simp [bootstrapSigningKey, hkey]
    | 3 => simp [bootstrapSigningKey, hkey, openExclusive_bind _ htmp, Same]
    | 4 => simp [bootstrapSigningKey, hkey, openExclusive_bind _ htmp, Same]
    | 5 => simp [bootstrapSigningKey, hkey, openExclusive_bind _ htmp, Same]
    | n + 6 =>
      right
      refine ⟨by simp, .inr ?_⟩
      simpa [bootstrapSigningKey, hkey, openExclusive_bind _ htmp, installed]
        using keeps_stopAfter hkeeps n hdone

theorem usable_leaves : Usable (c.leaves L d) ↔ Usable d ∧ ¬c.Strands d := by
  cases hkey : d .key with
  | some raw =>
    obtain ⟨hkey', -⟩ := leaves_of_key L c hkey
    simp [Usable, Call.Strands, hkey, hkey']
  | none =>
    cases htmp : d .keyTmp with
    | some part =>
      rw [leaves_of_stale L c hkey (by simp [htmp])]
      simp [Usable, hkey, htmp]
    | none =>
      have husable : Usable d := by simp [Usable, hkey, htmp]
      rcases leaves_of_fresh L c hkey htmp with ⟨hs, ⟨hkey', -⟩, htmp'⟩ | ⟨hs, hd | hd⟩
      · simp [Usable, hkey', hs, Option.isSome_iff_ne_none.mp htmp']
      · simp [hd, husable, hs]
      · simp [Usable, hd.1, c.fresh.size_eq, hkey, htmp, hs]

theorem leave_append (start : KeyDir) (calls : List Call) :
    leave L start (calls ++ [c]) = c.leaves L (leave L start calls) := by
  simp [leave]

theorem usable_leave (start : KeyDir) (calls : List Call) :
    Usable (leave L start calls) ↔
      Usable start ∧ AtEach (fun before c => ¬c.Strands (leave L start before)) calls := by
  induction calls using List.reverseRecOn with
  | nil => simp [leave, atEach_nil]
  | append_singleton calls c ih =>
    rw [leave_append, usable_leaves, atEach_append, ih, and_assoc]

theorem key_leave (hkey : d .key = some raw) (calls : List Call) :
    leave L d calls .key = some raw := by
  induction calls generalizing d with
  | nil => exact hkey
  | cons c calls ih => exact ih (leaves_of_key L c hkey).1

end Runs

/-- A call that is not killed succeeds behind any sequence of calls, unless one of
those has left the temporary file of a key that it did not put in place. -/
theorem bootstrap_idempotent_iff (start : KeyDir) (calls : List Call) (fresh : SigningKey) :
    Idempotent L start calls fresh ↔
      Usable start ∧ AtEach (fun before c => ¬c.Strands (leave L start before)) calls := by
  rw [← usable_leave]
  have hsplit (before after : List Call) (old : ByteArray) (h : calls = before ++ after)
      (hold : leave L start before .key = some old) : leave L start calls .key = some old := by
    rw [h, leave, List.foldl_append]
    exact key_leave L hold after
  constructor
  · rintro ⟨key, d, hexec, -⟩
    unfold Usable
    cases hkey : leave L start calls .key with
    | some raw =>
      by_contra hsize
      rw [exec_of_badKey L fresh hkey hsize] at hexec
      cases hexec
    | none =>
      by_contra htmp
      rw [exec_of_stale L fresh hkey (Option.isSome_iff_ne_none.mpr htmp)] at hexec
      cases hexec
  · intro husable
    unfold Usable at husable
    cases hkey : leave L start calls .key with
    | some raw =>
      rw [hkey] at husable
      obtain ⟨d, hexec, hpub, hkey'⟩ := exec_of_key L fresh hkey husable
      refine ⟨_, d, hexec, hkey', hpub, ?_⟩
      grind
    | none =>
      rw [hkey] at husable
      obtain ⟨d, hexec, hpub, hkey'⟩ := exec_of_fresh L fresh hkey husable
      refine ⟨_, d, hexec, hkey', hpub, ?_⟩
      grind

def sampleKey : SigningKey := ⟨KeyBootstrap.sampleKey 1, by decide⟩

/-- No later call succeeds. -/
theorem bootstrap_stranded :
    ∃ start calls, start File.key = none ∧ start File.keyTmp = none ∧
      ∀ fresh, ¬Idempotent plainLibrary start calls fresh ∧
        ((bootstrapSigningKey plainLibrary fresh).exec
          (leave plainLibrary start calls)).1 = .error (.fileExists .keyTmp) := by
  have hkey : leave plainLibrary (fun _ => none) [⟨sampleKey, some 3⟩] .key =
      none := rfl
  have htmp : leave plainLibrary (fun _ => none) [⟨sampleKey, some 3⟩] .keyTmp =
      some ∅ := rfl
  refine ⟨fun _ => none, [⟨sampleKey, some 3⟩], rfl, rfl, ?_⟩
  intro fresh
  have hexec := exec_of_stale plainLibrary fresh hkey (by simp [htmp])
  constructor
  · rintro ⟨key, d, hok, -⟩
    rw [hexec] at hok
    cases hok
  · rw [hexec]

end DbAgent.KeyFiles
