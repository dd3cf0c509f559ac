import DbAgent.CertificateRenewal
import DbAgent.FileWrites

/-! The identity of the probe on disk: what an interrupted `Persist` leaves in
the state directory, and what `ensureEnrolled` makes of it at the next start. -/
namespace DbAgent.Enrollment

open Transition FileWrites List
open Renewal (Validity)

abbrev Bytes := List UInt8

inductive File where
  | clientCrt | clientKey | caCrt
  deriving DecidableEq, Repr

abbrev StateDir := Dir File UInt8

@[ext] structure Result where
  clientCertPem : Bytes
  clientKeyPem : Bytes
  caCertPem : Bytes
  deriving DecidableEq

/-- The calls of `os.WriteFile` in `Persist`. -/
def Result.persist (r : Result) : List (File × Bytes) :=
  [(.clientCrt, r.clientCertPem), (.clientKey, r.clientKeyPem), (.caCrt, r.caCertPem)]

def stateDir (old : Option Result) : StateDir
  | .clientCrt => old.map Result.clientCertPem
  | .clientKey => old.map Result.clientKeyPem
  | .caCrt => old.map Result.caCertPem

inductive StartError where
  | notExist (f : File)
  | certificate (msg : String)
  | noBootstrapToken
  | enroll (msg : String)
  | persist (msg : String)
  deriving DecidableEq

def readFile (d : StateDir) (f : File) : Except StartError Bytes :=
  (d f).elim (.error (.notExist f)) .ok

/-- `LoadIfPresent`; only the certificate may be missing. -/
def loadIfPresent (d : StateDir) : Except StartError (Option Result) :=
  match d .clientCrt with
  | none => .ok none
  | some cert => do
    let key ← readFile d .clientKey
    let ca ← readFile d .caCrt
    return some ⟨cert, key, ca⟩

/-- The token in the configuration, and how `Enroll` and `Persist` would end. -/
structure Attempt where
  token : String
  enroll : Except String Result
  persist : Except String Unit

/-- The part of `ensureEnrolled` for a probe that has no identity. -/
def enrollAnew (a : Attempt) : Except StartError Result :=
  if a.token = "" then .error .noBootstrapToken
  else do
    let result ← a.enroll.mapError .enroll
    a.persist.mapError .persist
    return result

section Start

-- `Expiry`: the window of a certificate, from its PEM text
variable (expiry : Bytes → Except String Validity) (now : ℤ)

def ensureEnrolled (d : StateDir) (a : Attempt) : Except StartError Result := do
  match ← loadIfPresent d with
  | none => enrollAnew a
  | some existing =>
    let window ← (expiry existing.clientCertPem).mapError .certificate
    if (window.renewalStatus now).2 then enrollAnew a else return existing

/-- The start treats the directory like an empty one, or uses the complete old
or the complete new identity. -/
def Consistent (old : Option Result) (new : Result) (d : StateDir) : Prop :=
  (∀ a, ensureEnrolled expiry now d a = ensureEnrolled expiry now (stateDir none) a) ∨
  (∃ o, old = some o ∧ ∀ a, ensureEnrolled expiry now d a = .ok o) ∨
  ∀ a, ensureEnrolled expiry now d a = .ok new

structure Identity where
  result : Result
  window : Validity
  readable : expiry result.clientCertPem = .ok window

end Start

/-- Where `Persist` is interrupted: before its first write, or with a file open
that holds the given bytes. -/
inductive Stage where
  | untouched
  | cert (part : Bytes)
  | key (part : Bytes)
  | ca (part : Bytes)

def Stage.dir (old : Option Result) (new : Result) : Stage → StateDir
  | .untouched => stateDir old
  | .cert part => Function.update (stateDir old) .clientCrt (some part)
  | .key part =>
    Function.update (Function.update (stateDir old) .clientCrt (some new.clientCertPem))
      .clientKey (some part)
  | .ca part =>
    Function.update (Function.update (Function.update (stateDir old)
      .clientCrt (some new.clientCertPem)) .clientKey (some new.clientKeyPem)) .caCrt (some part)

def Stage.Within (new : Result) : Stage → Prop
  | .untouched => True
  | .cert part => part <+: new.clientCertPem
  | .key part => part <+: new.clientKeyPem
  | .ca part => part <+: new.caCertPem

section Stages

variable {old : Option Result} {new : Result}

theorem stage_of_torn {d : StateDir} (h : Torn (stateDir old) new.persist d) :
    ∃ s : Stage, s.Within new ∧ d = s.dir old new := by
  cases h with
  | between done rest hfiles hdir =>
    match done, hfiles with
    | [], _ => exact ⟨.untouched, trivial, hdir⟩
    | [x], hfiles =>
      cases hfiles
      exact ⟨.cert new.clientCertPem, prefix_refl _, hdir⟩
    | [x, y], hfiles =>
      cases hfiles
      exact ⟨.key new.clientKeyPem, prefix_refl _, hdir⟩
    | [x, y, z], hfiles =>
      cases hfiles
      exact ⟨.ca new.caCertPem, prefix_refl _, hdir⟩
    | x :: y :: z :: u :: more, hfiles => cases hfiles
  | inside done rest f part left hfiles hdir =>
    match done, hfiles with
    | [], hfiles =>
      simp only [Result.persist, nil_append, List.cons.injEq, Prod.mk.injEq] at hfiles
      obtain ⟨⟨rfl, hcert⟩, -⟩ := hfiles
      exact ⟨.cert part, ⟨left, hcert.symm⟩, hdir⟩
    | [x], hfiles =>
      simp only [Result.persist, cons_append, nil_append, List.cons.injEq,
        Prod.mk.injEq] at hfiles
      obtain ⟨rfl, ⟨rfl, hkey⟩, -⟩ := hfiles
      exact ⟨.key part, ⟨left, hkey.symm⟩, hdir⟩
    | [x, y], hfiles =>
      simp only [Result.persist, cons_append, nil_append, List.cons.injEq,
        Prod.mk.injEq] at hfiles
      obtain ⟨rfl, rfl, ⟨rfl, hca⟩, -⟩ := hfiles
      exact ⟨.ca part, ⟨left, hca.symm⟩, hdir⟩
    | x :: y :: z :: more, hfiles => simp [Result.persist] at hfiles

theorem torn_of_stage (s : Stage) (h : s.Within new) :
    Torn (stateDir old) new.persist (s.dir old new) := by
  cases s with
  | untouched => exact .between [] _ rfl rfl
  | cert part =>
    obtain ⟨left, hleft⟩ := h
    exact .inside [] _ .clientCrt part left (by rw [hleft]; rfl) rfl
  | key part =>
    obtain ⟨left, hleft⟩ := h
    exact .inside [(.clientCrt, new.clientCertPem)] _ .clientKey part left (by rw [hleft]; rfl) rfl
  | ca part =>
    obtain ⟨left, hleft⟩ := h
    exact .inside [(.clientCrt, new.clientCertPem), (.clientKey, new.clientKeyPem)] [] .caCrt part
      left (by rw [hleft]; rfl) rfl

theorem crashed_iff_stage (d : StateDir) :
    (∃ w, (writer (stateDir old) new.persist).Reachable w ∧ w.dir = d) ↔
      ∃ s : Stage, s.Within new ∧ d = s.dir old new := by
  constructor
  · rintro ⟨w, hw, rfl⟩
    exact stage_of_torn (torn_of_reachable w hw)
  · rintro ⟨s, hs, rfl⟩
    exact reachable_of_torn _ (torn_of_stage s hs)

end Stages

section Restart

variable {expiry : Bytes → Except String Validity} {now : ℤ}
variable {old : Option Result} {new : Result} {d : StateDir}

theorem expired_iff (v : Validity) : (v.renewalStatus now).2 = true ↔ v.notAfter ≤ now := by
  unfold Validity.renewalStatus
  grind

theorem consistent_of_absent (h : d .clientCrt = none) : Consistent expiry now old new d := by
  refine .inl ?_
  intro a
  have hload : loadIfPresent d = .ok none := by
    rw [loadIfPresent, h]
  rw [ensureEnrolled, hload]
  rfl

theorem not_consistent_of_error (e : StartError)
    (h : ∀ a, ensureEnrolled expiry now d a = .error e) : ¬ Consistent expiry now old new d := by
  -- a token that is good shows that an empty directory is not treated so
  let good : Attempt := ⟨"t", .ok new, .ok ()⟩
  have hfresh : ensureEnrolled expiry now (stateDir none) good = .ok new := rfl
  rintro (hempty | ⟨o, -, hold⟩ | hnew)
  · grind
  · have hgood := (h good).symm.trans (hold good)
    cases hgood
  · have hgood := (h good).symm.trans (hnew good)
    cases hgood

theorem not_consistent_of_missing (hcert : d .clientCrt ≠ none)
    (hmissing : d .clientKey = none ∨ d .caCrt = none) : ¬ Consistent expiry now old new d := by
  obtain ⟨cert, hc⟩ := Option.ne_none_iff_exists'.mp hcert
  cases hk : d .clientKey with
  | none =>
    apply not_consistent_of_error (.notExist .clientKey)
    intro a
    rw [ensureEnrolled, loadIfPresent, hc, readFile, hk]
    rfl
  | some key =>
    have ha : d .caCrt = none := by
      rcases hmissing with hnone | hnone
      · rw [hk] at hnone
        cases hnone
      · exact hnone
    apply not_consistent_of_error (.notExist .caCrt)
    intro a
    simp only [ensureEnrolled, loadIfPresent, hc, readFile, hk, ha]
    rfl

theorem ensureEnrolled_present {cert key ca : Bytes} (hc : d .clientCrt = some cert)
    (hk : d .clientKey = some key) (ha : d .caCrt = some ca) (a : Attempt) :
    ensureEnrolled expiry now d a = (do
      let window ← (expiry cert).mapError .certificate
      if (window.renewalStatus now).2 then enrollAnew a else return ⟨cert, key, ca⟩) := by
  have hload : loadIfPresent d = .ok (some ⟨cert, key, ca⟩) := by
    simp only [loadIfPresent, hc, readFile, hk, ha]
    rfl
  rw [ensureEnrolled, hload]
  rfl

theorem consistent_iff_of_reuse {r : Result}
    (hreuse : ∀ a, ensureEnrolled expiry now d a = .ok r) :
    Consistent expiry now old new d ↔ old = some r ∨ r = new := by
  constructor
  · rintro (hempty | ⟨o, rfl, hold⟩ | hnew)
    · -- without a token an empty directory is an error
      have hnone := (hreuse ⟨"", .ok new, .ok ()⟩).symm.trans (hempty _)
      cases hnone
    · have ho := (hreuse ⟨"", .ok new, .ok ()⟩).symm.trans (hold _)
      grind
    · have hn := (hreuse ⟨"", .ok new, .ok ()⟩).symm.trans (hnew _)
      exact .inr (Except.ok.inj hn)
  · rintro (hold | hnew)
    · exact .inr (.inl ⟨_, hold, hreuse⟩)
    · exact .inr (.inr (fun a => (hreuse a).trans (congrArg _ hnew)))

/-- Three files are read together: the start is consistent if the certificate
has expired, or if they are one identity. -/
theorem consistent_iff_of_present (cert key ca : Bytes) (hc : d .clientCrt = some cert)
    (hk : d .clientKey = some key) (ha : d .caCrt = some ca) :
    Consistent expiry now old new d ↔ ∃ v, expiry cert = .ok v ∧
      (v.notAfter ≤ now ∨ old = some ⟨cert, key, ca⟩ ∨ ⟨cert, key, ca⟩ = new) := by
  cases hv : expiry cert with
  | error msg =>
    constructor
    · intro h
      refine absurd h (not_consistent_of_error (.certificate msg) ?_)
      intro a
      rw [ensureEnrolled_present hc hk ha, hv]
      rfl
    · rintro ⟨v, hok, -⟩
      cases hok
  | ok v =>
    have hrun (a : Attempt) : ensureEnrolled expiry now d a =
        if (v.renewalStatus now).2 then enrollAnew a else .ok ⟨cert, key, ca⟩ := by
      rw [ensureEnrolled_present hc hk ha, hv]
      rfl
    by_cases hexp : v.notAfter ≤ now
    · refine iff_of_true (.inl ?_) ⟨v, rfl, .inl hexp⟩
      intro a
      rw [hrun, if_pos ((expired_iff v).mpr hexp)]
      rfl
    · have hreuse (a : Attempt) : ensureEnrolled expiry now d a = .ok ⟨cert, key, ca⟩ := by
        rw [hrun, if_neg (mt (expired_iff v).mp hexp)]
      rw [consistent_iff_of_reuse hreuse]
      grind

end Restart

section Interrupted

variable (expiry : Bytes → Except String Validity) (now : ℤ)

/-- The stages from which a start is consistent. Apart from the first one and
the end of the last one there are certificates that have expired by then, and
files whose content does not differ. -/
def Recoverable (old : Option (Identity expiry)) (new : Identity expiry) : Stage → Prop
  | .untouched => True
  | .cert part => ∃ o v, old = some o ∧ expiry part = .ok v ∧
      (v.notAfter ≤ now ∨ part = o.result.clientCertPem ∨
        part = new.result.clientCertPem ∧ o.result.clientKeyPem = new.result.clientKeyPem ∧
          o.result.caCertPem = new.result.caCertPem)
  | .key part => ∃ o, old = some o ∧
      (new.window.notAfter ≤ now ∨
        o.result.clientCertPem = new.result.clientCertPem ∧ o.result.clientKeyPem = part ∨
        part = new.result.clientKeyPem ∧ o.result.caCertPem = new.result.caCertPem)
  | .ca part => new.window.notAfter ≤ now ∨
      old.map Identity.result =
        some ⟨new.result.clientCertPem, new.result.clientKeyPem, part⟩ ∨
      part = new.result.caCertPem

variable {expiry now} (old : Option (Identity expiry)) (new : Identity expiry)

theorem consistent_untouched :
    Consistent expiry now (old.map Identity.result) new.result
      (Stage.untouched.dir (old.map Identity.result) new.result) := by
  cases old with
  | none => exact consistent_of_absent rfl
  | some o =>
    apply (consistent_iff_of_present _ _ _ rfl rfl rfl).mpr
    exact ⟨o.window, o.readable, .inr (.inl rfl)⟩

theorem consistent_cert (part : Bytes) :
    Consistent expiry now (old.map Identity.result) new.result
      ((Stage.cert part).dir (old.map Identity.result) new.result) ↔
    Recoverable expiry now old new (.cert part) := by
  cases old with
  | none =>
    apply iff_of_false
    · exact not_consistent_of_missing nofun (.inl rfl)
    · rintro ⟨o, v, ho, -⟩
      cases ho
  | some o =>
    rw [consistent_iff_of_present part o.result.clientKeyPem o.result.caCertPem rfl rfl rfl]
    constructor
    · rintro ⟨v, hv, hexp | hold | hnew⟩
      · exact ⟨o, v, rfl, hv, .inl hexp⟩
      · obtain ⟨hcert, -⟩ := Result.ext_iff.mp (Option.some.inj hold)
        exact ⟨o, v, rfl, hv, .inr (.inl hcert.symm)⟩
      · exact ⟨o, v, rfl, hv, .inr (.inr (Result.ext_iff.mp hnew))⟩
    · rintro ⟨o', v, ho, hv, hor⟩
      cases ho
      refine ⟨v, hv, ?_⟩
      rcases hor with hexp | hold | ⟨hcert, hkey, hca⟩
      · exact .inl hexp
      · simp_all
      · simp_all

theorem consistent_key (part : Bytes) :
    Consistent expiry now (old.map Identity.result) new.result
      ((Stage.key part).dir (old.map Identity.result) new.result) ↔
    Recoverable expiry now old new (.key part) := by
  cases old with
  | none =>
    apply iff_of_false
    · exact not_consistent_of_missing nofun (.inr rfl)
    · rintro ⟨o, ho, -⟩
      cases ho
  | some o =>
    rw [consistent_iff_of_present new.result.clientCertPem part o.result.caCertPem rfl rfl rfl]
    constructor
    · rintro ⟨v, hv, hexp | hold | hnew⟩
      · have hwindow : new.window = v := Except.ok.inj (new.readable.symm.trans hv)
        exact ⟨o, rfl, .inl (hwindow ▸ hexp)⟩
      · obtain ⟨hcert, hkey, -⟩ := Result.ext_iff.mp (Option.some.inj hold)
        exact ⟨o, rfl, .inr (.inl ⟨hcert, hkey⟩)⟩
      · obtain ⟨-, hkey, hca⟩ := Result.ext_iff.mp hnew
        exact ⟨o, rfl, .inr (.inr ⟨hkey, hca⟩)⟩
    · rintro ⟨o', ho, hor⟩
      cases ho
      refine ⟨new.window, new.readable, ?_⟩
      rcases hor with hexp | ⟨hcert, hkey⟩ | ⟨hkey, hca⟩
      · exact .inl hexp
      · exact .inr (.inl (congrArg some (Result.ext hcert hkey rfl)))
      · simp_all

theorem consistent_ca (part : Bytes) :
    Consistent expiry now (old.map Identity.result) new.result
      ((Stage.ca part).dir (old.map Identity.result) new.result) ↔
    Recoverable expiry now old new (.ca part) := by
  rw [consistent_iff_of_present new.result.clientCertPem new.result.clientKeyPem part rfl rfl rfl]
  constructor
  · rintro ⟨v, hv, hexp | hold | hnew⟩
    · have hwindow : new.window = v := Except.ok.inj (new.readable.symm.trans hv)
      exact .inl (hwindow ▸ hexp)
    · exact .inr (.inl hold)
    · exact .inr (.inr (congrArg Result.caCertPem hnew))
  · intro hor
    refine ⟨new.window, new.readable, ?_⟩
    rcases hor with hexp | hold | hca
    · exact .inl hexp
    · exact .inr (.inl hold)
    · simp_all

theorem consistent_iff_recoverable (s : Stage) :
    Consistent expiry now (old.map Identity.result) new.result
      (s.dir (old.map Identity.result) new.result) ↔ Recoverable expiry now old new s := by
  cases s with
  | untouched => exact iff_of_true (consistent_untouched old new) trivial
  | cert part => exact consistent_cert old new part
  | key part => exact consistent_key old new part
  | ca part => exact consistent_ca old new part

/-- Wherever a `Persist` is interrupted, it leaves the directory of a stage, and
the next start is consistent exactly if the stage is recoverable. -/
theorem interrupted_persist_iff (expiry : Bytes → Except String Validity) (now : ℤ)
    (old : Option (Identity expiry)) (new : Identity expiry) (w : FileWrites.Writer File UInt8)
    (hw : (writer (stateDir (old.map Identity.result)) new.result.persist).Reachable w) :
    (∃ s : Stage, s.Within new.result ∧ w.dir = s.dir (old.map Identity.result) new.result) ∧
    ∀ s : Stage, w.dir = s.dir (old.map Identity.result) new.result →
      (Consistent expiry now (old.map Identity.result) new.result w.dir ↔
        Recoverable expiry now old new s) := by
  refine ⟨(crashed_iff_stage w.dir).mp ⟨w, hw, rfl⟩, ?_⟩
  intro s hs
  rw [hs]
  exact consistent_iff_recoverable old new s

end Interrupted

def sampleExpiry (pem : Bytes) : Except String Validity :=
  if pem = [1] then .ok ⟨0, 100⟩
  else if pem = [2] then .ok ⟨50, 150⟩
  else .error "bootstrapclient: invalid client cert PEM"

theorem sampleExpiry_one : sampleExpiry [1] = .ok ⟨0, 100⟩ := rfl

theorem sampleExpiry_two : sampleExpiry [2] = .ok ⟨50, 150⟩ := rfl

def sampleOld : Identity sampleExpiry := ⟨⟨[1], [11], [21]⟩, ⟨0, 100⟩, sampleExpiry_one⟩

def sampleNew : Identity sampleExpiry := ⟨⟨[2], [12], [22]⟩, ⟨50, 150⟩, sampleExpiry_two⟩

def renewal : List WriteEvent :=
  [.openFile, .write 1, .close, .openFile, .write 1, .close, .openFile, .write 1, .close]

theorem interrupted_persist_finished :
    ∃ w, (writer (stateDir (some sampleOld.result)) sampleNew.result.persist).Reachable w ∧
      Consistent sampleExpiry 60 (some sampleOld.result) sampleNew.result w.dir := by
  have hw := run_reachable (writer (stateDir (some sampleOld.result)) sampleNew.result.persist)
    renewal _ _ (.init rfl) rfl
  refine ⟨_, hw, ?_⟩
  have hall := (interrupted_persist_iff sampleExpiry 60 (some sampleOld) sampleNew _ hw).2
  exact (hall (.ca [22]) (by funext f; cases f <;> rfl)).mpr (.inr (.inr rfl))

/-- A first enrollment that ends behind `client.crt` makes the next start fail;
a renewal that ends there pairs the new certificate with the old key. -/
theorem interrupted_persist_mixes :
    (∃ w, (writer (stateDir none) sampleNew.result.persist).Reachable w ∧
      (∀ a, ensureEnrolled sampleExpiry 60 w.dir a = .error (.notExist .clientKey)) ∧
      ¬ Consistent sampleExpiry 60 none sampleNew.result w.dir) ∧
    ∃ w, (writer (stateDir (some sampleOld.result)) sampleNew.result.persist).Reachable w ∧
      (∀ a, ensureEnrolled sampleExpiry 60 w.dir a = .ok ⟨[2], [11], [21]⟩) ∧
      ¬ Consistent sampleExpiry 60 (some sampleOld.result) sampleNew.result w.dir := by
  constructor
  · have hw := run_reachable (writer (stateDir none) sampleNew.result.persist) (renewal.take 3)
      _ _ (.init rfl) rfl
    refine ⟨_, hw, fun _ => rfl, ?_⟩
    exact not_consistent_of_missing nofun (.inl rfl)
  · have hw := run_reachable (writer (stateDir (some sampleOld.result)) sampleNew.result.persist)
      (renewal.take 3) _ _ (.init rfl) rfl
    refine ⟨_, hw, fun _ => rfl, ?_⟩
    rw [consistent_iff_of_present [2] [11] [21] rfl rfl rfl]
    rintro ⟨v, hv, hexp | hold | hnew⟩
    · cases hv
      exact absurd hexp (by decide)
    · exact absurd hold (by decide)
    · exact absurd hnew (by decide)

end DbAgent.Enrollment
