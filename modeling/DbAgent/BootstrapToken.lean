import DbAgent.PlatformIdentity
import DbAgent.Records
import DbAgent.TokenSingleUse

/-! The bootstrap token between the two services: what an `Enroll` that fails
leaves of it, and what its expiry, which the dashboard writes, is to the
gateway. -/
namespace DbAgent.BootstrapToken

open Registry Transition TokenUse
open Identity hiding World Event

variable (X : X509)

section Failures

/-- The request presents the token of the row, which is not used yet, and the
database answers. -/
def Presents (row : Option Platform) (req : EnrollRequest) (io : EnrollIO) : Prop :=
  req.platformKey ≠ "" ∧ req.csrPem.size ≠ 0 ∧ req.bootstrapToken ≠ "" ∧ io.fault = none ∧
    ∃ r, row = some r ∧ consumed r.config = false ∧ storedToken r.config = req.bootstrapToken

/-- The bytes are a certificate request that is signed with its own key, and the
CA can make a certificate of it. -/
def Signable (req : EnrollRequest) (io : EnrollIO) : Prop :=
  ∃ bytes csr serial, X.decode req.csrPem = some ("CERTIFICATE REQUEST", bytes) ∧
    X.parseCertificateRequest bytes = .ok csr ∧ X.checkSignature csr = .ok () ∧
    io.serial = .ok serial ∧
    X.createCertificate (clientTemplate serial csr req.platformKey (io.signedAt-minutes 5)
      (io.signedAt+clientValidity)) = .ok ()

def Kept (before after : Option Platform) : Prop :=
  ∀ r, before = some r → consumed r.config = false →
    ∃ r', after = some r' ∧ consumed r'.config = false ∧
      storedToken r'.config = storedToken r.config

/-- A call with another certificate request, which the row before would have
answered with a certificate, is answered so by the row behind. -/
def Retryable (req : EnrollRequest) (before after : Option Platform) : Prop :=
  ∀ now auth io csrPem c, (enroll X now auth before { req with csrPem := csrPem } io).1 = .ok c →
    (enroll X now auth after { req with csrPem := csrPem } io).1 = .ok c

theorem signCSR_ok_iff (req : EnrollRequest) (io : EnrollIO) :
    (∃ c, signCSR X io.serial io.signedAt req.csrPem req.platformKey = .ok c) ↔
      Signable X req io := by
  unfold signCSR signCSRWithValidity Signable
  constructor
  · rintro ⟨c, hc⟩
    split at hc
    · cases hc
    grind
  · rintro ⟨bytes, csr, serial, hdecode, hparse, hcheck, hserial, hcreate⟩
    simp_all

def used (r : Platform) : Platform := { r with config := markConsumed X.float64 r.config }

theorem authorize_of_presents {row : Option Platform} {req : EnrollRequest} {io : EnrollIO}
    (now : ℤ) (auth : AuthInfo) (h : Presents row req io) :
    ∃ r, row = some r ∧ consumed r.config = false ∧
      authorize X now auth row req io = .ok (some (used X r)) := by
  obtain ⟨hkey, hcsr, htoken, hfault, r, rfl, hunused, hstored⟩ := h
  refine ⟨r, rfl, hunused, ?_⟩
  have hconsume : consumeToken X.float64 r.config req.bootstrapToken =
      .ok (markConsumed X.float64 r.config) := by
    simp [consumeToken, hunused, hstored, htoken]
  simp [authorize, hkey, hcsr, htoken, consumeBootstrapToken, getPlatform, hfault, hconsume, used]

/-- A call that is let through without a token changes nothing; with one, it has
presented the token of the row. -/
theorem authorize_ok {now : ℤ} {auth : AuthInfo} {row row' : Option Platform}
    {req : EnrollRequest} {io : EnrollIO} (h : authorize X now auth row req io = .ok row') :
    (req.bootstrapToken = "" ∧ row' = row) ∨ Presents row req io := by
  unfold authorize at h
  split at h
  · cases h
  next hrequired =>
    obtain ⟨hkey, hcsr⟩ := not_or.mp hrequired
    split at h
    next htoken =>
      -- a renewal: the row is read and not written
      grind
    next htoken =>
      right
      split at h
      · cases h
      next r hconsumed =>
        obtain ⟨r', hrow, hstored, hunused⟩ := consumeBootstrapToken_ok X _ _ _ _ hconsumed
        have hfault : io.fault = none := by
          cases hf : io.fault with
          | none => rfl
          | some e =>
            rw [hf] at hconsumed
            cases hconsumed
        exact ⟨hkey, hcsr, htoken, hfault, r', hrow, hunused, hstored⟩

section Calls

variable (now : ℤ) (auth : AuthInfo) (row : Option Platform) (req : EnrollRequest) (io : EnrollIO)

theorem enroll_token_iff :
    (req.bootstrapToken ≠ "" ∧ ∃ c, (enroll X now auth row req io).1 = .ok c) ↔
      Presents row req io ∧ Signable X req io := by
  constructor
  · grind [enroll, signCSR_ok_iff, authorize_ok]
  · rintro ⟨hpresents, hsignable⟩
    obtain ⟨r, -, -, hauthorized⟩ := authorize_of_presents X now auth hpresents
    obtain ⟨c, hc⟩ := (signCSR_ok_iff X req io).mpr hsignable
    refine ⟨hpresents.2.2.1, c, ?_⟩
    simp only [enroll, hauthorized, hc]

theorem enroll_row :
    (enroll X now auth row req io).2 = row ∨
      Presents row req io ∧ (enroll X now auth row req io).2 = row.map (used X) := by
  cases hauthorized : authorize X now auth row req io with
  | error s =>
    left
    simp only [enroll, hauthorized]
  | ok row' =>
    have hrow' : (enroll X now auth row req io).2 = row' := by
      simp only [enroll, hauthorized]
      split <;> rfl
    rcases authorize_ok X hauthorized with ⟨-, rfl⟩ | hpresents
    · exact .inl hrow'
    · obtain ⟨r, rfl, -, hused⟩ := authorize_of_presents X now auth hpresents
      grind

end Calls

/-- A failed `Enroll` leaves the token to a corrected call exactly if it did not
fail on the certificate request with the token already in its hands. -/
theorem failed_enroll_keeps_iff (now : ℤ) (auth : AuthInfo) (row : Option Platform)
    (req : EnrollRequest) (io : EnrollIO) :
    ((∃ s, (enroll X now auth row req io).1 = .error s) →
      Kept row (enroll X now auth row req io).2 ∧
        Retryable X req row (enroll X now auth row req io).2) ↔
      (Presents row req io → Signable X req io) := by
  constructor
  · intro h hpresents
    by_contra hunsignable
    obtain ⟨r, hr, hunused, hauthorized⟩ := authorize_of_presents X now auth hpresents
    have herror : ∃ s, (enroll X now auth row req io).1 = .error s := by
      cases hanswer : (enroll X now auth row req io).1 with
      | error s => exact ⟨s, rfl⟩
      | ok c =>
        have hbought := (enroll_token_iff X now auth row req io).mp
          ⟨hpresents.2.2.1, c, hanswer⟩
        exact absurd hbought.2 hunsignable
    have hrow : (enroll X now auth row req io).2 = some (used X r) := by
      simp only [enroll, hauthorized]
      split <;> rfl
    obtain ⟨r', hr', hkept, -⟩ := (h herror).1 r hr hunused
    obtain rfl : used X r = r' := Option.some.inj (hrow.symm.trans hr')
    simp [used] at hkept
  · rintro h ⟨s, hs⟩
    rcases enroll_row X now auth row req io with hsame | ⟨hpresents, -⟩
    · rw [hsame]
      refine ⟨?_, fun _ _ _ _ _ hok => hok⟩
      intro r hr hunused
      exact ⟨r, hr, hunused, rfl⟩
    · obtain ⟨-, c, hc⟩ :=
        (enroll_token_iff X now auth row req io).mpr ⟨hpresents, h hpresents⟩
      rw [hc] at hs
      cases hs

def sampleX509 : X509 where
  decode pem := if pem = ⟨#[1]⟩ then some ("CERTIFICATE REQUEST", pem) else none
  parseCertificateRequest bytes := .ok ⟨bytes⟩
  checkSignature _ := .ok ()
  createCertificate _ := .ok ()
  quote s := s
  float64 n := n

def sampleRow : Platform := ⟨none, issuedConfig (fun _ => none) "t" "2030"⟩

def sampleIO : EnrollIO := ⟨none, .ok 1, 0⟩

theorem sampleRow_presented (csrPem : ByteArray) (h : csrPem.size ≠ 0) :
    Presents (some sampleRow) ⟨"p", "t", csrPem⟩ sampleIO := by
  refine ⟨by simp, h, by simp, rfl, sampleRow, rfl, ?_, ?_⟩
  · simp [sampleRow, consumed, issuedConfig, update, Function.update]
  · exact storedToken_issuedConfig _ _ _

theorem sample_signable : Signable sampleX509 ⟨"p", "t", ⟨#[1]⟩⟩ sampleIO :=
  ⟨⟨#[1]⟩, ⟨⟨#[1]⟩⟩, 1, by simp [sampleX509], rfl, rfl, rfl, rfl⟩

/-- The token goes with a request that is not in PEM, and the corrected call is
refused. -/
theorem failed_enroll_spends :
    (enroll sampleX509 0 none (some sampleRow) ⟨"p", "t", ⟨#[0]⟩⟩ sampleIO).1 =
        .error ⟨.invalidArgument, "sign csr: bootstrapca: invalid CSR PEM"⟩ ∧
      (∃ r, (enroll sampleX509 0 none (some sampleRow) ⟨"p", "t", ⟨#[0]⟩⟩ sampleIO).2 = some r ∧
        consumed r.config = true ∧
        (enroll sampleX509 0 none (some r) ⟨"p", "t", ⟨#[1]⟩⟩ sampleIO).1 =
          .error ⟨.permissionDenied, "bootstrap token invalid or already used"⟩) ∧
      ∃ c, (enroll sampleX509 0 none (some sampleRow) ⟨"p", "t", ⟨#[1]⟩⟩ sampleIO).1 = .ok c := by
  obtain ⟨r, hr, -, hauthorized⟩ := authorize_of_presents sampleX509 0 none
    (sampleRow_presented ⟨#[0]⟩ (by decide))
  obtain rfl := Option.some.inj hr
  have hsign : signCSR sampleX509 sampleIO.serial sampleIO.signedAt ⟨#[0]⟩ "p" =
      .error "bootstrapca: invalid CSR PEM" := by
    simp [signCSR, signCSRWithValidity, sampleX509]
  refine ⟨?_, ⟨used sampleX509 sampleRow, ?_, ?_, ?_⟩, ?_⟩
  · simp only [enroll, hauthorized, hsign]
    rfl
  · simp only [enroll, hauthorized, hsign]
  · simp [used]
  · simp [enroll, authorize, consumeBootstrapToken, getPlatform, sampleIO, used, consumeToken,
      registryStatus]
    decide
  · exact ((enroll_token_iff sampleX509 0 none _ _ _).mpr
      ⟨sampleRow_presented _ (by decide), sample_signable⟩).2

end Failures

section Expiry

structure Grant where
  token : String
  expiresAt : Instant

/-- A certificate that was given out for a token, with the newest token at the time.
The gateway's clock is in nanoseconds. -/
structure Admission where
  now : ℤ
  token : String
  latest : Option Grant

/-- The platform, the tokens issued for it, the newest first, and the certificates
they have bought. The row holds the newest token. -/
structure World where
  row : Option Platform
  grants : List Grant
  admitted : List Admission
  latest : ∀ g, grants.head? = some g → ∃ r, row = some r ∧ storedToken r.config = g.token

variable (isoformat : Instant → String) (platformKey : String)

theorem latest_nil (row : Option Platform) (g : Grant) (h : [].head? = some g) :
    ∃ r, row = some r ∧ storedToken r.config = g.token := by
  cases h

def World.start (row : Option Platform) : World := ⟨row, [], [], latest_nil row⟩

def issuedRow (r : Platform) (g : Grant) : Platform :=
  { r with config := issuedConfig r.config g.token (isoformat g.expiresAt) }

theorem latest_issuedRow (r : Platform) (g : Grant) (gs : List Grant) (g' : Grant)
    (h : (g :: gs).head? = some g') :
    ∃ r', some (issuedRow isoformat r g) = some r' ∧ storedToken r'.config = g'.token := by
  obtain rfl : g = g' := Option.some.inj h
  exact ⟨_, rfl, storedToken_issuedConfig _ _ _⟩

/-- `issue_bootstrap_token`. A platform that is missing and an expiry that is no
`datetime` are errors, and nothing is committed. -/
def World.issueBootstrapToken (w : World) (now : Instant) (ttlHours : ℤ) (token : String) :
    World :=
  match w.row, Py.addSeconds now (ttlHours*3600) with
  | some r, some expiresAt =>
    ⟨some (issuedRow isoformat r ⟨token, expiresAt⟩), ⟨token, expiresAt⟩ :: w.grants, w.admitted,
      latest_issuedRow isoformat r _ _⟩
  | _, _ => w

theorem World.latest_enroll (w : World) (now : ℤ) (auth : AuthInfo) (req : EnrollRequest)
    (io : EnrollIO) (g : Grant) (h : w.grants.head? = some g) :
    ∃ r, (enroll X now auth w.row req io).2 = some r ∧ storedToken r.config = g.token := by
  obtain ⟨r, hr, hstored⟩ := w.latest g h
  grind [enroll_row, used, storedToken_markConsumed]

def World.admission (w : World) (now : ℤ) (token : String)
    (answer : Except Identity.Status Certificate) : List Admission :=
  match answer with
  | .ok _ => if token = "" then [] else [⟨now, token, w.grants.head?⟩]
  | .error _ => []

def World.enroll (w : World) (now : ℤ) (auth : AuthInfo) (req : EnrollRequest) (io : EnrollIO) :
    World where
  row := (Identity.enroll X now auth w.row req io).2
  grants := w.grants
  admitted := w.admission now req.bootstrapToken (Identity.enroll X now auth w.row req io).1 ++
    w.admitted
  latest := w.latest_enroll X now auth req io

inductive Event where
  | issue (now : Instant) (ttlHours : ℤ) (token : String)
  | enroll (now : ℤ) (auth : AuthInfo) (token : String) (csrPem : ByteArray) (io : EnrollIO)

/-- Calls for one platform in any order, each with the instant its service's clock
shows. `token` of an issue is what `secrets.token_urlsafe` draws. -/
def World.step (w : World) : Event → Option World
  | .issue now ttlHours token => some (w.issueBootstrapToken isoformat now ttlHours token)
  | .enroll now auth token csrPem io => some (w.enroll X now auth ⟨platformKey, token, csrPem⟩ io)

def platform : System World Event where
  init w := ∃ row, w = World.start row
  step := World.step X isoformat platformKey

def Admission.Lawful (a : Admission) : Prop :=
  ∃ g, a.latest = some g ∧ a.token = g.token ∧ a.now < g.expiresAt*1000

def Enforced (w : World) : Prop := ∀ a ∈ w.admitted, a.Lawful

/-- The unused token of the row comes with a request that can be signed only while
an issued token stands there and has not expired. -/
def Timely (w : World) : Event → Prop
  | .issue _ _ _ => True
  | .enroll now _ token csrPem io =>
    Presents w.row ⟨platformKey, token, csrPem⟩ io → Signable X ⟨platformKey, token, csrPem⟩ io →
      ∃ g, w.grants.head? = some g ∧ now < g.expiresAt*1000

theorem admitted_issue (w : World) (now : Instant) (ttlHours : ℤ) (token : String) :
    (w.issueBootstrapToken isoformat now ttlHours token).admitted = w.admitted := by
  unfold World.issueBootstrapToken
  split <;> rfl

theorem mem_admission (w : World) (now : ℤ) (auth : AuthInfo) (req : EnrollRequest)
    (io : EnrollIO) (a : Admission) :
    a ∈ w.admission now req.bootstrapToken (enroll X now auth w.row req io).1 ↔
      Presents w.row req io ∧ Signable X req io ∧
        a = ⟨now, req.bootstrapToken, w.grants.head?⟩ := by
  rw [← and_assoc, ← enroll_token_iff X now auth]
  grind [enroll, World.admission]

theorem lawful_of_presents (w : World) (now : ℤ) (req : EnrollRequest) (io : EnrollIO)
    (h : Presents w.row req io) :
    (⟨now, req.bootstrapToken, w.grants.head?⟩ : Admission).Lawful ↔
      ∃ g, w.grants.head? = some g ∧ now < g.expiresAt*1000 := by
  obtain ⟨-, -, -, -, r, hr, -, hstored⟩ := h
  constructor
  · rintro ⟨g, hg, -, hlt⟩
    exact ⟨g, hg, hlt⟩
  · rintro ⟨g, hg, hlt⟩
    obtain ⟨r', hr', hnewest⟩ := w.latest g hg
    obtain rfl : r = r' := Option.some.inj (hr.symm.trans hr')
    exact ⟨g, hg, hstored.symm.trans hnewest, hlt⟩

theorem enforced_step (w t : World) (e : Event) (h : Enforced w)
    (hs : w.step X isoformat platformKey e = some t) :
    Enforced t ↔ Timely X platformKey w e := by
  cases e with
  | issue now ttlHours token =>
    obtain rfl := Option.some.inj hs
    have hsame := admitted_issue isoformat w now ttlHours token
    simp only [Enforced, hsame, Timely]
    exact iff_of_true h trivial
  | enroll now auth token csrPem io =>
    obtain rfl := Option.some.inj hs
    constructor
    · intro ht hpresents hsignable
      have hnew := (mem_admission X w now auth _ io _).mpr ⟨hpresents, hsignable, rfl⟩
      have hlawful := ht _ (List.mem_append_left _ hnew)
      exact (lawful_of_presents w now _ io hpresents).mp hlawful
    · intro htimely a ha
      rcases List.mem_append.mp ha with hnew | hold
      · obtain ⟨hpresents, hsignable, rfl⟩ := (mem_admission X w now auth _ io a).mp hnew
        exact (lawful_of_presents w now _ io hpresents).mpr (htimely hpresents hsignable)
      · exact h a hold

/-- Along a history of issues and calls, every certificate given out for a token was
for the newest one and in time, exactly if no token was presented late: the gateway
does not look. -/
theorem expiry_enforced_iff (row : Option Platform) (events : List Event) :
    (platform X isoformat platformKey).Along Enforced (World.start row) events ↔
      (platform X isoformat platformKey).Allowed (Timely X platformKey) (World.start row)
        events := by
  apply along_iff_allowed
  · intro w e t h hs
    exact enforced_step X isoformat platformKey w t e h hs
  · intro a ha
    cases ha

/-- A token issued for a day buys a certificate after two. -/
theorem expired_token_admitted :
    ∃ w, (platform sampleX509 (fun _ => "2030") "p").run
        (World.start (some ⟨none, fun _ => none⟩))
        [.issue 0 24 "t", .enroll (hours 48) none "t" ⟨#[1]⟩ sampleIO] = some w ∧
      ⟨hours 48, "t", some ⟨"t", 86400000000⟩⟩ ∈ w.admitted ∧ ¬Enforced w := by
  let issued : World := (World.start (some ⟨none, fun _ => none⟩)).issueBootstrapToken
    (fun _ => "2030") 0 24 "t"
  have hrow : issued.row = some sampleRow := rfl
  have hlatest : issued.grants.head? = some ⟨"t", 86400000000⟩ := rfl
  have hpresents : Presents issued.row ⟨"p", "t", ⟨#[1]⟩⟩ sampleIO := by
    rw [hrow]
    exact sampleRow_presented _ (by decide)
  have hbought : ⟨hours 48, "t", some ⟨"t", 86400000000⟩⟩ ∈
      (issued.enroll sampleX509 (hours 48) none ⟨"p", "t", ⟨#[1]⟩⟩ sampleIO).admitted := by
    apply List.mem_append_left
    rw [mem_admission, hlatest]
    exact ⟨hpresents, sample_signable, rfl⟩
  refine ⟨_, rfl, hbought, ?_⟩
  intro henforced
  obtain ⟨g, hg, -, hlt⟩ := henforced _ hbought
  grind [hours, minutes, seconds]

end Expiry

end DbAgent.BootstrapToken
