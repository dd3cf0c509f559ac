import Mathlib
import DbAgent.PlatformRegistry
import DbAgent.RowTable
import DbAgent.TransitionSystem

/-! The identity of a platform: `Enroll` on the two listeners of the gateway, the
bootstrap CA that signs the requests, and the sessions that are opened with the
certificates. A client certificate is traced back through the calls that gave it
out. -/
namespace DbAgent.Identity

open Registry Transition List

def seconds (n : ℤ) : ℤ := n*1000000000
def minutes (n : ℤ) : ℤ := seconds (n*60)
def hours (n : ℤ) : ℤ := minutes (n*60)

def clientValidity : ℤ := hours 24

def wholeSeconds (t : ℤ) : ℤ := t-t%seconds 1

inductive ExtKeyUsage where
  | any | serverAuth | clientAuth
  deriving DecidableEq, Repr

structure Certificate where
  serialNumber : ℕ
  commonName : String
  notBefore : ℤ
  notAfter : ℤ
  extKeyUsage : List ExtKeyUsage
  publicKey : ByteArray
  deriving DecidableEq

structure CertificateRequest where
  publicKey : ByteArray

/-- What the libraries make of a certificate request; nothing is assumed of it.
`createCertificate` may refuse a template. -/
structure X509 where
  decode : ByteArray → Option (String × ByteArray)
  parseCertificateRequest : ByteArray → Except String CertificateRequest
  checkSignature : CertificateRequest → Except String Unit
  createCertificate : Certificate → Except String Unit
  quote : String → String
  float64 : Py.Number → Py.Number

variable (X : X509)

/-- The template of `SignCSRWithValidity` with the key of the request: the
subject is the platform's key whatever the request asks for. -/
def clientTemplate (serial : ℕ) (csr : CertificateRequest) (platformKey : String)
    (notBefore notAfter : ℤ) : Certificate where
  serialNumber := serial
  commonName := platformKey
  notBefore := wholeSeconds notBefore
  notAfter := wholeSeconds notAfter
  extKeyUsage := [.clientAuth]
  publicKey := csr.publicKey

def signCSRWithValidity (serial : Except String ℕ) (csrPem : ByteArray) (platformKey : String)
    (notBefore notAfter : ℤ) : Except String Certificate :=
  match X.decode csrPem with
  | none => .error "bootstrapca: invalid CSR PEM"
  | some (type, bytes) =>
    if type ≠ "CERTIFICATE REQUEST" then .error "bootstrapca: invalid CSR PEM"
    else match X.parseCertificateRequest bytes with
      | .error e => .error ("bootstrapca: parse CSR: " ++ e)
      | .ok csr =>
        match X.checkSignature csr with
        | .error e => .error ("bootstrapca: CSR signature invalid: " ++ e)
        | .ok () =>
          match serial with
          | .error e => .error e
          | .ok n =>
            let template := clientTemplate n csr platformKey notBefore notAfter
            match X.createCertificate template with
            | .error e => .error ("bootstrapca: sign CSR: " ++ e)
            | .ok () => .ok template

def signCSR (serial : Except String ℕ) (now : ℤ) (csrPem : ByteArray) (platformKey : String) :
    Except String Certificate :=
  signCSRWithValidity X serial csrPem platformKey (now-minutes 5) (now+clientValidity)

inductive Code where
  | invalidArgument | notFound | permissionDenied | unauthenticated | internal
  deriving DecidableEq, Repr

structure Status where
  code : Code
  message : String
  deriving DecidableEq, Repr

structure EnrollRequest where
  platformKey : String
  bootstrapToken : String
  csrPem : ByteArray

/-- The TLS state of a connection, without which there is no `TLSInfo`. -/
abbrev AuthInfo := Option (List Certificate)

def noCertificate : Status where
  code := .unauthenticated
  message := "renewal (empty bootstrap_token) requires an authenticated mTLS client certificate"

def authenticateRenewal (now : ℤ) (auth : AuthInfo) (platformKey : String) :
    Except Status Unit :=
  match auth with
  | none => .error noCertificate
  | some [] => .error noCertificate
  | some (cert :: _) =>
    if cert.commonName ≠ platformKey then
      .error ⟨.permissionDenied, "certificate CN " ++ X.quote cert.commonName ++
        " does not match platform_key " ++ X.quote platformKey⟩
    else if ¬now < cert.notAfter then
      .error ⟨.permissionDenied,
        "client certificate has expired; re-enroll with a fresh bootstrap token"⟩
    else .ok ()

/-- What a call meets outside the handler: a fault of the database, the serial
number drawn, and the instant of the signature. -/
structure EnrollIO where
  fault : Option String
  serial : Except String ℕ
  signedAt : ℤ

def getPlatform (fault : Option String) (row : Option Platform) : Except RegistryError Platform :=
  match fault, row with
  | some e, _ => .error (.other e)
  | none, none => .error .platformNotFound
  | none, some row => .ok row

/-- `ConsumeBootstrapToken`, one transaction: the row it leaves. -/
def consumeBootstrapToken (fault : Option String) (row : Option Platform) (token : String) :
    Except RegistryError Platform :=
  match getPlatform fault row with
  | .error e => .error e
  | .ok row =>
    match consumeToken X.float64 row.config token with
    | .error e => .error e
    | .ok config => .ok { row with config := config }

/-- The texts of `Enroll` for an error of the registry; `call` names the call. -/
def registryStatus (call : String) : RegistryError → Status
  | .platformNotFound => ⟨.notFound, "unknown platform_key"⟩
  | .invalidToken => ⟨.permissionDenied, "bootstrap token invalid or already used"⟩
  | .other e => ⟨.internal, call ++ ": " ++ e⟩

/-- Who may have a certificate for the platform, and the row afterwards: `Enroll`
up to the signature. -/
def authorize (now : ℤ) (auth : AuthInfo) (row : Option Platform) (req : EnrollRequest)
    (io : EnrollIO) : Except Status (Option Platform) :=
  if req.platformKey = "" ∨ req.csrPem.size = 0 then
    .error ⟨.invalidArgument, "platform_key and csr_pem are required"⟩
  else if req.bootstrapToken = "" then
    match authenticateRenewal X now auth req.platformKey with
    | .error s => .error s
    | .ok () =>
      match getPlatform io.fault row with
      | .error e => .error (registryStatus "get platform" e)
      | .ok _ => .ok row
  else
    match consumeBootstrapToken X io.fault row req.bootstrapToken with
    | .error e => .error (registryStatus "consume bootstrap token" e)
    | .ok row' => .ok (some row')

/-- `Enroll`: the answer, and the row of the platform. A token stays used if the
request cannot be signed. -/
def enroll (now : ℤ) (auth : AuthInfo) (row : Option Platform) (req : EnrollRequest)
    (io : EnrollIO) : Except Status Certificate × Option Platform :=
  match authorize X now auth row req io with
  | .error s => (.error s, row)
  | .ok row' =>
    match signCSR X io.serial io.signedAt req.csrPem req.platformKey with
    | .error e => (.error ⟨.invalidArgument, "sign csr: " ++ e⟩, row')
    | .ok c => (.ok c, row')

def verifyClientCertCN (auth : AuthInfo) (platformKey : String) : Except String Unit :=
  match auth with
  | none => .ok ()
  | some [] => .ok ()
  | some (cert :: _) =>
    if cert.commonName ≠ platformKey then
      .error ("client certificate CN " ++ X.quote cert.commonName ++
        " does not match claimed platform_key " ++ X.quote platformKey)
    else .ok ()

/-- What `Session` meets outside the handler. -/
structure SessionIO where
  getFault : Option String
  upsertFault : Option String

/-- `Session` up to `admitSession`: the key under which the handle is published.
The first frame is a `Register` with a platform's key, or another frame. -/
def openSession (auth : AuthInfo) (platforms : String → Option Platform)
    (register : Option String) (io : SessionIO) : Except String String :=
  match register with
  | none => .error "gwserver: first frame must be Register"
  | some key =>
    match verifyClientCertCN X auth key with
    | .error e => .error ("gwserver: " ++ e)
    | .ok () =>
      match getPlatform io.getFault (platforms key) with
      | .error _ => .error ("gwserver: unknown platform_key " ++ X.quote key)
      | .ok _ =>
        match io.upsertFault with
        | some e => .error ("gwserver: upsert probe: " ++ e)
        | none => .ok key

/-- The listeners of the gateway. `Bootstrap` is served on both, `ProbeGateway` on
the Session listener only. -/
inductive Listener where
  | bootstrap | session
  deriving DecidableEq, Repr

structure Connection where
  listener : Listener
  auth : AuthInfo

/-- A call of `Enroll` as it was made and answered. -/
structure EnrollCall where
  now : ℤ
  auth : AuthInfo
  row : Option Platform
  request : EnrollRequest
  response : Except Status Certificate

def issued (calls : List EnrollCall) : List Certificate :=
  calls.filterMap fun call => call.response.toOption

inductive Holder where
  | gateway
  | client (n : ℕ)
  deriving DecidableEq, Repr

/-- `own` are the certificates of the CA itself and of the listeners. A session is
known by the connection it came over. -/
structure World where
  now : ℤ
  platforms : String → Option Platform
  own : List Certificate
  calls : List EnrollCall
  connections : ℕ → Option Connection
  sessionsByPlatform : String → Option ℕ

def Certificate.forClients (c : Certificate) : Bool :=
  c.extKeyUsage.isEmpty || c.extKeyUsage.contains .clientAuth || c.extKeyUsage.contains .any

/-- `tls.RequireAndVerifyClientCert` with the bootstrap CA as the only root. Only
what the CA has signed carries its signature. -/
def World.verifies (w : World) (c : Certificate) : Bool :=
  decide (c ∈ w.own ++ issued w.calls) && decide (c.notBefore ≤ w.now ∧ w.now ≤ c.notAfter) &&
    c.forClients

inductive Event where
  | tick (now : ℤ)
  | write (platformKey : String) (row : Option Platform)
  | dial (connection : ℕ)
  | handshake (connection client : ℕ) (leaf : Certificate) (rest : List Certificate)
  | enroll (connection : ℕ) (request : EnrollRequest) (io : EnrollIO)
  | session (connection : ℕ) (register : Option String) (io : SessionIO)
  | teardown (platformKey : String) (connection : ℕ)

variable (holder : ByteArray → Holder)

/-- `dial` reaches the Bootstrap listener, which asks for no certificate, and
`handshake` the Session listener, for a client that holds the key of the leaf.
`write` is any other writer of the registry. -/
def World.step (w : World) : Event → Option World
  | .tick now => if w.now ≤ now then some { w with now := now } else none
  | .write key row => some { w with platforms := Function.update w.platforms key row }
  | .dial cid =>
    match w.connections cid with
    | some _ => none
    | none => some { w with
        connections := Function.update w.connections cid (some ⟨.bootstrap, some []⟩) }
  | .handshake cid client leaf rest =>
    match w.connections cid with
    | some _ => none
    | none =>
      if w.verifies leaf = true ∧ holder leaf.publicKey = .client client then some { w with
        connections := Function.update w.connections cid (some ⟨.session, some (leaf :: rest)⟩) }
      else none
  | .enroll cid req io =>
    match w.connections cid with
    | none => none
    | some conn =>
      if w.now ≤ io.signedAt then
        let row := w.platforms req.platformKey
        let answer := enroll X w.now conn.auth row req io
        some { w with
          platforms := Function.update w.platforms req.platformKey answer.2
          calls := w.calls ++ [⟨w.now, conn.auth, row, req, answer.1⟩] }
      else none
  | .session cid register io =>
    match w.connections cid with
    | some ⟨.session, auth⟩ =>
      match openSession X auth w.platforms register io with
      | .error _ => some w
      | .ok key => some { w with
          sessionsByPlatform := Function.update w.sessionsByPlatform key (some cid) }
    | _ => none
  | .teardown key cid =>
    if w.sessionsByPlatform key = some cid then some { w with
      sessionsByPlatform := Function.update w.sessionsByPlatform key none }
    else some w

/-- A gateway that has answered no call yet. The keys of its own certificates are
with it alone. -/
def gateway : System World Event where
  init w := w.calls = [] ∧ (∀ c ∈ w.own, holder c.publicKey = .gateway) ∧
    (∀ cid, w.connections cid = none) ∧ ∀ key, w.sessionsByPlatform key = none
  step := World.step X holder

/-- A certificate of platform `P` that goes back, through renewals each
authenticated by an unexpired certificate of `P` that goes back so itself, to a
call that presented the stored and unused token of `P`. -/
inductive Descends (P : String) : List EnrollCall → Certificate → Prop
  | later {calls : List EnrollCall} {c : Certificate} (call : EnrollCall)
      (h : Descends P calls c) : Descends P (calls ++ [call]) c
  | enrolled {calls : List EnrollCall} {c : Certificate} {call : EnrollCall} {row : Platform}
      (hanswer : call.response = .ok c) (hkey : call.request.platformKey = P)
      (hrow : call.row = some row) (hne : call.request.bootstrapToken ≠ "")
      (htoken : storedToken row.config = call.request.bootstrapToken)
      (hunused : consumed row.config = false) : Descends P (calls ++ [call]) c
  | renewed {calls : List EnrollCall} {c old : Certificate} {rest : List Certificate}
      {call : EnrollCall} (hanswer : call.response = .ok c)
      (hkey : call.request.platformKey = P) (hauth : call.auth = some (old :: rest))
      (hname : old.commonName = P) (hvalid : call.now < old.notAfter)
      (hold : Descends P calls old) : Descends P (calls ++ [call]) c

theorem signCSR_template (serial : Except String ℕ) (now : ℤ) (csrPem : ByteArray)
    (platformKey : String) (c : Certificate)
    (h : signCSR X serial now csrPem platformKey = .ok c) :
    ∃ n csr, c = clientTemplate n csr platformKey (now-minutes 5) (now+clientValidity) := by
  unfold signCSR signCSRWithValidity at h
  split at h
  · cases h
  split at h
  · cases h
  grind

theorem authenticateRenewal_ok (now : ℤ) (auth : AuthInfo) (platformKey : String)
    (h : authenticateRenewal X now auth platformKey = .ok ()) :
    ∃ old rest, auth = some (old :: rest) ∧ old.commonName = platformKey ∧
      now < old.notAfter := by
  unfold authenticateRenewal at h
  grind

theorem getPlatform_ok (fault : Option String) (row : Option Platform) (r : Platform)
    (h : getPlatform fault row = .ok r) : row = some r := by
  unfold getPlatform at h
  grind

theorem consumeBootstrapToken_ok (fault : Option String) (row : Option Platform) (token : String)
    (r : Platform) (h : consumeBootstrapToken X fault row token = .ok r) :
    ∃ row', row = some row' ∧ storedToken row'.config = token ∧
      consumed row'.config = false := by
  unfold consumeBootstrapToken at h
  split at h
  · cases h
  next row' hrow =>
    split at h
    · cases h
    next config hconfig =>
      obtain ⟨hunused, htoken, -, -⟩ := consumeToken_ok _ _ _ _ hconfig
      exact ⟨row', getPlatform_ok _ _ _ hrow, htoken, hunused⟩

/-- What an answered call has shown: the token of the row, or an unexpired
certificate of the platform. -/
theorem enroll_ok (now : ℤ) (auth : AuthInfo) (row : Option Platform) (req : EnrollRequest)
    (io : EnrollIO) (c : Certificate) (h : (enroll X now auth row req io).1 = .ok c) :
    c.commonName = req.platformKey ∧
      ((∃ row', row = some row' ∧ req.bootstrapToken ≠ "" ∧
          storedToken row'.config = req.bootstrapToken ∧ consumed row'.config = false) ∨
        ∃ old rest, auth = some (old :: rest) ∧ old.commonName = req.platformKey ∧
          now < old.notAfter) := by
  unfold enroll at h
  split at h
  · cases h
  next row' hauthorized =>
  split at h
  · cases h
  next c' hsigned =>
  cases h
  obtain ⟨n, csr, rfl⟩ := signCSR_template X _ _ _ _ _ hsigned
  refine ⟨rfl, ?_⟩
  unfold authorize at hauthorized
  split at hauthorized
  · cases hauthorized
  split at hauthorized
  · -- no token: only the certificate of the connection speaks for the caller
    split at hauthorized
    · cases hauthorized
    next hrenewal => exact .inr (authenticateRenewal_ok X _ _ _ hrenewal)
  next htoken =>
    split at hauthorized
    · cases hauthorized
    next hconsumed =>
      obtain ⟨row', hrow, hstored, hunused⟩ := consumeBootstrapToken_ok X _ _ _ _ hconsumed
      exact .inl ⟨row', hrow, htoken, hstored, hunused⟩

theorem openSession_ok (leaf : Certificate) (rest : List Certificate)
    (platforms : String → Option Platform) (register : Option String) (io : SessionIO)
    (key : String) (h : openSession X (some (leaf :: rest)) platforms register io = .ok key) :
    leaf.commonName = key := by
  unfold openSession at h
  grind [verifyClientCertCN]

theorem issued_append (calls : List EnrollCall) (call : EnrollCall) (c : Certificate)
    (h : c ∈ issued (calls ++ [call])) : c ∈ issued calls ∨ call.response = .ok c := by
  simp only [issued, filterMap_append, mem_append, mem_filterMap,
    mem_singleton, exists_eq_left] at h
  rcases h with h | h
  · exact .inl (mem_filterMap.mpr h)
  · right
    cases hr : call.response with
    | error s =>
      rw [hr] at h
      cases h
    | ok c' =>
      rw [hr] at h
      cases h
      rfl

theorem issued_mono (calls : List EnrollCall) (call : EnrollCall) (c : Certificate)
    (h : c ∈ issued calls) : c ∈ issued (calls ++ [call]) := by
  rw [issued, filterMap_append]
  exact mem_append_left _ h

structure Invariant (w : World) : Prop where
  own : ∀ c ∈ w.own, holder c.publicKey = .gateway
  descends : ∀ c ∈ issued w.calls, Descends c.commonName w.calls c
  authenticated : ∀ cid conn, w.connections cid = some conn →
    (∀ leaf rest, conn.auth = some (leaf :: rest) → leaf ∈ issued w.calls) ∧
      (conn.listener = .session → ∃ leaf rest, conn.auth = some (leaf :: rest))
  sessions : ∀ key cid, w.sessionsByPlatform key = some cid →
    ∃ conn leaf rest, w.connections cid = some conn ∧ conn.auth = some (leaf :: rest) ∧
      leaf.commonName = key

theorem invariant_connect (w : World) (cid : ℕ) (conn : Connection) (h : Invariant holder w)
    (hfree : w.connections cid = none)
    (hleaf : ∀ leaf rest, conn.auth = some (leaf :: rest) → leaf ∈ issued w.calls)
    (hsession : conn.listener = .session → ∃ leaf rest, conn.auth = some (leaf :: rest)) :
    Invariant holder { w with
      connections := Function.update w.connections cid (some conn) } := by
  refine ⟨h.own, h.descends, ?_, ?_⟩
  · intro cid' conn' hc
    rcases RowTable.put_cases hc with ⟨rfl, rfl⟩ | ⟨-, hold⟩
    · exact ⟨hleaf, hsession⟩
    · exact h.authenticated cid' conn' hold
  · intro key cid' hk
    obtain ⟨conn', leaf, rest, hc, hauth, hname⟩ := h.sessions key cid' hk
    grind

theorem verifies_issued (w : World) (leaf : Certificate) (client : ℕ) (h : Invariant holder w)
    (hv : w.verifies leaf = true) (hk : holder leaf.publicKey = .client client) :
    leaf ∈ issued w.calls := by
  simp only [World.verifies, Bool.and_eq_true, decide_eq_true_eq, mem_append] at hv
  rcases hv.1.1 with hown | hissued
  · rw [h.own leaf hown] at hk
    cases hk
  · exact hissued

theorem invariant_enroll (w : World) (cid : ℕ) (conn : Connection) (req : EnrollRequest)
    (io : EnrollIO) (h : Invariant holder w) (hc : w.connections cid = some conn) :
    let row := w.platforms req.platformKey
    let answer := enroll X w.now conn.auth row req io
    Invariant holder { w with
      platforms := Function.update w.platforms req.platformKey answer.2
      calls := w.calls ++ [⟨w.now, conn.auth, row, req, answer.1⟩] } := by
  intro row answer
  refine ⟨h.own, ?_, ?_, h.sessions⟩
  · intro c hmem
    rcases issued_append _ _ _ hmem with hold | hnew
    · exact .later _ (h.descends c hold)
    · obtain ⟨hname, hshown⟩ := enroll_ok X _ _ _ _ _ _ hnew
      rw [hname]
      rcases hshown with ⟨row', hrow, hne, hstored, hunused⟩ | ⟨old, rest, hauth, hold, hvalid⟩
      · exact .enrolled hnew rfl hrow hne hstored hunused
      · -- the certificate of the connection was given out by an earlier call
        have hparent := h.descends old ((h.authenticated cid conn hc).1 old rest hauth)
        rw [hold] at hparent
        exact .renewed hnew rfl hauth hold hvalid hparent
  · intro cid' conn' hc'
    obtain ⟨hleaf, hsession⟩ := h.authenticated cid' conn' hc'
    exact ⟨fun leaf rest ha => issued_mono _ _ _ (hleaf leaf rest ha), hsession⟩

theorem invariant_step (w w' : World) (e : Event) (h : Invariant holder w)
    (hs : w.step X holder e = some w') : Invariant holder w' := by
  cases e with
  | tick now =>
    simp only [World.step] at hs
    split at hs
    · cases hs
      exact ⟨h.own, h.descends, h.authenticated, h.sessions⟩
    · cases hs
  | write key row =>
    cases hs
    exact ⟨h.own, h.descends, h.authenticated, h.sessions⟩
  | dial cid => grind [World.step, invariant_connect]
  | handshake cid client leaf rest =>
    simp only [World.step] at hs
    split at hs
    · cases hs
    next hfree =>
      split at hs
      · next hcond =>
        cases hs
        apply invariant_connect holder w cid _ h hfree
        · intro leaf' rest' ha
          cases ha
          exact verifies_issued holder w leaf client h hcond.1 hcond.2
        · simp
      · cases hs
  | enroll cid req io => grind [World.step, invariant_enroll]
  | session cid register io =>
    simp only [World.step] at hs
    split at hs
    next auth hconn =>
      split at hs
      · cases hs
        exact h
      next key hopen =>
        cases hs
        grind [openSession_ok, RowTable.put_cases, Invariant]
    · cases hs
  | teardown key cid =>
    simp only [World.step] at hs
    split at hs
    · cases hs
      refine ⟨h.own, h.descends, h.authenticated, ?_⟩
      intro key' cid' hk
      exact h.sessions key' cid' (RowTable.clear_cases hk).2
    · cases hs
      exact h

theorem invariant_init (w : World) (h : (gateway X holder).init w) : Invariant holder w := by
  obtain ⟨hcalls, hown, hconn, hsessions⟩ := h
  refine ⟨hown, ?_, ?_, ?_⟩
  · intro c hc
    rw [hcalls] at hc
    cases hc
  · grind
  · grind

/-- A platform's identity is confined to those who have shown its token, or a
certificate that goes back to it. -/
theorem platform_identity_confined (w : World) (hw : (gateway X holder).Reachable w)
    (P : String) :
    (∀ c ∈ issued w.calls, c.commonName = P → Descends P w.calls c) ∧
      ∀ cid, w.sessionsByPlatform P = some cid →
        ∃ conn leaf rest, w.connections cid = some conn ∧ conn.auth = some (leaf :: rest) ∧
          leaf ∈ issued w.calls ∧ leaf.commonName = P ∧ Descends P w.calls leaf := by
  have h : Invariant holder w :=
    reachable_invariant (gateway X holder) (Invariant holder) (invariant_init X holder)
      (fun s e t hs ht => invariant_step X holder s t e hs ht) w hw
  constructor
  · intro c hc hname
    exact hname ▸ h.descends c hc
  · intro cid hk
    obtain ⟨conn, leaf, rest, hc, hauth, hname⟩ := h.sessions P cid hk
    have hleaf := (h.authenticated cid conn hc).1 leaf rest hauth
    exact ⟨conn, leaf, rest, hc, hauth, hleaf, hname, hname ▸ h.descends leaf hleaf⟩

section Instance

def plainX509 : X509 where
  decode bytes := some ("CERTIFICATE REQUEST", bytes)
  parseCertificateRequest bytes := .ok ⟨bytes⟩
  checkSignature _ := .ok ()
  createCertificate _ := .ok ()
  quote s := s
  float64 n := n

def probeKey : ByteArray := ⟨#[7]⟩

def plainHolder (key : ByteArray) : Holder := if key = probeKey then .client 1 else .gateway

def tokenRow : Platform where
  displayName := none
  config := fun k => if k = "bootstrap_token" then some (.str "t") else none

def plainWorld : World where
  now := 0
  platforms := fun key => if key = "p" then some tokenRow else none
  own := [⟨0, "dbagent probe-gateway bootstrap CA", 0, hours 87600, [], ⟨#[1]⟩⟩]
  calls := []
  connections := fun _ => none
  sessionsByPlatform := fun _ => none

def plainRun : List Event :=
  [.dial 0,
    .enroll 0 ⟨"p", "t", probeKey⟩ ⟨none, .ok 5, 0⟩,
    .handshake 1 1 (clientTemplate 5 ⟨probeKey⟩ "p" (-minutes 5) clientValidity) [],
    .session 1 (some "p") ⟨none, none⟩,
    .tick (hours 13),
    .enroll 1 ⟨"p", "", probeKey⟩ ⟨none, .ok 6, hours 13⟩]

theorem platform_identity_renewed :
    ∃ w, (gateway plainX509 plainHolder).Reachable w ∧ (issued w.calls).length = 2 ∧
      w.sessionsByPlatform "p" = some 1 ∧
      (∀ c ∈ issued w.calls, c.commonName = "p" → Descends "p" w.calls c) ∧
      ∀ cid, w.sessionsByPlatform "p" = some cid →
        ∃ conn leaf rest, w.connections cid = some conn ∧ conn.auth = some (leaf :: rest) ∧
          leaf ∈ issued w.calls ∧ leaf.commonName = "p" ∧ Descends "p" w.calls leaf := by
  have hinit : (gateway plainX509 plainHolder).init plainWorld := by
    refine ⟨rfl, ?_, fun _ => rfl, fun _ => rfl⟩
    decide
  have hw := run_reachable _ plainRun plainWorld _ (.init hinit) rfl
  exact ⟨_, hw, rfl, rfl, platform_identity_confined plainX509 plainHolder _ hw "p"⟩

end Instance

end DbAgent.Identity
