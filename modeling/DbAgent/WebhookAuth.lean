import DbAgent.CanonicalText
import DbAgent.DeployConfig

/-! Which requests `post_events` of the ingest gateway lets through, for the
secrets that the configuration and the environment give it. -/
namespace DbAgent.Webhook

open Deploy List JsonText CodePoint

structure Request where
  body : List UInt8
  xSignature : Option Text
  xAlertSource : Option Text

/-- `HMACAuthError`: "missing X-Signature header", "invalid signature",
"unknown source" and "unknown source: " with the source. -/
inductive AuthError (α : Type) where
  | missingSignature
  | invalidSignature
  | noSource
  | unknownSource (source : Datum α)

/-- How a request ends before `ingest`: with status 400 or 401, or with an
exception that nobody handles. -/
inductive Refusal (α : Type) where
  | invalidJson
  | unauthorized (e : AuthError α)
  | raised (e : Error)

/-- What the libraries do: `bytes.decode("utf-8")`, `json.loads`, whose own
error is `none`, and the 32 bytes of HMAC-SHA256 for a key and a message. -/
structure Libraries (α : Type) where
  decode : List UInt8 → Option Text
  loads : Text → Except (Option Error) (Datum α)
  hmacSha256 : List UInt8 → List UInt8 → Fin 32 → UInt8

def encode : Text → Except Error (List UInt8)
  | [] => .ok []
  | .char c :: t => do return String.utf8EncodeChar c ++ (← encode t)
  | .surrogate _ :: _ => .error .unicodeEncodeError

def hexdigest (d : Fin 32 → UInt8) : Text :=
  (List.ofFn d).flatMap fun b =>
    [.char (hexDigit (b.toNat/16)), .char (hexDigit b.toNat)]

def strip (t : Text) : Text := Trimming.trim (is Py.isSpace) t

def lower : CodePoint → CodePoint
  | .char c => .char c.toLower
  | .surrogate n => .surrogate n

/-- `provided.lower().startswith("sha256=")`; nothing outside ASCII has a lower
case in that text. -/
def hasScheme (t : Text) : Bool := (t.take 7).map lower = text "sha256="

/-- The digest in the `X-Signature` header. -/
def providedDigest (header : Text) : Text :=
  let provided := strip header
  if hasScheme provided then strip (provided.dropWhile (· ≠ .char '=')).tail else provided

def isAscii (t : Text) : Bool := t.all (is (fun c => c.toNat < 128))

/-- `hmac.compare_digest` of strings. -/
def compareDigest (a b : Text) : Except Error Bool :=
  if isAscii a && isAscii b then .ok (a = b) else .error .typeError

section Gateway

variable {α : Type} [DecidableEq α] (A : Atoms α) (L : Libraries α)

def unhandled {β : Type} (x : Except Error β) : Except (Refusal α) β := x.mapError .raised

def computeSignature (body : List UInt8) : Datum α → Except Error Text
  | .str t => do return hexdigest (L.hmacSha256 (← encode t) body)
  | _ => .error .attributeError

def verifySignature (body : List UInt8) (signatureHeader : Option Text) (secret : Datum α) :
    Except (Refusal α) Unit :=
  match signatureHeader with
  | none => .error (.unauthorized .missingSignature)
  | some [] => .error (.unauthorized .missingSignature)
  | some header => do
    let expected ← unhandled (computeSignature L body secret)
    let same ← unhandled (compareDigest (providedDigest header) expected)
    if same then return () else .error (.unauthorized .invalidSignature)

def resolveSourceSecret (sources : Secrets α) (source : Datum α) :
    Except (Refusal α) (Datum α) :=
  if source.truthy A then
    if source.hashable A then
      match secretOf A sources source with
      | none => .error (.unauthorized (.unknownSource source))
      | some (.atom a) =>
        if a = A.none then .error (.unauthorized (.unknownSource source)) else .ok (.atom a)
      | some secret => .ok secret
    else .error (.raised .typeError)
  else .error (.unauthorized .noSource)

def requestSource (body : List UInt8) (xAlertSource : Option Text) :
    Except (Refusal α) (Datum α × Datum α) := do
  let decoded ← (L.decode body).elim (.error (.raised .unicodeDecodeError)) .ok
  let raw ← (L.loads (if decoded = [] then text "\x7b\x7d" else decoded)).mapError fun e =>
    e.elim .invalidJson .raised
  let given ← unhandled (raw.get "source" (.atom A.none))
  return (raw, given.orElse A (xAlertSource.elim (.atom A.none) .str))

/-- `{**raw, "source": source}` where the dictionary has no source of its own. -/
def withSource (raw source : Datum α) : Datum α :=
  match raw with
  | .dict kvs =>
    if !(lookup "source" kvs).any (Datum.truthy A) && source.truthy A then
      let key : Key α := .str (text "source")
      if kvs.any (fun kv => kv.1 = key) then
        .dict (kvs.map fun kv => if kv.1 = key then (key, source) else kv)
      else .dict (kvs ++ [(key, source)])
    else raw
  | raw => raw

/-- `post_events` up to `ingest`: the source it has authenticated, and the
dictionary it passes on. -/
def postEvents (sources : Secrets α) (req : Request) : Except (Refusal α) (Datum α × Datum α) := do
  let (raw, source) ← requestSource A L req.body req.xAlertSource
  let secret ← resolveSourceSecret A sources source
  verifySignature L req.body req.xSignature secret
  return (source, withSource A raw source)

end Gateway

section Digests

theorem hexDigit_mem (n : ℕ) : hexDigit n ∈ "0123456789abcdef".toList := by
  have hlt : n % 16 < "0123456789abcdef".toList.length := Nat.mod_lt n (by decide)
  rw [hexDigit, getD_eq_getElem?_getD, List.getElem?_eq_getElem hlt, Option.getD_some]
  exact getElem_mem hlt

theorem hexdigest_all (p : Char → Bool) (hp : "0123456789abcdef".toList.all p = true)
    (d : Fin 32 → UInt8) : ∀ c ∈ hexdigest d, is p c = true := by
  have hdigit (n : ℕ) : p (hexDigit n) = true := all_eq_true.mp hp _ (hexDigit_mem n)
  intro c hc
  obtain ⟨b, -, hb⟩ := mem_flatMap.mp hc
  rcases mem_cons.mp hb with rfl | hb
  · exact hdigit _
  · obtain rfl := mem_singleton.mp hb
    exact hdigit _

theorem hexdigest_cons (d : Fin 32 → UInt8) :
    ∃ rest, hexdigest d = .char (hexDigit ((d 0).toNat/16)) :: rest := by
  unfold hexdigest
  simp

theorem strip_hexdigest (d : Fin 32 → UInt8) : strip (hexdigest d) = hexdigest d := by
  apply Trimming.trim_of_none
  intro c hc
  have hc' := hexdigest_all (fun c => !Py.isSpace c) (by decide) d c hc
  cases c with
  | char c => simpa [is] using hc'
  | surrogate n => rfl

theorem hasScheme_hexdigest (d : Fin 32 → UInt8) : hasScheme (hexdigest d) = false := by
  obtain ⟨rest, hrest⟩ := hexdigest_cons d
  have hfirst : (hexDigit ((d 0).toNat/16)).toLower ≠ 's' := by
    have hall : "0123456789abcdef".toList.all (fun c => c.toLower != 's') = true := by decide
    simpa using all_eq_true.mp hall _ (hexDigit_mem _)
  unfold hasScheme
  apply decide_eq_false
  intro h
  rw [hrest, take_succ_cons, map_cons] at h
  have hhead : lower (.char (hexDigit ((d 0).toNat/16))) = .char 's' := (List.cons.inj h).1
  exact hfirst (char.inj hhead)

theorem providedDigest_hexdigest (d : Fin 32 → UInt8) :
    providedDigest (hexdigest d) = hexdigest d := by
  simp only [providedDigest, strip_hexdigest, hasScheme_hexdigest, Bool.false_eq_true, if_false]

theorem compareDigest_self (d : Fin 32 → UInt8) :
    compareDigest (hexdigest d) (hexdigest d) = .ok true := by
  have hascii : isAscii (hexdigest d) = true :=
    all_eq_true.mpr (hexdigest_all (fun c => c.toNat < 128) (by decide) d)
  simp [compareDigest, hascii]

end Digests

variable {β : Type}

section Accepted

variable {α : Type} [DecidableEq α] {A : Atoms α} {L : Libraries α}

omit [DecidableEq α] in
theorem unhandled_ok {x : Except Error β} {b : β}
    (h : (unhandled x : Except (Refusal α) β) = .ok b) :
    x = .ok b := by
  cases x with
  | error e => cases h
  | ok a =>
    cases h
    rfl

omit [DecidableEq α] in
theorem verifySignature_cons (body : List UInt8) (c : CodePoint) (t : Text) (secret : Datum α) :
    verifySignature L body (some (c :: t)) secret = (do
      let expected ← unhandled (computeSignature L body secret)
      let same ← unhandled (compareDigest (providedDigest (c :: t)) expected)
      if same then return () else .error (.unauthorized .invalidSignature)) := rfl

omit [DecidableEq α] in
theorem verifySignature_hexdigest (body : List UInt8) {key : List UInt8} {t : Text}
    (hkey : encode t = .ok key) :
    verifySignature L body (some (hexdigest (L.hmacSha256 key body))) (.str t) = .ok () := by
  have hsign : computeSignature L body (.str t) = .ok (hexdigest (L.hmacSha256 key body)) := by
    rw [computeSignature, hkey]
    rfl
  obtain ⟨rest, hrest⟩ := hexdigest_cons (L.hmacSha256 key body)
  rw [hrest, verifySignature_cons, ← hrest, hsign, providedDigest_hexdigest]
  simp only [unhandled, Except.mapError, Py.ok_bind, compareDigest_self, if_true]
  rfl

omit [DecidableEq α] in
theorem verifySignature_ok {body : List UInt8} {header : Option Text} {secret : Datum α}
    (h : verifySignature L body header secret = .ok ()) : ∃ t, secret = .str t := by
  cases header with
  | none => cases h
  | some header =>
    cases header with
    | nil => cases h
    | cons c t =>
      rw [verifySignature_cons] at h
      obtain ⟨expected, hexpected, -⟩ := Py.bind_ok h
      have hsign := unhandled_ok hexpected
      cases secret with
      | str t => exact ⟨t, rfl⟩
      | _ => cases hsign

variable {sources : Secrets α}

theorem resolveSourceSecret_ok {source secret : Datum α}
    (h : resolveSourceSecret A sources source = .ok secret) :
    source.truthy A = true ∧ source.hashable A = true ∧
      secretOf A sources source = some secret := by grind [resolveSourceSecret]

theorem resolveSourceSecret_str {source : Datum α} {t : Text} (htruthy : source.truthy A = true)
    (hhash : source.hashable A = true) (hs : secretOf A sources source = some (.str t)) :
    resolveSourceSecret A sources source = .ok (.str t) := by
  rw [resolveSourceSecret, if_pos htruthy, if_pos hhash, hs]

def Names (A : Atoms α) (L : Libraries α) (body : List UInt8) (xAlertSource : Option Text)
    (source : Datum α) : Prop :=
  (∃ raw, requestSource A L body xAlertSource = .ok (raw, source)) ∧
    source.truthy A = true ∧ source.hashable A = true

theorem postEvents_ok {req : Request} {source raw : Datum α}
    (h : postEvents A L sources req = .ok (source, raw)) :
    Names A L req.body req.xAlertSource source ∧
      ∃ t, secretOf A sources source = some (.str t) := by
  obtain ⟨⟨raw', source'⟩, hreq, h⟩ := Py.bind_ok h
  obtain ⟨secret, hsecret, h⟩ := Py.bind_ok h
  obtain ⟨_, hverify, h⟩ := Py.bind_ok h
  cases h
  obtain ⟨htruthy, hhash, hlook⟩ := resolveSourceSecret_ok hsecret
  obtain ⟨t, rfl⟩ := verifySignature_ok hverify
  exact ⟨⟨⟨raw', hreq⟩, htruthy, hhash⟩, t, hlook⟩

theorem postEvents_empty {body : List UInt8} {xAlertSource : Option Text} {source : Datum α}
    (hn : Names A L body xAlertSource source) (hs : secretOf A sources source = some (.str [])) :
    ∃ raw, postEvents A L sources ⟨body, some (hexdigest (L.hmacSha256 [] body)), xAlertSource⟩ =
      .ok (source, raw) := by
  obtain ⟨⟨raw, hreq⟩, htruthy, hhash⟩ := hn
  refine ⟨withSource A raw source, ?_⟩
  have hsecret := resolveSourceSecret_str htruthy hhash hs
  have hkey : encode [] = .ok [] := rfl
  have hverify := verifySignature_hexdigest (L := L) body hkey
  simp only [postEvents, hreq, hsecret, hverify, Py.ok_bind]
  rfl

/-- The requests with a given body and `X-Alert-Source` need a secret to be
authenticated exactly if the source they name has one. -/
theorem secret_required_iff (A : Atoms α) (L : Libraries α) (env : Environ) (doc : Datum α)
    (sources : Secrets α) (hb : buildSecrets A env doc = .ok sources) (body : List UInt8)
    (xAlertSource : Option Text) :
    (∀ xSignature source raw,
      postEvents A L sources ⟨body, xSignature, xAlertSource⟩ = .ok (source, raw) →
        ∃ t, t ≠ [] ∧ configuredSecret A env doc source = some (.str t)) ↔
    ∀ source, Names A L body xAlertSource source → ¬ Secretless A env doc source := by
  constructor
  · intro hall source hn hless
    -- the signature under the empty key is let through, and the secret is empty
    have hempty := (configuredSecret_empty_iff A env doc source).mpr hless
    obtain ⟨raw, hraw⟩ := postEvents_empty hn ((secretOf_eq A hb source).trans hempty)
    grind
  · intro hsome xSignature source raw h
    obtain ⟨hn, t, ht⟩ := postEvents_ok h
    grind [secretOf_eq, configuredSecret_empty_iff]

end Accepted

/-- `None` alone. -/
def noneAtoms : Atoms Unit where
  none := ()
  truthy _ := false
  truthy_none := rfl
  hashable _ := true
  equal _ _ := true

/-- The digests are those of an empty body under the keys `""` and `"k"`. -/
def sampleLibraries : Libraries Unit where
  decode bytes := (String.fromUTF8? ⟨bytes.toArray⟩).map text
  loads t :=
    if t = text "\x7b\x7d" then .ok (.dict [])
    else if t = text "[]" then .ok (.list [])
    else .error none
  hmacSha256 key _ i := UInt8.ofNat (
    (if key = [] then 0xb613679a0814d9ec772f95d778c35fc5ff1697c493715653c6c712144292c5ad
    else 0x8bb990c40a7d61cb97597a942125025be50ac8beb74436e3735b98893a7f6620) / 256 ^ (31-i.val))

def sampleDoc (secret : String) : Datum Unit :=
  .dict [(.str (text "ingest"), .dict [(.str (text "sources"), .list [
    .dict [(.str (text "name"), .str (text "grafana")),
      (.str (text "secret"), .str (text secret))]])])]

/-- With a secret in the file, `grafana` is authenticated by it only. -/
theorem secret_required_grafana :
    buildSecrets noneAtoms (fun _ => none) (sampleDoc "k") =
      .ok [(.str (text "grafana"), .str (text "k"))] ∧
    ∀ xSignature source raw, postEvents noneAtoms sampleLibraries
      [(.str (text "grafana"), .str (text "k"))] ⟨[], xSignature, some (text "grafana")⟩ =
        .ok (source, raw) →
      ∃ t, t ≠ [] ∧ configuredSecret noneAtoms (fun _ => none) (sampleDoc "k") source =
        some (.str t) := by
  have hb : buildSecrets noneAtoms (fun _ => none) (sampleDoc "k") =
      .ok [(.str (text "grafana"), .str (text "k"))] := rfl
  refine ⟨hb, (secret_required_iff noneAtoms sampleLibraries _ _ _ hb _ _).mpr ?_⟩
  rintro source ⟨⟨raw, hreq⟩, -⟩ hless
  cases hreq
  have hempty := (configuredSecret_empty_iff _ _ _ _).mpr hless
  cases hempty

/-- The variable of the secret is not set: `grafana` is authenticated by a
signature that anybody can compute. -/
theorem unset_secret_authenticates : ∃ raw,
    buildSecrets noneAtoms (fun _ => none) (sampleDoc "$\x7bGRAFANA_WEBHOOK_SECRET\x7d") =
      .ok [(.str (text "grafana"), .str [])] ∧
    postEvents noneAtoms sampleLibraries [(.str (text "grafana"), .str [])]
      ⟨[], some (hexdigest (sampleLibraries.hmacSha256 [] [])), some (text "grafana")⟩ =
        .ok (.str (text "grafana"), raw) ∧
    configuredSecret noneAtoms (fun _ => none) (sampleDoc "$\x7bGRAFANA_WEBHOOK_SECRET\x7d")
      (.str (text "grafana")) = some (.str []) :=
  ⟨_, rfl, rfl, rfl⟩

section Refused

variable {α : Type} (A : Atoms α) (L : Libraries α) (shown : α → Text)

/-- `str(source)`, which is asked for a source that is a key: a text, or an atom
as `shown` has it. -/
def sourceText : Datum α → Text
  | .str t => t
  | .atom a => shown a
  | _ => []

def AuthError.reason : AuthError α → Text
  | .missingSignature => text "missing X-Signature header"
  | .invalidSignature => text "invalid signature"
  | .noSource => text "unknown source"
  | .unknownSource source => text "unknown source: " ++ sourceText shown source

/-- The status that is sent, or the exception that leaves the application. The
handler of an `HTTPException` sends the detail as UTF-8; that of a
`JSONDecodeError` is ASCII. -/
def Refusal.status : Refusal α → Except Error ℕ
  | .invalidJson => .ok 400
  | .unauthorized e => do
    let _ ← encode (e.reason shown)
    return 401
  | .raised e => .error e

def Answered {β : Type} (x : Except (Refusal α) β) : Prop :=
  ∀ e, x = .error e → e.status shown = .ok 400 ∨ e.status shown = .ok 401

/-- What `json.loads` makes of the body, if that is UTF-8. -/
def parsed (body : List UInt8) : Option (Except (Option Error) (Datum α)) :=
  (L.decode body).map fun t => L.loads (if t = [] then text "\x7b\x7d" else t)

theorem answered_ok (b : β) : Answered shown (.ok b : Except (Refusal α) β) := by
  intro e h
  cases h

theorem answered_error (e : Refusal α) :
    Answered shown (.error e : Except (Refusal α) β) ↔
      e.status shown = .ok 400 ∨ e.status shown = .ok 401 := by
  constructor
  · intro h
    exact h e rfl
  · rintro h e' he
    cases he
    exact h

theorem not_answered_raised (e : Error) :
    ¬Answered shown (.error (.raised e) : Except (Refusal α) β) := by
  rw [answered_error]
  rintro (h | h) <;> cases h

theorem encode_ok_iff (t : Text) :
    (∃ bytes, encode t = .ok bytes) ↔ ∀ c ∈ t, ∃ d, c = .char d := by
  induction t with
  | nil => simp [encode]
  | cons c t ih =>
    cases c with
    | surrogate n => simp [encode]
    | char d =>
      rw [forall_mem_cons, ← ih, and_iff_right ⟨d, rfl⟩, encode]
      cases encode t with
      | error e => simp
      | ok bytes => simp_all

theorem encode_text_append (s : String) (t : Text) :
    (∃ bytes, encode (text s ++ t) = .ok bytes) ↔ ∃ bytes, encode t = .ok bytes := by
  have hs : ∀ c ∈ text s, ∃ d, c = .char d := by
    intro c hc
    obtain ⟨d, -, hd⟩ := mem_map.mp hc
    exact ⟨d, hd.symm⟩
  rw [encode_ok_iff, encode_ok_iff, forall_mem_append, and_iff_right hs]

theorem encode_text (s : String) : ∃ bytes, encode (text s) = .ok bytes := by
  rw [← append_nil (text s), encode_text_append]
  exact ⟨[], rfl⟩

theorem answered_unauthorized (e : AuthError α) :
    Answered shown (.error (.unauthorized e) : Except (Refusal α) β) ↔
      ∃ bytes, encode (e.reason shown) = .ok bytes := by
  rw [answered_error, Refusal.status]
  cases encode (e.reason shown) with
  | error e' => simp
  | ok bytes => simp

theorem answered_bind {γ : Type} (x : Except (Refusal α) β) (f : β → Except (Refusal α) γ) :
    Answered shown (x >>= f) ↔ Answered shown x ∧ ∀ b, x = .ok b → Answered shown (f b) := by
  cases x with
  | error e =>
    change Answered shown (.error e : Except (Refusal α) γ) ↔ _
    simp [answered_error]
  | ok b =>
    change Answered shown (f b) ↔ _
    simp [answered_ok]

theorem answered_unhandled (x : Except Error β) :
    Answered shown (unhandled x : Except (Refusal α) β) ↔ ∃ b, x = .ok b := by
  cases x with
  | error e =>
    apply iff_of_false (not_answered_raised shown e)
    grind
  | ok b => exact iff_of_true (answered_ok shown b) ⟨b, rfl⟩

theorem computeSignature_ok_iff (body : List UInt8) (secret : Datum α) :
    (∃ s, computeSignature L body secret = .ok s) ↔
      ∃ t key, secret = .str t ∧ encode t = .ok key := by
  constructor
  · rintro ⟨s, hs⟩
    cases secret with
    | str t =>
      obtain ⟨key, hkey, -⟩ := Py.bind_ok hs
      grind
    | _ => cases hs
  · rintro ⟨t, key, rfl, hkey⟩
    refine ⟨hexdigest (L.hmacSha256 key body), ?_⟩
    rw [computeSignature, hkey]
    rfl

theorem computeSignature_ascii {L : Libraries α} {body : List UInt8} {secret : Datum α} {s : Text}
    (h : computeSignature L body secret = .ok s) : isAscii s = true := by
  cases secret with
  | str t =>
    obtain ⟨key, -, hs⟩ := Py.bind_ok h
    cases hs
    exact all_eq_true.mpr (hexdigest_all (fun c => c.toNat < 128) (by decide) _)
  | _ => cases h

theorem compareDigest_ok_iff {a b : Text} (hb : isAscii b = true) :
    (∃ same, compareDigest a b = .ok same) ↔ isAscii a = true := by
  unfold compareDigest
  rw [hb, Bool.and_true]
  cases isAscii a with
  | true => grind
  | false => simp

theorem answered_verifySignature (body : List UInt8) (xSignature : Option Text) (secret : Datum α) :
    Answered shown (verifySignature L body xSignature secret) ↔
      ∀ header, xSignature = some header → header ≠ [] →
        (∃ t key, secret = .str t ∧ encode t = .ok key) ∧
          isAscii (providedDigest header) = true := by
  cases xSignature with
  | none =>
    apply iff_of_true
    · exact (answered_unauthorized shown _).mpr (encode_text _)
    · grind
  | some header =>
    cases header with
    | nil =>
      apply iff_of_true
      · exact (answered_unauthorized shown _).mpr (encode_text _)
      · simp
    | cons c t =>
      -- a digest of the wrong value is refused in order, whatever it is
      have hlast (same : Bool) : Answered shown
          (if same then return () else .error (.unauthorized .invalidSignature) :
            Except (Refusal α) Unit) := by
        cases same with
        | true => exact answered_ok shown ()
        | false => exact (answered_unauthorized shown _).mpr (encode_text _)
      rw [verifySignature_cons, answered_bind, answered_unhandled, computeSignature_ok_iff]
      constructor
      · rintro ⟨hkey, hrest⟩ header hheader -
        cases hheader
        obtain ⟨s, hs⟩ := (computeSignature_ok_iff L body secret).mpr hkey
        have hcompare := hrest s (by rw [hs]; rfl)
        rw [answered_bind, answered_unhandled,
          compareDigest_ok_iff (computeSignature_ascii hs)] at hcompare
        grind
      · intro h
        obtain ⟨hkey, hascii⟩ := h _ rfl (cons_ne_nil c t)
        refine ⟨hkey, ?_⟩
        intro s hs
        rw [answered_bind, answered_unhandled,
          compareDigest_ok_iff (computeSignature_ascii (unhandled_ok hs))]
        exact ⟨hascii, fun same _ => hlast same⟩

variable [DecidableEq α]

/-- The body is an object, and this is `raw.get("source") or x_alert_source`. -/
def Source (req : Request) (source : Datum α) : Prop :=
  ∃ kvs, parsed L req.body = some (.ok (.dict kvs)) ∧
    source = ((lookup "source" kvs).getD (.atom A.none)).orElse A
      (req.xAlertSource.elim (.atom A.none) .str)

structure Harmless (sources : Secrets α)
    (req : Request) : Prop where
  utf8 : parsed L req.body ≠ none
  json : ∀ e, parsed L req.body ≠ some (.error (some e))
  object : ∀ raw, parsed L req.body = some (.ok raw) → ∃ kvs, raw = .dict kvs
  hashable : ∀ source, Source A L req source → source.truthy A = true → source.hashable A = true
  unknown : ∀ source, Source A L req source → source.truthy A = true →
    (∀ secret, secretOf A sources source = some secret → secret = .atom A.none) →
      ∃ bytes, encode (sourceText shown source) = .ok bytes
  signature : ∀ source secret header, Source A L req source → source.truthy A = true →
    secretOf A sources source = some secret → secret ≠ .atom A.none →
    req.xSignature = some header → header ≠ [] →
      (∃ t key, secret = .str t ∧ encode t = .ok key) ∧ isAscii (providedDigest header) = true

theorem resolveSourceSecret_ok_iff (sources : Secrets α) (source secret : Datum α) :
    resolveSourceSecret A sources source = .ok secret ↔
      source.truthy A = true ∧ source.hashable A = true ∧
        secretOf A sources source = some secret ∧ secret ≠ .atom A.none := by
  constructor
  · grind [resolveSourceSecret]
  · rintro ⟨htruthy, hhash, hsecret, hne⟩
    rw [resolveSourceSecret, if_pos htruthy, if_pos hhash, hsecret]
    grind

theorem answered_resolveSourceSecret (sources : Secrets α) (source : Datum α) :
    Answered shown (resolveSourceSecret A sources source) ↔
      (source.truthy A = true → source.hashable A = true ∧
        ((∀ secret, secretOf A sources source = some secret → secret = .atom A.none) →
          ∃ bytes, encode (sourceText shown source) = .ok bytes)) := by
  by_cases htruthy : source.truthy A = true
  swap
  · rw [resolveSourceSecret, if_neg htruthy]
    exact iff_of_true ((answered_unauthorized shown _).mpr (encode_text _))
      (fun h => absurd h htruthy)
  by_cases hhash : source.hashable A = true
  swap
  · rw [resolveSourceSecret, if_pos htruthy, if_neg hhash]
    exact iff_of_false (not_answered_raised shown _) (fun h => hhash (h htruthy).1)
  simp only [htruthy, hhash, true_and, forall_const]
  by_cases hknown : ∃ secret, secretOf A sources source = some secret ∧ secret ≠ .atom A.none
  · obtain ⟨secret, hsecret, hne⟩ := hknown
    have hok := (resolveSourceSecret_ok_iff A sources source secret).mpr
      ⟨htruthy, hhash, hsecret, hne⟩
    rw [hok]
    exact iff_of_true (answered_ok shown secret) (fun h => absurd (h secret hsecret) hne)
  · have hunknown : ∀ secret, secretOf A sources source = some secret → secret = .atom A.none := by
      intro secret hsecret
      by_contra hne
      exact hknown ⟨secret, hsecret, hne⟩
    have herror : resolveSourceSecret A sources source =
        .error (.unauthorized (.unknownSource source)) := by
      rw [resolveSourceSecret, if_pos htruthy, if_pos hhash]
      cases hsecret : secretOf A sources source with
      | none => rfl
      | some secret => grind
    rw [herror, answered_unauthorized, AuthError.reason, encode_text_append]
    grind

theorem requestSource_eq (body : List UInt8) (xAlertSource : Option Text) :
    requestSource A L body xAlertSource =
      (parsed L body).elim (.error (.raised .unicodeDecodeError)) fun json => do
        let raw ← json.mapError fun e => e.elim .invalidJson .raised
        let given ← unhandled (raw.get "source" (.atom A.none))
        return (raw, given.orElse A (xAlertSource.elim (.atom A.none) .str)) := by
  unfold requestSource parsed
  cases L.decode body with
  | none => rfl
  | some t => rfl

theorem answered_requestSource (req : Request) :
    Answered shown (requestSource A L req.body req.xAlertSource) ↔
      parsed L req.body ≠ none ∧ (∀ e, parsed L req.body ≠ some (.error (some e))) ∧
        ∀ raw, parsed L req.body = some (.ok raw) → ∃ kvs, raw = .dict kvs := by
  rw [requestSource_eq]
  cases parsed L req.body with
  | none => exact iff_of_false (not_answered_raised shown _) (fun h => h.1 rfl)
  | some json =>
    cases json with
    | error e =>
      cases e with
      | none => exact iff_of_true ((answered_error shown _).mpr (.inl rfl)) (by simp)
      | some e => exact iff_of_false (not_answered_raised shown e) (fun h => h.2.1 e rfl)
    | ok raw =>
      cases raw with
      | dict kvs => exact iff_of_true (answered_ok shown _) (by simp)
      | _ => exact iff_of_false (not_answered_raised shown _) (by simp)

theorem requestSource_ok_iff (req : Request) (source : Datum α) :
    (∃ raw, requestSource A L req.body req.xAlertSource = .ok (raw, source)) ↔
      Source A L req source := by
  rw [requestSource_eq, Source]
  constructor
  · rintro ⟨raw, hraw⟩
    cases hparsed : parsed L req.body with
    | none => grind
    | some json =>
      rw [hparsed] at hraw
      obtain ⟨raw', hjson, hraw⟩ := Py.bind_ok hraw
      obtain ⟨given, hgiven, hraw⟩ := Py.bind_ok hraw
      cases json with
      | error e => cases hjson
      | ok _ =>
        cases hjson
        cases raw' with
        | dict kvs =>
          cases hgiven
          cases hraw
          grind
        | _ => cases hgiven
  · rintro ⟨kvs, hparsed, rfl⟩
    rw [hparsed]
    exact ⟨.dict kvs, rfl⟩

/-- A request that is not authenticated is answered with 400 or 401 exactly if it is
harmless: nothing else is caught. -/
theorem refused_cleanly_iff (sources : Secrets α) (req : Request) :
    (∀ e, postEvents A L sources req = .error e →
      e.status shown = .ok 400 ∨ e.status shown = .ok 401) ↔
      Harmless A L shown sources req := by
  change Answered shown (postEvents A L sources req) ↔ _
  rw [postEvents, answered_bind, answered_requestSource]
  constructor
  · rintro ⟨⟨hutf8, hjson, hobject⟩, hrest⟩
    -- the stages behind the JSON, for the source that it names
    have hstages : ∀ source, Source A L req source →
        Answered shown (resolveSourceSecret A sources source) ∧
          ∀ secret, resolveSourceSecret A sources source = .ok secret →
            Answered shown (verifySignature L req.body req.xSignature secret) := by
      intro source hs
      obtain ⟨raw, hraw⟩ := (requestSource_ok_iff A L req source).mpr hs
      have h := hrest _ hraw
      simp only [answered_bind] at h
      exact ⟨h.1, fun secret hsecret => (h.2 secret hsecret).1⟩
    have hresolve (source : Datum α) (hs : Source A L req source) :=
      (answered_resolveSourceSecret A shown sources source).mp (hstages source hs).1
    refine ⟨hutf8, hjson, hobject, ?_, ?_, ?_⟩
    · grind
    · grind
    · intro source secret header hs htruthy hsecret hne
      have hok := (resolveSourceSecret_ok_iff A sources source secret).mpr
        ⟨htruthy, (hresolve source hs htruthy).1, hsecret, hne⟩
      grind [answered_verifySignature]
  · intro h
    refine ⟨⟨h.utf8, h.json, h.object⟩, ?_⟩
    rintro ⟨raw, source⟩ hraw
    have hs := (requestSource_ok_iff A L req source).mp ⟨raw, hraw⟩
    simp only [answered_bind]
    refine ⟨?_, ?_⟩
    · rw [answered_resolveSourceSecret]
      intro htruthy
      exact ⟨h.hashable source hs htruthy, h.unknown source hs htruthy⟩
    · intro secret hsecret
      obtain ⟨htruthy, -, hlook, hne⟩ :=
        (resolveSourceSecret_ok_iff A sources source secret).mp hsecret
      refine ⟨?_, fun _ _ => answered_ok shown _⟩
      rw [answered_verifySignature]
      intro header
      exact h.signature source secret header hs htruthy hlook hne

end Refused

/-- Requests that anybody can send and that end in an exception: a byte that is not
UTF-8, a list, and a signature with a letter outside ASCII. -/
theorem unauthenticated_raises :
    postEvents noneAtoms sampleLibraries [(.str (text "grafana"), .str (text "k"))]
        ⟨[0xff], none, none⟩ = .error (.raised .unicodeDecodeError) ∧
      postEvents noneAtoms sampleLibraries [(.str (text "grafana"), .str (text "k"))]
        ⟨[0x5b, 0x5d], none, none⟩ = .error (.raised .attributeError) ∧
      postEvents noneAtoms sampleLibraries [(.str (text "grafana"), .str (text "k"))]
        ⟨[], some (text "é"), some (text "grafana")⟩ = .error (.raised .typeError) := by
  refine ⟨rfl, rfl, rfl⟩

end DbAgent.Webhook
