import Mathlib
import DbAgent.StepSigning

/-! The signed message joins its fields with bare bars. The signed fields are
free of bars and the text of the parameters cannot be entered in the middle,
so a message has one reading. -/
namespace DbAgent.Signing

open JsonText List

variable {ν : Type}

def messageText (executionId playbookId : String) (stepIndex : ℕ) (op params : String) : String :=
  executionId ++ ("|" ++ (playbookId ++ ("|" ++ (stepIndex.repr ++ ("|" ++ (op ++
    ("|" ++ params)))))))

theorem stepMessage_ok (canonicalize : Object ν → Except String String)
    (executionId playbookId : String) (stepIndex : ℕ) (op : String) (params : Object ν)
    (m : ByteArray)
    (h : stepMessage canonicalize executionId playbookId stepIndex op params = .ok m) :
    ∃ s, canonicalize params = .ok s ∧
      m = (messageText executionId playbookId stepIndex op s).toByteArray := by
  unfold stepMessage at h
  cases hs : canonicalize params with
  | error e =>
    rw [hs] at h
    cases h
  | ok s =>
    rw [hs] at h
    cases h
    refine ⟨s, rfl, ?_⟩
    simp only [joinParts, messageText, String.toByteArray_append]

theorem cut_inj {α : Type*} (x : α) (a a' r r' : List α) (ha : x ∉ a) (ha' : x ∉ a')
    (h : a ++ x :: r = a' ++ x :: r') : a = a' ∧ r = r' := by
  rcases append_eq_append_iff.mp h with ⟨as, has, hr⟩ | ⟨bs, hbs, hr⟩
  · cases as with
    | nil => grind
    | cons c as => grind
  · cases bs with
    | nil => grind
    | cons c bs => grind

theorem repr_toList_inj (m n : ℕ) (h : m.repr.toList = n.repr.toList) : m = n := by
  have hd : Nat.toDigits 10 m = Nat.toDigits 10 n := by simpa [Nat.repr] using h
  grind [Nat.ofDigitChars_toDigits]

theorem repr_no_bar (n : ℕ) : '|' ∉ n.repr.toList := by
  intro h
  have hd : '|' ∈ Nat.toDigits 10 n := by simpa [Nat.repr] using h
  exact absurd (Nat.isDigit_of_mem_toDigits (by omega) le_rfl hd) (by decide)

theorem hexDigit_ne_bar (n : ℕ) : hexDigit n ≠ '|' := by
  have hn : n%16 < 16 := Nat.mod_lt n (by omega)
  unfold hexDigit
  generalize n%16 = m at hn
  interval_cases m <;> decide

theorem uuidText_no_bar (u : Uuid) : '|' ∉ (uuidText u).toList := by
  simp [uuidText, hexDigit_ne_bar]

theorem playbookId_no_bar (p : String) (h : p ∈ playbookIds) : '|' ∉ p.toList := by
  have hall : ∀ q ∈ playbookIds, '|' ∉ q.toList := by decide
  exact hall p h

theorem writeOp_no_bar (op : String) (h : op ∈ writeOps) : '|' ∉ op.toList := by
  have hall : ∀ q ∈ writeOps, '|' ∉ q.toList := by decide
  exact hall op h

theorem fields_inj (e p i o e' p' i' o' : List Char) (he : '|' ∉ e) (hp : '|' ∉ p)
    (hi : '|' ∉ i) (ho : '|' ∉ o)
    (h : e ++ '|' :: (p ++ '|' :: (i ++ '|' :: o)) =
      e' ++ '|' :: (p' ++ '|' :: (i' ++ '|' :: o'))) :
    e = e' ∧ p = p' ∧ i = i' ∧ o = o' := by
  -- counting bars: the three separators use up all of them
  have hcount := congrArg (List.count '|') h
  simp only [count_append, count_cons_self, count_eq_zero_of_not_mem he,
    count_eq_zero_of_not_mem hp, count_eq_zero_of_not_mem hi,
    count_eq_zero_of_not_mem ho] at hcount
  have he' : '|' ∉ e' := count_eq_zero.mp (by omega)
  have hp' : '|' ∉ p' := count_eq_zero.mp (by omega)
  have hi' : '|' ∉ i' := count_eq_zero.mp (by omega)
  obtain ⟨h1, h⟩ := cut_inj '|' _ _ _ _ he he' h
  obtain ⟨h2, h⟩ := cut_inj '|' _ _ _ _ hp hp' h
  obtain ⟨h3, h4⟩ := cut_inj '|' _ _ _ _ hi hi' h
  exact ⟨h1, h2, h3, h4⟩

theorem params_inj (N : NumberText ν) (v v' : Json ν) (a a' : List Char)
    (h : a ++ '|' :: Json.canonicalText N v = a' ++ '|' :: Json.canonicalText N v') :
    a = a' ∧ v = v' := by
  rcases append_eq_append_iff.mp h with ⟨as, has, hr⟩ | ⟨bs, hbs, hr⟩
  · cases as with
    | nil => grind [canonicalText_injective]
    | cons c as =>
      have hv := (List.cons.inj hr).2
      exact absurd hv (canonicalText_no_tail N v v' as)
  · cases bs with
    | nil => grind [canonicalText_injective]
    | cons c bs =>
      have hv := (List.cons.inj hr).2
      exact absurd hv (canonicalText_no_tail N v' v bs)

variable {P : Primitives ν}

theorem message_inj (t : SignedStep ν) (r : RemediationStep ν) (m : ByteArray)
    (ht : t.message P = .ok m) (hr : r.message P = .ok m) :
    r.executionId = uuidText t.executionId ∧ r.playbookId = t.playbookId ∧
      r.stepIndex.toNat = t.stepIndex ∧ r.op = t.op ∧ structToMap r.params = t.params := by
  obtain ⟨s, hs, hm⟩ := stepMessage_ok _ _ _ _ _ _ m ht
  obtain ⟨s', hs', hm'⟩ := stepMessage_ok _ _ _ _ _ _ m hr
  have htext := congrArg String.toList (String.toByteArray_inj.mp (hm.symm.trans hm'))
  simp only [messageText, String.toList_append, P.workerConforms _ _ hs,
    P.probeConforms _ _ hs'] at htext
  have hbar : "|".toList = ['|'] := rfl
  simp only [hbar, singleton_append] at htext
  -- first the parameters are cut off at the right end, then the fields in front
  have hsplit := params_inj P.number t.params.toJson (structToMap r.params).toJson
    ((uuidText t.executionId).toList ++ '|' :: (t.playbookId.toList ++ '|' ::
      (t.stepIndex.repr.toList ++ '|' :: t.op.toList)))
    (r.executionId.toList ++ '|' :: (r.playbookId.toList ++ '|' ::
      (r.stepIndex.toNat.repr.toList ++ '|' :: r.op.toList))) (by simpa using htext)
  obtain ⟨hfields, hparams⟩ := hsplit
  obtain ⟨h1, h2, h3, h4⟩ := fields_inj _ _ _ _ _ _ _ _ (uuidText_no_bar t.executionId)
    (playbookId_no_bar _ t.playbook_mem) (repr_no_bar _) (writeOp_no_bar _ t.op_mem) hfields
  grind [String.toList_inj, repr_toList_inj, Object.ext_toJson]

def KeyRing.trusted (k : KeyRing) : List ByteArray :=
  [k.current, k.previous].filter (fun key => key.size = 32)

/-- Unforgeability of ed25519 at this request: a signature that verifies under
a trusted key belongs to a digest the worker has signed. -/
def Unforged (P : Primitives ν) (signed : List (SignedStep ν)) (keys : KeyRing)
    (r : RemediationStep ν) : Prop :=
  ∀ hash key, r.canonicalStepHash P = .ok hash → key ∈ keys.trusted →
    P.ed25519Verify key hash r.controlPlaneSignature = true →
    ∃ t ∈ signed, t.canonicalStepHash P = .ok hash

/-- Collision freedom of SHA-256 at this request: no signed message collides
with the one the probe hashes. -/
def CollisionFree (P : Primitives ν) (signed : List (SignedStep ν)) (r : RemediationStep ν) :
    Prop :=
  ∀ t ∈ signed, ∀ m m', t.message P = .ok m → r.message P = .ok m' →
    P.sha256 m = P.sha256 m' → m = m'

theorem verify_trusted (k : KeyRing) (m sig : ByteArray) (which : KeyMatched)
    (h : k.verify P m sig = some which) : ∃ key ∈ k.trusted, P.ed25519Verify key m sig = true := by
  grind [KeyRing.verify, KeyRing.trusted]

theorem verifyStep_ok (keys : KeyRing) (writeEnabled : Bool) (r : RemediationStep ν)
    (which : KeyMatched) (h : verifyStep P keys writeEnabled r = .ok which) :
    writeEnabled = true ∧ ∃ hash key, r.canonicalStepHash P = .ok hash ∧ key ∈ keys.trusted ∧
      P.ed25519Verify key hash r.controlPlaneSignature = true := by
  grind [verifyStep, verify_trusted]

theorem handleRemediationStep_ok (keys : KeyRing) (writeEnabled : Bool) (r : RemediationStep ν)
    (x : ExecutedStep ν) (h : handleRemediationStep P keys writeEnabled r = .ok x) :
    x = ⟨r.playbookId, r.stepIndex, r.op, structToMap r.params, r.executionId, true⟩ ∧
      ∃ which, verifyStep P keys writeEnabled r = .ok which := by grind [handleRemediationStep]

theorem hash_ok (m : Except String ByteArray) (hash : ByteArray) (h : m.map P.sha256 = .ok hash) :
    ∃ b, m = .ok b ∧ P.sha256 b = hash := by
  cases m with
  | error e => cases h
  | ok b =>
    cases h
    exact ⟨b, rfl, rfl⟩

/-- A step that reaches `ExecuteWrite` is, field by field, one the worker has
signed. -/
theorem write_authenticity (P : Primitives ν) (signed : List (SignedStep ν)) (keys : KeyRing)
    (writeEnabled : Bool) (r : RemediationStep ν) (x : ExecutedStep ν)
    (hforge : Unforged P signed keys r) (hcoll : CollisionFree P signed r)
    (h : handleRemediationStep P keys writeEnabled r = .ok x) :
    writeEnabled = true ∧ ∃ t ∈ signed, x.executionId = uuidText t.executionId ∧
      x.playbookId = t.playbookId ∧ x.stepIndex.toNat = t.stepIndex ∧ x.op = t.op ∧
      x.params = t.params := by
  obtain ⟨rfl, which, hv⟩ := handleRemediationStep_ok keys writeEnabled r x h
  obtain ⟨hw, hash, key, hhash, hkey, hver⟩ := verifyStep_ok keys writeEnabled r which hv
  -- the digest was signed, and equal digests come from equal messages
  obtain ⟨t, ht, hthash⟩ := hforge hash key hhash hkey hver
  obtain ⟨m, hm, hms⟩ := hash_ok _ hash hthash
  obtain ⟨m', hm', hms'⟩ := hash_ok _ hash hhash
  obtain rfl := hcoll t ht m m' hm hm' (hms.trans hms'.symm)
  exact ⟨hw, t, ht, message_inj t r m hm hm'⟩

def decimal : NumberText ℕ where
  text n := n.repr.toList
  nonempty n := by simp [Nat.repr, Nat.toDigits_ne_nil]
  chars n c hc := by
    have hd : c ∈ Nat.toDigits 10 n := by simpa [Nat.repr] using hc
    simp [isNumberChar, Nat.isDigit_of_mem_toDigits (by omega) le_rfl hd]
  injective := fun m n h => repr_toList_inj m n h

/-- Libraries that meet the assumptions: nothing is hashed, and a signature is
the message itself. -/
def transparent : Primitives ℕ where
  number := decimal
  sha256 := id
  ed25519Verify _ message signature := decide (signature = message)
  workerCanonicalize o := .ok (String.ofList (Json.canonicalText decimal o.toJson))
  probeCanonicalize o := .ok (String.ofList (Json.canonicalText decimal o.toJson))
  workerConforms := by
    rintro o s ⟨⟩
    simp
  probeConforms := by
    rintro o s ⟨⟩
    simp

def sampleParams (ν : Type) : Object ν :=
  ⟨[("query_id", .str "q|1")], by simp [Json.Canonical, Json.CanonicalMembers]⟩

def sampleSigned : SignedStep ℕ where
  executionId := 5
  playbookId := "presto.kill_query"
  stepIndex := 0
  op := "presto_kill_query"
  params := sampleParams ℕ
  playbook_mem := by decide
  op_mem := by decide

def sampleDelivery : RemediationStep ℕ where
  executionId := uuidText 5
  playbookId := "presto.kill_query"
  stepIndex := 0
  op := "presto_kill_query"
  params := some (sampleParams (StructNumber ℕ))
  controlPlaneSignature := ((sampleSigned.message transparent).toOption).getD ByteArray.empty

def sampleRing : KeyRing := ⟨⟨Array.replicate 32 0⟩, ByteArray.empty⟩

theorem sampleDelivery_message :
    sampleDelivery.message transparent = sampleSigned.message transparent := by
  rfl

theorem sampleDelivery_executed :
    handleRemediationStep transparent sampleRing true sampleDelivery =
      .ok ⟨"presto.kill_query", 0, "presto_kill_query", sampleParams ℕ, uuidText 5, true⟩ := by
  have hsize : sampleRing.current.size = 32 := rfl
  have hhash : sampleDelivery.canonicalStepHash transparent =
      .ok sampleDelivery.controlPlaneSignature := rfl
  have hver : sampleRing.verify transparent sampleDelivery.controlPlaneSignature
      sampleDelivery.controlPlaneSignature = some .current := by
    rw [KeyRing.verify, if_pos ⟨hsize, by simp [transparent]⟩]
  simp only [handleRemediationStep, verifyStep, hhash, hver]
  rfl

theorem write_authenticity_sampleDelivery :
    ∃ x, handleRemediationStep transparent sampleRing true sampleDelivery = .ok x ∧
      ∃ t ∈ [sampleSigned], x.executionId = uuidText t.executionId ∧ x.op = t.op ∧
        x.params = t.params := by
  have hforge : Unforged transparent [sampleSigned] sampleRing sampleDelivery := by
    intro hash key hhash _ _
    refine ⟨sampleSigned, mem_singleton.mpr rfl, ?_⟩
    rw [← hhash, RemediationStep.canonicalStepHash, sampleDelivery_message]
    rfl
  have hcoll : CollisionFree transparent [sampleSigned] sampleDelivery :=
    fun t _ m m' _ _ h => h
  obtain ⟨-, t, ht, h1, -, -, h4, h5⟩ := write_authenticity transparent [sampleSigned] sampleRing
    true sampleDelivery _ hforge hcoll sampleDelivery_executed
  exact ⟨_, sampleDelivery_executed, t, ht, h1, h4, h5⟩

end DbAgent.Signing
