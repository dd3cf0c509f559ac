import DbAgent.PlatformIdentity

/-! The reconnect loop of the probe. `maybeRenew` looks at the certificate between
two sessions and at no other time. -/
namespace DbAgent.Renewal

open Identity

/-- The window of the client certificate, `Result.Expiry`. -/
structure Validity where
  notBefore : ℤ
  notAfter : ℤ
  deriving DecidableEq, Repr

/-- The window of a certificate that the gateway signs at `t`. -/
def issued (t : ℤ) : Validity :=
  ⟨wholeSeconds (t-minutes 5), wholeSeconds (t+clientValidity)⟩

/-- `RenewalStatus`: due for renewal, and expired. -/
def Validity.renewalStatus (v : Validity) (now : ℤ) : Bool × Bool :=
  if ¬now < v.notAfter then (false, true)
  else
    let total := v.notAfter-v.notBefore
    let remaining := v.notAfter-now
    (decide (remaining*2 < total), false)

/-- One turn of the loop: how long a renewal takes up to the signature of the
gateway and from there to its end, whether it comes back and is persisted, how
long the session lasts, and by how much the pause exceeds its five seconds. -/
structure Round where
  request : ℕ
  response : ℕ
  renewed : Bool
  persisted : Bool
  session : ℕ
  delay : ℕ

def Round.pause (r : Round) : ℤ := seconds 5+r.delay

def Round.length (r : Round) : ℤ := r.response+r.session+r.pause

/-- `maybeRenew`: when it returns, and the certificate it returns. -/
def maybeRenew (now : ℤ) (current : Validity) (r : Round) : ℤ × Validity :=
  match current.renewalStatus now with
  | (due, expired) =>
    if expired = true ∨ due = false then (now, current)
    else
      let done := now+r.request+r.response
      if r.renewed = false then (done, current)
      else if r.persisted = false then (done, current)
      else (done, issued (now+r.request))

/-- The starts of `runSession`, each with its instant and the certificate it
presents. -/
def starts : ℤ → Validity → List Round → List (ℤ × Validity)
  | _, _, [] => []
  | now, current, r :: rs =>
    let start := maybeRenew now current r
    start :: starts (start.1+r.session+r.pause) start.2 rs

def halfValidity : ℤ := hours 12+minutes 2+seconds 30

theorem issued_total (t : ℤ) : (issued t).notAfter-(issued t).notBefore = 2*halfValidity := by
  simp only [issued, wholeSeconds, clientValidity, halfValidity, hours, minutes, seconds]
  omega

theorem issued_notAfter (t : ℤ) :
    t+clientValidity-seconds 1 < (issued t).notAfter ∧ (issued t).notAfter ≤ t+clientValidity := by
  simp only [issued, wholeSeconds, clientValidity, hours, minutes, seconds]
  omega

theorem maybeRenew_remaining (now t : ℤ) (r : Round) (hr : r.renewed = true ∧ r.persisted = true)
    (hvalid : now < (issued t).notAfter) :
    ∃ t', (maybeRenew now (issued t) r).2 = issued t' ∧
      (maybeRenew now (issued t) r).1+halfValidity ≤ (issued t').notAfter+r.response := by
  have htotal := issued_total t
  unfold maybeRenew Validity.renewalStatus
  rw [if_neg (not_not.mpr hvalid)]
  dsimp only
  split
  · grind
  · rw [hr.1, hr.2]
    simp only [Bool.true_eq_false, if_false]
    refine ⟨now+r.request, rfl, ?_⟩
    have hlate := (issued_notAfter (now+r.request)).1
    simp only [clientValidity, halfValidity, hours, minutes, seconds] at hlate ⊢
    omega

theorem starts_unexpired (rounds : List Round) (now t : ℤ) (hvalid : now < (issued t).notAfter)
    (hrounds : ∀ r ∈ rounds, r.renewed = true ∧ r.persisted = true ∧ r.length < halfValidity) :
    ∀ s ∈ starts now (issued t) rounds, s.1 < s.2.notAfter := by
  induction rounds generalizing now t with
  | nil =>
    intro s hs
    cases hs
  | cons r rs ih =>
    obtain ⟨hrenewed, hpersisted, hlength⟩ := hrounds r List.mem_cons_self
    obtain ⟨t', hcert, hleft⟩ := maybeRenew_remaining now t r ⟨hrenewed, hpersisted⟩ hvalid
    have hpause : 0 ≤ r.pause := by
      simp only [Round.pause, seconds]
      omega
    grind [Round.length, starts, List.mem_cons_of_mem]

def quietRound (session : ℕ) : Round := ⟨0, 0, true, true, session, 0⟩

theorem quietRound_length (session : ℕ) : (quietRound session).length = session+seconds 5 := by
  simp only [quietRound, Round.length, Round.pause]
  omega

/-- A session that begins with exactly half of the window left is not preceded by
a renewal; if it outlasts that half, the next one begins with an expired
certificate. -/
theorem long_session_lapses (session : ℕ) (h : halfValidity ≤ session+seconds 5) :
    let now := clientValidity-halfValidity
    (now+session+seconds 5, issued 0) ∈
        starts now (issued 0) [quietRound session, quietRound 0] ∧
      (issued 0).notAfter ≤ now+session+seconds 5 := by
  intro now
  have hwindow : issued 0 = ⟨-minutes 5, clientValidity⟩ := by decide
  have hover : (issued 0).notAfter ≤ now+session+seconds 5 := by
    rw [hwindow]
    simp only [now]
    omega
  have hkeep : maybeRenew now (issued 0) (quietRound session) = (now, issued 0) := by
    rw [hwindow]
    rfl
  have hstatus : (issued 0).renewalStatus (now+session+seconds 5) = (false, true) :=
    if_pos (not_lt.mpr hover)
  have hexpired : maybeRenew (now+session+seconds 5) (issued 0) (quietRound 0) =
      (now+session+seconds 5, issued 0) := by
    rw [maybeRenew, hstatus]
    rfl
  have hpause : (quietRound session).pause = seconds 5 := add_zero _
  refine ⟨?_, hover⟩
  rw [starts, hkeep, starts, hpause]
  change _ ∈ [_, maybeRenew (now+session+seconds 5) (issued 0) (quietRound 0)]
  grind

/-- The longest turn that cannot let the certificate lapse, whenever the loop is
entered with an unexpired one, is shorter than half of the window. -/
theorem certificate_never_lapses (bound : ℤ) :
    (∀ (rounds : List Round) (now t : ℤ), t ≤ now → now < (issued t).notAfter →
      (∀ r ∈ rounds, r.renewed = true ∧ r.persisted = true ∧ r.length ≤ bound) →
      ∀ s ∈ starts now (issued t) rounds, s.1 < s.2.notAfter) ↔ bound < halfValidity := by
  constructor
  · intro h
    by_contra hlong
    let session := (bound-seconds 5).toNat
    have hpos : 0 ≤ bound-seconds 5 := by
      simp only [halfValidity, hours, minutes, seconds] at hlong ⊢
      omega
    have hsession : (session : ℤ)+seconds 5 = bound := by
      simp only [session]
      omega
    obtain ⟨hmem, hover⟩ := long_session_lapses session (by omega)
    have hrounds : ∀ r ∈ [quietRound session, quietRound 0],
        r.renewed = true ∧ r.persisted = true ∧ r.length ≤ bound := by
      intro r hr
      simp only [List.mem_cons, List.not_mem_nil, or_false] at hr
      rcases hr with rfl | rfl
      · exact ⟨rfl, rfl, by rw [quietRound_length, hsession]⟩
      · exact ⟨rfl, rfl, by rw [quietRound_length]; omega⟩
    have hvalid := h _ _ 0 (by decide) (by decide) hrounds _ hmem
    exact absurd hover (not_le.mpr hvalid)
  · intro hbound rounds now t _ hvalid hrounds
    apply starts_unexpired rounds now t hvalid
    grind

/-- A session of a day and an hour: the next one is begun with an expired
certificate. -/
theorem certificate_lapses_in_long_session :
    ∃ (rounds : List Round) (now t : ℤ), t ≤ now ∧ now < (issued t).notAfter ∧
      (∀ r ∈ rounds, r.renewed = true ∧ r.persisted = true) ∧
      ∃ s ∈ starts now (issued t) rounds, s.2.notAfter ≤ s.1 := by
  refine ⟨[⟨0, 0, true, true, 25*3600*1000000000, 0⟩, ⟨0, 0, true, true, 0, 0⟩], 0, 0, le_rfl,
    by decide, by decide, (90005000000000, issued 0), ?_, by decide⟩
  decide

end DbAgent.Renewal
