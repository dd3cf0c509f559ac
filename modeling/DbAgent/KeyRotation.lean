import Mathlib
import DbAgent.TransitionSystem
import DbAgent.StepSigning

/-! The probe's `KeyStore`, which outlives its sessions: the key it trusts, and
for a grace window after a rotation the one it trusted before. -/
namespace DbAgent.KeyRotation

open Transition Signing ByteArray

section Changes

variable {α : Type}

/-- In a log with its newest entry in front, the last entry that differs from
the one before it was made at `t` and took over from `old`. -/
inductive LastChange : List (α × Instant) → α → Instant → Prop
  | here {a old : α} {t u : Instant} {rest : List (α × Instant)} (h : a ≠ old) :
      LastChange ((a, t) :: (old, u) :: rest) old t
  | again {a old : α} {t u v : Instant} {rest : List (α × Instant)}
      (h : LastChange ((a, u) :: rest) old t) : LastChange ((a, v) :: (a, u) :: rest) old t

variable {log : List (α × Instant)}

theorem lastChange_unique {old old' : α} {t t' : Instant} (h : LastChange log old t)
    (h' : LastChange log old' t') : old = old' ∧ t = t' := by
  induction h with
  | here hne =>
    cases h' with
    | here _ => exact ⟨rfl, rfl⟩
    | again _ => exact absurd rfl hne
  | again _ ih =>
    cases h' with
    | here hne => exact absurd rfl hne
    | again h' => exact ih h'

def newest (log : List (α × Instant)) : Option α :=
  log.head?.map Prod.fst

theorem not_lastChange_of_newest_none (h : newest log = none) (old : α) (t : Instant) :
    ¬ LastChange log old t := by
  intro hc
  cases hc <;> cases h

theorem lastChange_repeat {a : α} (ha : newest log = some a) (v : Instant) (old : α) (t : Instant) :
    LastChange ((a, v) :: log) old t ↔ LastChange log old t := by
  cases log with
  | nil => cases ha
  | cons e rest =>
    obtain ⟨b, u⟩ := e
    obtain rfl : b = a := by simpa [newest] using ha
    constructor
    · intro h
      cases h with
      | here hne => exact absurd rfl hne
      | again h => exact h
    · exact LastChange.again

theorem lastChange_change {a b : α} (ha : newest log = some a) (hne : b ≠ a) (v : Instant) :
    LastChange ((b, v) :: log) a v := by
  cases log with
  | nil => cases ha
  | cons e rest =>
    obtain ⟨c, u⟩ := e
    obtain rfl : c = a := by simpa [newest] using ha
    exact LastChange.here hne

theorem not_lastChange_single (a : α) (v : Instant) (old : α) (t : Instant) :
    ¬ LastChange [(a, v)] old t := by
  intro h
  cases h

end Changes

/-- An ed25519 public key: `ed25519.PublicKeySize` bytes. -/
abbrev PublicKey := {k : ByteArray // k.size = 32}

/-- The largest `time.Duration`, in nanoseconds. -/
def maxDuration : ℤ := 2^63-1

/-- `t.Sub(u)`, which saturates. -/
def timeSub (t u : Instant) : ℤ := max (-2^63) (min (t-u) maxDuration)

/-- `KeyStore`; instants are in nanoseconds. -/
structure KeyStore where
  grace : ℤ
  current : Option PublicKey
  previous : Option PublicKey
  rotatedAt : Instant

open KeyStore

def newKeyStore (grace : ℤ) : KeyStore := ⟨grace, none, none, 0⟩

/-- `KeyStore.Install` at the instant `now`, and whether it has rotated. -/
def KeyStore.install (s : KeyStore) (now : Instant) (key : ByteArray) : KeyStore × Bool :=
  if h : key.size = 32 then
    if s.current = some ⟨key, h⟩ then (s, false)
    else match s.current with
      | none => ({ s with current := some ⟨key, h⟩ }, false)
      | some old =>
        ({ s with previous := some old, current := some ⟨key, h⟩, rotatedAt := now }, true)
  else (s, false)

def bytesOf (k : Option PublicKey) : ByteArray :=
  (k.map Subtype.val).getD empty

/-- `KeyStore.Ring` at the instant `now`. -/
def KeyStore.ring (s : KeyStore) (now : Instant) : KeyRing where
  current := bytesOf s.current
  previous :=
    if 0 < s.grace ∧ timeSub now s.rotatedAt ≤ s.grace then bytesOf s.previous
    else empty

/-- `RegisterAck`, as far as keys are concerned. -/
structure Ack where
  probeId : String
  accepted : Bool
  signingPublicKey : ByteArray

/-- `Client.handleKeyUpdate` in a session whose probe id is `self`. -/
def handleKeyUpdate (s : KeyStore) (now : Instant) (self : String) (ack : Ack) : KeyStore :=
  if !ack.accepted then s
  else if ack.probeId ≠ "" ∧ self ≠ "" ∧ ack.probeId ≠ self then s
  else (s.install now ack.signingPublicKey).1

/-- An ack that has arrived, with the probe id of its session; the first ack of
a session is the one that gives it its id. -/
structure Heard where
  self : String
  ack : Ack
  at_ : Instant

/-- The process: its store, the clock, the probe id of every session that has
had its first ack, and the acks so far, the newest in front. -/
structure Process where
  store : KeyStore
  now : Instant
  sessions : ℕ → Option String
  heard : List Heard

inductive Event where
  | firstAck (session : ℕ) (ack : Ack)
  | midAck (session : ℕ) (ack : Ack)
  | tick (t : Instant)

/-- `Client.Run` for a first ack, `readerLoop` for a later one. A reconnect is
a session that has not had its first ack. -/
def Process.step (p : Process) : Event → Option Process
  | .firstAck c ack =>
    match p.sessions c with
    | some _ => none
    | none =>
      let heard := ⟨ack.probeId, ack, p.now⟩ :: p.heard
      if ack.accepted then some { p with
        store := (p.store.install p.now ack.signingPublicKey).1
        sessions := Function.update p.sessions c (some ack.probeId)
        heard := heard }
      else some { p with heard := heard }
  | .midAck c ack =>
    match p.sessions c with
    | none => none
    | some self => some { p with
        store := handleKeyUpdate p.store p.now self ack
        heard := ⟨self, ack, p.now⟩ :: p.heard }
  | .tick t => if p.now ≤ t then some { p with now := t } else none

def process (grace : ℤ) : System Process Event where
  init p := p.store = newKeyStore grace ∧ (∀ c, p.sessions c = none) ∧ p.heard = []
  step := Process.step

def Heard.names (h : Heard) : Bool :=
  h.ack.probeId == "" || h.ack.probeId == h.self

/-- The ack names this probe or no probe, or its session was given no id to
tell other probes by. -/
def Heard.addressed (h : Heard) : Bool :=
  h.names || h.self == ""

/-- The key of an accepted ack that satisfies `p`, if it is 32 bytes long. -/
def Heard.keyIf (p : Heard → Bool) (h : Heard) : Option (PublicKey × Instant) :=
  if hk : h.ack.signingPublicKey.size = 32 then
    if h.ack.accepted && p h then some (⟨h.ack.signingPublicKey, hk⟩, h.at_) else none
  else none

def keysIf (p : Heard → Bool) (heard : List Heard) : List (PublicKey × Instant) :=
  heard.filterMap (Heard.keyIf p)

/-- The store of a log of keys: the newest is current, and a previous one is
kept exactly if there was a change, with its instant. -/
structure StoreOf (log : List (PublicKey × Instant)) (s : KeyStore) : Prop where
  current : s.current = newest log
  unchanged : s.previous = none → ∀ old t, ¬ LastChange log old t
  changed : ∀ old, s.previous = some old → LastChange log old s.rotatedAt

theorem storeOf_new (grace : ℤ) : StoreOf [] (newKeyStore grace) where
  current := rfl
  unchanged _ old t := not_lastChange_of_newest_none rfl old t
  changed _ h := by cases h

theorem install_grace (s : KeyStore) (now : Instant) (key : ByteArray) :
    (s.install now key).1.grace = s.grace := by
  unfold install
  grind

theorem install_current (s : KeyStore) (now : Instant) (key : PublicKey)
    (h : s.current = some key) : s.install now key.val = (s, false) := by
  unfold install
  rw [dif_pos key.property, if_pos h]

theorem install_wrong_size (s : KeyStore) (now : Instant) (key : ByteArray)
    (h : key.size ≠ 32) : s.install now key = (s, false) := by
  unfold install
  rw [dif_neg h]

theorem storeOf_install (log : List (PublicKey × Instant)) (s : KeyStore) (now : Instant)
    (key : PublicKey) (hs : StoreOf log s) :
    StoreOf ((key, now) :: log) (s.install now key.val).1 := by
  by_cases hcur : s.current = some key
  · -- the same key again: neither the store nor the last change moves
    rw [install_current s now key hcur]
    have hnew : newest log = some key := hs.current ▸ hcur
    refine ⟨hcur, ?_, ?_⟩
    · intro hp old t hc
      exact hs.unchanged hp old t ((lastChange_repeat hnew now old t).mp hc)
    · intro old hp
      exact (lastChange_repeat hnew now old _).mpr (hs.changed old hp)
  · unfold install
    rw [dif_pos key.property, if_neg hcur]
    cases hold : s.current with
    | none =>
      -- the first key: there is nothing to keep
      have hnone : newest log = none := hs.current ▸ hold
      have hlog : log = [] := by simpa [newest] using hnone
      subst hlog
      refine ⟨rfl, fun _ old t => not_lastChange_single key now old t, ?_⟩
      intro old hp
      exact absurd (hs.changed old hp) (not_lastChange_of_newest_none rfl old _)
    | some old => grind [newest, lastChange_change, StoreOf]

theorem storeOf_hear (p : Heard → Bool) (heard : List Heard) (h : Heard) (s : KeyStore)
    (hs : StoreOf (keysIf p heard) s) (hh : (h.ack.accepted && p h) = true) :
    StoreOf (keysIf p (h :: heard)) (s.install h.at_ h.ack.signingPublicKey).1 := by
  unfold keysIf at hs ⊢
  by_cases hk : h.ack.signingPublicKey.size = 32
  · have hkey : h.keyIf p = some (⟨h.ack.signingPublicKey, hk⟩, h.at_) := by
      unfold Heard.keyIf
      rw [dif_pos hk, if_pos hh]
    rw [List.filterMap_cons_some hkey]
    exact storeOf_install _ s h.at_ ⟨h.ack.signingPublicKey, hk⟩ hs
  · have hkey : h.keyIf p = none := by
      unfold Heard.keyIf
      rw [dif_neg hk]
    rw [List.filterMap_cons_none hkey, install_wrong_size s h.at_ _ hk]
    exact hs

theorem storeOf_ignore (p : Heard → Bool) (heard : List Heard) (h : Heard) (s : KeyStore)
    (hs : StoreOf (keysIf p heard) s) (hh : (h.ack.accepted && p h) = false) :
    StoreOf (keysIf p (h :: heard)) s := by grind [keysIf, Heard.keyIf, List.filterMap_cons_none]

theorem storeOf_handleKeyUpdate (heard : List Heard) (h : Heard) (s : KeyStore)
    (hs : StoreOf (keysIf Heard.addressed heard) s) :
    StoreOf (keysIf Heard.addressed (h :: heard)) (handleKeyUpdate s h.at_ h.self h.ack) := by
  unfold handleKeyUpdate
  cases hacc : h.ack.accepted with
  | false => exact storeOf_ignore _ heard h s hs (by simp [hacc])
  | true =>
    rw [Bool.not_true, if_neg Bool.false_ne_true]
    split_ifs with hother
    · apply storeOf_ignore _ heard h s hs
      simp [Heard.addressed, Heard.names, hother]
    · apply storeOf_hear _ heard h s hs
      have haddr : h.addressed = true := by
        simp only [Heard.addressed, Heard.names, Bool.or_eq_true, beq_iff_eq]
        tauto
      simp [hacc, haddr]

theorem handleKeyUpdate_grace (s : KeyStore) (now : Instant) (self : String) (ack : Ack) :
    (handleKeyUpdate s now self ack).grace = s.grace := by
  unfold handleKeyUpdate
  split_ifs
  · rfl
  · rfl
  · exact install_grace s now _

structure Faithful (grace : ℤ) (p : Process) : Prop where
  grace_eq : p.store.grace = grace
  store : StoreOf (keysIf Heard.addressed p.heard) p.store

theorem faithful_step (grace : ℤ) (p q : Process) (e : Event) (hp : Faithful grace p)
    (h : p.step e = some q) : Faithful grace q := by
  cases e with
  | firstAck c ack =>
    simp only [Process.step] at h
    split at h
    · cases h
    · split_ifs at h with hacc
      all_goals cases h
      · refine ⟨(install_grace _ _ _).trans hp.grace_eq, ?_⟩
        apply storeOf_hear Heard.addressed p.heard ⟨ack.probeId, ack, p.now⟩ p.store hp.store
        simp [Heard.addressed, Heard.names, hacc]
      · refine ⟨hp.grace_eq, ?_⟩
        apply storeOf_ignore Heard.addressed p.heard ⟨ack.probeId, ack, p.now⟩ p.store hp.store
        simp [hacc]
  | midAck c ack =>
    simp only [Process.step] at h
    split at h
    · cases h
    · cases h
      refine ⟨(handleKeyUpdate_grace _ _ _ _).trans hp.grace_eq, ?_⟩
      exact storeOf_handleKeyUpdate p.heard ⟨_, ack, p.now⟩ p.store hp.store
  | tick t =>
    simp only [Process.step] at h
    split_ifs at h
    cases h
    exact ⟨hp.grace_eq, hp.store⟩

theorem faithful_reachable (grace : ℤ) (p : Process) (h : (process grace).Reachable p) :
    Faithful grace p := by
  apply reachable_invariant (process grace) (Faithful grace) _ _ p h
  · rintro q ⟨hs, -, hh⟩
    refine ⟨by rw [hs]; rfl, ?_⟩
    rw [hs, hh]
    exact storeOf_new grace
  · intro q e r hq hr
    exact faithful_step grace q r e hq hr

theorem bytesOf_ne_empty (k : Option PublicKey) : bytesOf k ≠ empty ↔ k ≠ none := by
  cases k with
  | none => simp [bytesOf]
  | some k =>
    refine ⟨nofun, fun _ h => ?_⟩
    have hsize := congrArg size h
    rw [show bytesOf (some k) = k.val from rfl, k.property] at hsize
    simp at hsize

theorem timeSub_le_iff (t u : Instant) (g : ℤ) (hpos : 0 < g) (hg : g < maxDuration) :
    timeSub t u ≤ g ↔ t-u ≤ g := by grind [maxDuration, timeSub]

/-- What the ring of a process says at its instant, over the acks addressed to
its sessions. -/
structure RotationGrace (grace : ℤ) (p : Process) : Prop where
  current : (p.store.ring p.now).current = bytesOf (newest (keysIf Heard.addressed p.heard))
  previous_iff : (p.store.ring p.now).previous ≠ empty ↔
    0 < grace ∧ ∃ old t, LastChange (keysIf Heard.addressed p.heard) old t ∧ p.now-t ≤ grace
  previous_eq : (p.store.ring p.now).previous ≠ empty →
    ∀ old t, LastChange (keysIf Heard.addressed p.heard) old t →
      (p.store.ring p.now).previous = old.val
  reinstall : ∀ key at_, newest (keysIf Heard.addressed p.heard) = some key →
    p.store.install at_ key.val = (p.store, false)
  accepts : ∀ (ν : Type) (P : Primitives ν) (message signature : ByteArray) (m : KeyMatched),
    (p.store.ring p.now).verify P message signature = some m →
    (∃ key, newest (keysIf Heard.addressed p.heard) = some key ∧
      P.ed25519Verify key.val message signature = true) ∨
    ∃ old t, LastChange (keysIf Heard.addressed p.heard) old t ∧ 0 < grace ∧ p.now-t ≤ grace ∧
      P.ed25519Verify old.val message signature = true

theorem previous_ne_empty_iff (grace : ℤ) (hg : grace < maxDuration) (p : Process)
    (hp : Faithful grace p) :
    (p.store.ring p.now).previous ≠ empty ↔
      0 < grace ∧ ∃ old t, LastChange (keysIf Heard.addressed p.heard) old t ∧
        p.now-t ≤ grace := by
  simp only [ring, hp.grace_eq]
  split_ifs with hw
  · obtain ⟨hpos, hsub⟩ := hw
    have hsub' := (timeSub_le_iff p.now _ grace hpos hg).mp hsub
    rw [bytesOf_ne_empty]
    constructor
    · intro hne
      obtain ⟨old, hold⟩ := Option.ne_none_iff_exists'.mp hne
      exact ⟨hpos, old, p.store.rotatedAt, hp.store.changed old hold, hsub'⟩
    · rintro ⟨-, old, t, hc, -⟩ hnone
      exact hp.store.unchanged hnone old t hc
  · constructor
    · intro hne
      exact absurd rfl hne
    · rintro ⟨hpos, old, t, hc, ht⟩
      exfalso
      cases hprev : p.store.previous with
      | none => exact hp.store.unchanged hprev old t hc
      | some old' =>
        obtain ⟨-, rfl⟩ := lastChange_unique hc (hp.store.changed old' hprev)
        exact hw ⟨hpos, (timeSub_le_iff p.now _ grace hpos hg).mpr ht⟩

theorem previous_eq_old (grace : ℤ) (p : Process) (hp : Faithful grace p)
    (hne : (p.store.ring p.now).previous ≠ empty) (old : PublicKey) (t : Instant)
    (hc : LastChange (keysIf Heard.addressed p.heard) old t) :
    (p.store.ring p.now).previous = old.val := by
  simp only [ring] at hne ⊢
  split_ifs at hne ⊢ with hw
  · cases hprev : p.store.previous with
    | none => exact absurd hc (hp.store.unchanged hprev old t)
    | some old' =>
      obtain ⟨rfl, -⟩ := lastChange_unique hc (hp.store.changed old' hprev)
      rfl
  · exact absurd rfl hne

/-- For a grace window below the largest `Duration`, after any acks and
reconnects: the current key is the newest that an accepted ack addressed to its
session has carried, the previous one is honoured for the grace window after
the last rotation, and nothing else verifies a signature. -/
theorem rotation_grace (grace : ℤ) (hg : grace < maxDuration) (p : Process)
    (h : (process grace).Reachable p) : RotationGrace grace p := by
  have hp := faithful_reachable grace p h
  have hcur : (p.store.ring p.now).current =
      bytesOf (newest (keysIf Heard.addressed p.heard)) := by
    rw [← hp.store.current]
    rfl
  refine ⟨hcur, previous_ne_empty_iff grace hg p hp, previous_eq_old grace p hp, ?_, ?_⟩
  · intro key at_ hkey
    exact install_current p.store at_ key (hp.store.current.trans hkey)
  · intro ν P message signature m hv
    unfold KeyRing.verify at hv
    split_ifs at hv with h1 h2
    · left
      rw [hcur] at h1
      cases hnew : newest (keysIf Heard.addressed p.heard) with
      | none =>
        rw [hnew] at h1
        exact absurd h1.1 (by decide)
      | some key =>
        rw [hnew] at h1
        exact ⟨key, rfl, h1.2⟩
    · right
      have hne : (p.store.ring p.now).previous ≠ empty := by
        intro he
        rw [he] at h2
        exact absurd h2.1 (by decide)
      obtain ⟨hpos, old, t, hc, ht⟩ := (previous_ne_empty_iff grace hg p hp).mp hne
      grind [previous_eq_old]

def sampleKey (b : UInt8) : PublicKey := ⟨⟨Array.replicate 32 b⟩, by simp [size]⟩

def sampleStart (grace : ℤ) : Process := ⟨newKeyStore grace, 0, fun _ => none, []⟩

theorem sampleStart_reachable (grace : ℤ) : (process grace).Reachable (sampleStart grace) :=
  .init ⟨rfl, fun _ => rfl, rfl⟩

def sampleRotation : List Event :=
  [.firstAck 0 ⟨"probe-1", true, (sampleKey 1).val⟩, .tick 60000000000,
    .midAck 0 ⟨"probe-1", true, (sampleKey 2).val⟩, .tick 360000000000]

theorem rotation_grace_sampleRotation :
    ∃ p, (process 600000000000).run (sampleStart 600000000000) sampleRotation = some p ∧
      (p.store.ring p.now).previous = (sampleKey 1).val ∧ RotationGrace 600000000000 p := by
  refine ⟨_, rfl, rfl, ?_⟩
  apply rotation_grace 600000000000 (by decide)
  exact run_reachable _ sampleRotation _ _ (sampleStart_reachable _) rfl

/-- A session whose first ack has given it no probe id installs a key from an
ack that names some probe, which is neither this one nor no one. -/
theorem unnamed_session_installs_any :
    ∃ p, (process 600000000000).Reachable p ∧
      (p.store.ring p.now).current ≠ bytesOf (newest (keysIf Heard.names p.heard)) := by
  have hrun := run_reachable (process 600000000000)
    [.firstAck 0 ⟨"", true, (sampleKey 1).val⟩, .midAck 0 ⟨"other", true, (sampleKey 2).val⟩]
    _ _ (sampleStart_reachable _) rfl
  refine ⟨_, hrun, ?_⟩
  decide

end DbAgent.KeyRotation
