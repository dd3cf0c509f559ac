import Mathlib
import DbAgent.RowTable
import DbAgent.TransitionSystem

/-! The gateway's delivery of signing keys: `admitSession` under the server's
mutex, and the passes of `PropagateSigningKey`, which hold it for the snapshot
only. -/
namespace DbAgent.KeyDelivery

open Transition List ByteArray RowTable

abbrev Key := ByteArray

def outboundBufferSize : ℕ := 32

/-- A frame to a probe: a RegisterAck with a key, or a task, a cancellation or a
manifest refresh. -/
inductive Frame where
  | ack (key : Key)
  | other

/-- How far `admitSession` has come. It holds the server's mutex from `captured`
to its return. -/
inductive Stage where
  | opened
  | captured (key : Key)
  | recorded (key : Key)
  | acked
  | admitted

/-- `sessionHandle`. `enqueued` lists the keys put on `outbound` so far, and
`since` is the position of the key that was served at the admission. -/
structure Handle where
  platformKey : String
  outbound : List Frame
  done : Bool
  lastKeySent : Key
  stage : Stage
  enqueued : List Key
  since : ℕ

open Handle

structure Propagation where
  sent : ℕ
  upToDate : ℕ
  dropped : ℕ
  deriving DecidableEq, Repr

/-- A pass that has returned: its key, the sessions of its snapshot, and its
counts. -/
structure Report where
  key : Key
  snapshot : List ℕ
  counts : Propagation

/-- Where `pollSigningKey` stands. `stale` has found another key at the session,
and `handed` has put the frame on the channel and not recorded it yet. -/
inductive Poller where
  | idle
  | served
  | passing (key : Key) (snapshot todo : List ℕ) (p : Propagation)
  | stale (key : Key) (snapshot : List ℕ) (sid : ℕ) (todo : List ℕ) (p : Propagation)
  | handed (key : Key) (snapshot : List ℕ) (sid : ℕ) (todo : List ℕ) (p : Propagation)

/-- The server. `served` lists the keys it has served, the current one last. -/
structure World where
  signingPublicKey : Key
  served : List Key
  mutex : Option ℕ
  sessions : List (String × ℕ)
  handles : ℕ → Option Handle
  poller : Poller
  reports : List Report

open World

inductive Branch where
  | send | done | full
  deriving DecidableEq, Repr

inductive Event where
  | accept (sid : ℕ) (platformKey : String)
  | capture (sid : ℕ)
  | record (sid : ℕ)
  | ack (sid : ℕ)
  | publish (sid : ℕ)
  | produce (sid : ℕ)
  | drain (sid : ℕ)
  | close (sid : ℕ)
  | remove (sid : ℕ)
  | serve (key : Key)
  | snapshot (order : List ℕ)
  | compare
  | select (b : Branch)
  | recordSent
  | finish

def World.setHandle (w : World) (sid : ℕ) (h : Handle) : World :=
  { w with handles := Function.update w.handles sid (some h) }

def Handle.push (h : Handle) (key : Key) : Handle :=
  { h with outbound := h.outbound ++ [.ack key], enqueued := h.enqueued ++ [key] }

def Handle.hasRoom (h : Handle) : Bool := h.outbound.length < outboundBufferSize

/-- The steps of `admitSession`, which runs with the mutex of the server. -/
def World.admitStep (w : World) (sid : ℕ) (h : Handle) : Event → Option World
  | .capture _ =>
    match h.stage, w.mutex with
    | .opened, none => some { w.setHandle sid { h with
        stage := .captured w.signingPublicKey, since := w.served.length-1 } with
        mutex := some sid }
    | _, _ => none
  | .record _ =>
    match h.stage with
    | .captured key => some (w.setHandle sid { h with
        lastKeySent := key, stage := .recorded key })
    | _ => none
  | .ack _ =>
    match h.stage with
    | .recorded key =>
      if h.hasRoom then some (w.setHandle sid { h.push key with stage := .acked }) else none
    | _ => none
  | .publish _ =>
    match h.stage with
    | .acked => some { w.setHandle sid { h with stage := .admitted } with
        sessions := (h.platformKey, sid) :: w.sessions.filter (fun x => x.1 ≠ h.platformKey)
        mutex := none }
    | _ => none
  | _ => none

/-- The `select` of a pass for the session it has found stale. Its default is
taken only if neither the channel nor `done` is ready. -/
def World.select (w : World) (key : Key) (snapshot : List ℕ) (sid : ℕ) (todo : List ℕ)
    (p : Propagation) (h : Handle) : Branch → Option World
  | .send =>
    if h.hasRoom then some { w.setHandle sid (h.push key) with
      poller := .handed key snapshot sid todo p } else none
  | .done =>
    if h.done then some { w with
      poller := .passing key snapshot todo { p with dropped := p.dropped+1 } } else none
  | .full =>
    if h.hasRoom = false ∧ h.done = false then some { w with
      poller := .passing key snapshot todo { p with dropped := p.dropped+1 } } else none

def World.pollStep (w : World) : Event → Option World
  | .serve key =>
    match w.poller, w.mutex with
    | .idle, none => some { w with
        signingPublicKey := key, served := w.served ++ [key], poller := .served }
    | _, _ => none
  | .snapshot order =>
    match w.poller, w.mutex with
    | .served, none =>
      if w.signingPublicKey.size ≠ 32 then some { w with
        poller := .idle, reports := w.reports ++ [⟨w.signingPublicKey, [], ⟨0, 0, 0⟩⟩] }
      -- a map is ranged over in any order
      else if order.isPerm (w.sessions.map Prod.snd) then some { w with
        poller := .passing w.signingPublicKey order order ⟨0, 0, 0⟩ }
      else none
    | _, _ => none
  | .compare =>
    match w.poller with
    | .passing key snapshot (sid :: todo) p =>
      match w.handles sid with
      | some h =>
        if h.lastKeySent = key then some { w with
          poller := .passing key snapshot todo { p with upToDate := p.upToDate+1 } }
        else some { w with poller := .stale key snapshot sid todo p }
      | none => none
    | _ => none
  | .select b =>
    match w.poller with
    | .stale key snapshot sid todo p =>
      match w.handles sid with
      | some h => w.select key snapshot sid todo p h b
      | none => none
    | _ => none
  | .recordSent =>
    match w.poller with
    | .handed key snapshot sid todo p =>
      match w.handles sid with
      | some h => some { w.setHandle sid { h with lastKeySent := key } with
          poller := .passing key snapshot todo { p with sent := p.sent+1 } }
      | none => none
    | _ => none
  | .finish =>
    match w.poller with
    | .passing key snapshot [] p => some { w with
        poller := .idle, reports := w.reports ++ [⟨key, snapshot, p⟩] }
    | _ => none
  | _ => none

/-- The other goroutines at a session: producers of frames without a key, the
writer, and the end of the stream. -/
def World.sessionStep (w : World) (sid : ℕ) (h : Handle) : Event → Option World
  | .produce _ =>
    match h.stage with
    | .admitted =>
      if h.hasRoom then some (w.setHandle sid { h with outbound := h.outbound ++ [.other] })
      else none
    | _ => none
  | .drain _ => some (w.setHandle sid { h with outbound := h.outbound.tail })
  | .close _ => some (w.setHandle sid { h with done := true })
  | .remove _ =>
    match w.mutex with
    | none => some { w with
        sessions := w.sessions.filter (fun x => x ≠ (h.platformKey, sid)) }
    | some _ => none
  | _ => none

def World.step (w : World) (e : Event) : Option World :=
  match e with
  | .accept sid platformKey =>
    match w.handles sid with
    | none => some (w.setHandle sid ⟨platformKey, [], false, empty, .opened, [], 0⟩)
    | some _ => none
  | .capture sid | .record sid | .ack sid | .publish sid =>
    (w.handles sid).bind (fun h => w.admitStep sid h e)
  | .produce sid | .drain sid | .close sid | .remove sid =>
    (w.handles sid).bind (fun h => w.sessionStep sid h e)
  | _ => w.pollStep e

def gateway : System World Event where
  init w := w.served = [w.signingPublicKey] ∧ w.mutex = none ∧ w.sessions = [] ∧
    (∀ sid, w.handles sid = none) ∧ w.poller = .idle ∧ w.reports = []
  step := step

def Poller.unrecorded (p : Poller) (sid : ℕ) : Option Key :=
  match p with
  | .handed key _ s _ _ => if s = sid then some key else none
  | _ => none

def Poller.key? : Poller → Option Key
  | .passing key _ _ _ => some key
  | .stale key _ _ _ _ => some key
  | .handed key _ _ _ _ => some key
  | _ => none

section Sublists

variable {α : Type}

theorem sublist_of_sublist_snoc {l m : List α} {a : α} (h : l.Sublist (m ++ [a]))
    (hne : l.getLast? ≠ some a) : l.Sublist m := by
  obtain ⟨l₁, l₂, rfl, h₁, h₂⟩ := sublist_append_iff.mp h
  rcases sublist_singleton.mp h₂ with rfl | rfl
  · simpa using h₁
  · grind

theorem snoc_sublist {l m : List α} {a : α} (h : l.Sublist m) (hl : l.getLast? ≠ some a)
    (hm : m.getLast? = some a) : (l ++ [a]).Sublist m := by
  obtain ⟨n, rfl⟩ := List.getLast?_eq_some_iff.mp hm
  exact (sublist_of_sublist_snoc h hl).append (List.Sublist.refl [a])

theorem isChain_snoc_ne {l : List α} {a : α} (h : l.IsChain (· ≠ ·))
    (hl : l.getLast? ≠ some a) : (l ++ [a]).IsChain (· ≠ ·) := by
  grind [isChain_append]

end Sublists

/-- What has been handed to a session: a subsequence of the keys served since
its admission that begins with the first of them and never repeats a key. Its
record is the last key, but for the one that the poller is about to record. -/
structure Handed (served : List Key) (unrecorded : Option Key) (h : Handle) : Prop where
  since_lt : h.since < served.length
  sublist : h.enqueued.Sublist (served.drop h.since)
  first : h.enqueued.head? = served[h.since]?
  chain : h.enqueued.IsChain (· ≠ ·)
  last : ∃ keys, h.enqueued = keys ++ unrecorded.toList ∧ keys.getLast? = some h.lastKeySent

def Sound (served : List Key) (mutex : Option ℕ) (unrecorded : Option Key) (sid : ℕ)
    (h : Handle) : Prop :=
  match h.stage with
  | .opened => h.enqueued = [] ∧ h.lastKeySent = empty
  | .captured key => h.enqueued = [] ∧ h.lastKeySent = empty ∧ mutex = some sid ∧
      served.getLast? = some key ∧ h.since+1 = served.length
  | .recorded key => h.enqueued = [] ∧ h.lastKeySent = key ∧ mutex = some sid ∧
      served.getLast? = some key ∧ h.since+1 = served.length
  | .acked => Handed served none h ∧ mutex = some sid
  | .admitted => Handed served unrecorded h

def Handle.isAdmitted (h : Handle) : Bool :=
  match h.stage with
  | .admitted => true
  | _ => false

def World.Has (w : World) (sid : ℕ) (key : Key) : Prop :=
  ∃ h, w.handles sid = some h ∧ key ∈ h.enqueued

def World.Admitted (w : World) (sid : ℕ) : Prop :=
  ∃ h, w.handles sid = some h ∧ h.isAdmitted = true

/-- A pass has only admitted sessions before it, and has handed its key to the
ones behind it unless it has counted one as dropped. -/
structure PassOk (w : World) (key : Key) (snapshot pending : List ℕ) (p : Propagation) :
    Prop where
  admitted : ∀ sid ∈ pending, w.Admitted sid
  handed : p.dropped = 0 → ∀ sid ∈ snapshot, sid ∈ pending ∨ w.Has sid key

def PollerOk (w : World) : Prop :=
  match w.poller with
  | .idle => True
  | .served => True
  | .passing key snapshot todo p => PassOk w key snapshot todo p
  | .stale key snapshot sid todo p => PassOk w key snapshot (sid :: todo) p ∧
      ∃ h, w.handles sid = some h ∧ h.lastKeySent ≠ key
  | .handed key snapshot sid todo p => PassOk w key snapshot (sid :: todo) p ∧ w.Has sid key

structure Invariant (w : World) : Prop where
  current : w.served.getLast? = some w.signingPublicKey
  pass_key : ∀ key, w.poller.key? = some key → key = w.signingPublicKey
  sound : ∀ sid h, w.handles sid = some h →
    Sound w.served w.mutex (w.poller.unrecorded sid) sid h
  published : ∀ x ∈ w.sessions, w.Admitted x.2
  poller : PollerOk w
  reports : ∀ r ∈ w.reports, r.counts.dropped = 0 → ∀ sid ∈ r.snapshot, w.Has sid r.key

variable {served : List Key} {sid : ℕ} {h : Handle}

theorem sound_of_admitted {mutex unrecorded : Option _} (hs : Sound served mutex unrecorded sid h)
    (ha : h.isAdmitted = true) :
    Handed served unrecorded h := by grind [isAdmitted, Sound]

variable {unrecorded : Option Key}

variable {mutex : Option ℕ}

theorem sound_mutex {mutex' : Option ℕ} (hs : Sound served mutex unrecorded sid h)
    (hm : mutex ≠ some sid) : Sound served mutex' unrecorded sid h := by grind [Sound]

theorem handed_serve (key : Key) (hh : Handed served unrecorded h) :
    Handed (served ++ [key]) unrecorded h where
  since_lt := by
    have hlt := hh.since_lt
    grind
  sublist := by
    rw [drop_append_of_le_length hh.since_lt.le]
    exact hh.sublist.trans (sublist_append_left _ _)
  first := by
    rw [List.getElem?_append_left hh.since_lt]
    exact hh.first
  chain := hh.chain
  last := hh.last

theorem sound_serve (key : Key) (hs : Sound served none unrecorded sid h) :
    Sound (served ++ [key]) none unrecorded sid h := by grind [Sound, handed_serve]

/-- What a change of one session must keep for the others and for the poller. -/
structure Extends (h h' : Handle) : Prop where
  enqueued : ∀ key ∈ h.enqueued, key ∈ h'.enqueued
  admitted : h.isAdmitted = true → h'.isAdmitted = true

theorem Extends.refl (h : Handle) : Extends h h := ⟨fun _ hk => hk, fun ha => ha⟩

variable {w : World}

theorem has_setHandle {h h' : Handle} (hh : w.handles sid = some h) (hx : Extends h h') (s : ℕ)
    (key : Key) (hs : w.Has s key) : (w.setHandle sid h').Has s key := by
  obtain ⟨g, hg, hkey⟩ := hs
  obtain ⟨g', hg', hx'⟩ := put_over Extends.refl hh hx hg
  exact ⟨g', hg', hx'.enqueued key hkey⟩

theorem admitted_setHandle {h h' : Handle} (hh : w.handles sid = some h) (hx : Extends h h') (s : ℕ)
    (hs : w.Admitted s) : (w.setHandle sid h').Admitted s := by
  obtain ⟨g, hg, ha⟩ := hs
  obtain ⟨g', hg', hx'⟩ := put_over Extends.refl hh hx hg
  exact ⟨g', hg', hx'.admitted ha⟩

variable {key : Key} {p : Propagation}

theorem passOk_mono {w w' : World} {snapshot pending : List ℕ} (h : PassOk w key snapshot pending p)
    (ha : ∀ s, w.Admitted s → w'.Admitted s) (hk : ∀ s k, w.Has s k → w'.Has s k) :
    PassOk w' key snapshot pending p where
  admitted sid hs := ha sid (h.admitted sid hs)
  handed hd sid hs := (h.handed hd sid hs).imp_right (hk sid key)

theorem pollerOk_mono (w w' : World) (h : PollerOk w) (hp : w'.poller = w.poller)
    (ha : ∀ s, w.Admitted s → w'.Admitted s) (hk : ∀ s k, w.Has s k → w'.Has s k)
    (hl : ∀ s g, w.handles s = some g → w.Admitted s →
      ∃ g', w'.handles s = some g' ∧ g'.lastKeySent = g.lastKeySent) : PollerOk w' := by
  unfold PollerOk at h ⊢
  rw [hp]
  cases hpoll : w.poller with
  | idle => exact trivial
  | served => exact trivial
  | passing key snapshot todo p =>
    simp only [hpoll] at h
    exact passOk_mono h ha hk
  | stale key snapshot sid todo p =>
    simp only [hpoll] at h
    obtain ⟨hpass, g, hg, hne⟩ := h
    have hadm : w.Admitted sid := hpass.admitted sid mem_cons_self
    grind [passOk_mono]
  | handed key snapshot sid todo p =>
    simp only [hpoll] at h
    exact ⟨passOk_mono h.1 ha hk, hk sid key h.2⟩

theorem invariant_setHandle {h h' : Handle} (hw : Invariant w) (hh : w.handles sid = some h)
    (hx : Extends h h') (hl : h.isAdmitted = true → h'.lastKeySent = h.lastKeySent)
    (hm : ∀ s, s ≠ sid → w.mutex = some s → mutex = some s)
    (hs : Sound w.served mutex (w.poller.unrecorded sid) sid h') :
    Invariant { w.setHandle sid h' with mutex := mutex } where
  current := hw.current
  pass_key := hw.pass_key
  sound s g hg := by
    rcases put_cases hg with ⟨rfl, rfl⟩ | ⟨he, hg'⟩
    · exact hs
    · have hsound := hw.sound s g hg'
      by_cases hmu : w.mutex = some s
      · rw [hmu] at hsound
        rw [hm s he hmu]
        exact hsound
      · exact sound_mutex hsound hmu
  published x hxs := admitted_setHandle hh hx x.2 (hw.published x hxs)
  poller := by
    refine pollerOk_mono w _ hw.poller rfl (admitted_setHandle hh hx) (has_setHandle hh hx) ?_
    intro s g hg hadm
    obtain ⟨g₀, hg₀, ha⟩ := hadm
    obtain rfl : g = g₀ := Option.some.inj (hg.symm.trans hg₀)
    -- an admitted session keeps the key it was sent last
    obtain ⟨g', hg', hlast⟩ := put_over
      (R := fun x y => x.isAdmitted = true → y.lastKeySent = x.lastKeySent)
      (fun _ _ => rfl) hh hl hg
    exact ⟨g', hg', hlast ha⟩
  reports r hr hd s hsn := has_setHandle hh hx s r.key (hw.reports r hr hd s hsn)

theorem invariant_setPoller (poller : Poller) (hw : Invariant w)
    (hk : ∀ key, poller.key? = some key → key = w.signingPublicKey)
    (hu : ∀ sid, poller.unrecorded sid = w.poller.unrecorded sid)
    (hp : PollerOk { w with poller := poller }) : Invariant { w with poller := poller } where
  current := hw.current
  pass_key := hk
  sound s g hg := by
    rw [hu s]
    exact hw.sound s g hg
  published := hw.published
  poller := hp
  reports := hw.reports

theorem invariant_accept (sid : ℕ) (platformKey : String) (hw : Invariant w)
    (hnone : w.handles sid = none) :
    Invariant (w.setHandle sid ⟨platformKey, [], false, empty, .opened, [], 0⟩) := by
  have hother (s : ℕ) (g : Handle) (hg : w.handles s = some g) :
      (w.setHandle sid ⟨platformKey, [], false, empty, .opened, [], 0⟩).handles s =
        some g :=
    put_free hnone hg
  have hadm (s : ℕ) (hs : w.Admitted s) :
      (w.setHandle sid ⟨platformKey, [], false, empty, .opened, [], 0⟩).Admitted s := by
    obtain ⟨g, hg, ha⟩ := hs
    exact ⟨g, hother s g hg, ha⟩
  have hhas (s : ℕ) (key : Key) (hs : w.Has s key) :
      (w.setHandle sid ⟨platformKey, [], false, empty, .opened, [], 0⟩).Has s key := by
    obtain ⟨g, hg, hkey⟩ := hs
    exact ⟨g, hother s g hg, hkey⟩
  refine ⟨hw.current, hw.pass_key, ?_, fun x hx => hadm x.2 (hw.published x hx), ?_, ?_⟩
  · intro s g hg
    rcases put_cases hg with ⟨rfl, rfl⟩ | ⟨-, hg'⟩
    · exact ⟨rfl, rfl⟩
    · exact hw.sound s g hg'
  · refine pollerOk_mono w _ hw.poller rfl hadm hhas ?_
    grind
  · intro r hr hd s hs
    exact hhas s r.key (hw.reports r hr hd s hs)

theorem handed_first (he : h.enqueued = []) (hl : h.lastKeySent = key)
    (hlast : served.getLast? = some key) (hsince : h.since+1 = served.length) :
    Handed served none { h.push key with stage := .acked } := by
  obtain ⟨front, rfl⟩ := List.getLast?_eq_some_iff.mp hlast
  have hfront : h.since = front.length := by simpa using hsince
  refine ⟨?_, ?_, ?_, ?_, ?_⟩
  · change h.since < _
    simp [hfront]
  · change (h.enqueued ++ [key]).Sublist ((front ++ [key]).drop h.since)
    simp [he, hfront]
  · change (h.enqueued ++ [key]).head? = (front ++ [key])[h.since]?
    simp [he, hfront]
  · change (h.enqueued ++ [key]).IsChain _
    simp [he]
  · exact ⟨[key], by simp [Handle.push, he], by simp [Handle.push, hl]⟩

theorem unrecorded_of_not_admitted (hw : Invariant w) (hh : w.handles sid = some h)
    (ha : h.isAdmitted = false) :
    w.poller.unrecorded sid = none := by
  have hp := hw.poller
  unfold Poller.unrecorded
  split
  · rename_i key snapshot s todo p hpoll
    split_ifs with he
    · subst he
      simp only [PollerOk, hpoll] at hp
      obtain ⟨g, hg, hadm⟩ := hp.1.admitted s mem_cons_self
      grind
    · rfl
  · rfl

theorem sound_quiet (outbound : List Frame) (done : Bool)
    (hs : Sound served mutex unrecorded sid h) :
    Sound served mutex unrecorded sid { h with outbound := outbound, done := done } := by
  cases hstage : h.stage
  all_goals simp only [Sound, hstage] at hs ⊢
  · exact hs
  · exact hs
  · exact hs
  · exact ⟨⟨hs.1.since_lt, hs.1.sublist, hs.1.first, hs.1.chain, hs.1.last⟩, hs.2⟩
  · exact ⟨hs.since_lt, hs.sublist, hs.first, hs.chain, hs.last⟩

theorem invariant_setSessions (sessions : List (String × ℕ)) (hw : Invariant w)
    (h : ∀ x ∈ sessions, w.Admitted x.2) : Invariant { w with sessions := sessions } where
  current := hw.current
  pass_key := hw.pass_key
  sound := hw.sound
  published := h
  poller := by
    refine pollerOk_mono w _ hw.poller rfl (fun _ hs => hs) (fun _ _ hs => hs) ?_
    grind
  reports := hw.reports

section Joining

variable (hw : Invariant w) (hh : w.handles sid = some h)

include hw hh

theorem invariant_joining {h' : Handle} (ha : h.isAdmitted = false)
    (hk : ∀ key ∈ h.enqueued, key ∈ h'.enqueued)
    (hm : ∀ s, s ≠ sid → w.mutex = some s → mutex = some s)
    (hs : Sound w.served mutex (w.poller.unrecorded sid) sid h') :
    Invariant { w.setHandle sid h' with mutex := mutex } := by
  have habsurd {q : Prop} (ht : h.isAdmitted = true) : q := by
    rw [ha] at ht
    cases ht
  exact invariant_setHandle hw hh ⟨hk, habsurd⟩ habsurd hm hs

theorem invariant_capture (hstage : h.stage = .opened) (hmutex : w.mutex = none) :
    Invariant { w.setHandle sid { h with
      stage := .captured w.signingPublicKey, since := w.served.length-1 } with
      mutex := some sid } := by
  have hsound := hw.sound sid h hh
  simp only [Sound, hstage] at hsound
  have hpos : 0 < w.served.length := by
    apply length_pos_of_ne_nil
    intro hnil
    have hcur := hw.current
    rw [hnil] at hcur
    cases hcur
  refine invariant_joining hw hh (by simp [isAdmitted, hstage])
    (fun _ hk => hk) ?_ ?_
  · grind
  · exact ⟨hsound.1, hsound.2, rfl, hw.current, by dsimp only; omega⟩

theorem invariant_record (hstage : h.stage = .captured key) :
    Invariant (w.setHandle sid { h with lastKeySent := key, stage := .recorded key }) := by
  have hsound := hw.sound sid h hh
  simp only [Sound, hstage] at hsound
  obtain ⟨he, -, hm, hlast, hsince⟩ := hsound
  exact invariant_joining hw hh (by simp [isAdmitted, hstage]) (fun _ hk => hk)
    (fun _ _ hm => hm) ⟨he, rfl, hm, hlast, hsince⟩

theorem invariant_ack (hstage : h.stage = .recorded key) :
    Invariant (w.setHandle sid { h.push key with stage := .acked }) := by
  have hsound := hw.sound sid h hh
  simp only [Sound, hstage] at hsound
  obtain ⟨he, hl, hm, hlast, hsince⟩ := hsound
  exact invariant_joining hw hh (by simp [isAdmitted, hstage])
    (fun _ hk => mem_append_left _ hk) (fun _ _ hm => hm)
    ⟨handed_first he hl hlast hsince, hm⟩

theorem invariant_publish (hstage : h.stage = .acked) :
    Invariant { w.setHandle sid { h with stage := .admitted } with
      sessions := (h.platformKey, sid) :: w.sessions.filter (fun x => x.1 ≠ h.platformKey)
      mutex := none } := by
  have ha : h.isAdmitted = false := by simp [isAdmitted, hstage]
  have hu := unrecorded_of_not_admitted hw hh ha
  have hsound := hw.sound sid h hh
  simp only [Sound, hstage] at hsound
  obtain ⟨hhanded, hmutex⟩ := hsound
  have hinv : Invariant { w.setHandle sid { h with stage := .admitted } with mutex := none } := by
    refine invariant_joining hw hh ha (fun _ hk => hk) ?_ ?_
    · grind
    · rw [hu]
      exact ⟨hhanded.since_lt, hhanded.sublist, hhanded.first, hhanded.chain, hhanded.last⟩
  apply invariant_setSessions _ hinv
  intro x hx
  rcases mem_cons.mp hx with rfl | hx
  · exact ⟨{ h with stage := .admitted }, by simp [setHandle], rfl⟩
  · exact hinv.published x (mem_filter.mp hx).1

end Joining

theorem invariant_admitStep {w w' : World} (sid : ℕ) (h : Handle) (e : Event)
    (hw : Invariant w) (hh : w.handles sid = some h) (hs : w.admitStep sid h e = some w') :
    Invariant w' := by
  unfold admitStep at hs
  split at hs
  · grind [invariant_capture]
  · grind [invariant_record]
  · grind [invariant_ack]
  · grind [invariant_publish]
  · cases hs

/-- Producers, the writer and the end of the stream leave alone what the
delivery of keys reads. -/
theorem invariant_sessionStep {w w' : World} (sid : ℕ) (h : Handle) (e : Event)
    (hw : Invariant w) (hh : w.handles sid = some h) (hs : w.sessionStep sid h e = some w') :
    Invariant w' := by
  have hquiet (outbound : List Frame) (done : Bool) :
      Invariant (w.setHandle sid { h with outbound := outbound, done := done }) := by
    refine invariant_setHandle hw hh ⟨fun _ hk => hk, fun ha => ha⟩ (fun _ => rfl)
      (fun _ _ hm => hm) ?_
    exact sound_quiet outbound done (hw.sound sid h hh)
  unfold sessionStep at hs
  split at hs
  · grind
  · grind
  · grind
  · split at hs
    · cases hs
      apply invariant_setSessions _ hw
      intro x hx
      exact hw.published x (mem_filter.mp hx).1
    · cases hs
  · cases hs

theorem handed_push (hh : Handed served none h) (hlast : served.getLast? = some key)
    (hne : h.lastKeySent ≠ key) :
    Handed served (some key) (h.push key) := by
  obtain ⟨keys, he, hl⟩ := hh.last
  rw [Option.toList_none, append_nil] at he
  subst he
  have hl' : h.enqueued.getLast? ≠ some key := by
    rw [hl]
    simpa using hne
  have hdrop : (served.drop h.since).getLast? = some key := by
    rw [List.getLast?_drop, if_neg (Nat.not_le.mpr hh.since_lt)]
    exact hlast
  refine ⟨hh.since_lt, snoc_sublist hh.sublist hl' hdrop, ?_, isChain_snoc_ne hh.chain hl', ?_⟩
  · have hfirst := hh.first
    cases hq : h.enqueued with
    | nil => grind
    | cons k ks =>
      change (h.enqueued ++ [key]).head? = served[h.since]?
      rw [hq] at hfirst ⊢
      exact hfirst
  · exact ⟨h.enqueued, rfl, hl⟩

theorem handed_record (hh : Handed served (some key) h) :
    Handed served none { h with lastKeySent := key } := by
  obtain ⟨keys, he, -⟩ := hh.last
  refine ⟨hh.since_lt, hh.sublist, hh.first, hh.chain, h.enqueued, by simp, ?_⟩
  rw [he]
  simp

theorem sound_admitted (ha : h.isAdmitted = true) (hh : Handed served unrecorded h) :
    Sound served mutex unrecorded sid h := by
  unfold isAdmitted at ha
  unfold Sound
  split at ha
  · grind
  · cases ha

variable {snapshot todo : List ℕ}

theorem passOk_next {p p' : Propagation} (h : PassOk w key snapshot (sid :: todo) p)
    (hp : p'.dropped = 0 → p.dropped = 0 ∧ w.Has sid key) : PassOk w key snapshot todo p' where
  admitted s hs := h.admitted s (mem_cons_of_mem sid hs)
  handed hd s hs := by
    obtain ⟨hd', hkey⟩ := hp hd
    rcases h.handed hd' s hs with hmem | hhas
    · grind
    · exact .inr hhas

theorem passOk_setPoller {snapshot pending : List ℕ} (poller : Poller)
    (h : PassOk w key snapshot pending p) :
    PassOk { w with poller := poller } key snapshot pending p :=
  ⟨h.admitted, h.handed⟩

theorem invariant_serve (key : Key) (hw : Invariant w) (hidle : w.poller = .idle)
    (hmutex : w.mutex = none) :
    Invariant { w with
      signingPublicKey := key, served := w.served ++ [key], poller := .served } where
  current := by simp
  pass_key _ hk := by cases hk
  sound s g hg := by
    have hs := hw.sound s g hg
    rw [hmutex, hidle] at hs
    rw [hmutex]
    exact sound_serve key hs
  published := hw.published
  poller := trivial
  reports := hw.reports

theorem invariant_report (r : Report) (hw : Invariant w)
    (hu : ∀ sid, w.poller.unrecorded sid = none)
    (hr : r.counts.dropped = 0 → ∀ sid ∈ r.snapshot, w.Has sid r.key) :
    Invariant { w with poller := .idle, reports := w.reports ++ [r] } where
  current := hw.current
  pass_key _ hk := by cases hk
  sound s g hg := by
    have hs := hw.sound s g hg
    rw [hu s] at hs
    exact hs
  published := hw.published
  poller := trivial
  reports r' hr' hd s hs := by
    rcases mem_append.mp hr' with hmem | hmem
    · exact hw.reports r' hmem hd s hs
    · obtain rfl := mem_singleton.mp hmem
      exact hr hd s hs

theorem invariant_hand (hw : Invariant w) (hpoll : w.poller = .stale key snapshot sid todo p)
    (hh : w.handles sid = some h) :
    Invariant { w.setHandle sid (h.push key) with
      poller := .handed key snapshot sid todo p } := by
  have hpass := hw.poller
  simp only [PollerOk, hpoll] at hpass
  obtain ⟨hpass, g, hg, hne⟩ := hpass
  obtain rfl : h = g := Option.some.inj (hh.symm.trans hg)
  obtain ⟨g, hg', hadm⟩ := hpass.admitted sid mem_cons_self
  obtain rfl : h = g := Option.some.inj (hh.symm.trans hg')
  have hkey : key = w.signingPublicKey := hw.pass_key key (by rw [hpoll]; rfl)
  have hx : Extends h (h.push key) := ⟨fun k hk => mem_append_left _ hk, fun ha => ha⟩
  have hnew : (w.setHandle sid (h.push key)).Has sid key :=
    ⟨h.push key, by simp [setHandle], by simp [Handle.push]⟩
  have hun (s : ℕ) : w.poller.unrecorded s = none := by
    rw [hpoll]
    rfl
  have hhanded : Handed w.served (some key) (h.push key) := by
    have hs := sound_of_admitted (hw.sound sid h hh) hadm
    rw [hun sid] at hs
    exact handed_push hs (hkey ▸ hw.current) hne
  refine ⟨hw.current, ?_, ?_, ?_, ?_, ?_⟩
  · rintro k ⟨⟩
    exact hkey
  · intro s g hg
    rcases put_cases hg with ⟨rfl, rfl⟩ | ⟨he, hg'⟩
    · simp only [Poller.unrecorded, if_true]
      exact sound_admitted hadm hhanded
    · have hs := hw.sound s g hg'
      rw [hun s] at hs
      simp only [Poller.unrecorded, if_neg (Ne.symm he)]
      exact hs
  · intro x hx'
    exact admitted_setHandle hh hx x.2 (hw.published x hx')
  · exact ⟨passOk_mono hpass (admitted_setHandle hh hx) (has_setHandle hh hx), hnew⟩
  · intro r hr hd s hs
    exact has_setHandle hh hx s r.key (hw.reports r hr hd s hs)

theorem invariant_recordSent (hw : Invariant w) (hpoll : w.poller = .handed key snapshot sid todo p)
    (hh : w.handles sid = some h) :
    Invariant { w.setHandle sid { h with lastKeySent := key } with
      poller := .passing key snapshot todo { p with sent := p.sent+1 } } := by
  have hpass := hw.poller
  simp only [PollerOk, hpoll] at hpass
  obtain ⟨hpass, hhas⟩ := hpass
  obtain ⟨g, hg, hadm⟩ := hpass.admitted sid mem_cons_self
  obtain rfl : h = g := Option.some.inj (hh.symm.trans hg)
  have hkey : key = w.signingPublicKey := hw.pass_key key (by rw [hpoll]; rfl)
  have hx : Extends h { h with lastKeySent := key } := ⟨fun k hk => hk, fun ha => ha⟩
  have hhanded : Handed w.served none { h with lastKeySent := key } := by
    have hs := sound_of_admitted (hw.sound sid h hh) hadm
    simp only [hpoll, Poller.unrecorded, if_true] at hs
    exact handed_record hs
  refine ⟨hw.current, ?_, ?_, ?_, ?_, ?_⟩
  · rintro k ⟨⟩
    exact hkey
  · intro s g hg
    rcases put_cases hg with ⟨rfl, rfl⟩ | ⟨he, hg'⟩
    · exact sound_admitted hadm hhanded
    · have hs := hw.sound s g hg'
      simp only [hpoll, Poller.unrecorded, if_neg (Ne.symm he)] at hs
      exact hs
  · intro x hx'
    exact admitted_setHandle hh hx x.2 (hw.published x hx')
  · have hnext : PassOk w key snapshot todo { p with sent := p.sent+1 } :=
      passOk_next hpass fun hd => ⟨hd, hhas⟩
    exact passOk_mono hnext (admitted_setHandle hh hx) (has_setHandle hh hx)
  · intro r hr hd s hs
    exact has_setHandle hh hx s r.key (hw.reports r hr hd s hs)

theorem invariant_snapshot {order : List ℕ} (hw : Invariant w) (hserved : w.poller = .served)
    (hperm : order.isPerm (w.sessions.map Prod.snd) = true) :
    Invariant { w with poller := .passing w.signingPublicKey order order ⟨0, 0, 0⟩ } := by
  refine invariant_setPoller _ hw ?_ (fun sid => by rw [hserved]; rfl) ?_
  · intro key hkey
    exact (Option.some.inj hkey).symm
  · refine ⟨?_, fun _ sid hmem => .inl hmem⟩
    intro sid hmem
    have hmem' := (isPerm_iff.mp hperm).mem_iff.mp hmem
    obtain ⟨x, hx, rfl⟩ := mem_map.mp hmem'
    exact hw.published x hx

theorem has_of_upToDate (hw : Invariant w)
    (hpoll : w.poller = .passing key snapshot (sid :: todo) p) (hh : w.handles sid = some h)
    (hadm : h.isAdmitted = true) (hsame : h.lastKeySent = key) : w.Has sid key := by
  have hs := sound_of_admitted (hw.sound sid h hh) hadm
  rw [hpoll] at hs
  obtain ⟨keys, he, hl⟩ := hs.last
  refine ⟨h, hh, ?_⟩
  grind

theorem invariant_pass (poller : Poller) (hw : Invariant w) (hkey : w.poller.key? = some key)
    (hkey' : poller.key? = some key) (hu : ∀ sid, poller.unrecorded sid = w.poller.unrecorded sid)
    (hp : PollerOk { w with poller := poller }) : Invariant { w with poller := poller } := by
  refine invariant_setPoller poller hw ?_ hu hp
  intro k hk
  obtain rfl := Option.some.inj (hkey'.symm.trans hk)
  exact hw.pass_key key hkey

theorem invariant_upToDate (hw : Invariant w)
    (hpoll : w.poller = .passing key snapshot (sid :: todo) p) (hh : w.handles sid = some h)
    (hsame : h.lastKeySent = key) :
    Invariant { w with
      poller := .passing key snapshot todo { p with upToDate := p.upToDate+1 } } := by
  have hpass := hw.poller
  simp only [PollerOk, hpoll] at hpass
  obtain ⟨g, hg, hadm⟩ := hpass.admitted sid mem_cons_self
  obtain rfl : h = g := Option.some.inj (hh.symm.trans hg)
  have hhas := has_of_upToDate hw hpoll hh hadm hsame
  apply invariant_pass _ hw (by rw [hpoll]; rfl) rfl (fun s => by rw [hpoll]; rfl)
  exact passOk_setPoller _ (passOk_next hpass fun hd => ⟨hd, hhas⟩)

theorem invariant_stale (hw : Invariant w)
    (hpoll : w.poller = .passing key snapshot (sid :: todo) p) (hh : w.handles sid = some h)
    (hne : h.lastKeySent ≠ key) :
    Invariant { w with poller := .stale key snapshot sid todo p } := by
  have hpass := hw.poller
  simp only [PollerOk, hpoll] at hpass
  apply invariant_pass _ hw (by rw [hpoll]; rfl) rfl (fun s => by rw [hpoll]; rfl)
  exact ⟨passOk_setPoller _ hpass, h, hh, hne⟩

theorem invariant_drop (hw : Invariant w) (hpoll : w.poller = .stale key snapshot sid todo p) :
    Invariant { w with
      poller := .passing key snapshot todo { p with dropped := p.dropped+1 } } := by
  have hpass := hw.poller
  simp only [PollerOk, hpoll] at hpass
  apply invariant_pass _ hw (by rw [hpoll]; rfl) rfl (fun s => by rw [hpoll]; rfl)
  apply passOk_setPoller
  apply passOk_next hpass.1
  simp

theorem invariant_select {w w' : World} (b : Branch) (hw : Invariant w)
    (hpoll : w.poller = .stale key snapshot sid todo p) (hh : w.handles sid = some h)
    (hs : w.select key snapshot sid todo p h b = some w') : Invariant w' := by
  have hdrop := invariant_drop hw hpoll
  cases b with
  | send => grind [select, invariant_hand]
  | done =>
    simp only [select] at hs
    grind
  | full =>
    simp only [select] at hs
    grind

theorem invariant_finish {snapshot : List ℕ} (hw : Invariant w)
    (hpoll : w.poller = .passing key snapshot [] p) :
    Invariant { w with poller := .idle, reports := w.reports ++ [⟨key, snapshot, p⟩] } := by
  have hpass := hw.poller
  simp only [PollerOk, hpoll] at hpass
  refine invariant_report _ hw (fun sid => by rw [hpoll]; rfl) ?_
  intro hd sid hmem
  exact (hpass.handed hd sid hmem).resolve_left (not_mem_nil)

theorem invariant_pollStep {w w' : World} (e : Event) (hw : Invariant w)
    (hs : w.pollStep e = some w') : Invariant w' := by
  cases e with
  | serve key => grind [pollStep, invariant_serve]
  | snapshot order =>
    simp only [pollStep] at hs
    split at hs
    · rename_i hserved hmutex
      split_ifs at hs with hsize hperm
      · cases hs
        refine invariant_report _ hw (fun sid => by rw [hserved]; rfl) ?_
        grind
      · cases hs
        exact invariant_snapshot hw hserved hperm
    · cases hs
  | compare => grind [pollStep, invariant_upToDate, invariant_stale]
  | select b => grind [pollStep, invariant_select]
  | recordSent => grind [pollStep, invariant_recordSent]
  | finish => grind [pollStep, invariant_finish]
  | _ => cases hs

theorem invariant_step {w w' : World} (e : Event) (hw : Invariant w)
    (hs : w.step e = some w') : Invariant w' := by
  have hadmit (sid : ℕ) (h : (w.handles sid).bind (fun h => w.admitStep sid h e) = some w') :
      Invariant w' := by
    obtain ⟨g, hg, hs⟩ := Option.bind_eq_some_iff.mp h
    exact invariant_admitStep sid g e hw hg hs
  have hsession (sid : ℕ)
      (h : (w.handles sid).bind (fun h => w.sessionStep sid h e) = some w') : Invariant w' := by
    obtain ⟨g, hg, hs⟩ := Option.bind_eq_some_iff.mp h
    exact invariant_sessionStep sid g e hw hg hs
  cases e with
  | accept sid platformKey => grind [step, invariant_accept]
  | capture sid => exact hadmit sid hs
  | record sid => exact hadmit sid hs
  | ack sid => exact hadmit sid hs
  | publish sid => exact hadmit sid hs
  | produce sid => exact hsession sid hs
  | drain sid => exact hsession sid hs
  | close sid => exact hsession sid hs
  | remove sid => exact hsession sid hs
  | serve key => exact invariant_pollStep (.serve key) hw hs
  | snapshot order => exact invariant_pollStep (.snapshot order) hw hs
  | compare => exact invariant_pollStep .compare hw hs
  | select b => exact invariant_pollStep (.select b) hw hs
  | recordSent => exact invariant_pollStep .recordSent hw hs
  | finish => exact invariant_pollStep .finish hw hs

theorem invariant_reachable (w : World) (h : gateway.Reachable w) : Invariant w := by
  apply reachable_invariant gateway Invariant _ _ w h
  · rintro w ⟨hserved, -, hsessions, hhandles, hidle, hreports⟩
    refine ⟨by rw [hserved]; rfl, ?_, ?_, ?_, ?_, ?_⟩
    · intro key hk
      rw [hidle] at hk
      cases hk
    · grind
    · grind
    · simp only [PollerOk, hidle]
    · grind
  · intro w e w' hw hs
    exact invariant_step e hw hs

/-- A key is being handed to the session: `admitSession` has recorded it and
not sent it yet, or the pass has sent it and not recorded it yet. -/
def World.handing (w : World) (sid : ℕ) (h : Handle) : Bool :=
  (w.poller.unrecorded sid).isSome ||
    match h.stage with
    | .recorded _ => true
    | _ => false

/-- The keys put on the channel of a session: a subsequence of the keys served,
from the one served at its admission on, and no key twice in a row. -/
structure Delivered (served : List Key) (h : Handle) : Prop where
  sublist : h.enqueued.Sublist (served.drop h.since)
  first : h.enqueued ≠ [] → h.enqueued.head? = served[h.since]?
  chain : h.enqueued.IsChain (· ≠ ·)

theorem delivered_of_nil (he : h.enqueued = []) :
    Delivered served h := by
  refine ⟨?_, fun hne => absurd he hne, ?_⟩
  · grind
  · grind

theorem delivered_of_handed (hh : Handed served unrecorded h) : Delivered served h :=
  ⟨hh.sublist, fun _ => hh.first, hh.chain⟩

theorem lastKeySent_of_handed (hh : Handed served none h) :
    h.lastKeySent = h.enqueued.getLast?.getD empty := by
  obtain ⟨keys, he, hl⟩ := hh.last
  grind

theorem delivered_of_sound (hs : Sound w.served w.mutex (w.poller.unrecorded sid) sid h) :
    Delivered w.served h ∧
      (w.handing sid h = false → h.lastKeySent = h.enqueued.getLast?.getD empty) := by
  unfold Sound at hs
  split at hs
  · obtain ⟨he, hl⟩ := hs
    refine ⟨delivered_of_nil he, fun _ => ?_⟩
    rw [hl, he]
    rfl
  · obtain ⟨he, hl, -⟩ := hs
    refine ⟨delivered_of_nil he, fun _ => ?_⟩
    rw [hl, he]
    rfl
  · rename_i key hstage
    refine ⟨delivered_of_nil hs.1, fun hn => ?_⟩
    simp [handing, hstage] at hn
  · exact ⟨delivered_of_handed hs.1, fun _ => lastKeySent_of_handed hs.1⟩
  · refine ⟨delivered_of_handed hs, fun hn => ?_⟩
    have hu : w.poller.unrecorded sid = none := by
      unfold handing at hn
      rw [Bool.or_eq_false_iff, Option.isSome_eq_false_iff] at hn
      exact Option.isNone_iff_eq_none.mp hn.1
    rw [hu] at hs
    exact lastKeySent_of_handed hs

/-- Under every interleaving of the poller, admissions, producers and disconnects, no session is
handed a key out of the order in which the keys were served. -/
theorem key_delivery (w : World) (hw : gateway.Reachable w) :
    (∀ sid h, w.handles sid = some h → Delivered w.served h ∧
      (w.handing sid h = false →
        h.lastKeySent = h.enqueued.getLast?.getD empty)) ∧
    ∀ r ∈ w.reports, r.counts.dropped = 0 → ∀ sid ∈ r.snapshot,
      ∃ h, w.handles sid = some h ∧ r.key ∈ h.enqueued := by
  have hinv := invariant_reachable w hw
  refine ⟨?_, hinv.reports⟩
  intro sid h hh
  exact delivered_of_sound (hinv.sound sid h hh)

section Sample

def keyA : Key := ⟨Array.replicate 32 0⟩

def keyB : Key := ⟨Array.replicate 32 1⟩

def sampleStart : World := ⟨keyA, [keyA], none, [], fun _ => none, .idle, []⟩

def sampleRotation : List Event :=
  [.accept 0 "pg", .capture 0, .record 0, .ack 0, .publish 0, .drain 0,
    .serve keyB, .snapshot [0], .compare, .select .send]

def sampleConverged : List Event :=
  sampleRotation ++ [.recordSent, .finish, .serve keyB, .snapshot [0], .compare, .finish]

theorem key_delivery_sampleConverged :
    ∃ w, gateway.Reachable w ∧
      (∃ h, w.handles 0 = some h ∧ h.enqueued = [keyA, keyB] ∧ Delivered w.served h ∧
        w.handing 0 h = false ∧ h.lastKeySent = keyB) ∧
      w.reports.map (fun r => r.counts) = [⟨1, 0, 0⟩, ⟨0, 1, 0⟩] := by
  obtain ⟨w, hrun, hhandle, hcounts⟩ : ∃ w, gateway.run sampleStart sampleConverged = some w ∧
      (∃ h, w.handles 0 = some h ∧ h.enqueued = [keyA, keyB] ∧ w.handing 0 h = false) ∧
      w.reports.map (fun r => r.counts) = [⟨1, 0, 0⟩, ⟨0, 1, 0⟩] :=
    ⟨_, rfl, ⟨_, rfl, rfl, rfl⟩, rfl⟩
  obtain ⟨h, hh, he, hn⟩ := hhandle
  have hreach : gateway.Reachable w :=
    run_reachable _ sampleConverged sampleStart _
      (.init ⟨rfl, rfl, rfl, fun _ => rfl, rfl, rfl⟩) hrun
  obtain ⟨hd, hl⟩ := (key_delivery w hreach).1 0 h hh
  refine ⟨w, hreach, ⟨h, hh, he, hd, hn, ?_⟩, hcounts⟩
  rw [hl hn, he]
  rfl

/-- Between the send and the record of a pass, the record is not the last key
that the session was handed. -/
theorem record_behind_channel :
    ∃ w h, gateway.Reachable w ∧ w.handles 0 = some h ∧ h.enqueued = [keyA, keyB] ∧
      h.lastKeySent = keyA ∧ keyA ≠ keyB := by
  obtain ⟨w, h, hrun, hh, he, hl⟩ : ∃ w h, gateway.run sampleStart sampleRotation = some w ∧
      w.handles 0 = some h ∧ h.enqueued = [keyA, keyB] ∧ h.lastKeySent = keyA :=
    ⟨_, _, rfl, rfl, rfl, rfl⟩
  refine ⟨w, h, ?_, hh, he, hl, by decide⟩
  exact run_reachable _ sampleRotation sampleStart _
    (.init ⟨rfl, rfl, rfl, fun _ => rfl, rfl, rfl⟩) hrun

end Sample

end DbAgent.KeyDelivery
