import Mathlib
import DbAgent.RowTable
import DbAgent.TransitionSystem

/-! The `probes` row of a session. The handlers of `Session`, each write of theirs
a move of its own, share the row with other sessions of the platform and with the
reaper `CheckStaleProbes`. -/
namespace DbAgent.ProbeStatus

open Transition List

inductive Status where
  | offline | online | degraded
  deriving DecidableEq, Repr

/-- The columns of `probes` that these functions read or write. -/
structure Probe where
  platformKey : String
  status : Status
  lastHeartbeat : ℤ

/-- How far a handler of `Session` has come: it knows its probe id, has upserted
the row, has set the heartbeat of its handle, reads frames, is between the two
writes of a heartbeat, has taken its handle out of the map, has ended. -/
inductive Stage where
  | found | upserted | touched | reading | beating | removed | ended
  deriving DecidableEq, Repr

/-- `sessionHandle`, with the stage of its handler. No move reads `lastSeen`, when the
handler last took a heartbeat or a registration, and `marked`, whether the reaper has
written its row since the handler last did. -/
structure Session where
  platformKey : String
  probeId : ℕ
  lastHeartbeat : ℤ
  lastSeen : ℤ
  stage : Stage
  marked : Bool

open Session

/-- `CheckStaleProbes`: the handles that are to be looked at, and the one that was
found stale. -/
inductive Reaper where
  | idle
  | checking (cutoff : ℤ) (todo : List ℕ)
  | stale (cutoff : ℤ) (sid : ℕ) (todo : List ℕ)

/-- `order` lists the probe ids as they were registered, and `minted` those that
were ever drawn. -/
structure World where
  now : ℤ
  probes : ℕ → Option Probe
  order : List ℕ
  minted : List ℕ
  sessions : List (String × ℕ)
  handles : ℕ → Option Session
  reaper : Reaper

inductive Event where
  | tick (now : ℤ)
  | register (sid : ℕ) (platformKey : String) (minted : ℕ)
  | upsert (sid : ℕ)
  | touch (sid : ℕ)
  | admitSession (sid : ℕ)
  | heartbeat (sid : ℕ)
  | recordHeartbeat (sid : ℕ)
  | reregister (sid : ℕ)
  | remove (sid : ℕ)
  | offline (sid : ℕ)
  | reap (order : List ℕ)
  | compare
  | mark
  | finish

/-- `FindProbeByPlatform`: the row that was registered last. -/
def World.findProbe (w : World) (key : String) : Option ℕ :=
  w.order.reverse.find? fun id => (w.probes id).elim false fun p => p.platformKey = key

/-- `UpsertProbe` of a session that is online. -/
def World.upsertProbe (w : World) (id : ℕ) (key : String) : World :=
  { w with
    probes := Function.update w.probes id (some ⟨key, .online, w.now⟩)
    order := if (w.probes id).isSome then w.order else w.order ++ [id] }

def World.updateHeartbeat (w : World) (id : ℕ) : World :=
  { w with
    probes := Function.update w.probes id
      ((w.probes id).map fun p => { p with status := .online, lastHeartbeat := w.now }) }

/-- `UpdateProbeStatus` to offline. -/
def World.setOffline (w : World) (id : ℕ) : World :=
  { w with
    probes := Function.update w.probes id
      ((w.probes id).map fun p => { p with status := .offline }) }

def World.setHandle (w : World) (sid : ℕ) (h : Session) : World :=
  { w with handles := Function.update w.handles sid (some h) }

def World.sessionStep (w : World) (sid : ℕ) (h : Session) : Event → Option World
  | .upsert _ =>
    if h.stage = .found then
      some ((w.upsertProbe h.probeId h.platformKey).setHandle sid { h with
        lastSeen := w.now, stage := .upserted, marked := false })
    else none
  | .touch _ =>
    if h.stage = .upserted then
      some (w.setHandle sid { h with lastHeartbeat := w.now, stage := .touched })
    else none
  | .admitSession _ =>
    if h.stage = .touched then
      some { w.setHandle sid { h with stage := .reading } with
        sessions := (h.platformKey, sid) :: w.sessions.filter (fun x => x.1 ≠ h.platformKey) }
    else none
  | .heartbeat _ =>
    if h.stage = .reading then
      some (w.setHandle sid { h with
        lastHeartbeat := w.now, lastSeen := w.now, stage := .beating })
    else none
  | .recordHeartbeat _ =>
    if h.stage = .beating then
      some ((w.updateHeartbeat h.probeId).setHandle sid { h with
        stage := .reading, marked := false })
    else none
  | .reregister _ =>
    if h.stage = .reading then
      some ((w.upsertProbe h.probeId h.platformKey).setHandle sid { h with
        lastSeen := w.now, marked := false })
    else none
  | .remove _ =>
    if h.stage = .reading then
      -- only the handle that is in the map is taken out of it
      some { w.setHandle sid { h with stage := .removed } with
        sessions := w.sessions.filter (fun x => x ≠ (h.platformKey, sid)) }
    else none
  | .offline _ =>
    if h.stage = .removed then
      some ((w.setOffline h.probeId).setHandle sid { h with stage := .ended })
    else none
  | _ => none

/-- The moves of the reaper. `order` is the order in which it ranges over the map. -/
def World.reaperStep (T : ℤ) (w : World) : Event → Option World
  | .reap order =>
    match w.reaper with
    | .idle =>
      if order.isPerm (w.sessions.map Prod.snd) then some { w with
        reaper := .checking (w.now-T) order }
      else none
    | _ => none
  | .compare =>
    match w.reaper with
    | .checking cutoff (sid :: todo) =>
      match w.handles sid with
      | some h =>
        if h.lastHeartbeat < cutoff then some { w with reaper := .stale cutoff sid todo }
        else some { w with reaper := .checking cutoff todo }
      | none => none
    | _ => none
  | .mark =>
    match w.reaper with
    | .stale cutoff sid todo =>
      match w.handles sid with
      | some h => some { (w.setOffline h.probeId).setHandle sid { h with marked := true } with
          reaper := .checking cutoff todo }
      | none => none
    | _ => none
  | .finish =>
    match w.reaper with
    | .checking _ [] => some { w with reaper := .idle }
    | _ => none
  | _ => none

def World.step (T : ℤ) (w : World) (e : Event) : Option World :=
  match e with
  | .tick now => if w.now ≤ now then some { w with now := now } else none
  | .register sid key minted =>
    match w.handles sid with
    | some _ => none
    | none =>
      match w.findProbe key with
      | some id => some (w.setHandle sid ⟨key, id, 0, w.now, .found, false⟩)
      | none =>
        if minted ∈ w.minted then none
        else some { w.setHandle sid ⟨key, minted, 0, w.now, .found, false⟩ with
          minted := minted :: w.minted }
  | .upsert sid | .touch sid | .admitSession sid | .heartbeat sid | .recordHeartbeat sid
  | .reregister sid | .remove sid | .offline sid =>
    (w.handles sid).bind (fun h => w.sessionStep sid h e)
  | _ => w.reaperStep T e

/-- A gateway without sessions, over the rows that are there. `T` is
`HeartbeatTimeout`. -/
def gateway (T : ℤ) : System World Event where
  init w := (∀ id p, w.probes id = some p → id ∈ w.minted) ∧ w.sessions = [] ∧
    (∀ sid, w.handles sid = none) ∧ w.reaper = .idle
  step := World.step T

/-- The row of every session in the map that was heard from within `T` is online. -/
def Reflects (T : ℤ) (w : World) : Prop :=
  ∀ key sid h, (key, sid) ∈ w.sessions → w.handles sid = some h → w.now ≤ h.lastSeen+T →
    ∃ p, w.probes h.probeId = some p ∧ p.status = .online

def Session.live (h : Session) : Prop := h.stage ≠ .found ∧ h.stage ≠ .ended

/-- A session upserts its row only when every other one of its platform has made
its last write. The reaper marks only a session that was not heard from within `T`,
and such a session is heard from again by a registration first. -/
def Orderly (T : ℤ) (w : World) : Event → Prop
  | .upsert sid => ∀ h sid' h', w.handles sid = some h → w.handles sid' = some h' →
      sid' ≠ sid → h'.platformKey = h.platformKey → ¬h'.live
  | .mark => ∀ cutoff sid todo h sid' h', w.reaper = .stale cutoff sid todo →
      w.handles sid = some h → w.handles sid' = some h' → h'.platformKey = h.platformKey →
      h'.live → sid' = sid ∧ h'.lastSeen+T < w.now
  | .heartbeat sid => ∀ h, w.handles sid = some h → h.marked = false
  | _ => True

/-- The row of the session is online, or was marked in its silence. -/
def World.shows (T : ℤ) (w : World) (h : Session) : Prop :=
  ∃ p, w.probes h.probeId = some p ∧
    (p.status = .online ∨ h.marked = true ∧ h.lastSeen+T < w.now)

/-- The handler is in its loop, so its handle may be in the map. -/
abbrev Session.reads (h : Session) : Prop := h.stage = .reading ∨ h.stage = .beating

/-- What orderly runs keep. A probe id belongs to one platform, so the last write of
a session is of no concern to another platform. -/
structure Invariant (T : ℤ) (w : World) : Prop where
  rows : ∀ id p, w.probes id = some p → id ∈ w.minted
  ids : ∀ sid h, w.handles sid = some h → h.probeId ∈ w.minted
  owner : ∀ sid h p, w.handles sid = some h → w.probes h.probeId = some p →
    p.platformKey = h.platformKey
  shared : ∀ sid h sid' h', w.handles sid = some h → w.handles sid' = some h' →
    h.probeId = h'.probeId → h.platformKey = h'.platformKey
  single : ∀ sid h sid' h', w.handles sid = some h → w.handles sid' = some h' →
    h.platformKey = h'.platformKey → h.live → h'.live → sid = sid'
  shown : ∀ sid h, w.handles sid = some h → h.live → w.shows T h
  sessions : ∀ key sid, (key, sid) ∈ w.sessions →
    ∃ h, w.handles sid = some h ∧ h.platformKey = key ∧ h.reads

/-- The parts of the state that one handler of its own changes: the invariant after
a move that keeps the rows in their platforms. -/
structure Moves (w w' : World) (sid : ℕ) (h h' : Session) : Prop where
  handle : w.handles sid = some h
  handles : w'.handles = Function.update w.handles sid (some h')
  key : h'.platformKey = h.platformKey
  id : h'.probeId = h.probeId
  minted : w'.minted = w.minted
  rows : ∀ i p, w'.probes i = some p →
    (∃ q, w.probes i = some q ∧ q.platformKey = p.platformKey) ∨
      (i = h.probeId ∧ p.platformKey = h.platformKey)

variable {T : ℤ} {w w' : World} {sid : ℕ} {h h' : Session}

theorem Moves.cases (m : Moves w w' sid h h') {s : ℕ} {g : Session} (hg : w'.handles s = some g) :
    (s = sid ∧ g = h') ∨ (s ≠ sid ∧ w.handles s = some g) := by
  rw [m.handles] at hg
  exact RowTable.put_cases hg

theorem Moves.before (m : Moves w w' sid h h') {s : ℕ} {g : Session} (hg : w'.handles s = some g) :
    ∃ g₀, w.handles s = some g₀ ∧ g₀.platformKey = g.platformKey ∧ g₀.probeId = g.probeId := by
  rcases m.cases hg with ⟨rfl, rfl⟩ | ⟨_, hg'⟩
  · exact ⟨h, m.handle, m.key.symm, m.id.symm⟩
  · exact ⟨g, hg', rfl, rfl⟩

theorem invariant_of_moves (hi : Invariant T w) (m : Moves w w' sid h h')
    (hsingle : h'.live → h.live ∨ ∀ s g, w.handles s = some g → s ≠ sid →
      g.platformKey = h.platformKey → ¬g.live)
    (hshown : ∀ s g, w'.handles s = some g → g.live → w'.shows T g)
    (hsessions : ∀ key s, (key, s) ∈ w'.sessions → ∃ g, w'.handles s = some g ∧
      g.platformKey = key ∧ g.reads) : Invariant T w' := by
  refine ⟨?_, ?_, ?_, ?_, ?_, hshown, hsessions⟩
  · intro id p hp
    rw [m.minted]
    rcases m.rows id p hp with ⟨q, hq, _⟩ | ⟨rfl, _⟩
    · exact hi.rows id q hq
    · exact hi.ids sid h m.handle
  · intro s g hg
    obtain ⟨g₀, hg₀, _, hid⟩ := m.before hg
    rw [m.minted, ← hid]
    exact hi.ids s g₀ hg₀
  · intro s g p hg hp
    obtain ⟨g₀, hg₀, hkey, hid⟩ := m.before hg
    rcases m.rows _ p hp with ⟨q, hq, hpq⟩ | ⟨hpid, hpk⟩
    · rw [← hkey, ← hpq]
      exact hi.owner s g₀ q hg₀ (hid ▸ hq)
    · rw [hpk, ← hkey]
      exact hi.shared sid h s g₀ m.handle hg₀ (hpid.symm.trans hid.symm)
  · intro s g s' g' hg hg' hid
    obtain ⟨g₀, hg₀, hk, hi₀⟩ := m.before hg
    obtain ⟨g₁, hg₁, hk', hi₁⟩ := m.before hg'
    rw [← hk, ← hk']
    exact hi.shared s g₀ s' g₁ hg₀ hg₁ (by rw [hi₀, hi₁, hid])
  · -- two live sessions of a platform: the new one cannot have become live beside another
    have hnew : ∀ s g, w.handles s = some g → s ≠ sid → g.platformKey = h'.platformKey →
        g.live → ¬h'.live := by
      intro s g hg hs hk hlive hlive'
      rcases hsingle hlive' with hold | hnone
      · exact hs (hi.single s g sid h hg m.handle (hk.trans m.key) hlive hold)
      · exact hnone s g hg hs (hk.trans m.key) hlive
    intro s g s' g' hg hg' hk hl hl'
    rcases m.cases hg with ⟨rfl, rfl⟩ | ⟨hs, hg₀⟩
    · rcases m.cases hg' with ⟨rfl, rfl⟩ | ⟨hs', hg₁⟩
      · rfl
      · grind
    · rcases m.cases hg' with ⟨rfl, rfl⟩ | ⟨hs', hg₁⟩
      · exact absurd hl' (hnew s g hg₀ hs hk hl)
      · exact hi.single s g s' g' hg₀ hg₁ hk hl hl'

theorem sessions_of_moves (hi : Invariant T w) (m : Moves w w' sid h h')
    (hsub : ∀ x ∈ w'.sessions, x ∈ w.sessions)
    (hstage : (h.platformKey, sid) ∈ w'.sessions → h.reads →
      h'.reads) :
    ∀ key s, (key, s) ∈ w'.sessions → ∃ g, w'.handles s = some g ∧ g.platformKey = key ∧
      g.reads := by
  intro key s hs
  obtain ⟨g, hg, hk, hst⟩ := hi.sessions key s (hsub _ hs)
  by_cases hsid : s = sid
  · subst hsid
    rw [m.handle, Option.some.injEq] at hg
    subst hg
    refine ⟨h', ?_, m.key.trans hk, hstage (hk ▸ hs) hst⟩
    rw [m.handles, Function.update_self]
  · refine ⟨g, ?_, hk, hst⟩
    rw [m.handles, Function.update_of_ne hsid]
    exact hg

theorem rows_modify {probes : ℕ → Option Probe} {id i : ℕ} {f : Probe → Probe} {p : Probe}
    (hp : Function.update probes id ((probes id).map f) i = some p)
    (hf : ∀ q, (f q).platformKey = q.platformKey) :
    ∃ q, probes i = some q ∧ q.platformKey = p.platformKey := by
  obtain ⟨q, hq, rfl | rfl⟩ := RowTable.modify_cases hp
  · exact ⟨_, hq, rfl⟩
  · exact ⟨q, hq, (hf q).symm⟩

/-- A write of a row as online keeps what every session shows. -/
theorem shows_update {id : ℕ} {p : Option Probe} (hw : w'.probes = Function.update w.probes id p)
    (hnow : w'.now = w.now)
    (hp : (∃ q, w.probes id = some q) → ∃ q, p = some q ∧ q.status = .online) (hs : w.shows T h) :
    w'.shows T h := by
  obtain ⟨q, hq, hstatus⟩ := hs
  rw [World.shows, hw, hnow]
  by_cases hi : h.probeId = id
  · subst hi
    obtain ⟨r, hr, honline⟩ := hp ⟨q, hq⟩
    exact ⟨r, (Function.update_self _ _ _).trans hr, .inl honline⟩
  · exact ⟨q, (Function.update_of_ne hi _ _).trans hq, hstatus⟩

section Handles

variable (hi : Invariant T w) (hh : w.handles sid = some h)

include hi hh

theorem invariant_handle (hkey : h'.platformKey = h.platformKey) (hid : h'.probeId = h.probeId)
    (hlive : h'.live → h.live) (hshown : w.shows T h → w.shows T h') (hstage : h.reads →
      h'.reads) : Invariant T (w.setHandle sid h') := by
  have m : Moves w (w.setHandle sid h') sid h h' :=
    ⟨hh, rfl, hkey, hid, rfl, fun i p hp => .inl ⟨p, hp, rfl⟩⟩
  apply invariant_of_moves hi m
  · exact fun hl => .inl (hlive hl)
  · intro s g hg hl
    rcases m.cases hg with ⟨rfl, rfl⟩ | ⟨_, hg₀⟩
    · exact hshown (hi.shown s h hh (hlive hl))
    · exact hi.shown s g hg₀ hl
  · exact sessions_of_moves hi m (fun _ hx => hx) (fun _ => hstage)

theorem invariant_upsert (hkey : h'.platformKey = h.platformKey) (hid : h'.probeId = h.probeId)
    (hsingle : h'.live → h.live ∨ ∀ s g, w.handles s = some g → s ≠ sid →
      g.platformKey = h.platformKey → ¬g.live) (hstage : h.reads →
      h'.reads) : Invariant T ((w.upsertProbe h.probeId h.platformKey).setHandle sid h') := by
  have m : Moves w ((w.upsertProbe h.probeId h.platformKey).setHandle sid h') sid h h' := by
    refine ⟨hh, rfl, hkey, hid, rfl, ?_⟩
    intro i p hp
    change Function.update w.probes h.probeId _ i = some p at hp
    rcases RowTable.put_cases hp with ⟨rfl, rfl⟩ | ⟨-, hold⟩
    · exact .inr ⟨rfl, rfl⟩
    · exact .inl ⟨p, hold, rfl⟩
  apply invariant_of_moves hi m hsingle
  · intro s g hg hl
    rcases m.cases hg with ⟨rfl, rfl⟩ | ⟨_, hg₀⟩
    · rw [World.shows, hid]
      exact ⟨_, Function.update_self _ _ _, .inl rfl⟩
    · exact shows_update rfl rfl (fun _ => ⟨_, rfl, rfl⟩) (hi.shown s g hg₀ hl)
  · exact sessions_of_moves hi m (fun _ hx => hx) (fun _ => hstage)

theorem invariant_recordHeartbeat (hst : h.stage = .beating) :
    Invariant T ((w.updateHeartbeat h.probeId).setHandle sid { h with
      stage := .reading, marked := false }) := by
  have hl : h.live := by simp [live, hst]
  have m : Moves w ((w.updateHeartbeat h.probeId).setHandle sid { h with
      stage := .reading, marked := false })
      sid h { h with stage := .reading, marked := false } := by
    refine ⟨hh, rfl, rfl, rfl, rfl, ?_⟩
    intro i p hp
    exact .inl (rows_modify hp fun _ => rfl)
  apply invariant_of_moves hi m
  · exact fun _ => .inl hl
  · intro s g hg hgl
    rcases m.cases hg with ⟨rfl, rfl⟩ | ⟨_, hg₀⟩
    · obtain ⟨q, hq, _⟩ := hi.shown s h hh hl
      exact ⟨{ q with status := .online, lastHeartbeat := w.now },
        (Function.update_self _ _ _).trans (Option.map_eq_some_iff.mpr ⟨q, hq, rfl⟩), .inl rfl⟩
    · refine shows_update rfl rfl ?_ (hi.shown s g hg₀ hgl)
      rintro ⟨q, hq⟩
      exact ⟨_, Option.map_eq_some_iff.mpr ⟨q, hq, rfl⟩, rfl⟩
  · exact sessions_of_moves hi m (fun _ hx => hx) (fun _ _ => .inl rfl)

/-- Both writes of `offline`: the teardown of a session and the mark of the reaper. -/
theorem invariant_setOffline (r : Reaper) (hkey : h'.platformKey = h.platformKey)
    (hid : h'.probeId = h.probeId)
    (hlive : h'.live → h.live ∧ h'.marked = true ∧ h'.lastSeen+T < w.now)
    (hother : ∀ s g, w.handles s = some g → g.platformKey = h.platformKey → g.live → s = sid)
    (hstage : (h.platformKey, sid) ∈ w.sessions → h.reads →
      h'.reads) : Invariant T { (w.setOffline h.probeId).setHandle sid h' with reaper := r } := by
  have m : Moves w { (w.setOffline h.probeId).setHandle sid h' with reaper := r } sid h h' := by
    refine ⟨hh, rfl, hkey, hid, rfl, ?_⟩
    intro i p hp
    exact .inl (rows_modify hp fun _ => rfl)
  apply invariant_of_moves hi m
  · exact fun hl => .inl (hlive hl).1
  · intro s g hg hgl
    rcases m.cases hg with ⟨rfl, rfl⟩ | ⟨hs, hg₀⟩
    · obtain ⟨hl, hsilent⟩ := hlive hgl
      obtain ⟨q, hq, _⟩ := hi.shown s h hh hl
      refine ⟨{ q with status := .offline }, ?_, .inr hsilent⟩
      rw [hid]
      exact (Function.update_self _ _ _).trans (Option.map_eq_some_iff.mpr ⟨q, hq, rfl⟩)
    · have hne : g.probeId ≠ h.probeId := fun heq =>
        hs (hother s g hg₀ (hi.shared s g sid h hg₀ hh heq) hgl)
      obtain ⟨q, hq, hqs⟩ := hi.shown s g hg₀ hgl
      exact ⟨q, (Function.update_of_ne hne _ _).trans hq, hqs⟩
  · exact sessions_of_moves hi m (fun _ hx => hx) hstage

theorem invariant_offline (hst : h.stage = .removed) :
    Invariant T ((w.setOffline h.probeId).setHandle sid { h with stage := .ended }) := by
  have hl : h.live := by simp [live, hst]
  refine invariant_setOffline hi hh w.reaper rfl rfl (fun hl' => absurd rfl hl'.2) ?_
    (by simp [hst])
  exact fun s g hg hk hgl => hi.single s g sid h hg hh hk hgl hl

theorem invariant_admitSession (hst : h.stage = .touched) :
    Invariant T { w.setHandle sid { h with stage := .reading } with
      sessions := (h.platformKey, sid) :: w.sessions.filter (fun x => x.1 ≠ h.platformKey) } := by
  have hl : h.live := by simp [live, hst]
  have hnext : Invariant T (w.setHandle sid { h with stage := .reading }) :=
    invariant_handle hi hh rfl rfl (fun _ => hl) id (fun _ => .inl rfl)
  refine ⟨hnext.rows, hnext.ids, hnext.owner, hnext.shared, hnext.single, hnext.shown, ?_⟩
  intro key s hs
  rcases mem_cons.mp hs with heq | hold
  · cases heq
    exact ⟨_, Function.update_self _ _ _, rfl, .inl rfl⟩
  · exact hnext.sessions key s (mem_filter.mp hold).1

theorem invariant_remove (hst : h.stage = .reading) :
    Invariant T { w.setHandle sid { h with stage := .removed } with
      sessions := w.sessions.filter (fun x => x ≠ (h.platformKey, sid)) } := by
  have hl : h.live := by simp [live, hst]
  have m : Moves w { w.setHandle sid { h with stage := .removed } with
      sessions := w.sessions.filter (fun x => x ≠ (h.platformKey, sid)) }
      sid h { h with stage := .removed } :=
    ⟨hh, rfl, rfl, rfl, rfl, fun i p hp => .inl ⟨p, hp, rfl⟩⟩
  apply invariant_of_moves hi m
  · exact fun _ => .inl hl
  · intro s g hg hgl
    rcases m.cases hg with ⟨rfl, rfl⟩ | ⟨_, hg₀⟩
    · exact hi.shown s h hh hl
    · exact hi.shown s g hg₀ hgl
  · grind [sessions_of_moves]

end Handles

theorem invariant_register (w : World) (sid : ℕ) (h : Session) (minted : List ℕ)
    (hi : Invariant T w) (hfree : w.handles sid = none) (hst : h.stage = .found)
    (hid : h.probeId ∈ minted) (hsub : ∀ i ∈ w.minted, i ∈ minted)
    (howner : ∀ p, w.probes h.probeId = some p → p.platformKey = h.platformKey)
    (hshared : ∀ s g, w.handles s = some g → g.probeId = h.probeId →
      g.platformKey = h.platformKey) : Invariant T { w.setHandle sid h with minted := minted } := by
  have hdead : ¬h.live := fun hl => hl.1 hst
  have hcases {s : ℕ} {g : Session}
      (hg : Function.update w.handles sid (some h) s = some g) :
      (s = sid ∧ g = h) ∨ w.handles s = some g :=
    (RowTable.put_cases hg).imp_right And.right
  refine ⟨?_, ?_, ?_, ?_, ?_, ?_, ?_⟩
  · intro id p hp
    exact hsub id (hi.rows id p hp)
  · intro s g hg
    rcases hcases hg with ⟨rfl, rfl⟩ | hg₀
    · exact hid
    · exact hsub _ (hi.ids s g hg₀)
  · intro s g p hg hp
    rcases hcases hg with ⟨rfl, rfl⟩ | hg₀
    · exact howner p hp
    · exact hi.owner s g p hg₀ hp
  · intro s g s' g' hg hg' heq
    rcases hcases hg with ⟨rfl, rfl⟩ | hg₀
    · rcases hcases hg' with ⟨rfl, rfl⟩ | hg₁
      · rfl
      · exact (hshared s' g' hg₁ heq.symm).symm
    · rcases hcases hg' with ⟨rfl, rfl⟩ | hg₁
      · exact hshared s g hg₀ heq
      · exact hi.shared s g s' g' hg₀ hg₁ heq
  · intro s g s' g' hg hg' hk hl hl'
    rcases hcases hg with ⟨rfl, rfl⟩ | hg₀
    · exact absurd hl hdead
    · rcases hcases hg' with ⟨rfl, rfl⟩ | hg₁
      · exact absurd hl' hdead
      · exact hi.single s g s' g' hg₀ hg₁ hk hl hl'
  · intro s g hg hl
    rcases hcases hg with ⟨rfl, rfl⟩ | hg₀
    · exact absurd hl hdead
    · exact hi.shown s g hg₀ hl
  · intro key s hs
    obtain ⟨g, hg, hk, hg'⟩ := hi.sessions key s hs
    exact ⟨g, RowTable.put_free hfree hg, hk, hg'⟩

theorem findProbe_some (w : World) (key : String) (id : ℕ) (h : w.findProbe key = some id) :
    ∃ p, w.probes id = some p ∧ p.platformKey = key := by
  have hfound := List.find?_some h
  cases hp : w.probes id with
  | none =>
    rw [hp] at hfound
    cases hfound
  | some p => grind

theorem invariant_sessionStep (w w' : World) (sid : ℕ) (h : Session) (e : Event)
    (hi : Invariant T w) (hh : w.handles sid = some h) (ho : Orderly T w e)
    (hevent : ∀ s, e = .upsert s ∨ e = .heartbeat s → s = sid)
    (hs : w.sessionStep sid h e = some w') : Invariant T w' := by
  unfold World.sessionStep at hs
  split at hs
  next s =>
    obtain rfl : s = sid := hevent s (.inl rfl)
    split at hs
    · next hst =>
      cases hs
      refine invariant_upsert hi hh rfl rfl ?_ ?_
      · exact fun _ => .inr fun s' g hg hne hk => ho h s' g hh hg hne hk
      · grind
    · cases hs
  · split at hs
    · next hst =>
      cases hs
      exact invariant_handle hi hh rfl rfl (fun _ => by simp [live, hst]) id (by simp [hst])
    · cases hs
  · grind [invariant_admitSession]
  next s =>
    obtain rfl : s = sid := hevent s (.inr rfl)
    split at hs
    · next hst =>
      cases hs
      refine invariant_handle hi hh rfl rfl (fun _ => by simp [live, hst]) ?_ (fun _ => .inr rfl)
      -- the row is online, as the session is not marked
      rintro ⟨p, hp, hstatus⟩
      exact ⟨p, hp, .inl (hstatus.resolve_right (by simp [ho h hh]))⟩
    · cases hs
  · grind [invariant_recordHeartbeat]
  · grind [invariant_upsert, live]
  · grind [invariant_remove]
  · grind [invariant_offline]
  · cases hs

theorem invariant_reaper (w : World) (r : Reaper) (hi : Invariant T w) :
    Invariant T { w with reaper := r } :=
  ⟨hi.rows, hi.ids, hi.owner, hi.shared, hi.single, hi.shown, hi.sessions⟩

theorem invariant_reaperStep (T : ℤ) (w w' : World) (e : Event) (hi : Invariant T w)
    (ho : Orderly T w e) (hs : w.reaperStep T e = some w') : Invariant T w' := by
  unfold World.reaperStep at hs
  split at hs
  · grind [invariant_reaper]
  · grind [invariant_reaper]
  · split at hs
    next cutoff sid todo hreaper =>
      split at hs
      next h hh =>
        cases hs
        have hmark := fun s g => ho cutoff sid todo h s g hreaper hh
        exact invariant_setOffline hi hh _ rfl rfl
          (fun hl => ⟨hl, rfl, (hmark sid h hh rfl hl).2⟩)
          (fun s g hg hk hl => (hmark s g hg hk hl).1) (fun _ hst => hst)
      · cases hs
    · cases hs
  · grind [invariant_reaper]
  · cases hs

theorem invariant_tick (hi : Invariant T w) {now : ℤ} (hnow : w.now ≤ now) :
    Invariant T { w with now := now } := by
  refine ⟨hi.rows, hi.ids, hi.owner, hi.shared, hi.single, ?_, hi.sessions⟩
  intro sid h hh hl
  obtain ⟨p, hp, hstatus⟩ := hi.shown sid h hh hl
  exact ⟨p, hp, hstatus.imp_right fun hm => ⟨hm.1, hm.2.trans_le hnow⟩⟩

theorem invariant_step (T : ℤ) (w w' : World) (e : Event) (ho : Orderly T w e) (hi : Invariant T w)
    (hs : w.step T e = some w') : Invariant T w' := by
  have hsession (sid : ℕ) (hevent : ∀ s, e = .upsert s ∨ e = .heartbeat s → s = sid)
      (hb : (w.handles sid).bind (fun h => w.sessionStep sid h e) = some w') : Invariant T w' := by
    obtain ⟨h, hh, hs⟩ := Option.bind_eq_some_iff.mp hb
    exact invariant_sessionStep w w' sid h e hi hh ho hevent hs
  cases e with
  | tick now =>
    simp only [World.step] at hs
    split at hs
    · next hnow =>
      cases hs
      exact invariant_tick hi hnow
    · cases hs
  | register sid key minted =>
    simp only [World.step] at hs
    split at hs
    · cases hs
    next hfree =>
      split at hs
      next id hfound =>
        cases hs
        obtain ⟨p, hp, hpk⟩ := findProbe_some w key id hfound
        apply invariant_register w sid ⟨key, id, 0, w.now, .found, false⟩ w.minted hi hfree rfl
          (hi.rows id p hp) (fun _ hx => hx)
        · grind
        · rintro s g hg rfl
          exact (hi.owner s g p hg hp).symm.trans hpk
      next =>
        split at hs
        · cases hs
        next hfresh =>
          cases hs
          apply invariant_register w sid ⟨key, minted, 0, w.now, .found, false⟩
            (minted :: w.minted) hi hfree rfl mem_cons_self (fun _ hx => mem_cons_of_mem _ hx)
          · intro q hq
            exact absurd (hi.rows minted q hq) hfresh
          · rintro s g hg rfl
            exact absurd (hi.ids s g hg) hfresh
  | upsert sid | touch sid | admitSession sid | heartbeat sid | recordHeartbeat sid
  | reregister sid | remove sid | offline sid => exact hsession sid (by grind) hs
  | reap order => exact invariant_reaperStep T w w' _ hi ho hs
  | compare => exact invariant_reaperStep T w w' _ hi ho hs
  | mark => exact invariant_reaperStep T w w' _ hi ho hs
  | finish => exact invariant_reaperStep T w w' _ hi ho hs

theorem invariant_init (T : ℤ) (w : World) (h : (gateway T).init w) : Invariant T w := by
  obtain ⟨hrows, hsessions, hhandles, hreaper⟩ := h
  grind [Invariant]

/-- The registry reflects the live sessions of every run in which the sessions of a
platform do not overlap and none is heard from when the reaper has found it stale. -/
theorem registry_reflects_sessions (T : ℤ) (w : World) (hw : (gateway T).ReachVia (Orderly T) w) :
    Reflects T w := by
  have hi : Invariant T w := by
    apply reachVia_invariant (gateway T) (Orderly T) (Invariant T) (invariant_init T) _ w hw
    intro s e t _ ho hs ht
    exact invariant_step T s t e ho hs ht
  intro key sid h hs hh hseen
  obtain ⟨g, hg, _, hst⟩ := hi.sessions key sid hs
  rw [hh, Option.some.injEq] at hg
  subst hg
  have hl : h.live := by rcases hst with hst | hst <;> simp [live, hst]
  obtain ⟨p, hp, honline | ⟨_, hsilent⟩⟩ := hi.shown sid h hh hl
  · exact ⟨p, hp, honline⟩
  · exact absurd hseen (not_le.mpr hsilent)

section Instance

def freshGateway : World where
  now := 0
  probes := fun _ => none
  order := []
  minted := []
  sessions := []
  handles := fun _ => none
  reaper := .idle

theorem freshGateway_init (T : ℤ) : (gateway T).init freshGateway :=
  ⟨fun _ _ => nofun, rfl, fun _ => rfl, rfl⟩

def overlappingSessions : List Event :=
  [.register 1 "p" 10, .upsert 1, .touch 1, .admitSession 1,
    .register 2 "p" 11, .upsert 2, .touch 2, .admitSession 2,
    .remove 1, .offline 1]

/-- `DefaultHeartbeatTimeout`, in seconds. -/
def defaultHeartbeatTimeout : ℤ := 60

/-- A session falls silent, is marked, and registers again. -/
theorem registry_reflects_one_session :
    ∃ w, (gateway defaultHeartbeatTimeout).ReachVia (Orderly defaultHeartbeatTimeout) w ∧
      ("p", 1) ∈ w.sessions ∧ Reflects defaultHeartbeatTimeout w := by
  have hquiet : ∀ e ∈ [.touch 1, .admitSession 1, .tick 61, .reap [1], .compare], ∀ w,
      Orderly defaultHeartbeatTimeout w e := by
    intro e he w
    simp only [mem_cons, not_mem_nil, or_false] at he
    rcases he with rfl | rfl | rfl | rfl | rfl <;> exact trivial
  have hfound : (gateway defaultHeartbeatTimeout).ReachVia (Orderly defaultHeartbeatTimeout) _ :=
    .step (.init (freshGateway_init _)) (e := .register 1 "p" 10) trivial rfl
  have hupserted := System.ReachVia.step hfound (e := .upsert 1) (by
    intro h sid' h' _ hh' hne _
    have hnone : (none : Option Session) = some h' := by
      rw [← hh']
      exact (Function.update_of_ne hne _ freshGateway.handles).symm
    cases hnone) rfl
  have hstale := run_reachVia _ _ _ _ _ hupserted hquiet rfl
  have hmarked := System.ReachVia.step hstale (e := .mark) (by
    intro cutoff sid todo h sid' h' hr _ hh' _ _
    cases hr
    by_cases hne : sid' = 1
    · subst hne
      cases hh'
      exact ⟨rfl, by decide⟩
    · simp [World.setHandle, World.upsertProbe, freshGateway, hne] at hh') rfl
  have hw := System.ReachVia.step hmarked (e := .reregister 1) (by trivial) rfl
  exact ⟨_, hw, mem_cons_self, registry_reflects_sessions defaultHeartbeatTimeout _ hw⟩

theorem live_session_shown_offline :
    ∃ w, (gateway defaultHeartbeatTimeout).Reachable w ∧ ¬Reflects defaultHeartbeatTimeout w := by
  refine ⟨_, run_reachable _ overlappingSessions freshGateway _ (.init (freshGateway_init _)) rfl,
    ?_⟩
  intro h
  obtain ⟨p, hp, hs⟩ := h "p" 2 ⟨"p", 10, 0, 0, .reading, false⟩ (by decide) rfl (by decide)
  cases hp
  cases hs

end Instance

end DbAgent.ProbeStatus
