import Mathlib
import DbAgent.PlatformRegistry
import DbAgent.RowTable
import DbAgent.TransitionSystem

/-! The transactions that rewrite the configuration of a platform, statement by
statement under READ COMMITTED: `ConsumeBootstrapToken` locks the row it reads,
`patch_platform` and `issue_bootstrap_token` read without a lock and write the
whole configuration back. -/
namespace DbAgent.TokenUse

open Registry JsonText Py Transition List

/-- The body of a patch: the two members that `patch_platform` looks at. -/
structure PatchBody where
  displayName : Option (Option String)
  config : Option (List (String × Json Number))

inductive Work where
  | consume (token : String)
  | patch (body : PatchBody)
  | issue (expiresAt : String)

/-- How far it has come: the row it has read, or the row it has written and not
committed. `unchanged` has nothing to write. -/
inductive Stage where
  | started
  | loaded (row : Platform)
  | unchanged
  | written (row : Platform)
  | ended

structure Txn where
  platformKey : String
  work : Work
  stage : Stage

/-- The committed rows, who has which row locked, the tokens drawn so far, and
the consumptions that were committed. -/
structure World where
  rows : String → Option Platform
  locks : String → Option ℕ
  txns : ℕ → Option Txn
  drawn : List String
  spent : List (String × String)

open World

/-- The two languages: numbers as the gateway's decoding and encoding leave them,
and equality of Python values. -/
structure Library where
  float64 : Number → Number
  eq : Json Number → Json Number → Bool

variable (L : Library)

def update (config : Config) (kvs : List (String × Json Number)) : Config :=
  kvs.foldl (fun c kv => Function.update c kv.1 (some kv.2)) config

/-- The configuration that a patch sets, if it differs from the one it has read:
an equal one is not written. -/
def PatchBody.newConfig (body : PatchBody) (config : Config) : Option Config :=
  match body.config with
  | none => none
  | some kvs =>
    if kvs.any (fun kv => ((config kv.1).elim true fun v => !L.eq v kv.2)) then
      some (update config kvs)
    else none

def PatchBody.newName (body : PatchBody) (name : Option String) : Option (Option String) :=
  body.displayName.filter (fun n => n ≠ name)

def setColumns (name : Option (Option String)) (config : Option Config) (row : Platform) :
    Platform :=
  ⟨name.getD row.displayName, config.getD row.config⟩

/-- The configuration of `issue_bootstrap_token`. -/
def issuedConfig (config : Config) (token expiresAt : String) : Config :=
  update config [("bootstrap_token", .str token), ("bootstrap_token_consumed", .bool false),
    ("bootstrap_token_expires_at", .str expiresAt)]

inductive Event where
  | start (i : ℕ) (platformKey : String) (work : Work)
  | select (i : ℕ)
  | update (i : ℕ) (token : String)
  | commit (i : ℕ)
  | rollback (i : ℕ)

def World.setStage (w : World) (i : ℕ) (t : Txn) (stage : Stage) : World :=
  { w with txns := Function.update w.txns i (some { t with stage := stage }) }

def World.lock (w : World) (key : String) (i : ℕ) : World :=
  { w with locks := Function.update w.locks key (some i) }

def World.finish (w : World) (i : ℕ) (t : Txn) : World :=
  { w.setStage i t .ended with
    locks := if w.locks t.platformKey = some i then Function.update w.locks t.platformKey none
      else w.locks }

def World.select (w : World) (i : ℕ) (t : Txn) : Option World :=
  match t.stage, t.work with
  | .started, .consume _ =>
    match w.locks t.platformKey, w.rows t.platformKey with
    | some _, _ => none
    | none, none => some (w.finish i t)
    | none, some row => some ((w.lock t.platformKey i).setStage i t (.loaded row))
  | .started, _ =>
    match w.rows t.platformKey with
    | none => some (w.finish i t)
    | some row => some (w.setStage i t (.loaded row))
  | _, _ => none

def World.writeColumns (w : World) (i : ℕ) (t : Txn) (name : Option (Option String))
    (config : Option Config) : Option World :=
  match w.locks t.platformKey, w.rows t.platformKey with
  | some _, _ => none
  | none, none => some (w.finish i t)
  | none, some row =>
    some ((w.lock t.platformKey i).setStage i t (.written (setColumns name config row)))

/-- The UPDATE. `token` is what `secrets.token_urlsafe` draws, if it is called. -/
def World.updateRow (w : World) (i : ℕ) (t : Txn) (token : String) : Option World :=
  match t.stage, t.work with
  | .loaded row, .consume presented =>
    match consumeToken L.float64 row.config presented with
    | .error _ => some (w.finish i t)
    | .ok config => some (w.setStage i t (.written { row with config := config }))
  | .loaded row, .patch body =>
    match body.newName row.displayName, body.newConfig L row.config with
    | none, none => some (w.setStage i t .unchanged)
    | name, config => w.writeColumns i t name config
  | .loaded row, .issue expiresAt =>
    if token = "" ∨ token ∈ w.drawn then none
    else writeColumns { w with drawn := token :: w.drawn } i t none
      (some (issuedConfig row.config token expiresAt))
  | _, _ => none

def World.commit (w : World) (i : ℕ) (t : Txn) : Option World :=
  match t.stage with
  | .unchanged => some (w.finish i t)
  | .written row => some { w.finish i t with
      rows := Function.update w.rows t.platformKey (some row)
      spent := match t.work with
        | .consume token => w.spent ++ [(t.platformKey, token)]
        | _ => w.spent }
  | _ => none

def World.step (w : World) : Event → Option World
  | .start i key work =>
    match w.txns i with
    | some _ => none
    | none => some { w with txns := Function.update w.txns i (some ⟨key, work, .started⟩) }
  | .select i => (w.txns i).bind (fun t => w.select i t)
  | .update i token => (w.txns i).bind (fun t => w.updateRow L i t token)
  | .commit i => (w.txns i).bind (fun t => w.commit i t)
  | .rollback i => (w.txns i).bind (fun t => some (w.finish i t))

def database : System World Event where
  init w := (∀ key row, w.rows key = some row → storedToken row.config ∈ "" :: w.drawn) ∧
    (∀ key, w.locks key = none) ∧ (∀ i, w.txns i = none) ∧ w.spent = []
  step := step L

def PatchBody.Plain (body : PatchBody) : Prop :=
  ∀ kvs, body.config = some kvs → ∀ kv ∈ kvs,
    kv.1 ≠ "bootstrap_token" ∧ kv.1 ≠ "bootstrap_token_consumed"

def Plain : Event → Prop
  | .start _ _ (.patch body) => body.Plain
  | _ => True

/-- A transaction that has read the row in order to write its configuration back,
with what it has read. -/
def Txn.rewriting (t : Txn) : Option Config :=
  match t.stage, t.work with
  | .loaded row, .patch body => (body.newConfig L row.config).map (fun _ => row.config)
  | _, _ => none

/-- No consumption is committed between the SELECT and the UPDATE of a patch of the
platform's configuration. -/
def Undisturbed (w : World) : Event → Prop
  | .commit i => ∀ t token, w.txns i = some t → t.work = .consume token →
      ∀ j u, w.txns j = some u → u.platformKey = t.platformKey → u.rewriting L = none
  | _ => True

section Configurations

theorem update_other (kvs : List (String × Json Number)) (config : Config) (k : String)
    (h : ∀ kv ∈ kvs, kv.1 ≠ k) : update config kvs k = config k := by
  induction kvs generalizing config with
  | nil => rfl
  | cons kv kvs ih =>
    have hk : k ≠ kv.1 := (h kv mem_cons_self).symm
    have hrest : ∀ kv' ∈ kvs, kv'.1 ≠ k := fun kv' hkv => h kv' (mem_cons_of_mem _ hkv)
    change update (Function.update config kv.1 (some kv.2)) kvs k = config k
    grind

def Offers (config : Config) (token : String) : Prop :=
  consumed config = false ∧ storedToken config = token

theorem newConfig_plain (body : PatchBody) (config config' : Config) (hp : body.Plain)
    (h : body.newConfig L config = some config') :
    storedToken config' = storedToken config ∧ consumed config' = consumed config := by
  unfold PatchBody.newConfig at h
  split at h
  · cases h
  next kvs hkvs =>
    split at h
    · cases h
      have htoken := update_other kvs config "bootstrap_token" fun kv hkv => (hp kvs hkvs kv hkv).1
      have hflag := update_other kvs config "bootstrap_token_consumed"
        fun kv hkv => (hp kvs hkvs kv hkv).2
      constructor
      · simp only [storedToken, htoken]
      · simp only [consumed, hflag]
    · cases h

theorem storedToken_issuedConfig (config : Config) (token expiresAt : String) :
    storedToken (issuedConfig config token expiresAt) = token := by
  simp [issuedConfig, update, Function.update, storedToken]

end Configurations

def Safe (w : World) (key : String) (config : Config) : Prop :=
  storedToken config ∈ "" :: w.drawn ∧ ∀ token, (key, token) ∈ w.spent → ¬Offers config token

structure Sound (w : World) (i : ℕ) (t : Txn) : Prop where
  plain : ∀ body, t.work = .patch body → body.Plain
  rewriting : ∀ config, t.rewriting L = some config → Safe w t.platformKey config
  loaded : ∀ row token, t.stage = .loaded row → t.work = .consume token →
    w.locks t.platformKey = some i ∧ w.rows t.platformKey = some row
  written : ∀ row, t.stage = .written row →
    w.locks t.platformKey = some i ∧ Safe w t.platformKey row.config
  consuming : ∀ row token, t.stage = .written row → t.work = .consume token →
    consumed row.config = true ∧ token ≠ "" ∧
      ∃ old, w.rows t.platformKey = some old ∧ Offers old.config token

structure Invariant (w : World) : Prop where
  rows : ∀ key row, w.rows key = some row → Safe w key row.config
  txns : ∀ i t, w.txns i = some t → Sound L w i t
  spent : ∀ p ∈ w.spent, p.2 ∈ w.drawn
  once : w.spent.Nodup

variable {w w' : World} {key : String} {config : Config}

theorem Safe.mono (h : Safe w key config) (hd : ∀ x ∈ w.drawn, x ∈ w'.drawn)
    (hs : w'.spent = w.spent) : Safe w' key config := by
  refine ⟨?_, fun token hmem => h.2 token (hs ▸ hmem)⟩
  rcases mem_cons.mp h.1 with he | hm
  · grind
  · grind

theorem Safe.congr {w : World} {config config' : Config} (h : Safe w key config)
    (ht : storedToken config' = storedToken config) (hc : consumed config' = consumed config) :
    Safe w key config' := by
  refine ⟨ht ▸ h.1, fun token hmem ho => h.2 token hmem ⟨?_, ?_⟩⟩
  · exact hc ▸ ho.1
  · exact ht ▸ ho.2

theorem Safe.of_consumed {w : World} (ht : storedToken config ∈ "" :: w.drawn)
    (hc : consumed config = true) :
    Safe w key config := by
  refine ⟨ht, fun token _ ho => ?_⟩
  have hunused := ho.1
  grind

/-- A transaction keeps its facts while others move: nobody else touches the lock
it holds or the row under it. -/
theorem Sound.frame {i : ℕ} {t : Txn} (h : Sound L w i t) (hl : w.locks t.platformKey = some i →
      w'.locks t.platformKey = some i ∧ w'.rows t.platformKey = w.rows t.platformKey)
    (hd : ∀ x ∈ w.drawn, x ∈ w'.drawn) (hs : w'.spent = w.spent) : Sound L w' i t := by
  refine ⟨h.plain, ?_, ?_, ?_, ?_⟩
  · intro config hc
    exact (h.rewriting config hc).mono hd hs
  · intro row token hst hwk
    obtain ⟨h1, h2⟩ := h.loaded row token hst hwk
    grind
  · intro row hst
    obtain ⟨h1, h2⟩ := h.written row hst
    exact ⟨(hl h1).1, h2.mono hd hs⟩
  · intro row token hst hwk
    obtain ⟨h1, hne, old, h2, h3⟩ := h.consuming row token hst hwk
    have hlock := (h.written row hst).1
    grind

theorem invariant_of_move (i : ℕ) (t : Txn) (h : Invariant L w)
    (htxns : w'.txns = Function.update w.txns i (some t)) (hnew : Sound L w' i t)
    (hrows : ∀ key row, w'.rows key = some row → Safe w' key row.config)
    (hframe : ∀ j, j ≠ i → ∀ key, w.locks key = some j →
      w'.locks key = some j ∧ w'.rows key = w.rows key) (hd : ∀ x ∈ w.drawn, x ∈ w'.drawn)
    (hs : w'.spent = w.spent) : Invariant L w' := by
  refine ⟨hrows, ?_, ?_, hs ▸ h.once⟩
  · intro j u hu
    rw [htxns] at hu
    rcases RowTable.put_cases hu with ⟨rfl, rfl⟩ | ⟨hj, hold⟩
    · exact hnew
    · exact (h.txns j u hold).frame L (hframe j hj u.platformKey) hd hs
  · intro p hp
    exact hd _ (h.spent p (hs ▸ hp))

theorem sound_idle (w : World) (i : ℕ) (t : Txn) (stage : Stage)
    (hplain : ∀ body, t.work = .patch body → body.Plain) (hl : ∀ row, stage ≠ .loaded row)
    (hw : ∀ row, stage ≠ .written row) : Sound L w i { t with stage := stage } := by
  refine ⟨hplain, ?_, ?_, ?_, ?_⟩
  · grind [Txn.rewriting]
  · grind
  · grind
  · grind

theorem locks_finish (w : World) (i j : ℕ) (t : Txn) (key : String) (hj : j ≠ i)
    (h : w.locks key = some j) : (w.finish i t).locks key = some j := by
  unfold finish
  grind

theorem invariant_finish (w : World) (i : ℕ) (t : Txn) (h : Invariant L w)
    (ht : w.txns i = some t) : Invariant L (w.finish i t) := by
  apply invariant_of_move L i { t with stage := .ended } h rfl
  · exact sound_idle L _ i t .ended (h.txns i t ht).plain (fun _ => nofun) (fun _ => nofun)
  · exact h.rows
  · intro j hj key hk
    exact ⟨locks_finish w i j t key hj hk, rfl⟩
  · exact fun _ hx => hx
  · rfl

theorem locks_lock (w : World) (i j : ℕ) (key key' : String) (hfree : w.locks key = none)
    (h : w.locks key' = some j) : (w.lock key i).locks key' = some j :=
  RowTable.put_free hfree h

theorem invariant_select (w w' : World) (i : ℕ) (t : Txn) (h : Invariant L w)
    (ht : w.txns i = some t) (hs : w.select i t = some w') : Invariant L w' := by
  have hplain := (h.txns i t ht).plain
  unfold select at hs
  split at hs
  next token hst hwk =>
    split at hs
    · cases hs
    · cases hs
      exact invariant_finish L w i t h ht
    next row hfree hrow =>
      cases hs
      apply invariant_of_move L i { t with stage := .loaded row } h rfl
      · refine ⟨hplain, ?_, ?_, ?_, ?_⟩
        · intro config hc
          simp only [Txn.rewriting, hwk] at hc
          cases hc
        · intro row' _ hst' _
          cases hst'
          exact ⟨Function.update_self _ _ _, hrow⟩
        · grind
        · grind
      · exact h.rows
      · intro j _ key hk
        exact ⟨locks_lock w i j t.platformKey key hfree hk, rfl⟩
      · exact fun _ hx => hx
      · rfl
  next hst hwk =>
    split at hs
    · cases hs
      exact invariant_finish L w i t h ht
    next row hrow =>
      cases hs
      apply invariant_of_move L i { t with stage := .loaded row } h rfl
      · refine ⟨hplain, ?_, ?_, ?_, ?_⟩
        · -- what a patch has read is a committed row
          intro config hc
          simp only [Txn.rewriting] at hc
          split at hc
          · next row' body hst' _ =>
            cases hst'
            obtain ⟨_, _, rfl⟩ := Option.map_eq_some_iff.mp hc
            exact h.rows _ row hrow
          · cases hc
        · grind
        · grind
        · grind
      · exact h.rows
      · intro j _ key hk
        exact ⟨hk, rfl⟩
      · exact fun _ hx => hx
      · rfl
  · cases hs

theorem invariant_writeColumns (w w' : World) (i : ℕ) (t : Txn) (name : Option (Option String))
    (config : Option Config) (h : Invariant L w) (ht : w.txns i = some t)
    (hwk : ∀ token, t.work ≠ .consume token)
    (hsafe : ∀ c, config = some c → Safe w t.platformKey c)
    (hs : w.writeColumns i t name config = some w') : Invariant L w' := by
  unfold writeColumns at hs
  split at hs
  · cases hs
  · cases hs
    exact invariant_finish L w i t h ht
  next row hfree hrow =>
    cases hs
    have hwritten : Safe w t.platformKey (setColumns name config row).config := by
      cases config with
      | none => exact h.rows _ row hrow
      | some c => exact hsafe c rfl
    apply invariant_of_move L i { t with stage := .written (setColumns name config row) } h rfl
    · refine ⟨(h.txns i t ht).plain, ?_, ?_, ?_, ?_⟩
      · intro c hc
        simp only [Txn.rewriting] at hc
        cases hc
      · grind
      · intro row' hst
        cases hst
        exact ⟨Function.update_self _ _ _, hwritten⟩
      · grind
    · exact h.rows
    · intro j _ key hk
      exact ⟨locks_lock w i j t.platformKey key hfree hk, rfl⟩
    · exact fun _ hx => hx
    · rfl

theorem invariant_draw (w : World) (token : String) (h : Invariant L w) :
    Invariant L { w with drawn := token :: w.drawn } := by
  have hd : ∀ x ∈ w.drawn, x ∈ token :: w.drawn := fun x hx => mem_cons_of_mem _ hx
  refine ⟨?_, ?_, ?_, h.once⟩
  · intro key row hr
    exact (h.rows key row hr).mono hd rfl
  · intro j u hu
    exact (h.txns j u hu).frame L (fun hk => ⟨hk, rfl⟩) hd rfl
  · intro p hp
    exact hd _ (h.spent p hp)

theorem invariant_updateRow (w w' : World) (i : ℕ) (t : Txn) (token : String)
    (h : Invariant L w) (ht : w.txns i = some t) (hs : w.updateRow L i t token = some w') :
    Invariant L w' := by
  have hsound := h.txns i t ht
  unfold updateRow at hs
  split at hs
  next row presented hst hwk =>
    obtain ⟨hlock, hrow⟩ := hsound.loaded row presented hst hwk
    split at hs
    · cases hs
      exact invariant_finish L w i t h ht
    next config hconfig =>
      obtain ⟨hunused, hstored, hne, rfl⟩ := consumeToken_ok _ _ _ _ hconfig
      cases hs
      apply invariant_of_move L i
        { t with stage := .written { row with config := markConsumed L.float64 row.config } } h rfl
      · refine ⟨hsound.plain, ?_, ?_, ?_, ?_⟩
        · intro c hc
          simp only [Txn.rewriting] at hc
          cases hc
        · grind
        · intro row' hst'
          cases hst'
          refine ⟨hlock, Safe.of_consumed ?_ (consumed_markConsumed _ _)⟩
          rw [storedToken_markConsumed]
          exact (h.rows _ row hrow).1
        · intro row' token' hst' hwk'
          cases hst'
          rw [hwk] at hwk'
          cases hwk'
          exact ⟨consumed_markConsumed _ _, hne, row, hrow, hunused, hstored⟩
      · exact h.rows
      · intro j _ key hk
        exact ⟨hk, rfl⟩
      · exact fun _ hx => hx
      · rfl
  next row body hst hwk =>
    have hnc : ∀ token, t.work ≠ .consume token := by
      intro token
      rw [hwk]
      exact nofun
    split at hs
    · cases hs
      apply invariant_of_move L i { t with stage := .unchanged } h rfl
      · exact sound_idle L _ i t .unchanged hsound.plain (fun _ => nofun) (fun _ => nofun)
      · exact h.rows
      · intro j _ key hk
        exact ⟨hk, rfl⟩
      · exact fun _ hx => hx
      · rfl
    · -- a patch writes back the token it has read
      apply invariant_writeColumns L w w' i t _ _ h ht hnc _ hs
      intro c hc
      obtain ⟨htoken, hflag⟩ := newConfig_plain L body row.config c (hsound.plain body hwk) hc
      have hread : t.rewriting L = some row.config := by
        simp only [Txn.rewriting, hst, hwk, hc, Option.map_some]
      exact (hsound.rewriting _ hread).congr htoken hflag
  next row expiresAt hst hwk =>
    split at hs
    · cases hs
    next hfresh =>
      have hnc : ∀ token, t.work ≠ .consume token := by
        intro token
        rw [hwk]
        exact nofun
      apply invariant_writeColumns L _ w' i t _ _ (invariant_draw L w token h) ht hnc _ hs
      intro c hc
      cases hc
      constructor
      · rw [storedToken_issuedConfig]
        simp
      · -- a token that was consumed was drawn before
        intro token' hmem ho
        have hold := h.spent _ hmem
        have heq : token = token' := (storedToken_issuedConfig _ _ _).symm.trans ho.2
        grind
  · cases hs

theorem frame_commit (w : World) (i j : ℕ) (t : Txn) (row : Platform) (key : String)
    (hi : w.locks t.platformKey = some i) (hj : j ≠ i) (hk : w.locks key = some j) :
    (w.finish i t).locks key = some j ∧
      Function.update w.rows t.platformKey (some row) key = w.rows key := by
  grind [locks_finish, Function.update_of_ne]

theorem invariant_commit_other (w : World) (i : ℕ) (t : Txn) (row : Platform)
    (h : Invariant L w) (ht : w.txns i = some t) (hst : t.stage = .written row) :
    Invariant L { w.finish i t with
      rows := Function.update w.rows t.platformKey (some row), spent := w.spent } := by
  have hsound := h.txns i t ht
  obtain ⟨hlock, hsafe⟩ := hsound.written row hst
  apply invariant_of_move L i { t with stage := .ended } h rfl
  · exact sound_idle L _ i t .ended hsound.plain (fun _ => nofun) (fun _ => nofun)
  · intro key row' hr
    rcases RowTable.put_cases hr with ⟨rfl, rfl⟩ | ⟨_, hold⟩
    · exact hsafe
    · exact h.rows key row' hold
  · intro j hj key hk
    exact frame_commit w i j t row key hlock hj hk
  · exact fun _ hx => hx
  · rfl

theorem Safe.spend {key key' token : String} (h : Safe w key' config) (hd : w'.drawn = w.drawn)
    (hs : w'.spent = w.spent ++ [(key, token)]) (hne : key' ≠ key) : Safe w' key' config := by
  refine ⟨hd ▸ h.1, fun token' hmem => ?_⟩
  rw [hs, mem_append, mem_singleton] at hmem
  rcases hmem with hmem | heq
  · exact h.2 token' hmem
  · grind

theorem invariant_commit_consume (w : World) (i : ℕ) (t : Txn) (row : Platform) (token : String)
    (h : Invariant L w) (ht : w.txns i = some t) (hst : t.stage = .written row)
    (hwk : t.work = .consume token)
    (hquiet : ∀ j u, w.txns j = some u → u.platformKey = t.platformKey → u.rewriting L = none) :
    Invariant L { w.finish i t with
      rows := Function.update w.rows t.platformKey (some row)
      spent := w.spent ++ [(t.platformKey, token)] } := by
  have hsound := h.txns i t ht
  obtain ⟨hlock, hsafe⟩ := hsound.written row hst
  obtain ⟨hused, hne, old, hold, hoffers⟩ := hsound.consuming row token hst hwk
  have hnew : (t.platformKey, token) ∉ w.spent := by
    intro hmem
    exact (h.rows _ old hold).2 token hmem hoffers
  refine ⟨?_, ?_, ?_, ?_⟩
  · intro key row' hr
    rcases RowTable.put_cases hr with ⟨rfl, rfl⟩ | ⟨hkey, hr'⟩
    · exact Safe.of_consumed hsafe.1 hused
    · exact (h.rows key row' hr').spend rfl rfl hkey
  · intro j u hu
    change Function.update w.txns i (some { t with stage := .ended }) j = some u at hu
    rcases RowTable.put_cases hu with ⟨rfl, rfl⟩ | ⟨hj, hold'⟩
    · exact sound_idle L _ j t .ended hsound.plain (fun _ => nofun) (fun _ => nofun)
    · have husound := h.txns j u hold'
      have hframe := frame_commit w i j t row u.platformKey hlock hj
      -- with the lock of the row taken, `u` is at work on another platform
      have hkey (hk : w.locks u.platformKey = some j) : u.platformKey ≠ t.platformKey := by
        intro heq
        rw [heq, hlock, Option.some.injEq] at hk
        exact hj hk.symm
      refine ⟨husound.plain, ?_, ?_, ?_, ?_⟩
      · intro config hc
        refine Safe.spend (husound.rewriting config hc) rfl rfl ?_
        grind
      · intro row' token' hst' hwk'
        obtain ⟨h1, h2⟩ := husound.loaded row' token' hst' hwk'
        grind
      · intro row' hst'
        obtain ⟨h1, h2⟩ := husound.written row' hst'
        exact ⟨(hframe h1).1, h2.spend rfl rfl (hkey h1)⟩
      · intro row' token' hst' hwk'
        obtain ⟨h1, h2, old', h3, h4⟩ := husound.consuming row' token' hst' hwk'
        have hk := (husound.written row' hst').1
        grind
  · intro p hp
    simp only [mem_append, mem_singleton] at hp
    rcases hp with hp | rfl
    · exact h.spent p hp
    · have hmem := (h.rows _ old hold).1
      rw [hoffers.2] at hmem
      rcases mem_cons.mp hmem with he | hm
      · exact absurd he hne
      · exact hm
  · exact nodup_append.mpr ⟨h.once, nodup_singleton _, fun a ha b hb =>
      fun heq => hnew (by grind)⟩

theorem invariant_step (w w' : World) (e : Event) (hp : Plain e) (hq : Undisturbed L w e)
    (h : Invariant L w) (hs : w.step L e = some w') : Invariant L w' := by
  cases e with
  | start i key work =>
    simp only [step] at hs
    split at hs
    · cases hs
    next hfree =>
      cases hs
      apply invariant_of_move L i ⟨key, work, .started⟩ h rfl
      · apply sound_idle L _ i ⟨key, work, .started⟩ .started _ (fun _ => nofun) (fun _ => nofun)
        intro body hb
        dsimp only at hb
        subst hb
        exact hp
      · exact h.rows
      · grind
      · exact fun _ hx => hx
      · rfl
  | select i =>
    obtain ⟨t, ht, hs⟩ := Option.bind_eq_some_iff.mp hs
    exact invariant_select L w w' i t h ht hs
  | update i token =>
    obtain ⟨t, ht, hs⟩ := Option.bind_eq_some_iff.mp hs
    exact invariant_updateRow L w w' i t token h ht hs
  | commit i =>
    obtain ⟨t, ht, hs⟩ := Option.bind_eq_some_iff.mp hs
    unfold commit at hs
    split at hs
    · cases hs
      exact invariant_finish L w i t h ht
    next row hst =>
      cases hs
      cases hwk : t.work with
      | consume token =>
        exact invariant_commit_consume L w i t row token h ht hst hwk
          (hq t token ht hwk)
      | patch body => exact invariant_commit_other L w i t row h ht hst
      | issue expiresAt => exact invariant_commit_other L w i t row h ht hst
    · cases hs
  | rollback i =>
    obtain ⟨t, ht, hs⟩ := Option.bind_eq_some_iff.mp hs
    cases hs
    exact invariant_finish L w i t h ht

theorem invariant_init (w : World) (h : (database L).init w) : Invariant L w := by
  obtain ⟨hrows, hlocks, htxns, hspent⟩ := h
  refine ⟨?_, ?_, ?_, ?_⟩
  · intro key row hr
    refine ⟨hrows key row hr, fun token hmem => ?_⟩
    grind
  · grind
  · grind
  · grind

/-- A token is consumed at most once as long as no consumption falls between the
SELECT and the UPDATE of a patch. -/
theorem token_consumed_once (w : World)
    (hw : (database L).ReachVia (fun w e => Plain e ∧ Undisturbed L w e) w)
    (key token : String) : w.spent.count (key, token) ≤ 1 := by
  have h : Invariant L w := by
    apply reachVia_invariant (database L) _ (Invariant L) (invariant_init L) _ w hw
    intro s e t _ hok hs ht
    exact invariant_step L s t e hok.1 hok.2 hs ht
  exact nodup_iff_count_le_one.mp h.once (key, token)

section Instance

def plainLibrary : Library where
  float64 n := n
  eq a b :=
    match a, b with
    | .str s, .str t => s == t
    | _, _ => false

def plainDatabase : World where
  rows := fun key => if key = "p" then some ⟨none, fun _ => none⟩ else none
  locks := fun _ => none
  txns := fun _ => none
  drawn := []
  spent := []

theorem plainDatabase_init : (database plainLibrary).init plainDatabase := by
  refine ⟨?_, fun _ => rfl, fun _ => rfl, rfl⟩
  intro key row hr
  simp only [plainDatabase] at hr
  split at hr
  · cases hr
    exact mem_cons_self
  · cases hr

def regionPatch : PatchBody := ⟨none, some [("region", .str "eu")]⟩

/-- A token is issued, a patch reads the row, the token is consumed, the patch
writes what it has read, and the token is consumed again. -/
def lostUpdate : List Event :=
  [.start 0 "p" (.issue "tomorrow"), .select 0, .update 0 "t", .commit 0,
    .start 1 "p" (.patch regionPatch), .select 1,
    .start 2 "p" (.consume "t"), .select 2, .update 2 "", .commit 2,
    .update 1 "", .commit 1,
    .start 3 "p" (.consume "t"), .select 3, .update 3 "", .commit 3]

theorem regionPatch_plain : regionPatch.Plain := by
  intro kvs hkvs kv hkv
  cases hkvs
  grind

theorem lostUpdate_plain (e : Event) (he : e ∈ lostUpdate) : Plain e := by
  simp only [lostUpdate, mem_cons, not_mem_nil, or_false] at he
  rcases he with rfl | rfl | rfl | rfl | rfl | rfl | rfl | rfl | rfl | rfl | rfl | rfl | rfl |
    rfl | rfl | rfl
  case inr.inr.inr.inr.inl => exact regionPatch_plain
  all_goals exact trivial

theorem token_consumed_twice :
    ∃ w, (database plainLibrary).ReachVia (fun _ e => Plain e) w ∧
      w.spent.count ("p", "t") = 2 := by
  refine ⟨_, run_reachVia _ _ lostUpdate plainDatabase _ (.init plainDatabase_init) ?_ rfl, ?_⟩
  · intro e he r
    exact lostUpdate_plain e he
  · decide

def offeringDatabase : World where
  rows := fun key => if key = "p" then
    some ⟨none, issuedConfig (fun _ => none) "t" "tomorrow"⟩ else none
  locks := fun _ => none
  txns := fun _ => none
  drawn := ["t"]
  spent := []

theorem offeringDatabase_init : (database plainLibrary).init offeringDatabase := by
  refine ⟨?_, fun _ => rfl, fun _ => rfl, rfl⟩
  simp [offeringDatabase, storedToken_issuedConfig]

/-- The token is consumed, and a second consumption is refused. -/
theorem token_consumed_once_alone :
    ∃ w, (database plainLibrary).ReachVia (fun w e => Plain e ∧ Undisturbed plainLibrary w e) w ∧
      w.spent = [("p", "t")] ∧ w.spent.count ("p", "t") ≤ 1 := by
  have hconsume : ∀ (i : ℕ), ∀ e ∈ [.start i "p" (.consume "t"), .select i, .update i ""], ∀ w,
      Plain e ∧ Undisturbed plainLibrary w e := by
    intro i e he w
    simp only [mem_cons, not_mem_nil, or_false] at he
    rcases he with rfl | rfl | rfl <;> exact ⟨trivial, trivial⟩
  have hread := run_reachVia (database plainLibrary) _ _ offeringDatabase _
    (.init offeringDatabase_init) (hconsume 0) rfl
  have hquiet : ∀ (w : World), (∀ j, j ≠ 0 → w.txns j = none) →
      (∀ t, w.txns 0 = some t → t.rewriting plainLibrary = none) →
      Plain (.commit 0) ∧ Undisturbed plainLibrary w (.commit 0) := by
    intro w hother hzero
    refine ⟨trivial, ?_⟩
    intro t token _ _ j u hu _
    by_cases hj : j = 0
    · subst hj
      exact hzero u hu
    · rw [hother j hj] at hu
      cases hu
  have hw := System.ReachVia.step hread (e := .commit 0) (hquiet _ (by
      intro j hj
      simp [setStage, lock, offeringDatabase, Function.update_of_ne hj]) (by
      intro t ht
      cases ht
      rfl)) rfl
  have hagain := run_reachVia (database plainLibrary) _ _ _ _ hw (hconsume 1) rfl
  exact ⟨_, hagain, rfl, token_consumed_once plainLibrary _ hagain "p" "t"⟩

end Instance

end DbAgent.TokenUse
