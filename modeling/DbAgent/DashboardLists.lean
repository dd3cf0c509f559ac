import DbAgent.KeysetPaging
import DbAgent.PyBuiltins
import DbAgent.Records

/-! The lists of the dashboard that are read page by page: investigations, audit log
and LLM calls. The database is whatever answers its queries as SQL allows. -/
namespace DbAgent.Lists

open KeysetPaging List

abbrev Text := List Char

section Cursors

/-- What the libraries make of texts: base64 of a text as UTF-8, both ways, and the
texts of timestamps, UUIDs and integers. `none` is an exception. -/
structure Texts where
  b64encode : Text → Text
  b64decode : Text → Option Text
  isoformat : Instant → Text
  fromisoformat : Text → Option Instant
  strUuid : Uuid → Text
  parseUuid : Text → Option Uuid
  strInt : ℤ → Text
  parseInt : Text → Option ℤ

/-- The instants that a `datetime` can hold. -/
def IsDatetime (t : Instant) : Prop := Py.minInstant ≤ t ∧ t ≤ Py.maxInstant

structure Texts.Lawful (Y : Texts) : Prop where
  b64 : ∀ s, Y.b64decode (Y.b64encode s) = some s
  b64_nil : Y.b64encode [] = []
  iso : ∀ t, IsDatetime t → Y.fromisoformat (Y.isoformat t) = some t
  iso_bar : ∀ t, IsDatetime t → '|' ∉ Y.isoformat t
  uuid : ∀ id, Y.parseUuid (Y.strUuid id) = some id
  int : ∀ n : Int64, Y.parseInt (Y.strInt n.toInt) = some n.toInt

/-- `APIError(400, "invalid_cursor", ...)`, and a ValueError that nobody handles. -/
inductive Error where
  | invalidCursor
  | valueError
  deriving DecidableEq, Repr

variable (Y : Texts)

def encodeCursor (createdAt : Instant) (idStr : Text) : Text :=
  Y.b64encode (Y.isoformat createdAt ++ '|' :: idStr)

/-- `raw.split("|", 1)` into two parts. -/
def splitBar (raw : Text) : Option (Text × Text) :=
  match raw.dropWhile (· ≠ '|') with
  | [] => none
  | _ :: idStr => some (raw.takeWhile (· ≠ '|'), idStr)

/-- `_decode_cursor`; every exception in it is caught. -/
def decodeCursor (cursor : Text) : Except Error (Instant × Text) :=
  match Y.b64decode cursor with
  | none => .error .invalidCursor
  | some raw =>
    match splitBar raw with
    | none => .error .invalidCursor
    | some (ts, idStr) =>
      match Y.fromisoformat ts with
      | none => .error .invalidCursor
      | some t => .ok (t, idStr)

def given (x : Option Text) : Option Text := x.filter (fun s => !s.isEmpty)

/-- The position of a cursor, if there is one. The text of the id is read by `parse`,
and `bad` is what a text that it refuses leads to. -/
def cursorPosition (parse : Text → Option ℤ) (bad : Error) (cursor : Option Text) :
    Except Error (Option (Instant × ℤ)) :=
  match given cursor with
  | none => .ok none
  | some c =>
    match decodeCursor Y c with
    | .error e => .error e
    | .ok (cAt, idStr) =>
      match parse idStr with
      | none => .error bad
      | some rank => .ok (some (cAt, rank))

def uuidRank (id : Uuid) : ℤ := id.toNat

/-- `uuid.UUID(c_id)` is outside the `try`. -/
def uuidPosition : Option Text → Except Error (Option (Instant × ℤ)) :=
  cursorPosition Y (fun s => (Y.parseUuid s).map uuidRank) .valueError

/-- The cursor of `list_audit` has a `try` around all of it. -/
def seqPosition : Option Text → Except Error (Option (Instant × ℤ)) :=
  cursorPosition Y Y.parseInt .invalidCursor

/-- `max(1, min(int(limit or 50), cap))`. -/
def clampLimit (cap limit : ℤ) : ℕ := (max 1 (min (if limit = 0 then 50 else limit) cap)).toNat

end Cursors

section Filters

variable (Y : Texts)

def optionally (x : Option String) (test : String → Bool) : Bool :=
  x.elim true fun s => decide (s = "") || test s

def optionallyRead {α : Type} (read : Text → Option α) (x : Option Text) :
    Except Error (Option α) :=
  match given x with
  | none => .ok none
  | some s => (read s).elim (.error .valueError) fun a => .ok (some a)

/-- A row of `investigations`, as far as the list filters by it. `category` is
`rca_report -> 'root_cause' ->> 'category'`. -/
structure InvestigationRow where
  investigationId : Uuid
  createdAt : Instant
  platformKey : String
  status : String
  category : Option String
  deriving DecidableEq

structure InvestigationFilter where
  status : Option (List String)
  platformKey : Option String
  category : Option String

def InvestigationFilter.holds (f : InvestigationFilter) (r : InvestigationRow) : Bool :=
  (f.status.elim true fun ss => ss.isEmpty || ss.contains r.status) &&
    optionally f.platformKey (fun k => r.platformKey = k) &&
    optionally f.category (fun c => r.category = some c)

theorem optionally_iff (x : Option String) (test : String → Bool) :
    optionally x test = true ↔ ∀ s ∈ x, s ≠ "" → test s = true := by
  cases x with
  | none => simp [optionally]
  | some s => simp [optionally, or_iff_not_imp_left]

theorem InvestigationFilter.holds_iff (f : InvestigationFilter) (r : InvestigationRow) :
    f.holds r = true ↔ (∀ ss ∈ f.status, ss ≠ [] → r.status ∈ ss) ∧
      (∀ k ∈ f.platformKey, k ≠ "" → r.platformKey = k) ∧
      ∀ c ∈ f.category, c ≠ "" → r.category = some c := by
  cases hstatus : f.status with
  | none => simp [holds, hstatus, optionally_iff]
  | some ss => simp [holds, hstatus, optionally_iff, and_assoc, or_iff_not_imp_left]

/-- A row of `audit_log`. -/
structure AuditRow where
  seq : Int64
  at' : Instant
  investigationId : Option Uuid
  actor : String
  action : String
  deriving DecidableEq

structure AuditFilter where
  investigationId : Option Text
  actor : Option String
  action : Option String
  fromTs : Option Text
  toTs : Option Text

/-- `datetime.fromisoformat(ts.replace("Z", "+00:00"))`. -/
def parseTs (ts : Text) : Option Instant :=
  Y.fromisoformat (ts.flatMap fun c => if c = 'Z' then "+00:00".toList else [c])

def AuditFilter.holds (f : AuditFilter) : Except Error (AuditRow → Bool) := do
  let investigation ← optionallyRead Y.parseUuid f.investigationId
  let fromTs ← optionallyRead (parseTs Y) f.fromTs
  let toTs ← optionallyRead (parseTs Y) f.toTs
  return fun r =>
    (investigation.elim true fun id => r.investigationId = some id) &&
      optionally f.actor (fun a => r.actor = a) && optionally f.action (fun a => r.action = a) &&
      (fromTs.elim true fun t => decide (t ≤ r.at')) && toTs.elim true fun t => decide (r.at' ≤ t)

/-- A row of `llm_calls`. -/
structure LLMCallRow where
  callId : Uuid
  createdAt : Instant
  investigationId : Option Uuid
  round : Option ℤ
  agentRole : String
  deriving DecidableEq

structure LLMCallFilter where
  investigationId : Option Text
  round : Option ℤ
  agentRole : Option String

def LLMCallFilter.holds (f : LLMCallFilter) : Except Error (LLMCallRow → Bool) := do
  let investigation ← optionallyRead Y.parseUuid f.investigationId
  return fun r =>
    (investigation.elim true fun id => r.investigationId = some id) &&
      (f.round.elim true fun n => r.round = some n) &&
      optionally f.agentRole (fun a => r.agentRole = a)

end Filters

section Lists

variable (Y : Texts)

def InvestigationRow.rank (r : InvestigationRow) : ℤ := uuidRank r.investigationId
def AuditRow.rank (r : AuditRow) : ℤ := r.seq.toInt
def LLMCallRow.rank (r : LLMCallRow) : ℤ := uuidRank r.callId

def InvestigationRow.cursor (r : InvestigationRow) : Text :=
  encodeCursor Y r.createdAt (Y.strUuid r.investigationId)
def AuditRow.cursor (r : AuditRow) : Text := encodeCursor Y r.at' (Y.strInt r.seq.toInt)
def LLMCallRow.cursor (r : LLMCallRow) : Text := encodeCursor Y r.createdAt (Y.strUuid r.callId)

/-- The loop over the rows of `list_investigations`: those with a new id, until there
are `enough`. -/
def firstUnique (enough : ℕ) (seen : List Uuid) (unique : List InvestigationRow) :
    List InvestigationRow → List InvestigationRow
  | [] => unique
  | r :: rows =>
    if seen.contains r.investigationId then firstUnique enough seen unique rows
    else if enough ≤ (unique ++ [r]).length then unique ++ [r]
    else firstUnique enough (r.investigationId :: seen) (unique ++ [r]) rows

/-- `list_investigations`, up to what is looked up for the rows of the page. -/
def listInvestigations (db : Query InvestigationRow ℤ → List InvestigationRow)
    (f : InvestigationFilter) (cursor : Option Text) (limit : ℤ) :
    Except Error (Page InvestigationRow Text) := do
  let limit := clampLimit 50 limit
  let c ← uuidPosition Y cursor
  let fetchN := max (limit+1) (limit*4)
  let rows := db ⟨fun r => f.holds r &&
    after InvestigationRow.createdAt InvestigationRow.rank c r,
    [InvestigationRow.createdAt, InvestigationRow.rank], fetchN⟩
  return cut (InvestigationRow.cursor Y) limit (firstUnique (limit+1) [] [] rows)

/-- The page that `list_audit` and `list_llm_calls` cut off: one row more than the limit
is fetched. -/
def fetchPage {ρ : Type} (db : Query ρ ℤ → List ρ) (time rank : ρ → ℤ) (orderBy : List (ρ → ℤ))
    (cursor : ρ → Text) (holds : ρ → Bool) (c : Option (Instant × ℤ)) (limit : ℕ) :
    Page ρ Text :=
  cut cursor limit (db ⟨fun r => holds r && after time rank c r, orderBy, limit+1⟩)

def listAudit (db : Query AuditRow ℤ → List AuditRow) (f : AuditFilter) (cursor : Option Text)
    (limit : ℤ) : Except Error (Page AuditRow Text) := do
  let holds ← f.holds Y
  let c ← seqPosition Y cursor
  return fetchPage db AuditRow.at' AuditRow.rank [AuditRow.at', AuditRow.rank] (AuditRow.cursor Y)
    holds c (clampLimit 100 limit)

/-- `list_llm_calls`. Its order is by `created_at` alone. -/
def listLLMCalls (db : Query LLMCallRow ℤ → List LLMCallRow) (f : LLMCallFilter)
    (cursor : Option Text) (limit : ℤ) : Except Error (Page LLMCallRow Text) := do
  let holds ← f.holds Y
  let c ← uuidPosition Y cursor
  return fetchPage db LLMCallRow.createdAt LLMCallRow.rank [LLMCallRow.createdAt]
    (LLMCallRow.cursor Y) holds c (clampLimit 50 limit)

end Lists

section RoundTrip

variable {Y : Texts} (hY : Y.Lawful)

theorem splitBar_append {ts : Text} (h : '|' ∉ ts) (idStr : Text) :
    splitBar (ts ++ '|' :: idStr) = some (ts, idStr) := by
  have hts : ∀ c ∈ ts, decide (c ≠ '|') = true := by
    intro c hc
    rw [decide_eq_true_eq]
    rintro rfl
    exact h hc
  have hdrop : (ts ++ '|' :: idStr).dropWhile (· ≠ '|') = '|' :: idStr := by simp_all
  grind [takeWhile_append_of_pos, takeWhile_cons_of_neg, splitBar]

include hY

variable {t : Instant}

theorem decodeCursor_encodeCursor (ht : IsDatetime t) (idStr : Text) :
    decodeCursor Y (encodeCursor Y t idStr) = .ok (t, idStr) := by
  simp only [decodeCursor, encodeCursor, hY.b64, splitBar_append (hY.iso_bar t ht), hY.iso t ht]

theorem given_encodeCursor (t : Instant) (idStr : Text) :
    given (some (encodeCursor Y t idStr)) = some (encodeCursor Y t idStr) := by
  have hne : encodeCursor Y t idStr ≠ [] := by
    intro hnil
    have hdecode := hY.b64 (Y.isoformat t ++ '|' :: idStr)
    rw [← encodeCursor, hnil, ← hY.b64_nil, hY.b64] at hdecode
    simp at hdecode
  simp [given, hne]

theorem cursorPosition_encodeCursor {parse : Text → Option ℤ} (bad : Error) (ht : IsDatetime t)
    {idStr : Text} {rank : ℤ} (hparse : parse idStr = some rank) :
    cursorPosition Y parse bad (some (encodeCursor Y t idStr)) = .ok (some (t, rank)) := by
  simp only [cursorPosition, given_encodeCursor hY, decodeCursor_encodeCursor hY ht, hparse]

theorem uuidPosition_encodeCursor (ht : IsDatetime t) (id : Uuid) :
    uuidPosition Y (some (encodeCursor Y t (Y.strUuid id))) = .ok (some (t, uuidRank id)) := by
  apply cursorPosition_encodeCursor hY _ ht
  rw [hY.uuid, Option.map_some]

theorem seqPosition_encodeCursor (ht : IsDatetime t) (n : Int64) :
    seqPosition Y (some (encodeCursor Y t (Y.strInt n.toInt))) = .ok (some (t, n.toInt)) :=
  cursorPosition_encodeCursor hY _ ht (hY.int n)

end RoundTrip

section Reading

variable {ρ : Type}

theorem clampLimit_pos (cap limit : ℤ) : 0 < clampLimit cap limit := by
  grind [clampLimit, le_max_left]

theorem position_of_stands {positionOf : Option Text → Except Error (Option (Instant × ℤ))}
    {time rank : ρ → ℤ} {table : List ρ} {cursor : ρ → Text} (hnone : positionOf none = .ok none)
    (hsome : ∀ x ∈ table, positionOf (some (cursor x)) = .ok (some (position time rank x)))
    {c : Option Text} {k : Option (Instant × ℤ)} (h : Stands time rank table cursor c k) :
    positionOf c = .ok k := by
  rcases h with ⟨rfl, rfl⟩ | ⟨x, hx, rfl, rfl⟩
  · exact hnone
  · exact hsome x hx

theorem fetchPage_cut {db : Query ρ ℤ → List ρ} (time rank : ρ → ℤ) (orderBy : List (ρ → ℤ))
    (cursor : ρ → Text) (holds : ρ → Bool) (c : Option (Instant × ℤ)) (limit : ℕ) {l : List ρ}
    (h : db ⟨fun r => holds r && after time rank c r, orderBy, limit+1⟩ = l.take (limit+1)) :
    fetchPage db time rank orderBy cursor holds c limit = cut cursor limit l := by
  rw [fetchPage, h, cut_take cursor (Nat.lt_succ_self limit)]

theorem fetchPage_reads {db : Query ρ ℤ → List ρ} {table : List ρ}
    (hdb : ∀ q, Answers table q (db q)) (time rank : ρ → ℤ) (orderBy : List (ρ → ℤ))
    (cursor : ρ → Text) (holds : ρ → Bool) (c : Option (Instant × ℤ)) (limit : ℕ) :
    ∃ l : List ρ, l.Perm (remaining time rank table holds c) ∧
      l.Pairwise (fun a b => precedes orderBy a b = true) ∧
      fetchPage db time rank orderBy cursor holds c limit = cut cursor limit l := by
  obtain ⟨l, hperm, hord, hl⟩ := hdb ⟨fun r => holds r && after time rank c r, orderBy, limit+1⟩
  exact ⟨l, hperm, hord, fetchPage_cut time rank orderBy cursor holds c limit hl⟩

theorem keys_of_ranks {time rank : ρ → ℤ} {table : List ρ} (h : (table.map rank).Nodup) :
    (table.map (position time rank)).Nodup := by
  apply List.Nodup.of_map Prod.snd
  rw [map_map]
  exact h

theorem firstUnique_eq (enough : ℕ) (rows : List InvestigationRow) (seen : List Uuid)
    (unique : List InvestigationRow) (hlt : unique.length < enough)
    (hids : (rows.map InvestigationRow.investigationId).Nodup)
    (hseen : ∀ r ∈ rows, r.investigationId ∉ seen) :
    firstUnique enough seen unique rows = unique ++ rows.take (enough-unique.length) := by
  induction rows generalizing seen unique with
  | nil => simp [firstUnique]
  | cons r rows ih =>
    rw [map_cons, nodup_cons] at hids
    have hr : seen.contains r.investigationId = false := by
      simpa using hseen r mem_cons_self
    have hlength : (unique ++ [r]).length = unique.length+1 := by simp
    rw [firstUnique, hr, hlength, if_neg Bool.false_ne_true]
    by_cases hend : enough ≤ unique.length+1
    · have hone : enough-unique.length = 1 := by omega
      grind
    · have hmore : enough-unique.length = enough-(unique ++ [r]).length+1 := by
        rw [hlength]
        omega
      grind

variable {Y : Texts} (hY : Y.Lawful)

include hY

open InvestigationRow in
theorem listInvestigations_reads {db : Query InvestigationRow ℤ → List InvestigationRow}
    {table : List InvestigationRow} (hdb : ∀ q, Answers table q (db q))
    (hids : (table.map investigationId).Nodup)
    (hdates : ∀ r ∈ table, IsDatetime r.createdAt) (f : InvestigationFilter) :
    Reads createdAt rank (listInvestigations Y db f) table
      f.holds (cursor Y) (clampLimit 50)
      (fun a b => precedes [createdAt, rank] a b = true) := by
  intro c k lim hc
  have hposition : uuidPosition Y c = .ok k :=
    position_of_stands rfl (fun x hx => uuidPosition_encodeCursor hY (hdates x hx) _) hc
  let n := clampLimit 50 lim
  obtain ⟨l, hperm, hord, hl⟩ := hdb ⟨fun r => f.holds r &&
    after createdAt rank k r,
    [createdAt, rank], max (n+1) (n*4)⟩
  refine ⟨l, hperm, hord, ?_⟩
  -- no id is seen twice, so the surplus is cut as it is
  have hnodup : ((l.take (max (n+1) (n*4))).map investigationId).Nodup := by
    have hl' := (hperm.map investigationId).nodup_iff.mpr
      (hids.sublist (filter_sublist.map _))
    exact hl'.sublist ((take_sublist _ l).map _)
  have hunique := firstUnique_eq (n+1) (l.take (max (n+1) (n*4))) [] [] (Nat.succ_pos n) hnodup
    (fun r _ => not_mem_nil)
  have htake : (l.take (max (n+1) (n*4))).take (n+1) = l.take (n+1) := by grind
  rw [nil_append, length_nil, Nat.sub_zero, htake] at hunique
  simp only [listInvestigations, hposition, Py.ok_bind]
  rw [hl]
  change Except.ok (cut _ n (firstUnique (n+1) [] [] (l.take (max (n+1) (n*4))))) = _
  rw [hunique, cut_take _ (Nat.lt_succ_self n)]

open AuditRow in
theorem listAudit_reads {db : Query AuditRow ℤ → List AuditRow} {table : List AuditRow}
    (hdb : ∀ q, Answers table q (db q)) (hdates : ∀ r ∈ table, IsDatetime r.at')
    {f : AuditFilter} {holds : AuditRow → Bool} (hf : f.holds Y = .ok holds) :
    Reads at' rank (listAudit Y db f) table holds (cursor Y)
      (clampLimit 100) (fun a b => precedes [at', rank] a b = true) := by
  intro c k lim hc
  have hposition : seqPosition Y c = .ok k :=
    position_of_stands rfl (fun x hx => seqPosition_encodeCursor hY (hdates x hx) _) hc
  obtain ⟨l, hperm, hord, hl⟩ := fetchPage_reads hdb at' rank
    [at', rank] (cursor Y) holds k (clampLimit 100 lim)
  refine ⟨l, hperm, hord, ?_⟩
  simp only [listAudit, hf, hposition, Py.ok_bind, hl]
  rfl

open LLMCallRow

variable {table : List LLMCallRow} {f : LLMCallFilter} {holds : LLMCallRow → Bool}
  (hdates : ∀ r ∈ table, IsDatetime r.createdAt) (hf : f.holds Y = .ok holds)

include hdates hf

theorem listLLMCalls_eq (db : Query LLMCallRow ℤ → List LLMCallRow) {c : Option Text}
    {k : Option (Instant × ℤ)} (lim : ℤ)
    (hc : Stands createdAt rank table (cursor Y) c k) :
    listLLMCalls Y db f c lim = .ok (fetchPage db createdAt rank
      [createdAt] (cursor Y) holds k (clampLimit 50 lim)) := by
  have hposition : uuidPosition Y c = .ok k :=
    position_of_stands rfl (fun x hx => uuidPosition_encodeCursor hY (hdates x hx) _) hc
  simp only [listLLMCalls, hf, hposition, Py.ok_bind]
  rfl

theorem listLLMCalls_reads {db : Query LLMCallRow ℤ → List LLMCallRow}
    (hdb : ∀ q, Answers table q (db q)) :
    Reads createdAt rank (listLLMCalls Y db f) table holds
      (cursor Y) (clampLimit 50) (fun a b => b.createdAt ≤ a.createdAt) := by
  intro c k lim hc
  obtain ⟨l, hperm, hord, hl⟩ := fetchPage_reads hdb createdAt rank
    [createdAt] (cursor Y) holds k (clampLimit 50 lim)
  refine ⟨l, hperm, hord.imp fun hab => ?_, ?_⟩
  · rw [precedes_cons] at hab
    exact hab.elim le_of_lt (fun h => h.1.le)
  · rw [listLLMCalls_eq hY hdates hf db lim hc, hl]

theorem listLLMCalls_reads_ascending :
    Reads createdAt rank
      (listLLMCalls Y (fun q => (tieBroken [fun r => -r.rank] table q).take q.limit) f) table holds
      (cursor Y) (clampLimit 50)
      (Ascending createdAt rank) := by
  intro c k lim hc
  let q : Query LLMCallRow ℤ := ⟨fun r => holds r &&
    after createdAt rank k r, [createdAt], clampLimit 50 lim+1⟩
  refine ⟨tieBroken [fun r => -r.rank] table q, tieBroken_perm _ _ _,
    (tieBroken_sorted _ _ _).imp fun hab => ?_, ?_⟩
  · change precedes [createdAt, fun r => -r.rank] _ _ = true at hab
    rw [precedes_cons, precedes_cons] at hab
    apply hab.imp_right
    grind
  · rw [listLLMCalls_eq hY hdates hf _ lim hc]
    exact congrArg Except.ok (fetchPage_cut _ _ _ _ _ _ _ rfl)

end Reading

section Exactness

theorem uuidRank_injective : Function.Injective uuidRank := by
  intro a b hab
  exact BitVec.eq_of_toNat_eq (Int.ofNat.inj hab)

theorem nodup_comp {ρ κ ι : Type} {table : List ρ} {key : ρ → κ} {f : κ → ι}
    (hf : Function.Injective f) (h : (table.map key).Nodup) : (table.map (f ∘ key)).Nodup := by
  rw [← map_map]
  exact h.map hf

/-- Following the cursors of `list_investigations` and `list_audit`, with any limits,
gives the matching rows, each once and in descending order. -/
theorem cursor_pagination_exact (Y : Texts) (hY : Y.Lawful) (limits : ℕ → ℤ) :
    (∀ (table : List InvestigationRow) (db : Query InvestigationRow ℤ → List InvestigationRow)
        (f : InvestigationFilter), (∀ q, Answers table q (db q)) →
        (table.map InvestigationRow.investigationId).Nodup →
        (∀ r ∈ table, IsDatetime r.createdAt) →
      ∃ fuel pages, follow (listInvestigations Y db f) limits fuel none = some pages ∧
        Exact (clampLimit 50) (fun a b => b.createdAt < a.createdAt ∨
          (b.createdAt = a.createdAt ∧ b.investigationId < a.investigationId)) limits
          (table.filter f.holds) pages) ∧
      ∀ (table : List AuditRow) (db : Query AuditRow ℤ → List AuditRow) (f : AuditFilter)
        (holds : AuditRow → Bool), (∀ q, Answers table q (db q)) →
        (table.map AuditRow.seq).Nodup → (∀ r ∈ table, IsDatetime r.at') →
        f.holds Y = .ok holds →
      ∃ fuel pages, follow (listAudit Y db f) limits fuel none = some pages ∧
        Exact (clampLimit 100) (fun a b => b.at' < a.at' ∨ (b.at' = a.at' ∧ b.seq < a.seq)) limits
          (table.filter holds) pages := by
  constructor
  · -- the query breaks ties by the id, so no two rows of the order are alike
    intro table db f hdb hids hdates
    have hranks : (table.map InvestigationRow.rank).Nodup := nodup_comp uuidRank_injective hids
    obtain ⟨fuel, pages, hpages, hexact⟩ := keyset_exact (keys_of_ranks hranks)
      (clampLimit_pos 50) (listInvestigations_reads hY hdb hids hdates f) limits
    refine ⟨fuel, pages, hpages, hexact.imp fun a b hab => ?_⟩
    rw [behind_iff] at hab
    apply hab.imp_right
    rintro ⟨htime, hrank⟩
    exact ⟨htime, BitVec.lt_def.mpr (Int.ofNat_lt.mp hrank)⟩
  · intro table db f holds hdb hseqs hdates hf
    have hinj : Function.Injective Int64.toInt := fun a b hab => Int64.toInt_inj.mp hab
    have hranks : (table.map AuditRow.rank).Nodup := nodup_comp hinj hseqs
    obtain ⟨fuel, pages, hpages, hexact⟩ := keyset_exact (keys_of_ranks hranks)
      (clampLimit_pos 100) (listAudit_reads hY hdb hdates hf) limits
    refine ⟨fuel, pages, hpages, hexact.imp fun a b hab => ?_⟩
    rw [behind_iff] at hab
    apply hab.imp_right
    rintro ⟨htime, hrank⟩
    exact ⟨htime, Int64.lt_iff_toInt_lt.mpr hrank⟩

/-- For `list_llm_calls`, whose order leaves ties open, every database gives every
matching call once exactly if each page but the last ends with a timestamp that no
other matching call has. -/
theorem llm_calls_exact_iff (Y : Texts) (hY : Y.Lawful) (table : List LLMCallRow)
    (hkeys : (table.map fun r => (r.createdAt, r.callId)).Nodup)
    (hdates : ∀ r ∈ table, IsDatetime r.createdAt) (f : LLMCallFilter)
    (holds : LLMCallRow → Bool) (hf : f.holds Y = .ok holds) (limits : ℕ → ℤ) :
    (∀ db : Query LLMCallRow ℤ → List LLMCallRow, (∀ q, Answers table q (db q)) →
      ∃ fuel pages, follow (listLLMCalls Y db f) limits fuel none = some pages ∧
        pages.flatten.Perm (table.filter holds)) ↔
      Clean (clampLimit 50) limits (times LLMCallRow.createdAt (table.filter holds)) := by
  constructor
  · -- among the databases is one that returns ties by ascending id, against the cursor
    intro h
    have hpositions : (table.map (position LLMCallRow.createdAt LLMCallRow.rank)).Nodup :=
      nodup_comp (Function.injective_id.prodMap uuidRank_injective) hkeys
    obtain ⟨fuel, pages, hpages, hperm⟩ := h _ (fun q => answers_tieBroken _ table q)
    have hclean := exact_clean hpositions (clampLimit_pos 50)
      (listLLMCalls_reads_ascending hY hdates hf) fuel limits none none pages (.inl ⟨rfl, rfl⟩)
      hpages (by rwa [remaining_none])
    rwa [remaining_none] at hclean
  · intro hclean db hdb
    obtain ⟨fuel, pages, hpages, hexact⟩ := clean_exact (clampLimit_pos 50)
      (listLLMCalls_reads hY hdates hf hdb) limits hclean
    exact ⟨fuel, pages, hpages, hexact.perm⟩

def unary (n : ℤ) : Text := (if n < 0 then '-' else '+') :: List.replicate n.natAbs '1'

def parseUnary : Text → Option ℤ
  | '-' :: s => some (-(s.length : ℤ))
  | '+' :: s => some s.length
  | _ => none

theorem parseUnary_unary (n : ℤ) : parseUnary (unary n) = some n := by
  unfold unary
  by_cases hn : n < 0
  · rw [if_pos hn, parseUnary, length_replicate]
    congr 1
    omega
  · rw [if_neg hn, parseUnary, length_replicate]
    congr 1
    omega

def sampleTexts : Texts where
  b64encode s := s
  b64decode s := some s
  isoformat := unary
  fromisoformat := parseUnary
  strUuid id := unary id.toNat
  parseUuid s := (parseUnary s).map fun n => BitVec.ofInt 128 n
  strInt := unary
  parseInt := parseUnary

theorem sampleTexts_lawful : sampleTexts.Lawful where
  b64 _ := rfl
  b64_nil := rfl
  iso t _ := parseUnary_unary t
  iso_bar t _ := by
    change '|' ∉ unary t
    unfold unary
    split <;> simp [mem_replicate]
  uuid id := by
    change (parseUnary (unary id.toNat)).map (fun n => BitVec.ofInt 128 n) = some id
    rw [parseUnary_unary, Option.map_some, BitVec.ofInt_natCast, BitVec.ofNat_toNat,
      BitVec.setWidth_eq]
  int n := parseUnary_unary n.toInt

def sampleDb {ρ : Type} (table : List ρ) (q : Query ρ ℤ) : List ρ :=
  (tieBroken [] table q).take q.limit

def sampleInvestigations : List InvestigationRow :=
  [⟨1, 7, "p", "open", none⟩, ⟨2, 7, "p", "open", none⟩, ⟨3, 5, "q", "open", none⟩]

def sampleAudit : List AuditRow := [⟨1, 7, none, "a", "b"⟩, ⟨2, 7, none, "a", "b"⟩]

/-- Two investigations and two audit rows of one instant, one row a page. -/
theorem cursor_pagination_sample :
    (∃ fuel pages, follow (listInvestigations sampleTexts (sampleDb sampleInvestigations)
        ⟨none, some "p", none⟩) (fun _ => 1) fuel none = some pages ∧
      Exact (clampLimit 50) (fun a b => b.createdAt < a.createdAt ∨
        (b.createdAt = a.createdAt ∧ b.investigationId < a.investigationId)) (fun _ => 1)
        (sampleInvestigations.filter
          (InvestigationFilter.holds ⟨none, some "p", none⟩)) pages) ∧
      ∃ holds fuel pages, follow (listAudit sampleTexts (sampleDb sampleAudit)
        ⟨none, some "a", none, none, none⟩) (fun _ => 1) fuel none = some pages ∧
      Exact (clampLimit 100) (fun a b => b.at' < a.at' ∨ (b.at' = a.at' ∧ b.seq < a.seq))
        (fun _ => 1) (sampleAudit.filter holds) pages := by
  obtain ⟨hinvestigations, haudit⟩ :=
    cursor_pagination_exact sampleTexts sampleTexts_lawful (fun _ => 1)
  constructor
  · apply hinvestigations
    · exact answers_tieBroken [] sampleInvestigations
    · decide
    · simp [sampleInvestigations, IsDatetime, Py.minInstant, Py.maxInstant]
  · obtain ⟨fuel, pages, hpages⟩ := haudit sampleAudit (sampleDb sampleAudit)
      ⟨none, some "a", none, none, none⟩ _ (answers_tieBroken [] sampleAudit) (by decide)
      (by simp [sampleAudit, IsDatetime, Py.minInstant, Py.maxInstant]) rfl
    exact ⟨_, fuel, pages, hpages⟩

def sampleCalls : List LLMCallRow := [⟨1, 7, none, none, "rca"⟩, ⟨2, 7, none, none, "rca"⟩]

def distinctCalls : List LLMCallRow := [⟨1, 7, none, none, "rca"⟩, ⟨2, 5, none, none, "rca"⟩]

/-- Calls of different instants are read exactly. -/
theorem llm_calls_exact_sample :
    Clean (clampLimit 50) (fun _ => 1) (times LLMCallRow.createdAt distinctCalls) ∧
      ∀ db : Query LLMCallRow ℤ → List LLMCallRow, (∀ q, Answers distinctCalls q (db q)) →
        ∃ fuel pages, follow (listLLMCalls sampleTexts db ⟨none, none, none⟩) (fun _ => 1) fuel
            none = some pages ∧ pages.flatten.Perm distinctCalls := by
  have hclean : Clean (clampLimit 50) (fun _ => 1) (times LLMCallRow.createdAt distinctCalls) := by
    -- one page boundary, behind the instant 7
    change Clean (clampLimit 50) (fun _ => 1) ([] ++ (7 : ℤ) :: [5])
    rw [clean_next (clampLimit_pos 50) rfl (by simp) (by simp) (by simp)]
    exact ⟨rfl, clean_end (Nat.le_refl 1)⟩
  refine ⟨hclean, ?_⟩
  exact (llm_calls_exact_iff sampleTexts sampleTexts_lawful distinctCalls (by decide)
    (by simp [distinctCalls, IsDatetime, Py.minInstant, Py.maxInstant]) ⟨none, none, none⟩
    (fun _ => true) rfl (fun _ => 1)).mpr hclean

/-- Two calls of one instant, one a page, from a database that returns the first before
the second: the second is lost. -/
theorem llm_call_lost :
    (∀ q, Answers sampleCalls q (sampleDb sampleCalls q)) ∧
      follow (listLLMCalls sampleTexts (sampleDb sampleCalls) ⟨none, none, none⟩) (fun _ => 1) 2
        none = some [[⟨1, 7, none, none, "rca"⟩], []] ∧
      ¬[⟨1, 7, none, none, "rca"⟩].Perm sampleCalls := by
  refine ⟨answers_tieBroken [] sampleCalls, rfl, ?_⟩
  intro hperm
  have hlength := hperm.length_eq
  simp [sampleCalls] at hlength

end Exactness

end DbAgent.Lists
