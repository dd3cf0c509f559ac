import DbAgent.JsonValue
import DbAgent.RawOutput
import DbAgent.StructuredRedaction

/-! The check that a killed query is gone: the list of queries on the probe, its way to the worker,
and what the worker concludes from it. -/
namespace DbAgent.Queries

open List

open JsonText (Json)
open RawCmd (outputCap)
open Redact

section Probe

abbrev Object := List (String × Json ℚ)

structure Go where
  /-- `fmt.Sprintf("%v", x)`. -/
  sprint : Json ℚ → String
  /-- `time.Parse` for RFC 3339, with or without a fraction, in nanoseconds. -/
  parseTime : String → Option ℤ
  /-- `json.Marshal`. -/
  marshal : GoValue ℚ → List UInt8
  /-- The symbols of a string with these bytes. -/
  decode : List UInt8 → List Symbol
  now : ℤ

def getString (m : Object) (key : String) : String :=
  match m.lookup key with
  | some (.str s) => s
  | _ => ""

def getStringDefault (args : Object) (key default : String) : String :=
  if getString args key = "" then default else getString args key

def getIntDefault (args : Object) (key : String) (default : ℤ) : ℤ :=
  match args.lookup key with
  | some (.num q) => q.num.tdiv q.den
  | _ => default

def getMap (m : Object) (key : String) : Object :=
  match m.lookup key with
  | some (.obj o) => o
  | _ => []

inductive ParsedInt where
  | ok (n : ℤ)
  | range
  | bad

def parseInt (cs : List Char) : ParsedInt :=
  let negative := cs.head? = some '-'
  let digits := if negative ∨ cs.head? = some '+' then cs.tail else cs
  if digits = [] ∨ !digits.all Char.isDigit then .bad
  else
    let n : ℕ := digits.foldl (fun n c => 10 * n + (c.toNat - '0'.toNat)) 0
    if negative then if n ≤ 2 ^ 63 then .ok (-n) else .range
    else if n < 2 ^ 63 then .ok n else .range

def unitOf : Char → Option ℤ
  | 's' => some 1000000000
  | 'm' => some (60 * 1000000000)
  | 'h' => some (3600 * 1000000000)
  | 'd' => some (24 * 3600 * 1000000000)
  | _ => none

/-- In nanoseconds. -/
def parseSinceDuration (s : String) : Except String ℤ :=
  let cs := (if s = "" then "1h" else s).toList
  let expected := "expected ^\\d+[smhd]$"
  if cs.length < 2 ∨ cs.any (fun c => 128 ≤ c.toNat) then .error expected
  else
    match parseInt cs.dropLast with
    | .range => .error "duration exceeds representable range"
    | .bad => .error expected
    | .ok n =>
      if n < 0 then .error expected
      else
        match unitOf (cs.getLastD ' ') with
        | none => .error expected
        | some unit =>
          if (2 ^ 63 - 1) / unit < n then .error "duration exceeds representable range"
          else .ok (n * unit)

/-- `strings.ToUpper`, as far as the letters of the two names go. -/
def upper (c : Char) : Char := if c = 'ı' then 'I' else if c = 'ſ' then 'S' else c.toUpper

def isTerminalQueryState (state : String) : Bool :=
  ["FINISHED".toList, "FAILED".toList].contains (state.toList.map upper)

structure QueryRow where
  queryId : String
  state : String
  user : String
  source : String
  started : String
  ended : String
  queuedTime : String
  elapsedTime : String
  errorCode : String
  queryTextHead : List Symbol
  resourceGroup : String
  deriving DecidableEq

/-- `s[:n]` as symbols: a character that the cut goes through leaves some of its bytes. -/
def cutAt : ℕ → List Char → List Symbol
  | _, [] => []
  | n, c :: cs =>
    if c.utf8Size ≤ n then .char c :: cutAt (n - c.utf8Size) cs
    else ((String.utf8EncodeChar c).take n).map .byte

variable (G : Go)

def isEpochEndTime (s : String) : Bool :=
  match G.parseTime s with
  | some t => t / 1000000000 = 0
  | none => false

def formatResourceGroup : Option (Json ℚ) → String
  | none => ""
  | some .null => ""
  | some (.str s) => s
  | some (.arr items) => ".".intercalate <| items.filterMap fun item =>
      match item with
      | .str s => if s = "" then none else some s
      | .null => none
      | item => some (G.sprint item)
  | some v => G.sprint v

def mapV1QueryRow (src : Object) : Except String QueryRow :=
  if getString src "queryId" = "" then
    .error "presto_list_queries: row missing required field query_id"
  else if getString src "state" = "" then
    .error "presto_list_queries: row missing required field state"
  else
    let session := getMap src "session"
    let stats := getMap src "queryStats"
    let ended := getString stats "endTime"
    .ok {
      queryId := getString src "queryId"
      state := getString src "state"
      user := getString session "user"
      source := getString session "source"
      started := getString stats "createTime"
      ended := if isEpochEndTime G ended then "" else ended
      queuedTime := getString stats "queuedTime"
      elapsedTime := getString stats "elapsedTime"
      errorCode := getString (getMap src "errorCode") "name"
      queryTextHead := cutAt 500 (getString src "query").toList
      resourceGroup := formatResourceGroup G (src.lookup "resourceGroupId") }

def passesSinceFilter (row : QueryRow) (cutoff : ℤ) : Bool :=
  if !isTerminalQueryState row.state then true
  else if row.ended = "" then true
  else
    match G.parseTime row.ended with
    | none => true
    | some ended => cutoff ≤ ended

def contains (text : List Symbol) (substr : String) : Bool :=
  text.tails.any fun rest => (substr.toList.map Symbol.char).isPrefixOf rest

structure Filters where
  state : String
  cutoff : ℤ
  user : String
  querySubstr : String

def Filters.keep (f : Filters) (row : QueryRow) : Bool :=
  passesSinceFilter G row f.cutoff && (f.state = "ALL" || row.state = f.state) &&
    (f.user = "" || row.user = f.user) &&
    (f.querySubstr = "" || contains row.queryTextHead f.querySubstr)

def listRows (f : Filters) (limit : ℤ) : List (Json ℚ) → List QueryRow →
    Except String (List QueryRow)
  | [], out => .ok out
  | .obj src :: items, out =>
    match mapV1QueryRow G src with
    | .error e => .error e
    | .ok row =>
      if !f.keep G row then listRows f limit items out
      else if limit ≤ (out ++ [row]).length then .ok (out ++ [row])
      else listRows f limit items (out ++ [row])
  | _ :: _, _ => .error "presto_list_queries: /v1/query array element is not an object"

def keyOf (k : String) : List Symbol := k.toList.map .char

def QueryRow.fields (r : QueryRow) : List (List Symbol × List Symbol) :=
  [(keyOf "query_id", keyOf r.queryId), (keyOf "state", keyOf r.state)] ++
  [(keyOf "user", keyOf r.user), (keyOf "source", keyOf r.source),
    (keyOf "started", keyOf r.started), (keyOf "ended", keyOf r.ended),
    (keyOf "queued_time", keyOf r.queuedTime), (keyOf "elapsed_time", keyOf r.elapsedTime),
    (keyOf "error_code", keyOf r.errorCode), (keyOf "query_text_head", r.queryTextHead),
    (keyOf "resource_group", keyOf r.resourceGroup)].filter fun kv => kv.2 ≠ []

def goMap (fields : List (List Symbol × List Symbol)) : GoValue ℚ :=
  .map .any (fields.map Prod.fst).toFinset fun k => .string ((fields.lookup k.1).getD [])

def goSlice (type : Container) (elems : List (GoValue ℚ)) : GoValue ℚ :=
  .slice type elems.length elems.get

def isMap : GoValue ℚ → Bool
  | .map .any _ _ => true
  | _ => false

/-- The type `[]map[string]any`. -/
def rowsType : Container := .other "[]map[string]interface \x7b\x7d"

variable (U : Unicode)

def redactRows (rows : List QueryRow) : GoValue ℚ × Bool :=
  let out := goSlice rowsType (rows.map fun r => goMap r.fields)
  if rows = [] then (out, false)
  else
    match value U out with
    | (.slice .any n elems, changed) =>
      (goSlice rowsType ((List.ofFn (n := n) elems).filter isMap), changed)
    | (_, changed) => (out, changed)

/-- What the coordinator answers to `/v1/query`. -/
abbrev Answer := Except String (Json ℚ)

def toolPrestoListQueries (answer : Answer) (args : Object) : Except String (GoValue ℚ × Bool) := do
  let since := getStringDefault args "since" "1h"
  let duration ← match parseSinceDuration since with
    | .ok d => .ok d
    | .error e => .error ("presto_list_queries: invalid since " ++ since ++ ": " ++ e)
  match ← answer with
  | .arr items =>
    let rows ← listRows G ⟨getStringDefault args "state" "ALL", G.now - duration,
      getStringDefault args "user" "", getStringDefault args "query_substr" ""⟩
      (getIntDefault args "limit" 50) items []
    return redactRows U rows
  | _ => .error "presto_list_queries: /v1/query returned non-array body"

structure ToolResult where
  exitCode : ℤ
  truncated : Bool
  redacted : Bool
  data : GoValue ℚ
  error : String

/-- `Adapter.Execute` for this tool, with what stands before its call. -/
def execute (ready : Except String Unit) (answer : Answer) (args : Object) : ToolResult :=
  match ready with
  | .error e => ⟨1, false, false, .nil, e⟩
  | .ok () =>
    match toolPrestoListQueries G U answer args with
    | .error e => ⟨1, false, false, .nil, e⟩
    | .ok (data, redacted) => ⟨0, false, redacted, data, ""⟩

/-- `toolpack.Truncate`. -/
def truncateResult (r : ToolResult) (maxBytes : ℤ) : ToolResult :=
  if maxBytes ≤ 0 then r
  else if ((G.marshal r.data).length : ℤ) ≤ maxBytes then r
  else { r with
    data := goMap [(keyOf "truncated_content", G.decode ((G.marshal r.data).take maxBytes.toNat))]
    truncated := true }

/-- `handleToolCall`, for a task without a cap of its own. -/
def handleToolCall (ready : Except String Unit) (answer : Answer) (args : Object) : ToolResult :=
  truncateResult G (execute G U ready answer args) (outputCap 0)

end Probe

section Worker

def wire : GoValue ℚ → GoValue ℚ
  | .nil => .nil
  | .string s => .string (s.map fun c => .char c.rune)
  | .leaf x => .leaf x
  | .slice _ n elems => .slice .any n fun i => wire (elems i)
  | .map _ keys vals => .map .any keys fun k => wire (vals k)

structure ToolExecutionResult where
  exitCode : ℤ
  data : GoValue ℚ
  redacted : Bool
  truncated : Bool
  error : String

/-- `handleExecute` and the client: the members of the envelope are taken over. -/
def handleExecute (r : ToolResult) : ToolExecutionResult :=
  ⟨r.exitCode, wire r.data, r.redacted, r.truncated, r.error⟩

def get (v : GoValue ℚ) (k : String) : Option (GoValue ℚ) := v.child (.key (keyOf k))

def isList : GoValue ℚ → Bool
  | .slice _ _ _ => true
  | _ => false

def isDict : GoValue ℚ → Bool
  | .map _ _ _ => true
  | _ => false

def unwrapData (v : GoValue ℚ) : GoValue ℚ :=
  if isList v then v
  else if !isDict v then goMap []
  else
    match get v "data" with
    | none => v
    | some inner =>
      if isDict inner && ["queries", "nodes", "active", "content", "text"].any
        fun k => (get inner k).isSome then inner
      else if isList inner then inner
      else v

def isText (s : List Symbol) : Option (GoValue ℚ) → Bool
  | some (.string t) => t = s
  | _ => false

def isQuery (qid : List Symbol) (q : GoValue ℚ) : Bool :=
  (isDict q && (isText qid (get q "queryId") || isText qid (get q "query_id") ||
    isText qid (get q "id"))) || isText qid (some q)

def anyQuery (qid : List Symbol) : GoValue ℚ → Bool
  | .slice _ _ elems => decide (∃ i, isQuery qid (elems i) = true)
  | .map _ _ vals => decide (∃ k, isQuery qid (vals k) = true)
  | _ => false

structure Check where
  name : String
  ok : Bool
  detail : String

def checkQueryAbsent (result : ToolExecutionResult) (qid : String) : Check :=
  let data := unwrapData result.data
  let queries := if isList data then data else (get data "queries").getD .nil
  let present := anyQuery (keyOf qid) queries
  ⟨"query_absent", !present && result.exitCode = 0,
    "query_id=" ++ qid ++ " present=" ++ (if present then "True" else "False")⟩

def runningArgs : Object := [("state", .str "RUNNING")]

end Worker

variable {items : List (Json ℚ)}

section Listed

variable (G : Go)

def rowOf : Json ℚ → Option QueryRow
  | .obj src => (mapV1QueryRow G src).toOption
  | _ => none

def listed (items : List (Json ℚ)) : List QueryRow :=
  ((items.filterMap (rowOf G)).filter fun row => row.state = "RUNNING").take 50

def shownId (U : Unicode) (row : QueryRow) : List Symbol :=
  (string U goString (keyOf row.queryId)).1.map fun c => .char c.rune

variable {G}

theorem listRows_ok {f : Filters} {limit : ℕ} {out rows : List QueryRow}
    (h : listRows G f limit items out = .ok rows) (hlt : out.length < limit) :
    rows = (out ++ (items.filterMap (rowOf G)).filter (f.keep G)).take limit := by
  induction items generalizing out with
  | nil =>
    obtain rfl := Except.ok.inj h
    rw [filterMap_nil, filter_nil, append_nil, take_of_length_le hlt.le]
  | cons item items ih =>
    cases item with
    | obj src =>
      simp only [listRows] at h
      cases hrow : mapV1QueryRow G src with
      | error e =>
        rw [hrow] at h
        cases h
      | ok row =>
        rw [hrow] at h
        have hof : rowOf G (.obj src) = some row := by rw [rowOf, hrow]; rfl
        rw [filterMap_cons_some hof]
        dsimp only at h
        split_ifs at h with hkeep hlimit
        · rw [filter_cons_of_neg (by simpa using hkeep)]
          exact ih h hlt
        · obtain rfl := Except.ok.inj h
          have hlen : (out ++ [row]).length = limit := by
            rw [length_append, length_singleton] at hlimit ⊢
            omega
          grind
        · grind
    | null => cases h
    | bool b => cases h
    | num n => cases h
    | str s => cases h
    | arr xs => cases h

theorem Filters.keep_iff (f : Filters) (row : QueryRow) : f.keep G row = true ↔
    passesSinceFilter G row f.cutoff = true ∧ (f.state = "ALL" ∨ row.state = f.state) ∧
      (f.user = "" ∨ row.user = f.user) ∧ (f.querySubstr = "" ∨
        f.querySubstr.toList.map Symbol.char <:+: row.queryTextHead) := by
  have hcontains : contains row.queryTextHead f.querySubstr = true ↔
      f.querySubstr.toList.map Symbol.char <:+: row.queryTextHead := by
    simp [contains, List.infix_iff_prefix_suffix, and_comm]
  simp [Filters.keep, hcontains, and_assoc]

theorem keep_running (cutoff : ℤ) (row : QueryRow) :
    Filters.keep G ⟨"RUNNING", cutoff, "", ""⟩ row = decide (row.state = "RUNNING") := by
  rw [Bool.eq_iff_iff, Filters.keep_iff, decide_eq_true_iff]
  constructor
  · rintro ⟨-, hstate, -⟩
    exact hstate.resolve_left (by simp)
  · intro hstate
    refine ⟨?_, .inr hstate, .inl rfl, .inl rfl⟩
    rw [passesSinceFilter, hstate]
    rfl

theorem toolPrestoListQueries_running {U : Unicode} {r : GoValue ℚ × Bool}
    (h : toolPrestoListQueries G U (.ok (.arr items)) runningArgs = .ok r) :
    r = redactRows U (listed G items) := by
  have hargs : toolPrestoListQueries G U (.ok (.arr items)) runningArgs =
      (listRows G ⟨"RUNNING", G.now - 3600 * 1000000000, "", ""⟩ (50 : ℕ) items []).bind
        fun rows => .ok (redactRows U rows) := rfl
  rw [hargs] at h
  cases hrows : listRows G ⟨"RUNNING", G.now - 3600 * 1000000000, "", ""⟩ (50 : ℕ) items [] with
  | error e =>
    rw [hrows] at h
    cases h
  | ok rows =>
    rw [hrows] at h
    have hlist := listRows_ok hrows (by decide)
    rw [nil_append, funext (keep_running (G := G) _)] at hlist
    rw [← Except.ok.inj h, hlist]
    rfl

end Listed

section Rows

variable {U : Unicode}

def fieldNames : List (List Symbol) :=
  ["query_id", "state", "user", "source", "started", "ended", "queued_time", "elapsed_time",
    "error_code", "query_text_head", "resource_group"].map keyOf

theorem fields_subset (r : QueryRow) : ∀ k ∈ r.fields.map Prod.fst, k ∈ fieldNames := by
  intro k hk
  have hsub : (r.fields.map Prod.fst).Sublist fieldNames := by
    rw [QueryRow.fields, map_append]
    exact (List.Sublist.refl _).append (filter_sublist.map Prod.fst)
  exact hsub.subset hk

theorem goMap_child (fields : List (List Symbol × List Symbol)) (k : List Symbol) :
    (goMap fields).child (.key k) = (fields.lookup k).map .string := by
  rw [goMap, GoValue.child]
  cases hlookup : fields.lookup k with
  | none =>
    rw [dif_neg]
    · rfl
    · grind [mem_toFinset, lookup_eq_none_iff]
  | some v =>
    rw [dif_pos]
    · rw [hlookup]
      rfl
    · obtain ⟨l₁, l₂, rfl, -⟩ := lookup_eq_some_iff.mp hlookup
      simp

theorem asciiKeys_row (r : QueryRow) : (goMap r.fields).AsciiKeys := by
  have hall : fieldNames.all (fun k => k.all fun c => decide (c.rune.toNat < 128)) = true := by
    decide
  refine ⟨?_, fun k => trivial⟩
  intro k hk c hc
  have hname := all_eq_true.mp hall k (fields_subset r k (mem_toFinset.mp hk))
  simpa using all_eq_true.mp hname c hc

theorem not_secretKey_field {k : List Symbol} (hk : k ∈ fieldNames) : ¬SecretKey k := by
  rintro ⟨w, hw, hin⟩
  have hnone : fieldNames.all (fun k => triggers.all fun w => !Config.containsText
      (k.map fun c => c.rune.toLower) w) = true := by
    decide
  grind [containsText_iff]

theorem get_field (r : QueryRow) {k : String} (hk : keyOf k ∈ fieldNames) :
    get (value U (goMap r.fields)).1 k =
      (r.fields.lookup (keyOf k)).map fun t => .string (string U goString t).1 := by
  have hchild := goMap_child r.fields (keyOf k)
  cases hlookup : r.fields.lookup (keyOf k) with
  | none =>
    have hkeys : keyOf k ∉ (r.fields.map Prod.fst).toFinset := by
      intro hmem
      obtain ⟨kv, hkv, heq⟩ := mem_map.mp (mem_toFinset.mp hmem)
      have hne := lookup_eq_none_iff.mp hlookup kv hkv
      simp [heq] at hne
    rw [get, goMap, value_map, redactMap, GoValue.child, dif_neg hkeys]
    rfl
  | some t =>
    rw [hlookup] at hchild
    rw [get, child_value (asciiKeys_row r) hchild]
    · rfl
    · rintro _ ⟨⟩
      exact not_secretKey_field hk
    · rintro i flag t ⟨⟩

theorem get_redacted (r : QueryRow) :
    get (value U (goMap r.fields)).1 "query_id" =
      some (.string (string U goString (keyOf r.queryId)).1) ∧
    get (value U (goMap r.fields)).1 "queryId" = none ∧
    get (value U (goMap r.fields)).1 "id" = none := by
  have habsent {k : String} (hk : keyOf k ∉ fieldNames) :
      get (value U (goMap r.fields)).1 k = none := by
    have hkeys : keyOf k ∉ (r.fields.map Prod.fst).toFinset := fun h =>
      hk (fields_subset r _ (mem_toFinset.mp h))
    rw [get, goMap, value_map, redactMap, GoValue.child, dif_neg hkeys]
  refine ⟨?_, habsent (by decide), habsent (by decide)⟩
  rw [get_field r (by decide)]
  rfl

theorem get_wire (v : GoValue ℚ) (k : String) : get (wire v) k = (get v k).map wire := by
  cases v with
  | map type keys vals =>
    by_cases hk : keyOf k ∈ keys <;> simp [get, wire, GoValue.child, hk]
  | nil => rfl
  | string s => rfl
  | leaf x => rfl
  | slice type n elems => rfl

theorem isQuery_row (qid : String) (r : QueryRow) :
    isQuery (keyOf qid) (wire (value U (goMap r.fields)).1) = true ↔
      shownId U r = keyOf qid := by
  obtain ⟨hid, hcamel, hshort⟩ := get_redacted (U := U) r
  have hdict : isDict (wire (value U (goMap r.fields)).1) = true := rfl
  have htext : isText (keyOf qid) (some (wire (value U (goMap r.fields)).1)) = false := rfl
  rw [isQuery, hdict, htext, get_wire, get_wire, get_wire, hid, hcamel, hshort]
  simp [isText, wire, shownId]

theorem redactRows_data (rows : List QueryRow) : (redactRows U rows).1 =
    goSlice rowsType (rows.map fun r => (value U (goMap r.fields)).1) := by
  rw [redactRows]
  split_ifs with hrows
  · rw [hrows]
    rfl
  · set maps := rows.map fun r => goMap r.fields with hmaps
    -- the elements are maps, so none is taken for the value of a flag
    have hargv : (redactArgvAdjacentPairs U maps.get fun i => (value U (maps.get i)).1).1 =
        fun i => (value U (maps.get i)).1 := by
      funext j
      apply (redactArgv_spec maps.get _).2.1
      rintro ⟨i, hi, rfl, hpair⟩
      obtain ⟨r, -, hr⟩ := mem_map.mp (get_mem maps ⟨i, Nat.lt_of_succ_lt hi⟩)
      rw [← hr] at hpair
      cases hpair
    have hofFn : List.ofFn (fun i => (value U (maps.get i)).1) =
        rows.map fun r => (value U (goMap r.fields)).1 := by
      calc
        _ = (List.ofFn maps.get).map fun x => (value U x).1 := map_ofFn.symm
        _ = maps.map fun x => (value U x).1 := by rw [ofFn_get]
        _ = _ := map_map
    have hall : ∀ x ∈ rows.map (fun r => (value U (goMap r.fields)).1), isMap x = true := by
      intro x hx
      obtain ⟨r, -, rfl⟩ := mem_map.mp hx
      rfl
    simp only [goSlice, value]
    rw [hargv, hofFn, filter_eq_self.mpr hall]

theorem anyQuery_rows (qid : String) (rows : List QueryRow) :
    anyQuery (keyOf qid) (wire (redactRows U rows).1) = true ↔
      ∃ r ∈ rows, shownId U r = keyOf qid := by
  rw [redactRows_data]
  change decide _ = true ↔ _
  rw [decide_eq_true_iff]
  constructor
  · grind [isQuery_row]
  · grind [get_of_mem, mem_map_of_mem, isQuery_row]

end Rows

section Soundness

variable {G : Go} {U : Unicode}

def executeTool (G : Go) (U : Unicode) (ready : Except String Unit) (answer : Answer) :
    ToolExecutionResult :=
  handleExecute (handleToolCall G U ready answer runningArgs)

def Fits (G : Go) (U : Unicode) (items : List (Json ℚ)) : Prop :=
  (G.marshal (redactRows U (listed G items)).1).length ≤ 2 ^ 20

def IsRunning (qid : String) (item : Json ℚ) : Prop :=
  ∃ src, item = .obj src ∧ getString src "queryId" = qid ∧ getString src "state" = "RUNNING"

theorem execute_running {ready : Except String Unit}
    (h : (execute G U ready (.ok (.arr items)) runningArgs).exitCode = 0) :
    (execute G U ready (.ok (.arr items)) runningArgs).data =
      (redactRows U (listed G items)).1 := by
  cases ready with
  | error e => cases h
  | ok =>
    simp only [execute] at h ⊢
    grind [toolPrestoListQueries_running]

theorem checkQueryAbsent_truncated (r : ToolResult) (text : List Symbol) (qid : String)
    (h : r.exitCode = 0) :
    (checkQueryAbsent (handleExecute { r with
      data := goMap [(keyOf "truncated_content", text)], truncated := true }) qid).ok = true := by
  have hget {k : String} (hk : keyOf k ≠ keyOf "truncated_content") :
      get (wire (goMap [(keyOf "truncated_content", text)])) k = none := by
    rw [get_wire, get, goMap_child, lookup_cons, beq_false_of_ne hk]
    rfl
  have hunwrap : unwrapData (wire (goMap [(keyOf "truncated_content", text)])) =
      wire (goMap [(keyOf "truncated_content", text)]) := by
    rw [unwrapData, hget (by decide)]
    rfl
  simp only [checkQueryAbsent, handleExecute, hunwrap, h]
  rw [hget (by decide)]
  rfl

theorem checkQueryAbsent_ok_iff {ready : Except String Unit} (qid : String)
    (h : (executeTool G U ready (.ok (.arr items))).exitCode = 0) :
    (checkQueryAbsent (executeTool G U ready (.ok (.arr items))) qid).ok = true ↔
      ¬(Fits G U items ∧ ∃ row ∈ listed G items, shownId U row = keyOf qid) := by
  set r := execute G U ready (.ok (.arr items)) runningArgs with hr
  have hexit : r.exitCode = 0 := by
    rw [← h]
    simp only [executeTool, handleExecute, handleToolCall, truncateResult]
    split_ifs <;> rfl
  have hdata : r.data = (redactRows U (listed G items)).1 := execute_running hexit
  have hcap : outputCap 0 = ((2 ^ 20 : ℕ) : ℤ) := rfl
  by_cases hfits : Fits G U items
  · have htool : handleToolCall G U ready (.ok (.arr items)) runningArgs = r := by
      rw [handleToolCall, ← hr, truncateResult, hcap, if_neg (by decide), if_pos]
      rw [hdata]
      exact_mod_cast hfits
    have hlist : unwrapData (wire r.data) = wire (redactRows U (listed G items)).1 := by
      rw [hdata, redactRows_data]
      rfl
    have hislist : isList (wire (redactRows U (listed G items)).1) = true := by
      rw [redactRows_data]
      rfl
    rw [executeTool, htool, checkQueryAbsent, handleExecute]
    simp only [hlist, hislist, if_true, hexit, decide_true, Bool.and_true]
    rw [Bool.not_eq_true', ← Bool.not_eq_true, anyQuery_rows]
    simp [hfits]
  · have htool : handleToolCall G U ready (.ok (.arr items)) runningArgs = { r with
        data := goMap [(keyOf "truncated_content",
          G.decode ((G.marshal r.data).take (outputCap 0).toNat))]
        truncated := true } := by
      rw [handleToolCall, ← hr, truncateResult, hcap, if_neg (by decide), if_neg]
      rw [hdata]
      exact_mod_cast hfits
    rw [executeTool, htool, checkQueryAbsent_truncated r _ qid hexit]
    simp [hfits]

/-- When an error-free check can be trusted: a query that still runs has to be among the first
fifty that do, the list has to fit under the cap, and the redaction must not touch the id. -/
theorem query_absent_sound_iff (G : Go) (U : Unicode) (ready : Except String Unit)
    (items : List (Json ℚ)) (qid : String)
    (hexit : (executeTool G U ready (.ok (.arr items))).exitCode = 0) :
    ((checkQueryAbsent (executeTool G U ready (.ok (.arr items))) qid).ok = true →
      ∀ item ∈ items, ¬IsRunning qid item) ↔
    ((∃ item ∈ items, IsRunning qid item) →
      Fits G U items ∧ ∃ row ∈ listed G items, shownId U row = keyOf qid) := by
  rw [checkQueryAbsent_ok_iff qid hexit]
  constructor
  · grind
  · intro hfound hnot item hitem hrunning
    simp_all

def sampleGo : Go where
  sprint _ := ""
  parseTime _ := none
  marshal _ := []
  decode bs := bs.map .byte
  now := 0

def runningItem (id : String) : Json ℚ := .obj [("queryId", .str id), ("state", .str "RUNNING")]

def runningRow (id : String) : QueryRow := ⟨id, "RUNNING", "", "", "", "", "", "", "", [], ""⟩

/-- A query that is the only one to run is found. -/
theorem query_absent_sound_one :
    (executeTool sampleGo sampleUnicode (.ok ()) (.ok (.arr [runningItem "b"]))).exitCode = 0 ∧
    (checkQueryAbsent (executeTool sampleGo sampleUnicode (.ok ())
      (.ok (.arr [runningItem "b"]))) "b").ok = false := by
  have hexit : (executeTool sampleGo sampleUnicode (.ok ())
      (.ok (.arr [runningItem "b"]))).exitCode = 0 := rfl
  have hlisted : listed sampleGo [runningItem "b"] = [runningRow "b"] := by decide
  have hsound := (query_absent_sound_iff sampleGo sampleUnicode (.ok ()) [runningItem "b"] "b"
    hexit).mpr fun _ => ⟨Nat.zero_le _, runningRow "b", by rw [hlisted]; simp, by decide +kernel⟩
  refine ⟨hexit, Bool.eq_false_iff.mpr fun hok => ?_⟩
  exact hsound hok _ (mem_singleton_self _) ⟨_, rfl, rfl, rfl⟩

/-- The last of 51 queries runs, and is reported gone. -/
theorem fifty_first_query_missed : ∃ items : List (Json ℚ), items.length = 51 ∧
    (∃ item ∈ items, IsRunning "b" item) ∧
    (executeTool sampleGo sampleUnicode (.ok ()) (.ok (.arr items))).exitCode = 0 ∧
    (checkQueryAbsent (executeTool sampleGo sampleUnicode (.ok ()) (.ok (.arr items))) "b").ok =
      true := by
  set items := List.replicate 50 (runningItem "a") ++ [runningItem "b"] with hitems
  have hlisted : listed sampleGo items = List.replicate 50 (runningRow "a") := by decide +kernel
  have hexit : (executeTool sampleGo sampleUnicode (.ok ()) (.ok (.arr items))).exitCode = 0 := by
    decide +kernel
  refine ⟨items, rfl, ⟨runningItem "b", by simp [hitems], _, rfl, rfl, rfl⟩, hexit, ?_⟩
  rw [checkQueryAbsent_ok_iff "b" hexit]
  rintro ⟨-, row, hrow, hid⟩
  rw [hlisted] at hrow
  rw [eq_of_mem_replicate hrow] at hid
  revert hid
  decide +kernel

end Soundness

end DbAgent.Queries
