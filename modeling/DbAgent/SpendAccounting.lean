import Mathlib.Tactic
import DbAgent.JsonValue

/-! The accounting of model calls: what the backend bills, what `llm_calls` records and the sum
that the cost budget is checked against. -/
namespace DbAgent.Llm

open List

open DbAgent.JsonText (Json)

section Client

structure Message where
  role : String
  content : String

structure Completion where
  content : String
  inputTokens : Option ℤ
  outputTokens : Option ℤ
  costUsd : Option ℚ
  provider : Option String
  raw : Json ℚ

inductive Reply where
  | completion (c : Completion)
  /-- An `LLMBackendError`. -/
  | backendError (text : String)
  /-- Any other exception. -/
  | raised (text : String)

/-- What `json.loads` and `jsonschema.validate` make of an output. -/
inductive Verdict where
  | valid (parsed : Json ℚ)
  | invalid (text : String)
  | raised (text : String)

inductive Stored where
  | prompt (model : String) (messages : List Message)
  | response (raw : Json ℚ)
  | failure (error : Option String)

structure Services where
  check : Json ℚ → String → Verdict
  /-- `ObjectStore.put`. -/
  put : String → Stored → Except String String
  /-- What a `NUMERIC(10, 6)` column keeps of an amount, if it takes it. -/
  numeric : ℚ → Option ℚ

structure Client where
  tracingBackend : String
  traceStore : Bool
  tracingSink : Bool

/-- A call of `generate`, with the replies that it gets from the backend: one for each attempt, to
the messages that are sent. -/
structure Call (ι : Type) where
  callId : String
  agentRole : String
  model : String
  messages : List Message
  investigation : Option ι
  round : Option ℤ
  outputSchema : Option (Json ℚ)
  latencyMs : ℤ
  reply : ℕ → List Message → Reply

/-- `LLMCallRecord`, a row of `llm_calls`. -/
structure Row (ι : Type) where
  callId : String
  investigation : Option ι
  round : Option ℤ
  agentRole : String
  model : String
  provider : Option String
  promptRef : String
  responseRef : String
  inputTokens : Option ℤ
  outputTokens : Option ℤ
  costUsd : Option ℚ
  latencyMs : ℤ
  error : Option String

structure Notice (ι : Type) where
  record : Row ι
  prompt : List Message
  response : String

structure Traces (ι : Type) where
  rows : List (Row ι)
  sink : List (Notice ι)

inductive GenerateError where
  | backend (text : String)
  | output (text : String)
  | raised (text : String)

structure GenerateResult where
  callId : String
  content : String
  parsed : Option (Json ℚ)
  inputTokens : Option ℤ
  outputTokens : Option ℤ
  costUsd : Option ℚ
  latencyMs : ℤ
  retried : Bool

structure Loop where
  workingMessages : List Message
  retried : Bool
  error : Option String
  response : Option Completion
  parsed : Option (Json ℚ)
  content : String
  /-- All that the backend has returned, and billed; the source does not keep it. -/
  returned : List Completion

inductive Flow where
  | next
  | stop
  | raised (text : String)

def correction (content text : String) : List Message :=
  [⟨"assistant", content⟩, ⟨"user", "Your previous output failed schema validation: " ++ text ++
    ". Re-emit a corrected JSON object that conforms exactly to the required schema."⟩]

variable {ι : Type} (S : Services)

def attempt (x : Call ι) (n : ℕ) (s : Loop) : Loop × Flow :=
  match x.reply n s.workingMessages with
  | .raised e => (s, .raised e)
  | .backendError e => ({ s with error := some e }, .stop)
  | .completion c =>
    let s := { s with response := some c, content := c.content, returned := s.returned ++ [c] }
    match x.outputSchema with
    | none => ({ s with parsed := none, error := none }, .stop)
    | some schema =>
      match S.check schema c.content with
      | .valid parsed => ({ s with parsed := some parsed, error := none }, .stop)
      | .raised e => (s, .raised e)
      | .invalid e =>
        let s := { s with error := some ("output schema validation failed: " ++ e) }
        if n = 0 then
          ({ s with
            retried := true, workingMessages := s.workingMessages ++ correction c.content e },
          .next)
        else (s, .stop)

def attempts (x : Call ι) : List ℕ → Loop → Loop × Option String
  | [], s => (s, none)
  | n :: ns, s =>
    match attempt S x n s with
    | (s, .next) => attempts x ns s
    | (s, .stop) => (s, none)
    | (s, .raised e) => (s, some e)

def loop (x : Call ι) : Loop × Option String :=
  attempts S x (List.range 2) ⟨x.messages, false, none, none, none, "", []⟩

def record (x : Call ι) : Except String (Row ι) :=
  match loop S x with
  | (_, some e) => .error e
  | (s, none) => do
    let promptRef ← S.put ("llm/" ++ x.callId ++ "/prompt.json") (.prompt x.model s.workingMessages)
    let responseRef ← S.put ("llm/" ++ x.callId ++ "/response.json")
      (match s.response with
        | some c => .response c.raw
        | none => .failure s.error)
    return ⟨x.callId, x.investigation, x.round, x.agentRole, x.model, s.response.bind (·.provider),
      promptRef, responseRef, s.response.bind (·.inputTokens), s.response.bind (·.outputTokens),
      s.response.bind (·.costUsd), x.latencyMs, s.error⟩

def Client.records (k : Client) : Bool := k.tracingBackend ∈ ["builtin", "both"] && k.traceStore

def Client.notifies (k : Client) : Bool := k.tracingBackend ∈ ["langfuse", "both"] && k.tracingSink

def insertLlmCall (row : Row ι) (t : Traces ι) : Except String (Traces ι) :=
  match row.costUsd with
  | none => .ok { t with rows := t.rows ++ [row] }
  | some usd =>
    match S.numeric usd with
    | none => .error "numeric field overflow"
    | some stored => .ok { t with rows := t.rows ++ [{ row with costUsd := some stored }] }

def generate (k : Client) (x : Call ι) (t : Traces ι) :
    Traces ι × Except GenerateError GenerateResult :=
  match record S x with
  | .error e => (t, .error (.raised e))
  | .ok row =>
    let s := (loop S x).1
    match if k.records then insertLlmCall S row t else .ok t with
    | .error e => (t, .error (.raised e))
    | .ok t =>
      (if k.notifies then { t with sink := t.sink ++ [⟨row, s.workingMessages, s.content⟩] } else t,
        match s.error, s.response with
        | some e, none => .error (.backend e)
        | some e, some _ => .error (.output e)
        | none, _ => .ok ⟨x.callId, s.content, s.parsed, row.inputTokens, row.outputTokens,
            row.costUsd, x.latencyMs, s.retried⟩)

def calls (k : Client) (xs : List (Call ι)) : Traces ι :=
  xs.foldl (fun t x => (generate S k x t).1) ⟨[], []⟩

/-- `get_spend`: a sum in SQL leaves out what is null. -/
def getSpend [DecidableEq ι] (t : Traces ι) (investigation : ι) : ℚ :=
  ((t.rows.filter fun row => row.investigation = some investigation).filterMap Row.costUsd).sum

end Client

section Account

variable {ι : Type} (S : Services)

def total (cs : List Completion) : ℚ := (cs.filterMap Completion.costUsd).sum

def returned (x : Call ι) : List Completion := (loop S x).1.returned

def billed [DecidableEq ι] (xs : List (Call ι)) (investigation : ι) : ℚ :=
  total ((xs.filter fun x => x.investigation = some investigation).flatMap (returned S))

def row (k : Client) (x : Call ι) : Option (Row ι) :=
  if k.records then
    match record S x with
    | .error _ => none
    | .ok row =>
      match row.costUsd with
      | none => some row
      | some usd => (S.numeric usd).map fun stored => { row with costUsd := some stored }
  else none

def superseded (x : Call ι) : Option Completion :=
  match x.reply 0 x.messages, x.outputSchema with
  | .completion c, some schema =>
    match S.check schema c.content with
    | .invalid e =>
      match x.reply 1 (x.messages ++ correction c.content e) with
      | .completion _ => some c
      | _ => none
    | _ => none
  | _, _ => none

def rounding (x : Call ι) : ℚ :=
  total (returned S x).getLast?.toList -
    ((((returned S x).getLast?.bind (·.costUsd)).bind S.numeric).getD 0)

def missed (k : Client) (x : Call ι) : ℚ :=
  if (row S k x).isSome then total (superseded S x).toList + rounding S x
  else total (returned S x)

variable {S}

theorem total_append (cs ds : List Completion) : total (cs ++ ds) = total cs + total ds := by
  rw [total, filterMap_append, sum_append, total, total]

theorem attempt_response (x : Call ι) (n : ℕ) {s : Loop} (hs : s.response = s.returned.getLast?) :
    (attempt S x n s).1.response = (attempt S x n s).1.returned.getLast? := by
  rw [attempt]
  split
  · exact hs
  · exact hs
  · split
    · simp
    · split
      · simp
      · simp
      · dsimp only
        split <;> simp

theorem attempts_response (x : Call ι) (ns : List ℕ) {s : Loop}
    (hs : s.response = s.returned.getLast?) :
    (attempts S x ns s).1.response = (attempts S x ns s).1.returned.getLast? := by
  induction ns generalizing s with
  | nil => exact hs
  | cons n ns ih =>
    have hstep := attempt_response (S := S) x n hs
    rw [attempts]
    split <;> rename_i heq <;> rw [heq] at hstep
    · exact ih hstep
    · exact hstep
    · exact hstep

theorem loop_response (x : Call ι) : (loop S x).1.response = (returned S x).getLast? :=
  attempts_response x _ rfl

theorem returned_eq (x : Call ι) :
    returned S x = (superseded S x).toList ++ (returned S x).getLast?.toList := by
  rw [returned, loop, superseded]
  cases hfirst : x.reply 0 x.messages with
  | raised e => simp [range_succ, attempts, attempt, hfirst]
  | backendError e => simp [range_succ, attempts, attempt, hfirst]
  | completion c =>
    cases hschema : x.outputSchema with
    | none => simp [range_succ, attempts, attempt, hfirst, hschema]
    | some schema =>
      cases hcheck : S.check schema c.content with
      | valid parsed => simp [range_succ, attempts, attempt, hfirst, hschema, hcheck]
      | raised e => simp [range_succ, attempts, attempt, hfirst, hschema, hcheck]
      | invalid e =>
        -- the only way to the second attempt
        cases hsecond : x.reply 1 (x.messages ++ correction c.content e) with
        | raised e' =>
          simp [range_succ, attempts, attempt, hfirst, hschema, hcheck, hsecond]
        | backendError e' =>
          simp [range_succ, attempts, attempt, hfirst, hschema, hcheck, hsecond]
        | completion d =>
          cases hagain : S.check schema d.content <;>
            simp [range_succ, attempts, attempt, hfirst, hschema, hcheck, hsecond, hagain]

theorem record_ok {x : Call ι} {r : Row ι} (h : record S x = .ok r) :
    r.investigation = x.investigation ∧ r.costUsd = (returned S x).getLast?.bind (·.costUsd) := by
  rw [record] at h
  split at h
  · cases h
  · rename_i s heq
    have hresponse : s.response = (returned S x).getLast? := by
      rw [← loop_response, heq]
    simp only [bind, Except.bind, pure, Except.pure] at h
    grind

theorem row_some {k : Client} {x : Call ι} {r : Row ι} (h : row S k x = some r) :
    r.investigation = x.investigation ∧
      r.costUsd = ((returned S x).getLast?.bind (·.costUsd)).bind S.numeric := by
  rw [row] at h
  split at h
  · split at h
    · cases h
    · rename_i r' hrecord
      obtain ⟨hinv, hcost⟩ := record_ok hrecord
      grind [Option.map_eq_some_iff]
  · cases h

theorem generate_rows (k : Client) (x : Call ι) (t : Traces ι) :
    (generate S k x t).1.rows = t.rows ++ (row S k x).toList := by
  rw [generate, row]
  cases hrecord : record S x with
  | error e => simp
  | ok r =>
    cases hrecords : k.records with
    | false => grind
    | true =>
      simp only [if_true, insertLlmCall]
      grind

theorem calls_rows (k : Client) (xs : List (Call ι)) :
    (calls S k xs).rows = xs.flatMap fun x => (row S k x).toList := by
  have hfold (t : Traces ι) : (xs.foldl (fun t x => (generate S k x t).1) t).rows =
      t.rows ++ xs.flatMap fun x => (row S k x).toList := by
    induction xs generalizing t with
    | nil => simp
    | cons x xs ih =>
      rw [foldl_cons, ih, generate_rows, flatMap_cons, append_assoc]
  exact hfold ⟨[], []⟩

theorem row_add_missed (k : Client) (x : Call ι) :
    ((row S k x).toList.filterMap Row.costUsd).sum + missed S k x = total (returned S x) := by
  rw [missed]
  cases hrow : row S k x with
  | none => simp
  | some r =>
    obtain ⟨-, hcost⟩ := row_some hrow
    have hsum : ((some r).toList.filterMap Row.costUsd).sum =
        (((returned S x).getLast?.bind (·.costUsd)).bind S.numeric).getD 0 := by
      rw [← hcost]
      cases hr : r.costUsd <;> simp [hr]
    grind [returned_eq, total_append, rounding]

variable [DecidableEq ι]

theorem getSpend_add_missed (k : Client) (xs : List (Call ι)) (investigation : ι) :
    getSpend (calls S k xs) investigation +
      ((xs.filter fun x => x.investigation = some investigation).map (missed S k)).sum =
      billed S xs investigation := by
  rw [getSpend, calls_rows, billed]
  induction xs with
  | nil => simp [total]
  | cons x xs ih =>
    rw [flatMap_cons, filter_append, filterMap_append, sum_append]
    by_cases hinv : x.investigation = some investigation
    · have hrow : (row S k x).toList.filter (fun r => r.investigation = some investigation) =
          (row S k x).toList := by
        apply filter_eq_self.mpr
        intro r hr
        rw [(row_some (Option.mem_toList.mp hr)).1]
        exact decide_eq_true hinv
      grind [row_add_missed, filter_cons_of_pos, total_append]
    · have hrow : (row S k x).toList.filter (fun r => r.investigation = some investigation) =
          [] := by
        apply filter_eq_nil_iff.mpr
        intro r hr
        rw [(row_some (Option.mem_toList.mp hr)).1]
        simpa using hinv
      grind

/-- A run with no other trouble than outputs that are invalid and backends that fail: all else
works, and the costs are amounts that the column can hold. -/
structure Undisturbed (S : Services) (xs : List (Call ι)) : Prop where
  put : ∀ key content, ∃ ref, S.put key content = .ok ref
  raised : ∀ x ∈ xs, (loop S x).2 = none
  cost : ∀ x ∈ xs, ∀ c ∈ returned S x, ∀ usd, c.costUsd = some usd →
    0 ≤ usd ∧ S.numeric usd = some usd

namespace Undisturbed

variable {xs : List (Call ι)} (h : Undisturbed S xs) {x : Call ι} (hx : x ∈ xs)
include h hx

omit [DecidableEq ι]

theorem record_some : ∃ r, record S x = .ok r := by
  have hraised := h.raised x hx
  rw [record]
  split
  · grind
  · rename_i s heq
    obtain ⟨promptRef, hprompt⟩ := h.put ("llm/" ++ x.callId ++ "/prompt.json")
      (.prompt x.model s.workingMessages)
    obtain ⟨responseRef, hresponse⟩ := h.put ("llm/" ++ x.callId ++ "/response.json")
      (match s.response with
        | some c => .response c.raw
        | none => .failure s.error)
    simp only [bind, Except.bind, pure, Except.pure, hprompt, hresponse]
    exact ⟨_, rfl⟩

theorem row_isSome (k : Client) : (row S k x).isSome = k.records := by
  obtain ⟨r, hr⟩ := h.record_some hx
  rw [row, hr]
  cases hrecords : k.records with
  | false => rfl
  | true =>
    simp only [if_true]
    cases hcost : r.costUsd with
    | none => rfl
    | some usd =>
      rw [(record_ok hr).2] at hcost
      obtain ⟨c, hlast, husd⟩ := Option.bind_eq_some_iff.mp hcost
      simp only [(h.cost x hx c (mem_of_getLast? hlast) usd husd).2]
      rfl

theorem rounding_eq : rounding S x = 0 := by
  rw [rounding]
  cases hlast : (returned S x).getLast? with
  | none => simp [total]
  | some c =>
    cases hcost : c.costUsd with
    | none => simp [total, hcost]
    | some usd =>
      have hkept := (h.cost x hx c (mem_of_getLast? hlast) usd hcost).2
      simp [total, hcost, hkept]

theorem total_nonneg {cs : List Completion} (hcs : ∀ c ∈ cs, c ∈ returned S x) : 0 ≤ total cs := by
  apply sum_nonneg
  intro usd husd
  obtain ⟨c, hc, hcost⟩ := mem_filterMap.mp husd
  exact (h.cost x hx c (hcs c hc) usd hcost).1

theorem missed_eq (k : Client) : missed S k x =
    if k.records then total (superseded S x).toList else total (returned S x) := by
  rw [missed, h.row_isSome hx, h.rounding_eq hx, add_zero]

theorem missed_nonneg (k : Client) : 0 ≤ missed S k x := by
  rw [h.missed_eq hx]
  split
  · apply h.total_nonneg hx
    intro c hc
    rw [returned_eq]
    exact mem_append_left _ hc
  · exact h.total_nonneg hx fun _ hc => hc

end Undisturbed

/-- When the sum is the bill. Of the calls of an investigation, nothing may have been billed that
is not in a row: with a trace store, what was billed for outputs that were asked for again. -/
theorem spend_complete_iff (S : Services) (k : Client) (xs : List (Call ι)) (investigation : ι) :
    (getSpend (calls S k xs) investigation = billed S xs investigation ↔
      ((xs.filter fun x => x.investigation = some investigation).map (missed S k)).sum = 0) ∧
    (Undisturbed S xs →
      (getSpend (calls S k xs) investigation = billed S xs investigation ↔
        ∀ x ∈ xs, x.investigation = some investigation →
          if k.records then total (superseded S x).toList = 0 else total (returned S x) = 0)) := by
  have hlaw := getSpend_add_missed (S := S) k xs investigation
  have hiff : getSpend (calls S k xs) investigation = billed S xs investigation ↔
      ((xs.filter fun x => x.investigation = some investigation).map (missed S k)).sum = 0 := by
    rw [← hlaw]
    exact left_eq_add
  refine ⟨hiff, fun h => hiff.trans ?_⟩
  have hmem {x : Call ι} (hx : x ∈ xs.filter fun x => x.investigation = some investigation) :
      x ∈ xs ∧ x.investigation = some investigation := by
    simpa using mem_filter.mp hx
  have hnonneg : ∀ usd ∈ (xs.filter fun x => x.investigation = some investigation).map
      (missed S k), 0 ≤ usd := by
    intro usd husd
    obtain ⟨x, hx, rfl⟩ := mem_map.mp husd
    exact h.missed_nonneg (hmem hx).1 k
  have hbranch {x : Call ι} (hx : x ∈ xs) : missed S k x = 0 ↔
      if k.records then total (superseded S x).toList = 0 else total (returned S x) = 0 := by
    rw [h.missed_eq hx]
    split <;> rfl
  constructor
  · intro hsum x hx hinv
    apply (hbranch hx).mp
    apply all_zero_of_le_zero_le_of_sum_eq_zero hnonneg hsum
    grind
  · grind [sum_eq_zero]

def sampleServices : Services where
  check _ content := if content = "\x7b\x7d" then .valid (.obj []) else .invalid "not an object"
  put key _ := .ok key
  numeric usd := some usd

def sampleCall (first second : String) : Call ℕ where
  callId := "c"
  agentRole := "analyst"
  model := "openai/m"
  messages := []
  investigation := some 1
  round := some 1
  outputSchema := some (.obj [])
  latencyMs := 10
  reply n _ := .completion ⟨if n = 0 then first else second, none, none, some (1 / 2), none, .null⟩

/-- A dollar is billed for an output that is corrected, and half of it recorded. -/
theorem corrected_output_half_recorded :
    billed sampleServices [sampleCall "" "\x7b\x7d"] 1 = 1 ∧
    getSpend (calls sampleServices ⟨"builtin", true, false⟩ [sampleCall "" "\x7b\x7d"]) 1 = 1 / 2 ∧
    getSpend (calls sampleServices ⟨"langfuse", true, false⟩ [sampleCall "\x7b\x7d" ""]) 1 = 0 ∧
    billed sampleServices [sampleCall "\x7b\x7d" ""] 1 = 1 / 2 := by
  decide +kernel

end Account

end DbAgent.Llm
