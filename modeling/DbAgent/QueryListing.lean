import DbAgent.QueryAbsence

/-! What `presto_list_queries` lists: the first queries of the coordinator that pass all filters,
redacted one by one. -/
namespace DbAgent.Queries

open JsonText (Json)
open Redact

section Exact

variable {G : Go}

def filtersOf (G : Go) (args : Object) (duration : ℤ) : Filters where
  state := getStringDefault args "state" "ALL"
  cutoff := G.now - duration
  user := getStringDefault args "user" ""
  querySubstr := getStringDefault args "query_substr" ""

theorem toolPrestoListQueries_arr {U : Unicode} {items : List (Json ℚ)} {args : Object}
    {duration : ℤ}
    (hsince : parseSinceDuration (getStringDefault args "since" "1h") = .ok duration) :
    toolPrestoListQueries G U (.ok (.arr items)) args =
      (listRows G (filtersOf G args duration) (getIntDefault args "limit" 50) items []).bind
        fun rows => .ok (redactRows U rows) := by
  simp only [toolPrestoListQueries, hsince]
  rfl

end Exact

end DbAgent.Queries
