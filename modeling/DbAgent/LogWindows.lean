import DbAgent.WorkerCount

/-! The windows of the runtime tools: what `pod_logs`, `container_logs`, `k8s_events` and
`docker_events` ask of the platform for a `since` of their schema, and what it means for
`presto_list_queries`. -/
namespace DbAgent.Windows

open List

open Queries (getIntDefault getStringDefault parseSinceDuration unitOf)
open Nodes (getBoolDefault)

section Query

def decimal (ds : List Char) : ℕ := ds.foldl (fun n c => 10 * n + (c.toNat - '0'.toNat)) 0

/-- `time.ParseDuration`, in nanoseconds. Hours, minutes and seconds are units of it as long
as the whole fits in 64 bits, days are none. -/
structure GoTime where
  parseDuration : String → Option ℤ
  whole : ∀ ds u unit, ds ≠ [] → ds.all Char.isDigit = true → unitOf u = some unit → u ≠ 'd' →
    decimal ds * unit < 2 ^ 63 →
      parseDuration (String.ofList (ds ++ [u])) = some (decimal ds * unit)
  day : ∀ ds, ds.all Char.isDigit = true → parseDuration (String.ofList (ds ++ ['d'])) = none

structure LogOptions where
  since : String
  lines : ℤ
  grep : String
  previous : Bool

structure EventOptions where
  since : String
  typeFilter : String

/-- The options that `toolPodOrContainerLogs` makes of its arguments. -/
def logOptions (args : Queries.Object) : LogOptions where
  since := getStringDefault args "since" "30m"
  lines := getIntDefault args "lines" 1000
  grep := getStringDefault args "grep" ""
  previous := getBoolDefault args "previous" false

/-- Those of `toolEventsK8sOrDocker`. -/
def eventOptions (args : Queries.Object) : EventOptions where
  since := getStringDefault args "since" "1h"
  typeFilter := getStringDefault args "type" "warning"

variable (T : GoTime)

def unix (t : ℤ) : ℤ := t / 1000000000

def parseDurationSeconds (s : String) : Option ℤ :=
  (T.parseDuration s).map fun d => d.tdiv 1000000000

structure PodLogOptions where
  container : String
  previous : Bool
  tailLines : Option ℤ
  sinceSeconds : Option ℤ

/-- What `Logs` asks of Kubernetes. -/
def podLogOptions (container : String) (opts : LogOptions) : PodLogOptions where
  container := container
  previous := opts.previous
  tailLines := if 0 < opts.lines then some opts.lines else none
  sinceSeconds := if opts.since ≠ "" then parseDurationSeconds T opts.since else none

/-- The query of `ContainerLogs`. -/
structure ContainerLogsQuery where
  since : Option ℤ
  tail : Option ℤ

/-- What `Logs` asks of Docker. -/
def containerLogsQuery (now : ℤ) (opts : LogOptions) : ContainerLogsQuery where
  since := if opts.since ≠ "" then (T.parseDuration opts.since).map fun d => unix (now - d)
    else none
  tail := if 0 < opts.lines then some opts.lines else none

/-- The query of Docker's `Events`. -/
structure EventsQuery where
  since : ℤ
  untilTime : ℤ
  typeFilter : Option String

/-- What `Events` asks of Docker. A `since` that is not understood is passed over. -/
def dockerEventsQuery (now : ℤ) (opts : EventOptions) : EventsQuery where
  since := unix (now - (
    if opts.since ≠ "" then (T.parseDuration opts.since).getD (3600 * 1000000000)
    else 3600 * 1000000000))
  untilTime := unix now
  typeFilter := if opts.typeFilter ≠ "" ∧ opts.typeFilter ≠ "all" then
    some opts.typeFilter else none

structure K8sEvent where
  type : String
  reason : String
  object : String
  message : String
  lastTimestamp : Option ℤ
  eventTime : Option ℤ

structure EventInfo where
  time : Option ℤ
  type : String
  reason : String
  object : String
  message : String

/-- What `Events` makes of the events that Kubernetes lists, which are those of all times. -/
def k8sEvents (opts : EventOptions) (items : List K8sEvent) : List EventInfo :=
  items.filterMap fun ev =>
    if opts.typeFilter = "warning" ∧ ev.type ≠ "Warning" then none
    else some ⟨ev.lastTimestamp.or ev.eventTime, ev.type, ev.reason, ev.object, ev.message⟩

structure Window where
  since : Option ℤ
  untilTime : Option ℤ
  deriving DecidableEq

inductive Deployment where
  | k8s
  | swarm
  deriving DecidableEq, Repr

inductive Tool where
  | logs
  | events
  deriving DecidableEq, Repr

/-- The window that a tool asks for. Kubernetes counts `SinceSeconds` back from the present, and
is asked for the events of a namespace without one. -/
def window (now : ℤ) (args : Queries.Object) : Deployment → Tool → Option Window
  | .k8s, .logs => some ⟨(podLogOptions T (getStringDefault args "container" "")
      (logOptions args)).sinceSeconds.map fun secs => unix now - secs, none⟩
  | .k8s, .events => none
  | .swarm, .logs => some ⟨(containerLogsQuery T now (logOptions args)).since, none⟩
  | .swarm, .events =>
    let q := dockerEventsQuery T now (eventOptions args)
    some ⟨some q.since, some q.untilTime⟩

end Query

section Meaning

def Window.Covers (w : Window) (now t : ℤ) : Prop :=
  t ≤ unix now ∧ (∀ s ∈ w.since, s ≤ t) ∧ ∀ u ∈ w.untilTime, t ≤ u

def Window.Exactly (w : Window) (now d : ℤ) : Prop :=
  ∀ t, w.Covers now t ↔ unix now - d / 1000000000 ≤ t ∧ t ≤ unix now

/-- An entry of this time comes through: the window holds it or, where there is none, an event
of that time is among those that `Events` keeps. -/
def Covers (T : GoTime) (now : ℤ) (args : Queries.Object) (deployment : Deployment) (tool : Tool)
    (t : ℤ) : Prop :=
  match window T now args deployment tool with
  | some w => w.Covers now t
  | none => t ≤ unix now ∧ ∃ ev, ∃ info ∈ k8sEvents (eventOptions args) [ev], info.time = some t

def Exactly (T : GoTime) (now : ℤ) (args : Queries.Object) (deployment : Deployment) (tool : Tool)
    (d : ℤ) : Prop :=
  ∀ t, Covers T now args deployment tool t ↔ unix now - d / 1000000000 ≤ t ∧ t ≤ unix now

/-- The pattern `^\d+[smhd]$` of the schema. -/
def accepted (s : String) : Bool :=
  s.toList.dropLast ≠ [] && s.toList.dropLast.all Char.isDigit &&
    ['s', 'm', 'h', 'd'].contains (s.toList.getLastD ' ')

theorem mem_k8sEvents (opts : EventOptions) (t : ℤ) :
    ∃ ev, ∃ info ∈ k8sEvents opts [ev], info.time = some t := by
  refine ⟨⟨"Warning", "", "", "", some t, none⟩, ⟨some t, "Warning", "", "", ""⟩, ?_, rfl⟩
  simp [k8sEvents]

theorem exactly_of_window {T : GoTime} {now d : ℤ} {args : Queries.Object} {w : Window}
    {deployment : Deployment} {tool : Tool} (h : window T now args deployment tool = some w) :
    Exactly T now args deployment tool d ↔ w.Exactly now d := by
  simp only [Exactly, Covers, h]
  rfl

theorem exactly_k8sEvents {T : GoTime} {now d : ℤ} {args : Queries.Object} :
    Exactly T now args .k8s .events d ↔ (Window.mk none none).Exactly now d := by
  apply forall_congr'
  intro t
  have hcovers : Covers T now args .k8s .events t ↔ (Window.mk none none).Covers now t := by
    change t ≤ unix now ∧ _ ↔ _
    simp [Window.Covers, mem_k8sEvents]
  rw [hcovers]

theorem not_exactly_unbounded (now d : ℤ) : ¬(Window.mk none none).Exactly now d := by
  intro h
  have hcovers :
      (Window.mk none none).Covers now (min (unix now) (unix now - d / 1000000000 - 1)) :=
    ⟨min_le_left _ _, by simp, by simp⟩
  obtain ⟨hstart, -⟩ := (h _).mp hcovers
  omega

theorem exactly_of_start (now d : ℤ) (u : Option ℤ) (hu : ∀ t ∈ u, unix now ≤ t) :
    (Window.mk (some (unix now - d / 1000000000)) u).Exactly now d := by
  intro t
  constructor
  · rintro ⟨hnow, hsince, -⟩
    exact ⟨hsince _ rfl, hnow⟩
  · rintro ⟨hstart, hnow⟩
    refine ⟨hnow, ?_, ?_⟩
    · grind
    · grind

theorem start_of_exactly {now b d : ℤ} {u : Option ℤ} (hu : ∀ t ∈ u, unix now ≤ t)
    (hb : b ≤ unix now) (hd : 0 ≤ d) (h : (Window.mk (some b) u).Exactly now d) :
    b = unix now - d / 1000000000 := by
  have hcovers (t : ℤ) (ht : t ≤ unix now) : (Window.mk (some b) u).Covers now t ↔ b ≤ t := by
    constructor
    · rintro ⟨-, hsince, -⟩
      exact hsince b rfl
    · intro hbt
      refine ⟨ht, ?_, fun t' ht' => ht.trans (hu t' ht')⟩
      grind
  have hfirst := (hcovers b hb).symm.trans (h b)
  have hlast := (hcovers (unix now - d / 1000000000) (by omega)).symm.trans (h _)
  omega

end Meaning

section Durations

theorem isDigit_ascii {c : Char} (h : c.isDigit = true) : c.toNat < 128 := by
  obtain ⟨-, hle⟩ := Py.isDigit_bounds c h
  omega

theorem unitOf_cases {u : Char} {unit : ℤ} (h : unitOf u = some unit) :
    (u = 's' ∧ unit = 1000000000) ∨ (u = 'm' ∧ unit = 60 * 1000000000) ∨
      (u = 'h' ∧ unit = 3600 * 1000000000) ∨ (u = 'd' ∧ unit = 24 * 3600 * 1000000000) := by
  unfold unitOf at h
  grind

variable {ds : List Char} {u : Char} {unit : ℤ}

theorem parseInt_digits (hne : ds ≠ []) (hall : ds.all Char.isDigit = true) :
    Queries.parseInt ds = if decimal ds < 2 ^ 63 then .ok (decimal ds) else .range := by
  have hhead (c : Char) (hc : c.isDigit = false) : ds.head? ≠ some c := by
    intro heq
    have hmem := mem_of_head? heq
    rw [all_eq_true.mp hall c hmem] at hc
    cases hc
  have hminus := hhead '-' (by decide)
  have hplus := hhead '+' (by decide)
  simp only [Queries.parseInt, hminus, hplus, or_self, if_false]
  rw [if_neg (by simp [hne, hall])]
  rfl

theorem parseSinceDuration_digits (hne : ds ≠ []) (hall : ds.all Char.isDigit = true)
    (hunit : unitOf u = some unit) :
    parseSinceDuration (String.ofList (ds ++ [u])) =
      if decimal ds * unit < 2 ^ 63 then .ok (decimal ds * unit)
      else .error "duration exceeds representable range" := by
  have hpos : 0 < unit ∧ u.toNat < 128 := by
    rcases unitOf_cases hunit with ⟨rfl, rfl⟩ | ⟨rfl, rfl⟩ | ⟨rfl, rfl⟩ | ⟨rfl, rfl⟩ <;> decide
  have hnonempty : String.ofList (ds ++ [u]) ≠ "" := by
    intro h
    have hlist := congrArg String.toList h
    simp at hlist
  have hshape : ¬((ds ++ [u]).length < 2 ∨ (ds ++ [u]).any (fun c => 128 ≤ c.toNat) = true) := by
    rw [not_or]
    constructor
    · simp_all
    · rw [Bool.not_eq_true, any_eq_false]
      intro c hc
      rcases mem_append.mp hc with hc | hc
      · have hascii := isDigit_ascii (all_eq_true.mp hall c hc)
        simpa using hascii
      · grind
  have hlast : (ds ++ [u]).getLastD ' ' = u := by simp
  simp only [parseSinceDuration, if_neg hnonempty, String.toList_ofList, if_neg hshape,
    dropLast_concat, parseInt_digits hne hall, hlast, hunit]
  have hn : (0 : ℤ) ≤ decimal ds := Int.natCast_nonneg _
  by_cases hrange : decimal ds < 2 ^ 63
  · have hquot : (2 ^ 63 - 1) / unit < (decimal ds : ℤ) ↔ ¬(decimal ds : ℤ) * unit < 2 ^ 63 := by
      rw [Int.ediv_lt_iff_lt_mul hpos.1]
      omega
    simp only [if_pos hrange, if_neg (not_lt.mpr hn)]
    by_cases hfits : (decimal ds : ℤ) * unit < 2 ^ 63
    · rw [if_neg (by rw [hquot]; exact not_not.mpr hfits), if_pos hfits]
    · rw [if_pos (hquot.mpr hfits), if_neg hfits]
  · have hbig : ¬(decimal ds : ℤ) * unit < 2 ^ 63 := by
      have hle : (2 : ℤ) ^ 63 ≤ decimal ds := by exact_mod_cast not_lt.mp hrange
      have hmul : (decimal ds : ℤ) * 1 ≤ decimal ds * unit :=
        mul_le_mul_of_nonneg_left (by omega) hn
      omega
    simp only [if_neg hrange, if_neg hbig]

theorem accepted_cases {s : String} (h : accepted s = true) : ∃ ds u unit,
    s = String.ofList (ds ++ [u]) ∧ ds ≠ [] ∧ ds.all Char.isDigit = true ∧
      unitOf u = some unit := by
  simp only [accepted, Bool.and_eq_true, decide_eq_true_eq] at h
  obtain ⟨⟨hne, hall⟩, hunit⟩ := h
  have hcs : s.toList ≠ [] := by
    intro hnil
    rw [hnil] at hne
    exact hne rfl
  have hlast : s.toList.getLastD ' ' = s.toList.getLast hcs := by grind
  rw [hlast] at hunit
  have hunit' : ∃ unit, unitOf (s.toList.getLast hcs) = some unit := by
    have hmem : s.toList.getLast hcs ∈ ['s', 'm', 'h', 'd'] := by simpa using hunit
    generalize s.toList.getLast hcs = u at hmem
    simp only [mem_cons, not_mem_nil, or_false] at hmem
    rcases hmem with rfl | rfl | rfl | rfl <;> exact ⟨_, rfl⟩
  obtain ⟨unit, hunit'⟩ := hunit'
  refine ⟨_, _, unit, ?_, hne, hall, hunit'⟩
  rw [dropLast_concat_getLast, String.ofList_toList]

end Durations

section Exact

theorem unix_sub {now d : ℤ} (hd : 1000000000 ∣ d) :
    unix (now - d) = unix now - d / 1000000000 := by
  obtain ⟨k, rfl⟩ := hd
  unfold unix
  omega

theorem seconds_dvd {u : Char} {unit : ℤ} (h : unitOf u = some unit) (n : ℤ) :
    1000000000 ∣ n * unit := by grind [Dvd.dvd.mul_left, unitOf_cases]

variable (T : GoTime) (now d : ℤ) {args : Queries.Object} {s : String}

theorem window_of_some (hlogs : (logOptions args).since = s)
    (hevents : (eventOptions args).since = s)
    (hne : s ≠ "") (hparse : T.parseDuration s = some d) (hdvd : 1000000000 ∣ d) (hpos : 0 ≤ d)
    (deployment : Deployment) (tool : Tool) (h : ¬(deployment = .k8s ∧ tool = .events)) :
    ∃ u, window T now args deployment tool = some ⟨some (unix now - d / 1000000000), u⟩ ∧
      ∀ t ∈ u, unix now ≤ t := by
  have hnone : ∀ t ∈ (none : Option ℤ), unix now ≤ t := by simp
  cases deployment with
  | k8s =>
    cases tool with
    | events => exact absurd ⟨rfl, rfl⟩ h
    | logs =>
      refine ⟨none, ?_, hnone⟩
      simp only [window, podLogOptions, hlogs, parseDurationSeconds, hparse, hne, ne_eq,
        not_false_eq_true, if_true, Option.map_some, Int.tdiv_eq_ediv_of_nonneg hpos]
  | swarm =>
    cases tool with
    | logs =>
      refine ⟨none, ?_, hnone⟩
      simp only [window, containerLogsQuery, hlogs, hparse, hne, ne_eq, not_false_eq_true, if_true,
        Option.map_some, unix_sub hdvd]
    | events =>
      refine ⟨some (unix now), ?_, ?_⟩
      · simp only [window, dockerEventsQuery, hevents, hparse, hne, ne_eq, not_false_eq_true,
          if_true, Option.getD_some, unix_sub hdvd]
      · simp

theorem window_of_none (hlogs : (logOptions args).since = s)
    (hevents : (eventOptions args).since = s)
    (hne : s ≠ "") (hparse : T.parseDuration s = none) (deployment : Deployment) (tool : Tool)
    (h : ¬(deployment = .k8s ∧ tool = .events)) :
    window T now args deployment tool = some ⟨none, none⟩ ∨
      window T now args deployment tool = some ⟨some (unix now - 3600), some (unix now)⟩ := by
  cases deployment with
  | k8s =>
    left
    cases tool with
    | events => exact absurd ⟨rfl, rfl⟩ h
    | logs => simp [window, podLogOptions, hlogs, parseDurationSeconds, hparse]
  | swarm =>
    cases tool with
    | logs =>
      left
      simp [window, containerLogsQuery, hlogs, hparse]
    | events =>
      right
      have hhour : unix (now - 3600 * 1000000000) = unix now - 3600 := unix_sub (by decide)
      simp only [window, dockerEventsQuery, hevents, hparse, hne, ne_eq, not_false_eq_true, if_true,
        Option.getD_none, hhour]

/-- For a `since` of the schema the window is the one that `presto_list_queries` would use
exactly if it is not in days, and not asked of the events of Kubernetes. -/
theorem window_exactly_iff (deployment : Deployment) (tool : Tool) (args : Queries.Object)
    (s : String) (hsince : args.lookup "since" = some (.str s)) (haccepted : accepted s = true)
    (hd : parseSinceDuration s = .ok d) :
    Exactly T now args deployment tool d ↔
      ¬(deployment = .k8s ∧ tool = .events) ∧ s.toList.getLast? ≠ some 'd' := by
  by_cases hevent : deployment = .k8s ∧ tool = .events
  · obtain ⟨rfl, rfl⟩ := hevent
    rw [exactly_k8sEvents]
    exact iff_of_false (not_exactly_unbounded now d) fun h => h.1 ⟨rfl, rfl⟩
  obtain ⟨ds, u, unit, rfl, hne, hall, hunit⟩ := accepted_cases haccepted
  rw [parseSinceDuration_digits hne hall hunit] at hd
  have hfits : (decimal ds : ℤ) * unit < 2 ^ 63 := by
    by_contra hbig
    rw [if_neg hbig] at hd
    cases hd
  rw [if_pos hfits] at hd
  obtain rfl := Except.ok.inj hd
  have hunitPos : 0 < unit := by grind [unitOf_cases]
  have hpos : 0 ≤ (decimal ds : ℤ) * unit := mul_nonneg (Int.natCast_nonneg _) hunitPos.le
  have hnonempty : String.ofList (ds ++ [u]) ≠ "" := by
    intro h
    have hlist := congrArg String.toList h
    simp at hlist
  have hdefault (default : String) :
      getStringDefault args "since" default = String.ofList (ds ++ [u]) := by
    simp [getStringDefault, Queries.getString, hsince]
  have hlogs : (logOptions args).since = String.ofList (ds ++ [u]) := hdefault "30m"
  have hevents : (eventOptions args).since = String.ofList (ds ++ [u]) := hdefault "1h"
  have hlast : (String.ofList (ds ++ [u])).toList.getLast? = some u := by simp
  rw [hlast]
  by_cases hday : u = 'd'
  · subst hday
    have hparse := T.day ds hall
    have hdays : unit = 24 * 3600 * 1000000000 := (Option.some.inj hunit).symm
    refine iff_of_false ?_ (fun h => h.2 rfl)
    intro hexact
    obtain hw | hw := window_of_none T now hlogs hevents hnonempty hparse deployment tool hevent
    · rw [exactly_of_window hw] at hexact
      exact not_exactly_unbounded now _ hexact
    · rw [exactly_of_window hw] at hexact
      -- an hour is no number of days
      have hstart := start_of_exactly (fun t ht => (Option.some.inj ht).le) (by omega) hpos hexact
      rw [hdays] at hstart
      omega
  · have hparse := T.whole ds u unit hne hall hunit hday hfits
    have hlast' : some u ≠ some 'd' := fun h => hday (Option.some.inj h)
    obtain ⟨bound, hw, hbound⟩ := window_of_some T now _ hlogs hevents hnonempty hparse
      (seconds_dvd hunit _) hpos deployment tool hevent
    rw [exactly_of_window hw]
    exact iff_of_true (exactly_of_start now _ bound hbound) ⟨hevent, hlast'⟩

def sampleParse (s : String) : Option ℤ :=
  if s.toList.getLast? = some 'd' then none else (parseSinceDuration s).toOption

theorem sampleParse_whole (ds : List Char) (u : Char) (unit : ℤ) (hne : ds ≠ [])
    (hall : ds.all Char.isDigit = true) (hunit : unitOf u = some unit) (hday : u ≠ 'd')
    (hfits : decimal ds * unit < 2 ^ 63) :
    sampleParse (String.ofList (ds ++ [u])) = some (decimal ds * unit) := by
  have hlast : (String.ofList (ds ++ [u])).toList.getLast? ≠ some 'd' := by simpa using hday
  rw [sampleParse, if_neg hlast, parseSinceDuration_digits hne hall hunit, if_pos hfits]
  rfl

theorem sampleParse_day (ds : List Char) (_ : ds.all Char.isDigit = true) :
    sampleParse (String.ofList (ds ++ ['d'])) = none := by
  rw [sampleParse, if_pos (by simp)]

def sampleTime : GoTime := ⟨sampleParse, sampleParse_whole, sampleParse_day⟩

theorem five_minutes_exact :
    window sampleTime 0 [("since", .str "5m")] .swarm .logs = some ⟨some (-300), none⟩ ∧
    Exactly sampleTime 0 [("since", .str "5m")] .swarm .logs (300 * 1000000000) :=
  ⟨by decide +kernel, (window_exactly_iff sampleTime 0 (300 * 1000000000) .swarm .logs
    [("since", .str "5m")] "5m" rfl (by decide) (by rfl)).mpr (by decide)⟩

/-- A day is asked for. The logs are not bounded, and Docker is asked for the events of one
hour. -/
theorem one_day_not_understood :
    parseSinceDuration "1d" = .ok (86400 * 1000000000) ∧
    window sampleTime 0 [("since", .str "1d")] .swarm .logs = some ⟨none, none⟩ ∧
    window sampleTime 0 [("since", .str "1d")] .k8s .logs = some ⟨none, none⟩ ∧
    window sampleTime 0 [("since", .str "1d")] .swarm .events = some ⟨some (-3600), some 0⟩ ∧
    ¬Exactly sampleTime 0 [("since", .str "1d")] .swarm .logs (86400 * 1000000000) := by
  have hlogs : window sampleTime 0 [("since", .str "1d")] .swarm .logs = some ⟨none, none⟩ := by
    decide +kernel
  refine ⟨by rfl, hlogs, by decide +kernel, by decide +kernel, ?_⟩
  rw [exactly_of_window hlogs]
  exact not_exactly_unbounded 0 _

end Exact

end DbAgent.Windows
