import DbAgent.PyJson
import DbAgent.ServiceEnv
import DbAgent.StructCodec

/-! A Swarm service is read from the engine into the structs of the docker client, changed,
and posted back. -/
namespace DbAgent.Swarm

open JsonText Py Codec

/-- What the encoder leaves open besides the reader: which number is written for the
double that was read for a number, if there is one. -/
structure Engine extends Reader Number where
  float64 : Number → Option Number

/-- The numbers that fit a `uint64`. -/
def uint64 : Number → Option ℕ
  | .int z => if 0 ≤ z ∧ z < 2^64 then some z.toNat else none
  | .float _ => none

theorem int_of_uint64 (n : Number) (k : ℕ) (h : uint64 n = some k) : Number.int k = n := by
  cases n with
  | float q => cases h
  | int z =>
    rw [uint64, Option.ite_none_right_eq_some] at h
    grind

theorem uint64_int {k : ℕ} (h : k < 2^64) : uint64 (.int k) = some k := by
  rw [uint64, if_pos (by omega), Int.toNat_natCast]

section Structs

/-- The fields of type `any` are `none` for `nil`. -/
structure ContainerSpec where
  image : String
  env : List String
  labels : List (String × String)
  command : Option (Json Number)
  args : Option (Json Number)
  hostname : Option (Json Number)
  mounts : Option (Json Number)
  secrets : Option (Json Number)
  configs : Option (Json Number)
  user : Option (Json Number)
  dir : Option (Json Number)
  privileges : Option (Json Number)

structure TaskSpec where
  containerSpec : ContainerSpec
  forceUpdate : ℕ
  resources : Option (Json Number)
  restartPolicy : Option (Json Number)
  placement : Option (Json Number)
  networks : Option (Json Number)

structure ServiceSpec where
  name : String
  labels : List (String × String)
  taskTemplate : TaskSpec
  mode : Option (Json Number)
  endpointSpec : Option (Json Number)
  updateConfig : Option (Json Number)

structure ServiceVersion where
  index : ℕ

structure Service where
  id : String
  version : ServiceVersion
  spec : ServiceSpec

def ContainerSpec.zero : ContainerSpec :=
  ⟨"", [], [], none, none, none, none, none, none, none, none, none⟩

def TaskSpec.zero : TaskSpec := ⟨.zero, 0, none, none, none, none⟩

def ServiceSpec.zero : ServiceSpec := ⟨"", [], .zero, none, none, none⟩

def Service.zero : Service := ⟨"", ⟨0⟩, .zero⟩

end Structs

variable (D : Engine)

section Fields

-- The fields stand in the order of their names, which is the order of members here.
def containerFields : List (Field Number ContainerSpec) :=
  [⟨"Args", _, anyCell D.float64, (·.args), fun v s => { s with args := v }⟩,
    ⟨"Command", _, anyCell D.float64, (·.command), fun v s => { s with command := v }⟩,
    ⟨"Configs", _, anyCell D.float64, (·.configs), fun v s => { s with configs := v }⟩,
    ⟨"Dir", _, anyCell D.float64, (·.dir), fun v s => { s with dir := v }⟩,
    ⟨"Env", _, listCell, (·.env), fun v s => { s with env := v }⟩,
    ⟨"Hostname", _, anyCell D.float64, (·.hostname), fun v s => { s with hostname := v }⟩,
    ⟨"Image", _, textCell, (·.image), fun v s => { s with image := v }⟩,
    ⟨"Labels", _, mapCell, (·.labels), fun v s => { s with labels := v }⟩,
    ⟨"Mounts", _, anyCell D.float64, (·.mounts), fun v s => { s with mounts := v }⟩,
    ⟨"Privileges", _, anyCell D.float64, (·.privileges), fun v s => { s with privileges := v }⟩,
    ⟨"Secrets", _, anyCell D.float64, (·.secrets), fun v s => { s with secrets := v }⟩,
    ⟨"User", _, anyCell D.float64, (·.user), fun v s => { s with user := v }⟩]

def containerField : Field Number TaskSpec :=
  ⟨"ContainerSpec", _, recordCell D.toReader (containerFields D) .zero, (·.containerSpec),
    fun v s => { s with containerSpec := v }⟩

def forceUpdateField : Field Number TaskSpec :=
  ⟨"ForceUpdate", _, countCell uint64 fun k => .int k, (·.forceUpdate),
    fun v s => { s with forceUpdate := v }⟩

def taskFields : List (Field Number TaskSpec) :=
  [containerField D, forceUpdateField,
    ⟨"Networks", _, anyCell D.float64, (·.networks), fun v s => { s with networks := v }⟩,
    ⟨"Placement", _, anyCell D.float64, (·.placement), fun v s => { s with placement := v }⟩,
    ⟨"Resources", _, anyCell D.float64, (·.resources), fun v s => { s with resources := v }⟩,
    ⟨"RestartPolicy", _, anyCell D.float64, (·.restartPolicy),
      fun v s => { s with restartPolicy := v }⟩]

def taskField : Field Number ServiceSpec :=
  ⟨"TaskTemplate", _, recordCell D.toReader (taskFields D) .zero, (·.taskTemplate),
    fun v s => { s with taskTemplate := v }⟩

def specFields : List (Field Number ServiceSpec) :=
  [⟨"EndpointSpec", _, anyCell D.float64, (·.endpointSpec),
      fun v s => { s with endpointSpec := v }⟩,
    ⟨"Labels", _, mapCell, (·.labels), fun v s => { s with labels := v }⟩,
    ⟨"Mode", _, anyCell D.float64, (·.mode), fun v s => { s with mode := v }⟩,
    ⟨"Name", _, textCell, (·.name), fun v s => { s with name := v }⟩,
    taskField D,
    ⟨"UpdateConfig", _, anyCell D.float64, (·.updateConfig),
      fun v s => { s with updateConfig := v }⟩]

def versionFields : List (Field Number ServiceVersion) :=
  [⟨"Index", _, countCell uint64 fun k => .int k, (·.index), fun v s => { s with index := v }⟩]

def specField : Field Number Service :=
  ⟨"Spec", _, recordCell D.toReader (specFields D) .zero, (·.spec),
    fun v s => { s with spec := v }⟩

def serviceFields : List (Field Number Service) :=
  [⟨"ID", _, textCell, (·.id), fun v s => { s with id := v }⟩,
    specField D,
    ⟨"Version", _, recordCell D.toReader versionFields ⟨0⟩, (·.version),
      fun v s => { s with version := v }⟩]

end Fields

section Operations

/-- `ServiceInspect`, on the document that the engine returns. -/
def serviceInspect (doc : Json Number) : Except String Service :=
  readObject D.toReader (serviceFields D) .zero doc

structure Update where
  id : String
  version : ℕ
  body : Json Number

def serviceUpdate (svc : Service) : Update where
  id := svc.id
  version := svc.version.index
  body := .obj (writeMembers (specFields D) svc.spec)

def Service.setTask (svc : Service) (task : TaskSpec) : Service :=
  { svc with spec := { svc.spec with taskTemplate := task } }

/-- `ForceUpdate++`. -/
def TaskSpec.bump (task : TaskSpec) : TaskSpec :=
  { task with forceUpdate := (task.forceUpdate + 1) % 2^64 }

def TaskSpec.setEnv (task : TaskSpec) (env : List String) : TaskSpec :=
  { task with containerSpec := { task.containerSpec with env := env } }

/-- `RestartService`: what it posts. -/
def restartService (doc : Json Number) : Except String Update :=
  match serviceInspect D doc with
  | .error e => .error ("dockerenv: restart service inspect: " ++ e)
  | .ok svc => .ok (serviceUpdate D (svc.setTask svc.spec.taskTemplate.bump))

/-- `mergeEnv` on the strings of the document. -/
def mergeEnv (existing : List String) (env : List (String × String)) : List String :=
  (Config.mergeEnv (existing.map String.toList)
    (env.map fun e => (e.1.toList, e.2.toList))).map String.ofList

/-- `UpdateServiceEnv`: what it posts; the map is listed in the order of the loop over it. -/
def updateServiceEnv (doc : Json Number) (env : List (String × String)) : Except String Update :=
  match serviceInspect D doc with
  | .error e => .error ("dockerenv: update service env inspect: " ++ e)
  | .ok svc =>
    .ok (serviceUpdate D (svc.setTask (svc.spec.taskTemplate.setEnv
      (mergeEnv svc.spec.taskTemplate.containerSpec.env env))))

end Operations

section Laws

theorem containerFields_lawful : Lawful (containerFields D) .zero where
  sorted := by
    simp only [containerFields, List.map_cons, List.map_nil]
    decide
  get_zero := by simp [containerFields, ContainerSpec.zero, anyCell, listCell, textCell, mapCell]
  get_put := by simp [containerFields]
  apart := by simp [containerFields, Apart]

theorem taskFields_lawful : Lawful (taskFields D) .zero where
  sorted := by
    simp only [taskFields, containerField, forceUpdateField, List.map_cons, List.map_nil]
    decide
  get_zero := by simp [taskFields, containerField, forceUpdateField, TaskSpec.zero, anyCell,
    recordCell, countCell]
  get_put := by simp [taskFields, containerField, forceUpdateField]
  apart := by simp [taskFields, containerField, forceUpdateField, Apart]

theorem specFields_lawful : Lawful (specFields D) .zero where
  sorted := by
    simp only [specFields, taskField, List.map_cons, List.map_nil]
    decide
  get_zero := by simp [specFields, taskField, ServiceSpec.zero, anyCell, recordCell, textCell,
    mapCell]
  get_put := by simp [specFields, taskField]
  apart := by simp [specFields, taskField, Apart]

theorem serviceFields_lawful : Lawful (serviceFields D) .zero where
  sorted := by
    simp only [serviceFields, specField, List.map_cons, List.map_nil]
    decide
  get_zero := by simp [serviceFields, specField, Service.zero, recordCell, textCell]
  get_put := by simp [serviceFields, specField]
  apart := by simp [serviceFields, specField, Apart]

end Laws

section Plain

inductive Kind where
  | text
  | texts
  | map
  | any
  | count

def Kind.Keeps : Kind → Json Number → Prop
  | .text => KeepsText
  | .texts => KeepsList
  | .map => KeepsMap
  | .any => KeepsAny D.float64
  | .count => KeepsCount uint64

def containerKinds : List (String × Kind) :=
  [("Args", .any), ("Command", .any), ("Configs", .any), ("Dir", .any), ("Env", .texts),
    ("Hostname", .any), ("Image", .text), ("Labels", .map), ("Mounts", .any),
    ("Privileges", .any), ("Secrets", .any), ("User", .any)]

def taskKinds : List (String × Kind) :=
  [("ForceUpdate", .count), ("Networks", .any), ("Placement", .any), ("Resources", .any),
    ("RestartPolicy", .any)]

def specKinds : List (String × Kind) :=
  [("EndpointSpec", .any), ("Labels", .map), ("Mode", .any), ("Name", .text),
    ("UpdateConfig", .any)]

/-- A member with a known name and a value that is kept, if it is not the one at the end
of the path. -/
def PlainMember (kinds : List (String × Kind)) (p : List String) (m : String × Json Number) :
    Prop :=
  ∃ kind, kinds.lookup m.1 = some kind ∧ (p = [m.1] ∨ kind.Keeps D m.2)

def PlainContainer (p : List String) (v : Json Number) : Prop :=
  ∃ ms, v = .obj ms ∧ ∀ m ∈ ms, PlainMember D containerKinds p m

def PlainTask (p : List String) (v : Json Number) : Prop :=
  ∃ ms, v = .obj ms ∧
    (∃ c, ("ContainerSpec", c) ∈ ms ∧ PlainContainer D (below "ContainerSpec" p) c) ∧
    ∀ m ∈ ms, m.1 = "ContainerSpec" ∨ PlainMember D taskKinds p m

def PlainSpec (p : List String) (v : Json Number) : Prop :=
  ∃ ms, v = .obj ms ∧
    (∃ t, ("TaskTemplate", t) ∈ ms ∧ PlainTask D (below "TaskTemplate" p) t) ∧
    ∀ m ∈ ms, m.1 = "TaskTemplate" ∨ PlainMember D specKinds p m

end Plain

section RoundTrip

variable {D} {σ : Type} {zero : σ}

/-- A field that keeps the values of its kind and is left out when it is zero. -/
structure OfKind (D : Engine) (f : Field Number σ) (kind : Kind) : Prop where
  keeps : ∀ v a, v.Canonical → f.cell.read v f.cell.zero = .ok a →
    (f.cell.write a = some v ↔ kind.Keeps D v)
  omitted : f.cell.write f.cell.zero = none

theorem ofKind_any (name : String) (get : σ → Option (Json Number))
    (put : Option (Json Number) → σ → σ) :
    OfKind D ⟨name, _, anyCell D.float64, get, put⟩ .any where
  keeps _ _ _ h := anyCell_keeps D.float64 h
  omitted := rfl

theorem ofKind_text (name : String) (get : σ → String) (put : String → σ → σ) :
    OfKind D ⟨name, _, textCell, get, put⟩ .text where
  keeps _ _ _ h := textCell_keeps h
  omitted := rfl

theorem ofKind_texts (name : String) (get : σ → List String) (put : List String → σ → σ) :
    OfKind D ⟨name, _, listCell, get, put⟩ .texts where
  keeps _ _ _ h := listCell_keeps h
  omitted := rfl

theorem ofKind_map (name : String) (get : σ → List (String × String))
    (put : List (String × String) → σ → σ) : OfKind D ⟨name, _, mapCell, get, put⟩ .map where
  keeps _ _ hv h := mapCell_keeps hv h
  omitted := rfl

theorem ofKind_count (name : String) (get : σ → ℕ) (put : ℕ → σ → σ) :
    OfKind D ⟨name, _, countCell uint64 fun k => .int k, get, put⟩ .count where
  keeps _ _ _ h := countCell_keeps int_of_uint64 h
  omitted := rfl

/-- The table of kinds tells how the fields are held, but for the given ones. -/
structure Held (D : Engine) (fields : List (Field Number σ)) (except : List String)
    (kinds : List (String × Kind)) : Prop where
  kind : ∀ f ∈ fields, f.name ∈ except ∨
    ∃ kind, kinds.lookup f.name = some kind ∧ OfKind D f kind
  names : kinds.map Prod.fst ⊆ fields.map Field.name

variable {p : List String}

theorem Held.known {fields : List (Field Number σ)} {except : List String}
    {kinds : List (String × Kind)} (h : Held D fields except kinds) {m : String × Json Number}
    (hm : PlainMember D kinds p m) : ∃ f ∈ fields, f.name = m.1 := by
  obtain ⟨kind, hlookup, -⟩ := hm
  have hmem : m.1 ∈ kinds.map Prod.fst := by
    obtain ⟨before, after, heq, -⟩ := List.lookup_eq_some_iff.mp hlookup
    rw [heq]
    simp
  exact List.mem_map.mp (h.names hmem)

theorem containerFields_held : Held D (containerFields D) [] containerKinds where
  kind := by
    simp only [containerFields, List.forall_mem_cons]
    refine ⟨.inr ⟨_, rfl, ofKind_any ..⟩, .inr ⟨_, rfl, ofKind_any ..⟩,
      .inr ⟨_, rfl, ofKind_any ..⟩, .inr ⟨_, rfl, ofKind_any ..⟩, .inr ⟨_, rfl, ofKind_texts ..⟩,
      .inr ⟨_, rfl, ofKind_any ..⟩, .inr ⟨_, rfl, ofKind_text ..⟩, .inr ⟨_, rfl, ofKind_map ..⟩,
      .inr ⟨_, rfl, ofKind_any ..⟩, .inr ⟨_, rfl, ofKind_any ..⟩, .inr ⟨_, rfl, ofKind_any ..⟩,
      .inr ⟨_, rfl, ofKind_any ..⟩, ?_⟩
    grind
  names := fun _ h => h

theorem taskFields_held : Held D (taskFields D) ["ContainerSpec"] taskKinds where
  kind := by
    simp only [taskFields, List.forall_mem_cons]
    refine ⟨.inl (List.mem_singleton.mpr rfl), .inr ⟨_, rfl, ofKind_count ..⟩,
      .inr ⟨_, rfl, ofKind_any ..⟩, .inr ⟨_, rfl, ofKind_any ..⟩, .inr ⟨_, rfl, ofKind_any ..⟩,
      .inr ⟨_, rfl, ofKind_any ..⟩, ?_⟩
    grind
  names := fun _ h => List.mem_cons_of_mem _ h

theorem specFields_held : Held D (specFields D) ["TaskTemplate"] specKinds where
  kind := by
    simp only [specFields, List.forall_mem_cons]
    refine ⟨.inr ⟨_, rfl, ofKind_any ..⟩, .inr ⟨_, rfl, ofKind_map ..⟩,
      .inr ⟨_, rfl, ofKind_any ..⟩, .inr ⟨_, rfl, ofKind_text ..⟩,
      .inl (List.mem_singleton.mpr rfl), .inr ⟨_, rfl, ofKind_any ..⟩, ?_⟩
    grind
  names := by
    simp only [specFields, taskField, List.map_cons, List.map_nil, specKinds]
    decide

section Members

variable {f : Field Number σ} {kind : Kind} {p : List String} {s s' : σ}

theorem member_keeps (hkind : OfKind D f kind) {kinds : List (String × Kind)}
    (hlookup : kinds.lookup f.name = some kind) (hp : p.head? = some f.name → p = [f.name])
    (hsame : p ≠ [f.name] → f.get s' = f.get s) {w : Json Number} (hw : w.Canonical)
    (hread : f.cell.read w f.cell.zero = .ok (f.get s)) :
    (f.cell.write (f.get s')).bind (pruneAt p f.name) = pruneAt p f.name w ↔
      PlainMember D kinds p (f.name, w) := by
  by_cases hend : p = [f.name]
  · have hnone : pruneAt (ν := Number) p f.name = fun _ => none := funext (pruneAt_end hend)
    rw [hnone, Option.bind_fun_none]
    exact iff_of_true rfl ⟨kind, hlookup, Or.inl hend⟩
  · have hsome : pruneAt (ν := Number) p f.name = some :=
      funext (pruneAt_of_ne fun h => hend (hp h))
    rw [hsome, Option.bind_fun_some, hsame hend, hkind.keeps w _ hw hread]
    constructor
    · intro h
      exact ⟨kind, hlookup, Or.inr h⟩
    · rintro ⟨kind', hlookup', hor⟩
      grind

theorem member_omitted (hkind : OfKind D f kind)
    (hsame : p ≠ [f.name] → f.get s' = f.get s) (hzero : f.get s = f.cell.zero) :
    (f.cell.write (f.get s')).bind (pruneAt p f.name) = none := by
  by_cases hend : p = [f.name]
  · have hnone : pruneAt (ν := Number) p f.name = fun _ => none := funext (pruneAt_end hend)
    simp_all
  · rw [hsame hend, hzero, hkind.omitted, Option.bind_none]

end Members

section Levels

variable {fields : List (Field Number σ)} {kinds : List (String × Kind)} {p : List String}
  {s s' : σ} {v : Json Number}

theorem record_iff (hlaw : Lawful fields zero) (hheld : Held D fields [] kinds)
    (hp : ∀ k ∈ p.head?, p = [k] ∧ ∃ f ∈ fields, f.name = k) (hv : v.Canonical)
    (hread : readObject D.toReader fields zero v = .ok s)
    (hsame : ∀ f ∈ fields, p ≠ [f.name] → f.get s' = f.get s) :
    eraseAt p (.obj (writeMembers fields s')) = eraseAt p v ↔
      ∃ ms, v = .obj ms ∧ ∀ m ∈ ms, PlainMember D kinds p m := by
  have hkind (f : Field Number σ) (hf : f ∈ fields) :
      ∃ kind, kinds.lookup f.name = some kind ∧ OfKind D f kind :=
    (hheld.kind f hf).resolve_left List.not_mem_nil
  rw [eraseAt_record_iff hlaw (fun k hk => (hp k hk).2) hv hread
    (fun k w => PlainMember D kinds p (k, w)) (fun _ => False)]
  · constructor
    · grind
    · rintro ⟨ms, rfl, hkept⟩
      exact ⟨ms, rfl, fun m hm => ⟨hheld.known (hkept m hm), hkept m hm⟩,
        fun _ _ h => h.elim⟩
  · grind [member_keeps]
  · intro f hf hzero
    obtain ⟨kind, -, hof⟩ := hkind f hf
    exact iff_of_true (member_omitted hof (hsame f hf) hzero) id

theorem nested_iff (hlaw : Lawful fields zero) {g : Field Number σ} (hg : g ∈ fields)
    (hheld : Held D fields [g.name] kinds)
    (hp : ∀ k ∈ p.head?, (k ≠ g.name → p = [k]) ∧ ∃ f ∈ fields, f.name = k) (hend : p ≠ [g.name])
    (hv : v.Canonical) (hread : readObject D.toReader fields zero v = .ok s)
    (hsame : ∀ f ∈ fields, f.name ≠ g.name → p ≠ [f.name] → f.get s' = f.get s)
    {inner : Json Number} (hinner : g.cell.write (g.get s') = some inner)
    {Inner : Json Number → Prop}
    (hiff : ∀ w, w.Canonical → g.cell.read w g.cell.zero = .ok (g.get s) →
      (eraseAt (below g.name p) inner = eraseAt (below g.name p) w ↔ Inner w)) :
    eraseAt p (.obj (writeMembers fields s')) = eraseAt p v ↔
      ∃ ms, v = .obj ms ∧ (∃ c, (g.name, c) ∈ ms ∧ Inner c) ∧
        ∀ m ∈ ms, m.1 = g.name ∨ PlainMember D kinds p m := by
  have hkind (f : Field Number σ) (hf : f ∈ fields) (hne : f.name ≠ g.name) :
      ∃ kind, kinds.lookup f.name = some kind ∧ OfKind D f kind :=
    (hheld.kind f hf).resolve_left fun h => hne (List.mem_singleton.mp h)
  rw [eraseAt_record_iff hlaw (fun k hk => (hp k hk).2) hv hread
    (fun k w => (k = g.name → Inner w) ∧ (k ≠ g.name → PlainMember D kinds p (k, w)))
    (fun k => k = g.name)]
  · constructor
    · grind
    · rintro ⟨ms, rfl, ⟨c, hc, hinner⟩, hkept⟩
      rw [Json.Canonical] at hv
      have hnodup := keys_nodup (List.pairwise_map.mpr hv.1)
      refine ⟨ms, rfl, ?_, ?_⟩
      · intro m hm
        refine ⟨?_, ?_, ?_⟩
        · rcases hkept m hm with hname | hplain
          · grind
          · exact hheld.known hplain
        · grind [List.inj_on_of_nodup_map]
        · grind
      · grind
  · intro f hf w hw hr
    by_cases hname : f.name = g.name
    · grind [eq_of_name_eq, pruneAt_below]
    · grind [member_keeps]
  · intro f hf hzero
    by_cases hname : f.name = g.name
    · grind [eq_of_name_eq, pruneAt_below]
    · obtain ⟨kind, -, hof⟩ := hkind f hf hname
      exact iff_of_true (member_omitted hof (hsame f hf hname) hzero) hname

end Levels

variable {v : Json Number}

theorem container_iff (hp : p = [] ∨ p = ["Env"]) (hv : v.Canonical) {s s' : ContainerSpec}
    (hread : readObject D.toReader (containerFields D) .zero v = .ok s)
    (hsame : ∀ f ∈ containerFields D, p ≠ [f.name] → f.get s' = f.get s) :
    eraseAt p (.obj (writeMembers (containerFields D) s')) = eraseAt p v ↔
      PlainContainer D p v := by
  apply record_iff (containerFields_lawful D) containerFields_held _ hv hread hsame
  rcases hp with rfl | rfl
  · intro k hk
    cases hk
  · intro k hk
    obtain rfl := Option.some.inj hk
    exact ⟨rfl, by simp [containerFields]⟩

theorem task_iff (hp : p = ["ForceUpdate"] ∨ p = ["ContainerSpec", "Env"]) (hv : v.Canonical)
    {s s' : TaskSpec} (hread : readObject D.toReader (taskFields D) .zero v = .ok s)
    (hsame : ∀ f ∈ taskFields D, f.name ≠ "ContainerSpec" → p ≠ [f.name] → f.get s' = f.get s)
    (hcontainer : ∀ f ∈ containerFields D, below "ContainerSpec" p ≠ [f.name] →
      f.get s'.containerSpec = f.get s.containerSpec) :
    eraseAt p (.obj (writeMembers (taskFields D) s')) = eraseAt p v ↔ PlainTask D p v := by
  have hhead : ∀ k ∈ p.head?, (k ≠ "ContainerSpec" → p = [k]) ∧ ∃ f ∈ taskFields D, f.name = k := by
    rcases hp with rfl | rfl
    · intro k hk
      obtain rfl := Option.some.inj hk
      exact ⟨fun _ => rfl, forceUpdateField, by simp [taskFields], rfl⟩
    · intro k hk
      obtain rfl := Option.some.inj hk
      exact ⟨fun h => absurd rfl h, containerField D, by simp [taskFields], rfl⟩
  have hend : p ≠ ["ContainerSpec"] := by
    rcases hp with rfl | rfl
    · decide
    · decide
  apply nested_iff (taskFields_lawful D) (g := containerField D) List.mem_cons_self taskFields_held
    hhead hend hv hread hsame rfl
  intro w hw hr
  apply container_iff _ hw hr hcontainer
  rcases hp with rfl | rfl
  · exact Or.inl rfl
  · exact Or.inr rfl

theorem taskField_mem : taskField D ∈ specFields D := by simp [specFields]

theorem spec_iff (hp : p = ["ForceUpdate"] ∨ p = ["ContainerSpec", "Env"]) (hv : v.Canonical)
    {s : ServiceSpec} {task : TaskSpec}
    (hread : readObject D.toReader (specFields D) .zero v = .ok s)
    (hsame : ∀ f ∈ taskFields D, f.name ≠ "ContainerSpec" → p ≠ [f.name] →
      f.get task = f.get s.taskTemplate)
    (hcontainer : ∀ f ∈ containerFields D, below "ContainerSpec" p ≠ [f.name] →
      f.get task.containerSpec = f.get s.taskTemplate.containerSpec) :
    eraseAt ("TaskTemplate" :: p)
        (.obj (writeMembers (specFields D) { s with taskTemplate := task })) =
      eraseAt ("TaskTemplate" :: p) v ↔ PlainSpec D ("TaskTemplate" :: p) v := by
  have hhead : ∀ k ∈ ("TaskTemplate" :: p).head?, (k ≠ "TaskTemplate" → "TaskTemplate" :: p = [k]) ∧
      ∃ f ∈ specFields D, f.name = k := by
    intro k hk
    obtain rfl := Option.some.inj hk
    exact ⟨fun h => absurd rfl h, taskField D, taskField_mem, rfl⟩
  have hend : "TaskTemplate" :: p ≠ ["TaskTemplate"] := by
    rcases hp with rfl | rfl
    · decide
    · decide
  have hother : ∀ f ∈ specFields D, f.name ≠ "TaskTemplate" → "TaskTemplate" :: p ≠ [f.name] →
      f.get { s with taskTemplate := task } = f.get s := by
    simp [specFields, taskField]
  apply nested_iff (specFields_lawful D) (g := taskField D) taskField_mem specFields_held hhead hend
    hv hread hother rfl
  intro w hw hr
  have hbelow : below "TaskTemplate" ("TaskTemplate" :: p) = p := by
    rw [below, if_pos rfl]
  change eraseAt (below "TaskTemplate" _) _ = eraseAt (below "TaskTemplate" _) w ↔ PlainTask D _ w
  rw [hbelow]
  exact task_iff hp hw hr hsame hcontainer

end RoundTrip

section Posted

/-- `TaskTemplate.ForceUpdate` of a spec; without one it is zero. -/
def forceUpdate (spec : Json Number) : ℕ :=
  match memberAt ["TaskTemplate", "ForceUpdate"] spec with
  | some (.num n) => (uint64 n).getD 0
  | _ => 0

theorem forceUpdate_posted {s : ServiceSpec} (h : s.taskTemplate.forceUpdate < 2^64) :
    forceUpdate (.obj (writeMembers (specFields D) s)) = s.taskTemplate.forceUpdate := by
  have htask : lookup "TaskTemplate" (writeMembers (specFields D) s) =
      some (.obj (writeMembers (taskFields D) s.taskTemplate)) :=
    lookup_writeMembers (specFields_lawful D) s (f := taskField D) taskField_mem
  have hcount : lookup "ForceUpdate" (writeMembers (taskFields D) s.taskTemplate) =
      (countCell uint64 fun k => Number.int k).write s.taskTemplate.forceUpdate :=
    lookup_writeMembers (taskFields_lawful D) s.taskTemplate (f := forceUpdateField)
      (by simp [taskFields])
  rw [forceUpdate, memberAt, htask, Option.bind_some, memberAt, hcount, countCell]
  grind [memberAt, uint64_int]

variable {D}

theorem forceUpdate_read {p : List String} {v : Json Number} (hv : v.Canonical) {s : ServiceSpec}
    (hread : readObject D.toReader (specFields D) .zero v = .ok s) (hplain : PlainSpec D p v) :
    forceUpdate v = s.taskTemplate.forceUpdate := by
  obtain ⟨ms, rfl, ⟨t, ht, ts, rfl, -, hts⟩, hms⟩ := hplain
  rw [Json.Canonical] at hv
  have hnodup := keys_nodup (List.pairwise_map.mpr hv.1)
  have hcanon := canonical_of_mem hv.2 ht
  have hknown : ∀ m ∈ ms, ∃ f ∈ specFields D, f.name = m.1 := by
    intro m hm
    rcases hms m hm with hname | hm
    · exact ⟨taskField D, taskField_mem, hname.symm⟩
    · exact specFields_held.known hm
  have htask : lookup "TaskTemplate" ms = some (.obj ts) := (lookup_eq_some _ _ hnodup).mpr ht
  have hrt : readObject D.toReader (taskFields D) .zero (.obj ts) = .ok s.taskTemplate := by
    rcases readObject_get (specFields_lawful D) hnodup hread hknown (taskField D) taskField_mem with
      ⟨hnone, -⟩ | ⟨w, hw, hr⟩
    · rw [show (taskField D).name = "TaskTemplate" from rfl, htask] at hnone
      cases hnone
    · rw [show (taskField D).name = "TaskTemplate" from rfl, htask] at hw
      obtain rfl := Option.some.inj hw
      exact hr
  rw [Json.Canonical] at hcanon
  have hnodup' := keys_nodup (List.pairwise_map.mpr hcanon.1)
  have hknown' : ∀ m ∈ ts, ∃ f ∈ taskFields D, f.name = m.1 := by
    intro m hm
    rcases hts m hm with hname | hm
    · exact ⟨containerField D, List.mem_cons_self, hname.symm⟩
    · exact taskFields_held.known hm
  rw [forceUpdate, memberAt, htask, Option.bind_some, memberAt]
  rcases readObject_get (taskFields_lawful D) hnodup' hrt hknown' forceUpdateField
    (by simp [taskFields]) with ⟨hnone, hzero⟩ | ⟨w, hw, hr⟩
  · rw [show lookup "ForceUpdate" ts = none from hnone]
    exact hzero.symm
  · rw [show lookup "ForceUpdate" ts = some w from hw]
    replace hr : (countCell uint64 fun k => Number.int k).read w 0 =
      .ok s.taskTemplate.forceUpdate := hr
    cases w with
    | num n => grind [countCell, memberAt]
    | null => exact Except.ok.inj hr
    | bool | str | arr | obj => cases hr

def Returned (D : Engine) (doc spec : Json Number) : Prop :=
  ∃ ms, doc = .obj ms ∧ ms.filter (fun m => D.fold m.1 = D.fold "Spec") = [("Spec", spec)]

variable {doc spec : Json Number}

theorem Returned.canonical (h : Returned D doc spec) (hdoc : doc.Canonical) : spec.Canonical := by
  obtain ⟨ms, rfl, honly⟩ := h
  rw [Json.Canonical] at hdoc
  have hmem : ("Spec", spec) ∈ ms.filter (fun m => D.fold m.1 = D.fold "Spec") := by
    rw [honly]
    exact List.mem_singleton.mpr rfl
  exact canonical_of_mem hdoc.2 (List.mem_filter.mp hmem).1

theorem Returned.read (h : Returned D doc spec) {svc : Service}
    (hsvc : serviceInspect D doc = .ok svc) :
    readObject D.toReader (specFields D) .zero spec = .ok svc.spec := by
  obtain ⟨ms, rfl, honly⟩ := h
  have hmem : specField D ∈ serviceFields D := by simp [serviceFields]
  exact readObject_only (serviceFields_lawful D) hsvc hmem honly

theorem restart_iff (hdoc : doc.Canonical) (hspec : Returned D doc spec) {u : Update}
    (hu : restartService D doc = .ok u) :
    eraseAt ["TaskTemplate", "ForceUpdate"] u.body = eraseAt ["TaskTemplate", "ForceUpdate"] spec ∧
        forceUpdate u.body = forceUpdate spec + 1 ↔
      PlainSpec D ["TaskTemplate", "ForceUpdate"] spec ∧ forceUpdate spec + 1 < 2^64 := by
  rw [restartService] at hu
  cases hsvc : serviceInspect D doc with
  | error e => grind
  | ok svc =>
    rw [hsvc] at hu
    obtain rfl := Except.ok.inj hu
    have hcanon := hspec.canonical hdoc
    have hread := hspec.read hsvc
    have hsame : ∀ f ∈ taskFields D, f.name ≠ "ContainerSpec" → ["ForceUpdate"] ≠ [f.name] →
        f.get svc.spec.taskTemplate.bump = f.get svc.spec.taskTemplate := by
      simp [taskFields, containerField, forceUpdateField, TaskSpec.bump]
    have hiff := spec_iff (Or.inl rfl) hcanon hread hsame (fun _ _ _ => rfl)
    have hposted : forceUpdate (serviceUpdate D (svc.setTask svc.spec.taskTemplate.bump)).body =
        (svc.spec.taskTemplate.forceUpdate + 1) % 2^64 :=
      forceUpdate_posted D (Nat.mod_lt _ (by positivity))
    have hbody : (serviceUpdate D (svc.setTask svc.spec.taskTemplate.bump)).body =
        .obj (writeMembers (specFields D)
          { svc.spec with taskTemplate := svc.spec.taskTemplate.bump }) := rfl
    rw [hposted, hbody, hiff]
    refine and_congr_right ?_
    grind [forceUpdate_read]

theorem updateEnv_iff (hdoc : doc.Canonical) (hspec : Returned D doc spec)
    {env : List (String × String)} {u : Update} (hu : updateServiceEnv D doc env = .ok u) :
    eraseAt ["TaskTemplate", "ContainerSpec", "Env"] u.body =
        eraseAt ["TaskTemplate", "ContainerSpec", "Env"] spec ↔
      PlainSpec D ["TaskTemplate", "ContainerSpec", "Env"] spec := by
  rw [updateServiceEnv] at hu
  cases hsvc : serviceInspect D doc with
  | error e => grind
  | ok svc =>
    rw [hsvc] at hu
    obtain rfl := Except.ok.inj hu
    have hread := hspec.read hsvc
    apply spec_iff (Or.inr rfl) (hspec.canonical hdoc) hread
    · simp [taskFields, containerField, forceUpdateField, TaskSpec.setEnv]
    · simp [containerFields, TaskSpec.setEnv, below]

end Posted

/-- The two operations post the spec of the engine, up to what they change, exactly if it
has nothing but what the structs hold. -/
theorem service_round_trip (doc spec : Json Number) (hdoc : doc.Canonical)
    (hspec : Returned D doc spec) :
    (∀ u, restartService D doc = .ok u →
      (eraseAt ["TaskTemplate", "ForceUpdate"] u.body =
          eraseAt ["TaskTemplate", "ForceUpdate"] spec ∧
        forceUpdate u.body = forceUpdate spec + 1 ↔
      PlainSpec D ["TaskTemplate", "ForceUpdate"] spec ∧ forceUpdate spec + 1 < 2^64)) ∧
    ∀ env u, updateServiceEnv D doc env = .ok u →
      (eraseAt ["TaskTemplate", "ContainerSpec", "Env"] u.body =
          eraseAt ["TaskTemplate", "ContainerSpec", "Env"] spec ↔
        PlainSpec D ["TaskTemplate", "ContainerSpec", "Env"] spec) :=
  ⟨fun _ hu => restart_iff hdoc hspec hu, fun _ _ hu => updateEnv_iff hdoc hspec hu⟩

section Instances

def plainEngine : Engine where
  fold := id
  order := id
  order_perm _ := .refl _
  float64 := some

def serviceDocument (spec : Json Number) : Json Number :=
  .obj [("ID", .str "s1"), ("Spec", spec), ("Version", .obj [("Index", .num (.int 7))])]

def taskDocument (count : ℤ) : Json Number :=
  .obj [("ContainerSpec", .obj [("Image", .str "presto")]), ("ForceUpdate", .num (.int count))]

def specDocument (count : ℤ) : Json Number :=
  .obj [("Name", .str "worker"), ("TaskTemplate", taskDocument count)]

def rollbackDocument : Json Number :=
  .obj [("Name", .str "worker"), ("RollbackConfig", .obj [("Parallelism", .num (.int 1))]),
    ("TaskTemplate", taskDocument 2)]

theorem serviceDocument_returned (spec : Json Number) :
    Returned plainEngine (serviceDocument spec) spec := ⟨_, rfl, rfl⟩

theorem taskDocument_canonical (count : ℤ) : (taskDocument count).Canonical := by
  simp only [taskDocument, Json.Canonical, Json.CanonicalMembers, and_true]
  exact ⟨List.pairwise_map.mp (show ["ContainerSpec", "ForceUpdate"].Pairwise keyLt by decide),
    List.pairwise_singleton _ _⟩

theorem serviceDocument_canonical {spec : Json Number} (h : spec.Canonical) :
    (serviceDocument spec).Canonical := by
  simp only [serviceDocument, Json.Canonical, Json.CanonicalMembers, and_true, true_and]
  exact ⟨List.pairwise_map.mp (show ["ID", "Spec", "Version"].Pairwise keyLt by decide), h,
    List.pairwise_singleton _ _⟩

theorem specDocument_canonical (count : ℤ) : (specDocument count).Canonical := by
  simp only [specDocument, Json.Canonical, Json.CanonicalMembers, and_true, true_and]
  exact ⟨List.pairwise_map.mp (show ["Name", "TaskTemplate"].Pairwise keyLt by decide),
    taskDocument_canonical count⟩

theorem rollbackDocument_canonical : rollbackDocument.Canonical := by
  simp only [rollbackDocument, Json.Canonical, Json.CanonicalMembers, and_true, true_and]
  exact ⟨List.pairwise_map.mp
      (show ["Name", "RollbackConfig", "TaskTemplate"].Pairwise keyLt by decide),
    List.pairwise_singleton _ _, taskDocument_canonical 2⟩

end Instances

/-- A service without unknown members, restarted and updated. -/
theorem service_round_trip_plain :
    (∃ u, restartService plainEngine (serviceDocument (specDocument 2)) = .ok u ∧
      eraseAt ["TaskTemplate", "ForceUpdate"] u.body =
        eraseAt ["TaskTemplate", "ForceUpdate"] (specDocument 2) ∧ forceUpdate u.body = 3) ∧
    ∃ u, updateServiceEnv plainEngine (serviceDocument (specDocument 2)) [("A", "1")] = .ok u ∧
      eraseAt ["TaskTemplate", "ContainerSpec", "Env"] u.body =
        eraseAt ["TaskTemplate", "ContainerSpec", "Env"] (specDocument 2) := by
  have hplain (p : List String) (hp : p = ["ForceUpdate"] ∨ p = ["ContainerSpec", "Env"]) :
      PlainSpec plainEngine ("TaskTemplate" :: p) (specDocument 2) := by
    have hbelow : below "TaskTemplate" ("TaskTemplate" :: p) = p := by
      rw [below, if_pos rfl]
    refine ⟨_, rfl, ⟨_, List.mem_cons_of_mem _ List.mem_cons_self, ?_⟩, ?_⟩
    · rw [hbelow]
      refine ⟨_, rfl, ⟨_, List.mem_cons_self, _, rfl, ?_⟩, ?_⟩
      · rw [List.forall_mem_singleton]
        exact ⟨.text, rfl, Or.inr ⟨"presto", by decide, rfl⟩⟩
      · rw [List.forall_mem_cons, List.forall_mem_singleton]
        exact ⟨Or.inl rfl, Or.inr ⟨.count, rfl, Or.inr ⟨_, 2, rfl, rfl, by decide⟩⟩⟩
    · rw [List.forall_mem_cons, List.forall_mem_singleton]
      exact ⟨Or.inr ⟨.text, rfl, Or.inr ⟨"worker", by decide, rfl⟩⟩, Or.inl rfl⟩
  have htrip := service_round_trip plainEngine (serviceDocument (specDocument 2)) (specDocument 2)
    (serviceDocument_canonical (specDocument_canonical 2)) (serviceDocument_returned _)
  have hcount : forceUpdate (specDocument 2) + 1 < 2^64 := by decide
  refine ⟨⟨_, rfl, ?_⟩, ⟨_, rfl, ?_⟩⟩
  · exact (htrip.1 _ rfl).mpr ⟨hplain _ (Or.inl rfl), hcount⟩
  · exact (htrip.2 _ _ rfl).mpr (hplain _ (Or.inr rfl))

/-- The rollback settings of a service are not posted back, by either operation. -/
theorem rollback_config_dropped :
    (serviceDocument rollbackDocument).Canonical ∧
    Returned plainEngine (serviceDocument rollbackDocument) rollbackDocument ∧
    (∃ u, restartService plainEngine (serviceDocument rollbackDocument) = .ok u ∧
      memberAt ["RollbackConfig"] u.body = none ∧
      eraseAt ["TaskTemplate", "ForceUpdate"] u.body ≠
        eraseAt ["TaskTemplate", "ForceUpdate"] rollbackDocument) ∧
    ∃ u, updateServiceEnv plainEngine (serviceDocument rollbackDocument) [("A", "1")] = .ok u ∧
      memberAt ["RollbackConfig"] u.body = none ∧
      eraseAt ["TaskTemplate", "ContainerSpec", "Env"] u.body ≠
        eraseAt ["TaskTemplate", "ContainerSpec", "Env"] rollbackDocument := by
  refine ⟨serviceDocument_canonical rollbackDocument_canonical, serviceDocument_returned _,
    ⟨_, rfl, rfl, ?_⟩, ⟨_, rfl, rfl, ?_⟩⟩
  · intro h
    have hmember := congrArg (memberAt ["RollbackConfig"]) h
    cases hmember
  · intro h
    have hmember := congrArg (memberAt ["RollbackConfig"]) h
    cases hmember

end DbAgent.Swarm
