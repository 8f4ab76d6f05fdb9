import Galaxz.Pulsar.Persistence

/-!
# Memory and store agree

A manifest comes back from its row as it is: its validators leave it alone, and its schemas are JSON. So
as long as the store does not raise, the rows are the rows of the agents in memory, and a registry opened
on them has these agents.
-/

namespace Galaxz

variable {Time : Type} {pydantic : Pydantic Time}

/-! ## Round trip -/

theorem mapM_eq_ok {α β : Type} {f : α → Except PyError β} {g : α → β} {xs : List α}
    (h : ∀ x ∈ xs, f x = .ok (g x)) : xs.mapM f = .ok (xs.map g) := by
  induction xs with
  | nil => rfl
  | cons x xs ih =>
    rw [List.mapM_cons, h x List.mem_cons_self, ih fun y hy => h y (List.mem_cons_of_mem _ hy)]
    rfl

theorem of_mapM_eq_self {α : Type} {f : α → Except PyError α} {xs : List α}
    (h : xs.mapM f = .ok xs) : ∀ x ∈ xs, f x = .ok x := by
  induction xs with
  | nil => exact fun x hx => absurd hx List.not_mem_nil
  | cons x xs ih =>
    rw [List.mapM_cons] at h
    obtain ⟨y, hy, h⟩ := (except_bind_ok_iff _ _ _).mp h
    obtain ⟨ys, hys, h⟩ := (except_bind_ok_iff _ _ _).mp h
    cases h
    intro z hz
    rcases List.mem_cons.mp hz with rfl | hz
    · exact hy
    · exact ih hys z hz

namespace SkillRecord

/-- The JSON of a skill with JSON schemas. -/
def items (s : SkillRecord) : PyDict :=
  [("skill_id", .str s.skillId), ("description", .str s.description),
    ("input_schema", s.inputSchema), ("output_schema", s.outputSchema),
    ("avg_confidence", .float s.avgConfidence), ("avg_latency_ms", .int s.avgLatencyMs),
    ("allowed_origins", (s.allowedOrigins.map fun os => .list (os.map .str)).getD .none)]

theorem modelDump_eq {s : SkillRecord} (hin : s.inputSchema.isJson = true)
    (hout : s.outputSchema.isJson = true) : s.modelDump pydantic = .ok (.dict s.items) := by
  unfold modelDump Pydantic.jsonMode
  rw [if_pos hin, if_pos hout]
  rfl

theorem originsField_items (s : SkillRecord) : originsField s.items = .ok s.allowedOrigins := by
  have hlookup : s.items.lookup "allowed_origins" =
      some ((s.allowedOrigins.map fun os => .list (os.map .str)).getD .none) := by
    simp [items, List.lookup_cons]
  unfold originsField
  rw [hlookup]
  cases s.allowedOrigins with
  | none => rfl
  | some os =>
    have hmap : (os.map PyValue.str).mapM strElement = .ok os := by
      rw [List.mapM_map]
      have hstr : os.mapM (strElement ∘ PyValue.str) = .ok (os.map id) := mapM_eq_ok fun _ _ => rfl
      rw [hstr, List.map_id]
    show (List.mapM strElement (os.map PyValue.str) >>= _) = _
    rw [hmap]
    rfl

/-- A skill comes back from its JSON. -/
theorem modelValidate_items {s : SkillRecord} (hvalid : s.validate = .ok s)
    (hin : ∃ d, s.inputSchema = .dict d) (hout : ∃ d, s.outputSchema = .dict d) :
    modelValidate (.dict s.items) = .ok s := by
  obtain ⟨din, hin⟩ := hin
  obtain ⟨dout, hout⟩ := hout
  have hid : strField s.items "skill_id" = .ok s.skillId := by
    simp [items, strField, requiredField]
    rfl
  have hdescription : strField s.items "description" = .ok s.description := by
    simp [items, strField, requiredField, List.lookup_cons]
    rfl
  have hinput : dictField s.items "input_schema" = .ok s.inputSchema := by
    simp [items, dictField, requiredField, List.lookup_cons, hin]
    rfl
  have houtput : dictField s.items "output_schema" = .ok s.outputSchema := by
    simp [items, dictField, requiredField, List.lookup_cons, hout]
    rfl
  have hconfidence : floatField s.items "avg_confidence" (.finite (1 / 2)) = .ok s.avgConfidence := by
    simp [items, floatField, List.lookup_cons]
  have hlatency : intField s.items "avg_latency_ms" 1000 = .ok s.avgLatencyMs := by
    simp [items, intField, List.lookup_cons]
  simp only [modelValidate, hid, hdescription, hinput, houtput, hconfidence, hlatency,
    originsField_items, bind, Except.bind]
  exact hvalid

end SkillRecord

/-- What `pydantic` is relied on for: it reads the texts it writes. -/
def Pydantic.ReadsBack (pydantic : Pydantic Time) : Prop :=
  ∀ t, pydantic.parseTime (pydantic.timeText t) = .ok t

namespace ManifestRecord

/-- The JSON of a manifest with JSON schemas. -/
def items (pydantic : Pydantic Time) (m : ManifestRecord Time) : PyDict :=
  [("agent_id", .str m.agentId), ("agent_name", .str m.agentName), ("version", .str m.version),
    ("skills", .list (m.skills.map fun s => .dict s.items)), ("health_endpoint", .str m.healthEndpoint),
    ("registered_at", .str (pydantic.timeText m.registeredAt)),
    ("heartbeat_interval_s", .int m.heartbeatIntervalS)]

theorem modelDump_eq {m : ManifestRecord Time} (h : m.Json) :
    m.modelDump pydantic = .ok (m.items pydantic) := by
  have hskills : m.skills.mapM (SkillRecord.modelDump pydantic) =
      .ok (m.skills.map fun s => .dict s.items) :=
    mapM_eq_ok fun s hs => SkillRecord.modelDump_eq (h s hs).1.1 (h s hs).2.1
  unfold modelDump
  rw [hskills]
  rfl

theorem skills_valid {m : ManifestRecord Time} (h : m.validate = .ok m) :
    ∀ s ∈ m.skills, s.validate = .ok s := by
  obtain ⟨agentId, -, h⟩ := (except_bind_ok_iff _ _ _).mp h
  obtain ⟨agentName, -, h⟩ := (except_bind_ok_iff _ _ _).mp h
  obtain ⟨version, -, h⟩ := (except_bind_ok_iff _ _ _).mp h
  obtain ⟨skills, hskills, h⟩ := (except_bind_ok_iff _ _ _).mp h
  obtain ⟨healthEndpoint, -, h⟩ := (except_bind_ok_iff _ _ _).mp h
  split_ifs at h
  have heq : skills = m.skills := congrArg ManifestRecord.skills (Except.ok.inj h)
  rw [heq] at hskills
  exact of_mapM_eq_self hskills

theorem skillsField_items {m : ManifestRecord Time} (hvalid : m.validate = .ok m) (hjson : m.Json) :
    skillsField (m.items pydantic) = .ok m.skills := by
  have hlookup : requiredField (m.items pydantic) "skills" =
      .ok (.list (m.skills.map fun s => .dict s.items)) := by
    simp [items, requiredField, List.lookup_cons]
  have hskills : m.skills.mapM (SkillRecord.modelValidate ∘ fun s => .dict s.items) =
      .ok (m.skills.map id) :=
    mapM_eq_ok fun s hs => SkillRecord.modelValidate_items (skills_valid hvalid s hs) (hjson s hs).1.2
      (hjson s hs).2.2
  unfold skillsField
  rw [hlookup]
  show (m.skills.map fun s => PyValue.dict s.items).mapM SkillRecord.modelValidate = _
  rw [List.mapM_map, hskills, List.map_id]

/-- A manifest comes back from its JSON. -/
theorem modelValidate_items (hpydantic : pydantic.ReadsBack) (now : Time) {m : ManifestRecord Time}
    (hvalid : m.validate = .ok m) (hjson : m.Json) :
    modelValidate pydantic now (m.items pydantic) = .ok m := by
  have hid : strField (m.items pydantic) "agent_id" = .ok m.agentId := by
    simp [items, strField, requiredField]
    rfl
  have hname : strField (m.items pydantic) "agent_name" = .ok m.agentName := by
    simp [items, strField, requiredField, List.lookup_cons]
    rfl
  have hversion : strField (m.items pydantic) "version" = .ok m.version := by
    simp [items, strField, requiredField, List.lookup_cons]
    rfl
  have hendpoint : strField (m.items pydantic) "health_endpoint" = .ok m.healthEndpoint := by
    simp [items, strField, requiredField, List.lookup_cons]
    rfl
  have htime : timeField pydantic now (m.items pydantic) = .ok m.registeredAt := by
    simp [items, timeField, List.lookup_cons, hpydantic m.registeredAt]
  have hheartbeat : intField (m.items pydantic) "heartbeat_interval_s" 30 = .ok m.heartbeatIntervalS := by
    simp [items, intField, List.lookup_cons]
  simp only [modelValidate, hid, hname, hversion, skillsField_items hvalid hjson, hendpoint, htime,
    hheartbeat, bind, Except.bind]
  exact hvalid

end ManifestRecord

/-! ## One call -/

namespace PulsarRegistry

/-- The row of a manifest with JSON schemas. -/
def rowOf (pydantic : Pydantic Time) (m : ManifestRecord Time) : AgentRow :=
  { registryKey := SqliteStore.key m.agentId, agentId := m.agentId, data := m.items pydantic }

/-- The rows are those of the agents in memory, all committed. -/
structure Inv (pydantic : Pydantic Time) (s : RegistryState Time) : Prop where
  valid : ∀ m ∈ s.agents, m.validate = .ok m
  json : ∀ m ∈ s.agents, m.Json
  keys : (s.agents.map (·.agentId)).Nodup
  disk : s.disk = s.agents.map (rowOf pydantic)
  work : s.work = s.disk

/-- The loop of `__init__` adds the agents of the rows to those it has. -/
theorem loadAgents_map (hpydantic : pydantic.ReadsBack) (now : Time) (ms : List (ManifestRecord Time)) :
    ∀ agents : List (ManifestRecord Time), (∀ m ∈ ms, m.validate = .ok m) → (∀ m ∈ ms, m.Json) →
      ((agents ++ ms).map (·.agentId)).Nodup →
      loadAgents pydantic now (ms.map (rowOf pydantic)) agents = .ok (agents ++ ms) := by
  induction ms with
  | nil =>
    intro agents _ _ _
    rw [List.append_nil]
    rfl
  | cons m ms ih =>
    intro agents hvalid hjson hkeys
    have hload : ManifestRecord.modelValidate pydantic now (rowOf pydantic m).data = .ok m :=
      ManifestRecord.modelValidate_items hpydantic now (hvalid m List.mem_cons_self)
        (hjson m List.mem_cons_self)
    have hnew : Keyed.get (·.agentId) m.agentId agents = none := by
      rw [Keyed.get_eq_none_iff]
      intro x hx heq
      rw [List.map_append, List.nodup_append] at hkeys
      exact hkeys.2.2 x.agentId (List.mem_map_of_mem hx) m.agentId (by simp) heq
    rw [List.map_cons, loadAgents, hload]
    show loadAgents pydantic now (ms.map (rowOf pydantic)) (Keyed.put (·.agentId) m agents) = _
    rw [Keyed.put_of_get_eq_none hnew, ih]
    · rw [List.append_assoc]
      rfl
    · exact fun x hx => hvalid x (List.mem_cons_of_mem _ hx)
    · exact fun x hx => hjson x (List.mem_cons_of_mem _ hx)
    · rw [List.append_assoc]
      exact hkeys

variable {s : RegistryState Time}

/-- Where the rows are those of the agents, an opened registry has these agents. -/
theorem Inv.mirrors (hpydantic : pydantic.ReadsBack) (h : Inv pydantic s) : s.Mirrors pydantic := by
  intro now
  unfold opened
  rw [h.disk, loadAgents_map hpydantic now s.agents [] h.valid h.json h.keys]
  rfl

theorem key_injective : Function.Injective SqliteStore.key := by
  intro a b h
  simpa [SqliteStore.key] using h

/-- The statement of `register_agent` sets the row of the manifest. -/
theorem upsert_map (m : ManifestRecord Time) (agents : List (ManifestRecord Time)) :
    SqliteStore.upsert m.agentId (m.items pydantic) (agents.map (rowOf pydantic)) =
      .ok ((Keyed.put (·.agentId) m agents).map (rowOf pydantic)) := by
  have hunique : ¬ ((agents.map (rowOf pydantic)).any fun row =>
      row.agentId = m.agentId && row.registryKey ≠ SqliteStore.key m.agentId) = true := by
    rw [List.any_eq_true]
    rintro ⟨row, hrow, hne⟩
    obtain ⟨x, -, rfl⟩ := List.mem_map.mp hrow
    rw [Bool.and_eq_true, decide_eq_true_iff, decide_eq_true_iff] at hne
    exact hne.2 (congrArg SqliteStore.key hne.1)
  have hput := Keyed.map_put (fun x => SqliteStore.key x.agentId) AgentRow.registryKey (rowOf pydantic)
    (fun _ => rfl) m agents
  rw [Keyed.put_comp key_injective] at hput
  unfold SqliteStore.upsert
  rw [if_neg hunique, hput]
  rfl

/-- The statement of `deregister_agent` removes the row of the agent. -/
theorem delete_map (agentId : String) (agents : List (ManifestRecord Time)) :
    SqliteStore.delete agentId (agents.map (rowOf pydantic)) =
      (Keyed.remove (·.agentId) agentId agents).map (rowOf pydantic) :=
  (Keyed.map_remove (rowOf pydantic) (fun _ => rfl) agentId agents).symm

/-- A statement that leaves the rows as they are changes nothing, however its call ends. -/
theorem Inv.commit_self (h : Inv pydantic s) (outcome : StoreOutcome) :
    commit s.work outcome s = s := by
  have hwork := h.work
  cases s with
  | mk agents work disk =>
    cases hwork
    cases outcome with
    | commitRaised kept => cases kept <;> rfl
    | _ => rfl

/-- `register` keeps memory and store together, if the store does not raise and the schemas are JSON. -/
theorem Inv.register (h : Inv pydantic s) (manifest : Manifest Time) (hjson : manifest.1.Json) :
    Inv pydantic (PulsarRegistry.register pydantic manifest .done s) := by
  have hrows : SqliteStore.upsert manifest.1.agentId (manifest.1.items pydantic) s.work =
      .ok ((Keyed.put (·.agentId) manifest.1 s.agents).map (rowOf pydantic)) := by
    rw [h.work, h.disk]
    exact upsert_map manifest.1 s.agents
  unfold PulsarRegistry.register
  simp only [ManifestRecord.modelDump_eq hjson, hrows]
  refine ⟨?_, ?_, Keyed.nodup_put h.keys, rfl, rfl⟩
  · intro m hm
    rcases Keyed.mem_put hm with rfl | hm
    · exact manifest.2
    · exact h.valid m hm
  · intro m hm
    rcases Keyed.mem_put hm with rfl | hm
    · exact hjson
    · exact h.json m hm

/-- A manifest that is registered already changes nothing, however the call ends. -/
theorem Inv.register_self (h : Inv pydantic s) (manifest : Manifest Time) (outcome : StoreOutcome)
    (hsame : Keyed.get (·.agentId) manifest.1.agentId s.agents = some manifest.1) :
    PulsarRegistry.register pydantic manifest outcome s = s := by
  have hput : Keyed.put (·.agentId) manifest.1 s.agents = s.agents := Keyed.put_eq_self h.keys hsame
  have hjson : manifest.1.Json := h.json _ (Keyed.get_eq_some hsame).1
  have hrows : SqliteStore.upsert manifest.1.agentId (manifest.1.items pydantic) s.work = .ok s.work := by
    rw [h.work, h.disk, upsert_map, hput]
  unfold PulsarRegistry.register
  simp only [hput, ManifestRecord.modelDump_eq hjson, hrows]
  exact h.commit_self outcome

/-- `deregister` keeps memory and store together, if the store does not raise. -/
theorem Inv.deregister (h : Inv pydantic s) (agentId : String) :
    Inv pydantic (PulsarRegistry.deregister agentId .done s) := by
  have hrows : SqliteStore.delete agentId s.work =
      (Keyed.remove (·.agentId) agentId s.agents).map (rowOf pydantic) := by
    rw [h.work, h.disk, delete_map]
  unfold PulsarRegistry.deregister
  rw [hrows]
  refine ⟨?_, ?_, Keyed.nodup_remove h.keys, rfl, rfl⟩
  · exact fun m hm => h.valid m (Keyed.mem_remove.mp hm).1
  · exact fun m hm => h.json m (Keyed.mem_remove.mp hm).1

/-- An agent that is not there is deregistered without a change, however the call ends. -/
theorem Inv.deregister_absent (h : Inv pydantic s) (agentId : String) (outcome : StoreOutcome)
    (habsent : Keyed.get (·.agentId) agentId s.agents = none) :
    PulsarRegistry.deregister agentId outcome s = s := by
  have hremove : Keyed.remove (·.agentId) agentId s.agents = s.agents := Keyed.remove_eq_self habsent
  have hrows : SqliteStore.delete agentId s.work = s.work := by
    rw [h.work, h.disk, delete_map, hremove]
  unfold PulsarRegistry.deregister
  rw [hremove, hrows]
  exact h.commit_self outcome

/-- Opening the registry again changes nothing. -/
theorem Inv.reopen (hpydantic : pydantic.ReadsBack) (h : Inv pydantic s) (now : Time) :
    PulsarRegistry.reopen pydantic now s = s := by
  unfold PulsarRegistry.reopen
  rw [h.mirrors hpydantic now]
  have hwork := h.work
  cases s with
  | mk agents work disk =>
    cases hwork
    rfl

/-- A smooth call keeps memory and store together. -/
theorem Inv.step (hpydantic : pydantic.ReadsBack) (h : Inv pydantic s) (action : RegistryAction Time)
    (hsmooth : action.Smooth s) : Inv pydantic (PulsarRegistry.step pydantic action s) := by
  cases action with
  | register manifest outcome =>
    rcases hsmooth with ⟨rfl, hjson⟩ | hsame
    · exact h.register manifest hjson
    · show Inv pydantic (PulsarRegistry.register pydantic manifest outcome s)
      rw [h.register_self manifest outcome hsame]
      exact h
  | deregister agentId outcome =>
    rcases hsmooth with rfl | habsent
    · exact h.deregister agentId
    · show Inv pydantic (PulsarRegistry.deregister agentId outcome s)
      rw [h.deregister_absent agentId outcome habsent]
      exact h
  | reopen now =>
    show Inv pydantic (PulsarRegistry.reopen pydantic now s)
    rw [h.reopen hpydantic now]
    exact h

theorem Inv.empty : Inv pydantic {} where
  valid := fun _ hm => absurd hm List.not_mem_nil
  json := fun _ hm => absurd hm List.not_mem_nil
  keys := List.nodup_nil
  disk := rfl
  work := rfl

/-! ## Runs -/

/-- In every run of smooth calls, memory and store agree before each call and at the end. -/
theorem run_mirrors (pydantic : Pydantic Time) (hpydantic : pydantic.ReadsBack)
    (actions : List (RegistryAction Time))
    (h : Machine.Along (step pydantic) RegistryAction.Smooth actions {}) :
    Machine.Along (step pydantic) (fun _ s => s.Mirrors pydantic) actions {} ∧
      (Machine.run (step pydantic) actions {}).Mirrors pydantic := by
  have hstep : ∀ action s, Inv pydantic s → RegistryAction.Smooth action s →
      Inv pydantic (step pydantic action s) :=
    fun action s hs hsmooth => hs.step hpydantic action hsmooth
  obtain ⟨halong, hend⟩ := Machine.Along.invariant hstep Inv.empty h
  exact ⟨halong.mono fun _ s hs => hs.mirrors hpydantic, hend.mirrors hpydantic⟩

/-- The one time of the runs below, as `pydantic` writes it. -/
def demoPydantic : Pydantic Unit where
  convert _ := .error (.valueError "Unable to serialize unknown type")
  timeText _ := "2026-01-05T09:00:00Z"
  parseTime s :=
    if s = "2026-01-05T09:00:00Z" then .ok ()
    else .error (.valueError "registered_at: Input should be a valid datetime")

theorem demoPydantic_readsBack : demoPydantic.ReadsBack := fun _ => rfl

/-- The manifest of an agent with one skill. -/
def demoManifest : Manifest Unit where
  val :=
    { agentId := "vega", agentName := "Vega", version := "1.0", healthEndpoint := "/health",
      registeredAt := (),
      skills := [{ skillId := "report", description := "Write a report", outputSchema := .dict [],
                   inputSchema := .dict [("type", .str "object")] }] }
  property := by decide +kernel

theorem demoRun_mirrors :
    Machine.Along (step demoPydantic) (fun _ s => s.Mirrors demoPydantic)
        [.register demoManifest .done, .reopen (), .register demoManifest .executeRaised,
          .deregister "vega" .done] {} ∧
      (Machine.run (step demoPydantic) [.register demoManifest .done, .reopen (),
        .register demoManifest .executeRaised, .deregister "vega" .done] {}).Mirrors demoPydantic := by
  refine run_mirrors demoPydantic demoPydantic_readsBack _ ⟨Or.inl ⟨rfl, ?_⟩, trivial, Or.inr ?_, Or.inl rfl, trivial⟩
  · intro s hs
    cases List.mem_singleton.mp hs
    exact ⟨⟨rfl, _, rfl⟩, rfl, _, rfl⟩
  · decide +kernel

/-- A manifest that the store did not take is served until the process ends. -/
theorem lockedRegister_not_mirrors :
    (step demoPydantic (.register demoManifest .executeRaised) {}).agents = [demoManifest.1] ∧
      opened demoPydantic () (step demoPydantic (.register demoManifest .executeRaised) {}).disk = .ok [] ∧
      ¬ (step demoPydantic (.register demoManifest .executeRaised) {}).Mirrors demoPydantic := by
  refine ⟨rfl, rfl, fun h => ?_⟩
  have hopened : Except.ok [] = Except.ok [demoManifest.1] := h ()
  cases hopened

end PulsarRegistry

end Galaxz
