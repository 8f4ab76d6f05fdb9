import Galaxz.Quasar.Agent
import Galaxz.Quasar.Proofs.ClientProofs
import Mathlib.Algebra.Order.Archimedean.Basic

/-!
# When Quasar starts

The constructor ends exactly when every server refuses or lists tools that fit, and then it skips only those
that refused. The main result says for the three levels of the client, one request, the pages of a server and
the start of the agent, which output of a server they tolerate.
-/

namespace Galaxz

open Fuel McpStdioClient

namespace QuasarAgent

variable {Time : Type} {text : McpText} {srv : McpServer}

/-! ## One tool -/

theorem toolName_ok_iff {tool name : PyValue} :
    toolName tool = .ok name ↔ ∃ items, tool = .dict items ∧ items.lookup "name" = some name := by
  constructor
  · intro h
    cases tool with
    | dict items =>
      unfold toolName at h
      dsimp only at h
      cases hname : items.lookup "name" with
      | none =>
        rw [hname] at h
        cases h
      | some found =>
        rw [hname] at h
        cases h
        exact ⟨items, rfl, hname⟩
    | _ => cases h
  · rintro ⟨items, rfl, hname⟩
    unfold toolName
    dsimp only
    rw [hname]

theorem formatted_ok_iff {value : PyValue} {s : String} : formatted text value = .ok s ↔ text.str value = some s := by
  unfold formatted
  cases text.str value with
  | none => simp
  | some shown => simp

theorem strip_skillIdOf (server shown : String) : strip (skillIdOf server shown) ≠ "" := by
  have hhead : (skillIdOf server shown).toList.head? = some 'q' := by
    unfold skillIdOf
    rw [String.toList_append, String.toList_append, String.toList_append]
    rfl
  exact strip_ne_empty hhead (by decide)

/-- The id, the description and the schema of a definition that passes. -/
theorem toolDefinition_ok_iff {server shown : String} {description inputSchema : PyValue} {d : SkillRecord} :
    toolDefinition text srv (skillIdOf server shown) description inputSchema = .ok d ↔
      ∃ words schema, description = .str words ∧ inputSchema = .dict schema ∧
        text.isUnicode (skillIdOf server shown) = true ∧ text.isUnicode words = true ∧ strip words ≠ "" ∧
        d = { skillId := strip (skillIdOf server shown), description := strip words,
              inputSchema := .dict schema, outputSchema := .dict [], avgConfidence := .finite (9 / 10),
              allowedOrigins := srv.allowedOrigins } := by
  have hid := strip_skillIdOf server shown
  constructor
  · intro h
    cases description with
    | str words =>
      cases inputSchema with
      | dict schema =>
        unfold toolDefinition at h
        dsimp only at h
        split_ifs at h with hunicode
        unfold SkillRecord.validate validateNonEmpty at h
        obtain ⟨skillId, hskill, h⟩ := (except_bind_ok_iff _ _ _).mp h
        obtain ⟨-, hskill⟩ := except_guard_ok_iff.mp hskill
        obtain ⟨words', hwords, h⟩ := (except_bind_ok_iff _ _ _).mp h
        obtain ⟨hne, hwords⟩ := except_guard_ok_iff.mp hwords
        cases hskill
        cases hwords
        split_ifs at h
        cases h
        exact ⟨words, schema, rfl, rfl, hunicode.1, hunicode.2, hne, rfl⟩
      | _ => cases h
    | _ => cases h
  · rintro ⟨words, schema, rfl, rfl, hskill, hwords, hne, rfl⟩
    unfold toolDefinition
    dsimp only
    rw [if_pos ⟨hskill, hwords⟩]
    have hconfidence : ((PyFloat.finite (9 / 10)).le (.finite 1) &&
        PyFloat.le (.finite 0) (.finite (9 / 10))) = true := by decide +kernel
    unfold SkillRecord.validate validateNonEmpty
    rw [if_neg hid, if_neg hne]
    exact (if_pos hconfidence).trans (if_pos (show (0 : ℤ) ≤ 1000 by decide))

/-- The definition that is made for a tool. -/
def DefinedAs (text : McpText) (srv : McpServer) (tool : PyValue) (d : SkillRecord) : Prop :=
  ∃ name shown, toolName tool = .ok name ∧ text.str name = some shown ∧
    toolDefinition text srv (skillIdOf srv.name shown)
      ((PyDict.get (toolItems tool) "description").orElse name)
      ((PyDict.get (toolItems tool) "inputSchema").orElse (.dict [])) = .ok d

theorem toolFits_iff {tool : PyValue} :
    ToolFits text srv tool ↔ ∃ d, DefinedAs text srv tool d ∧ text.storable d.inputSchema = true := by
  constructor
  · rintro ⟨items, name, shown, words, schema, rfl, hname, hshown, hwords, hschema, hid, hunicode, hne, hstore⟩
    refine ⟨_, ⟨name, shown, toolName_ok_iff.mpr ⟨items, rfl, hname⟩, hshown, toolDefinition_ok_iff.mpr
      ⟨words, schema, hwords, hschema, hid, hunicode, hne, rfl⟩⟩, hstore⟩
  · rintro ⟨d, ⟨name, shown, htool, hshown, hdefinition⟩, hstore⟩
    obtain ⟨items, rfl, hname⟩ := toolName_ok_iff.mp htool
    obtain ⟨words, schema, hwords, hschema, hid, hunicode, hne, rfl⟩ := toolDefinition_ok_iff.mp hdefinition
    exact ⟨items, name, shown, words, schema, rfl, hname, hshown, hwords, hschema, hid, hunicode, hne, hstore⟩

theorem ofTool_of_definedAs {tool : PyValue} {d : SkillRecord} (h : DefinedAs text srv tool d) :
    OfTool text srv tool d := by
  obtain ⟨name, shown, htool, hshown, hdefinition⟩ := h
  obtain ⟨words, schema, -, -, -, -, -, rfl⟩ := toolDefinition_ok_iff.mp hdefinition
  exact ⟨name, shown, htool, hshown, rfl⟩

/-! ## The tools of a server -/

/-- What the loop over the tools adds: definitions, and nothing else that is looked at. -/
structure ToolsAdded (text : McpText) (srv : McpServer) (tools : List PyValue) (acc acc' : QuasarTables × ServerStatus)
    (ds : List SkillRecord) : Prop where
  defined : List.Forall₂ (DefinedAs text srv) tools ds
  definitions : acc'.1.definitions = acc.1.definitions ++ ds
  status : acc'.1.status = acc.1.status
  name : acc'.2.name = acc.2.name
  ok : acc'.2.ok = acc.2.ok
  error : acc'.2.error = acc.2.error

theorem addTool_ok {acc acc' : QuasarTables × ServerStatus} {tool : PyValue}
    (h : addTool text srv acc tool = .ok acc') : ∃ d, ToolsAdded text srv [tool] acc acc' [d] := by
  unfold addTool at h
  obtain ⟨name, hname, h⟩ := (except_bind_ok_iff _ _ _).mp h
  obtain ⟨shown, hshown, h⟩ := (except_bind_ok_iff _ _ _).mp h
  obtain ⟨d, hd, h⟩ := (except_bind_ok_iff _ _ _).mp h
  cases h
  exact ⟨d, { defined := List.Forall₂.cons ⟨name, shown, hname, formatted_ok_iff.mp hshown, hd⟩ List.Forall₂.nil
              definitions := rfl, status := rfl, name := rfl, ok := rfl, error := rfl }⟩

theorem addTool_of_definedAs (acc : QuasarTables × ServerStatus) {tool : PyValue} {d : SkillRecord}
    (h : DefinedAs text srv tool d) : ∃ acc', addTool text srv acc tool = .ok acc' := by
  obtain ⟨name, shown, hname, hshown, hd⟩ := h
  have hshown : formatted text name = .ok shown := formatted_ok_iff.mpr hshown
  refine ⟨_, (except_bind_ok_iff _ _ _).mpr ⟨name, hname, (except_bind_ok_iff _ _ _).mpr ⟨shown, hshown,
    (except_bind_ok_iff _ _ _).mpr ⟨d, hd, rfl⟩⟩⟩⟩

theorem addTools_ok (tools : List PyValue) {acc acc' : QuasarTables × ServerStatus}
    (h : tools.foldlM (addTool text srv) acc = .ok acc') : ∃ ds, ToolsAdded text srv tools acc acc' ds := by
  induction tools generalizing acc with
  | nil =>
    cases h
    exact ⟨[], { defined := List.Forall₂.nil, definitions := (List.append_nil _).symm, status := rfl,
                 name := rfl, ok := rfl, error := rfl }⟩
  | cons tool tools ih =>
    rw [List.foldlM_cons] at h
    obtain ⟨acc₁, hfirst, h⟩ := (except_bind_ok_iff _ _ _).mp h
    obtain ⟨d, hd⟩ := addTool_ok hfirst
    obtain ⟨ds, hds⟩ := ih h
    refine ⟨d :: ds, ?_⟩
    constructor
    · cases hd.defined with
      | cons hdefined _ => exact List.Forall₂.cons hdefined hds.defined
    · rw [hds.definitions, hd.definitions, List.append_assoc]
      rfl
    · rw [hds.status, hd.status]
    · rw [hds.name, hd.name]
    · rw [hds.ok, hd.ok]
    · rw [hds.error, hd.error]

theorem addTools_of_defined {tools : List PyValue} {ds : List SkillRecord}
    (h : List.Forall₂ (DefinedAs text srv) tools ds) (acc : QuasarTables × ServerStatus) :
    ∃ acc', tools.foldlM (addTool text srv) acc = .ok acc' := by
  induction h generalizing acc with
  | nil => exact ⟨acc, rfl⟩
  | cons hfirst _ ih =>
    obtain ⟨acc₁, hacc₁⟩ := addTool_of_definedAs acc hfirst
    obtain ⟨acc', hacc'⟩ := ih acc₁
    refine ⟨acc', ?_⟩
    rw [List.foldlM_cons]
    exact (except_bind_ok_iff _ _ _).mpr ⟨acc₁, hacc₁, hacc'⟩

/-! ## The servers -/

/-- What a server adds to the status and to the definitions. -/
def Adds (text : McpText) (srv : McpServer) (listed : Except McpFailure (List PyValue))
    (part : ServerStatus × List SkillRecord) : Prop :=
  part.1.name = srv.name ∧
    ((∃ m shown, listed = .error (.mcpError m) ∧ text.str m = some shown ∧ part.1.ok = false ∧
        part.1.error = some shown ∧ part.2 = []) ∨
      ∃ tools, listed = .ok tools ∧ part.1.ok = true ∧ List.Forall₂ (DefinedAs text srv) tools part.2)

theorem addListed_adds {tables tables' : QuasarTables} {listed : Except McpFailure (List PyValue)}
    (h : addListed text srv tables listed = .ok tables') :
    ∃ part, Adds text srv listed part ∧ tables'.status = tables.status ++ [part.1] ∧
      tables'.definitions = tables.definitions ++ part.2 := by
  rcases listed with (m | e) | tools
  · unfold addListed at h
    obtain ⟨shown, hshown, h⟩ := (except_bind_ok_iff _ _ _).mp h
    cases h
    exact ⟨({ newStatus srv with error := some shown }, []),
      ⟨rfl, Or.inl ⟨m, shown, rfl, formatted_ok_iff.mp hshown, rfl, rfl, rfl⟩⟩, rfl, (List.append_nil _).symm⟩
  · cases h
  · unfold addListed at h
    obtain ⟨filled, hfilled, h⟩ := (except_bind_ok_iff _ _ _).mp h
    obtain ⟨ds, hds⟩ := addTools_ok tools hfilled
    cases h
    refine ⟨(filled.2, ds), ⟨hds.name, Or.inr ⟨tools, rfl, hds.ok, hds.defined⟩⟩, ?_, hds.definitions⟩
    show filled.1.status ++ [filled.2] = _
    rw [hds.status]

theorem addListed_of_adds (tables : QuasarTables) {listed : Except McpFailure (List PyValue)}
    {part : ServerStatus × List SkillRecord} (h : Adds text srv listed part) :
    ∃ tables', addListed text srv tables listed = .ok tables' := by
  obtain ⟨-, ⟨m, shown, rfl, hshown, -⟩ | ⟨tools, rfl, -, hdefined⟩⟩ := h
  · have hshown : formatted text m = .ok shown := formatted_ok_iff.mpr hshown
    exact ⟨_, (except_bind_ok_iff _ _ _).mpr ⟨shown, hshown, rfl⟩⟩
  · obtain ⟨filled, hfilled⟩ := addTools_of_defined hdefined
      ({ tables with clients := Keyed.put Prod.fst (srv.name, srv.client) tables.clients },
        { newStatus srv with ok := true })
    exact ⟨_, (except_bind_ok_iff _ _ _).mpr ⟨filled, hfilled, rfl⟩⟩

theorem steady_addServers (servers : List McpServer) (tables : QuasarTables) :
    Steady (addServers text · servers tables) := by
  induction servers generalizing tables with
  | nil => exact steady_const _
  | cons srv servers ih =>
    intro m n r hle h
    obtain ⟨listed, hlisted, h⟩ := Option.bind_eq_some_iff.mp h
    refine Option.bind_eq_some_iff.mpr ⟨listed, steady_listTools hle hlisted, ?_⟩
    cases hadd : addListed text srv tables listed with
    | error e =>
      rw [hadd] at h
      exact h
    | ok tables₁ =>
      rw [hadd] at h
      exact ih tables₁ hle h

theorem yields_addServers_cons_iff {servers : List McpServer} {tables tables' : QuasarTables} :
    Yields (addServers text · (srv :: servers) tables) (.ok tables') ↔ ∃ listed tables₁,
      Yields (srv.client.listTools text srv.runs) listed ∧ addListed text srv tables listed = .ok tables₁ ∧
        Yields (addServers text · servers tables₁) (.ok tables') := by
  constructor
  · rintro ⟨n, h⟩
    obtain ⟨listed, hlisted, h⟩ := Option.bind_eq_some_iff.mp h
    cases hadd : addListed text srv tables listed with
    | error e =>
      rw [hadd] at h
      cases h
    | ok tables₁ =>
      rw [hadd] at h
      exact ⟨listed, tables₁, ⟨n, hlisted⟩, hadd, ⟨n, h⟩⟩
  · rintro ⟨listed, tables₁, ⟨m, hm⟩, hadd, ⟨n, hn⟩⟩
    refine ⟨max m n, Option.bind_eq_some_iff.mpr ⟨listed, steady_listTools (Nat.le_max_left m n) hm, ?_⟩⟩
    rw [hadd]
    exact steady_addServers servers tables₁ (Nat.le_max_right m n) hn

/-- What a server lists and adds. -/
def AddsListed (text : McpText) (srv : McpServer) (part : ServerStatus × List SkillRecord) : Prop :=
  ∃ listed, Yields (srv.client.listTools text srv.runs) listed ∧ Adds text srv listed part

theorem addServers_adds (servers : List McpServer) {tables tables' : QuasarTables}
    (h : Yields (addServers text · servers tables) (.ok tables')) :
    ∃ parts, List.Forall₂ (AddsListed text) servers parts ∧
      tables'.status = tables.status ++ parts.map Prod.fst ∧
      tables'.definitions = tables.definitions ++ parts.flatMap Prod.snd := by
  induction servers generalizing tables with
  | nil =>
    cases yields_const_iff.mp h
    exact ⟨[], List.Forall₂.nil, (List.append_nil _).symm, (List.append_nil _).symm⟩
  | cons srv servers ih =>
    obtain ⟨listed, tables₁, hlisted, hadd, hrest⟩ := yields_addServers_cons_iff.mp h
    obtain ⟨part, hpart, hstatus, hdefinitions⟩ := addListed_adds hadd
    obtain ⟨parts, hparts, hstatuses, hall⟩ := ih hrest
    refine ⟨part :: parts, List.Forall₂.cons ⟨listed, hlisted, hpart⟩ hparts, ?_, ?_⟩
    · rw [hstatuses, hstatus, List.append_assoc]
      rfl
    · rw [hall, hdefinitions, List.append_assoc, List.flatMap_cons]

theorem addServers_of_adds {servers : List McpServer} (tables : QuasarTables)
    (h : ∀ srv ∈ servers, ∃ part, AddsListed text srv part) :
    ∃ tables', Yields (addServers text · servers tables) (.ok tables') := by
  induction servers generalizing tables with
  | nil => exact ⟨tables, yields_const_iff.mpr rfl⟩
  | cons srv servers ih =>
    obtain ⟨part, listed, hlisted, hadds⟩ := h srv List.mem_cons_self
    obtain ⟨tables₁, htables₁⟩ := addListed_of_adds tables hadds
    obtain ⟨tables', htables'⟩ := ih tables₁ fun srv' hsrv' => h srv' (List.mem_cons_of_mem srv hsrv')
    exact ⟨tables', yields_addServers_cons_iff.mpr ⟨listed, tables₁, hlisted, htables₁, htables'⟩⟩

/-! ## The registration -/

variable {now : Time} {registry : List (ManifestRecord Time)} {servers : List McpServer}

theorem register_ok {tables : QuasarTables} {agent : QuasarAgent} {registry' : List (ManifestRecord Time)}
    (h : register text now registry tables = .ok (agent, registry')) :
    agent.status = tables.status ∧ advertised registry' = tables.definitions ∧
      ∀ d ∈ tables.definitions, text.storable d.inputSchema = true := by
  unfold register at h
  dsimp only at h
  split_ifs at h with hnone hstore
  · cases h
    refine ⟨rfl, ?_, fun d hd => ?_⟩
    · have hgone : Keyed.get ManifestRecord.agentId AGENT_ID
          (Keyed.remove ManifestRecord.agentId AGENT_ID registry) = none :=
        Keyed.get_eq_none_iff.mpr fun m hm => (Keyed.mem_remove.mp hm).2
      unfold advertised
      rw [hgone, hnone]
      rfl
    · rw [hnone] at hd
      cases hd
  · cases h
    refine ⟨rfl, ?_, List.all_eq_true.mp hstore⟩
    have hthere : Keyed.get ManifestRecord.agentId AGENT_ID
        (Keyed.put ManifestRecord.agentId (manifest now tables.definitions) registry) =
          some (manifest now tables.definitions) :=
      Keyed.get_put_self (manifest now tables.definitions) registry
    unfold advertised
    rw [hthere]
    rfl

theorem register_of_storable (now : Time) (registry : List (ManifestRecord Time)) {tables : QuasarTables}
    (h : ∀ d ∈ tables.definitions, text.storable d.inputSchema = true) :
    ∃ agent registry', register text now registry tables = .ok (agent, registry') := by
  unfold register
  dsimp only
  by_cases hnone : tables.definitions = []
  · rw [if_pos hnone]
    exact ⟨_, _, rfl⟩
  · rw [if_neg hnone, if_pos (List.all_eq_true.mpr h)]
    exact ⟨_, _, rfl⟩

theorem yields_init_iff {agent : QuasarAgent} {registry' : List (ManifestRecord Time)} :
    Yields (init text now registry servers) (.ok (agent, registry')) ↔ ∃ tables,
      Yields (addServers text · servers {}) (.ok tables) ∧
        register text now registry tables = .ok (agent, registry') := by
  unfold init
  rw [yields_map_iff]
  constructor
  · rintro ⟨filled, hfilled, h⟩
    obtain ⟨tables, rfl, htables⟩ := (except_bind_ok_iff _ _ _).mp h
    exact ⟨tables, hfilled, htables⟩
  · rintro ⟨tables, htables, h⟩
    exact ⟨.ok tables, htables, h⟩

/-! ## Starting -/

/-- A server whose part can be added and stored fits. -/
theorem fits_iff :
    Fits text srv ↔ ∃ part, AddsListed text srv part ∧ ∀ d ∈ part.2, text.storable d.inputSchema = true := by
  constructor
  · rintro (⟨m, hpages, hshown⟩ | ⟨tools, hpages, htools⟩)
    · obtain ⟨shown, hshown⟩ := Option.isSome_iff_exists.mp hshown
      refine ⟨({ newStatus srv with error := some shown }, []), ⟨_, yields_listTools_iff.mpr hpages, rfl,
        Or.inl ⟨m, shown, rfl, hshown, rfl, rfl, rfl⟩⟩, fun d hd => by cases hd⟩
    · have hdefined : ∃ ds : List SkillRecord, List.Forall₂ (DefinedAs text srv) tools ds ∧
          ∀ d ∈ ds, text.storable d.inputSchema = true := by
        clear hpages
        induction tools with
        | nil => exact ⟨[], List.Forall₂.nil, fun d hd => by cases hd⟩
        | cons tool tools ih =>
          obtain ⟨htool, hrest⟩ := List.forall_mem_cons.mp htools
          obtain ⟨d, hd, hstore⟩ := toolFits_iff.mp htool
          obtain ⟨ds, hds, hstores⟩ := ih hrest
          exact ⟨d :: ds, List.Forall₂.cons hd hds, List.forall_mem_cons.mpr ⟨hstore, hstores⟩⟩
      obtain ⟨ds, hds, hstores⟩ := hdefined
      exact ⟨({ newStatus srv with ok := true }, ds), ⟨_, yields_listTools_iff.mpr hpages, rfl,
        Or.inr ⟨tools, rfl, rfl, hds⟩⟩, hstores⟩
  · rintro ⟨part, ⟨listed, hlisted, -, ⟨m, shown, rfl, hshown, -⟩ | ⟨tools, rfl, -, hdefined⟩⟩, hstores⟩
    · exact Or.inl ⟨m, yields_listTools_iff.mp hlisted, Option.isSome_iff_exists.mpr ⟨shown, hshown⟩⟩
    · refine Or.inr ⟨tools, yields_listTools_iff.mp hlisted, fun tool htool => ?_⟩
      obtain ⟨d, hd, hdef⟩ := mem_left_of_forall₂ hdefined htool
      exact toolFits_iff.mpr ⟨d, hdef, hstores d hd⟩

theorem definedAs_unique {tool : PyValue} {d d' : SkillRecord} (h : DefinedAs text srv tool d)
    (h' : DefinedAs text srv tool d') : d = d' := by
  obtain ⟨name, shown, hname, hshown, hd⟩ := h
  obtain ⟨name', shown', hname', hshown', hd'⟩ := h'
  rw [hname] at hname'
  cases hname'
  rw [hshown] at hshown'
  cases hshown'
  rw [hd] at hd'
  cases hd'
  rfl

/-- Whatever a server that fits adds can be stored. -/
theorem storable_of_fits {part : ServerStatus × List SkillRecord} (hfits : Fits text srv)
    (h : AddsListed text srv part) : ∀ d ∈ part.2, text.storable d.inputSchema = true := by
  intro d hd
  obtain ⟨part', ⟨listed', hlisted', -, hadds'⟩, hstores'⟩ := fits_iff.mp hfits
  obtain ⟨listed, hlisted, -, hadds⟩ := h
  have hsame : listed = listed' := steady_listTools.unique hlisted hlisted'
  rcases hadds with ⟨m, shown, -, -, -, -, hnone⟩ | ⟨tools, htools, -, hdefined⟩
  · rw [hnone] at hd
    cases hd
  · rcases hadds' with ⟨m, shown, hm, -⟩ | ⟨tools', htools', -, hdefined'⟩
    · rw [← hsame, htools] at hm
      cases hm
    · rw [← hsame, htools] at htools'
      cases htools'
      obtain ⟨tool, htool, hdef⟩ := mem_right_of_forall₂ hdefined hd
      obtain ⟨d', hd', hdef'⟩ := mem_left_of_forall₂ hdefined' htool
      rw [definedAs_unique hdef hdef']
      exact hstores' d' hd'

/-- The servers are served with the parts that they add, when all definitions are among the skills. -/
theorem served_of_adds {servers : List McpServer} {parts : List (ServerStatus × List SkillRecord)}
    {skills : List SkillRecord} (h : List.Forall₂ (AddsListed text) servers parts)
    (hskills : ∀ part ∈ parts, ∀ d ∈ part.2, d ∈ skills) :
    List.Forall₂ (Served text skills) servers (parts.map Prod.fst) := by
  induction h with
  | nil => exact List.Forall₂.nil
  | cons hfirst _ ih =>
    obtain ⟨hpart, hparts⟩ := List.forall_mem_cons.mp hskills
    refine List.Forall₂.cons ?_ (ih hparts)
    obtain ⟨listed, hlisted, hname, ⟨m, shown, rfl, hshown, hok, herror, -⟩ | ⟨tools, rfl, hok, hdefined⟩⟩ := hfirst
    · exact ⟨hname, Or.inl ⟨m, hlisted, hok, by rw [herror, hshown]⟩⟩
    · refine ⟨hname, Or.inr ⟨tools, hlisted, hok, fun tool htool => ?_⟩⟩
      obtain ⟨d, hd, hdef⟩ := mem_left_of_forall₂ hdefined htool
      exact ⟨d, hpart d hd, ofTool_of_definedAs hdef⟩

/-- The agent starts exactly when every server refuses or lists tools that fit. -/
theorem starts_iff : Starts text now registry servers ↔ ∀ srv ∈ servers, Fits text srv := by
  constructor
  · rintro ⟨agent, registry', hinit, -⟩ srv hsrv
    obtain ⟨tables, htables, hregister⟩ := yields_init_iff.mp hinit
    obtain ⟨-, -, hstores⟩ := register_ok hregister
    obtain ⟨parts, hparts, -, hdefinitions⟩ := addServers_adds servers htables
    obtain ⟨part, hpart, hadds⟩ := mem_left_of_forall₂ hparts hsrv
    refine fits_iff.mpr ⟨part, hadds, fun d hd => hstores d ?_⟩
    rw [hdefinitions]
    exact List.mem_append_right _ (List.mem_flatMap.mpr ⟨part, hpart, hd⟩)
  · intro hfits
    have hadds : ∀ srv ∈ servers, ∃ part, AddsListed text srv part := fun srv hsrv =>
      (fits_iff.mp (hfits srv hsrv)).imp fun part hpart => hpart.1
    obtain ⟨tables, htables⟩ := addServers_of_adds {} hadds
    obtain ⟨parts, hparts, hstatus, hdefinitions⟩ := addServers_adds servers htables
    have hstores : ∀ d ∈ tables.definitions, text.storable d.inputSchema = true := by
      intro d hd
      rw [hdefinitions] at hd
      obtain ⟨part, hpart, hd⟩ := List.mem_flatMap.mp hd
      obtain ⟨srv, hsrv, hadded⟩ := mem_right_of_forall₂ hparts hpart
      exact storable_of_fits (hfits srv hsrv) hadded d hd
    obtain ⟨agent, registry', hregister⟩ := register_of_storable now registry hstores
    obtain ⟨hagent, hadvertised, -⟩ := register_ok hregister
    refine ⟨agent, registry', yields_init_iff.mpr ⟨tables, htables, hregister⟩, ?_⟩
    rw [hagent, hstatus, hadvertised]
    refine served_of_adds hparts fun part hpart d hd => ?_
    rw [hdefinitions]
    exact List.mem_append_right _ (List.mem_flatMap.mpr ⟨part, hpart, hd⟩)

/-- A request ends properly exactly when its message cannot be written, or the first output that it does not
pass over comes too late, brings an `McpError` or is the reply with its own id; when no messages come any more it
ends; `list_tools` ends properly exactly when the pages of the server come to an end, and makes finitely many calls
exactly when the server does not go on with cursors; and the agent starts exactly when every server refuses or lists
tools that fit. -/
theorem quasar_tolerates_iff (text : McpText) (now : Time) (registry : List (ManifestRecord Time)) :
    (∀ (c : McpStdioClient) (x : Exchange) (method : String) (params : PyDict) (s : ClientState),
      RequestTolerates text c x method params s ↔ text.encodes (.dict params) = true ∧ (x.sendError ≠ none ∨
        ∃ n, (∀ m < n, c.Passes (s.nextId + 1) x m) ∧ ((∃ m, c.Ends method (s.nextId + 1) x n (.error m)) ∨
          c.InTime x n ∧ ∃ v, (x.outputs n).OwnReply (s.nextId + 1) v))) ∧
    (∀ (c : McpStdioClient) (x : Exchange) (method : String) (params : PyDict) (s : ClientState),
      (∃ n, ∀ m, n ≤ m → (x.outputs m).received = none) → ∃ out, Yields (request text c x method params s) out) ∧
    (∀ (c : McpStdioClient) (runs : ℕ → CallRun), ListTolerates text c runs ↔ ∃ r, Pages text c runs {} r) ∧
    (∀ (c : McpStdioClient) (runs : ℕ → CallRun), ListsInFinitelyMany text c runs ↔
      ¬∃ f : ℕ → ToolListing, f 0 = {} ∧ ∀ n, Continues text c runs (f n) (f (n + 1))) ∧
    ∀ servers : List McpServer, Starts text now registry servers ↔ ∀ srv ∈ servers, Fits text srv :=
  ⟨fun _ _ _ _ _ => requestTolerates_iff, fun _ _ _ _ _ => request_ends, fun _ _ => listTolerates_iff,
    fun _ _ => listsInFinitelyMany_iff, fun _ => starts_iff⟩

/-! ## Servers that are not tolerated -/

/-- Texts as they are, and no limits. -/
def plainMcpText : McpText where
  str
    | .str s => some s
    | _ => some ""
  str_str _ := rfl
  encodes _ := true
  encodes_handshake := rfl
  encodes_empty := rfl
  isUnicode _ := true
  storable _ := true

def demoClient : McpStdioClient where
  command := "'server'"
  timeout := 30
  timeoutText := "30.0"
  timeout_le := by norm_num

/-- An output each second, from the start. -/
def pacedExchange (outputs : ℕ → Output) : Exchange where
  outputs
  arrives n := n
  asks n := n
  late _ := 0
  arrives_mono := Nat.mono_cast
  asks_nonneg := le_rfl
  asks_after n := by exact_mod_cast Nat.le_succ n
  late_nonneg _ := le_rfl
  endless := exists_nat_gt

theorem inTime_paced (outputs : ℕ → Output) : demoClient.InTime (pacedExchange outputs) 0 := by
  unfold InTime Exchange.limit pacedExchange demoClient
  norm_num

/-- The server prints the number five, which is JSON. -/
def strayExchange : Exchange := pacedExchange fun _ => .json (.int 5)

def strayRun : CallRun := { handshake := strayExchange, request := strayExchange }

def strayServer : McpServer := { name := "stray", client := demoClient, runs := fun _ => strayRun }

/-- The server sends two notifications in each millisecond. -/
def floodExchange : Exchange where
  outputs _ := .json (.dict [("method", .str "notifications/progress")])
  arrives n := n / 2000
  asks n := n / 2000
  late _ := 0
  arrives_mono m n h := by
    have hcast : (m : ℚ) ≤ n := by exact_mod_cast h
    exact div_le_div_of_nonneg_right hcast (by norm_num)
  asks_nonneg := by norm_num
  asks_after n := by
    push_cast
    linarith
  late_nonneg _ := le_rfl
  endless t := by
    obtain ⟨n, hn⟩ := exists_nat_gt (t * 2000)
    exact ⟨n, by linarith⟩

/-- The page of the call, which has a cursor for another one. -/
def cursorRun (call : ℕ) : CallRun where
  handshake := pacedExchange fun _ => .json (.dict [("id", .int 1), ("result", .dict [])])
  request := pacedExchange fun _ => .json (.dict [("id", .int (call + 2 : ℕ)),
    ("result", .dict [("tools", .list []), ("nextCursor", .str "next")])])

theorem not_exchanges_stray {method : String} {rid : ℕ} {r : Except PyValue PyValue} :
    ¬demoClient.Exchanges method rid strayExchange r := by
  rintro (⟨e, hsend, -⟩ | ⟨-, n, hbefore, hends⟩)
  · cases hsend
  · cases n with
    | zero =>
      cases hends with
      | timedOut hlate => exact hlate (inTime_paced _)
      | settled _ hsettles => cases hsettles
    | succ n => cases (hbefore 0 (Nat.succ_pos n)).2

/-- The next notification is there before the millisecond is over. -/
theorem inTime_flood (n : ℕ) : demoClient.InTime floodExchange n := by
  unfold InTime
  cases n with
  | zero =>
    unfold Exchange.limit floodExchange demoClient
    norm_num
  | succ n =>
    have hlimit : floodExchange.limit demoClient.timeout (n + 1) =
        max demoClient.timeout (((n + 1 : ℕ) : ℚ) / 2000 + 1 / 1000) + 0 := rfl
    have harrives : floodExchange.arrives (n + 1) = ((n + 1 : ℕ) : ℚ) / 2000 := rfl
    have hmax := le_max_right demoClient.timeout (((n + 1 : ℕ) : ℚ) / 2000 + 1 / 1000)
    rw [hlimit, harrives]
    linarith

theorem not_tolerates_flood : ¬RequestTolerates plainMcpText demoClient floodExchange "tools/list" [] {} := by
  intro h
  obtain ⟨-, hsend | ⟨n, -, ⟨m, hends⟩ | ⟨-, v, hreply⟩⟩⟩ := requestTolerates_iff.mp h
  · exact hsend rfl
  · cases hends with
    | timedOut hlate => exact hlate (inTime_flood n)
    | settled _ hsettles =>
      cases hsettles with
      | error hfor herror => cases herror
  · cases hreply with
    | intro _ hmethod => cases hmethod

theorem not_gives_stray {method : String} {params : PyDict} {r : Except PyValue (PyValue × ClientState)} :
    ¬Gives plainMcpText demoClient strayRun method params {} r := by
  have hbegins : ∀ r, ¬demoClient.Begins strayRun {} r := by
    intro r h
    cases h with
    | running hrunning => cases hrunning.1
    | failed _ hstart => cases hstart
    | refused _ _ hinit => exact not_exchanges_stray hinit
    | lost _ _ hinit => exact not_exchanges_stray hinit
    | initialised _ _ hinit => exact not_exchanges_stray hinit
  intro h
  cases h with
  | notBegun h => exact hbegins _ h
  | refused h => exact hbegins _ h
  | result h => exact hbegins _ h

theorem not_pages_stray {r : Except PyValue (List PyValue)} :
    ¬Pages plainMcpText demoClient (fun _ => strayRun) {} r := by
  intro h
  cases h with
  | refused h => exact not_gives_stray h
  | last h => exact not_gives_stray h
  | more h =>
    cases h with
    | intro h => exact not_gives_stray h

/-- What `list_tools` has after so many pages of the server with cursors. -/
def cursorListing : ℕ → ToolListing
  | 0 => {}
  | n + 1 => { calls := n + 1, cursor := .str "next", state := { started := true, nextId := n + 2 } }

theorem forRequest_cursor (n : ℕ) (items : PyDict) (hitems : items.lookup "method" = none) :
    ForRequest n (("id", .int n) :: items) := by
  refine ⟨?_, ?_⟩
  · show (PyValue.int n).pyEq (.int n) = true
    simp [PyValue.pyEq, PyValue.number, PyValue.sameNumber]
  · rw [List.lookup_cons]
    exact hitems

theorem gives_cursor {n : ℕ} {params : PyDict} {s : ClientState}
    (h : demoClient.Begins (cursorRun n) s (.ok { started := true, nextId := n + 1 })) :
    Gives plainMcpText demoClient (cursorRun n) "tools/list" params s
      (.ok (.dict [("tools", .list []), ("nextCursor", .str "next")], { started := true, nextId := n + 2 })) :=
  Gives.result h rfl (Or.inr ⟨rfl, 0, fun m hm => absurd hm (Nat.not_lt_zero m),
    Ends.settled (inTime_paced _) (Output.Settles.reply (forRequest_cursor (n + 2) _ rfl) rfl)⟩)

theorem continues_cursor (n : ℕ) :
    Continues plainMcpText demoClient cursorRun (cursorListing n) (cursorListing (n + 1)) := by
  cases n with
  | zero =>
    have hinit : demoClient.Exchanges "initialize" 1 (cursorRun 0).handshake (.ok (.dict [])) :=
      Or.inr ⟨rfl, 0, fun m hm => absurd hm (Nat.not_lt_zero m),
        Ends.settled (inTime_paced _) (Output.Settles.reply (forRequest_cursor 1 _ rfl) rfl)⟩
    have hbegins : demoClient.Begins (cursorRun 0) {} (.ok { started := true, nextId := 1 }) :=
      Begins.initialised (fun h => by cases h.1) rfl hinit rfl
    exact Continues.intro (gives_cursor hbegins) (rfl : extended _ = .ok []) rfl
  | succ n =>
    have hbegins : demoClient.Begins (cursorRun (n + 1)) { started := true, nextId := n + 2 }
        (.ok { started := true, nextId := n + 2 }) := Begins.running ⟨rfl, rfl⟩
    exact Continues.intro (gives_cursor hbegins) (rfl : extended _ = .ok []) rfl

/-- A line that is a number raises an exception that is no `McpError`, notifications that come fast enough keep a
request waiting for ever, a server that always has a cursor is asked without end, and one server that prints the number
keeps the agent from starting. -/
theorem strayNumber_escapes :
    ¬RequestTolerates plainMcpText demoClient strayExchange "tools/list" [] {} ∧
      ¬RequestTolerates plainMcpText demoClient floodExchange "tools/list" [] {} ∧
      ¬ListsInFinitelyMany plainMcpText demoClient cursorRun ∧
      ¬Starts plainMcpText () [] [strayServer] := by
  refine ⟨fun h => ?_, not_tolerates_flood, fun h => ?_, fun h => ?_⟩
  · obtain ⟨-, hsend | ⟨n, hbefore, hcase⟩⟩ := requestTolerates_iff.mp h
    · exact hsend rfl
    · cases n with
      | zero =>
        rcases hcase with ⟨m, hends⟩ | ⟨-, v, hreply⟩
        · exact not_exchanges_stray (Or.inr ⟨rfl, 0, hbefore, hends⟩)
        · cases hreply
      | succ n => cases (hbefore 0 (Nat.succ_pos n)).2
  · exact listsInFinitelyMany_iff.mp h ⟨cursorListing, rfl, continues_cursor⟩
  · obtain ⟨m, hpages, -⟩ | ⟨tools, hpages, -⟩ := starts_iff.mp h strayServer List.mem_cons_self
    · exact not_pages_stray hpages
    · exact not_pages_stray hpages

end QuasarAgent

end Galaxz
