import Galaxz.A2A.Wormhole

/-!
# Proxy skills and the servers behind them

The loop over the agents is summed up by two lists, the agents that answered and the skills on their cards:
the tables hold the last entry of a key in these lists. Agent names have no dot in them, so an id can be
taken apart again.
-/

namespace Galaxz

variable {text : PyText}

/-! ## Ids -/

/-- What a text is that such an expression matches. -/
theorem matchesLine_cases {p : Char → Bool} {s : String} (h : matchesLine p s = true) :
    (∃ c cs, s.toList = cs ++ [c] ∧ p c = true ∧ ∀ d ∈ cs, p d = true) ∨
      ∃ c cs, s.toList = cs ++ [c] ++ ['\n'] ∧ p c = true ∧ ∀ d ∈ cs, p d = true := by
  have hends : ∀ cs : List Char, cs ≠ [] → cs.all p = true →
      ∃ c ds, cs = ds ++ [c] ∧ p c = true ∧ ∀ d ∈ ds, p d = true := by
    intro cs hne hall
    rw [List.all_eq_true] at hall
    refine ⟨cs.getLast hne, cs.dropLast, (List.dropLast_append_getLast hne).symm,
      hall _ (List.getLast_mem hne), fun d hd => hall d (List.mem_of_mem_dropLast hd)⟩
  unfold matchesLine at h
  simp only [Bool.or_eq_true, Bool.and_eq_true, decide_eq_true_eq] at h
  rcases h with ⟨hne, hall⟩ | ⟨⟨hlast, hne⟩, hall⟩
  · exact Or.inl (hends _ hne hall)
  · obtain ⟨c, cs, hcs, hc, hds⟩ := hends _ hne hall
    obtain ⟨ds, hds'⟩ := List.getLast?_eq_some_iff.mp hlast
    rw [hds', List.dropLast_concat] at hcs
    exact Or.inr ⟨c, cs, by rw [hds', hcs], hc, hds⟩

/-- There is no dot in the name of an agent. -/
theorem AgentConfig.dot_notMem_name (cfg : AgentConfig) : '.' ∉ cfg.name.toList := by
  intro hdot
  rcases matchesLine_cases cfg.name_ok with ⟨c, cs, hcs, hc, hds⟩ | ⟨c, cs, hcs, hc, hds⟩
  · rw [hcs, List.mem_append, List.mem_singleton] at hdot
    rcases hdot with hdot | rfl
    · exact absurd (hds _ hdot) (by decide)
    · exact absurd hc (by decide)
  · rw [hcs, List.mem_append, List.mem_append, List.mem_singleton, List.mem_singleton] at hdot
    rcases hdot with (hdot | rfl) | hdot
    · exact absurd (hds _ hdot) (by decide)
    · exact absurd hc (by decide)
    · exact absurd hdot (by decide)

theorem proxyId_toList (name remoteId : String) :
    (proxyId name remoteId).toList = "wormhole.".toList ++ (name.toList ++ '.' :: remoteId.toList) := by
  unfold proxyId
  rw [String.toList_append, String.toList_append, String.toList_append, List.append_assoc, List.append_assoc]
  rfl

/-- An id tells the name of the agent and the agent's id. -/
theorem proxyId_inj {cfg cfg' : AgentConfig} {remoteId remoteId' : String}
    (h : proxyId cfg.name remoteId = proxyId cfg'.name remoteId') :
    cfg.name = cfg'.name ∧ remoteId = remoteId' := by
  have hlist := congrArg String.toList h
  rw [proxyId_toList, proxyId_toList, List.append_cancel_left_eq] at hlist
  obtain ⟨hname, hid⟩ := append_cons_inj_left cfg.dot_notMem_name cfg'.dot_notMem_name hlist
  exact ⟨String.toList_inj.mp hname, String.toList_inj.mp hid⟩

/-- The characters of a remote id are no spaces. -/
theorem isPySpace_of_isIdChar {c : Char} (h : text.isIdChar c = true) : isPySpace c = false := by
  unfold PyText.isIdChar at h
  simp only [Bool.or_eq_true, decide_eq_true_eq] at h
  rcases h with ((h | rfl) | rfl) | rfl
  · exact text.word_not_space c h
  all_goals decide

theorem proxyId_head (name remoteId : String) :
    ∀ c, (proxyId name remoteId).toList.head? = some c → isPySpace c = false := by
  intro c hc
  rw [proxyId_toList] at hc
  have hw : c = 'w' := (Option.some.inj hc).symm
  rw [hw]
  decide

/-- An id that does not end in a newline is registered as it is. -/
theorem strip_proxyId (name : String) {remoteId : String} (h : matchesLine text.isIdChar remoteId = true)
    (hline : remoteId.toList.getLast? ≠ some '\n') : strip (proxyId name remoteId) = proxyId name remoteId := by
  rcases matchesLine_cases h with ⟨c, cs, hcs, hc, -⟩ | ⟨c, cs, hcs, -, -⟩
  · have hstrip : stripChars (proxyId name remoteId).toList = (proxyId name remoteId).toList := by
      apply stripChars_eq_self (proxyId_head name remoteId)
      intro d hd
      rw [proxyId_toList, hcs] at hd
      simp only [List.getLast?_append, List.getLast?_cons, Option.some_or, Option.getD_some,
        Option.some.injEq] at hd
      exact hd ▸ isPySpace_of_isIdChar hc
    unfold strip
    rw [hstrip, String.ofList_toList]
  · exact absurd (by rw [hcs]; simp) hline

/-- The newline at the end of an id is not registered. -/
theorem strip_proxyId_newline (name : String) {remoteId : String} (h : matchesLine text.isIdChar remoteId = true)
    (hline : remoteId.toList.getLast? = some '\n') :
    ∃ remoteId', remoteId' ≠ remoteId ∧ strip (proxyId name remoteId) = proxyId name remoteId' := by
  rcases matchesLine_cases h with ⟨c, cs, hcs, hc, -⟩ | ⟨c, cs, hcs, hc, hds⟩
  · rw [hcs, List.getLast?_concat, Option.some.injEq] at hline
    rw [hline] at hc
    exact absurd (isPySpace_of_isIdChar hc) (by decide)
  · refine ⟨String.ofList (cs ++ [c]), ?_, ?_⟩
    · intro heq
      have hlist := congrArg String.toList heq
      rw [String.toList_ofList, hcs] at hlist
      have hlength := congrArg List.length hlist
      simp only [List.length_append, List.length_singleton] at hlength
      omega
    · have hchars : (proxyId name remoteId).toList = (proxyId name (String.ofList (cs ++ [c]))).toList ++ ['\n'] := by
        rw [proxyId_toList, proxyId_toList, hcs, String.toList_ofList]
        simp
      have hne : (proxyId name (String.ofList (cs ++ [c]))).toList ≠ [] := by
        rw [proxyId_toList]
        simp
      have hmatch : matchesLine text.isIdChar (String.ofList (cs ++ [c])) = true := by
        unfold matchesLine
        simp only [String.toList_ofList, Bool.or_eq_true, Bool.and_eq_true, List.all_eq_true, decide_eq_true_eq]
        refine Or.inl ⟨by simp, ?_⟩
        intro d hd
        rcases List.mem_append.mp hd with hd | hd
        · exact hds d hd
        · exact List.mem_singleton.mp hd ▸ hc
      have hlast : (String.ofList (cs ++ [c])).toList.getLast? ≠ some '\n' := by
        rw [String.toList_ofList, List.getLast?_concat]
        intro heq
        cases heq
        exact absurd (isPySpace_of_isIdChar hc) (by decide)
      have hkept := strip_proxyId name hmatch hlast
      rw [← hkept]
      unfold strip
      rw [hchars, stripChars_concat (proxyId_head _ _) hne (by decide)]

/-! ## The tables -/

/-- A skill on a card: the agent, and its id and description for it. -/
abbrev Listing := AgentConfig × String × PyValue

/-- The skills on the cards, in the order in which the loop meets them. -/
def listings (text : PyText) (remotes : List Remote) : List Listing :=
  remotes.flatMap fun r => (r.accepted text).map fun skill => (r.cfg, skill)

theorem mem_listings {remotes : List Remote} {l : Listing} :
    l ∈ listings text remotes ↔ ∃ r ∈ remotes, r.cfg = l.1 ∧ l.2 ∈ r.accepted text := by
  unfold listings
  rw [List.mem_flatMap]
  constructor
  · rintro ⟨r, hr, hl⟩
    obtain ⟨skill, hskill, rfl⟩ := List.mem_map.mp hl
    exact ⟨r, hr, rfl, hskill⟩
  · rintro ⟨r, hr, hcfg, hl⟩
    exact ⟨r, hr, List.mem_map.mpr ⟨l.2, hl, by rw [hcfg]⟩⟩

/-- A skill that is taken is one of the listings. -/
theorem exists_listing {remotes : List Remote} {r : Remote} (hr : r ∈ remotes) {remoteId : String}
    (hid : remoteId ∈ r.listed text) : ∃ l ∈ listings text remotes, l.1 = r.cfg ∧ l.2.1 = remoteId := by
  obtain ⟨skill, hskill, rfl⟩ := List.mem_map.mp hid
  exact ⟨(r.cfg, skill), mem_listings.mpr ⟨r, hr, rfl, hskill⟩, rfl, rfl⟩

theorem exists_remote {remotes : List Remote} {l : Listing} (hl : l ∈ listings text remotes) :
    ∃ r ∈ remotes, r.cfg = l.1 ∧ l.2.1 ∈ r.listed text := by
  obtain ⟨r, hr, hcfg, haccepted⟩ := mem_listings.mp hl
  exact ⟨r, hr, hcfg, List.mem_map.mpr ⟨l.2, haccepted, rfl⟩⟩

/-- The entry of a skill in `_skills`. -/
def Listing.entry (l : Listing) : String × String × String := (proxyId l.1.name l.2.1, l.1.name, l.2.1)

/-- The definition is that of the skill. -/
def Listing.Defines (l : Listing) (d : SkillRecord) : Prop :=
  d.skillId = strip (proxyId l.1.name l.2.1) ∧ d.allowedOrigins = l.1.allowedOrigins

/-- The tables after a stretch of the loop that met these agents and skills. -/
structure WormholeTables.Filled (t t' : WormholeTables) (answered : List (String × A2AClient))
    (met : List Listing) : Prop where
  clients : t'.clients = answered.foldl (fun ys x => Keyed.put Prod.fst x ys) t.clients
  skills : t'.skills = (met.map Listing.entry).foldl (fun ys x => Keyed.put Prod.fst x ys) t.skills
  definitions : ∃ ds, List.Forall₂ Listing.Defines met ds ∧ t'.definitions = t.definitions ++ ds

theorem WormholeTables.Filled.refl (t : WormholeTables) : t.Filled t [] [] :=
  ⟨rfl, rfl, [], List.Forall₂.nil, (List.append_nil _).symm⟩

theorem WormholeTables.Filled.trans {t t' t'' : WormholeTables} {answered answered' : List (String × A2AClient)}
    {met met' : List Listing} (h : t.Filled t' answered met) (h' : t'.Filled t'' answered' met') :
    t.Filled t'' (answered ++ answered') (met ++ met') := by
  obtain ⟨ds, hds, hdefs⟩ := h.definitions
  obtain ⟨ds', hds', hdefs'⟩ := h'.definitions
  refine ⟨?_, ?_, ds ++ ds', List.rel_append hds hds', ?_⟩
  · rw [h'.clients, h.clients, List.foldl_append]
  · rw [h'.skills, h.skills, List.map_append, List.foldl_append]
  · rw [hdefs', hdefs, List.append_assoc]

/-- The validator strips the id and leaves the origins. -/
theorem defines_of_proxyDefinition {cfg : AgentConfig} {remoteId : String} {description : PyValue}
    {d : SkillRecord} (h : proxyDefinition text cfg remoteId description = .ok d) :
    Listing.Defines (cfg, remoteId, description) d := by
  unfold proxyDefinition SkillRecord.validate at h
  obtain ⟨skillId, hid, h⟩ := (except_bind_ok_iff _ _ _).mp h
  obtain ⟨description', -, h⟩ := (except_bind_ok_iff _ _ _).mp h
  unfold validateNonEmpty at hid
  split_ifs at hid h
  obtain rfl := Except.ok.inj hid
  obtain rfl := Except.ok.inj h
  exact ⟨rfl, rfl⟩

theorem addSkill_filled {cfg : AgentConfig} {acc acc' : WormholeTables × AgentStatus} {remote : PyValue}
    (h : addSkill text cfg acc remote = .ok acc') :
    acc.1.Filled acc'.1 [] ((acceptedSkill text remote).toList.map fun skill => (cfg, skill)) := by
  unfold addSkill at h
  rcases hskill : acceptedSkill text remote with _ | ⟨remoteId, description⟩
  · rw [hskill] at h
    cases h
    exact WormholeTables.Filled.refl _
  · rw [hskill] at h
    obtain ⟨d, hd, h⟩ := (except_bind_ok_iff _ _ _).mp h
    cases h
    exact ⟨rfl, rfl, [d], List.Forall₂.cons (defines_of_proxyDefinition hd) List.Forall₂.nil, rfl⟩

/-- The loop over the skills of a card. -/
theorem addSkills_filled {cfg : AgentConfig} (remotes : List PyValue) {acc acc' : WormholeTables × AgentStatus}
    (h : remotes.foldlM (addSkill text cfg) acc = .ok acc') :
    acc.1.Filled acc'.1 [] ((remotes.filterMap (acceptedSkill text)).map fun skill => (cfg, skill)) := by
  induction remotes generalizing acc with
  | nil =>
    cases h
    exact WormholeTables.Filled.refl _
  | cons remote remotes ih =>
    rw [List.foldlM_cons] at h
    obtain ⟨mid, hmid, h⟩ := (except_bind_ok_iff _ _ _).mp h
    have hskills : ((remote :: remotes).filterMap (acceptedSkill text)).map (fun skill => (cfg, skill)) =
        (acceptedSkill text remote).toList.map (fun skill => (cfg, skill)) ++
          (remotes.filterMap (acceptedSkill text)).map fun skill => (cfg, skill) := by
      rw [← List.map_append]
      cases hskill : acceptedSkill text remote with
      | none => rw [List.filterMap_cons_none hskill]; rfl
      | some skill => rw [List.filterMap_cons_some hskill]; rfl
    rw [hskills]
    exact (addSkill_filled hmid).trans (ih h)

/-- The entry of an agent in `_clients`, if it answers. -/
def Remote.clientEntry (r : Remote) : List (String × A2AClient) :=
  if r.connected then [(r.cfg.name, r.cfg.client)] else []

theorem addAgent_filled {t t' : WormholeTables} {r : Remote} (h : addAgent text t r = .ok t') :
    t.Filled t' r.clientEntry ((r.accepted text).map fun skill => (r.cfg, skill)) := by
  unfold addAgent at h
  unfold Remote.clientEntry Remote.connected Remote.accepted
  cases hconnect : r.connect with
  | error message =>
    rw [hconnect] at h
    cases h
    exact ⟨rfl, rfl, [], List.Forall₂.nil, (List.append_nil _).symm⟩
  | ok card =>
    rw [hconnect] at h
    obtain ⟨remotes, hremotes, h⟩ := (except_bind_ok_iff _ _ _).mp h
    obtain ⟨filled, hfilled, h⟩ := (except_bind_ok_iff _ _ _).mp h
    cases h
    have hskills := addSkills_filled remotes hfilled
    simp only [hremotes]
    exact ⟨hskills.clients, hskills.skills, hskills.definitions⟩

/-- The loop over the agents. -/
theorem addAgents_filled (remotes : List Remote) {t t' : WormholeTables}
    (h : remotes.foldlM (addAgent text) t = .ok t') :
    t.Filled t' (remotes.flatMap Remote.clientEntry) (listings text remotes) := by
  induction remotes generalizing t with
  | nil =>
    cases h
    exact WormholeTables.Filled.refl _
  | cons r remotes ih =>
    rw [List.foldlM_cons] at h
    obtain ⟨mid, hmid, h⟩ := (except_bind_ok_iff _ _ _).mp h
    exact (addAgent_filled hmid).trans (ih h)

/-! ## The agent -/

namespace WormholeAgent

variable {Time : Type} {now : Time} {registry registry' : List (ManifestRecord Time)} {remotes : List Remote}
  {w : WormholeAgent}

/-- What is there after the constructor. -/
structure Constructed (text : PyText) (remotes : List Remote) (w : WormholeAgent)
    (registry' : List (ManifestRecord Time)) : Prop where
  clients : w.clients = (remotes.flatMap Remote.clientEntry).foldl (fun ys x => Keyed.put Prod.fst x ys) []
  skills : w.skills =
    ((listings text remotes).map Listing.entry).foldl (fun ys x => Keyed.put Prod.fst x ys) []
  definitions : List.Forall₂ Listing.Defines (listings text remotes) (advertised registry')

theorem advertised_put (m : ManifestRecord Time) (hm : m.agentId = agentId) (registry : List (ManifestRecord Time)) :
    advertised (Keyed.put ManifestRecord.agentId m registry) = m.skills := by
  unfold advertised
  rw [← hm, Keyed.get_put_self]
  rfl

theorem constructed_of_init (h : init text now registry remotes = .ok (w, registry')) :
    Constructed text remotes w registry' := by
  unfold init at h
  obtain ⟨tables, htables, h⟩ := (except_bind_ok_iff _ _ _).mp h
  have hfilled := addAgents_filled remotes htables
  obtain ⟨ds, hds, hdefs⟩ := hfilled.definitions
  rw [List.nil_append] at hdefs
  split_ifs at h with hnone
  · obtain ⟨rfl, rfl⟩ := Prod.mk.inj (Except.ok.inj h)
    refine ⟨hfilled.clients, hfilled.skills, ?_⟩
    have hget : Keyed.get ManifestRecord.agentId agentId
        (Keyed.remove ManifestRecord.agentId agentId registry) = none :=
      Keyed.get_eq_none_iff.mpr fun m hm => (Keyed.mem_remove.mp hm).2
    unfold advertised
    rw [hget]
    show List.Forall₂ _ _ []
    rw [← hnone, hdefs]
    exact hds
  · obtain ⟨rfl, rfl⟩ := Prod.mk.inj (Except.ok.inj h)
    refine ⟨hfilled.clients, hfilled.skills, ?_⟩
    rw [advertised_put _ rfl, hdefs]
    exact hds

/-- The client that is kept for a name. -/
def lastClient (remotes : List Remote) (name : String) : Option A2AClient :=
  (remotes.reverse.find? fun r => r.connected && r.cfg.name = name).map (·.cfg.client)

theorem find_clientEntry (remotes : List Remote) (name : String) :
    (remotes.flatMap Remote.clientEntry).reverse.find? (fun entry => decide (entry.1 = name)) =
      (lastClient remotes name).map fun client => (name, client) := by
  unfold lastClient
  induction remotes with
  | nil => rfl
  | cons r remotes ih =>
    rw [List.flatMap_cons, List.reverse_append, List.find?_append, ih, List.reverse_cons, List.find?_append]
    cases hfind : remotes.reverse.find? fun r => r.connected && r.cfg.name = name with
    | some r' => rfl
    | none =>
      unfold Remote.clientEntry
      by_cases hconnected : r.connected = true
      · by_cases hname : r.cfg.name = name
        · simp [hconnected, hname]
        · simp [hconnected, hname]
      · simp [hconnected]

section Constructed

variable (hc : Constructed text remotes w registry')
include hc

/-- A target comes from a card. -/
theorem Constructed.of_get_skills {id : String} {e : String × String × String}
    (h : Keyed.get Prod.fst id w.skills = some e) :
    ∃ l ∈ listings text remotes, proxyId l.1.name l.2.1 = id ∧ e = (id, l.1.name, l.2.1) := by
  rw [hc.skills, Keyed.get_foldl_put] at h
  have hfind : ((listings text remotes).map Listing.entry).reverse.find? (fun e => decide (e.1 = id)) = some e := by
    simpa [Keyed.get] using h
  obtain ⟨l, hl, rfl⟩ := List.mem_map.mp (List.mem_reverse.mp (List.mem_of_find?_eq_some hfind))
  have hfound := List.find?_some hfind
  have hid : proxyId l.1.name l.2.1 = id := of_decide_eq_true hfound
  refine ⟨l, hl, hid, ?_⟩
  unfold Listing.entry
  rw [hid]

/-- A skill that is taken is a target. -/
theorem Constructed.get_skills {r : Remote} (hr : r ∈ remotes) {remoteId : String} (hid : remoteId ∈ r.listed text) :
    Keyed.get Prod.fst (proxyId r.cfg.name remoteId) w.skills =
      some (proxyId r.cfg.name remoteId, r.cfg.name, remoteId) := by
  obtain ⟨l, hl, hcfg, hremote⟩ := exists_listing hr hid
  cases hget : Keyed.get Prod.fst (proxyId r.cfg.name remoteId) w.skills with
  | none =>
    rw [hc.skills, Keyed.get_foldl_put, Option.or_eq_none_iff, List.find?_eq_none] at hget
    refine absurd ?_ (hget.1 l.entry (List.mem_reverse.mpr (List.mem_map_of_mem hl)))
    simp [Listing.entry, hcfg, hremote]
  | some e =>
    obtain ⟨l', -, hl', rfl⟩ := hc.of_get_skills hget
    obtain ⟨hname, hremote'⟩ := proxyId_inj hl'
    rw [hname, hremote']

theorem Constructed.get_clients (name : String) :
    Keyed.get Prod.fst name w.clients = (lastClient remotes name).map fun client => (name, client) := by
  rw [hc.clients, Keyed.get_foldl_put, find_clientEntry]
  exact Option.or_none

/-- A call of a skill that is taken goes to the client that is kept for the agent's name. -/
theorem Constructed.run_eq {r : Remote} (hr : r ∈ remotes) {remoteId : String} (hid : remoteId ∈ r.listed text)
    {client : A2AClient} (hclient : lastClient remotes r.cfg.name = some client)
    (execute : A2AClient → String → PyDict → Except PyError RemoteResult) (payload : PyDict) :
    w.run text execute (proxyId r.cfg.name remoteId) payload = (execute client remoteId payload).map taskOutput := by
  unfold run
  rw [hc.get_skills hr hid]
  simp only [hc.get_clients, hclient, Option.map_some]
  cases execute client remoteId payload with
  | error e => rfl
  | ok result => rfl

end Constructed

/-- An agent whose skills are taken answered, so a client is kept for its name. -/
theorem exists_lastClient {r : Remote} (hr : r ∈ remotes) {remoteId : String} (hid : remoteId ∈ r.listed text) :
    ∃ client, lastClient remotes r.cfg.name = some client := by
  have hconnected : r.connected = true := by
    obtain ⟨skill, hskill, -⟩ := List.mem_map.mp hid
    unfold Remote.accepted at hskill
    unfold Remote.connected
    cases hconnect : r.connect with
    | error message =>
      rw [hconnect] at hskill
      cases hskill
    | ok card => rfl
  cases hfind : remotes.reverse.find? fun r' => r'.connected && r'.cfg.name = r.cfg.name with
  | none =>
    rw [List.find?_eq_none] at hfind
    exact absurd (by simp [hconnected]) (hfind r (List.mem_reverse.mpr hr))
  | some r' => exact ⟨r'.cfg.client, by unfold lastClient; rw [hfind]; rfl⟩

/-- The ids that are taken are of the form that is asked for. -/
theorem matchesLine_of_listed {r : Remote} {remoteId : String} (hid : remoteId ∈ r.listed text) :
    matchesLine text.isIdChar remoteId = true := by
  have haccepted : ∀ {v : PyValue} {skill : String × PyValue}, acceptedSkill text v = some skill →
      matchesLine text.isIdChar skill.1 = true := by
    intro v skill h
    unfold acceptedSkill at h
    split at h
    · split at h
      · split_ifs at h with hmatch
        cases h
        exact hmatch
      · cases h
    · cases h
  obtain ⟨skill, hskill, rfl⟩ := List.mem_map.mp hid
  unfold Remote.accepted at hskill
  split at hskill
  · cases hskill
  · split at hskill
    · cases hskill
    · obtain ⟨v, -, hv⟩ := List.mem_filterMap.mp hskill
      exact haccepted hv

/-- Where no id ends in a newline the ids are registered as they are. -/
theorem registeredId_eq (hu : Unambiguous text remotes) {r : Remote} (hr : r ∈ remotes)
    {remoteId : String} (hid : remoteId ∈ r.listed text) : r.registeredId remoteId = proxyId r.cfg.name remoteId :=
  strip_proxyId _ (matchesLine_of_listed hid) (hu.newline r hr remoteId hid)

theorem lastClient_eq (hu : Unambiguous text remotes) {r : Remote} (hr : r ∈ remotes)
    {remoteId : String} (hid : remoteId ∈ r.listed text) : lastClient remotes r.cfg.name = some r.cfg.client :=
  hu.client r hr (List.ne_nil_of_mem hid)

theorem reaches_of_unambiguous (hc : Constructed text remotes w registry') (hu : Unambiguous text remotes) :
    Reaches text remotes w registry' := by
  have hsame : ∀ r ∈ remotes, ∀ remoteId ∈ r.listed text, ∀ r' ∈ remotes, ∀ remoteId' ∈ r'.listed text,
      r.registeredId remoteId = r'.registeredId remoteId' → r.cfg.name = r'.cfg.name ∧ remoteId = remoteId' := by
    intro r hr remoteId hid r' hr' remoteId' hid' heq
    rw [registeredId_eq hu hr hid, registeredId_eq hu hr' hid'] at heq
    exact proxyId_inj heq
  have hsource : ∀ s ∈ advertised registry', ∃ r ∈ remotes, ∃ remoteId ∈ r.listed text,
      s.skillId = r.registeredId remoteId ∧ s.allowedOrigins = r.cfg.allowedOrigins := by
    intro s hs
    obtain ⟨l, hl, hid, horigins⟩ := mem_right_of_forall₂ hc.definitions hs
    obtain ⟨r, hr, hcfg, hlisted⟩ := exists_remote hl
    refine ⟨r, hr, l.2.1, hlisted, ?_, ?_⟩
    · rw [hid, ← hcfg]
      rfl
    · rw [horigins, hcfg]
  refine ⟨?_, ?_, ?_, ?_⟩
  · intro s hs
    obtain ⟨r, hr, remoteId, hid, hskill, -⟩ := hsource s hs
    exact ⟨r, hr, remoteId, hid, hskill⟩
  · intro r hr remoteId hid execute payload
    rw [registeredId_eq hu hr hid]
    exact hc.run_eq hr hid (lastClient_eq hu hr hid) execute payload
  · intro r hr remoteId hid s hs hskill
    obtain ⟨r', hr', remoteId', hid', hskill', horigins⟩ := hsource s hs
    obtain ⟨hname, rfl⟩ := hsame r' hr' remoteId' hid' r hr remoteId hid (hskill'.symm.trans hskill)
    rw [horigins]
    exact hu.origins r hr remoteId' hid r' hr' hid' hname
  · intro r hr remoteId hid r' hr' remoteId' hid' heq
    obtain ⟨hname, hremote⟩ := hsame r hr remoteId hid r' hr' remoteId' hid' heq
    have hlast := lastClient_eq hu hr hid
    rw [hname, lastClient_eq hu hr' hid'] at hlast
    exact ⟨(Option.some.inj hlast).symm, hremote⟩

/-- The result of a call that a test of the target can tell from an error. -/
def acknowledged : RemoteResult := { state := "TASK_STATE_COMPLETED", text := "", data := [] }

/-- A remote end that answers the calls that are meant for it. -/
def onlyFor (p : A2AClient → String → Bool) (client : A2AClient) (remoteId : String) (_ : PyDict) :
    Except PyError RemoteResult :=
  if p client remoteId then .ok acknowledged else .error (.runtimeError "not for this remote")

theorem unambiguous_of_reaches (hc : Constructed text remotes w registry') (hw : Reaches text remotes w registry') :
    Unambiguous text remotes := by
  have hnewline : ∀ r ∈ remotes, ∀ remoteId ∈ r.listed text, remoteId.toList.getLast? ≠ some '\n' := by
    intro r hr remoteId hid hlast
    obtain ⟨remoteId', hne, hstrip⟩ := strip_proxyId_newline r.cfg.name (matchesLine_of_listed hid) hlast
    have hcalled := hw.called r hr remoteId hid (onlyFor fun _ i => i = remoteId) []
    rw [Remote.registeredId, hstrip] at hcalled
    -- the call is answered, so the id is a target; but then the agent's id for it is another one
    unfold run at hcalled
    cases hget : Keyed.get Prod.fst (proxyId r.cfg.name remoteId') w.skills with
    | none =>
      rw [hget] at hcalled
      simp [onlyFor, Except.map] at hcalled
    | some e =>
      obtain ⟨l, hl, hl', rfl⟩ := hc.of_get_skills hget
      obtain ⟨hname, hremote⟩ := proxyId_inj hl'
      obtain ⟨r', hr', hcfg, hlisted⟩ := exists_remote hl
      obtain ⟨client, hclient⟩ := exists_lastClient hr' hlisted
      have hrun := hc.run_eq hr' hlisted hclient (onlyFor fun _ i => i = remoteId) []
      unfold run at hrun
      rw [hcfg, hl', hcalled, hremote] at hrun
      simp [onlyFor, hne, Except.map] at hrun
  refine ⟨hnewline, ?_, ?_⟩
  · intro r hr hne
    obtain ⟨remoteId, hid⟩ := List.exists_mem_of_ne_nil _ hne
    obtain ⟨client, hclient⟩ := exists_lastClient hr hid
    have hrun := hc.run_eq hr hid hclient (onlyFor fun c _ => c = r.cfg.client) []
    have hcalled := hw.called r hr remoteId hid (onlyFor fun c _ => c = r.cfg.client) []
    rw [Remote.registeredId, strip_proxyId _ (matchesLine_of_listed hid) (hnewline r hr remoteId hid), hrun]
      at hcalled
    by_cases heq : client = r.cfg.client
    · rw [← heq]
      exact hclient
    · simp [onlyFor, heq, Except.map] at hcalled
  · intro r hr remoteId hid r' hr' hid' hname
    obtain ⟨l, hl, hcfg, hremote⟩ := exists_listing hr' hid'
    obtain ⟨s, hs, hskill, horigins⟩ := mem_left_of_forall₂ hc.definitions hl
    rw [← hcfg, ← horigins]
    apply hw.origins r hr remoteId hid s hs
    rw [hskill, hcfg, hname, hremote]
    rfl

/-- Once the agent is constructed, every advertised skill reaches the server that advertised it exactly if
the cards and the configuration are unambiguous. -/
theorem init_reaches_iff (text : PyText) (now : Time) (registry registry' : List (ManifestRecord Time))
    (remotes : List Remote) (w : WormholeAgent) (h : init text now registry remotes = .ok (w, registry')) :
    Reaches text remotes w registry' ↔ Unambiguous text remotes := by
  have hc := constructed_of_init h
  exact ⟨unambiguous_of_reaches hc, reaches_of_unambiguous hc⟩

/-- An agent called `qa`. -/
def qaAt (url : String) : AgentConfig := { name := "qa", url, name_ok := by decide +kernel }

/-- It answers with a card of one skill. -/
def listingReview (url : String) : Remote :=
  { cfg := qaAt url, connect := .ok [("skills", .list [.dict [("id", .str "review")]])] }

/-- Another agent, and its card of two skills. -/
def docsAgent : Remote where
  cfg := { name := "docs", url := "https://b.example", allowedOrigins := some ["api"], name_ok := by decide +kernel }
  connect := .ok [("skills", .list [.dict [("id", .str "review")], .dict [("id", .str "docs.write")]])]

/-- Two agents that list a skill of one id, and a second entry of the first agent with another skill. -/
def distinctRemotes : List Remote :=
  [listingReview "https://a.example", docsAgent,
    { listingReview "https://a.example" with
      connect := .ok [("skills", .list [.dict [("id", .str "lint")], .dict [("id", .str "format")]])] }]

theorem init_reaches_distinct : ∃ w registry',
    init asciiText () [] distinctRemotes = .ok (w, registry') ∧ Reaches asciiText distinctRemotes w registry' ∧
      (advertised registry').map (·.skillId) = ["wormhole.qa.review", "wormhole.docs.review",
        "wormhole.docs.docs.write", "wormhole.qa.lint", "wormhole.qa.format"] := by
  have hraised : raised (init asciiText () [] distinctRemotes) = false := by decide +kernel
  obtain ⟨⟨w, registry'⟩, hinit⟩ := eq_ok_of_not_raised hraised
  have hids : (init asciiText () [] distinctRemotes).toOption.map
      (fun answer => (advertised answer.2).map (·.skillId)) = some ["wormhole.qa.review", "wormhole.docs.review",
        "wormhole.docs.docs.write", "wormhole.qa.lint", "wormhole.qa.format"] := by
    decide +kernel
  rw [hinit] at hids
  refine ⟨w, registry', hinit, (init_reaches_iff asciiText () [] _ _ _ hinit).mpr ⟨?_, ?_, ?_⟩,
    Option.some.inj hids⟩
  · decide +kernel
  · decide +kernel
  · decide +kernel

/-- Two agents of one name: the skill of the first is called on the second. -/
theorem init_repeated_name :
    loadAgents asciiText (fun _ => none)
        [.dict [("name", .str "qa"), ("url", .str "https://a.example")],
          .dict [("name", .str "qa"), ("url", .str "https://b.example")]] =
      .ok [qaAt "https://a.example", qaAt "https://b.example"] ∧
    ∃ w registry', init asciiText () []
        [listingReview "https://a.example", listingReview "https://b.example"] = .ok (w, registry') ∧
      ¬ Reaches asciiText [listingReview "https://a.example", listingReview "https://b.example"] w registry' := by
  obtain ⟨⟨w, registry'⟩, hinit⟩ := eq_ok_of_not_raised
    (show raised (init asciiText () [] [listingReview "https://a.example", listingReview "https://b.example"]) =
      false by decide +kernel)
  refine ⟨by decide +kernel, w, registry', hinit, ?_⟩
  intro hreaches
  have hu := unambiguous_of_reaches (constructed_of_init hinit) hreaches
  exact absurd (hu.client (listingReview "https://a.example") List.mem_cons_self (by decide +kernel))
    (by decide +kernel)

end WormholeAgent

end Galaxz
