import Galaxz.A2A.Proofs.RemoteProofs
import Galaxz.Andromeda.Proofs.VerdictProofs

/-!
# When the Wormhole starts

A definition for a skill that is taken can always be made, so the constructor ends exactly when no client
raises an exception of another kind and the skills of every remote can be iterated and registered. What a
remote does to a routed task stays in that task.
-/

namespace Galaxz

namespace WormholeAgent

open A2AClient

variable {Time : Type} {text : PyText} {isUnicode : String → Bool} {origin : Origins}

/-! ## One skill -/

theorem matchesLine_of_accepted {remote : PyValue} {remoteId : String} {description : PyValue}
    (h : acceptedSkill text remote = some (remoteId, description)) :
    matchesLine text.isIdChar remoteId = true := by
  cases remote with
  | dict items =>
    unfold acceptedSkill at h
    dsimp only at h
    cases hid : PyDict.get items "id" with
    | str id =>
      rw [hid] at h
      dsimp only at h
      by_cases hmatch : matchesLine text.isIdChar id = true
      · rw [if_pos hmatch] at h
        cases h
        exact hmatch
      · rw [if_neg hmatch] at h
        cases h
    | _ =>
      rw [hid] at h
      cases h
  | _ => cases h

theorem strip_remoteId {remoteId : String} (h : matchesLine text.isIdChar remoteId = true) : strip remoteId ≠ "" := by
  have hhead : ∃ c, remoteId.toList.head? = some c ∧ text.isIdChar c = true := by
    rcases matchesLine_cases h with ⟨c, cs, hcs, hc, hds⟩ | ⟨c, cs, hcs, hc, hds⟩
    · cases cs with
      | nil => exact ⟨c, by rw [hcs]; rfl, hc⟩
      | cons d ds => exact ⟨d, by rw [hcs]; rfl, hds d List.mem_cons_self⟩
    · cases cs with
      | nil => exact ⟨c, by rw [hcs]; rfl, hc⟩
      | cons d ds => exact ⟨d, by rw [hcs]; rfl, hds d List.mem_cons_self⟩
  obtain ⟨c, hfirst, hc⟩ := hhead
  exact strip_ne_empty hfirst (isPySpace_of_isIdChar hc)

/-- The definition of a skill that is taken passes its validators. -/
theorem proxyDefinition_returns (cfg : AgentConfig) {remoteId : String} (description : PyValue)
    (h : matchesLine text.isIdChar remoteId = true) :
    ∃ d, proxyDefinition text cfg remoteId description = .ok d := by
  have hid : strip (proxyId cfg.name remoteId) ≠ "" :=
    strip_ne_empty (by rw [proxyId_toList]; rfl) (proxyId_head cfg.name remoteId 'w' (by rw [proxyId_toList]; rfl))
  have hdescription : strip (proxyDescription text remoteId description) ≠ "" := by
    unfold proxyDescription
    dsimp only
    split_ifs with hnone
    · exact strip_remoteId h
    · rw [strip_strip]
      exact hnone
  have hconfidence : ((PyFloat.finite (9 / 10)).le (.finite 1) &&
      PyFloat.le (.finite 0) (.finite (9 / 10))) = true := by decide +kernel
  unfold proxyDefinition SkillRecord.validate validateNonEmpty
  rw [if_neg hid, if_neg hdescription]
  exact ⟨_, (if_pos hconfidence).trans (if_pos (show (0 : ℤ) ≤ 1000 by decide))⟩

/-! ## One agent -/

variable {cfg : AgentConfig}

/-- The loop over the skills leaves the statuses, and of the agent's own status all but the skills. -/
structure SameStatus (acc acc' : WormholeTables × AgentStatus) : Prop where
  status : acc'.1.status = acc.1.status
  name : acc'.2.name = acc.2.name
  ok : acc'.2.ok = acc.2.ok
  error : acc'.2.error = acc.2.error

theorem addSkill_returns (acc : WormholeTables × AgentStatus) (remote : PyValue) :
    ∃ acc', addSkill text cfg acc remote = .ok acc' ∧ SameStatus acc acc' := by
  unfold addSkill
  rcases hskill : acceptedSkill text remote with _ | ⟨remoteId, description⟩
  · exact ⟨acc, rfl, rfl, rfl, rfl, rfl⟩
  · obtain ⟨d, hd⟩ := proxyDefinition_returns cfg description (matchesLine_of_accepted hskill)
    exact ⟨_, (except_bind_ok_iff _ _ _).mpr ⟨d, hd, rfl⟩, rfl, rfl, rfl, rfl⟩

theorem addSkills_returns (remotes : List PyValue) (acc : WormholeTables × AgentStatus) :
    ∃ acc', remotes.foldlM (addSkill text cfg) acc = .ok acc' ∧ SameStatus acc acc' := by
  induction remotes generalizing acc with
  | nil => exact ⟨acc, rfl, rfl, rfl, rfl, rfl⟩
  | cons remote remotes ih =>
    obtain ⟨mid, hmid, hfirst⟩ := @addSkill_returns text cfg acc remote
    obtain ⟨acc', hacc', hrest⟩ := ih mid
    refine ⟨acc', ?_, ?_⟩
    · rw [List.foldlM_cons]
      exact (except_bind_ok_iff _ _ _).mpr ⟨mid, hmid, hacc'⟩
    · exact ⟨hrest.status.trans hfirst.status, hrest.name.trans hfirst.name, hrest.ok.trans hfirst.ok,
        hrest.error.trans hfirst.error⟩

/-- The status of an agent after its turn, by what `connect` did. -/
def Reported (remote : Remote) (status : AgentStatus) : Prop :=
  status.name = remote.cfg.name ∧
    ((∃ message, remote.connect = .error message ∧ status.ok = false ∧ status.error = some message) ∨
      ∃ card remotes, remote.connect = .ok card ∧ iterated (PyDict.get card "skills") = .ok remotes ∧
        status.ok = true)

theorem addAgent_reported {t t' : WormholeTables} {remote : Remote} (h : addAgent text t remote = .ok t') :
    ∃ status, t'.status = t.status ++ [status] ∧ Reported remote status := by
  unfold addAgent at h
  cases hconnect : remote.connect with
  | error message =>
    rw [hconnect] at h
    cases h
    exact ⟨_, rfl, rfl, Or.inl ⟨message, hconnect, rfl, rfl⟩⟩
  | ok card =>
    rw [hconnect] at h
    obtain ⟨remotes, hremotes, h⟩ := (except_bind_ok_iff _ _ _).mp h
    obtain ⟨filled, hfilled, h⟩ := (except_bind_ok_iff _ _ _).mp h
    cases h
    obtain ⟨acc', hacc', hsame⟩ := @addSkills_returns text remote.cfg remotes
      ({ t with clients := Keyed.put Prod.fst (remote.cfg.name, remote.cfg.client) t.clients },
        { name := remote.cfg.name, allowedOrigins := remote.cfg.allowedOrigins, ok := true })
    rw [hacc'] at hfilled
    cases hfilled
    refine ⟨filled.2, ?_, hsame.name, Or.inr ⟨card, remotes, hconnect, hremotes, hsame.ok⟩⟩
    show filled.1.status ++ [filled.2] = _
    rw [hsame.status]

theorem addAgent_returns (t : WormholeTables) {remote : Remote}
    (h : ∀ card, remote.connect = .ok card → ∃ remotes, iterated (PyDict.get card "skills") = .ok remotes) :
    ∃ t', addAgent text t remote = .ok t' := by
  unfold addAgent
  cases hconnect : remote.connect with
  | error message => exact ⟨_, rfl⟩
  | ok card =>
    obtain ⟨remotes, hremotes⟩ := h card hconnect
    obtain ⟨acc', hacc', -⟩ := @addSkills_returns text remote.cfg remotes
      ({ t with clients := Keyed.put Prod.fst (remote.cfg.name, remote.cfg.client) t.clients },
        { name := remote.cfg.name, allowedOrigins := remote.cfg.allowedOrigins, ok := true })
    exact ⟨_, (except_bind_ok_iff _ _ _).mpr ⟨remotes, hremotes, (except_bind_ok_iff _ _ _).mpr ⟨acc', hacc', rfl⟩⟩⟩

/-! ## What a remote costs -/

theorem forM_ok_iff {α : Type} (f : α → Except PyError Unit) (xs : List α) :
    xs.forM f = .ok () ↔ ∀ x ∈ xs, f x = .ok () := by
  induction xs with
  | nil => exact ⟨fun _ x hx => (by cases hx), fun _ => rfl⟩
  | cons x xs ih =>
    have hcons : (x :: xs).forM f = (f x).bind fun _ => xs.forM f := rfl
    rw [hcons, except_bind_ok_iff, List.forall_mem_cons, ← ih]
    exact ⟨fun ⟨_, hx, hxs⟩ => ⟨hx, hxs⟩, fun ⟨hx, hxs⟩ => ⟨(), hx, hxs⟩⟩

theorem checkTexts_ok_iff {remote : PyValue} :
    checkTexts text isUnicode cfg remote = .ok () ↔
      ∀ remoteId description, acceptedSkill text remote = some (remoteId, description) →
        isUnicode (proxyId cfg.name remoteId) = true ∧
          isUnicode (proxyDescription text remoteId description) = true := by
  unfold checkTexts
  rcases acceptedSkill text remote with _ | ⟨remoteId, description⟩
  · exact ⟨fun _ _ _ h => (by cases h), fun _ => rfl⟩
  · dsimp only
    by_cases hboth : isUnicode (proxyId cfg.name remoteId) = true ∧
        isUnicode (proxyDescription text remoteId description) = true
    · rw [if_pos hboth]
      refine ⟨fun _ remoteId' description' h => ?_, fun _ => rfl⟩
      cases h
      exact hboth
    · rw [if_neg hboth]
      exact ⟨fun h => (by cases h), fun h => absurd (h remoteId description rfl) hboth⟩

theorem skillsFit_iff {skills : PyValue} :
    SkillsFit text isUnicode cfg skills ↔ ∃ remotes, iterated skills = .ok remotes ∧
      remotes.forM (checkTexts text isUnicode cfg) = .ok () := by
  unfold SkillsFit
  simp only [forM_ok_iff, checkTexts_ok_iff]

theorem Lists.unique {c : A2AClient} {r : ConnectRun} {card : PyDict} {skills skills' : PyValue}
    (h : Lists c r card skills) (h' : Lists c r card skills') : skills = skills' := by
  cases h with
  | extended hasks hresult hskills =>
    cases h' with
    | extended hasks' hresult' hskills' =>
      rw [← hskills, hresult.unique hresult', hskills']
    | card hno => exact absurd ⟨hasks, _, _, hresult, hskills⟩ hno
  | card hno =>
    cases h' with
    | extended hasks hresult hskills => exact absurd ⟨hasks, _, _, hresult, hskills⟩ hno
    | card _ => rfl

theorem connects_unique {c : A2AClient} {r : ConnectRun} {card card' : PyDict}
    (h : Connects origin c r card) (h' : Connects origin c r card') : card = card' := by
  obtain ⟨size, interfaces, hcard, -⟩ := h
  obtain ⟨size', interfaces', hcard', -⟩ := h'
  rw [hcard] at hcard'
  cases hcard'
  rfl

/-- A configured agent with what its client did. -/
def asRemote (text : PyText) (origin : Origins) (r : A2ARemote) : Remote where
  cfg := r.cfg
  connect := match r.cfg.client.connect text origin r.replies with
    | .ok (card, _) => .ok card
    | .error (.a2aError message) => .error message
    | .error (.other _) => .error ""

/-- The turn of a remote returns exactly when the remote fits, and then it is the turn of its agent. -/
theorem addRemote_ok_iff {t t' : WormholeTables} {r : A2ARemote} :
    addRemote text isUnicode origin t r = .ok t' ↔ RemoteFits text isUnicode origin r ∧
      addAgent text t (asRemote text origin r) = .ok t' := by
  unfold addRemote RemoteFits asRemote
  rcases hconnect : r.cfg.client.connect text origin r.replies with (message | e) | ⟨card', url⟩
  · have htame : Tame (r.cfg.client.connect text origin r.replies) := by
      rw [hconnect]
      exact tame_a2aError message
    have hfits := tame_connect_iff.mp htame
    refine ⟨fun h => ⟨⟨hfits, fun card hcard => ?_⟩, h⟩, fun h => h.2⟩
    obtain ⟨card', url, hok, -⟩ := connect_of_connects text hfits hcard
    rw [hconnect] at hok
    cases hok
  · constructor
    · intro h
      cases h
    · rintro ⟨⟨hfits, -⟩, -⟩
      have htame := (@tame_connect_iff text origin r.cfg.client r.replies).mpr hfits
      rw [hconnect] at htame
      exact absurd htame (not_tame_other e)
  · have hfits : ConnectFits origin r.cfg.client r.replies := by
      refine (@tame_connect_iff text origin r.cfg.client r.replies).mp ?_
      rw [hconnect]
      exact tame_ok _
    obtain ⟨card, hcard, hlists⟩ := connect_ok hconnect
    have hskills : SkillsFit text isUnicode r.cfg (PyDict.get card' "skills") ↔
        ∀ card, Connects origin r.cfg.client r.replies card → ∀ skills,
          Lists r.cfg.client r.replies card skills → SkillsFit text isUnicode r.cfg skills := by
      constructor
      · intro h card₁ hcard₁ skills hskills
        cases connects_unique hcard hcard₁
        rw [hskills.unique hlists]
        exact h
      · exact fun h => h card hcard _ hlists
    rw [← hskills, skillsFit_iff]
    constructor
    · intro h
      obtain ⟨remotes, hremotes, h⟩ := (except_bind_ok_iff _ _ _).mp h
      obtain ⟨_, hcheck, h⟩ := (except_bind_ok_iff _ _ _).mp h
      exact ⟨⟨hfits, remotes, hremotes, hcheck⟩, h⟩
    · rintro ⟨⟨-, remotes, hremotes, hcheck⟩, h⟩
      exact (except_bind_ok_iff _ _ _).mpr ⟨remotes, hremotes, (except_bind_ok_iff _ _ _).mpr ⟨(), hcheck, h⟩⟩

/-! ## The constructor -/

theorem asRemote_ok_iff {r : A2ARemote} {card : PyDict} :
    (asRemote text origin r).connect = .ok card ↔
      ∃ url, r.cfg.client.connect text origin r.replies = .ok (card, url) := by
  unfold asRemote
  rcases r.cfg.client.connect text origin r.replies with (message | e) | ⟨card', url⟩
  · exact ⟨fun h => (by cases h), fun ⟨_, h⟩ => (by cases h)⟩
  · exact ⟨fun h => (by cases h), fun ⟨_, h⟩ => (by cases h)⟩
  · constructor
    · intro h
      cases h
      exact ⟨url, rfl⟩
    · rintro ⟨_, h⟩
      cases h
      rfl

theorem asRemote_error {r : A2ARemote} {message : String} (hfits : RemoteFits text isUnicode origin r)
    (h : (asRemote text origin r).connect = .error message) :
    r.cfg.client.connect text origin r.replies = .error (.a2aError message) := by
  rcases tame_cases ((@tame_connect_iff text origin r.cfg.client r.replies).mpr hfits.1) with
    ⟨⟨card, url⟩, hok⟩ | ⟨message', herror⟩
  · rw [asRemote_ok_iff.mpr ⟨url, hok⟩] at h
    cases h
  · unfold asRemote at h
    rw [herror] at h
    cases h
    exact herror

/-- The skills of a card that the client returns fit. -/
theorem skillsFit_of_connect {r : A2ARemote} {card : PyDict} (hfits : RemoteFits text isUnicode origin r)
    (h : (asRemote text origin r).connect = .ok card) :
    SkillsFit text isUnicode r.cfg (PyDict.get card "skills") := by
  obtain ⟨url, hok⟩ := asRemote_ok_iff.mp h
  obtain ⟨card', hcard', hlists⟩ := connect_ok hok
  exact hfits.2 card' hcard' _ hlists

theorem addRemotes_ok (remotes : List A2ARemote) {t t' : WormholeTables}
    (h : remotes.foldlM (addRemote text isUnicode origin) t = .ok t') :
    (∀ r ∈ remotes, RemoteFits text isUnicode origin r) ∧
      (remotes.map (asRemote text origin)).foldlM (addAgent text) t = .ok t' ∧
      ∃ statuses, t'.status = t.status ++ statuses ∧
        List.Forall₂ (fun r status => Reported (asRemote text origin r) status) remotes statuses := by
  induction remotes generalizing t with
  | nil =>
    cases h
    exact ⟨fun r hr => (by cases hr), rfl, [], (List.append_nil _).symm, List.Forall₂.nil⟩
  | cons r remotes ih =>
    rw [List.foldlM_cons] at h
    obtain ⟨mid, hmid, h⟩ := (except_bind_ok_iff _ _ _).mp h
    obtain ⟨hfits, hadd⟩ := addRemote_ok_iff.mp hmid
    obtain ⟨status, hstatus, hreported⟩ := addAgent_reported hadd
    obtain ⟨hall, hfold, statuses, hstatuses, hrest⟩ := ih h
    refine ⟨List.forall_mem_cons.mpr ⟨hfits, hall⟩, ?_, status :: statuses, ?_, List.Forall₂.cons hreported hrest⟩
    · rw [List.map_cons, List.foldlM_cons]
      exact (except_bind_ok_iff _ _ _).mpr ⟨mid, hadd, hfold⟩
    · rw [hstatuses, hstatus, List.append_assoc]
      rfl

theorem addRemotes_of_fits {remotes : List A2ARemote} (h : ∀ r ∈ remotes, RemoteFits text isUnicode origin r)
    (t : WormholeTables) : ∃ t', remotes.foldlM (addRemote text isUnicode origin) t = .ok t' := by
  induction remotes generalizing t with
  | nil => exact ⟨t, rfl⟩
  | cons r remotes ih =>
    obtain ⟨hfits, hrest⟩ := List.forall_mem_cons.mp h
    have hskills : ∀ card, (asRemote text origin r).connect = .ok card →
        ∃ skills, iterated (PyDict.get card "skills") = .ok skills := fun card hcard =>
      (skillsFit_of_connect hfits hcard).imp fun _ hboth => hboth.1
    obtain ⟨mid, hmid⟩ := addAgent_returns t hskills
    obtain ⟨t', ht'⟩ := ih hrest mid
    refine ⟨t', ?_⟩
    rw [List.foldlM_cons]
    exact (except_bind_ok_iff _ _ _).mpr ⟨mid, addRemote_ok_iff.mpr ⟨hfits, hmid⟩, ht'⟩

variable {now : Time} {registry : List (ManifestRecord Time)} {remotes : List A2ARemote}

/-- The end of the constructor is that on agents whose clients have been called. -/
theorem init_finish {tables : WormholeTables} {agents : List Remote}
    (h : agents.foldlM (addAgent text) {} = .ok tables) :
    init text now registry agents = .ok (finish now registry tables) := by
  refine (except_bind_ok_iff _ _ _).mpr ⟨tables, h, ?_⟩
  unfold finish
  dsimp only
  split_ifs with hnone
  · rfl
  · rfl

theorem finish_status (tables : WormholeTables) : (finish now registry tables).1.status = tables.status := by
  unfold finish
  dsimp only
  split_ifs
  · rfl
  · rfl

/-- A remote is marked by its status, when its skills are among the registered ones. -/
theorem marked_of_reported {r : A2ARemote} {status : AgentStatus} {skills : List SkillRecord}
    (hfits : RemoteFits text isUnicode origin r) (h : Reported (asRemote text origin r) status)
    (hskills : ∀ skill ∈ (asRemote text origin r).accepted text, ∃ s ∈ skills,
      Listing.Defines (r.cfg, skill) s) : Marked text origin skills r status := by
  obtain ⟨hname, ⟨message, hconnect, hok, herror⟩ | ⟨card, listed, hconnect, hlisted, hok⟩⟩ := h
  · exact ⟨hname, Or.inl ⟨message, asRemote_error hfits hconnect, hok, herror⟩⟩
  · obtain ⟨url, hreturned⟩ := asRemote_ok_iff.mp hconnect
    refine ⟨hname, Or.inr ⟨card, url, listed, hreturned, hlisted, hok, fun remote hremote skill hskill => ?_⟩⟩
    have haccepted : skill ∈ (asRemote text origin r).accepted text := by
      unfold Remote.accepted
      simp only [hconnect, hlisted]
      exact List.mem_filterMap.mpr ⟨remote, hremote, hskill⟩
    obtain ⟨s, hs, hdefines⟩ := hskills skill haccepted
    exact ⟨s, hs, hdefines.1⟩

/-- All remotes are marked by their statuses. -/
theorem all_marked {remotes : List A2ARemote} {statuses : List AgentStatus} {skills : List SkillRecord}
    (h : List.Forall₂ (fun r status => Reported (asRemote text origin r) status) remotes statuses)
    (hfits : ∀ r ∈ remotes, RemoteFits text isUnicode origin r)
    (hskills : ∀ r ∈ remotes, ∀ skill ∈ (asRemote text origin r).accepted text, ∃ s ∈ skills,
      Listing.Defines (r.cfg, skill) s) : List.Forall₂ (Marked text origin skills) remotes statuses := by
  induction h with
  | nil => exact List.Forall₂.nil
  | cons hfirst _ ih =>
    obtain ⟨hfit, hfits⟩ := List.forall_mem_cons.mp hfits
    obtain ⟨hskill, hskills⟩ := List.forall_mem_cons.mp hskills
    exact List.Forall₂.cons (marked_of_reported hfit hfirst hskill) (ih hfits hskills)

/-- The constructor finishes exactly when every remote fits. -/
theorem finishes_iff :
    Finishes text isUnicode origin now registry remotes ↔ ∀ r ∈ remotes, RemoteFits text isUnicode origin r := by
  constructor
  · rintro ⟨w, registry', hstart, -⟩
    obtain ⟨tables, htables, -⟩ := (except_bind_ok_iff _ _ _).mp hstart
    exact (addRemotes_ok remotes htables).1
  · intro hfits
    obtain ⟨tables, htables⟩ := addRemotes_of_fits hfits {}
    obtain ⟨-, hagents, statuses, hstatuses, hreported⟩ := addRemotes_ok remotes htables
    refine ⟨(finish now registry tables).1, (finish now registry tables).2,
      (except_bind_ok_iff _ _ _).mpr ⟨tables, htables, rfl⟩, ?_⟩
    have hconstructed : Constructed text (remotes.map (asRemote text origin)) (finish now registry tables).1
        (finish now registry tables).2 := constructed_of_init (init_finish hagents)
    rw [finish_status, hstatuses, List.nil_append]
    refine all_marked hreported hfits fun r hr skill hskill => ?_
    exact mem_left_of_forall₂ hconstructed.definitions (mem_listings.mpr
      ⟨asRemote text origin r, List.mem_map.mpr ⟨r, hr, rfl⟩, rfl, hskill⟩)

/-! ## A routed task -/

theorem fitsSchema_taskOutput (result : RemoteResult) : Andromeda.FitsSchema (taskOutput result) := by
  have hone : Andromeda.isConfidence (.float (.finite 1)) = true := by decide +kernel
  have hzero : Andromeda.isConfidence (.float (.finite 0)) = true := by decide +kernel
  unfold Andromeda.FitsSchema taskOutput
  by_cases hstate : result.state = "TASK_STATE_COMPLETED"
  · simp only [hstate, if_true]
    exact ⟨rfl, hone, rfl, rfl⟩
  · simp only [hstate, if_false]
    exact ⟨rfl, hzero, rfl, rfl⟩

/-- Whatever the client does, the node of a routed task goes on: a task whose run raised has failed, and is
escalated. -/
theorem received_run (cfg : Andromeda.Config) (s : AndromedaState) (w : WormholeAgent)
    (execute : A2AClient → String → PyDict → Except PyError RemoteResult) (skillId : String) (payload : PyDict)
    (describe : PyError → String) :
    ∃ s', Andromeda.received cfg s (((w.run text execute skillId payload).map .dict).mapError describe) = .ok s' ∧
      (raised (w.run text execute skillId payload) = true →
        s'.status = .failed ∧ Andromeda.afterExecute cfg s' = .escalate) := by
  cases hrun : w.run text execute skillId payload with
  | error e =>
    refine ⟨_, rfl, fun _ => ⟨rfl, ?_⟩⟩
    rfl
  | ok output =>
    have hfits : Andromeda.FitsSchema output := by
      unfold run at hrun
      split at hrun
      · cases hrun
      · split at hrun
        · cases hrun
        · obtain ⟨result, -, hrun⟩ := (except_bind_ok_iff _ _ _).mp hrun
          cases hrun
          exact fitsSchema_taskOutput result
    have hanswer : ∀ result, (.ok (.dict output) : Except String PyValue) = .ok (.dict result) →
        Andromeda.FitsSchema result := by
      intro result h
      cases h
      exact hfits
    obtain ⟨s', hs', -⟩ := Andromeda.received_ok cfg s hanswer
    exact ⟨s', hs', fun h => by cases h⟩

/-- `connect` and `execute` end properly exactly when what the remote answers fits, the constructor finishes
exactly when every remote fits, and a routed task never crashes. -/
theorem remotes_contained_iff (text : PyText) (isUnicode : String → Bool) (origin : Origins) (now : Time)
    (registry : List (ManifestRecord Time)) :
    (∀ (c : A2AClient) (r : ConnectRun), Tame (c.connect text origin r) ↔ ConnectFits origin c r) ∧
    (∀ (c : A2AClient) (connected : Bool) (r : ConnectRun) (x : ExecuteRun),
      Tame (c.execute text origin connected r x) ↔ ExecuteFits origin c connected r x) ∧
    (∀ remotes : List A2ARemote, Finishes text isUnicode origin now registry remotes ↔
      ∀ r ∈ remotes, RemoteFits text isUnicode origin r) ∧
    ∀ (cfg : Andromeda.Config) (s : AndromedaState) (w : WormholeAgent)
      (execute : A2AClient → String → PyDict → Except PyError RemoteResult) (skillId : String) (payload : PyDict)
      (describe : PyError → String),
      ∃ s', Andromeda.received cfg s (((w.run text execute skillId payload).map .dict).mapError describe) = .ok s' ∧
        (raised (w.run text execute skillId payload) = true →
          s'.status = .failed ∧ Andromeda.afterExecute cfg s' = .escalate) :=
  ⟨fun _ _ => tame_connect_iff, fun _ _ _ _ => tame_execute_iff, fun _ => finishes_iff,
    fun cfg s w execute skillId payload describe => received_run cfg s w execute skillId payload describe⟩

/-! ## A remote that costs more -/

/-- The host of every url. -/
def oneHost : Origins := fun _ => some ("https", "remote.example")

def demoAgent : AgentConfig := { name := "remote", url := "https://remote.example", name_ok := by decide +kernel }

/-- A card whose interfaces are the number five. -/
def numberCard : ConnectRun where
  card := .answered 200 30 (.json (.dict [("supportedInterfaces", .int 5)]))
  extended := .httpError "ConnectError"

/-- A reply whose task is `null`. -/
def nullTask : ExecuteRun where
  send := .answered 200 60 (.json (.dict [("result", .dict [("task", .none)])]))
  polls := []
  cancel := .httpError "ConnectError"

/-- The card raises a `TypeError`, the task an `AttributeError`, and the remote with the card keeps the
constructor from finishing. -/
theorem numberCard_escapes :
    ¬Tame (demoAgent.client.connect asciiText oneHost numberCard) ∧
      ¬Tame (demoAgent.client.execute asciiText oneHost true numberCard nullTask) ∧
      ¬Finishes asciiText (fun _ => true) oneHost () [] [{ cfg := demoAgent, replies := numberCard }] := by
  have hconnect : ¬Tame (demoAgent.client.connect asciiText oneHost numberCard) := fun h => h _ rfl
  refine ⟨hconnect, fun h => h _ rfl, fun h => hconnect (tame_connect_iff.mpr ?_)⟩
  exact (finishes_iff.mp h _ List.mem_cons_self).1

end WormholeAgent

end Galaxz
