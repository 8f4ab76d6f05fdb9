import Galaxz.A2A.Client
import Galaxz.A2A.Proofs.WormholeProofs

/-!
# What a remote agent costs

Which replies the client reads without an exception of its own is said for each of its functions, down to the
loops over values that a remote wrote. The constructor of the Wormhole ends exactly when no remote makes its
client raise anything else and their skills can be registered.
-/

namespace Galaxz

namespace A2AClient

variable {text : PyText} {origin : Origins} {c : A2AClient} {α β : Type}

/-! ## Exceptions that are caught -/

theorem tame_ok (a : α) : Tame (.ok a : Except ClientFailure α) := fun e h => by cases h

theorem tame_a2aError (message : String) : Tame (.error (.a2aError message) : Except ClientFailure α) :=
  fun e h => by cases h

theorem not_tame_other (e : PyError) : ¬Tame (.error (.other e) : Except ClientFailure α) := fun h => h e rfl

/-- A computation that is tame returns, or raises the client's own exception. -/
theorem tame_cases {x : Except ClientFailure α} (h : Tame x) :
    (∃ a, x = .ok a) ∨ ∃ message, x = .error (.a2aError message) := by
  rcases x with (message | e) | a
  · exact Or.inr ⟨message, rfl⟩
  · exact absurd rfl (h e)
  · exact Or.inl ⟨a, rfl⟩

theorem tame_bind_iff (x : Except ClientFailure α) (f : α → Except ClientFailure β) :
    Tame (x.bind f) ↔ Tame x ∧ ∀ a, x = .ok a → Tame (f a) := by
  rcases x with (message | e) | a
  · exact ⟨fun _ => ⟨tame_a2aError message, fun a h => by cases h⟩, fun _ => tame_a2aError message⟩
  · exact ⟨fun h => absurd h (not_tame_other e), fun h => absurd h.1 (not_tame_other e)⟩
  · exact ⟨fun h => ⟨tame_ok a, fun b hb => by cases hb; exact h⟩, fun h => h.2 a rfl⟩

theorem uncaught_ok_iff {x : Except PyError α} {a : α} : uncaught x = .ok a ↔ x = .ok a := by
  unfold uncaught
  cases x with
  | error e => exact ⟨fun h => (by cases h), fun h => (by cases h)⟩
  | ok b =>
    constructor
    · intro h
      cases h
      rfl
    · intro h
      cases h
      rfl

theorem tame_uncaught_iff {x : Except PyError α} : Tame (uncaught x) ↔ ∃ a, x = .ok a := by
  cases x with
  | error e => exact ⟨fun h => absurd h (not_tame_other e), fun ⟨a, ha⟩ => (by cases ha)⟩
  | ok a => exact ⟨fun _ => ⟨a, rfl⟩, fun _ => tame_ok a⟩

/-! ## One request -/

variable {reply : HttpReply} {method : String}

theorem fetchCard_ok_iff {card : PyDict} :
    fetchCard reply = .ok card ↔ ∃ size, reply = .answered 200 size (.json (.dict card)) := by
  constructor
  · intro h
    cases reply with
    | httpError name => cases h
    | raised e => cases h
    | answered status size body =>
      unfold fetchCard at h
      dsimp only at h
      split_ifs at h with hstatus
      obtain rfl : status = 200 := not_not.mp hstatus
      cases body with
      | invalid => cases h
      | tooDeep => cases h
      | json v =>
        cases v with
        | dict items =>
          cases h
          exact ⟨size, rfl⟩
        | _ => cases h
  · rintro ⟨size, rfl⟩
    rfl

theorem tame_fetchCard_iff : Tame (fetchCard reply) ↔ Readable (fun _ => True) reply := by
  constructor
  · intro h
    refine ⟨?_, ?_⟩
    · rintro e rfl
      exact not_tame_other e h
    · rintro size - rfl
      exact not_tame_other _ h
  · rintro ⟨hraised, hdeep⟩
    cases reply with
    | httpError name => exact tame_a2aError _
    | raised e => exact absurd rfl (hraised e)
    | answered status size body =>
      unfold fetchCard
      dsimp only
      split_ifs with hstatus
      · exact tame_a2aError _
      · obtain rfl : status = 200 := not_not.mp hstatus
        cases body with
        | invalid => exact tame_a2aError _
        | tooDeep => exact absurd rfl (hdeep size trivial)
        | json v =>
          cases v with
          | dict items => exact tame_ok items
          | _ => exact tame_a2aError _

/-- What a call makes of a response that it reads as an object. -/
theorem call_object {size : ℕ} {payload : PyDict} (h : Small size) :
    (∃ result, call text method (.answered 200 size (.json (.dict payload))) = .ok result ∧
        (∀ error, PyDict.get payload "error" ≠ .dict error) ∧ PyDict.get payload "result" = .dict result) ∨
      ((∃ message, call text method (.answered 200 size (.json (.dict payload))) = .error (.a2aError message)) ∧
        ∀ result, ¬((∀ error, PyDict.get payload "error" ≠ .dict error) ∧
          PyDict.get payload "result" = .dict result)) := by
  have hsize : ¬MAX_RESPONSE_BYTES < size := Nat.not_lt.mpr h
  unfold call
  dsimp only
  rw [if_neg (not_not.mpr rfl), if_neg hsize]
  cases herror : PyDict.get payload "error" with
  | dict error => exact Or.inr ⟨⟨_, rfl⟩, fun result hno => hno.1 error rfl⟩
  | _ =>
    cases hresult : PyDict.get payload "result" with
    | dict result => exact Or.inl ⟨result, rfl, fun error => PyValue.noConfusion, rfl⟩
    | _ => exact Or.inr ⟨⟨_, rfl⟩, fun result hno => by cases hno.2⟩

theorem call_ok_iff {result : PyDict} : call text method reply = .ok result ↔ HasResult reply result := by
  constructor
  · intro h
    cases reply with
    | httpError name => cases h
    | raised e => cases h
    | answered status size body =>
      have hcall := h
      unfold call at h
      dsimp only at h
      split_ifs at h with hstatus hsize
      obtain rfl : status = 200 := not_not.mp hstatus
      have hsmall : Small size := Nat.not_lt.mp hsize
      cases body with
      | invalid => cases h
      | tooDeep => cases h
      | json v =>
        cases v with
        | dict payload =>
          rcases @call_object text method size payload hsmall with ⟨result', hok, hobject⟩ | ⟨⟨message, herror⟩, -⟩
          · rw [hok] at hcall
            cases hcall
            exact ⟨size, payload, hsmall, rfl, hobject⟩
          · rw [herror] at hcall
            cases hcall
        | _ => cases h
  · rintro ⟨size, payload, hsmall, rfl, hobject⟩
    rcases @call_object text method size payload hsmall with ⟨result', hok, -, hresult'⟩ | ⟨-, hno⟩
    · rw [hobject.2] at hresult'
      cases hresult'
      exact hok
    · exact absurd hobject (hno result)

theorem tame_call_iff : Tame (call text method reply) ↔ Readable Small reply := by
  constructor
  · intro h
    refine ⟨?_, ?_⟩
    · rintro e rfl
      exact not_tame_other e h
    · rintro size hsmall rfl
      have hsize : ¬MAX_RESPONSE_BYTES < size := Nat.not_lt.mpr hsmall
      unfold call at h
      dsimp only at h
      rw [if_neg (not_not.mpr rfl), if_neg hsize] at h
      exact not_tame_other _ h
  · rintro ⟨hraised, hdeep⟩
    cases reply with
    | httpError name => exact tame_a2aError _
    | raised e => exact absurd rfl (hraised e)
    | answered status size body =>
      by_cases hstatus : status = 200
      · subst hstatus
        by_cases hsize : MAX_RESPONSE_BYTES < size
        · unfold call
          dsimp only
          rw [if_neg (not_not.mpr rfl), if_pos hsize]
          exact tame_a2aError _
        · have hsmall : Small size := Nat.not_lt.mp hsize
          cases body with
          | json v =>
            cases v with
            | dict payload =>
              rcases @call_object text method size payload hsmall with ⟨result, hok, -⟩ | ⟨⟨message, herror⟩, -⟩
              · rw [hok]
                exact tame_ok result
              · rw [herror]
                exact tame_a2aError message
            | _ =>
              unfold call
              dsimp only
              rw [if_neg (not_not.mpr rfl), if_neg hsize]
              exact tame_a2aError _
          | invalid =>
            unfold call
            dsimp only
            rw [if_neg (not_not.mpr rfl), if_neg hsize]
            exact tame_a2aError _
          | tooDeep => exact absurd rfl (hdeep size hsmall)
      · unfold call
        dsimp only
        rw [if_pos hstatus]
        exact tame_a2aError _

theorem HasResult.unique {result result' : PyDict} (h : HasResult reply result) (h' : HasResult reply result') :
    result = result' := by
  obtain ⟨size, payload, -, rfl, -, hresult⟩ := h
  obtain ⟨size', payload', -, hreply, -, hresult'⟩ := h'
  cases hreply
  rw [hresult] at hresult'
  exact PyValue.dict.inj hresult'

theorem HasResult.readable {result : PyDict} (h : HasResult reply result) : Readable Small reply := by
  obtain ⟨size, payload, -, rfl, -⟩ := h
  exact ⟨fun e he => (by cases he), fun size' _ hdeep => (by cases hdeep)⟩

/-! ## The interface -/

/-- What is picked fits, up to its origins. -/
theorem interfaceUrl_some_iff {v : PyValue} {url : String} :
    interfaceUrl origin c v = .ok (some url) ↔ Picks origin c v url := by
  constructor
  · intro h
    cases v with
    | dict interface =>
      unfold interfaceUrl at h
      dsimp only at h
      cases hbinding : PyDict.get interface "protocolBinding" with
      | str binding =>
        rw [hbinding] at h
        dsimp only at h
        by_cases hkind : binding ∈ JSONRPC_BINDINGS ∧ PyDict.get interface "protocolVersion" = .str A2A_VERSION
        · rw [if_pos hkind] at h
          cases hurl : PyDict.get interface "url" with
          | str found =>
            rw [hurl] at h
            dsimp only at h
            by_cases hhttp : isHttp found = true
            · rw [if_pos hhttp] at h
              cases horigin : origin found with
              | none =>
                rw [horigin] at h
                cases h
              | some o =>
                cases hbase : origin c.base with
                | none =>
                  rw [horigin, hbase] at h
                  cases h
                | some o' =>
                  rw [horigin, hbase] at h
                  dsimp only at h
                  by_cases hsame : o = o'
                  · rw [if_pos hsame] at h
                    cases h
                    refine ⟨interface, rfl, ⟨⟨binding, hkind.1, hbinding⟩, hkind.2, hurl, hhttp⟩, ?_, ?_⟩
                    · rw [horigin]
                      rfl
                    · rw [horigin, hbase, hsame]
                  · rw [if_neg hsame] at h
                    cases h
            · rw [if_neg hhttp] at h
              cases h
          | _ =>
            rw [hurl] at h
            cases h
        · rw [if_neg hkind] at h
          cases h
      | list xs =>
        rw [hbinding] at h
        cases h
      | dict items =>
        rw [hbinding] at h
        cases h
      | _ =>
        rw [hbinding] at h
        cases h
    | _ => cases h
  · rintro ⟨interface, rfl, ⟨⟨binding, hmem, hbinding⟩, hversion, hurl, hhttp⟩, hsome, hsame⟩
    obtain ⟨o, ho⟩ := Option.isSome_iff_exists.mp hsome
    unfold interfaceUrl
    dsimp only
    rw [hbinding]
    dsimp only
    rw [if_pos ⟨hmem, hversion⟩, hurl]
    dsimp only
    rw [if_pos hhttp, ← hsame, ho]
    dsimp only
    rw [if_pos rfl]

theorem interfaceUrl_ok_iff {v : PyValue} : (∃ found, interfaceUrl origin c v = .ok found) ↔ InterfaceFits origin c v := by
  constructor
  · rintro ⟨found, h⟩ interface rfl
    unfold interfaceUrl at h
    dsimp only at h
    refine ⟨?_, ?_, ?_⟩
    · intro xs hbinding
      rw [hbinding] at h
      cases h
    · intro items hbinding
      rw [hbinding] at h
      cases h
    · rintro url ⟨⟨binding, hmem, hbinding⟩, hversion, hurl, hhttp⟩
      rw [hbinding] at h
      dsimp only at h
      rw [if_pos ⟨hmem, hversion⟩, hurl] at h
      dsimp only at h
      rw [if_pos hhttp] at h
      cases ho : origin url with
      | none =>
        rw [ho] at h
        cases h
      | some o =>
        cases hbase : origin c.base with
        | none =>
          rw [ho, hbase] at h
          cases h
        | some o' => exact ⟨rfl, rfl⟩
  · intro hfits
    cases v with
    | dict interface =>
      obtain ⟨hlist, hdict, horigins⟩ := hfits interface rfl
      unfold interfaceUrl
      dsimp only
      cases hbinding : PyDict.get interface "protocolBinding" with
      | list xs => exact absurd hbinding (hlist xs)
      | dict items => exact absurd hbinding (hdict items)
      | str binding =>
        dsimp only
        by_cases hkind : binding ∈ JSONRPC_BINDINGS ∧ PyDict.get interface "protocolVersion" = .str A2A_VERSION
        · rw [if_pos hkind]
          cases hurl : PyDict.get interface "url" with
          | str url =>
            dsimp only
            by_cases hhttp : isHttp url = true
            · rw [if_pos hhttp]
              obtain ⟨hurl', hbase'⟩ := horigins url ⟨⟨binding, hkind.1, hbinding⟩, hkind.2, hurl, hhttp⟩
              obtain ⟨o, ho⟩ := Option.isSome_iff_exists.mp hurl'
              obtain ⟨o', ho'⟩ := Option.isSome_iff_exists.mp hbase'
              rw [ho, ho']
              exact ⟨_, rfl⟩
            · rw [if_neg hhttp]
              exact ⟨_, rfl⟩
          | _ => exact ⟨_, rfl⟩
        · rw [if_neg hkind]
          exact ⟨_, rfl⟩
      | _ => exact ⟨_, rfl⟩
    | _ => exact ⟨_, rfl⟩

/-- The loop returns the first url that is picked, and raises at an interface before it that does not fit. -/
theorem firstInterface_ok_iff (interfaces : List PyValue) :
    (∃ found, firstInterface origin c interfaces = .ok found) ↔ InterfacesFit origin c interfaces := by
  induction interfaces with
  | nil =>
    refine ⟨fun _ before v after h => ?_, fun _ => ⟨none, rfl⟩⟩
    cases before with
    | nil => cases h
    | cons u before => cases h
  | cons v vs ih =>
    constructor
    · rintro ⟨found, h⟩ before w after hsplit hbefore
      obtain ⟨first, hfirst, h⟩ := (except_bind_ok_iff _ _ _).mp h
      cases before with
      | nil =>
        cases hsplit
        exact interfaceUrl_ok_iff.mp ⟨first, hfirst⟩
      | cons u before =>
        cases hsplit
        cases first with
        | some url => exact absurd (interfaceUrl_some_iff.mp hfirst) (hbefore _ List.mem_cons_self url)
        | none =>
          exact ih.mp ⟨found, h⟩ before w after rfl fun u hu => hbefore u (List.mem_cons_of_mem _ hu)
    · intro hfits
      obtain ⟨first, hfirst⟩ := interfaceUrl_ok_iff.mpr (hfits [] v vs rfl fun u hu => by cases hu)
      cases first with
      | some url => exact ⟨some url, (except_bind_ok_iff _ _ _).mpr ⟨some url, hfirst, rfl⟩⟩
      | none =>
        have hrest : InterfacesFit origin c vs := by
          intro before w after hsplit hbefore
          refine hfits (v :: before) w after (by rw [hsplit]; rfl) fun u hu url hpicks => ?_
          rcases List.mem_cons.mp hu with rfl | hu
          · rw [interfaceUrl_some_iff.mpr hpicks] at hfirst
            cases hfirst
          · exact hbefore u hu url hpicks
        obtain ⟨found, hfound⟩ := ih.mpr hrest
        exact ⟨found, (except_bind_ok_iff _ _ _).mpr ⟨none, hfirst, hfound⟩⟩

/-- Where the loop returns, it has found a url exactly when some interface is picked. -/
theorem firstInterface_isSome_iff {interfaces : List PyValue} {found : Option String}
    (h : firstInterface origin c interfaces = .ok found) :
    found.isSome = true ↔ ∃ v ∈ interfaces, ∃ url, Picks origin c v url := by
  induction interfaces with
  | nil =>
    cases h
    exact ⟨fun h => (by cases h), fun ⟨v, hv, _⟩ => (by cases hv)⟩
  | cons v vs ih =>
    obtain ⟨first, hfirst, h⟩ := (except_bind_ok_iff _ _ _).mp h
    cases first with
    | some url =>
      cases h
      exact ⟨fun _ => ⟨v, List.mem_cons_self, url, interfaceUrl_some_iff.mp hfirst⟩, fun _ => rfl⟩
    | none =>
      rw [ih h]
      constructor
      · rintro ⟨u, hu, hpicks⟩
        exact ⟨u, List.mem_cons_of_mem v hu, hpicks⟩
      · rintro ⟨u, hu, url, hpicks⟩
        rcases List.mem_cons.mp hu with rfl | hu
        · rw [interfaceUrl_some_iff.mpr hpicks] at hfirst
          cases hfirst
        · exact ⟨u, hu, url, hpicks⟩

/-! ## Connecting -/

variable {card : PyDict} {r : ConnectRun}

theorem tame_pickInterface_iff :
    Tame (pickInterface origin c card) ↔ ∃ interfaces,
      iterated (PyDict.get card "supportedInterfaces") = .ok interfaces ∧ InterfacesFit origin c interfaces := by
  have hunfold : Tame (pickInterface origin c card) ↔ _ := tame_bind_iff _ _
  rw [hunfold, tame_uncaught_iff]
  constructor
  · rintro ⟨⟨interfaces, hinterfaces⟩, hrest⟩
    have hfirst := ((tame_bind_iff _ _).mp (hrest interfaces (uncaught_ok_iff.mpr hinterfaces))).1
    exact ⟨interfaces, hinterfaces, (firstInterface_ok_iff interfaces).mp (tame_uncaught_iff.mp hfirst)⟩
  · rintro ⟨interfaces, hinterfaces, hfits⟩
    refine ⟨⟨interfaces, hinterfaces⟩, fun found hfound => ?_⟩
    obtain rfl : interfaces = found := by
      rw [uncaught_ok_iff.mp hfound] at hinterfaces
      exact (Except.ok.inj hinterfaces).symm
    refine (tame_bind_iff _ _).mpr ⟨tame_uncaught_iff.mpr ((firstInterface_ok_iff interfaces).mpr hfits), ?_⟩
    intro url _
    cases url with
    | none => exact tame_a2aError _
    | some url => exact tame_ok url

/-- An interface that is found is one that is picked. -/
theorem pickInterface_ok {url : String} (h : pickInterface origin c card = .ok url) :
    ∃ interfaces, iterated (PyDict.get card "supportedInterfaces") = .ok interfaces ∧
      ∃ v ∈ interfaces, ∃ url, Picks origin c v url := by
  obtain ⟨interfaces, hinterfaces, h⟩ := (except_bind_ok_iff _ _ _).mp h
  obtain ⟨found, hfound, h⟩ := (except_bind_ok_iff _ _ _).mp h
  refine ⟨interfaces, uncaught_ok_iff.mp hinterfaces, ?_⟩
  cases found with
  | none => cases h
  | some url => exact (firstInterface_isSome_iff (uncaught_ok_iff.mp hfound)).mp rfl

/-- Where the interfaces fit and one is picked, it is found. -/
theorem pickInterface_of_picks {interfaces : List PyValue}
    (hinterfaces : iterated (PyDict.get card "supportedInterfaces") = .ok interfaces)
    (hfits : InterfacesFit origin c interfaces) (hpicks : ∃ v ∈ interfaces, ∃ url, Picks origin c v url) :
    ∃ url, pickInterface origin c card = .ok url := by
  obtain ⟨found, hfound⟩ := (firstInterface_ok_iff interfaces).mpr hfits
  obtain ⟨url, rfl⟩ := Option.isSome_iff_exists.mp ((firstInterface_isSome_iff hfound).mpr hpicks)
  exact ⟨url, (except_bind_ok_iff _ _ _).mpr ⟨interfaces, uncaught_ok_iff.mpr hinterfaces,
    (except_bind_ok_iff _ _ _).mpr ⟨some url, uncaught_ok_iff.mpr hfound, rfl⟩⟩⟩

/-- The end of `connect`, when the card and the url are there. -/
def finishConnect (text : PyText) (c : A2AClient) (r : ConnectRun) (card : PyDict) (url : String) :
    Except ClientFailure (PyDict × String) :=
  if c.asksExtended card = true then
    match call text "GetExtendedAgentCard" r.extended with
    | .error (.a2aError _) => .ok (card, url)
    | .error (.other e) => .error (.other e)
    | .ok extended => match PyDict.get extended "skills" with
      | .list skills => .ok (PyDict.set card "skills" (.list skills), url)
      | _ => .ok (card, url)
  else .ok (card, url)

theorem connect_eq :
    connect text origin c r = (fetchCard r.card).bind fun card =>
      (pickInterface origin c card).bind fun url => finishConnect text c r card url := rfl

theorem tame_finishConnect_iff {url : String} :
    Tame (finishConnect text c r card url) ↔ (c.asksExtended card = true → Readable Small r.extended) := by
  unfold finishConnect
  by_cases hasks : c.asksExtended card = true
  · rw [if_pos hasks, ← @tame_call_iff text r.extended "GetExtendedAgentCard"]
    rcases hcall : call text "GetExtendedAgentCard" r.extended with (message | e) | extended
    · exact ⟨fun _ _ => tame_a2aError message, fun _ => tame_ok _⟩
    · exact ⟨fun h => absurd h (not_tame_other e), fun h => absurd (h hasks) (not_tame_other e)⟩
    · refine ⟨fun _ _ => tame_ok extended, fun _ => ?_⟩
      dsimp only
      cases PyDict.get extended "skills" with
      | list skills => exact tame_ok _
      | _ => exact tame_ok _
  · rw [if_neg hasks]
    exact ⟨fun _ h => absurd h hasks, fun _ => tame_ok _⟩

/-- `connect` ends properly exactly when what the remote answers fits. -/
theorem tame_connect_iff : Tame (connect text origin c r) ↔ ConnectFits origin c r := by
  rw [connect_eq, tame_bind_iff, tame_fetchCard_iff]
  refine and_congr_right fun _ => ?_
  constructor
  · intro h size card hcard
    have hrest := (tame_bind_iff _ _).mp (h card (fetchCard_ok_iff.mpr ⟨size, hcard⟩))
    obtain ⟨interfaces, hinterfaces, hfits⟩ := tame_pickInterface_iff.mp hrest.1
    refine ⟨interfaces, hinterfaces, hfits, fun hpicks => ?_⟩
    obtain ⟨url, hurl⟩ := pickInterface_of_picks hinterfaces hfits hpicks
    exact tame_finishConnect_iff.mp (hrest.2 url hurl)
  · intro h card hcard
    obtain ⟨size, hcard⟩ := fetchCard_ok_iff.mp hcard
    obtain ⟨interfaces, hinterfaces, hfits, hextended⟩ := h size card hcard
    refine (tame_bind_iff _ _).mpr ⟨tame_pickInterface_iff.mpr ⟨interfaces, hinterfaces, hfits⟩, ?_⟩
    intro url hurl
    obtain ⟨interfaces', hinterfaces', hpicks⟩ := pickInterface_ok hurl
    rw [hinterfaces] at hinterfaces'
    cases hinterfaces'
    exact tame_finishConnect_iff.mpr (hextended hpicks)

/-- The card that is returned lists what the remote lists. -/
theorem finishConnect_lists {url url' : String} {card' : PyDict}
    (h : finishConnect text c r card url = .ok (card', url')) :
    WormholeAgent.Lists c r card (PyDict.get card' "skills") := by
  unfold finishConnect at h
  by_cases hasks : c.asksExtended card = true
  · rw [if_pos hasks] at h
    rcases hcall : call text "GetExtendedAgentCard" r.extended with (message | e) | extended
    · rw [hcall] at h
      cases h
      refine WormholeAgent.Lists.card ?_
      rintro ⟨-, extended, skills, hresult, -⟩
      rw [call_ok_iff.mpr hresult] at hcall
      cases hcall
    · rw [hcall] at h
      cases h
    · rw [hcall] at h
      dsimp only at h
      have hresult : HasResult r.extended extended := call_ok_iff.mp hcall
      cases hskills : PyDict.get extended "skills" with
      | list skills =>
        rw [hskills] at h
        cases h
        rw [PyDict.get_set]
        exact WormholeAgent.Lists.extended hasks hresult hskills
      | _ =>
        rw [hskills] at h
        cases h
        refine WormholeAgent.Lists.card ?_
        rintro ⟨-, extended', skills, hresult', hskills'⟩
        have hcall' : call text "GetExtendedAgentCard" r.extended = .ok extended' := call_ok_iff.mpr hresult'
        rw [hcall] at hcall'
        cases hcall'
        rw [hskills] at hskills'
        cases hskills'
  · rw [if_neg hasks] at h
    cases h
    exact WormholeAgent.Lists.card fun hboth => hasks hboth.1

theorem connect_ok {card' : PyDict} {url : String} (h : connect text origin c r = .ok (card', url)) :
    ∃ card, Connects origin c r card ∧ WormholeAgent.Lists c r card (PyDict.get card' "skills") := by
  rw [connect_eq] at h
  obtain ⟨card, hcard, h⟩ := (except_bind_ok_iff _ _ _).mp h
  obtain ⟨url', hurl, h⟩ := (except_bind_ok_iff _ _ _).mp h
  obtain ⟨size, hcard⟩ := fetchCard_ok_iff.mp hcard
  obtain ⟨interfaces, hinterfaces, hpicks⟩ := pickInterface_ok hurl
  exact ⟨card, ⟨size, interfaces, hcard, hinterfaces, hpicks⟩, finishConnect_lists h⟩

/-- Where the answers fit and an interface is picked, `connect` returns a card. -/
theorem connect_of_connects (text : PyText) (hfits : ConnectFits origin c r) (h : Connects origin c r card) :
    ∃ card' url, connect text origin c r = .ok (card', url) ∧
      WormholeAgent.Lists c r card (PyDict.get card' "skills") := by
  obtain ⟨size, interfaces, hcard, hinterfaces, hpicks⟩ := h
  obtain ⟨interfaces', hinterfaces', hinterfacesFit, hextended⟩ := hfits.2 size card hcard
  rw [hinterfaces] at hinterfaces'
  cases hinterfaces'
  obtain ⟨url, hurl⟩ := pickInterface_of_picks hinterfaces hinterfacesFit hpicks
  have htame : Tame (finishConnect text c r card url) := tame_finishConnect_iff.mpr (hextended hpicks)
  have hconnect : connect text origin c r = finishConnect text c r card url := by
    rw [connect_eq, fetchCard_ok_iff.mpr ⟨size, hcard⟩]
    show (pickInterface origin c card).bind (fun url => finishConnect text c r card url) = _
    rw [hurl]
    rfl
  have hok : ∃ out, finishConnect text c r card url = .ok out := by
    rcases tame_cases htame with hok | ⟨message, herror⟩
    · exact hok
    · exfalso
      unfold finishConnect at herror
      split_ifs at herror
      rcases hcall : call text "GetExtendedAgentCard" r.extended with (message' | e) | extended
      · rw [hcall] at herror
        cases herror
      · rw [hcall] at herror
        cases herror
      · rw [hcall] at herror
        dsimp only at herror
        cases hskills : PyDict.get extended "skills" with
        | _ =>
          rw [hskills] at herror
          cases herror
  obtain ⟨⟨card', url'⟩, hok⟩ := hok
  exact ⟨card', url', hconnect.trans hok, finishConnect_lists hok⟩

/-! ## Tasks -/

theorem partsText_ok_iff {parts : PyValue} : (∃ texts, partsText parts = .ok texts) ↔ Iterable parts := by
  constructor
  · rintro ⟨texts, h⟩
    obtain ⟨xs, hxs, -⟩ := (except_bind_ok_iff _ _ _).mp h
    exact ⟨xs, hxs⟩
  · rintro ⟨xs, hxs⟩
    exact ⟨_, (except_bind_ok_iff _ _ _).mpr ⟨xs, hxs, rfl⟩⟩

theorem artifactParts_ok_iff {v : PyValue} : (∃ parts, artifactParts v = .ok parts) ↔
    ∀ artifact, v = .dict artifact → Iterable (PyDict.get artifact "parts") := by
  constructor
  · rintro ⟨parts, h⟩ artifact rfl
    obtain ⟨texts, htexts, -⟩ := (except_bind_ok_iff _ _ _).mp h
    exact partsText_ok_iff.mp ⟨texts, htexts⟩
  · intro h
    cases v with
    | dict artifact =>
      obtain ⟨xs, hxs⟩ := h artifact rfl
      obtain ⟨texts, htexts⟩ := partsText_ok_iff.mpr ⟨xs, hxs⟩
      exact ⟨_, (except_bind_ok_iff _ _ _).mpr ⟨texts, htexts, (except_bind_ok_iff _ _ _).mpr
        ⟨_, (except_bind_ok_iff _ _ _).mpr ⟨xs, hxs, rfl⟩, rfl⟩⟩⟩
    | _ => exact ⟨_, rfl⟩

theorem statusTexts_ok_iff {v : PyValue} : (∃ texts, statusTexts v = .ok texts) ↔
    ∀ status message, v = .dict status → PyDict.get status "message" = .dict message →
      Iterable (PyDict.get message "parts") := by
  constructor
  · rintro ⟨texts, h⟩ status message rfl hmessage
    unfold statusTexts at h
    dsimp only at h
    rw [hmessage] at h
    exact partsText_ok_iff.mp ⟨texts, h⟩
  · intro h
    cases v with
    | dict status =>
      unfold statusTexts
      dsimp only
      cases hmessage : PyDict.get status "message" with
      | dict message => exact partsText_ok_iff.mpr (h status message rfl hmessage)
      | _ => exact ⟨_, rfl⟩
    | _ => exact ⟨_, rfl⟩

theorem taskResult_ok_iff {task : PyDict} {state : String} :
    (∃ result, taskResult task state = .ok result) ↔ ResultFits task := by
  constructor
  · rintro ⟨result, h⟩
    obtain ⟨texts, htexts, h⟩ := (except_bind_ok_iff _ _ _).mp h
    obtain ⟨artifacts, hartifacts, h⟩ := (except_bind_ok_iff _ _ _).mp h
    obtain ⟨parts, hparts, -⟩ := (except_bind_ok_iff _ _ _).mp h
    refine ⟨fun status message hstatus => statusTexts_ok_iff.mp ⟨texts, htexts⟩ status message hstatus,
      artifacts, hartifacts, fun artifact hartifact => ?_⟩
    obtain ⟨p, -, hp⟩ := mapM_ok_of_mem hparts hartifact
    exact artifactParts_ok_iff.mp ⟨p, hp⟩ artifact rfl
  · rintro ⟨hmessage, artifacts, hartifacts, hall⟩
    obtain ⟨texts, htexts⟩ := statusTexts_ok_iff.mpr hmessage
    obtain ⟨parts, hparts⟩ := mapM_ok artifacts fun v hv =>
      artifactParts_ok_iff.mpr fun artifact hdict => hall artifact (hdict ▸ hv)
    exact ⟨_, (except_bind_ok_iff _ _ _).mpr ⟨texts, htexts, (except_bind_ok_iff _ _ _).mpr
      ⟨artifacts, hartifacts, (except_bind_ok_iff _ _ _).mpr ⟨parts, hparts, rfl⟩⟩⟩⟩

theorem HasState.unique {task : PyDict} {state state' : String} (h : HasState task state)
    (h' : HasState task state') : state = state' := by
  obtain ⟨-, status, hstatus, hstate⟩ := h
  obtain ⟨-, status', hstatus', hstate'⟩ := h'
  rw [hstatus] at hstatus'
  cases hstatus'
  rw [hstate] at hstate'
  exact PyValue.str.inj hstate'

/-- A task without an id or a state is refused, and no other. -/
theorem taskState_cases (task : PyDict) :
    (∃ state, taskState task = .ok state ∧ HasState task state) ∨
      ((∃ message, taskState task = .error (.a2aError message)) ∧ ∀ state, ¬HasState task state) := by
  unfold taskState
  cases hid : PyDict.get task "id" with
  | str id =>
    cases hstatus : PyDict.get task "status" with
    | dict status =>
      cases hstate : PyDict.get status "state" with
      | str state => exact Or.inl ⟨state, by dsimp only; rw [hstate], ⟨id, hid⟩, status, hstatus, hstate⟩
      | _ =>
        refine Or.inr ⟨⟨_, by dsimp only; rw [hstate]⟩, ?_⟩
        rintro state ⟨-, status', hstatus', hstate'⟩
        rw [hstatus] at hstatus'
        cases hstatus'
        rw [hstate] at hstate'
        cases hstate'
    | _ =>
      refine Or.inr ⟨⟨_, rfl⟩, ?_⟩
      rintro state ⟨-, status', hstatus', -⟩
      rw [hstatus] at hstatus'
      cases hstatus'
  | _ =>
    refine Or.inr ⟨⟨_, rfl⟩, ?_⟩
    rintro state ⟨⟨id', hid'⟩, -⟩
    rw [hid] at hid'
    cases hid'

/-- A turn of the loop on a task: it is refused, has stopped, or goes on. -/
theorem stoppedResult_cases (task : PyDict) :
    ((∃ message, stoppedResult (.dict task) = .error (.a2aError message)) ∧ ∀ state, ¬HasState task state) ∨
      ∃ state, HasState task state ∧
        ((state ∈ stopStates ∧ stoppedResult (.dict task) = (uncaught (taskResult task state)).map some) ∨
          (state ∉ stopStates ∧ stoppedResult (.dict task) = .ok none)) := by
  rcases taskState_cases task with ⟨state, hstate, hhas⟩ | ⟨⟨message, herror⟩, hnone⟩
  · refine Or.inr ⟨state, hhas, ?_⟩
    have hturn : stoppedResult (.dict task) = if state ∈ stopStates then
        (uncaught (taskResult task state)).bind fun result => .ok (some result) else .ok none := by
      show (taskState task).bind _ = _
      rw [hstate]
      rfl
    by_cases hstop : state ∈ stopStates
    · refine Or.inl ⟨hstop, ?_⟩
      rw [hturn, if_pos hstop]
      rfl
    · exact Or.inr ⟨hstop, by rw [hturn, if_neg hstop]⟩
  · refine Or.inl ⟨⟨message, ?_⟩, hnone⟩
    show (taskState task).bind _ = _
    rw [herror]
    rfl

theorem tame_cancelQuietly_iff {cancel : HttpReply} :
    Tame (cancelQuietly text cancel) ↔ Readable Small cancel := by
  rw [← @tame_call_iff text cancel "CancelTask"]
  unfold cancelQuietly
  rcases call text "CancelTask" cancel with (message | e) | result
  · exact ⟨fun _ => tame_a2aError message, fun _ => tame_ok _⟩
  · exact ⟨fun h => absurd h (not_tame_other e), fun h => absurd h (not_tame_other e)⟩
  · exact ⟨fun _ => tame_ok result, fun _ => tame_ok _⟩

/-- What the loop does with the replies to `GetTask` while the task goes on. -/
def goOn (text : PyText) (cancel : HttpReply) : List HttpReply → Except ClientFailure RemoteResult
  | [] => (cancelQuietly text cancel).bind fun _ => .error (.a2aError "timed out waiting for remote task")
  | reply :: polls => (call text "GetTask" reply).bind fun next => waitFor text cancel (.dict next) polls

theorem waitFor_eq (cancel : HttpReply) (task : PyValue) (polls : List HttpReply) :
    waitFor text cancel task polls = (stoppedResult task).bind fun
      | some result => .ok result
      | none => goOn text cancel polls := by
  cases polls with
  | nil =>
    rw [waitFor]
    rfl
  | cons reply polls =>
    rw [waitFor]
    rfl

/-! What fits, by the state of the task. -/

variable {cancel : HttpReply} {task : PyDict} {state : String} {polls : List HttpReply}

theorem taskFits_stopped_iff (h : HasState task state) (hstop : state ∈ stopStates) :
    TaskFits cancel (.dict task) polls ↔ ResultFits task := by
  constructor
  · intro hfits
    cases hfits with
    | malformed hnone => exact absurd h (hnone state)
    | stopped _ _ hresult => exact hresult
    | timedOut h' hgoes => exact absurd (h'.unique h ▸ hstop) hgoes
    | refused h' hgoes => exact absurd (h'.unique h ▸ hstop) hgoes
    | polled h' hgoes => exact absurd (h'.unique h ▸ hstop) hgoes
  · exact TaskFits.stopped h hstop

theorem taskFits_timedOut_iff (h : HasState task state) (hgoes : state ∉ stopStates) :
    TaskFits cancel (.dict task) [] ↔ Readable Small cancel := by
  constructor
  · intro hfits
    cases hfits with
    | malformed hnone => exact absurd h (hnone state)
    | stopped h' hstop => exact absurd (h.unique h' ▸ hstop) hgoes
    | timedOut _ _ hcancel => exact hcancel
  · exact TaskFits.timedOut h hgoes

theorem taskFits_polled_iff (h : HasState task state) (hgoes : state ∉ stopStates) :
    TaskFits cancel (.dict task) (reply :: polls) ↔
      Readable Small reply ∧ ∀ next, HasResult reply next → TaskFits cancel (.dict next) polls := by
  constructor
  · intro hfits
    cases hfits with
    | malformed hnone => exact absurd h (hnone state)
    | stopped h' hstop => exact absurd (h.unique h' ▸ hstop) hgoes
    | refused _ _ hread hnone => exact ⟨hread, fun next hnext => absurd hnext (hnone next)⟩
    | polled _ _ hresult rest =>
      exact ⟨hresult.readable, fun next hnext => hresult.unique hnext ▸ rest⟩
  · rintro ⟨hread, hrest⟩
    by_cases hnext : ∃ next, HasResult reply next
    · obtain ⟨next, hnext⟩ := hnext
      exact TaskFits.polled h hgoes hnext (hrest next hnext)
    · exact TaskFits.refused h hgoes hread (not_exists.mp hnext)

/-- The loop ends properly exactly when the task and the replies about it fit. -/
theorem tame_waitFor_iff (polls : List HttpReply) (task : PyValue) :
    Tame (waitFor text cancel task polls) ↔ TaskFits cancel task polls := by
  have hstep : ∀ polls (items : PyDict), (∀ state, HasState items state → state ∉ stopStates →
      (Tame (goOn text cancel polls) ↔ TaskFits cancel (.dict items) polls)) →
      (Tame (waitFor text cancel (.dict items) polls) ↔ TaskFits cancel (.dict items) polls) := by
    intro polls items hgoOn
    rw [waitFor_eq]
    rcases stoppedResult_cases items with ⟨⟨message, herror⟩, hnone⟩ | ⟨state, hstate, ⟨hstop, hturn⟩ | ⟨hgoes, hturn⟩⟩
    · rw [herror]
      exact ⟨fun _ => TaskFits.malformed hnone, fun _ => tame_a2aError message⟩
    · rw [hturn, taskFits_stopped_iff hstate hstop, ← @taskResult_ok_iff items state, ← tame_uncaught_iff]
      cases uncaught (taskResult items state) with
      | error e => exact Iff.rfl
      | ok result => exact ⟨fun _ => tame_ok result, fun _ => tame_ok result⟩
    · rw [hturn]
      exact hgoOn state hstate hgoes
  have hother : ∀ polls, (∀ items, task ≠ .dict items) →
      (Tame (waitFor text cancel task polls) ↔ TaskFits cancel task polls) := by
    intro polls hno
    rw [waitFor_eq]
    constructor
    · intro h
      cases task with
      | dict items => exact absurd rfl (hno items)
      | _ => exact absurd h (not_tame_other _)
    · intro h
      cases h with
      | _ => exact absurd rfl (hno _)
  induction polls generalizing task with
  | nil =>
    cases task with
    | dict items =>
      refine hstep [] items fun state hstate hgoes => ?_
      rw [taskFits_timedOut_iff hstate hgoes, ← @tame_cancelQuietly_iff text cancel]
      unfold goOn
      rw [tame_bind_iff]
      exact ⟨fun h => h.1, fun h => ⟨h, fun _ _ => tame_a2aError _⟩⟩
    | _ => exact hother [] fun items => PyValue.noConfusion
  | cons reply polls ih =>
    cases task with
    | dict items =>
      refine hstep (reply :: polls) items fun state hstate hgoes => ?_
      rw [taskFits_polled_iff hstate hgoes, ← @tame_call_iff text reply "GetTask"]
      unfold goOn
      rw [tame_bind_iff]
      refine and_congr_right fun _ => ?_
      constructor
      · intro h next hnext
        exact (ih (.dict next) (fun polls hno => absurd rfl (hno next))).mp (h next (call_ok_iff.mpr hnext))
      · intro h next hnext
        exact (ih (.dict next) (fun polls hno => absurd rfl (hno next))).mpr (h next (call_ok_iff.mp hnext))
    | _ => exact hother (reply :: polls) fun items => PyValue.noConfusion

/-! ## Sending a task -/

variable {x : ExecuteRun}

/-- What `execute` does with the result of `SendMessage`. -/
def afterSend (text : PyText) (x : ExecuteRun) (result : PyDict) : Except ClientFailure RemoteResult :=
  match result.lookup "task", PyDict.get result "message" with
  | none, .dict reply => do
    let texts ← uncaught (partsText (PyDict.get reply "parts"))
    .ok { state := "TASK_STATE_COMPLETED", text := "\n".intercalate texts, data := [] }
  | task, _ => waitFor text x.cancel (task.getD (.dict result)) x.polls

theorem executeConnected_eq :
    executeConnected text x = (call text "SendMessage" x.send).bind (afterSend text x) := rfl

theorem tame_afterSend_iff {result : PyDict} :
    Tame (afterSend text x result) ↔
      ((∃ reply, result.lookup "task" = none ∧ PyDict.get result "message" = .dict reply ∧
        Iterable (PyDict.get reply "parts")) ∨
      ((∀ reply, ¬(result.lookup "task" = none ∧ PyDict.get result "message" = .dict reply)) ∧
        TaskFits x.cancel ((result.lookup "task").getD (.dict result)) x.polls)) := by
  by_cases hreply : ∃ reply, result.lookup "task" = none ∧ PyDict.get result "message" = .dict reply
  · obtain ⟨reply, htask, hmessage⟩ := hreply
    have hsend : afterSend text x result = (uncaught (partsText (PyDict.get reply "parts"))).bind fun texts =>
        .ok { state := "TASK_STATE_COMPLETED", text := "\n".intercalate texts, data := [] } := by
      unfold afterSend
      rw [htask, hmessage]
      rfl
    rw [hsend, tame_bind_iff, tame_uncaught_iff, partsText_ok_iff]
    constructor
    · rintro ⟨hparts, -⟩
      exact Or.inl ⟨reply, htask, hmessage, hparts⟩
    · rintro (⟨reply', -, hmessage', hparts⟩ | ⟨hno, -⟩)
      · rw [hmessage] at hmessage'
        cases hmessage'
        exact ⟨hparts, fun _ _ => tame_ok _⟩
      · exact absurd ⟨htask, hmessage⟩ (hno reply)
  · have hsend : afterSend text x result =
        waitFor text x.cancel ((result.lookup "task").getD (.dict result)) x.polls := by
      unfold afterSend
      cases htask : result.lookup "task" with
      | some task => rfl
      | none =>
        cases hmessage : PyDict.get result "message" with
        | dict reply => exact absurd ⟨reply, htask, hmessage⟩ hreply
        | _ => rfl
    rw [hsend, tame_waitFor_iff]
    constructor
    · exact fun h => Or.inr ⟨not_exists.mp hreply, h⟩
    · rintro (⟨reply, htask, hmessage, -⟩ | ⟨-, h⟩)
      · exact absurd ⟨reply, htask, hmessage⟩ hreply
      · exact h

theorem tame_executeConnected_iff : Tame (executeConnected text x) ↔ SendFits x := by
  rw [executeConnected_eq, tame_bind_iff, tame_call_iff]
  refine and_congr_right fun _ => ?_
  simp only [call_ok_iff, tame_afterSend_iff]

/-- `execute` ends properly exactly when what the remote answers fits. -/
theorem tame_execute_iff {connected : Bool} :
    Tame (execute text origin c connected r x) ↔ ExecuteFits origin c connected r x := by
  unfold execute ExecuteFits
  cases connected with
  | true =>
    rw [if_pos rfl, tame_executeConnected_iff]
    exact ⟨fun h => ⟨fun hno => (by cases hno), fun _ => h⟩, fun h => h.2 (Or.inl rfl)⟩
  | false =>
    rw [if_neg Bool.false_ne_true]
    have hbind : Tame ((connect text origin c r).bind fun _ => executeConnected text x) ↔ _ := tame_bind_iff _ _
    refine hbind.trans ?_
    rw [tame_connect_iff]
    constructor
    · rintro ⟨hconnect, hrest⟩
      refine ⟨fun _ => hconnect, ?_⟩
      rintro (hno | ⟨card, hcard⟩)
      · cases hno
      · obtain ⟨card', url, hok, -⟩ := connect_of_connects text hconnect hcard
        exact tame_executeConnected_iff.mp (hrest _ hok)
    · rintro ⟨hconnect, hrest⟩
      refine ⟨hconnect rfl, fun out hok => ?_⟩
      obtain ⟨card, hcard, -⟩ := connect_ok hok
      exact tame_executeConnected_iff.mpr (hrest (Or.inr ⟨card, hcard⟩))

end A2AClient

end Galaxz
