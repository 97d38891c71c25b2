import Provision.Proofs.Transcript

/-!
# Calls of a service

A call asks two parties: the identity service, for an address and a token, and then the service
itself. What a call does is determined by the session that is kept and by the answers. `Obtained`
says how a session is come by, and `Called` how a call then goes: which requests are made, and, if
the service is not asked, why not and with what failure (`call_ends`).

Much is said with less. `Asked` tells the two parties apart by the transcript. Either only the
identity service has been heard, and the call has failed, or the last event is the answer of the
service, at an address that a session of the run has for it, and the result is what is made of this
answer.

A failure for want of something (`notFound`) can come from both parties. From the identity service
it comes in two ways only (`Lacks`): the token was asked for in vain, or the catalog has no address.
-/

namespace Provision

variable {α β : Type}

namespace Response

theorem status_of_granted_error {response : Response} {what : String} {e : ServiceError}
    (h : response.granted what = .error e) (he : e.isNotFound = true) : response.status = 404 := by
  unfold granted at h
  split at h
  · cases h
  · cases h
    unfold refusal at he
    split at he
    · assumption
    · split at he <;> cases he

theorem granted_of_status {response : Response} (h : response.status = 404) (what : String) :
    response.granted what = .error (.notFound what) := by
  simp [granted, isSuccess, refusal, h]

theorem isSuccess_of_granted {response response' : Response} {what : String}
    (h : response.granted what = .ok response') : response.isSuccess = true := by
  unfold granted at h
  split at h
  · assumption
  · cases h

theorem not_isNotFound_of_decode {response : Response} {f : Node → Option α} {e : ServiceError}
    (h : response.decode f = .error e) : e.isNotFound = false := by
  unfold decode at h
  split at h
  · cases h
    rfl
  · split at h
    · cases h
    · cases h
      rfl

end Response

namespace IdentitySettings

variable (s : IdentitySettings)

/-- The session that a granted request for a token begins. -/
def opened (response : Response) : Except ServiceError IdentitySession := do
  let response ← response.granted "identity token"
  match response.header? tokenHeader with
  | none => .error (.auth ("response lacks " ++ tokenHeader))
  | some token =>
    let (expiry, catalog) ← response.decode IdentitySession.bodyOfNode?
    return ⟨⟨token, expiry⟩, catalog⟩

/-- A request is one for a token. It is the only kind of request that brings none. -/
def AsksForToken (request : Request) : Prop :=
  request.method = .post ∧ request.token = none ∧
    Url.ofText? (withoutTrailingSlashes s.authUrl ++ "/auth/tokens") = some request.url

/-- The sessions that a run may use: the one that was kept, and those begun in the run. -/
def Begun (c : Connection) (new : List Event) (session : IdentitySession) : Prop :=
  c.session = some session ∨ ∃ request response, .answer request (.ok response) ∈ new ∧
    s.AsksForToken request ∧ opened response = .ok session

/-- All that was heard of services other than the identity service has the property. -/
def Only (P : Request → Response → Prop) (new : List Event) : Prop :=
  ∀ request response, .answer request (.ok response) ∈ new →
    s.AsksForToken request ∨ P request response

/-- The event is the answer of another service than the identity service. -/
def FromElsewhere : Event → Prop
  | .answer request _ => ¬ s.AsksForToken request
  | _ => False

/-- The event is the answer 404 to a request for a token. -/
def TokenRefused : Event → Prop
  | .answer request (.ok response) => s.AsksForToken request ∧ response.status = 404
  | _ => False

/-- Nobody but the identity service has been asked. -/
def Quiet (new : List Event) : Prop := ∀ e ∈ new, ¬ s.FromElsewhere e

/-- The last event is the answer of another service. -/
abbrev Heard (new : List Event) : Prop := LastIs s.FromElsewhere new

/-- The last event is no answer of another service. -/
abbrev Unheard (new : List Event) : Prop := LastIs (fun e => ¬ s.FromElsewhere e) new

/-- The session that is kept at the end is one that the run may use. -/
def Renews (c c' : Connection) (new : List Event) : Prop :=
  ∀ session, c'.session = some session → s.Begun c new session

/-- The address that tokens are asked for at. -/
def tokenAddress : String := withoutTrailingSlashes s.authUrl ++ "/auth/tokens"

/-- The request for a token. -/
def asking (password : String) (url : Url) : Request :=
  ⟨.post, url, none, some (.json (s.tokenRequest password))⟩

/-- A token cannot be asked for, and this is the failure. -/
inductive Unaskable : ServiceError → Prop
  | noPassword (none : s.password = none) :
      Unaskable (.auth ("no password configured for user " ++ s.username))
  | noRequest {password : String} (secret : s.password = some password)
      (unsendable : Unsendable s.tokenAddress none) : Unaskable (.transport Network.noRequest)

/-- A session is due: there is none, or its token is about to expire. -/
def Due (known : Option IdentitySession) (now : Instant) : Prop :=
  ∀ session, known = some session → session.credential.isStale now skewSeconds = true

/-- How a session is come by, when this one is kept: it is still good, or a token is asked for, or
it would have to be and cannot be. -/
inductive Obtained (known : Option IdentitySession) :
    Except ServiceError IdentitySession → List Event → Prop
  | kept {session : IdentitySession} {now : Instant} (is : known = some session)
      (good : session.credential.isStale now skewSeconds = false) :
      Obtained known (.ok session) [.clock now]
  | asked {now : Instant} {password : String} {url : Url} {answer : Except String Response}
      (due : Due known now) (secret : s.password = some password)
      (there : Url.ofText? s.tokenAddress = some url) :
      Obtained known (heard opened answer) [.clock now, .answer (s.asking password url) answer]
  | unasked {now : Instant} {e : ServiceError} (due : Due known now) (unaskable : s.Unaskable e) :
      Obtained known (.error e) [.clock now]

/-- The session that is kept after one was asked for. -/
def keptAfter (known : Option IdentitySession) :
    Except ServiceError IdentitySession → Option IdentitySession
  | .ok session => some session
  | .error _ => known

variable {s}

theorem Begun.later {c c' : Connection} {new more : List Event} {session : IdentitySession}
    (hc : s.Renews c c' new) (h : s.Begun c' more session) : s.Begun c (new ++ more) session := by
  rcases h with h | ⟨request, response, hm, h⟩
  · rcases hc session h with h | ⟨request, response, hm, h⟩
    · exact .inl h
    · exact .inr ⟨request, response, List.mem_append_left _ hm, h⟩
  · exact .inr ⟨request, response, List.mem_append_right _ hm, h⟩

theorem Begun.append {c : Connection} {new : List Event} {session : IdentitySession}
    (h : s.Begun c new session) (more : List Event) : s.Begun c (new ++ more) session := by
  rcases h with h | ⟨request, response, hm, h⟩
  · exact .inl h
  · exact .inr ⟨request, response, List.mem_append_left _ hm, h⟩

theorem Renews.refl (c : Connection) (new : List Event) : s.Renews c c new :=
  fun _ h => .inl h

theorem Renews.trans {c c' c'' : Connection} {new more : List Event} (h : s.Renews c c' new)
    (h' : s.Renews c' c'' more) : s.Renews c c'' (new ++ more) :=
  fun session hs => (h' session hs).later h

theorem Renews.append {c c' : Connection} {new : List Event} (h : s.Renews c c' new)
    (more : List Event) : s.Renews c c' (new ++ more) :=
  fun session hs => (h session hs).append more

theorem Quiet.append {new more : List Event} (h : s.Quiet new) (h' : s.Quiet more) :
    s.Quiet (new ++ more) := fun e he => (List.mem_append.1 he).elim (h e) (h' e)

theorem quiet_clock {now : Instant} : s.Quiet [.clock now] := by
  intro e he
  cases List.mem_singleton.1 he
  exact id

/-- Where nobody else has been asked, nobody else was heard. -/
theorem Quiet.only {P : Request → Response → Prop} {new : List Event} (h : s.Quiet new) :
    s.Only P new := fun _ _ hm =>
  .inl (Classical.byContradiction fun hn => h _ hm hn)

theorem Only.append {P : Request → Response → Prop} {new more : List Event} (h : s.Only P new)
    (h' : s.Only P more) : s.Only P (new ++ more) := by
  intro request response hm
  rcases List.mem_append.1 hm with hm | hm
  · exact h request response hm
  · exact h' request response hm

theorem Only.mono {P Q : Request → Response → Prop} {new : List Event} (h : s.Only P new)
    (hPQ : ∀ request response, P request response → Q request response) : s.Only Q new :=
  fun request response hm => (h request response hm).imp_right (hPQ request response)

theorem Only.last {P : Request → Response → Prop} {before : List Event} {request : Request}
    {answer : Except String Response} (h : s.Only (fun _ _ => False) before)
    (hP : ∀ response, answer = .ok response → P request response) :
    s.Only P (before ++ [.answer request answer]) := by
  refine (h.mono fun _ _ => False.elim).append fun request' response hm => ?_
  simp only [List.mem_singleton, Event.answer.injEq] at hm
  obtain ⟨rfl, ha⟩ := hm
  exact .inr (hP response ha.symm)

theorem lift_opened (response : Response) :
    (Reply.lift (opened response) : ExceptT ServiceError Watched IdentitySession) = do
      let response ← Reply.lift (response.granted "identity token")
      match response.header? tokenHeader with
      | none => throw (.auth ("response lacks " ++ tokenHeader))
      | some token =>
        let (expiry, catalog) ← Reply.lift (response.decode IdentitySession.bodyOfNode?)
        return ⟨⟨token, expiry⟩, catalog⟩ := by
  unfold opened
  rcases response.granted "identity token" with e | response
  · rfl
  · show Reply.lift (match response.header? tokenHeader with
      | none => _
      | some token => _) = match response.header? tokenHeader with
      | none => _
      | some token => _
    rcases response.header? tokenHeader with _ | token
    · rfl
    · rcases response.decode IdentitySession.bodyOfNode? with e | ⟨expiry, catalog⟩ <;> rfl

theorem TokenRefused.not_fromElsewhere {e : Event} (h : s.TokenRefused e) :
    ¬ s.FromElsewhere e := by
  unfold TokenRefused at h
  split at h
  · exact fun hn => hn h.1
  · cases h

theorem asksForToken_asking {password : String} {url : Url}
    (hu : Url.ofText? s.tokenAddress = some url) : s.AsksForToken (s.asking password url) :=
  ⟨rfl, rfl, hu⟩

/-- A token is asked for once, or not at all if it cannot be. -/
theorem authenticate_run (s : IdentitySettings) (o : Outside) (past : List Event) :
    (∃ password url answer, s.password = some password ∧ Url.ofText? s.tokenAddress = some url ∧
      (s.authenticate o.network).run.run past
        = (heard opened answer, past ++ [.answer (s.asking password url) answer])) ∨
    ∃ e, s.Unaskable e ∧ (s.authenticate o.network).run.run past = (.error e, past) := by
  rcases hp : s.password with _ | password
  · exact .inr ⟨_, .noPassword hp, by rw [authenticate, hp]; rfl⟩
  · have hs : s.authenticate o.network = o.network.request .post s.tokenAddress none
        (some (.json (s.tokenRequest password))) >>= fun response =>
          Reply.lift (opened response) := by
      rw [authenticate, hp]
      exact bind_congr fun response => (lift_opened response).symm
    rcases request_run o past .post s.tokenAddress none (some (.json (s.tokenRequest password)))
      with ⟨url, answer, hu, h⟩ | ⟨hunsendable, h⟩
    · refine .inl ⟨password, url, answer, rfl, hu, ?_⟩
      simp only [hs, ExceptT.run_bind, StateT.run_bind, h]
      rcases answer with reason | response <;> rfl
    · refine .inr ⟨_, .noRequest hp hunsendable, ?_⟩
      simp only [hs, ExceptT.run_bind, StateT.run_bind, h]
      rfl

/-- To begin a session when one is due, a token is asked for, and the paths that are kept stay as
they are. -/
theorem renew_ends (s : IdentitySettings) (o : Outside) (c : Connection) (past : List Event)
    {now : Instant} (hdue : Due c.session now) :
    Ends (session.renew s o.network).run c past fun r c' more =>
      s.Obtained c.session r (.clock now :: more) ∧ c' = ⟨keptAfter c.session r, c.stackPaths⟩ := by
  unfold session.renew
  refine Ends.attempt ?_
  rcases s.authenticate_run o past with ⟨password, url, answer, hp, hu, h⟩ | ⟨e, he, h⟩
  · refine Ends.lift h ?_
    have hasked : s.Obtained c.session (heard opened answer)
        [.clock now, .answer (s.asking password url) answer] := .asked hdue hp hu
    rcases hr : heard opened answer with e | session
    · rw [hr] at hasked
      exact ⟨hasked, rfl⟩
    · rw [hr] at hasked
      exact Ends.change ⟨hasked, rfl⟩
  · refine Ends.lift (by rw [List.append_nil]; exact h) ?_
    exact ⟨.unasked hdue he, rfl⟩

theorem session_ends (s : IdentitySettings) (o : Outside) (c : Connection) (past : List Event) :
    Ends (s.session o.network).run c past fun r c' new =>
      s.Obtained c.session r new ∧ c' = ⟨keptAfter c.session r, c.stackPaths⟩ := by
  unfold session
  refine Ends.clock (Ends.kept ?_)
  have hrenew := fun hdue : Due c.session (o.clock past) =>
    s.renew_ends o c (past ++ [.clock (o.clock past)]) hdue
  rcases hc : c.session with _ | known
  · rw [hc] at hrenew
    exact hrenew nofun
  · rw [hc] at hrenew
    dsimp only
    split
    case isTrue hstale =>
      refine hrenew fun session h => ?_
      cases h
      exact hstale
    case isFalse hgood =>
      refine Ends.pure ⟨.kept rfl (Bool.eq_false_iff.2 hgood), ?_⟩
      cases c
      cases hc
      rfl

theorem status_of_opened_error {response : Response} {e : ServiceError}
    (h : opened response = .error e) (he : e.isNotFound = true) : response.status = 404 := by
  unfold opened at h
  rcases hg : response.granted "identity token" with e' | response'
  · rw [hg] at h
    cases h
    exact Response.status_of_granted_error hg he
  · simp only [hg] at h
    change (match response'.header? tokenHeader with
      | none => _
      | some token => _) = _ at h
    split at h
    · cases h
      cases he
    · rcases hd : response'.decode IdentitySession.bodyOfNode? with e' | body
      · rw [hd] at h
        cases h
        rw [Response.not_isNotFound_of_decode hd] at he
        cases he
      · rw [hd] at h
        cases h

namespace Obtained

variable {known : Option IdentitySession} {r : Except ServiceError IdentitySession}
  {new : List Event}

/-- For a session nobody but the identity service is asked. -/
theorem quiet (h : s.Obtained known r new) : s.Quiet new := by
  cases h with
  | kept | unasked => exact quiet_clock
  | asked _ _ there =>
    exact Quiet.append quiet_clock
      (List.forall_mem_singleton.2 fun h => h (asksForToken_asking there))

theorem unheard (h : s.Obtained known r new) : s.Unheard new := by
  cases h with
  | kept | unasked => exact ⟨_, rfl, id⟩
  | asked _ _ there => exact ⟨_, rfl, fun h => h (asksForToken_asking there)⟩

theorem renews (h : s.Obtained known r new) {paths paths' : Table String} :
    s.Renews ⟨known, paths⟩ ⟨keptAfter known r, paths'⟩ new := by
  intro session hs
  cases h with
  | kept is good =>
    cases hs
    exact .inl is
  | unasked => exact .inl hs
  | @asked now password url answer due secret there =>
    rcases answer with reason | response
    · exact .inl hs
    rcases ho : opened response with e | session'
    · simp only [heard, ho] at hs
      exact .inl hs
    · simp only [heard, ho] at hs
      cases hs
      exact .inr ⟨s.asking password url, response, by simp, asksForToken_asking there, ho⟩

theorem lacking {e : ServiceError} (h : s.Obtained known (.error e) new)
    (he : e.isNotFound = true) : LastIs s.TokenRefused new := by
  generalize hr : Except.error e = r at h
  cases h with
  | kept => cases hr
  | unasked due unaskable =>
    cases hr
    cases unaskable <;> cases he
  | @asked now password url answer due secret there =>
    rcases answer with reason | response
    · cases hr
      cases he
    · exact ⟨_, rfl, asksForToken_asking there, status_of_opened_error hr.symm he⟩

end Obtained

end IdentitySettings

/-- A service, by its name in the catalog, and how it is looked up there. -/
structure Destination (service : String) where
  settings : IdentitySettings
  region : Option String

namespace Destination

variable {service : String} (d : Destination service)

/-- The address that the catalog of a session has for the service. -/
def address (session : IdentitySession) : Except ServiceError String :=
  session.endpoint service d.settings.interface (d.region <|> d.settings.region)

/-- The run ends with the identity service, which grants no token or has no address for the
service. -/
def Lacks (c' : Connection) (new : List Event) : Prop :=
  LastIs d.settings.TokenRefused new ∨
    d.settings.Unheard new ∧
      ∃ session e, c'.session = some session ∧ d.address session = .error e

/-- A request goes to the service: to an address that the run may know, and with a token. -/
def Reaches (c : Connection) (new : List Event) (method : Method) (path : String)
    (request : Request) : Prop :=
  request.method = method ∧ request.token.isSome = true ∧
    ∃ session address, d.settings.Begun c new session ∧ d.address session = .ok address ∧
      Url.ofText? (address ++ "/" ++ withoutLeadingSlashes path) = some request.url

/-- How the address of the service and a credential are come by, when this session is kept: first a
session is asked for its catalog, and then for its credential. The second time may begin another
one. -/
inductive Prepared (known : Option IdentitySession) :
    Except ServiceError (String × Credential) → Option IdentitySession → List Event → Prop
  | noSession {e : ServiceError} {new : List Event}
      (first : d.settings.Obtained known (.error e) new) : Prepared known (.error e) known new
  | noAddress {session : IdentitySession} {e : ServiceError} {new : List Event}
      (first : d.settings.Obtained known (.ok session) new)
      (nowhere : d.address session = .error e) : Prepared known (.error e) (some session) new
  | noCredential {session : IdentitySession} {address : String} {e : ServiceError}
      {new more : List Event} (first : d.settings.Obtained known (.ok session) new)
      (there : d.address session = .ok address)
      (again : d.settings.Obtained (some session) (.error e) more) :
      Prepared known (.error e) (some session) (new ++ more)
  | ready {session session' : IdentitySession} {address : String} {new more : List Event}
      (first : d.settings.Obtained known (.ok session) new)
      (there : d.address session = .ok address)
      (again : d.settings.Obtained (some session) (.ok session') more) :
      Prepared known (.ok (address, session'.credential)) (some session') (new ++ more)

/-- How a call of the service goes, when this session is kept: one request is sent, unless there is
no address, no credential, or no such request, and then the call fails for that reason. -/
inductive Called (known : Option IdentitySession) (method : Method) (path : String)
    (content : Option Content) :
    Except ServiceError Response → Option IdentitySession → List Event → Prop
  | unprepared {e : ServiceError} {kept : Option IdentitySession} {new : List Event}
      (prepared : d.Prepared known (.error e) kept new) :
      Called known method path content (.error e) kept new
  | noRequest {address : String} {credential : Credential} {kept : Option IdentitySession}
      {new : List Event} (prepared : d.Prepared known (.ok (address, credential)) kept new)
      (unsendable : Unsendable (address ++ "/" ++ withoutLeadingSlashes path)
        (some credential.token)) :
      Called known method path content (.error (.transport Network.noRequest)) kept new
  | sent {address : String} {credential : Credential} {kept : Option IdentitySession} {url : Url}
      {answer : Except String Response} {before : List Event}
      (prepared : d.Prepared known (.ok (address, credential)) kept before)
      (there : Url.ofText? (address ++ "/" ++ withoutLeadingSlashes path) = some url) :
      Called known method path content (heard .ok answer) kept
        (before ++ [.answer ⟨method, url, some credential.token, content⟩ answer])

/-- How a call went: it failed before the service was heard, or the answer of the service is the
last event, and `f` makes the result of it. -/
inductive Asked (c c' : Connection) (method : Method) (path : String)
    (f : Response → Except ServiceError α) : Except ServiceError α → List Event → Prop
  | unsent {e : ServiceError} {new : List Event}
      (quiet : d.settings.Only (fun _ _ => False) new) (unheard : d.settings.Unheard new)
      (lacks : e.isNotFound = true → d.Lacks c' new) : Asked c c' method path f (.error e) new
  | answered {before : List Event} {request : Request} {answer : Except String Response}
      (quiet : d.settings.Only (fun _ _ => False) before)
      (reaches : d.Reaches c before method path request) :
      Asked c c' method path f (heard f answer) (before ++ [.answer request answer])

/-- A program is one call of the service, wherever it is run. -/
def Asks (x : ExceptT ServiceError (Remote Watched) α) (method : Method) (path : String)
    (f : Response → Except ServiceError α) : Prop :=
  ∀ c past, Ends x.run c past fun r c' new =>
    d.settings.Renews c c' new ∧ d.Asked c c' method path f r new

/-- A program is one call of the service, which leaves the paths that are kept as they are, and
makes `f` of the answer. -/
def Calls (x : ExceptT ServiceError (Remote Watched) α) (method : Method) (path : String)
    (content : Option Content) (f : Response → Except ServiceError α) : Prop :=
  ∀ c past, Ends x.run c past fun r c' new => c'.stackPaths = c.stackPaths
    ∧ ∃ response, d.Called c.session method path content response c'.session new
      ∧ r = response >>= f

variable {d}

theorem Lacks.unheard {c' : Connection} {new : List Event} (h : d.Lacks c' new) :
    d.settings.Unheard new := by
  rcases h with h | ⟨h, -⟩
  · exact h.mono fun e => IdentitySettings.TokenRefused.not_fromElsewhere
  · exact h

theorem Lacks.append {c' : Connection} {more : List Event} (h : d.Lacks c' more)
    (new : List Event) : d.Lacks c' (new ++ more) := by
  rcases h with h | ⟨h, hs⟩
  · exact .inl (h.append new)
  · exact .inr ⟨h.append new, hs⟩

theorem Reaches.not_asksForToken {c : Connection} {new : List Event} {method : Method}
    {path : String} {request : Request} (h : d.Reaches c new method path request) :
    ¬ d.settings.AsksForToken request := by
  intro ht
  have hsome := h.2.1
  rw [ht.2.1] at hsome
  cases hsome

theorem Reaches.heard {c : Connection} {new before : List Event} {method : Method} {path : String}
    {request : Request} (h : d.Reaches c new method path request)
    (answer : Except String Response) :
    d.settings.Heard (before ++ [.answer request answer]) :=
  lastIs_snoc h.not_asksForToken

theorem Reaches.append {c : Connection} {new : List Event} {method : Method} {path : String}
    {request : Request} (h : d.Reaches c new method path request) (more : List Event) :
    d.Reaches c (new ++ more) method path request := by
  obtain ⟨hm, ht, session, address, hb, h⟩ := h
  exact ⟨hm, ht, session, address, hb.append more, h⟩

theorem Reaches.later {c c' : Connection} {new more : List Event} {method : Method}
    {path : String} {request : Request} (hc : d.settings.Renews c c' new)
    (h : d.Reaches c' more method path request) :
    d.Reaches c (new ++ more) method path request := by
  obtain ⟨hm, ht, session, address, hb, h⟩ := h
  exact ⟨hm, ht, session, address, hb.later hc, h⟩

/-- A call whose answer is looked at further is still one call. -/
theorem Asked.bind {c c' : Connection} {method : Method} {path : String}
    {f : Response → Except ServiceError α} {r : Except ServiceError α} {new : List Event}
    (h : d.Asked c c' method path f r new) (g : α → Except ServiceError β) :
    d.Asked c c' method path (fun response => f response >>= g) (r >>= g) new := by
  cases h with
  | unsent quiet unheard lacks => exact .unsent quiet unheard lacks
  | answered quiet reaches =>
    rw [heard_bind]
    exact .answered quiet reaches

namespace Prepared

variable {known kept : Option IdentitySession} {r : Except ServiceError (String × Credential)}
  {new : List Event}

theorem quiet (h : d.Prepared known r kept new) : d.settings.Quiet new := by
  cases h with
  | noSession first | noAddress first => exact first.quiet
  | noCredential first _ again | ready first _ again => exact first.quiet.append again.quiet

theorem unheard (h : d.Prepared known r kept new) : d.settings.Unheard new := by
  cases h with
  | noSession first | noAddress first => exact first.unheard
  | noCredential _ _ again | ready _ _ again => exact again.unheard.append _

theorem renews (h : d.Prepared known r kept new) {paths paths' : Table String} :
    d.settings.Renews ⟨known, paths⟩ ⟨kept, paths'⟩ new := by
  cases h with
  | noSession first | noAddress first => exact first.renews
  | noCredential first _ again | ready first _ again =>
    have hfirst : d.settings.Renews ⟨known, paths⟩ ⟨_, paths⟩ _ := first.renews
    exact hfirst.trans again.renews

theorem lacks {e : ServiceError} (h : d.Prepared known (.error e) kept new)
    (he : e.isNotFound = true) {paths : Table String} : d.Lacks ⟨kept, paths⟩ new := by
  cases h with
  | noSession first => exact .inl (first.lacking he)
  | noAddress first nowhere => exact .inr ⟨first.unheard, _, e, rfl, nowhere⟩
  | noCredential _ _ again => exact .inl ((again.lacking he).append _)

/-- What is sent next reaches the service. -/
theorem reaches {address path : String} {credential : Credential} {method : Method} {url : Url}
    (h : d.Prepared known (.ok (address, credential)) kept new)
    (hu : Url.ofText? (address ++ "/" ++ withoutLeadingSlashes path) = some url)
    {content : Option Content} {paths : Table String} :
    d.Reaches ⟨known, paths⟩ new method path
      ⟨method, url, some credential.token, content⟩ := by
  cases h with
  | @ready session session' _ before more first there again =>
    have hfirst : d.settings.Renews ⟨known, paths⟩ ⟨some session, paths⟩ before := first.renews
    have hbegun : d.settings.Begun ⟨known, paths⟩ before session := hfirst session rfl
    exact ⟨rfl, rfl, session, address, hbegun.append more, there, hu⟩

end Prepared

namespace Called

variable {known kept : Option IdentitySession} {method : Method} {path : String}
  {content : Option Content} {r : Except ServiceError Response} {new : List Event}

theorem renews (h : d.Called known method path content r kept new) {paths paths' : Table String} :
    d.settings.Renews ⟨known, paths⟩ ⟨kept, paths'⟩ new := by
  cases h with
  | unprepared prepared | noRequest prepared => exact prepared.renews
  | sent prepared => exact prepared.renews.append _

/-- Nobody but the identity service is asked, or then the service as well, with one request. -/
theorem quiet_or_reaches (h : d.Called known method path content r kept new)
    (paths : Table String) :
    d.settings.Quiet new ∨ ∃ before request answer, new = before ++ [.answer request answer]
      ∧ d.settings.Quiet before ∧ d.Reaches ⟨known, paths⟩ before method path request := by
  cases h with
  | unprepared prepared | noRequest prepared => exact .inl prepared.quiet
  | sent prepared there => exact .inr ⟨_, _, _, rfl, prepared.quiet, prepared.reaches there⟩

theorem asked (h : d.Called known method path content r kept new) {paths paths' : Table String} :
    d.Asked ⟨known, paths⟩ ⟨kept, paths'⟩ method path .ok r new := by
  cases h with
  | unprepared prepared =>
    exact .unsent prepared.quiet.only prepared.unheard fun he => prepared.lacks he
  | noRequest prepared => exact .unsent prepared.quiet.only prepared.unheard nofun
  | sent prepared there => exact .answered prepared.quiet.only (prepared.reaches there)

end Called

/-- A call asks the service once at most, and leaves the paths that are kept as they are. -/
theorem call_ends (d : Destination service) (o : Outside) (method : Method) (path : String)
    (content : Option Content) (c : Connection) (past : List Event) :
    Ends (Remote.call o.network (d.settings.identity o.network) service d.region method path
      content).run c past fun r c' new =>
        c'.stackPaths = c.stackPaths ∧ d.Called c.session method path content r c'.session new := by
  unfold Remote.call
  refine Ends.attempt (Ends.replied (g := d.address)
    ((d.settings.session_ends o c past).mono ?_))
  rintro r _ new ⟨first, rfl⟩
  rcases r with e | session
  · exact ⟨rfl, .unprepared (.noSession first)⟩
  rcases ha : (Except.ok session >>= d.address) with e | address
  · exact ⟨rfl, .unprepared (.noAddress first ha)⟩
  -- Asking for the credential is asking for the session once more, which may begin another one.
  show Ends (((IdentitySession.credential <$> d.settings.session o.network) >>= _).run) _ _ _
  rw [bind_map_left]
  refine Ends.attempt ((d.settings.session_ends o _ _).mono ?_)
  rintro r _ more ⟨again, rfl⟩
  rcases r with e | session'
  · exact ⟨rfl, .unprepared (.noCredential first ha again)⟩
  have hprepared := Prepared.ready first ha again
  rcases request_run o (past ++ new ++ more) method (address ++ "/" ++ withoutLeadingSlashes path)
    (some session'.credential.token) content with ⟨url, answer, hu, h⟩ | ⟨hunsendable, h⟩
  · refine Ends.lift h ?_
    rw [← List.append_assoc]
    exact ⟨rfl, .sent hprepared hu⟩
  · refine Ends.lift (by rw [List.append_nil]; exact h) ?_
    rw [List.append_nil]
    exact ⟨rfl, .noRequest hprepared hunsendable⟩

theorem calls_call (d : Destination service) (o : Outside) (method : Method) (path : String)
    (content : Option Content) :
    d.Calls (Remote.call o.network (d.settings.identity o.network) service d.region method path
      content) method path content .ok := by
  intro c past
  refine (d.call_ends o method path content c past).mono ?_
  rintro r c' new ⟨hpaths, hcalled⟩
  exact ⟨hpaths, r, hcalled, (bind_pure r).symm⟩

namespace Calls

variable {x : ExceptT ServiceError (Remote Watched) α} {method : Method} {path : String}
  {content : Option Content} {f : Response → Except ServiceError α}

/-- What is made of the answer may be looked at further. -/
theorem bind (h : d.Calls x method path content f) (g : α → Except ServiceError β) :
    d.Calls (x >>= fun a => Reply.lift (g a)) method path content fun response =>
      f response >>= g := by
  intro c past
  refine Ends.replied ((h c past).mono ?_)
  rintro r c' new ⟨hpaths, response, hcalled, rfl⟩
  exact ⟨hpaths, response, hcalled, bind_assoc ..⟩

theorem map (h : d.Calls x method path content f) (g : α → β) :
    d.Calls (g <$> x) method path content fun response => g <$> f response := by
  rw [map_eq_pure_bind]
  simp only [map_eq_pure_bind]
  exact h.bind fun a => .ok (g a)

/-- A call asks the service once at most. -/
theorem asks (h : d.Calls x method path content f) : d.Asks x method path f := by
  intro c past
  refine (h c past).mono ?_
  rintro r c' new ⟨-, response, hcalled, rfl⟩
  exact ⟨hcalled.renews, hcalled.asked.bind f⟩

end Calls

end Destination

end Provision
