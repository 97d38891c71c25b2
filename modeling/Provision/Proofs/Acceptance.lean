import Provision.Proofs.OwnWord

/-!
# What a rejected submission says

A submission counts as rejected whenever its service fails. That the service has created nothing
is said by its refusals, and no request has reached it when the identity service fails before. But
the same verdict comes of a stack that was granted with an answer that cannot be read, because its
body broke off or says no identifier. Then the stack has been created all the same.

There is no other such case: a rejected submission was granted exactly if the answer to it could
not be read, and then the reason given is why it could not.
-/

namespace Provision

open Remote

namespace Destination

/-- The identifier that the answer to a submission says. -/
def created (response : Response) : Except ServiceError String :=
  response.granted "stack create" >>= fun response => response.decode createdOfNode?

variable (d : Destination orchestrationService)

/-- The service answered the request for a new stack with success. -/
def Grants (c : Connection) (new : List Event) : Prop :=
  ∃ response, d.Told c new .post "stacks" response ∧ response.isSuccess = true

/-- The service answered the request for a new stack with success, and its answer cannot be read
for this reason. -/
def GrantsIllegibly (c : Connection) (new : List Event) (e : ServiceError) : Prop :=
  ∃ response, d.Told c new .post "stacks" response ∧ response.isSuccess = true ∧
    response.decode createdOfNode? = .error e

/-- The service answered the request for a new stack with success and this identifier. -/
def GrantsAs (c : Connection) (new : List Event) (id : String) : Prop :=
  ∃ response, d.Told c new .post "stacks" response ∧ response.isSuccess = true ∧
    response.decode createdOfNode? = .ok id

variable {d}

theorem GrantsIllegibly.grants {c : Connection} {new : List Event} {e : ServiceError}
    (h : d.GrantsIllegibly c new e) : d.Grants c new := by
  obtain ⟨response, ht, hs, -⟩ := h
  exact ⟨response, ht, hs⟩

theorem not_grants {c : Connection} {new : List Event}
    (h : d.settings.Only (fun _ response => response.isSuccess = false) new) :
    ¬ d.Grants c new := by
  rintro ⟨response, ht, hs⟩
  obtain ⟨-, -, h⟩ := ht.of_only h
  rw [h] at hs
  cases hs

theorem created_of_isSuccess {response : Response} (h : response.isSuccess = true) :
    created response = response.decode createdOfNode? := by
  rw [created, Response.granted, if_pos h]
  rfl

theorem isSuccess_of_created {response : Response} {id : String}
    (h : created response = .ok id) : response.isSuccess = true := by
  unfold created at h
  rcases hg : response.granted "stack create" with e | response'
  · rw [hg] at h
    cases h
  · exact Response.isSuccess_of_granted hg

/-- In one call, a request with a token is one to the service that is called. -/
theorem Asked.told {α : Type} {c c' : Connection} {method : Method} {path : String}
    {f : Response → Except ServiceError α} {r : Except ServiceError α} {new : List Event}
    {request : Request} {response : Response} (h : d.Asked c c' method path f r new)
    (hm : .answer request (.ok response) ∈ new) (ht : request.token.isSome = true) :
    d.Told c new method path response := by
  have hnot : ¬ d.settings.AsksForToken request := fun h => by
    rw [h.2.1] at ht
    cases ht
  cases h with
  | unsent quiet unheard lacks => exact absurd (quiet request response hm) (by simpa using hnot)
  | answered quiet reaches =>
    rcases List.mem_append.1 hm with hm | hm
    · exact absurd (quiet request response hm) (by simpa using hnot)
    · cases List.mem_singleton.1 hm
      exact reaches.told response

/-- How a submission went: what failed was either granted illegibly or not granted at all, and what
did not fail was granted. -/
structure Submitted (d : Destination orchestrationService) (c : Connection)
    (r : Except ServiceError String) (new : List Event) : Prop where
  failed : ∀ e, r = .error e → (d.Grants c new ↔ d.GrantsIllegibly c new e)
  done : ∀ id, r = .ok id → d.GrantsAs c new id

theorem submitted_of_not_grants {c : Connection} {e : ServiceError} {new : List Event}
    (h : ¬ d.Grants c new) : d.Submitted c (.error e) new where
  failed _ _ := iff_of_false h fun hi => h hi.grants
  done _ h := by cases h

/-- A submission asks the service once. -/
theorem submitted_of_asked {c c' : Connection} {r : Except ServiceError String}
    {new : List Event} (h : d.Asked c c' .post "stacks" created r new) : d.Submitted c r new := by
  cases h with
  | unsent quiet unheard lacks =>
    exact submitted_of_not_grants (not_grants (quiet.mono fun _ _ => False.elim))
  | @answered before request answer quiet reaches =>
    rcases answer with reason | response
    · exact submitted_of_not_grants (not_grants (quiet.last fun _ h => by cases h))
    have htold := reaches.told response
    simp only [heard]
    rcases hr : created response with e | id
    · rcases hs : response.isSuccess
      · exact submitted_of_not_grants (not_grants (quiet.last fun _ h => by cases h; exact hs))
      · rw [created_of_isSuccess hs] at hr
        have hillegible : d.GrantsIllegibly c (before ++ [.answer request (.ok response)]) e :=
          ⟨response, htold, hs, hr⟩
        refine ⟨fun e' he => ?_, fun _ h => by cases h⟩
        cases he
        exact iff_of_true hillegible.grants hillegible
    · have hs := isSuccess_of_created hr
      rw [created_of_isSuccess hs] at hr
      refine ⟨fun _ h => (by cases h), fun id' hid => ?_⟩
      cases hid
      exact ⟨response, htold, hs, hr⟩

/-- To submit is to ask the service, and then to keep the path of the new stack. -/
theorem submit_eq (d : Destination orchestrationService) (o : Outside) (s : Submission) :
    (d.client o).submit s = (do
      let response ← (d.client o).sendGranted .post "stacks" "stack create"
        (some (.json (submissionBody s)))
      Reply.lift (response.decode createdOfNode?)) >>= fun id => do
        StackClient.keepPath id ("stacks/" ++ s.stackName ++ "/" ++ id)
        return id := by
  rw [StackClient.submit, bind_assoc]

theorem calls_created (d : Destination orchestrationService) (o : Outside) (s : Submission) :
    d.Calls (do
      let response ← (d.client o).sendGranted .post "stacks" "stack create"
        (some (.json (submissionBody s)))
      Reply.lift (response.decode createdOfNode?)) .post "stacks" (some (.json (submissionBody s)))
      created :=
  (d.calls_sendGranted o .post "stacks" "stack create" (some (.json (submissionBody s)))).bind
    fun response => response.decode createdOfNode?

theorem submit_ends (d : Destination orchestrationService) (o : Outside) (s : Submission)
    (c : Connection) (past : List Event) :
    Ends ((d.client o).submit s).run c past fun r _ new =>
      ∃ c₀, d.Asked c c₀ .post "stacks" created r new := by
  rw [d.submit_eq o s]
  refine Ends.attempt (((d.calls_created o s).asks c past).mono ?_)
  rintro (e | id) c' new ⟨-, hasked⟩
  · exact ⟨c', hasked⟩
  · refine Ends.change ?_
    rw [List.append_nil]
    exact ⟨c', hasked⟩

/-- Creating a stack is submitting it, and what fails is called a rejection. -/
theorem create_ends (d : Destination orchestrationService) (o : Outside)
    (settings : LifecycleSettings) (name : String) (graph : ResourceGraph) (c : Connection)
    (past : List Event) :
    Ends ((d.lifecycle o settings).create name graph).run c past fun r _ new =>
      ∃ c₀ s, d.Asked c c₀ .post "stacks" created s new
        ∧ r = s.mapError fun e => .submissionRejected e.message := by
  unfold Lifecycle.create
  refine Ends.map ((d.submit_ends o _ c past).mono ?_)
  rintro s _ new ⟨c₀, hasked⟩
  exact ⟨c₀, s, hasked, rfl⟩

/-- A creation fails by being rejected, and a rejected one was granted exactly if the answer of the
service could not be read, for the reason that is given. One that does not fail was granted. -/
theorem granted_iff_illegible (d : Destination orchestrationService) (o : Outside)
    (settings : LifecycleSettings) (name : String) (graph : ResourceGraph) (c : Connection)
    (past : List Event) :
    Ends ((d.lifecycle o settings).create name graph).run c past fun r _ new =>
      (∀ fault, r = .error fault → ∃ e : ServiceError,
        fault = .submissionRejected e.message ∧ (d.Grants c new ↔ d.GrantsIllegibly c new e))
      ∧ ∀ id, r = .ok id → d.GrantsAs c new id := by
  refine (d.create_ends o settings name graph c past).mono ?_
  rintro r _ new ⟨c₀, s, hasked, rfl⟩
  have hsubmitted := submitted_of_asked hasked
  rcases s with e | id
  · refine ⟨fun fault hfault => ?_, fun _ h => by cases h⟩
    cases hfault
    exact ⟨e, rfl, hsubmitted.failed e rfl⟩
  · refine ⟨fun _ h => (by cases h), fun id' hid => ?_⟩
    cases hid
    exact hsubmitted.done id rfl

/-- An identity service that has an address for the orchestration service, and an orchestration
service that grants everything and says nothing. -/
def mute : Outside where
  answer _ request :=
    if request.token.isSome then .ok ⟨201, [], .ok "\x7b\x7d"⟩
    else .ok ⟨201, [(IdentitySettings.tokenHeader, "t")], .ok ("\x7b\"token\": \x7b\"catalog\": ["
      ++ "\x7b\"type\": \"orchestration\", \"endpoints\": ["
      ++ "\x7b\"interface\": \"public\", \"url\": \"http://heat\"\x7d]\x7d]\x7d\x7d")⟩
  clock _ := ⟨0, 0⟩

/-- The event is an answer with success to a request with a token. -/
def grantsWithToken : Event → Bool
  | .answer request (.ok response) => request.token.isSome && response.isSuccess
  | _ => false

/-- The outcome is that a submission was rejected. -/
def isRejected : Except Fault String → Bool
  | .error (.submissionRejected _) => true
  | _ => false

/-- The stack is granted, and its submission counts as rejected. -/
theorem rejected_yet_granted :
    Ends ((looked.lifecycle mute .default).create "vnf" .empty).run .fresh [] fun r _ new =>
      (∃ reason, r = .error (.submissionRejected reason)) ∧ looked.Grants .fresh new := by
  have hevaluated : Ends ((looked.lifecycle mute .default).create "vnf" .empty).run .fresh []
      fun r _ new => (isRejected r && new.any grantsWithToken) = true :=
    ⟨_, _, _, rfl, by decide +kernel⟩
  refine (hevaluated.and (looked.create_ends mute .default "vnf" .empty .fresh [])).mono ?_
  rintro r _ new ⟨h, _, s, hasked, -⟩
  obtain ⟨hr, hnew⟩ := (Bool.and_eq_true _ _).mp h
  refine ⟨?_, ?_⟩
  · unfold isRejected at hr
    split at hr
    · exact ⟨_, rfl⟩
    · cases hr
  · obtain ⟨event, hm, hg⟩ := List.any_eq_true.1 hnew
    unfold grantsWithToken at hg
    split at hg
    · rw [Bool.and_eq_true] at hg
      exact ⟨_, hasked.told hm hg.1, hg.2⟩
    · cases hg

end Destination

end Provision
