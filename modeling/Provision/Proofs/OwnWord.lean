import Mathlib.Logic.Basic
import Provision.Lifecycle
import Provision.Proofs.Calling
import Provision.Remote.Stacks

/-!
# Who says that a stack is gone

A stack counts as deleted, or as having disappeared, when a look at it or its deletion fails for
want of something. That is the word of the orchestration service if it has answered so. But the
same failure comes of a request for a token that is answered with 404, and of a catalog that has no
address for the service. Then nobody has asked the service, and the stack is taken to be gone all
the same.

There is no third way: a stack is taken to be gone on the word of the service exactly if the run
does not end with an identity service that lacks what was asked for (`Lacks`). Looks, waits and
deletions each get one lemma that says how they end; a wait is an induction on the looks left, and
what carries it is that nothing heard so far has settled it.
-/

namespace Provision

open Remote

namespace Destination

variable (d : Destination orchestrationService)

/-- The orchestration service, reached by way of the identity service. -/
def client (o : Outside) : StackClient Watched :=
  ⟨o.network, d.settings.identity o.network, d.region⟩

/-- Stacks driven over the network. -/
def lifecycle (o : Outside) (settings : LifecycleSettings) : Lifecycle (Remote Watched) :=
  ⟨(d.client o).orchestration, Watched.pause, settings⟩

/-- What the answer to a look at a stack says of it. -/
def fetched (id : String) (response : Response) : Except ServiceError StackBody :=
  response.granted ("stack " ++ id) >>= fun response => response.decode StackBody.ofNode?

/-- What the answer to a look at a stack says of it, if its status can be read. -/
def reported (id : String) (response : Response) : Except ServiceError DeployedStack :=
  fetched id response >>= StackBody.deployed

/-- The service was asked something and answered in the run. -/
def Told (c : Connection) (new : List Event) (method : Method) (path : String)
    (response : Response) : Prop :=
  ∃ request, .answer request (.ok response) ∈ new ∧ d.Reaches c new method path request

/-- The service answered 404 to a look at the stack. -/
def SaysGone (c : Connection) (new : List Event) (id : String) : Prop :=
  ∃ response, d.Told c new .get ("stacks/" ++ id) response ∧ response.status = 404

/-- The service answered a look at the stack with this report. -/
def Reports (c : Connection) (new : List Event) (id : String) (stack : DeployedStack) : Prop :=
  ∃ response, d.Told c new .get ("stacks/" ++ id) response ∧ reported id response = .ok stack

/-- The path of the stack: the one that was kept, or what the service told when asked for it. -/
def Locates (c : Connection) (new : List Event) (id path : String) : Prop :=
  c.stackPaths.get? id = some path ∨ c.stackPaths.get? id = none ∧ ∃ response stack,
    d.Told c new .get ("stacks/" ++ id) response ∧ fetched id response = .ok stack ∧
      stack.path = path

/-- The service answered 404 for the stack, or answered its deletion with 404 or with success. -/
def SaysDeleted (c : Connection) (new : List Event) (id : String) : Prop :=
  d.SaysGone c new id ∨ ∃ path response, d.Locates c new id path ∧
    d.Told c new .delete path response ∧ (response.status = 404 ∨ response.isSuccess = true)

variable {d}

/-- What the service answers to a request that reaches it, it tells. -/
theorem Reaches.told {c : Connection} {before : List Event} {method : Method} {path : String}
    {request : Request} (h : d.Reaches c before method path request) (response : Response) :
    d.Told c (before ++ [.answer request (.ok response)]) method path response :=
  ⟨request, by simp, h.append _⟩

theorem Told.append {c : Connection} {new : List Event} {method : Method} {path : String}
    {response : Response} (h : d.Told c new method path response) (more : List Event) :
    d.Told c (new ++ more) method path response := by
  obtain ⟨request, hm, hr⟩ := h
  exact ⟨request, List.mem_append_left _ hm, hr.append more⟩

theorem Told.later {c c' : Connection} {new more : List Event} {method : Method} {path : String}
    {response : Response} (hc : d.settings.Renews c c' new)
    (h : d.Told c' more method path response) : d.Told c (new ++ more) method path response := by
  obtain ⟨request, hm, hr⟩ := h
  exact ⟨request, List.mem_append_right _ hm, hr.later hc⟩

/-- What holds of all that was heard of the service holds of what it told. -/
theorem Told.of_only {c : Connection} {new : List Event} {method : Method} {path : String}
    {response : Response} {P : Request → Response → Prop}
    (h : d.Told c new method path response) (hP : d.settings.Only P new) :
    ∃ request, request.method = method ∧ P request response := by
  obtain ⟨request, hm, hr⟩ := h
  exact ⟨request, hr.1, (hP request response hm).resolve_left hr.not_asksForToken⟩

theorem SaysGone.later {c c' : Connection} {new more : List Event} {id : String}
    (hc : d.settings.Renews c c' new) (h : d.SaysGone c' more id) :
    d.SaysGone c (new ++ more) id := by
  obtain ⟨response, ht, hs⟩ := h
  exact ⟨response, ht.later hc, hs⟩

theorem Reports.later {c c' : Connection} {new more : List Event} {id : String}
    {stack : DeployedStack} (hc : d.settings.Renews c c' new) (h : d.Reports c' more id stack) :
    d.Reports c (new ++ more) id stack := by
  obtain ⟨response, ht, hr⟩ := h
  exact ⟨response, ht.later hc, hr⟩

/-! ## What an answer means -/

theorem status_of_fetched_error {id : String} {response : Response} {e : ServiceError}
    (h : fetched id response = .error e) (he : e.isNotFound = true) : response.status = 404 := by
  unfold fetched at h
  rcases hg : response.granted ("stack " ++ id) with e' | response'
  · rw [hg] at h
    cases h
    exact Response.status_of_granted_error hg he
  · rw [hg] at h
    rw [Response.not_isNotFound_of_decode h] at he
    cases he

theorem fetched_of_status {id : String} {response : Response} (h : response.status = 404) :
    fetched id response = .error (.notFound ("stack " ++ id)) := by
  rw [fetched, Response.granted_of_status h]
  rfl

theorem status_of_reported_error {id : String} {response : Response} {e : ServiceError}
    (h : reported id response = .error e) (he : e.isNotFound = true) : response.status = 404 := by
  unfold reported at h
  rcases hf : fetched id response with e' | stack
  · rw [hf] at h
    cases h
    exact status_of_fetched_error hf he
  · rw [hf] at h
    change stack.deployed = _ at h
    unfold StackBody.deployed at h
    split at h
    · cases h
    · cases h
      cases he

theorem reported_of_status {id : String} {response : Response} (h : response.status = 404) :
    reported id response = .error (.notFound ("stack " ++ id)) := by
  rw [reported, fetched_of_status h]
  rfl

/-! ## Single calls -/

section

variable (d) (o : Outside)

theorem calls_sendGranted (method : Method) (path what : String) (content : Option Content) :
    d.Calls ((d.client o).sendGranted method path what content) method path content
      fun response => response.granted what :=
  (d.calls_call o method path content).bind fun response => response.granted what

theorem calls_read {α : Type} (path what : String) (f : Node → Option α) :
    d.Calls ((d.client o).read path what f) .get path none
      fun response => response.granted what >>= fun response => response.decode f :=
  (d.calls_sendGranted o .get path what none).bind fun response => response.decode f

theorem calls_fetch (id : String) :
    d.Calls ((d.client o).fetch id) .get ("stacks/" ++ id) none (fetched id) :=
  d.calls_read o ("stacks/" ++ id) ("stack " ++ id) StackBody.ofNode?

theorem calls_stack (id : String) :
    d.Calls ((d.client o).orchestration.stack id) .get ("stacks/" ++ id) none (reported id) :=
  (d.calls_fetch o id).bind StackBody.deployed

end

/-- What one look at a stack shows, and what was heard of the service in it. -/
inductive Looked (d : Destination orchestrationService) (id : String) (c c' : Connection) :
    Observation → List Event → Prop
  | told {new : List Event} (heard : d.settings.Heard new) (gone : d.SaysGone c new id)
      (only : d.settings.Only (fun _ response => response.status = 404) new) :
      Looked d id c c' .gone new
  | lacking {new : List Event} (lacks : d.Lacks c' new)
      (only : d.settings.Only (fun _ _ => False) new) : Looked d id c c' .gone new
  | reported {new : List Event} {stack : DeployedStack} (heard : d.settings.Heard new)
      (reports : d.Reports c new id stack)
      (only : d.settings.Only (fun _ response => reported id response = .ok stack) new) :
      Looked d id c c' (.status stack) new
  | failed {new : List Event} {e : ServiceError}
      (only : d.settings.Only (fun _ response => reported id response = .error e) new) 
      (other : e.isNotFound = false) : Looked d id c c' (.unreachable e) new

/-- A look at a stack asks the service once. -/
theorem look_ends (d : Destination orchestrationService) (o : Outside)
    (settings : LifecycleSettings) (id : String) (c : Connection) (past : List Event) :
    Ends ((d.lifecycle o settings).look id) c past fun seen c' new =>
      d.settings.Renews c c' new ∧ Looked d id c c' seen new := by
  unfold Lifecycle.look
  refine Ends.map (((d.calls_stack o id).asks c past).mono ?_)
  rintro r c' new ⟨hrenews, hasked⟩
  refine ⟨hrenews, ?_⟩
  cases hasked with
  | @unsent e _ quiet unheard lacks =>
    simp only [Observation.ofReply]
    split
    · rename_i he
      exact .lacking (lacks he) quiet
    · rename_i he
      exact .failed (quiet.mono fun _ _ => False.elim) (by simpa using he)
  | @answered before request answer quiet reaches =>
    have hlast : d.settings.Heard (before ++ [.answer request answer]) := reaches.heard answer
    rcases answer with reason | response
    · exact .failed (e := .transport reason) (quiet.last fun _ h => by cases h) rfl
    have htold := reaches.told response
    simp only [heard]
    rcases hr : reported id response with e | stack
    · simp only [Observation.ofReply]
      split
      · rename_i he
        have h404 := status_of_reported_error hr he
        exact .told hlast ⟨response, htold, h404⟩ (quiet.last fun _ h => by cases h; exact h404)
      · rename_i he
        exact .failed (quiet.last fun _ h => by cases h; exact hr) (by simpa using he)
    · exact .reported hlast ⟨response, htold, hr⟩ (quiet.last fun _ h => by cases h; exact hr)

/-- No look that was answered so has settled the wait. -/
def Unsettled (settled : StackStatus → Bool) (id : String) (response : Response) : Prop :=
  ∀ stack, reported id response = .ok stack → settled stack.status = false

theorem unsettled_of_status {settled : StackStatus → Bool} {id : String} {response : Response}
    (h : response.status = 404) : Unsettled settled id response := by
  intro stack hs
  rw [reported_of_status h] at hs
  cases hs

theorem status_of_reported_ok {id : String} {response : Response} {stack : DeployedStack}
    (h : reported id response = .ok stack) : response.status ≠ 404 := by
  intro h404
  rw [reported_of_status h404] at h
  cases h

/-- How a wait ended, and what was heard of the service in it. -/
inductive Waited (d : Destination orchestrationService) (settled : StackStatus → Bool)
    (id : String) (c c' : Connection) : Wait → List Event → Prop
  | told {new : List Event} (heard : d.settings.Heard new) (gone : d.SaysGone c new id)
      (only : d.settings.Only (fun _ response => Unsettled settled id response) new) :
      Waited d settled id c c' .gone new
  | lacking {new : List Event} (lacks : d.Lacks c' new)
      (only : d.settings.Only
        (fun _ response => response.status ≠ 404 ∧ Unsettled settled id response) new) :
      Waited d settled id c c' .gone new
  | settled {new : List Event} {stack : DeployedStack} (heard : d.settings.Heard new)
      (reports : d.Reports c new id stack) (final : settled stack.status = true)
      (only : d.settings.Only (fun _ response => response.status ≠ 404) new) :
      Waited d settled id c c' (.settled stack) new
  | exhausted {new : List Event} {last : Option StackStatus} :
      Waited d settled id c c' (.exhausted last) new

/-- A wait that goes on after looks that decided nothing. -/
theorem Waited.later {settled : StackStatus → Bool} {id : String} {c c' c'' : Connection}
    {w : Wait} {new more : List Event} (hrenews : d.settings.Renews c c' new)
    (hnew : d.settings.Only
      (fun _ response => response.status ≠ 404 ∧ Unsettled settled id response) new)
    (h : Waited d settled id c' c'' w more) : Waited d settled id c c'' w (new ++ more) := by
  cases h with
  | told heard gone only =>
    exact .told (heard.append new) (gone.later hrenews)
      ((hnew.mono fun _ _ h => h.2).append only)
  | lacking lacks only => exact .lacking (lacks.append new) (hnew.append only)
  | settled heard reports final only =>
    exact .settled (heard.append new) (reports.later hrenews) final
      ((hnew.mono fun _ _ h => h.1).append only)
  | exhausted => exact .exhausted

theorem pauseBefore_ends (d : Destination orchestrationService) (o : Outside)
    (settings : LifecycleSettings) (ms left : Nat) (c : Connection) (past : List Event) :
    Ends ((d.lifecycle o settings).pauseBefore ms left) c past fun _ c' new =>
      c' = c ∧ d.settings.Only (fun _ _ => False) new := by
  unfold Lifecycle.pauseBefore
  split
  · exact Ends.pure ⟨rfl, fun request response hm => by cases hm⟩
  · exact Ends.pause ⟨rfl, fun request response hm => by simp at hm⟩

/-- A wait ends with the service's word, or with the identity service, or undecided. -/
theorem awaitSettled_ends (d : Destination orchestrationService) (o : Outside)
    (settings : LifecycleSettings) (settled : StackStatus → Bool) (id : String) (ms : Nat) :
    ∀ (n : Nat) (last : Option StackStatus) (c : Connection) (past : List Event),
      Ends ((d.lifecycle o settings).awaitSettled settled id ms n last) c past fun w c' new =>
        d.settings.Renews c c' new ∧ Waited d settled id c c' w new
  | 0, last, c, past => Ends.pure ⟨IdentitySettings.Renews.refl c _, .exhausted⟩
  | n + 1, last, c, past => by
    have hnext (last : Option StackStatus) (c' : Connection) (new : List Event)
        (hrenews : d.settings.Renews c c' new) (hnew : d.settings.Only
          (fun _ response => response.status ≠ 404 ∧ Unsettled settled id response) new) :
        Ends (do
          (d.lifecycle o settings).pauseBefore ms n
          (d.lifecycle o settings).awaitSettled settled id ms n last) c' (past ++ new)
          fun w c'' more => d.settings.Renews c c'' (new ++ more) ∧
            Waited d settled id c c'' w (new ++ more) := by
      refine Ends.bind ((d.pauseBefore_ends o settings ms n c' _).mono ?_)
      rintro _ _ paused ⟨rfl, hpaused⟩
      refine (d.awaitSettled_ends o settings settled id ms n last _ _).mono ?_
      rintro w c'' more ⟨hmore, hw⟩
      have hquiet := hnew.append (hpaused.mono fun _ _ => False.elim)
      have hkept := hrenews.append paused
      rw [← List.append_assoc]
      exact ⟨hkept.trans hmore, hw.later hkept hquiet⟩
    refine Ends.bind ((d.look_ends o settings id c past).mono ?_)
    rintro seen c' new ⟨hrenews, hlooked⟩
    cases hlooked with
    | told heard gone only =>
      refine Ends.pure ?_
      rw [List.append_nil]
      exact ⟨hrenews, .told heard gone (only.mono fun _ _ h => unsettled_of_status h)⟩
    | lacking lacks only =>
      refine Ends.pure ?_
      rw [List.append_nil]
      exact ⟨hrenews, .lacking lacks (only.mono fun _ _ => False.elim)⟩
    | @reported _ stack heard reports only =>
      dsimp only
      split
      · rename_i hs
        refine Ends.pure ?_
        rw [List.append_nil]
        exact ⟨hrenews, .settled heard reports hs (only.mono fun _ _ h => status_of_reported_ok h)⟩
      · rename_i hs
        refine hnext _ c' new hrenews (only.mono fun _ response h => ⟨status_of_reported_ok h, ?_⟩)
        intro stack' h'
        rw [h] at h'
        cases h'
        simpa using hs
    | failed only other =>
      refine hnext _ c' new hrenews (only.mono fun _ response h => ⟨fun h404 => ?_, ?_⟩)
      · rw [reported_of_status h404] at h
        cases h
        cases other
      · intro stack h'
        rw [h] at h'
        cases h'

/-- How it went to find the path of a stack. -/
inductive Located (d : Destination orchestrationService) (id : String) (c c' : Connection) :
    Except ServiceError String → List Event → Prop
  | located {new : List Event} {path : String} (locates : d.Locates c new id path)
      (only : d.settings.Only
        (fun request response => request.method = .get ∧ response.status ≠ 404) new) :
      Located d id c c' (.ok path) new
  | told {new : List Event} {e : ServiceError} (heard : d.settings.Heard new)
      (gone : d.SaysGone c new id) : Located d id c c' (.error e) new
  | lacking {new : List Event} {e : ServiceError} (lacks : d.Lacks c' new)
      (only : d.settings.Only (fun _ _ => False) new) : Located d id c c' (.error e) new
  | failed {new : List Event} {e : ServiceError} (other : e.isNotFound = false) :
      Located d id c c' (.error e) new

theorem pathOf_ends (d : Destination orchestrationService) (o : Outside) (id : String)
    (c : Connection) (past : List Event) :
    Ends ((d.client o).pathOf id).run c past fun r c' new =>
      d.settings.Renews c c' new ∧ Located d id c c' r new := by
  unfold StackClient.pathOf
  refine Ends.kept ?_
  rcases hc : c.stackPaths.get? id with _ | path
  · refine Ends.attempt (((d.calls_fetch o id).asks c past).mono ?_)
    rintro r c' new ⟨hrenews, hasked⟩
    cases hasked with
    | @unsent e _ quiet unheard lacks =>
      refine ⟨hrenews, ?_⟩
      rcases he : e.isNotFound
      · exact .failed he
      · exact .lacking (lacks he) quiet
    | @answered before request answer quiet reaches =>
      rcases answer with reason | response
      · exact ⟨hrenews, .failed rfl⟩
      have htold := reaches.told response
      simp only [heard]
      rcases hf : fetched id response with e | stack
      · refine ⟨hrenews, ?_⟩
        rcases he : e.isNotFound
        · exact .failed he
        · exact .told (reaches.heard _) ⟨response, htold, status_of_fetched_error hf he⟩
      · have hlocates : d.Locates c (before ++ [.answer request (.ok response)]) id stack.path :=
          .inr ⟨hc, response, stack, htold, hf, rfl⟩
        refine Ends.change ?_
        rw [List.append_nil]
        refine ⟨fun session h => hrenews session h, .located hlocates (quiet.last fun _ h => ?_)⟩
        cases h
        refine ⟨reaches.1, fun h404 => ?_⟩
        rw [fetched_of_status h404] at hf
        cases hf
  · exact Ends.pure ⟨IdentitySettings.Renews.refl c _,
      .located (.inl hc) fun request response hm => by cases hm⟩

/-- If all that was heard of the service are granted looks, it has not said that the stack is
deleted. -/
theorem not_saysDeleted {c : Connection} {new : List Event} {id : String}
    (h : d.settings.Only
      (fun request response => request.method = .get ∧ response.status ≠ 404) new) :
    ¬ d.SaysDeleted c new id := by
  rintro (⟨response, ht, hs⟩ | ⟨path, response, -, ht, -⟩)
  · obtain ⟨request, -, hg⟩ := ht.of_only h
    exact hg.2 hs
  · obtain ⟨request, hm, hg⟩ := ht.of_only h
    rw [hg.1] at hm
    cases hm

theorem Locates.append {c : Connection} {new : List Event} {id path : String}
    (h : d.Locates c new id path) (more : List Event) : d.Locates c (new ++ more) id path := by
  rcases h with h | ⟨h, response, stack, ht, hf⟩
  · exact .inl h
  · exact .inr ⟨h, response, stack, ht.append more, hf⟩

/-- A deletion that counts as done ends with the service's word, or with the identity service. -/
theorem deletion_ends (d : Destination orchestrationService) (o : Outside) (id : String)
    (c : Connection) (past : List Event) :
    Ends ((d.client o).orchestration.delete id).run c past fun r c' new =>
      (∀ e, r = .error e → e.isNotFound = true) →
        d.settings.Heard new ∧ d.SaysDeleted c new id ∨
          d.Lacks c' new ∧ ¬ d.SaysDeleted c new id := by
  refine Ends.attempt ((d.pathOf_ends o id c past).mono ?_)
  rintro r c' new ⟨hrenews, hlocated⟩
  cases hlocated with
  | told heard gone => exact fun _ => .inl ⟨heard, .inl gone⟩
  | lacking lacks only =>
    exact fun _ => .inr ⟨lacks, not_saysDeleted (only.mono fun _ _ => False.elim)⟩
  | @failed _ e other =>
    intro h
    rw [h e rfl] at other
    cases other
  | @located _ path locates only =>
    have hasks := (d.calls_sendGranted o .delete path ("stack " ++ id) none).asks
    refine Ends.attempt ((hasks c' _).mono ?_)
    rintro r c'' more ⟨-, hasked⟩
    cases hasked with
    | @unsent e _ quiet unheard lacks =>
      exact fun h => .inr ⟨(lacks (h e rfl)).append new,
        not_saysDeleted (only.append (quiet.mono fun _ _ => False.elim))⟩
    | @answered before request answer quiet reaches =>
      have hlast : d.settings.Heard (new ++ (before ++ [.answer request answer])) :=
        (reaches.heard answer).append new
      rcases answer with reason | response
      · intro h
        cases h (.transport reason) rfl
      have htold : d.Told c (new ++ (before ++ [.answer request (.ok response)])) .delete path
          response := (reaches.told response).later hrenews
      have hsays (hs : response.status = 404 ∨ response.isSuccess = true) :
          d.SaysDeleted c (new ++ (before ++ [.answer request (.ok response)])) id :=
        .inr ⟨path, response, locates.append _, htold, hs⟩
      simp only [heard]
      rcases hg : response.granted ("stack " ++ id) with e | response'
      · exact fun h => .inl ⟨hlast, hsays (.inl (Response.status_of_granted_error hg (h e rfl)))⟩
      · refine Ends.pure ?_
        rw [List.append_nil]
        exact fun _ => .inl ⟨hlast, hsays (.inr (Response.isSuccess_of_granted hg))⟩

/-! ## Verdicts -/

/-- What is said of a stack that is gone before it has been created. -/
def disappeared (id : String) : String := "stack " ++ id ++ " disappeared while being created"

/-- The service said that the stack is gone or that its deletion is complete. -/
def SaysDeletedWhileAwaited (d : Destination orchestrationService) (c : Connection)
    (new : List Event) (id : String) : Prop :=
  d.SaysGone c new id ∨
    ∃ stack, d.Reports c new id stack ∧ stack.status = ⟨.delete, .complete⟩

/-- The service itself gave, as the reason of a settled status, the words for a stack that is
gone. -/
def SaysSo (d : Destination orchestrationService) (c : Connection) (new : List Event)
    (id : String) : Prop :=
  ∃ stack, d.Reports c new id stack ∧ stack.status.isInProgress = false ∧
    stack.statusReason.getD stack.status.text = disappeared id

theorem not_saysGone {c : Connection} {new : List Event} {id : String}
    (h : d.settings.Only (fun _ response => response.status ≠ 404) new) :
    ¬ d.SaysGone c new id := by
  rintro ⟨response, ht, hs⟩
  obtain ⟨-, -, h⟩ := ht.of_only h
  exact h hs

theorem Reports.unsettled {settled : StackStatus → Bool} {c : Connection} {new : List Event}
    {id : String} {stack : DeployedStack} (h : d.Reports c new id stack)
    (hnew : d.settings.Only (fun _ response => Unsettled settled id response) new) :
    settled stack.status = false := by
  obtain ⟨response, ht, hr⟩ := h
  obtain ⟨-, -, h⟩ := ht.of_only hnew
  exact h stack hr

theorem delete_ends (d : Destination orchestrationService) (o : Outside)
    (settings : LifecycleSettings) (id : String) (c : Connection) (past : List Event) :
    Ends ((d.lifecycle o settings).delete id).run c past fun r c' new =>
      r = .ok () → (d.SaysDeleted c new id ↔ ¬ d.Lacks c' new) := by
  refine Ends.step ((d.deletion_ends o id c past).mono ?_)
  intro r c' new h
  have hverdict (hr : ∀ e, r = .error e → e.isNotFound = true) :
      d.SaysDeleted c new id ↔ ¬ d.Lacks c' new := by
    rcases h hr with ⟨heard, hs⟩ | ⟨lacks, hs⟩
    · exact ⟨fun _ hl => heard.not_lastIs_not hl.unheard, fun _ => hs⟩
    · exact ⟨fun h => absurd h hs, fun h => absurd lacks h⟩
  rcases r with e | _
  · dsimp only
    split
    · rename_i he
      refine Ends.pure fun _ => ?_
      rw [List.append_nil]
      exact hverdict fun e' h => by cases h; exact he
    · exact Ends.pure fun h => by cases h
  · refine Ends.pure fun _ => ?_
    rw [List.append_nil]
    exact hverdict fun e h => by cases h

theorem awaitDeleted_ends (d : Destination orchestrationService) (o : Outside)
    (settings : LifecycleSettings) (id : String) (budget : Budget) (c : Connection)
    (past : List Event) :
    Ends ((d.lifecycle o settings).awaitDeleted id budget).run c past fun r c' new =>
      r = .ok () → (d.SaysDeletedWhileAwaited c new id ↔ ¬ d.Lacks c' new) := by
  refine Ends.step ((d.awaitSettled_ends o settings Lifecycle.deletionSettled id budget.intervalMs
    budget.retries none c past).mono ?_)
  rintro w c' new ⟨-, hw⟩
  cases hw with
  | told heard gone only =>
    refine Ends.pure fun _ => ?_
    rw [List.append_nil]
    exact ⟨fun _ hl => heard.not_lastIs_not hl.unheard, fun _ => .inl gone⟩
  | lacking lacks only =>
    refine Ends.pure fun _ => ?_
    rw [List.append_nil]
    refine ⟨?_, fun h => absurd lacks h⟩
    rintro (hgone | ⟨stack, hr, hs⟩)
    · exact absurd hgone (not_saysGone (only.mono fun _ _ h => h.1))
    · have := hr.unsettled (only.mono fun _ _ h => h.2)
      rw [hs] at this
      cases this
  | @settled _ stack heard reports final only =>
    dsimp only
    split
    · rename_i hstate
      refine Ends.pure fun _ => ?_
      rw [List.append_nil]
      refine ⟨fun _ hl => heard.not_lastIs_not hl.unheard, fun _ => .inr ⟨stack, reports, ?_⟩⟩
      simp only [Lifecycle.deletionSettled, Bool.and_eq_true, decide_eq_true_eq] at final
      exact congrArg₂ StackStatus.mk final.1 hstate
    · exact Ends.pure fun h => by cases h
  | exhausted => exact Ends.pure fun h => by cases h

theorem awaitCreated_ends (d : Destination orchestrationService) (o : Outside)
    (settings : LifecycleSettings) (id : String) (budget : Budget) (c : Connection)
    (past : List Event) :
    Ends ((d.lifecycle o settings).awaitCreated id budget).run c past fun r c' new =>
      r = .error (.createFailed id (disappeared id)) →
        (d.SaysGone c new id ↔ ¬ d.Lacks c' new ∧ ¬ d.SaysSo c new id) := by
  refine Ends.step ((d.awaitSettled_ends o settings (fun s => !s.isInProgress) id budget.intervalMs
    budget.retries none c past).mono ?_)
  rintro w c' new ⟨-, hw⟩
  cases hw with
  | told heard gone only =>
    refine Ends.pure fun _ => ?_
    rw [List.append_nil]
    refine ⟨fun _ => ⟨fun hl => heard.not_lastIs_not hl.unheard, ?_⟩, fun _ => gone⟩
    rintro ⟨stack, hr, hs, -⟩
    have := hr.unsettled only
    rw [hs] at this
    cases this
  | lacking lacks only =>
    refine Ends.pure fun _ => ?_
    rw [List.append_nil]
    exact ⟨fun h => absurd h (not_saysGone (only.mono fun _ _ h => h.1)),
      fun h => absurd lacks h.1⟩
  | @settled _ stack heard reports final only =>
    dsimp only
    split
    · exact Ends.pure fun h => by cases h
    · refine Ends.pure fun h => ?_
      rw [List.append_nil]
      have hreason : stack.statusReason.getD stack.status.text = disappeared id :=
        (Fault.createFailed.inj (Except.error.inj h)).2
      exact ⟨fun h => absurd h (not_saysGone only),
        fun h => absurd ⟨stack, reports, by simpa using final, hreason⟩ h.2⟩
  | exhausted => exact Ends.pure fun h => by cases h

/-- A stack that counts as deleted, or as having disappeared, does so on the service's own word
exactly if the run does not end with an identity service that grants no token or has no address for
the service. -/
theorem gone_iff_not_lacking (d : Destination orchestrationService) (o : Outside)
    (settings : LifecycleSettings) (id : String) (budget : Budget) (c : Connection)
    (past : List Event) :
    (Ends ((d.lifecycle o settings).delete id).run c past fun r c' new =>
      r = .ok () → (d.SaysDeleted c new id ↔ ¬ d.Lacks c' new)) ∧
    (Ends ((d.lifecycle o settings).awaitDeleted id budget).run c past fun r c' new =>
      r = .ok () → (d.SaysDeletedWhileAwaited c new id ↔ ¬ d.Lacks c' new)) ∧
    Ends ((d.lifecycle o settings).awaitCreated id budget).run c past fun r c' new =>
      r = .error (.createFailed id (disappeared id)) →
        (d.SaysGone c new id ↔ ¬ d.Lacks c' new ∧ ¬ d.SaysSo c new id) :=
  ⟨d.delete_ends o settings id c past, d.awaitDeleted_ends o settings id budget c past,
    d.awaitCreated_ends o settings id budget c past⟩

/-- An identity service whose catalog is empty. -/
def emptyCatalog : Outside where
  answer _ _ :=
    .ok ⟨201, [(IdentitySettings.tokenHeader, "t")], .ok "\x7b\"token\": \x7b\x7d\x7d"⟩
  clock _ := ⟨0, 0⟩

/-- The orchestration service as an administrator looks it up. -/
def looked : Destination orchestrationService :=
  ⟨{ IdentitySettings.default with password := some "secret" }, none⟩

/-- A request with a token was answered. -/
def bringsToken : Event → Bool
  | .answer request _ => request.token.isSome
  | _ => false

theorem Told.bringsToken {c : Connection} {new : List Event} {method : Method} {path : String}
    {response : Response} (h : d.Told c new method path response) :
    new.any Destination.bringsToken = true := by
  obtain ⟨request, hm, -, ht, -⟩ := h
  exact List.any_eq_true.2 ⟨_, hm, ht⟩

/-- Nobody has asked the service, and the stack counts as deleted. -/
theorem gone_without_a_word :
    (Ends ((looked.lifecycle emptyCatalog .default).delete "vnf").run .fresh [] fun r _ new =>
      r = .ok () ∧ ¬ looked.SaysDeleted .fresh new "vnf") ∧
    Ends ((looked.lifecycle emptyCatalog .default).awaitDeleted "vnf" .default).run .fresh []
      fun r _ new => r = .ok () ∧ ¬ looked.SaysDeletedWhileAwaited .fresh new "vnf" := by
  have hok : ∀ {r : Except Fault Unit}, r.toBool = true → r = .ok ()
    | .ok (), _ => rfl
  refine ⟨⟨_, _, _, rfl, hok (by decide +kernel), fun h => ?_⟩,
    ⟨_, _, _, rfl, hok (by decide +kernel), fun h => ?_⟩⟩
  · rcases h with ⟨_, ht, -⟩ | ⟨_, _, -, ht, -⟩
    · exact absurd ht.bringsToken (by decide +kernel)
    · exact absurd ht.bringsToken (by decide +kernel)
  · rcases h with ⟨_, ht, -⟩ | ⟨_, ⟨_, ht, -⟩, -⟩
    · exact absurd ht.bringsToken (by decide +kernel)
    · exact absurd ht.bringsToken (by decide +kernel)

end Destination

end Provision
