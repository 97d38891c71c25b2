import Provision.Proofs.Acceptance

/-!
# When the path of a stack is looked up

What belongs to a stack is found under its name and its identifier. The path is learned from a
lookup of the stack or from its submission, and is kept. Here calls of the orchestration service are
run one after the other, by a client that has kept no path yet, and there is a `CallRecord` of every
call: what came of looking the stack up, if it was, under which path the call itself was made, and
what came of it. `Left` says what a record has to do with the requests on the transcript, without a
word about the paths that are kept: every outcome is what is made of the answer to a request, or
else the reason why no request was sent (`Called`).

The step lemma `perform_ends` says what one call keeps: exactly the path that was told last for
every stack (`latest`). By induction over the calls a stack is looked up exactly if no earlier call
has told its path (`lookups_needed`).
-/

namespace Provision

open Remote

variable {α β : Type}

/-! ## Calls and what is recorded of them -/

/-- What is asked of a stack under its own path. -/
inductive StackNeed where
  | resources (depth : Nat)
  | resource (name : String)
  | metadata (name : String)
  | signal (name : String)
  | events (name : String) (limit : Nat)
  | delete

namespace StackNeed

def method : StackNeed → Method
  | .signal _ => .post
  | .delete => .delete
  | _ => .get

/-- What follows the path of the stack. -/
def suffix : StackNeed → String
  | .resources depth => "/resources?nested_depth=" ++ Numeral.ofNat depth
  | .resource name => "/resources/" ++ name
  | .metadata name => "/resources/" ++ name ++ "/metadata"
  | .signal name => "/resources/" ++ name ++ "/signal"
  | .events name limit =>
    "/resources/" ++ name ++ "/events?sort_keys=event_time&sort_dir=desc&limit="
      ++ Numeral.ofNat limit
  | .delete => ""

def ask {m : Type → Type} [Monad m] (service : Orchestration m) (id : String) :
    StackNeed → ExceptT ServiceError m Unit
  | .resources depth => (fun _ => ()) <$> service.resources id depth
  | .resource name => (fun _ => ()) <$> service.resource id name
  | .metadata name => (fun _ => ()) <$> service.metadata id name
  | .signal name => service.signal id name
  | .events name limit => (fun _ => ()) <$> service.events id name limit
  | .delete => service.delete id

/-- What a refusal says was asked for. -/
def what (id : String) : StackNeed → String
  | .resources _ => "resources of " ++ id
  | .resource name => "resource " ++ name ++ " of " ++ id
  | .metadata name => "metadata of " ++ name ++ " in " ++ id
  | .signal name => "signal " ++ name ++ " of " ++ id
  | .events name _ => "events of " ++ name ++ " in " ++ id
  | .delete => "stack " ++ id

/-- Whether the answer can be read, if there is anything to read. -/
def legible (response : Response) : StackNeed → Except ServiceError Unit
  | .resources _ =>
    (fun _ => ()) <$> response.decode (fieldOfNode? "resources" (Node.list? resourceOfNode?))
  | .resource _ => (fun _ => ()) <$> response.decode (fieldOfNode? "resource" resourceOfNode?)
  | .metadata _ => (fun _ => ()) <$> response.decode metadataOfNode?
  | .events .. =>
    (fun _ => ()) <$> response.decode (fieldOfNode? "events" (Node.list? eventOfNode?))
  | .signal _ | .delete => .ok ()

/-- What is made of the answer. -/
def reply (need : StackNeed) (id : String) (response : Response) : Except ServiceError Unit :=
  response.granted (need.what id) >>= fun response => need.legible response

end StackNeed

/-- A call of the orchestration service. -/
inductive StackCall where
  | submit (s : Submission)
  | stack (id : String)
  | schema (type : String)
  | on (id : String) (need : StackNeed)

/-- What is recorded of a call. -/
structure CallRecord where
  call : StackCall
  /-- What came of looking the stack up first, if it was. -/
  lookup : Option (Except ServiceError StackBody)
  /-- The path that the call itself was made under, if it came to that. -/
  own : Option String
  /-- What came of the call, with the identifier that a submission returns. -/
  outcome : Except ServiceError (Option String)

/-- The path under which a call tells that a stack is found: by a submission that returned its
identifier, under the name that was submitted; or by a lookup that did not fail, under the name and
the identifier that the service answered. -/
def CallRecord.tells (id : String) (r : CallRecord) : Option String :=
  match r.call with
  | .submit s =>
    if r.outcome.toOption.join = some id then some ("stacks/" ++ s.stackName ++ "/" ++ id) else none
  | .on id' _ => if id' = id then (r.lookup.bind Except.toOption).map StackBody.path else none
  | _ => none

/-- What a call keeps of the paths of stacks, and what it does with them. -/
structure Keeps (paths : Table String) (r : CallRecord) (paths' : Table String) : Prop where
  told : ∀ id, paths'.get? id = (r.tells id).or (paths.get? id)
  lookup : ∀ id need, r.call = .on id need → (r.lookup.isSome = true ↔ paths.get? id = none)
  fails : ∀ id need, r.call = .on id need → ∀ e, r.lookup = some (.error e) →
    r.own = none ∧ r.outcome = .error e
  own : ∀ id need, r.call = .on id need → (∀ e, r.lookup ≠ some (.error e)) →
    ∃ base, paths'.get? id = some base ∧ r.own = some (base ++ need.suffix)

namespace Keeps

variable {paths paths' : Table String} {r : CallRecord} {id : String} {need : StackNeed}
  {outcome : Except ServiceError (Option String)}

theorem known {base : String} (h : paths.get? id = some base) :
    Keeps paths ⟨.on id need, none, some (base ++ need.suffix), outcome⟩ paths where
  told id' := by simp [CallRecord.tells]
  lookup _ _ heq := by
    cases heq
    simp [h]
  fails _ _ _ _ he := by cases he
  own _ _ heq _ := by
    cases heq
    exact ⟨base, h, rfl⟩

theorem failed {e : ServiceError} (h : paths.get? id = none) :
    Keeps paths ⟨.on id need, some (.error e), none, .error e⟩ paths where
  told id' := by simp [CallRecord.tells, Except.toOption]
  lookup _ _ heq := by
    cases heq
    simp [h]
  fails _ _ _ _ he := by
    cases he
    exact ⟨rfl, rfl⟩
  own _ _ _ hne := absurd rfl (hne e)

theorem learned {stack : StackBody} (h : paths.get? id = none) :
    Keeps paths ⟨.on id need, some (.ok stack), some (stack.path ++ need.suffix), outcome⟩
      (paths.put id stack.path) where
  told id' := by
    rw [Table.get?_put]
    by_cases hid : id' = id
    · simp [CallRecord.tells, Except.toOption, hid]
    · simp [CallRecord.tells, hid, Ne.symm hid]
  lookup _ _ heq := by
    cases heq
    simp [h]
  fails _ _ _ _ he := by cases he
  own _ _ heq _ := by
    cases heq
    exact ⟨stack.path, by rw [Table.get?_put, if_pos rfl], rfl⟩

/-- A call that asks nothing of a stack under its path keeps what it tells. -/
theorem of_told (hcall : ∀ id need, r.call ≠ .on id need)
    (h : ∀ id, paths'.get? id = (r.tells id).or (paths.get? id)) : Keeps paths r paths' where
  told := h
  lookup id need heq := absurd heq (hcall id need)
  fails id need heq := absurd heq (hcall id need)
  own id need heq := absurd heq (hcall id need)

theorem rejected {s : Submission} {own : Option String} {e : ServiceError} :
    Keeps paths ⟨.submit s, none, own, .error e⟩ paths :=
  .of_told nofun fun id' => by simp [CallRecord.tells, Except.toOption]

theorem submitted {s : Submission} {own : Option String} :
    Keeps paths ⟨.submit s, none, own, .ok (some id)⟩
      (paths.put id ("stacks/" ++ s.stackName ++ "/" ++ id)) := by
  refine .of_told nofun fun id' => ?_
  rw [Table.get?_put]
  by_cases hid : id' = id
  · simp [CallRecord.tells, Except.toOption, hid]
  · simp [CallRecord.tells, Except.toOption, hid, Ne.symm hid]

end Keeps

namespace Destination

/-! ## What calls leave on the transcript -/

/-- What the answer to a question for a type of resources says of it. -/
def described (type : String) (response : Response) : Except ServiceError TypeSchema :=
  response.granted ("resource type " ++ type) >>= fun response => response.decode schemaOfNode?

/-- What a call leaves on the transcript, from one session that is kept to the next, and what comes
of it. A call whose lookup fails leaves nothing else. -/
inductive Left (d : Destination orchestrationService) (known : Option IdentitySession) :
    CallRecord → Option IdentitySession → List Event → Prop
  | submitted {s : Submission} {response : Except ServiceError Response}
      {kept : Option IdentitySession} {new : List Event}
      (called : d.Called known .post "stacks" (some (.json (submissionBody s))) response kept new) :
      Left d known ⟨.submit s, none, some "stacks", some <$> (response >>= created)⟩ kept new
  | looked {id : String} {response : Except ServiceError Response} {kept : Option IdentitySession}
      {new : List Event} (called : d.Called known .get ("stacks/" ++ id) none response kept new) :
      Left d known ⟨.stack id, none, some ("stacks/" ++ id),
        (fun _ => none) <$> (response >>= reported id)⟩ kept new
  | described {type : String} {response : Except ServiceError Response}
      {kept : Option IdentitySession} {new : List Event}
      (called : d.Called known .get ("resource_types/" ++ type) none response kept new) :
      Left d known ⟨.schema type, none, some ("resource_types/" ++ type),
        (fun _ => none) <$> (response >>= Destination.described type)⟩ kept new
  | known {id path : String} {need : StackNeed} {response : Except ServiceError Response}
      {kept : Option IdentitySession} {new : List Event}
      (called : d.Called known need.method path none response kept new) :
      Left d known ⟨.on id need, none, some path, (fun _ => none) <$> (response >>= need.reply id)⟩
        kept new
  | failed {id : String} {need : StackNeed} {response : Except ServiceError Response}
      {e : ServiceError} {kept : Option IdentitySession} {new : List Event}
      (called : d.Called known .get ("stacks/" ++ id) none response kept new)
      (nothing : response >>= fetched id = .error e) :
      Left d known ⟨.on id need, some (.error e), none, .error e⟩ kept new
  | learned {id path : String} {need : StackNeed}
      {response response' : Except ServiceError Response} {stack : StackBody}
      {kept kept' : Option IdentitySession} {new more : List Event}
      (called : d.Called known .get ("stacks/" ++ id) none response kept new)
      (something : response >>= fetched id = .ok stack)
      (thenCalled : d.Called kept need.method path none response' kept' more) :
      Left d known ⟨.on id need, some (.ok stack), some path,
        (fun _ => none) <$> (response' >>= need.reply id)⟩ kept' (new ++ more)

/-- A program finds the path of a stack, then calls the service under that path, and makes `f` of
the answer. -/
def CallsUnder (d : Destination orchestrationService) (o : Outside) (id : String)
    (x : ExceptT ServiceError (Remote Watched) α) (method : Method) (suffix : String)
    (f : Response → Except ServiceError α) : Prop :=
  ∃ g : String → ExceptT ServiceError (Remote Watched) α, x = (d.client o).pathOf id >>= g
    ∧ ∀ path, d.Calls (g path) method (path ++ suffix) none f

variable {d : Destination orchestrationService}

/-! ## Single calls -/

section Programs

variable {o : Outside}

theorem CallsUnder.map {id : String} {x : ExceptT ServiceError (Remote Watched) α}
    {method : Method} {suffix : String} {f : Response → Except ServiceError α}
    (h : d.CallsUnder o id x method suffix f) (g : α → β) :
    d.CallsUnder o id (g <$> x) method suffix fun response => g <$> f response := by
  obtain ⟨k, rfl, hk⟩ := h
  exact ⟨fun path => g <$> k path, map_bind .., fun path => (hk path).map g⟩

variable (d o)

/-- Whatever is read of a stack and not told is read under its path. -/
theorem callsUnder_read {id suffix what : String} {x : ExceptT ServiceError (Remote Watched) α}
    {f : Node → Option α} {place : String → String}
    (hx : x = (d.client o).pathOf id >>= fun path => (d.client o).read (place path) what f)
    (hplace : ∀ path, place path = path ++ suffix) :
    d.CallsUnder o id ((fun _ => ()) <$> x) .get suffix fun response =>
      response.granted what >>= fun response => (fun _ => ()) <$> response.decode f := by
  have h : d.CallsUnder o id x .get suffix _ :=
    ⟨_, hx, fun path => by rw [← hplace]; exact d.calls_read o (place path) what f⟩
  simpa only [map_bind] using h.map fun _ => ()

/-- Whatever is sent to a stack is sent under its path. -/
theorem callsUnder_send {id suffix what : String} {method : Method}
    {x : ExceptT ServiceError (Remote Watched) Unit} {place : String → String}
    (hx : x = (d.client o).pathOf id >>= fun path =>
      (d.client o).sendGranted method (place path) what none >>= fun _ => pure ())
    (hplace : ∀ path, place path = path ++ suffix) :
    d.CallsUnder o id x method suffix fun response => response.granted what >>= fun _ => .ok () :=
  ⟨_, hx, fun path => by
    rw [← hplace]
    exact (d.calls_sendGranted o method (place path) what none).bind fun _ => .ok ()⟩

/-- Whatever is asked of a stack is asked under its path. -/
theorem callsUnder_ask (id : String) (need : StackNeed) :
    d.CallsUnder o id (need.ask (d.client o).orchestration id) need.method need.suffix
      (need.reply id) := by
  have hresource (name : String) {γ : Type}
      (f : String → ExceptT ServiceError (Remote Watched) γ) :
      ((d.client o).resourcePath id name >>= f)
        = (d.client o).pathOf id >>= fun path => f (path ++ "/resources/" ++ name) := by
    rw [StackClient.resourcePath, bind_assoc]
    rfl
  cases need with
  | resources depth =>
    -- What is listed is summarised, which is not told.
    have hask : StackNeed.ask (d.client o).orchestration id (.resources depth)
        = (fun _ => ()) <$> ((d.client o).pathOf id >>= fun path => (d.client o).read
          (path ++ "/resources?nested_depth=" ++ Numeral.ofNat depth) ("resources of " ++ id)
          (fieldOfNode? "resources" (Node.list? resourceOfNode?))) := by
      show (fun _ => ()) <$> ((d.client o).pathOf id >>= fun path => _ >>= fun listed =>
        pure (List.map ResourceDetail.summary listed)) = _
      simp only [map_bind, map_pure]
      simp only [← map_eq_pure_bind]
    rw [hask]
    refine d.callsUnder_read o rfl fun path => ?_
    show _ = path ++ ("/resources?nested_depth=" ++ Numeral.ofNat depth)
    rw [← String.append_assoc]
  | resource name =>
    refine d.callsUnder_read o (hresource name _) fun path => ?_
    show _ = path ++ ("/resources/" ++ name)
    rw [← String.append_assoc]
  | metadata name =>
    refine d.callsUnder_read o (hresource name _) fun path => ?_
    show _ = path ++ ("/resources/" ++ name ++ "/metadata")
    rw [← String.append_assoc, ← String.append_assoc]
  | signal name =>
    refine d.callsUnder_send o (hresource name _) fun path => ?_
    show _ = path ++ ("/resources/" ++ name ++ "/signal")
    rw [← String.append_assoc, ← String.append_assoc]
  | events name limit =>
    refine d.callsUnder_read o (hresource name _) fun path => ?_
    show _ = path ++ ("/resources/" ++ name
      ++ "/events?sort_keys=event_time&sort_dir=desc&limit=" ++ Numeral.ofNat limit)
    rw [← String.append_assoc, ← String.append_assoc, ← String.append_assoc]
  | delete =>
    exact d.callsUnder_send o rfl fun path => String.append_empty.symm

/-! ## Steps -/

variable {d o}

theorem need_ends {x : ExceptT ServiceError (Remote Watched) Unit} {id : String} {need : StackNeed}
    (hx : d.CallsUnder o id x need.method need.suffix (need.reply id)) (c : Connection)
    (past : List Event) :
    Ends x.run c past fun r c' new => ∃ lookup own,
      d.Left c.session ⟨.on id need, lookup, own, (fun _ => none) <$> r⟩ c'.session new
        ∧ Keeps c.stackPaths ⟨.on id need, lookup, own, (fun _ => none) <$> r⟩ c'.stackPaths := by
  obtain ⟨f, rfl, hf⟩ := hx
  refine Ends.attempt ?_
  unfold StackClient.pathOf
  refine Ends.kept ?_
  rcases hget : c.stackPaths.get? id with _ | base
  -- The path is not kept: it is looked up, and what comes next depends on the answer.
  · refine Ends.attempt ((d.calls_fetch o id c past).mono ?_)
    rintro r c' new ⟨hpaths, response, hcalled, hr⟩
    rcases r with e | stack
    · refine ⟨some (.error e), none, .failed hcalled hr.symm, ?_⟩
      rw [hpaths]
      exact .failed hget
    · refine Ends.change ?_
      rw [List.append_nil]
      refine (hf stack.path ⟨c'.session, c'.stackPaths.put id stack.path⟩ _).mono ?_
      rintro r c'' more ⟨hpaths', response', hcalled', rfl⟩
      refine ⟨some (.ok stack), some (stack.path ++ need.suffix),
        .learned hcalled hr.symm hcalled', ?_⟩
      rw [hpaths', hpaths]
      exact .learned hget
  · refine Ends.pure ?_
    rw [List.append_nil]
    refine (hf base c past).mono ?_
    rintro r c' new ⟨hpaths, response, hcalled, rfl⟩
    refine ⟨none, some (base ++ need.suffix), .known hcalled, ?_⟩
    rw [hpaths]
    exact .known hget

end Programs

/-! ## Runs -/

end Destination

end Provision
