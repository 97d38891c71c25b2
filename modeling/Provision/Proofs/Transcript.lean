import Provision.Remote

/-!
# Transcripts

Whatever is between here and the services, a run leaves a transcript: what the clock said, how long
was paused, and how every request was answered. All of it may depend on everything before, so that
what holds for every `Outside` holds for every sequence of answers.

A run always ends, and only ever adds to its transcript. `Ends` says what is then known of the
result, of the connection kept, and of what was added; its rules follow the shape of the program.
-/

namespace Provision

/-- What happens while something runs. -/
inductive Event where
  | clock (now : Instant)
  | pause (ms : Nat)
  | answer (request : Request) (answer : Except String Response)

/-- What the outside does, after everything that has happened. -/
structure Outside where
  answer : List Event → Request → Except String Response
  clock : List Event → Instant

/-- Runs that leave a transcript. -/
abbrev Watched := StateM (List Event)

/-- The network that the outside is. -/
def Outside.network (o : Outside) : Network Watched where
  send request := do
    let past ← get
    let answer := o.answer past request
    set (past ++ [Event.answer request answer])
    return answer
  now := do
    let past ← get
    let now := o.clock past
    set (past ++ [Event.clock now])
    return now

/-- A pause on the transcript. -/
def Watched.pause (ms : Nat) : Remote Watched Unit :=
  StateT.lift (modify fun past => past ++ [Event.pause ms])

/-- What is made of an answer; one that did not come is a failed connection. -/
def heard (f : Response → Except ServiceError α) : Except String Response → Except ServiceError α
  | .ok response => f response
  | .error reason => .error (.transport reason)

theorem heard_bind (f : Response → Except ServiceError α) (g : α → Except ServiceError β) :
    ∀ answer, (heard f answer >>= g) = heard (fun response => f response >>= g) answer
  | .ok _ => rfl
  | .error _ => rfl

/-- Something has happened, and the last event has the property. -/
def LastIs (P : Event → Prop) (new : List Event) : Prop := ∃ e, new.getLast? = some e ∧ P e

theorem LastIs.append {P : Event → Prop} {more : List Event} (h : LastIs P more)
    (new : List Event) : LastIs P (new ++ more) := by
  obtain ⟨e, he, hP⟩ := h
  refine ⟨e, ?_, hP⟩
  rw [List.getLast?_append, he, Option.some_or]

theorem LastIs.mono {P Q : Event → Prop} {new : List Event} (h : LastIs P new)
    (hPQ : ∀ e, P e → Q e) : LastIs Q new := by
  obtain ⟨e, he, hP⟩ := h
  exact ⟨e, he, hPQ e hP⟩

theorem LastIs.not_lastIs_not {P : Event → Prop} {new : List Event} (h : LastIs P new) :
    ¬ LastIs (fun e => ¬ P e) new := by
  obtain ⟨e, he, hP⟩ := h
  rintro ⟨e', he', hn⟩
  rw [he] at he'
  cases he'
  exact hn hP

theorem lastIs_snoc {P : Event → Prop} {new : List Event} {e : Event} (h : P e) :
    LastIs P (new ++ [e]) :=
  ⟨e, List.getLast?_concat, h⟩

/-- A run from a connection and a transcript ends in `Q`: with a result, a connection and what the
run adds to the transcript. -/
def Ends {α : Type} (x : Remote Watched α) (c : Connection) (past : List Event)
    (Q : α → Connection → List Event → Prop) : Prop :=
  ∃ a c' new, (x.run c).run past = ((a, c'), past ++ new) ∧ Q a c' new

namespace Ends

variable {α β : Type} {c : Connection} {past : List Event}

/-- A run from an empty transcript may be looked at as it is evaluated. -/
theorem evaluated {x : Remote Watched α} {Q : α → Connection → List Event → Prop}
    (h : Q ((x c).run []).1.1 ((x c).run []).1.2 ((x c).run []).2) : Ends x c [] Q :=
  ⟨_, _, _, rfl, h⟩

theorem mono {x : Remote Watched α} {P Q : α → Connection → List Event → Prop}
    (h : Ends x c past P) (hPQ : ∀ a c' new, P a c' new → Q a c' new) : Ends x c past Q := by
  obtain ⟨a, c', new, hx, hP⟩ := h
  exact ⟨a, c', new, hx, hPQ a c' new hP⟩

/-- A run ends in one way. -/
theorem and {x : Remote Watched α} {P Q : α → Connection → List Event → Prop}
    (h : Ends x c past P) (h' : Ends x c past Q) :
    Ends x c past fun a c' new => P a c' new ∧ Q a c' new := by
  obtain ⟨a, c', new, hx, hP⟩ := h
  obtain ⟨b, c'', more, hx', hQ⟩ := h'
  rw [hx] at hx'
  obtain ⟨hac, hnew⟩ := Prod.mk.inj hx'
  obtain ⟨rfl, rfl⟩ := Prod.mk.inj hac
  obtain rfl := List.append_cancel_left hnew
  exact ⟨a, c', new, hx, hP, hQ⟩

theorem pure {a : α} {Q : α → Connection → List Event → Prop} (h : Q a c []) :
    Ends (Pure.pure a) c past Q :=
  ⟨a, c, [], by simp; rfl, h⟩

theorem bind {x : Remote Watched α} {f : α → Remote Watched β}
    {Q : β → Connection → List Event → Prop}
    (h : Ends x c past fun a c' new =>
      Ends (f a) c' (past ++ new) fun b c'' more => Q b c'' (new ++ more)) :
    Ends (x >>= f) c past Q := by
  obtain ⟨a, c', new, hx, b, c'', more, hf, hQ⟩ := h
  refine ⟨b, c'', new ++ more, ?_, hQ⟩
  simp only [StateT.run_bind, hx]
  show ((f a).run c').run (past ++ new) = _
  rw [hf, List.append_assoc]

theorem map {x : Remote Watched α} {f : α → β} {Q : β → Connection → List Event → Prop}
    (h : Ends x c past fun a c' new => Q (f a) c' new) : Ends (f <$> x) c past Q := by
  rw [map_eq_pure_bind]
  exact Ends.bind (h.mono fun a c' new hQ => Ends.pure (by rwa [List.append_nil]))

/-- What comes after a step that may fail is run only if the step did not. -/
theorem attempt {ε : Type} {x : ExceptT ε (Remote Watched) α}
    {f : α → ExceptT ε (Remote Watched) β} {Q : Except ε β → Connection → List Event → Prop}
    (h : Ends x.run c past fun r c' new => match r with
      | .ok a => Ends (f a).run c' (past ++ new) fun b c'' more => Q b c'' (new ++ more)
      | .error e => Q (.error e) c' new) :
    Ends (x >>= f).run c past Q := by
  rw [ExceptT.run_bind]
  refine Ends.bind (h.mono fun r c' new hr => ?_)
  rcases r with e | a
  · exact Ends.pure (by simpa using hr)
  · exact hr

theorem step {ε : Type} {x : Remote Watched α} {f : α → ExceptT ε (Remote Watched) β}
    {Q : Except ε β → Connection → List Event → Prop}
    (h : Ends x c past fun a c' new =>
      Ends (f a).run c' (past ++ new) fun b c'' more => Q b c'' (new ++ more)) :
    Ends ((liftM x : ExceptT ε (Remote Watched) α) >>= f).run c past Q := by
  show Ends (ExceptT.lift x >>= f).run c past Q
  rw [ExceptT.run_bind_lift]
  exact Ends.bind h

/-- What is made of a result without asking anybody. -/
theorem replied {x : ExceptT ServiceError (Remote Watched) α} {g : α → Except ServiceError β}
    {Q : Except ServiceError β → Connection → List Event → Prop}
    (h : Ends x.run c past fun r c' new => Q (r >>= g) c' new) :
    Ends (x >>= fun a => Reply.lift (g a)).run c past Q := by
  refine Ends.attempt (h.mono fun r c' new hr => ?_)
  rcases r with e | a
  · exact hr
  · exact Ends.pure (by rw [List.append_nil]; exact hr)

/-- What only the outside has a part in leaves the connection as it is. -/
theorem lift {x : Watched α} {a : α} {new : List Event}
    {Q : α → Connection → List Event → Prop} (hx : x.run past = (a, past ++ new))
    (hQ : Q a c new) : Ends (StateT.lift x) c past Q := by
  refine ⟨a, c, new, ?_, hQ⟩
  simp only [StateT.run_lift, StateT.run_bind, hx]
  rfl

theorem clock {o : Outside} {f : Instant → ExceptT ServiceError (Remote Watched) β}
    {Q : Except ServiceError β → Connection → List Event → Prop}
    (h : Ends (f (o.clock past)).run c (past ++ [.clock (o.clock past)])
      fun b c' more => Q b c' (.clock (o.clock past) :: more)) :
    Ends ((liftM o.network.now : ExceptT ServiceError (Remote Watched) Instant) >>= f).run
      c past Q :=
  Ends.attempt ⟨.ok (o.clock past), c, [.clock (o.clock past)], rfl, h⟩

theorem kept {f : Connection → ExceptT ServiceError (Remote Watched) β}
    {Q : Except ServiceError β → Connection → List Event → Prop}
    (h : Ends (f c).run c past Q) : Ends (get >>= f).run c past Q := by
  refine Ends.attempt ⟨.ok c, c, [], ?_, ?_⟩
  · simp
    rfl
  · simpa using h

theorem change {g : Connection → Connection} {a : β}
    {Q : Except ServiceError β → Connection → List Event → Prop} (h : Q (.ok a) (g c) []) :
    Ends (do modify g; return a : ExceptT ServiceError (Remote Watched) β).run c past Q := by
  refine ⟨.ok a, g c, [], ?_, h⟩
  simp
  rfl

theorem pause {ms : Nat} {Q : Unit → Connection → List Event → Prop}
    (h : Q () c [.pause ms]) : Ends (Watched.pause ms) c past Q :=
  Ends.lift rfl h

end Ends

/-- A request cannot be made: there is no such address, or the token cannot be in a header. -/
def Unsendable (address : String) (token : Option String) : Prop :=
  Url.ofText? address = none ∨ token.all Network.isHeaderText = false

/-- A request is sent once, or not at all if it cannot be made. -/
theorem request_run (o : Outside) (past : List Event) (method : Method) (address : String)
    (token : Option String) (content : Option Content) :
    (∃ url answer, Url.ofText? address = some url ∧
      (o.network.request method address token content).run.run past
        = (heard .ok answer, past ++ [.answer ⟨method, url, token, content⟩ answer])) ∨
    Unsendable address token ∧ (o.network.request method address token content).run.run past
      = (.error (.transport Network.noRequest), past) := by
  unfold Network.request Unsendable
  rcases Url.ofText? address with _ | url
  · exact .inr ⟨.inl rfl, rfl⟩
  · rcases token.all Network.isHeaderText
    · exact .inr ⟨.inr rfl, rfl⟩
    · refine .inl ⟨url, o.answer past ⟨method, url, token, content⟩, rfl, ?_⟩
      show (match o.answer past ⟨method, url, token, content⟩ with
        | .ok response => (pure response : ExceptT ServiceError Watched Response)
        | .error reason => throw (ServiceError.transport reason)).run.run
          (past ++ [Event.answer _ _]) = _
      rcases o.answer past ⟨method, url, token, content⟩ with reason | response <;> rfl

end Provision
