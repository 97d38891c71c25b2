import Provision.Fault
import Provision.Document
import Provision.Instant
import Provision.Http.Url
import Provision.Json.Skim
import Provision.Text.Blank

/-!
# Requests and responses

How remote services are called: a request is sent to an address and answered with a status, headers
and a body, or not answered at all. What a refusal means is the same for every service.
-/

namespace Provision

/-- What a request does with what it addresses. -/
inductive Method where
  | get
  | post
  | delete
  deriving DecidableEq

/-- The word for the method. -/
def Method.word : Method → String
  | .get => "GET"
  | .post => "POST"
  | .delete => "DELETE"

/-- What a request carries. -/
inductive Content where
  | json (value : Value)
  | text (text : String)

/-- The type of the content. -/
def Content.type : Content → String
  | .json _ => "application/json"
  | .text _ => "text/plain"

/-- The content as it is sent. -/
def Content.body : Content → String
  | .json v => Json.compact v
  | .text s => s

/-- A request. -/
structure Request where
  method : Method
  url : Url
  /-- The token of the caller. -/
  token : Option String
  content : Option Content

/-- A response; a body may also have broken off, which is told instead of it. -/
structure Response where
  status : Nat
  headers : List (String × String)
  body : Except String String

/-- What there is between here and the services: a way to have requests answered, or to hear why
they were not, and a clock. -/
structure Network (m : Type → Type) where
  send : Request → m (Except String Response)
  now : m Instant

namespace Network

variable {m : Type → Type} [Monad m]

/-- What is said of a request that gets no answer. -/
def noAnswer (request : Request) : String :=
  "error sending request for url (" ++ request.url.text ++ ")"

/-- What is said of a request that cannot be made. -/
def noRequest : String := "builder error"

/-- A network that no service is on. -/
def unreachable (now : m Instant) : Network m where
  send request := pure (.error (noAnswer request))
  now := now

/-- Whether a text may be the value of a header. -/
def isHeaderText (s : String) : Bool :=
  s.toList.all fun c => c == '\t' || (0x20 ≤ c.toNat && c.toNat != 0x7F)

/-- Sends a request to an address. -/
def request (n : Network m) (method : Method) (address : String) (token : Option String)
    (content : Option Content) : ExceptT ServiceError m Response :=
  match Url.ofText? address with
  | none => throw (.transport noRequest)
  | some url => do
    if !token.all isHeaderText then throw (.transport noRequest)
    match ← n.send ⟨method, url, token, content⟩ with
    | .ok response => return response
    | .error reason => throw (.transport reason)

end Network

namespace Response

/-- Whether the request was granted. -/
def isSuccess (r : Response) : Bool := 200 ≤ r.status && r.status < 300

/-- A member of an object in a member of an object. -/
def nested? (outer inner : String) (v : Value) : Option Value :=
  (v.member? outer).bind (Value.member? inner)

/-- What a body says of an error: the message in it, if it is an object with one, or all of it. -/
def explanation (body : String) : String :=
  let message := (Json.readValue body).bind fun v =>
    match nested? "error" "message" v with
    | some m => some m
    | none =>
      match v.member? "faultstring" with
      | some m => some m
      | none => v.member? "message"
  match message with
  | some (.string m) => m
  | _ => Blank.trim body

/-- What a refusal means; `what` is what was asked for. -/
def refusal (status : Nat) (what body : String) : ServiceError :=
  if status = 404 then .notFound what
  else if status = 401 then .auth (what ++ ": " ++ Blank.trim body)
  else .rejected status (explanation body)

/-- The response, if the request was granted. -/
def granted (r : Response) (what : String) : Except ServiceError Response :=
  if r.isSuccess then .ok r
  else .error (refusal r.status what (match r.body with
    | .ok body => body
    | .error _ => ""))

/-- What is said of a body that cannot be read. -/
def unreadable : String := "unreadable answer"

/-- What the body of a response says; what is not asked for is passed over. -/
def decode (r : Response) (f : Node → Option α) : Except ServiceError α :=
  match r.body with
  | .error reason => .error (.transport reason)
  | .ok body =>
    match (Json.skim body).bind f with
    | some a => .ok a
    | none => .error (.decode unreadable)

/-- The first value of a header, if it is plain text; letters count the same in any case. -/
def header? (r : Response) (name : String) : Option String := do
  let (_, value) ← r.headers.find? fun e => e.1.toLower == name.toLower
  if value.toList.all fun c => c == '\t' || (0x20 ≤ c.toNat && c.toNat < 0x7F) then some value
  else none

end Response

/-- An outcome as an effect that may fail. -/
def Reply.lift {m : Type → Type} [Monad m] (x : Except ServiceError α) : ExceptT ServiceError m α :=
  ExceptT.mk (pure x)

end Provision
