import Provision.Http
import Provision.Identity
import Provision.Instant.Reader
import Provision.Settings

/-!
# Remote services

Whoever talks to the remote services keeps two things between calls: the session with the identity
service, and under which path every stack is found that has been asked for before. Sessions are
begun when they are needed and again when their token is about to expire.
-/

namespace Provision

/-- An address of a service in the catalog. -/
structure CatalogEndpoint where
  interface : String
  region : Option String
  regionId : Option String
  url : String
  deriving DecidableEq

/-- A service in the catalog. -/
structure CatalogService where
  type : String
  endpoints : List CatalogEndpoint
  deriving DecidableEq

/-- A credential with the catalog that came with it. -/
structure IdentitySession where
  credential : Credential
  catalog : List CatalogService
  deriving DecidableEq

/-- What is kept between calls. -/
structure Connection where
  session : Option IdentitySession
  /-- The paths of stacks, by identifier. -/
  stackPaths : Table String

/-- Nothing has been asked yet. -/
def Connection.fresh : Connection := ⟨none, .empty⟩

/-- Talking to the remote services. -/
abbrev Remote (m : Type → Type) := StateT Connection m

namespace CatalogEndpoint

/-- The address that a document says. -/
def ofNode? (n : Node) : Option CatalogEndpoint := do
  let fs ← n.fields? ["interface", "region", "region_id", "url"]
  some {
    interface := ← fs.required "interface" Node.text?
    region := ← fs.optional "region" Node.text?
    regionId := ← fs.optional "region_id" Node.text?
    url := ← fs.required "url" Node.text? }

/-- Whether the address is in a region, by its name or by its identifier. -/
def isIn (e : CatalogEndpoint) (region : String) : Bool :=
  e.region == some region || e.regionId == some region

end CatalogEndpoint

/-- The service that a document says. -/
def CatalogService.ofNode? (n : Node) : Option CatalogService := do
  let fs ← n.fields? ["type", "endpoints"]
  some {
    type := ← fs.required "type" Node.text?
    endpoints := ← fs.withDefault "endpoints" [] (Node.list? CatalogEndpoint.ofNode?) }

/-- A text without the slashes at its end. -/
def withoutTrailingSlashes (s : String) : String :=
  String.ofList (s.toList.reverse.dropWhile (· == '/')).reverse

/-- A text without the slashes at its beginning. -/
def withoutLeadingSlashes (s : String) : String := String.ofList (s.toList.dropWhile (· == '/'))

namespace IdentitySession

/-- The time and the catalog that the body of a granted request for a token says. -/
def bodyOfNode? (n : Node) : Option (Option Instant × List CatalogService) := do
  let fs ← n.fields? ["token"]
  fs.required "token" fun n => do
    let fs ← n.fields? ["expires_at", "catalog"]
    -- The time may be missing from a mapping, but has its place in a list.
    let expiry ← if n.isList then fs.required "expires_at" (Node.option? Node.text?)
      else fs.optional "expires_at" Node.text?
    let catalog ← fs.withDefault "catalog" [] (Node.list? CatalogService.ofNode?)
    some (expiry.bind Instant.ofTimestamp?, catalog)

/-- The address of the first endpoint that fits. -/
def endpoint (s : IdentitySession) (type interface : String) (region : Option String) :
    Except ServiceError String :=
  let endpoints := (s.catalog.filter fun e => e.type == type).flatMap CatalogService.endpoints
  match endpoints.find? fun e => e.interface == interface && region.all e.isIn with
  | some e => .ok (withoutTrailingSlashes e.url)
  | none => .error (.notFound
      (type ++ " endpoint (" ++ interface ++ ", region " ++ region.getD "any" ++ ")"))

end IdentitySession

namespace IdentitySettings

/-- The header that brings the token. -/
def tokenHeader : String := "X-Subject-Token"

/-- A token is not used in its last seconds. -/
def skewSeconds : Int := 60

/-- The request for a token, by password and for a project. -/
def tokenRequest (s : IdentitySettings) (password : String) : Value :=
  let domain (name : String) : String × Value := ("domain", .single "name" (.string name))
  let user := Value.ofMembers
    [("name", .string s.username), domain s.userDomain, ("password", .string password)]
  let project := Value.ofMembers [("name", .string s.project), domain s.projectDomain]
  .single "auth" (.ofMembers
    [("identity", .ofMembers
        [("methods", .ofTexts ["password"]), ("password", .single "user" user)]),
     ("scope", .single "project" project)])

variable {m : Type → Type} [Monad m]

/-- Begins a session. -/
def authenticate (s : IdentitySettings) (net : Network m) :
    ExceptT ServiceError m IdentitySession := do
  match s.password with
  | none => throw (.auth ("no password configured for user " ++ s.username))
  | some password =>
    let response ← net.request .post (withoutTrailingSlashes s.authUrl ++ "/auth/tokens") none
      (some (.json (s.tokenRequest password)))
    let response ← Reply.lift (response.granted "identity token")
    match response.header? tokenHeader with
    | none => throw (.auth ("response lacks " ++ tokenHeader))
    | some token =>
      let (expiry, catalog) ← Reply.lift (response.decode IdentitySession.bodyOfNode?)
      return ⟨⟨token, expiry⟩, catalog⟩

/-- The session, a new one if there is none whose token is still good. -/
def session (s : IdentitySettings) (net : Network m) :
    ExceptT ServiceError (Remote m) IdentitySession := do
  let now ← (net.now : m Instant)
  match (← get).session with
  | some known =>
    if known.credential.isStale now skewSeconds then renew else return known
  | none => renew
where
  /-- Begins a session and keeps it. -/
  renew : ExceptT ServiceError (Remote m) IdentitySession := do
    let new ← ExceptT.mk (StateT.lift (s.authenticate net).run)
    modify fun c => { c with session := some new }
    return new

/-- The identity service that the settings lead to. -/
def identity (s : IdentitySettings) (net : Network m) : Identity (Remote m) where
  endpoint type region := do
    let session ← s.session net
    Reply.lift (session.endpoint type s.interface (region <|> s.region))
  credential := IdentitySession.credential <$> s.session net

/-- Forgets the session. -/
def invalidate : Remote m Unit := modify fun c => { c with session := none }

end IdentitySettings

namespace Remote

variable {m : Type → Type} [Monad m]

/-- Calls a service: learns where it is, gets a credential and sends a request there. -/
def call (net : Network m) (identity : Identity (Remote m)) (service : String)
    (region : Option String) (method : Method) (path : String) (content : Option Content) :
    ExceptT ServiceError (Remote m) Response := do
  let endpoint ← identity.endpoint service region
  let credential ← identity.credential
  ExceptT.mk (StateT.lift (net.request method
    (endpoint ++ "/" ++ withoutLeadingSlashes path) (some credential.token) content).run)

end Remote

end Provision
