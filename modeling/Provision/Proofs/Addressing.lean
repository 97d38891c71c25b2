import Provision.Proofs.Lookups
import Provision.Proofs.Paths

/-!
# Which resource a request is for

What is asked of a resource is asked under a path with the name of the resource in it, as it is. So
the path is the same for two requests exactly if their names and what is asked of them are read as
the same segments (`ToldApart.exactly`), and a name with a slash, a question mark or a number sign
in it may be read as something else than a name. Names that are read as one segment each are told
apart as they are written (`ToldApart.written`), and names without percent signs as they are
(`ToldApart.names`). `requests_told_apart` says so of all requests that two runs send to one address
for stacks with one path.
-/

namespace Provision

open Remote

/-! ## What is asked of which resource -/

/-- What is asked of a resource. -/
inductive ResourceAction where
  | read
  | metadata
  | signal
  | events
  deriving DecidableEq

namespace Url

/-- Neither a question mark nor a number sign stands in the text. -/
def Unended (text : String) : Prop := ∀ c ∈ text.toList, inPath c = true

instance (text : String) : Decidable (Unended text) :=
  decidable_of_iff (text.toList.all inPath = true) List.all_eq_true

/-- The character stands for itself or for its bytes in a segment. -/
def inSegment (c : Char) : Bool := !isSlash c && inPath c && isKept c

theorem inSegment_iff {c : Char} :
    inSegment c = true ↔ isSlash c = false ∧ inPath c = true ∧ isKept c = true := by
  simp only [inSegment, Bool.and_eq_true, Bool.not_eq_true', and_assoc]

/-- How a name is written in a path. -/
def spelling (name : String) : String := encode reservedInPath name.toList

end Url

namespace ResourceAction

def method : ResourceAction → Method
  | .signal => .post
  | _ => .get

/-- The segment that stands behind the name of the resource. -/
def word? : ResourceAction → Option String
  | .read => none
  | .metadata => some "metadata"
  | .signal => some "signal"
  | .events => some "events"

/-- What is added to the path of all resources of a stack, after a slash. -/
def tail (action : ResourceAction) (name : String) : String :=
  match action.word? with
  | some word => name ++ "/" ++ word
  | none => name

/-- The segments as which the name of a resource and what is asked of it are written. -/
def written (action : ResourceAction) (name : String) : List String :=
  Url.written (Url.added (action.tail name).toList)

/-- The segments as which they are read. -/
def segments (action : ResourceAction) (name : String) : List String :=
  Url.segmentsOf (Url.added (action.tail name).toList)

/-- No part of the name is read as the folder around. -/
def Stays (action : ResourceAction) (name : String) : Prop :=
  ∀ s ∈ action.written name, Url.isDoubleDot s = false

/-- The name is read as one segment, and nothing of it is dropped. -/
structure IsSegment (action : ResourceAction) (name : String) : Prop where
  plain : ∀ c ∈ name.toList, Url.inSegment c = true
  ends : action.word? = none → ∀ c, name.toList.getLast? = some c → Url.isLoose c = false
  undotted : Url.isDot (Url.spelling name) = false ∧ Url.isDoubleDot (Url.spelling name) = false

end ResourceAction

/-- What is asked of a resource, and of which. -/
def StackNeed.subject? : StackNeed → Option (ResourceAction × String)
  | .resource name => some (.read, name)
  | .metadata name => some (.metadata, name)
  | .signal name => some (.signal, name)
  | .events name _ => some (.events, name)
  | _ => none

/-- The requests have the same method and the same path. -/
def Request.SameTarget (r r' : Request) : Prop :=
  r.method = r'.method ∧ r.url.path = r'.url.path

/-- How far two requests are told apart by what is asked of which resource. -/
structure ToldApart (action action' : ResourceAction) (name name' : String) (r r' : Request) :
    Prop where
  /-- The target is the same exactly if the method is and the same segments are read. -/
  exactly : action.Stays name → action'.Stays name' →
    (r.SameTarget r' ↔ action.method = action'.method
      ∧ action.segments name = action'.segments name')
  /-- Names that are segments are told apart as they are written. -/
  written : action.IsSegment name → action'.IsSegment name' →
    (r.SameTarget r' ↔ action = action' ∧ Url.spelling name = Url.spelling name')
  /-- They are told apart as they are, unless there are percent signs in one and characters that
  are written with some in one. -/
  names : action.IsSegment name → action'.IsSegment name' →
    '%' ∉ name.toList ∧ '%' ∉ name'.toList ∨
      Url.spelling name = name ∧ Url.spelling name' = name' →
    (r.SameTarget r' ↔ action = action' ∧ name = name')

/-! ## Segments -/

namespace ResourceAction

variable {action action' : ResourceAction} {name name' : String}

theorem eq_of_word? (h : action.word?.toList = action'.word?.toList) : action = action' := by
  revert h
  cases action <;> cases action' <;> decide

theorem plain_of_word? {word : String} (h : action.word? = some word) :
    (∀ c ∈ word.toList, (Url.inSegment c && !Url.isLoose c) = true)
      ∧ Url.spelling word = word ∧ Url.isDot word = false ∧ Url.isDoubleDot word = false := by
  rw [← List.all_eq_true]
  cases action <;> cases h <;> decide +kernel

/-- A name that is one segment is written as one, before what is asked of the resource. -/
theorem IsSegment.written_eq (h : action.IsSegment name) :
    action.written name = Url.spelling name :: action.word?.toList := by
  have hslash : ∀ c ∈ name.toList, Url.isSlash c = false :=
    fun c hc => (Url.inSegment_iff.1 (h.plain c hc)).1
  have hread : ∀ c ∈ name.toList, Url.inPath c = true ∧ Url.isKept c = true :=
    fun c hc => (Url.inSegment_iff.1 (h.plain c hc)).2
  unfold written tail
  rcases hword : action.word? with _ | word
  · dsimp only
    rw [Url.added_eq_self hread (h.ends hword), Url.written_of_not_isSlash hslash]
    rfl
  · obtain ⟨hplain, hspelling, -⟩ := plain_of_word? hword
    simp only [Bool.and_eq_true, Bool.not_eq_true', Url.inSegment_iff] at hplain
    have htail : (name ++ "/" ++ word).toList = name.toList ++ '/' :: word.toList := by simp
    dsimp only
    rw [htail, Url.added_eq_self, Url.written_cons_of_not_isSlash hslash,
      Url.written_of_not_isSlash fun c hc => (hplain c hc).1.1]
    · show _ :: [Url.spelling word] = _
      rw [hspelling]
      rfl
    · intro c hc
      rcases List.mem_append.1 hc with hc | hc
      · exact hread c hc
      · rcases List.mem_cons.1 hc with rfl | hc
        · decide
        · exact (hplain c hc).1.2
    · intro c hc
      rw [List.getLast?_append_cons] at hc
      rcases List.mem_cons.1 (List.mem_of_getLast? hc) with rfl | hc
      · decide
      · exact (hplain c hc).2

/-- No segment of it is a dot. -/
theorem IsSegment.undotted_of_mem (h : action.IsSegment name) :
    ∀ s ∈ action.written name, Url.isDot s = false ∧ Url.isDoubleDot s = false := by
  rw [h.written_eq]
  refine List.forall_mem_cons.2 ⟨h.undotted, fun s hs => ?_⟩
  exact (plain_of_word? (Option.mem_toList.1 hs)).2.2

theorem IsSegment.stays (h : action.IsSegment name) : action.Stays name :=
  fun s hs => (h.undotted_of_mem s hs).2

theorem IsSegment.segments_eq (h : action.IsSegment name) :
    action.segments name = Url.spelling name :: action.word?.toList :=
  (Url.resolve_eq_self h.undotted_of_mem).trans h.written_eq

/-- Names that are segments are read alike exactly if they are written alike. -/
theorem segments_eq_iff (h : action.IsSegment name) (h' : action'.IsSegment name') :
    action.method = action'.method ∧ action.segments name = action'.segments name' ↔
      action = action' ∧ Url.spelling name = Url.spelling name' := by
  rw [h.segments_eq, h'.segments_eq]
  constructor
  · rintro ⟨-, heq⟩
    obtain ⟨hname, hword⟩ := List.cons.inj heq
    exact ⟨eq_of_word? hword, hname⟩
  · rintro ⟨rfl, hname⟩
    exact ⟨rfl, by rw [hname]⟩

end ResourceAction

/-- Without confusion about percent signs, names are written alike only if they are the same. -/
theorem Url.spelling_eq_iff {name name' : String}
    (h : '%' ∉ name.toList ∧ '%' ∉ name'.toList ∨ spelling name = name ∧ spelling name' = name') :
    spelling name = spelling name' ↔ name = name' := by
  refine ⟨fun heq => ?_, congrArg _⟩
  rcases h with ⟨hname, hname'⟩ | ⟨hname, hname'⟩
  · exact String.toList_inj.1 (encode_injective hname hname' heq)
  · rwa [hname, hname'] at heq

/-! ## Where a request is sent -/

/-- What is asked of a resource is asked under the path of all resources, and what may follow is
no part of the path. -/
theorem StackNeed.suffix_of_subject? {need : StackNeed} {action : ResourceAction} {name : String}
    (h : need.subject? = some (action, name)) : need.method = action.method ∧
      ∃ query, need.suffix = "/resources/" ++ (action.tail name ++ query)
        ∧ Url.added (action.tail name ++ query).toList = Url.added (action.tail name).toList := by
  have hnone (tail : String) : Url.added (tail ++ "").toList = Url.added tail.toList := by
    rw [String.append_empty]
  have hword {name behind : String} (word query : String) (h : behind = "/" ++ word ++ query) :
      "/resources/" ++ name ++ behind = "/resources/" ++ (name ++ "/" ++ word ++ query) := by
    rw [h]
    simp only [String.append_assoc]
  cases need <;> cases h
  case resource => exact ⟨rfl, "", by rw [String.append_empty]; rfl, hnone _⟩
  case metadata => exact ⟨rfl, "", hword "metadata" "" (by decide +kernel), hnone _⟩
  case signal => exact ⟨rfl, "", hword "signal" "" (by decide +kernel), hnone _⟩
  case events limit =>
    let parameters := "sort_keys=event_time&sort_dir=desc&limit=" ++ Numeral.ofNat limit
    have hbehind : "/events?sort_keys=event_time&sort_dir=desc&limit=" ++ Numeral.ofNat limit
        = "/" ++ "events" ++ ("?" ++ parameters) := by
      have hliteral : "/events?sort_keys=event_time&sort_dir=desc&limit="
          = "/" ++ "events" ++ "?" ++ "sort_keys=event_time&sort_dir=desc&limit=" := by
        decide +kernel
      rw [hliteral, String.append_assoc, String.append_assoc]
    have hquery : ("?" ++ parameters).toList = '?' :: parameters.toList :=
      String.toList_append
    have hlast : (ResourceAction.events.tail name).toList.getLast? = some 's' := by
      have hevents : "events".toList.getLast? = some 's' := by decide +kernel
      show (name ++ "/" ++ "events").toList.getLast? = _
      rw [String.toList_append, List.getLast?_append, hevents, Option.some_or]
    refine ⟨rfl, "?" ++ parameters, (String.append_assoc ..).trans (hword "events" _ hbehind), ?_⟩
    rw [String.toList_append, hquery]
    exact Url.added_append_query hlast (by decide)

/-- The text of an address under the path of all resources, split before the last letter of that
path. -/
theorem text_of_resource (address path rest : String) :
    address ++ "/" ++ withoutLeadingSlashes (path ++ ("/resources/" ++ rest))
      = String.ofList ((address ++ "/").toList
          ++ (path ++ "/resource").toList.dropWhile (· == '/') ++ 's' :: '/' :: rest.toList) := by
  have hresources : (path ++ ("/resources/" ++ rest)).toList
      = (path ++ "/resource").toList ++ 's' :: '/' :: rest.toList := by
    have hsplit : "/resources/".toList = "/resource".toList ++ ['s', '/'] := by decide +kernel
    simp only [String.toList_append, hsplit, List.append_assoc, List.cons_append, List.nil_append]
  rw [withoutLeadingSlashes, hresources, Url.dropWhile_append_cons (by decide), ← String.toList_inj,
    String.toList_append, String.toList_ofList, String.toList_ofList, List.append_assoc]

/-- Nothing in it ends the path before what is added, if nothing in the address and in the path of
the stack does. -/
theorem inPath_of_resource {address path : String} (haddress : Url.Unended address)
    (hpath : Url.Unended path) : ∀ c ∈ (address ++ "/").toList
      ++ (path ++ "/resource").toList.dropWhile (· == '/') ++ ['s'], Url.inPath c = true := by
  have hslash : Url.Unended "/" := by decide +kernel
  have hresource : Url.Unended "/resource" := by decide +kernel
  intro c hc
  simp only [String.toList_append, List.mem_append] at hc
  rcases hc with ((hc | hc) | hc) | hc
  · exact haddress c hc
  · exact hslash c hc
  · rcases List.mem_append.1 ((List.dropWhile_sublist _).mem hc) with hc | hc
    · exact hpath c hc
    · exact hresource c hc
  · rw [List.mem_singleton.1 hc]
    decide

/-- Requests that are made for resources at one address, under one path, are told apart as far as
what is asked of which resource is read as something else. -/
theorem toldApart_of_ofText? {address path : String} (haddress : Url.Unended address)
    (hpath : Url.Unended path) {need need' : StackNeed} {action action' : ResourceAction}
    {name name' : String} (hneed : need.subject? = some (action, name))
    (hneed' : need'.subject? = some (action', name')) {r r' : Request}
    (hr : r.method = need.method ∧ Url.ofText?
      (address ++ "/" ++ withoutLeadingSlashes (path ++ need.suffix)) = some r.url)
    (hr' : r'.method = need'.method ∧ Url.ofText?
      (address ++ "/" ++ withoutLeadingSlashes (path ++ need'.suffix)) = some r'.url) :
    ToldApart action action' name name' r r' := by
  obtain ⟨hmethod, query, hsuffix, hadded⟩ := StackNeed.suffix_of_subject? hneed
  obtain ⟨hmethod', query', hsuffix', hadded'⟩ := StackNeed.suffix_of_subject? hneed'
  obtain ⟨hm, hu⟩ := hr
  obtain ⟨hm', hu'⟩ := hr'
  rw [hsuffix, text_of_resource] at hu
  rw [hsuffix', text_of_resource] at hu'
  have hinPath := inPath_of_resource haddress hpath
  have hexactly : action.Stays name → action'.Stays name' →
      (r.SameTarget r' ↔ action.method = action'.method
        ∧ action.segments name = action'.segments name') := by
    intro hstays hstays'
    unfold ResourceAction.Stays ResourceAction.written at hstays hstays'
    rw [← hadded] at hstays
    rw [← hadded'] at hstays'
    have hpaths := Url.path_eq_iff_of_added (by decide) (by decide) (by decide) hinPath hstays
      hstays' hu hu'
    rw [Request.SameTarget, hm, hm', hmethod, hmethod', hpaths, hadded, hadded']
    rfl
  have hwritten (h : action.IsSegment name) (h' : action'.IsSegment name') :
      r.SameTarget r' ↔ action = action' ∧ Url.spelling name = Url.spelling name' :=
    (hexactly h.stays h'.stays).trans (ResourceAction.segments_eq_iff h h')
  refine ⟨hexactly, hwritten, fun h h' hplain => ?_⟩
  rw [hwritten h h', Url.spelling_eq_iff hplain]

namespace Destination

variable {d : Destination orchestrationService} {c : Connection}

/-- Whichever session of the run is used, the service is at the address. -/
def Stands (d : Destination orchestrationService) (c : Connection) (new : List Event)
    (address : String) : Prop :=
  ∀ session other, d.settings.Begun c new session → d.address session = .ok other →
    other = address

/-- What is sent to the service is sent to where it is. -/
theorem Called.ofText? {method : Method} {path address : String} {content : Option Content}
    {response : Except ServiceError Response} {kept : Option IdentitySession} {new : List Event}
    (h : d.Called c.session method path content response kept new) (hs : d.Stands c new address)
    {request : Request} {answer : Except String Response} (hm : .answer request answer ∈ new)
    (hn : ¬ d.settings.AsksForToken request) : request.method = method ∧
      Url.ofText? (address ++ "/" ++ withoutLeadingSlashes path) = some request.url := by
  rcases h.quiet_or_reaches c.stackPaths with
    quiet | ⟨before, request', answer', rfl, quiet, reaches⟩
  · exact absurd hn (quiet _ hm)
  rcases List.mem_append.1 hm with hm | hm
  · exact absurd hn (quiet _ hm)
  cases List.mem_singleton.1 hm
  obtain ⟨hmethod, -, session, other, hbegun, hother, hu⟩ := reaches
  cases hs session other (hbegun.append _) hother
  exact ⟨hmethod, hu⟩

/-- What is asked of a stack whose path is kept is asked at once. -/
theorem known_ends (d : Destination orchestrationService) (o : Outside) {id path : String}
    (hc : c.stackPaths.get? id = some path) (need : StackNeed) (past : List Event) :
    Ends (need.ask (d.client o).orchestration id).run c past fun _ c' new => ∃ response,
      d.Called c.session need.method (path ++ need.suffix) none response c'.session new := by
  refine (need_ends (d.callsUnder_ask o id need) c past).mono ?_
  rintro r c' new ⟨lookup, own, hleft, hkeeps⟩
  have hlookup : lookup.isSome = false := by
    rw [Bool.eq_false_iff, Ne, hkeeps.lookup id need rfl, hc]
    exact Option.some_ne_none path
  generalize hr : (fun _ => none) <$> r = outcome at hleft hkeeps
  cases hleft with
  | known called =>
    obtain ⟨base, hbase, hown⟩ := hkeeps.own id need rfl nofun
    have htold := hkeeps.told id
    have hpath : base = path := by simpa [CallRecord.tells, hbase, hc] using htold
    cases hown
    rw [← hpath]
    exact ⟨_, called⟩
  | failed => cases hlookup
  | learned => cases hlookup

/-- Two requests for resources of stacks with one path, that are sent to one address, are told apart
as far as what is asked of which resource is read as something else. -/
theorem requests_told_apart (d : Destination orchestrationService) (o o' : Outside)
    {c c' : Connection} {id id' path address : String} (hc : c.stackPaths.get? id = some path)
    (hc' : c'.stackPaths.get? id' = some path) (hpath : Url.Unended path)
    (haddress : Url.Unended address) {need need' : StackNeed} {action action' : ResourceAction}
    {name name' : String} (hneed : need.subject? = some (action, name))
    (hneed' : need'.subject? = some (action', name')) (earlier earlier' : List Event) :
    Ends (need.ask (d.client o).orchestration id).run c earlier fun _ _ new =>
      Ends (need'.ask (d.client o').orchestration id').run c' earlier' fun _ _ new' =>
        d.Stands c new address → d.Stands c' new' address →
          ∀ request answer request' answer', .answer request answer ∈ new →
            .answer request' answer' ∈ new' → ¬ d.settings.AsksForToken request →
            ¬ d.settings.AsksForToken request' →
            ToldApart action action' name name' request request' := by
  refine (known_ends d o hc need earlier).mono fun _ _ new ⟨response, hcalled⟩ => ?_
  refine (known_ends d o' hc' need' earlier').mono fun _ _ new' ⟨response', hcalled'⟩ => ?_
  intro hs hs' request answer request' answer' hm hm' hn hn'
  exact toldApart_of_ofText? haddress hpath hneed hneed' (hcalled.ofText? hs hm hn)
    (hcalled'.ofText? hs' hm' hn')

/-- A client that has a token, the address of the service, and the path of a stack. -/
def knowing (address path : String) : Connection :=
  ⟨some ⟨⟨"t", none⟩, [⟨orchestrationService, [⟨"public", none, none, address⟩]⟩]⟩,
    Table.empty.put "vnf" path⟩

/-- The requests that were made. -/
def requests (new : List Event) : List Request :=
  new.filterMap fun
    | .answer request _ => some request
    | _ => none

/-- A client that knows the address and the path sends one request, with its token, and with this
method and this path. -/
def Sends (address path : String) (need : StackNeed) (target : Method × String) : Prop :=
  Ends (need.ask (looked.client mute).orchestration "vnf").run (knowing address path) []
    fun _ _ new => (requests new).map (fun r => (r.method, r.url.path, r.token))
      = [(target.1, target.2, some "t")]

/-- Two clients ask for something else, and send their requests to the same target. -/
def Confused (address address' path : String) (need need' : StackNeed) : Prop :=
  need.subject? ≠ need'.subject? ∧
    ∃ target, Sends address path need target ∧ Sends address' path need' target

/-- What is known of a run that sends one request with a token. -/
theorem stands_of_sent {address path : String} {new : List Event} {target : Method × String}
    (h : (requests new).map (fun r => (r.method, r.url.path, r.token))
      = [(target.1, target.2, some "t")]) :
    looked.Stands (knowing address path) new (withoutTrailingSlashes address)
      ∧ ∃ request answer, .answer request answer ∈ new ∧ request ∈ requests new
        ∧ ¬ looked.settings.AsksForToken request := by
  obtain ⟨request, hrequests, hrequest⟩ := List.map_eq_singleton_iff.1 h
  have htoken : request.token = some "t" := congrArg (fun t => t.2.2) hrequest
  have hnot {request' : Request} (hm : request' ∈ requests new) :
      ¬ looked.settings.AsksForToken request' := fun hasks => by
    rw [hrequests, List.mem_singleton] at hm
    rw [← hm, hasks.2.1] at htoken
    cases htoken
  have hmem : request ∈ requests new := hrequests ▸ List.mem_singleton_self request
  obtain ⟨event, hm, hevent⟩ := List.mem_filterMap.1 hmem
  refine ⟨?_, ?_⟩
  · rintro session other (hkept | ⟨request', response, hm', hasks, -⟩) hother
    · cases hkept
      cases hother
      rfl
    · exact absurd hasks (hnot (List.mem_filterMap.2 ⟨_, hm', rfl⟩))
  · split at hevent
    · cases hevent
      exact ⟨_, _, hm, hmem, hnot hmem⟩
    · cases hevent

/-- A resource and its metadata are told apart. -/
theorem metadata_told_apart :
    Ends (StackNeed.ask (looked.client mute).orchestration "vnf" (.resource "VM")).run
      (knowing "http://heat" "stacks/vnf/1") [] fun _ _ new =>
      Ends (StackNeed.ask (looked.client mute).orchestration "vnf" (.metadata "VM")).run
        (knowing "http://heat" "stacks/vnf/1") [] fun _ _ new' =>
        ∃ request ∈ requests new, ∃ request' ∈ requests new',
          ToldApart .read .metadata "VM" "VM" request request' ∧ ¬ request.SameTarget request' := by
  have hsent : Sends "http://heat" "stacks/vnf/1" (.resource "VM")
      (.get, "/stacks/vnf/1/resources/VM") := Ends.evaluated (by decide +kernel)
  have hsent' : Sends "http://heat" "stacks/vnf/1" (.metadata "VM")
      (.get, "/stacks/vnf/1/resources/VM/metadata") := Ends.evaluated (by decide +kernel)
  have hkept : (knowing "http://heat" "stacks/vnf/1").stackPaths.get? "vnf"
      = some "stacks/vnf/1" := by decide +kernel
  have hpath : Url.Unended "stacks/vnf/1" := by decide +kernel
  have haddress : Url.Unended (withoutTrailingSlashes "http://heat") := by decide +kernel
  have hneed : (StackNeed.resource "VM").subject? = some (.read, "VM") := rfl
  have hneed' : (StackNeed.metadata "VM").subject? = some (.metadata, "VM") := rfl
  refine (hsent.and (requests_told_apart looked mute mute hkept hkept hpath haddress hneed hneed'
    [] [])).mono ?_
  rintro _ _ new ⟨hnew, hends⟩
  refine (hsent'.and hends).mono ?_
  rintro _ _ new' ⟨hnew', happart⟩
  obtain ⟨hstands, request, answer, hm, hrequest, hn⟩ := stands_of_sent hnew
  obtain ⟨hstands', request', answer', hm', hrequest', hn'⟩ := stands_of_sent hnew'
  have htold := happart hstands hstands' _ _ _ _ hm hm' hn hn'
  refine ⟨request, hrequest, request', hrequest', htold, fun hsame => ?_⟩
  have hsegment : ∀ c ∈ "VM".toList, Url.inSegment c = true :=
    List.all_eq_true.1 (by decide +kernel)
  have hlast : "VM".toList.getLast? = some 'M' := by decide +kernel
  have hname : ResourceAction.read.IsSegment "VM" := by
    refine ⟨hsegment, fun _ c hc => ?_, by decide +kernel⟩
    rw [hlast] at hc
    cases hc
    decide
  have hname' : ResourceAction.metadata.IsSegment "VM" := ⟨hsegment, nofun, hname.undotted⟩
  have hplain : '%' ∉ "VM".toList := by decide +kernel
  cases ((htold.names hname hname' (.inl ⟨hplain, hplain⟩)).1 hsame).1

/-- Other requests are confused: those for names with slashes or with what ends a path, for names
that are written alike, for names of which something is dropped, and for names that are dots; and
all of them, if the address or the path of the stack has something in it that ends a path, or if
there are two addresses. -/
theorem requests_confused :
    Confused "http://heat" "http://heat" "stacks/vnf/1" (.resource "VM/metadata") (.metadata "VM")
      ∧ Confused "http://heat" "http://heat" "stacks/vnf/1" (.resource "VM\\metadata")
        (.metadata "VM")
      ∧ Confused "http://heat" "http://heat" "stacks/vnf/1" (.metadata "VM?") (.resource "VM")
      ∧ Confused "http://heat" "http://heat" "stacks/vnf/1" (.events "VM#" 1) (.resource "VM")
      ∧ Confused "http://heat" "http://heat" "stacks/vnf/1" (.signal "V M") (.signal "V%20M")
      ∧ Confused "http://heat" "http://heat" "stacks/vnf/1" (.metadata "V\tM") (.metadata "VM")
      ∧ Confused "http://heat" "http://heat" "stacks/vnf/1" (.resource "VM ") (.resource "VM")
      ∧ Confused "http://heat" "http://heat" "stacks/vnf/1" (.metadata ".") (.resource "metadata")
      ∧ Confused "http://heat" "http://heat" "stacks/vnf/1" (.signal "..") (.signal "%2e%2e")
      ∧ Confused "http://heat" "http://heat" "stacks/v?nf/1" (.resource "VM") (.metadata "VM")
      ∧ Confused "http://heat" "http://heat" "stacks/v#nf/1" (.resource "VM") (.metadata "VM")
      ∧ Confused "http://heat?" "http://heat?" "stacks/vnf/1" (.resource "VM") (.metadata "VM")
      ∧ Confused "http://heat#" "http://heat#" "stacks/vnf/1" (.resource "VM") (.metadata "VM")
      ∧ Confused "http://heat" "http://heat/resources" "resources/resources/resources"
        (.metadata "resources") (.resource "metadata") := by
  have hread : Sends "http://heat" "stacks/vnf/1" (.resource "VM")
      (.get, "/stacks/vnf/1/resources/VM") := Ends.evaluated (by decide +kernel)
  have hmetadata : Sends "http://heat" "stacks/vnf/1" (.metadata "VM")
      (.get, "/stacks/vnf/1/resources/VM/metadata") := Ends.evaluated (by decide +kernel)
  refine ⟨⟨by decide, _, ?_, hmetadata⟩, ⟨by decide, _, ?_, hmetadata⟩, ⟨by decide, _, ?_, hread⟩,
    ⟨by decide, _, ?_, hread⟩,
    ⟨by decide, (.post, "/stacks/vnf/1/resources/V%20M/signal"), ?_, ?_⟩,
    ⟨by decide, _, ?_, hmetadata⟩, ⟨by decide, _, ?_, hread⟩,
    ⟨by decide, (.get, "/stacks/vnf/1/resources/metadata"), ?_, ?_⟩,
    ⟨by decide, (.post, "/stacks/vnf/1/signal"), ?_, ?_⟩,
    ⟨by decide, (.get, "/stacks/v"), ?_, ?_⟩, ⟨by decide, (.get, "/stacks/v"), ?_, ?_⟩,
    ⟨by decide, (.get, "/"), ?_, ?_⟩, ⟨by decide, (.get, "/"), ?_, ?_⟩,
    ⟨by decide, (.get, "/resources/resources/resources/resources/resources/metadata"), ?_, ?_⟩⟩
  all_goals exact Ends.evaluated (by decide +kernel)

end Destination

end Provision
