import Choruz.Json
import Choruz.Reassembly
import Choruz.Steps
import Choruz.Table
import Choruz.UrlPath

/-!
# HTTP over the relay

A paired device's request crosses the relay as an `http.request` frame and one `http.body` frame a
chunk, its response as an `http.response` frame and its chunks.  The host's end is the executor;
the device's end is the relay client of the runtime host or the dashboard's relay transport.  A
frame is what decryption gives; its `data` is the decoded chunk.

`resolve_http_target` checks a dashboard path as it is written; the HTTP client parses the text it
gets as a URL, and the web server hands `/api/v1` on to the API server.  So the path the API
server sees is not the one that was checked.
-/

namespace Choruz.Relay

open Relational Reassembly

abbrev Bytes := List UInt8

def chunkBytes : ℕ := 384 * 1024

def maxBodyBytes : ℕ := 16 * 1024 * 1024

def maxPendingRequests : ℕ := 64

def maxIdLen : ℕ := 128

inductive RelayFrame where
  | request (requestId method path : String) (headers : Json) (bodyChunks : ℕ)
  | response (requestId : String) (status : ℕ) (headers : Json) (bodyChunks : ℕ)
  /-- An `http.response` with an `error`. -/
  | failure (requestId error : String)
  | body (requestId : String) (index : ℕ) (data : Bytes)
deriving DecidableEq

namespace RelayFrame

def requestId : RelayFrame → String
  | request requestId .. | response requestId .. | failure requestId _ | body requestId .. =>
    requestId

def isResponse : RelayFrame → Bool
  | response .. => true
  | _ => false

end RelayFrame

def asciiUppercase (s : String) : String := String.ofList (s.toList.map Char.toUpper)

def asciiLowercase (s : String) : String := String.ofList (s.toList.map Char.toLower)

def headerObject (headers : List (String × String)) : Json :=
  .ofFields (headers.map fun h => (h.1, .str h.2))

def stringFields : Json → List (String × String)
  | .obj fields => fields.filterMap fun f =>
    match f.2 with
    | .str value => some (f.1, value)
    | _ => none
  | _ => []

/-- One `http.body` frame a chunk, numbered from `k`. -/
def bodyFrames (requestId : String) (pieces : List Bytes) (k : ℕ := 0) : List RelayFrame :=
  (pieces.zipIdx k).map fun piece => .body requestId piece.2 piece.1

structure HttpResponse where
  status : UInt16
  headers : List (String × String)
  body : Bytes

/-- The end of `execute_http`: what it returns of a response whose body was read. -/
def acceptResponse (contentLength : Option ℕ) (response : HttpResponse) :
    Except String HttpResponse :=
  if contentLength.any (maxBodyBytes < ·) then .error "response body too large"
  else if maxBodyBytes < response.body.length then .error "response body too large"
  else .ok response

def responseFrames (requestId : String) (response : HttpResponse) : List RelayFrame :=
  let pieces := chunks chunkBytes response.body
  .response requestId response.status.toNat (headerObject response.headers) pieces.length ::
    bodyFrames requestId pieces

structure RequestHead where
  (method path : String)
  headers : List (String × String)
  bodyChunks : ℕ

structure PendingRequest where
  requestId : String
  head : RequestHead
  chunks : List (Option Bytes)
  received : ℕ

def PendingRequest.fill (p : PendingRequest) (index : ℕ) (slot : Option Bytes)
    (data : Bytes) : PendingRequest :=
  { p with
    received := if slot.isNone then p.received + 1 else p.received
    chunks := p.chunks.set index (some data) }

/-- The requests whose body is still arriving, the calls of `dispatch`, and the frames sent back by
`respond_rejection`. -/
structure RelayExecutor where
  pending : Table PendingRequest.requestId := Table.empty
  dispatched : List (String × RequestHead × Bytes) := []
  outbound : List RelayFrame := []

structure Rejection where
  status : UInt16
  error : String

namespace RelayExecutor

variable (e : RelayExecutor) (requestId : String)

def dispatch (head : RequestHead) (body : Bytes) : RelayExecutor :=
  { e with dispatched := e.dispatched ++ [(requestId, head, body)] }

def respondRejection (rejection : Rejection) : RelayExecutor :=
  let text := "\x7b\"error\":\"" ++ rejection.error ++ "\"\x7d"
  { e with
    outbound := e.outbound ++ responseFrames requestId {
      status := rejection.status
      headers := [("content-type", "application/json")]
      body := text.toUTF8.toList } }

def identifier (value : String) : Except String String :=
  if value ≠ "" ∧ value.utf8ByteSize ≤ maxIdLen then .ok value
  else .error "frame needs a request_id"

def validMethod (method : String) : Bool :=
  method ≠ "" && method.utf8ByteSize ≤ 16 && method.toList.all Char.isAlpha

def bodyTooLarge : Rejection := ⟨413, "request body too large"⟩

def handleHttpRequest (requestId method path : String) (headers : Json)
    (bodyChunks : ℕ) : Except String RelayExecutor := do
  let requestId ← identifier requestId
  if ¬ validMethod (asciiUppercase method) then
    .error "http.request needs a method"
  else if maxBodyBytes ⌈/⌉ chunkBytes < bodyChunks then
    .ok (e.respondRejection requestId bodyTooLarge)
  else
    let head : RequestHead := {
      method := asciiUppercase method
      path
      headers := (stringFields headers).map fun h => (asciiLowercase h.1, h.2)
      bodyChunks }
    if bodyChunks = 0 then .ok (e.dispatch requestId head [])
    else if maxPendingRequests ≤ e.pending.rows.length then
      .ok (e.respondRejection requestId ⟨429, "too many requests in flight"⟩)
    else .ok { e with
      pending := e.pending.put
        { requestId, head, chunks := List.replicate bodyChunks none, received := 0 } }

def handleHttpBody (index : ℕ) (data : Bytes) :
    Except String RelayExecutor := do
  let requestId ← identifier requestId
  if chunkBytes < data.length then .error "chunk larger than CHUNK_BYTES"
  else match e.pending.lookup requestId with
  | none => .error "http.body for an unknown request"
  | some p =>
    match p.chunks[index]? with
    | none => .error "http.body index out of range"
    | some slot =>
      let p := p.fill index slot data
      if p.received < p.head.bodyChunks then .ok { e with pending := e.pending.put p }
      else
        let e := { e with pending := e.pending.deleteWhere (·.requestId = requestId) }
        let body := (taken p.chunks).flatten
        if maxBodyBytes < body.length then .ok (e.respondRejection requestId bodyTooLarge)
        else .ok (e.dispatch requestId p.head body)

def handle : RelayFrame → Except String RelayExecutor
  | .request requestId method path headers bodyChunks =>
    e.handleHttpRequest requestId method path headers bodyChunks
  | .body requestId index data => e.handleHttpBody requestId index data
  | .response .. | .failure .. => .error "unsupported relay frame kind http.response"

def receive (frame : RelayFrame) : RelayExecutor :=
  match e.handle frame with
  | .ok e => e
  | .error _ => e

end RelayExecutor

structure HttpCommand where
  (method path : String)
  headers : List (String × String)
  body : Bytes

def requestFrames (requestId : String) (command : HttpCommand) : List RelayFrame :=
  let pieces := chunks chunkBytes command.body
  .request requestId command.method command.path (headerObject command.headers) pieces.length ::
    bodyFrames requestId pieces

structure RelayResponse where
  status : UInt16
  headers : List (String × String)
  body : Bytes

structure Pending where
  requestId : String
  status : Option UInt16 := none
  headers : List (String × String) := []
  chunks : List (Option Bytes) := []
  received : ℕ := 0

namespace Pending

/-- The entry once a header has arrived: its slots are new, its count of chunks is not. -/
def begin (p : Pending) (status : ℕ) (headers : Json) (count : ℕ) : Pending :=
  { p with
    status := some (UInt16.ofNat status)
    headers := stringFields headers
    chunks := List.replicate count none }

def fill (p : Pending) (index : ℕ) (slot : Option Bytes) (data : Bytes) : Pending :=
  { p with
    received := if slot.isNone then p.received + 1 else p.received
    chunks := p.chunks.set index (some data) }

def answer (p : Pending) : RelayResponse where
  status := p.status.getD 500
  headers := p.headers
  body := (taken p.chunks).flatten

end Pending

/-- The requests awaiting their response on the current connection, and what the callers were
told. -/
structure RelayClient where
  pending : Table Pending.requestId := Table.empty
  replies : List (String × Except String RelayResponse) := []

namespace RelayClient

variable (c : RelayClient)

def complete (requestId : String) : RelayClient :=
  match c.pending.lookup requestId with
  | none => c
  | some p => {
    pending := c.pending.deleteWhere (·.requestId = requestId)
    replies := c.replies ++ [(requestId, .ok p.answer)] }

def receiveResponse : RelayFrame → Except String RelayClient
  | .failure requestId error =>
    match c.pending.lookup requestId with
    | none => .ok c
    | some _ => .ok {
      pending := c.pending.deleteWhere (·.requestId = requestId)
      replies := c.replies ++ [(requestId, .error error)] }
  | .response requestId status headers count =>
    if 2 ^ 16 ≤ status then .error "relay response has an invalid status"
    else if maxBodyBytes < min (count * chunkBytes) (2 ^ 64 - 1) then
      .error "relay response has an invalid body chunk count"
    else match c.pending.lookup requestId with
    | none => .error "relay response has an unknown request id"
    | some p =>
      let c := { c with pending := c.pending.put (p.begin status headers count) }
      .ok (if count = 0 then c.complete requestId else c)
  | .body requestId index data =>
    match c.pending.lookup requestId with
    | none => .error "relay body has an unknown request id"
    | some p =>
      match p.chunks[index]? with
      | none => .error "relay body index is out of range"
      | some slot =>
        let p := p.fill index slot data
        let c := { c with pending := c.pending.put p }
        .ok (if p.received = p.chunks.length then c.complete requestId else c)
  | .request .. => .ok c

def failPending (error : String) : RelayClient where
  pending := Table.empty
  replies := c.replies ++ c.pending.rows.map fun p => (p.requestId, .error error)

def receive (frame : RelayFrame) : RelayClient :=
  match c.receiveResponse frame with
  | .ok c => c
  | .error error => c.failPending error

end RelayClient

/-- What a client goes through: a request is sent under an id of its own, a frame arrives, the
caller gives up, or the connection is lost. -/
inductive ClientEvent where
  | send (requestId : String)
  | frame (frame : RelayFrame)
  | timeout (requestId : String)
  | lost (error : String)

namespace RelayClient

def step (c : RelayClient) : ClientEvent → Option RelayClient
  | .send requestId =>
    if (c.pending.lookup requestId).isNone ∧ ∀ r ∈ c.replies, r.1 ≠ requestId then
      some { c with pending := c.pending.put { requestId } }
    else none
  | .frame frame => some (c.receive frame)
  -- the caller is gone, the entry is not
  | .timeout _ => some c
  | .lost error => some (c.failPending error)

end RelayClient

structure ResponseHead where
  (status chunks : ℕ)

structure WebResponse where
  status : ℕ
  body : Bytes
deriving DecidableEq

structure WebRequest where
  requestId : String
  head : Option ResponseHead := none
  body : List (Option Bytes) := []
  received : ℕ := 0

namespace WebRequest

def begin (request : WebRequest) (status chunks : ℕ) : WebRequest :=
  { request with
    head := some ⟨status, chunks⟩
    body := List.replicate chunks none }

def fill (request : WebRequest) (index : ℕ) (slot : Option Bytes) (data : Bytes) : WebRequest :=
  { request with
    received := if slot.isNone then request.received + 1 else request.received
    body := request.body.set index (some data) }

end WebRequest

def nullBodyStatuses : List ℕ := [101, 204, 205, 304]

/-- The requests in flight, and the promises that were resolved or rejected. -/
structure RelayTransport where
  pending : Table WebRequest.requestId := Table.empty
  settled : List (String × Except String WebResponse) := []

namespace RelayTransport

variable (t : RelayTransport)

def settle (requestId : String) : RelayTransport :=
  { t with pending := t.pending.deleteWhere (·.requestId = requestId) }

def reject (requestId error : String) : RelayTransport :=
  { t.settle requestId with settled := t.settled ++ [(requestId, .error error)] }

/-- Settles the request before it builds the response: a chunk that is missing makes
`Uint8Array.set` throw, a status outside 200 to 599 the constructor of `Response`, and then the
promise stays as it is. -/
def complete (request : WebRequest) : RelayTransport :=
  match request.head with
  | none => t.settle request.requestId
  | some head =>
    if request.body.all Option.isSome ∧ 200 ≤ head.status ∧ head.status ≤ 599 then
      let body := if head.status ∈ nullBodyStatuses then [] else (taken request.body).flatten
      { t.settle request.requestId with
        settled := t.settled ++ [(request.requestId, .ok ⟨head.status, body⟩)] }
    else t.settle request.requestId

def maxSafeInteger : ℕ := 2 ^ 53 - 1

/-- `none` where the length is not one an array can have. -/
def dispatch : RelayFrame → Option RelayTransport
  | .failure requestId error =>
    match t.pending.lookup requestId with
    | none => some t
    | some _ => some (t.reject requestId error)
  | .response requestId status _ chunks =>
    match t.pending.lookup requestId with
    | none => some t
    | some request =>
      if maxSafeInteger < status ∨ maxSafeInteger < chunks then
        some (t.reject requestId "The paired computer sent an invalid response.")
      else if 2 ^ 32 ≤ chunks then none
      else
        let request := request.begin status chunks
        some (if chunks = 0 then t.complete request
          else { t with pending := t.pending.put request })
  | .body requestId index data =>
    match t.pending.lookup requestId with
    | none => some t
    | some request =>
      match request.head, request.body[index]? with
      | some head, some slot =>
        let request := request.fill index slot data
        some (if request.received = head.chunks then t.complete request
          else { t with pending := t.pending.put request })
      | _, _ => some t
  | .request .. => some t

def step : ClientEvent → Option RelayTransport
  | .send requestId =>
    if (t.pending.lookup requestId).isNone ∧ ∀ r ∈ t.settled, r.1 ≠ requestId then
      some { t with pending := t.pending.put { requestId } }
    else none
  | .frame frame => t.dispatch frame
  | .timeout requestId =>
    match t.pending.lookup requestId with
    | none => none
    | some _ => some (t.reject requestId "The paired computer did not respond in time.")
  | .lost reason => some {
    pending := Table.empty
    settled := t.settled ++ t.pending.rows.map fun r => (r.requestId, .error reason) }

end RelayTransport

/-- A WebSocket message of a relay stream; a text is valid UTF-8. -/
structure StreamMessage where
  binary : Bool
  bytes : Bytes
  valid : binary ∨ ByteArray.validateUTF8 ⟨bytes.toArray⟩

/-- A `stream.data` frame of one open stream. -/
structure StreamFrame where
  binary : Bool
  data : Bytes
  last : Bool

def StreamMessage.pieces (message : StreamMessage) : List Bytes :=
  if message.bytes.isEmpty then [[]] else chunks chunkBytes message.bytes

def sendStreamMessage (message : StreamMessage) : List StreamFrame :=
  message.pieces.zipIdx.map fun piece =>
    ⟨message.binary, piece.1, piece.2 + 1 = message.pieces.length⟩

structure StreamHandle where
  inbound : Bytes := []
  /-- The messages sent on to the local socket. -/
  forwarded : List StreamMessage := []

/-- An error is logged, and the stream stays open. -/
def handleStreamData (handle : StreamHandle) (frame : StreamFrame) :
    StreamHandle × Except String Unit :=
  let bytes := handle.inbound ++ frame.data
  if chunkBytes < frame.data.length then (handle, .error "chunk larger than CHUNK_BYTES")
  else if maxBodyBytes < bytes.length then
    ({ handle with inbound := [] }, .error "stream.data message too large")
  else if !frame.last then ({ handle with inbound := bytes }, .ok ())
  else if h : frame.binary ∨ ByteArray.validateUTF8 ⟨bytes.toArray⟩ = true then
    (⟨[], handle.forwarded ++ [⟨frame.binary, bytes, h⟩]⟩, .ok ())
  else ({ handle with inbound := [] }, .error "stream.data text is not UTF-8")

def receiveFrames (handle : StreamHandle) (frames : List StreamFrame) : StreamHandle :=
  frames.foldl (fun handle frame => (handleStreamData handle frame).1) handle

open Url

structure ExecutorTargets where
  (apiUrl webUrl : Origin)

inductive AuthStyle where
  | bearer | cookie

/-- `path.split('?').next()`. -/
def beforeQuery (path : List Char) : List Char := path.takeWhile (· ≠ '?')

def validPath (path : String) : Bool :=
  path.toList.head? = some '/' && !path.toList.contains '#'
    && !path.toList.tails.any ("//".toList.isPrefixOf ·)
    && path.toList.all (fun c => ¬ isBlank c && c ≠ '\x7f')
    && !((beforeQuery path.toList).splitOn '/').contains "..".toList

def managementPath : String := "/api/v1/remote-control"

def resolveHttpTarget (targets : ExecutorTargets) (path : String) :
    Except Rejection (List Char × AuthStyle) :=
  if ¬ validPath path then .error ⟨400, "invalid path"⟩
  else if path = managementPath ∨ managementPath.toList ++ ['/'] <+: path.toList then
    .error ⟨403, "Remote Control management is only available on the host"⟩
  else match path.toList.dropPrefix? "/api/v1/".toList with
  | some rest => .ok (targets.apiUrl.text ++ "/v1/".toList ++ rest, .bearer)
  | none =>
    if "/api/".toList <+: path.toList then .ok (targets.webUrl.text ++ path.toList, .cookie)
    else .error ⟨404, "path is not relayed"⟩

variable (caseSensitiveRoutes : Bool)

/-- How the web server compares a segment with one of a rewrite's source. -/
def segmentMatches (s literal : Segment) : Bool :=
  if caseSensitiveRoutes then s = literal else s.map Char.toLower = literal

/-- The rewrite of `/api/v1/:path*` to `/v1/:path*`. -/
def webRewrite (pathname : List Char) : Option (List Char) :=
  match pathname.splitOn '/' with
  | [] :: api :: version :: path =>
    if segmentMatches caseSensitiveRoutes api "api".toList ∧
        segmentMatches caseSensitiveRoutes version "v1".toList ∧ ¬ path.contains [] then
      some (['/'].intercalate ([] :: "v1".toList :: path))
    else none
  | _ => none

def apiRequests (targets : ExecutorTargets) (caseSensitiveRoutes : Bool) (url : List Char) :
    List (List Char) :=
  match Url.parse url with
  | none => []
  | some u =>
    (if targets.apiUrl.serves u then [u.pathname] else []) ++
      if targets.webUrl.serves u then (webRewrite caseSensitiveRoutes u.pathname).toList else []

def reachesManagement (pathname : List Char) : Bool :=
  pathname = "/v1/remote-control".toList ∨ "/v1/remote-control/".toList <+: pathname

/-- The URL of the request for an accepted path, with its dot segments dropped and nothing
percent-encoded. -/
def resolvedUrl (targets : ExecutorTargets) (path : String) : Url :=
  let relayed (o : Origin) (text : List Char) : Url :=
    ⟨o.scheme, o.authority, segments (beforeQuery text)⟩
  match path.toList.dropPrefix? "/api/v1/".toList with
  | some rest => relayed targets.apiUrl ("v1/".toList ++ rest)
  | none => relayed targets.webUrl path.toList.tail

def atManagement (path : List Segment) : Bool :=
  ["v1".toList, "remote-control".toList].isPrefixOf path

def rewrittenToManagement : List Segment → Bool
  | api :: version :: path =>
    segmentMatches caseSensitiveRoutes api "api".toList &&
      segmentMatches caseSensitiveRoutes version "v1".toList && !path.contains [] &&
      path.head? = some "remote-control".toList
  | _ => false

/-- The URL is not at or below the management path: as it is where the API server gets it, and
rewritten where the web server does. -/
def sparesManagement (targets : ExecutorTargets) (u : Url) : Bool :=
  !(targets.apiUrl.serves u && atManagement u.path) &&
    !(targets.webUrl.serves u && rewrittenToManagement caseSensitiveRoutes u.path)

/-- No backslash and no dot segment before the query, a version segment in lower case where the
web server ignores case, and no query right behind the management path itself. -/
def plainPath (path : String) : Bool :=
  let part := beforeQuery path.toList
  let version := (part.splitOn '/').getD 2 []
  '\\' ∉ part && (part.splitOn '/').all (fun s => ¬ isDots s) && part ≠ managementPath.toList
    && (caseSensitiveRoutes || version.map Char.toLower ≠ "v1".toList || version = "v1".toList)

end Choruz.Relay
