import Mathlib.Data.List.Infix
import Mathlib.Logic.Function.Basic
import Marketplace.Lib.Run

/-!
# The token interceptor of the client

`token_interceptor.dart`, the calls of `auth_api.dart` that it depends on and the refresh of
`auth_repository.dart`, as a state machine of the event loop: one step is all the code that runs
at one event, up to the next `await`. The listeners of the shared future run one after another as
soon as it is completed, before the next event. What the machine has done is kept in a log.
-/

namespace Marketplace

open Lib

/-! ### Requests -/

/-- `RequestOptions`. -/
structure RequestOptions where
  path : String
  /-- The method, the data, the query parameters and the other headers. -/
  content : String := ""
  /-- The header `Authorization`. -/
  authorization : Option String := none
  /-- `extra['x-token-retry']`. -/
  retried : Bool := false
deriving DecidableEq

/-- `DioException`. -/
structure DioException where
  /-- The status of the response, if there is one. -/
  statusCode : Option ℕ := none
  /-- `data['error']['code']` of the response. -/
  code : Option String := none
  /-- The type is a connection error or one of the three timeouts. -/
  network : Bool := false
deriving DecidableEq

/-- What a request ends with: the data of its response, or an exception. -/
inductive Outcome
  | response (data : String)
  | error (e : DioException)
deriving DecidableEq

/-- `AuthApiException`. -/
structure AuthApiException where
  statusCode : ℕ
  code : String
deriving DecidableEq

/-- An exception that a refresh throws. -/
inductive RefreshException
  | authApi (e : AuthApiException)
  /-- A failed cast or null check. -/
  | typeError
deriving DecidableEq

/-- `TokenPair`. -/
structure TokenPair where
  accessToken : String
  refreshToken : String
deriving DecidableEq

/-- What the client gets for a refresh. -/
inductive RefreshReply
  | ok (pair : TokenPair)
  /-- A response without the two tokens. -/
  | malformed
  | error (e : DioException)
deriving DecidableEq

namespace AuthApi

/-- `_toException`. -/
def toException (e : DioException) : AuthApiException :=
  { statusCode := e.statusCode.getD 0,
    code := if e.network then "NETWORK" else e.code.getD "UNKNOWN" }

/-- `refresh`, once the reply is there. -/
def refresh : RefreshReply → Except RefreshException TokenPair
  | .ok pair => .ok pair
  | .malformed => .error .typeError
  | .error e => .error (.authApi (toException e))

end AuthApi

/-- The server has rejected the refresh token. -/
def RefreshReply.Rejects : RefreshReply → Prop
  | .error e => e.statusCode = some 401
  | _ => False

/-- The session of the repository, as far as the interceptor sees it. -/
structure Tokens where
  accessToken : String
  refreshToken : String
deriving DecidableEq

/-! ### The machine -/

/-- A request: a caller's, or the `getMe` of a call of `AuthRepository.refresh`. -/
inductive RequestId (ι κ : Type)
  | caller (r : ι)
  | me (n : κ)
deriving DecidableEq

/-- A call of `_refreshInternal`: the interceptor's, or one of `AuthRepository.refresh`. -/
inductive RefreshId (κ : Type)
  | interceptor
  | repository (n : κ)
deriving DecidableEq

/-- Where a request is. -/
inductive RequestPhase
  | sent (opts : RequestOptions)
  /-- `onError` waits for the shared future. -/
  | waiting (opts : RequestOptions) (err : DioException)
  /-- `onError` waits for the retry. -/
  | retried (opts : RequestOptions) (err : DioException)
  | answered
deriving DecidableEq

/-- Where a call of `_refreshInternal` is. -/
inductive RefreshPhase
  /-- It waits for the server. -/
  | sent (token : String)
  /-- It waits for the storage. -/
  | storing (accessToken : String)
  | ended
deriving DecidableEq

/-- What the machine has done. -/
inductive Happening (ι κ : Type)
  | submitted (token : String)
  | refreshAnswered (token : String) (reply : RefreshReply)
  | retried (r : RequestId ι κ) (accessToken : String)
  | retryAnswered (r : RequestId ι κ) (o : Outcome)
  | delivered (r : RequestId ι κ) (o : Outcome)
  /-- `_fireSessionExpired` drops a session with this refresh token. -/
  | dropped (token : String)
deriving DecidableEq

/-- `AuthRepository` with its `TokenInterceptor`. -/
structure AuthRepository (ι κ : Type) where
  /-- `_session`. -/
  session : Option Tokens
  /-- `_completer`: the requests that wait for its future, in the order of their `await`s. -/
  completer : Option (List (RequestId ι κ)) := none
  refreshing : RefreshId κ → Option RefreshPhase := fun _ => none
  requests : RequestId ι κ → Option RequestPhase := fun _ => none
  log : List (Happening ι κ) := []

namespace AuthRepository

variable {ι κ : Type} [DecidableEq ι] [DecidableEq κ]

def note (c : AuthRepository ι κ) (h : Happening ι κ) : AuthRepository ι κ :=
  { c with log := c.log ++ [h] }

def setRequest (c : AuthRepository ι κ) (r : RequestId ι κ) (phase : RequestPhase) :
    AuthRepository ι κ :=
  { c with requests := Function.update c.requests r (some phase) }

def setRefresh (c : AuthRepository ι κ) (id : RefreshId κ) (phase : RefreshPhase) :
    AuthRepository ι κ :=
  { c with refreshing := Function.update c.refreshing id (some phase) }

/-- The caller of the request gets its outcome. -/
def deliver (c : AuthRepository ι κ) (r : RequestId ι κ) (o : Outcome) : AuthRepository ι κ :=
  (c.setRequest r .answered).note (.delivered r o)

/-- `onRequest`. -/
def onRequest (c : AuthRepository ι κ) (opts : RequestOptions) : RequestOptions :=
  match c.session with
  | none => opts
  | some s =>
    if opts.authorization = none then
      { opts with authorization := some ("Bearer " ++ s.accessToken) }
    else opts

/-- A request goes through the interceptor to the server. -/
def send (c : AuthRepository ι κ) (r : RequestId ι κ) (opts : RequestOptions) :
    AuthRepository ι κ :=
  c.setRequest r (.sent (c.onRequest opts))

/-- `_refreshInternal` up to its request; without a session it throws. -/
def refreshInternal (c : AuthRepository ι κ) (id : RefreshId κ) : AuthRepository ι κ :=
  match c.session with
  | none => c.setRefresh id .ended
  | some s => (c.setRefresh id (.sent s.refreshToken)).note (.submitted s.refreshToken)

/-- `_refreshOnce`, on behalf of a request that awaits its future. -/
def refreshOnce (c : AuthRepository ι κ) (r : RequestId ι κ) : AuthRepository ι κ :=
  match c.completer with
  | some waiters => { c with completer := some (waiters ++ [r]) }
  | none => { c with completer := some [r] }.refreshInternal .interceptor

/-- `isAuthEndpoint`. -/
def isAuthEndpoint (path : String) : Bool :=
  ["/auth/refresh", "/auth/login", "/auth/signup"].any fun endpoint =>
    endpoint.toList <:+: path.toList

/-- `onError` refreshes for this exception. -/
def refreshesFor (c : AuthRepository ι κ) (opts : RequestOptions) (err : DioException) : Bool :=
  ¬(err.statusCode ≠ some 401 ∨ isAuthEndpoint opts.path ∨ opts.retried ∨ c.session = none)

/-- `onError` up to its `await`. -/
def onError (c : AuthRepository ι κ) (r : RequestId ι κ) (opts : RequestOptions)
    (err : DioException) : AuthRepository ι κ :=
  if c.refreshesFor opts err then (c.setRequest r (.waiting opts err)).refreshOnce r
  else c.deliver r (.error err)

/-- `_fireSessionExpired`. -/
def fireSessionExpired (c : AuthRepository ι κ) : AuthRepository ι κ :=
  match c.session with
  | none => c
  | some s => { c with session := none }.note (.dropped s.refreshToken)

/-- `onError` from the completion of the future on, up to the retry. -/
def resume (result : Except RefreshException String) (c : AuthRepository ι κ)
    (r : RequestId ι κ) : AuthRepository ι κ :=
  match c.requests r with
  | some (.waiting opts err) =>
    match result with
    | .ok newAccess =>
      (c.setRequest r (.retried
        { opts with authorization := some ("Bearer " ++ newAccess), retried := true } err)).note
        (.retried r newAccess)
    | .error (.authApi _) => c.fireSessionExpired.deliver r (.error err)
    | .error .typeError => c.deliver r (.error err)
  | _ => c

/-- The end of a call of `_refreshInternal`: it completes the future that requests await, or
`AuthRepository.refresh` goes on with `getMe`. -/
def finish (c : AuthRepository ι κ) (id : RefreshId κ) (result : Except RefreshException String) :
    AuthRepository ι κ :=
  match id with
  | .interceptor =>
    (c.completer.getD []).foldl (resume result)
      { c.setRefresh .interceptor .ended with completer := none }
  | .repository n =>
    match result with
    | .ok _ => (c.setRefresh id .ended).send (.me n) { path := "/auth/me" }
    | .error _ => c.setRefresh id .ended

/-- `_refreshInternal` from the reply on, up to the storage. -/
def refreshReply (c : AuthRepository ι κ) (id : RefreshId κ) (reply : RefreshReply) :
    AuthRepository ι κ :=
  match c.refreshing id with
  | some (.sent token) =>
    let c := c.note (.refreshAnswered token reply)
    match AuthApi.refresh reply, c.session with
    | .ok pair, some _ =>
      { c with
        session := some { accessToken := pair.accessToken, refreshToken := pair.refreshToken }
        }.setRefresh id (.storing pair.accessToken)
    | .ok _, none => c.finish id (.error .typeError)
    | .error e, _ => c.finish id (.error e)
  | _ => c

/-- An event. -/
inductive Input (ι κ : Type)
  /-- A caller makes a request. -/
  | send (r : ι) (opts : RequestOptions)
  /-- A request or its retry is answered. -/
  | reply (r : RequestId ι κ) (o : Outcome)
  /-- `AuthRepository.refresh` is called. -/
  | refresh (n : κ)
  /-- The server answers a refresh. -/
  | refreshReply (id : RefreshId κ) (reply : RefreshReply)
  /-- The tokens of a refresh are stored. -/
  | stored (id : RefreshId κ)
deriving DecidableEq

/-- The machine after an event. What cannot happen changes nothing. -/
def step (c : AuthRepository ι κ) : Input ι κ → AuthRepository ι κ
  | .send r opts => if c.requests (.caller r) = none then c.send (.caller r) opts else c
  | .reply r o =>
    match c.requests r, o with
    | some (.sent _), .response data => c.deliver r (.response data)
    | some (.sent opts), .error err => c.onError r opts err
    | some (.retried _ _), .response data =>
      (c.note (.retryAnswered r o)).deliver r (.response data)
    | some (.retried _ err), .error _ => (c.note (.retryAnswered r o)).deliver r (.error err)
    | _, _ => c
  | .refresh n =>
    if c.refreshing (.repository n) = none then c.refreshInternal (.repository n) else c
  | .refreshReply id reply => c.refreshReply id reply
  | .stored id =>
    match c.refreshing id with
    | some (.storing accessToken) => c.finish id (.ok accessToken)
    | _ => c

end AuthRepository

end Marketplace
