import QbitNetwork.Codec
import QbitNetwork.Header

/-! JSON-RPC over HTTP: a request or a batch of them, the checks that stand before the handler's `try`,
and what becomes of a batch when one of its elements gets no answer. -/
namespace QbitNetwork

def maxRpcBody : Nat := 1 * 1024 * 1024
def maxRpcBatch : Nat := 50

namespace RPCServer

def protectedMethods : List String :=
  ["qv_newWallet","qv_listWallets","qv_getWalletKeys","qv_notarize","qv_store","qv_share","qv_registerKey",
    "qv_sendRawTransaction","qv_getSharedSecret","qv_decapsulateShared","qv_getSharedWithMe","qv_submitEvidence",
    "qv_registerValidator","qv_revokeKey","qv_stake","qv_delegate","qv_unstake","qv_transfer","qv_issueToken",
    "qv_mintToken","qv_transferToken","qv_registerWebhook","qv_listWebhooks","qv_deleteWebhook"]

def tlsRequiredMethods : List String := ["qv_getSharedSecret","qv_decapsulateShared"]

def errorResponse (rid : Json) (code : Int) (message : String) : Json :=
  .obj [("jsonrpc",.str "2.0"),("id",rid),("error",.obj [("code",.int code),("message",.str message)])]

def resultResponse (rid result : Json) : Json :=
  .obj [("jsonrpc",.str "2.0"),("id",rid),("result",result)]

end RPCServer

structure Handler (σ : Type) where
  names : List String
  call : List (String × Json) → σ → Except String Json × σ

/- A POST as aiohttp hands it over, with what `json.loads` makes of the body; none where reading or
parsing raises. -/
structure Request where
  contentLength : Option Nat := none
  raw : Option Bytes
  parsed : Option Json
  authorization : Option String := none

structure RPCServer (σ : Type) where
  authToken : String
  tlsActive : Bool
  methods : String → Option (Handler σ)

namespace Handler
open RPCServer
variable {σ : Type}

/- The call inside the `try`: every exception becomes a response. -/
def run (fn : Handler σ) (rid : Json) (params : List (String × Json)) (s : σ) : Json × σ :=
  match fn.call params s with
  | (.ok result,s) => (resultResponse rid result,s)
  | (.error msg,s) =>
    let msg := if 200 < msg.length then .ofList (msg.toList.take 200) ++ "..." else msg
    (errorResponse rid (-32603) msg,s)

def answer (fn : Handler σ) (rid params : Json) (s : σ) : Json × σ :=
  match params with
  | .arr items =>
    if fn.names.length < items.length then
      (errorResponse rid (-32602) (s!"too many positional params: expected at most {fn.names.length}, " ++
        s!"got {items.length}"),s)
    else fn.run rid (fn.names.zip items) s
  | .obj fields => fn.run rid fields s
  | _ => fn.run rid [] s

end Handler

namespace Request

def token (request : Request) : String :=
  let auth := request.authorization.getD ""
  if "Bearer ".toList.isPrefixOf auth.toList then strip (.ofList (auth.toList.drop 7)) else ""

def body (request : Request) : Except Json Json :=
  if maxRpcBody < request.contentLength.getD 0 then
    .error (RPCServer.errorResponse .null (-32600) "request body too large")
  else match request.raw with
    | none => .error (RPCServer.errorResponse .null (-32700) "Parse error")
    | some raw =>
      if maxRpcBody < raw.length then .error (RPCServer.errorResponse .null (-32600) "request body too large")
      else match request.parsed with
        | none => .error (RPCServer.errorResponse .null (-32700) "Parse error")
        | some body => .ok body

end Request

namespace RPCServer
variable {σ : Type}

def isAscii (text : String) : Bool := text.toList.all (fun c => c.toNat < 128)

/- `hmac.compare_digest` of two strings, which must both be ASCII. -/
def compareDigest (a b : String) : Except PyExc Bool :=
  if isAscii a && isAscii b then .ok (a == b) else .error .typeError

section Exec
variable [PyText]

/- `f"{method}"`. -/
def methodText : Json → String
  | .str name => name
  | value => PyText.str value

def lookupMethod (server : RPCServer σ) (method : Json) : Except PyExc (Option (String × Handler σ)) := do
  let key ← method.tableKey
  .ok (key.bind (fun name => (server.methods name).map (fun fn => (name,fn))))

def authenticated (server : RPCServer σ) (name token : String) : Except PyExc Bool :=
  if name ∈ protectedMethods then compareDigest token server.authToken else .ok true

/- `_exec`. What is raised outside the `try` escapes, and the state goes with it. -/
def exec (server : RPCServer σ) (req : Json) (token : String) (s : σ) : Except (Fault σ) (Json × σ) := do
  let rid ← (req.get "id" .null).mapError (Raised.mk · s)
  let method ← (req.get "method" (.str "")).mapError (Raised.mk · s)
  let params ← (req.get "params" (.obj [])).mapError (Raised.mk · s)
  match ← (server.lookupMethod method).mapError (Raised.mk · s) with
  | none => .ok (errorResponse rid (-32601) ("unknown method: " ++ methodText method),s)
  | some (name,fn) =>
    let passed ← (server.authenticated name token).mapError (Raised.mk · s)
    if passed = false then .ok (errorResponse rid (-32600) "authentication required for this method",s)
    else if name ∈ tlsRequiredMethods ∧ server.tlsActive = false then
      .ok (errorResponse rid (-32600) (name ++ " requires TLS. " ++
        "Start node with --tls-cert/--tls-key or --tls-self-signed"),s)
    else .ok (fn.answer rid params s)

def execAll (server : RPCServer σ) (token : String) : List Json → σ → Except (Fault σ) (List Json × σ)
  | [],s => .ok ([],s)
  | req :: rest,s => do
    let (response,s) ← server.exec req token s
    let (responses,s) ← server.execAll token rest s
    .ok (response :: responses,s)

def serve (server : RPCServer σ) (body : Json) (token : String) (s : σ) : Except (Fault σ) (Json × σ) :=
  match body with
  | .arr items =>
    if maxRpcBatch < items.length then
      .ok (errorResponse .null (-32600) s!"batch too large: {items.length} > {maxRpcBatch}",s)
    else do
      let (responses,s) ← server.execAll token items s
      .ok (.arr responses,s)
  | body => server.exec body token s

/- `_handle`; an exception that escapes it is a response 500 without a body. -/
def handle (server : RPCServer σ) (request : Request) (s : σ) : Except (Fault σ) (Json × σ) :=
  match request.body with
  | .error response => .ok (response,s)
  | .ok body => server.serve body request.token s

end Exec

def IsError (response : Json) : Prop := ∃ rid code message, response = errorResponse rid code message

structure Responds (rid response : Json) : Prop where
  id : response.field "id" = rid
  kind : IsError response ∨ ∃ result, response = resultResponse rid result

theorem errorResponds (rid : Json) (code : Int) (message : String) : Responds rid (errorResponse rid code message) :=
  ⟨by simp [errorResponse,Json.field,Json.lookup],.inl ⟨rid,code,message,rfl⟩⟩

theorem resultResponds (rid result : Json) : Responds rid (resultResponse rid result) :=
  ⟨by simp [resultResponse,Json.field,Json.lookup],.inr ⟨result,rfl⟩⟩

theorem runResponds (fn : Handler σ) (rid : Json) (params : List (String × Json)) (s : σ) :
    Responds rid (fn.run rid params s).1 := by
  unfold Handler.run
  split
  · exact resultResponds rid _
  · exact errorResponds rid _ _

theorem answerResponds (fn : Handler σ) (rid params : Json) (s : σ) : Responds rid (fn.answer rid params s).1 := by
  unfold Handler.answer
  split
  · split
    · exact errorResponds rid _ _
    · exact runResponds fn rid _ s
  · exact runResponds fn rid _ s
  · exact runResponds fn rid _ s

def Comparable (server : RPCServer σ) (token : String) : Prop := isAscii token = true ∧ isAscii server.authToken = true

section Authenticated
variable {server : RPCServer σ} {name token : String}

theorem compareDigestOk (passed : Bool) : compareDigest token server.authToken = .ok passed ↔
    server.Comparable token ∧ (token == server.authToken) = passed := by
  unfold compareDigest Comparable
  split
  · next ascii => simp_all
  · next other => simp_all

theorem authenticatedTrue : server.authenticated name token = .ok true ↔
    (name ∈ protectedMethods → server.Comparable token ∧ token = server.authToken) := by
  unfold authenticated
  split
  · next guarded => simp [compareDigestOk,guarded]
  · next free => simp [free]

theorem authenticatedOk : (∃ passed, server.authenticated name token = .ok passed) ↔
    (name ∈ protectedMethods → server.Comparable token) := by
  unfold authenticated
  split
  · next guarded => simp [compareDigestOk,guarded]
  · next free => simp [free]

end Authenticated

def hashable : Json → Bool
  | .arr _ => false
  | .obj _ => false
  | _ => true

def WellFormed (req : Json) : Prop :=
  ∃ fields, req = .obj fields ∧ ∀ method, Json.lookup fields "method" = some method → ∃ name, method = .str name

def Barred (server : RPCServer σ) (token : String) (req : Json) : Prop :=
  ∃ name fn, req.get "method" (.str "") = .ok (.str name) ∧ server.methods name = some fn ∧
    name ∈ protectedMethods ∧ token ≠ server.authToken

theorem mapErrorOk {ε δ α : Type} (f : ε → δ) (x : Except ε α) (a : α) : x.mapError f = .ok a ↔ x = .ok a := by
  cases x <;> simp [Except.mapError]

theorem lookupMethodSome {server : RPCServer σ} {method : Json} {name : String} {fn : Handler σ}
    (found : server.lookupMethod method = .ok (some (name,fn))) :
    method = .str name ∧ server.methods name = some fn := by
  cases method <;> simp [lookupMethod,Json.tableKey,bind,Except.bind] at found
  case str text =>
    obtain ⟨known,rfl⟩ := found
    exact ⟨rfl,known⟩

theorem lookupMethodKnown {server : RPCServer σ} {name : String} {fn : Handler σ} (known : server.methods name = some fn) :
    server.lookupMethod (.str name) = .ok (some (name,fn)) := by
  simp [lookupMethod,Json.tableKey,bind,Except.bind,known]

theorem lookupMethodHashable (server : RPCServer σ) {method : Json} :
    (∃ found, server.lookupMethod method = .ok found) ↔ hashable method = true := by
  cases method <;> simp [lookupMethod,Json.tableKey,hashable,bind,Except.bind]

section Steps
variable {server : RPCServer σ} {token : String} {fields : List (String × Json)} {req response : Json} {s t : σ}

inductive Executes (server : RPCServer σ) (token : String) (fields : List (String × Json)) (s : σ) : Json → σ → Prop
  | unknown (message : String)
      (absent : server.lookupMethod ((Json.lookup fields "method").getD (.str "")) = .ok none) :
      Executes server token fields s (errorResponse ((Json.obj fields).field "id") (-32601) message) s
  | unauthenticated {name : String} {fn : Handler σ} (message : String)
      (named : (Json.lookup fields "method").getD (.str "") = .str name) (found : server.methods name = some fn)
      (barred : server.authenticated name token = .ok false) :
      Executes server token fields s (errorResponse ((Json.obj fields).field "id") (-32600) message) s
  | insecure {name : String} {fn : Handler σ} (message : String)
      (named : (Json.lookup fields "method").getD (.str "") = .str name) (found : server.methods name = some fn)
      (passed : server.authenticated name token = .ok true) :
      Executes server token fields s (errorResponse ((Json.obj fields).field "id") (-32600) message) s
  | called {name : String} {fn : Handler σ} {response params : Json} {t : σ}
      (named : (Json.lookup fields "method").getD (.str "") = .str name) (found : server.methods name = some fn)
      (passed : server.authenticated name token = .ok true)
      (answered : fn.answer ((Json.obj fields).field "id") params s = (response,t)) :
      Executes server token fields s response t

theorem Executes.responds (step : Executes server token fields s response t) :
    Responds ((Json.obj fields).field "id") response := by
  cases step with
  | unknown message _ => exact errorResponds _ _ message
  | unauthenticated message _ _ _ => exact errorResponds _ _ message
  | insecure message _ _ _ => exact errorResponds _ _ message
  | @called name fn _ params _ _ _ _ answered =>
    have responds := answerResponds fn ((Json.obj fields).field "id") params s
    rwa [answered] at responds

theorem Executes.contained (step : Executes server token fields s response t)
    (closed : ¬WellFormed (.obj fields) ∨ Barred server token (.obj fields)) : IsError response ∧ t = s := by
  cases step with
  | unknown message _ => exact ⟨⟨_,_,message,rfl⟩,rfl⟩
  | unauthenticated message _ _ _ => exact ⟨⟨_,_,message,rfl⟩,rfl⟩
  | insecure message _ _ _ => exact ⟨⟨_,_,message,rfl⟩,rfl⟩
  | @called name fn _ _ _ named found passed _ =>
    exfalso
    rcases closed with malformed | ⟨other,_,given,_,guarded,wrong⟩
    · apply malformed
      refine ⟨fields,rfl,fun method there => ⟨name,?_⟩⟩
      simpa [there] using named
    · have same : name = other := by simpa [Json.get,named] using given
      subst same
      exact wrong (authenticatedTrue.mp passed guarded).2

end Steps

section Laws
variable [PyText]

structure Answer (server : RPCServer σ) (token : String) (req : Json) (s : σ) (response : Json) (t : σ) : Prop where
  responds : Responds (req.field "id") response
  alone : WellFormed req → ∀ single : Request, single.body = .ok req → single.token = token →
    server.handle single s = .ok (response,t)
  contained : ¬WellFormed req ∨ Barred server token req → IsError response ∧ t = s

inductive Answers (server : RPCServer σ) (token : String) : List Json → σ → List Json → σ → Prop
  | nil (s : σ) : Answers server token [] s [] s
  | cons {req response : Json} {rest responses : List Json} {s middle t : σ}
      (head : Answer server token req s response middle) (tail : Answers server token rest middle responses t) :
      Answers server token (req :: rest) s (response :: responses) t

def Isolated (server : RPCServer σ) (request : Request) (items : List Json) (s : σ) : Prop :=
  ∃ responses t, server.handle request s = .ok (.arr responses,t) ∧
    Answers server request.token items s responses t

structure Answerable (server : RPCServer σ) (token : String) (req : Json) : Prop where
  object : ∃ fields, req = .obj fields
  hashed : ∀ method, req.get "method" (.str "") = .ok method → hashable method = true
  comparable : ∀ name fn, req.get "method" (.str "") = .ok (.str name) → server.methods name = some fn →
    name ∈ protectedMethods → server.Comparable token

variable {server : RPCServer σ} {token : String} {fields : List (String × Json)} {req response : Json} {s t : σ}

theorem execObject (ran : server.exec req token s = .ok (response,t)) : ∃ fields, req = .obj fields := by
  cases req
  case obj fields => exact ⟨fields,rfl⟩
  all_goals simp [exec,Json.get,bind,Except.bind,Except.mapError] at ran

theorem execExecutes (ran : server.exec (.obj fields) token s = .ok (response,t)) :
    Executes server token fields s response t := by
  simp only [exec,Json.get,Outcome.bindOk,mapErrorOk,Except.ok.injEq,exists_eq_left'] at ran
  obtain ⟨found,looked,ran⟩ := ran
  cases found with
  | none =>
    cases ran
    exact .unknown _ looked
  | some entry =>
    obtain ⟨name,fn⟩ := entry
    obtain ⟨named,known⟩ := lookupMethodSome looked
    simp only [Outcome.bindOk,mapErrorOk] at ran
    obtain ⟨passed,checked,ran⟩ := ran
    cases passed with
    | false =>
      cases ran
      exact .unauthenticated _ named known checked
    | true =>
      rw [if_neg (by decide)] at ran
      split at ran
      · cases ran
        exact .insecure _ named known checked
      · exact .called named known checked (Except.ok.inj ran)

theorem handleObject {single : Request} (read : single.body = .ok (.obj fields)) (s : σ) :
    server.handle single s = server.exec (.obj fields) single.token s := by
  simp only [handle,read,serve]

theorem execAnswer (ran : server.exec req token s = .ok (response,t)) : Answer server token req s response t := by
  obtain ⟨fields,rfl⟩ := execObject ran
  have step := execExecutes ran
  refine ⟨step.responds,fun _ single read same => ?_,step.contained⟩
  rw [handleObject read,same,ran]

theorem execAnswerable (ran : server.exec req token s = .ok (response,t)) : Answerable server token req := by
  obtain ⟨fields,rfl⟩ := execObject ran
  simp only [exec,Json.get,Outcome.bindOk,mapErrorOk,Except.ok.injEq,exists_eq_left'] at ran
  obtain ⟨found,looked,ran⟩ := ran
  constructor
  case object => exact ⟨fields,rfl⟩
  case hashed =>
    intro method given
    cases given
    exact (lookupMethodHashable server).mp ⟨found,looked⟩
  case comparable =>
    intro name fn given known
    have given := Except.ok.inj given
    rw [given,lookupMethodKnown known] at looked
    cases looked
    simp only [Outcome.bindOk,mapErrorOk] at ran
    obtain ⟨passed,checked,_⟩ := ran
    exact authenticatedOk.mp ⟨passed,checked⟩

theorem execReturns (answerable : Answerable server token req) (s : σ) :
    ∃ response t, server.exec req token s = .ok (response,t) := by
  obtain ⟨fields,rfl⟩ := answerable.object
  obtain ⟨found,looked⟩ := (lookupMethodHashable server).mpr (answerable.hashed _ rfl)
  suffices returns : ∃ answer, server.exec (.obj fields) token s = .ok answer from
    ⟨_,_,returns.choose_spec⟩
  cases found with
  | none =>
    simp only [exec,Json.get,looked,Except.mapError,bind,Except.bind]
    exact ⟨_,rfl⟩
  | some entry =>
    obtain ⟨name,fn⟩ := entry
    obtain ⟨named,known⟩ := lookupMethodSome looked
    have comparable := answerable.comparable name fn (congrArg Except.ok named) known
    obtain ⟨passed,checked⟩ := authenticatedOk.mpr comparable
    simp only [exec,Json.get,looked,checked,Except.mapError,bind,Except.bind]
    split
    · exact ⟨_,rfl⟩
    · split
      · exact ⟨_,rfl⟩
      · exact ⟨_,rfl⟩

theorem execAllReturns {items : List Json} (answerable : ∀ req ∈ items, Answerable server token req) (s : σ) :
    ∃ responses t, server.execAll token items s = .ok (responses,t) := by
  induction items generalizing s with
  | nil => exact ⟨[],s,rfl⟩
  | cons req rest ih =>
    obtain ⟨response,middle,head⟩ := execReturns (answerable req (by simp)) s
    obtain ⟨responses,t,tail⟩ := ih (fun req member => answerable req (by simp [member])) middle
    exact ⟨response :: responses,t,by simp [execAll,head,tail,bind,Except.bind]⟩

theorem execAllAnswers {items responses : List Json} (ran : server.execAll token items s = .ok (responses,t)) :
    (∀ req ∈ items, Answerable server token req) ∧ Answers server token items s responses t := by
  induction items generalizing s responses with
  | nil =>
    cases ran
    exact ⟨by simp,.nil _⟩
  | cons req rest ih =>
    simp only [execAll,Outcome.bindOk] at ran
    obtain ⟨⟨response,middle⟩,head,⟨others,last⟩,tail,returned⟩ := ran
    cases returned
    obtain ⟨answerable,answers⟩ := ih tail
    exact ⟨List.forall_mem_cons.mpr ⟨execAnswerable head,answerable⟩,.cons (execAnswer head) answers⟩

theorem batchIsolated (server : RPCServer σ) {request : Request} {items : List Json}
    (read : request.body = .ok (.arr items)) (short : items.length ≤ maxRpcBatch) (s : σ) :
    Isolated server request items s ↔ ∀ req ∈ items, Answerable server request.token req := by
  have served : server.handle request s = (server.execAll request.token items s >>= fun answered =>
      .ok (.arr answered.1,answered.2)) := by
    simp only [handle,read,serve]
    rw [if_neg (by omega)]
  constructor
  · rintro ⟨responses,t,handled,_⟩
    rw [served,Outcome.bindOk] at handled
    obtain ⟨⟨responses,t⟩,ran,_⟩ := handled
    exact (execAllAnswers ran).1
  · intro answerable
    obtain ⟨responses,t,ran⟩ := execAllReturns answerable s
    refine ⟨responses,t,?_,(execAllAnswers ran).2⟩
    rw [served,ran]
    rfl

end Laws

end RPCServer

namespace Devnet
section Batches
attribute [local instance] plainText

def walletServer : RPCServer Nat where
  authToken := "open"
  tlsActive := false
  methods := fun name =>
    if name = "qv_newWallet" then some ⟨[],fun _ wallets => (.ok (.int wallets),wallets + 1)⟩ else none

def newWallet : Json := .obj [("id",.int 1),("method",.str "qv_newWallet")]

def batch (text : String) (items : List Json) : Request where
  raw := some (encode text)
  parsed := some (.arr items)
  authorization := some "Bearer open"

def lostBatch : Request :=
  batch "[\x7b\"id\":1,\"method\":\"qv_newWallet\"\x7d,5]" [newWallet,.int 5]

theorem walletLost : lostBatch.body = .ok (.arr [newWallet,.int 5]) ∧
    walletServer.handle lostBatch 0 = .error ⟨.attributeError,1⟩ ∧
    ¬RPCServer.Isolated walletServer lostBatch [newWallet,.int 5] 0 := by
  have raised : walletServer.handle lostBatch 0 = .error ⟨.attributeError,1⟩ := rfl
  refine ⟨rfl,raised,?_⟩
  rintro ⟨responses,t,handled,_⟩
  rw [raised] at handled
  cases handled

def sparedBatch : Request :=
  batch "[\x7b\"id\":1,\"method\":\"qv_newWallet\"\x7d,\x7b\"id\":2,\"method\":7\x7d]"
    [newWallet,.obj [("id",.int 2),("method",.int 7)]]

theorem openComparable : walletServer.Comparable sparedBatch.token := ⟨rfl,rfl⟩

theorem walletAnswerable {fields : List (String × Json)}
    (hashed : RPCServer.hashable ((Json.lookup fields "method").getD (.str "")) = true) :
    RPCServer.Answerable walletServer sparedBatch.token (.obj fields) where
  object := ⟨fields,rfl⟩
  hashed := fun _ given => Except.ok.inj given ▸ hashed
  comparable := fun _ _ _ _ _ => openComparable

theorem batchIsolatedSpared :
    RPCServer.Isolated walletServer sparedBatch [newWallet,.obj [("id",.int 2),("method",.int 7)]] 0 := by
  refine (RPCServer.batchIsolated walletServer rfl (by decide) 0).mpr ?_
  simp only [List.forall_mem_cons]
  exact ⟨walletAnswerable rfl,walletAnswerable rfl,by simp⟩

end Batches
end Devnet

end QbitNetwork
