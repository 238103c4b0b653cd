import QbitNetwork.HandshakeLaws
import QbitNetwork.Lib.TokenBucket

/-! The limiter of application messages from one host, and what the connections with that host
dispatch past it. -/
namespace QbitNetwork.Handshake.RateLimiter

def p2pRateLimit : Rat := 20
def p2pRateBurst : Rat := 100
def p2pRateViolationsMax : Nat := 3

structure Bucket where
  level : TokenBucket Rat
  violations : Nat := 0

def check (now : Rat) (bucket : Option Bucket) : Bool × Bucket :=
  let b := bucket.getD { level := ⟨p2pRateBurst,now⟩ }
  match b.level.take p2pRateLimit p2pRateBurst now with
  | (true,level) => (true,{ b with level })
  | (false,level) => (false,{ level, violations := b.violations + 1 })

def isHandled : Event → Bool
  | .handled _ _ _ _ => true
  | _ => false

def dispatches (c : Conn) : Nat := c.trace.countP isHandled

def limits (c : Conn) (input : Incoming) : Bool :=
  match c.phase,input.received with
  | .loop,.value (.obj message) =>
    match (Message.get message "type" (.str "")).tableKey with
    | .ok key => key.all (fun type => type ∉ rateExempt)
    | .error _ => false
  | _,_ => false

structure Host where
  conns : List Conn := []
  bucket : Option Bucket := none
  clock : Rat
  dispatched : List Rat := []

def Host.judge (h : Host) (c : Conn) (input : Incoming) : Option Bucket × Incoming :=
  if limits c input then
    let (rateAllowed,bucket) := check input.monotonic h.bucket
    (some bucket,{ input with rateAllowed, rateViolations := p2pRateViolationsMax ≤ bucket.violations })
  else (h.bucket,input)

section Runs
variable [Env] [Channel]

def Host.deliver (node : P2PNode) (h : Host) (i : Nat) (c : Conn) (input : Incoming) : Host :=
  let (bucket,judged) := h.judge c input
  let c' := step node c judged
  { conns := h.conns.set i c'
    bucket
    clock := input.monotonic
    dispatched := h.dispatched ++ List.replicate (dispatches c' - dispatches c) input.monotonic }

inductive Reached (node : P2PNode) (meets : Conn → Incoming → Prop) : Host → Prop where
  | start (clock : Rat) : Reached node meets { clock }
  | accept {h : Host} (prior : Reached node meets h) : Reached node meets { h with conns := h.conns ++ [accepted] }
  | connect {h : Host} (prior : Reached node meets h) (port : Int) (input : Incoming) :
    Reached node meets { h with conns := h.conns ++ [connect node port input] }
  | deliver {h : Host} {c : Conn} (prior : Reached node meets h) (i : Nat) (input : Incoming)
    (found : h.conns[i]? = some c) (later : h.clock ≤ input.monotonic) (met : meets c input) :
    Reached node meets (h.deliver node i c input)

def RateBounded (h : Host) : Prop := TokenBucket.Bounded p2pRateLimit p2pRateBurst h.dispatched

def Passes (input : Incoming) (msgType data : Json) (c : Conn) : Prop :=
  input.banned = false ∧ ∃ c' type, hearStatus msgType data c = .ok c' ∧
    msgType.tableKey = .ok (some type) ∧ type ∈ handledMsgs ∧ checkAuthGate (some type) c'.peer = .ok true

def Bypasses (c : Conn) (input : Incoming) : Prop :=
  ∃ message, input.received = .value (.obj message) ∧
    match c.phase with
    | .first => ∃ type ∈ handledMsgs, (Message.get message "type" (.str "")).tableKey = .ok (some type)
    | .loop => (Message.get message "type" (.str "")).equal (.str "encrypted") = true ∧ ∃ inner data,
        decryptMessage (Message.get message "data" (.obj [])) c = .ok (some (inner,data)) ∧
        Passes input inner data c
    | .closed => False

end Runs

section Counting

def Silent (c c' : Conn) : Prop := dispatches c' = dispatches c

theorem silentEmit {event : Event} (silent : isHandled event = false) (c : Conn) : Silent c (c.emit event) := by
  simp [Silent,dispatches,Conn.emit,List.countP_append,silent]

theorem silentSend (c : Conn) (msgType : String) (data : Message) : Silent c (c.send msgType data) :=
  silentEmit rfl c

theorem silentPort (c : Conn) (port : Json) : Silent c (c.setPort port) := by
  unfold Conn.setPort
  split <;> rfl

variable [Env] [Channel]

omit [Env] [Channel] in
theorem dedupSilent (node : P2PNode) (input : Incoming) (c : Conn) : Silent c (dedupConnection node input c).2 := by
  unfold dedupConnection
  split
  · rfl
  split
  · rfl
  split
  · exact silentEmit rfl c
  · rfl

omit [Channel] in
theorem initiateSilent (node : P2PNode) (input : Incoming) (c : Conn) :
    Silent c (initiateEncryptedChannel node input c) := by
  unfold initiateEncryptedChannel
  split
  · rfl
  split
  · rfl
  · exact silentSend (c.withPeer _) ..

theorem completeResponseSilent (node : P2PNode) (input : Incoming) (data : Message) (responderPk : Bytes) (c : Conn) :
    Outcome.Settles Prod.snd (Silent c) (completeResponse node input data responderPk c) := by
  unfold completeResponse
  split
  · exact Outcome.settlesOk rfl
  split
  · exact Outcome.settlesOk rfl
  rename_i counterSig _
  dsimp only
  generalize made : c.send "auth_confirm" [("challenge_sig",.str (hex counterSig))] = confirmed
  have sent : Silent c confirmed := made ▸ silentSend c ..
  split
  · exact Outcome.settlesError sent
  · rename_i version _
    have deduped : Silent c (dedupConnection node input (confirmed.withPeer
        (checkValidatorStatus node (describe data version (authenticate responderPk c.peer))))).2 :=
      (dedupSilent node input _).trans sent
    split
    · rename_i closing same
      rw [same] at deduped
      exact Outcome.settlesOk deduped
    · rename_i kept same
      rw [same] at deduped
      have opened := (initiateSilent node input kept).trans deduped
      split
      · exact Outcome.settlesError opened
      · exact Outcome.settlesOk opened

omit [Channel] in
theorem completeConfirmSilent (node : P2PNode) (input : Incoming) (c : Conn) :
    Outcome.Settles Prod.snd (Silent c) (completeConfirm node input c) := by
  unfold completeConfirm
  dsimp only
  split
  · exact Outcome.settlesError rfl
  · rename_i wireFormat _
    have silent : Silent c (dedupConnection node input (c.withPeer (checkValidatorStatus node
        { authenticate c.peer.remotePubkey c.peer with wireFormat }))).2 := dedupSilent node input _
    split
    · rename_i closing same
      rw [same] at silent
      exact Outcome.settlesOk silent
    · rename_i kept same
      rw [same] at silent
      exact Outcome.settlesOk silent

theorem completeSilent (node : P2PNode) (input : Incoming) (data : Json) (c : Conn) :
    Outcome.Settles Prod.snd (Silent c) (complete node input data c) := by
  have checked : ∀ publicKey signature, Silent c (checkChallenge input publicKey signature c).2 :=
    fun _ _ => silentEmit rfl c.clearChallenge
  have raised : ∀ r, fieldsOf c data = .error r → Silent c r.state :=
    fun r run => congrArg dispatches (fieldsOfRaises run)
  unfold complete
  split
  · unfold handleAuthResponse
    split
    · exact Outcome.settlesOk rfl
    split
    · exact Outcome.settlesOk rfl
    refine Outcome.settlesBind raised (fun data _ => ?_)
    split
    · rename_i responderPk challengeSig _ _
      have silent := checked responderPk challengeSig
      split
      · rename_i refused check
        rw [check] at silent
        exact Outcome.settlesOk silent
      · rename_i verified check
        rw [check] at silent
        exact (completeResponseSilent ..).imp (fun c' more => more.trans silent)
    · exact Outcome.settlesOk rfl
  · unfold handleAuthConfirm
    split
    · exact Outcome.settlesOk rfl
    split
    · exact Outcome.settlesOk rfl
    split
    · exact Outcome.settlesOk rfl
    refine Outcome.settlesBind raised (fun data _ => ?_)
    split
    · exact Outcome.settlesOk rfl
    · rename_i challengeSig _
      have silent := checked c.peer.remotePubkey challengeSig
      split
      · rename_i refused check
        rw [check] at silent
        exact Outcome.settlesOk silent
      · rename_i verified check
        rw [check] at silent
        exact (completeConfirmSilent ..).imp (fun c' more => more.trans silent)

theorem sessionKeySilent (node : P2PNode) (data : Json) (c : Conn) :
    Outcome.Settles id (Silent c) (handleSessionKey node data c) := by
  unfold handleSessionKey
  split
  · exact Outcome.settlesOk rfl
  refine Outcome.settlesBind (fun r run => congrArg dispatches (fieldsOfRaises run)) (fun data _ => ?_)
  split
  · exact Outcome.settlesOk rfl
  · dsimp only
    split <;> exact Outcome.settlesOk rfl

omit [Env] [Channel] in
theorem hearStatusSilent (msgType data : Json) (c : Conn) : Outcome.Settles id (Silent c) (hearStatus msgType data c) := by
  unfold hearStatus recordHeight
  split
  · refine Outcome.settlesBind (fun r run => congrArg dispatches (fieldsOfRaises run)) (fun data _ => ?_)
    dsimp only
    split <;> exact Outcome.settlesOk rfl
  · exact Outcome.settlesOk rfl

theorem helloAuthSilent (node : P2PNode) (input : Incoming) (data : Message) (c : Conn) :
    Outcome.Settles Prod.snd (Silent c) (handleHelloAuthInbound node input data c) := by
  unfold handleHelloAuthInbound
  split
  · exact Outcome.settlesOk rfl
  split
  · exact Outcome.settlesError rfl
  · exact Outcome.settlesOk rfl
  · dsimp only
    split
    · exact Outcome.settlesOk rfl
    · refine Outcome.settlesOk ((silentSend _ "auth_response" _).trans ?_)
      exact silentEmit rfl (c.withPeer _)

def Hands (cause : Prop) (c c' : Conn) : Prop :=
  Silent c c' ∨ dispatches c' = dispatches c + 1 ∧ cause

omit [Env] [Channel] in
theorem Hands.after {cause : Prop} {a b c : Conn} (first : Silent a b) (second : Hands cause b c) : Hands cause a c := by
  rcases second with same | ⟨more,caused⟩
  · exact .inl (same.trans first)
  · exact .inr ⟨more.trans (congrArg (· + 1) first),caused⟩

omit [Env] [Channel] in
theorem Hands.weaken {cause cause' : Prop} {c c' : Conn} (hands : Hands cause c c') (weaker : cause → cause') :
    Hands cause' c c' := hands.imp id (fun more => ⟨more.1,weaker more.2⟩)

omit [Env] [Channel] in
theorem dispatchHands (input : Incoming) (msgType data : Json) (c : Conn) :
    Outcome.Settles id (Hands (∃ type ∈ handledMsgs, msgType.tableKey = .ok (some type)) c)
      (dispatch input msgType data c) := by
  refine Outcome.settlesBind (fun r run => .inl (congrArg dispatches (escapeRaises run))) (fun key run => ?_)
  split
  · exact Outcome.settlesOk (.inl rfl)
  · rename_i type handled
    rw [Option.filter_eq_some_iff] at handled
    obtain ⟨rfl,listed⟩ := handled
    have cause : ∃ type ∈ handledMsgs, msgType.tableKey = .ok (some type) :=
      ⟨type,of_decide_eq_true listed,escapeOk run⟩
    have more : dispatches (c.emit (.handled type data c.peer.protocolVersion c.peer.authenticated)) =
        dispatches c + 1 := by
      simp [dispatches,Conn.emit,List.countP_append,isHandled]
    have heard := (hearStatusSilent msgType data (c.emit (.handled type data c.peer.protocolVersion
      c.peer.authenticated))).imp (fun c' (silent : Silent _ c') =>
        (.inr ⟨silent.trans more,cause⟩ : Hands (∃ type ∈ handledMsgs, msgType.tableKey = .ok (some type)) c c'))
    refine Outcome.settlesBind heard.raises (fun c' run => ?_)
    split
    · exact Outcome.settlesError (heard.returns c' run)
    · exact Outcome.settlesOk (heard.returns c' run)

theorem processHands (node : P2PNode) (input : Incoming) (msgType data : Json) (c : Conn) :
    Outcome.Settles Prod.snd (Hands (Passes input msgType data c) c) (process node input msgType data c) := by
  have heard := hearStatusSilent msgType data c
  refine Outcome.settlesBind (fun r run => .inl (heard.raises r run)) (fun c₁ status => ?_)
  have quiet : Silent c c₁ := heard.returns c₁ status
  suffices rest : Outcome.Settles Prod.snd (Hands (Passes input msgType data c) c₁) _ from
    rest.imp (fun c' hands => hands.after quiet)
  split
  · have keyed := sessionKeySilent node data c₁
    exact Outcome.settlesBind (fun r run => .inl (keyed.raises r run))
      (fun c₂ run => Outcome.settlesOk (.inl (keyed.returns c₂ run)))
  split
  · have completed := completeSilent node input data c₁
    refine Outcome.settlesBind (fun r run => .inl (completed.raises r run)) (fun answer run => ?_)
    refine Outcome.settlesOk (.inl ?_)
    have silent : Silent c₁ answer.2 := completed.returns answer run
    dsimp only
    split
    · exact silent
    · exact (silentEmit rfl _).trans silent
  split
  · exact Outcome.settlesOk (.inl rfl)
  rename_i welcome
  refine Outcome.settlesBind (fun r run => .inl (congrArg dispatches (escapeRaises run))) (fun key keyed => ?_)
  refine Outcome.settlesBind (fun r run => .inl (congrArg dispatches (escapeRaises run))) (fun allowed gated => ?_)
  split
  · exact Outcome.settlesOk (.inl rfl)
  · rename_i passes
    have cause : (∃ type ∈ handledMsgs, msgType.tableKey = .ok (some type)) → Passes input msgType data c := by
      rintro ⟨type,listed,named⟩
      obtain rfl : key = some type := Except.ok.inj ((escapeOk keyed).symm.trans named)
      refine ⟨Bool.eq_false_iff.mpr welcome,c₁,type,status,named,listed,?_⟩
      rw [escapeOk gated,Bool.of_not_eq_false passes]
    have dispatched := (dispatchHands input msgType data c₁).imp (fun c' hands => Hands.weaken hands cause)
    exact Outcome.settlesBind dispatched.raises
      (fun c₂ run => Outcome.settlesOk (dispatched.returns c₂ run))

theorem firstHands (node : P2PNode) (input : Incoming) {c : Conn} (opening : c.phase = .first) :
    Outcome.Settles Prod.snd (Hands (Bypasses c input) c) (onFirst node input c) := by
  have raised : ∀ {data : Json} (r : Fault Conn), fieldsOf c data = .error r → Hands (Bypasses c input) c r.state :=
    fun r run => .inl (congrArg dispatches (fieldsOfRaises run))
  unfold onFirst
  split
  · exact Outcome.settlesOk (.inl rfl)
  · exact Outcome.settlesOk (.inl rfl)
  rename_i obj received
  refine Outcome.settlesBind raised (fun message opened => ?_)
  have object : obj = .obj message := by
    cases obj <;> cases opened
    rfl
  have cause : (∃ type ∈ handledMsgs, (Message.get message "type" (.str "")).tableKey = .ok (some type)) →
      Bypasses c input := by
    intro named
    refine ⟨message,object ▸ received,?_⟩
    rw [opening]
    exact named
  have reached : ∀ (c₁ : Conn) (data : Json), Silent c c₁ → Outcome.Settles Prod.snd (Hands (Bypasses c input) c)
      (dispatch input (Message.get message "type" (.str "")) data c₁ >>= fun c => .ok (true,c)) := by
    intro c₁ data silent
    have dispatched := (dispatchHands input (Message.get message "type" (.str "")) data c₁).imp
      (fun c' hands => (Hands.weaken hands cause).after silent)
    exact Outcome.settlesBind dispatched.raises (fun c₂ run => Outcome.settlesOk (dispatched.returns c₂ run))
  dsimp only
  split
  · split
    · exact Outcome.settlesOk (.inl rfl)
    refine Outcome.settlesBind raised (fun fields _ => ?_)
    have greeted := (helloAuthSilent node input fields (c.setPort (fields.get "port" (.int 0)))).imp
      (fun c' (silent : Silent _ c') => silent.trans (silentPort c _))
    refine Outcome.settlesBind (fun r run => .inl (greeted.raises r run)) (fun answer run => ?_)
    have silent : Silent c answer.2 := greeted.returns answer run
    split
    · exact Outcome.settlesOk (.inl ((silentEmit rfl _).trans silent))
    · exact reached _ _ silent
  split
  · refine Outcome.settlesBind raised (fun fields _ => ?_)
    exact reached _ _ ((silentSend _ "hello" _).trans (silentPort (c.withPeer _) _))
  · exact reached c _ rfl

omit [Env] [Channel] in
theorem handledCounted : ∀ type ∈ handledMsgs, type ∉ rateExempt := by decide

theorem messageHands (node : P2PNode) (input : Incoming) {c : Conn} (looping : c.phase = .loop) :
    Outcome.Settles Prod.snd (Hands (Bypasses c input ∨ limits c input = true ∧ input.rateAllowed = true) c)
      (onMessage node input c) := by
  unfold onMessage
  split
  · exact Outcome.settlesOk (.inl rfl)
  · exact Outcome.settlesOk (.inl rfl)
  rename_i obj received
  refine Outcome.settlesBind (fun r run => .inl (congrArg dispatches (fieldsOfRaises run))) (fun message opened => ?_)
  have object : obj = .obj message := by
    cases obj <;> cases opened
    rfl
  subst object
  dsimp only
  refine Outcome.settlesBind (fun r run => .inl (congrArg dispatches (escapeRaises run))) (fun key keyed => ?_)
  split
  · split
    · exact Outcome.settlesOk (.inl (silentEmit rfl c))
    · exact Outcome.settlesOk (.inl rfl)
  rename_i unlimited
  split
  · rename_i enveloped
    refine Outcome.settlesBind (fun r run => .inl (congrArg dispatches (decryptRaises run))) (fun inner decrypted => ?_)
    split
    · exact Outcome.settlesOk (.inl rfl)
    · rename_i inner innerData
      refine (processHands node input inner innerData c).imp (fun c' hands => Hands.weaken hands (fun passes => .inl ?_))
      refine ⟨message,received,?_⟩
      rw [looping]
      exact ⟨enveloped,inner,innerData,decrypted,passes⟩
  · refine (processHands node input _ _ c).imp (fun c' hands => Hands.weaken hands (fun passes => .inr ?_))
    obtain ⟨-,-,type,-,named,listed,-⟩ := passes
    obtain rfl : key = some type := Except.ok.inj ((escapeOk keyed).symm.trans named)
    have counted : type ∉ rateExempt := handledCounted type listed
    have limited : limits c input = true := by
      simp [limits,looping,received,named,counted]
    refine ⟨limited,?_⟩
    by_contra refused
    exact unlimited ⟨fun other same => Option.some.inj same ▸ counted,Bool.eq_false_iff.mpr refused⟩

omit [Env] [Channel] in
theorem settleHands {cause : Prop} {c : Conn} {x : Handled}
    (settles : Outcome.Settles Prod.snd (Hands cause c) x) : Hands cause c (settle x) := by
  cases x with
  | ok answer =>
    obtain ⟨goesOn,c'⟩ := answer
    have hands := settles.returns _ rfl
    cases goesOn
    · exact hands
    · exact hands
  | error r => exact settles.raises r rfl

theorem stepHands (node : P2PNode) (c : Conn) (input : Incoming) :
    Hands (Bypasses c input ∨ limits c input = true ∧ input.rateAllowed = true) c (step node c input) := by
  unfold step
  split
  · rename_i opening
    exact (settleHands (firstHands node input opening)).weaken .inl
  · rename_i looping
    exact settleHands (messageHands node input looping)
  · exact .inl rfl

end Counting

section Bounds
variable [Env] [Channel]

def Accounted (h : Host) : Prop :=
  match h.bucket with
  | none => h.dispatched = []
  | some b => TokenBucket.Accounts p2pRateLimit p2pRateBurst h.dispatched b.level ∧ b.level.lastRefill ≤ h.clock

omit [Env] [Channel] in
theorem ratesPositive : 0 ≤ p2pRateLimit ∧ 0 ≤ p2pRateBurst := by
  unfold p2pRateLimit p2pRateBurst
  norm_num

omit [Env] [Channel] in
theorem checkAccounts {h : Host} (accounted : Accounted h) {now : Rat} (later : h.clock ≤ now) :
    TokenBucket.Accounts p2pRateLimit p2pRateBurst h.dispatched (check now h.bucket).2.level ∧
      (check now h.bucket).2.level.lastRefill ≤ now ∧
      ((check now h.bucket).1 = true →
        TokenBucket.Accounts p2pRateLimit p2pRateBurst (h.dispatched ++ [now]) (check now h.bucket).2.level) := by
  have start : TokenBucket.Accounts p2pRateLimit p2pRateBurst h.dispatched
        (h.bucket.getD { level := ⟨p2pRateBurst,now⟩ }).level ∧
      (h.bucket.getD { level := ⟨p2pRateBurst,now⟩ }).level.lastRefill ≤ now := by
    unfold Accounted at accounted
    cases found : h.bucket with
    | none =>
      rw [found] at accounted
      rw [show h.dispatched = [] from accounted]
      exact ⟨TokenBucket.accountsFull ratesPositive.1 ratesPositive.2 now,le_refl now⟩
    | some b =>
      rw [found] at accounted
      exact ⟨accounted.1,accounted.2.trans later⟩
  obtain ⟨kept,granted⟩ := TokenBucket.takeAccounts ratesPositive.1 start.1 start.2
  have time := @TokenBucket.takeTime _ _ _ _ p2pRateLimit p2pRateBurst _ _ start.2
  unfold check
  dsimp only
  generalize TokenBucket.take p2pRateLimit p2pRateBurst now _ = taken at kept granted time ⊢
  obtain ⟨allowed,level⟩ := taken
  cases allowed with
  | true => exact ⟨kept,time.le,granted⟩
  | false => exact ⟨kept,time.le,fun refused => Bool.noConfusion refused⟩

theorem deliverAccounted (node : P2PNode) {h : Host} (accounted : Accounted h) (i : Nat) (c : Conn)
    {input : Incoming} (later : h.clock ≤ input.monotonic) (met : ¬Bypasses c input) :
    Accounted (h.deliver node i c input) := by
  have logged : ∀ {c' : Conn} {n : Nat}, dispatches c' = dispatches c + n → h.dispatched ++
      List.replicate (dispatches c' - dispatches c) input.monotonic = h.dispatched ++ List.replicate n input.monotonic := by
    intro c' n more
    rw [more,Nat.add_sub_cancel_left]
  by_cases limited : limits c input = true
  · obtain ⟨kept,time,granted⟩ := checkAccounts accounted later
    simp only [Host.deliver,Host.judge,if_pos limited]
    generalize check input.monotonic h.bucket = verdict at kept time granted ⊢
    obtain ⟨rateAllowed,bucket⟩ := verdict
    dsimp only
    rcases stepHands node c { input with rateAllowed, rateViolations := p2pRateViolationsMax ≤ bucket.violations }
      with silent | ⟨more,bypasses | ⟨-,allowed⟩⟩
    · rw [logged (n := 0) silent,List.replicate_zero,List.append_nil]
      exact ⟨kept,time⟩
    · exact absurd bypasses met
    · rw [logged (n := 1) more]
      exact ⟨granted allowed,time⟩
  · simp only [Host.deliver,Host.judge,if_neg limited]
    rcases stepHands node c input with silent | ⟨more,bypasses | ⟨limits,-⟩⟩
    · rw [logged (n := 0) silent,List.replicate_zero,List.append_nil]
      unfold Accounted at accounted ⊢
      dsimp only
      cases found : h.bucket with
      | none => simpa only [found] using accounted
      | some b =>
        rw [found] at accounted
        exact ⟨accounted.1,accounted.2.trans later⟩
    · exact absurd bypasses met
    · exact absurd limits limited

theorem reachedAccounted {node : P2PNode} {h : Host} (reached : Reached node (fun c input => ¬Bypasses c input) h) :
    Accounted h := by
  induction reached with
  | start clock => rfl
  | accept prior ih => exact ih
  | connect prior port input ih => exact ih
  | deliver prior i input found later met ih => exact deliverAccounted node ih i _ later met

theorem messagesMetered (node : P2PNode) (h : Host) (reached : Reached node (fun c input => ¬Bypasses c input) h) :
    RateBounded h := by
  have accounted := reachedAccounted reached
  unfold Accounted at accounted
  split at accounted
  · unfold RateBounded
    rw [accounted]
    exact TokenBucket.boundedNil ratesPositive.1 ratesPositive.2
  · exact accounted.1.bounded

end Bounds

namespace Devnet
open QbitNetwork.Devnet Handshake.Devnet

section Legacy
attribute [local instance] legacy

def innerText : Bytes := encode "\x7b\"type\": \"new_tx\", \"data\": \x7b\x7d\x7d"

@[reducible] def clearChannel : Channel where
  sign sk message := some (Env.mldsaSign sk message)
  mlkemDecapsulate := fun _ ct => some (ct.take 32)
  aesDecrypt := fun _ data => some data
  jsonLoads data := if data = innerText then some (.obj [("type",.str "new_tx"),("data",.obj [])]) else none

attribute [local instance] clearChannel

def sealedNode : P2PNode := { responder with encryptionSk := [1], encryptionPk := [1] }

theorem hearUnlimited {meets : Conn → Incoming → Prop} {h : Host} {c : Conn} {input : Incoming}
    (reached : Reached sealedNode meets h) (conns : h.conns = [c]) (clock : h.clock = input.monotonic)
    (unlimited : limits c input = false) (met : meets c input) : ∃ h', Reached sealedNode meets h' ∧
      h'.conns = [step sealedNode c input] ∧ h'.clock = input.monotonic ∧
      h'.dispatched = h.dispatched ++
        List.replicate (dispatches (step sealedNode c input) - dispatches c) input.monotonic ∧
      h'.bucket = h.bucket := by
  have found : h.conns[0]? = some c := by rw [conns]; rfl
  refine ⟨_,.deliver reached 0 input found clock.le met,?_,rfl,?_,?_⟩
  · simp only [Host.deliver,Host.judge,unlimited,Bool.false_eq_true,if_false,conns]
    rfl
  · simp only [Host.deliver,Host.judge,unlimited,Bool.false_eq_true,if_false]
  · simp only [Host.deliver,Host.judge,unlimited,Bool.false_eq_true,if_false]

structure Flooded (n : Nat) (h : Host) : Prop where
  clock : h.clock = 0
  dispatched : h.dispatched = List.replicate n 0
  keyed : ∃ c key, h.conns = [c] ∧ c.phase = .loop ∧ c.peer.sessionKey = some key ∧
    c.peer.authenticated = true ∧ c.peer.protocolVersion.less (.int 2) = .ok false

def envelope : Incoming := incoming "encrypted" [("data",.str (hex innerText))] []

theorem envelopeStep {c : Conn} {key : Bytes} (looping : c.phase = .loop) (keyed : c.peer.sessionKey = some key)
    (authenticated : c.peer.authenticated = true) (version : c.peer.protocolVersion.less (.int 2) = .ok false) :
    step sealedNode c envelope =
      { c.emit (.handled "new_tx" (.obj []) c.peer.protocolVersion true) with phase := .loop } := by
  have outer : (Json.str "encrypted").tableKey = .ok (some "encrypted") := by decide
  have text : hexOf (.str (hex innerText)) = some innerText := by decide +kernel
  have opened : decryptMessage (.obj [("data",.str (hex innerText))]) c = .ok (some (.str "new_tx",.obj [])) := by
    simp only [decryptMessage,keyed,fieldsOf,bind,Except.bind]
    rw [show Message.get [("data",.str (hex innerText))] "data" (.str "") = .str (hex innerText) from rfl,text]
    rfl
  have gate : checkAuthGate (some "new_tx") c.peer = .ok true := by
    unfold checkAuthGate
    rw [if_neg (by decide),version,authenticated]
    rfl
  have named : (Json.str "new_tx").tableKey = .ok (some "new_tx") := by decide
  have dispatched : dispatch envelope (.str "new_tx") (.obj []) c =
      .ok (c.emit (.handled "new_tx" (.obj []) c.peer.protocolVersion true)) := by
    unfold dispatch
    rw [named,authenticated]
    rfl
  have completing : completes c (.str "new_tx") = false := by
    unfold completes
    cases c.peer.isInitiator <;> decide
  have processed : process sealedNode envelope (.str "new_tx") (.obj []) c =
      .ok (true,c.emit (.handled "new_tx" (.obj []) c.peer.protocolVersion true)) := by
    have heard : hearStatus (.str "new_tx") (.obj []) c = .ok c := rfl
    have session : (Json.str "new_tx").equal (.str "session_key") = false := by decide
    have welcome : envelope.banned = false := rfl
    simp only [process,heard,session,completing,welcome,named,escape,gate,dispatched,bind,Except.bind,
      Bool.false_eq_true,if_false,Bool.true_eq_false]
  have sealed' : (Json.str "encrypted").equal (.str "encrypted") = true := by decide
  have exempt : ¬∀ type ∈ some "encrypted", type ∉ rateExempt := by decide
  have received : envelope.received = .value (.obj [("type",.str "encrypted"),
      ("data",.obj [("data",.str (hex innerText))])]) := rfl
  have type : Message.get [("type",.str "encrypted"),("data",.obj [("data",.str (hex innerText))])] "type"
      (.str "") = .str "encrypted" := rfl
  have data : Message.get [("type",.str "encrypted"),("data",.obj [("data",.str (hex innerText))])] "data"
      (.obj []) = .obj [("data",.str (hex innerText))] := rfl
  have message : onMessage sealedNode envelope c =
      .ok (true,c.emit (.handled "new_tx" (.obj []) c.peer.protocolVersion true)) := by
    simp only [onMessage,received,fieldsOf,bind,Except.bind,type,data,outer,escape,exempt,false_and,if_false,
      sealed',if_true,opened,processed]
  rw [step,looping]
  simp only [message]
  rfl

theorem floodStep {n : Nat} {h : Host} (flooded : Flooded n h)
    (reached : Reached sealedNode (fun _ _ => True) h) :
    ∃ h', Reached sealedNode (fun _ _ => True) h' ∧ Flooded (n + 1) h' := by
  obtain ⟨clock,dispatched,c,key,conns,looping,keyed,authenticated,version⟩ := flooded
  have unlimited : limits c envelope = false := by
    unfold limits
    rw [looping]
    decide +kernel
  have stepped := envelopeStep looping keyed authenticated version
  have more : dispatches (step sealedNode c envelope) - dispatches c = 1 := by
    rw [stepped]
    simp [dispatches,Conn.emit,List.countP_append,isHandled]
  obtain ⟨h',reached',conns',clock',dispatched',-⟩ := hearUnlimited reached conns clock unlimited trivial
  rw [more,dispatched] at dispatched'
  refine ⟨h',reached',clock',dispatched'.trans List.replicate_succ'.symm,_,key,conns',?_⟩
  rw [stepped]
  exact ⟨rfl,keyed,authenticated,version⟩

theorem floods {h : Host} (flooded : Flooded 0 h) (reached : Reached sealedNode (fun _ _ => True) h) (n : Nat) :
    ∃ h', Reached sealedNode (fun _ _ => True) h' ∧ Flooded n h' := by
  induction n with
  | zero => exact ⟨h,reached,flooded⟩
  | succ n ih =>
    obtain ⟨h',reached',flooded'⟩ := ih
    exact floodStep flooded' reached'

def helloMessage : Incoming :=
  let challenge := List.replicate challengeLen 5
  incoming "hello_auth" [("protocol_version",.int 4),("timestamp",.int 100),("chain_id",.str chainId),
    ("challenge",.str (hex challenge)),("signing_pk",.str (hex longKey)),("proof",signedBy longKey challenge)]
    (List.replicate challengeLen 6)

def confirmMessage : Incoming :=
  incoming "auth_confirm" [("challenge_sig",signedBy longKey (List.replicate challengeLen 6))] []

def sessionKeyMessage : Incoming :=
  incoming "session_key" [("ciphertext",.str (hex (List.replicate mlkemCtSize 7)))] []

def challengedConn : Conn := step sealedNode accepted helloMessage

def confirmedConn : Conn := step sealedNode challengedConn confirmMessage

def keyedConn : Conn := step sealedNode confirmedConn sessionKeyMessage

theorem keyedReached : ∃ h, Reached sealedNode (fun _ _ => True) h ∧ Flooded 0 h := by
  have run : (limits accepted helloMessage = false ∧ limits challengedConn confirmMessage = false ∧
      limits confirmedConn sessionKeyMessage = false ∧ dispatches challengedConn - dispatches accepted = 0 ∧
      dispatches confirmedConn - dispatches challengedConn = 0 ∧
      dispatches keyedConn - dispatches confirmedConn = 0) ∧ keyedConn.phase = .loop ∧
      keyedConn.peer.sessionKey.isSome = true ∧ keyedConn.peer.authenticated = true ∧
      keyedConn.peer.protocolVersion.less (.int 2) = .ok false := by decide +kernel
  obtain ⟨⟨limits₁,limits₂,limits₃,none₁,none₂,none₃⟩,looping,key,authenticated,version⟩ := run
  obtain ⟨key,held⟩ := Option.isSome_iff_exists.mp key
  have start : Reached sealedNode (fun _ _ => True) { clock := 0, conns := [accepted] } := .accept (.start 0)
  obtain ⟨h₁,reached₁,conns₁,clock₁,dispatched₁,-⟩ := @hearUnlimited _ _ _ helloMessage start rfl rfl limits₁ trivial
  rw [← challengedConn] at conns₁ dispatched₁
  obtain ⟨h₂,reached₂,conns₂,clock₂,dispatched₂,-⟩ :=
    @hearUnlimited _ _ _ confirmMessage reached₁ conns₁ clock₁ limits₂ trivial
  rw [← confirmedConn] at conns₂ dispatched₂
  obtain ⟨h₃,reached₃,conns₃,clock₃,dispatched₃,-⟩ :=
    @hearUnlimited _ _ _ sessionKeyMessage reached₂ conns₂ clock₂ limits₃ trivial
  rw [← keyedConn] at conns₃ dispatched₃
  rw [none₃,dispatched₂,none₂,dispatched₁,none₁] at dispatched₃
  exact ⟨h₃,reached₃,clock₃,dispatched₃,keyedConn,key,conns₃,looping,held,authenticated,version⟩

theorem envelopesUnmetered : ∃ h, Reached sealedNode (fun _ _ => True) h ∧
    h.dispatched = List.replicate 101 0 ∧ ¬RateBounded h := by
  obtain ⟨h,reached,flooded⟩ := keyedReached
  obtain ⟨h',reached',flooded'⟩ := floods flooded reached 101
  refine ⟨h',reached',flooded'.dispatched,fun bounded => ?_⟩
  have window := bounded 0 0 (le_refl 0)
  rw [flooded'.dispatched,TokenBucket.within,List.countP_replicate] at window
  revert window
  unfold p2pRateLimit p2pRateBurst
  norm_num

def greetedConn : Conn := step sealedNode accepted (incoming "hello" [] [])

def plainRequest : Incoming := incoming "new_tx" [] []

structure Drained (n : Nat) (h : Host) : Prop where
  clock : h.clock = 0
  dispatched : h.dispatched = List.replicate n 0
  level : h.bucket.getD { level := ⟨p2pRateBurst,0⟩ } = { level := ⟨p2pRateBurst - n,0⟩ }
  plain : ∃ c, h.conns = [c] ∧ c.phase = .loop ∧ c.peer.authenticated = false ∧
    c.peer.protocolVersion.less (.int 2) = .ok true

theorem plainLimited {c : Conn} (looping : c.phase = .loop) :
    limits c plainRequest = true ∧ ¬Bypasses c plainRequest := by
  constructor
  · unfold limits
    rw [looping]
    decide
  · rintro ⟨message,received,rest⟩
    cases received
    rw [looping] at rest
    obtain ⟨enveloped,-⟩ := rest
    exact absurd enveloped (by decide)

theorem plainStep {c : Conn} (looping : c.phase = .loop) (plain : c.peer.authenticated = false)
    (version : c.peer.protocolVersion.less (.int 2) = .ok true) :
    step sealedNode c plainRequest =
      { c.emit (.handled "new_tx" (.obj []) c.peer.protocolVersion false) with phase := .loop } := by
  have named : (Json.str "new_tx").tableKey = .ok (some "new_tx") := by decide
  have gate : checkAuthGate (some "new_tx") c.peer = .ok true := by
    unfold checkAuthGate
    rw [if_neg (by decide),version]
    rfl
  have dispatched : dispatch plainRequest (.str "new_tx") (.obj []) c =
      .ok (c.emit (.handled "new_tx" (.obj []) c.peer.protocolVersion false)) := by
    unfold dispatch
    rw [named,plain]
    rfl
  have completing : completes c (.str "new_tx") = false := by
    unfold completes
    cases c.peer.isInitiator <;> decide
  have heard : hearStatus (.str "new_tx") (.obj []) c = .ok c := rfl
  have session : (Json.str "new_tx").equal (.str "session_key") = false := by decide
  have unsealed : (Json.str "new_tx").equal (.str "encrypted") = false := by decide
  have welcome : plainRequest.banned = false := rfl
  have allowed : plainRequest.rateAllowed = true := rfl
  have received : plainRequest.received = .value (.obj [("type",.str "new_tx"),("data",.obj [])]) := rfl
  have type : Message.get [("type",.str "new_tx"),("data",.obj [])] "type" (.str "") = .str "new_tx" := rfl
  have data : Message.get [("type",.str "new_tx"),("data",.obj [])] "data" (.obj []) = .obj [] := rfl
  have message : onMessage sealedNode plainRequest c =
      .ok (true,c.emit (.handled "new_tx" (.obj []) c.peer.protocolVersion false)) := by
    simp only [onMessage,received,fieldsOf,bind,Except.bind,type,data,named,escape,allowed,Bool.true_eq_false,
      and_false,if_false,unsealed,Bool.false_eq_true,process,heard,session,completing,welcome,gate,dispatched]
  rw [step,looping]
  simp only [message]
  rfl

theorem drainStep {n : Nat} (room : n < 100) {h : Host} (drained : Drained n h)
    (reached : Reached sealedNode (fun c input => ¬Bypasses c input) h) :
    ∃ h', Reached sealedNode (fun c input => ¬Bypasses c input) h' ∧ Drained (n + 1) h' := by
  obtain ⟨clock,dispatched,level,c,conns,looping,plain,version⟩ := drained
  obtain ⟨limited,met⟩ := plainLimited looping
  have left : (1 : Rat) ≤ p2pRateBurst - n := by
    have : ((n + 1 : Nat) : Rat) ≤ 100 := by exact_mod_cast room
    rw [Nat.cast_succ] at this
    unfold p2pRateBurst
    linarith
  have granted : check 0 h.bucket = (true,{ level := ⟨p2pRateBurst - (n + 1 : Nat),0⟩ }) := by
    rw [check,level]
    simp only [TokenBucket.take,TokenBucket.refill,sub_self,lt_irrefl,if_false,if_pos left]
    rw [Nat.cast_succ,sub_sub]
  have judged : h.judge c plainRequest = (some { level := ⟨p2pRateBurst - (n + 1 : Nat),0⟩ },plainRequest) := by
    rw [Host.judge,if_pos limited]
    rw [show plainRequest.monotonic = 0 from rfl,granted]
    rfl
  have stepped := plainStep looping plain version
  have more : dispatches (step sealedNode c plainRequest) - dispatches c = 1 := by
    rw [stepped]
    simp [dispatches,Conn.emit,List.countP_append,isHandled]
  have found : h.conns[0]? = some c := by rw [conns]; rfl
  refine ⟨_,.deliver reached 0 plainRequest found clock.le met,?_⟩
  rw [Host.deliver,judged]
  dsimp only
  rw [more,dispatched,conns]
  refine ⟨rfl,List.replicate_succ'.symm,rfl,_,rfl,?_⟩
  rw [stepped]
  exact ⟨rfl,plain,version⟩

theorem helloPlain : ¬Bypasses accepted (incoming "hello" [] []) := by
  rintro ⟨message,received,type,listed,named⟩
  cases received
  have hello : (Json.str "hello").tableKey = .ok (some type) := named
  rw [show (Json.str "hello").tableKey = .ok (some "hello") by decide] at hello
  cases hello
  exact absurd listed (by decide)

theorem drains (n : Nat) (room : n ≤ 100) :
    ∃ h, Reached sealedNode (fun c input => ¬Bypasses c input) h ∧ Drained n h := by
  induction n with
  | zero =>
    have start : Reached sealedNode (fun c input => ¬Bypasses c input) { clock := 0, conns := [accepted] } :=
      .accept (.start 0)
    have run : limits accepted (incoming "hello" [] []) = false ∧ greetedConn.phase = .loop ∧
        dispatches greetedConn - dispatches accepted = 0 ∧ greetedConn.peer.authenticated = false ∧
        greetedConn.peer.protocolVersion.less (.int 2) = .ok true := by decide +kernel
    obtain ⟨unlimited,looping,silent,plain,version⟩ := run
    obtain ⟨h,reached,conns,clock,dispatched,bucket⟩ := hearUnlimited start rfl rfl unlimited helloPlain
    rw [← greetedConn] at conns dispatched
    rw [silent] at dispatched
    refine ⟨h,reached,clock,dispatched,?_,greetedConn,conns,looping,plain,version⟩
    rw [bucket,Nat.cast_zero,sub_zero]
    rfl
  | succ n ih =>
    obtain ⟨h,reached,drained⟩ := ih (by omega)
    exact drainStep (by omega) drained reached

/- The hundred and first request finds the bucket empty and is dropped. -/
theorem burstMetered : ∃ h : Host, ∃ c, h.conns = [c] ∧ h.dispatched = List.replicate 100 0 ∧
    (h.deliver sealedNode 0 c plainRequest).dispatched = List.replicate 100 0 ∧
    RateBounded (h.deliver sealedNode 0 c plainRequest) := by
  obtain ⟨h,reached,clock,dispatched,level,c,conns,looping,plain,version⟩ := drains 100 le_rfl
  obtain ⟨limited,met⟩ := plainLimited looping
  have found : h.conns[0]? = some c := by rw [conns]; rfl
  have refused : check 0 h.bucket = (false,{ level := ⟨0,0⟩, violations := 1 }) := by
    have empty : p2pRateBurst - (100 : Nat) = 0 := by decide +kernel
    have short : ¬(1 : Rat) ≤ 0 := by decide +kernel
    rw [check,level,empty]
    simp only [TokenBucket.take,TokenBucket.refill,sub_self,lt_irrefl,if_false,if_neg short]
  have judged : h.judge c plainRequest =
      (some { level := ⟨0,0⟩, violations := 1 },{ plainRequest with rateAllowed := false, rateViolations := false }) := by
    rw [Host.judge,if_pos limited]
    rw [show plainRequest.monotonic = 0 from rfl,refused]
    rfl
  have dropped : step sealedNode c { plainRequest with rateAllowed := false, rateViolations := false } = c := by
    have metered : ∀ type ∈ (some "new_tx" : Option String), type ∉ rateExempt := by decide
    have named : (Json.str "new_tx").tableKey = .ok (some "new_tx") := by decide
    have received : plainRequest.received = .value (.obj [("type",.str "new_tx"),("data",.obj [])]) := rfl
    have type : Message.get [("type",.str "new_tx"),("data",.obj [])] "type" (.str "") = .str "new_tx" := rfl
    have message : onMessage sealedNode { plainRequest with rateAllowed := false, rateViolations := false } c =
        .ok (true,c) := by
      simp only [onMessage,received,fieldsOf,bind,Except.bind,type,named,escape]
      rw [if_pos ⟨metered,trivial⟩]
      rfl
    rw [step,looping]
    simp only [message,settle]
    rw [← looping]
  refine ⟨h,c,conns,dispatched,?_,messagesMetered sealedNode _ (.deliver reached 0 plainRequest found clock.le met)⟩
  rw [Host.deliver,judged]
  dsimp only
  rw [dropped,Nat.sub_self,dispatched]
  rfl

end Legacy

end Devnet

end QbitNetwork.Handshake.RateLimiter
