import QbitNetwork.Webhooks
import QbitNetwork.JsonLayout

/-! The life of a webhook: it is registered, delivered to and deleted while any number of deliveries are
suspended in their posts and in the pauses between them. -/
namespace QbitNetwork.Deliveries

section Model

def maxWebhooks : Nat := 100

def maxUrlLength : Nat := 2048

def maxSecretLength : Nat := 256

def maxEventsPerHook : Nat := 20

def retryDelays : List Nat := [1,5,25]

def consecutiveFailDisable : Nat := 10

def validEventTypes : List String :=
  ["Transfer","Notarize","Store","Share","Stake","Delegate","Unstake","KeyRegistered","ValidatorRegistered",
    "KeyRevoked","Slashed","BlockReward","EpochTransition","TokenIssued","TokenMinted","TokenTransferred"]

structure Hook where
  url : String
  events : List String
  secret : String
  createdAt : JsonFloat
  status : WebhookStatus
  consecutiveFailures : Nat

namespace Hook

def webhook (hook : Hook) : Webhook := ⟨hook.events,hook.status⟩

def statusText : WebhookStatus → String
  | .active => "active"
  | .failing => "failing"
  | .disabled => "disabled"
  | .deleted => "deleted"

end Hook

abbrev Hooks := OrderedDict String Hook

def safeWebhook (id : String) (hook : Hook) : Json :=
  .obj [("id",.str id),("url",.str hook.url),("events",.arr (hook.events.map Json.str)),
    ("created_at",.float hook.createdAt),("status",.str (Hook.statusText hook.status)),
    ("consecutive_failures",.int hook.consecutiveFailures)]

/- `urlparse(url).hostname`, or the text of its ValueError, and whether a host is an address of a reserved kind. -/
class Addresses where
  hostname : String → Except String String
  reserved : String → Bool

/- `hmac.new(key, message, hashlib.sha256)`. -/
class Hmac where
  sha256 : Bytes → Bytes → Bytes

section Registration
variable [Addresses]

def checkUrl : Json → Except String String
  | .str url =>
    if url = "" then .error "url must be a non-empty string"
    else if maxUrlLength < url.length then .error ("url exceeds " ++ toString maxUrlLength ++ " characters")
    else if ¬"http://".toList <+: url.toList ∧ ¬"https://".toList <+: url.toList then
      .error "url must start with http:// or https://"
    else do
      let hostname ← Addresses.hostname url
      if hostname = "" then .error "url must contain a valid hostname"
      else if hostname ∈ ["localhost","127.0.0.1","::1","[::1]","0.0.0.0","metadata.google.internal","169.254.169.254"] then
        .error "webhook url must not target localhost or metadata endpoints"
      else if Addresses.reserved hostname then
        .error "webhook url must not target private/loopback/link-local/multicast/unspecified addresses"
      else .ok url
  | _ => .error "url must be a non-empty string"

def checkEvent : Json → Except String String
  | .str event =>
    if event ∈ validEventTypes then .ok event
    else .error ("unknown event type: " ++ event ++ ". Valid types: ['BlockReward', 'Delegate', 'EpochTransition', " ++
      "'KeyRegistered', 'KeyRevoked', 'Notarize', 'Share', 'Slashed', 'Stake', 'Store', 'TokenIssued', 'TokenMinted', " ++
      "'TokenTransferred', 'Transfer', 'Unstake', 'ValidatorRegistered']")
  | _ => .error "each event must be a string"

def checkEvents : Json → Except String (List String)
  | .arr events =>
    if events.isEmpty then .error "events must be a non-empty list"
    else if maxEventsPerHook < events.length then
      .error ("max " ++ toString maxEventsPerHook ++ " events per webhook")
    else events.mapM checkEvent
  | _ => .error "events must be a non-empty list"

def checkSecret : Json → Except String String
  | .str secret =>
    if secret = "" then .error "secret must be a non-empty string"
    else if maxSecretLength < secret.length then
      .error ("secret exceeds " ++ toString maxSecretLength ++ " characters")
    else .ok secret
  | _ => .error "secret must be a non-empty string"

/- `id` is the random name and `now` the clock. -/
def register (hooks : Hooks) (url events secret : Json) (id : String) (now : JsonFloat) : Except String (Json × Hooks) := do
  let url ← checkUrl url
  let events ← checkEvents events
  let secret ← checkSecret secret
  let hook : Hook := ⟨url,events,secret,now,.active,0⟩
  if maxWebhooks ≤ hooks.rows.countP (fun row => row.2.status ≠ .deleted) then
    .error ("max " ++ toString maxWebhooks ++ " webhooks reached")
  else .ok (safeWebhook id hook,hooks.set id hook)

end Registration

def listWebhooks (hooks : Hooks) : List Json :=
  (hooks.rows.filter (fun row => row.2.status ≠ .deleted)).map (fun row => safeWebhook row.1 row.2)

def get (hooks : Hooks) (id : String) : Option Json :=
  match hooks.get? id with
  | none => none
  | some hook => if hook.status = .deleted then none else some (safeWebhook id hook)

def delete (hooks : Hooks) (id : String) : Bool × Hooks :=
  match hooks.get? id with
  | none => (false,hooks)
  | some hook => if hook.status = .deleted then (false,hooks) else (true,hooks.set id { hook with status := .deleted })

structure Request where
  payload : Bytes
  signature : String
  webhookId : String

inductive Phase where
  | created
  | posting (request : Request) (attempt : Nat)
  | waiting (request : Request) (attempt : Nat)
  | done (delivered : Bool)
  | cancelled

structure Task where
  webhookId : String
  event : Envelope
  blockIndex : Int
  phase : Phase
  posts : List (String × Request)

namespace Task

def new (delivery : Delivery) : Task := ⟨delivery.webhookId,delivery.event,delivery.blockIndex,.created,[]⟩

def cancel (task : Task) : Task :=
  match task.phase with
  | .done _ => task
  | _ => { task with phase := .cancelled }

def onLast (task : Task) : Bool :=
  match task.phase with
  | .posting _ attempt => retryDelays.length ≤ attempt + 1
  | _ => false

end Task

namespace Hook

variable [Hmac]

def request (hook : Hook) (task : Task) (timestamp : JsonFloat) : Request :=
  let payload := encode (.ofList (Json.laid Json.Layout.plain 0 (.obj
    [("event",.obj task.event.members),("block_index",.int task.blockIndex),("timestamp",.float timestamp)])))
  ⟨payload,hex (Hmac.sha256 (encode hook.secret) payload),task.webhookId⟩

def attempt (hook : Hook) (task : Task) (request : Request) (attempt : Nat) : Task :=
  if hook.status = .deleted then { task with phase := .done false }
  else { task with phase := .posting request attempt, posts := task.posts ++ [(hook.url,request)] }

def resume (hook : Hook) (task : Task) (timestamp : JsonFloat) : Task :=
  match task.phase with
  | .created => hook.attempt task (hook.request task timestamp) 0
  | .waiting request attempt => hook.attempt task request (attempt + 1)
  | _ => task

omit [Hmac]

def succeeded (hook : Hook) : Hook := { hook with
  consecutiveFailures := 0
  status := if hook.status = .failing then .active else hook.status }

def exhausted (hook : Hook) : Hook := { hook with
  consecutiveFailures := hook.consecutiveFailures + 1
  status :=
    if consecutiveFailDisable ≤ hook.consecutiveFailures + 1 then .disabled
    else if hook.status = .active then .failing else hook.status }

end Hook

inductive Outcome where
  | answered (status : Int)
  | failed
  | blocked

def Outcome.good : Outcome → Bool
  | .answered status => 200 ≤ status ∧ status < 300
  | _ => false

def settle (hook : Hook) (task : Task) (request : Request) (attempt : Nat) (outcome : Outcome) : Hook × Task :=
  if outcome.good then (hook.succeeded,{ task with phase := .done true })
  else match outcome with
  | .blocked => (hook,{ task with phase := .done false })
  | _ =>
    if attempt + 1 < retryDelays.length then (hook,{ task with phase := .waiting request attempt })
    else (hook.exhausted,{ task with phase := .done false })

structure World where
  hooks : Hooks := .empty
  tasks : List Task := []

variable [Addresses] [Hmac]

inductive Step : World → World → Prop where
  | register {w : World} {hooks : Hooks} {url events secret answer : Json} {id : String} {now : JsonFloat}
      (fresh : w.hooks.get? id = none) (made : register w.hooks url events secret id now = .ok (answer,hooks)) :
      Step w { w with hooks := hooks }
  | delete {w : World} (id : String) : Step w { w with hooks := (delete w.hooks id).2 }
  | deliver {w : World} (events : List Envelope) (blockIndex : Int) :
      Step w { w with tasks := w.tasks ++ (deliver (w.hooks.mapValues Hook.webhook) events blockIndex).map Task.new }
  | resume {w : World} {before after : List Task} {task : Task} {hook : Hook} (timestamp : JsonFloat)
      (runs : w.tasks = before ++ task :: after) (known : w.hooks.get? task.webhookId = some hook) :
      Step w { w with tasks := before ++ hook.resume task timestamp :: after }
  | settle {w : World} {before after : List Task} {task : Task} {hook : Hook} {request : Request} {attempt : Nat}
      (outcome : Outcome) (runs : w.tasks = before ++ task :: after) (posts : task.phase = .posting request attempt)
      (known : w.hooks.get? task.webhookId = some hook) :
      Step w {
        hooks := w.hooks.set task.webhookId (settle hook task request attempt outcome).1
        tasks := before ++ (settle hook task request attempt outcome).2 :: after }
  | stop {w : World} : Step w { w with tasks := w.tasks.map Task.cancel }

abbrev Reached (w : World) : Prop := Relation.ReflTransGen Step {} w

end Model

section Laws

structure Hook.Checked [Addresses] (hook : Hook) : Prop where
  url : checkUrl (.str hook.url) = .ok hook.url
  count : 0 < hook.events.length ∧ hook.events.length ≤ maxEventsPerHook
  types : ∀ event ∈ hook.events, event ∈ validEventTypes
  secret : hook.secret ≠ "" ∧ hook.secret.length ≤ maxSecretLength

structure Hook.Sound [Addresses] (hook : Hook) : Prop extends hook.Checked where
  active : hook.status = .active → hook.consecutiveFailures = 0
  failing : hook.status = .failing → 0 < hook.consecutiveFailures ∧ hook.consecutiveFailures < consecutiveFailDisable

def Hook.identity (hook : Hook) : String × List String × String := (hook.url,hook.events,hook.secret)

def live (hooks : Hooks) : Nat := hooks.rows.countP (fun row => row.2.webhook.isLive)

section Tables
variable {hooks : Hooks} {id : String} {hook hook' : Hook}

theorem liveSet (known : hooks.get? id = some hook) (stays : hook'.webhook.isLive → hook.webhook.isLive) :
    live (hooks.set id hook') ≤ live hooks := by
  have found : hooks.contains id = true := by rw [OrderedDict.containsGet,known]; rfl
  simp only [live,OrderedDict.set,if_pos found,List.countP_map]
  refine List.countP_mono_left (fun row inside receives => ?_)
  rw [Function.comp_apply] at receives
  split at receives
  · rename_i same
    subst same
    have here : hook = row.2 := OrderedDict.rowUnique hooks ((OrderedDict.getIff ..).mp known) inside
    exact decide_eq_true (here ▸ stays (of_decide_eq_true receives))
  · exact receives

theorem liveFresh (fresh : hooks.get? id = none) (hook : Hook) : live (hooks.set id hook) ≤ live hooks + 1 := by
  have new : hooks.contains id = false := by rw [OrderedDict.containsGet,fresh]; rfl
  simp only [live,OrderedDict.set,new,Bool.false_eq_true,if_false,List.countP_append]
  exact Nat.add_le_add_left List.countP_le_length _

theorem liveListed (hooks : Hooks) : live hooks ≤ hooks.rows.countP (fun row => row.2.status ≠ .deleted) := by
  refine List.countP_mono_left (fun row _ receives => decide_eq_true (fun deleted => ?_))
  rcases of_decide_eq_true receives with active | failing
  · cases active.symm.trans deleted
  · cases failing.symm.trans deleted

end Tables

section Registers
variable [Addresses] {hooks hooks' : Hooks} {url events secret answer : Json} {id : String} {now : JsonFloat}

omit [Addresses] in
theorem checkEventsValid {items : Json} {names : List String} (run : checkEvents items = .ok names) :
    (0 < names.length ∧ names.length ≤ maxEventsPerHook) ∧ ∀ event ∈ names, event ∈ validEventTypes := by
  unfold checkEvents at run
  split at run
  · rename_i events
    split at run
    · cases run
    · rename_i some
      split at run
      · cases run
      · rename_i few
        obtain ⟨length,origin⟩ := Outcome.mapMReturns run
        refine ⟨⟨?_,by omega⟩,fun event inside => ?_⟩
        · rw [length]
          exact List.length_pos_iff.mpr (fun none => some (by rw [none]; rfl))
        · obtain ⟨item,-,checked⟩ := origin event inside
          unfold checkEvent at checked
          split at checked
          · split at checked
            · rename_i valid
              cases checked
              exact valid
            · cases checked
          · cases checked
  · cases run

theorem checkUrlValid {item : Json} {url : String} (run : checkUrl item = .ok url) : checkUrl (.str url) = .ok url := by
  cases item with
  | str text =>
    have same : text = url := by
      simp only [checkUrl] at run
      split at run
      · cases run
      split at run
      · cases run
      split at run
      · cases run
      obtain ⟨hostname,-,run⟩ := (Outcome.bindOk ..).mp run
      split at run
      · cases run
      split at run
      · cases run
      split at run
      · cases run
      · exact Except.ok.inj run
    exact same ▸ run
  | _ => cases run

omit [Addresses] in
theorem checkSecretValid {item : Json} {secret : String} (run : checkSecret item = .ok secret) :
    secret ≠ "" ∧ secret.length ≤ maxSecretLength := by
  unfold checkSecret at run
  split at run
  · split at run
    · cases run
    · rename_i some
      split at run
      · cases run
      · rename_i short
        cases run
        exact ⟨some,Nat.le_of_not_lt short⟩
  · cases run

theorem registerAdds (made : register hooks url events secret id now = .ok (answer,hooks')) : ∃ hook : Hook,
    hook.status = .active ∧ hook.consecutiveFailures = 0 ∧ hook.Checked ∧ hooks' = hooks.set id hook ∧
      live hooks < maxWebhooks := by
  unfold register at made
  obtain ⟨url,checkedUrl,made⟩ := (Outcome.bindOk ..).mp made
  obtain ⟨events,checkedEvents,made⟩ := (Outcome.bindOk ..).mp made
  obtain ⟨secret,checkedSecret,made⟩ := (Outcome.bindOk ..).mp made
  dsimp only at made
  split at made
  · cases made
  · rename_i room
    cases made
    obtain ⟨count,types⟩ := checkEventsValid checkedEvents
    exact ⟨_,rfl,rfl,⟨checkUrlValid checkedUrl,count,types,checkSecretValid checkedSecret⟩,rfl,
      Nat.lt_of_le_of_lt (liveListed hooks) (Nat.lt_of_not_le room)⟩

end Registers

theorem deliverStarts {hooks : OrderedDict String Webhook} {events : List Envelope} {blockIndex : Int} {delivery : Delivery}
    (starts : delivery ∈ deliver hooks events blockIndex) : ∃ hook, hooks.get? delivery.webhookId = some hook ∧
      hook.isLive ∧ delivery.event.kind ∈ hook.events := by
  unfold deliver at starts
  split at starts
  · cases starts
  · obtain ⟨row,listed,starts⟩ := List.mem_flatMap.mp starts
    split at starts
    · rename_i receives
      obtain ⟨event,matching,rfl⟩ := List.mem_map.mp starts
      exact ⟨row.2,(OrderedDict.getIff ..).mpr listed,receives,of_decide_eq_true (List.mem_filter.mp matching).2⟩
    · cases starts

section Hooks
variable {hook : Hook}

theorem succeededSound [Addresses] (sound : hook.Sound) : hook.succeeded.Sound where
  toChecked := ⟨sound.url,sound.count,sound.types,sound.secret⟩
  active _ := rfl
  failing status := by
    simp only [Hook.succeeded] at status
    split at status
    · cases status
    · rename_i other
      exact absurd status other

theorem exhaustedSound [Addresses] (sound : hook.Sound) : hook.exhausted.Sound where
  toChecked := ⟨sound.url,sound.count,sound.types,sound.secret⟩
  active status := by
    simp only [Hook.exhausted] at status
    split at status
    · cases status
    · split at status
      · cases status
      · rename_i other
        exact absurd status other
  failing status := by
    simp only [Hook.exhausted] at status ⊢
    split at status
    · cases status
    · rename_i few
      omega

theorem succeededLive (receives : hook.succeeded.webhook.isLive) : hook.webhook.isLive := by
  unfold Hook.succeeded Hook.webhook Webhook.isLive at receives
  unfold Hook.webhook Webhook.isLive
  dsimp only at receives ⊢
  split at receives
  · rename_i failing
    exact .inr failing
  · exact receives

theorem exhaustedLive (receives : hook.exhausted.webhook.isLive) : hook.webhook.isLive := by
  unfold Hook.exhausted Hook.webhook Webhook.isLive at receives
  unfold Hook.webhook Webhook.isLive
  dsimp only at receives ⊢
  split at receives
  · rcases receives with status | status <;> cases status
  · split at receives
    · rename_i active
      exact .inl active
    · exact receives

end Hooks

section Identities

theorem resumeId [Hmac] (hook : Hook) (task : Task) (timestamp : JsonFloat) :
    (hook.resume task timestamp).webhookId = task.webhookId := by
  unfold Hook.resume
  split
  · unfold Hook.attempt
    split <;> rfl
  · unfold Hook.attempt
    split <;> rfl
  · rfl

theorem settleId (hook : Hook) (task : Task) (request : Request) (attempt : Nat) (outcome : Outcome) :
    (settle hook task request attempt outcome).2.webhookId = task.webhookId := by
  unfold settle
  split
  · rfl
  · split
    · rfl
    · split <;> rfl

theorem cancelId (task : Task) : task.cancel.webhookId = task.webhookId := by
  unfold Task.cancel
  split <;> rfl

end Identities

section Tasks
variable [Hmac] {hook hook' : Hook} {task : Task}

def Task.Posted (hook : Hook) (task : Task) (timestamp : JsonFloat) : Prop :=
  match task.phase with
  | .created => task.posts = []
  | .posting request attempt => attempt < retryDelays.length ∧ request = hook.request task timestamp ∧
      task.posts = List.replicate (attempt + 1) (hook.url,request)
  | .waiting request attempt => attempt + 1 < retryDelays.length ∧ request = hook.request task timestamp ∧
      task.posts = List.replicate (attempt + 1) (hook.url,request)
  | .done delivered => ∃ n ≤ retryDelays.length, task.posts = List.replicate n (hook.url,hook.request task timestamp) ∧
      (delivered = true → 0 < n)
  | .cancelled => ∃ n ≤ retryDelays.length, task.posts = List.replicate n (hook.url,hook.request task timestamp)

structure Task.Follows (hook : Hook) (task : Task) : Prop where
  subscribed : task.event.kind ∈ hook.events
  posted : ∃ timestamp, task.Posted hook timestamp

theorem postsAlike {timestamp : JsonFloat} (posted : task.Posted hook timestamp) : ∃ n ≤ retryDelays.length,
    task.posts = List.replicate n (hook.url,hook.request task timestamp) ∧ (task.phase = .done true → 0 < n) := by
  unfold Task.Posted at posted
  split at posted
  · rename_i phase
    exact ⟨0,Nat.zero_le _,posted,fun ended => by rw [phase] at ended; cases ended⟩
  · rename_i request attempt phase
    obtain ⟨few,rfl,posts⟩ := posted
    exact ⟨attempt + 1,few,posts,fun _ => Nat.succ_pos _⟩
  · rename_i request attempt phase
    obtain ⟨few,rfl,posts⟩ := posted
    exact ⟨attempt + 1,Nat.le_of_lt few,posts,fun _ => Nat.succ_pos _⟩
  · rename_i delivered phase
    obtain ⟨n,few,posts,some⟩ := posted
    refine ⟨n,few,posts,fun ended => some ?_⟩
    rw [phase] at ended
    exact Phase.done.inj ended
  · rename_i phase
    obtain ⟨n,few,posts⟩ := posted
    exact ⟨n,few,posts,fun ended => by rw [phase] at ended; cases ended⟩

theorem followsSame (same : hook'.identity = hook.identity) (follows : task.Follows hook) : task.Follows hook' := by
  obtain ⟨url,events,secret⟩ : hook'.url = hook.url ∧ hook'.events = hook.events ∧ hook'.secret = hook.secret := by
    simpa [Hook.identity] using same
  have alike : ∀ timestamp, hook'.request task timestamp = hook.request task timestamp := by
    intro timestamp
    simp only [Hook.request,secret]
  obtain ⟨subscribed,timestamp,posted⟩ := follows
  refine ⟨events ▸ subscribed,timestamp,?_⟩
  unfold Task.Posted at posted ⊢
  rw [alike,url]
  exact posted

theorem followsAttempt {timestamp : JsonFloat} {attempt : Nat} (subscribed : task.event.kind ∈ hook.events)
    (few : attempt < retryDelays.length) (posts : task.posts = List.replicate attempt (hook.url,hook.request task timestamp)) :
    (hook.attempt task (hook.request task timestamp) attempt).Follows hook := by
  unfold Hook.attempt
  split
  · exact ⟨subscribed,timestamp,attempt,Nat.le_of_lt few,posts,fun never => absurd never (by decide)⟩
  · refine ⟨subscribed,timestamp,few,rfl,?_⟩
    rw [posts,List.replicate_succ']

theorem followsResume (follows : task.Follows hook) (timestamp : JsonFloat) : (hook.resume task timestamp).Follows hook := by
  obtain ⟨subscribed,begun,posted⟩ := follows
  unfold Task.Posted at posted
  unfold Hook.resume
  split
  · rename_i phase
    rw [phase] at posted
    exact followsAttempt subscribed (by decide) posted
  · rename_i request attempt phase
    rw [phase] at posted
    obtain ⟨few,rfl,posts⟩ := posted
    exact followsAttempt subscribed few posts
  · exact ⟨subscribed,begun,posted⟩

theorem followsSettle {request : Request} {attempt : Nat} (follows : task.Follows hook)
    (posts : task.phase = .posting request attempt) (outcome : Outcome) :
    (settle hook task request attempt outcome).2.Follows hook := by
  obtain ⟨subscribed,timestamp,posted⟩ := follows
  unfold Task.Posted at posted
  rw [posts] at posted
  obtain ⟨few,rfl,made⟩ := posted
  unfold settle
  split
  · exact ⟨subscribed,timestamp,attempt + 1,few,made,fun _ => Nat.succ_pos _⟩
  · split
    · exact ⟨subscribed,timestamp,attempt + 1,few,made,fun _ => Nat.succ_pos _⟩
    · split
      · rename_i more
        exact ⟨subscribed,timestamp,more,rfl,made⟩
      · exact ⟨subscribed,timestamp,attempt + 1,few,made,fun _ => Nat.succ_pos _⟩

theorem followsCancel (follows : task.Follows hook) : task.cancel.Follows hook := by
  obtain ⟨subscribed,timestamp,posted⟩ := follows
  unfold Task.cancel
  split
  · exact ⟨subscribed,timestamp,posted⟩
  · obtain ⟨n,few,posts,-⟩ := postsAlike posted
    exact ⟨subscribed,timestamp,n,few,posts⟩

end Tasks

section Settling
variable {hook : Hook}

theorem settleIdentity (hook : Hook) (task : Task) (request : Request) (attempt : Nat) (outcome : Outcome) :
    (settle hook task request attempt outcome).1.identity = hook.identity := by
  unfold settle
  split
  · rfl
  · split
    · rfl
    · split <;> rfl

theorem settleSound [Addresses] (sound : hook.Sound) (task : Task) (request : Request) (attempt : Nat) (outcome : Outcome) :
    (settle hook task request attempt outcome).1.Sound := by
  unfold settle
  split
  · exact succeededSound sound
  · split
    · exact sound
    · split
      · exact sound
      · exact exhaustedSound sound

theorem settleLive {task : Task} {request : Request} {attempt : Nat} {outcome : Outcome}
    (receives : (settle hook task request attempt outcome).1.webhook.isLive) : hook.webhook.isLive := by
  unfold settle at receives
  split at receives
  · exact succeededLive receives
  · split at receives
    · exact receives
    · split at receives
      · exact receives
      · exact exhaustedLive receives

end Settling

section Worlds
variable [Addresses] [Hmac] {w w' : World}

structure Coherent (w : World) : Prop where
  sound : ∀ id hook, w.hooks.get? id = some hook → hook.Sound
  capped : live w.hooks ≤ maxWebhooks
  follows : ∀ task ∈ w.tasks, ∃ hook, w.hooks.get? task.webhookId = some hook ∧ task.Follows hook

theorem coherentSet (coherent : Coherent w) {id : String} {hook hook' : Hook} (known : w.hooks.get? id = some hook)
    (sound : hook'.Sound) (same : hook'.identity = hook.identity) (stays : hook'.webhook.isLive → hook.webhook.isLive) :
    Coherent { w with hooks := w.hooks.set id hook' } where
  sound a h found := by
    rw [OrderedDict.getSet] at found
    split at found
    · cases found
      exact sound
    · exact coherent.sound a h found
  capped := (liveSet known stays).trans coherent.capped
  follows task listed := by
    obtain ⟨h,found,follows⟩ := coherent.follows task listed
    by_cases here : task.webhookId = id
    · rw [here,known] at found
      cases found
      exact ⟨hook',by rw [OrderedDict.getSet,if_pos here],followsSame same follows⟩
    · exact ⟨h,by rw [OrderedDict.getSet,if_neg here]; exact found,follows⟩

theorem coherentTask (coherent : Coherent w) {before after : List Task} {task task' : Task} {hook : Hook}
    (runs : w.tasks = before ++ task :: after) (known : w.hooks.get? task'.webhookId = some hook)
    (follows : task'.Follows hook) : Coherent { w with tasks := before ++ task' :: after } where
  sound := coherent.sound
  capped := coherent.capped
  follows other listed := by
    have others : ∀ t ∈ before ++ after, t ∈ w.tasks := by
      intro t inside
      rw [runs]
      rcases List.mem_append.mp inside with first | last
      · exact List.mem_append_left _ first
      · exact List.mem_append_right _ (List.mem_cons_of_mem _ last)
    rcases List.mem_append.mp listed with first | last
    · exact coherent.follows other (others other (List.mem_append_left _ first))
    · rcases List.mem_cons.mp last with rfl | last
      · exact ⟨hook,known,follows⟩
      · exact coherent.follows other (others other (List.mem_append_right _ last))

theorem stepCoherent (coherent : Coherent w) (step : Step w w') : Coherent w' := by
  cases step with
  | @register hooks url events secret answer id now fresh made =>
    obtain ⟨hook,active,failures,checked,rfl,room⟩ := registerAdds made
    refine ⟨fun a h found => ?_,(liveFresh fresh hook).trans room,fun task listed => ?_⟩
    · rw [OrderedDict.getSet] at found
      split at found
      · cases found
        exact ⟨checked,fun _ => failures,fun failing => absurd (active.symm.trans failing) (by decide)⟩
      · exact coherent.sound a h found
    · obtain ⟨h,found,follows⟩ := coherent.follows task listed
      refine ⟨h,?_,follows⟩
      rw [OrderedDict.getSet,if_neg (fun here => ?_)]
      · exact found
      · rw [here,fresh] at found
        cases found
  | delete id =>
    unfold delete
    split
    · exact coherent
    · rename_i hook known
      split
      · exact coherent
      · have sound := coherent.sound id hook known
        refine coherentSet coherent known ⟨⟨sound.url,sound.count,sound.types,sound.secret⟩,?_,?_⟩ rfl ?_
        · intro active
          cases active
        · intro failing
          cases failing
        · rintro (active | failing)
          · cases active
          · cases failing
  | deliver events blockIndex =>
    refine ⟨coherent.sound,coherent.capped,fun task listed => ?_⟩
    rcases List.mem_append.mp listed with before | starts
    · exact coherent.follows task before
    · obtain ⟨delivery,started,rfl⟩ := List.mem_map.mp starts
      obtain ⟨webhook,found,-,subscribed⟩ := deliverStarts started
      rw [OrderedDict.getMapValues,Option.map_eq_some_iff] at found
      obtain ⟨hook,known,rfl⟩ := found
      exact ⟨hook,known,subscribed,hook.createdAt,rfl⟩
  | @resume before after task hook timestamp runs known =>
    obtain ⟨h,found,follows⟩ := coherent.follows task (by rw [runs]; exact List.mem_append_right _ List.mem_cons_self)
    rw [known] at found
    cases found
    have here : (hook.resume task timestamp).webhookId = task.webhookId := resumeId hook task timestamp
    exact coherentTask coherent runs (here ▸ known) (followsResume follows timestamp)
  | @settle before after task hook request attempt outcome runs posts known =>
    obtain ⟨h,found,follows⟩ := coherent.follows task (by rw [runs]; exact List.mem_append_right _ List.mem_cons_self)
    rw [known] at found
    cases found
    have sound := coherent.sound _ hook known
    have here := settleId hook task request attempt outcome
    have same := settleIdentity hook task request attempt outcome
    have changed := coherentSet coherent known (settleSound sound task request attempt outcome) same settleLive
    refine coherentTask changed runs ?_ (followsSame same (followsSettle follows posts outcome))
    rw [OrderedDict.getSet,if_pos here]
  | stop =>
    refine ⟨coherent.sound,coherent.capped,fun task listed => ?_⟩
    obtain ⟨before,inside,rfl⟩ := List.mem_map.mp listed
    obtain ⟨hook,known,follows⟩ := coherent.follows before inside
    have here : before.cancel.webhookId = before.webhookId := cancelId before
    exact ⟨hook,here ▸ known,followsCancel follows⟩

theorem reachedCoherent (reached : Reached w) : Coherent w := by
  induction reached with
  | refl => exact ⟨fun _ _ found => absurd found (by simp [OrderedDict.get?,OrderedDict.empty]),Nat.zero_le _,fun _ listed => absurd listed List.not_mem_nil⟩
  | tail _ step ih => exact stepCoherent ih step

theorem hooksCoherent (reached : Reached w) : (∀ id hook, w.hooks.get? id = some hook → hook.Sound) ∧
    live w.hooks ≤ maxWebhooks ∧ ∀ task ∈ w.tasks, ∃ hook, w.hooks.get? task.webhookId = some hook ∧
      task.event.kind ∈ hook.events := by
  obtain ⟨sound,capped,follows⟩ := reachedCoherent reached
  refine ⟨sound,capped,fun task listed => ?_⟩
  obtain ⟨hook,known,follows⟩ := follows task listed
  exact ⟨hook,known,follows.subscribed⟩

theorem attemptsAlike (reached : Reached w) {task : Task} (listed : task ∈ w.tasks) : ∃ hook timestamp n,
    w.hooks.get? task.webhookId = some hook ∧ n ≤ retryDelays.length ∧
      task.posts = List.replicate n (hook.url,hook.request task timestamp) ∧ (task.phase = .done true → 0 < n) := by
  obtain ⟨hook,known,-,timestamp,posted⟩ := (reachedCoherent reached).follows task listed
  obtain ⟨n,few,posts,some⟩ := postsAlike posted
  exact ⟨hook,timestamp,n,known,few,posts,some⟩

end Worlds

section Lasts

theorem resumeLast [Hmac] {hook : Hook} {task : Task} {timestamp : JsonFloat} (deleted : hook.status = .deleted)
    (last : (hook.resume task timestamp).onLast = true) : task.onLast = true := by
  unfold Hook.resume at last
  split at last
  · rw [Hook.attempt,if_pos deleted] at last
    cases last
  · rw [Hook.attempt,if_pos deleted] at last
    cases last
  · exact last

theorem settleLast (hook : Hook) (task : Task) (request : Request) (attempt : Nat) (outcome : Outcome) :
    (settle hook task request attempt outcome).2.onLast = false := by
  unfold settle
  split
  · rfl
  · split
    · rfl
    · split <;> rfl

theorem cancelLast (task : Task) : task.cancel.onLast = false := by
  unfold Task.cancel
  split
  · rename_i delivered phase
    rw [Task.onLast,phase]
  · rfl

theorem settleDeleted {hook : Hook} {task : Task} {request : Request} {attempt : Nat} (deleted : hook.status = .deleted)
    (posts : task.phase = .posting request attempt) (outcome : Outcome) :
    ((settle hook task request attempt outcome).1.status = .deleted ∧
      (settle hook task request attempt outcome).1.consecutiveFailures ≤ hook.consecutiveFailures) ∨
    task.onLast = true ∧ (settle hook task request attempt outcome).1.consecutiveFailures = hook.consecutiveFailures + 1 ∧
      (hook.consecutiveFailures + 1 < consecutiveFailDisable →
        (settle hook task request attempt outcome).1.status = .deleted) := by
  unfold settle
  split
  · refine .inl ⟨?_,Nat.zero_le _⟩
    simp [Hook.succeeded,deleted]
  · split
    · exact .inl ⟨deleted,Nat.le_refl _⟩
    · split
      · exact .inl ⟨deleted,Nat.le_refl _⟩
      · rename_i beyond
        refine .inr ⟨?_,rfl,fun few => ?_⟩
        · rw [Task.onLast,posts]
          exact decide_eq_true (Nat.le_of_not_lt beyond)
        · simp [Hook.exhausted,deleted,Nat.not_le.mpr few]

end Lasts

section Dropped
variable {w w' : World} {id : String} {hook : Hook} {before after : List Task} {task task' : Task}

def started (tasks : List Task) (id : String) : Nat := tasks.countP (fun task => task.webhookId = id)

def lasts (tasks : List Task) (id : String) : Nat := tasks.countP (fun task => task.webhookId = id ∧ task.onLast = true)

theorem startedReplaced (same : task'.webhookId = task.webhookId) (id : String) :
    started (before ++ task' :: after) id = started (before ++ task :: after) id := by
  simp only [started,List.countP_append,List.countP_cons,same]

theorem lastsReplaced (id : String) : lasts (before ++ task' :: after) id +
      (if task.webhookId = id ∧ task.onLast = true then 1 else 0) =
    lasts (before ++ task :: after) id + (if task'.webhookId = id ∧ task'.onLast = true then 1 else 0) := by
  simp only [lasts,List.countP_append,List.countP_cons,decide_eq_true_eq]
  omega

theorem lastsLeft (left : task'.onLast = false) (id : String) : lasts (before ++ task' :: after) id +
    (if task.webhookId = id ∧ task.onLast = true then 1 else 0) = lasts (before ++ task :: after) id := by
  rw [lastsReplaced,left]
  simp

def Dropped (id : String) (n : Nat) (w : World) : Prop :=
  (∃ hook, w.hooks.get? id = some hook ∧ ¬hook.webhook.isLive) ∧ started w.tasks id = n

def Buried (id : String) (w : World) : Prop := ∃ hook, w.hooks.get? id = some hook ∧ hook.status = .deleted ∧
  (lasts w.tasks id = 0 ∨ hook.consecutiveFailures + lasts w.tasks id < consecutiveFailDisable)

theorem deletedQuiet (deleted : hook.status = .deleted) : ¬hook.webhook.isLive := by
  rintro (active | failing)
  · cases deleted.symm.trans active
  · cases deleted.symm.trans failing

theorem getDelete {hooks : Hooks} (known : hooks.get? id = some hook) (other : String) :
    ∃ hook', (delete hooks other).2.get? id = some hook' ∧ (hook' = hook ∨ hook' = { hook with status := .deleted }) := by
  unfold delete
  split
  · exact ⟨hook,known,.inl rfl⟩
  · rename_i h found
    split
    · exact ⟨hook,known,.inl rfl⟩
    · by_cases here : id = other
      · rw [← here,known] at found
        cases found
        exact ⟨_,by rw [OrderedDict.getSet,if_pos here],.inr rfl⟩
      · exact ⟨hook,by rw [OrderedDict.getSet,if_neg here]; exact known,.inl rfl⟩

theorem keptFresh {hooks : Hooks} (known : hooks.get? id = some hook) {other : String} (fresh : hooks.get? other = none)
    (new : Hook) : (hooks.set other new).get? id = some hook := by
  rw [OrderedDict.getSet,if_neg (fun here => ?_)]
  · exact known
  · rw [← here,known] at fresh
    cases fresh

variable [Addresses] [Hmac]

theorem stepDropped {n : Nat} (dropped : Dropped id n w) (step : Step w w') : Dropped id n w' := by
  obtain ⟨⟨hook,known,quiet⟩,number⟩ := dropped
  cases step with
  | @register hooks url events secret answer other now fresh made =>
    obtain ⟨new,-,-,-,rfl,-⟩ := registerAdds made
    exact ⟨⟨hook,keptFresh known fresh new,quiet⟩,number⟩
  | delete other =>
    obtain ⟨hook',found,rfl | rfl⟩ := getDelete known other
    · exact ⟨⟨_,found,quiet⟩,number⟩
    · exact ⟨⟨_,found,deletedQuiet rfl⟩,number⟩
  | deliver events blockIndex =>
    refine ⟨⟨hook,known,quiet⟩,?_⟩
    have none : started ((deliver (w.hooks.mapValues Hook.webhook) events blockIndex).map Task.new) id = 0 := by
      refine List.countP_eq_zero.mpr (fun task inside here => ?_)
      obtain ⟨delivery,starts,rfl⟩ := List.mem_map.mp inside
      obtain ⟨webhook,found,receives,-⟩ := deliverStarts starts
      have same : delivery.webhookId = id := of_decide_eq_true here
      rw [same,OrderedDict.getMapValues,known] at found
      cases found
      exact quiet receives
    rw [started] at none
    rw [started,List.countP_append,none]
    exact number
  | @resume before after task h timestamp runs found =>
    refine ⟨⟨hook,known,quiet⟩,?_⟩
    rw [runs] at number
    exact (startedReplaced (resumeId h task timestamp) id).trans number
  | @settle before after task h request attempt outcome runs posts found =>
    rw [runs] at number
    refine ⟨?_,(startedReplaced (settleId h task request attempt outcome) id).trans number⟩
    by_cases here : id = task.webhookId
    · rw [← here,known] at found
      cases found
      exact ⟨_,by rw [OrderedDict.getSet,if_pos here],fun receives => quiet (settleLive receives)⟩
    · exact ⟨hook,by rw [OrderedDict.getSet,if_neg here]; exact known,quiet⟩
  | stop =>
    refine ⟨⟨hook,known,quiet⟩,?_⟩
    rw [started,List.countP_map]
    simp only [Function.comp_def,cancelId]
    exact number

theorem stepBuried (buried : Buried id w) (step : Step w w') : Buried id w' := by
  obtain ⟨hook,known,deleted,few⟩ := buried
  cases step with
  | @register hooks url events secret answer other now fresh made =>
    obtain ⟨new,-,-,-,rfl,-⟩ := registerAdds made
    exact ⟨hook,keptFresh known fresh new,deleted,few⟩
  | delete other =>
    obtain ⟨hook',found,rfl | rfl⟩ := getDelete known other
    · exact ⟨_,found,deleted,few⟩
    · exact ⟨_,found,rfl,few⟩
  | deliver events blockIndex =>
    refine ⟨hook,known,deleted,?_⟩
    have none : lasts ((deliver (w.hooks.mapValues Hook.webhook) events blockIndex).map Task.new) id = 0 := by
      refine List.countP_eq_zero.mpr (fun task inside here => ?_)
      obtain ⟨delivery,-,rfl⟩ := List.mem_map.mp inside
      cases (of_decide_eq_true here).2
    rw [lasts] at none few
    rw [lasts,List.countP_append,none]
    exact few
  | @resume before after task h timestamp runs found =>
    refine ⟨hook,known,deleted,?_⟩
    have moved := @lastsReplaced before after task (h.resume task timestamp) id
    have less : (h.resume task timestamp).webhookId = id ∧ (h.resume task timestamp).onLast = true →
        task.webhookId = id ∧ task.onLast = true := by
      rw [resumeId]
      rintro ⟨here,last⟩
      rw [here,known] at found
      cases found
      exact ⟨here,resumeLast deleted last⟩
    rw [runs] at few
    dsimp only
    split at moved
    · split at moved <;> omega
    · rename_i never
      rw [if_neg (fun now => never (less now))] at moved
      omega
  | @settle before after task h request attempt outcome runs posts found =>
    have moved := @lastsLeft before after task _ (settleLast h task request attempt outcome) id
    rw [runs] at few
    by_cases here : task.webhookId = id
    · rw [here,known] at found
      cases found
      rcases settleDeleted deleted posts outcome with ⟨still,fewer⟩ | ⟨last,more,still⟩
      · refine ⟨_,by rw [here,OrderedDict.getSet,if_pos rfl],still,?_⟩
        dsimp only
        split at moved <;> omega
      · rw [if_pos ⟨here,last⟩] at moved
        refine ⟨_,by rw [here,OrderedDict.getSet,if_pos rfl],still (by omega),?_⟩
        dsimp only
        omega
    · refine ⟨hook,by rw [OrderedDict.getSet,if_neg (Ne.symm here)]; exact known,deleted,?_⟩
      rw [if_neg (fun both => here both.1),Nat.add_zero] at moved
      dsimp only
      rwa [moved]
  | stop =>
    refine ⟨hook,known,deleted,.inl ?_⟩
    refine List.countP_eq_zero.mpr (fun task inside here => ?_)
    obtain ⟨before,-,rfl⟩ := List.mem_map.mp inside
    have last := (of_decide_eq_true here).2
    rw [cancelLast] at last
    cases last

theorem runDropped {n : Nat} (dropped : Dropped id n w) (run : Relation.ReflTransGen Step w w') : Dropped id n w' := by
  induction run with
  | refl => exact dropped
  | tail _ step ih => exact stepDropped ih step

theorem runBuried (buried : Buried id w) (run : Relation.ReflTransGen Step w w') : Buried id w' := by
  induction run with
  | refl => exact buried
  | tail _ step ih => exact stepBuried ih step

theorem returnsFailing {n : Nat} : ∀ {w : World} {hook : Hook}, w.hooks.get? id = some hook → hook.status = .deleted →
    lasts w.tasks id = n → 0 < n → consecutiveFailDisable ≤ hook.consecutiveFailures + n →
      ∃ w', Relation.ReflTransGen Step w w' ∧ (get w'.hooks id).isSome := by
  induction n with
  | zero => exact fun _ _ _ some _ => absurd some (Nat.lt_irrefl 0)
  | succ n ih =>
    intro w hook known deleted number _ enough
    obtain ⟨task,listed,here⟩ := List.countP_pos_iff.mp (show 0 < lasts w.tasks id by omega)
    obtain ⟨here,last⟩ := of_decide_eq_true here
    obtain ⟨before,after,runs⟩ := List.append_of_mem listed
    have posting : ∃ request attempt, task.phase = .posting request attempt ∧ retryDelays.length ≤ attempt + 1 := by
      unfold Task.onLast at last
      split at last
      · rename_i request attempt phase
        exact ⟨request,attempt,phase,of_decide_eq_true last⟩
      · cases last
    obtain ⟨request,attempt,posts,beyond⟩ := posting
    have fails : settle hook task request attempt .failed = (hook.exhausted,{ task with phase := .done false }) := by
      simp [settle,Outcome.good,Nat.not_lt.mpr beyond]
    have step : Step w _ := .settle .failed runs posts (by rw [here]; exact known)
    rw [fails] at step
    have found : (w.hooks.set task.webhookId hook.exhausted).get? id = some hook.exhausted := by
      rw [OrderedDict.getSet,if_pos here.symm]
    by_cases tenth : consecutiveFailDisable ≤ hook.consecutiveFailures + 1
    · refine ⟨_,.single step,?_⟩
      have status : hook.exhausted.status = .disabled := if_pos tenth
      rw [get,found]
      simp [status]
    · have status : hook.exhausted.status = .deleted := by simp [Hook.exhausted,tenth,deleted]
      have moved := @lastsLeft before after task { task with phase := .done false } rfl id
      rw [if_pos ⟨here,last⟩,← runs,number] at moved
      have still : consecutiveFailDisable ≤ hook.exhausted.consecutiveFailures + n := by
        rw [show hook.exhausted.consecutiveFailures = hook.consecutiveFailures + 1 from rfl]
        omega
      have fewer : 0 < n := by omega
      obtain ⟨w',run,shown⟩ := ih (w := ⟨_,before ++ { task with phase := .done false } :: after⟩) found status
        (Nat.succ.inj moved) fewer still
      exact ⟨w',.head step run,shown⟩

/- However the rest goes on, a deleted webhook is delivered nothing new, and it is listed again in some run exactly
if enough of its deliveries are in their last attempt to make ten failures. -/
theorem deletedReturns (known : w.hooks.get? id = some hook) (deleted : hook.status = .deleted) :
    (∀ w', Relation.ReflTransGen Step w w' → started w'.tasks id = started w.tasks id ∧
      ∃ hook', w'.hooks.get? id = some hook' ∧ ¬hook'.webhook.isLive) ∧
    ((∃ w', Relation.ReflTransGen Step w w' ∧ (get w'.hooks id).isSome) ↔
      0 < lasts w.tasks id ∧ consecutiveFailDisable ≤ hook.consecutiveFailures + lasts w.tasks id) := by
  constructor
  · intro w' run
    obtain ⟨quiet,number⟩ := runDropped ⟨⟨hook,known,deletedQuiet deleted⟩,rfl⟩ run
    exact ⟨number,quiet⟩
  · constructor
    · rintro ⟨w',run,shown⟩
      by_contra few
      obtain ⟨hook',found,gone,-⟩ := runBuried ⟨hook,known,deleted,by omega⟩ run
      simp [get,found,gone] at shown
    · rintro ⟨some,enough⟩
      exact returnsFailing known deleted rfl some enough

end Dropped

end Laws

end QbitNetwork.Deliveries

namespace QbitNetwork.Devnet
open Deliveries (Hook Hooks World Task Step)

section Hooked

@[reducible] def openAddresses : Deliveries.Addresses where
  hostname url := .ok (.ofList ((url.toList.drop 8).takeWhile (· ≠ '/')))
  reserved _ := false

@[reducible] def keyedHash : Deliveries.Hmac := ⟨fun key message => hash (key ++ message)⟩

attribute [local instance] openAddresses keyedHash

def midnight : JsonFloat := ⟨.finite 0,"0.0",by decide⟩

def watcher : Hook := ⟨"https://example.com/hook",["Transfer"],"a secret",midnight,.active,0⟩

def watched : Hooks := OrderedDict.empty.set "a1" watcher

def paid : Envelope := ⟨"Transfer",.obj [],some "t1"⟩

def firstPost : World := ⟨watched,[watcher.resume (.new ⟨"a1",paid,5⟩) midnight]⟩

theorem reachedPosting : Deliveries.Reached firstPost := by
  have made : Deliveries.register .empty (.str watcher.url) (.arr [.str "Transfer"]) (.str watcher.secret) "a1" midnight =
      .ok (Deliveries.safeWebhook "a1" watcher,watched) := rfl
  have registered : Step {} ⟨watched,[]⟩ := .register rfl made
  have started : Step ⟨watched,[]⟩ ⟨watched,[.new ⟨"a1",paid,5⟩]⟩ := .deliver [paid] 5
  have runs : (⟨watched,[.new ⟨"a1",paid,5⟩]⟩ : World).tasks = [] ++ .new ⟨"a1",paid,5⟩ :: [] := rfl
  exact ((Relation.ReflTransGen.single registered).tail started).tail (.resume midnight runs rfl)

theorem hooksCoherentPosting : Hook.Sound watcher ∧ Deliveries.live watched ≤ Deliveries.maxWebhooks := by
  obtain ⟨sound,capped,-⟩ := Deliveries.hooksCoherent reachedPosting
  exact ⟨sound "a1" watcher rfl,capped⟩

theorem attemptsAlikePosting : ∃ timestamp, (watcher.resume (.new ⟨"a1",paid,5⟩) midnight).posts =
    [(watcher.url,watcher.request (.new ⟨"a1",paid,5⟩) timestamp)] := by
  obtain ⟨hook,timestamp,n,known,-,posts,-⟩ := Deliveries.attemptsAlike reachedPosting (List.mem_singleton.mpr rfl)
  cases Option.some.inj ((show firstPost.hooks.get? "a1" = some watcher from rfl).symm.trans known)
  have one : n = 1 := by
    have length := congrArg List.length posts
    rw [List.length_replicate] at length
    exact length.symm
  rw [one] at posts
  exact ⟨timestamp,posts⟩

def leaving : World where
  hooks := OrderedDict.empty.set "a1" { watcher with status := .deleted, consecutiveFailures := 9 }
  tasks := [{ Task.new ⟨"a1",paid,5⟩ with phase := .posting ⟨[],"","a1"⟩ 2 }]

def departed : World := ⟨OrderedDict.empty.set "a1" { watcher with status := .deleted },[]⟩

theorem deletedReturnsLeaving : (∃ w, Relation.ReflTransGen Step leaving w ∧ (Deliveries.get w.hooks "a1").isSome) ∧
    ¬∃ w, Relation.ReflTransGen Step departed w ∧ (Deliveries.get w.hooks "a1").isSome := by
  have returns := @Deliveries.deletedReturns leaving "a1" _ _ _ rfl rfl
  have stays := @Deliveries.deletedReturns departed "a1" _ _ _ rfl rfl
  exact ⟨returns.2.mpr (by decide),fun shown => absurd (stays.2.mp shown) (by decide)⟩

end Hooked

end QbitNetwork.Devnet
