import QbitNetwork.ClientSocket
import QbitNetwork.ConnectionCaps
import QbitNetwork.RpcBatch
import Mathlib.Data.List.GetD

/-! The node's WebSocket subscriptions: two tables by `id(ws)`, which the interpreter gives out again once
a connection is gone, and the sets of connections themselves, under every interleaving of connections,
messages, broadcasts and the stop of the node. -/
namespace QbitNetwork.Subscriptions
open WebSockets (maxWsConnections)

section Model

abbrev Ws := Nat

def maxSubscriptionsPerClient : Nat := 10

def wsRateLimit : Nat := 10

def validChannels : List String := ["new_block","new_tx","chain_stats","finalized"]

/- A channel without an entry has the empty set it starts with. -/
structure WebSocketManager where
  subscribers : Dict String (DSet Ws) := ∅
  clientChannels : Dict Nat (DSet String) := ∅
  allClients : DSet Ws := ∅
  clientRate : Dict Nat (List Rat) := ∅

namespace WebSocketManager

def connectedCount (m : WebSocketManager) : Nat := m.allClients.size

def subscribersOf (m : WebSocketManager) (channel : String) : DSet Ws := m.subscribers[channel]?.getD ∅

def channelsOf (m : WebSocketManager) (id : Nat) : DSet String := m.clientChannels[id]?.getD ∅

def addSubscriber (m : WebSocketManager) (ws : Ws) (id : Nat) (channel : String) : (Bool × String) × WebSocketManager :=
  if channel ∉ validChannels then ((false,"unknown channel: " ++ channel),m)
  else if channel ∈ m.channelsOf id then ((false,"already subscribed to " ++ channel),m)
  else if maxSubscriptionsPerClient ≤ (m.channelsOf id).size then
    ((false,"max subscriptions (" ++ toString maxSubscriptionsPerClient ++ ") reached"),m)
  else ((true,"subscribed to " ++ channel),
    { m with
      subscribers := m.subscribers.insert channel ((m.subscribersOf channel).insert ws)
      clientChannels := m.clientChannels.insert id ((m.channelsOf id).insert channel) })

def removeSubscriber (m : WebSocketManager) (ws : Ws) (id : Nat) (channel : String) : (Bool × String) × WebSocketManager :=
  if channel ∉ validChannels then ((false,"unknown channel: " ++ channel),m)
  else if channel ∉ m.channelsOf id then ((false,"not subscribed to " ++ channel),m)
  else ((true,"unsubscribed from " ++ channel),
    { m with
      subscribers := m.subscribers.insert channel ((m.subscribersOf channel).erase ws)
      clientChannels := m.clientChannels.insert id ((m.channelsOf id).erase channel) })

def discard (ws : Ws) (subscribers : Dict String (DSet Ws)) (channel : String) : Dict String (DSet Ws) :=
  subscribers.insert channel ((subscribers[channel]?.getD ∅).erase ws)

def removeAll (m : WebSocketManager) (ws : Ws) (id : Nat) : WebSocketManager where
  subscribers := (m.channelsOf id).toList.foldl (discard ws) m.subscribers
  clientChannels := m.clientChannels.erase id
  allClients := m.allClients.erase ws
  clientRate := m.clientRate.erase id

def checkRate (m : WebSocketManager) (id : Nat) (now : Rat) : Bool × WebSocketManager :=
  let timestamps := (m.clientRate[id]?.getD []).filter (fun t => now - 1 < t) ++ [now]
  (timestamps.length ≤ wsRateLimit,{ m with clientRate := m.clientRate.insert id timestamps })

def errorReply (message : String) : Json := .obj [("type",.str "error"),("message",.str message)]

def channelReply (type channel : String) : Json := .obj [("type",.str type),("channel",.str channel)]

variable [FloatText]

def onText (m : WebSocketManager) (ws : Ws) (id : Nat) (now : Rat) (text : String) : Json × WebSocketManager :=
  if (m.checkRate id now).1 = false then (errorReply "rate limit exceeded",(m.checkRate id now).2)
  else
    let m := (m.checkRate id now).2
    match Json.loads text with
    | none => (errorReply "invalid JSON",m)
    | some (.obj fields) =>
      match Json.lookup fields "type",Json.lookup fields "channel" with
      | some (.str "ping"),_ => (.obj [("type",.str "pong")],m)
      | some (.str "subscribe"),some (.str channel) =>
        match m.addSubscriber ws id channel with
        | ((true,_),m) => (channelReply "subscribed" channel,m)
        | ((false,message),m) => (errorReply message,m)
      | some (.str "unsubscribe"),some (.str channel) =>
        match m.removeSubscriber ws id channel with
        | ((true,_),m) => (channelReply "unsubscribed" channel,m)
        | ((false,message),m) => (errorReply message,m)
      | some (.str type),_ =>
        if type = "subscribe" ∨ type = "unsubscribe" then (errorReply "missing or invalid 'channel' field",m)
        else (errorReply ("unknown message type: " ++ type),m)
      | _,_ => (errorReply "missing or invalid 'type' field",m)
    | some _ => (errorReply "message must be a JSON object",m)

end WebSocketManager

def checkWsAuth (expected authorization : String) : Except PyExc Bool :=
  if expected = "" then .ok true
  else if ¬"Bearer ".toList <+: authorization.toList then .ok false
  else
    let token := strip (.ofList (authorization.toList.drop 7))
    if token = "" then .ok false else RPCServer.compareDigest token expected

inductive Task where
  | cast (targets pending dead : List Ws)
  | stopping (held : List Ws)

def Task.held : Task → List Ws
  | .cast targets _ _ => targets
  | .stopping held => held

/- `opening` are the connections whose handlers wait for the upgrade, `handlers` those that read messages. -/
structure World where
  authToken : String
  manager : WebSocketManager := {}
  addresses : List Nat := []
  opening : List Ws := []
  handlers : List Ws := []
  tasks : List Task := []

namespace World

/- `id(ws)`. -/
def idOf (w : World) (ws : Ws) : Nat := w.addresses.getD ws 0

/- What keeps a connection from being collected, and its address from being given out again. -/
def Refers (w : World) (ws : Ws) : Prop :=
  ws ∈ w.opening ∨ ws ∈ w.handlers ∨ ws ∈ w.manager.allClients ∨ (∃ channel, ws ∈ w.manager.subscribersOf channel) ∨
    ∃ task ∈ w.tasks, ws ∈ task.held

end World

variable [FloatText]

inductive Step : World → World → Prop where
  | enter {w : World} {authorization : String} {address : Nat}
      (authentic : checkWsAuth w.authToken authorization = .ok true)
      (room : w.manager.connectedCount < maxWsConnections) (free : ∀ ws, w.Refers ws → w.idOf ws ≠ address) :
      Step w { w with addresses := w.addresses ++ [address], opening := w.opening ++ [w.addresses.length] }
  | fail {w : World} {ws : Ws} (waits : ws ∈ w.opening) : Step w { w with opening := w.opening.erase ws }
  | join {w : World} {ws : Ws} (waits : ws ∈ w.opening) :
      Step w { w with
        opening := w.opening.erase ws
        handlers := w.handlers ++ [ws]
        manager := { w.manager with allClients := w.manager.allClients.insert ws } }
  | text {w : World} {ws : Ws} (reads : ws ∈ w.handlers) (now : Rat) (text : String) :
      Step w { w with manager := (w.manager.onText ws (w.idOf ws) now text).2 }
  | leave {w : World} {ws : Ws} (reads : ws ∈ w.handlers) :
      Step w { w with handlers := w.handlers.erase ws, manager := w.manager.removeAll ws (w.idOf ws) }
  | broadcast {w : World} (channel : String) :
      Step w { w with tasks := w.tasks ++
        [.cast (w.manager.subscribersOf channel).toList (w.manager.subscribersOf channel).toList []] }
  | next {w : World} {before after : List Task} {targets pending dead : List Ws} {ws : Ws} (delivered : Bool)
      (runs : w.tasks = before ++ .cast targets (ws :: pending) dead :: after) :
      Step w { w with tasks := before ++ .cast targets pending (if delivered then dead else dead ++ [ws]) :: after }
  | finish {w : World} {before after : List Task} {targets dead : List Ws}
      (runs : w.tasks = before ++ .cast targets [] dead :: after) :
      Step w { w with
        tasks := before ++ after
        manager := dead.foldl (fun m ws => m.removeAll ws (w.idOf ws)) w.manager }
  | cancel {w : World} {before after : List Task} {task : Task} (runs : w.tasks = before ++ task :: after) :
      Step w { w with tasks := before ++ after }
  | stop {w : World} : Step w { w with tasks := w.tasks ++ [.stopping w.manager.allClients.toList] }
  | stopped {w : World} {before after : List Task} {held : List Ws}
      (runs : w.tasks = before ++ .stopping held :: after) :
      Step w { w with tasks := before ++ after, manager := {} }

abbrev Reached (token : String) (w : World) : Prop := Relation.ReflTransGen Step { authToken := token } w

end Model

section Laws
open WebSocketManager

structure Recorded (idOf : Ws → Nat) (handlers : List Ws) (m : WebSocketManager) : Prop where
  subscribed : ∀ channel ws, ws ∈ m.subscribersOf channel → ws ∈ handlers ∧ channel ∈ validChannels
  listed : ∀ ws ∈ handlers, ∀ channel, ws ∈ m.subscribersOf channel ↔ channel ∈ m.channelsOf (idOf ws)
  channels : ∀ id, id ∈ m.clientChannels → ∃ ws ∈ handlers, idOf ws = id
  rates : ∀ id, id ∈ m.clientRate → ∃ ws ∈ handlers, idOf ws = id
  clients : ∀ ws ∈ m.allClients, ws ∈ handlers

structure Apart (w : World) : Prop where
  numbered : ∀ ws, w.Refers ws → ws < w.addresses.length
  distinct : ∀ ws ws', w.Refers ws → w.Refers ws' → w.idOf ws = w.idOf ws' → ws = ws'

theorem setOfInsert {K V : Type} [Ord K] [Std.TransOrd K] [Std.LawfulEqOrd K] [DecidableEq K] [Ord V]
    (d : Dict K (DSet V)) (k a : K) (s : DSet V) : (d.insert k s)[a]?.getD ∅ = if k = a then s else d[a]?.getD ∅ := by
  rw [Std.ExtTreeMap.getElem?_insert]
  simp only [Std.compare_eq_iff_eq]
  split <;> rfl

section Manager
variable {m : WebSocketManager} {idOf : Ws → Nat} {handlers : List Ws} {ws : Ws}

theorem channelsEmpty {id : Nat} (absent : id ∉ m.clientChannels) : m.channelsOf id = ∅ := by
  rw [channelsOf,(Dict.absentIff ..).mpr absent,Option.getD_none]

theorem recordedRate (recorded : Recorded idOf handlers m) (reads : ws ∈ handlers) (now : Rat) :
    Recorded idOf handlers (m.checkRate (idOf ws) now).2 where
  subscribed := recorded.subscribed
  listed := recorded.listed
  channels := recorded.channels
  rates id inside := by
    rcases (Dict.memInsert ..).mp inside with rfl | inside
    · exact ⟨ws,reads,rfl⟩
    · exact recorded.rates id inside
  clients := recorded.clients

theorem recordedUpdate (recorded : Recorded idOf handlers m) (reads : ws ∈ handlers)
    (apart : ∀ x ∈ handlers, idOf x = idOf ws → x = ws) {channel : String} (valid : channel ∈ validChannels)
    {subscribers : DSet Ws} {channels : DSet String} (own : ws ∈ subscribers ↔ channel ∈ channels)
    (others : ∀ x, x ≠ ws → (x ∈ subscribers ↔ x ∈ m.subscribersOf channel))
    (rest : ∀ other, other ≠ channel → (other ∈ channels ↔ other ∈ m.channelsOf (idOf ws))) :
    Recorded idOf handlers { m with
      subscribers := m.subscribers.insert channel subscribers
      clientChannels := m.clientChannels.insert (idOf ws) channels } where
  subscribed other x inside := by
    simp only [subscribersOf,setOfInsert] at inside
    split at inside
    · rename_i same
      subst same
      by_cases self : x = ws
      · exact ⟨self ▸ reads,valid⟩
      · exact recorded.subscribed _ x ((others x self).mp inside)
    · exact recorded.subscribed other x inside
  listed x member other := by
    have before := recorded.listed x member other
    have here : idOf ws = idOf x ↔ x = ws := ⟨fun same => apart x member same.symm,fun same => by rw [same]⟩
    simp only [subscribersOf,channelsOf,setOfInsert,here] at before ⊢
    by_cases same : channel = other
    · subst same
      by_cases self : x = ws
      · simpa [self] using own
      · simpa [self] using (others x self).trans before
    · by_cases self : x = ws
      · subst self
        simpa [same] using before.trans (rest other (Ne.symm same)).symm
      · simpa [same,self] using before
  channels id inside := by
    rcases (Dict.memInsert ..).mp inside with rfl | inside
    · exact ⟨ws,reads,rfl⟩
    · exact recorded.channels id inside
  rates := recorded.rates
  clients := recorded.clients

theorem recordedAdd (recorded : Recorded idOf handlers m) (reads : ws ∈ handlers)
    (apart : ∀ x ∈ handlers, idOf x = idOf ws → x = ws) (channel : String) :
    Recorded idOf handlers (m.addSubscriber ws (idOf ws) channel).2 := by
  unfold addSubscriber
  split
  · exact recorded
  · rename_i valid
    split
    · exact recorded
    · split
      · exact recorded
      · exact recordedUpdate recorded reads apart (not_not.mp valid)
          (iff_of_true ((DSet.memInsert ..).mpr (.inl rfl)) ((DSet.memInsert ..).mpr (.inl rfl)))
          (fun x other => (DSet.memInsert ..).trans (or_iff_right other))
          (fun x other => (DSet.memInsert ..).trans (or_iff_right other))

theorem recordedRemove (recorded : Recorded idOf handlers m) (reads : ws ∈ handlers)
    (apart : ∀ x ∈ handlers, idOf x = idOf ws → x = ws) (channel : String) :
    Recorded idOf handlers (m.removeSubscriber ws (idOf ws) channel).2 := by
  unfold removeSubscriber
  split
  · exact recorded
  · rename_i valid
    split
    · exact recorded
    · exact recordedUpdate recorded reads apart (not_not.mp valid)
        (iff_of_false (fun inside => ((DSet.memErase ..).mp inside).1 rfl)
          (fun inside => ((DSet.memErase ..).mp inside).1 rfl))
        (fun x other => (DSet.memErase ..).trans (and_iff_right other))
        (fun x other => (DSet.memErase ..).trans (and_iff_right other))

theorem memDiscarded (ws : Ws) (channels : List String) : ∀ (subscribers : Dict String (DSet Ws)) (channel : String) (x : Ws),
    x ∈ (channels.foldl (discard ws) subscribers)[channel]?.getD ∅ ↔
      x ∈ subscribers[channel]?.getD ∅ ∧ ¬(x = ws ∧ channel ∈ channels) := by
  induction channels with
  | nil => simp
  | cons first rest ih =>
    intro subscribers channel x
    rw [List.foldl_cons,ih,WebSocketManager.discard,setOfInsert]
    by_cases same : first = channel
    · subst same
      rw [if_pos rfl,DSet.memErase]
      simp only [List.mem_cons]
      tauto
    · rw [if_neg same]
      simp only [List.mem_cons,Ne.symm same,false_or]

theorem memRemoved (m : WebSocketManager) (ws : Ws) (id : Nat) (channel : String) (x : Ws) :
    x ∈ (m.removeAll ws id).subscribersOf channel ↔
      x ∈ m.subscribersOf channel ∧ ¬(x = ws ∧ channel ∈ m.channelsOf id) := by
  rw [subscribersOf,removeAll,memDiscarded,Std.ExtTreeSet.mem_toList]
  rfl

theorem channelsRemoved (m : WebSocketManager) (ws : Ws) (id other : Nat) :
    (m.removeAll ws id).channelsOf other = if id = other then ∅ else m.channelsOf other := by
  simp only [channelsOf,removeAll,Std.ExtTreeMap.getElem?_erase,Std.compare_eq_iff_eq]
  split <;> rfl

theorem recordedRemoveAll (recorded : Recorded idOf handlers m) {left : List Ws}
    (apart : ∀ x ∈ handlers, idOf x = idOf ws → x = ws) (fewer : ∀ x ∈ left, x ∈ handlers)
    (others : ∀ x ∈ handlers, x ≠ ws → x ∈ left) : Recorded idOf left (m.removeAll ws (idOf ws)) where
  subscribed channel x inside := by
    obtain ⟨before,spared⟩ := (memRemoved ..).mp inside
    obtain ⟨reads,valid⟩ := recorded.subscribed channel x before
    refine ⟨others x reads (fun same => ?_),valid⟩
    subst same
    exact spared ⟨rfl,(recorded.listed x reads channel).mp before⟩
  listed x member channel := by
    have before := recorded.listed x (fewer x member) channel
    rw [memRemoved,channelsRemoved]
    by_cases self : x = ws
    · subst self
      simp [before]
    · have here : idOf ws ≠ idOf x := fun same => self (apart x (fewer x member) same.symm)
      simp [self,here,before]
  channels id inside := by
    obtain ⟨other,before⟩ := (Dict.memErase ..).mp inside
    obtain ⟨x,reads,rfl⟩ := recorded.channels id before
    exact ⟨x,others x reads (fun same => other (by rw [same])),rfl⟩
  rates id inside := by
    obtain ⟨other,before⟩ := (Dict.memErase ..).mp inside
    obtain ⟨x,reads,rfl⟩ := recorded.rates id before
    exact ⟨x,others x reads (fun same => other (by rw [same])),rfl⟩
  clients x inside := by
    obtain ⟨other,before⟩ := (DSet.memErase ..).mp inside
    exact others x (recorded.clients x before) other

theorem recordedText [FloatText] (recorded : Recorded idOf handlers m) (reads : ws ∈ handlers)
    (apart : ∀ x ∈ handlers, idOf x = idOf ws → x = ws) (now : Rat) (text : String) :
    Recorded idOf handlers (m.onText ws (idOf ws) now text).2 := by
  have rated := recordedRate recorded reads now
  have added := recordedAdd rated reads apart
  have removed := recordedRemove rated reads apart
  unfold onText
  split
  · exact rated
  · dsimp only
    split
    · exact rated
    · split
      · exact rated
      · rename_i channel _ _
        have here := added channel
        split
        · rename_i run
          rwa [run] at here
        · rename_i run
          rwa [run] at here
      · rename_i channel _ _
        have here := removed channel
        split
        · rename_i run
          rwa [run] at here
        · rename_i run
          rwa [run] at here
      · split <;> exact rated
      · exact rated
    · exact rated

theorem recordedNone (idOf : Ws → Nat) (handlers : List Ws) : Recorded idOf handlers {} where
  subscribed channel ws inside := by simp [subscribersOf] at inside
  listed ws _ channel := by simp [subscribersOf,channelsOf]
  channels id inside := by simp at inside
  rates id inside := by simp at inside
  clients ws inside := by simp at inside

theorem recordedCongr {idOf' : Ws → Nat} (recorded : Recorded idOf handlers m) (same : ∀ x ∈ handlers, idOf' x = idOf x) :
    Recorded idOf' handlers m where
  subscribed := recorded.subscribed
  listed x member channel := by rw [same x member,recorded.listed x member channel]
  channels id inside := by
    obtain ⟨x,member,here⟩ := recorded.channels id inside
    exact ⟨x,member,(same x member).trans here⟩
  rates id inside := by
    obtain ⟨x,member,here⟩ := recorded.rates id inside
    exact ⟨x,member,(same x member).trans here⟩
  clients := recorded.clients

end Manager

section Worlds
variable {w w' : World}

structure Coherent (w : World) : Prop where
  recorded : Recorded w.idOf w.handlers w.manager
  apart : Apart w
  casts : ∀ targets pending dead, .cast targets pending dead ∈ w.tasks → ∀ x, x ∈ pending ∨ x ∈ dead → x ∈ targets

theorem refersHeld (recorded : Recorded w.idOf w.handlers w.manager) {x : Ws} (refers : w.Refers x) :
    x ∈ w.opening ∨ x ∈ w.handlers ∨ ∃ task ∈ w.tasks, x ∈ task.held := by
  rcases refers with opens | reads | client | ⟨channel,subscribed⟩ | task
  · exact .inl opens
  · exact .inr (.inl reads)
  · exact .inr (.inl (recorded.clients x client))
  · exact .inr (.inl (recorded.subscribed channel x subscribed).1)
  · exact .inr (.inr task)

theorem apartFewer (apart : Apart w) (addresses : w'.addresses = w.addresses)
    (fewer : ∀ x, w'.Refers x → w.Refers x) : Apart w' where
  numbered x refers := addresses ▸ apart.numbered x (fewer x refers)
  distinct x y refers refers' same := by
    simp only [World.idOf,addresses] at same
    exact apart.distinct x y (fewer x refers) (fewer y refers') same

theorem handlersApart (apart : Apart w) {ws : Ws} (refers : w.Refers ws) :
    ∀ x ∈ w.handlers, w.idOf x = w.idOf ws → x = ws :=
  fun x reads same => apart.distinct x ws (.inr (.inl reads)) refers same

theorem recordedDead (apart : Apart w) {dead : List Ws} (refers : ∀ x ∈ dead, w.Refers x) :
    ∀ {m : WebSocketManager}, Recorded w.idOf w.handlers m →
      Recorded w.idOf w.handlers (dead.foldl (fun m ws => m.removeAll ws (w.idOf ws)) m) := by
  induction dead with
  | nil => exact fun recorded => recorded
  | cons ws rest ih =>
    intro m recorded
    exact ih (fun x inside => refers x (List.mem_cons_of_mem _ inside))
      (recordedRemoveAll recorded (handlersApart apart (refers ws (List.mem_cons_self ..))) (fun _ inside => inside)
        (fun _ inside _ => inside))

theorem coherentLater (before : Coherent w) (addresses : w'.addresses = w.addresses)
    (recorded : Recorded w.idOf w'.handlers w'.manager)
    (held : ∀ x, (x ∈ w'.opening ∨ x ∈ w'.handlers ∨ ∃ task ∈ w'.tasks, x ∈ task.held) → w.Refers x)
    (casts : ∀ targets pending dead, .cast targets pending dead ∈ w'.tasks → ∀ x, x ∈ pending ∨ x ∈ dead → x ∈ targets) :
    Coherent w' := by
  have kept : Recorded w'.idOf w'.handlers w'.manager :=
    recordedCongr recorded (fun x _ => by rw [World.idOf,World.idOf,addresses])
  exact ⟨kept,apartFewer before.apart addresses (fun x refers => held x (refersHeld kept refers)),casts⟩

theorem fewerTasks {earlier later : List Task} {task : Task} (runs : w.tasks = earlier ++ task :: later) :
    ∀ other ∈ earlier ++ later, other ∈ w.tasks := by
  intro other listed
  rw [runs]
  rcases List.mem_append.mp listed with listed | listed
  · exact List.mem_append_left _ listed
  · exact List.mem_append_right _ (List.mem_cons_of_mem _ listed)

theorem stepCoherent [FloatText] (before : Coherent w) (step : Step w w') : Coherent w' := by
  have recorded := before.recorded
  have refersTask : ∀ {x : Ws} {task : Task}, task ∈ w.tasks → x ∈ task.held → w.Refers x :=
    fun listed inside => .inr (.inr (.inr (.inr ⟨_,listed,inside⟩)))
  have refersBefore : ∀ x, (x ∈ w.opening ∨ x ∈ w.handlers ∨ ∃ task ∈ w.tasks, x ∈ task.held) → w.Refers x := by
    rintro x (opens | reads | task)
    · exact .inl opens
    · exact .inr (.inl reads)
    · exact .inr (.inr (.inr (.inr task)))
  cases step with
  | @enter authorization address authentic room free =>
    have old : ∀ x, w.Refers x → (w.addresses ++ [address]).getD x 0 = w.idOf x := by
      intro x refers
      rw [World.idOf,List.getD_append _ _ _ _ (before.apart.numbered x refers)]
    have last : (w.addresses ++ [address]).getD w.addresses.length 0 = address := by
      rw [List.getD_append_right _ _ _ _ le_rfl,Nat.sub_self]
      rfl
    have cases' : ∀ x, World.Refers { w with
        addresses := w.addresses ++ [address], opening := w.opening ++ [w.addresses.length] } x →
        w.Refers x ∨ x = w.addresses.length := by
      rintro x (opens | refers)
      · rcases List.mem_append.mp opens with opens | new
        · exact .inl (.inl opens)
        · exact .inr (List.mem_singleton.mp new)
      · exact .inl (.inr refers)
    refine ⟨recordedCongr recorded (fun x reads => old x (.inr (.inl reads))),⟨fun x refers => ?_,fun x y refers refers' same => ?_⟩,
      before.casts⟩
    · rw [List.length_append,List.length_singleton]
      rcases cases' x refers with refers | rfl
      · exact Nat.lt_succ_of_lt (before.apart.numbered x refers)
      · exact Nat.lt_succ_self _
    · simp only [World.idOf] at same
      rcases cases' x refers with refers | rfl
      · rcases cases' y refers' with refers' | rfl
        · rw [old x refers,old y refers'] at same
          exact before.apart.distinct x y refers refers' same
        · rw [old x refers,last] at same
          exact absurd same (free x refers)
      · rcases cases' y refers' with refers' | rfl
        · rw [old y refers',last] at same
          exact absurd same.symm (free y refers')
        · rfl
  | @fail ws waits =>
    refine coherentLater before rfl recorded (fun x held => refersBefore x (held.imp_left List.mem_of_mem_erase)) before.casts
  | @join ws waits =>
    refine coherentLater before rfl ?_ (fun x held => ?_) before.casts
    · have fresh : ∀ channel, ws ∉ w.handlers → (ws ∈ w.manager.subscribersOf channel ↔ channel ∈ w.manager.channelsOf (w.idOf ws)) := by
        intro channel idle
        refine iff_of_false (fun inside => idle (recorded.subscribed channel ws inside).1) ?_
        rw [channelsEmpty]
        · simp
        · intro inside
          obtain ⟨x,reads,same⟩ := recorded.channels _ inside
          exact idle (handlersApart before.apart (.inl waits) x reads same ▸ reads)
      refine ⟨fun channel x inside => ?_,fun x member channel => ?_,fun id inside => ?_,fun id inside => ?_,fun x inside => ?_⟩
      · obtain ⟨reads,valid⟩ := recorded.subscribed channel x inside
        exact ⟨List.mem_append_left _ reads,valid⟩
      · by_cases reads : x ∈ w.handlers
        · exact recorded.listed x reads channel
        · rcases List.mem_append.mp member with reads' | new
          · exact absurd reads' reads
          · rw [List.mem_singleton.mp new] at reads ⊢
            exact fresh channel reads
      · obtain ⟨x,reads,same⟩ := recorded.channels id inside
        exact ⟨x,List.mem_append_left _ reads,same⟩
      · obtain ⟨x,reads,same⟩ := recorded.rates id inside
        exact ⟨x,List.mem_append_left _ reads,same⟩
      · rcases (DSet.memInsert ..).mp inside with rfl | inside
        · exact List.mem_append_right _ (List.mem_singleton_self _)
        · exact List.mem_append_left _ (recorded.clients x inside)
    · rcases held with opens | reads | task
      · exact .inl (List.mem_of_mem_erase opens)
      · rcases List.mem_append.mp reads with reads | new
        · exact .inr (.inl reads)
        · rw [List.mem_singleton.mp new]
          exact .inl waits
      · exact refersBefore x (.inr (.inr task))
  | @text ws reads now text =>
    exact coherentLater before rfl (recordedText recorded reads (handlersApart before.apart (.inr (.inl reads))) now text)
      refersBefore before.casts
  | @leave ws reads =>
    refine coherentLater before rfl ?_ (fun x held => refersBefore x (held.imp_right (Or.imp_left List.mem_of_mem_erase)))
      before.casts
    exact recordedRemoveAll recorded (handlersApart before.apart (.inr (.inl reads))) (fun x inside => List.mem_of_mem_erase inside)
      (fun x inside other => (List.mem_erase_of_ne other).mpr inside)
  | broadcast channel =>
    refine coherentLater before rfl recorded (fun x held => ?_) (fun targets pending dead listed => ?_)
    · rcases held with opens | reads | ⟨task,listed,inside⟩
      · exact .inl opens
      · exact .inr (.inl reads)
      · rcases List.mem_append.mp listed with listed | new
        · exact refersTask listed inside
        · rw [List.mem_singleton.mp new,Task.held,Std.ExtTreeSet.mem_toList] at inside
          exact .inr (.inr (.inr (.inl ⟨channel,inside⟩)))
    · rcases List.mem_append.mp listed with listed | new
      · exact before.casts targets pending dead listed
      · cases List.mem_singleton.mp new
        simp
  | @next earlier later targets pending dead ws delivered runs =>
    have here : .cast targets (ws :: pending) dead ∈ w.tasks := by
      rw [runs]
      simp
    refine coherentLater before rfl recorded (fun x held => ?_) (fun targets' pending' dead' listed => ?_)
    · rcases held with opens | reads | ⟨task,listed,inside⟩
      · exact .inl opens
      · exact .inr (.inl reads)
      · rcases List.mem_append.mp listed with listed | listed
        · exact refersTask (by rw [runs]; exact List.mem_append_left _ listed) inside
        · rcases List.mem_cons.mp listed with rfl | listed
          · exact refersTask here inside
          · exact refersTask (by rw [runs]; exact List.mem_append_right _ (List.mem_cons_of_mem _ listed)) inside
    · have own := before.casts targets (ws :: pending) dead here
      rcases List.mem_append.mp listed with listed | listed
      · exact before.casts targets' pending' dead' (by rw [runs]; exact List.mem_append_left _ listed)
      · rcases List.mem_cons.mp listed with same | listed
        · cases same
          rintro x (inside | inside)
          · exact own x (.inl (List.mem_cons_of_mem _ inside))
          · split at inside
            · exact own x (.inr inside)
            · rcases List.mem_append.mp inside with inside | new
              · exact own x (.inr inside)
              · rw [List.mem_singleton.mp new]
                exact own ws (.inl (List.mem_cons_self ..))
        · exact before.casts targets' pending' dead' (by rw [runs]; exact List.mem_append_right _ (List.mem_cons_of_mem _ listed))
  | @finish earlier later targets dead runs =>
    have here : .cast targets [] dead ∈ w.tasks := by simp [runs]
    have fewer := fewerTasks runs
    refine coherentLater before rfl ?_ (fun x held => refersBefore x (held.imp_right (Or.imp_right ?_)))
      (fun _ _ _ listed => before.casts _ _ _ (fewer _ listed))
    · exact recordedDead before.apart
        (fun x inside => refersTask here (before.casts targets [] dead here x (.inr inside))) recorded
    · exact fun ⟨task,listed,inside⟩ => ⟨task,fewer task listed,inside⟩
  | @cancel earlier later task runs =>
    have fewer := fewerTasks runs
    refine coherentLater before rfl recorded (fun x held => refersBefore x (held.imp_right (Or.imp_right ?_)))
      (fun _ _ _ listed => before.casts _ _ _ (fewer _ listed))
    exact fun ⟨task,listed,inside⟩ => ⟨task,fewer task listed,inside⟩
  | stop =>
    refine coherentLater before rfl recorded (fun x held => ?_) (fun targets pending dead listed => ?_)
    · rcases held with opens | reads | ⟨task,listed,inside⟩
      · exact .inl opens
      · exact .inr (.inl reads)
      · rcases List.mem_append.mp listed with listed | new
        · exact refersTask listed inside
        · rw [List.mem_singleton.mp new,Task.held,Std.ExtTreeSet.mem_toList] at inside
          exact .inr (.inr (.inl inside))
    · rcases List.mem_append.mp listed with listed | new
      · exact before.casts targets pending dead listed
      · cases List.mem_singleton.mp new
  | @stopped earlier later held runs =>
    have fewer := fewerTasks runs
    refine coherentLater before rfl (recordedNone w.idOf w.handlers)
      (fun x held => refersBefore x (held.imp_right (Or.imp_right ?_)))
      (fun _ _ _ listed => before.casts _ _ _ (fewer _ listed))
    exact fun ⟨task,listed,inside⟩ => ⟨task,fewer task listed,inside⟩

theorem reachedCoherent [FloatText] {token : String} (reached : Reached token w) : Coherent w := by
  induction reached with
  | refl =>
    refine ⟨recordedNone _ _,⟨fun ws refers => ?_,fun ws _ refers => ?_⟩,fun _ _ _ listed => ?_⟩
    · exact absurd (refersHeld (recordedNone _ _) refers) (by simp)
    · exact absurd (refersHeld (recordedNone _ _) refers) (by simp)
    · simp at listed
  | tail _ step ih => exact stepCoherent ih step

/- Though addresses are given out again, what a node has recorded belongs to its open connections: an open one
is in a channel's set just when the channel stands under its address, every connection in a set is open and
every address in a table is that of one open connection; with the last one gone nothing is left. -/
theorem subscriptionsCoherent [FloatText] {token : String} (reached : Reached token w) :
    (∀ ws ∈ w.handlers, ∀ channel, ws ∈ w.manager.subscribersOf channel ↔ channel ∈ w.manager.channelsOf (w.idOf ws)) ∧
    (∀ ws, (ws ∈ w.manager.allClients ∨ ∃ channel, ws ∈ w.manager.subscribersOf channel) → ws ∈ w.handlers) ∧
    (∀ id, id ∈ w.manager.clientChannels ∨ id ∈ w.manager.clientRate → ∃! ws, ws ∈ w.handlers ∧ w.idOf ws = id) ∧
    (w.handlers = [] → w.manager.allClients = ∅ ∧ w.manager.clientChannels = ∅ ∧ w.manager.clientRate = ∅ ∧
      ∀ channel, w.manager.subscribersOf channel = ∅) := by
  obtain ⟨recorded,apart,-⟩ := reachedCoherent reached
  have owner : ∀ id, id ∈ w.manager.clientChannels ∨ id ∈ w.manager.clientRate → ∃ ws ∈ w.handlers, w.idOf ws = id := by
    rintro id (inside | inside)
    · exact recorded.channels id inside
    · exact recorded.rates id inside
  have held : ∀ ws, (ws ∈ w.manager.allClients ∨ ∃ channel, ws ∈ w.manager.subscribersOf channel) → ws ∈ w.handlers := by
    rintro ws (client | ⟨channel,inside⟩)
    · exact recorded.clients ws client
    · exact (recorded.subscribed channel ws inside).1
  refine ⟨recorded.listed,held,fun id inside => ?_,fun none => ⟨?_,?_,?_,fun channel => ?_⟩⟩
  · obtain ⟨ws,reads,rfl⟩ := owner id inside
    exact ⟨ws,⟨reads,rfl⟩,fun x other => handlersApart apart (.inr (.inl reads)) x other.1 other.2⟩
  · refine Std.ExtTreeSet.eq_empty_iff_forall_not_mem.mpr (fun ws inside => ?_)
    exact absurd (held ws (.inl inside)) (by simp [none])
  · refine Std.ExtTreeMap.eq_empty_iff_forall_not_mem.mpr (fun id inside => ?_)
    obtain ⟨ws,reads,-⟩ := owner id (.inl inside)
    exact absurd reads (by simp [none])
  · refine Std.ExtTreeMap.eq_empty_iff_forall_not_mem.mpr (fun id inside => ?_)
    obtain ⟨ws,reads,-⟩ := owner id (.inr inside)
    exact absurd reads (by simp [none])
  · refine Std.ExtTreeSet.eq_empty_iff_forall_not_mem.mpr (fun ws inside => ?_)
    exact absurd (held ws (.inr ⟨channel,inside⟩)) (by simp [none])

structure Untouched (m m' : WebSocketManager) (ws : Ws) (id : Nat) : Prop where
  subscribed : ∀ channel, ws ∈ m'.subscribersOf channel ↔ ws ∈ m.subscribersOf channel
  channels : m'.channelsOf id = m.channelsOf id
  rate : m'.clientRate[id]? = m.clientRate[id]?

section Untouched
variable {m m' m'' : WebSocketManager} {ws x : Ws} {id here : Nat}

theorem untouchedSame (m : WebSocketManager) (ws : Ws) (id : Nat) : Untouched m m ws id := ⟨fun _ => Iff.rfl,rfl,rfl⟩

theorem untouchedThen (first : Untouched m m' ws id) (second : Untouched m' m'' ws id) : Untouched m m'' ws id :=
  ⟨fun channel => (second.subscribed channel).trans (first.subscribed channel),second.channels.trans first.channels,
    second.rate.trans first.rate⟩

theorem untouchedRate (other : here ≠ id) (now : Rat) : Untouched m (m.checkRate here now).2 x id := by
  refine ⟨fun _ => Iff.rfl,rfl,?_⟩
  rw [checkRate,Std.ExtTreeMap.getElem?_insert,if_neg (by simpa using other)]

theorem untouchedUpdate (other : here ≠ id) (channel : String) {subscribers : DSet Ws} (channels : DSet String)
    (own : x ∈ subscribers ↔ x ∈ m.subscribersOf channel) :
    Untouched m { m with
      subscribers := m.subscribers.insert channel subscribers
      clientChannels := m.clientChannels.insert here channels } x id := by
  refine ⟨fun channel' => ?_,?_,rfl⟩
  · simp only [subscribersOf,setOfInsert]
    split
    · rename_i same
      rw [own,same,subscribersOf]
    · exact Iff.rfl
  · rw [channelsOf,setOfInsert,if_neg other,channelsOf]

theorem untouchedAdd (apart : x ≠ ws) (other : here ≠ id) (channel : String) :
    Untouched m (m.addSubscriber ws here channel).2 x id := by
  unfold addSubscriber
  split
  · exact untouchedSame ..
  · split
    · exact untouchedSame ..
    · split
      · exact untouchedSame ..
      · exact untouchedUpdate other channel _ ((DSet.memInsert ..).trans (or_iff_right apart))

theorem untouchedRemove (apart : x ≠ ws) (other : here ≠ id) (channel : String) :
    Untouched m (m.removeSubscriber ws here channel).2 x id := by
  unfold removeSubscriber
  split
  · exact untouchedSame ..
  · split
    · exact untouchedSame ..
    · exact untouchedUpdate other channel _ ((DSet.memErase ..).trans (and_iff_right apart))

theorem untouchedRemoveAll (apart : x ≠ ws) (other : here ≠ id) : Untouched m (m.removeAll ws here) x id := by
  refine ⟨fun channel => ?_,?_,?_⟩
  · rw [memRemoved]
    exact and_iff_left (fun own => apart own.1)
  · rw [channelsRemoved,if_neg other]
  · rw [removeAll,Std.ExtTreeMap.getElem?_erase,if_neg (by simpa using other)]

theorem untouchedText [FloatText] (apart : x ≠ ws) (other : here ≠ id) (now : Rat) (text : String) :
    Untouched m (m.onText ws here now text).2 x id := by
  have rated : Untouched m (m.checkRate here now).2 x id := untouchedRate other now
  have added := fun channel => untouchedThen rated (untouchedAdd apart other channel)
  have removed := fun channel => untouchedThen rated (untouchedRemove apart other channel)
  unfold onText
  split
  · exact rated
  · dsimp only
    split
    · exact rated
    · split
      · exact rated
      · rename_i channel _ _
        have here := added channel
        split
        · rename_i run
          rwa [run] at here
        · rename_i run
          rwa [run] at here
      · rename_i channel _ _
        have here := removed channel
        split
        · rename_i run
          rwa [run] at here
        · rename_i run
          rwa [run] at here
      · split <;> exact rated
      · exact rated
    · exact rated

theorem untouchedDead {idOf : Ws → Nat} {dead : List Ws} (apart : ∀ ws ∈ dead, x ≠ ws ∧ idOf ws ≠ id) :
    ∀ {m : WebSocketManager}, Untouched m (dead.foldl (fun m ws => m.removeAll ws (idOf ws)) m) x id := by
  induction dead with
  | nil => exact untouchedSame _ _ _
  | cons ws rest ih =>
    intro m
    have first := apart ws (List.mem_cons_self ..)
    exact untouchedThen (untouchedRemoveAll first.1 first.2) (ih (fun ws inside => apart ws (List.mem_cons_of_mem _ inside)))

end Untouched

/- What a node has recorded of an open connection changes by a message of its own, by its end, by a broadcast
that found it dead, or with the stop of the node, and by nothing that another connection does. -/
theorem recordsOwned [FloatText] {token : String} (reached : Reached token w) (step : Step w w') {x : Ws}
    (reads : x ∈ w.handlers) : Untouched w.manager w'.manager x (w.idOf x) ∧ w'.idOf x = w.idOf x ∨
      (∃ now text, w'.manager = (w.manager.onText x (w.idOf x) now text).2) ∨
      w'.handlers = w.handlers.erase x ∧ w'.manager = w.manager.removeAll x (w.idOf x) ∨
      (∃ targets dead, .cast targets [] dead ∈ w.tasks ∧ x ∈ dead ∧
        w'.manager = dead.foldl (fun m ws => m.removeAll ws (w.idOf ws)) w.manager) ∨
      (∃ held, .stopping held ∈ w.tasks) ∧ w'.manager = {} := by
  obtain ⟨-,apart,casts⟩ := reachedCoherent reached
  have self : w.Refers x := .inr (.inl reads)
  have others : ∀ ws, w.Refers ws → x ≠ ws → w.idOf ws ≠ w.idOf x :=
    fun ws refers other same => other (handlersApart apart refers x reads same.symm)
  have still : Untouched w.manager w.manager x (w.idOf x) := untouchedSame ..
  cases step with
  | @enter authorization address authentic room free =>
    refine .inl ⟨still,?_⟩
    rw [World.idOf,World.idOf,List.getD_append _ _ _ _ (apart.numbered x self)]
  | fail waits => exact .inl ⟨still,rfl⟩
  | join waits => exact .inl ⟨⟨fun _ => Iff.rfl,rfl,rfl⟩,rfl⟩
  | @text ws sends now text =>
    by_cases own : x = ws
    · subst own
      exact .inr (.inl ⟨now,text,rfl⟩)
    · exact .inl ⟨untouchedText own (others ws (.inr (.inl sends)) own) now text,rfl⟩
  | @leave ws leaves =>
    by_cases own : x = ws
    · subst own
      exact .inr (.inr (.inl ⟨rfl,rfl⟩))
    · exact .inl ⟨untouchedRemoveAll own (others ws (.inr (.inl leaves)) own),rfl⟩
  | broadcast channel => exact .inl ⟨still,rfl⟩
  | next delivered runs => exact .inl ⟨still,rfl⟩
  | @finish earlier later targets dead runs =>
    have listed : .cast targets [] dead ∈ w.tasks := by simp [runs]
    by_cases own : x ∈ dead
    · exact .inr (.inr (.inr (.inl ⟨targets,dead,listed,own,rfl⟩)))
    · refine .inl ⟨untouchedDead (fun ws inside => ?_),rfl⟩
      have other : x ≠ ws := fun same => own (same ▸ inside)
      have refers : w.Refers ws := .inr (.inr (.inr (.inr ⟨_,listed,casts targets [] dead listed ws (.inr inside)⟩)))
      exact ⟨other,others ws refers other⟩
  | cancel runs => exact .inl ⟨still,rfl⟩
  | stop => exact .inl ⟨still,rfl⟩
  | @stopped earlier later held runs => exact .inr (.inr (.inr (.inr ⟨⟨held,by simp [runs]⟩,rfl⟩)))

def subscription (channel : String) : Json := .obj [("type",.str "subscribe"),("channel",.str channel)]

theorem channelsFew (recorded : Recorded w.idOf w.handlers w.manager) {ws : Ws} (reads : ws ∈ w.handlers) :
    (w.manager.channelsOf (w.idOf ws)).size < maxSubscriptionsPerClient := by
  have valid : ∀ channel ∈ (w.manager.channelsOf (w.idOf ws)).toList, channel ∈ validChannels := by
    intro channel inside
    rw [Std.ExtTreeSet.mem_toList] at inside
    exact (recorded.subscribed channel ws ((recorded.listed ws reads channel).mpr inside)).2
  have single : (w.manager.channelsOf (w.idOf ws)).toList.Nodup :=
    Std.ExtTreeSet.distinct_toList.imp (fun apart same => apart (Std.compare_eq_iff_eq.mpr same))
  have few := List.subperm_of_subset single valid
  calc (w.manager.channelsOf (w.idOf ws)).size = (w.manager.channelsOf (w.idOf ws)).toList.length :=
        Std.ExtTreeSet.length_toList.symm
    _ ≤ validChannels.length := few.length_le
    _ < maxSubscriptionsPerClient := by decide

theorem addAnswered {m : WebSocketManager} {ws : Ws} {id : Nat} {channel : String}
    (listed : ws ∈ m.subscribersOf channel ↔ channel ∈ m.channelsOf id)
    (few : (m.channelsOf id).size < maxSubscriptionsPerClient) :
    (m.addSubscriber ws id channel).1 = (if channel ∉ validChannels then (false,"unknown channel: " ++ channel)
      else if ws ∈ m.subscribersOf channel then (false,"already subscribed to " ++ channel)
      else (true,"subscribed to " ++ channel)) ∧
    ∀ x other, x ∈ (m.addSubscriber ws id channel).2.subscribersOf other ↔
      x ∈ m.subscribersOf other ∨ x = ws ∧ other = channel ∧ channel ∈ validChannels := by
  unfold addSubscriber
  by_cases known : channel ∉ validChannels
  · rw [if_pos known,if_pos known]
    exact ⟨rfl,fun x other => (or_iff_left (fun new => known new.2.2)).symm⟩
  · rw [if_neg known,if_neg known,if_neg few.not_ge]
    by_cases before : ws ∈ m.subscribersOf channel
    · rw [if_pos before,if_pos (listed.mp before)]
      refine ⟨rfl,fun x other => (or_iff_left_of_imp ?_).symm⟩
      rintro ⟨rfl,rfl,-⟩
      exact before
    · rw [if_neg before,if_neg (fun inside => before (listed.mpr inside))]
      refine ⟨rfl,fun x other => ?_⟩
      simp only [subscribersOf,setOfInsert]
      split
      · rename_i same
        subst same
        rw [DSet.memInsert,or_comm]
        exact or_congr Iff.rfl ⟨fun new => ⟨new,rfl,not_not.mp known⟩,fun new => new.1⟩
      · rename_i different
        exact (or_iff_left (fun new => different new.2.1.symm)).symm

/- The text of a client's subscribe, within the rate, makes the connection a subscriber of a channel the node
has and does nothing else; it is refused for a channel there is not and for one subscribed to before, and
never for the limit. -/
theorem subscribeAnswered [FloatText] {token : String} (reached : Reached token w) {ws : Ws} (reads : ws ∈ w.handlers)
    {now : Rat} (rated : (w.manager.checkRate (w.idOf ws) now).1 = true) (channel : String) :
    ∃ text, decode (QBitWebSocket.dumped (subscription channel)) = some text ∧
      (w.manager.onText ws (w.idOf ws) now text).1 =
        (if channel ∉ validChannels then errorReply ("unknown channel: " ++ channel)
        else if ws ∈ w.manager.subscribersOf channel then errorReply ("already subscribed to " ++ channel)
        else channelReply "subscribed" channel) ∧
      ∀ x other, x ∈ (w.manager.onText ws (w.idOf ws) now text).2.subscribersOf other ↔
        x ∈ w.manager.subscribersOf other ∨ x = ws ∧ other = channel ∧ channel ∈ validChannels := by
  obtain ⟨recorded,-,-⟩ := reachedCoherent reached
  have proper : Json.Proper (subscription channel) := by simp [subscription,Json.Proper,Json.ProperFields]
  obtain ⟨text,decoded,loaded⟩ := QBitWebSocket.dumpedRead proper
  have answered := @addAnswered (w.manager.checkRate (w.idOf ws) now).2 ws (w.idOf ws) channel
    (recorded.listed ws reads channel) (channelsFew recorded reads)
  have run : w.manager.onText ws (w.idOf ws) now text =
      match (w.manager.checkRate (w.idOf ws) now).2.addSubscriber ws (w.idOf ws) channel with
      | ((true,_),m) => (channelReply "subscribed" channel,m)
      | ((false,message),m) => (errorReply message,m) := by
    rw [onText,rated,loaded]
    rfl
  refine ⟨text,decoded,?_⟩
  rw [run]
  generalize (w.manager.checkRate (w.idOf ws) now).2.addSubscriber ws (w.idOf ws) channel = result at answered ⊢
  obtain ⟨⟨accepted,message⟩,m⟩ := result
  obtain ⟨reply,members⟩ := answered
  change (accepted,message) = ite _ _ (ite (ws ∈ w.manager.subscribersOf channel) _ _) at reply
  have same : ∀ x other, x ∈ m.subscribersOf other ↔
      x ∈ w.manager.subscribersOf other ∨ x = ws ∧ other = channel ∧ channel ∈ validChannels := members
  by_cases known : channel ∉ validChannels
  · rw [if_pos known] at reply ⊢
    cases reply
    exact ⟨rfl,same⟩
  · rw [if_neg known] at reply ⊢
    by_cases before : ws ∈ w.manager.subscribersOf channel
    · rw [if_pos before] at reply ⊢
      cases reply
      exact ⟨rfl,same⟩
    · rw [if_neg before] at reply ⊢
      cases reply
      exact ⟨rfl,same⟩

end Worlds

end Laws

end QbitNetwork.Subscriptions

namespace QbitNetwork.Devnet
open WebSockets (maxWsConnections)
open Subscriptions

section Floatless
attribute [local instance] MessageCodec.Devnet.noFloats

def admitted : World where
  authToken := ""
  addresses := [7,8]
  opening := [0,1]

def listening : World := { admitted with
  opening := [1]
  handlers := [0]
  manager := { allClients := (∅ : DSet Ws).insert 0 } }

theorem reachedListening : Reached "" listening := by
  have quiet : (∅ : DSet Ws).size < maxWsConnections := by simp [maxWsConnections]
  have first : Step { authToken := "" } { authToken := "", addresses := [7], opening := [0] } :=
    .enter (show checkWsAuth "" "" = .ok true from rfl) quiet (fun ws refers => absurd (refersHeld (recordedNone _ _) refers) (by simp))
  have second : Step { authToken := "", addresses := [7], opening := [0] } admitted := by
    refine .enter (show checkWsAuth "" "" = .ok true from rfl) quiet (fun ws refers => ?_)
    rcases refersHeld (recordedNone _ _) refers with opens | reads | ⟨task,listed,-⟩
    · rw [List.mem_singleton.mp opens]
      decide
    · simp at reads
    · simp at listed
  exact ((Relation.ReflTransGen.single first).tail second).tail (.join (by decide))

theorem subscriptionsCoherentListening : (0 ∈ listening.manager.subscribersOf "new_block" ↔
      "new_block" ∈ listening.manager.channelsOf 7) ∧ 1 ∉ listening.manager.subscribersOf "new_block" := by
  obtain ⟨listed,held,-,-⟩ := subscriptionsCoherent reachedListening
  exact ⟨listed 0 (by decide) "new_block",fun inside => absurd (held 1 (.inr ⟨_,inside⟩)) (by decide)⟩

theorem recordsOwnedListening : Untouched listening.manager { listening.manager with
      allClients := listening.manager.allClients.insert 1 } 0 7 ∨ ∃ now text, { listening.manager with
        allClients := listening.manager.allClients.insert 1 } = (listening.manager.onText 0 7 now text).2 := by
  have second : Step listening _ := .join (show 1 ∈ listening.opening by decide)
  rcases recordsOwned reachedListening second (show 0 ∈ listening.handlers by decide) with
    ⟨same,-⟩ | text | ⟨left,-⟩ | ⟨_,_,listed,-⟩ | ⟨⟨_,listed⟩,-⟩
  · exact .inl same
  · exact .inr text
  · exact absurd left (by decide)
  · exact absurd listed (by simp [listening,admitted])
  · exact absurd listed (by simp [listening,admitted])

theorem ratedListening : (listening.manager.checkRate (listening.idOf 0) 0).1 = true := by
  simp [WebSocketManager.checkRate,listening,admitted,wsRateLimit]

theorem subscribeAnsweredListening : ∃ text, decode (QBitWebSocket.dumped (subscription "finalized")) = some text ∧
    0 ∈ (listening.manager.onText 0 7 0 text).2.subscribersOf "finalized" := by
  obtain ⟨text,decoded,-,members⟩ := subscribeAnswered reachedListening (show 0 ∈ listening.handlers by decide) ratedListening "finalized"
  exact ⟨text,decoded,(members 0 "finalized").mpr (.inr ⟨rfl,rfl,by decide⟩)⟩

end Floatless

end QbitNetwork.Devnet
