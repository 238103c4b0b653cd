import QbitNetwork.Gossip
import QbitNetwork.Follower
import Mathlib.Algebra.Order.Ring.Rat
import Mathlib.Tactic.Linarith

/-! When gossip is punished: a handler records a negative event exactly where the receiver
cannot take what it is sent, what it already has included. -/
namespace QbitNetwork

namespace PeerReputation

structure Spotless (r : PeerReputation) : Prop where
  scores : ∀ (peerId : String) (score : Rat), r.scores[peerId]? = some score → defaultScore ≤ score
  banned : ∀ peerId : String, peerId ∉ r.banned

theorem spotlessNew : Spotless {} := ⟨by simp,by simp⟩

theorem spotlessScore {r : PeerReputation} (spotless : r.Spotless) (peerId : String) :
    defaultScore ≤ r.scores.getD peerId defaultScore := by
  rw [Std.ExtTreeMap.getD_eq_getD_getElem?]
  cases found : r.scores[peerId]? with
  | none => exact Rat.le_refl
  | some score => exact spotless.scores peerId score found

theorem spotlessRecord {r : PeerReputation} (spotless : r.Spotless) (peerId : String)
    {event : PeerEvent} (harmless : 0 ≤ event.delta) : (r.record peerId event).Spotless := by
  unfold record
  split
  · exact spotless
  · have risen : defaultScore ≤ r.scores.getD peerId defaultScore + event.delta := by
      have := spotlessScore spotless peerId
      have : (0 : Rat) ≤ (event.delta : Rat) := by exact_mod_cast harmless
      linarith
    have above : ¬r.scores.getD peerId defaultScore + (event.delta : Rat) ≤ banThreshold := by
      simp only [defaultScore,banThreshold] at *
      linarith
    refine ⟨fun other score found => ?_,?_⟩
    · rw [Std.ExtTreeMap.getElem?_insert] at found
      split at found
      · cases found; exact risen
      · exact spotless.scores other score found
    · simp only [if_neg above]
      exact spotless.banned

theorem spotlessDecay {r : PeerReputation} (spotless : r.Spotless) : r.decay.Spotless := by
  refine ⟨fun peerId score found => ?_,spotless.banned⟩
  simp only [decay,Std.ExtTreeMap.getElem?_filterMap',Option.bind_eq_some_iff] at found
  obtain ⟨before,held,found⟩ := found
  split at found
  · cases found
  · cases found
    have := spotless.scores peerId before held
    simp only [decayed,decayRate,defaultScore] at *
    linarith

theorem spotlessUnbanned {r : PeerReputation} (spotless : r.Spotless) (peerId : String) :
    r.isBanned peerId = false := by
  have absent := spotless.banned peerId
  rw [Std.ExtTreeSet.mem_iff_contains,Bool.not_eq_true] at absent
  rw [isBanned,absent,Bool.and_false]

end PeerReputation

namespace Gossip
variable [Env]

def Welcomes (s : Blockchain) (now : Int) : Message → Prop
  | .newBlock block =>
    block.parses = true ∧ block.blockHash ∉ s.blockByHash ∧ block.index = s.height + 1 ∧
      s.validateBlock now block (if 0 < block.index then s.latestBlock else none) = .ok () ∧
      (0 < block.index → block.stateRoot ≠ "") ∧ s.Storable block ∧ s.Executes block
  | .newTx tx => tx.parses = true ∧ s.submitCheck now tx = .ok ()

def Network.Meets (net : Network) : Action → Prop
  | .deliver position now _ =>
    ∀ mail, net.inFlight[position]? = some mail → Welcomes (net.nodes mail.receiver).chain now mail.message
  | _ => True

def Network.MeetsAll (net : Network) : List Action → Prop
  | [] => True
  | action :: rest => net.Meets action ∧ (net.step action).1.MeetsAll rest

structure Network.Unpunished (outcome : Network × List Entry) : Prop where
  entries : ∀ entry ∈ outcome.2, 0 ≤ entry.event.delta
  banned : ∀ id peer, (outcome.1.nodes id).reputation.isBanned peer = false
  scores : ∀ id peer, PeerReputation.defaultScore ≤ (outcome.1.nodes id).reputation.getScore peer

omit [Env] in
theorem refusalDelta (err : String) : (refusalEvent err).delta < 0 := by
  unfold refusalEvent
  split <;> decide

theorem addBlockIff (s : Blockchain) (block : Block) (now : Int) :
    (∃ t, s.addBlock block now = (.accepted,t)) ↔
      block.blockHash ∉ s.blockByHash ∧ block.index = s.height + 1 ∧
      s.validateBlock now block (if 0 < block.index then s.latestBlock else none) = .ok () ∧
      (0 < block.index → block.stateRoot ≠ "") ∧ s.Storable block ∧ s.Executes block := by
  constructor
  · rintro ⟨t,answer⟩
    obtain ⟨position,valid,u,appended,-⟩ := Blockchain.addBlockOk answer
    refine ⟨fun known => ?_,position,valid,Blockchain.addBlockClaims answer,
      (Blockchain.appendInnerIff ..).mp ⟨u,appended⟩⟩
    simp only [Blockchain.addBlock,if_pos known] at answer
    cases answer
  · rintro ⟨fresh,position,valid,claims,storable,executes⟩
    obtain ⟨t,appended⟩ := (Blockchain.appendBlockIff ..).mpr ⟨storable,executes⟩
    have claimed : ¬(0 < block.index ∧ block.stateRoot = "") := fun missing => claims missing.1 missing.2
    refine ⟨t.drainPool block,?_⟩
    simp only [Blockchain.addBlock]
    rw [if_neg fresh,if_pos position,valid]
    simp only [if_neg claimed,appended]

theorem newBlockHarmless (id : String) (node : Node) (peer : String) (block : Block) (now : Int)
    (syncing : Bool) :
    0 ≤ (p2pNewBlock id node peer block now syncing).event.delta ↔
      Welcomes node.chain now (.newBlock block) := by
  rw [Welcomes,← addBlockIff]
  unfold p2pNewBlock
  cases parsed : block.parses with
  | false => simp [Node.conclude,PeerEvent.delta]
  | true =>
    rw [if_neg (by decide)]
    generalize node.chain.addBlock block now = answer
    obtain ⟨reply,chain⟩ := answer
    cases reply with
    | accepted => simp [Node.conclude,PeerEvent.delta]
    | refused err =>
      have := refusalDelta err
      simp only [Node.conclude,Prod.mk.injEq,reduceCtorEq,false_and,exists_false,and_false,iff_false]
      omega
    | raised exception => simp [Node.conclude,PeerEvent.delta]

theorem newTxHarmless (id : String) (node : Node) (peer : String) (tx : Transaction) (now : Int) :
    0 ≤ (p2pNewTx id node peer tx now).event.delta ↔ Welcomes node.chain now (.newTx tx) := by
  unfold p2pNewTx Welcomes Blockchain.submitTx
  cases parsed : tx.parses with
  | false => simp [parsed,Node.conclude,PeerEvent.delta]
  | true =>
    rw [if_neg (by decide)]
    cases checked : node.chain.submitCheck now tx with
    | ok passed => simp [parsed,checked,Node.conclude,PeerEvent.delta]
    | error halt => cases halt <;> simp [checked,Node.conclude,PeerEvent.delta,Halt.reply]

theorem dispatchHarmless (id : String) (node : Node) (peer : String) (now : Int) (syncing : Bool)
    (message : Message) :
    0 ≤ (dispatch id node peer now syncing message).event.delta ↔ Welcomes node.chain now message := by
  cases message with
  | newBlock block => exact newBlockHarmless ..
  | newTx tx => exact newTxHarmless ..

theorem dispatchReputation (id : String) (node : Node) (peer : String) (now : Int) (syncing : Bool)
    (message : Message) :
    (dispatch id node peer now syncing message).node.reputation =
      node.reputation.record peer (dispatch id node peer now syncing message).event := by
  cases message with
  | newBlock block =>
    simp only [dispatch,p2pNewBlock]
    split
    · rfl
    · split <;> rfl
  | newTx tx =>
    simp only [dispatch,p2pNewTx]
    split
    · rfl
    · split <;> rfl

namespace Network

def Clean (net : Network) : Prop := ∀ id, (net.nodes id).reputation.Spotless

omit [Env] in
theorem cleanSetNode {net : Network} (clean : net.Clean) (id : String) {node : Node}
    (spotless : node.reputation.Spotless) : (net.setNode id node).Clean := by
  intro other
  simp only [setNode]
  split
  · exact spotless
  · exact clean other

omit [Env] in
theorem cleanSetChain {net : Network} (clean : net.Clean) (id : String) (chain : Blockchain) :
    (net.setChain id chain).Clean := cleanSetNode clean id (clean id)

theorem receiveClean {net : Network} (clean : net.Clean) (mail : Envelope) (now : Int) (syncing : Bool) :
    (Welcomes (net.nodes mail.receiver).chain now mail.message ↔
        ∀ entry ∈ (net.receive mail now syncing).2, 0 ≤ entry.event.delta) ∧
      (Welcomes (net.nodes mail.receiver).chain now mail.message →
        (net.receive mail now syncing).1.Clean) := by
  have harmless := dispatchHarmless mail.receiver (net.nodes mail.receiver) mail.sender now syncing
    mail.message
  simp only [receive,PeerReputation.spotlessUnbanned (clean mail.receiver),Bool.false_eq_true,if_false]
  refine ⟨?_,fun welcome => ?_⟩
  · rw [← harmless]
    simp
  · refine cleanSetNode clean mail.receiver ?_
    rw [dispatchReputation]
    exact PeerReputation.spotlessRecord (clean mail.receiver) _ (harmless.mpr welcome)

theorem stepClean {net : Network} (clean : net.Clean) (action : Action) :
    (net.Meets action ↔ ∀ entry ∈ (net.step action).2, 0 ≤ entry.event.delta) ∧
      (net.Meets action → (net.step action).1.Clean) := by
  have silent : ∀ next : Network, next.Clean → ((True ↔ ∀ entry ∈ ([] : List Entry),
      0 ≤ entry.event.delta) ∧ (True → next.Clean)) := fun next kept => ⟨by simp,fun _ => kept⟩
  cases action with
  | submit id tx now =>
    simp only [Meets,step]
    split <;> exact silent _ (cleanSetChain clean id _)
  | produce id address sk now later =>
    simp only [Meets,step]
    split <;> exact silent _ (cleanSetChain clean id _)
  | deliver position now syncing =>
    simp only [Meets,step]
    cases net.inFlight[position]? with
    | none => simpa using clean
    | some mail =>
      simp only [Option.some.injEq,forall_eq']
      exact @receiveClean _ (net.drop position) clean mail now syncing
  | lose position => exact silent _ clean
  | sync id block now => exact silent _ (cleanSetChain clean id _)
  | reorg id fork now => exact silent _ (cleanSetChain clean id _)
  | connect id peers => exact silent _ (cleanSetNode clean id (clean id))
  | decay id => exact silent _ (cleanSetNode clean id (PeerReputation.spotlessDecay (clean id)))

theorem runClean {net : Network} (clean : net.Clean) (actions : List Action) :
    (net.MeetsAll actions ↔ ∀ entry ∈ (net.run actions).2, 0 ≤ entry.event.delta) ∧
      (net.MeetsAll actions → (net.run actions).1.Clean) := by
  induction actions generalizing net with
  | nil => exact ⟨by simp [MeetsAll,run],fun _ => clean⟩
  | cons action rest ih =>
    obtain ⟨here,kept⟩ := stepClean clean action
    simp only [MeetsAll,run,List.mem_append]
    constructor
    · constructor
      · rintro ⟨met,later⟩ entry (inside | inside)
        · exact here.mp met entry inside
        · exact (ih (kept met)).1.mp later entry inside
      · intro harmless
        have met := here.mpr (fun entry inside => harmless entry (.inl inside))
        exact ⟨met,(ih (kept met)).1.mpr (fun entry inside => harmless entry (.inr inside))⟩
    · rintro ⟨met,later⟩
      exact (ih (kept met)).2 later

theorem meetsTake {net : Network} {actions : List Action} (met : net.MeetsAll actions) (n : Nat) :
    net.MeetsAll (actions.take n) := by
  induction actions generalizing net n with
  | nil => simpa using met
  | cons action rest ih =>
    cases n with
    | zero => trivial
    | succ n => exact ⟨met.1,ih met.2 n⟩

end Network

theorem relaysUnpunished {net : Network} (fresh : net.Fresh) (actions : List Action) :
    net.MeetsAll actions ↔ ∀ n, Network.Unpunished (net.run (actions.take n)) := by
  have clean : net.Clean := fun id => by
    rw [fresh.reputations id]
    exact PeerReputation.spotlessNew
  constructor
  · intro met n
    obtain ⟨harmless,kept⟩ := Network.runClean clean (actions.take n)
    have past := Network.meetsTake met n
    refine ⟨harmless.mp past,fun id peer => PeerReputation.spotlessUnbanned (kept past id) peer,?_⟩
    intro id peer
    unfold PeerReputation.getScore
    split
    · exact le_refl _
    · exact PeerReputation.spotlessScore (kept past id) peer
  · intro unpunished
    have whole := (unpunished actions.length).entries
    rw [List.take_length] at whole
    exact (Network.runClean clean actions).1.mpr whole

end Gossip

namespace Devnet
open Gossip

section Legacy
attribute [local instance] legacy

def longKey : Bytes := List.replicate 1952 1

def longAddress : Address := deriveAddress longKey

def relayedTx : Transaction :=
  Transaction.sign
    { txType := .NOTARIZE
      sender := longAddress
      payload := { documentHash := some "ab" }
      timestamp := 101 } longKey longKey

def triangle : Network where
  nodes := fun id =>
    { chain := ((Blockchain.new (.memory [])).addBlock (Block.genesis "v" [] 100) 100).2
      peers := ["a","b","c"].filter (· ≠ id) }

theorem triangleFresh : triangle.Fresh := ⟨fun _ => rfl,rfl⟩

def firstHop : List Action := [.submit "a" relayedTx 101,.deliver 0 102 false]

def bothPaths : List Action := firstHop ++ [.deliver 0 102 false,.deliver 0 103 false]

theorem honestRelayPunished : triangle.Fresh ∧
    (triangle.run bothPaths).2 =
      [⟨"b","a",.validTx⟩,⟨"c","a",.validTx⟩,⟨"c","b",.invalidTx⟩] ∧
    ((triangle.run bothPaths).1.nodes "c").reputation.getScore "b" = 90 ∧
    ¬∀ n, Network.Unpunished (triangle.run (bothPaths.take n)) := by
  have recorded : (triangle.run bothPaths).2 =
      [⟨"b","a",.validTx⟩,⟨"c","a",.validTx⟩,⟨"c","b",.invalidTx⟩] := by decide +kernel
  refine ⟨triangleFresh,recorded,by decide +kernel,fun unpunished => ?_⟩
  have whole := (unpunished bothPaths.length).entries
  rw [List.take_length,recorded] at whole
  exact absurd (whole ⟨"c","b",.invalidTx⟩ (by simp)) (by decide)

theorem firstHopUnpunished : (triangle.run firstHop).2 = [⟨"b","a",.validTx⟩] ∧
    ∀ n, Network.Unpunished (triangle.run (firstHop.take n)) := by
  have clean : triangle.Clean := fun _ => PeerReputation.spotlessNew
  have recorded : (triangle.run firstHop).2 = [⟨"b","a",.validTx⟩] := by decide +kernel
  refine ⟨recorded,(relaysUnpunished triangleFresh firstHop).mp ((Network.runClean clean firstHop).1.mpr ?_)⟩
  rw [recorded]
  decide

end Legacy

end Devnet

end QbitNetwork
