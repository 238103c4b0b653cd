import QbitNetwork.Chain

/-! The calls a node answers, and the states it reaches by them. -/
namespace QbitNetwork

def PyExc.Caught (e : PyExc) : Prop := ∃ message, e = .valueError message

inductive Reply.Ended : Reply → Prop where
  | accepted : Ended .accepted
  | refused (message : String) : Ended (.refused message)
  | failed (message : String) : Ended (.raised (.valueError message))

theorem Reply.Ended.caught {e : PyExc} (ended : (Reply.raised e).Ended) : e.Caught := by
  cases ended
  exact ⟨_,rfl⟩

instance endedDecidable : (r : Reply) → Decidable r.Ended
  | .accepted => isTrue .accepted
  | .refused message => isTrue (.refused message)
  | .raised (.valueError message) => isTrue (.failed message)
  | .raised (.keyError _) => isFalse (fun ended => nomatch ended)
  | .raised .overflowError => isFalse (fun ended => nomatch ended)
  | .raised .integrityError => isFalse (fun ended => nomatch ended)
  | .raised .attributeError => isFalse (fun ended => nomatch ended)
  | .raised .typeError => isFalse (fun ended => nomatch ended)
  | .raised .recursionError => isFalse (fun ended => nomatch ended)
  | .raised .osError => isFalse (fun ended => nomatch ended)

inductive Call where
  | initChain (address : Address) (sk pk : Bytes) (now : Int)
  | activate (address : Address)
  | submit (now : Int) (tx : Transaction)
  | produce (address : Address) (sk : Bytes) (now later : Int)
  | receive (block : Block) (now : Int)
  | rollback (target : Int)
  | reorg (fork : List Block) (now : Int)

namespace Blockchain
variable [Env]

def answered : Except (Fault Blockchain) Blockchain → Reply × Blockchain
  | .ok s => (.accepted,s)
  | .error r => (.raised r.exception,r.state)

def perform (s : Blockchain) : Call → Reply × Blockchain
  | .initChain address sk pk now => answered (s.initChain address sk pk now)
  | .activate address => answered (s.activateFinancialLayer address)
  | .submit now tx => s.submitTx now tx
  | .produce address sk now later => s.produceBlock address sk now later
  | .receive block now => s.addBlock block now
  | .rollback target => answered (s.rollbackTo target)
  | .reorg fork now => s.tryReorg fork now

inductive Reached (meets : Blockchain → Call → Prop) (start : Blockchain) : Blockchain → Prop where
  | start : Reached meets start start
  | call {s : Blockchain} (c : Call) (prior : Reached meets start s) (met : meets s c)
      (ended : (s.perform c).1.Ended) : Reached meets start (s.perform c).2

theorem reachedInvariant {meets : Blockchain → Call → Prop} {start : Blockchain}
    (holds : Blockchain → Prop) (begins : holds start)
    (kept : ∀ s c, holds s → meets s c → (s.perform c).1.Ended → holds (s.perform c).2)
    {s : Blockchain} (reached : Reached meets start s) : holds s := by
  induction reached with
  | start => exact begins
  | call c _ met ended ih => exact kept _ c ih met ended

section Calls
variable {meets : Blockchain → Call → Prop} {start s : Blockchain}

theorem Reached.initChain (prior : Reached meets start s) (address : Address) (sk pk : Bytes) (now : Int)
    (met : meets s (.initChain address sk pk now)) {s' : Blockchain}
    (run : s.initChain address sk pk now = .ok s') : Reached meets start s' := by
  have ended : (s.perform (.initChain address sk pk now)).1.Ended := by
    rw [perform,run]
    exact .accepted
  have next := Reached.call (.initChain address sk pk now) prior met ended
  rwa [perform,run] at next

theorem Reached.activate (prior : Reached meets start s) (address : Address)
    (met : meets s (.activate address)) {s' : Blockchain}
    (run : s.activateFinancialLayer address = .ok s') : Reached meets start s' := by
  have ended : (s.perform (.activate address)).1.Ended := by
    rw [perform,run]
    exact .accepted
  have next := Reached.call (.activate address) prior met ended
  rwa [perform,run] at next

theorem Reached.submit (prior : Reached meets start s) (now : Int) (tx : Transaction)
    (met : meets s (.submit now tx)) (ended : (s.submitTx now tx).1.Ended) :
    Reached meets start (s.submitTx now tx).2 := .call (.submit now tx) prior met ended

theorem Reached.produce (prior : Reached meets start s) (address : Address) (sk : Bytes)
    (now later : Int) (met : meets s (.produce address sk now later))
    (ended : (s.produceBlock address sk now later).1.Ended) :
    Reached meets start (s.produceBlock address sk now later).2 :=
  .call (.produce address sk now later) prior met ended

theorem Reached.receive (prior : Reached meets start s) (block : Block) (now : Int)
    (met : meets s (.receive block now)) (ended : (s.addBlock block now).1.Ended) :
    Reached meets start (s.addBlock block now).2 := .call (.receive block now) prior met ended

theorem Reached.reorg (prior : Reached meets start s) (fork : List Block) (now : Int)
    (met : meets s (.reorg fork now)) (ended : (s.tryReorg fork now).1.Ended) :
    Reached meets start (s.tryReorg fork now).2 := .call (.reorg fork now) prior met ended

end Calls

end Blockchain

end QbitNetwork
