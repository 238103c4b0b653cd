import QbitNetwork.Runs

/-! What the checks on a block leave true of each of its transactions. -/
namespace QbitNetwork

variable [Env]

theorem validatePayloadOk {tx : Transaction} (run : tx.validatePayload = .ok ()) :
    tx.payload.keys.filter (fun key => key ∉ allowedKeys tx.txType) = [] ∧
      bigIntegerGuards tx = .ok () ∧ typeCheck tx = .ok () := by
  simp only [Transaction.validatePayload,Outcome.bindOk,refuseIfOk] at run
  obtain ⟨_,-,_,known,_,guards,checked⟩ := run
  exact ⟨not_not.mp known,guards,checked⟩

omit [Env] in
theorem amountOfOk {p : Payload} {message : String} {amount : Int}
    (run : amountOf p message = .ok amount) : p.amount = some amount := by
  unfold amountOf at run
  split at run
  · contradiction
  · rename_i found
    cases run
    exact found

omit [Env] in
theorem stakeAmountCheckOk {p : Payload} (run : stakeAmountCheck p = .ok ()) :
    1 ≤ p.amount.getD 0 ∧ p.amount.getD 0 ≤ maxStake ∧ p.validatorAddress.getD "" ≠ "" := by
  simp only [stakeAmountCheck,Outcome.bindOk,refuseIfOk] at run
  obtain ⟨amount,found,_,least,_,most,named⟩ := run
  rw [amountOfOk found]
  have unit : minStake = 1 := rfl
  exact ⟨by simp only [Option.getD_some]; omega,by simp only [Option.getD_some]; omega,named⟩

omit [Env] in
theorem positiveAmountCheckOk {p : Payload} (run : positiveAmountCheck p = .ok ()) :
    ∃ amount, p.amount = some amount ∧ 0 < amount := by
  simp only [positiveAmountCheck,Outcome.bindOk,refuseIfOk] at run
  obtain ⟨amount,found,_,positive,-⟩ := run
  exact ⟨amount,amountOfOk found,by omega⟩

namespace Blockchain

structure Admitted (s : Blockchain) (block : Block) (tx : Transaction) : Prop where
  signed : tx.verify = true
  chain : tx.chainId = chainId
  fresh : tx.txId ∉ s.state.index.chainTxIds
  payload : tx.validatePayload = .ok ()
  fee : ¬(dynamicActive block.index = true ∧ 0 < txWeights tx.txType ∧
    tx.maxFeePerWeight < block.baseFee)
  unrevoked : s.isKeyRevoked tx.sender "signing" = false

theorem payloadCheckOk {label : String} {tx : Transaction}
    (run : payloadCheck label tx = .ok ()) : tx.validatePayload = .ok () := by
  unfold payloadCheck at run
  split at run
  · contradiction
  · exact run

theorem txCheckOk {s : Blockchain} {block : Block} {seen seen' : Seen} {tx : Transaction}
    (run : s.txCheck block seen tx = .ok seen') :
    Admitted s block tx ∧ tx.txId ∉ seen.ids ∧ seen.nonceGap tx = false ∧ seen' = seen.add tx := by
  simp only [txCheck,Outcome.bindOk,refuseIfOk] at run
  obtain ⟨_,signed,_,chain,_,new,_,fresh,_,payload,_,fee,_,unrevoked,_,gap,run⟩ := run
  cases run
  refine ⟨⟨by simpa using signed,by simpa using chain,fresh,payloadCheckOk payload,?_,by
    simpa using unrevoked⟩,new,by simpa using gap,rfl⟩
  exact fee

theorem foldTxCheckMem {s : Blockchain} {block : Block} {txs : List Transaction}
    {seen seen' : Seen} (run : txs.foldlM (s.txCheck block) seen = .ok seen') :
    ∀ tx ∈ txs, Admitted s block tx := by
  induction txs generalizing seen with
  | nil => simp
  | cons tx rest ih =>
    rw [List.foldlM_cons,Outcome.bindOk] at run
    obtain ⟨mid,first,later⟩ := run
    intro other inside
    rcases List.mem_cons.mp inside with rfl | inside
    · exact (txCheckOk first).1
    · exact ih later other inside

theorem transactionsCheckMem {s : Blockchain} {block : Block}
    (run : s.transactionsCheck block = .ok ()) : ∀ tx ∈ block.transactions, Admitted s block tx := by
  obtain ⟨seen,loop,-⟩ := Outcome.bindOk .. |>.mp run
  exact foldTxCheckMem loop

end Blockchain

end QbitNetwork
