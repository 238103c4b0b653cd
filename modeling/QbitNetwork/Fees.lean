import QbitNetwork.Transaction

/-! EIP-1559 fee arithmetic. Every divisor is positive, where `/` on `Int` rounds
down as Python's `//` does. -/
namespace QbitNetwork

def effectiveBlockWeight (transactions : List Transaction) (validatorAddress : Address) : Int :=
  ((transactions.filter (fun tx => tx.sender ≠ validatorAddress)).map
    (fun tx => txWeights tx.txType)).sum

def blockTotalWeight (transactions : List Transaction) : Int :=
  (transactions.map (fun tx => txWeights tx.txType)).sum

def computeBaseFee (parentBaseFee parentEffectiveWeight : Int) (targetWeight : Int := targetBlockWeight) : Int :=
  let newFee :=
    if parentEffectiveWeight = targetWeight then parentBaseFee
    else if targetWeight < parentEffectiveWeight then
      let delta := parentEffectiveWeight - targetWeight
      parentBaseFee + max 1 (parentBaseFee * delta / targetWeight / baseFeeChangeDenom)
    else
      let delta := targetWeight - parentEffectiveWeight
      parentBaseFee - parentBaseFee * delta / targetWeight / baseFeeChangeDenom
  max minBaseFee (min newFee maxBaseFee)

def computeTxFee (baseFee maxFeePerWeight maxPriorityFee weight : Int) : Int :=
  if weight = 0 then 0
  else (baseFee + max 0 (min maxPriorityFee (maxFeePerWeight - baseFee))) * weight

def txFee (dynamic : Bool) (baseFee : Int) (tx : Transaction) : Int :=
  if dynamic then
    computeTxFee baseFee tx.maxFeePerWeight tx.maxPriorityFee (txWeights tx.txType)
  else txFees tx.txType

/- The validator's part; the rest of a legacy fee is burned. -/
def validatorShare (dynamic : Bool) (fee : Int) : Int := if dynamic then fee else fee / 2

theorem baseFeeBounds (parentBaseFee parentEffectiveWeight targetWeight : Int) :
    minBaseFee ≤ computeBaseFee parentBaseFee parentEffectiveWeight targetWeight ∧
      computeBaseFee parentBaseFee parentEffectiveWeight targetWeight ≤ maxBaseFee := by
  have ordered : minBaseFee ≤ maxBaseFee := by decide
  constructor
  · exact le_max_left ..
  · exact max_le ordered (min_le_right ..)

theorem computeTxFeeNonneg {baseFee maxFeePerWeight maxPriorityFee weight : Int}
    (base : 0 ≤ baseFee) (heavy : 0 ≤ weight) :
    0 ≤ computeTxFee baseFee maxFeePerWeight maxPriorityFee weight := by
  unfold computeTxFee
  split
  · exact le_refl 0
  · exact Int.mul_nonneg (Int.add_nonneg base (le_max_left ..)) heavy

theorem txFeeNonneg {dynamic : Bool} {baseFee : Int} (base : 0 ≤ baseFee) (tx : Transaction) :
    0 ≤ txFee dynamic baseFee tx := by
  unfold txFee
  split
  · exact computeTxFeeNonneg base (txWeightsNonneg _)
  · exact txFeesNonneg _

end QbitNetwork
