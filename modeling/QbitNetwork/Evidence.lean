import QbitNetwork.Replay

/-! Slashing and equivocation: evidence gets a validator slashed for any two different
messages its key signed; they are conflicting headers exactly where they name a height
and the validator. -/
namespace QbitNetwork

variable [Env]

section Checks

theorem headerHashCheckOk {headerLabel hashLabel header hash : String} {passed : Unit}
    (run : headerHashCheck headerLabel hashLabel header hash = .ok passed) :
    ∃ data, fromHex header = some data ∧ hex (sha3_256 data) = hash := by
  unfold headerHashCheck at run
  split at run
  · contradiction
  · rename_i data decoded
    exact ⟨data,decoded,not_not.mp ((refuseIfOk ..).mp run)⟩

theorem evidenceCheckDiffer {p : Payload} (run : evidenceCheck p = .ok ())
    {headerA headerB : Bytes} (decodedA : fromHex (p.blockAHeader.getD "") = some headerA)
    (decodedB : fromHex (p.blockBHeader.getD "") = some headerB) : headerA ≠ headerB := by
  simp only [evidenceCheck,Outcome.bindOk,refuseIfOk,hexField] at run
  obtain ⟨_,-,_,hashA,_,hashB,_,-,_,-,_,-,_,-,_,boundA,_,boundB,_,differ,-⟩ := run
  obtain ⟨dataA,foundA,hashedA⟩ := headerHashCheckOk boundA
  obtain ⟨dataB,foundB,hashedB⟩ := headerHashCheckOk boundB
  cases decodedA.symm.trans foundA
  cases decodedB.symm.trans foundB
  rintro rfl
  have same := hashedA.symm.trans hashedB
  cases a : p.blockAHash with
  | none => simp [a] at hashA
  | some x =>
    cases b : p.blockBHash with
    | none => simp [b] at hashB
    | some y => simp_all

theorem admittedEvidence {s : Blockchain} {block : Block} {tx : Transaction}
    (admitted : s.Admitted block tx) (kind : tx.txType = .EVIDENCE) :
    evidenceCheck tx.payload = .ok () := by
  have checked := (validatePayloadOk admitted.payload).2.2
  unfold typeCheck at checked
  simpa only [kind] using checked

theorem admittedRegistration {s : Blockchain} {block : Block} {tx : Transaction}
    (admitted : s.Admitted block tx) (kind : tx.txType = .REGISTER_VALIDATOR) :
    ∃ pk, fromHex (tx.payload.validatorPubkey.getD "") = some pk ∧
      tx.payload.validatorAddress.getD "" = deriveAddress pk ∧
      tx.sender = tx.payload.validatorAddress.getD "" := by
  have checked := (validatePayloadOk admitted.payload).2.2
  unfold typeCheck at checked
  simp only [kind,registerValidatorCheck,Outcome.bindOk,refuseIfOk] at checked
  obtain ⟨_,-,_,-,_,-,checked⟩ := checked
  split at checked
  · contradiction
  · rename_i pk decoded
    simp only [Outcome.bindOk,refuseIfOk] at checked
    obtain ⟨_,derived,_,sender,-⟩ := checked
    exact ⟨pk,decoded,not_not.mp derived,not_not.mp sender⟩

end Checks

section Domains

theorem headerNotSignable (block : Block) (tx : Transaction) :
    block.headerBytes ≠ tx.signableBytes := by
  have leastHeader : ∀ other ∈ ["index","merkleRoot","prevHash","receiptsRoot","stateRoot",
      "timestamp","txCount","validator"], (compare "baseFee" other).isLE = true := by
    decide +kernel
  have leastSignable : ∀ other ∈ ["from","maxFeePerWeight","maxPriorityFee","nonce","payload",
      "timestamp","to","type"], (compare "chainId" other).isLE = true := by decide +kernel
  obtain ⟨restA,header⟩ : ∃ tail, block.headerBytes = 123 :: (Json.dumpsStr "baseFee" ++ tail) := by
    unfold Block.headerBytes Block.headerJson Block.optionalField
    refine Json.dumpsObjHead (fun other inside => leastHeader other ?_)
    revert inside
    split <;> split <;> simp <;> tauto
  obtain ⟨restB,signable⟩ : ∃ tail, tx.signableBytes = 123 :: (Json.dumpsStr "chainId" ++ tail) := by
    unfold Transaction.signableBytes Transaction.signableJson
    exact Json.dumpsObjHead (fun other inside => leastSignable other (by simpa using inside))
  have keyA : Json.dumpsStr "baseFee" = [34,98,97,115,101,70,101,101,34] := by decide +kernel
  have keyB : Json.dumpsStr "chainId" = [34,99,104,97,105,110,73,100,34] := by decide +kernel
  rw [header,signable,keyA,keyB]
  simp

end Domains

structure Names (p : Payload) (v : Address) (a b : Block) : Prop where
  headerA : fromHex (p.blockAHeader.getD "") = some a.headerBytes
  headerB : fromHex (p.blockBHeader.getD "") = some b.headerBytes
  heightA : p.blockIndex = some a.index
  heightB : p.blockIndex = some b.index
  validatorA : a.validator = v
  validatorB : b.validator = v

namespace Staking

def SignedBy (k : Staking) (v : Address) (message : Bytes) (sigHex : Option String) : Prop :=
  ∃ vpk sig, k.validatorRegistry[v]? = some vpk ∧ fromHex (sigHex.getD "") = some sig ∧
    verifySig vpk message sig = true

def Equivocation (k : Staking) (p : Payload) (v : Address) : Prop :=
  ∃ a b, Names p v a b ∧ a.headerBytes ≠ b.headerBytes ∧ a.index = b.index ∧
    k.SignedBy v a.headerBytes p.blockASig ∧ k.SignedBy v b.headerBytes p.blockBSig

def Slashes (k : Staking) (tx : Transaction) (idx : Int) (v : Address) : Prop :=
  tx.txType = .EVIDENCE ∧ v ∉ k.slashedValidators ∧ v ∈ (k.processEvidenceTx tx idx).slashedValidators

theorem slashesIff {k : Staking} {tx : Transaction} {idx : Int} {v : Address} :
    k.Slashes tx idx v ↔ tx.txType = .EVIDENCE ∧ v ∉ k.slashedValidators ∧
      k.roster.Convicts tx ∧ v = Roster.target tx := by
  unfold Slashes
  refine and_congr_right fun _ => and_congr_right fun fresh => ?_
  have roster : v ∈ (k.processEvidenceTx tx idx).slashedValidators ↔
      v ∈ (k.processEvidenceTx tx idx).roster.slashed := Iff.rfl
  rw [roster,processEvidenceRoster]
  split
  · rename_i convicts
    constructor
    · rintro (same | old)
      · exact ⟨convicts,same⟩
      · exact absurd old fresh
    · rintro ⟨-,same⟩
      exact .inl same
  · rename_i spared
    constructor
    · intro old; exact absurd old fresh
    · rintro ⟨convicts,-⟩; exact absurd convicts spared

end Staking

namespace Blockchain

inductive Enters (s : Blockchain) (block : Block) (s' : Blockchain) : Prop where
  | accepted (step : Accepts s block s') : Enters s block s'
  | forked (now : Int) (parent : Option Block) (valid : s.validateBlock now block parent = .ok ())
      (appended : s.appendBlock block = .ok s') : Enters s block s'

theorem entersChecked {s s' : Blockchain} {block : Block} (step : Enters s block s')
    (later : block.index ≠ 0) : s.transactionsCheck block = .ok () := by
  cases step with
  | accepted step =>
    obtain ⟨c,grown⟩ := acceptsGrown step
    exact grown.checked later
  | forked now parent valid appended =>
    obtain ⟨_,-,-,-,-,-,txs⟩ := validateBlockOk later valid
    exact txs

/- The evidence of every slash in the block names blocks; in a genesis block, which nothing
validates, also two different ones. -/
def NamesBlocks (s : Blockchain) (block : Block) : Prop :=
  ∀ i tx t v, block.transactions[i]? = some tx →
    s.state.beforeTx block (s.height + 1) i = .ok t → t.staking.Slashes tx (s.height + 1) v →
    ∃ a b, Names tx.payload v a b ∧ (block.index = 0 → a.headerBytes ≠ b.headerBytes)

theorem slashedEquivocates {s s' : Blockchain} {block : Block} (step : Enters s block s') {i : Nat}
    {tx : Transaction} {k : Staking} {v : Address} (found : block.transactions[i]? = some tx)
    (slashes : k.Slashes tx (s.height + 1) v) {a b : Block} (names : Names tx.payload v a b)
    (genesis : block.index = 0 → a.headerBytes ≠ b.headerBytes) :
    k.Equivocation tx.payload v := by
  obtain ⟨kind,-,convicts,rfl⟩ := Staking.slashesIff.mp slashes
  obtain ⟨-,-,vpk,headerA,headerB,registered,signed⟩ := convicts
  cases names.headerA.symm.trans signed.decodedA
  cases names.headerB.symm.trans signed.decodedB
  have differ : a.headerBytes ≠ b.headerBytes := by
    by_cases first : block.index = 0
    · exact genesis first
    · have admitted := transactionsCheckMem (entersChecked step first) tx
        (List.mem_of_getElem? found)
      exact evidenceCheckDiffer (admittedEvidence admitted kind) names.headerA names.headerB
  obtain ⟨sigA,decodedA,verifiesA⟩ := signed.signedA
  obtain ⟨sigB,decodedB,verifiesB⟩ := signed.signedB
  have height : a.index = b.index := Option.some.inj (names.heightA.symm.trans names.heightB)
  exact ⟨a,b,names,differ,height,⟨vpk,sigA,registered,decodedA,verifiesA⟩,
    ⟨vpk,sigB,registered,decodedB,verifiesB⟩⟩

structure Honest (v : Address) (published : Set Bytes) : Prop where
  unforgeable : ∀ pk message sig, deriveAddress pk = v → verifySig pk message sig = true →
    message ∈ published
  once : ∀ a b : Block, a.headerBytes ∈ published → b.headerBytes ∈ published →
    a.validator = v → b.validator = v → a.index = b.index → a.headerBytes = b.headerBytes

def Clear (v : Address) (r : Roster) : Prop :=
  (∀ pk, r.keyOf v = some pk → deriveAddress pk = v) ∧ v ∉ r.slashed

theorem clearStep {s s' : Blockchain} {block : Block} (step : Enters s block s')
    (later : block.index ≠ 0) {v : Address} {published : Set Bytes} (honest : Honest v published)
    {i : Nat} {tx : Transaction} {k : Staking} (found : block.transactions[i]? = some tx)
    (named : ∀ v, k.Slashes tx (s.height + 1) v → ∃ a b, Names tx.payload v a b ∧
      (block.index = 0 → a.headerBytes ≠ b.headerBytes))
    (clear : Clear v k.roster) : Clear v (k.roster.step tx) := by
  obtain ⟨derived,free⟩ := clear
  have admitted := transactionsCheckMem (entersChecked step later) tx (List.mem_of_getElem? found)
  cases kind : tx.txType <;> simp only [Roster.step,kind]
  case REGISTER_VALIDATOR =>
    obtain ⟨vpk,decoded,derives,-⟩ := admittedRegistration admitted kind
    refine ⟨fun pk known => ?_,by rw [Roster.registerSlashed]; exact free⟩
    rcases Roster.registerKeyOf known with old | ⟨same,registered⟩
    · exact derived pk old
    · cases registered.symm.trans decoded
      rw [same,← derives]
  case REVOKE_KEY => exact ⟨fun pk known => derived pk (Roster.revokeKeyOf known),free⟩
  case EVIDENCE =>
    split
    · rename_i convicts
      refine ⟨derived,?_⟩
      rintro (same | old)
      · have slashes : k.Slashes tx (s.height + 1) v :=
          Staking.slashesIff.mpr ⟨kind,free,convicts,same⟩
        obtain ⟨a,b,names,genesis⟩ := named v slashes
        obtain ⟨a,b,names,differ,height,signedA,signedB⟩ :=
          slashedEquivocates step found slashes names genesis
        obtain ⟨vpkA,sigA,registeredA,-,verifiesA⟩ := signedA
        obtain ⟨vpkB,sigB,registeredB,-,verifiesB⟩ := signedB
        exact differ (honest.once a b
          (honest.unforgeable vpkA _ sigA (derived vpkA registeredA) verifiesA)
          (honest.unforgeable vpkB _ sigB (derived vpkB registeredB) verifiesB)
          names.validatorA names.validatorB height)
      · exact free old
    · exact ⟨derived,free⟩
  case STAKE => split <;> exact ⟨derived,free⟩
  case DELEGATE => split <;> exact ⟨derived,free⟩
  case UNSTAKE => split <;> exact ⟨derived,free⟩
  all_goals exact ⟨derived,free⟩

theorem clearRun {v : Address} {published : Set Bytes} (honest : Honest v published)
    {s s' : Blockchain} (built : Built s) (started : 0 ≤ s.height)
    (clear : Clear v s.state.staking.roster) (run : Runs NamesBlocks s s') :
    Clear v s'.state.staking.roster ∧ 0 ≤ s'.height := by
  induction run with
  | refl => exact ⟨clear,started⟩
  | @tail mid next prior step ih =>
    obtain ⟨before,height⟩ := ih
    have coherent := builtCoherent (Runs.built built prior)
    cases step with
    | submit now tx =>
      rw [submitState,(submitTip mid now tx).1]
      exact ⟨before,height⟩
    | accept block step names =>
      obtain ⟨c,grown⟩ := acceptsGrown step
      have position := acceptsPosition coherent step
      refine ⟨?_,by rw [grown.height]; omega⟩
      rw [acceptsRoster step]
      refine Roster.runWhole before (fun i tx found holds => ?_)
      obtain ⟨t,reached⟩ := ChainState.beforeTxReached grown.applied i
      rw [← ChainState.beforeTxRoster reached] at holds ⊢
      exact clearStep (.accepted step) (by omega) honest found
        (fun v slashes => names i tx t v found reached slashes) holds

theorem slashingPunishesIff :
    (∀ s s' block i tx t v, Enters s block s' → block.transactions[i]? = some tx →
      s.state.beforeTx block (s.height + 1) i = .ok t → t.staking.Slashes tx (s.height + 1) v →
      (t.staking.Equivocation tx.payload v ↔
        ∃ a b, Names tx.payload v a b ∧ (block.index = 0 → a.headerBytes ≠ b.headerBytes))) ∧
    (∀ v published s s', Honest v published → Built s → 0 ≤ s.height →
      (∀ pk, s.state.staking.validatorRegistry[v]? = some pk → deriveAddress pk = v) →
      v ∉ s.state.staking.slashedValidators → Runs NamesBlocks s s' →
      v ∉ s'.state.staking.slashedValidators) := by
  constructor
  · intro s s' block i tx t v step found _ slashes
    constructor
    · rintro ⟨a,b,names,differ,-,-,-⟩
      exact ⟨a,b,names,fun _ => differ⟩
    · rintro ⟨a,b,names,genesis⟩
      exact slashedEquivocates step found slashes names genesis
  · intro v published s s' honest built started derived free run
    exact (clearRun honest built started ⟨derived,free⟩ run).1.2

end Blockchain

end QbitNetwork

namespace QbitNetwork.Devnet
attribute [local instance] legacy
open Blockchain

def accusation : Transaction :=
  Transaction.sign
    { txType := .EVIDENCE
      sender := address
      payload :=
        { blockAHash := some (notarization 0).txId
          blockAHeader := some (hex (notarization 0).signableBytes)
          blockASig := some (hex (notarization 0).signature)
          blockBHash := some (notarization 1).txId
          blockBHeader := some (hex (notarization 1).signableBytes)
          blockBSig := some (hex (notarization 1).signature)
          blockIndex := some 1
          evidenceType := some "double_sign"
          validatorAddress := some address }
      timestamp := 101 } key key

def accused : Blockchain := (active.submitTx 101 accusation).2

def convicted : Blockchain := (accused.produceBlock address key 102 102).2

def headerA : Option Bytes := fromHex (accusation.payload.blockAHeader.getD "")

def quietAddress : Address := deriveAddress quietKey

def slashesAt (reached : Except (Fault ChainState) ChainState) (idx : Int) (v : Address) : Bool :=
  match reached with
  | .ok t => decide (v ∉ t.staking.slashedValidators ∧
      v ∈ (t.staking.processEvidenceTx accusation idx).slashedValidators)
  | .error _ => false

theorem accusationRun :
    ((accused.produceBlock address key 102 102).1 = .accepted ∧ convicted.latestBlock.isSome = true ∧
      convicted.tipBlock.transactions = [accusation]) ∧
    (address ∉ accused.state.staking.slashedValidators ∧ address ∈ convicted.state.staking.slashedValidators ∧
      convicted.state.staking.totalStake.get address < accused.state.staking.totalStake.get address ∧
      headerA = some (notarization 0).signableBytes) ∧
    (0 ≤ active.height ∧ quietAddress ∉ active.state.staking.slashedValidators ∧
      active.state.staking.validatorRegistry[quietAddress]? = none) ∧
    slashesAt (accused.state.beforeTx convicted.tipBlock (accused.height + 1) 0) (accused.height + 1) address = true := by
  decide +kernel

theorem convicts : Accepts accused convicted.tipBlock convicted ∧
    convicted.tipBlock.transactions = [accusation] := by
  obtain ⟨answer,made,transactions⟩ := accusationRun.1
  exact ⟨producedAccepts (by rw [convicted]) answer made,transactions⟩

theorem accusedBuilt : Built accused := by
  rw [accused]
  exact .submit 101 accusation activeBuilt

theorem slashedWithoutEquivocation :
    Built accused ∧ Accepts accused convicted.tipBlock convicted ∧
      convicted.tipBlock.transactions = [accusation] ∧
      address ∉ accused.state.staking.slashedValidators ∧
      address ∈ convicted.state.staking.slashedValidators ∧
      convicted.state.staking.totalStake.get address <
        accused.state.staking.totalStake.get address ∧
      ∀ k, ¬Staking.Equivocation k accusation.payload address := by
  obtain ⟨free,slashed,cut,decoded⟩ := accusationRun.2.1
  refine ⟨accusedBuilt,convicts.1,convicts.2,free,slashed,cut,?_⟩
  rintro k ⟨a,b,names,-⟩
  have header := names.headerA
  rw [← headerA,decoded] at header
  exact headerNotSignable a (notarization 0) (Option.some.inj header).symm

theorem quietHonest : Honest quietAddress ∅ where
  unforgeable := by
    intro pk message sig derived verifies
    have same : hash pk = hash quietKey := deriveAddressHash derived
    have verified : (sig == pk ++ hash message && hash pk != hash quietKey) = true := by
      unfold verifySig at verifies
      exact (Bool.and_eq_true_iff.mp verifies).2
    simp [same] at verified
  once := by
    intro a b published
    cases published

theorem slashingPunishesDevnet :
    quietAddress ∉ notarized.state.staking.slashedValidators ∧
      ∃ t, accused.state.beforeTx convicted.tipBlock (accused.height + 1) 0 = .ok t ∧
        (t.staking.Equivocation accusation.payload address ↔
          ∃ a b, Names accusation.payload address a b ∧
            (convicted.tipBlock.index = 0 → a.headerBytes ≠ b.headerBytes)) := by
  constructor
  · obtain ⟨height,free,unknown⟩ := accusationRun.2.2.1
    refine slashingPunishesIff.2 quietAddress ∅ active notarized quietHonest activeBuilt height
      (fun pk known => ?_) free (notarizedRun ?_)
    · rw [unknown] at known
      cases known
    · intro i tx t v found _ slashes
      rw [notarizes.2] at found
      have only : tx = notarization 0 := List.mem_singleton.mp (List.mem_of_getElem? found)
      have kind : tx.txType = .NOTARIZE := by rw [only,notarization,Transaction.sign]
      rw [slashes.1] at kind
      cases kind
  · obtain ⟨step,transactions⟩ := convicts
    obtain ⟨c,grown⟩ := acceptsGrown step
    obtain ⟨t,reached⟩ := ChainState.beforeTxReached grown.applied 0
    have slashes := accusationRun.2.2.2
    rw [reached] at slashes
    refine ⟨t,reached,slashingPunishesIff.1 accused convicted _ 0 accusation t address
      (.accepted step) (by rw [transactions]; rfl) reached ⟨?_,of_decide_eq_true slashes⟩⟩
    rw [accusation,Transaction.sign]

end QbitNetwork.Devnet
