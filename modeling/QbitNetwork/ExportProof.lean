import QbitNetwork.Codec
import QbitNetwork.Decoding
import QbitNetwork.JsonLayout
import QbitNetwork.MerkleProof
import QbitNetwork.Proof

/-! Notarization proofs made from a block: every one of them passes verification, as it is and
after any round trip through JSON. -/
namespace QbitNetwork

section Export
variable [Env]

def proofVersion : Int := 1

def serializedPath (path : List (Bytes × Bool)) : Json :=
  .arr (path.map (fun step => .obj [("hash",.str (hex step.1)),("is_left",.bool step.2)]))

/- `bytes.fromhex(tx["id"])`. -/
def listedHash (tx : Json) : Except PyExc Bytes := do
  let id ← tx.item "id"
  id.fromHexValue

def exportedBlock (blockDict : Json) (txCount : Nat) : Except PyExc Json := do
  let index ← blockDict.item "index"
  let timestamp ← blockDict.item "timestamp"
  let hash ← blockDict.item "hash"
  let prevHash ← blockDict.item "prevHash"
  let merkleRoot ← blockDict.item "merkleRoot"
  let baseFee ← blockDict.get "baseFee" (.int 0)
  let stateRoot ← blockDict.get "stateRoot" (.str "")
  let receiptsRoot ← blockDict.get "receiptsRoot" (.str "")
  let validator ← blockDict.item "validator"
  let signature ← blockDict.item "signature"
  .ok (.obj
    [("index",index),("timestamp",timestamp),("hash",hash),("prevHash",prevHash),("merkleRoot",merkleRoot),
     ("baseFee",baseFee),("stateRoot",stateRoot),("receiptsRoot",receiptsRoot),("validator",validator),
     ("signature",signature),("txCount",.int txCount)])

/- `export_proof`; `none` is an exception. -/
def exportProof (blockDict : Json) (txIndex : Nat) (txId documentHash notarizer : String)
    (validatorPubkey : String := "") : Option Json := do
  let listed ← (blockDict.item "transactions").toOption
  let transactions ← listed.entries.toOption
  let txHashes ← (transactions.mapM listedHash).toOption
  let txDict ← transactions[txIndex]?
  let block ← (exportedBlock blockDict transactions.length).toOption
  let notarizerPubkey ← (txDict.get "sender_pubkey" (.str "")).toOption
  some (.obj
    ([("version",.int proofVersion),("type",.str proofType),("chain_id",.str chainId),
      ("document_hash",.str documentHash),("tx_id",.str txId),("block",block),
      ("merkle_proof",serializedPath (merkleProof txHashes txIndex)),("notarizer",.str notarizer),
      ("notarizer_pubkey",notarizerPubkey)] ++
     (if validatorPubkey = "" then [] else [("validator_pubkey",.str validatorPubkey)])))

end Export

theorem Json.getListed {fields : List (String × Json)} {key : String} {value : Json}
    (distinct : (fields.map Prod.fst).Nodup) (inside : (key,value) ∈ fields) (dflt : Json) :
    (Json.obj fields).get key dflt = .ok value := by
  have found : Json.lookup fields key = some value := by
    cases row : fields.find? (fun row => row.1 = key) with
    | none => exact absurd (decide_eq_true rfl) (List.find?_eq_none.mp row (key,value) inside)
    | some other =>
      have keyed := List.find?_some row
      replace keyed : other.1 = key := of_decide_eq_true keyed
      rw [Json.lookup,row,List.inj_on_of_nodup_map distinct (List.mem_of_find?_eq_some row) inside keyed]
      rfl
  rw [Json.get,found]
  rfl

section Rows
variable [Env]

theorem listedHashes (txs : List RawTransaction) :
    (txs.map RawTransaction.toDict).mapM listedHash = .ok (txs.map RawTransaction.txHash) := by
  induction txs with
  | nil => rfl
  | cons tx txs ih =>
    have first : listedHash tx.toDict = .ok tx.txHash := by
      simp [listedHash,RawTransaction.toDict,Json.item,Json.lookup,Json.fromHexValue,RawTransaction.txId,
        Json.fromHexHex,bind,Except.bind]
    rw [List.map_cons,List.mapM_cons,first,ih]
    rfl

def RawBlock.proofBlock (block : RawBlock) : Json := .obj
  [("index",block.index.toJson),("timestamp",block.timestamp.toJson),("hash",.str block.blockHash),
   ("prevHash",block.prevHash),("merkleRoot",.str block.merkleRoot),("baseFee",.int block.baseFee),
   ("stateRoot",block.stateRoot),("receiptsRoot",block.receiptsRoot),("validator",block.validator),
   ("signature",.str (hex block.signature)),("txCount",.int block.transactions.length)]

theorem proofBlockGet (block : RawBlock) :
    block.proofBlock.get "merkleRoot" (.str "") = .ok (.str block.merkleRoot) ∧
      block.proofBlock.get "hash" (.str "") = .ok (.str block.blockHash) ∧
      block.proofBlock.get "signature" (.str "") = .ok (.str (hex block.signature)) := by
  simp [RawBlock.proofBlock,Json.get,Json.lookup]

theorem exportedRows (block : RawBlock) :
    exportedBlock block.toDict block.transactions.length = .ok block.proofBlock := by
  simp [exportedBlock,RawBlock.toDict,Json.item,Json.get,Json.lookup,bind,Except.bind,RawBlock.proofBlock]

theorem exportedHeader (block : RawBlock) : headerPart block.proofBlock = .ok block.headerJson := by
  simp [headerPart,RawBlock.proofBlock,Json.item,Json.get,Json.lookup,optionalRoot,bind,Except.bind,
    RawBlock.headerJson,RawBlock.presentRoot]

omit [Env] in
theorem serializedSteps (path : List (Bytes × Bool)) :
    (path.map (fun step => Json.obj [("hash",.str (hex step.1)),("is_left",.bool step.2)])).mapM proofStep =
      .ok path := by
  induction path with
  | nil => rfl
  | cons step path ih =>
    have first : proofStep (.obj [("hash",.str (hex step.1)),("is_left",.bool step.2)]) = .ok step := by
      simp [proofStep,Json.item,Json.lookup,Json.fromHexValue,Json.fromHexHex,Json.truthy,bind,Except.bind]
    rw [List.map_cons,List.mapM_cons,first,ih]
    rfl

end Rows

section Signed
variable [Env]

def RawBlock.proofRows (block : RawBlock) (txIndex : Nat) (tx : RawTransaction)
    (documentHash notarizer : String) (validatorPk : Bytes) : List (String × Json) :=
  [("version",.int proofVersion),("type",.str proofType),("chain_id",.str chainId),
   ("document_hash",.str documentHash),("tx_id",.str tx.txId),("block",block.proofBlock),
   ("merkle_proof",serializedPath (merkleProof (block.transactions.map RawTransaction.txHash) txIndex)),
   ("notarizer",.str notarizer),("notarizer_pubkey",.str (hex tx.senderPubkey)),
   ("validator_pubkey",.str (hex validatorPk))]

variable {block : RawBlock} {txIndex : Nat} {tx : RawTransaction} {documentHash notarizer : String}
  {validatorPk : Bytes}

theorem proofRowsDistinct : ((block.proofRows txIndex tx documentHash notarizer validatorPk).map Prod.fst).Nodup := by
  have keys : (block.proofRows txIndex tx documentHash notarizer validatorPk).map Prod.fst =
      ["version","type","chain_id","document_hash","tx_id","block","merkle_proof","notarizer","notarizer_pubkey",
        "validator_pubkey"] := rfl
  rw [keys]
  decide

theorem exportedProof (listed : block.transactions[txIndex]? = some tx) (keyed : hex validatorPk ≠ "") :
    exportProof block.toDict txIndex tx.txId documentHash notarizer (hex validatorPk) =
      some (.obj (block.proofRows txIndex tx documentHash notarizer validatorPk)) := by
  have transactions : block.toDict.item "transactions" = .ok (.arr (block.transactions.map RawTransaction.toDict)) := by
    simp [RawBlock.toDict,Json.item,Json.lookup]
  have pubkey : tx.toDict.get "sender_pubkey" (.str "") = .ok (.str (hex tx.senderPubkey)) := by
    simp [RawTransaction.toDict,Json.get,Json.lookup]
  have found : (block.transactions.map RawTransaction.toDict)[txIndex]? = some tx.toDict := by
    rw [List.getElem?_map,listed]
    rfl
  simp only [exportProof,transactions,Except.toOption,Option.bind_eq_bind,Option.bind_some,Json.entries,
    listedHashes,found,List.length_map,exportedRows,pubkey,if_neg keyed]
  rfl

theorem exportedFields {proof : Json} (made : proof = .obj (block.proofRows txIndex tx documentHash notarizer validatorPk))
    (dflt : Json) :
    proof.get "type" dflt = .ok (.str proofType) ∧ proof.get "version" dflt = .ok (.int proofVersion) ∧
      proof.get "chain_id" dflt = .ok (.str chainId) ∧ proof.get "tx_id" dflt = .ok (.str tx.txId) ∧
      proof.get "block" dflt = .ok block.proofBlock ∧
      proof.get "merkle_proof" dflt =
        .ok (serializedPath (merkleProof (block.transactions.map RawTransaction.txHash) txIndex)) ∧
      proof.get "validator_pubkey" dflt = .ok (.str (hex validatorPk)) := by
  subst made
  have row : ∀ {key : String} {value : Json}, (key,value) ∈ block.proofRows txIndex tx documentHash notarizer validatorPk →
      (Json.obj (block.proofRows txIndex tx documentHash notarizer validatorPk)).get key dflt = .ok value :=
    fun inside => Json.getListed proofRowsDistinct inside dflt
  refine ⟨row ?_,row ?_,row ?_,row ?_,row ?_,row ?_,row ?_⟩ <;> simp [RawBlock.proofRows]

theorem exportedMerkle : merklePart (.obj (block.proofRows txIndex tx documentHash notarizer validatorPk)) =
    .ok (tx.txHash,merkleProof (block.transactions.map RawTransaction.txHash) txIndex,
      merkleRoot (block.transactions.map RawTransaction.txHash)) := by
  obtain ⟨root,-,-⟩ := proofBlockGet block
  have fields := exportedFields (show Json.obj (block.proofRows txIndex tx documentHash notarizer validatorPk) =
    .obj (block.proofRows txIndex tx documentHash notarizer validatorPk) from rfl)
  rw [merklePart,(fields _).2.2.2.1,(fields _).2.2.2.2.1,(fields _).2.2.2.2.2.1]
  simp only [root,serializedPath,Json.entries,bind,Except.bind,serializedSteps,Json.fromHexValue,
    RawTransaction.txId,RawBlock.merkleRoot,Json.fromHexHex]

theorem exportedPasses [PyText] (listed : block.transactions[txIndex]? = some tx)
    (signed : block.verifySignature validatorPk = true) :
    verifyProof (.obj (block.proofRows txIndex tx documentHash notarizer validatorPk)) = .ok (true,[]) := by
  have climbs : verifyMerkleProof tx.txHash (merkleProof (block.transactions.map RawTransaction.txHash) txIndex)
      (merkleRoot (block.transactions.map RawTransaction.txHash)) = true :=
    merkleProofVerifies (by rw [List.getElem?_map,listed]; rfl)
  have claimed : hashErrors (hex (sha3_256 block.headerJson.dumps)) (.str block.blockHash) = .ok [] :=
    if_pos (Json.equalStrRefl _)
  have accepted : signatureErrors (.str (hex validatorPk)) (.str (hex block.signature)) block.headerJson.dumps = [] := by
    simp only [signatureErrors,Json.fromHexValue,Json.fromHexHex]
    split
    · exact if_pos signed
    · rfl
  have chain : chainIdErrors (.str chainId) = [] := by
    simp only [chainIdErrors,Json.equalStrRefl,if_true]
  have current : Json.less (.int proofVersion) (.int 1) = .ok false := rfl
  obtain ⟨-,hash,signature⟩ := proofBlockGet block
  have fields := exportedFields (show Json.obj (block.proofRows txIndex tx documentHash notarizer validatorPk) =
    .obj (block.proofRows txIndex tx documentHash notarizer validatorPk) from rfl)
  rw [verifyProof,(fields _).1,(fields _).2.1,(fields _).2.2.1,(fields _).2.2.2.2.1,(fields _).2.2.2.2.2.2,exportedMerkle]
  simp only [bind,Except.bind,Json.equalStrRefl,current,exportedHeader,hash,signature,climbs,claimed,accepted,chain]
  rfl

end Signed

section RoundTrip
variable [Env] [FloatText]

omit [Env] in
theorem serializedProper (path : List (Bytes × Bool)) : Json.Proper (serializedPath path) := by
  rw [serializedPath,Json.Proper]
  induction path with
  | nil => trivial
  | cons step path ih =>
    rw [List.map_cons,Json.ProperItems]
    refine ⟨?_,ih⟩
    have keys : ["hash","is_left"].Nodup := by decide
    rw [Json.Proper]
    exact ⟨keys,trivial,trivial,trivial⟩

omit [Env] in
theorem properInt (n : PyInt) : Json.Proper n.toJson := by
  cases n <;> trivial

structure RawBlock.Held (block : RawBlock) : Prop where
  prevHash : Json.Proper block.prevHash
  validator : Json.Proper block.validator
  stateRoot : Json.Proper block.stateRoot
  receiptsRoot : Json.Proper block.receiptsRoot

theorem proofBlockProper {block : RawBlock} (held : block.Held) : Json.Proper block.proofBlock := by
  have keys : ["index","timestamp","hash","prevHash","merkleRoot","baseFee","stateRoot","receiptsRoot","validator",
      "signature","txCount"].Nodup := by decide
  rw [RawBlock.proofBlock,Json.Proper]
  exact ⟨keys,properInt _,properInt _,trivial,held.prevHash,trivial,trivial,held.stateRoot,held.receiptsRoot,
    held.validator,trivial,trivial,trivial⟩

theorem exportedProper {block : RawBlock} (held : block.Held) (txIndex : Nat) (tx : RawTransaction)
    (documentHash notarizer : String) (validatorPk : Bytes) :
    Json.Proper (.obj (block.proofRows txIndex tx documentHash notarizer validatorPk)) := by
  rw [Json.Proper]
  exact ⟨proofRowsDistinct,trivial,trivial,trivial,trivial,trivial,proofBlockProper held,serializedProper _,trivial,
    trivial,trivial,trivial⟩

end RoundTrip

theorem exportedVerifies [Env] [PyText] [FloatText] (block : RawBlock) (signingSk validatorPk : Bytes)
    (honest : ∀ message, verifySig validatorPk message (Env.mldsaSign signingSk message) = true) (held : block.Held)
    (txIndex : Nat) (tx : RawTransaction) (listed : block.transactions[txIndex]? = some tx)
    (documentHash notarizer : String) :
    ∃ proof, exportProof (block.sign signingSk).toDict txIndex tx.txId documentHash notarizer (hex validatorPk) =
        some proof ∧ verifyProof proof = .ok (true,[]) ∧
      (∀ layout, ∃ read, Json.loads (String.ofList (Json.laid layout 0 proof)) = some read ∧
        verifyProof read = .ok (true,[])) ∧
      ∃ blockPart header, proof.get "block" (.obj []) = .ok blockPart ∧ headerPart blockPart = .ok header ∧
        header.dumps = (block.sign signingSk).headerBytes := by
  have signed : (block.sign signingSk).verifySignature validatorPk = true := honest block.headerBytes
  have keyed : hex validatorPk ≠ "" := by
    intro none
    have empty : validatorPk = [] := hexInjective none
    rw [RawBlock.verifySignature,empty] at signed
    cases signed
  have given : (block.sign signingSk).transactions[txIndex]? = some tx := listed
  have passes : verifyProof (.obj ((block.sign signingSk).proofRows txIndex tx documentHash notarizer validatorPk)) =
      .ok (true,[]) := exportedPasses given signed
  refine ⟨_,exportedProof given keyed,passes,fun layout => ⟨_,Json.loadsLaid layout ?_,passes⟩,_,_,
    (exportedFields rfl _).2.2.2.2.1,exportedHeader _,rfl⟩
  exact exportedProper ⟨held.prevHash,held.validator,held.stateRoot,held.receiptsRoot⟩ ..

namespace Devnet

section Legacy
attribute [local instance] legacy plainText MessageCodec.Devnet.noFloats

def transfersBlock : RawBlock :=
  { origin with
    transactions := [transferOf (.int 1),transferOf (.int 2),transferOf (.int 3)]
    stateRoot := .str "ab" }

theorem transferExported : ∃ proof,
    exportProof (transfersBlock.sign key).toDict 2 (transferOf (.int 3)).txId "" "" (hex key) = some proof ∧
      verifyProof proof = .ok (true,[]) ∧
      (∀ layout, ∃ read, Json.loads (String.ofList (Json.laid layout 0 proof)) = some read ∧
        verifyProof read = .ok (true,[])) ∧
      ∃ blockPart header, proof.get "block" (.obj []) = .ok blockPart ∧ headerPart blockPart = .ok header ∧
        header.dumps = (transfersBlock.sign key).headerBytes :=
  exportedVerifies transfersBlock key key (fun message => signatureVerifies 1000000 message (by decide) (by decide +kernel))
    ⟨trivial,trivial,trivial,trivial⟩ 2 (transferOf (.int 3)) rfl "" ""

end Legacy

end Devnet

end QbitNetwork
