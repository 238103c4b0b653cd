import QbitNetwork.Header
import QbitNetwork.Lib.Merkle
import QbitNetwork.Runs

/-! Notarization proofs: what their verification reads, and what it binds together. -/
namespace QbitNetwork

def proofType : String := "qbit-notarization-proof"

section Verification

def proofStep (step : Json) : Except PyExc (Bytes × Bool) := do
  let sibling ← step.item "hash"
  let sibling ← sibling.fromHexValue
  let isLeft ← step.item "is_left"
  .ok (sibling,isLeft.truthy)

def merklePart (proof : Json) : Except PyExc (Bytes × List (Bytes × Bool) × Bytes) := do
  let txId ← proof.get "tx_id" (.str "")
  let block ← proof.get "block" (.obj [])
  let merklePath ← proof.get "merkle_proof" (.arr [])
  let steps ← merklePath.entries
  let path ← steps.mapM proofStep
  let merkleRoot ← block.get "merkleRoot" (.str "")
  let leaf ← txId.fromHexValue
  let root ← merkleRoot.fromHexValue
  .ok (leaf,path,root)

def headerPart (block : Json) : Except PyExc Json := do
  let baseFee ← block.get "baseFee" (.int 0)
  let index ← block.item "index"
  let merkleRoot ← block.item "merkleRoot"
  let prevHash ← block.item "prevHash"
  let timestamp ← block.item "timestamp"
  let txCount ← block.get "txCount" (.int 0)
  let validator ← block.item "validator"
  let receiptsRoot ← optionalRoot block "receiptsRoot"
  let stateRoot ← optionalRoot block "stateRoot"
  .ok (headerOf baseFee index merkleRoot prevHash timestamp txCount validator receiptsRoot stateRoot)

variable [Env]

def verifyMerkleProof (leaf : Bytes) (path : List (Bytes × Bool)) (root : Bytes) : Bool :=
  path.foldl (fun current step =>
    if step.2 then merkleNode step.1 current else merkleNode current step.1) (sha3_256 (0 :: leaf)) == root

variable [PyText]

def chainIdErrors (proofChainId : Json) : List String :=
  match proofChainId with
  | .null => []
  | value =>
    if value.equal (.str chainId) then []
    else ["chain_id mismatch: proof has " ++ PyText.repr value ++ ", expected " ++ PyText.repr (.str chainId)]

def hashErrors (computed : String) (claimed : Json) : Except PyExc (List String) :=
  if claimed.equal (.str computed) then .ok []
  else do
    let expected ← (Json.str computed).shortText
    let got ← claimed.shortText
    .ok ["block hash mismatch: computed " ++ expected ++ " != claimed " ++ got]

def signatureErrors (validatorPubkey signature : Json) (headerBytes : Bytes) : List String :=
  if validatorPubkey.truthy && signature.truthy then
    match validatorPubkey.fromHexValue,signature.fromHexValue with
    | .ok vpk,.ok sig =>
      if verifySig vpk headerBytes sig then [] else ["block signature invalid: ML-DSA verification failed"]
    | .error _,_ => ["block signature verification error: " ++ PyText.fromHexError validatorPubkey]
    | .ok _,.error _ => ["block signature verification error: " ++ PyText.fromHexError signature]
  else []

def verifyProof (proof : Json) : Except PyExc (Bool × List String) := do
  let type ← proof.get "type" .null
  if type.equal (.str proofType) = false then
    return (false,["not a valid QBit notarization proof"])
  let version ← proof.get "version" (.int 0)
  let old ← version.less (.int 1)
  if old then
    return (false,["unsupported proof version: " ++ PyText.str version])
  let proofChainId ← proof.get "chain_id" .null
  let block ← proof.get "block" (.obj [])
  let (leaf,path,root) ← merklePart proof
  let merkleErrors := if verifyMerkleProof leaf path root then []
    else ["Merkle proof invalid — transaction not in block"]
  let header ← headerPart block
  let claimed ← block.get "hash" (.str "")
  let mismatch ← hashErrors (hex (sha3_256 header.dumps)) claimed
  let validatorPubkey ← proof.get "validator_pubkey" (.str "")
  let signature ← block.get "signature" (.str "")
  let errors := chainIdErrors proofChainId ++ merkleErrors ++ mismatch ++
    signatureErrors validatorPubkey signature header.dumps
  return (errors.isEmpty,errors)

end Verification

section Hashing
variable [Env]

def merkleHashing : Merkle.Hashing Bytes Bytes Bytes where
  hash := sha3_256
  leaf item := 0 :: item
  pair left right := 1 :: (left ++ right)
  leafInjective := fun _ _ same => (List.cons.inj same).2
  apart := by simp
  leftOf := by
    intro x l r sibling same
    refine (List.append_inj (List.cons.inj same).2 ?_).1
    rw [Env.sha3_256Length,Env.sha3_256Length]
  rightOf := by
    intro x l r sibling same
    refine (List.append_inj' (List.cons.inj same).2 ?_).2
    rw [Env.sha3_256Length,Env.sha3_256Length]

def merkleTree (items : List Bytes) : Option (Merkle.Tree Bytes) :=
  Merkle.Tree.build items.length (items.map Merkle.Tree.leaf)

theorem merkleLayerTrees : ∀ layer : List (Merkle.Tree Bytes),
    merkleLayer (layer.map (Merkle.Tree.digest merkleHashing)) =
      (Merkle.Tree.pairUp layer).map (Merkle.Tree.digest merkleHashing)
  | [] => rfl
  | [_] => rfl
  | left :: right :: rest => by
    rw [Merkle.Tree.pairUp,List.map_cons,List.map_cons,List.map_cons,merkleLayer,merkleLayerTrees rest]
    rfl

theorem merkleReduceTree (fuel : Nat) : ∀ layer : List (Merkle.Tree Bytes),
    merkleReduce fuel (layer.map (Merkle.Tree.digest merkleHashing)) =
      ((Merkle.Tree.build fuel layer).map (Merkle.Tree.digest merkleHashing)).getD [] := by
  have first : ∀ layer : List (Merkle.Tree Bytes), (layer.map (Merkle.Tree.digest merkleHashing)).headD [] =
      (layer.head?.map (Merkle.Tree.digest merkleHashing)).getD [] := by
    rintro (_ | ⟨_,_⟩) <;> rfl
  induction fuel with
  | zero => exact first
  | succ fuel ih =>
    intro layer
    match layer with
    | [] => rfl
    | [_] => rfl
    | left :: right :: rest =>
      have layers := merkleLayerTrees (left :: right :: rest)
      simp only [List.map_cons] at layers
      rw [List.map_cons,List.map_cons,merkleReduce,layers,ih]
      rfl

theorem merkleRootTree {items : List Bytes} (present : items ≠ []) :
    ∃ tree, merkleTree items = some tree ∧ tree.digest merkleHashing = merkleRoot items ∧
      ∀ item ∈ tree.items, item ∈ items := by
  have builds : (merkleTree items).isSome = true := Merkle.Tree.buildSome (by simpa using present)
  obtain ⟨tree,built⟩ := Option.isSome_iff_exists.mp builds
  refine ⟨tree,built,?_,fun item inside => ?_⟩
  · have digests : items.map (fun item => sha3_256 (0 :: item)) =
        (items.map Merkle.Tree.leaf).map (Merkle.Tree.digest merkleHashing) := by
      rw [List.map_map]
      rfl
    rw [merkleRoot,if_neg (by simpa using present),digests,merkleReduceTree,
      show Merkle.Tree.build items.length (items.map Merkle.Tree.leaf) = some tree from built]
    rfl
  · have listed := Merkle.Tree.buildItems built inside
    obtain ⟨leaf,source,held⟩ := List.mem_flatMap.mp listed
    obtain ⟨other,there,rfl⟩ := List.mem_map.mp source
    rw [List.mem_singleton.mp held]
    exact there

theorem verifyMerkleProofClimb (leaf : Bytes) (path : List (Bytes × Bool)) (root : Bytes) :
    verifyMerkleProof leaf path root = true ↔ sha3_256 (Merkle.climb merkleHashing leaf path) = root := by
  have walk : path.foldl (fun current step =>
      if step.2 then merkleNode step.1 current else merkleNode current step.1) (sha3_256 (0 :: leaf)) =
      sha3_256 (Merkle.climb merkleHashing leaf path) := by
    induction path using List.reverseRecOn with
    | nil => rfl
    | append_singleton path step ih =>
      rw [List.foldl_append,ih,Merkle.climbSnoc]
      simp only [List.foldl_cons,List.foldl_nil,Merkle.stepInput]
      split <;> rfl
  rw [verifyMerkleProof,walk,beq_iff_eq]

end Hashing

section Binding
variable [Env]

def Block.hashed (block : Block) : List Bytes :=
  block.headerBytes :: (block.transactions.map Transaction.signableBytes ++
    ((merkleTree (block.transactions.map Transaction.txHash)).map (Merkle.Tree.inputs merkleHashing)).getD [])

def proofHashed (proof : Json) : List Bytes :=
  let climbed := match merklePart proof with
    | .ok (leaf,path,_) => Merkle.climbed merkleHashing leaf path
    | .error _ => []
  let header := match headerPart (proof.field "block") with
    | .ok header => [header.dumps]
    | .error _ => []
  climbed ++ header

def ProofCollides (proof : Json) (block : Block) : Prop :=
  Merkle.Collides sha3_256 block.hashed (block.hashed ++ proofHashed proof)

def PointsTo (proof : Json) (tx : Transaction) : Prop :=
  (proof.field "tx_id").fromHexValue = .ok tx.txHash

structure Describes (proof : Json) (tx : Transaction) : Prop where
  notarize : tx.txType = .NOTARIZE
  id : proof.field "tx_id" = .str tx.txId
  document : ∃ documentHash, tx.payload.documentHash = some documentHash ∧
    proof.field "document_hash" = .str documentHash
  notarizer : proof.field "notarizer" = .str tx.sender

theorem headerPartRoot {blockPart header : Json} {block : Block} (rebuilt : headerPart blockPart = .ok header)
    (same : header.dumps = block.headerBytes) : blockPart.item "merkleRoot" = .ok (.str block.merkleRoot) := by
  simp only [headerPart,Outcome.bindOk,Except.ok.injEq] at rebuilt
  obtain ⟨baseFee,-,index,-,merkleRoot,item,prevHash,-,timestamp,-,txCount,-,validator,-,receipts,receiptRows,
    state,stateRows,rfl⟩ := rebuilt
  have listed : ("merkleRoot",Json.str block.merkleRoot) ∈
      ([("baseFee",.int block.baseFee),("index",.int block.index),
        ("merkleRoot",.str block.merkleRoot),("prevHash",.str block.prevHash)] : List (String × Json)) ++
       Block.optionalField "receiptsRoot" block.receiptsRoot ++
       Block.optionalField "stateRoot" block.stateRoot ++
       ([("timestamp",.int block.timestamp),("txCount",.int block.transactions.length),
        ("validator",.str block.validator)] : List (String × Json)) := by simp
  obtain ⟨other,there,text⟩ := Json.dumpsObjField (by exact same.symm) listed
  have found : other = merkleRoot := by
    simp only [List.mem_append,List.mem_cons,List.not_mem_nil,or_false,Prod.mk.injEq] at there
    rcases there with ((front | inside) | inside) | back
    · simpa using front
    · exact absurd (optionalRootKey receiptRows _ inside) (by simp)
    · exact absurd (optionalRootKey stateRows _ inside) (by simp)
    · simp at back
  rw [item,← found,Json.dumpsStrOnly text]

theorem verifiedParts [PyText] {proof : Json} {errors : List String}
    (verified : verifyProof proof = .ok (true,errors)) :
    ∃ leaf path root blockPart header claimed, merklePart proof = .ok (leaf,path,root) ∧
      proof.get "block" (.obj []) = .ok blockPart ∧ headerPart blockPart = .ok header ∧
      blockPart.get "hash" (.str "") = .ok claimed ∧
      verifyMerkleProof leaf path root = true ∧ claimed = .str (hex (sha3_256 header.dumps)) := by
  simp only [verifyProof,Outcome.bindOk] at verified
  obtain ⟨type,-,verified⟩ := verified
  split at verified
  · cases verified
  obtain ⟨version,-,verified⟩ := (Outcome.bindOk ..).mp verified
  obtain ⟨old,-,verified⟩ := (Outcome.bindOk ..).mp verified
  split at verified
  · cases verified
  simp only [Outcome.bindOk,pure,Except.pure,Except.ok.injEq,Prod.mk.injEq] at verified
  obtain ⟨_,-,blockPart,block,⟨leaf,path,root⟩,merkle,header,rebuilt,claimed,hash,mismatch,compared,
    _,-,_,-,passed,-⟩ := verified
  simp only [List.isEmpty_iff,List.append_eq_nil_iff] at passed
  obtain ⟨⟨⟨-,climbs⟩,agreed⟩,-⟩ := passed
  refine ⟨leaf,path,root,blockPart,header,claimed,merkle,block,rebuilt,hash,?_,?_⟩
  · by_contra fails
    rw [if_neg fails] at climbs
    cases climbs
  · rw [hashErrors] at compared
    split at compared
    · rename_i same
      exact Json.equalStr same
    · simp only [Outcome.bindOk,Except.ok.injEq] at compared
      obtain ⟨_,-,_,-,rfl⟩ := compared
      cases agreed

omit [Env] in
theorem payloadRow {key name : String} {value : Option Json} {found : Json} :
    (name,found) ∈ Payload.field key value ↔ name = key ∧ value = some found := by
  cases value <;> simp [Payload.field,eq_comm]

omit [Env] in
theorem documentRow {p : Payload} {found : Json} :
    ("documentHash",found) ∈ p.fields ↔ p.documentHash.map Json.str = some found := by
  unfold Payload.fields
  simp only [List.mem_append,payloadRow]
  simp only [String.reduceEq,false_and,false_or,or_false,true_and]

omit [Env] in
theorem payloadDocument {p q : Payload} (same : p.toJson.dumps = q.toJson.dumps) {documentHash : String}
    (given : p.documentHash = some documentHash) : q.documentHash = some documentHash := by
  obtain ⟨other,there,text⟩ := Json.dumpsObjField same (documentRow.mpr (by rw [given]; rfl))
  rw [Json.dumpsStrOnly text,documentRow] at there
  obtain ⟨found,held,same⟩ := Option.map_eq_some_iff.mp there
  cases same
  exact held

omit [Env] in
theorem typeValueInjective {t u : TxType} (same : t.value = u.value) : t = u := by
  cases t <;> cases u <;> first | rfl | exact absurd same (by decide)

omit [Env] in
theorem signableSame {tx other : Transaction} (same : tx.signableBytes = other.signableBytes) :
    tx.sender = other.sender ∧ tx.txType = other.txType ∧
      tx.payload.documentHash = other.payload.documentHash := by
  have sender : (Json.str other.sender).dumps = (Json.str tx.sender).dumps :=
    Json.dumpsObjAgree same (by simp) "from" (by simp) (by simp)
  have type : (Json.str other.txType.value).dumps = (Json.str tx.txType.value).dumps :=
    Json.dumpsObjAgree same (by simp) "type" (by simp) (by simp)
  have payload : other.payload.toJson.dumps = tx.payload.toJson.dumps :=
    Json.dumpsObjAgree same (by simp) "payload" (by simp) (by simp)
  have senders := Json.str.inj (Json.dumpsStrOnly sender)
  have types := typeValueInjective (Json.str.inj (Json.dumpsStrOnly type))
  refine ⟨senders.symm,types.symm,Option.ext (fun documentHash => ?_)⟩
  exact ⟨payloadDocument payload.symm,payloadDocument payload⟩

theorem headerHashed (block : Block) : block.headerBytes ∈ block.hashed := List.mem_cons_self ..

theorem contentHashed {block : Block} {tx : Transaction} (inside : tx ∈ block.transactions) :
    tx.signableBytes ∈ block.hashed :=
  List.mem_cons_of_mem _ (List.mem_append_left _ (List.mem_map_of_mem inside))

theorem rootOfBlock {proof blockPart header : Json} {block : Block} {leaf root : Bytes} {path : List (Bytes × Bool)}
    (merkle : merklePart proof = .ok (leaf,path,root)) (part : proof.get "block" (.obj []) = .ok blockPart)
    (rebuilt : headerPart blockPart = .ok header) (same : header.dumps = block.headerBytes) :
    root = merkleRoot (block.transactions.map Transaction.txHash) ∧
      ∃ txId, proof.get "tx_id" (.str "") = .ok txId ∧ txId.fromHexValue = .ok leaf := by
  have item := Json.getItem (headerPartRoot rebuilt same) (.str "")
  simp only [merklePart,Outcome.bindOk,part,Except.ok.injEq,exists_eq_left',item,Json.fromHexValue,
    Block.merkleRoot,Json.fromHexHex,Prod.mk.injEq] at merkle
  obtain ⟨txId,id,_,-,_,-,_,-,_,decoded,rfl,-,rfl⟩ := merkle
  exact ⟨rfl,txId,id,decoded⟩

theorem verifiedIncludes [PyText] {proof : Json} {errors : List String} {block : Block}
    (verified : verifyProof proof = .ok (true,errors))
    (named : (proof.field "block").field "hash" = .str block.blockHash) :
    ProofCollides proof block ∨
      (block.transactions ≠ [] → ∃ tx ∈ block.transactions, PointsTo proof tx) := by
  obtain ⟨leaf,path,root,blockPart,header,claimed,merkle,part,rebuilt,hash,climbs,agreed⟩ := verifiedParts verified
  have whole : proof.field "block" = blockPart := by
    refine Json.fieldGet part (fun empty => ?_)
    rw [empty] at rebuilt
    cases rebuilt
  have hashField : blockPart.field "hash" = claimed := by
    refine Json.fieldGet hash (fun empty => ?_)
    rw [agreed] at empty
    have long := congrArg (fun text => (encode text).length) (Json.str.inj empty)
    simp only [hex,encodeAscii,hexBytesLength,Env.sha3_256Length] at long
    exact absurd long (by decide)
  have digests : sha3_256 block.headerBytes = sha3_256 header.dumps := by
    rw [whole,hashField,agreed] at named
    exact (hexInjective (Json.str.inj named)).symm
  have headerThere : header.dumps ∈ block.hashed ++ proofHashed proof := by
    refine List.mem_append_right _ ?_
    simp [proofHashed,whole,rebuilt]
  rcases Merkle.sameOrCollides (headerHashed block) headerThere digests with same | collides
  · obtain ⟨rfl,txId,id,decoded⟩ := rootOfBlock merkle part rebuilt same.symm
    by_cases present : block.transactions = []
    · exact .inr (fun more => absurd present more)
    obtain ⟨tree,built,digest,items⟩ := merkleRootTree
      (show block.transactions.map Transaction.txHash ≠ [] by simpa using present)
    have reaches : merkleHashing.hash (Merkle.climb merkleHashing leaf path) = tree.digest merkleHashing :=
      ((verifyMerkleProofClimb ..).mp climbs).trans digest.symm
    rcases Merkle.climbSound merkleHashing reaches with inside | collides
    · obtain ⟨tx,listed,hashed⟩ := List.mem_map.mp (items leaf inside)
      refine .inr (fun _ => ⟨tx,listed,?_⟩)
      have given : txId ≠ .str "" := by
        rintro rfl
        have empty : leaf = [] := (Except.ok.inj decoded).symm
        have length := Env.sha3_256Length tx.signableBytes
        rw [show sha3_256 tx.signableBytes = leaf from hashed,empty] at length
        cases length
      rw [PointsTo,Json.fieldGet id given,hashed]
      exact decoded
    · refine .inl (collides.mono ?_ ?_)
      · intro input inside
        refine List.mem_cons_of_mem _ (List.mem_append_right _ ?_)
        rw [built]
        exact inside
      · intro input inside
        refine List.mem_append_right _ (List.mem_append_left _ ?_)
        rw [merkle]
        exact inside
  · exact .inl collides

theorem describesBoth {proof : Json} {block : Block} {tx other : Transaction} (inside : tx ∈ block.transactions)
    (described : Describes proof tx) (there : other ∈ block.transactions) (points : PointsTo proof other) :
    Describes proof other ∨ ProofCollides proof block := by
  have hashes : sha3_256 tx.signableBytes = sha3_256 other.signableBytes := by
    rw [PointsTo,described.id] at points
    simp only [Json.fromHexValue,Transaction.txId,Json.fromHexHex,Except.ok.injEq] at points
    exact points
  refine (Merkle.sameOrCollides (contentHashed inside)
    (List.mem_append_left _ (contentHashed there)) hashes).imp_left (fun same => ?_)
  obtain ⟨sender,type,document⟩ := signableSame same
  refine ⟨type ▸ described.notarize,?_,document ▸ described.document,sender ▸ described.notarizer⟩
  rw [described.id,Transaction.txId,Transaction.txHash,hashes]
  rfl

/- What verification leaves to whoever made the proof: it binds the id to a transaction of the
block, and nothing binds the document, the notarizer or the spelling of the id to that. -/
theorem verifiedNotarization [PyText] (proof : Json) (errors : List String) (block : Block)
    (verified : verifyProof proof = .ok (true,errors))
    (named : (proof.field "block").field "hash" = .str block.blockHash) :
    ProofCollides proof block ∨
      ((∃ tx ∈ block.transactions, Describes proof tx) ↔
        block.transactions ≠ [] ∧ ∀ tx ∈ block.transactions, PointsTo proof tx → Describes proof tx) := by
  by_cases collides : ProofCollides proof block
  · exact .inl collides
  refine .inr ⟨?_,?_⟩
  · rintro ⟨tx,inside,described⟩
    refine ⟨List.ne_nil_of_mem inside,fun other there points => ?_⟩
    exact (describesBoth inside described there points).resolve_right collides
  · rintro ⟨present,agrees⟩
    obtain ⟨tx,inside,points⟩ := (verifiedIncludes verified named).resolve_left collides present
    exact ⟨tx,inside,agrees tx inside points⟩

end Binding

namespace Devnet
open Blockchain

section Legacy
attribute [local instance] legacy plainText

def certificate (block : Block) (tx : Transaction) (documentHash : String) : Json := .obj
  [("version",.int 1),("type",.str proofType),("chain_id",.str chainId),
   ("document_hash",.str documentHash),("tx_id",.str tx.txId),
   ("block",.obj [("index",.int block.index),("timestamp",.int block.timestamp),
     ("hash",.str block.blockHash),("prevHash",.str block.prevHash),("merkleRoot",.str block.merkleRoot),
     ("baseFee",.int block.baseFee),("stateRoot",.str block.stateRoot),
     ("receiptsRoot",.str block.receiptsRoot),("validator",.str block.validator),
     ("signature",.str (hex block.signature)),("txCount",.int block.transactions.length)]),
   ("merkle_proof",.arr []),("notarizer",.str tx.sender),("notarizer_pubkey",.str (hex tx.senderPubkey)),
   ("validator_pubkey",.str (hex key))]

def notarizedBlock : Block := notarized.tipBlock

def genuine : Json := certificate notarizedBlock (notarization 0) "ab"

def forged : Json := certificate notarizedBlock (notarization 0) "cd"

theorem certificatesPass : verifyProof genuine = .ok (true,[]) ∧ verifyProof forged = .ok (true,[]) := by
  decide +kernel

theorem certificatesApart (proof : Json) (listed : proof = genuine ∨ proof = forged) :
    ¬ProofCollides proof notarizedBlock := by
  have distinct : ∀ proof ∈ [genuine,forged], ∀ x ∈ notarizedBlock.hashed,
      ∀ y ∈ notarizedBlock.hashed ++ proofHashed proof, hash x = hash y → x = y := by decide +kernel
  have own : proof ∈ [genuine,forged] := by simpa using listed
  rintro ⟨x,here,y,there,apart,same⟩
  exact apart (distinct proof own x here y there same)

theorem genuineNotarization : ∃ tx ∈ notarizedBlock.transactions, Describes genuine tx := by
  refine ((verifiedNotarization genuine [] notarizedBlock certificatesPass.1 rfl).resolve_left
    (certificatesApart genuine (.inl rfl))).mpr ?_
  rw [notarizedBlock,notarizes.2]
  refine ⟨List.cons_ne_nil _ _,fun tx inside _ => ?_⟩
  rw [List.mem_singleton.mp inside]
  exact ⟨rfl,rfl,⟨"ab",rfl,rfl⟩,rfl⟩

theorem forgedNotarization : verifyProof forged = .ok (true,[]) ∧
    (forged.field "block").field "hash" = .str notarizedBlock.blockHash ∧
    ¬ProofCollides forged notarizedBlock ∧ ¬∃ tx ∈ notarizedBlock.transactions, Describes forged tx := by
  refine ⟨certificatesPass.2,rfl,certificatesApart forged (.inr rfl),?_⟩
  rw [notarizedBlock,notarizes.2]
  rintro ⟨tx,inside,described⟩
  rw [List.mem_singleton.mp inside] at described
  obtain ⟨documentHash,held,claimed⟩ := described.document
  cases held
  exact absurd (Json.str.inj claimed) (by decide)

end Legacy

end Devnet

end QbitNetwork
