import QbitNetwork.ConsensusLaws
import QbitNetwork.Rewind

/-! What the checks on a block say about its ids, its nonces and its money, and that a block
that passes them fits the blocks a node holds. -/
namespace QbitNetwork

section Tracking
variable [Env]

def countFrom (start : Int) (n : Nat) : List Int := (List.range n).map (fun (i : Nat) => start + i)

omit [Env] in
theorem countFromSucc (start : Int) (n : Nat) : countFrom start (n + 1) = countFrom start n ++ [start + n] := by
  simp [countFrom,List.range_succ]

structure Seen.Tracks (done : List Transaction) (seen : Seen) : Prop where
  ids : ∀ txId, txId ∈ seen.ids ↔ txId ∈ done.map Transaction.txId
  distinct : (done.map Transaction.txId).Nodup
  absent : ∀ sender, done.filter (fun tx => tx.sender = sender) = [] → seen.lastNonce[sender]? = none
  runs : ∀ sender, done.filter (fun tx => tx.sender = sender) ≠ [] →
    ∃ start, (sender,start) ∈ seen.firstNonce ∧
      (done.filter (fun tx => tx.sender = sender)).map Transaction.nonce =
        countFrom start (done.filter (fun tx => tx.sender = sender)).length ∧
      seen.lastNonce[sender]? = some (start + (done.filter (fun tx => tx.sender = sender)).length - 1)

theorem tracksStart : Seen.Tracks [] {} where
  ids := by simp
  distinct := List.nodup_nil
  absent := by simp
  runs := fun sender some => absurd rfl some

theorem tracksAdd {done : List Transaction} {seen : Seen} {tx : Transaction} (tracks : seen.Tracks done)
    (fresh : tx.txId ∉ seen.ids) (follows : seen.nonceGap tx = false) :
    (seen.add tx).Tracks (done ++ [tx]) := by
  have new : tx.txId ∉ done.map Transaction.txId := fun old => fresh ((tracks.ids _).mpr old)
  refine ⟨fun txId => ?_,?_,fun sender none => ?_,fun sender some => ?_⟩
  · simp only [Seen.add,DSet.memInsert,tracks.ids,List.map_append,List.mem_append,List.map_cons,
      List.map_nil,List.mem_singleton,or_comm]
  · rw [List.map_append]
    refine List.nodup_append.mpr ⟨tracks.distinct,by simp,?_⟩
    rintro _ old _ here rfl
    rw [List.map_singleton,List.mem_singleton] at here
    exact new (here ▸ old)
  · rw [List.filter_append,List.append_eq_nil_iff] at none
    have other : tx.sender ≠ sender := by simpa using none.2
    simp only [Seen.add]
    rw [Std.ExtTreeMap.getElem?_insert,if_neg (by simpa using other)]
    exact tracks.absent sender none.1
  · by_cases own : tx.sender = sender
    · subst own
      have grown : (done ++ [tx]).filter (fun other => other.sender = tx.sender) =
          done.filter (fun other => other.sender = tx.sender) ++ [tx] := by simp [List.filter_append]
      rw [grown,List.length_append,List.length_singleton,List.map_append,List.map_singleton]
      by_cases first : done.filter (fun other => other.sender = tx.sender) = []
      · have unseen := tracks.absent tx.sender first
        refine ⟨tx.nonce,?_,?_,?_⟩
        · simp only [Seen.add]
          rw [if_neg ((Dict.absentIff ..).mp unseen)]
          exact List.mem_append_right _ (List.mem_singleton_self _)
        · simp [first,countFrom]
        · simp [first,Seen.add]
      · obtain ⟨start,listed,run,last⟩ := tracks.runs tx.sender first
        have next : tx.nonce = start + (done.filter (fun other => other.sender = tx.sender)).length := by
          simp only [Seen.nonceGap,last,decide_eq_false_iff_not,ne_eq,not_not] at follows
          omega
        refine ⟨start,?_,?_,?_⟩
        · simp only [Seen.add]
          rw [if_pos (Std.ExtTreeMap.mem_iff_isSome_getElem?.mpr (by simp [last]))]
          exact listed
        · rw [run,countFromSucc,next]
        · simp only [Seen.add]
          rw [Std.ExtTreeMap.getElem?_insert_self,next]
          congr 1
          omega
    · have kept : (done ++ [tx]).filter (fun other => other.sender = sender) =
          done.filter (fun other => other.sender = sender) := by simp [List.filter_append,own]
      rw [kept] at some ⊢
      obtain ⟨start,listed,run,last⟩ := tracks.runs sender some
      refine ⟨start,?_,run,?_⟩
      · simp only [Seen.add]
        split
        · exact listed
        · exact List.mem_append_left _ listed
      · simp only [Seen.add]
        rw [Std.ExtTreeMap.getElem?_insert,if_neg (by simpa using own)]
        exact last

end Tracking

namespace Blockchain
variable [Env]

theorem foldTracks {s : Blockchain} {block : Block} {done txs : List Transaction} {seen seen' : Seen}
    (tracks : seen.Tracks done) (run : txs.foldlM (s.txCheck block) seen = .ok seen') :
    seen'.Tracks (done ++ txs) := by
  induction txs generalizing seen done with
  | nil => cases run; simpa using tracks
  | cons tx rest ih =>
    rw [List.foldlM_cons,Outcome.bindOk] at run
    obtain ⟨mid,first,later⟩ := run
    obtain ⟨-,fresh,follows,rfl⟩ := txCheckOk first
    have all := ih (tracksAdd tracks fresh follows) later
    rwa [List.append_assoc,List.singleton_append] at all

theorem transactionsCheckTracks {s : Blockchain} {block : Block}
    (run : s.transactionsCheck block = .ok ()) :
    (block.transactions.map Transaction.txId).Nodup ∧
      ∀ sender, (block.transactions.filter (fun tx => tx.sender = sender)).map Transaction.nonce =
        countFrom (s.consensusNonces.get sender + 1)
          (block.transactions.filter (fun tx => tx.sender = sender)).length := by
  obtain ⟨seen,loop,starts⟩ := Outcome.bindOk .. |>.mp run
  have tracks := foldTracks tracksStart loop
  rw [List.nil_append] at tracks
  refine ⟨tracks.distinct,fun sender => ?_⟩
  by_cases none : block.transactions.filter (fun tx => tx.sender = sender) = []
  · rw [none]
    rfl
  · obtain ⟨start,listed,nonces,-⟩ := tracks.runs sender none
    have begun := Outcome.forMOk starts _ listed
    simp only [nonceStart,refuseIfOk,ne_eq,not_not] at begun
    rw [nonces,begun]

open Chronicle (Fits Sound rows userTxs)

theorem transferAmount {tx : Transaction} (kind : tx.txType = .TRANSFER)
    (run : tx.validatePayload = .ok ()) : ∃ amount, tx.payload.amount = some amount ∧ 0 ≤ amount := by
  obtain ⟨-,-,checked⟩ := validatePayloadOk run
  simp only [typeCheck,kind,transferCheck,positiveAmountCheck,Outcome.bindOk,refuseIfOk] at checked
  obtain ⟨_,⟨amount,found,_,positive,-⟩,-⟩ := checked
  exact ⟨amount,amountOfOk found,by omega⟩

theorem expectedBaseFeeNonneg (parent : Block) (index : Int) : 0 ≤ expectedBaseFee parent index := by
  unfold expectedBaseFee
  split
  · decide
  · have least := (baseFeeBounds parent.baseFee
      (effectiveBlockWeight parent.transactions parent.validator) targetBlockWeight).1
    have positive : 0 ≤ minBaseFee := by decide
    omega

theorem validatedRefundable {s : Blockchain} {now : Int} {block : Block} {parent : Option Block}
    (later : 0 < block.index) (valid : s.validateBlock now block parent = .ok ()) : Refundable block := by
  obtain ⟨above,-,-,-,fees,-,txs⟩ := validateBlockOk (by omega) valid
  constructor
  · intro dynamic
    have active : dynamicActive block.index = true := by
      unfold dynamicActive
      unfold ChainState.isDynamic at dynamic
      simpa [later] using dynamic
    have checked := fees active
    simp only [dynamicFeeCheck,Outcome.bindOk,refuseIfOk,ne_eq,not_not] at checked
    obtain ⟨_,same,-⟩ := checked
    rw [same]
    exact expectedBaseFeeNonneg ..
  · intro tx inside kind
    exact transferAmount kind (transactionsCheckMem txs tx inside).payload

variable {counting : Prop}

theorem tipIndex {chain : List Block} {s : Blockchain} {tip : Block}
    (chronicled : Chronicled counting chain s)
    (found : s.latestBlock = some tip) : tip.index = s.height ∧ 0 ≤ s.height := by
  rw [chronicled.latestBlock,List.getLast?_eq_getElem?] at found
  have position := (chronicled.sound _ tip found).position
  have size := (List.getElem?_eq_some_iff.mp found).1
  rw [List.length_take,Nat.min_eq_left (by omega)] at position
  have height := chronicled.height
  omega

theorem validatedFits {chain : List Block} {s : Blockchain} {now : Int} {block : Block}
    (chronicled : Chronicled counting chain s) (later : block.index ≠ 0)
    (valid : s.validateBlock now block s.latestBlock = .ok ())
    (names : ∀ tx ∈ block.transactions, Tokens.NamesToken tx) : Fits counting chain block := by
  obtain ⟨above,parent,header,-,-,-,txs⟩ := validateBlockOk later valid
  have position : block.index = chain.length := by
    simp only [headerCheck,Outcome.bindOk,refuseIfOk,ne_eq,not_not] at header
    obtain ⟨_,follows,-⟩ := header
    rw [follows,(tipIndex chronicled parent).1,chronicled.height]
    omega
  obtain ⟨distinct,nonces⟩ := transactionsCheckTracks txs
  refine ⟨position,distinct,fun tx inside old => ?_,fun count _ sender => ?_,fun _ => ?_,names⟩
  · exact (transactionsCheckMem txs tx inside).fresh ((chronicled.indexed.ids _).mpr old)
  · have counted := chronicled.counted count sender
    rw [nonces sender,consensusNonces,chronicled.shared count,Option.getD_none,counted,countFrom]
    refine List.map_congr_left (fun i _ => ?_)
    dsimp only
    omega
  · exact validatedRefundable (by omega) valid

structure Tidy (block : Block) : Prop where
  names : ∀ tx ∈ block.transactions, Tokens.NamesToken tx
  distinct : block.index = 0 → (block.transactions.map Transaction.txId).Nodup

theorem chronicledEmpty {chain : List Block} {s : Blockchain} (chronicled : Chronicled counting chain s)
    (low : s.height < 0) : chain = [] := by
  rw [chronicled.height] at low
  exact List.length_eq_zero_iff.mp (by omega)

theorem genesisFits {block : Block} (first : block.index = 0)
    (distinct : (block.transactions.map Transaction.txId).Nodup)
    (names : ∀ tx ∈ block.transactions, Tokens.NamesToken tx) : Fits counting [] block :=
  ⟨first,distinct,by simp [rows,Chronicle.rowsFrom],fun _ started => absurd rfl started,
    fun started => absurd rfl started,names⟩

end Blockchain

end QbitNetwork
