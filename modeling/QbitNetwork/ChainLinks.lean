import QbitNetwork.Lib.LinkedLog
import QbitNetwork.SnapshotWindow

/-! The blocks of a node as a log of linked blocks: what every call does to it, whatever it answers. -/
namespace QbitNetwork.Blockchain
variable [Env]

open Chronicle (Fits Sound)

section Links

structure Follows (parent block : Block) : Prop where
  position : block.index = parent.index + 1
  link : block.prevHash = parent.blockHash
  later : parent.timestamp < block.timestamp
  fee : dynamicActive block.index = true → block.baseFee = expectedBaseFee parent block.index
  weight : dynamicActive block.index = true → blockTotalWeight block.transactions ≤ maxBlockWeight
  count : block.transactions.length ≤ maxTxPerBlock

abbrev Linked (chain : List Block) : Prop := chain.IsChain Follows

structure OnTop (chain : List Block) (block : Block) : Prop where
  position : block.index = chain.length
  follows : ∀ parent, chain.getLast? = some parent → Follows parent block

structure Adopts (chain fork chain' : List Block) (start : Nat) : Prop where
  above : 0 < start
  joins : start ≤ chain.length
  depth : (chain.length : Int) ≤ start + maxReorgDepth
  longer : chain.length < chain'.length
  blocks : chain' = chain.take start ++ fork
  linked : Linked chain'

def Effect (chain : List Block) : Call → Reply → List Block → Prop
  | .initChain _ _ _ _,_,chain' => chain' = chain ∨ chain = [] ∧ ∃ genesis, genesis.index = 0 ∧ chain' = [genesis]
  | .activate _,_,chain' => chain' = chain
  | .submit _ _,_,chain' => chain' = chain
  | .produce address _ _ _,.accepted,chain' =>
    ∃ block, block.validator = address ∧ OnTop chain block ∧ chain' = chain ++ [block]
  | .produce _ _ _ _,_,chain' => chain' = chain
  | .receive block _,.accepted,chain' => OnTop chain block ∧ chain' = chain ++ [block]
  | .receive _ _,_,chain' => chain' = chain
  | .rollback target,_,chain' => chain' = chain.take target.toNat
  | .reorg fork _,.accepted,chain' => ∃ start, Adopts chain fork chain' start
  | .reorg _ _,.refused _,chain' => chain' = chain
  | .reorg _ _,.raised _,chain' => ∃ start rest, chain' = chain.take start ++ rest ∧ Linked chain'

theorem validatedFollows {s : Blockchain} {now : Int} {block parent : Block} (later : block.index ≠ 0)
    (valid : s.validateBlock now block (some parent) = .ok ()) : Follows parent block := by
  obtain ⟨above,same,header,-,fees,size,-⟩ := validateBlockOk later valid
  cases same
  simp only [headerCheck,Outcome.bindOk,refuseIfOk,ne_eq,not_not,not_le] at header
  obtain ⟨_,position,_,link,_,time,-⟩ := header
  simp only [sizeCheck,Outcome.bindOk,refuseIfOk,not_lt] at size
  obtain ⟨_,count,-⟩ := size
  have priced : dynamicActive block.index = true → block.baseFee = expectedBaseFee parent block.index ∧
      blockTotalWeight block.transactions ≤ maxBlockWeight := by
    intro dynamic
    have checked := fees dynamic
    simp only [dynamicFeeCheck,Outcome.bindOk,refuseIfOk,ne_eq,not_not,not_lt] at checked
    obtain ⟨_,fee,_,weight,-⟩ := checked
    exact ⟨fee,weight⟩
  exact ⟨position,link,time,fun dynamic => (priced dynamic).1,fun dynamic => (priced dynamic).2,count⟩

theorem stampedFollows {parent block : Block} (follows : Follows parent block) (stateRoot receiptsRoot : String)
    (sk : Bytes) : Follows parent (stampedBlock block stateRoot receiptsRoot sk) :=
  ⟨follows.position,follows.link,follows.later,follows.fee,follows.weight,follows.count⟩

theorem linkedExtend {chain : List Block} {block : Block} (linked : Linked chain) (fits : OnTop chain block) :
    Linked (chain ++ [block]) := LinkedLog.linkedSnoc.mpr ⟨linked,fits.follows⟩

theorem effectPath {chain chain' : List Block} {c : Call} {reply : Reply} (linked : Linked chain)
    (effect : Effect chain c reply chain') : LinkedLog.Path Follows chain chain' := by
  have kept : chain' = chain → LinkedLog.Path Follows chain chain' := fun same => same ▸ .refl
  have rebuilt : ∀ (start : Nat) (rest : List Block), chain' = chain.take start ++ rest → Linked chain' →
      LinkedLog.Path Follows chain chain' := by
    intro start rest blocks linked'
    subst blocks
    exact (LinkedLog.pathTake chain start).trans (LinkedLog.pathExtend linked')
  have grown : ∀ block, OnTop chain block → chain' = chain ++ [block] → LinkedLog.Path Follows chain chain' := by
    intro block fits blocks
    subst blocks
    exact .single (.extend fits.follows)
  cases c with
  | initChain address sk pk now =>
    rcases effect with same | ⟨rfl,genesis,-,blocks⟩
    · exact kept same
    · subst blocks
      have first : LinkedLog.Step Follows [] ([] ++ [genesis]) := .extend (fun parent none => by simp at none)
      exact .single first
  | activate address => exact kept effect
  | submit now tx => exact kept effect
  | produce address sk now later =>
    cases reply with
    | accepted =>
      obtain ⟨block,-,fits,blocks⟩ := effect
      exact grown block fits blocks
    | refused message => exact kept effect
    | raised exception => exact kept effect
  | receive block now =>
    cases reply with
    | accepted => exact grown block effect.1 effect.2
    | refused message => exact kept effect
    | raised exception => exact kept effect
  | rollback target =>
    have taken : chain' = chain.take target.toNat := effect
    subst taken
    exact LinkedLog.pathTake chain _
  | reorg fork now =>
    cases reply with
    | accepted =>
      obtain ⟨start,adopts⟩ := effect
      exact rebuilt start fork adopts.blocks adopts.linked
    | refused message => exact kept effect
    | raised exception =>
      obtain ⟨start,rest,blocks,linked'⟩ := effect
      exact rebuilt start rest blocks linked'

end Links

section Calls
variable {counting : Prop} {chain : List Block} {s t : Blockchain}

def Lays (counting : Prop) (effect : Reply → List Block → Prop) (x : Reply × Blockchain) : Prop :=
  x.1.Ended → ∃ chain', Chronicled counting chain' x.2 ∧ effect x.1 chain'

theorem appendedChronicled {block : Block} (chronicled : Chronicled counting chain s) (fits : Fits counting chain block)
    (run : s.appendBlock block = .ok t) : Chronicled counting (chain ++ [block]) t := by
  have appended := appendBlockEnds chronicled fits
  rwa [run] at appended

theorem refusedChronicled {block : Block} {e : PyExc} (chronicled : Chronicled counting chain s)
    (fits : Fits counting chain block) (run : s.appendBlock block = .error ⟨e,t⟩) (caught : e.Caught) :
    Chronicled counting chain t := by
  have appended := appendBlockEnds chronicled fits
  rw [run] at appended
  exact appended caught

theorem stampedChronicled {block stamped : Block} (chronicled : Chronicled counting (chain ++ [block]) s)
    (index : stamped.index = block.index) (transactions : stamped.transactions = block.transactions)
    (baseFee : stamped.baseFee = block.baseFee) (run : s.replaceTip block stamped = .ok t) :
    Chronicled counting (chain ++ [stamped]) t := by
  have ends := replaceTipEnds chronicled index transactions baseFee
  rwa [run] at ends

theorem validatedOnTop {block : Block} {now : Int} (chronicled : Chronicled counting chain s) (later : block.index ≠ 0)
    (valid : s.validateBlock now block s.latestBlock = .ok ()) (names : ∀ tx ∈ block.transactions, Tokens.NamesToken tx) :
    Fits counting chain block ∧ OnTop chain block := by
  have fits := validatedFits chronicled later valid names
  refine ⟨fits,fits.position,fun parent top => ?_⟩
  rw [chronicled.latestBlock,top] at valid
  exact validatedFollows later valid

theorem addBlockLays (chronicled : Chronicled counting chain s) {block : Block} {now : Int} (tidy : Tidy block) :
    Lays counting (Effect chain (.receive block now)) (s.addBlock block now) := by
  have refused : ∀ message, Lays counting (Effect chain (.receive block now)) (.refused message,s) :=
    fun _ _ => ⟨chain,chronicled,rfl⟩
  unfold addBlock
  split
  · exact refused _
  dsimp only
  split
  · rename_i position
    split
    · rename_i halt _
      cases halt <;> exact fun _ => ⟨chain,chronicled,rfl⟩
    · rename_i valid
      split
      · exact refused _
      · have onTop : Fits counting chain block ∧ OnTop chain block := by
          have bounded : -1 ≤ s.height := by rw [chronicled.height]; omega
          by_cases first : block.index = 0
          · have empty := chronicledEmpty chronicled (by omega)
            subst empty
            exact ⟨genesisFits first (tidy.distinct first) tidy.names,first,fun parent none => by simp at none⟩
          · rw [if_pos (by omega)] at valid
            exact validatedOnTop chronicled first valid tidy.names
        split
        · rename_i t run
          have appended := appendedChronicled chronicled onTop.1 run
          exact fun _ => ⟨_,drainChronicled appended block,onTop.2,rfl⟩
        · rename_i message t run
          exact fun _ => ⟨chain,refusedChronicled chronicled onTop.1 run ⟨message,rfl⟩,rfl⟩
        · rename_i r _ run
          exact fun ended => ⟨chain,refusedChronicled chronicled onTop.1 run ended.caught,rfl⟩
  · split <;> exact refused _

theorem produceBlockLays (chronicled : Chronicled counting chain s) (address : Address) (sk : Bytes) (now later : Int) :
    Lays counting (Effect chain (.produce address sk now later)) (s.produceBlock address sk now later) := by
  have refused : ∀ message, Lays counting (Effect chain (.produce address sk now later)) (.refused message,s) :=
    fun _ _ => ⟨chain,chronicled,rfl⟩
  unfold produceBlock
  split
  · exact refused _
  split
  · exact fun _ => ⟨chain,chronicled,rfl⟩
  rename_i parent tip
  split
  · exact fun _ => ⟨chain,chronicled,rfl⟩
  split
  · exact refused _
  split
  · exact refused _
  dsimp only
  split
  · exact refused _
  split
  · rename_i halt _
    cases halt <;> exact fun _ => ⟨chain,chronicled,rfl⟩
  · rename_i valid
    have names : ∀ tx ∈ (s.draftBlock parent address sk now).transactions, Tokens.NamesToken tx :=
      fun tx inside => chronicled.pool tx (selectTxsSubset s parent tx inside)
    have above := tipIndex chronicled tip
    have higher : (s.draftBlock parent address sk now).index ≠ 0 := by
      show parent.index + 1 ≠ 0
      omega
    obtain ⟨fits,onTop⟩ := validatedOnTop chronicled higher (tip ▸ valid) names
    have signer : (s.draftBlock parent address sk now).validator = address := rfl
    generalize s.draftBlock parent address sk now = draft at fits onTop signer
    split
    · rename_i r run
      exact fun ended => ⟨chain,refusedChronicled chronicled fits run ended.caught,rfl⟩
    · rename_i t run
      have appended := appendedChronicled chronicled fits run
      split
      · rename_i r replaced
        have ends := replaceTipEnds appended (stampedIndex draft (t.lastComputedStateRoot.getD t.stateRoot.1)
          t.lastComputedReceiptsRoot sk) (stampedTransactions ..) (stampedBaseFee ..)
        rw [replaced] at ends
        exact fun ended => absurd ended.caught ends
      · rename_i u replaced
        have stamped := stampedChronicled appended (stampedIndex ..) (stampedTransactions ..) (stampedBaseFee ..) replaced
        refine fun _ => ⟨_,drainChronicled stamped _,stampedBlock draft _ _ sk,signer,⟨onTop.position,fun parent top => ?_⟩,rfl⟩
        exact stampedFollows (onTop.follows parent top) ..

theorem initChainLays (chronicled : Chronicled counting chain s) (address : Address) (sk pk : Bytes) (now : Int) :
    Lays counting (Effect chain (.initChain address sk pk now)) (answered (s.initChain address sk pk now)) := by
  have ends : Outcome.Ends
      (fun t => ∃ chain', Chronicled counting chain' t ∧ Effect chain (.initChain address sk pk now) .accepted chain')
      (fun e t => e.Caught → Chronicled counting chain t) (s.initChain address sk pk now) := by
    unfold initChain
    split
    · exact ⟨chain,chronicled,.inl rfl⟩
    rename_i low
    have empty := chronicledEmpty chronicled (by omega)
    subst empty
    dsimp only
    generalize (if pk.isEmpty then s.state.staking.validators.getD address [] else pk) = key
    have fits : Fits counting [] ((Block.genesis address
        (if key.isEmpty then [] else [registration address sk key now]) now).sign sk) := by
      refine genesisFits rfl ?_ (fun tx inside => ?_)
      · rw [Block.signTransactions]
        simp only [Block.genesis]
        split <;> simp
      · rw [Block.signTransactions] at inside
        simp only [Block.genesis] at inside
        split at inside
        · cases inside
        · rw [List.mem_singleton.mp inside]
          rintro (mint | transfer) <;> contradiction
    generalize (Block.genesis address
      (if key.isEmpty then [] else [registration address sk key now]) now).sign sk = genesis at fits
    refine Outcome.endsBind (Chronicled counting [genesis]) (appendBlockEnds chronicled fits) (fun t first => ?_)
    have staked : Chronicled counting [genesis] (if pk.isEmpty then t else t.autoStake address) := by
      split
      · exact first
      · exact first.beside (Backend.storedMapStore _ t.backend (fun d => Store.keepsRefl d)) rfl rfl rfl rfl rfl
          first.named first.drawn first.snapped first.pool
    generalize (if pk.isEmpty then t else t.autoStake address) = staking at staked
    have rooted := rootChronicled staked
    have final := @replaceTipEnds _ counting [] genesis (stampedBlock genesis staking.stateRoot.1
      staking.stateRoot.2.lastComputedReceiptsRoot sk) _ rooted (stampedIndex ..) (stampedTransactions ..) (stampedBaseFee ..)
    refine Outcome.endsBind _ (Outcome.endsMono final (fun _ h => h) (fun _ _ h caught => absurd caught h))
      (fun u last => ?_)
    refine ⟨_,last.beside rfl rfl rfl rfl rfl rfl last.named last.drawn last.snapped last.pool,.inr ⟨rfl,_,?_,rfl⟩⟩
    rw [stampedIndex]
    exact fits.position
  cases run : s.initChain address sk pk now with
  | ok t =>
    rw [run] at ends
    exact fun _ => ends
  | error r =>
    rw [run] at ends
    exact fun ended => ⟨chain,ends ended.caught,.inl rfl⟩

theorem activateLays (chronicled : Chronicled counting chain s) (address : Address) :
    Lays counting (Effect chain (.activate address)) (answered (s.activateFinancialLayer address)) := by
  have ends := activateChronicled chronicled address
  cases run : s.activateFinancialLayer address with
  | ok t =>
    rw [run] at ends
    exact fun _ => ⟨chain,ends,rfl⟩
  | error r =>
    rw [run] at ends
    exact fun ended => absurd ended.caught ends

theorem rollbackLays (chronicled : Chronicled counting chain s) (target : Int) :
    Lays counting (Effect chain (.rollback target)) (answered (s.rollbackTo target)) := by
  have ends := rollbackToEnds chronicled target
  cases run : s.rollbackTo target with
  | ok t =>
    rw [run] at ends
    exact fun _ => ⟨_,ends.1.toChronicled,rfl⟩
  | error r =>
    rw [run] at ends
    exact fun ended => ⟨_,(ends ended.caught).toChronicled,rfl⟩

theorem appendAllEnds {prior suffix : List Block} (chronicled : Chronicled counting prior s)
    (sound : Sound counting (prior ++ suffix)) :
    Outcome.Ends (Chronicled counting (prior ++ suffix))
      (fun e t => e.Caught → ∃ n, Chronicled counting (prior ++ suffix.take n) t) (suffix.foldlM appendBlock s) := by
  induction suffix generalizing prior s with
  | nil =>
    rw [List.append_nil]
    exact chronicled
  | cons block rest ih =>
    have whole := sound
    rw [List.append_cons] at whole
    have appended := appendBlockEnds chronicled (Chronicle.soundAppend.mp (soundPrefix whole)).2
    rw [List.foldlM_cons]
    refine Outcome.endsBind (Chronicled counting (prior ++ [block])) ?_ (fun t reached => ?_)
    · refine Outcome.endsMono appended (fun _ h => h) (fun _ _ h caught => ⟨0,?_⟩)
      rw [List.take_zero,List.append_nil]
      exact h caught
    · rw [List.append_cons]
      refine Outcome.endsMono (ih reached whole) (fun _ h => h) (fun _ _ h caught => ?_)
      obtain ⟨n,left⟩ := h caught
      exact ⟨n + 1,by rwa [List.take_succ_cons,List.append_cons]⟩

def Tries (prior savedChain whole : List Block) : Reply → List Block → Prop
  | .accepted,chain' => chain' = whole ∧ Linked chain'
  | .refused _,chain' => chain' = prior ++ savedChain
  | .raised _,chain' => ∃ rest, chain' = prior ++ rest ∧ Linked chain'

theorem restoreOriginalLays {prior extra savedChain whole : List Block} (chronicled : Chronicled counting (prior ++ extra) s)
    (sound : Sound counting (prior ++ savedChain)) (linked : Linked (prior ++ savedChain)) {forkStart : Int}
    (start : forkStart.toNat = prior.length) {applied : Bool} (untouched : applied = false → extra = [])
    (message : String) : Lays counting (Tries prior savedChain whole) (s.restoreOriginal forkStart savedChain applied message) := by
  have outcome : Outcome.Ends (Chronicled counting (prior ++ savedChain))
      (fun e u => e.Caught → ∃ n, Chronicled counting (prior ++ savedChain.take n) u)
      (if applied then s.rollbackTo forkStart >>= fun s => savedChain.foldlM appendBlock s
        else Except.ok s >>= fun s => savedChain.foldlM appendBlock s) := by
    split
    · have rolled := rollbackToEnds chronicled forkStart
      rw [start,List.take_left] at rolled
      refine Outcome.endsBind (Chronicled counting prior) ?_ (fun t reached => appendAllEnds reached sound)
      refine Outcome.endsMono rolled (fun _ h => h.1.toChronicled) (fun _ _ h caught => ⟨0,?_⟩)
      rw [List.take_zero,List.append_nil]
      exact (h caught).toChronicled
    · rename_i fresh
      have none := untouched (by simpa using fresh)
      subst none
      rw [List.append_nil] at chronicled
      exact appendAllEnds chronicled sound
  dsimp only [restoreOriginal]
  split
  · rename_i run
    rw [run] at outcome
    exact fun _ => ⟨_,outcome,rfl⟩
  · rename_i run
    rw [run] at outcome
    refine fun ended => ?_
    obtain ⟨n,left⟩ := outcome ended.caught
    have shorter : prior ++ savedChain.take n <+: prior ++ savedChain :=
      (List.prefix_append_right_inj prior).mpr (List.take_prefix n savedChain)
    obtain ⟨rest,whole⟩ := shorter
    have kept : Linked (prior ++ savedChain.take n) := by
      rw [← whole] at linked
      exact (List.isChain_append.mp linked).1
    exact ⟨_,left,savedChain.take n,rfl,kept⟩

theorem applyForkLays {prior savedChain whole fork extra : List Block} (chronicled : Chronicled counting (prior ++ extra) s)
    (sound : Sound counting (prior ++ savedChain)) (linked : Linked (prior ++ savedChain))
    (linked' : Linked (prior ++ extra)) {now forkStart : Int} (start : forkStart.toNat = prior.length) {applied : Bool}
    (untouched : applied = false → extra = []) (tidy : Later fork) (goal : prior ++ extra ++ fork = whole) :
    Lays counting (Tries prior savedChain whole) (applyFork now forkStart savedChain fork applied s.latestBlock s) := by
  induction fork generalizing extra s applied with
  | nil =>
    rw [List.append_nil] at goal
    exact fun _ => ⟨_,chronicled,goal,linked'⟩
  | cons fb rest ih =>
    have restored : ∀ {t : Blockchain}, Chronicled counting (prior ++ extra) t → ∀ message,
        Lays counting (Tries prior savedChain whole) (t.restoreOriginal forkStart savedChain applied message) :=
      fun before message => restoreOriginalLays before sound linked start untouched message
    obtain ⟨later,names⟩ := tidy fb (List.mem_cons_self ..)
    unfold applyFork
    split
    · exact restored chronicled _
    split
    · exact restored chronicled _
    · exact fun _ => ⟨_,chronicled,extra,rfl,linked'⟩
    · rename_i valid
      obtain ⟨fits,onTop⟩ := validatedOnTop chronicled later valid names
      split
      · rename_i t run
        have grown := appendedChronicled chronicled fits run
        have higher := linkedExtend linked' onTop
        have tip : t.latestBlock = some fb := by rw [grown.latestBlock,List.getLast?_concat]
        rw [List.append_assoc] at grown higher
        rw [← tip]
        refine ih grown higher (fun impossible => by contradiction)
          (fun other inside => tidy other (List.mem_cons_of_mem _ inside)) ?_
        rw [← goal]
        simp
      · rename_i message t run
        exact restored (refusedChronicled chronicled fits run ⟨message,rfl⟩) _
      · rename_i r _ run
        exact fun ended => ⟨_,refusedChronicled chronicled fits run ended.caught,extra,rfl,linked'⟩

theorem reorgStartAdmits (chronicled : Chronicled counting chain s) {fork : List Block} {forkStart : Int}
    (begun : s.reorgStart fork = .ok forkStart) : 0 < forkStart ∧ forkStart ≤ chain.length ∧
      chain.length ≤ forkStart + maxReorgDepth ∧ chain.length < forkStart + fork.length := by
  have height := chronicled.height
  obtain ⟨above,below,-⟩ := reorgStartRange chronicled begun
  refine ⟨above,below,?_⟩
  unfold reorgStart at begun
  split at begun
  · contradiction
  · simp only [Outcome.bindOk,refuseIfOk,not_lt] at begun
    obtain ⟨_,-,_,depth,begun⟩ := begun
    split at begun
    · contradiction
    · simp only [Outcome.bindOk,refuseIfOk] at begun
      obtain ⟨_,-,_,longer,same⟩ := begun
      cases same
      exact ⟨by omega,by omega⟩

theorem tryReorgLays (chronicled : Chronicled counting chain s) (linked : Linked chain) {fork : List Block} {now : Int}
    (tried : Tried counting s fork) : Lays counting (Effect chain (.reorg fork now)) (s.tryReorg fork now) := by
  unfold tryReorg
  split
  · rename_i halt _
    cases halt with
    | refused message => exact fun _ => ⟨chain,chronicled,rfl⟩
    | raised e => exact fun _ => ⟨chain,chronicled,chain.length,[],by simp,linked⟩
  rename_i forkStart begun
  obtain ⟨above,below,depth,longer⟩ := reorgStartAdmits chronicled begun
  obtain ⟨-,-,first,head,here⟩ := reorgStartRange chronicled begun
  have saved : s.backend.getBlocksRange forkStart (s.height + 1) = chain.drop forkStart.toNat := by
    rw [Backend.getBlocksRangeHolds chronicled.holds,chronicled.height,List.take_of_length_le (by omega)]
  have size : (chain.take forkStart.toNat).length = forkStart.toNat := by
    rw [List.length_take]
    omega
  have rolled := rollbackToEnds chronicled forkStart
  dsimp only
  rw [saved]
  split
  · rename_i r run
    rw [run] at rolled
    exact fun ended => ⟨_,(rolled ended.caught).toChronicled,forkStart.toNat,[],by simp,linked.take _⟩
  rename_i t run
  rw [run] at rolled
  have left := rootMismatchLeaves rolled.1.toChronicled (forkStart - 1)
  split
  · rename_i message u mismatch
    rw [mismatch] at left
    -- a mismatch comes of a stale root cache, so nothing was displaced
    have height : t.height = forkStart - 1 := by
      rw [rolled.1.height,size]
      omega
    have stale : ¬(s.Rooted ∨ forkStart.toNat < chain.length) := by
      intro rooted
      have compared := rootMatches rolled.1.toChronicled (by omega) (rolled.2 rooted)
      rw [height,mismatch] at compared
      contradiction
    have whole : chain.length ≤ forkStart.toNat := by omega
    have uncounted : ¬counting := by
      intro count
      refine stale (.inl ((tried.2 count).rooted (fun other same => ?_)))
      rw [head] at same
      cases same
      have := chronicled.height
      omega
    rw [List.take_of_length_le whole] at left
    rw [List.drop_of_length_le whole]
    obtain ⟨v,refused,recorded,-⟩ := refuseRollbackChronicled chronicled left.1 uncounted whole message
    rw [refused]
    exact fun _ => ⟨chain,recorded,rfl⟩
  · rename_i u mismatch
    rw [mismatch] at left
    have split : chain.take forkStart.toNat ++ chain.drop forkStart.toNat = chain := List.take_append_drop ..
    have sound := chronicled.sound
    have linked' := linked
    rw [← split] at sound linked'
    have forked : Lays counting
        (Tries (chain.take forkStart.toNat) (chain.drop forkStart.toNat) (chain.take forkStart.toNat ++ [] ++ fork))
        (applyFork now forkStart (chain.drop forkStart.toNat) fork false u.latestBlock u) := by
      refine applyForkLays ?_ sound linked' ?_ size.symm (fun _ => rfl) tried.1 rfl
      · rw [List.append_nil]
        exact left.1
      · rw [List.append_nil]
        exact linked.take _
    rw [List.append_nil] at forked
    split
    · rename_i v answer
      rw [answer] at forked
      obtain ⟨chain',final,blocks,linked'⟩ := forked .accepted
      refine fun _ => ⟨chain',?_,forkStart.toNat,by omega,by omega,by omega,?_,blocks,linked'⟩
      · refine returnDisplacedChronicled final fork (fun tx inside => ?_)
        obtain ⟨block,listed,own⟩ := List.mem_flatMap.mp inside
        rw [blocksFromHolds chronicled.holds chronicled.height] at listed
        exact chainNames chronicled.sound (List.mem_of_mem_drop (List.mem_reverse.mp listed)) tx own
      · rw [blocks,List.length_append,size]
        omega
    · rename_i answer unaccepted
      intro ended
      obtain ⟨chain',final,outcome⟩ := forked ended
      refine ⟨chain',final,?_⟩
      cases reply : (applyFork now forkStart (chain.drop forkStart.toNat) fork false u.latestBlock u).1 with
      | accepted => exact (unaccepted _ (Prod.ext reply rfl)).elim
      | refused message =>
        rw [reply] at outcome
        exact Eq.trans outcome split
      | raised e =>
        rw [reply] at outcome
        obtain ⟨rest,blocks,linked'⟩ := outcome
        exact ⟨forkStart.toNat,rest,blocks,linked'⟩

theorem performLays (chronicled : Chronicled counting chain s) (linked : Linked chain) (c : Call)
    (orderly : Orderly counting s c) : Lays counting (Effect chain c) (s.perform c) := by
  cases c with
  | initChain address sk pk now => exact initChainLays chronicled address sk pk now
  | activate address => exact activateLays chronicled address
  | submit now tx => exact fun _ => ⟨chain,submitChronicled chronicled now tx,rfl⟩
  | produce address sk now later => exact produceBlockLays chronicled address sk now later
  | receive block now => exact addBlockLays chronicled orderly
  | rollback target => exact rollbackLays chronicled target
  | reorg fork now => exact tryReorgLays chronicled linked orderly

end Calls

section Reached

inductive Fresh : Backend → Prop where
  | memory : Fresh (.memory [])
  | sqlite : Fresh (.sqlite {})

theorem freshChronicled {backend : Backend} {validators : Dict Address Bytes} (fresh : Fresh backend) :
    Chronicled False [] (new backend validators) := by
  cases fresh with
  | memory => exact chronicledNew
  | sqlite =>
    have memory : Chronicled False [] (new (.memory []) validators) := chronicledNew
    exact ⟨⟨memory.sound,fun count => count.elim,memory.height,memory.indexed,memory.counted,fun count => count.elim,
      memory.named,memory.drawn,memory.snapped,memory.pool,memory.finalized⟩,⟨rfl,fun i => by simp [listAt]⟩,rfl⟩

theorem reachedChain {backend : Backend} {validators : Dict Address Bytes} (fresh : Fresh backend) {s : Blockchain}
    (reached : Reached (Orderly False) (new backend validators) s) : ∃ chain, Chronicled False chain s ∧ Linked chain := by
  refine reachedInvariant (fun s => ∃ chain, Chronicled False chain s ∧ Linked chain)
    ⟨[],freshChronicled fresh,.nil⟩ (fun s c held orderly ended => ?_) reached
  obtain ⟨chain,chronicled,linked⟩ := held
  obtain ⟨chain',left,effect⟩ := performLays chronicled linked c orderly ended
  exact ⟨chain',left,LinkedLog.pathLinked linked (effectPath linked effect)⟩

structure Upright (s : Blockchain) : Prop where
  placed : ∀ (i : Int) (block : Block), s.getBlockByIndex i = some block → block.index = i
  present : ∀ i : Int, (s.getBlockByIndex i).isSome ↔ 0 ≤ i ∧ i ≤ s.height
  tip : s.latestBlock = s.getBlockByIndex s.height
  follows : ∀ (i : Int) (parent block : Block), s.getBlockByIndex i = some parent →
    s.getBlockByIndex (i + 1) = some block → Follows parent block

theorem chronicledUpright {counting : Prop} {chain : List Block} {s : Blockchain} (chronicled : Chronicled counting chain s)
    (linked : Linked chain) : Upright s := by
  have found : ∀ i : Int, s.getBlockByIndex i = listAt chain i := fun i => Backend.getBlockHolds chronicled.holds i
  have height := chronicled.height
  refine ⟨fun i block here => ?_,fun i => ?_,?_,fun i parent block below above => ?_⟩
  · rw [found,listAt] at here
    split at here
    · have position := (chronicled.sound _ block here).position
      have size := (List.getElem?_eq_some_iff.mp here).1
      rw [List.length_take] at position
      omega
    · cases here
  · rw [found,listAt]
    split
    · rw [Option.isSome_iff_ne_none,ne_eq,List.getElem?_eq_none_iff]
      omega
    · simp only [Option.isSome_none,Bool.false_eq_true,false_iff]
      omega
  · rw [found,chronicled.latestBlock,listAt,List.getLast?_eq_getElem?]
    split
    · rw [height]
      congr 1
      omega
    · have none : chain = [] := List.length_eq_zero_iff.mp (by omega)
      rw [none]
      rfl
  · rw [found,listAt] at below above
    split at below
    · rw [if_pos (by omega),show (i + 1).toNat = i.toNat + 1 by omega] at above
      exact LinkedLog.linkedAt linked below above
    · cases below

theorem chainLinked {backend : Backend} {validators : Dict Address Bytes} (fresh : Fresh backend) :
    ∀ s : Blockchain, Reached (Orderly False) (new backend validators) s → Upright s := by
  intro s reached
  obtain ⟨chain,chronicled,linked⟩ := reachedChain fresh reached
  exact chronicledUpright chronicled linked

theorem callsMoveBlocks {backend : Backend} {validators : Dict Address Bytes} (fresh : Fresh backend) :
    ∀ s : Blockchain, Reached (Orderly False) (new backend validators) s →
      ∀ c : Call, Orderly False s c → (s.perform c).1.Ended →
        ∃ chain chain', s.backend.Holds chain ∧ (s.perform c).2.backend.Holds chain' ∧
          Effect chain c (s.perform c).1 chain' ∧ LinkedLog.Path Follows chain chain' := by
  intro s reached c orderly ended
  obtain ⟨chain,chronicled,linked⟩ := reachedChain fresh reached
  obtain ⟨chain',left,effect⟩ := performLays chronicled linked c orderly ended
  exact ⟨chain,chain',chronicled.holds,left.holds,effect,effectPath linked effect⟩

end Reached

end QbitNetwork.Blockchain

namespace QbitNetwork.Devnet
open Blockchain

section Dynamic
attribute [local instance] dynamic

theorem foundedReached : Reached (Orderly False) (new (.memory [])) founded :=
  Reached.start.initChain (deriveAddress key) key key 100 trivial foundedRuns

theorem extendingTried : Tried False founded extending := by
  refine ⟨fun block inside => ?_,fun impossible => impossible.elim⟩
  rw [List.mem_singleton.mp inside]
  refine ⟨?_,fun tx listed => by cases listed⟩
  show founded.tipBlock.index + 1 ≠ 0
  decide +kernel

theorem extendingEnded : (founded.perform (.reorg extending 200)).1.Ended := by
  rw [perform,forksRun.2.2.1]
  exact .accepted

theorem chainLinkedExtended : Upright (founded.perform (.reorg extending 200)).2 :=
  chainLinked .memory _ (.call _ foundedReached extendingTried extendingEnded)

theorem callsMoveBlocksExtended : ∃ chain chain', founded.backend.Holds chain ∧
    (founded.perform (.reorg extending 200)).2.backend.Holds chain' ∧
    Effect chain (.reorg extending 200) (founded.perform (.reorg extending 200)).1 chain' ∧
    LinkedLog.Path Follows chain chain' :=
  callsMoveBlocks .memory founded foundedReached _ extendingTried extendingEnded

end Dynamic

end QbitNetwork.Devnet
