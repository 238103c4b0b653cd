import QbitNetwork.AppendLaws
import QbitNetwork.Rollback
import Mathlib.Data.List.Induction
import Mathlib.Data.List.Sort

/-! Where the blocks of a chain are kept: the list in memory, or the rows of the block
table, which stand at their heights without a gap. -/
namespace QbitNetwork

section Rows
variable {V : Type}

theorem rowsByPosition {rows : Dict Int V} {items : List V} (listed : ∀ i, rows[i]? = listAt items i) :
    rows.toList = items.zipIdx.map (fun row => ((row.2 : Int),row.1)) := by
  have ordered : rows.toList.Pairwise (fun a b => a.1 < b.1) :=
    rows.ordered_keys_toList.imp (fun less => Std.LawfulLTCmp.eq_lt_iff_lt.mp less)
  have places : (items.zipIdx.map (fun row => ((row.2 : Int),row.1))).Pairwise
      (fun a b => a.1 < b.1) := by
    refine List.pairwise_map.mpr ?_
    refine List.Pairwise.imp (R := fun a b => a.2 < b.2) (fun less => by simpa using less) ?_
    refine (List.pairwise_map (f := Prod.snd) (R := (· < ·))).mp ?_
    rw [List.zipIdx_map_snd]
    exact List.pairwise_lt_range'
  have member : ∀ row, row ∈ rows.toList ↔
      row ∈ items.zipIdx.map (fun row => ((row.2 : Int),row.1)) := by
    rintro ⟨i,v⟩
    rw [Std.ExtTreeMap.mem_toList_iff_getElem?_eq_some,listed,List.mem_map]
    simp only [listAt]
    constructor
    · intro found
      split at found
      · rename_i nonneg
        exact ⟨(v,i.toNat),List.mem_zipIdx_iff_getElem?.mpr found,by simp [nonneg]⟩
      · contradiction
    · rintro ⟨⟨w,n⟩,inside,same⟩
      cases same
      rw [if_pos (by omega)]
      simpa using List.mem_zipIdx_iff_getElem?.mp inside
  refine List.Perm.eq_of_pairwise
    (fun a b _ _ (less : a.1 < b.1) more => absurd less (by omega)) ordered places ?_
  exact (List.perm_ext_iff_of_nodup (ordered.imp (fun less same => by subst same; omega))
    (places.imp (fun less same => by subst same; omega))).mpr member

theorem listAtNat (items : List V) (i : Nat) : listAt items (i : Int) = items[i]? := by
  rw [listAt,if_pos (by omega),Int.toNat_natCast]

theorem listAtTake (items : List V) (target i : Int) :
    listAt (items.take target.toNat) i = if i < target then listAt items i else none := by
  simp only [listAt]
  by_cases below : i < target
  · rw [if_pos below]
    split
    · rw [List.getElem?_take,if_pos (by omega)]
    · rfl
  · rw [if_neg below]
    split
    · exact List.getElem?_eq_none (by rw [List.length_take]; omega)
    · rfl

theorem listAtAppend (items : List V) (item : V) (i : Int) :
    listAt (items ++ [item]) i = if i = items.length then some item else listAt items i := by
  simp only [listAt]
  split
  · rename_i nonneg
    rcases Int.lt_trichotomy i items.length with below | rfl | above
    · rw [List.getElem?_append_left (by omega),if_neg (by omega)]
    · simp
    · rw [List.getElem?_eq_none (by simp; omega),if_neg (by omega),List.getElem?_eq_none (by omega)]
  · rw [if_neg (by omega)]

theorem maxKeyByPosition {rows : Dict Int V} {items : List V} (listed : ∀ i, rows[i]? = listAt items i) :
    rows.maxKey?.getD (-1) = (items.length : Int) - 1 := by
  rw [Std.ExtTreeMap.maxKey?_eq_getLast?_keys,← Std.ExtTreeMap.map_fst_toList_eq_keys,
    rowsByPosition listed,List.map_map]
  cases items using List.reverseRecOn with
  | nil => rfl
  | append_singleton rest item => simp [List.zipIdx_append]

theorem filterPositions (items : List V) (n : Nat) (start stop : Int) :
    ((items.zipIdx n).filter (fun row => start ≤ (row.2 : Int) ∧ (row.2 : Int) < stop)).map Prod.fst =
      (items.take (stop - n).toNat).drop (start - n).toNat := by
  induction items generalizing n with
  | nil => simp
  | cons item rest ih =>
    rw [List.zipIdx_cons,List.filter_cons]
    have later := ih (n + 1)
    by_cases below : (n : Int) < stop
    · obtain ⟨k,room⟩ : ∃ k, (stop - n).toNat = k + 1 := ⟨(stop - n).toNat - 1,by omega⟩
      have next : (stop - ((n + 1 : Nat) : Int)).toNat = k := by omega
      rw [room,List.take_succ_cons]
      by_cases above : start ≤ (n : Int)
      · have here : (start - n).toNat = 0 := by omega
        have there : (start - ((n + 1 : Nat) : Int)).toNat = 0 := by omega
        rw [next,there] at later
        simpa [above,below,here] using later
      · obtain ⟨j,skip⟩ : ∃ j, (start - n).toNat = j + 1 := ⟨(start - n).toNat - 1,by omega⟩
        have there : (start - ((n + 1 : Nat) : Int)).toNat = j := by omega
        rw [next,there] at later
        simpa [above,skip] using later
    · have room : (stop - n).toNat = 0 := by omega
      have next : (stop - ((n + 1 : Nat) : Int)).toNat = 0 := by omega
      rw [next] at later
      simpa [below,room] using later

end Rows

namespace Backend

def Holds (b : Backend) (chain : List Block) : Prop :=
  match b with
  | .memory chainList => chainList = chain
  | .sqlite d => d.height = (chain.length : Int) - 1 ∧ ∀ i, d.blocks[i]? = listAt chain i

theorem holdsStored {b b' : Backend} {chain : List Block} (same : b'.stored = b.stored)
    (holds : b.Holds chain) : b'.Holds chain := by
  cases b <;> cases b' <;> simp_all [stored,Holds]

theorem holdsMemory {chain chainList : List Block} (holds : (memory chainList).Holds chain) :
    memory chainList = .memory chain := congrArg memory holds

theorem getBlockHolds {b : Backend} {chain : List Block} (holds : b.Holds chain) (i : Int) :
    b.getBlock i = listAt chain i := by
  cases b with
  | memory chainList => rw [show chainList = chain from holds]; rfl
  | sqlite d => exact holds.2 i

theorem holdsExtended {b b' : Backend} {chain : List Block} {block : Block} (holds : b.Holds chain)
    (grown : b'.stored = Blockchain.extended b.stored block) : b'.Holds (chain ++ [block]) := by
  cases b with
  | memory chainList =>
    cases b' with
    | memory other => rw [← show chainList = chain from holds]; exact Sum.inl.inj grown
    | sqlite d => cases grown
  | sqlite d =>
    cases b' with
    | memory other => cases grown
    | sqlite d' =>
      obtain ⟨height,rows⟩ := Prod.mk.inj (Sum.inr.inj grown)
      refine ⟨?_,fun i => ?_⟩
      · rw [height,holds.1,List.length_append,List.length_singleton]
        omega
      · rw [rows,Std.ExtTreeMap.getElem?_insert,listAtAppend,holds.2 i,holds.1]
        simp only [Std.compare_eq_iff_eq]
        congr 1
        exact propext (by omega)

theorem deleteHolds {d : Store} {chain : List Block} (holds : (sqlite d).Holds chain) (target : Int) :
    (sqlite (d.deleteBlocksFrom target)).Holds (chain.take target.toNat) := by
  have kept : ∀ i, (d.deleteBlocksFrom target).blocks[i]? = listAt (chain.take target.toNat) i := by
    intro i
    simp only [Store.deleteBlocksFrom]
    rw [Std.ExtTreeMap.getElem?_filter',holds.2 i,listAtTake]
    by_cases below : i < target <;> cases listAt chain i <;> simp [below]
  exact ⟨maxKeyByPosition kept,kept⟩

theorem getBlocksRangeHolds {b : Backend} {chain : List Block} (holds : b.Holds chain) (start stop : Int) :
    b.getBlocksRange start stop = (chain.take stop.toNat).drop start.toNat := by
  cases b with
  | memory chainList => rw [show chainList = chain from holds]; rfl
  | sqlite d =>
    simp only [getBlocksRange,Store.getBlocksRange]
    have range := filterPositions chain 0 start stop
    rw [Nat.cast_zero,Int.sub_zero,Int.sub_zero] at range
    rw [rowsByPosition holds.2,List.filter_map,List.map_map,← range]
    rfl

theorem updateHolds [Env] {d d' : Store} {prior : List Block} {old block : Block}
    (holds : (sqlite d).Holds (prior ++ [old])) (position : block.index = prior.length)
    (run : d.updateBlock block = .ok d') : (sqlite d').Holds (prior ++ [block]) := by
  have here : block.index ∈ d.blocks := by
    rw [Std.ExtTreeMap.mem_iff_isSome_getElem?,holds.2,position,listAtAppend,if_pos rfl]
    rfl
  unfold Store.updateBlock at run
  rw [if_neg (fun absent => absent here)] at run
  split at run
  · contradiction
  · cases run
    refine ⟨?_,fun i => ?_⟩
    · rw [show d.height = _ from holds.1]
      simp
    · rw [Std.ExtTreeMap.getElem?_insert,holds.2 i,listAtAppend,listAtAppend,position]
      simp only [Std.compare_eq_iff_eq]
      split
      · rename_i same
        rw [if_pos same.symm]
      · rename_i other
        rw [if_neg (Ne.symm other),if_neg (Ne.symm other)]

end Backend

namespace Blockchain
variable [Env]

omit [Env] in
theorem downFromCons {high low : Int} (above : low < high) :
    downFrom high low = high :: downFrom (high - 1) low := by
  obtain ⟨n,size⟩ : ∃ n, (high - low).toNat = n + 1 := ⟨(high - low).toNat - 1,by omega⟩
  have rest : (high - 1 - low).toNat = n := by omega
  rw [downFrom,downFrom,size,rest,List.range_succ_eq_map,List.map_cons,List.map_map]
  refine congrArg₂ List.cons (by simp) (List.map_congr_left (fun i _ => ?_))
  simp only [Function.comp_apply,Nat.succ_eq_add_one]
  omega

omit [Env] in
theorem downFromNone {high low : Int} (below : high ≤ low) : downFrom high low = [] := by
  rw [downFrom,show (high - low).toNat = 0 by omega]
  rfl

omit [Env] in
theorem filterMapDown (chain : List Block) (target : Int) :
    (downFrom ((chain.length : Int) - 1) (target - 1)).filterMap (listAt chain) =
      (chain.drop target.toNat).reverse := by
  induction chain using List.reverseRecOn with
  | nil =>
    refine (List.filterMap_eq_nil_iff.mpr (fun i _ => ?_)).trans (by simp)
    simp [listAt]
  | append_singleton prior block ih =>
    have size : ((prior ++ [block]).length : Int) - 1 = prior.length := by simp
    rw [size]
    by_cases inside : target ≤ prior.length
    · rw [downFromCons (by omega),List.filterMap_cons,listAtAppend,if_pos rfl]
      dsimp only
      have same : (downFrom ((prior.length : Int) - 1) (target - 1)).filterMap (listAt (prior ++ [block])) =
          (downFrom ((prior.length : Int) - 1) (target - 1)).filterMap (listAt prior) := by
        refine List.filterMap_congr (fun i within => ?_)
        rw [listAtAppend,if_neg]
        have := (memDownFrom.mp within).2
        omega
      rw [same,ih,List.drop_append_of_le_length (by omega),List.reverse_append]
      rfl
    · rw [downFromNone (by omega),List.drop_eq_nil_of_le (by simp; omega)]
      rfl

omit [Env] in
theorem blocksFromHolds {s : Blockchain} {chain : List Block} (holds : s.backend.Holds chain)
    (height : s.height = (chain.length : Int) - 1) (target : Int) :
    s.blocksFrom target = (chain.drop target.toNat).reverse := by
  unfold blocksFrom
  cases stored : s.backend with
  | memory chainList =>
    rw [stored] at holds
    rw [show chainList = chain from holds]
  | sqlite d =>
    rw [stored] at holds
    dsimp only
    have rows : d.getBlock = listAt chain := funext holds.2
    rw [rows,height,filterMapDown]

end Blockchain

end QbitNetwork
