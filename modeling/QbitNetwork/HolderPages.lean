import QbitNetwork.Load
import QbitNetwork.TokenIndices
import QbitNetwork.Lib.Paging

/-! Pages of the holders of a token, from memory and from SQLite. -/
namespace QbitNetwork

structure Holder where
  address : Address
  amount : Int
  deriving DecidableEq, Repr

def sqliteMax : Int := 2 ^ 63 - 1

def tokenHolderMaxPage : Int := 100

namespace Holder

/- `ORDER BY amount DESC, address ASC`. -/
def order (a b : Holder) : Ordering := (compare b.amount a.amount).then (compare a.address b.address)

def sort (holders : List Holder) : List Holder := holders.mergeSort (fun a b => (a.order b).isLE)

end Holder

/- `heapq.nsmallest`. -/
def nsmallest (n : Int) (rows : List (Int × Address)) : List (Int × Address) :=
  (rows.mergeSort (fun a b => (compare a b).isLE)).take n.toNat

namespace Store

/- `get_token_holders_page`. A negative LIMIT is none, a negative OFFSET is 0. -/
def getTokenHoldersPage (d : Store) (tid : TokenId) (page limit : Int) : Except PyExc (List Holder × Nat) :=
  let offset := (page - 1) * limit
  if sqliteMax < limit ∨ limit < -sqliteMax - 1 ∨ sqliteMax < offset ∨ offset < -sqliteMax - 1 then
    .error .overflowError
  else
    let holders := (d.getTokenHolders tid).map (fun row => Holder.mk row.1 row.2)
    let rows := (Holder.sort holders).drop offset.toNat
    .ok (if limit < 0 then rows else rows.take limit.toNat,holders.length)

end Store

namespace Tokens

def positiveHolders (t : Tokens) (tid : TokenId) (addrs : DSet Address) : List (Int × Address) :=
  (addrs.toList.filter (fun address => 0 < t.getTokenBalance tid address)).map
    (fun address => (-t.getTokenBalance tid address,address))

def pageSize (limit : Int) : Int := max 1 (min limit tokenHolderMaxPage)

def OffsetFits (page limit : Int) : Prop := (max 1 page - 1) * pageSize limit ≤ sqliteMax
instance (page limit : Int) : Decidable (OffsetFits page limit) :=
  inferInstanceAs (Decidable ((max 1 page - 1) * pageSize limit ≤ sqliteMax))

def getTokenHolders (t : Tokens) (store : Option Store) (tid : TokenId) (page limit : Int) :
    Except PyExc (List Holder × Nat) :=
  let page := max 1 page
  let limit := pageSize limit
  match store with
  | some d => d.getTokenHoldersPage tid page limit
  | none =>
    match t.holdersByToken[tid]? with
    | none => .ok ([],0)
    | some addrs =>
      let total := (t.positiveHolders tid addrs).length
      if addrs.isEmpty ∨ total = 0 then .ok ([],0)
      else
        let start := (page - 1) * limit
        let topN := nsmallest (start + limit) (t.positiveHolders tid addrs)
        .ok ((topN.drop start.toNat).map (fun row => ⟨row.2,-row.1⟩),total)

def holderPages (t : Tokens) (store : Option Store) (tid : TokenId) (limit : Int) (page : Nat) :
    Except PyExc (List Holder) :=
  (t.getTokenHolders store tid page limit).map Prod.fst

structure Mirrored (t : Tokens) (d : Store) : Prop where
  listed : ∀ tid address, Groups.Member t.holdersByToken tid address ↔ 0 < t.getTokenBalance tid address
  stored : ∀ tid address, d.tokenBalances.get (tid,address) = max 0 (t.getTokenBalance tid address)

theorem mirroredEmpty : Mirrored {} {} where
  listed tid address := by simp [Groups.Member,getTokenBalance]
  stored tid address := by simp [getTokenBalance]

theorem mirroredSet {t : Tokens} {d : Store} (mirrored : Mirrored t d) (tid : TokenId) (address : Address)
    (amount : Int) : Mirrored (t.setTokenBalance tid address amount) (d.putTokenBalance tid address amount) := by
  have balance : ∀ other holder, (t.setTokenBalance tid address amount).getTokenBalance other holder =
      if tid = other ∧ address = holder then amount else t.getTokenBalance other holder := by
    intro other holder
    have balances : (t.setTokenBalance tid address amount).balances = t.balances.insert (tid,address) amount := by
      rw [setTokenBalance,updateTokenIndex]
      split <;> rfl
    rw [getTokenBalance,balances,Std.ExtTreeMap.getD_insert]
    simp only [Std.compare_eq_iff_eq,Prod.mk.injEq]
    rfl
  refine ⟨fun other holder => ?_,fun other holder => ?_⟩
  · rw [balance,setTokenBalance,updateTokenIndex]
    split
    · rename_i more
      rw [Groups.memberAdd,mirrored.listed]
      split
      · rename_i same
        simp [same.1,same.2,more]
      · rename_i different
        simp only [or_iff_right_iff_imp]
        intro same
        exact absurd ⟨same.1.symm,same.2.symm⟩ different
    · rename_i less
      rw [Groups.memberDrop,mirrored.listed]
      split
      · rename_i same
        simp [same.1,same.2,less]
      · rename_i different
        exact and_iff_right (fun same => different ⟨same.1.symm,same.2.symm⟩)
  · rw [balance,Store.putTokenBalance]
    simp only [Table.getSet,mirrored.stored,Prod.mk.injEq]
    split <;> rfl

structure Ranking (t : Tokens) (tid : TokenId) (holders : List Holder) : Prop where
  all : ∀ h, h ∈ holders ↔ 0 < h.amount ∧ t.getTokenBalance tid h.address = h.amount
  ordered : holders.Pairwise (fun a b => b.amount < a.amount ∨ a.amount = b.amount ∧ compare a.address b.address = .lt)

end Tokens

namespace Holder

def key (h : Holder) : Int × Address := (-h.amount,h.address)

def ofKey (row : Int × Address) : Holder := ⟨row.2,-row.1⟩

@[simp] theorem keyOfKey (row : Int × Address) : (ofKey row).key = row := by simp [key,ofKey]

theorem keyInjective {a b : Holder} (same : a.key = b.key) : a = b := by
  obtain ⟨address,amount⟩ := a
  obtain ⟨address',amount'⟩ := b
  obtain ⟨amounts,addresses⟩ := Prod.mk.inj same
  simp only [neg_inj] at amounts addresses
  rw [amounts,addresses]

theorem orderKey (a b : Holder) : a.order b = compare a.key b.key := by
  have amounts : compare b.amount a.amount = compare (-a.amount) (-b.amount) := by
    simp only [compare,compareOfLessAndEq]
    grind
  rw [order,amounts]
  rfl

theorem orderEq {a b : Holder} (same : a.order b = .eq) : a = b := by
  rw [orderKey] at same
  exact keyInjective (Std.compare_eq_iff_eq.mp same)

theorem sortOrdered (holders : List Holder) : (sort holders).Pairwise (fun a b => (a.order b).isLE = true) := by
  refine List.pairwise_mergeSort (fun a b c => ?_) (fun a b => ?_) holders
  · simp only [orderKey]
    exact Std.TransCmp.isLE_trans
  · simp only [orderKey]
    rw [show compare b.key a.key = (compare a.key b.key).swap from Std.OrientedCmp.eq_swap]
    cases compare a.key b.key <;> rfl

theorem sortPerm {holders holders' : List Holder} (perm : holders.Perm holders') : sort holders = sort holders' := by
  refine List.Perm.eq_of_pairwise (fun a b _ _ before after => ?_) (sortOrdered _) (sortOrdered _)
    ((List.mergeSort_perm ..).trans (perm.trans (List.mergeSort_perm ..).symm))
  rw [orderKey] at before after
  exact keyInjective (Std.compare_eq_iff_eq.mp (Std.OrientedCmp.isLE_antisymm before after))

theorem sortStrict {holders : List Holder} (distinct : holders.Nodup) :
    (sort holders).Pairwise (fun a b => a.order b = .lt) := by
  have apart : (sort holders).Nodup := (List.mergeSort_perm ..).nodup_iff.mpr distinct
  refine (List.pairwise_and_iff.mpr ⟨sortOrdered holders,apart⟩).imp (fun both => ?_)
  obtain ⟨before,different⟩ := both
  cases found : order _ _ with
  | lt => rfl
  | eq => exact absurd (orderEq found) different
  | gt =>
    rw [found] at before
    cases before

theorem sortOfKeys (rows : List (Int × Address)) :
    (rows.mergeSort (fun a b => (compare a b).isLE)).map ofKey = sort (rows.map ofKey) := by
  refine List.map_mergeSort (fun a _ b _ => ?_)
  rw [orderKey,keyOfKey,keyOfKey]

end Holder

section Pages
variable {t : Tokens} {d : Store} {tid : TokenId}

def Store.holderRows (d : Store) (tid : TokenId) : List Holder :=
  (d.getTokenHolders tid).map (fun row => Holder.mk row.1 row.2)

def Tokens.holderRows (t : Tokens) (tid : TokenId) : List Holder :=
  match t.holdersByToken[tid]? with
  | none => []
  | some addrs => (t.positiveHolders tid addrs).map Holder.ofKey

theorem storeRows (mirrored : t.Mirrored d) (h : Holder) :
    h ∈ d.holderRows tid ↔ 0 < h.amount ∧ t.getTokenBalance tid h.address = h.amount := by
  have row : h ∈ d.holderRows tid ↔ ((tid,h.address),h.amount) ∈ d.tokenBalances.items ∧ 0 < h.amount := by
    simp only [Store.holderRows,Store.getTokenHolders,List.map_map,List.mem_map,List.mem_filter,decide_eq_true_eq]
    constructor
    · rintro ⟨⟨⟨_,address⟩,amount⟩,⟨listed,rfl,positive⟩,rfl⟩
      exact ⟨listed,positive⟩
    · rintro ⟨listed,positive⟩
      exact ⟨_,⟨listed,rfl,positive⟩,rfl⟩
  rw [row,Table.memItems,mirrored.stored]
  constructor
  · rintro ⟨⟨same,-⟩,positive⟩
    exact ⟨positive,by omega⟩
  · rintro ⟨positive,same⟩
    exact ⟨⟨by omega,by omega⟩,positive⟩

theorem indexRows (mirrored : t.Mirrored d) (h : Holder) :
    h ∈ t.holderRows tid ↔ 0 < h.amount ∧ t.getTokenBalance tid h.address = h.amount := by
  have row : h ∈ t.holderRows tid ↔ Groups.Member t.holdersByToken tid h.address ∧
      0 < t.getTokenBalance tid h.address ∧ t.getTokenBalance tid h.address = h.amount := by
    rw [Tokens.holderRows]
    constructor
    · intro inside
      cases found : t.holdersByToken[tid]? with
      | none =>
        rw [found] at inside
        cases inside
      | some addrs =>
        simp only [found,Tokens.positiveHolders,List.map_map,List.mem_map,List.mem_filter,decide_eq_true_eq] at inside
        obtain ⟨address,⟨listed,positive⟩,rfl⟩ := inside
        exact ⟨⟨addrs,found,Std.ExtTreeSet.mem_toList.mp listed⟩,positive,(neg_neg _).symm⟩
    · rintro ⟨⟨addrs,found,listed⟩,positive,same⟩
      simp only [found,Tokens.positiveHolders,List.map_map,List.mem_map,List.mem_filter,decide_eq_true_eq]
      refine ⟨h.address,⟨Std.ExtTreeSet.mem_toList.mpr listed,positive⟩,?_⟩
      simp [Holder.ofKey,same]
  rw [row,mirrored.listed]
  constructor
  · rintro ⟨-,positive,same⟩
    exact ⟨same ▸ positive,same⟩
  · rintro ⟨positive,same⟩
    exact ⟨same ▸ positive,same ▸ positive,same⟩

theorem storeDistinct (d : Store) (tid : TokenId) : (d.holderRows tid).Nodup := by
  have rows := (Table.nodupItems d.tokenBalances).of_map
  rw [Store.holderRows,Store.getTokenHolders,List.map_map]
  refine (List.Nodup.filter _ rows).map_on (fun a first b second same => ?_)
  obtain ⟨-,kept⟩ := List.mem_filter.mp first
  obtain ⟨-,kept'⟩ := List.mem_filter.mp second
  obtain ⟨⟨tidA,addressA⟩,amountA⟩ := a
  obtain ⟨⟨tidB,addressB⟩,amountB⟩ := b
  obtain ⟨rfl,-⟩ := of_decide_eq_true kept
  obtain ⟨rfl,-⟩ := of_decide_eq_true kept'
  cases same
  rfl

theorem indexDistinct (t : Tokens) (tid : TokenId) : (t.holderRows tid).Nodup := by
  rw [Tokens.holderRows]
  split
  · exact List.nodup_nil
  · rename_i addrs _
    rw [Tokens.positiveHolders,List.map_map]
    refine List.Nodup.map (fun a b same => congrArg Holder.address same) (List.Nodup.filter _ ?_)
    exact addrs.distinct_toList.imp (fun different same => different (by rw [same]; exact Std.ReflCmp.compare_self))

theorem rowsPerm (mirrored : t.Mirrored d) : (d.holderRows tid).Perm (t.holderRows tid) :=
  (List.perm_ext_iff_of_nodup (storeDistinct d tid) (indexDistinct t tid)).mpr
    (fun h => (storeRows mirrored h).trans (indexRows mirrored h).symm)

theorem ranking (mirrored : t.Mirrored d) : t.Ranking tid (Holder.sort (t.holderRows tid)) where
  all h := by rw [Holder.sort,List.mem_mergeSort,indexRows mirrored]
  ordered := by
    refine (Holder.sortStrict (indexDistinct t tid)).imp (fun {a b} before => ?_)
    rw [Holder.order,Ordering.then_eq_lt] at before
    rcases before with larger | ⟨same,before⟩
    · exact .inl (Int.compare_eq_lt.mp larger)
    · exact .inr ⟨(Int.compare_eq_eq.mp same).symm,before⟩

theorem pageSizeBounds (limit : Int) : 1 ≤ Tokens.pageSize limit ∧ Tokens.pageSize limit ≤ 100 := by
  simp only [Tokens.pageSize,tokenHolderMaxPage]
  omega

theorem offsetNonneg (page limit : Int) : 0 ≤ (max 1 page - 1) * Tokens.pageSize limit :=
  Int.mul_nonneg (by omega) (by have := pageSizeBounds limit; omega)

theorem memoryPage (t : Tokens) (tid : TokenId) (page limit : Int) :
    t.getTokenHolders none tid page limit =
      .ok (((Holder.sort (t.holderRows tid)).drop ((max 1 page - 1) * Tokens.pageSize limit).toNat).take
        (Tokens.pageSize limit).toNat,(t.holderRows tid).length) := by
  have start := offsetNonneg page limit
  have size := pageSizeBounds limit
  simp only [Tokens.getTokenHolders,Tokens.holderRows]
  cases t.holdersByToken[tid]? with
  | none => simp [Holder.sort]
  | some addrs =>
    simp only
    split
    · rename_i nobody
      have none : t.positiveHolders tid addrs = [] := by
        rcases nobody with empty | nothing
        · rw [Std.ExtTreeSet.isEmpty_iff.mp empty]
          rfl
        · exact List.length_eq_zero_iff.mp nothing
      simp [none,Holder.sort]
    · have width : ((max 1 page - 1) * Tokens.pageSize limit + Tokens.pageSize limit).toNat -
          ((max 1 page - 1) * Tokens.pageSize limit).toNat = (Tokens.pageSize limit).toNat := by omega
      rw [nsmallest,List.drop_take,width,List.map_take,List.map_drop,← Holder.sortOfKeys,List.length_map]
      rfl

theorem storePage (t : Tokens) (d : Store) (tid : TokenId) (page limit : Int) :
    t.getTokenHolders (some d) tid page limit =
      if sqliteMax < (max 1 page - 1) * Tokens.pageSize limit then .error .overflowError
      else .ok (((Holder.sort (d.holderRows tid)).drop ((max 1 page - 1) * Tokens.pageSize limit).toNat).take
        (Tokens.pageSize limit).toNat,(d.holderRows tid).length) := by
  have start := offsetNonneg page limit
  have size := pageSizeBounds limit
  have least : -sqliteMax - 1 < 0 := by decide
  have most : 100 < sqliteMax := by decide
  simp only [Tokens.getTokenHolders,Store.getTokenHoldersPage]
  by_cases beyond : sqliteMax < (max 1 page - 1) * Tokens.pageSize limit
  · rw [if_pos (.inr (.inr (.inl beyond))),if_pos beyond]
  · rw [if_neg (by omega),if_neg beyond,if_neg (by omega)]
    rfl

theorem pagesAgree (mirrored : t.Mirrored d) (tid : TokenId) (page limit : Int) :
    t.getTokenHolders (some d) tid page limit = t.getTokenHolders none tid page limit ↔
      Tokens.OffsetFits page limit := by
  rw [storePage,memoryPage,Holder.sortPerm (rowsPerm mirrored),(rowsPerm mirrored).length_eq,Tokens.OffsetFits]
  split
  · rename_i far
    constructor
    · intro same
      cases same
    · intro fits
      exact absurd far (not_lt.mpr fits)
  · rename_i near
    exact ⟨fun _ => not_lt.mp near,fun _ => rfl⟩

theorem memoryPages (t : Tokens) (tid : TokenId) (limit : Int) {n : Nat} (first : 1 ≤ n) :
    t.holderPages none tid limit n =
      .ok (Paging.page (Holder.sort (t.holderRows tid)) (Tokens.pageSize limit).toNat n) := by
  have size := pageSizeBounds limit
  have offset : ((max 1 (n : Int) - 1) * Tokens.pageSize limit).toNat = (n - 1) * (Tokens.pageSize limit).toNat := by
    rw [max_eq_right (by omega),Int.toNat_mul (by omega) (by omega)]
    congr 1
    omega
  rw [Tokens.holderPages,memoryPage,offset]
  rfl

theorem fitsBelow {limit : Int} {k m : Nat} (before : k ≤ m) (fits : Tokens.OffsetFits m limit) :
    Tokens.OffsetFits k limit := by
  have size := pageSizeBounds limit
  have less : (max 1 (k : Int) - 1) * Tokens.pageSize limit ≤ (max 1 (m : Int) - 1) * Tokens.pageSize limit :=
    Int.mul_le_mul_of_nonneg_right (by omega) (by omega)
  exact less.trans fits

theorem tokenHolderPages (mirrored : t.Mirrored d) (tid : TokenId) (limit : Int) :
    ∃ holders, t.Ranking tid holders ∧
      (∀ page, t.getTokenHolders (some d) tid page limit = t.getTokenHolders none tid page limit ↔
        Tokens.OffsetFits page limit) ∧
      Paging.Walk (t.holderPages none tid limit) 1 holders ∧
      (Paging.Walk (t.holderPages (some d) tid limit) 1 holders ↔
        Tokens.OffsetFits (Paging.emptyPage holders.length (Tokens.pageSize limit).toNat) limit) := by
  have size := pageSizeBounds limit
  have positive : 0 < (Tokens.pageSize limit).toNat := by omega
  refine ⟨_,ranking mirrored,fun page => pagesAgree mirrored tid page limit,
    Paging.walkPages positive (fun k first _ => memoryPages t tid limit first),
    Paging.walkIff positive fitsBelow ?_ ?_⟩
  · intro k first fits
    rw [Tokens.holderPages,(pagesAgree mirrored tid k limit).mpr fits]
    exact memoryPages t tid limit first
  · intro k _ far rows
    rw [Tokens.holderPages,storePage,if_pos (not_le.mp far)]
    intro same
    cases same

end Pages

namespace Devnet

def pagedTokens : Tokens :=
  ((({} : Tokens).setTokenBalance "gold" "carol" 5).setTokenBalance "gold" "alice" 7).setTokenBalance "gold" "bob" 5

def pagedStore : Store :=
  ((({} : Store).putTokenBalance "gold" "carol" 5).putTokenBalance "gold" "alice" 7).putTokenBalance "gold" "bob" 5

theorem pagedMirrored : pagedTokens.Mirrored pagedStore :=
  Tokens.mirroredSet (Tokens.mirroredSet (Tokens.mirroredSet Tokens.mirroredEmpty "gold" "carol" 5) "gold" "alice" 7)
    "gold" "bob" 5

theorem holderPagesOfTwo : ∃ holders, pagedTokens.Ranking "gold" holders ∧
    Paging.Walk (pagedTokens.holderPages none "gold" 2) 1 holders ∧
    pagedTokens.getTokenHolders (some pagedStore) "gold" 2 2 = pagedTokens.getTokenHolders none "gold" 2 2 := by
  obtain ⟨holders,ranked,agree,walk,-⟩ := tokenHolderPages pagedMirrored "gold" 2
  exact ⟨holders,ranked,walk,(agree 2).mpr (by decide)⟩

theorem holderPagesApart : ¬ ∀ (t : Tokens) (d : Store), t.Mirrored d → ∀ (tid : TokenId) (page limit : Int),
    t.getTokenHolders (some d) tid page limit = t.getTokenHolders none tid page limit := by
  intro claim
  have same := claim pagedTokens pagedStore pagedMirrored "gold" (10 ^ 18 + 1) 100
  rw [storePage,memoryPage,if_pos (by decide)] at same
  cases same

end Devnet

end QbitNetwork
