import QbitNetwork.Lib.OrderedDict
import QbitNetwork.StateProofs

/-! The trie under any sequence of calls. Its rows stand in the order they came in, its root
and its proofs are those of the mapping alone. -/
namespace QbitNetwork

/- The trie as the source keeps it: its dictionary remembers the order of its keys. -/
structure RowTrie where
  entries : OrderedDict String Bytes := .empty
  dirty : Bool := true
  cachedRoot : Option Bytes := none

namespace RowTrie

def set (t : RowTrie) (key : String) (value : Bytes) : RowTrie :=
  if t.entries.get? key = some value then t
  else { t with entries := t.entries.set key value, dirty := true }

def delete (t : RowTrie) (key : String) : RowTrie :=
  if t.entries.contains key then { t with entries := t.entries.pop key, dirty := true } else t

def snapshot (t : RowTrie) : OrderedDict String Bytes := t.entries

def restore (t : RowTrie) (entries : OrderedDict String Bytes) : RowTrie :=
  { t with entries, dirty := true }

variable [Env]

def sortedLeaves (t : RowTrie) : List Bytes :=
  t.entries.sortedKeys.map (fun key => sha3_256 (encode key ++ (t.entries.get? key).getD []))

def computeRoot (t : RowTrie) : Bytes :=
  if t.entries.size = 0 then sha3_256 (encode "empty_state") else merkleRoot t.sortedLeaves

def root (t : RowTrie) : Bytes × RowTrie :=
  match t.dirty,t.cachedRoot with
  | false,some cached => (cached,t)
  | _,_ => (t.computeRoot,{ t with dirty := false, cachedRoot := some t.computeRoot })

/- `get_proof(key)`, which asks for the root and so fills the cache. -/
def getProof (t : RowTrie) (key : String) : Option StateProof × RowTrie :=
  match t.entries.get? key with
  | none => (none,t)
  | some value =>
    let path := merkleProof t.sortedLeaves (bisectLeft t.entries.sortedKeys key)
    (some
      { key
        value := hex value
        proof := hexPath path
        root := hex t.root.1 },t.root.2)

end RowTrie

inductive TrieCall where
  | set (key : String) (value : Bytes)
  | delete (key : String)
  | snapshot
  | restore (entries : OrderedDict String Bytes)
  | root
  | getProof (key : String)

def TrieCall.mapping (entries : Dict String Bytes) : TrieCall → Dict String Bytes
  | .set key value => entries.insert key value
  | .delete key => entries.erase key
  | .restore entries => entries.toDict
  | .snapshot | .root | .getProof _ => entries

def RowTrie.call [Env] (t : RowTrie) : TrieCall → RowTrie
  | .set key value => t.set key value
  | .delete key => t.delete key
  | .snapshot => t
  | .restore entries => t.restore entries
  | .root => t.root.2
  | .getProof key => (t.getProof key).2

namespace RowTrie

def plain (t : RowTrie) : StateTrie where
  entries := t.entries.toDict
  dirty := t.dirty
  cachedRoot := t.cachedRoot

theorem plainGet (t : RowTrie) (key : String) : t.plain.entries[key]? = t.entries.get? key :=
  t.entries.toDictGet key

theorem plainSet (t : RowTrie) (key : String) (value : Bytes) : (t.set key value).plain = t.plain.set key value := by
  unfold set StateTrie.set
  rw [plainGet]
  split
  · rfl
  · rw [plain,OrderedDict.toDictSet]
    rfl

theorem deleteEntries (t : RowTrie) (key : String) : (t.delete key).plain.entries = t.plain.entries.erase key := by
  unfold delete
  split
  · exact t.entries.toDictPop key
  · rename_i absent
    refine (Dict.eraseAbsent _ ?_).symm
    rw [plainGet,OrderedDict.getNone]
    exact fun value inside => absent ((OrderedDict.containsIff ..).mpr ⟨value,inside⟩)

variable [Env]

theorem plainLeaves (t : RowTrie) : t.sortedLeaves = StateTrie.sortedLeaves t.plain.entries := by
  rw [sortedLeaves,OrderedDict.sortedKeysToDict,List.map_map,StateTrie.sortedLeaves]
  refine List.map_congr_left (fun row inside => ?_)
  have held := Std.ExtTreeMap.mem_toList_iff_getElem?_eq_some.mp inside
  rw [OrderedDict.toDictGet] at held
  rw [Function.comp_apply,held]
  rfl

theorem plainComputeRoot (t : RowTrie) : t.computeRoot = StateTrie.computeRoot t.plain.entries := by
  have empty : t.entries.size = 0 ↔ t.plain.entries.isEmpty = true := by
    have sorted := congrArg List.length t.entries.sortedKeysToDict
    rw [OrderedDict.sortedKeys,List.length_mergeSort,List.length_map,List.length_map] at sorted
    rw [OrderedDict.size,sorted,Std.ExtTreeMap.length_toList,Std.ExtTreeMap.isEmpty_eq_size_beq_zero,beq_iff_eq]
    rfl
  unfold computeRoot StateTrie.computeRoot
  rw [plainLeaves]
  exact if_congr empty rfl rfl

theorem plainRoot (t : RowTrie) : t.root.1 = t.plain.root.1 ∧ t.root.2.plain = t.plain.root.2 := by
  unfold root StateTrie.root
  rw [plainComputeRoot]
  rcases t with ⟨entries,_ | _,_ | cached⟩ <;> exact ⟨rfl,rfl⟩

theorem plainProof (t : RowTrie) (key : String) : (t.getProof key).1 = t.plain.getProof key := by
  unfold getProof StateTrie.getProof
  rw [plainGet]
  cases t.entries.get? key with
  | none => rfl
  | some value =>
    simp only [plainLeaves,OrderedDict.sortedKeysToDict,(plainRoot t).1]
    rfl

theorem getProofLeaves (t : RowTrie) (key : String) : (t.getProof key).2 = t ∨ (t.getProof key).2 = t.root.2 := by
  unfold getProof
  split
  · exact .inl rfl
  · exact .inr rfl

theorem callKeeps {t : RowTrie} (fresh : t.plain.Fresh) (c : TrieCall) :
    (t.call c).plain.Fresh ∧ (t.call c).plain.entries = c.mapping t.plain.entries := by
  have asked : t.root.2.plain.Fresh ∧ t.root.2.plain.entries = t.plain.entries := by
    rw [(plainRoot t).2]
    exact ⟨StateTrie.freshRoot fresh,StateTrie.rootEntries t.plain⟩
  cases c with
  | set key value =>
    rw [call,plainSet]
    refine ⟨StateTrie.freshSet fresh key value,?_⟩
    unfold StateTrie.set
    split
    · rename_i same
      exact (Dict.insertSame _ same).symm
    · rfl
  | delete key =>
    refine ⟨?_,deleteEntries t key⟩
    rw [call,delete]
    split
    · intro clean
      cases clean
    · exact fresh
  | snapshot => exact ⟨fresh,rfl⟩
  | restore entries => exact ⟨StateTrie.freshRestore t.plain entries.toDict,rfl⟩
  | root => exact asked
  | getProof key =>
    rcases getProofLeaves t key with same | same
    · rw [call,same]
      exact ⟨fresh,rfl⟩
    · rw [call,same]
      exact asked

theorem callsKeep {t : RowTrie} (fresh : t.plain.Fresh) (calls : List TrieCall) :
    (calls.foldl call t).plain.Fresh ∧
      (calls.foldl call t).plain.entries = calls.foldl TrieCall.mapping t.plain.entries := by
  induction calls generalizing t with
  | nil => exact ⟨fresh,rfl⟩
  | cons c calls ih =>
    obtain ⟨fresh,entries⟩ := callKeeps fresh c
    rw [List.foldl_cons,List.foldl_cons,← entries]
    exact ih fresh

structure Shows (t : RowTrie) (key : String) (value : Bytes) (p : StateProof) : Prop where
  given : (t.getProof key).1 = some p
  keyed : p.key = key
  valued : fromHex p.value = some value
  rooted : fromHex p.root = some t.root.1
  verifies : ∃ path, readPath p.proof = some path ∧ StateTrie.verifyProof key value path t.root.1 = true

theorem showsPresent {t : RowTrie} (fresh : t.plain.Fresh) {key : String} {value : Bytes}
    (found : t.plain.entries[key]? = some value) : ∃ p, t.Shows key value p := by
  have root : t.root.1 = StateTrie.computeRoot t.plain.entries :=
    (plainRoot t).1.trans (StateTrie.rootFresh fresh)
  obtain ⟨p,given,keyed,valued,rooted⟩ : ∃ p, t.plain.getProof key = some p ∧ p.key = key ∧
      p.value = hex value ∧ p.root = hex t.plain.root.1 := by
    unfold StateTrie.getProof
    rw [found]
    exact ⟨_,rfl,rfl,rfl,rfl⟩
  have checks := (proofChecks given).2
  refine ⟨p,(plainProof t key).trans given,keyed,?_,?_,?_⟩
  · rw [valued,Json.fromHexHex]
  · rw [rooted,Json.fromHexHex,(plainRoot t).1]
  · rw [StateProof.checks,valued,keyed,Json.fromHexHex,Json.fromHexHex,← root] at checks
    cases path : readPath p.proof with
    | none =>
      rw [path] at checks
      cases checks
    | some path' =>
      rw [path] at checks
      exact ⟨path',rfl,checks⟩

end RowTrie

theorem trieCanonical [Env] (calls : List TrieCall) :
    let t := calls.foldl RowTrie.call {}
    let mapping := calls.foldl TrieCall.mapping ∅
    t.snapshot.toDict = mapping ∧ t.root.1 = StateTrie.computeRoot mapping ∧
      (∀ key value, mapping[key]? = some value → ∃ p, t.Shows key value p) ∧
      ∀ key, mapping[key]? = none → (t.getProof key).1 = none := by
  intro t mapping
  have start : ({} : RowTrie).plain.Fresh := fun clean => by cases clean
  obtain ⟨fresh,entries⟩ := RowTrie.callsKeep start calls
  have held : t.plain.entries = mapping := entries
  refine ⟨held,?_,fun key value found => ?_,fun key absent => ?_⟩
  · rw [(RowTrie.plainRoot t).1,StateTrie.rootFresh fresh,held]
  · exact RowTrie.showsPresent fresh (held ▸ found)
  · rw [RowTrie.plainProof,StateTrie.getProof,held,absent]

end QbitNetwork
