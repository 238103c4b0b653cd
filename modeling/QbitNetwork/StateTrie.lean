import QbitNetwork.Config
import QbitNetwork.Lib.Dict

/-! The sorted Merkle trie of state commitments, with its root cache. -/
namespace QbitNetwork

structure StateTrie where
  entries : Dict String Bytes := ∅
  dirty : Bool := true
  cachedRoot : Option Bytes := none

namespace StateTrie

def set (t : StateTrie) (key : String) (value : Bytes) : StateTrie :=
  if t.entries[key]? = some value then t
  else { t with entries := t.entries.insert key value, dirty := true }

/- `_entries.clear()` of the rebuild does not mark the cache dirty. -/
def clearEntries (t : StateTrie) : StateTrie := { t with entries := ∅ }

def snapshot (t : StateTrie) : Dict String Bytes := t.entries

def restore (t : StateTrie) (entries : Dict String Bytes) : StateTrie :=
  { t with entries, dirty := true }

variable [Env]

def sortedLeaves (entries : Dict String Bytes) : List Bytes :=
  entries.toList.map (fun row => sha3_256 (encode row.1 ++ row.2))

def computeRoot (entries : Dict String Bytes) : Bytes :=
  if entries.isEmpty then sha3_256 (encode "empty_state") else merkleRoot (sortedLeaves entries)

def root (t : StateTrie) : Bytes × StateTrie :=
  match t.dirty,t.cachedRoot with
  | false,some cached => (cached,t)
  | _,_ => (computeRoot t.entries,
      { t with dirty := false, cachedRoot := some (computeRoot t.entries) })

@[simp] theorem rootEntries (t : StateTrie) : t.root.2.entries = t.entries := by
  unfold root
  split <;> rfl

def Recached (t t' : StateTrie) : Prop := t'.cachedRoot = t.cachedRoot ∨ t'.cachedRoot = some t.root.1

theorem recachedRoot (t : StateTrie) : t.Recached t.root.2 := by
  unfold Recached root
  split
  · exact .inl rfl
  · exact .inr rfl

theorem Recached.restore {t t' : StateTrie} (recached : t.Recached t') (entries : Dict String Bytes) :
    t.Recached (t'.restore entries) := recached

def Fresh (t : StateTrie) : Prop :=
  t.dirty = false → ∀ cached, t.cachedRoot = some cached → cached = computeRoot t.entries

theorem rootFresh {t : StateTrie} (fresh : t.Fresh) : t.root.1 = computeRoot t.entries := by
  unfold root
  split
  · rename_i clean found
    exact fresh clean _ found
  · rfl

theorem freshRoot {t : StateTrie} (fresh : t.Fresh) : t.root.2.Fresh := by
  unfold root
  split
  · exact fresh
  · intro _ cached found
    exact (Option.some.inj found).symm

theorem freshRestore (t : StateTrie) (entries : Dict String Bytes) : (t.restore entries).Fresh := by
  simp [Fresh,restore]

theorem freshSet {t : StateTrie} (fresh : t.Fresh) (key : String) (value : Bytes) :
    (t.set key value).Fresh := by
  unfold set
  split
  · exact fresh
  · simp [Fresh]

end StateTrie

end QbitNetwork
