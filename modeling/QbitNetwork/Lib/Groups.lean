import QbitNetwork.Lib.Dict

/-! Members by group: a map to sets, in which no set is kept that has become empty. -/

namespace Groups
variable {K V : Type} [Ord K] [Ord V] [Std.TransOrd K] [Std.TransOrd V]

def add (groups : Dict K (DSet V)) (k : K) (v : V) : Dict K (DSet V) :=
  groups.insert k ((groups.getD k ∅).insert v)

def drop (groups : Dict K (DSet V)) (k : K) (v : V) : Dict K (DSet V) :=
  match groups[k]? with
  | none => groups
  | some group =>
    if (group.erase v).isEmpty then groups.erase k else groups.insert k (group.erase v)

def Member (groups : Dict K (DSet V)) (k : K) (v : V) : Prop :=
  ∃ group, groups[k]? = some group ∧ v ∈ group

def Full (groups : Dict K (DSet V)) : Prop :=
  ∀ (k : K) (group : DSet V), groups[k]? = some group → group.isEmpty = false

variable [Std.LawfulEqOrd K] [Std.LawfulEqOrd V]

omit [Std.LawfulEqOrd K] in
theorem insertFull (group : DSet V) (v : V) : (group.insert v).isEmpty = false := by
  rw [Std.ExtTreeSet.isEmpty_eq_false_iff]
  intro empty
  have inside : v ∈ group.insert v := (DSet.memInsert ..).mpr (.inl rfl)
  rw [empty] at inside
  exact absurd inside Std.ExtTreeSet.not_mem_empty

theorem memberAdd (groups : Dict K (DSet V)) (k a : K) (v b : V) :
    Member (add groups k v) a b ↔ (a = k ∧ b = v) ∨ Member groups a b := by
  simp only [Member,add]
  by_cases same : k = a
  · subst same
    simp only [Std.ExtTreeMap.getElem?_insert_self,Option.some.injEq,exists_eq_left',DSet.memInsert,
      Std.ExtTreeMap.getD_eq_getD_getElem?,true_and]
    cases groups[k]? <;> simp
  · rw [Std.ExtTreeMap.getElem?_insert,if_neg (by simpa using same)]
    simp [Ne.symm same]

theorem memberDrop (groups : Dict K (DSet V)) (k a : K) (v b : V) :
    Member (drop groups k v) a b ↔ ¬(a = k ∧ b = v) ∧ Member groups a b := by
  simp only [Member,drop]
  by_cases same : a = k
  · subst same
    cases found : groups[a]? with
    | none => simp [found]
    | some group =>
      dsimp only
      split
      · rename_i empty
        rw [Std.ExtTreeSet.isEmpty_iff] at empty
        have only : ∀ b, b ∈ group → b = v := by
          intro b inside
          by_contra other
          have left : b ∈ group.erase v := (DSet.memErase ..).mpr ⟨other,inside⟩
          rw [empty] at left
          exact absurd left Std.ExtTreeSet.not_mem_empty
        simp only [Std.ExtTreeMap.getElem?_erase_self,reduceCtorEq,false_and,exists_false,false_iff,
          true_and,Option.some.injEq,exists_eq_left',not_and]
        exact fun other inside => other (only b inside)
      · simp only [Std.ExtTreeMap.getElem?_insert_self,Option.some.injEq,exists_eq_left',
          DSet.memErase,true_and]
  · cases found : groups[k]? with
    | none => simp [same]
    | some group =>
      dsimp only
      split
      · rw [Std.ExtTreeMap.getElem?_erase,if_neg (by simpa using Ne.symm same)]
        simp [same]
      · rw [Std.ExtTreeMap.getElem?_insert,if_neg (by simpa using Ne.symm same)]
        simp [same]

omit [Std.TransOrd V] [Std.LawfulEqOrd K] [Std.LawfulEqOrd V] in
theorem fullEmpty : Full (∅ : Dict K (DSet V)) := by
  intro k group found
  simp at found

omit [Std.LawfulEqOrd K] in
theorem fullAdd {groups : Dict K (DSet V)} (full : Full groups) (k : K) (v : V) :
    Full (add groups k v) := by
  intro a group found
  simp only [add,Std.ExtTreeMap.getElem?_insert] at found
  split at found
  · cases found
    exact insertFull ..
  · exact full a group found

omit [Std.LawfulEqOrd K] [Std.LawfulEqOrd V] in
theorem fullDrop {groups : Dict K (DSet V)} (full : Full groups) (k : K) (v : V) :
    Full (drop groups k v) := by
  unfold drop
  split
  · exact full
  · split
    · intro a group found
      rw [Std.ExtTreeMap.getElem?_erase] at found
      split at found
      · contradiction
      · exact full a group found
    · rename_i some
      intro a group found
      rw [Std.ExtTreeMap.getElem?_insert] at found
      split at found
      · cases found
        simpa using some
      · exact full a group found

end Groups
