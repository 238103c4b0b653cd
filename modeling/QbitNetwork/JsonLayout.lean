import QbitNetwork.JsonLoads

/-! Text of `json.dumps` with any spacing: separators, line breaks and indentation, and that
`json.loads` reads it back. -/
namespace QbitNetwork
namespace Json

structure Layout where
  comma : Nat → List Char
  colon : List Char
  opening : Nat → List Char
  closing : Nat → List Char
  commaBlank : ∀ depth, ∀ c ∈ comma depth, isJsonSpace c = true
  colonBlank : ∀ c ∈ colon, isJsonSpace c = true
  openingBlank : ∀ depth, ∀ c ∈ opening depth, isJsonSpace c = true
  closingBlank : ∀ depth, ∀ c ∈ closing depth, isJsonSpace c = true

namespace Layout

theorem spaceBlank : ∀ c ∈ [' '], isJsonSpace c = true := by
  intro c inside
  obtain rfl := List.mem_singleton.mp inside
  rfl

/- `json.dumps(value)`. -/
def plain : Layout where
  comma _ := [' ']
  colon := [' ']
  opening _ := []
  closing _ := []
  commaBlank _ := spaceBlank
  colonBlank := spaceBlank
  openingBlank _ := by simp
  closingBlank _ := by simp

def line (width : Nat) : List Char := '\n' :: List.replicate width ' '

theorem lineBlank (width : Nat) : ∀ c ∈ line width, isJsonSpace c = true := by
  intro c inside
  rcases List.mem_cons.mp inside with rfl | inside
  · decide
  · rw [(List.mem_replicate.mp inside).2]
    decide

/- `indent=width`. -/
def indent (width : Nat) : Layout where
  comma depth := line (width * (depth + 1))
  colon := [' ']
  opening depth := line (width * (depth + 1))
  closing depth := line (width * depth)
  commaBlank _ := lineBlank _
  colonBlank := spaceBlank
  openingBlank _ := lineBlank _
  closingBlank _ := lineBlank _

end Layout

section Writer
variable (l : Layout)

mutual
def laid (depth : Nat) : Json → List Char
  | .null => asChars (encode "null")
  | .int value => asChars (encode (toString value))
  | .float value => asChars (encode value.text)
  | .bool value => asChars (encode (if value then "true" else "false"))
  | .str value => asChars (dumpsStr value)
  | .arr items => '[' :: ((if items.isEmpty then [] else l.opening depth) ++ laidItems depth items)
  | .obj fields => '{' :: ((if fields.isEmpty then [] else l.opening depth) ++ laidRows depth fields)

def laidItems (depth : Nat) : List Json → List Char
  | [] => [']']
  | item :: rest => laid (depth + 1) item ++
      (if rest.isEmpty then l.closing depth ++ [']'] else ',' :: (l.comma depth ++ laidItems depth rest))

def laidRows (depth : Nat) : List (String × Json) → List Char
  | [] => ['}']
  | (key,value) :: rest => asChars (dumpsStr key) ++ ':' :: (l.colon ++ (laid (depth + 1) value ++
      (if rest.isEmpty then l.closing depth ++ ['}'] else ',' :: (l.comma depth ++ laidRows depth rest))))
end

example : laid Layout.plain 0 (.arr [.int 1,.arr [],.bool true]) = "[1, [], true]".toList := by decide +kernel

example : laid (Layout.indent 2) 0 (.arr [.int 1,.int 2]) = "[\n  1,\n  2\n]".toList := by decide +kernel

end Writer

section Blanks

theorem skipBlank {blank : List Char} (blanks : ∀ c ∈ blank, isJsonSpace c = true) {c : Char}
    (solid : isJsonSpace c = false) (tail : List Char) : skip (blank ++ c :: tail) = c :: tail := by
  rw [skip,List.dropWhile_append_of_pos blanks]
  exact skipAt solid tail

theorem stopsBlank {blank : List Char} (blanks : ∀ c ∈ blank, isJsonSpace c = true) {c : Char}
    (other : isWordChar c = false) (tail : List Char) : Stops (blank ++ c :: tail) := by
  intro d first
  cases blank with
  | nil =>
    cases first
    exact other
  | cons b rest =>
    cases first
    have space := blanks d List.mem_cons_self
    simp only [isJsonSpace,Bool.or_eq_true,decide_eq_true_eq] at space
    rcases space with ((rfl | rfl) | rfl) | rfl <;> decide

end Blanks

section Reader
variable [FloatText] (l : Layout)

theorem laidHead {value : Json} (proper : Proper value) (depth : Nat) :
    ∃ c rest, laid l depth value = c :: rest ∧ isJsonSpace c = false ∧ c ≠ ']' := by
  obtain ⟨b,rest,shape,solid,other⟩ := compactHead proper
  have dense : ∀ {text : List Char}, text = asChars (compact value) →
      ∃ c rest, text = c :: rest ∧ isJsonSpace c = false ∧ c ≠ ']' := by
    rintro _ rfl
    rw [shape]
    exact ⟨_,_,rfl,solid,other⟩
  cases value with
  | arr items => exact ⟨'[',_,by rw [laid],by decide,by decide⟩
  | obj fields => exact ⟨'{',_,by rw [laid],by decide,by decide⟩
  | null => exact dense (by rw [laid,compact])
  | int value => exact dense (by rw [laid,compact])
  | float value => exact dense (by rw [laid,compact])
  | bool value => exact dense (by rw [laid,compact])
  | str text => exact dense (by rw [laid,compact])

theorem readScalar {value : Json} (proper : Proper value) {depth n : Nat} {tail : List Char}
    (same : laid l depth value = asChars (compact value)) (fuel : (laid l depth value).length < n)
    (stops : Stops tail) : readValue n (laid l depth value ++ tail) = some (value,tail) := by
  rw [same] at fuel ⊢
  exact readCompact proper n tail (by rw [asChars,List.length_map] at fuel; exact fuel) stops

omit [FloatText] in
theorem skipOpening {empty : Bool} {depth : Nat} {c : Char} (solid : isJsonSpace c = false) (tail : List Char) :
    skip ((if empty = true then [] else l.opening depth) ++ c :: tail) = c :: tail := by
  cases empty
  · exact skipBlank (l.openingBlank depth) solid tail
  · exact skipAt solid tail

omit [FloatText] in
theorem rowHead (depth : Nat) (key : String) (value : Json) (rest : List (String × Json)) (tail : List Char) :
    ∃ text, laidRows l depth ((key,value) :: rest) ++ tail = '"' :: text := by
  rw [laidRows,List.append_assoc]
  obtain ⟨body,shape,-⟩ := readDumped key (':' :: (l.colon ++ (laid l (depth + 1) value ++
    (if rest.isEmpty then l.closing depth ++ ['}'] else ',' :: (l.comma depth ++ laidRows l depth rest)))) ++ tail)
  exact ⟨body,shape⟩

mutual
theorem readLaid : ∀ {value : Json}, Proper value → ∀ (depth n : Nat) (tail : List Char),
    (laid l depth value).length < n → Stops tail → readValue n (laid l depth value ++ tail) = some (value,tail)
  | .null,proper,_,_,_,fuel,stops => readScalar l proper (by rw [laid,compact]) fuel stops
  | .int _,proper,_,_,_,fuel,stops => readScalar l proper (by rw [laid,compact]) fuel stops
  | .float _,proper,_,_,_,fuel,stops => readScalar l proper (by rw [laid,compact]) fuel stops
  | .bool _,proper,_,_,_,fuel,stops => readScalar l proper (by rw [laid,compact]) fuel stops
  | .str _,proper,_,_,_,fuel,stops => readScalar l proper (by rw [laid,compact]) fuel stops
  | .arr [],_,_,n + 1,_,_,_ => rfl
  | .arr (item :: rest),proper,depth,n + 1,tail,fuel,_ => by
    rw [Proper] at proper
    have read := readLaidItems proper (List.cons_ne_nil item rest) depth n tail
    obtain ⟨c,more,shape,solid,other⟩ := laidHead l proper.1 (depth + 1)
    obtain ⟨text,opened⟩ : ∃ text, laidItems l depth (item :: rest) ++ tail = c :: text := by
      rw [laidItems,shape]
      exact ⟨_,rfl⟩
    rw [laid,List.length_cons,List.length_append] at fuel
    rw [laid,List.cons_append,List.append_assoc]
    rw [opened] at read ⊢
    rw [readValue,skipOpening l solid,if_neg (by simpa using other),read (by omega)]
    rfl
  | .obj [],_,_,n + 1,_,_,_ => rfl
  | .obj ((key,value) :: rest),proper,depth,n + 1,tail,fuel,_ => by
    rw [Proper] at proper
    have read := readLaidRows proper.2 (List.cons_ne_nil (key,value) rest) depth n tail
    have kept := rowsKept ((key,value) :: rest) [] proper.1
    obtain ⟨text,opened⟩ := rowHead l depth key value rest tail
    rw [laid,List.length_cons,List.length_append] at fuel
    rw [laid,List.cons_append,List.append_assoc]
    rw [opened] at read ⊢
    rw [readValue,skipOpening l (by decide),if_neg (by simp),read (by omega)]
    simp only [Option.bind_eq_bind,Option.bind_some,kept,List.nil_append]

theorem readLaidItems : ∀ {items : List Json}, ProperItems items → items ≠ [] → ∀ (depth n : Nat) (tail : List Char),
    (laidItems l depth items).length < n → readItems n (laidItems l depth items ++ tail) = some (items,tail)
  | [],_,present,_,_,_,_ => absurd rfl present
  | [item],proper,_,depth,n + 1,tail,fuel => by
    rw [laidItems,List.length_append] at fuel
    rw [laidItems,List.isEmpty_nil,if_pos rfl,List.append_assoc,List.append_assoc,List.singleton_append,readItems,
      readLaid proper.1 _ _ _ (by simp at fuel; omega) (stopsBlank (l.closingBlank depth) (by decide) tail)]
    simp only [Option.bind_eq_bind,Option.bind_some]
    rw [skipBlank (l.closingBlank depth) (by decide)]
    rfl
  | item :: next :: rest,proper,_,depth,n + 1,tail,fuel => by
    have later := readLaidItems proper.2 (List.cons_ne_nil next rest) depth n tail
    obtain ⟨c,more,shape,solid,-⟩ := laidHead l proper.2.1 (depth + 1)
    obtain ⟨text,opened⟩ : ∃ text, laidItems l depth (next :: rest) ++ tail = c :: text := by
      rw [laidItems,shape]
      exact ⟨_,rfl⟩
    rw [laidItems,if_neg (by simp),List.length_append,List.length_cons,List.length_append] at fuel
    rw [laidItems,if_neg (by simp),List.append_assoc,List.cons_append,List.append_assoc,readItems,
      readLaid proper.1 _ _ _ (by omega) (stopsAt (by decide) _)]
    simp only [Option.bind_eq_bind,Option.bind_some]
    rw [skipAt (by decide)]
    simp only
    rw [opened] at later ⊢
    rw [skipBlank (l.commaBlank depth) solid,later (by omega)]
    rfl

theorem readLaidRows : ∀ {fields : List (String × Json)}, ProperFields fields → fields ≠ [] →
    ∀ (depth n : Nat) (tail : List Char), (laidRows l depth fields).length < n →
    readRows n (laidRows l depth fields ++ tail) = some (fields,tail)
  | [],_,present,_,_,_,_ => absurd rfl present
  | (key,value) :: rest,proper,_,depth,n + 1,tail,fuel => by
    obtain ⟨c,more,shape,solid,-⟩ := laidHead l proper.1 (depth + 1)
    rw [laidRows,List.length_append,asChars,List.length_map,List.length_cons,List.length_append,List.length_append] at fuel
    rw [laidRows,List.append_assoc,List.cons_append,List.append_assoc,List.append_assoc]
    match rest,proper,fuel with
    | [],proper,fuel =>
      have inner := readLaid proper.1 (depth + 1) n ((l.closing depth ++ ['}']) ++ tail) (by omega)
        (by rw [List.append_assoc]; exact stopsBlank (l.closingBlank depth) (by decide) tail)
      rw [List.isEmpty_nil,if_pos rfl]
      obtain ⟨body,text,reads⟩ := readDumped key (':' :: (l.colon ++ (laid l (depth + 1) value ++
        ((l.closing depth ++ ['}']) ++ tail))))
      rw [shape,List.cons_append] at inner reads text ⊢
      rw [text,readRows,reads n (by omega)]
      simp only [Option.bind_eq_bind,Option.bind_some]
      rw [skipAt (by decide)]
      simp only
      rw [skipBlank l.colonBlank solid,inner]
      simp only [Option.bind_some]
      rw [List.append_assoc,List.singleton_append,skipBlank (l.closingBlank depth) (by decide),String.ofList_toList]
      rfl
    | (other,next) :: rest,proper,fuel =>
      rw [if_neg (by simp)] at fuel ⊢
      rw [List.length_cons,List.length_append] at fuel
      have later := readLaidRows proper.2 (List.cons_ne_nil (other,next) rest) depth n tail
      have inner := readLaid proper.1 (depth + 1) n
        (',' :: (l.comma depth ++ laidRows l depth ((other,next) :: rest)) ++ tail) (by omega) (stopsAt (by decide) _)
      obtain ⟨body,text,reads⟩ := readDumped key (':' :: (l.colon ++ (laid l (depth + 1) value ++
        (',' :: (l.comma depth ++ laidRows l depth ((other,next) :: rest)) ++ tail))))
      rw [shape,List.cons_append] at inner reads text ⊢
      rw [text,readRows,reads n (by omega)]
      simp only [Option.bind_eq_bind,Option.bind_some]
      rw [skipAt (by decide)]
      simp only
      rw [skipBlank l.colonBlank solid,inner]
      simp only [Option.bind_some]
      rw [List.cons_append,skipAt (by decide),List.append_assoc]
      simp only
      obtain ⟨last,opened⟩ := rowHead l depth other next rest tail
      rw [opened] at later ⊢
      rw [skipBlank (l.commaBlank depth) (by decide),later (by omega),String.ofList_toList]
      rfl
end

theorem loadsLaid {value : Json} (proper : Proper value) : loads (String.ofList (laid l 0 value)) = some value := by
  obtain ⟨c,rest,shape,solid,-⟩ := laidHead l proper 0
  have read := readLaid l proper 0 ((laid l 0 value).length + 1) [] (by omega) (fun c absent => by cases absent)
  have start : skip (laid l 0 value) = laid l 0 value := by
    rw [shape,skipAt solid]
  rw [List.append_nil] at read
  rw [loads,String.toList_ofList,start,read]
  rfl

end Reader

end Json

end QbitNetwork
