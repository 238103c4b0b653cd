import QbitNetwork.Config

/-! Values of `json.loads` as the code handles them, whatever their type: truth, comparison,
items, and what each operation raises on the wrong type. -/
namespace QbitNetwork

/- How a value is written into a message: `str`, `repr`, and the text of what `bytes.fromhex`
raises on it. -/
class PyText where
  str : Json → String
  repr : Json → String
  fromHexError : Json → String

namespace Number

def same : Number → Number → Bool
  | .finite a,.finite b => a == b
  | .infinity a,.infinity b => a == b
  | _,_ => false

def less : Number → Number → Bool
  | .finite a,.finite b => decide (a < b)
  | .infinity negative,.finite _ => negative
  | .finite _,.infinity negative => !negative
  | .infinity a,.infinity b => a && !b
  | _,_ => false

end Number

namespace Json

def truthy : Json → Bool
  | .null => false
  | .int value => value != 0
  | .float value => value.number != .finite 0
  | .bool value => value
  | .str value => value != ""
  | .arr items => !items.isEmpty
  | .obj fields => !fields.isEmpty

/- `isinstance(value, int)`, of which a bool is one. -/
def intOf : Json → Option Int
  | .int value => some value
  | .bool value => some (if value then 1 else 0)
  | _ => none

def numberOf : Json → Option Number
  | .float value => some value.number
  | value => value.intOf.map (fun n => .finite n)

def lookup (fields : List (String × Json)) (key : String) : Option Json :=
  (fields.find? (fun row => row.1 = key)).map Prod.snd

/- `a == b`. -/
mutual
def equal : Json → Json → Bool
  | .null,.null => true
  | .str a,.str b => a == b
  | .arr items,.arr others => equalItems items others
  | .obj fields,.obj others => fields.length == others.length && equalFields fields others
  | a,b =>
    match a.numberOf,b.numberOf with
    | some m,some n => m.same n
    | _,_ => false

def equalItems : List Json → List Json → Bool
  | [],[] => true
  | a :: items,b :: others => equal a b && equalItems items others
  | _,_ => false

def equalFields : List (String × Json) → List (String × Json) → Bool
  | [],_ => true
  | (key,a) :: fields,others =>
    (match lookup others key with
      | some b => equal a b
      | none => false) && equalFields fields others
end

/- `a < b`. -/
mutual
def less : Json → Json → Except PyExc Bool
  | .str a,.str b => .ok (compare a b == .lt)
  | .arr items,.arr others => lessItems items others
  | a,b =>
    match a.numberOf,b.numberOf with
    | some m,some n => .ok (m.less n)
    | _,_ => .error .typeError

def lessItems : List Json → List Json → Except PyExc Bool
  | _,[] => .ok false
  | [],_ :: _ => .ok true
  | a :: items,b :: others => if equal a b then lessItems items others else less a b
end

/- `value.get(key, default)`. -/
def get (value : Json) (key : String) (dflt : Json) : Except PyExc Json :=
  match value with
  | .obj fields => .ok ((lookup fields key).getD dflt)
  | _ => .error .attributeError

/- `value[key]`. -/
def item (value : Json) (key : String) : Except PyExc Json :=
  match value with
  | .obj fields =>
    match lookup fields key with
    | some found => .ok found
    | none => .error (.keyError key)
  | _ => .error .typeError

def field (value : Json) (key : String) : Json :=
  match value with
  | .obj fields => (lookup fields key).getD .null
  | _ => .null

/- `for entry in value`. -/
def entries : Json → Except PyExc (List Json)
  | .arr items => .ok items
  | .obj fields => .ok (fields.map (fun row => .str row.1))
  | .str value => .ok (value.toList.map (fun c => .str (String.singleton c)))
  | _ => .error .typeError

def fromHexValue : Json → Except PyExc Bytes
  | .str value =>
    match fromHex value with
    | some data => .ok data
    | none => .error (.valueError "non-hexadecimal number found in fromhex() arg")
  | _ => .error .typeError

/- `value in table`, for a table whose keys are strings. -/
def tableKey : Json → Except PyExc (Option String)
  | .str value => .ok (some value)
  | .arr _ => .error .typeError
  | .obj _ => .error .typeError
  | _ => .ok none

section Messages
variable [PyText]

/- `f"{value[:16]}..."`. -/
def shortText : Json → Except PyExc String
  | .str value => .ok (String.ofList (value.toList.take 16) ++ "...")
  | .arr items => .ok (PyText.str (.arr (items.take 16)) ++ "...")
  | _ => .error .typeError

end Messages

theorem equalStr {value : Json} {text : String} (same : value.equal (.str text) = true) : value = .str text := by
  cases value <;> simp_all [equal,numberOf,intOf]

theorem equalStrRefl (text : String) : (Json.str text).equal (.str text) = true := by
  simp [equal]

theorem fieldGet {value dflt found : Json} {key : String} (run : value.get key dflt = .ok found)
    (present : found ≠ dflt) : value.field key = found := by
  cases value with
  | obj fields =>
    simp only [get,Except.ok.injEq] at run
    rw [field]
    cases at' : lookup fields key with
    | none =>
      rw [at'] at run
      exact absurd run.symm present
    | some other =>
      rw [at'] at run
      exact run
  | _ => cases run

theorem getItem {value found : Json} {key : String} (run : value.item key = .ok found) (dflt : Json) :
    value.get key dflt = .ok found := by
  cases value with
  | obj fields =>
    simp only [item] at run
    rw [get]
    split at run
    · rename_i at'
      cases run
      rw [at']
      rfl
    · cases run
  | _ => cases run

end Json

end QbitNetwork
