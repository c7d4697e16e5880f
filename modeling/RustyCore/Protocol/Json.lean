import Mathlib.Data.String.Basic
import RustyCore.Lib.Text

/-! JSON values as `serde_json` holds them (maps ordered by key), with the operations the agent core uses:
    lookups, JSON Pointer and the compact text form. -/

namespace RustyCore

/-- A JSON number: an unsigned or a negative integer, or a float by its shortest decimal text. -/
inductive Number where
  | posInt (n : Nat)
  | negInt (n : Int)
  | float (text : String)
deriving DecidableEq

def Number.display : Number → String
  | .posInt n => toString n
  | .negInt n => toString n
  | .float text => text

inductive Value where
  | null
  | bool (b : Bool)
  | number (n : Number)
  | string (s : String)
  | array (items : List Value)
  | object (fields : List (String × Value))

namespace Value

mutual

def beq : Value → Value → Bool
  | .null, .null => true
  | .bool a, .bool b => a == b
  | .number a, .number b => decide (a = b)
  | .string a, .string b => a == b
  | .array a, .array b => beqItems a b
  | .object a, .object b => beqFields a b
  | _, _ => false

def beqItems : List Value → List Value → Bool
  | [], [] => true
  | a :: as, b :: bs => beq a b && beqItems as bs
  | _, _ => false

def beqFields : List (String × Value) → List (String × Value) → Bool
  | [], [] => true
  | (k, a) :: as, (l, b) :: bs => k == l && beq a b && beqFields as bs
  | _, _ => false

end

instance : BEq Value := ⟨beq⟩

def isNull : Value → Bool
  | .null => true
  | _ => false

def isObject : Value → Bool
  | .object _ => true
  | _ => false

def asStr : Value → Option String
  | .string s => some s
  | _ => none

def asU64 : Value → Option Nat
  | .number (.posInt n) => some n
  | _ => none

def asArray : Value → Option (List Value)
  | .array items => some items
  | _ => none

def get (v : Value) (key : String) : Option Value :=
  match v with
  | .object fields => fields.lookup key
  | _ => none

def insertField (key : String) (value : Value) : List (String × Value) → List (String × Value)
  | [] => [(key, value)]
  | (k, v) :: rest =>
    if key = k then (key, value) :: rest
    else if key < k then (key, value) :: (k, v) :: rest
    else (k, v) :: insertField key value rest

def removeField (key : String) (fields : List (String × Value)) : List (String × Value) :=
  fields.filter fun field => field.1 != key

/-- A reference token, with `~1` read as `/` and then `~0` as `~`. -/
def unescapeToken (token : List Char) : List Char := tilde (slash token)
where
  slash : List Char → List Char
    | '~' :: '1' :: rest => '/' :: slash rest
    | c :: rest => c :: slash rest
    | [] => []
  tilde : List Char → List Char
    | '~' :: '0' :: rest => '~' :: tilde rest
    | c :: rest => c :: tilde rest
    | [] => []

def parseIndex (token : List Char) : Option Nat :=
  if token.isEmpty || !token.all Char.isDigit || (token.head? == some '0' && token.length != 1) then none
  else some (token.foldl (fun n c => 10 * n + (c.toNat - 48)) 0)

def child (target : Value) (token : List Char) : Option Value :=
  match target with
  | .object fields => fields.lookup (String.ofList token)
  | .array items => (parseIndex token).bind (items[·]?)
  | _ => none

def pointer (v : Value) (path : String) : Option Value :=
  match path.toList with
  | [] => some v
  | '/' :: rest => ((Text.splitOn (· == '/') rest).map unescapeToken).foldlM child v
  | _ => none

/-- One character of a string literal, escaped as `serde_json` does. -/
def escape (c : Char) : List Char :=
  match c with
  | '"' => ['\\', '"']
  | '\\' => ['\\', '\\']
  | '\n' => ['\\', 'n']
  | '\r' => ['\\', 'r']
  | '\t' => ['\\', 't']
  | c =>
    if c.toNat = 8 then ['\\', 'b']
    else if c.toNat = 12 then ['\\', 'f']
    else if c.toNat < 32 then '\\' :: 'u' :: Text.hex 4 c.toNat
    else [c]

def quote (s : String) : String := "\"" ++ String.ofList (s.toList.flatMap escape) ++ "\""

mutual

/-- The compact text of a value: its `Display`, and what `serde_json::to_string` writes. -/
def display : Value → String
  | .null => "null"
  | .bool true => "true"
  | .bool false => "false"
  | .number n => Number.display n
  | .string s => quote s
  | .array items => "[" ++ Text.join "," (displayItems items) ++ "]"
  | .object fields => "\x7b" ++ Text.join "," (displayFields fields) ++ "\x7d"

def displayItems : List Value → List String
  | [] => []
  | v :: rest => display v :: displayItems rest

def displayFields : List (String × Value) → List String
  | [] => []
  | (k, v) :: rest => (quote k ++ ":" ++ display v) :: displayFields rest

end

end Value

end RustyCore

/-! The fields of an object: what is found after an insertion, and when an insertion changes nothing. -/

namespace RustyCore.Value

variable {key other : String} {value found : Value} {fields : List (String × Value)}

theorem lookup_cons_if : List.lookup other ((key, value) :: fields) = if other = key then some value else fields.lookup other := by
  rw [List.lookup_cons]
  by_cases h : other = key
  · simp [h]
  · rw [beq_false_of_ne h, if_neg h]

theorem lookup_insertField : (insertField key value fields).lookup other =
    if other = key then some value else fields.lookup other := by
  induction fields with
  | nil => exact lookup_cons_if
  | cons field rest ih =>
    obtain ⟨k, v⟩ := field
    rw [insertField]
    split_ifs with hkey hlt hother hother
    · subst hkey
      simp only [lookup_cons_if, *, if_true]
    · subst hkey
      simp only [lookup_cons_if, *, if_false]
    · simp only [lookup_cons_if, *, if_true]
    · simp only [lookup_cons_if, *, if_false]
    · rename_i hother
      rw [lookup_cons_if, ih, if_pos hother, if_neg (hother ▸ hkey)]
    · rename_i hother
      rw [lookup_cons_if, lookup_cons_if, ih, if_neg hother]

def Placed (key : String) (value : Value) (fields : List (String × Value)) : Prop := insertField key value fields = fields

theorem placed_insertField : Placed key value (insertField key value fields) := by
  induction fields with
  | nil => simp [Placed, insertField]
  | cons field rest ih =>
    obtain ⟨k, v⟩ := field
    unfold Placed at ih ⊢
    by_cases hkey : key = k
    · simp [insertField, hkey]
    · by_cases hlt : key < k
      · simp [insertField, hkey, hlt]
      · simp [insertField, hkey, hlt, ih]

theorem Placed.insertField (h : Placed key value fields) (hne : key ≠ other) :
    Placed key value (insertField other found fields) := by
  induction fields with
  | nil => cases h
  | cons field rest ih =>
    obtain ⟨k, v⟩ := field
    by_cases hkey : key = k
    · subst hkey
      simp only [Placed, Value.insertField, if_true, List.cons.injEq, Prod.mk.injEq, true_and, and_true] at h
      subst h
      simp only [Placed, Value.insertField, Ne.symm hne, if_false]
      split_ifs with hlt
      · simp [Value.insertField, hne, lt_asymm hlt]
      · simp [Value.insertField]
    · by_cases hlt : key < k
      · have hlength := congrArg List.length h
        simp [Value.insertField, hkey, hlt] at hlength
      · have hrest : Placed key value rest := by simpa [Placed, Value.insertField, hkey, hlt] using h
        simp only [Placed, Value.insertField]
        split_ifs with heq hless
        · simp only [Value.insertField, hne, if_false]
          rw [heq, if_neg hlt, hrest]
        · have hgt : k < key := lt_of_le_of_ne (not_lt.mp hlt) (Ne.symm hkey)
          simp only [Value.insertField, hne, hkey, hlt, if_false, lt_asymm (hless.trans hgt)]
          rw [hrest]
        · simp only [Value.insertField, hkey, hlt, if_false]
          rw [ih hrest]

end RustyCore.Value
