import RustyCore.Lib.Rounding
import RustyCore.Protocol.Json

/-! The values of JSON numbers, exactly and as `f64`, and the two ways to compare JSON values: as `serde_json` does, and by
    what they mean. -/

namespace RustyCore

/-- The `Display` of an `f64`, by its value. -/
class F64Display where
  display : ℚ → String

def roundF64 (q : ℚ) : ℚ := Rounding.toBits 53 (-1074) q

theorem roundF64_mono {p q : ℚ} (h : p ≤ q) : roundF64 p ≤ roundF64 q := Rounding.toBits_mono (by decide) h

def digitsValue (digits : List Char) : Nat := digits.foldl (fun n c => 10 * n + (c.toNat - 48)) 0

def signedValue : List Char → Int
  | '-' :: digits => -(digitsValue digits : Int)
  | '+' :: digits => digitsValue digits
  | digits => digitsValue digits

/-- The number a decimal text stands for: digits with an optional sign, point and exponent. -/
def decimalValue (text : List Char) : ℚ :=
  let (mantissa, exponent) := text.span (· != 'e')
  let (whole, fraction) := mantissa.span (· != '.')
  signedValue (whole ++ fraction.drop 1) * (10 : ℚ) ^ (signedValue (exponent.drop 1) - (fraction.drop 1).length)

namespace Number

/-- The number itself; a float is the `f64` nearest to its text. -/
def value : Number → ℚ
  | .posInt n => n
  | .negInt n => n
  | .float text => roundF64 (decimalValue text.toList)

def asF64 (n : Number) : ℚ := roundF64 n.value

def same : Number → Number → Bool
  | .posInt m, .posInt n => m == n
  | .negInt m, .negInt n => m == n
  | .float a, .float b => Number.value (.float a) == Number.value (.float b)
  | _, _ => false

theorem value_eq_of_same {m n : Number} (h : m.same n = true) : m.value = n.value := by
  cases m <;> cases n <;> simp_all [same, value]

theorem same_self (n : Number) : n.same n = true := by cases n <;> simp [same]

end Number

namespace Value

def asNumber : Value → Option Number
  | .number n => some n
  | _ => none

mutual

def alike (test : Number → Number → Bool) : Value → Value → Bool
  | .null, .null => true
  | .bool a, .bool b => a == b
  | .number a, .number b => test a b
  | .string a, .string b => a == b
  | .array a, .array b => alikeItems test a b
  | .object a, .object b => alikeFields test a b
  | _, _ => false

def alikeItems (test : Number → Number → Bool) : List Value → List Value → Bool
  | [], [] => true
  | a :: as, b :: bs => alike test a b && alikeItems test as bs
  | _, _ => false

def alikeFields (test : Number → Number → Bool) : List (String × Value) → List (String × Value) → Bool
  | [], [] => true
  | (k, a) :: as, (l, b) :: bs => k == l && alike test a b && alikeFields test as bs
  | _, _ => false

end

def same (a b : Value) : Bool := alike Number.same a b

def means (a b : Value) : Bool := alike (fun m n => m.value == n.value) a b

mutual

theorem alike_mono {test test' : Number → Number → Bool} (htest : ∀ m n, test m n = true → test' m n = true) :
    ∀ a b : Value, alike test a b = true → alike test' a b = true
  | .null, b, h => by cases b <;> simp_all [alike]
  | .bool _, b, h => by cases b <;> simp_all [alike]
  | .number _, b, h => by cases b <;> simp_all [alike]
  | .string _, b, h => by cases b <;> simp_all [alike]
  | .array items, b, h => by
    cases b <;> simp only [alike, Bool.false_eq_true] at h ⊢
    exact alikeItems_mono htest items _ h
  | .object fields, b, h => by
    cases b <;> simp only [alike, Bool.false_eq_true] at h ⊢
    exact alikeFields_mono htest fields _ h

theorem alikeItems_mono {test test' : Number → Number → Bool} (htest : ∀ m n, test m n = true → test' m n = true) :
    ∀ as bs : List Value, alikeItems test as bs = true → alikeItems test' as bs = true
  | [], bs, h => by cases bs <;> simp_all [alikeItems]
  | a :: as, bs, h => by
    cases bs with
    | nil => cases h
    | cons b bs =>
      simp only [alikeItems, Bool.and_eq_true] at h ⊢
      exact ⟨alike_mono htest a b h.1, alikeItems_mono htest as bs h.2⟩

theorem alikeFields_mono {test test' : Number → Number → Bool} (htest : ∀ m n, test m n = true → test' m n = true) :
    ∀ as bs : List (String × Value), alikeFields test as bs = true → alikeFields test' as bs = true
  | [], bs, h => by cases bs <;> simp_all [alikeFields]
  | (k, a) :: as, bs, h => by
    cases bs with
    | nil => cases h
    | cons b bs =>
      simp only [alikeFields, Bool.and_eq_true] at h ⊢
      exact ⟨⟨h.1.1, alike_mono htest a b.2 h.1.2⟩, alikeFields_mono htest as bs h.2⟩

end

mutual

theorem same_self : ∀ a : Value, a.same a = true
  | .null => rfl
  | .bool _ => beq_self_eq_true _
  | .number n => Number.same_self n
  | .string _ => beq_self_eq_true _
  | .array items => sameItems_self items
  | .object fields => sameFields_self fields

theorem sameItems_self : ∀ items : List Value, alikeItems Number.same items items = true
  | [] => rfl
  | a :: as => Bool.and_eq_true_iff.mpr ⟨same_self a, sameItems_self as⟩

theorem sameFields_self : ∀ fields : List (String × Value), alikeFields Number.same fields fields = true
  | [] => rfl
  | (_, a) :: as => Bool.and_eq_true_iff.mpr ⟨Bool.and_eq_true_iff.mpr ⟨beq_self_eq_true _, same_self a⟩, sameFields_self as⟩

end

theorem means_of_same {a b : Value} (h : a.same b = true) : a.means b = true :=
  alike_mono (fun _ _ htest => beq_iff_eq.mpr (Number.value_eq_of_same htest)) a b h

end Value

end RustyCore
