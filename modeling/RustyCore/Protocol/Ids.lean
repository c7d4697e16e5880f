import Mathlib.Data.List.Sort
import RustyCore.Lib.Text

/-! Strongly typed identifiers and timestamps, and the tables of characters. The source declares every identifier
    with one macro, so the model has one type with the kind as a parameter. -/

namespace RustyCore

/-- `char::is_alphanumeric` and `char::to_lowercase`. -/
class CharTables where
  isAlphanumeric : Char → Bool
  toLowercase : Char → List Char

abbrev Uuid := BitVec 128

def Uuid.display (u : Uuid) : String :=
  let digits := Text.hex 32 u.toNat
  String.ofList (digits.take 8 ++ '-' :: (digits.drop 8).take 4 ++ '-' :: (digits.drop 12).take 4 ++
    '-' :: (digits.drop 16).take 4 ++ '-' :: digits.drop 20)

theorem Uuid.display_inj {u v : Uuid} (h : u.display = v.display) : u = v := by
  have hcut : ∀ digits : List Char, digits = digits.take 8 ++ ((digits.drop 8).take 4 ++ ((digits.drop 12).take 4 ++
      ((digits.drop 16).take 4 ++ digits.drop 20))) := by
    intro digits
    rw [show digits.drop 20 = (digits.drop 16).drop 4 by simp, List.take_append_drop,
      show digits.drop 16 = (digits.drop 12).drop 4 by simp, List.take_append_drop,
      show digits.drop 12 = (digits.drop 8).drop 4 by simp, List.take_append_drop, List.take_append_drop]
  have hparts := String.ofList_inj.mp h
  simp only [List.append_assoc, List.cons_append] at hparts
  obtain ⟨h1, hparts⟩ := List.append_inj hparts (by simp)
  obtain ⟨h2, hparts⟩ := List.append_inj (List.cons.inj hparts).2 (by simp)
  obtain ⟨h3, hparts⟩ := List.append_inj (List.cons.inj hparts).2 (by simp)
  obtain ⟨h4, hparts⟩ := List.append_inj (List.cons.inj hparts).2 (by simp)
  have hdigits : Text.hex 32 u.toNat = Text.hex 32 v.toNat := by
    rw [hcut (Text.hex 32 u.toNat), hcut (Text.hex 32 v.toNat), h1, h2, h3, h4, (List.cons.inj hparts).2]
  have hbound : ∀ w : Uuid, w.toNat % 16 ^ 32 = w.toNat := by
    intro w
    exact Nat.mod_eq_of_lt (Nat.lt_of_lt_of_eq w.isLt (by decide))
  have hvalue := Text.hex_inj hdigits
  rw [hbound u, hbound v] at hvalue
  exact BitVec.eq_of_toNat_eq hvalue

inductive IdKind where
  | session
  | agent
  | run
  | request
  | toolCall
  | message
  | event
  | permission
  | tool
  | integration
  | configuration
  | model
deriving DecidableEq

structure Id (kind : IdKind) where
  uuid : Uuid
deriving DecidableEq

abbrev SessionId := Id .session
abbrev AgentId := Id .agent
abbrev RunId := Id .run
abbrev RequestId := Id .request
abbrev ToolCallId := Id .toolCall
abbrev MessageId := Id .message
abbrev EventId := Id .event
abbrev PermissionId := Id .permission
abbrev ToolId := Id .tool
abbrev IntegrationId := Id .integration
abbrev ConfigurationId := Id .configuration
abbrev ModelId := Id .model

def maxU64 : Nat := 2 ^ 64 - 1

def maxU32 : Nat := 2 ^ 32 - 1

def saturatingAdd (a b : Nat) : Nat := min (a + b) maxU64

namespace Id

variable {kind : IdKind}

def derived (seed : Uuid) (sequence ns : Nat) : Id kind :=
  ⟨seed ^^^ (BitVec.ofNat 128 sequence <<< 64) ^^^ BitVec.ofNat 128 ns⟩

def display (id : Id kind) : String := id.uuid.display

theorem display_inj {a b : Id kind} (h : a.display = b.display) : a = b := by
  obtain ⟨u⟩ := a
  obtain ⟨v⟩ := b
  rw [Uuid.display_inj (u := u) (v := v) h]

def le (a b : Id kind) : Prop := a.uuid ≤ b.uuid

instance (a b : Id kind) : Decidable (le a b) := inferInstanceAs (Decidable (a.uuid ≤ b.uuid))

def sort (ids : List (Id kind)) : List (Id kind) := ids.insertionSort le

end Id

structure Timestamp where
  seconds : Nat
  nanos : Nat
deriving DecidableEq

def maxUtcSeconds : Nat := 8210266876799

/-- A timestamp that orders by `sequence`. A sequence too large for a calendar date saturates at the
    latest representable time. -/
def Timestamp.fromSequence (sequence : Nat) : Timestamp :=
  if sequence ≤ maxUtcSeconds then ⟨sequence, 0⟩ else ⟨maxUtcSeconds, 999999999⟩

end RustyCore
