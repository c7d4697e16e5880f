import Mathlib.Data.String.Basic
import RustyCore.Lib.Text

/-! UTF-8 over lists of bytes: `String::from_utf8` succeeds exactly on what is encoded, and a part of an encoded
    text that can be read is a part of the text. -/

namespace Utf8

open List

def encode (cs : List Char) : List UInt8 := cs.flatMap String.utf8EncodeChar

def decode (bytes : List UInt8) : Option (List Char) := (String.fromUTF8? bytes.toByteArray).map String.toList

variable {cs ds : List Char} {bytes : List UInt8}

@[simp] theorem encode_nil : encode [] = [] := rfl

@[simp] theorem encode_append : encode (cs ++ ds) = encode cs ++ encode ds := flatMap_append

theorem toByteArray_encode : (encode cs).toByteArray = cs.utf8Encode := rfl

theorem toByteArray_inj {as bs : List UInt8} (h : as.toByteArray = bs.toByteArray) : as = bs := by
  simpa using congrArg (fun b : ByteArray => b.data.toList) h

theorem decode_eq_some : decode bytes = some cs ↔ bytes = encode cs := by
  constructor
  · intro h
    unfold decode String.fromUTF8? at h
    split at h
    · obtain rfl := Option.some.inj h
      apply toByteArray_inj
      rw [toByteArray_encode, ← String.toByteArray_ofList, String.ofList_toList]
      rfl
    · cases h
  · rintro rfl
    have hvalid : (encode cs).toByteArray.IsValidUTF8 := ByteArray.isValidUTF8_utf8Encode
    have hstring : String.fromUTF8 (encode cs).toByteArray hvalid = String.ofList cs :=
      String.toByteArray_inj.mp String.toByteArray_ofList.symm
    rw [decode, String.fromUTF8?, dif_pos hvalid, hstring, Option.map_some, String.toList_ofList]

theorem encode_cons_inj {c d : Char} {as bs : List UInt8}
    (h : String.utf8EncodeChar c ++ as = String.utf8EncodeChar d ++ bs) : c = d ∧ as = bs := by
  have hchar : c = d := by
    have hdecode := congrArg (fun b : List UInt8 => b.toByteArray.utf8DecodeChar? 0) h
    simpa [ByteArray.utf8DecodeChar?_utf8EncodeChar_append] using hdecode
  subst hchar
  exact ⟨rfl, append_cancel_left h⟩

theorem prefix_of_encode (h : encode cs <+: encode ds) : cs <+: ds := by
  obtain ⟨rest, h⟩ := h
  induction cs generalizing ds with
  | nil => exact nil_prefix
  | cons c cs ih =>
    cases ds with
    | nil =>
      have hnil := (append_eq_nil_iff.mp h).1
      exact absurd (append_eq_nil_iff.mp hnil).1 String.utf8EncodeChar_ne_nil
    | cons d ds =>
      rw [encode, encode, flatMap_cons, flatMap_cons, append_assoc] at h
      obtain ⟨rfl, htail⟩ := encode_cons_inj h
      exact prefix_cons_inj c |>.mpr (ih htail)

theorem decode_take {n : Nat} (h : decode ((encode ds).take n) = some cs) : cs <+: ds := by
  apply prefix_of_encode
  rw [← decode_eq_some.mp h]
  exact take_prefix n _

theorem utf8EncodeChar_cases (c : Char) : (c.toNat < 0x80 ∧ String.utf8EncodeChar c = [UInt8.ofNat c.toNat]) ∨
    (0x80 ≤ c.toNat ∧ ∀ b ∈ String.utf8EncodeChar c, 0x80 ≤ b.toNat) := by
  have hvalue : c.val.toNat = c.toNat := rfl
  unfold String.utf8EncodeChar
  dsimp only
  rw [hvalue]
  split
  · exact Or.inl ⟨by omega, rfl⟩
  · right
    refine ⟨by omega, ?_⟩
    intro b hb
    split at hb
    · simp only [mem_cons, not_mem_nil, or_false] at hb
      rcases hb with rfl | rfl <;> simp only [UInt8.toNat_ofNat'] <;> omega
    · split at hb
      · simp only [mem_cons, not_mem_nil, or_false] at hb
        rcases hb with rfl | rfl | rfl <;> simp only [UInt8.toNat_ofNat'] <;> omega
      · simp only [mem_cons, not_mem_nil, or_false] at hb
        rcases hb with rfl | rfl | rfl | rfl <;> simp only [UInt8.toNat_ofNat'] <;> omega

theorem ascii_mem {a : Char} (ha : a.toNat < 0x80) (h : UInt8.ofNat a.toNat ∈ encode cs) : a ∈ cs := by
  obtain ⟨c, hc, hmem⟩ := mem_flatMap.mp h
  rcases utf8EncodeChar_cases c with ⟨hsmall, heq⟩ | ⟨-, hbytes⟩
  · rw [heq, mem_singleton] at hmem
    have hsame := congrArg UInt8.toNat hmem
    simp only [UInt8.toNat_ofNat'] at hsame
    obtain rfl : a = c := Char.toNat_inj.mp (by omega)
    exact hc
  · have hlow := hbytes _ hmem
    simp only [UInt8.toNat_ofNat'] at hlow
    omega

theorem encode_inj (h : encode cs = encode ds) : cs = ds :=
  Option.some.inj ((decode_eq_some.mpr rfl).symm.trans (decode_eq_some.mpr h))

theorem encode_split {before : List UInt8} {a : Char} (ha : a.toNat < 0x80)
    (h : encode cs = before ++ encode (a :: ds)) : ∃ bs, before = encode bs ∧ cs = bs ++ a :: ds := by
  induction cs generalizing before with
  | nil =>
    have hnil := (append_eq_nil_iff.mp h.symm).2
    exact absurd (append_eq_nil_iff.mp hnil).1 String.utf8EncodeChar_ne_nil
  | cons c cs ih =>
    by_cases hbefore : before = []
    · subst hbefore
      exact ⟨[], rfl, encode_inj h⟩
    · have hcons : String.utf8EncodeChar c ++ encode cs = before ++ encode (a :: ds) := h
      rcases append_eq_append_iff.mp hcons with ⟨more, rfl, hmore⟩ | ⟨more, hchar, hmore⟩
      · obtain ⟨bs, rfl, rfl⟩ := ih hmore
        exact ⟨c :: bs, rfl, rfl⟩
      · -- The character before the ASCII one cannot reach into it.
        by_cases hnil : more = []
        · subst hnil
          rw [append_nil] at hchar
          obtain ⟨bs, hbs, rfl⟩ := @ih [] hmore.symm
          have hempty : bs = [] := encode_inj (hbs.symm.trans encode_nil.symm)
          subst hempty
          exact ⟨[c], by rw [← hchar]; exact (append_nil _).symm, rfl⟩
        · exfalso
          have hfirst : encode (a :: ds) = UInt8.ofNat a.toNat :: encode ds := by
            rcases utf8EncodeChar_cases a with ⟨-, heq⟩ | ⟨hlarge, -⟩
            · rw [encode, flatMap_cons, heq]
              rfl
            · omega
          obtain ⟨b, more, rfl⟩ := exists_cons_of_ne_nil hnil
          rw [hfirst, cons_append] at hmore
          obtain ⟨rfl, -⟩ := List.cons.inj hmore
          rcases utf8EncodeChar_cases c with ⟨-, heq⟩ | ⟨-, hbytes⟩
          · rw [heq] at hchar
            have hlength := congrArg List.length hchar
            have hpos := length_pos_iff.mpr hbefore
            simp only [length_nil, length_append, length_cons] at hlength
            omega
          · have hlow := hbytes (UInt8.ofNat a.toNat) (by rw [hchar]; simp)
            simp only [UInt8.toNat_ofNat'] at hlow
            omega

end Utf8

namespace Text

open List

theorem takeBytes_prefix (limit : Nat) (cs : List Char) : takeBytes limit cs <+: cs := by
  induction cs generalizing limit with
  | nil => exact prefix_rfl
  | cons c cs ih =>
    rw [takeBytes]
    split
    · exact prefix_cons_inj c |>.mpr (ih _)
    · exact nil_prefix

theorem utf8Len_takeBytes (limit : Nat) (cs : List Char) : String.utf8Len (takeBytes limit cs) ≤ limit := by
  induction cs generalizing limit with
  | nil => exact Nat.zero_le _
  | cons c cs ih =>
    rw [takeBytes]
    split
    · have hrest := ih (limit - c.utf8Size)
      rw [String.utf8Len_cons]
      omega
    · exact Nat.zero_le _

theorem prefix_takeBytes {limit : Nat} {cs ds : List Char} (h : ds <+: cs) (hlimit : String.utf8Len ds ≤ limit) :
    ds <+: takeBytes limit cs := by
  induction cs generalizing limit ds with
  | nil =>
    rw [prefix_nil.mp h]
    exact nil_prefix
  | cons c cs ih =>
    cases ds with
    | nil => exact nil_prefix
    | cons d ds =>
      obtain ⟨rfl, htail⟩ := cons_prefix_cons.mp h
      rw [String.utf8Len_cons] at hlimit
      rw [takeBytes, if_pos (by omega)]
      exact cons_prefix_cons.mpr ⟨rfl, ih htail (by omega)⟩

theorem takeBytes_append {limit : Nat} {cs ds : List Char} (h : String.utf8Len cs ≤ limit) :
    takeBytes limit (cs ++ ds) = cs ++ takeBytes (limit - String.utf8Len cs) ds := by
  induction cs generalizing limit with
  | nil => rfl
  | cons c cs ih =>
    rw [String.utf8Len_cons] at h
    rw [cons_append, takeBytes, if_pos (by omega), ih (by omega), String.utf8Len_cons, cons_append,
      show limit - c.utf8Size - String.utf8Len cs = limit - (String.utf8Len cs + c.utf8Size) by omega]

theorem takeBytes_eq_self {limit : Nat} {cs : List Char} (h : String.utf8Len cs ≤ limit) : takeBytes limit cs = cs := by
  have hsplit := @takeBytes_append _ _ [] h
  rwa [append_nil, takeBytes, append_nil] at hsplit

@[simp] theorem takeBytes_zero {cs : List Char} : takeBytes 0 cs = [] := by
  cases cs with
  | nil => rfl
  | cons c cs => rw [takeBytes, if_neg (Nat.not_le.mpr c.utf8Size_pos)]

theorem takeBytes_append_of_lt {limit : Nat} {cs ds : List Char} (h : limit < String.utf8Len cs) :
    takeBytes limit (cs ++ ds) = takeBytes limit cs := by
  induction cs generalizing limit with
  | nil => cases h
  | cons c cs ih =>
    rw [String.utf8Len_cons] at h
    rw [cons_append, takeBytes, takeBytes]
    split_ifs with hc
    · rw [ih (by omega)]
    · rfl

end Text
