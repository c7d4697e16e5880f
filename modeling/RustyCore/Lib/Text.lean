import Mathlib.Algebra.Order.Ring.Nat
import Mathlib.Data.List.TakeWhile

/-! String operations of the Rust standard library, over lists of characters: white space and trimming,
    searching, splitting and the character boundaries of a UTF-8 prefix. -/

namespace Text

open List

/-- The code points with the Unicode property `White_Space`, which is what `char::is_whitespace` tests. -/
def isWhitespace (c : Char) : Bool :=
  let n := c.toNat
  (9 ≤ n && n ≤ 13) || n == 0x20 || n == 0x85 || n == 0xa0 || n == 0x1680 || (0x2000 ≤ n && n ≤ 0x200a) ||
    n == 0x2028 || n == 0x2029 || n == 0x202f || n == 0x205f || n == 0x3000

/-- `str::trim_matches` with a character predicate. -/
def trimMatches (p : Char → Bool) (cs : List Char) : List Char :=
  ((cs.dropWhile p).reverse.dropWhile p).reverse

/-- `str::trim_end`. -/
def trimEnd (cs : List Char) : List Char := (cs.reverse.dropWhile isWhitespace).reverse

/-- `str::trim`. -/
def trim (s : String) : String := String.ofList (trimMatches isWhitespace s.toList)

def isBlank (s : String) : Bool := (trim s).toList.isEmpty

/-- `str::starts_with`. -/
def startsWith (s head : String) : Bool := head.toList.isPrefixOf s.toList

/-- `str::ends_with`. -/
def endsWith (s tail : String) : Bool := tail.toList.isSuffixOf s.toList

/-- `str::trim_start_matches` with a string pattern: the pattern is removed as often as it stands there. -/
def trimStartStr (head : List Char) (cs : List Char) : List Char :=
  go cs.length cs
where
  go : Nat → List Char → List Char
    | 0, cs => cs
    | fuel + 1, cs =>
      if head.isPrefixOf cs && !head.isEmpty then go fuel (cs.drop head.length) else cs

/-- The characters before the first occurrence of `needle`, if there is one (`str::find`, as a prefix
    rather than a byte offset). -/
def before (needle : List Char) : List Char → Option (List Char)
  | [] => if needle.isEmpty then some [] else none
  | c :: cs => if needle.isPrefixOf (c :: cs) then some [] else (before needle cs).map (c :: ·)

/-- `str::contains`. -/
def contains (s needle : String) : Bool := (before needle.toList s.toList).isSome

/-- `str::split` with a character predicate: the pieces between separators, empty ones included. -/
def splitOn (p : Char → Bool) : List Char → List (List Char)
  | [] => [[]]
  | c :: cs =>
    match splitOn p cs with
    | [] => [[]]
    | piece :: rest => if p c then [] :: piece :: rest else (c :: piece) :: rest

/-- The pieces of a list that end with a separator, and what follows the last one (`split_inclusive`, and the
    calls of `read_line`). -/
def splitInclusive {α : Type} (p : α → Bool) : List α → List (List α)
  | [] => []
  | c :: cs =>
    if p c then [c] :: splitInclusive p cs
    else match splitInclusive p cs with
      | [] => [[c]]
      | piece :: rest => (c :: piece) :: rest

/-- `str::lines`: the pieces ended by `\n`, without a `\r` before it; a last empty piece is no line. -/
def lines (cs : List Char) : List (List Char) :=
  let pieces := splitOn (· == '\n') cs
  let ended := pieces.dropLast.map fun piece => if piece.getLast? == some '\r' then piece.dropLast else piece
  match pieces.getLast? with
  | some [] | none => ended
  | some piece => ended ++ [piece]

def join (sep : String) : List String → String
  | [] => ""
  | [s] => s
  | s :: rest => s ++ sep ++ join sep rest

def takeBytes : Nat → List Char → List Char
  | _, [] => []
  | limit, c :: cs => if c.utf8Size ≤ limit then c :: takeBytes (limit - c.utf8Size) cs else []

def hexDigit (n : Nat) : Char := if n < 10 then Char.ofNat (48 + n) else Char.ofNat (87 + n)

def hex (width n : Nat) : List Char :=
  (List.range width).map fun i => hexDigit (n / 16 ^ (width - 1 - i) % 16)

theorem trimMatches_eq_nil {p : Char → Bool} {cs : List Char} : trimMatches p cs = [] ↔ ∀ c ∈ cs, p c = true := by
  rw [trimMatches, reverse_eq_nil_iff, dropWhile_eq_nil_iff]
  constructor
  · intro h
    have hrest : ∀ c ∈ cs.dropWhile p, p c = true := fun c hc => h c (mem_reverse.mpr hc)
    have hnil : cs.dropWhile p = [] := by
      by_contra hne
      have hhead := hrest _ (head_mem hne)
      rw [head_dropWhile_not p hne] at hhead
      cases hhead
    exact dropWhile_eq_nil_iff.mp hnil
  · intro h c hc
    exact h c (dropWhile_sublist p |>.mem (mem_reverse.mp hc))

theorem isBlank_ofList {cs : List Char} : isBlank (String.ofList cs) = true ↔ ∀ c ∈ cs, isWhitespace c = true := by
  simp [isBlank, trim, trimMatches_eq_nil]

theorem trimEnd_append {cs blank : List Char} (hend : ∀ c, cs.getLast? = some c → isWhitespace c = false)
    (hblank : ∀ c ∈ blank, isWhitespace c = true) : trimEnd (cs ++ blank) = cs := by
  have hrest : cs.reverse.dropWhile isWhitespace = cs.reverse := by
    cases hcs : cs.reverse with
    | nil => rfl
    | cons c rest =>
      have hlast : cs.getLast? = some c := by rw [← List.head?_reverse, hcs, List.head?_cons]
      rw [dropWhile_cons_of_neg (by rw [hend c hlast]; exact Bool.false_ne_true)]
  unfold trimEnd
  rw [reverse_append, dropWhile_append_of_pos fun c hc => hblank c (mem_reverse.mp hc), hrest,
    reverse_reverse]

theorem trimEnd_prefix (cs : List Char) : trimEnd cs <+: cs := by
  unfold trimEnd
  rw [← reverse_suffix, reverse_reverse]
  exact dropWhile_suffix _

theorem trimEnd_ne_nil {cs : List Char} {c : Char} (hc : c ∈ cs) (hsolid : isWhitespace c = false) : trimEnd cs ≠ [] := by
  intro hnil
  have hblank := dropWhile_eq_nil_iff.mp (reverse_eq_nil_iff.mp hnil) c (mem_reverse.mpr hc)
  rw [hsolid] at hblank
  cases hblank

section

variable {α : Type} {p : α → Bool} {piece rest : List α}

theorem splitInclusive_cons {sep : α} (h : ∀ c ∈ piece, p c = false) (hsep : p sep = true) :
    splitInclusive p (piece ++ sep :: rest) = (piece ++ [sep]) :: splitInclusive p rest := by
  induction piece with
  | nil => simp [splitInclusive, hsep]
  | cons c piece ih =>
    obtain ⟨hc, hpiece⟩ := forall_mem_cons.mp h
    simp [splitInclusive, hc, ih hpiece]

theorem splitInclusive_last (h : ∀ c ∈ piece, p c = false) (hne : piece ≠ []) : splitInclusive p piece = [piece] := by
  induction piece with
  | nil => exact absurd rfl hne
  | cons c piece ih =>
    obtain ⟨hc, hpiece⟩ := forall_mem_cons.mp h
    by_cases hnil : piece = []
    · subst hnil
      simp [splitInclusive, hc]
    · simp [splitInclusive, hc, ih hpiece hnil]

end

theorem splitOn_eq_singleton {p : Char → Bool} {piece : List Char} (h : ∀ c ∈ piece, p c = false) :
    splitOn p piece = [piece] := by
  induction piece with
  | nil => rfl
  | cons c piece ih =>
    obtain ⟨hc, hrest⟩ := forall_mem_cons.mp h
    simp [splitOn, ih hrest, hc]

theorem splitOn_ne_nil {p : Char → Bool} {cs : List Char} : splitOn p cs ≠ [] := by
  cases cs with
  | nil => simp [splitOn]
  | cons c cs =>
    rw [splitOn]
    split
    · simp
    · split <;> simp

theorem splitOn_append {p : Char → Bool} {piece rest : List Char} {sep : Char} (h : ∀ c ∈ piece, p c = false)
    (hsep : p sep = true) : splitOn p (piece ++ sep :: rest) = piece :: splitOn p rest := by
  induction piece with
  | nil =>
    obtain ⟨first, pieces, hsplit⟩ := exists_cons_of_ne_nil (@splitOn_ne_nil p rest)
    simp [splitOn, hsplit, hsep]
  | cons c piece ih =>
    obtain ⟨hc, hrest⟩ := forall_mem_cons.mp h
    simp [splitOn, ih hrest, hc]

/-- A line without the carriage return at its end. -/
def stripReturn (line : List Char) : List Char := if line.getLast? == some '\r' then line.dropLast else line

theorem lines_cons {line rest : List Char} (h : '\n' ∉ line) :
    lines (line ++ '\n' :: rest) = stripReturn line :: lines rest := by
  have hsplit : splitOn (· == '\n') (line ++ '\n' :: rest) = line :: splitOn (· == '\n') rest := by
    refine splitOn_append (fun c hc => ?_) rfl
    simp only [beq_eq_false_iff_ne, ne_eq]
    rintro rfl
    exact h hc
  obtain ⟨first, pieces, hrest⟩ := exists_cons_of_ne_nil (@splitOn_ne_nil (· == '\n') rest)
  simp only [lines, hsplit, hrest, dropLast_cons_cons, map_cons, List.getLast?_cons_cons, stripReturn]
  split <;> rfl

theorem lines_last {line : List Char} (h : '\n' ∉ line) (hne : line ≠ []) : lines line = [line] := by
  have hsplit : splitOn (· == '\n') line = [line] := by
    refine splitOn_eq_singleton fun c hc => ?_
    simp only [beq_eq_false_iff_ne, ne_eq]
    rintro rfl
    exact h hc
  obtain ⟨c, cs, rfl⟩ := exists_cons_of_ne_nil hne
  simp [lines, hsplit]

@[simp] theorem lines_nil : lines [] = [] := rfl

theorem stripReturn_eq {line : List Char} (h : '\r' ∉ line) : stripReturn line = line := by
  refine if_neg fun hlast => h ?_
  exact mem_of_getLast? (by simpa using hlast)

theorem lines_ended {ls : List (List Char)} {rest : List Char} (h : ∀ line ∈ ls, '\n' ∉ line ∧ '\r' ∉ line) :
    lines (ls.flatMap (· ++ ['\n']) ++ rest) = ls ++ lines rest := by
  induction ls with
  | nil => rfl
  | cons line ls ih =>
    obtain ⟨⟨hnewline, hreturn⟩, hls⟩ := forall_mem_cons.mp h
    rw [flatMap_cons, append_assoc, append_assoc, singleton_append, lines_cons hnewline,
      stripReturn_eq hreturn, ih hls, cons_append]

theorem prefix_ended {ls : List (List Char)} {cs : List Char} (h : cs <+: ls.flatMap (· ++ ['\n'])) :
    ∃ whole part rest, ls = whole ++ rest ∧ cs = whole.flatMap (· ++ ['\n']) ++ part ∧
      (part = [] ∨ ∃ line, rest.head? = some line ∧ part <+: line ∧ part ≠ []) := by
  induction ls generalizing cs with
  | nil => exact ⟨[], [], [], rfl, by simpa using h, Or.inl rfl⟩
  | cons line ls ih =>
    obtain ⟨tail, h⟩ := h
    rw [flatMap_cons] at h
    rcases append_eq_append_iff.mp h with ⟨left, hline, -⟩ | ⟨more, rfl, hmore⟩
    · rcases prefix_concat_iff.mp ⟨left, hline.symm⟩ with rfl | hpart
      · exact ⟨[line], [], ls, rfl, by simp, Or.inl rfl⟩
      · by_cases hnil : cs = []
        · exact ⟨[], [], line :: ls, rfl, hnil, Or.inl rfl⟩
        · exact ⟨[], cs, line :: ls, rfl, rfl, Or.inr ⟨line, rfl, hpart, hnil⟩⟩
    · obtain ⟨whole, part, rest, rfl, rfl, hcut⟩ := ih ⟨tail, hmore.symm⟩
      exact ⟨line :: whole, part, rest, rfl, by simp, hcut⟩

@[simp] theorem length_hex (width n : Nat) : (hex width n).length = width := by simp [hex]

theorem hexDigit_inj : ∀ m < 16, ∀ n < 16, hexDigit m = hexDigit n → m = n := by decide

theorem hex_inj {width m n : Nat} (h : hex width m = hex width n) : m % 16 ^ width = n % 16 ^ width := by
  have hdigit : ∀ i < width, m / 16 ^ i % 16 = n / 16 ^ i % 16 := by
    intro i hi
    have hat := map_inj_left.mp h (width - 1 - i) (mem_range.mpr (by omega))
    rw [show width - 1 - (width - 1 - i) = i by omega] at hat
    exact hexDigit_inj _ (Nat.mod_lt _ (by decide)) _ (Nat.mod_lt _ (by decide)) hat
  clear h
  induction width with
  | zero => simp [Nat.mod_one]
  | succ width ih =>
    rw [Nat.mod_pow_succ, Nat.mod_pow_succ, ih fun i hi => hdigit i (by omega), hdigit width (by omega)]

end Text
