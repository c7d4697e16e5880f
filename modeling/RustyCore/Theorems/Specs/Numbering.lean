import RustyCore.Theorems.Specs.Listing

/-! # The numbers of changes

A folder name reads back as the number and the slug it was made of, but where the slug begins like the rest of a date;
then the number is lost, and the next change can get it again. -/

namespace RustyCore.Specs

open Text List

variable {slug name dir date text : Line} {number n : Nat} {c : Char}

theorem toLower_cases (c : Char) : ¬(65 ≤ c.toNat ∧ c.toNat ≤ 90) ∧ c.toLower = c ∨
    (65 ≤ c.toNat ∧ c.toNat ≤ 90) ∧ c.toLower.toNat = c.toNat + 32 := by
  have hbounds : c.val ≥ 'A'.val ∧ c.val ≤ 'Z'.val ↔ 65 ≤ c.toNat ∧ c.toNat ≤ 90 := by
    rw [ge_iff_le, UInt32.le_iff_toNat_le, UInt32.le_iff_toNat_le]
    rfl
  by_cases h : c.val ≥ 'A'.val ∧ c.val ≤ 'Z'.val
  · have hletter := hbounds.mp h
    have hshift : (c.val + ('a'.val - 'A'.val)).toNat = c.toNat + 32 := by
      have hd : ('a'.val - 'A'.val).toNat = 32 := rfl
      have hval : c.val.toNat = c.toNat := rfl
      rw [UInt32.toNat_add]
      omega
    refine .inr ⟨hletter, ?_⟩
    rw [Char.toLower, dif_pos h]
    exact hshift
  · exact .inl ⟨fun hletter => h (hbounds.mpr hletter), by rw [Char.toLower, dif_neg h]⟩

theorem isAlphanum_iff : c.isAlphanum = true ↔
    (65 ≤ c.toNat ∧ c.toNat ≤ 90) ∨ (97 ≤ c.toNat ∧ c.toNat ≤ 122) ∨ (48 ≤ c.toNat ∧ c.toNat ≤ 57) := by
  simp only [Char.isAlphanum, Char.isAlpha, Char.isUpper, Char.isLower, Char.isDigit, Bool.or_eq_true, Bool.and_eq_true,
    decide_eq_true_eq, ge_iff_le, UInt32.le_iff_toNat_le, or_assoc]
  rfl

theorem isAlphanum_toLower (h : c.isAlphanum = true) : c.toLower.isAlphanum = true ∧ c.toLower.toLower = c.toLower := by
  rcases toLower_cases c with ⟨-, hsame⟩ | ⟨hletter, hshift⟩
  · rw [hsame]
    exact ⟨h, hsame⟩
  · rcases toLower_cases c.toLower with ⟨-, hsame⟩ | ⟨hagain, -⟩
    · exact ⟨isAlphanum_iff.mpr (by omega), hsame⟩
    · omega

structure PlainSlug (slug : Line) : Prop where
  chars : ∀ c ∈ slug, c = '-' ∨ c.isAlphanum = true ∧ c.toLower = c
  head : slug.head? ≠ some '-'
  single : slug.IsChain fun a b => a = '-' → b ≠ '-'

namespace PlainSlug

theorem nil : PlainSlug [] := ⟨nofun, nofun, .nil⟩

theorem initial {part : Line} (h : PlainSlug slug) (hpart : part <+: slug) : PlainSlug part where
  chars c hc := h.chars c (hpart.subset hc)
  head := by
    cases part with
    | nil => nofun
    | cons c part =>
      obtain ⟨rest, rfl⟩ := hpart
      exact h.head
  single := h.single.prefix hpart

theorem append_char (h : PlainSlug slug) (hc : c.isAlphanum = true ∧ c.toLower = c ∨ c = '-' ∧ slug ≠ [] ∧
    slug.getLast? ≠ some '-') : PlainSlug (slug ++ [c]) where
  chars d hd := by
    rcases mem_append.mp hd with hd | hd
    · exact h.chars d hd
    · rw [mem_singleton.mp hd]
      exact hc.elim .inr fun hdash => .inl hdash.1
  head := by
    cases slug with
    | nil =>
      rcases hc with ⟨halnum, -⟩ | ⟨-, hne, -⟩
      · rintro hdash
        cases hdash
        cases halnum
      · exact absurd rfl hne
    | cons d slug => exact h.head
  single := by
    refine isChain_append.mpr ⟨h.single, .singleton _, fun a ha b hb hdash => ?_⟩
    cases hb
    subst hdash
    rcases hc with ⟨halnum, -⟩ | ⟨-, -, hlast⟩
    · rintro rfl
      cases halnum
    · exact absurd ha hlast

theorem slugStep (h : PlainSlug slug) (c : Char) : PlainSlug (slugStep slug c) := by
  unfold Specs.slugStep
  split
  · rename_i hc
    exact h.append_char (.inl (isAlphanum_toLower hc))
  · split
    · rename_i hdash
      rw [Bool.and_eq_true, bne_iff_ne, Bool.not_eq_true', isEmpty_eq_false_iff] at hdash
      exact h.append_char (.inr ⟨rfl, hdash.2, hdash.1⟩)
    · exact h

theorem foldl_slugStep (h : PlainSlug slug) : slug.foldl Specs.slugStep [] = slug := by
  induction slug using List.reverseRecOn with
  | nil => rfl
  | append_singleton slug c ih =>
    rw [foldl_append, ih (h.initial (prefix_append _ _)), foldl_cons, foldl_nil, Specs.slugStep]
    rcases h.chars c (mem_append_right _ (mem_singleton_self c)) with rfl | ⟨halnum, hlower⟩
    · obtain ⟨-, -, hlast⟩ := isChain_append.mp h.single
      have hne : slug ≠ [] := by
        rintro rfl
        exact h.head rfl
      have hend : slug.getLast? ≠ some '-' := fun heq => hlast '-' heq '-' rfl rfl rfl
      rw [if_neg (by decide), if_pos]
      rw [Bool.and_eq_true, bne_iff_ne, Bool.not_eq_true', isEmpty_eq_false_iff]
      exact ⟨hend, hne⟩
    · rw [if_pos halnum, hlower]

theorem trim (h : PlainSlug slug) : trimMatches (· == '-') slug = slug.rdropWhile (· == '-') := by
  have hfront : slug.dropWhile (· == '-') = slug := by
    cases slug with
    | nil => rfl
    | cons c slug =>
      rw [dropWhile_cons_of_neg]
      rw [beq_iff_eq]
      rintro rfl
      exact h.head rfl
  rw [trimMatches, hfront]
  rfl

end PlainSlug

/-- What `slugify` gives. -/
structure Slug (slug : Line) : Prop extends PlainSlug slug where
  ne_nil : slug ≠ []
  last : slug.getLast? ≠ some '-'
  length : slug.length ≤ maxSlugChars

theorem plainSlug_foldl (h : PlainSlug slug) (text : Line) : PlainSlug (text.foldl slugStep slug) := by
  induction text generalizing slug with
  | nil => exact h
  | cons c text ih => exact ih (h.slugStep c)

theorem slug_slugify (text : Line) : Slug (slugify text) := by
  have htaken := (plainSlug_foldl .nil text).initial (List.take_prefix maxSlugChars _)
  have hpart : ((text.foldl slugStep []).take maxSlugChars).rdropWhile (· == '-') <+:
      (text.foldl slugStep []).take maxSlugChars := rdropWhile_prefix _ _
  unfold slugify
  dsimp only
  rw [htaken.trim]
  split
  · exact ⟨⟨by simp, by decide, by simp⟩, by decide, by decide, by decide⟩
  · rename_i hne
    rw [Bool.not_eq_true, isEmpty_eq_false_iff] at hne
    refine ⟨htaken.initial hpart, hne, fun hlast => ?_, hpart.length_le.trans (length_take_le _ _)⟩
    refine rdropWhile_last_not (p := (· == '-')) _ hne ?_
    rw [List.getLast?_eq_some_getLast hne, Option.some.injEq] at hlast
    rw [hlast]
    rfl

theorem slugify_of_slug (h : Slug slug) : slugify slug = slug := by
  have hend : slug.rdropWhile (· == '-') = slug := by
    refine rdropWhile_eq_self_iff.mpr fun hne hdash => h.last ?_
    rw [List.getLast?_eq_some_getLast hne, beq_iff_eq.mp hdash]
  unfold slugify
  dsimp only
  rw [h.foldl_slugStep, take_of_length_le h.length, h.trim, hend]
  exact if_neg (by simpa using h.ne_nil)

/-- What `parse_dir_name` makes of a name without a date. -/
def reading (name : Line) : Option (Nat × Line) :=
  (splitOnce ['-'] name).bind fun (number, slug) =>
    if number.length < 4 || !number.all Char.isDigit || slug.isEmpty then none
    else (parseU32 number).map fun n => (n, slug)

theorem parseDirName_eq (name : Line) : parseDirName name = reading (stripDatePrefix name) := rfl

def dateLike (name : Line) : Bool :=
  name.length > 11 && ([0, 1, 2, 3, 5, 6, 8, 9].all fun i => ((name[i]?).map Char.isDigit).getD false) &&
    [4, 7, 10].all fun i => name[i]? == some '-'

theorem stripDatePrefix_eq (name : Line) : stripDatePrefix name = if dateLike name then name.drop 11 else name := rfl

theorem parseU32_eq (digits : Line) : parseU32 digits =
    if Nat.ofDigitChars 10 digits 0 < 2 ^ 32 then some (Nat.ofDigitChars 10 digits 0) else none := by
  have hvalue : digits.foldl (fun n c => n * 10 + (c.toNat - '0'.toNat)) 0 = Nat.ofDigitChars 10 digits 0 := by
    rw [Nat.ofDigitChars_eq_foldl]
    simp only [Nat.mul_comm]
  rw [parseU32, hvalue]

theorem isDigit_decimal (n : Nat) : ∀ c ∈ decimal n, c.isDigit = true := by
  intro c hc
  rw [decimal, Nat.toString_eq_repr, Nat.toList_repr] at hc
  exact Nat.isDigit_of_mem_toDigits (by decide) (by decide) hc

theorem padded_digits (n : Nat) : ∀ c ∈ padded n, c.isDigit = true := by
  intro c hc
  rcases mem_append.mp hc with hzero | hdigit
  · rw [(mem_replicate.mp hzero).2]
    rfl
  · exact isDigit_decimal n c hdigit

theorem ofDigitChars_padded (number : Nat) : Nat.ofDigitChars 10 (padded number) 0 = number := by
  rw [padded, Nat.ofDigitChars_append, Nat.ofDigitChars_replicate_zero, Nat.mul_zero, decimal, Nat.toString_eq_repr,
    Nat.toList_repr, Nat.ofDigitChars_ten_toDigits]

theorem parseU32_padded (h : number ≤ maxU32) : parseU32 (padded number) = some number := by
  rw [parseU32_eq, ofDigitChars_padded, if_pos (by unfold maxU32 at h; omega)]

theorem length_padded (number : Nat) : 4 ≤ (padded number).length ∧ ((padded number).length = 4 ↔ number < 10000) := by
  have hdigits : (decimal number).length ≤ 4 ↔ number < 10 ^ 4 := by
    rw [decimal, Nat.toString_eq_repr, Nat.toList_repr]
    exact Nat.length_toDigits_le_iff (by decide) (by decide)
  rw [padded, length_append, length_replicate]
  omega

theorem dash_not_mem_padded (number : Nat) : '-' ∉ padded number :=
  fun h => Bool.false_ne_true (padded_digits number '-' h)

theorem reading_changeDirName (hnumber : number ≤ maxU32) (hslug : slug ≠ []) :
    reading (changeDirName number slug) = some (number, slug) := by
  have hsplit : splitOnce ['-'] (changeDirName number slug) = some (padded number, slug) :=
    splitOnce_char.mpr ⟨rfl, dash_not_mem_padded number⟩
  have hgood : ¬((padded number).length < 4 || !(padded number).all Char.isDigit || slug.isEmpty) = true := by
    have hlength := (length_padded number).1
    have hall : (padded number).all Char.isDigit = true := all_eq_true.mpr (padded_digits number)
    simp [hall, hslug, Nat.not_lt.mpr hlength]
  rw [reading, hsplit, Option.bind_some]
  dsimp only
  rw [if_neg hgood, parseU32_padded hnumber, Option.map_some]

theorem length_reading (h : reading name = some (n, slug)) : slug.length < name.length := by
  obtain ⟨⟨digits, rest⟩, hsplit, hread⟩ := Option.bind_eq_some_iff.mp h
  obtain ⟨rfl, -⟩ := splitOnce_char.mp hsplit
  dsimp only at hread
  rw [Option.ite_none_left_eq_some, Option.map_eq_some_iff] at hread
  obtain ⟨-, m, -, heq⟩ := hread
  cases heq
  rw [length_append, length_cons]
  omega

/-- `10-30-albums`, which makes the number before it look like a year. -/
def dated (slug : Line) : Bool :=
  slug.length > 6 && ([0, 1, 3, 4].all fun i => ((slug[i]?).map Char.isDigit).getD false) && [2, 5].all fun i => slug[i]? == some '-'

def Imitates (number : Nat) (slug : Line) : Prop := number < 10000 ∧ dated slug = true

instance : Decidable (Imitates number slug) := inferInstanceAs (Decidable (_ ∧ _))

theorem four_of_length {l : List α} (h : l.length = 4) : ∃ a b c d, l = [a, b, c, d] := by
  obtain ⟨a, l, rfl⟩ := exists_cons_of_length_eq_add_one h
  obtain ⟨b, c, d, hrest⟩ := length_eq_three.mp (Nat.succ.inj h)
  exact ⟨a, b, c, d, congrArg (a :: ·) hrest⟩

theorem dateLike_four {a b c d : Char} (h : ∀ x ∈ [a, b, c, d], x.isDigit = true) :
    dateLike ([a, b, c, d] ++ '-' :: slug) = dated slug := by
  have hlength : decide (([a, b, c, d] ++ '-' :: slug).length > 11) = decide (slug.length > 6) := by
    simp only [length_append, length_cons, length_nil, decide_eq_decide]
    omega
  simp only [forall_mem_cons] at h
  rw [dateLike, dated, hlength]
  simp [h]

theorem dateLike_changeDirName : dateLike (changeDirName number slug) = true ↔ Imitates number slug := by
  obtain ⟨hlength, hshort⟩ := length_padded number
  have hdigits := padded_digits number
  unfold Imitates
  by_cases hnumber : number < 10000
  · obtain ⟨a, b, c, d, hfour⟩ := four_of_length (hshort.mpr hnumber)
    rw [hfour] at hdigits
    rw [and_iff_right hnumber, changeDirName, hfour, dateLike_four hdigits]
  · refine iff_of_false (fun hdate => ?_) fun h => hnumber h.1
    -- the fifth character is a digit of the number
    have hlong : 4 < (padded number).length := lt_of_le_of_ne hlength fun h => hnumber (hshort.mp h.symm)
    have hdash : (changeDirName number slug)[4]? = some '-' := by
      simp only [dateLike, Bool.and_eq_true, all_cons, beq_iff_eq] at hdate
      exact hdate.2.1
    rw [changeDirName, List.getElem?_append_left hlong] at hdash
    exact dash_not_mem_padded number (mem_of_getElem? hdash)

theorem parseDirName_changeDirName (hnumber : number ≤ maxU32) (hslug : slug ≠ []) :
    parseDirName (changeDirName number slug) = some (number, slug) ↔ ¬Imitates number slug := by
  rw [parseDirName_eq, stripDatePrefix_eq, ← dateLike_changeDirName]
  by_cases hdate : dateLike (changeDirName number slug) = true
  · rw [if_pos hdate]
    refine iff_of_false (fun h => ?_) (not_not_intro hdate)
    have hrest : (changeDirName number slug).drop 11 = slug.drop 6 := by
      have hfour := (length_padded number).2.mpr (dateLike_changeDirName.mp hdate).1
      rw [changeDirName, drop_append, drop_eq_nil_of_le (by omega), hfour]
      rfl
    have hshorter := length_reading h
    rw [hrest, length_drop] at hshorter
    omega
  · rw [if_neg hdate]
    exact iff_of_true (reading_changeDirName hnumber hslug) hdate

/-- `YYYY-MM-DD`. -/
def IsDate (date : Line) : Prop :=
  ∃ y₁ y₂ y₃ y₄ m₁ m₂ d₁ d₂, date = [y₁, y₂, y₃, y₄, '-', m₁, m₂, '-', d₁, d₂] ∧
    ∀ c ∈ [y₁, y₂, y₃, y₄, m₁, m₂, d₁, d₂], c.isDigit = true

theorem stripDatePrefix_dated (hdate : IsDate date) (hdir : dir ≠ []) : stripDatePrefix (date ++ '-' :: dir) = dir := by
  obtain ⟨y₁, y₂, y₃, y₄, m₁, m₂, d₁, d₂, rfl, hdigits⟩ := hdate
  have hlength : 0 < dir.length := length_pos_iff.mpr hdir
  simp only [forall_mem_cons] at hdigits
  rw [stripDatePrefix_eq, if_pos]
  · rfl
  · simp [dateLike, hdigits]
    omega

theorem IsDate.slash (hdate : IsDate date) : '/' ∉ date := by
  obtain ⟨y₁, y₂, y₃, y₄, m₁, m₂, d₁, d₂, rfl, hdigits⟩ := hdate
  intro h
  have hone : '/' ∈ [y₁, y₂, y₃, y₄, m₁, m₂, d₁, d₂] := by
    simpa using h
  exact Bool.false_ne_true (hdigits '/' hone)

theorem slash_not_mem_changeDirName (number : Nat) (title : Line) : '/' ∉ changeDirName number (slugify title) := by
  intro h
  rcases mem_append.mp h with hdigit | hslug
  · exact Bool.false_ne_true (padded_digits number '/' hdigit)
  · rcases (slug_slugify title).chars '/' ((mem_cons.mp hslug).resolve_left (by decide)) with hdash | ⟨halnum, -⟩
    · cases hdash
    · cases halnum

variable {names : List Line}

def greatest (names : List Line) : Nat := ((names.filterMap parseDirName).map Prod.fst).max?.getD 0

theorem le_greatest (hname : name ∈ names) (h : parseDirName name = some (n, slug)) : n ≤ greatest names :=
  le_max?_getD_of_mem (mem_map_of_mem (mem_filterMap.mpr ⟨name, hname, h⟩))

theorem nextNumber_eq (names : List Line) :
    nextNumber names = if greatest names < maxU32 then some (greatest names + 1) else none := by
  unfold nextNumber greatest
  cases (names.filterMap parseDirName).map Prod.fst with
  | nil | cons => rfl

/-- A folder that passes for a dated one, though its own number is the one after the greatest that is read, and its slug
    that of the title. -/
def Taken (names : List Line) (slug : Line) : Prop :=
  ∃ name ∈ names, dateLike name = true ∧ reading name = some (greatest names + 1, slug)

theorem digit_spec (h : c.isDigit = true) : '0'.toNat ≤ c.toNat ∧ c.toNat - '0'.toNat < 10 := by
  simp only [Char.isDigit, Bool.and_eq_true, decide_eq_true_eq] at h
  exact ⟨h.1, by have := UInt32.le_iff_toNat_le.mp h.2; simp at this ⊢; omega⟩

theorem ofDigitChars_lt {digits : Line} (h : ∀ c ∈ digits, c.isDigit = true) :
    Nat.ofDigitChars 10 digits 0 < 10 ^ digits.length := by
  induction digits with
  | nil => exact Nat.one_pos
  | cons c digits ih =>
    obtain ⟨hc, hdigits⟩ := forall_mem_cons.mp h
    have hrest := ih hdigits
    have hdigit : 10 ^ digits.length * (c.toNat - '0'.toNat) ≤ 10 ^ digits.length * 9 :=
      Nat.mul_le_mul_left _ (Nat.le_of_lt_succ (digit_spec hc).2)
    rw [Nat.ofDigitChars_cons, Nat.mul_zero, Nat.zero_add, Nat.ofDigitChars_eq_ofDigitChars_zero, length_cons,
      Nat.pow_succ]
    omega

theorem eq_of_ofDigitChars {digits other : Line} (hlength : digits.length = other.length)
    (hdigits : ∀ c ∈ digits, c.isDigit = true) (hother : ∀ c ∈ other, c.isDigit = true)
    (h : Nat.ofDigitChars 10 digits 0 = Nat.ofDigitChars 10 other 0) : digits = other := by
  induction digits generalizing other with
  | nil => exact (eq_nil_of_length_eq_zero hlength.symm).symm
  | cons c digits ih =>
    obtain ⟨d, other, rfl⟩ := exists_cons_of_length_eq_add_one hlength.symm
    obtain ⟨hc, hdigits⟩ := forall_mem_cons.mp hdigits
    obtain ⟨hd, hother⟩ := forall_mem_cons.mp hother
    have hlength : digits.length = other.length := Nat.succ.inj hlength
    have hlt := ofDigitChars_lt hdigits
    have hlt' := ofDigitChars_lt hother
    rw [Nat.ofDigitChars_cons, Nat.ofDigitChars_cons, Nat.mul_zero, Nat.zero_add, Nat.zero_add,
      Nat.ofDigitChars_eq_ofDigitChars_zero, @Nat.ofDigitChars_eq_ofDigitChars_zero other, ← hlength] at h
    rw [← hlength] at hlt'
    have hfirst := congrArg (· / 10 ^ digits.length) h
    have hrest := congrArg (· % 10 ^ digits.length) h
    simp only [Nat.mul_add_div (Nat.pow_pos (by decide : 0 < 10)), Nat.div_eq_of_lt hlt, Nat.div_eq_of_lt hlt',
      Nat.add_zero] at hfirst
    simp only [Nat.mul_add_mod, Nat.mod_eq_of_lt hlt, Nat.mod_eq_of_lt hlt'] at hrest
    have hsame : c = d := by
      refine Char.toNat_inj.mp ?_
      have := (digit_spec hc).1
      have := (digit_spec hd).1
      omega
    rw [hsame, ih hlength hdigits hother hrest]

theorem eq_changeDirName (hdate : dateLike name = true) (h : reading name = some (n, slug)) :
    name = changeDirName n slug := by
  obtain ⟨⟨digits, rest⟩, hsplit, hread⟩ := Option.bind_eq_some_iff.mp h
  obtain ⟨rfl, hdash⟩ := splitOnce_char.mp hsplit
  dsimp only at hread
  rw [Option.ite_none_left_eq_some, Option.map_eq_some_iff] at hread
  obtain ⟨hgood, m, hvalue, heq⟩ := hread
  cases heq
  simp only [Bool.or_eq_true, not_or, decide_eq_true_eq, Nat.not_lt, Bool.not_eq_true', Bool.not_eq_false,
    all_eq_true] at hgood
  obtain ⟨⟨hlong, hdigits⟩, -⟩ := hgood
  have hfive : (digits ++ '-' :: slug)[4]? = some '-' := by
    simp only [dateLike, Bool.and_eq_true, all_cons, beq_iff_eq] at hdate
    exact hdate.2.1
  have hfour : digits.length = 4 := by
    by_contra hne
    rw [List.getElem?_append_left (by omega)] at hfive
    exact hdash (mem_of_getElem? hfive)
  rw [parseU32_eq, Option.ite_none_right_eq_some, Option.some.injEq] at hvalue
  obtain ⟨-, hvalue⟩ := hvalue
  have hshort : n < 10000 := by
    have hlt := ofDigitChars_lt hdigits
    rw [hvalue, hfour] at hlt
    exact hlt
  have hsame : digits = padded n := by
    refine eq_of_ofDigitChars ?_ hdigits (padded_digits n) ?_
    · rw [hfour, (length_padded n).2.mpr hshort]
    · rw [hvalue, ofDigitChars_padded]
  rw [hsame, changeDirName]

theorem taken_iff (hslug : slug ≠ []) (hroom : greatest names < maxU32) :
    Taken names slug ↔ changeDirName (greatest names + 1) slug ∈ names := by
  constructor
  · rintro ⟨name, hname, hdate, hread⟩
    rw [← eq_changeDirName hdate hread]
    exact hname
  · intro h
    refine ⟨_, h, ?_, reading_changeDirName hroom hslug⟩
    by_contra hdate
    have hread := (parseDirName_changeDirName hroom hslug).mpr fun himitates => hdate (dateLike_changeDirName.mpr himitates)
    exact Nat.not_succ_le_self _ (le_greatest h hread)

theorem proposal_iff (hslug : slug ≠ []) :
    (∃ number, nextNumber names = some number ∧ changeDirName number slug ∉ names) ↔
      greatest names < maxU32 ∧ ¬Taken names slug := by
  rw [nextNumber_eq]
  by_cases hroom : greatest names < maxU32
  · rw [if_pos hroom, and_iff_right hroom, taken_iff hslug hroom]
    simp only [Option.some.injEq, exists_eq_left']
  · rw [if_neg hroom]
    refine iff_of_false ?_ fun h => hroom h.1
    rintro ⟨number, hnone, -⟩
    cases hnone

section

variable {layout : Layout} {q : Path}

def Layout.parent (layout : Layout) (archived : Bool) : Path := if archived then layout.archive else layout.changes

theorem change_eq (layout : Layout) (dir : Line) : layout.change dir = layout.parent false ++ '/' :: dir := by
  simp [Layout.change, Layout.parent, Layout.changes]

theorem target_eq (layout : Layout) (dir date : Line) :
    archiveTarget layout dir date = layout.parent true ++ '/' :: (date ++ '-' :: dir) := by
  simp [archiveTarget, Layout.parent]

theorem trimSlashes_parent (layout : Layout) (archived : Bool) :
    trimSlashes (layout.parent archived) = layout.parent archived := by
  cases archived with
  | false =>
    have hend : layout.parent false = (layout.root ++ "/change".toList) ++ ['s'] := by simp [Layout.parent, Layout.changes]
    rw [hend]
    exact rdropWhile_concat_neg _ _ _ (by decide)
  | true =>
    have hend : layout.parent true = (layout.root ++ "/archiv".toList) ++ ['e'] := by simp [Layout.parent, Layout.archive]
    rw [hend]
    exact rdropWhile_concat_neg _ _ _ (by decide)

theorem trimSlashes_file {path : Path} (hname : name ≠ []) (hslash : '/' ∉ name) :
    trimSlashes (path ++ '/' :: name) = path ++ '/' :: name := by
  refine rdropWhile_eq_self_iff.mpr fun hne hlast => hslash ?_
  rw [beq_iff_eq, getLast_append_of_ne_nil _ (cons_ne_nil _ _), getLast_cons hname] at hlast
  exact hlast ▸ getLast_mem hname

theorem held_path_inj {a b : Bool} {d e x y : Line} (hd : '/' ∉ d) (he : '/' ∉ e)
    (h : layout.parent a ++ '/' :: d ++ '/' :: x = layout.parent b ++ '/' :: e ++ '/' :: y) : a = b ∧ d = e := by
  have hsame : a = b := by
    by_contra hne
    obtain ⟨rfl, rfl⟩ | ⟨rfl, rfl⟩ : a = false ∧ b = true ∨ a = true ∧ b = false := by
      cases a <;> cases b <;> simp at hne ⊢
    all_goals
      simp only [Layout.parent, Layout.changes, Layout.archive, append_assoc, if_true, Bool.false_eq_true, if_false] at h
      have h := append_cancel_left h
      simp at h
  subst hsame
  rw [append_assoc, append_assoc] at h
  have h : d ++ '/' :: x = e ++ '/' :: y := (List.cons.inj (append_cancel_left h)).2
  have hsplit := splitOnce_char.mpr ⟨h, he⟩
  rw [splitOnce_char.mpr ⟨rfl, hd⟩] at hsplit
  cases hsplit
  exact ⟨rfl, rfl⟩

theorem lookup_map {f : Path → Path} (hf : ∀ path, f path = q ↔ path = q) (files : List (Path × List Char)) :
    (files.map fun file => (f file.1, file.2)).lookup q = files.lookup q := by
  induction files with
  | nil => rfl
  | cons file files ih =>
    rw [map_cons, lookup_cons, ih, lookup_cons]
    simp only [eq_comm (a := q), hf]

theorem moved_eq_iff {old new path : Path} (hold : ¬old <+: q) (hnew : ¬new <+: q) :
    Store.moved old new path = q ↔ path = q := by
  unfold Store.moved
  split
  · rename_i hstart
    refine iff_of_false (fun h => hnew (h ▸ prefix_append _ _)) fun h => hold ?_
    rw [← h]
    exact isPrefixOf_iff_prefix.mp hstart
  · rfl

theorem not_prefix_configPath {a : Bool} {d : Line} : ¬layout.parent a ++ '/' :: d ++ ['/'] <+: configPath := by
  have hchanges : ¬"/changes/".toList <:+: configPath := by decide
  have harchive : ¬"/archive/".toList <:+: configPath := by decide
  intro h
  cases a with
  | false => exact hchanges (List.IsInfix.trans ⟨layout.root, d ++ ['/'], by simp [Layout.parent, Layout.changes]⟩ h.isInfix)
  | true => exact harchive (List.IsInfix.trans ⟨layout.root, d ++ ['/'], by simp [Layout.parent, Layout.archive]⟩ h.isInfix)

theorem configPath_ne (h : ".md".toList <:+ q) : configPath ≠ q := by
  rintro rfl
  revert h
  decide

theorem Progress.read_write {ρ : Type} {p : Progress ρ} {path : Path} {contents : List Char} {note : ρ → ρ}
    (h : q ≠ path) : (p.write path contents note).store.read q = p.store.read q := by
  unfold Progress.write Progress.next
  split
  · rfl
  · split
    · rfl
    · rw [Specs.read_write, if_neg h]

theorem read_finished {store : Store} {merges : Merges} (hchange : q ≠ layout.change dir ++ "/change.md".toList) 
    (hspec : ∀ name, q ≠ layout.capabilitySpec name) :
    (finishChangeRecord (writeMerges layout merges store) (layout.change dir) dir date).read q = store.read q := by
  rw [finishChangeRecord, read_write, if_neg hchange, read_writeMerges _ _ _ hspec]

end

section

variable [ConfigReader] {store store' : Store} {archived : Bool} {request : ChangeRequest} {plan : NewChange} {q : Path}
  {layout : Layout}

def held (store : Store) (archived : Bool) : List Line := store.dirs ((Layout.of store).parent archived)

def folderNames (store : Store) : List Line :=
  store.folders (Layout.of store).changes ++ store.folders (Layout.of store).archive

def numberOf (archived : Bool) (dir : Line) : Option Nat :=
  (if archived then parseDirName dir else reading dir).map Prod.fst

def Unshared (store : Store) : Prop :=
  ∀ archived dir archived' dir' n, dir ∈ held store archived → dir' ∈ held store archived' →
    numberOf archived dir = some n → numberOf archived' dir' = some n → archived = archived' ∧ dir = dir'

def Undated (store : Store) : Prop := ∀ dir ∈ held store false, dateLike dir = false

theorem mem_held : dir ∈ held store archived ↔
    '/' ∉ dir ∧ ∃ rest, (store.read ((Layout.of store).parent archived ++ '/' :: dir ++ '/' :: rest)).isSome := by
  rw [held, mem_dirs, trimSlashes_parent]

theorem mem_folderNames : name ∈ folderNames store ↔ ∃ archived, name ∈ held store archived := by
  rw [folderNames, mem_append, mem_folders, mem_folders, Bool.exists_bool]
  rfl

theorem numberOf_parse (h : Undated store) (hdir : dir ∈ held store archived) :
    numberOf archived dir = (parseDirName dir).map Prod.fst := by
  cases archived with
  | false =>
    rw [parseDirName_eq, stripDatePrefix_eq, h dir hdir]
    rfl
  | true => rfl

theorem layout_congr (h : store'.read configPath = store.read configPath) : Layout.of store' = Layout.of store := by
  rw [Layout.of, Layout.of, resolveRoot, resolveRoot, h]

def newFiles : List Line := ["change.md".toList, "spec.md".toList]

theorem read_createChange (h : ∀ file ∈ newFiles, q ≠ (Layout.of store).change plan.dir ++ '/' :: file) :
    (createChange store plan request).store.read q = store.read q := by
  have hchange : q ≠ (Layout.of store).change plan.dir ++ "/change.md".toList := h _ mem_cons_self
  have hspec : q ≠ (Layout.of store).change plan.dir ++ "/spec.md".toList :=
    h _ (mem_cons_of_mem _ mem_cons_self)
  unfold createChange
  dsimp only
  split
  · rfl
  · rw [foldl_cons, foldl_cons, foldl_nil, Progress.read_write hspec, Progress.read_write hchange]

theorem held_createChange (hslash : '/' ∉ plan.dir) (h : dir ∈ held (createChange store plan request).store archived) :
    dir ∈ held store archived ∨ archived = false ∧ dir = plan.dir := by
  have hlayout : Layout.of (createChange store plan request).store = Layout.of store := by
    refine layout_congr (read_createChange fun file hfile => configPath_ne ?_)
    have hmd : ∀ file ∈ newFiles, ".md".toList <:+ '/' :: file := by decide
    exact (hmd file hfile).trans (suffix_append _ _)
  obtain ⟨hdir, rest, hread⟩ := mem_held.mp h
  rw [hlayout] at hread
  by_cases hnew : ∀ file ∈ newFiles, (Layout.of store).parent archived ++ '/' :: dir ++ '/' :: rest ≠
      (Layout.of store).change plan.dir ++ '/' :: file
  · rw [read_createChange hnew] at hread
    exact .inl (mem_held.mpr ⟨hdir, rest, hread⟩)
  · push Not at hnew
    obtain ⟨file, -, hpath⟩ := hnew
    rw [change_eq] at hpath
    exact .inr (held_path_inj hdir hslash hpath)

theorem layout_finished {merges : Merges} : Layout.of (finishChangeRecord (writeMerges (Layout.of store) merges store)
    ((Layout.of store).change dir) dir date) = Layout.of store := by
  refine layout_congr (read_finished (configPath_ne ?_) fun name => configPath_ne ?_)
  · exact List.IsSuffix.trans (by decide) (suffix_append _ "/change.md".toList)
  · exact List.IsSuffix.trans (by decide) (suffix_append _ "/spec.md".toList)

theorem mem_held_finished {merges : Merges} (hslash : '/' ∉ dir) : dir ∈ held (finishChangeRecord
    (writeMerges (Layout.of store) merges store) ((Layout.of store).change dir) dir date) false := by
  refine mem_held.mpr ⟨hslash, "change.md".toList, ?_⟩
  have hpath : (Layout.of store).parent false ++ '/' :: dir ++ '/' :: "change.md".toList =
      (Layout.of store).change dir ++ "/change.md".toList := by
    rw [change_eq]
    rfl
  rw [layout_finished, hpath, finishChangeRecord, read_write, if_pos rfl]
  rfl

theorem held_finished {merges : Merges} {d : Line} (hdir : dir ∈ held store false)
    (h : d ∈ held (finishChangeRecord (writeMerges (Layout.of store) merges store) ((Layout.of store).change dir) dir date)
      archived) : d ∈ held store archived := by
  obtain ⟨hd, rest, hread⟩ := mem_held.mp h
  rw [layout_finished] at hread
  by_cases hchange : (Layout.of store).parent archived ++ '/' :: d ++ '/' :: rest =
      (Layout.of store).change dir ++ "/change.md".toList
  · rw [change_eq] at hchange
    obtain ⟨rfl, rfl⟩ := held_path_inj hd (mem_held.mp hdir).1 hchange
    exact hdir
  · refine mem_held.mpr ⟨hd, rest, ?_⟩
    rw [read_finished hchange] at hread
    · exact hread
    · intro name hname
      cases archived <;> simp [Layout.parent, Layout.changes, Layout.archive, Layout.capabilitySpec] at hname

theorem held_moveDir {d : Line} (hlayout : Layout.of store = layout) (hslash : '/' ∉ dir) (hdate : IsDate date)
    (hmove : store.moveDir (layout.change dir) (archiveTarget layout dir date) = .ok store')
    (h : d ∈ held store' archived) :
    d ∈ held store archived ∧ ¬(archived = false ∧ d = dir) ∨ archived = true ∧ d = date ++ '-' :: dir ∧ dir ≠ [] := by
  subst hlayout
  have htarget : '/' ∉ date ++ '-' :: dir := by simp [hdate.slash, hslash]
  unfold Store.moveDir at hmove
  split at hmove
  · cases hmove
  · cases hmove
  · rename_i hsafe hsafe'
    dsimp only at hmove
    split at hmove
    · cases hmove
    · cases hmove
      have hne : dir ≠ [] := by
        have hparts : Safe ((Layout.of store).parent false ++ '/' :: dir) := by
          rw [← change_eq]
          exact hsafe
        exact ((safe_name hslash).mp (safe_append.mp hparts).2).2.2
      rw [target_eq, change_eq, trimSlashes_file hne hslash, trimSlashes_file (by simp) htarget] at h
      obtain ⟨hd, rest, hread⟩ := mem_held.mp h
      rw [layout_congr (lookup_map (fun path => moved_eq_iff (not_prefix_configPath (a := false))
        (not_prefix_configPath (a := true))) store.files), read_isSome, map_map] at hread
      obtain ⟨file, hfile, hpath⟩ := mem_map.mp hread
      simp only [Function.comp_apply, Store.moved] at hpath
      split at hpath
      · rw [append_assoc] at hpath
        obtain ⟨rfl, rfl⟩ := held_path_inj htarget hd hpath
        exact .inr ⟨rfl, rfl, hne⟩
      · rename_i hstart
        refine .inl ⟨mem_held.mpr ⟨hd, rest, read_isSome.mpr ?_⟩, ?_⟩
        · rw [← hpath]
          exact mem_map_of_mem hfile
        · rintro ⟨rfl, rfl⟩
          refine hstart (List.isPrefixOf_iff_prefix.mpr ?_)
          rw [hpath]
          exact ⟨rest, by simp⟩

theorem newChange_eq (store : Store) (title : Line) : newChange store title =
    if greatest (folderNames store) < maxU32 then
      some ⟨greatest (folderNames store) + 1, slugify title,
        changeDirName (greatest (folderNames store) + 1) (slugify title),
        branchName (changeDirName (greatest (folderNames store) + 1) (slugify title))⟩
    else none := by
  have hplan : planChange store title = (nextNumber (folderNames store)).map fun number => (number, slugify title) := rfl
  rw [newChange, hplan, nextNumber_eq]
  split <;> rfl

structure Orderly (store : Store) : Prop where
  undated : Undated store
  unshared : Unshared store

namespace Orderly

theorem kept (hs : Orderly store) (h : ∀ archived dir, dir ∈ held store' archived → dir ∈ held store archived) :
    Orderly store' where
  undated dir hdir := hs.undated dir (h _ _ hdir)
  unshared _ _ _ _ n hdir hdir' := hs.unshared _ _ _ _ n (h _ _ hdir) (h _ _ hdir')

theorem numberOf_ne (hs : Orderly store) (hdir : dir ∈ held store archived) :
    numberOf archived dir ≠ some (greatest (folderNames store) + 1) := by
  intro h
  rw [numberOf_parse hs.undated hdir, Option.map_eq_some_iff] at h
  obtain ⟨⟨n, slug⟩, hread, hnumber⟩ := h
  have hle := le_greatest (mem_folderNames.mpr ⟨archived, hdir⟩) hread
  dsimp only at hnumber
  omega

theorem create {title : Line} (hs : Orderly store) (hroom : greatest (folderNames store) < maxU32)
    (hreads : ¬Imitates (greatest (folderNames store) + 1) (slugify title))
    (h : ∀ archived dir, dir ∈ held store' archived → dir ∈ held store archived ∨
      archived = false ∧ dir = changeDirName (greatest (folderNames store) + 1) (slugify title)) : Orderly store' where
  undated dir hdir := by
    rcases h _ _ hdir with hold | ⟨-, rfl⟩
    · exact hs.undated dir hold
    · exact Bool.eq_false_iff.mpr fun hdate => hreads (dateLike_changeDirName.mp hdate)
  unshared archived dir archived' dir' n hdir hdir' hn hn' := by
    have hnew : numberOf false (changeDirName (greatest (folderNames store) + 1) (slugify title)) =
        some (greatest (folderNames store) + 1) :=
      congrArg (Option.map Prod.fst) (reading_changeDirName hroom (slug_slugify title).ne_nil)
    rcases h _ _ hdir with hold | ⟨rfl, rfl⟩
    · rcases h _ _ hdir' with hold' | ⟨rfl, rfl⟩
      · exact hs.unshared _ _ _ _ n hold hold' hn hn'
      · rw [hnew] at hn'
        cases hn'
        exact absurd hn (hs.numberOf_ne hold)
    · rcases h _ _ hdir' with hold' | ⟨rfl, rfl⟩
      · rw [hnew] at hn
        cases hn
        exact absurd hn' (hs.numberOf_ne hold')
      · exact ⟨rfl, rfl⟩

theorem move {moved : Line} (hs : Orderly store) (hmoved : moved ∈ held store false) (hdate : IsDate date)
    (h : ∀ archived dir, dir ∈ held store' archived → dir ∈ held store archived ∧ ¬(archived = false ∧ dir = moved) ∨
      archived = true ∧ dir = date ++ '-' :: moved ∧ moved ≠ []) : Orderly store' where
  undated dir hdir := by
    rcases h _ _ hdir with ⟨hold, -⟩ | ⟨hin, -⟩
    · exact hs.undated dir hold
    · cases hin
  unshared archived dir archived' dir' n hdir hdir' hn hn' := by
    -- in the archive the change keeps the number it had
    have hsame : moved ≠ [] → numberOf true (date ++ '-' :: moved) = numberOf false moved := by
      intro hne
      rw [numberOf, if_pos rfl, parseDirName_eq, stripDatePrefix_dated hdate hne]
      rfl
    rcases h _ _ hdir with ⟨hold, hother⟩ | ⟨rfl, rfl, hne⟩
    · rcases h _ _ hdir' with ⟨hold', -⟩ | ⟨rfl, rfl, hne⟩
      · exact hs.unshared _ _ _ _ n hold hold' hn hn'
      · rw [hsame hne] at hn'
        exact absurd (hs.unshared _ _ _ _ n hold hmoved hn hn') hother
    · rcases h _ _ hdir' with ⟨hold', hother⟩ | ⟨rfl, rfl, -⟩
      · rw [hsame hne] at hn
        obtain ⟨harchived, hdirs⟩ := hs.unshared _ _ _ _ n hmoved hold' hn hn'
        exact absurd ⟨harchived.symm, hdirs.symm⟩ hother
      · exact ⟨rfl, rfl⟩

theorem archive (hs : Orderly store) (hdate : IsDate date) (force : Bool) : Orderly (archive store dir date force).1 := by
  unfold Specs.archive
  dsimp only
  cases hchecks : archiveChecks store dir date force with
  | error e => exact hs
  | ok merges =>
    have hdir : dir ∈ held store false := by
      unfold archiveChecks at hchecks
      dsimp only at hchecks
      split at hchecks
      · cases hchecks
      · rename_i hthere
        exact (by simpa using hthere : dir ∈ store.dirs (Layout.of store).changes)
    dsimp only
    have hfinished : Orderly (finishChangeRecord (writeMerges (Layout.of store) merges store)
        ((Layout.of store).change dir) dir date) := hs.kept fun _ _ => held_finished hdir
    split
    · exact hfinished
    · rename_i hmove
      have hthere : dir ∈ held (finishChangeRecord (writeMerges (Layout.of store) merges store)
          ((Layout.of store).change dir) dir date) false := mem_held_finished (mem_held.mp hdir).1
      exact hfinished.move hthere hdate fun _ _ => held_moveDir layout_finished (mem_held.mp hdir).1 hdate hmove

end Orderly

abbrev ChangeStep := Machine.Step Store ChangeCall ChangeEvent

def ChangeCall.Dated : ChangeCall → Prop
  | .create _ => True
  | .archive _ date _ => IsDate date

def ProposesNew (store : Store) (title : Line) : Prop :=
  ∃ plan, newChange store title = some plan ∧ ∀ archived, plan.dir ∉ held store archived

def Readable (step : ChangeStep) : Prop :=
  ∀ request, step.input = .create request → greatest (folderNames step.pre) < maxU32 ∧
    ¬Imitates (greatest (folderNames step.pre) + 1) (slugify request.title)

structure CollisionFree (step : ChangeStep) : Prop where
  proposal : ∀ request, step.input = .create request → ProposesNew step.pre request.title
  unshared : Unshared step.post

theorem readable_create : Readable (changing.stepAt store (.create request)) ↔
    greatest (folderNames store) < maxU32 ∧ ¬Imitates (greatest (folderNames store) + 1) (slugify request.title) := by
  constructor
  · exact fun h => h request rfl
  · rintro h other hother
    cases hother
    exact h

theorem readable_archive {force : Bool} : Readable (changing.stepAt store (.archive dir date force)) := by
  rintro other hother
  cases hother

theorem proposesNew_iff {title : Line} : ProposesNew store title ↔
    greatest (folderNames store) < maxU32 ∧ ¬Taken (folderNames store) (slugify title) := by
  rw [← proposal_iff (slug_slugify title).ne_nil, ProposesNew, newChange_eq, nextNumber_eq]
  split
  · simp only [Option.some.injEq, exists_eq_left', mem_folderNames, not_exists]
  · simp

theorem orderly_step (hs : Orderly store) {call : ChangeCall} (hdated : call.Dated)
    (hreads : Readable (changing.stepAt store call)) :
    Orderly (changing.step store call).1 ∧ CollisionFree (changing.stepAt store call) := by
  cases call with
  | create request =>
    obtain ⟨hroom, himitates⟩ := readable_create.mp hreads
    have hplan := newChange_eq store request.title
    rw [if_pos hroom] at hplan
    have hpost : Orderly (changing.step store (.create request)).1 := by
      simp only [changing, hplan]
      exact hs.create hroom himitates fun archived dir => held_createChange (slash_not_mem_changeDirName _ _)
    refine ⟨hpost, fun other hother => ?_, hpost.unshared⟩
    cases hother
    refine ⟨_, hplan, fun archived hheld => ?_⟩
    refine hs.numberOf_ne hheld ?_
    rw [numberOf_parse hs.undated hheld,
      (parseDirName_changeDirName hroom (slug_slugify request.title).ne_nil).mpr himitates]
    rfl
  | archive dir date force =>
    have hstore : (changing.step store (.archive dir date force)).1 = (archive store dir date force).1 := by
      simp only [changing]
      split <;> rename_i h <;> rw [h]
    have hpost : Orderly (changing.step store (.archive dir date force)).1 := by
      rw [hstore]
      exact hs.archive hdated force
    refine ⟨hpost, fun other hother => ?_, hpost.unshared⟩
    cases hother

theorem run_collision_free (hs : Orderly store) {calls : List ChangeCall} (hdated : ∀ call ∈ calls, call.Dated)
    (hreads : ∀ step ∈ changing.trace store calls, Readable step) :
    ∀ step ∈ changing.trace store calls, CollisionFree step := by
  have hboth : ∀ step ∈ changing.trace store calls, step.input.Dated ∧ Readable step :=
    fun step hstep => ⟨hdated _ (Machine.input_mem hstep), hreads step hstep⟩
  exact @Machine.trace_rule _ _ _ changing Orderly (fun step => step.input.Dated ∧ Readable step) CollisionFree
    (fun _ _ hs h => orderly_step hs h.1 h.2) store hs calls hboth

/-- A name with a date before it reads back, and one without exactly when it does not begin like a date itself; a slug
    is its own slug; what is planned is new exactly when a number is left and no folder that begins like a date has the
    next one. In a run that creates no name that begins like a date, and always has a number left, each planned folder is
    new and no two changes ever share a number. -/
theorem numbering_collision_free :
    (∀ title number date, number ≤ maxU32 → IsDate date →
      parseDirName (date ++ '-' :: changeDirName number (slugify title)) = some (number, slugify title)) ∧
    (∀ title number, number ≤ maxU32 →
      (parseDirName (changeDirName number (slugify title)) = some (number, slugify title) ↔
        ¬Imitates number (slugify title))) ∧
    (∀ text, slugify (slugify text) = slugify text) ∧
    (∀ store title, ProposesNew store title ↔
      greatest (folderNames store) < maxU32 ∧ ¬Taken (folderNames store) (slugify title)) ∧
    (∀ store, Orderly store → ∀ calls, (∀ call ∈ calls, ChangeCall.Dated call) →
      (∀ step ∈ changing.trace store calls, Readable step) → ∀ step ∈ changing.trace store calls, CollisionFree step) := by
  refine ⟨fun title number date hnumber hdate => ?_, fun title number hnumber => ?_, fun text => ?_,
    fun store title => proposesNew_iff, fun store hs calls hdated hreads => run_collision_free hs hdated hreads⟩
  · rw [parseDirName_eq, stripDatePrefix_dated hdate (by simp [changeDirName])]
    exact reading_changeDirName hnumber (slug_slugify title).ne_nil
  · exact parseDirName_changeDirName hnumber (slug_slugify title).ne_nil
  · exact slugify_of_slug (slug_slugify text)

end

namespace Sample

def titled (title : String) : ChangeRequest := ⟨title.toList, [], "2026-10-23".toList, none, none⟩

/-- A folder for the thirtieth of October passes for a dated one, and the next change gets its number. -/
theorem october_shared :
    parseDirName (changeDirName 1 (slugify "10/30 x".toList)) = none ∧
      ¬Unshared (changing.run ⟨[]⟩ [.create (titled "10/30 x"), .create (titled "y")]) := by
  refine ⟨by decide, fun h => ?_⟩
  have hsame := h false "0001-10-30-x".toList false "0001-y".toList 1 (by decide) (by decide)
    (by decide) (by decide)
  exact absurd hsame.2 (by decide)

def finished : Store := ⟨[("specs/changes/0001-a/change.md".toList, "---\nstatus: done\n---\n".toList)]⟩

theorem held_finished_eq : held finished false = ["0001-a".toList] ∧ held finished true = [] :=
  ⟨by decide, by decide⟩

theorem orderly_finished : Orderly finished where
  undated dir hdir := by
    rw [held_finished_eq.1, mem_singleton] at hdir
    rw [hdir]
    decide
  unshared archived dir archived' dir' n hdir hdir' hn hn' := by
    cases archived <;> cases archived' <;> simp_all [held_finished_eq]

def finishing : List ChangeCall := [.archive "0001-a".toList "2026-10-30".toList false, .create (titled "Photo albums!")]

theorem numbering_collision_free_finishing :
    (∀ step ∈ changing.trace finished finishing, CollisionFree step) ∧
      (changing.run finished finishing).folders "specs/changes".toList = ["0002-photo-albums".toList] ∧
      (changing.run finished finishing).folders "specs/archive".toList = ["2026-10-30-0001-a".toList] := by
  obtain ⟨-, -, -, -, hrun⟩ := @numbering_collision_free noConfig
  refine ⟨hrun finished orderly_finished finishing ?_ ?_, by decide, by decide⟩
  · simp only [finishing, forall_mem_cons]
    exact ⟨⟨'2', '0', '2', '6', '1', '0', '3', '0', rfl, by simp⟩, trivial, nofun⟩
  · simp only [finishing, Machine.trace_cons, Machine.trace_nil, forall_mem_cons]
    exact ⟨readable_archive, readable_create.mpr (by decide), nofun⟩

end Sample

end RustyCore.Specs
