import RustyCore.Provider.OpenAiStream

/-! The frames of a Chat Completions stream as the parser finds them in the bytes: with line feeds each is a block of its
    own, with carriage returns it is one block with the next. -/

namespace RustyCore.OpenAi

open ModelBackend Sse List

theorem dropEnd_append {α : Type} {p : α → Bool} {c : α} (a b : List α) (hc : p c = false) :
    ((a ++ c :: b).reverse.dropWhile p).reverse = a ++ c :: (b.reverse.dropWhile p).reverse := by
  rw [reverse_append, reverse_cons, append_assoc, dropWhile_append]
  split
  · rename_i hnil
    rw [isEmpty_iff.mp hnil, singleton_append, dropWhile_cons_of_neg (by simp [hc])]
    simp
  · simp

theorem mem_dropWhile {α : Type} {p : α → Bool} {c : α} {l : List α} (h : c ∈ l) (hc : p c = false) :
    c ∈ l.dropWhile p := by
  induction l with
  | nil => cases h
  | cons x l ih =>
    rcases mem_cons.mp h with rfl | h
    · rw [dropWhile_cons_of_neg (by simp [hc])]
      exact mem_cons_self
    · rw [dropWhile_cons]
      split
      · exact ih h
      · exact mem_cons_of_mem _ h

theorem mem_trimMatches {c : Char} {cs : List Char} (h : c ∈ cs) (hc : Text.isWhitespace c = false) :
    c ∈ Text.trimMatches Text.isWhitespace cs := by
  unfold Text.trimMatches
  rw [mem_reverse]
  refine mem_dropWhile ?_ hc
  rw [mem_reverse]
  exact mem_dropWhile h hc

theorem solid_char {s : String} (h : Text.isBlank s = false) : ∃ c ∈ s.toList, Text.isWhitespace c = false := by
  by_contra hall
  push Not at hall
  have hblank : Text.isBlank (String.ofList s.toList) = true :=
    Text.isBlank_ofList.mpr fun c hc => by simpa using hall c hc
  rw [String.ofList_toList, h] at hblank
  cases hblank

theorem isBlank_of_mem {s : String} {c : Char} (h : c ∈ s.toList) (hc : Text.isWhitespace c = false) :
    Text.isBlank s = false := by
  by_contra hblank
  rw [Bool.not_eq_false, ← String.ofList_toList (s := s), Text.isBlank_ofList] at hblank
  rw [hblank c h] at hc
  cases hc

theorem field_solid {c : Char} (a b : List Char) (hc : Text.isWhitespace c = false) :
    ∃ g, field "data:" ("data: ".toList ++ (a ++ c :: b)) = some g ∧ c ∈ g.toList := by
  have hreturn : (c == '\r') = false := by
    rw [beq_eq_false_iff_ne]
    rintro rfl
    exact absurd hc (by decide)
  have hend : (("data: ".toList ++ (a ++ c :: b)).reverse.dropWhile (· == '\r')).reverse =
      "data:".toList ++ (' ' :: (a ++ c :: (b.reverse.dropWhile (· == '\r')).reverse)) := by
    rw [← append_assoc, @dropEnd_append Char (· == '\r') c _ b hreturn]
    simp
  unfold field Text.stripPrefix
  rw [hend, if_pos (by simp)]
  refine ⟨_, rfl, ?_⟩
  simp only [drop_left, Text.trim, String.toList_ofList]
  exact mem_trimMatches (by simp) hc

theorem field_text {text : String} (hreturn : '\r' ∉ text.toList) (htrim : Text.trim text = text) :
    field "data:" ("data: ".toList ++ text.toList) = some text := by
  have hnone : ∀ c ∈ ("data: ".toList ++ text.toList).reverse, (c == '\r') = false := by
    intro c hc
    rw [mem_reverse, mem_append] at hc
    rw [beq_eq_false_iff_ne]
    rintro rfl
    rcases hc with hc | hc
    · simp at hc
    · exact hreturn hc
  have hend : (("data: ".toList ++ text.toList).reverse.dropWhile (· == '\r')).reverse =
      "data:".toList ++ (' ' :: text.toList) := by
    have hkeep : ∀ l : List Char, (∀ c ∈ l, (c == '\r') = false) → l.dropWhile (· == '\r') = l := by
      intro l hl
      cases l with
      | nil => rfl
      | cons c l => exact dropWhile_cons_of_neg (by simp [hl c mem_cons_self])
    rw [hkeep _ hnone, reverse_reverse]
    simp
  unfold field Text.stripPrefix
  rw [hend, if_pos (by simp)]
  have hspace : Text.isWhitespace ' ' = true := by decide
  simp only [drop_left, Option.map_some, Option.some.injEq, Text.trim, String.toList_ofList, Text.trimMatches,
    dropWhile_cons, hspace, if_true]
  exact htrim

theorem newline_of_mem {cs : List Char} (h : (10 : UInt8) ∈ Utf8.encode cs) : '\n' ∈ cs :=
  Utf8.ascii_mem (by decide) h

/-- The search for a delimiter goes past bytes that are not line feeds. -/
theorem position_skip {a r : List UInt8} (h : (10 : UInt8) ∉ a) :
    Framing.position [10, 10] (a ++ r) = (Framing.position [10, 10] r).map (· + a.length) := by
  induction a with
  | nil => simp
  | cons b a ih =>
    rw [mem_cons, not_or] at h
    rw [cons_append, Framing.position, if_neg, ih h.2, Option.map_map]
    · rfl
    · rw [List.isPrefixOf_iff_prefix, cons_prefix_cons]
      exact fun hb => h.1 hb.1

theorem position_here (r : List UInt8) : Framing.position [10, 10] (10 :: 10 :: r) = some 0 := by
  rw [Framing.position, if_pos (by simp)]

theorem position_return {b : UInt8} {r : List UInt8} (hb : b ≠ 10) :
    Framing.position [10, 10] (13 :: 10 :: 13 :: 10 :: b :: r) = (Framing.position [10, 10] (b :: r)).map (· + 4) := by
  have hstep : ∀ (x : UInt8) (l : List UInt8), ¬ [10, 10] <+: x :: l →
      Framing.position [10, 10] (x :: l) = (Framing.position [10, 10] l).map (· + 1) := by
    intro x l hx
    rw [Framing.position, if_neg (by rwa [List.isPrefixOf_iff_prefix])]
  rw [hstep 13 _ (by simp), hstep 10 _ (by simp), hstep 13 _ (by simp), hstep 10 _ (by simpa using Ne.symm hb)]
  simp [Option.map_map, Function.comp_def]

theorem encode_data : Utf8.encode "data: ".toList = [100, 97, 116, 97, 58, 32] := by decide

theorem notMem_data {text : String} (h : '\n' ∉ text.toList) :
    (10 : UInt8) ∉ Utf8.encode ("data: ".toList ++ text.toList) := by
  intro hmem
  have hmem := newline_of_mem hmem
  rw [mem_append] at hmem
  rcases hmem with hmem | hmem
  · simp at hmem
  · exact h hmem

def dataLine (text : String) : List UInt8 := Utf8.encode ("data: ".toList ++ text.toList)

theorem encode_onWire (text : String) (crlf : Bool) :
    Utf8.encode (onWire text crlf) = dataLine text ++ Utf8.encode (lineEnd crlf ++ lineEnd crlf) := by
  unfold onWire dataLine
  exact Utf8.encode_append

theorem not_blank (text : String) (r : List UInt8) : (dataLine text ++ r).all isAsciiWhitespace = false := by
  unfold dataLine
  rw [Utf8.encode_append, encode_data]
  rfl

theorem dataLines_data {text : String} (hline : '\n' ∉ text.toList ∧ '\r' ∉ text.toList)
    (htrim : Text.trim text = text) : dataLines ("data: ".toList ++ text.toList) = text := by
  have hnewline : '\n' ∉ "data: ".toList ++ text.toList := by
    rw [mem_append]
    rintro (h | h)
    · simp at h
    · exact hline.1 h
  unfold dataLines
  rw [Text.lines_last hnewline (by simp), filterMap_cons, field_text hline.2 htrim]
  rfl

section

variable [StreamExternals]

/-- A frame that ends in line feeds is one block. -/
theorem blocks_onWire {text : String} (h : '\n' ∉ text.toList) (r : List UInt8) :
    framing.blocks (Utf8.encode (onWire text false) ++ r) = dataLine text :: framing.blocks r ∧
      framing.rest (Utf8.encode (onWire text false) ++ r) = framing.rest r := by
  have hends : Utf8.encode (lineEnd false ++ lineEnd false) = [10, 10] := by decide
  have hboundary : framing.boundary (dataLine text ++ (10 :: 10 :: r)) = some ((dataLine text).length, 2) := by
    show (findSseBoundary _).map _ = _
    unfold findSseBoundary dataLine
    rw [position_skip (notMem_data h), position_here]
    simp
  have hwhole : Utf8.encode (onWire text false) ++ r = dataLine text ++ (10 :: 10 :: r) := by
    rw [encode_onWire, hends]
    simp
  have hdrop : (dataLine text ++ (10 :: 10 :: r)).drop ((dataLine text).length + 2) = r := by
    rw [← drop_drop, drop_left]
    rfl
  obtain ⟨hblocks, hrest⟩ := Framing.blocks_some hboundary
  rw [hwhole, hblocks, hrest, hdrop, take_left]
  exact ⟨rfl, rfl⟩

theorem blocks_frames {frames : List Frame} (h : ∀ f ∈ frames, f.crlf = false) (r : List UInt8) :
    framing.blocks (Utf8.encode (frames.flatMap fun f => onWire f.text f.crlf) ++ r) =
        frames.map (fun f => dataLine f.text) ++ framing.blocks r ∧
      framing.rest (Utf8.encode (frames.flatMap fun f => onWire f.text f.crlf) ++ r) = framing.rest r := by
  induction frames with
  | nil => exact ⟨rfl, rfl⟩
  | cons f frames ih =>
    obtain ⟨hf, hframes⟩ := forall_mem_cons.mp h
    obtain ⟨hblocks, hrest⟩ := ih hframes
    rw [flatMap_cons, hf, Utf8.encode_append, append_assoc, (blocks_onWire f.oneLine.1 _).1,
      (blocks_onWire f.oneLine.1 _).2, hblocks, hrest]
    exact ⟨rfl, rfl⟩

/-- What the parser does with the block of a frame is what the frame says. -/
theorem block_frame (f : Frame) (p : Parser) : framing.block p (dataLine f.text) = p.onFrame f.value := by
  have hblank := not_blank f.text []
  rw [append_nil] at hblank
  have hsolid : f.text.isEmpty = false := by
    rw [← Bool.not_eq_true, String.isEmpty_iff]
    intro hempty
    have hsolid := f.solid
    rw [hempty] at hsolid
    exact absurd hsolid (by decide)
  simp only [framing, hblank, Bool.false_eq_true, if_false]
  unfold Parser.parseBlock
  rw [dataLine, Utf8.decode_eq_some.mpr rfl]
  simp only [dataLines_data f.oneLine f.trimmed, hsolid, Bool.false_eq_true, if_false, f.notDone, f.parsed]

theorem block_done (p : Parser) :
    framing.block p (dataLine "[DONE]") = .ok ({ p with sawDone := true }, none) := by
  have hblank := not_blank "[DONE]" []
  rw [append_nil] at hblank
  simp only [framing, hblank, Bool.false_eq_true, if_false]
  unfold Parser.parseBlock
  have hdata : dataLines ("data: ".toList ++ "[DONE]".toList) = "[DONE]" := by decide
  rw [dataLine, Utf8.decode_eq_some.mpr rfl]
  simp only [hdata]
  rfl

end

/-- The first line of a joined block is the text of its first frame. -/
theorem first_line {c : Char} (a b : List Char) (ha : '\n' ∉ a) (hc : Text.isWhitespace c = false) :
    ∃ b' more, Text.lines ("data: ".toList ++ (a ++ c :: b)) = ("data: ".toList ++ (a ++ c :: b')) :: more := by
  have hfeed : c ≠ '\n' := by
    rintro rfl
    exact absurd hc (by decide)
  have hreturn : c ≠ '\r' := by
    rintro rfl
    exact absurd hc (by decide)
  have hline : ∀ l : List Char, '\n' ∉ l → '\n' ∉ "data: ".toList ++ (a ++ c :: l) := by
    intro l hl hmem
    rcases mem_append.mp hmem with hmem | hmem
    · simp at hmem
    · rcases mem_append.mp hmem with hmem | hmem
      · exact ha hmem
      · rcases mem_cons.mp hmem with hmem | hmem
        · exact hfeed hmem.symm
        · exact hl hmem
  by_cases hb : '\n' ∈ b
  · obtain ⟨l, r, rfl, hl⟩ := eq_append_cons_of_mem hb
    have hwhole : "data: ".toList ++ (a ++ c :: (l ++ '\n' :: r)) = "data: ".toList ++ (a ++ c :: l) ++ '\n' :: r := by
      simp
    rw [hwhole, Text.lines_cons (hline l hl)]
    -- a carriage return at the end of the line is not the solid character
    unfold Text.stripReturn
    split
    · rename_i hlast
      rcases eq_nil_or_concat l with rfl | ⟨l', x, rfl⟩
      · rw [← append_assoc, List.getLast?_concat] at hlast
        exact absurd (by simpa using hlast) hreturn
      · refine ⟨l', _, congrArg (· :: _) ?_⟩
        rw [concat_eq_append, ← cons_append, ← append_assoc, ← append_assoc, dropLast_concat,
          append_assoc]
    · exact ⟨l, _, rfl⟩
  · exact ⟨b, [], Text.lines_last (hline b hb) (by simp)⟩

theorem dataLines_joined {t s : String} (b : List Char) (hline : '\n' ∉ t.toList ∧ '\r' ∉ t.toList)
    (htrim : Text.trim t = t) (hs : '\n' ∉ s.toList) (hsolid : Text.isBlank s = false) :
    ∃ rest, dataLines ("data: ".toList ++ t.toList ++ ['\r', '\n', '\r', '\n'] ++ ("data: ".toList ++ s.toList) ++ b) =
      t ++ "\n" ++ rest ∧ Text.isBlank rest = false := by
  obtain ⟨c, hc, hwhite⟩ := solid_char hsolid
  obtain ⟨before, after, hsplit⟩ := append_of_mem hc
  have hbefore : '\n' ∉ before := fun h => hs (by rw [hsplit]; exact mem_append_left _ h)
  obtain ⟨b', more, hlines⟩ := first_line before (after ++ b) hbefore hwhite
  obtain ⟨g, hg, hcg⟩ := field_solid before b' hwhite
  have hfirst : '\n' ∉ "data: ".toList ++ t.toList ++ ['\r'] := by
    rw [mem_append, mem_append]
    rintro ((h | h) | h)
    · simp at h
    · exact hline.1 h
    · simp at h
  have hwhole : "data: ".toList ++ t.toList ++ ['\r', '\n', '\r', '\n'] ++ ("data: ".toList ++ s.toList) ++ b =
      ("data: ".toList ++ t.toList ++ ['\r']) ++ '\n' ::
        (['\r'] ++ '\n' :: ("data: ".toList ++ (before ++ c :: (after ++ b)))) := by
    rw [hsplit]
    simp
  have hstrip : ∀ l : List Char, Text.stripReturn (l ++ ['\r']) = l := by
    intro l
    simp [Text.stripReturn]
  have hempty : field "data:" [] = none := by decide
  refine ⟨Text.join "\n" (g :: more.filterMap (field "data:")), ?_, ?_⟩
  · unfold dataLines
    rw [hwhole, Text.lines_cons hfirst, Text.lines_cons (by simp), hstrip, hlines, filterMap_cons,
      field_text hline.2 htrim]
    have hreturn := hstrip []
    rw [nil_append] at hreturn
    rw [hreturn]
    simp only [filterMap_cons, hempty, hg]
    rfl
  · refine isBlank_of_mem (c := c) ?_ hwhite
    cases more.filterMap (field "data:") with
    | nil => exact hcg
    | cons x rest =>
      rw [Text.toList_join_cons "\n" g (by simp)]
      exact mem_append_left _ hcg

def returns : List UInt8 := [13, 10, 13, 10]

theorem encode_returns : Utf8.encode ['\r', '\n', '\r', '\n'] = returns := by decide

/-- Carriage returns hide the end of a frame: two frames become one block. -/
theorem position_joined {t s : String} (ht : '\n' ∉ t.toList) (hs : '\n' ∉ s.toList) (tail : List UInt8) :
    Framing.position [10, 10] (dataLine t ++ returns ++ dataLine s ++ tail) =
      (Framing.position [10, 10] tail).map (· + (dataLine t ++ returns ++ dataLine s).length) := by
  have hdata : ∃ l, dataLine s = 100 :: l := ⟨_, by unfold dataLine; rw [Utf8.encode_append, encode_data]; rfl⟩
  obtain ⟨l, hl⟩ := hdata
  have hskip : (10 : UInt8) ∉ dataLine s := notMem_data hs
  have hfirst : (10 : UInt8) ∉ dataLine t := notMem_data ht
  have hreturns : dataLine t ++ returns ++ dataLine s ++ tail =
      dataLine t ++ (13 :: 10 :: 13 :: 10 :: 100 :: (l ++ tail)) := by
    rw [hl]
    simp [returns]
  rw [hreturns, position_skip hfirst, position_return (by decide), ← cons_append, ← hl,
    position_skip hskip, Option.map_map, Option.map_map]
  refine congrArg (fun g => Option.map g _) (funext fun n => ?_)
  simp only [Function.comp_apply, length_append, dataLine, returns, length_cons, length_nil]
  omega

end RustyCore.OpenAi
