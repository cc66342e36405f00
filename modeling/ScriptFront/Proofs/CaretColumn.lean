import ScriptFront.Proofs.Pointing
import ScriptFront.Proofs.Printed

/-!
# ScriptFront.Proofs.CaretColumn

**The column of the caret** (`caret_under_token_iff`). A report draws a dash for each byte between
the indentation and the token, while the row above has a column for each character. The bars of the
rows are in line for every source, and the caret stands under the first character of the token if
and only if every character before it on its line takes one byte; otherwise it stands too far to the
right, by the number of the further bytes.

* `FirstAt` is the column of a sign in a row, counted in characters.
* `Sketch` is the part of a report that shows the place, and `Sketch.Drawn` says how.
-/

namespace ScriptFront

open Text (byteSize isWhiteSpace)

/-! ### Columns -/

/-- A sign stands in a column of a row, and in none before it. -/
def FirstAt (sign : Char) (row : List Char) (column : Nat) : Prop :=
  row[column]? = some sign ∧ sign ∉ row.take column

instance (sign : Char) (row : List Char) (column : Nat) : Decidable (FirstAt sign row column) :=
  inferInstanceAs (Decidable (_ ∧ _))

section

variable {sign : Char} {row before : List Char} {column column' : Nat}

theorem firstAt_append (h : sign ∉ before) (after : List Char) :
    FirstAt sign (before ++ sign :: after) before.length :=
  ⟨by simp, by simpa using h⟩

/-- There is only one such column. -/
theorem FirstAt.unique (h : FirstAt sign row column) (h' : FirstAt sign row column') :
    column = column' := by
  have hle {i j : Nat} (hi : FirstAt sign row i) (hj : FirstAt sign row j) : j ≤ i := by
    refine Nat.le_of_not_lt fun hlt => hj.2 (List.mem_of_getElem? (i := i) ?_)
    rw [List.getElem?_take_of_lt hlt]
    exact hi.1
  exact Nat.le_antisymm (hle h' h) (hle h h')

end

/-- Every character of a text takes one byte if and only if it is as long in bytes as in
characters. -/
theorem byteSize_eq_length_iff {text : List Char} :
    byteSize text = text.length ↔ ∀ c ∈ text, c.utf8Size = 1 := by
  induction text with
  | nil => simp
  | cons c text ih =>
    have hc := c.utf8Size_pos
    have htext := Text.length_le_byteSize text
    rw [List.forall_mem_cons, ← ih, Text.byteSize_cons, List.length_cons]
    omega

/-! ### The first character of a token -/

/-- A text does not begin with white space. -/
def Visible (text : String) : Prop :=
  ∀ c ∈ text.toList.head?, isWhiteSpace c = false

theorem visible_eof : Visible Kind.eof.name := by
  have hhead : Kind.eof.name.toList.head? = some 'E' := by decide
  intro c hc
  rw [hhead] at hc
  obtain rfl := Option.some.inj hc
  decide

theorem Solid.visible {text rest : List Char} (h : Solid (text ++ rest)) :
    Visible (String.ofList text) := by
  intro c hc
  rw [String.toList_ofList] at hc
  obtain ⟨cs, rfl⟩ := List.head?_eq_some_iff.mp hc
  exact Bool.eq_false_iff.mpr fun hblank => (h _ _ (Pattern.classify?_of_blank hblank)).1 rfl

/-- The token in view does not begin with white space, and behind the end there is nothing. -/
structure Lexer.AtVisible (lexer : Lexer) (kind : Kind) : Prop where
  visible : Visible lexer.current.text
  ending : kind = .eof → lexer.cursor.unread = []

/-- What a step of the lexer reads, or refuses, does not begin with white space. -/
theorem Lexer.visible_advance (lexer : Lexer) :
    Lands (fun kind (next : Lexer) => next.AtVisible kind) (fun fault _ => Visible fault.text)
      lexer.advance := by
  have houtcome := lexer.outcome_advance
  generalize lexer.advance = result at houtcome
  cases houtcome with
  | finish htext _ =>
    exact ⟨visible_eof, fun _ => unread_pass (htext.trans (List.append_nil _).symm)⟩
  | @stray gap cs c _ _ hclass =>
    have hsolid : Solid ([c] ++ cs) := fun _ _ hsome => nomatch hclass.symm.trans hsome
    exact hsolid.visible
  | @tooLarge gap digits rest _ _ hclass _ =>
    have hsolid : Solid (digits ++ rest) := fun pattern text hsome => by
      cases hclass.symm.trans hsome
      exact ⟨Pattern.noConfusion, Pattern.noConfusion⟩
    exact hsolid.visible
  | @token gap rest lexeme next _ _ hclass hblank hcomment _ hreads =>
    have hsolid : Solid (lexeme.2 ++ rest) := fun pattern text hsome => by
      cases hclass.symm.trans hsome
      exact ⟨hblank, hcomment⟩
    refine ⟨?_, fun heof => absurd heof hreads.kind_ne⟩
    rw [hreads.current]
    exact hsolid.visible

section

variable {source file : String} {fault : Diagnostic}

theorem invariant_visible :
    Invariant (fun (lexer : Lexer) kind => lexer.AtVisible kind)
      fun fault _ => Visible fault.text where
  advance _ _ := Lexer.visible_advance _
  unexpected h _ := h.visible
  rest h := ⟨_, _, Lexer.advance_of_nil (h.ending rfl)⟩

theorem visible_of_parse (h : parse source file = .error fault) : Visible fault.text :=
  invariant_visible.fault_of_parse (Lexer.visible_advance _) h

theorem visible_of_tokenize (h : tokenize source file = .error fault) : Visible fault.text :=
  invariant_visible.fault_of_tokensWithin _ (Lexer.visible_advance _) h

end

/-! ### Rows -/

section

variable {rest : List Char}

theorem head_ne_blank {c : Char} (hc : isWhiteSpace c = false) (cs : List Char) :
    ∀ d ∈ (c :: cs).head?, d ≠ ' ' := by
  rintro d ⟨⟩ rfl
  cases hc

/-- What is cut from the front of a line stands before a place at which there is no blank. -/
theorem drop_indentation (begin : List Char) (h : ∀ c ∈ rest.head?, c ≠ ' ') :
    (begin ++ rest).drop (indentation (begin ++ rest)) = begin.dropWhile (· == ' ') ++ rest ∧
      indentation (begin ++ rest) + (begin.dropWhile (· == ' ')).length = begin.length := by
  have hrest : rest.takeWhile (· == ' ') = [] := by
    cases rest with
    | nil => rfl
    | cons c rest => simp [h c rfl]
  have hblanks : (begin ++ rest).takeWhile (· == ' ') = begin.takeWhile (· == ' ') := by
    rw [List.takeWhile_append, hrest, List.append_nil]
    split
    · next hall => exact ((List.takeWhile_prefix _).eq_of_length hall).symm
    · rfl
  have hcut := List.takeWhile_append_dropWhile (p := (· == ' ')) (l := begin)
  have hbegin : begin ++ rest =
      begin.takeWhile (· == ' ') ++ (begin.dropWhile (· == ' ') ++ rest) := by
    rw [← List.append_assoc, hcut]
  constructor
  · rw [indentation, hblanks, hbegin]
    exact List.drop_left
  · rw [indentation, hblanks, ← List.length_append, hcut]

/-- A text with something to be seen in it is cut behind that. -/
theorem trimEnd_append {c : Char} (h : isWhiteSpace c = false) (before after : List Char) :
    Text.trimEnd (before ++ c :: after) = before ++ c :: Text.trimEnd after := by
  have hreverse : (before ++ c :: after).reverse = after.reverse ++ c :: before.reverse := by simp
  rw [Text.trimEnd, hreverse, List.dropWhile_append]
  split
  · next hall =>
    rw [List.dropWhile_cons_of_neg (by simp [h]), Text.trimEnd, List.isEmpty_iff.mp hall]
    simp
  · rw [Text.trimEnd]
    simp

end

/-! ### What a report draws -/

/-- Among digits there is no other sign. -/
theorem notMem_toDigits {sign : Char} (h : sign.isDigit = false) (n : Nat) :
    sign ∉ Nat.toDigits 10 n := by
  intro hmem
  rw [isDigit_toDigits n sign hmem] at h
  cases h

/-- The part of a line that stands before a place of a source. -/
structure StandsBefore (source : String) (place : Nat) (begin : List Char) : Prop where
  cut : ∃ lines rest, source.toList = lines ++ begin ++ rest ∧ WholeLines lines ∧
    byteSize (lines ++ begin) = place
  unbroken : '\n' ∉ begin

/-- The part of a report that shows the place: the row above the line, the line and the row below
it. -/
structure Sketch where
  bar : List Char
  line : List Char
  caret : List Char

/-- The last three lines of a text. -/
def Sketch.Closes (sketch : Sketch) (text : String) : Prop :=
  ∃ earlier, splitLines text.toList =
    earlier ++ [sketch.bar ++ ['\n'], sketch.line ++ ['\n'], sketch.caret ++ ['\n']]

/-- What stands before a token in the row of its line: the number of the line and, without the
blanks in front, the characters before the token. -/
def beforeToken (number : Nat) (begin : List Char) : List Char :=
  (Nat.repr number ++ " | ").toList ++ begin.dropWhile (· == ' ')

/-- How a report draws the token of a diagnostic that begins in a column of the line, behind some
characters of the source. -/
structure Sketch.Drawn (sketch : Sketch) (fault : Diagnostic) (begin : List Char) (column : Nat) :
    Prop where
  /-- The bars stand below each other. -/
  bars : ∃ bar, FirstAt '|' sketch.bar bar ∧ FirstAt '|' sketch.line bar ∧
    FirstAt '|' sketch.caret bar
  before : sketch.line.take column = beforeToken fault.location.line.toNat begin
  /-- In its column stands the first character of the token. -/
  token : ∃ c, sketch.line[column]? = some c ∧ fault.text.toList.head? = some c
  /-- The caret stands further to the right by as many columns as the characters before the token
  take further bytes. -/
  caret : FirstAt '^' sketch.caret (column + (byteSize begin - begin.length))

namespace Diagnostic

variable {fault : Diagnostic} {source : String} {begin after : List Char} {c : Char}
  {view : LineView}

/-- The width of the number of a line. -/
def digitCount (view : LineView) : Nat :=
  (Nat.toDigits 10 view.number).length

theorem bar_eq (view : LineView) :
    bar view = List.replicate (digitCount view + 1) ' ' ++ ['|'] := by
  unfold bar padLeft digitCount
  rw [← String.length_toList, Nat.toList_repr]
  rfl

/-- The bar stands behind the number of the line in each of the three rows. -/
theorem bars_firstAt (view : LineView) : FirstAt '|' (bar view) (digitCount view + 1) ∧
    FirstAt '|' (lineRow view) (digitCount view + 1) ∧
      FirstAt '|' (caretRow view) (digitCount view + 1) := by
  have hblanks : '|' ∉ List.replicate (digitCount view + 1) ' ' := by simp
  have hgutter : '|' ∉ Nat.toDigits 10 view.number ++ [' '] := by
    have hdigits : '|' ∉ Nat.toDigits 10 view.number := notMem_toDigits (by decide) view.number
    simp [hdigits]
  refine ⟨?_, ?_, ?_⟩
  · have hbar := firstAt_append hblanks []
    rwa [List.length_replicate, ← bar_eq] at hbar
  · have hline := firstAt_append hgutter
      ([' '] ++ Text.trimEnd (view.text.drop (indentation view.text)))
    rw [List.length_append] at hline
    simpa [lineRow, digitCount] using hline
  · have hcaret := firstAt_append hblanks
      ([' '] ++ List.replicate (view.offset - indentation view.text) '-' ++ ['^'])
    rw [List.length_replicate] at hcaret
    simpa [caretRow_eq, bar_eq] using hcaret

/-- The caret stands behind the bar and as many dashes as there are bytes to be passed. -/
theorem caret_firstAt (view : LineView) : FirstAt '^' (caretRow view)
    (digitCount view + 3 + (view.offset - indentation view.text)) := by
  have hbefore : '^' ∉ bar view ++ [' '] ++
      List.replicate (view.offset - indentation view.text) '-' := by
    simp [bar_eq]
  have hlength : (bar view ++ [' '] ++
      List.replicate (view.offset - indentation view.text) '-').length =
        digitCount view + 3 + (view.offset - indentation view.text) := by
    simp only [bar_eq, List.length_append, List.length_replicate, List.length_singleton]
  rw [caretRow_eq, ← hlength]
  exact firstAt_append hbefore []

theorem length_beforeToken (view : LineView) (begin : List Char) :
    (beforeToken view.number begin).length =
      digitCount view + 3 + (begin.dropWhile (· == ' ')).length := by
  simp only [beforeToken, String.toList_append, Nat.toList_repr, List.length_append, digitCount]
  rfl

/-- The row of a line, cut where something in it is to be seen. -/
theorem lineRow_eq (hc : isWhiteSpace c = false) (hview : view.text = begin ++ c :: after) :
    lineRow view = beforeToken view.number begin ++ c :: Text.trimEnd after := by
  rw [lineRow, hview, (drop_indentation begin (head_ne_blank hc after)).1, trimEnd_append hc,
    beforeToken, List.append_assoc]

/-- A place at which there is something to be seen is drawn. -/
theorem drawn_of_view (hc : isWhiteSpace c = false) (hview : view.text = begin ++ c :: after)
    (hoffset : view.offset = byteSize begin) (hnumber : view.number = fault.location.line.toNat)
    (htext : fault.text.toList.head? = some c) :
    Sketch.Drawn ⟨bar view, lineRow view, caretRow view⟩ fault begin
      (beforeToken view.number begin).length := by
  have hline := lineRow_eq hc hview
  refine ⟨⟨_, bars_firstAt view⟩, ?_, ⟨c, ?_, htext⟩, ?_⟩
  · rw [hline, List.take_left, hnumber]
  · rw [hline, List.getElem?_append_right (Nat.le_refl _), Nat.sub_self]
    rfl
  · have hindentation := (drop_indentation begin (head_ne_blank hc after)).2
    rw [← hview] at hindentation
    have hbytes := Text.length_le_byteSize begin
    -- every blank of the indentation is one byte
    have hcolumn : (beforeToken view.number begin).length + (byteSize begin - begin.length) =
        digitCount view + 3 + (view.offset - indentation view.text) := by
      rw [length_beforeToken, hoffset]
      omega
    rw [hcolumn]
    exact caret_firstAt view

/-! ### What is written of it -/

/-- Only the last character of the first line of a text can end it, and is cut away then. -/
theorem newline_notMem_trimEnd (text : List Char) : '\n' ∉ Text.trimEnd (firstLine text) := by
  have hsub (line : List Char) (h : '\n' ∉ line) : '\n' ∉ Text.trimEnd line := by
    rw [Text.trimEnd, List.mem_reverse]
    exact fun hmem => h (List.mem_reverse.mp ((List.dropWhile_sublist _).mem hmem))
  rcases newline_cases text with hnone | ⟨line, rest, rfl, hline⟩
  · rw [firstLine_of_notMem hnone]
    exact hsub text hnone
  · have hnewline : isWhiteSpace '\n' = true := by decide
    rw [firstLine_of_newline hline, Text.trimEnd, List.reverse_append, List.reverse_singleton,
      List.singleton_append, List.dropWhile_cons_of_pos hnewline]
    exact hsub line hline

/-- What is seen at a place begins the first line behind it. -/
theorem firstLine_of_visible (hc : isWhiteSpace c = false) (after : List Char) :
    firstLine (c :: after) = c :: firstLine after := by
  have hne : c ≠ '\n' := by
    rintro rfl
    exact absurd hc (by decide)
  rw [firstLine, if_neg hne]

theorem newline_notMem_lineRow (hc : isWhiteSpace c = false) (hbegin : '\n' ∉ begin)
    (hview : view.text = begin ++ c :: firstLine after) : '\n' ∉ lineRow view := by
  have hdigits : '\n' ∉ Nat.toDigits 10 view.number := notMem_toDigits (by decide) view.number
  have hblanks : '\n' ∉ begin.dropWhile (· == ' ') :=
    fun hmem => hbegin ((List.dropWhile_sublist _).mem hmem)
  have hbefore : '\n' ∉ beforeToken view.number begin := by
    simp [beforeToken, hdigits, hblanks]
  have hshown : c :: Text.trimEnd (firstLine after) = Text.trimEnd (firstLine (c :: after)) := by
    rw [firstLine_of_visible hc]
    exact (trimEnd_append hc [] _).symm
  rw [lineRow_eq hc hview, hshown, List.mem_append]
  exact not_or.mpr ⟨hbefore, newline_notMem_trimEnd _⟩

/-- Where a line is shown, the three rows are the last lines that are written. -/
theorem closes_of_view (hfound : lineAt? source fault.position.offset = some view)
    (hline : '\n' ∉ lineRow view) :
    Sketch.Closes ⟨bar view, lineRow view, caretRow view⟩ (fault.render source) := by
  have hbar : '\n' ∉ bar view := by simp [bar_eq]
  have hcaret : '\n' ∉ caretRow view := by simp [caretRow_eq, hbar]
  have hrender : (fault.render source).toList =
      (fault.headRow ++ '\n' :: fault.fileRow ++ ['\n']) ++
        (bar view ++ '\n' :: (lineRow view ++ '\n' :: (caretRow view ++ '\n' :: []))) := by
    rw [render, String.toList_ofList, rows_of_lineAt? hfound]
    simp
  refine ⟨splitLines (fault.headRow ++ '\n' :: fault.fileRow ++ ['\n']), ?_⟩
  rw [hrender, splitLines_of_whole (wholeLines_concat _), splitLines_of_newline hbar,
    splitLines_of_newline hline, splitLines_of_newline hcaret, splitLines_nil]

/-- The line of a place at which there is something to be seen. -/
theorem exists_view {lines : List Char} {offset line : UInt32} (hc : isWhiteSpace c = false)
    (hsource : source.toList = lines ++ begin ++ c :: after) (hlines : WholeLines lines)
    (hbegin : '\n' ∉ begin) (hmarks : Marks (lines ++ begin) offset line) :
    ∃ view, lineAt? source offset = some view ∧ view.number = line.toNat ∧
      view.text = begin ++ c :: firstLine after ∧ view.offset = byteSize begin := by
  refine ⟨⟨1 + newlines (lines ++ begin), begin ++ c :: firstLine after, byteSize begin⟩, ?_,
    hmarks.line_eq.symm, rfl, rfl⟩
  rw [lineAt?_append hsource hlines hbegin hmarks.offset_eq, firstLine_of_visible hc]

/-- Wherever a diagnostic is aimed at a token, its report draws it. -/
theorem Aimed.drawn (haimed : fault.Aimed source.toList) (hvisible : Visible fault.text)
    (hplace : fault.position.offset.toNat < source.utf8ByteSize) :
    ∃ begin sketch column, StandsBefore source fault.position.offset.toNat begin ∧
      Sketch.Closes sketch (fault.render source) ∧ Sketch.Drawn sketch fault begin column := by
  obtain ⟨atEnd, haim, -⟩ := haimed
  generalize htext : fault.text = text at haim
  generalize hoffset : fault.position.offset = offset at haim
  generalize hnumber : fault.location.line = line at haim
  cases haim with
  | @lexeme before lexeme after _ _ hsource hlexeme _ hmarks =>
    obtain ⟨c, cs, rfl⟩ := List.exists_cons_of_ne_nil hlexeme
    obtain ⟨lines, begin, rfl, hlines, hbegin⟩ := exists_whole_lines before
    have hhead : fault.text.toList.head? = some c := by
      rw [htext, String.toList_ofList]
      rfl
    have hc : isWhiteSpace c = false := hvisible c hhead
    obtain ⟨view, hfound, hview_number, hview, hview_offset⟩ :=
      exists_view hc hsource hlines hbegin hmarks
    rw [← hoffset] at hfound
    rw [← hnumber] at hview_number
    exact ⟨begin, _, _, ⟨⟨lines, _, hsource, hlines, hmarks.offset_eq.symm⟩, hbegin⟩,
      closes_of_view hfound (newline_notMem_lineRow hc hbegin hview),
      drawn_of_view hc hview hview_offset hview_number hhead⟩
  | ending hmarks =>
    rw [utf8ByteSize_eq, ← hmarks.offset_eq, hoffset] at hplace
    exact absurd hplace (Nat.lt_irrefl _)

end Diagnostic

/-- **The caret stands under the token if and only if what stands before the token on its line takes
one byte for each character.** The token is any but the end, before which alone the source has no
byte left. The bars of the report are in line in any case. -/
theorem caret_under_token_iff {source file : String} (hsize : source.utf8ByteSize < 2 ^ 32 - 1)
    {fault : Diagnostic}
    (h : parse source file = .error fault ∨ tokenize source file = .error fault)
    (hplace : fault.position.offset.toNat < source.utf8ByteSize) :
    ∃ begin sketch column, StandsBefore source fault.position.offset.toNat begin ∧
      Sketch.Closes sketch (fault.render source) ∧ Sketch.Drawn sketch fault begin column ∧
        (FirstAt '^' sketch.caret column ↔ ∀ c ∈ begin, c.utf8Size = 1) := by
  obtain ⟨haimed, hvisible⟩ : fault.Aimed source.toList ∧ Visible fault.text := by
    rcases h with h | h
    · exact ⟨aimed_of_parse hsize h, visible_of_parse h⟩
    · exact ⟨aimed_of_tokenize hsize h, visible_of_tokenize h⟩
  obtain ⟨begin, sketch, column, hbegin, hcloses, hdrawn⟩ := haimed.drawn hvisible hplace
  refine ⟨begin, sketch, column, hbegin, hcloses, hdrawn, ?_⟩
  have hbytes := Text.length_le_byteSize begin
  rw [← byteSize_eq_length_iff]
  constructor
  · intro hcaret
    have hcolumn := hdrawn.caret.unique hcaret
    omega
  · intro hequal
    have hcaret := hdrawn.caret
    rwa [hequal, Nat.sub_self, Nat.add_zero] at hcaret

/-- In a source in which every character takes one byte, the caret stands under the token. -/
theorem caret_under_semicolon : ∃ fault sketch begin column,
    parse "  print(1;" "shell" = .error fault ∧
      Sketch.Closes sketch (fault.render "  print(1;") ∧ Sketch.Drawn sketch fault begin column ∧
        FirstAt '^' sketch.caret column := by
  have h : parse "  print(1;" "shell" =
      .error ⟨.unexpected [.closeParen], ";", ⟨9, "shell"⟩, ⟨1, 0⟩⟩ := by decide +kernel
  obtain ⟨begin, sketch, column, ⟨⟨lines, rest, hsource, -, -⟩, -⟩, hcloses, hdrawn, hiff⟩ :=
    caret_under_token_iff (by decide) (.inl h) (by decide)
  refine ⟨_, sketch, begin, column, h, hcloses, hdrawn, hiff.mpr fun c hc => ?_⟩
  have hall : "  print(1;".toList.all (fun c => c.utf8Size == 1) = true := by decide
  refine beq_iff_eq.mp (List.all_eq_true.mp hall c ?_)
  rw [hsource]
  simp [hc]

/-- A letter of two bytes before the token pushes the caret beyond it. -/
theorem caret_beyond_curly : ∃ fault sketch,
    parse "print(\"é\" \x7d\n" "main.script" = .error fault ∧ fault.text = "\x7d" ∧
      Sketch.Closes sketch (fault.render "print(\"é\" \x7d\n") ∧
        FirstAt '\x7d' sketch.line 14 ∧ FirstAt '^' sketch.caret 15 := by
  refine ⟨⟨.unexpected [.closeParen], "\x7d", ⟨11, "main.script"⟩, ⟨1, 0⟩⟩,
    ⟨"  |".toList, "1 | print(\"é\" \x7d".toList, "  | -----------^".toList⟩,
    by decide +kernel, rfl,
    ⟨["Error: SyntaxError (expected `CloseParen`, found `\x7d`)\n".toList,
      "-> main.script\n".toList], ?_⟩, by decide, by decide⟩
  decide +kernel

end ScriptFront
