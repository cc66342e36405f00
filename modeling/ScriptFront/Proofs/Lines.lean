import ScriptFront.Diagnostic.Render
import ScriptFront.Proofs.Lossless
import ScriptFront.Proofs.Stepping

/-!
# ScriptFront.Proofs.Lines

**The line that holds a place of a text.** What stands before the place is cut into whole lines and
the beginning of another (`exists_whole_lines`); the number of the line is that of the line ends
before it, and behind that beginning it goes on with what stands behind the place, up to the next
line end (`lineAt?_append`).

A place is searched for in one line after the other, and apart from that at the very end. Both ways
lead to the first line behind the whole ones before the place (`lineAt?_of_firstLine`).
-/

namespace ScriptFront

open Text (byteSize)

variable {line before text after later lines rest begin : List Char} {number offset : Nat}

/-- A text up to its first line end, that included. -/
def firstLine : List Char → List Char
  | [] => []
  | c :: cs => if c = '\n' then [c] else c :: firstLine cs

theorem firstLine_of_notMem (h : '\n' ∉ line) : firstLine line = line := by
  induction line with
  | nil => rfl
  | cons c line ih =>
    obtain ⟨hc, hline⟩ := not_or.mp (mt List.mem_cons.mpr h)
    rw [firstLine, if_neg (Ne.symm hc), ih hline]

theorem firstLine_of_newline (h : '\n' ∉ line) :
    firstLine (line ++ '\n' :: rest) = line ++ ['\n'] := by
  induction line with
  | nil => rfl
  | cons c line ih =>
    obtain ⟨hc, hline⟩ := not_or.mp (mt List.mem_cons.mpr h)
    rw [List.cons_append, firstLine, if_neg (Ne.symm hc), ih hline, List.cons_append]

@[simp] theorem head?_firstLine (text : List Char) : (firstLine text).head? = text.head? := by
  cases text with
  | nil => rfl
  | cons c text =>
    rw [firstLine]
    split <;> rfl

/-- The first line of a text goes on with what stands behind the text, if it has not ended. -/
theorem firstLine_prefix (text after : List Char) :
    firstLine text <+: firstLine (text ++ after) := by
  induction text with
  | nil => exact List.nil_prefix
  | cons c text ih =>
    rw [List.cons_append, firstLine, firstLine]
    split
    · exact List.prefix_rfl
    · exact List.cons_prefix_cons.mpr ⟨rfl, ih⟩

/-- A text ends its first line, or it has no line end at all. -/
theorem newline_cases (text : List Char) :
    '\n' ∉ text ∨ ∃ line rest, text = line ++ '\n' :: rest ∧ '\n' ∉ line := by
  by_cases h : '\n' ∈ text
  · obtain ⟨line, rest, htext, hline⟩ := List.eq_append_cons_of_mem h
    exact .inr ⟨line, rest, htext, hline⟩
  · exact .inl h

/-! ### Whole lines -/

/-- Some lines, each with its line end. -/
inductive WholeLines : List Char → Prop
  | nil : WholeLines []
  | cons {line lines : List Char} (hline : '\n' ∉ line) (hlines : WholeLines lines) :
      WholeLines (line ++ '\n' :: lines)

/-- Every text consists of whole lines and the beginning of another. By induction on the text. -/
theorem exists_whole_lines (text : List Char) :
    ∃ lines begin, text = lines ++ begin ∧ WholeLines lines ∧ '\n' ∉ begin := by
  induction text with
  | nil => exact ⟨[], [], rfl, .nil, List.not_mem_nil⟩
  | cons c text ih =>
    obtain ⟨lines, begin, rfl, hlines, hbegin⟩ := ih
    by_cases hc : '\n' = c
    · subst hc
      exact ⟨'\n' :: lines, begin, rfl, .cons List.not_mem_nil hlines, hbegin⟩
    · cases hlines with
      | nil => exact ⟨[], c :: begin, rfl, .nil, List.not_mem_cons_of_ne_of_not_mem hc hbegin⟩
      | @cons line lines hline hlines =>
        refine ⟨c :: line ++ '\n' :: lines, begin, rfl, .cons ?_ hlines, hbegin⟩
        exact List.not_mem_cons_of_ne_of_not_mem hc hline

theorem WholeLines.append (h : WholeLines before) (hafter : WholeLines after) :
    WholeLines (before ++ after) := by
  induction h with
  | nil => exact hafter
  | cons hline _ ih =>
    rw [List.append_assoc, List.cons_append]
    exact .cons hline ih

/-- A text that ends with a line end consists of whole lines. -/
theorem wholeLines_concat (text : List Char) : WholeLines (text ++ ['\n']) := by
  obtain ⟨lines, begin, rfl, hlines, hbegin⟩ := exists_whole_lines text
  rw [List.append_assoc]
  exact hlines.append (.cons hbegin .nil)

theorem splitLines_of_newline (h : '\n' ∉ line) :
    splitLines (line ++ '\n' :: rest) = (line ++ ['\n']) :: splitLines rest := by
  induction line with
  | nil => rfl
  | cons c line ih =>
    obtain ⟨hc, hline⟩ := not_or.mp (mt List.mem_cons.mpr h)
    rw [List.cons_append, splitLines_cons, ih hline, consChar, if_neg (Ne.symm hc),
      List.cons_append]

theorem splitLines_of_notMem (h : '\n' ∉ line) (hne : line ≠ []) : splitLines line = [line] := by
  induction line with
  | nil => exact absurd rfl hne
  | cons c line ih =>
    obtain ⟨hc, hline⟩ := not_or.mp (mt List.mem_cons.mpr h)
    cases line with
    | nil => simp [consChar]
    | cons d line =>
      rw [splitLines_cons, ih hline (List.cons_ne_nil d line), consChar, if_neg (Ne.symm hc)]

/-- Whole lines are cut apart from what stands behind them. -/
theorem splitLines_of_whole (h : WholeLines before) (rest : List Char) :
    splitLines (before ++ rest) = splitLines before ++ splitLines rest := by
  induction h with
  | nil => rfl
  | cons hline _ ih =>
    rw [List.append_assoc, List.cons_append, splitLines_of_newline hline, ih,
      splitLines_of_newline hline, List.cons_append]

/-! ### First lines -/

/-- A line with its line end, or the last one without, and what stands behind it. -/
inductive FirstLine : List Char → List Char → Prop
  | newline {line later : List Char} (hline : '\n' ∉ line) :
      FirstLine (line ++ ['\n']) later
  | ending {line : List Char} (hline : '\n' ∉ line) : FirstLine line []

/-- The first line of a text is cut apart from what stands behind it. -/
theorem FirstLine.splitLines_eq (h : FirstLine line later) (hne : line ≠ []) :
    splitLines (line ++ later) = line :: splitLines later := by
  cases h with
  | newline hline => rw [List.append_assoc, List.singleton_append, splitLines_of_newline hline]
  | ending hline => rw [List.append_nil, splitLines_of_notMem hline hne, splitLines_nil]

/-- The beginning of a line goes on up to the next line end. -/
theorem exists_firstLine (hbegin : '\n' ∉ begin) (rest : List Char) :
    ∃ later, rest = firstLine rest ++ later ∧ FirstLine (begin ++ firstLine rest) later := by
  rcases newline_cases rest with hrest | ⟨line, rest, rfl, hline⟩
  · rw [firstLine_of_notMem hrest]
    exact ⟨[], (List.append_nil rest).symm, .ending (by simp [hbegin, hrest])⟩
  · rw [firstLine_of_newline hline, ← List.append_assoc]
    exact ⟨rest, by simp, .newline (by simp [hbegin, hline])⟩

/-! ### Finding a line -/

variable {place start : Nat}

/-- A place behind whole lines is searched for behind these. By induction on the lines. -/
theorem searchLines_of_whole (h : WholeLines before) :
    ∀ start number, start + byteSize before ≤ place →
      searchLines place start number (splitLines (before ++ rest)) =
        searchLines place (start + byteSize before) (number + newlines before)
          (splitLines rest) := by
  induction h with
  | nil =>
    intro start number _
    simp [newlines]
  | @cons line lines hline _ ih =>
    intro start number hplace
    have hsize : start + byteSize (line ++ '\n' :: lines) =
        start + byteSize (line ++ ['\n']) + byteSize lines := by
      simp only [Text.byteSize_append, Text.byteSize_cons, Text.byteSize_nil]
      omega
    have hcount : number + newlines (line ++ '\n' :: lines) = number + 1 + newlines lines := by
      simp [newlines, List.count_eq_zero_of_not_mem hline]
      omega
    rw [hsize] at hplace ⊢
    have hlater : ¬ (start ≤ place ∧ place < start + byteSize (line ++ ['\n'])) := by omega
    rw [List.append_assoc, List.cons_append, splitLines_of_newline hline, searchLines,
      if_neg hlater, ih _ _ hplace, hcount]

/-- A place in a line is found in it, wherever among its bytes it lies. -/
theorem FirstLine.searchLines_eq (h : FirstLine line later) (hoffset : offset < byteSize line) :
    searchLines (start + offset) start number (splitLines (line ++ later)) =
      .inl ⟨number, line, offset⟩ := by
  have hne : line ≠ [] := by
    rintro rfl
    exact absurd hoffset (Nat.not_lt_zero _)
  rw [h.splitLines_eq hne, searchLines, if_pos ⟨by omega, by omega⟩, Nat.add_sub_cancel_left]

/-- The last of some whole lines has its line end. By induction on the lines. -/
theorem WholeLines.getLast?_eq (h : WholeLines before) :
    ∀ last ∈ (splitLines before).getLast?, last.getLast? = some '\n' := by
  induction h with
  | nil => exact nofun
  | @cons line lines hline _ ih =>
    intro last hlast
    rw [splitLines_of_newline hline, List.getLast?_cons] at hlast
    cases hlater : (splitLines lines).getLast? with
    | none =>
      rw [hlater] at hlast
      obtain rfl : line ++ ['\n'] = last := Option.some.inj hlast
      exact List.getLast?_concat
    | some later =>
      rw [hlater] at hlast
      obtain rfl : later = last := Option.some.inj hlast
      exact ih later hlater

/-- A place behind a line that has no line end is behind all lines, and at the end it is found in
that line after all. The number has gone on by one behind it, unless the line is empty. -/
theorem lineAtEnd_of_search (h : '\n' ∉ line) (hbefore : WholeLines before) :
    ∃ behind,
      searchLines (start + byteSize line) start number (splitLines line) = .inr behind ∧
        lineAtEnd (splitLines (before ++ line)) behind = ⟨number, line, byteSize line⟩ := by
  by_cases hne : line = []
  · subst hne
    refine ⟨number, rfl, ?_⟩
    -- all lines have their line ends, so the place is in an empty line behind them
    rw [List.append_nil, lineAtEnd]
    cases hlast : (splitLines before).getLast? with
    | none => rfl
    | some last => exact if_pos (hbefore.getLast?_eq last hlast)
  · have hlast : line.getLast? ≠ some '\n' := fun hlast => h (List.mem_of_getLast? hlast)
    refine ⟨number + 1, ?_, ?_⟩
    · rw [splitLines_of_notMem h hne, searchLines, if_neg (by omega), searchLines]
    · rw [lineAtEnd, splitLines_of_whole hbefore, splitLines_of_notMem h hne,
        List.getLast?_concat]
      exact if_neg hlast

section

variable {source : String} {offset : Nat} {place : UInt32}

/-- **A place is looked up in the first line behind whole ones**, wherever among the bytes of that
line it lies. Behind a line end there is the next line already. -/
theorem lineAt?_of_firstLine (hsource : source.toList = before ++ (line ++ later))
    (hbefore : WholeLines before) (hline : FirstLine line later)
    (hplace : place.toNat = byteSize before + offset) (hoffset : offset ≤ byteSize line)
    (hend : line.getLast? = some '\n' → offset < byteSize line) :
    lineAt? source place = some ⟨1 + newlines before, line, offset⟩ := by
  have hinside : ¬ source.utf8ByteSize < place.toNat := by
    rw [utf8ByteSize_eq, hsource, Text.byteSize_append, Text.byteSize_append]
    omega
  unfold lineAt?
  rw [if_neg hinside, hsource, hplace, searchLines_of_whole hbefore 0 1 (by omega), Nat.zero_add]
  by_cases hless : offset < byteSize line
  · rw [hline.searchLines_eq hless]
  · obtain rfl : offset = byteSize line := by omega
    cases hline with
    | newline => exact absurd (hend List.getLast?_concat) hless
    | ending hnone =>
      obtain ⟨behind, hsearch, hfound⟩ := lineAtEnd_of_search hnone hbefore
      rw [List.append_nil, hsearch]
      exact congrArg some hfound

/-- **The line that holds a place**: its number, and what of it stands on the two sides. -/
theorem lineAt?_append (hsource : source.toList = lines ++ begin ++ rest)
    (hlines : WholeLines lines) (hbegin : '\n' ∉ begin)
    (hplace : place.toNat = byteSize (lines ++ begin)) :
    lineAt? source place =
      some ⟨1 + newlines (lines ++ begin), begin ++ firstLine rest, byteSize begin⟩ := by
  have hcount : newlines (lines ++ begin) = newlines lines := by
    rw [newlines_append]
    exact congrArg (newlines lines + ·) (List.count_eq_zero_of_not_mem hbegin)
  obtain ⟨later, hrest, hline⟩ := exists_firstLine hbegin rest
  rw [Text.byteSize_append] at hplace
  rw [hcount]
  refine lineAt?_of_firstLine ?_ hlines hline hplace ?_ fun hlast => ?_
  · rw [hsource, List.append_assoc, List.append_assoc, ← hrest]
  · rw [Text.byteSize_append]
    exact Nat.le_add_right _ _
  · -- it is not before the place that the line ends, so there is something of it behind
    have hne : firstLine rest ≠ [] := fun hnil => by
      rw [hnil, List.append_nil] at hlast
      exact hbegin (List.mem_of_getLast? hlast)
    have hpos := Text.byteSize_pos hne
    rw [Text.byteSize_append]
    omega

end

/-- No more blanks are cut from a line than stand before a place at which there is none. -/
theorem indentation_le (h : ∀ c ∈ rest.head?, c ≠ ' ') :
    indentation (begin ++ rest) ≤ byteSize begin := by
  have hlength : indentation (begin ++ rest) ≤ begin.length := by
    unfold indentation
    rw [List.takeWhile_append]
    split
    · cases rest with
      | nil => simp
      | cons c rest =>
        have hc : c ≠ ' ' := h c rfl
        simp [hc]
    · exact (List.takeWhile_prefix _).length_le
  exact Nat.le_trans hlength (Text.length_le_byteSize begin)

end ScriptFront
