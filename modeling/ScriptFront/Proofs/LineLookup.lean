import ScriptFront.Proofs.Lines
import ScriptFront.Proofs.Lossless

/-!
# ScriptFront.Proofs.LineLookup

**The line of a byte is looked up exactly** (`lookup_exact`). A place is a number of bytes, and may
lie within a character; what is found for it is told by the bytes of the source. The line begins
behind the last line end before the place, and goes on up to the next line end, that included, or to
the end of the source. Only for a place beyond the end is there none.

* `LineEnds` is where the line of a place ends.
* `LineView.Holds` says which line holds a place of some bytes.
* `LineView.Behind` says which lines have been passed to find it.
-/

namespace ScriptFront

open Text (byteSize)

/-! ### The bytes of a text -/

namespace Text

/-- The UTF-8 form of a text. -/
def bytes (cs : List Char) : List UInt8 :=
  cs.flatMap String.utf8EncodeChar

/-- The byte that ends a line. -/
def newlineByte : UInt8 := 10

variable {c : Char} {cs ds : List Char}

@[simp] theorem bytes_append (cs ds : List Char) : bytes (cs ++ ds) = bytes cs ++ bytes ds :=
  List.flatMap_append

theorem bytes_newline : bytes ['\n'] = [newlineByte] := rfl

@[simp] theorem length_bytes (cs : List Char) : (bytes cs).length = byteSize cs := by
  induction cs with
  | nil => rfl
  | cons c cs ih =>
    rw [byteSize_cons, ← ih, ← String.length_utf8EncodeChar, ← List.length_append]
    rfl

/-- These are the bytes that a string is made of. -/
theorem bytes_toList (text : String) : text.toByteArray.data.toList = bytes text.toList := by
  rw [← String.ofList_toList (s := text), String.toByteArray_ofList, String.toList_ofList,
    List.utf8Encode, List.data_toByteArray]
  rfl

/-- No other character has the byte of a line end in its UTF-8 form. -/
theorem eq_newline_of_mem (h : newlineByte ∈ String.utf8EncodeChar c) : c = '\n' := by
  have hbyte (n : Nat) (hn : newlineByte = UInt8.ofNat n) : n % 256 = 10 := by
    simpa [newlineByte] using (congrArg UInt8.toNat hn).symm
  simp only [String.utf8EncodeChar] at h
  split at h
  · have hcode := hbyte _ (List.mem_singleton.mp h)
    exact Char.toNat_inj.mp (show c.val.toNat = 10 by omega)
  · -- the bytes of a longer form are all from 128 on
    exfalso
    split at h
    · simp only [List.mem_cons, List.not_mem_nil, or_false] at h
      rcases h with h | h <;> have hcode := hbyte _ h <;> omega
    · split at h
      · simp only [List.mem_cons, List.not_mem_nil, or_false] at h
        rcases h with h | h | h <;> have hcode := hbyte _ h <;> omega
      · simp only [List.mem_cons, List.not_mem_nil, or_false] at h
        rcases h with h | h | h | h <;> have hcode := hbyte _ h <;> omega

theorem newlineByte_notMem (h : '\n' ∉ cs) : newlineByte ∉ bytes cs := by
  intro hmem
  obtain ⟨c, hc, hbyte⟩ := List.mem_flatMap.mp hmem
  exact h (eq_newline_of_mem hbyte ▸ hc)

end Text

open Text (bytes newlineByte)

/-! ### The line of a place -/

/-- Where the line of a place ends: behind the next line end from the place on, or with the
content. -/
inductive LineEnds (content : List UInt8) (place : Nat) : Nat → Prop
  | newline {last : Nat} (hle : place ≤ last) (hlast : content[last]? = some newlineByte)
      (hnone : newlineByte ∉ (content.take last).drop place) : LineEnds content place (last + 1)
  | ending (hnone : newlineByte ∉ content.drop place) : LineEnds content place content.length

/-- What is shown of some bytes is the line that holds a place of them. -/
structure LineView.Holds (view : LineView) (content : List UInt8) (place : Nat) : Prop where
  /-- Its number is one more than that of the line ends before the place. -/
  number_eq : view.number = 1 + (content.take place).count newlineByte
  /-- It does not begin behind the place. -/
  offset_le : view.offset ≤ place
  /-- It begins with the content or behind a line end. -/
  begins : place - view.offset = 0 ∨
    (0 < place - view.offset ∧ content[place - view.offset - 1]? = some newlineByte)
  /-- That is the last line end before the place. -/
  unbroken : newlineByte ∉ (content.take place).drop (place - view.offset)
  /-- It goes on up to where the line of the place ends. -/
  text_eq : ∃ stop, LineEnds content place stop ∧
    bytes view.text = (content.take stop).drop (place - view.offset)

/-- What is shown of a text is the line behind those that have been passed. All that have been
passed lie before the place, and where none is left, there is an empty one. -/
structure LineView.Behind (view : LineView) (passed later : List (List Char)) (place : Nat) :
    Prop where
  number_eq : view.number = passed.length + 1
  offset_eq : byteSize passed.flatten + view.offset = place
  text_eq : view.text = later.headD []

/-- What is looked up for a place of a source. -/
inductive Lookup (source : String) (place : Nat) : Option LineView → Prop
  | beyond (hplace : source.utf8ByteSize < place) : Lookup source place none
  | found {view : LineView} {passed later : List (List Char)}
      (hplace : place ≤ source.utf8ByteSize)
      (hholds : view.Holds source.toByteArray.data.toList place)
      (hlines : splitLines source.toList = passed ++ later)
      (hbehind : view.Behind passed later place) : Lookup source place (some view)

/-! ### Lines and their bytes -/

section

variable {line later passed : List Char} {offset : Nat}

/-- The first line of a text is the first of its lines, if it has any. -/
theorem FirstLine.headD_splitLines (h : FirstLine line later) :
    (splitLines (line ++ later)).headD [] = line := by
  by_cases hne : line = []
  · cases h with
    | newline => exact absurd hne (List.append_ne_nil_of_right_ne_nil _ (List.cons_ne_nil _ _))
    | ending =>
      rw [hne]
      rfl
  · rw [h.splitLines_eq hne]
    rfl

/-- **A place of a text lies in one of its lines**, behind whole ones. By induction on the length of
the text. -/
theorem exists_line (text : List Char) : ∀ place, place ≤ byteSize text →
    ∃ passed line later offset, text = passed ++ (line ++ later) ∧ WholeLines passed ∧
      FirstLine line later ∧ place = byteSize passed + offset ∧ offset ≤ byteSize line ∧
      (line.getLast? = some '\n' → offset < byteSize line) := by
  induction hlength : text.length using Nat.strongRecOn generalizing text with
  | ind n ih =>
    intro place hplace
    rcases newline_cases text with hnone | ⟨line, rest, rfl, hline⟩
    · refine ⟨[], text, [], place, by simp, .nil, .ending hnone, by simp, hplace, fun hlast => ?_⟩
      exact absurd (List.mem_of_getLast? hlast) hnone
    · have htext : line ++ '\n' :: rest = (line ++ ['\n']) ++ rest := by simp
      by_cases hfirst : place < byteSize (line ++ ['\n'])
      · exact ⟨[], line ++ ['\n'], rest, place, htext, .nil, .newline hline, by simp,
          Nat.le_of_lt hfirst, fun _ => hfirst⟩
      · rw [htext, Text.byteSize_append] at hplace
        have hshorter : rest.length < n := by
          rw [← hlength, List.length_append, List.length_cons]
          omega
        obtain ⟨passed, found, later, offset, rfl, hpassed, hfound, hoffset, hle, hend⟩ :=
          ih rest.length hshorter rest rfl (place - byteSize (line ++ ['\n'])) (by omega)
        refine ⟨line ++ '\n' :: passed, found, later, offset, by simp, .cons hline hpassed, hfound,
          ?_, hle, hend⟩
        rw [show line ++ '\n' :: passed = (line ++ ['\n']) ++ passed by simp, Text.byteSize_append]
        omega

theorem length_splitLines_of_whole (h : WholeLines passed) :
    (splitLines passed).length = newlines passed := by
  induction h with
  | nil => rfl
  | @cons line lines hline _ ih =>
    rw [splitLines_of_newline hline, List.length_cons, ih]
    simp [newlines, List.count_eq_zero_of_not_mem hline]

/-! ### What is found, told by bytes -/

theorem count_newlineByte (h : WholeLines passed) :
    (bytes passed).count newlineByte = newlines passed := by
  induction h with
  | nil => rfl
  | @cons line lines hline _ ih =>
    have hnone : newlines line = 0 := List.count_eq_zero.mpr hline
    rw [show line ++ '\n' :: lines = line ++ (['\n'] ++ lines) by simp, Text.bytes_append,
      Text.bytes_append, Text.bytes_newline, List.count_append, List.count_append, ih,
      List.count_eq_zero.mpr (Text.newlineByte_notMem hline), newlines_append, newlines_append,
      hnone]
    rfl

/-- Whole lines end with a line end. -/
theorem WholeLines.getLast?_bytes (h : WholeLines passed) :
    passed = [] ∨ (bytes passed).getLast? = some newlineByte := by
  induction h with
  | nil => exact .inl rfl
  | @cons line lines hline hlines ih =>
    refine .inr ?_
    rw [show line ++ '\n' :: lines = (line ++ ['\n']) ++ lines by simp, Text.bytes_append]
    rcases ih with rfl | hlast
    · rw [Text.bytes_append, Text.bytes_newline]
      simp [bytes]
    · rw [List.getLast?_append, hlast]
      rfl

/-- Before a place in a line there is no line end in it. -/
theorem FirstLine.newlineByte_notMem_take (h : FirstLine line later)
    (hend : line.getLast? = some '\n' → offset < byteSize line) :
    newlineByte ∉ (bytes line).take offset := by
  cases h with
  | @newline line _ hline =>
    have hless := hend List.getLast?_concat
    have hsize : byteSize (line ++ ['\n']) = byteSize line + 1 := Text.byteSize_append _ _
    rw [Text.bytes_append, List.take_append_of_le_length (by rw [Text.length_bytes]; omega)]
    exact fun hmem => Text.newlineByte_notMem hline (List.mem_of_mem_take hmem)
  | ending hline => exact fun hmem => Text.newlineByte_notMem hline (List.mem_of_mem_take hmem)

/-- A line ends where the line of a place in it does. -/
theorem FirstLine.lineEnds (h : FirstLine line later)
    (hend : line.getLast? = some '\n' → offset < byteSize line) (before : List UInt8) :
    LineEnds (before ++ (bytes line ++ bytes later)) (before.length + offset)
      (before.length + byteSize line) := by
  have hdrop (content : List UInt8) :
      (before ++ content).drop (before.length + offset) = content.drop offset :=
    List.drop_length_add_append offset
  cases h with
  | @newline line _ hline =>
    have hless := hend List.getLast?_concat
    have hsize : byteSize (line ++ ['\n']) = byteSize line + 1 := Text.byteSize_append _ _
    have hcontent : before ++ (bytes (line ++ ['\n']) ++ bytes later) =
        (before ++ bytes line) ++ (newlineByte :: bytes later) := by
      simp [Text.bytes_newline]
    have hlength : (before ++ bytes line).length = before.length + byteSize line := by simp
    rw [hsize, ← Nat.add_assoc, hcontent]
    refine .newline (by omega) ?_ ?_
    · rw [← hlength, List.getElem?_append_right (Nat.le_refl _), Nat.sub_self]
      rfl
    · rw [← hlength, List.take_left, hdrop]
      exact fun hmem => Text.newlineByte_notMem hline (List.mem_of_mem_drop hmem)
  | ending hline =>
    have hlength : before.length + byteSize line = (before ++ (bytes line ++ bytes [])).length := by
      simp
    rw [hlength]
    refine .ending ?_
    rw [hdrop, show bytes [] = [] from rfl, List.append_nil]
    exact fun hmem => Text.newlineByte_notMem hline (List.mem_of_mem_drop hmem)

/-- What is found behind whole lines holds the place, as the bytes tell it. -/
theorem FirstLine.holds (h : FirstLine line later) (hpassed : WholeLines passed)
    (hoffset : offset ≤ byteSize line)
    (hend : line.getLast? = some '\n' → offset < byteSize line) :
    LineView.Holds ⟨1 + newlines passed, line, offset⟩ (bytes (passed ++ (line ++ later)))
      (byteSize passed + offset) := by
  have hplace : byteSize passed + offset - offset = byteSize passed := Nat.add_sub_cancel _ _
  have hcontent : bytes (passed ++ (line ++ later)) =
      bytes passed ++ (bytes line ++ bytes later) := by
    rw [Text.bytes_append, Text.bytes_append]
  have htake : (bytes passed ++ (bytes line ++ bytes later)).take (byteSize passed + offset) =
      bytes passed ++ (bytes line).take offset := by
    rw [← Text.length_bytes passed, List.take_length_add_append,
      List.take_append_of_le_length (by rwa [Text.length_bytes])]
  have hnone := h.newlineByte_notMem_take hend
  rw [hcontent]
  refine ⟨?_, Nat.le_add_left _ _, ?_, ?_, ?_⟩
  · rw [htake, List.count_append, List.count_eq_zero.mpr hnone, count_newlineByte hpassed,
      Nat.add_zero]
  · rw [hplace]
    rcases hpassed.getLast?_bytes with rfl | hlast
    · exact .inl rfl
    · have hpos : 0 < byteSize passed := by
        rw [← Text.length_bytes]
        exact List.length_pos_of_mem (List.mem_of_getLast? hlast)
      refine .inr ⟨hpos, ?_⟩
      rw [List.getElem?_append_left (by rw [Text.length_bytes]; omega), ← Text.length_bytes,
        ← List.getLast?_eq_getElem?, hlast]
  · rw [htake, hplace, ← Text.length_bytes, List.drop_left]
    exact hnone
  · refine ⟨byteSize passed + byteSize line, ?_, ?_⟩
    · rw [← Text.length_bytes passed]
      exact h.lineEnds hend (bytes passed)
    · rw [hplace, ← Text.length_bytes, ← Text.length_bytes, List.take_length_add_append,
        List.drop_left, List.take_left]

/-- What is found behind whole lines comes behind these. -/
theorem FirstLine.behind (h : FirstLine line later) (hpassed : WholeLines passed) :
    LineView.Behind ⟨1 + newlines passed, line, offset⟩ (splitLines passed)
      (splitLines (line ++ later)) (byteSize passed + offset) where
  number_eq := by rw [length_splitLines_of_whole hpassed, Nat.add_comm]
  offset_eq := by rw [flatten_splitLines]
  text_eq := h.headD_splitLines.symm

end

/-- **The line of a byte is looked up exactly**, for every source and every place, be it the end of
the source or within a character. -/
theorem lookup_exact (source : String) (place : UInt32) :
    Lookup source place.toNat (lineAt? source place) := by
  have hsize : source.utf8ByteSize = byteSize source.toList := utf8ByteSize_eq source
  by_cases hplace : place.toNat ≤ source.utf8ByteSize
  · obtain ⟨passed, line, later, offset, hsource, hpassed, hline, hoffset, hle, hend⟩ :=
      exists_line source.toList place.toNat (hsize ▸ hplace)
    have hfound : lineAt? source place = some ⟨1 + newlines passed, line, offset⟩ :=
      lineAt?_of_firstLine hsource hpassed hline hoffset hle hend
    have hlines : splitLines source.toList = splitLines passed ++ splitLines (line ++ later) := by
      rw [hsource, splitLines_of_whole hpassed]
    rw [hfound]
    refine .found hplace ?_ hlines ?_
    · rw [Text.bytes_toList, hsource, hoffset]
      exact hline.holds hpassed hle hend
    · rw [hoffset]
      exact hline.behind hpassed
  · have hbeyond := Nat.lt_of_not_le hplace
    rw [lineAt?, if_pos hbeyond]
    exact .beyond hbeyond

/-- A place within a character is found in the line of that character. -/
example : lineAt? "a\né;" 3 = some ⟨2, ['é', ';'], 1⟩ := by decide +kernel

end ScriptFront
