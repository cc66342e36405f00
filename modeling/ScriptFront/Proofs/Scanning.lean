import ScriptFront.Token.Listing

/-!
# ScriptFront.Proofs.Scanning

**What reading a token takes from the text.** Every step of the lexer cuts what is left of the text
into a gap, a lexeme and a rest (`Scanned`). The gap is made of white space and comments, the
lexeme is not empty, and the positions given are where the two meet.
-/

namespace ScriptFront

open Text (byteSize isWhiteSpace)

/-- White space and comments, where `after` comes behind them. A comment runs up to a line end or
to the end of the text. -/
inductive Trivia (after : List Char) : List Char → Prop
  | nil : Trivia after []
  | blank {c : Char} {cs : List Char} (hc : isWhiteSpace c = true) (hrest : Trivia after cs) :
      Trivia after (c :: cs)
  | comment {body cs : List Char} (hbody : '\n' ∉ body)
      (hend : ∀ c ∈ (cs ++ after).head?, c = '\n') (hrest : Trivia after cs) :
      Trivia after ('/' :: '/' :: body ++ cs)

theorem Trivia.blanks {after blanks cs : List Char} (hblanks : ∀ c ∈ blanks, isWhiteSpace c = true)
    (h : Trivia after cs) : Trivia after (blanks ++ cs) := by
  induction blanks with
  | nil => exact h
  | cons c blanks ih =>
    exact .blank (hblanks c List.mem_cons_self)
      (ih fun d hd => hblanks d (List.mem_cons_of_mem _ hd))

/-- What a pattern of blanks or comments takes can be put before a gap. -/
theorem Trivia.of_blank {text lexeme after cs : List Char}
    (h : Pattern.blank.lexeme? text = some lexeme) (hgap : Trivia after cs) :
    Trivia after (lexeme ++ cs) := by
  obtain ⟨rfl, -⟩ := run?_eq_some.mp h
  exact hgap.blanks fun c hc => List.all_eq_true.mp List.all_takeWhile c hc

theorem eq_of_comment {text lexeme : List Char}
    (h : Pattern.comment.lexeme? text = some lexeme) :
    ∃ rest, text = '/' :: '/' :: rest ∧ lexeme = '/' :: '/' :: rest.takeWhile (· != '\n') := by
  unfold Pattern.lexeme? at h
  split at h
  case h_2 rest _ => exact ⟨rest, rfl, (Option.some.inj h).symm⟩
  all_goals contradiction

theorem Trivia.of_comment {text lexeme after cs : List Char}
    (h : Pattern.comment.lexeme? text = some lexeme) (htext : text = lexeme ++ (cs ++ after))
    (hgap : Trivia after cs) : Trivia after (lexeme ++ cs) := by
  obtain ⟨rest, rfl, rfl⟩ := eq_of_comment h
  have hrest : rest = rest.takeWhile (· != '\n') ++ (cs ++ after) := by
    simpa using htext
  have hdrop : rest.dropWhile (· != '\n') = cs ++ after :=
    List.append_cancel_left (List.takeWhile_append_dropWhile.trans hrest)
  refine Trivia.comment (fun hmem => ?_) (fun c hc => ?_) hgap
  · have hne := List.all_eq_true.mp List.all_takeWhile _ hmem
    simp at hne
  · have hhead := List.head?_dropWhile_not (· != '\n') rest
    rw [hdrop, Option.mem_def.mp hc] at hhead
    simpa using hhead

namespace Lexer

/-- The position behind some characters that have not been read yet. -/
def positionBehind (lexer : Lexer) (passed : List Char) : Position :=
  ⟨(lexer.cursor.offset + byteSize passed).toUInt32, lexer.file⟩

/-- What a step of the lexer takes from the text, and what it leaves. -/
inductive Scanned (lexer : Lexer) : EStateM.Result Diagnostic Lexer Kind → Prop
  /-- Nothing stands before the end but a gap. -/
  | finish {next : Lexer} (hgap : Trivia [] lexer.cursor.unread)
      (hcurrent : next.current = Token.eof (lexer.positionBehind lexer.cursor.unread))
      (hunread : next.cursor.unread = []) (hfile : next.file = lexer.file) :
      Scanned lexer (.ok .eof next)
  /-- Behind a gap stands a lexeme. -/
  | token {gap lexeme rest : List Char} {kind : Kind} {next : Lexer}
      (htext : lexer.cursor.unread = gap ++ (lexeme ++ rest)) (hgap : Trivia (lexeme ++ rest) gap)
      (hlexeme : lexeme ≠ []) (hkind : kind ≠ .eof)
      (hcurrent : next.current = ⟨kind, String.ofList lexeme,
        ⟨lexer.positionBehind gap, lexer.positionBehind (gap ++ lexeme)⟩⟩)
      (hunread : next.cursor.unread = rest)
      (hoffset : next.cursor.offset = lexer.cursor.offset + byteSize (gap ++ lexeme))
      (hfile : next.file = lexer.file) : Scanned lexer (.ok kind next)
  /-- Behind a gap stands what is no lexeme. -/
  | fault {gap rest : List Char} {fault : Diagnostic} {next : Lexer}
      (htext : lexer.cursor.unread = gap ++ rest) (hgap : Trivia rest gap) (hrest : rest ≠ [])
      (hposition : fault.position = lexer.positionBehind gap)
      (hcause : fault.isGrammatical = false) : Scanned lexer (.error fault next)

variable {lexer : Lexer} {lexeme rest : List Char} {pattern : Pattern}

theorem unread_pass (h : lexer.cursor.unread = lexeme ++ rest) :
    (lexer.pass lexeme).cursor.unread = rest := by
  rw [cursor_pass, Cursor.unread_skip, h, List.drop_left]

theorem offset_pass (h : lexer.cursor.unread = lexeme ++ rest) :
    (lexer.pass lexeme).cursor.offset = lexer.cursor.offset + byteSize lexeme := by
  rw [cursor_pass, Cursor.offset_skip, h, List.take_left]

theorem positionBehind_pass (h : lexer.cursor.unread = lexeme ++ rest) (passed : List Char) :
    (lexer.pass lexeme).positionBehind passed = lexer.positionBehind (lexeme ++ passed) := by
  unfold positionBehind
  rw [offset_pass h, Text.byteSize_append, Nat.add_assoc]
  rfl

/-- To note a line takes nothing from the text. -/
theorem Scanned.of_mark {result : EStateM.Result Diagnostic Lexer Kind}
    (h : Scanned lexer.mark result) : Scanned lexer result := by
  cases h with
  | finish hgap hcurrent hunread hfile => exact .finish hgap hcurrent hunread hfile
  | token htext hgap hlexeme hkind hcurrent hunread hoffset hfile =>
    exact .token htext hgap hlexeme hkind hcurrent hunread hoffset hfile
  | fault htext hgap hrest hposition hcause => exact .fault htext hgap hrest hposition hcause

/-- A blank or a comment that is passed over belongs to the gap. -/
theorem Scanned.of_pass {result : EStateM.Result Diagnostic Lexer Kind}
    (htext : lexer.cursor.unread = lexeme ++ rest)
    (hgap : ∀ after cs, rest = cs ++ after → Trivia after cs → Trivia after (lexeme ++ cs))
    (h : Scanned (lexer.pass lexeme) result) : Scanned lexer result := by
  have hunread := unread_pass htext
  have hoffset := offset_pass htext
  cases h with
  | finish hgap' hcurrent hunread' hfile =>
    rw [positionBehind_pass htext, hunread, ← htext] at hcurrent
    refine .finish ?_ hcurrent hunread' hfile
    rw [hunread] at hgap'
    rw [htext]
    exact hgap [] rest (List.append_nil rest).symm hgap'
  | @token gap lexeme' rest' kind next htext' hgap' hlexeme hkind hcurrent hunread' hoffset' hfile =>
    rw [positionBehind_pass htext, positionBehind_pass htext, ← List.append_assoc] at hcurrent
    rw [hunread] at htext'
    refine .token ?_ (hgap _ _ htext' hgap') hlexeme hkind hcurrent hunread' ?_ hfile
    · rw [htext, htext', List.append_assoc]
    · rw [hoffset', hoffset, Nat.add_assoc, ← Text.byteSize_append, List.append_assoc]
  | @fault gap rest' fault next htext' hgap' hrest hposition hcause =>
    rw [positionBehind_pass htext] at hposition
    rw [hunread] at htext'
    refine .fault ?_ (hgap _ _ htext' hgap') hrest hposition hcause
    rw [htext, htext', List.append_assoc]

/-- A lexeme that begins where the lexer stands, if it is accepted. -/
theorem Scanned.of_accept {next : Lexer} {kind : Kind}
    (htext : lexer.cursor.unread = lexeme ++ rest) (hlexeme : lexeme ≠ []) (hkind : kind ≠ .eof)
    (hcursor : next.cursor = (lexer.pass lexeme).cursor) (hfile : next.file = lexer.file) :
    Scanned lexer (next.accept lexer.position kind lexeme) := by
  have hunread : next.cursor.unread = rest := by rw [hcursor, unread_pass htext]
  have hoffset : next.cursor.offset = lexer.cursor.offset + byteSize lexeme := by
    rw [hcursor, offset_pass htext]
  have hposition : next.position = lexer.positionBehind lexeme := by
    unfold position positionBehind
    rw [hoffset, hfile]
  have htext' : lexer.cursor.unread = [] ++ (lexeme ++ rest) := htext
  refine .token htext' .nil hlexeme hkind ?_ hunread hoffset hfile
  show (⟨kind, _, ⟨lexer.position, next.position⟩⟩ : Token) = _
  rw [hposition]
  rfl

/-- A fault where the lexer stands. -/
theorem Scanned.of_refuse {next : Lexer} {cause : Cause} (hunread : lexer.cursor.unread ≠ [])
    (hcause : ∀ expected, cause ≠ .unexpected expected) :
    Scanned lexer (next.refuse lexer.position cause lexeme) := by
  have htext : lexer.cursor.unread = [] ++ lexer.cursor.unread := rfl
  cases cause with
  | unexpected expected => exact absurd rfl (hcause expected)
  | unrecognised | tooLarge => exact .fault htext .nil hunread rfl rfl

/-- No reserved word stands for the end. -/
theorem ofReserved?_ne_eof {word : String} {kind : Kind} (h : Kind.ofReserved? word = some kind) :
    kind ≠ .eof := by
  have hreserved : ∀ entry ∈ Kind.reserved, entry.2 ≠ .eof := by decide
  exact hreserved (word, kind) (Kind.ofReserved?_eq_some_iff.mp h)

/-- No sign stands for the end. -/
theorem sign_ne_eof {text spelling : List Char} {kind : Kind}
    (h : Pattern.classify? text = some (.sign spelling kind, lexeme)) : kind ≠ .eof := by
  have hlisted := (Pattern.of_classify? h).1
  intro heq
  rw [heq] at hlisted
  simp [Pattern.table] at hlisted

theorem Scanned.of_acceptWord (htext : lexer.cursor.unread = lexeme ++ rest)
    (hlexeme : lexeme ≠ []) :
    Scanned lexer ((lexer.move lexeme).acceptWord lexer.position lexeme) := by
  unfold acceptWord
  split
  · next kind hkind => exact .of_accept htext hlexeme (ofReserved?_ne_eof hkind) rfl rfl
  · exact .of_accept htext hlexeme (by decide) rfl rfl

theorem Scanned.of_acceptDigits (htext : lexer.cursor.unread = lexeme ++ rest)
    (hlexeme : lexeme ≠ []) :
    Scanned lexer ((lexer.move lexeme).acceptDigits lexer.position lexeme) := by
  unfold acceptDigits
  split
  · exact .of_accept htext hlexeme (by decide) rfl rfl
  · refine .of_refuse ?_ fun _ => Cause.noConfusion
    rw [htext]
    exact List.append_ne_nil_of_left_ne_nil hlexeme rest

theorem Scanned.of_finish (hunread : lexer.cursor.unread = []) : Scanned lexer lexer.finish := by
  refine .finish ?_ ?_ hunread rfl
  · rw [hunread]
    exact .nil
  · rw [hunread]
    rfl

/-- **Every step cuts the text into a gap, a lexeme and a rest.** By induction on the number of
blanks and comments that may be passed over. -/
theorem scanned_advanceWithin (count : Nat) :
    ∀ lexer : Lexer, lexer.cursor.left ≤ count → Scanned lexer (advanceWithin count lexer) := by
  induction count with
  | zero =>
    intro lexer hleft
    have hunread := Cursor.left_eq_zero.mp (Nat.le_zero.mp hleft)
    exact .of_mark (.of_finish hunread)
  | succ count ih =>
    intro lexer hleft
    refine .of_mark ?_
    unfold advanceWithin
    -- from here on it is the lexer with its line noted that is in question
    have hleft' : lexer.mark.cursor.left ≤ count + 1 := hleft
    generalize lexer.mark = lexer at hleft' ⊢
    dsimp only
    split
    · next hunread => exact .of_finish hunread
    · next c cs hunread =>
      cases hclass : Pattern.classify? (c :: cs) with
      | none =>
        refine .of_refuse ?_ fun _ => Cause.noConfusion
        rw [hunread]
        exact List.cons_ne_nil c cs
      | some found =>
        obtain ⟨pattern, lexeme⟩ := found
        obtain ⟨rest, hrest⟩ := Pattern.isPrefix_of_classify? hclass
        have hlexeme := Pattern.ne_nil_of_classify? hclass
        have hmatch := (Pattern.of_classify? hclass).2
        have htext : lexer.cursor.unread = lexeme ++ rest := hunread.trans hrest.symm
        have hshorter : (lexer.pass lexeme).cursor.left ≤ count := by
          have hless := @left_pass_lt lexer lexeme pattern (hunread ▸ hclass)
          omega
        cases pattern with
        | blank =>
          show Scanned lexer (advanceWithin count (lexer.pass lexeme))
          exact .of_pass htext (fun _ _ _ hgap => hgap.of_blank hmatch) (ih _ hshorter)
        | comment =>
          show Scanned lexer (advanceWithin count (lexer.pass lexeme))
          refine .of_pass htext (fun after gap hsplit hgap => ?_) (ih _ hshorter)
          exact hgap.of_comment hmatch (by rw [← hsplit]; exact hrest.symm)
        | word => exact .of_acceptWord htext hlexeme
        | digits => exact .of_acceptDigits htext hlexeme
        | quoted =>
          show Scanned lexer ((lexer.move lexeme).acceptQuoted lexer.position lexeme)
          exact .of_accept htext hlexeme (by decide) rfl rfl
        | sign spelling kind =>
          show Scanned lexer ((lexer.move lexeme).accept lexer.position kind lexeme)
          exact .of_accept htext hlexeme (sign_ne_eof hclass) rfl rfl

theorem scanned_advance (lexer : Lexer) : Scanned lexer lexer.advance :=
  scanned_advanceWithin _ lexer (Nat.le_refl _)

end Lexer

end ScriptFront
