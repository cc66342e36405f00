import ScriptFront.CommandLine.Report
import ScriptFront.Proofs.Layouts
import ScriptFront.Proofs.Noting

/-!
# ScriptFront.Proofs.Decoding

**A list of tokens can be read back from what is printed of it** (`printed_injective`), although
texts are printed as they stand, with whatever line ends, parentheses and names of kinds are in
them.

The entry of a token ends where it says itself. The name of a kind goes up to the first character
that is no letter, and tells whether a text follows. A number or a name goes up to the first
character that cannot belong to it, and a quoted text up to its second quote; nothing in a text has
to be looked for behind it. For this the tokens must have texts that are legal for their kinds, and
those of a source have (`tokenize_legal`).
-/

namespace ScriptFront

/-! ### The texts that tokens have -/

theorem Kind.spelling?_of_ofReserved? {word : String} {kind : Kind}
    (h : Kind.ofReserved? word = some kind) : kind.spelling? = some word := by
  have hreserved : ∀ entry ∈ Kind.reserved, entry.2.spelling? = some entry.1 := by decide
  exact hreserved (word, kind) (Kind.ofReserved?_eq_some_iff.mp h)

theorem Kind.spelling?_of_mem_table {spelling : List Char} {kind : Kind}
    (h : .sign spelling kind ∈ Pattern.table) : kind.spelling? = some (String.ofList spelling) := by
  have hsigns : ∀ pattern ∈ Pattern.table, match pattern with
      | .sign spelling kind => kind.spelling? = some (String.ofList spelling)
      | _ => True := by
    simp [Pattern.table, Kind.spelling?]
  exact hsigns _ h

/-- The text of a lexeme is one that its kind may have. -/
theorem Lexeme.legal {lexeme : Lexeme} {rest : List Char}
    (hclass : Pattern.classify? (lexeme.2 ++ rest) = some lexeme) (hblank : lexeme.1 ≠ .blank)
    (hcomment : lexeme.1 ≠ .comment) (hreadable : lexeme.Readable) :
    Legal lexeme.kind (String.ofList lexeme.2) := by
  obtain ⟨pattern, text⟩ := lexeme
  obtain ⟨hlisted, htaken⟩ := Pattern.of_classify? hclass
  cases pattern with
  | blank => exact absurd rfl hblank
  | comment => exact absurd rfl hcomment
  | word =>
    show Legal ((Kind.ofReserved? (String.ofList text)).getD .identifier) (String.ofList text)
    cases hreserved : Kind.ofReserved? (String.ofList text) with
    | some kind => exact .fixed (Kind.spelling?_of_ofReserved? hreserved)
    | none =>
      have hword := Lexer.isWord_of_lexeme? htaken
      exact .identifier (isName_iff.mpr ⟨by rwa [String.toList_ofList], hreserved⟩)
  | digits =>
    obtain ⟨hrun, hne⟩ := run?_eq_some.mp htaken
    refine .number (by simpa using hne) ?_ ?_
    · rw [String.toList_ofList, ← hrun]
      exact List.all_eq_true.mp List.all_takeWhile
    · rw [String.toList_ofList]
      exact Nat.le_pred_of_lt hreadable
  | quoted =>
    obtain ⟨body, rfl, hbody⟩ := Pattern.eq_of_quoted htaken
    exact .string hbody
  | sign spelling kind =>
    have hspelling : spelling = text := by
      simp only [Pattern.lexeme?, Option.ite_none_right_eq_some, Option.some.injEq] at htaken
      exact htaken.2
    exact .fixed (hspelling ▸ Kind.spelling?_of_mem_table hlisted)

/-- The lexemes of a text have been found in it, and none of them belongs to a gap. By induction on
the cut. -/
theorem Cut.exists_classify {text : List Char} {lexemes : List Lexeme} (hcut : Cut text lexemes) :
    ∀ lexeme ∈ lexemes, lexeme.1 ≠ .blank ∧ lexeme.1 ≠ .comment ∧
      ∃ rest, Pattern.classify? (lexeme.2 ++ rest) = some lexeme := by
  induction hcut with
  | finish => exact fun _ hmem => absurd hmem List.not_mem_nil
  | lexeme _ hclass hblank hcomment _ ih =>
    exact List.forall_mem_cons.mpr ⟨⟨hblank, hcomment, _, hclass⟩, ih⟩

/-- What a token can be, wherever it stands: a kind with a legal text, or the end. -/
inductive Listable : Kind × String → Prop
  | legal {kind : Kind} {text : String} (h : Legal kind text) : Listable (kind, text)
  | eof : Listable (.eof, Kind.eof.name)

/-- **The tokens of a source have legal texts.** -/
theorem tokenize_legal {source file : String} {tokens : List Token}
    (h : tokenize source file = .ok tokens) :
    ∀ reading ∈ tokens.map Token.reading, Listable reading := by
  obtain ⟨lexemes, hcut, hreadable⟩ := Cut.exists_of_tokenize h
  obtain ⟨found, hfound, hreadings⟩ := hcut.exists_tokenize hreadable file
  obtain rfl : tokens = found := Except.ok.inj (h.symm.trans hfound)
  rw [hreadings]
  intro reading hmem
  rcases List.mem_append.mp hmem with hmem | hmem
  · obtain ⟨lexeme, hlexeme, rfl⟩ := List.mem_map.mp hmem
    obtain ⟨hblank, hcomment, rest, hclass⟩ := hcut.exists_classify lexeme hlexeme
    exact .legal (Lexeme.legal hclass hblank hcomment (hreadable lexeme hlexeme))
  · obtain rfl := List.mem_singleton.mp hmem
    exact .eof

/-! ### The entries of tokens -/

/-- What is printed behind the name of the kind. -/
def behindName (kind : Kind) (text : String) : List Char :=
  match kind with
  | .string | .identifier | .number => ' ' :: '(' :: (text.toList ++ [')', '\n'])
  | _ => ['\n']

/-- What is printed of a token. -/
def entry (reading : Kind × String) : List Char :=
  reading.1.name.toList ++ behindName reading.1 reading.2

theorem toList_display (token : Token) : (token.display ++ "\n").toList = entry token.reading := by
  obtain ⟨kind, text, span⟩ := token
  cases kind <;> simp [Token.display, entry, behindName, Token.reading]

/-- Where two texts are the same, runs of a class that are followed by something else end at the
same place. -/
theorem eq_of_runs {among : Char → Bool} {x y r s : List Char} {c d : Char}
    (hx : ∀ e ∈ x, among e = true) (hy : ∀ e ∈ y, among e = true) (hc : among c = false)
    (hd : among d = false) (h : x ++ c :: r = y ++ d :: s) : x = y ∧ c :: r = d :: s := by
  have hleft : (x ++ c :: r).takeWhile among = x := Pattern.takeWhile_of_stop hx hc
  have hright : (y ++ d :: s).takeWhile among = y := Pattern.takeWhile_of_stop hy hd
  obtain rfl : x = y := by rw [← hleft, h, hright]
  exact ⟨rfl, List.append_cancel_left h⟩

theorem isWordPart_of_isName {word : String} (h : isName word = true) :
    ∀ c ∈ word.toList, isWordPart c = true := by
  have hword := (isName_iff.mp h).1
  cases hcs : word.toList with
  | nil => exact fun _ hmem => absurd hmem List.not_mem_nil
  | cons c cs =>
    rw [hcs] at hword
    obtain ⟨hc, hall⟩ := Bool.and_eq_true_iff.mp hword
    refine List.forall_mem_cons.mpr ⟨?_, List.all_eq_true.mp hall⟩
    simp [isWordPart, hc]

/-- What stands behind the name of a kind ends where it says itself. -/
theorem Legal.eq_of_behindName {kind : Kind} {t u : String} {r s : List Char} (ht : Legal kind t)
    (hu : Legal kind u) (h : behindName kind t ++ r = behindName kind u ++ s) : t = u ∧ r = s := by
  cases ht with
  | fixed htext =>
    cases hu with
    | fixed htext' =>
      obtain rfl : t = u := Option.some.inj (htext.symm.trans htext')
      exact ⟨rfl, List.append_cancel_left h⟩
    | identifier | number | string => cases htext
  | identifier hname =>
    cases hu with
    | fixed htext' => cases htext'
    | identifier hname' =>
      have htexts : t.toList ++ ')' :: '\n' :: r = u.toList ++ ')' :: '\n' :: s := by
        simpa [behindName] using h
      obtain ⟨htext, hrest⟩ := eq_of_runs (isWordPart_of_isName hname)
        (isWordPart_of_isName hname') (by decide) (by decide) htexts
      exact ⟨String.toList_inj.mp htext, by simpa using hrest⟩
  | number _ hdigits =>
    cases hu with
    | fixed htext' => cases htext'
    | number _ hdigits' =>
      have htexts : t.toList ++ ')' :: '\n' :: r = u.toList ++ ')' :: '\n' :: s := by
        simpa [behindName] using h
      obtain ⟨htext, hrest⟩ := eq_of_runs hdigits hdigits' (by decide) (by decide) htexts
      exact ⟨String.toList_inj.mp htext, by simpa using hrest⟩
  | @string body hbody =>
    cases hu with
    | fixed htext' => cases htext'
    | @string body' hbody' =>
      have hinside {cs : List Char} (hcs : '"' ∉ cs) : ∀ c ∈ cs, (c != '"') = true := fun c hc => by
        simpa using ne_of_mem_of_not_mem hc hcs
      have htexts : body ++ '"' :: ')' :: '\n' :: r = body' ++ '"' :: ')' :: '\n' :: s := by
        simpa [behindName] using h
      obtain ⟨rfl, hrest⟩ := eq_of_runs (hinside hbody) (hinside hbody') (by decide) (by decide)
        htexts
      exact ⟨rfl, by simpa using hrest⟩

theorem exists_behindName (kind : Kind) (text : String) :
    ∃ c cs, behindName kind text = c :: cs ∧ c.isAlpha = false := by
  unfold behindName
  split <;> exact ⟨_, _, rfl, by decide⟩

theorem Kind.isAlpha_name (kind : Kind) : ∀ c ∈ kind.name.toList, c.isAlpha = true :=
  List.all_eq_true.mp (by cases kind <;> decide)

theorem Kind.eq_of_name {kind other : Kind} (h : kind.name.toList = other.name.toList) :
    kind = other := by
  have hfound := ofName?_name kind
  rw [String.toList_inj.mp h, ofName?_name] at hfound
  exact (Option.some.inj hfound).symm

/-- **An entry ends where it says itself**, whatever comes behind it. -/
theorem eq_of_entry {a b : Kind × String} {r s : List Char} (ha : Listable a) (hb : Listable b)
    (h : entry a ++ r = entry b ++ s) : a = b ∧ r = s := by
  obtain ⟨c, cs, hbehind, hc⟩ := exists_behindName a.1 a.2
  obtain ⟨d, ds, hbehind', hd⟩ := exists_behindName b.1 b.2
  obtain ⟨hname, hrest⟩ : a.1.name.toList = b.1.name.toList ∧
      behindName a.1 a.2 ++ r = behindName b.1 b.2 ++ s := by
    unfold entry at h
    rw [List.append_assoc, List.append_assoc, hbehind, hbehind'] at h
    rw [hbehind, hbehind']
    exact eq_of_runs a.1.isAlpha_name b.1.isAlpha_name hc hd h
  have hkind : a.1 = b.1 := Kind.eq_of_name hname
  cases ha with
  | eof =>
    cases hb with
    | eof => exact ⟨rfl, List.append_cancel_left hrest⟩
    | legal hlegal =>
      obtain rfl : Kind.eof = _ := hkind
      cases hlegal with
      | fixed htext => cases htext
  | legal hlegal =>
    cases hb with
    | eof =>
      obtain rfl : _ = Kind.eof := hkind
      cases hlegal with
      | fixed htext => cases htext
    | legal hlegal' =>
      obtain rfl := hkind
      obtain ⟨rfl, hr⟩ := hlegal.eq_of_behindName hlegal' hrest
      exact ⟨rfl, hr⟩

/-- By induction on the entries. -/
theorem eq_of_entries {l m : List (Kind × String)} (hl : ∀ a ∈ l, Listable a)
    (hm : ∀ a ∈ m, Listable a) (h : l.flatMap entry = m.flatMap entry) : l = m := by
  have hne (a : Kind × String) : entry a ≠ [] := by
    obtain ⟨c, cs, hbehind, -⟩ := exists_behindName a.1 a.2
    simp [entry, hbehind]
  induction l generalizing m with
  | nil =>
    cases m with
    | nil => rfl
    | cons b m => exact absurd (List.append_eq_nil_iff.mp h.symm).1 (hne b)
  | cons a l ih =>
    cases m with
    | nil => exact absurd (List.append_eq_nil_iff.mp h).1 (hne a)
    | cons b m =>
      obtain ⟨ha, hlater⟩ := List.forall_mem_cons.mp hl
      obtain ⟨hb, hlater'⟩ := List.forall_mem_cons.mp hm
      obtain ⟨rfl, hrest⟩ := eq_of_entry ha hb h
      rw [ih hlater hlater' hrest]

/-! ### The whole list -/

theorem printed_tokens {source file : String} {tokens : List Token}
    (h : tokenize source file = .ok tokens) :
    ∃ text, Report.printed .tokens source file = .ok text ∧
      text.toList = (tokens.map Token.reading).flatMap entry := by
  refine ⟨String.join (tokens.map fun token => token.display ++ "\n"), ?_, ?_⟩
  · show (tokenize source file).map _ = _
    rw [h]
    rfl
  · rw [String.toList_join, List.flatMap_map, List.flatMap_map]
    exact congrArg (tokens.flatMap ·) (funext toList_display)

/-- **A list of tokens can be read back from what is printed of it.** If the same is printed of two
sources that have lists of tokens, the lists are as long, and have the same kinds and texts. -/
theorem printed_injective {source file source' file' : String} {tokens tokens' : List Token}
    (h : tokenize source file = .ok tokens) (h' : tokenize source' file' = .ok tokens')
    (hprinted : Report.printed .tokens source file = Report.printed .tokens source' file') :
    tokens.length = tokens'.length ∧ tokens.map Token.reading = tokens'.map Token.reading := by
  obtain ⟨text, htext, hentries⟩ := printed_tokens h
  obtain ⟨text', htext', hentries'⟩ := printed_tokens h'
  obtain rfl : text = text' := Except.ok.inj (by rw [← htext, hprinted, htext'])
  have hreadings : tokens.map Token.reading = tokens'.map Token.reading :=
    eq_of_entries (tokenize_legal h) (tokenize_legal h') (hentries.symm.trans hentries')
  refine ⟨?_, hreadings⟩
  simpa using congrArg List.length hreadings

/-- A text with line ends, parentheses and names of kinds in it, laid out in two ways. -/
theorem printed_twice_alike :
    ∃ tokens tokens', tokenize "\"a)\nPlus\nString (\"+ b" "shell" = .ok tokens ∧
      tokenize "\"a)\nPlus\nString (\" // +\n + b" "other" = .ok tokens' ∧
      tokens.length = tokens'.length ∧ tokens.map Token.reading = tokens'.map Token.reading := by
  have hlist : tokenize "\"a)\nPlus\nString (\"+ b" "shell" = .ok
      [⟨.string, "\"a)\nPlus\nString (\"", ⟨⟨0, "shell"⟩, ⟨18, "shell"⟩⟩⟩,
        ⟨.plus, "+", ⟨⟨18, "shell"⟩, ⟨19, "shell"⟩⟩⟩,
        ⟨.identifier, "b", ⟨⟨20, "shell"⟩, ⟨21, "shell"⟩⟩⟩, .eof ⟨21, "shell"⟩] := by
    decide +kernel
  have hlist' : tokenize "\"a)\nPlus\nString (\" // +\n + b" "other" = .ok
      [⟨.string, "\"a)\nPlus\nString (\"", ⟨⟨0, "other"⟩, ⟨18, "other"⟩⟩⟩,
        ⟨.plus, "+", ⟨⟨25, "other"⟩, ⟨26, "other"⟩⟩⟩,
        ⟨.identifier, "b", ⟨⟨27, "other"⟩, ⟨28, "other"⟩⟩⟩, .eof ⟨28, "other"⟩] := by
    decide +kernel
  have hprinted : Report.printed .tokens "\"a)\nPlus\nString (\"+ b" "shell" =
      Report.printed .tokens "\"a)\nPlus\nString (\" // +\n + b" "other" := by
    simp only [Report.printed, hlist, hlist']
    rfl
  exact ⟨_, _, hlist, hlist', printed_injective hlist hlist' hprinted⟩

end ScriptFront
