import ScriptFront.Grammar.Session
import ScriptFront.Proofs.Logging
import ScriptFront.Proofs.Noting

/-!
# ScriptFront.Proofs.NameTable

**The table of names is exact over whole sessions.** Whatever is asked of a lexer, and whatever
faults there are on the way, its table has the names of the identifiers that have been returned,
each of them once and in the order in which they first appeared (`names_exact`). The tokens that a
parse reads count as returned too.
-/

namespace ScriptFront

open Grammar

/-! ### What a session returns -/

/-- The tokens that a step of a session returns. -/
def LexerAction.returned (lexer : Lexer) : LexerAction → List Token
  | advance =>
    match lexer.advance with
    | .ok _ next => [next.current]
    | .error _ _ => []
  | parse => readBy lexer

/-- The tokens that the steps of a session return. -/
def Lexer.returned (lexer : Lexer) : List LexerAction → List Token
  | [] => []
  | action :: actions =>
    action.returned lexer ++ (stateAfter (action.step lexer)).returned actions

/-! ### What every step keeps -/

/-- The name that is brought last by some tokens. -/
def Token.lastName? (tokens : List Token) : Option String :=
  (tokens.filterMap Token.name?).getLast?

theorem Token.lastName?_append (tokens : List Token) (token : Token) :
    lastName? (tokens ++ [token]) = token.name?.or (lastName? tokens) := by
  unfold lastName?
  rw [filterMap_name?_append]
  cases token.name? <;> simp

namespace Lexer

variable {lexer : Lexer} {tokens : List Token} {total : Nat}

/-- What a lexer knows when some tokens have been returned. Its table numbers their names, and every
one of them has taken a byte at least of a given number. -/
structure Kept (total : Nat) (lexer : Lexer) (tokens : List Token) : Prop where
  numbers : lexer.identifiers.Numbers (Token.names tokens)
  ordinal : (Token.lastName? tokens).elim (lexer.ordinal = 0) fun name =>
    lexer.identifiers.find? name = some lexer.ordinal
  isName : ∀ name ∈ Token.names tokens, ScriptFront.isName name = true
  fits : (Token.names tokens).length + lexer.cursor.left ≤ total

/-- A step that changes neither the table nor the ordinal keeps it. -/
theorem Kept.of_unchanged {next : Lexer} {more : List Token} (h : lexer.Kept total tokens)
    (hidentifiers : next.identifiers = lexer.identifiers) (hordinal : next.ordinal = lexer.ordinal)
    (hleft : next.cursor.left ≤ lexer.cursor.left) (hsame : Token.names more = Token.names tokens)
    (hlast : Token.lastName? more = Token.lastName? tokens) : next.Kept total more where
  numbers := by
    rw [hidentifiers, hsame]
    exact h.numbers
  ordinal := by
    rw [hidentifiers, hordinal, hlast]
    exact h.ordinal
  isName := by
    rw [hsame]
    exact h.isName
  fits := by
    have hfits := h.fits
    rw [hsame]
    omega

/-- A name that is read takes a byte at least, and so leaves room for itself. -/
theorem Kept.of_name {next : Lexer} {kind : Kind} {name : String} (h : lexer.Kept total tokens)
    (hnoted : lexer.Noted kind next) (hname : next.current.name? = some name)
    (hless : next.cursor.left < lexer.cursor.left) :
    next.Kept total (tokens ++ [next.current]) := by
  have hnames : Token.names (tokens ++ [next.current]) = enter (Token.names tokens) name := by
    rw [Token.names_append, hname]
    rfl
  have hidentifiers := hnoted.identifiers
  have hordinal := hnoted.ordinal
  rw [hname] at hidentifiers hordinal
  refine ⟨?_, ?_, fun other hother => ?_, ?_⟩
  · rw [hnames, hidentifiers]
    exact h.numbers.enter name
  · rw [Token.lastName?_append, hname]
    exact hordinal
  · rw [hnames] at hother
    rcases mem_enter_iff.mp hother with hother | rfl
    · exact h.isName other hother
    · exact hnoted.isName other hname
  · have hfits := h.fits
    have hlength := length_enter_le (Token.names tokens) name
    rw [hnames]
    omega

/-- **One step keeps it**, whether it returns a token or fails. -/
theorem Kept.advance (h : lexer.Kept total tokens) :
    Lands (fun _ next => next.Kept total (tokens ++ [next.current]))
      (fun fault next => next.Kept total tokens ∧ fault.location.ordinal = next.ordinal)
      lexer.advance := by
  have hnoted := lexer.noted_advance
  have hproceeds := lexer.proceeds_advance
  cases hadvance : lexer.advance with
  | error fault next =>
    rw [hadvance] at hnoted hproceeds
    refine ⟨h.of_unchanged hnoted.identifiers hnoted.ordinal hproceeds.2 rfl rfl, ?_⟩
    rw [hnoted.location, hnoted.ordinal]
  | ok kind next =>
    rw [hadvance] at hnoted hproceeds
    obtain ⟨hkind, hleft, hless⟩ := hproceeds
    cases hname : next.current.name? with
    | none =>
      have hidentifiers := hnoted.identifiers
      have hordinal := hnoted.ordinal
      rw [hname] at hidentifiers hordinal
      refine h.of_unchanged hidentifiers hordinal hleft ?_ ?_
      · rw [Token.names_append, hname]
        rfl
      · rw [Token.lastName?_append, hname]
        rfl
    | some name =>
      have hidentifier : next.current.kind = .identifier := by
        unfold Token.name? at hname
        split at hname
        · assumption
        · cases hname
      exact h.of_name hnoted hname (hless (by rw [← hkind, hidentifier]; decide))

theorem kept_ofSource (source file : String) :
    (ofSource source file).Kept source.utf8ByteSize [] where
  numbers := NameTable.numbers_empty
  ordinal := rfl
  isName name hname := absurd hname List.not_mem_nil
  fits := by
    rw [utf8ByteSize_eq]
    exact Nat.le_of_eq (Nat.zero_add _)

end Lexer

/-! ### Sessions -/

section

variable {total : Nat} {tokens : List Token} {lexer : Lexer}

/-- **What every token keeps, a step of a session keeps** with the tokens that it returns. -/
theorem Logging.lands_step {Inv : Lexer → List Token → Prop} {Stop : Diagnostic → Lexer → Prop}
    (h : Logging Inv Stop) (hinv : Inv lexer tokens) (action : LexerAction) :
    Lands (fun _ next => Inv next (tokens ++ action.returned lexer))
      (fun fault next => Inv next (tokens ++ action.returned lexer) ∧ Stop fault next)
      (action.step lexer) := by
  cases action with
  | advance =>
    have hstep := h.advance hinv
    replace hstep : Lands _ _ lexer.advance := hstep
    unfold LexerAction.step LexerAction.returned
    cases hadvance : lexer.advance with
    | ok kind next =>
      rw [hadvance] at hstep
      exact hstep
    | error fault next =>
      rw [hadvance] at hstep
      rw [List.append_nil]
      exact hstep
  | parse =>
    have hlanding := h.parseStream hinv
    unfold LexerAction.step LexerAction.returned
    cases hparse : ScriptFront.parseStream lexer <;> rw [hparse] at hlanding <;> exact hlanding

/-- What is known of a step of a session behind which some tokens have been returned. -/
abbrev KeptStep {α : Type} (total : Nat) (tokens : List Token) :
    EStateM.Result Diagnostic Lexer α → Prop :=
  Lands (fun _ next => next.Kept total tokens) fun fault next =>
    next.Kept total tokens ∧ fault.location.ordinal = next.ordinal

theorem KeptStep.stateAfter {α : Type} {result : EStateM.Result Diagnostic Lexer α}
    (h : KeptStep total tokens result) : (ScriptFront.stateAfter result).Kept total tokens := by
  cases result with
  | ok value next => exact h
  | error fault next => exact h.1

theorem logging_kept (total : Nat) : Logging (Lexer.Kept total) fun fault (lexer : Lexer) =>
    fault.location.ordinal = lexer.ordinal where
  advance h := h.advance
  unexpected _ := rfl

/-- **Every step of a session keeps it.** -/
theorem Lexer.Kept.step (h : lexer.Kept total tokens) (action : LexerAction) :
    KeptStep total (tokens ++ action.returned lexer) (action.step lexer) :=
  (logging_kept total).lands_step h action

/-- **A whole session keeps it**, step by step. By induction on the steps. -/
theorem Lexer.Kept.run {actions : List LexerAction} :
    ∀ {lexer : Lexer} {tokens : List Token}, lexer.Kept total tokens →
      ∀ {index : Nat} {result : EStateM.Result Diagnostic Lexer Answer},
        (lexer.run actions)[index]? = some result →
          KeptStep total (tokens ++ lexer.returned (actions.take (index + 1))) result := by
  induction actions with
  | nil => exact fun _ _ _ h => nomatch h
  | cons action actions ih =>
    intro lexer tokens hkept index result hresult
    have hstep := hkept.step action
    cases index with
    | zero =>
      obtain rfl : action.step lexer = result := Option.some.inj hresult
      rw [List.take_succ_cons, List.take_zero, Lexer.returned, Lexer.returned, List.append_nil]
      exact hstep
    | succ index =>
      rw [List.take_succ_cons, Lexer.returned, ← List.append_assoc]
      exact ih hstep.stateAfter hresult

/-- What has been returned is not lost when more is. -/
theorem Lexer.returned_take_prefix (actions : List LexerAction) :
    ∀ (lexer : Lexer) {m n : Nat}, m ≤ n →
      lexer.returned (actions.take m) <+: lexer.returned (actions.take n) := by
  induction actions with
  | nil => simp
  | cons action actions ih =>
    intro lexer m n hle
    cases m with
    | zero => exact List.nil_prefix
    | succ m =>
      obtain ⟨n, rfl⟩ : ∃ k, n = k + 1 := ⟨n - 1, by omega⟩
      rw [List.take_succ_cons, List.take_succ_cons, Lexer.returned, Lexer.returned]
      exact (List.prefix_append_right_inj _).mpr (ih _ (Nat.le_of_succ_le_succ hle))

end

/-! ### The table of a session -/

/-- The table of a lexer, when some tokens have been returned. -/
structure Lexer.Exact (lexer : Lexer) (tokens : List Token) : Prop where
  /-- The names are the texts of the identifiers that have been returned, each of them once, in the
  order in which they first appeared. -/
  names : lexer.names = (tokens.filterMap Token.name?).eraseDups
  nodup : lexer.names.Nodup
  /-- No name is empty, and none is a reserved word. -/
  sound : ∀ name ∈ lexer.names, name ≠ "" ∧ Kind.ofReserved? name = none
  /-- What is stored for a name is its place among the names, and for other texts nothing is. -/
  stored : ∀ name ordinal, lexer.identifiers.find? name = some ordinal ↔
    lexer.names[ordinal.toNat]? = some name
  /-- The ordinals are the numbers below that of the names, each stored for exactly one name. -/
  bijective : lexer.identifiers.Bijective
  /-- In whatever order the entries come, each has its place among the names that are read off, and
  these are the same. -/
  readable : ∀ entries, entries.Perm lexer.identifiers.entries →
    NameTable.listed? entries = some lexer.names
  /-- The ordinal that is noted is the place of the name that has been returned last. -/
  ordinal : lexer.ordinal.toNat = (Token.lastName? tokens).elim 0 lexer.names.idxOf
  location : lexer.location.ordinal = lexer.ordinal

theorem Lexer.Kept.exact {total : Nat} {lexer : Lexer} {tokens : List Token}
    (h : lexer.Kept total tokens) (htotal : total < 2 ^ 32) : lexer.Exact tokens := by
  have hfits := h.fits
  have hsize : (Token.names tokens).length ≤ 2 ^ 32 := by omega
  have hnames : lexer.names = Token.names tokens := h.numbers.names_eq hsize
  have hordinal := h.ordinal
  refine ⟨hnames, ?_, fun name hname => ?_, fun name ordinal => ?_, h.numbers.bijective hsize,
    fun entries hperm => ?_, ?_, rfl⟩ <;> rw [hnames] at *
  · exact h.numbers.nodup
  · obtain ⟨hword, hreserved⟩ := isName_iff.mp (h.isName name hname)
    refine ⟨?_, hreserved⟩
    rintro rfl
    cases hword
  · exact h.numbers.find?_eq_some_iff hsize
  · exact h.numbers.listed?_eq hsize hperm
  · cases hlast : Token.lastName? tokens with
    | none =>
      rw [hlast] at hordinal
      exact congrArg UInt32.toNat hordinal
    | some name =>
      rw [hlast] at hordinal
      have hplace := List.idxOf_lt_length_of_mem (h.numbers.mem_of_find? hordinal)
      rw [h.numbers.eq_of_find? hordinal]
      exact toNat_toUInt32 (by omega)

/-- **The table of names is exact after every step of a session.** A fault reports the ordinal that
the lexer has noted, and every name that an earlier step has left in the table has kept its
ordinal. -/
theorem names_exact {source file : String} (hsize : source.utf8ByteSize < 2 ^ 32 - 1)
    {actions : List LexerAction} {index : Nat} {result : EStateM.Result Diagnostic Lexer Answer}
    (h : ((Lexer.ofSource source file).run actions)[index]? = some result) :
    (stateAfter result).Exact
        ((Lexer.ofSource source file).returned (actions.take (index + 1))) ∧
      (∀ fault next, result = .error fault next → fault.location.ordinal = next.ordinal) ∧
      ∀ earlier ∈ ((Lexer.ofSource source file).run actions).take index, ∀ name ordinal,
        (stateAfter earlier).identifiers.find? name = some ordinal →
          (stateAfter result).identifiers.find? name = some ordinal := by
  have hkept {index : Nat} {result : EStateM.Result Diagnostic Lexer Answer}
      (hresult : ((Lexer.ofSource source file).run actions)[index]? = some result) :
      KeptStep source.utf8ByteSize
        ((Lexer.ofSource source file).returned (actions.take (index + 1))) result := by
    have hrun := (Lexer.kept_ofSource source file).run hresult
    rwa [List.nil_append] at hrun
  refine ⟨(hkept h).stateAfter.exact (by omega), fun fault next hfault => ?_,
    fun earlier hearlier name ordinal hfound => ?_⟩
  · have hstep := hkept h
    rw [hfault] at hstep
    exact hstep.2
  · obtain ⟨place, hplace, hget⟩ := List.mem_take_iff_getElem.mp hearlier
    have hbefore : ((Lexer.ofSource source file).run actions)[place]? = some earlier :=
      List.getElem?_eq_some_iff.mpr ⟨by omega, hget⟩
    have hgrown := Lexer.returned_take_prefix actions (Lexer.ofSource source file)
      (show place + 1 ≤ index + 1 by omega)
    exact (hkept hbefore).stateAfter.numbers.find?_of_more (hkept h).stateAfter.numbers
      (Token.names_prefix hgrown) hfound

/-- A parse that the grammar stops and one that a character stops, behind a token read on its
own. -/
theorem names_after_faults :
    ∃ result, ((Lexer.ofSource "b a; print(b)$" "shell").run [.advance, .parse, .parse])[2]? =
        some result ∧
      (stateAfter result).names = ["b", "a"] ∧ (stateAfter result).ordinal = 0 ∧
      (stateAfter result).Exact
        ((Lexer.ofSource "b a; print(b)$" "shell").returned [.advance, .parse, .parse]) := by
  have hsize : "b a; print(b)$".utf8ByteSize < 2 ^ 32 - 1 := by decide
  refine ⟨_, rfl, by decide +kernel, by decide +kernel, ?_⟩
  exact (@names_exact "b a; print(b)$" "shell" hsize [.advance, .parse, .parse] 2 _ rfl).1

end ScriptFront
