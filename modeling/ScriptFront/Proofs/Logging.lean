import ScriptFront.Grammar.Session
import ScriptFront.Proofs.Invariant

/-!
# ScriptFront.Proofs.Logging

**The tokens that a parse reads.** A parser takes the same steps over a stream that keeps what it
returns (`Logged`), so the log of such a run is that of the run without it, and what every token
keeps beside its log, a whole parse keeps (`Logging.parseStream`).
-/

namespace ScriptFront

open Grammar

/-- A stream with the tokens that it has returned, the last one at the end. -/
structure Logged (σ : Type) where
  /-- The stream. -/
  stream : σ
  /-- The tokens that it has returned. -/
  log : List Token

namespace Logged

variable {σ : Type} [TokenStream σ] {logged : Logged σ}

/-- Reads the next token and keeps it. -/
def advance (logged : Logged σ) : EStateM.Result Diagnostic (Logged σ) Kind :=
  match TokenStream.advance logged.stream with
  | .ok kind next => .ok kind ⟨next, logged.log ++ [TokenStream.current next]⟩
  | .error fault next => .error fault ⟨next, logged.log⟩

theorem advance_of_ok {next : σ} {kind : Kind}
    (h : TokenStream.advance logged.stream = .ok kind next) :
    logged.advance = .ok kind ⟨next, logged.log ++ [TokenStream.current next]⟩ := by
  unfold advance
  rw [h]

theorem advance_of_error {next : σ} {fault : Diagnostic}
    (h : TokenStream.advance logged.stream = .error fault next) :
    logged.advance = .error fault ⟨next, logged.log⟩ := by
  unfold advance
  rw [h]

theorem stream_of_ok {next : Logged σ} {kind : Kind} (h : logged.advance = .ok kind next) :
    TokenStream.advance logged.stream = .ok kind next.stream := by
  unfold advance at h
  cases hadvance : TokenStream.advance logged.stream <;> rw [hadvance] at h <;> cases h
  rfl

theorem stream_of_error {next : Logged σ} {fault : Diagnostic}
    (h : logged.advance = .error fault next) :
    TokenStream.advance logged.stream = .error fault next.stream := by
  unfold advance at h
  cases hadvance : TokenStream.advance logged.stream <;> rw [hadvance] at h <;> cases h
  rfl

instance : TokenStream (Logged σ) where
  advance := advance
  current logged := TokenStream.current logged.stream
  intValue logged := TokenStream.intValue logged.stream
  stringValue logged := TokenStream.stringValue logged.stream
  ordinal logged := TokenStream.ordinal logged.stream
  location logged := TokenStream.location logged.stream
  remaining logged := TokenStream.remaining logged.stream

instance [LawfulTokenStream σ] : LawfulTokenStream (Logged σ) where
  kind_current h := @LawfulTokenStream.kind_current σ _ _ _ _ _ (stream_of_ok h)
  current_of_error h := @LawfulTokenStream.current_of_error σ _ _ _ _ _ (stream_of_error h)
  remaining_le h := @LawfulTokenStream.remaining_le σ _ _ _ _ _ (stream_of_ok h)
  remaining_lt h := @LawfulTokenStream.remaining_lt σ _ _ _ _ _ (stream_of_ok h)

end Logged

variable {σ : Type} [TokenStream σ] {Inv : σ → List Token → Prop} {Stop : Diagnostic → σ → Prop}

/-- A property of a stream and of the tokens that have been returned, which every step keeps. -/
structure Logging (Inv : σ → List Token → Prop) (Stop : Diagnostic → σ → Prop) : Prop where
  advance {s : σ} {tokens : List Token} : Inv s tokens →
    Lands (fun _ next => Inv next (tokens ++ [TokenStream.current next]))
      (fun fault next => Inv next tokens ∧ Stop fault next) (TokenStream.advance s)
  unexpected {p : Parser σ} {tokens : List Token} {expected : List Kind} :
    Inv p.stream tokens → Stop (p.unexpected expected) p.stream

/-- A stream beside one that is the same and keeps what it returns. -/
structure Logs (Inv : σ → List Token → Prop) (tokens : List Token) (s : σ)
    (logged : Logged σ) : Prop where
  stream : logged.stream = s
  inv : Inv s (tokens ++ logged.log)

/-- A parser beside one over a stream that keeps what it returns. -/
structure ParsesLogged (Inv : σ → List Token → Prop) (tokens : List Token) (p : Parser σ)
    (q : Parser (Logged σ)) : Prop where
  logs : Logs Inv tokens p.stream q.stream
  lookahead : p.lookahead = q.lookahead
  depth : p.depth = q.depth

section

variable {tokens : List Token} {p : Parser σ} {q : Parser (Logged σ)}

theorem Logging.advance_logged (h : Logging Inv Stop) (hrel : ParsesLogged Inv tokens p q) :
    Together (fun _ _ p' q' => ParsesLogged Inv tokens p' q')
      (fun e f p' q' => e = f ∧ Logs Inv tokens p'.stream q'.stream ∧ Stop e p'.stream)
      (Rule.advance p) (Rule.advance q) := by
  have hstep := h.advance hrel.logs.inv
  cases hadvance : TokenStream.advance p.stream with
  | ok kind next =>
    rw [hadvance] at hstep
    have hlogged := Logged.advance_of_ok (hrel.logs.stream ▸ hadvance)
    rw [Rule.advance_of_ok hadvance, Rule.advance_of_ok hlogged]
    exact ⟨⟨rfl, List.append_assoc .. ▸ hstep⟩, rfl, hrel.depth⟩
  | error fault next =>
    rw [hadvance] at hstep
    have hlogged := Logged.advance_of_error (hrel.logs.stream ▸ hadvance)
    rw [Rule.advance_of_error hadvance, Rule.advance_of_error hlogged]
    exact ⟨rfl, ⟨rfl, hstep.1⟩, hstep.2⟩

/-- Rules take the same steps over both streams. -/
theorem Logging.simulation (h : Logging Inv Stop) (tokens : List Token) (limit : Option Nat) :
    Simulation Eq limit limit (fun _ => ParsesLogged Inv tokens)
      (fun _ e f p q => e = f ∧ Logs Inv tokens p.stream q.stream ∧ Stop e p.stream) where
  lookahead hrel := hrel.lookahead
  advance hrel _ := h.advance_logged hrel
  unexpected {_ p q expected} hrel _ := by
    refine ⟨?_, hrel.logs, h.unexpected hrel.logs.inv⟩
    show p.unexpected expected = { q with stream := q.stream.stream : Parser σ }.unexpected expected
    rw [hrel.logs.stream]
    rfl
  refusal hrel := by rw [hrel.depth]
  enter hrel _ := ⟨hrel.logs, hrel.lookahead, congrArg (· + 1) hrel.depth⟩
  leave hrel := ⟨hrel.logs, hrel.lookahead, congrArg (· - 1) hrel.depth⟩
  leave_fault hfault := hfault
  integer hrel _ := congrArg (fun s => Expr.const (TokenStream.intValue s)) hrel.logs.stream.symm
  identifier hrel _ := congrArg (fun s => Expr.id (TokenStream.ordinal s)) hrel.logs.stream.symm
  text hrel _ := congrArg (fun s => Expr.str (TokenStream.stringValue s)) hrel.logs.stream.symm

/-- **A parse is not changed by keeping what it reads**, and what every token keeps it keeps. -/
theorem Logging.together_parseStream [LawfulTokenStream σ] (h : Logging Inv Stop) {s : σ}
    (hinv : Inv s tokens) :
    Together (fun a b s' logged => a = b ∧ Logs Inv tokens s' logged)
      (fun e f s' logged => e = f ∧ Logs Inv tokens s' logged ∧ Stop e s')
      (ScriptFront.parseStream s) (ScriptFront.parseStream (⟨s, []⟩ : Logged σ)) := by
  have hstart : ParsesLogged Inv tokens { stream := s } { stream := ⟨s, []⟩ } :=
    ⟨⟨rfl, by rwa [List.append_nil]⟩, rfl, rfl⟩
  have hrun := (h.simulation tokens (some maxDepth)).program compositional_eq
    (h.advance_logged hstart) fun _ _ hrel _ => h.advance_logged hrel
  unfold ScriptFront.parseStream
  cases hplain : Grammar.program (some maxDepth) { stream := s } <;>
    cases hlogged : Grammar.program (some maxDepth) { stream := (⟨s, []⟩ : Logged σ) } <;>
    rw [hplain, hlogged] at hrun
  · exact ⟨congrArg Program.mk (eq_of_retained hrun.1), hrun.2.logs⟩
  · exact False.elim hrun
  · exact False.elim hrun
  · exact hrun

end

/-- The tokens that a parse reads from a stream. -/
def readBy (s : σ) : List Token :=
  (stateAfter (ScriptFront.parseStream (⟨s, []⟩ : Logged σ))).log

/-- What every token keeps, a whole parse keeps with the tokens that it reads. -/
theorem Logging.parseStream [LawfulTokenStream σ] (h : Logging Inv Stop) {s : σ}
    {tokens : List Token} (hinv : Inv s tokens) :
    Lands (fun _ next => Inv next (tokens ++ readBy s))
      (fun fault next => Inv next (tokens ++ readBy s) ∧ Stop fault next)
      (ScriptFront.parseStream s) := by
  have htogether := h.together_parseStream hinv
  unfold readBy
  cases hplain : ScriptFront.parseStream s <;>
    cases hlogged : ScriptFront.parseStream (⟨s, []⟩ : Logged σ) <;>
    rw [hplain, hlogged] at htogether
  · exact htogether.2.inv
  · exact False.elim htogether
  · exact False.elim htogether
  · exact ⟨htogether.2.1.inv, htogether.2.2⟩

end ScriptFront
