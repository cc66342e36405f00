import ScriptFront.Proofs.Levels

/-!
# ScriptFront.Proofs.Invariant

**What every token keeps, a whole parse keeps.** A parser meets its stream only through the tokens
that it reads, so a property of the stream and the kind in view that each token keeps holds
wherever the parser comes to, and what follows from it where the parser stops holds of the
diagnostic.
-/

namespace ScriptFront

open Grammar

variable {σ α β : Type} {Inv : σ → Kind → Prop} {Stop : Diagnostic → σ → Prop}

variable [TokenStream σ]

/-- A property of a stream and the kind in view that every token before the end keeps. -/
structure Invariant (Inv : σ → Kind → Prop) (Stop : Diagnostic → σ → Prop) : Prop where
  advance {s : σ} {kind : Kind} : Inv s kind → kind ≠ .eof →
    Lands (fun next s' => Inv s' next) Stop (TokenStream.advance s)
  /-- A token that is none of those that are expected is a fault as well. -/
  unexpected {p : Parser σ} {expected : List Kind} : Inv p.stream p.lookahead →
    p.lookahead ∉ expected → Stop (p.unexpected expected) p.stream
  /-- Behind the end there is no fault. -/
  rest {s : σ} : Inv s .eof → ∃ kind s', TokenStream.advance s = .ok kind s'

/-- A step beside itself. -/
theorem Invariant.together_advance {p : Parser σ}
    (h : Lands (fun next s => Inv s next) Stop (TokenStream.advance p.stream)) :
    Together (fun _ _ p q => p = q ∧ Inv p.stream p.lookahead)
      (fun e f p q => (e = f ∧ p = q) ∧ Stop e p.stream) (Rule.advance p) (Rule.advance p) := by
  cases hadvance : TokenStream.advance p.stream with
  | ok kind s =>
    rw [hadvance] at h
    rw [Rule.advance_of_ok hadvance]
    exact ⟨rfl, h⟩
  | error fault s =>
    rw [hadvance] at h
    rw [Rule.advance_of_error hadvance]
    exact ⟨⟨rfl, rfl⟩, h⟩

/-- The property is kept by a parser that takes the same steps as itself. -/
theorem Invariant.simulation (h : Invariant Inv Stop) (limit : Option Nat) :
    Simulation Eq limit limit (fun _ (p q : Parser σ) => p = q ∧ Inv p.stream p.lookahead)
      (fun _ e f p q => (e = f ∧ p = q) ∧ Stop e p.stream) := by
  refine simulation_self limit (fun p hinv hkind => ?_) (fun _ _ hinv => h.unexpected hinv)
    (fun _ hinv => hinv) (fun _ hinv => hinv) fun _ _ hstop => hstop
  have hstep := h.advance hinv hkind
  cases hadvance : TokenStream.advance p.stream <;> rw [hadvance] at hstep
  · rw [Rule.advance_of_ok hadvance]
    exact hstep
  · rw [Rule.advance_of_error hadvance]
    exact hstep

/-- **The property holds where a whole parse ends**, with the end in view, and where it stops at a
fault what is known of that does. -/
theorem Invariant.parseStream [LawfulTokenStream σ] (h : Invariant Inv Stop) {s : σ}
    (hstart : Lands (fun kind s' => Inv s' kind) Stop (TokenStream.advance s)) :
    Lands (fun _ _ => ∃ s', Inv s' .eof) Stop (ScriptFront.parseStream s) := by
  have hlast (p q : Parser σ) (hrel : p = q ∧ Inv p.stream p.lookahead)
      (hend : p.lookahead = .eof) :
      Together (fun _ _ _ _ => ∃ s', Inv s' .eof)
        (fun e f p q => (e = f ∧ p = q) ∧ Stop e p.stream) (Rule.advance p) (Rule.advance q) := by
    obtain ⟨rfl, hinv⟩ := hrel
    rw [hend] at hinv
    obtain ⟨kind, s', hadvance⟩ := h.rest hinv
    rw [Rule.advance_of_ok hadvance]
    exact ⟨p.stream, hinv⟩
  have hprogram := (h.simulation (some maxDepth)).program compositional_eq
    (Invariant.together_advance hstart) hlast
  unfold ScriptFront.parseStream
  cases hrun : Grammar.program (some maxDepth) { stream := s } <;> rw [hrun] at hprogram <;>
    exact hprogram.2

end ScriptFront
