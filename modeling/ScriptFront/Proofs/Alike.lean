import Mathlib.Data.List.Forall2
import ScriptFront.Grammar.Program

/-!
# ScriptFront.Proofs.Alike

**Rules that take the same steps.** A rule of the grammar can be run over any token stream, and
what it does is the same over each of them: it looks at the kind in view, consumes, takes a value,
enters a level. `Alike` relates a rule over one stream to the rule over another stream that takes
the same steps, with one constructor for each way to make a rule. What holds of two related
parsers whatever steps they take together is then proved once, by induction on `Alike`, and not
rule by rule.

`Alike E i j spent start post r s` says besides when the steps are taken:

* `start` holds of the kind in view when the rules begin;
* `spent` tells whether a token has been consumed before they begin, and `post` relates the
  results, together with whether a token has surely been consumed by then;
* the rules one level further in, `i` and `j`, are used only after a token has been consumed, and
  a loop consumes a token each time round. This is what makes the counts that bound a run large
  enough.

The parameter `E` relates the expressions that the two streams give rise to.
-/

namespace ScriptFront

open Grammar

variable {σ τ : Type} [TokenStream σ] [TokenStream τ]

/-- What a step of a loop gives on two sides: either both loops are done, or both go on with
related values, and then a token has been consumed. -/
def GoesOn {α β : Type} (keep : α → β → Prop) : Option α → Option β → Bool → Prop
  | none, none, _ => True
  | some a, some b, spent => keep a b ∧ spent = true
  | _, _, _ => False

/-- The retained statements of two runs, one by one. -/
def Retained (E : Expr → Expr → Prop) : List Statement → List Statement → Prop :=
  List.Forall₂ fun s t => E s.value t.value

/-- Two rules that take the same steps, each over its own stream. -/
inductive Alike (E : Expr → Expr → Prop) (i : Inner σ) (j : Inner τ) :
    {α β : Type} → Bool → (Kind → Prop) → (α → β → Bool → Prop) → Rule σ α → Rule τ β → Prop
  | pure {α β : Type} {spent : Bool} {start : Kind → Prop} {post : α → β → Bool → Prop} {a : α}
      {b : β} (h : post a b spent) : Alike E i j spent start post (pure a) (pure b)
  /-- No rule refuses a kind that it then names as expected, and every rule names some. -/
  | fail {α β : Type} {spent : Bool} {start : Kind → Prop} {post : α → β → Bool → Prop}
      {expected : List Kind} (h : ∀ kind, start kind → kind ∉ expected) (hne : expected ≠ []) :
      Alike E i j spent start post (Rule.fail expected) (Rule.fail expected)
  /-- No rule consumes the end. -/
  | consume {spent : Bool} {start : Kind → Prop} {post : Unit → Unit → Bool → Prop}
      (h : ∀ kind, start kind → kind ≠ .eof) (hpost : post () () true) :
      Alike E i j spent start post Rule.consume Rule.consume
  | integer {spent : Bool} {start : Kind → Prop} {post : Expr → Expr → Bool → Prop}
      (h : ∀ kind, start kind → kind = .number) (hpost : ∀ a b, E a b → post a b true) :
      Alike E i j spent start post integer integer
  | identifier {spent : Bool} {start : Kind → Prop} {post : Expr → Expr → Bool → Prop}
      (h : ∀ kind, start kind → kind = .identifier) (hpost : ∀ a b, E a b → post a b true) :
      Alike E i j spent start post identifier identifier
  | text {spent : Bool} {start : Kind → Prop} {post : Expr → Expr → Bool → Prop}
      (h : ∀ kind, start kind → kind = .string) (hpost : ∀ a b, E a b → post a b true) :
      Alike E i j spent start post text text
  | look {α β : Type} {spent : Bool} {start : Kind → Prop} {post : α → β → Bool → Prop}
      {f : Kind → Rule σ α} {g : Kind → Rule τ β}
      (h : ∀ kind, start kind → Alike E i j spent (· = kind) post (f kind) (g kind)) :
      Alike E i j spent start post (Rule.lookahead >>= f) (Rule.lookahead >>= g)
  | bind {α β γ δ : Type} {spent : Bool} {start : Kind → Prop} (mid : α → β → Bool → Prop)
      {post : γ → δ → Bool → Prop} {r : Rule σ α} {s : Rule τ β} {f : α → Rule σ γ}
      {g : β → Rule τ δ} (h : Alike E i j spent start mid r s)
      (hnext : ∀ a b spent', mid a b spent' →
        Alike E i j spent' (fun _ => True) post (f a) (g b)) :
      Alike E i j spent start post (r >>= f) (s >>= g)
  /-- The end opens no level. -/
  | nested {α β : Type} {spent : Bool} {start : Kind → Prop} {post : α → β → Bool → Prop}
      {r : Rule σ α} {s : Rule τ β} (hkind : ∀ kind, start kind → kind ≠ .eof)
      (h : Alike E i j spent start post r s) :
      Alike E i j spent start post (Rule.nested i.limit r) (Rule.nested j.limit s)
  /-- A loop, which has nothing to do at the end. -/
  | many {α β : Type} {spent : Bool} {start : Kind → Prop} {post : α → β → Bool → Prop}
      (keep : α → β → Prop) {step : α → Rule σ (Option α)} {step' : β → Rule τ (Option β)} {a : α}
      {b : β} (hrest : ∀ a (p : Parser σ), p.lookahead = .eof → step a p = .ok none p)
      (hrest' : ∀ b (q : Parser τ), q.lookahead = .eof → step' b q = .ok none q)
      (hstep : ∀ a b, keep a b →
        Alike E i j false (fun _ => True) (GoesOn keep) (step a) (step' b))
      (hkeep : keep a b) (hpost : ∀ a b, keep a b → post a b spent) :
      Alike E i j spent start post (Rule.many step a) (Rule.many step' b)
  | innerExpression {start : Kind → Prop} {post : Expr → Expr → Bool → Prop}
      (hpost : ∀ a b, E a b → post a b true) :
      Alike E i j true start post i.expression j.expression
  | innerSequence {start : Kind → Prop} {post : List Statement → List Statement → Bool → Prop}
      (hpost : ∀ l m, Retained E l m → post l m true) :
      Alike E i j true start post i.sequence j.sequence

/-! ### A step of the stream -/

section

variable {p : Parser σ} {stream : σ}

theorem Rule.advance_of_ok {kind : Kind} (h : TokenStream.advance p.stream = .ok kind stream) :
    Rule.advance p = .ok kind { p with stream := stream, lookahead := kind } := by
  unfold Rule.advance
  rw [h]

theorem Rule.advance_of_error {fault : Diagnostic}
    (h : TokenStream.advance p.stream = .error fault stream) :
    Rule.advance p = .error fault { p with stream := stream } := by
  unfold Rule.advance
  rw [h]

end

end ScriptFront
