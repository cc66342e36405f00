import ScriptFront.Proofs.Alike

/-!
# ScriptFront.Proofs.Parting

**Two runs side by side.** Rules that take the same steps are run on two related parsers.

* As long as the parsers are related, what becomes of one run becomes of the other (`Together`).
* The runs may part (`Parts`): the first one stops, at a level that is refused to it alone or at a
  failure that the other stream does not have, and the second one goes on alone. All that is known
  of it from then on is that it has gone astray, which no step undoes (`Straying`).

What a single step does is said in `Parting`, and what a whole rule does follows (`Alike.parts`).
Two runs that never part are a `Simulation` (`Alike.simulates`).
-/

namespace ScriptFront

open Grammar

variable {σ τ : Type}

/-! ### Where runs come to -/

/-- The results of two runs belong together: both are values, or both are faults. -/
def Together {ρ ρ' α β : Type} (ok : α → β → ρ → ρ' → Prop)
    (fault : Diagnostic → Diagnostic → ρ → ρ' → Prop) :
    EStateM.Result Diagnostic ρ α → EStateM.Result Diagnostic ρ' β → Prop
  | .ok a p, .ok b q => ok a b p q
  | .error e p, .error f q => fault e f p q
  | _, _ => False

theorem Together.imp {ρ ρ' α β : Type} {ok ok' : α → β → ρ → ρ' → Prop}
    {fault fault' : Diagnostic → Diagnostic → ρ → ρ' → Prop}
    {x : EStateM.Result Diagnostic ρ α} {y : EStateM.Result Diagnostic ρ' β}
    (h : Together ok fault x y) (hok : ∀ a b p q, ok a b p q → ok' a b p q)
    (hfault : ∀ e f p q, fault e f p q → fault' e f p q) : Together ok' fault' x y := by
  cases x <;> cases y
  · exact hok _ _ _ _ h
  · exact False.elim h
  · exact False.elim h
  · exact hfault _ _ _ _ h

/-- Two runs that belong together still do when each goes on with what it has. -/
theorem Together.bind {α β γ δ : Type} {m : α → β → Parser σ → Parser τ → Prop}
    {ok : γ → δ → Parser σ → Parser τ → Prop}
    {fault : Diagnostic → Diagnostic → Parser σ → Parser τ → Prop} {r : Rule σ α} {s : Rule τ β}
    {f : α → Rule σ γ} {g : β → Rule τ δ} {p : Parser σ} {q : Parser τ}
    (h : Together m fault (r p) (s q))
    (hnext : ∀ a b p' q', m a b p' q' → Together ok fault (f a p') (g b q')) :
    Together ok fault ((r >>= f) p) ((s >>= g) q) := by
  simp only [Bind.bind, EStateM.bind]
  cases hr : r p <;> cases hs : s q <;> rw [hr, hs] at h
  · exact hnext _ _ _ _ h
  · exact False.elim h
  · exact False.elim h
  · exact h

/-- Where a run comes to: a value with a property, or a fault with one. -/
def Lands {ρ α : Type} (ok : α → ρ → Prop) (stop : Diagnostic → ρ → Prop) :
    EStateM.Result Diagnostic ρ α → Prop
  | .ok a p => ok a p
  | .error fault p => stop fault p

theorem Lands.imp {ρ α : Type} {ok ok' : α → ρ → Prop} {stop stop' : Diagnostic → ρ → Prop}
    {x : EStateM.Result Diagnostic ρ α} (h : Lands ok stop x) (hok : ∀ a p, ok a p → ok' a p)
    (hstop : ∀ fault p, stop fault p → stop' fault p) : Lands ok' stop' x := by
  cases x
  · exact hok _ _ h
  · exact hstop _ _ h

theorem Lands.bind {α β : Type} {mid : α → Parser σ → Prop} {ok : β → Parser σ → Prop}
    {stop : Diagnostic → Parser σ → Prop} {r : Rule σ α} {f : α → Rule σ β} {p : Parser σ}
    (h : Lands mid stop (r p)) (hnext : ∀ a q, mid a q → Lands ok stop (f a q)) :
    Lands ok stop ((r >>= f) p) := by
  simp only [Bind.bind, EStateM.bind]
  cases hr : r p <;> rw [hr] at h
  · exact hnext _ _ h
  · exact h

/-- A run that goes on alone is astray wherever it comes to. -/
abbrev Strays {ρ β : Type} (Astray : ρ → Prop) (value : β → Prop) :
    EStateM.Result Diagnostic ρ β → Prop :=
  Lands (fun b q => Astray q ∧ value b) fun _ q => Astray q

/-- Two runs belong together, or the first one has stopped and the second one has gone astray. -/
def Parts {ρ ρ' α β : Type} (ok : α → β → ρ → ρ' → Prop)
    (fault : Diagnostic → Diagnostic → ρ → ρ' → Prop) (stop : Diagnostic → ρ → Prop)
    (Astray : ρ' → Prop) (value : β → Prop) (x : EStateM.Result Diagnostic ρ α)
    (y : EStateM.Result Diagnostic ρ' β) : Prop :=
  Together ok fault x y ∨ Lands (fun _ _ => False) stop x ∧ Strays Astray value y

section Parts

variable {α β γ δ : Type} {fault : Diagnostic → Diagnostic → Parser σ → Parser τ → Prop}
  {stop : Diagnostic → Parser σ → Prop} {Astray : Parser τ → Prop}

theorem Parts.imp {ok ok' : α → β → Parser σ → Parser τ → Prop} {value value' : β → Prop}
    {x : EStateM.Result Diagnostic (Parser σ) α} {y : EStateM.Result Diagnostic (Parser τ) β}
    (h : Parts ok fault stop Astray value x y) (hok : ∀ a b p q, ok a b p q → ok' a b p q)
    (hvalue : ∀ b, value b → value' b) : Parts ok' fault stop Astray value' x y := by
  rcases h with h | ⟨hstop, hstrays⟩
  · exact .inl (h.imp hok fun _ _ _ _ hfault => hfault)
  · exact .inr ⟨hstop, hstrays.imp (fun b _ h => ⟨h.1, hvalue b h.2⟩) fun _ _ h => h⟩

/-- Runs that go on with what they have part if they have parted, or in what comes next. -/
theorem Parts.bind {m : α → β → Parser σ → Parser τ → Prop}
    {ok : γ → δ → Parser σ → Parser τ → Prop} {mid : β → Prop} {value : δ → Prop} {r : Rule σ α}
    {s : Rule τ β} {f : α → Rule σ γ} {g : β → Rule τ δ} {p : Parser σ} {q : Parser τ}
    (h : Parts m fault stop Astray mid (r p) (s q))
    (hnext : ∀ a b p' q', m a b p' q' → Parts ok fault stop Astray value (f a p') (g b q'))
    (halone : ∀ b q', Astray q' → mid b → Strays Astray value (g b q')) :
    Parts ok fault stop Astray value ((r >>= f) p) ((s >>= g) q) := by
  rcases h with h | ⟨hstop, hstrays⟩
  · simp only [Bind.bind, EStateM.bind]
    cases hr : r p <;> cases hs : s q <;> rw [hr, hs] at h
    · exact hnext _ _ _ _ h
    · exact False.elim h
    · exact False.elim h
    · exact .inl h
  · exact .inr ⟨hstop.bind fun _ _ h => h.elim, hstrays.bind fun b q' h => halone b q' h.1 h.2⟩

/-- Where nothing goes astray, runs do not part. -/
theorem Parts.together {ok : α → β → Parser σ → Parser τ → Prop} {value : β → Prop}
    {x : EStateM.Result Diagnostic (Parser σ) α} {y : EStateM.Result Diagnostic (Parser τ) β}
    (h : Parts ok fault stop (fun _ => False) value x y) : Together ok fault x y := by
  rcases h with h | ⟨-, hstrays⟩
  · exact h
  · cases y
    · exact hstrays.1.elim
    · exact hstrays.elim

/-- A run that goes on alone comes to a value with a postcondition if that follows from what it has
with some value of the other side. -/
theorem Strays.post {rel : α → β → Prop} {post : α → β → Bool → Prop} {spent : Bool}
    {y : EStateM.Result Diagnostic (Parser τ) β} (h : Strays Astray (fun b => ∃ a, rel a b) y)
    (hpost : ∀ a b, rel a b → post a b spent) :
    Strays Astray (fun b => ∃ a spent, post a b spent) y := by
  refine Lands.imp h ?_ fun _ _ hastray => hastray
  rintro b q ⟨hastray, a, hab⟩
  exact ⟨hastray, a, spent, hpost a b hab⟩

end Parts

variable [TokenStream σ] [TokenStream τ] {limit limit' : Option Nat}

/-! ### Levels that are opened -/

/-- Two rules in levels that are opened, and closed again whatever becomes of them. -/
theorem Together.nested {α β : Type} {ok ok' : α → β → Parser σ → Parser τ → Prop}
    {fault fault' : Diagnostic → Diagnostic → Parser σ → Parser τ → Prop} {r : Rule σ α}
    {s : Rule τ β} {p : Parser σ} {q : Parser τ} (h : Together ok fault (r p.enter) (s q.enter))
    (hopen : limit.any (· ≤ p.depth) = false) (hopen' : limit'.any (· ≤ q.depth) = false)
    (hok : ∀ a b p q, ok a b p q → ok' a b p.leave q.leave)
    (hfault : ∀ e f p q, fault e f p q → fault' e f p.leave q.leave) :
    Together ok' fault' (Rule.nested limit r p) (Rule.nested limit' s q) := by
  simp only [Rule.nested, hopen, hopen', Bool.false_eq_true, if_false]
  cases hr : r p.enter <;> cases hs : s q.enter <;> rw [hr, hs] at h
  · exact hok _ _ _ _ h
  · exact False.elim h
  · exact False.elim h
  · exact hfault _ _ _ _ h

/-- A rule in a level that is opened, and closed again whatever becomes of it. -/
theorem Lands.nested {α : Type} {ok ok' : α → Parser σ → Prop}
    {stop stop' : Diagnostic → Parser σ → Prop} {r : Rule σ α} {p : Parser σ}
    (h : Lands ok stop (r p.enter)) (hopen : limit.any (· ≤ p.depth) = false)
    (hok : ∀ a p, ok a p → ok' a p.leave) (hstop : ∀ e p, stop e p → stop' e p.leave) :
    Lands ok' stop' (Rule.nested limit r p) := by
  simp only [Rule.nested, hopen, Bool.false_eq_true, if_false]
  cases hr : r p.enter <;> rw [hr] at h
  · exact hok _ _ h
  · exact hstop _ _ h

/-! ### Steps -/

/-- A property of a parser that no step undoes. What values the parser comes to does not matter any
more. -/
structure Straying (E : Expr → Expr → Prop) (Astray : Parser τ → Prop) : Prop where
  advance {q} : Astray q → Lands (fun _ q' => Astray q') (fun _ q' => Astray q') (Rule.advance q)
  enter {q} : Astray q → Astray q.enter
  leave {q} : Astray q → Astray q.leave
  related {q} : Astray q → ∀ b, ∃ a, E a b

/-- A relation between two parsers that the steps of rules keep, at every number of levels open,
unless they part. `R` relates the parsers while they run, `Q` where they have stopped at a fault;
`Stop` holds where the first one has stopped early, and the second one is `Astray` from then on. -/
structure Parting (E : Expr → Expr → Prop) (limit limit' : Option Nat)
    (R : Nat → Parser σ → Parser τ → Prop)
    (Q : Nat → Diagnostic → Diagnostic → Parser σ → Parser τ → Prop)
    (Stop : Nat → Diagnostic → Parser σ → Prop) (Astray : Parser τ → Prop) : Prop where
  lookahead {d p q} : R d p q → p.lookahead = q.lookahead
  advance {d p q} : R d p q → p.lookahead ≠ .eof →
    Parts (fun _ _ p' q' => R d p' q') (Q d) (Stop d) Astray (fun _ => True)
      (Rule.advance p) (Rule.advance q)
  unexpected {d p q expected} : R d p q → p.lookahead ∉ expected → expected ≠ [] →
    Q d (p.unexpected expected) (q.unexpected expected) p q
  /-- A level is refused on both sides. -/
  refuse {d p q} : R d p q → limit.any (· ≤ p.depth) = true → limit'.any (· ≤ q.depth) = true →
    Q d (p.unexpected []) (q.unexpected []) p q
  /-- A level is refused on the first side alone. -/
  part {d p q} : R d p q → p.lookahead ≠ .eof → limit.any (· ≤ p.depth) = true →
    limit'.any (· ≤ q.depth) = false → Stop d (p.unexpected []) p ∧ Astray q.enter
  enter {d p q} : R d p q → limit.any (· ≤ p.depth) = false →
    limit'.any (· ≤ q.depth) = false ∧ R (d + 1) p.enter q.enter
  leave {d p q} : R (d + 1) p q → R d p.leave q.leave
  leave_fault {d e f p q} : Q (d + 1) e f p q → Q d e f p.leave q.leave
  leave_stop {d e p} : Stop (d + 1) e p → Stop d e p.leave
  integer {d p q} : R d p q → p.lookahead = .number →
    E (.const (TokenStream.intValue p.stream)) (.const (TokenStream.intValue q.stream))
  identifier {d p q} : R d p q → p.lookahead = .identifier →
    E (.id (TokenStream.ordinal p.stream)) (.id (TokenStream.ordinal q.stream))
  text {d p q} : R d p q → p.lookahead = .string →
    E (.str (TokenStream.stringValue p.stream)) (.str (TokenStream.stringValue q.stream))
  straying : Straying E Astray

/-! ### Tokens pending -/

/-- A token in view that is not the end is pending. -/
theorem Parser.pending_pos {p : Parser σ} (h : p.lookahead ≠ .eof) : 0 < p.pending := by
  unfold Parser.pending
  rw [if_neg h]
  omega

/-- Both parsers of a pair have few enough tokens pending, one fewer where a token has been
spent. -/
def Affords (spent : Bool) (m n : Nat) (p : Parser σ) (q : Parser τ) : Prop :=
  p.pending + spent.toNat ≤ m ∧ q.pending + spent.toNat ≤ n

theorem Affords.of_lt {spent : Bool} {m n : Nat} {p p' : Parser σ} {q q' : Parser τ}
    (h : Affords spent m n p q) (hp : p'.pending < p.pending) (hq : q'.pending < q.pending) :
    Affords true m n p' q' := by
  obtain ⟨hm, hn⟩ := h
  simp only [Affords, Bool.toNat_true]
  omega

theorem Affords.of_le {spent : Bool} {m n : Nat} {p p' : Parser σ} {q q' : Parser τ}
    (h : Affords spent m n p q) (hp : p'.pending ≤ p.pending) (hq : q'.pending ≤ q.pending) :
    Affords spent m n p' q' := by
  obtain ⟨hm, hn⟩ := h
  simp only [Affords]
  omega

/-- Where a token has been spent there are fewer pending than there were. -/
theorem Affords.lt {m n : Nat} {p : Parser σ} {q : Parser τ} (h : Affords true m n p q) :
    p.pending < m ∧ q.pending < n := by
  obtain ⟨hm, hn⟩ := h
  simp only [Bool.toNat_true] at hm hn
  omega

/-- What two rules that take the same steps come to: related parsers, and results with the
postcondition. -/
def Meets {α β : Type} (R : Nat → Parser σ → Parser τ → Prop) (post : α → β → Bool → Prop)
    (d m n : Nat) (a : α) (b : β) (p : Parser σ) (q : Parser τ) : Prop :=
  R d p q ∧ ∃ spent, post a b spent ∧ Affords spent m n p q

/-- What two rules one level further in come to: related results and related parsers, and no
token more than there was. -/
def Keeps {α β : Type} (R : Nat → Parser σ → Parser τ → Prop) (rel : α → β → Prop) (d : Nat)
    (p : Parser σ) (q : Parser τ) (a : α) (b : β) (p' : Parser σ) (q' : Parser τ) : Prop :=
  rel a b ∧ R d p' q' ∧ p'.pending ≤ p.pending ∧ q'.pending ≤ q.pending

theorem Keeps.of_le {α β : Type} {R : Nat → Parser σ → Parser τ → Prop} {rel : α → β → Prop}
    {d : Nat} {p p₁ p₂ : Parser σ} {q q₁ q₂ : Parser τ} {a : α} {b : β}
    (h : Keeps R rel d p₁ q₁ a b p₂ q₂) (hp : p₁.pending ≤ p.pending) (hq : q₁.pending ≤ q.pending) :
    Keeps R rel d p q a b p₂ q₂ :=
  ⟨h.1, h.2.1, Nat.le_trans h.2.2.1 hp, Nat.le_trans h.2.2.2 hq⟩

/-- The rules one level further in run side by side from a pair of parsers. -/
structure Inner.Together (E : Expr → Expr → Prop) (R : Nat → Parser σ → Parser τ → Prop)
    (Q : Nat → Diagnostic → Diagnostic → Parser σ → Parser τ → Prop) (i : Inner σ) (j : Inner τ)
    (d : Nat) (p : Parser σ) (q : Parser τ) : Prop where
  expression : ScriptFront.Together (Keeps R E d p q) (Q d) (i.expression p) (j.expression q)
  sequence : ScriptFront.Together (Keeps R (Retained E) d p q) (Q d) (i.sequence p) (j.sequence q)

/-- The rules one level further in run side by side from a pair of parsers, unless they part. -/
structure Inner.Parts (E : Expr → Expr → Prop) (R : Nat → Parser σ → Parser τ → Prop)
    (Q : Nat → Diagnostic → Diagnostic → Parser σ → Parser τ → Prop)
    (Stop : Nat → Diagnostic → Parser σ → Prop) (Astray : Parser τ → Prop) (i : Inner σ)
    (j : Inner τ) (d : Nat) (p : Parser σ) (q : Parser τ) : Prop where
  expression : ScriptFront.Parts (Keeps R E d p q) (Q d) (Stop d) Astray (fun b => ∃ a, E a b)
    (i.expression p) (j.expression q)
  sequence : ScriptFront.Parts (Keeps R (Retained E) d p q) (Q d) (Stop d) Astray
    (fun m => ∃ l, Retained E l m) (i.sequence p) (j.sequence q)

/-- The rules one level further in go on alone. -/
structure Inner.Strays (E : Expr → Expr → Prop) (Astray : Parser τ → Prop) (j : Inner τ) :
    Prop where
  expression {q} : Astray q → ScriptFront.Strays Astray (fun b => ∃ a, E a b) (j.expression q)
  sequence {q} : Astray q → ScriptFront.Strays Astray (fun m => ∃ l, Retained E l m) (j.sequence q)

/-- What is kept is enough for a postcondition that follows from the results. -/
theorem Parts.post {α β : Type} {R : Nat → Parser σ → Parser τ → Prop}
    {fault : Diagnostic → Diagnostic → Parser σ → Parser τ → Prop}
    {stop : Diagnostic → Parser σ → Prop} {Astray : Parser τ → Prop} {rel : α → β → Prop}
    {post : α → β → Bool → Prop} {spent : Bool} {d m n : Nat} {p : Parser σ} {q : Parser τ}
    {x : EStateM.Result Diagnostic (Parser σ) α} {y : EStateM.Result Diagnostic (Parser τ) β}
    (h : Parts (Keeps R rel d p q) fault stop Astray (fun b => ∃ a, rel a b) x y)
    (hafford : Affords spent m n p q) (hpost : ∀ a b, rel a b → post a b spent) :
    Parts (Meets R post d m n) fault stop Astray (fun b => ∃ a spent, post a b spent) x y := by
  refine h.imp ?_ fun b ⟨a, hab⟩ => ⟨a, spent, hpost a b hab⟩
  intro a b p' q' hkeeps
  obtain ⟨hab, hrel, hp, hq⟩ := hkeeps
  exact ⟨hrel, spent, hpost a b hab, hafford.of_le hp hq⟩

/-! ### A run that goes on alone -/

namespace Straying

variable {E : Expr → Expr → Prop} {Astray : Parser τ → Prop} {α β : Type} {q : Parser τ}

theorem consume (stray : Straying E Astray) (hq : Astray q) :
    Strays Astray (fun _ => True) (Rule.consume q) :=
  Lands.bind (stray.advance hq) fun _ _ hq' => ⟨hq', trivial⟩

/-- The value of a token is related to some other, whatever it is. -/
theorem leaf (stray : Straying E Astray) {post : Expr → Expr → Bool → Prop}
    (hpost : ∀ a b, E a b → post a b true) {value : τ → β} {make : β → Expr} (hq : Astray q) :
    Strays Astray (fun b => ∃ a spent, post a b spent)
      ((do let b ← Rule.payload value; Rule.consume; return make b) q) := by
  refine Lands.bind (r := Rule.consume) (stray.consume hq) fun _ q' h => ?_
  obtain ⟨a, ha⟩ := stray.related h.1 (make (value q.stream))
  exact ⟨h.1, a, true, hpost a _ ha⟩

/-- A level that is opened. -/
theorem inside (stray : Straying E Astray) {s : Rule τ β} {value : β → Prop}
    (h : Strays Astray value (s q.enter)) (hopen : limit.any (· ≤ q.depth) = false) :
    Strays Astray value (Rule.nested limit s q) := by
  refine Lands.nested h hopen ?_ fun _ _ => stray.leave
  exact fun _ _ h => ⟨stray.leave h.1, h.2⟩

theorem nested (stray : Straying E Astray) {s : Rule τ β} {value : β → Prop} (hq : Astray q)
    (h : Strays Astray value (s q.enter)) : Strays Astray value (Rule.nested limit s q) := by
  cases hlimit : limit.any (· ≤ q.depth) with
  | true =>
    simp only [Rule.nested, hlimit, if_true]
    exact hq
  | false => exact stray.inside h hlimit

omit [TokenStream τ] in
/-- A loop goes on alone if each of its steps does. -/
theorem manyWithin {keep : α → β → Prop} {step : β → Rule τ (Option β)}
    (hstep : ∀ a b q, keep a b → Astray q →
      Strays Astray (fun found => ∃ o spent, GoesOn keep o found spent) (step b q)) (rounds : Nat) :
    ∀ a b q, keep a b → Astray q →
      Strays Astray (fun b => ∃ a, keep a b) (Rule.manyWithin step rounds b q) := by
  induction rounds with
  | zero => exact fun a b q hkeep hq => ⟨hq, a, hkeep⟩
  | succ rounds ih =>
    intro a b q hkeep hq
    refine Lands.bind (hstep a b q hkeep hq) ?_
    rintro (_ | b') q' ⟨hq', (_ | a'), spent, hgoes⟩
    · exact ⟨hq', a, hkeep⟩
    · exact False.elim hgoes
    · exact False.elim hgoes
    · exact ih a' b' q' hgoes.1 hq'

end Straying

/-- **A rule that goes on alone stays astray**, and the value it comes to is one that a rule with
the same steps could have come to. -/
theorem Alike.strays {E : Expr → Expr → Prop} {i : Inner σ} {j : Inner τ}
    {Astray : Parser τ → Prop} (stray : Straying E Astray) (hinner : Inner.Strays E Astray j)
    {α β : Type} {spent : Bool} {start : Kind → Prop} {post : α → β → Bool → Prop} {r : Rule σ α}
    {s : Rule τ β} (h : Alike E i j spent start post r s) :
    ∀ q : Parser τ, Astray q → start q.lookahead →
      Strays Astray (fun b => ∃ a spent, post a b spent) (s q) := by
  induction h with
  | pure hpost => exact fun q hq _ => ⟨hq, _, _, hpost⟩
  | fail _ _ => exact fun q hq _ => hq
  | consume _ hpost =>
    exact fun q hq _ => (stray.consume hq).imp (fun _ _ h => ⟨h.1, (), true, hpost⟩) fun _ _ h => h
  | integer _ hpost => exact fun q hq _ => stray.leaf hpost hq
  | identifier _ hpost => exact fun q hq _ => stray.leaf hpost hq
  | text _ hpost => exact fun q hq _ => stray.leaf hpost hq
  | look _ ih => exact fun q hq hstart => ih q.lookahead hstart q hq rfl
  | bind _ _ _ ih ihnext =>
    intro q hq hstart
    refine Lands.bind (ih q hq hstart) fun b q' h => ?_
    obtain ⟨hq', a, spent', hmid⟩ := h
    exact ihnext a b spent' hmid q' hq' trivial
  | nested _ _ ih =>
    exact fun q hq hstart => stray.nested hq (ih q.enter (stray.enter hq) hstart)
  | many keep _ _ _ hkeep hpost ih =>
    intro q hq _
    have hloop := Straying.manyWithin (fun a b q hkeep hq => ih a b hkeep q hq trivial) q.pending
      _ _ q hkeep hq
    exact Strays.post hloop hpost
  | innerExpression hpost => exact fun q hq _ => Strays.post (hinner.expression hq) hpost
  | innerSequence hpost => exact fun q hq _ => Strays.post (hinner.sequence hq) hpost

/-! ### The steps of rules, side by side -/

omit [TokenStream σ] in
/-- A loop that has nothing to do at the end does nothing there, however many rounds it has. -/
theorem manyWithin_of_end {α : Type} {step : α → Rule σ (Option α)}
    (hrest : ∀ a (p : Parser σ), p.lookahead = .eof → step a p = .ok none p) (rounds : Nat) (a : α)
    {p : Parser σ} (hend : p.lookahead = .eof) : Rule.manyWithin step rounds a p = .ok a p := by
  cases rounds with
  | zero => rfl
  | succ rounds =>
    simp only [Rule.manyWithin, Bind.bind, EStateM.bind, hrest a p hend]
    rfl

namespace Parting

variable {E : Expr → Expr → Prop}
  {R : Nat → Parser σ → Parser τ → Prop}
  {Q : Nat → Diagnostic → Diagnostic → Parser σ → Parser τ → Prop}
  {Stop : Nat → Diagnostic → Parser σ → Prop} {Astray : Parser τ → Prop}

/-- Consuming a token before the end leaves both parsers with fewer tokens. -/
theorem consume [LawfulTokenStream σ] [LawfulTokenStream τ]
    (par : Parting E limit limit' R Q Stop Astray) {spent : Bool} {d m n : Nat}
    {p : Parser σ} {q : Parser τ} (h : R d p q) (hkind : p.lookahead ≠ .eof)
    (hafford : Affords spent m n p q) :
    Parts (Meets R (fun _ _ spent => spent = true) d m n) (Q d) (Stop d) Astray (fun _ => True)
      (Rule.consume p) (Rule.consume q) := by
  have hkind' : q.lookahead ≠ .eof := par.lookahead h ▸ hkind
  rcases par.advance h hkind with hadv | ⟨hstop, hstrays⟩
  · left
    simp only [Rule.consume, Bind.bind, EStateM.bind, Pure.pure, EStateM.pure]
    cases hp : Rule.advance p <;> cases hq : Rule.advance q <;> rw [hp, hq] at hadv
    · have hlt := (Rule.pending_of_advance hp).2 hkind
      have hlt' := (Rule.pending_of_advance hq).2 hkind'
      exact ⟨hadv, true, rfl, hafford.of_lt hlt hlt'⟩
    · exact False.elim hadv
    · exact False.elim hadv
    · exact hadv
  · exact .inr ⟨hstop.bind fun _ _ h => h.elim, hstrays.bind fun _ _ h => h⟩

/-- The value of a token is taken before the token is consumed. -/
theorem leaf [LawfulTokenStream σ] [LawfulTokenStream τ]
    (par : Parting E limit limit' R Q Stop Astray) {α : Type} {spent : Bool}
    {post : Expr → Expr → Bool → Prop} {d m n : Nat} {p : Parser σ} {q : Parser τ} {value : σ → α}
    {value' : τ → α} {make : α → Expr} (h : R d p q) (hkind : p.lookahead ≠ .eof)
    (hafford : Affords spent m n p q)
    (hpost : post (make (value p.stream)) (make (value' q.stream)) true) :
    Parts (Meets R post d m n) (Q d) (Stop d) Astray (fun b => ∃ a spent, post a b spent)
      ((do let a ← Rule.payload value; Rule.consume; return make a) p)
      ((do let b ← Rule.payload value'; Rule.consume; return make b) q) := by
  -- taking the value changes nothing, so both rules begin with the token
  refine Parts.bind (r := Rule.consume) (s := Rule.consume) (par.consume h hkind hafford) ?_ ?_
  · intro _ _ p' q' hmeets
    obtain ⟨hrel, _, rfl, hafford'⟩ := hmeets
    exact .inl ⟨hrel, true, hpost, hafford'⟩
  · exact fun _ q' hq' _ => ⟨hq', _, true, hpost⟩

/-- Two loops whose steps belong together, each with rounds enough for the tokens pending, unless
they part. -/
theorem manyWithin (par : Parting E limit limit' R Q Stop Astray) {α β : Type}
    {keep : α → β → Prop} {step : α → Rule σ (Option α)} {step' : β → Rule τ (Option β)}
    {d m n : Nat} (hrest : ∀ a (p : Parser σ), p.lookahead = .eof → step a p = .ok none p)
    (hrest' : ∀ b (q : Parser τ), q.lookahead = .eof → step' b q = .ok none q)
    (halone : ∀ a b q, keep a b → Astray q →
      Strays Astray (fun found => ∃ o spent, GoesOn keep o found spent) (step' b q))
    (hstep : ∀ a b p q, keep a b → R d p q → p.pending ≤ m → q.pending ≤ n →
      Parts (Meets R (GoesOn keep) d p.pending q.pending) (Q d) (Stop d) Astray
        (fun found => ∃ o spent, GoesOn keep o found spent) (step a p) (step' b q)) :
    ∀ (rounds rounds' : Nat) (a : α) (b : β) (p : Parser σ) (q : Parser τ), keep a b → R d p q →
      p.pending ≤ m → q.pending ≤ n → p.pending ≤ rounds → q.pending ≤ rounds' →
      Parts (Keeps R keep d p q) (Q d) (Stop d) Astray (fun b => ∃ a, keep a b)
        (Rule.manyWithin step rounds a p) (Rule.manyWithin step' rounds' b q) := by
  intro rounds
  induction rounds with
  | zero =>
    intro rounds' a b p q hkeep hrel hm hn hrounds hrounds'
    have hend : p.lookahead = .eof := by
      by_contra hkind
      have := Parser.pending_pos hkind
      omega
    rw [manyWithin_of_end hrest' rounds' b (par.lookahead hrel ▸ hend)]
    exact .inl ⟨hkeep, hrel, Nat.le_refl _, Nat.le_refl _⟩
  | succ rounds ih =>
    intro rounds' a b p q hkeep hrel hm hn hrounds hrounds'
    by_cases hend : p.lookahead = .eof
    · rw [manyWithin_of_end hrest (rounds + 1) a hend,
        manyWithin_of_end hrest' rounds' b (par.lookahead hrel ▸ hend)]
      exact .inl ⟨hkeep, hrel, Nat.le_refl _, Nat.le_refl _⟩
    · -- neither side is at its end, so both have a round left
      have hend' : q.lookahead ≠ .eof := par.lookahead hrel ▸ hend
      have hpos := Parser.pending_pos hend'
      obtain ⟨rounds', rfl⟩ : ∃ k, rounds' = k + 1 := ⟨rounds' - 1, by omega⟩
      refine Parts.bind (hstep a b p q hkeep hrel hm hn) ?_ ?_
      · rintro (_ | a') (_ | b') p' q' ⟨hrel', spent, hgoes, hp, hq⟩
        · exact .inl ⟨hkeep, hrel', by omega, by omega⟩
        · exact False.elim hgoes
        · exact False.elim hgoes
        · obtain ⟨hkeep', rfl⟩ := hgoes
          simp only [Bool.toNat_true] at hp hq
          have hrest := ih rounds' a' b' p' q' hkeep' hrel' (by omega) (by omega) (by omega)
            (by omega)
          exact hrest.imp (fun _ _ _ _ hkeeps => hkeeps.of_le (by omega) (by omega))
            fun _ hvalue => hvalue
      · rintro (_ | b') q' hq' ⟨(_ | a'), spent, hgoes⟩
        · exact ⟨hq', a, hkeep⟩
        · exact False.elim hgoes
        · exact False.elim hgoes
        · exact Straying.manyWithin halone rounds' a' b' q' hgoes.1 hq'

end Parting

/-- **Rules that take the same steps run side by side until they part.** From related parsers they
give related results and leave related parsers, or stop at related faults, or the first one stops
early and the second one goes astray. What is taken for granted is that the rules one level further
in do so where fewer than `M` and `N` tokens are pending. -/
theorem Alike.parts [LawfulTokenStream σ] [LawfulTokenStream τ] {E : Expr → Expr → Prop}
    {i : Inner σ} {j : Inner τ} {R : Nat → Parser σ → Parser τ → Prop}
    {Q : Nat → Diagnostic → Diagnostic → Parser σ → Parser τ → Prop}
    {Stop : Nat → Diagnostic → Parser σ → Prop} {Astray : Parser τ → Prop}
    (par : Parting E i.limit j.limit R Q Stop Astray) (halone : Inner.Strays E Astray j) {M N : Nat}
    (hinner : ∀ d p q, R d p q → p.pending < M → q.pending < N →
      Inner.Parts E R Q Stop Astray i j d p q)
    {α β : Type} {spent : Bool} {start : Kind → Prop} {post : α → β → Bool → Prop} {r : Rule σ α}
    {s : Rule τ β} (h : Alike E i j spent start post r s) :
    ∀ (d m n : Nat) (p : Parser σ) (q : Parser τ), m ≤ M → n ≤ N → R d p q → start p.lookahead →
      Affords spent m n p q →
      Parts (Meets R post d m n) (Q d) (Stop d) Astray (fun b => ∃ a spent, post a b spent)
        (r p) (s q) := by
  induction h with
  | pure hpost =>
    intro d m n p q _ _ hrel _ hafford
    exact .inl ⟨hrel, _, hpost, hafford⟩
  | fail hexpected hne =>
    intro d m n p q _ _ hrel hstart _
    exact .inl (par.unexpected hrel (hexpected _ hstart) hne)
  | consume hkind hpost =>
    intro d m n p q _ _ hrel hstart hafford
    refine (par.consume hrel (hkind _ hstart) hafford).imp ?_ fun _ _ => ⟨(), true, hpost⟩
    intro _ _ p' q' hmeets
    obtain ⟨hrel', _, rfl, hafford'⟩ := hmeets
    exact ⟨hrel', true, hpost, hafford'⟩
  | integer hkind hpost =>
    intro d m n p q _ _ hrel hstart hafford
    have hkind := hkind _ hstart
    exact par.leaf hrel (by rw [hkind]; decide) hafford (hpost _ _ (par.integer hrel hkind))
  | identifier hkind hpost =>
    intro d m n p q _ _ hrel hstart hafford
    have hkind := hkind _ hstart
    exact par.leaf hrel (by rw [hkind]; decide) hafford (hpost _ _ (par.identifier hrel hkind))
  | text hkind hpost =>
    intro d m n p q _ _ hrel hstart hafford
    have hkind := hkind _ hstart
    exact par.leaf hrel (by rw [hkind]; decide) hafford (hpost _ _ (par.text hrel hkind))
  | look _ ih =>
    intro d m n p q hM hN hrel hstart hafford
    simp only [Rule.lookahead, Bind.bind, EStateM.bind]
    rw [← par.lookahead hrel]
    exact ih p.lookahead hstart d m n p q hM hN hrel rfl hafford
  | bind _ _ hnext ih ihnext =>
    intro d m n p q hM hN hrel hstart hafford
    refine Parts.bind (ih d m n p q hM hN hrel hstart hafford) ?_ ?_
    · intro a b p' q' hmeets
      obtain ⟨hrel', spent', hmid, hafford'⟩ := hmeets
      exact ihnext a b spent' hmid d m n p' q' hM hN hrel' trivial hafford'
    · rintro b q' hq' ⟨a, spent', hmid⟩
      exact (hnext a b spent' hmid).strays par.straying halone q' hq' trivial
  | @nested _ _ _ _ _ r s hkind hrule ih =>
    intro d m n p q hM hN hrel hstart hafford
    cases hlimit : i.limit.any (· ≤ p.depth) with
    | true =>
      cases hlimit' : j.limit.any (· ≤ q.depth) with
      | true =>
        simp only [Rule.nested, hlimit, hlimit', if_true]
        exact .inl (par.refuse hrel hlimit hlimit')
      | false =>
        -- the second run opens the level that is refused to the first, and is alone from there
        obtain ⟨hstop, hastray⟩ := par.part hrel (hkind _ hstart) hlimit hlimit'
        have hrun := hrule.strays par.straying halone q.enter hastray
          (par.lookahead hrel ▸ hstart)
        refine .inr ⟨?_, par.straying.inside hrun hlimit'⟩
        simp only [Rule.nested, hlimit, if_true]
        exact hstop
    | false =>
      obtain ⟨hlimit', henter⟩ := par.enter hrel hlimit
      rcases ih (d + 1) m n p.enter q.enter hM hN henter hstart hafford with hrun | ⟨hstop, hrun⟩
      · refine .inl (hrun.nested hlimit hlimit' ?_ fun _ _ _ _ => par.leave_fault)
        exact fun _ _ _ _ h => ⟨par.leave h.1, h.2⟩
      · exact .inr ⟨hstop.nested hlimit (fun _ _ h => h) fun _ _ => par.leave_stop,
          par.straying.inside hrun hlimit'⟩
  | many keep hrest hrest' hstep hkeep hpost ih =>
    intro d m n p q hM hN hrel hstart hafford
    have hbound : p.pending ≤ M ∧ q.pending ≤ N := by
      obtain ⟨hm, hn⟩ := hafford
      omega
    -- a round is measured from where it begins, so it begins with nothing spent
    have hround (a' b' p' q') (hkeep' : keep a' b') (hrel' : R d p' q')
        (hp : p'.pending ≤ p.pending) (hq : q'.pending ≤ q.pending) :=
      ih a' b' hkeep' d p'.pending q'.pending p' q' (by omega) (by omega) hrel' trivial
        ⟨Nat.le_refl _, Nat.le_refl _⟩
    have halone' (a' b' q') (hkeep' : keep a' b') (hq' : Astray q') :=
      (hstep a' b' hkeep').strays par.straying halone q' hq' trivial
    have hloop := par.manyWithin hrest hrest' halone' hround p.pending q.pending _ _ p q hkeep hrel
      (Nat.le_refl _) (Nat.le_refl _) (Nat.le_refl _) (Nat.le_refl _)
    exact hloop.post hafford hpost
  | innerExpression hpost =>
    intro d m n p q hM hN hrel _ hafford
    have hlt := hafford.lt
    exact (hinner d p q hrel (by omega) (by omega)).expression.post hafford hpost
  | innerSequence hpost =>
    intro d m n p q hM hN hrel _ hafford
    have hlt := hafford.lt
    exact (hinner d p q hrel (by omega) (by omega)).sequence.post hafford hpost

/-! ### Two runs that never part -/

/-- A relation between two parsers that the steps of rules keep, at every number of levels open.
`R` relates the parsers while they run, `Q` where they have stopped at a fault. -/
structure Simulation (E : Expr → Expr → Prop) (limit limit' : Option Nat)
    (R : Nat → Parser σ → Parser τ → Prop)
    (Q : Nat → Diagnostic → Diagnostic → Parser σ → Parser τ → Prop) : Prop where
  lookahead {d p q} : R d p q → p.lookahead = q.lookahead
  advance {d p q} : R d p q → p.lookahead ≠ .eof →
    Together (fun _ _ p' q' => R d p' q') (Q d) (Rule.advance p) (Rule.advance q)
  unexpected {d p q expected} : R d p q → p.lookahead ∉ expected →
    Q d (p.unexpected expected) (q.unexpected expected) p q
  refusal {d p q} : R d p q → limit.any (· ≤ p.depth) = limit'.any (· ≤ q.depth)
  enter {d p q} : R d p q → limit.any (· ≤ p.depth) = false → R (d + 1) p.enter q.enter
  leave {d p q} : R (d + 1) p q → R d p.leave q.leave
  leave_fault {d e f p q} : Q (d + 1) e f p q → Q d e f p.leave q.leave
  integer {d p q} : R d p q → p.lookahead = .number →
    E (.const (TokenStream.intValue p.stream)) (.const (TokenStream.intValue q.stream))
  identifier {d p q} : R d p q → p.lookahead = .identifier →
    E (.id (TokenStream.ordinal p.stream)) (.id (TokenStream.ordinal q.stream))
  text {d p q} : R d p q → p.lookahead = .string →
    E (.str (TokenStream.stringValue p.stream)) (.str (TokenStream.stringValue q.stream))

section Simulation

variable {E : Expr → Expr → Prop}
  {R : Nat → Parser σ → Parser τ → Prop}
  {Q : Nat → Diagnostic → Diagnostic → Parser σ → Parser τ → Prop}

/-- Two runs that never part, as two that might. -/
theorem Simulation.parting (sim : Simulation E limit limit' R Q) :
    Parting E limit limit' R Q (fun _ _ _ => False) fun _ => False where
  lookahead := sim.lookahead
  advance hrel hkind := .inl (sim.advance hrel hkind)
  unexpected hrel hkind _ := sim.unexpected hrel hkind
  refuse hrel _ _ := sim.unexpected hrel List.not_mem_nil
  part hrel _ hlimit hlimit' := by
    rw [sim.refusal hrel, hlimit'] at hlimit
    cases hlimit
  enter hrel hlimit := ⟨sim.refusal hrel ▸ hlimit, sim.enter hrel hlimit⟩
  leave := sim.leave
  leave_fault := sim.leave_fault
  leave_stop := id
  integer := sim.integer
  identifier := sim.identifier
  text := sim.text
  straying := ⟨False.elim, id, id, False.elim⟩

/-- **Rules that take the same steps run side by side.** From related parsers they give related
results and leave related parsers, or stop at related faults. What is taken for granted is that
the rules one level further in do so where fewer than `M` and `N` tokens are pending. -/
theorem Alike.simulates [LawfulTokenStream σ] [LawfulTokenStream τ] {i : Inner σ} {j : Inner τ}
    (sim : Simulation E i.limit j.limit R Q) {M N : Nat}
    (hinner : ∀ d p q, R d p q → p.pending < M → q.pending < N → Inner.Together E R Q i j d p q)
    {α β : Type} {spent : Bool} {start : Kind → Prop} {post : α → β → Bool → Prop} {r : Rule σ α}
    {s : Rule τ β} (h : Alike E i j spent start post r s) (d m n : Nat) (p : Parser σ)
    (q : Parser τ) (hm : m ≤ M) (hn : n ≤ N) (hrel : R d p q) (hstart : start p.lookahead)
    (hafford : Affords spent m n p q) : Together (Meets R post d m n) (Q d) (r p) (s q) := by
  have hparts := h.parts sim.parting ⟨False.elim, False.elim⟩ (M := M) (N := N)
    (fun d' p' q' hrel' hp hq => by
      have htogether := hinner d' p' q' hrel' hp hq
      exact ⟨.inl htogether.expression, .inl htogether.sequence⟩)
    d m n p q hm hn hrel hstart hafford
  exact hparts.together

end Simulation

end ScriptFront
