import ScriptFront.Proofs.Spelling

/-!
# ScriptFront.Proofs.Returning

**What a rule has consumed when it returns.** `Returns` says that the symbols which a rule has
consumed are related to what it returns. It is the converse of `Yields`: there the symbols ahead
are given, and the rule is found to consume them; here the rule is known to have returned. Nothing
is said of what comes behind the symbols, because a rule may well return where its caller cannot go
on.

An expression that is returned is spelled by what has been consumed (`returns_expression`).
-/

namespace ScriptFront

open Grammar

variable {σ α β : Type} [TokenStream σ]

/-- Whenever the rule returns, having begun at `d` open levels with a kind of the given ones in
view, it has consumed symbols that are related to what it returns, and left as many levels open. -/
def Returns (start : Kind → Prop) (r : Rule σ α) (d : Nat) (post : List Symbol → α → Prop) : Prop :=
  ∀ (p p' : Parser σ) (a : α), start p.lookahead → p.depth = d → r p = .ok a p' →
    ∃ w, Trail w p.stream p.lookahead p'.stream p'.lookahead ∧ p'.depth = d ∧ post w a

/-- The symbols are a single one, of the given kind. -/
def SingleOf (kind : Kind) (w : List Symbol) : Prop :=
  ∃ symbol, w = [symbol] ∧ symbol.kind = kind

/-- What one round of a loop has consumed, where `w` has been consumed before: nothing if the loop
is done, and otherwise what relates all of it to the next value. -/
def Extends (mid : List Symbol → α → Prop) (w v : List Symbol) : Option α → Prop
  | none => v = []
  | some a => mid (w ++ v) a

variable {start : Kind → Prop} {r : Rule σ α} {f : α → Rule σ β} {d limit : Nat} {kind : Kind}
  {mid : List Symbol → α → Prop} {post : List Symbol → β → Prop}

/-! ### The steps of rules -/

theorem Returns.imp {post' : List Symbol → α → Prop} (h : Returns start r d mid)
    (himp : ∀ w a, mid w a → post' w a) : Returns start r d post' := by
  intro p p' a hstart hd hrun
  obtain ⟨w, htrail, hdepth, hmid⟩ := h p p' a hstart hd hrun
  exact ⟨w, htrail, hdepth, himp w a hmid⟩

theorem Returns.pure {b : β} (h : post [] b) : Returns start (Pure.pure b : Rule σ β) d post := by
  intro p p' a _ hd hrun
  cases hrun
  exact ⟨[], ⟨rfl, rfl⟩, hd, h⟩

theorem Returns.fail {expected : List Kind} :
    Returns start (Rule.fail expected : Rule σ β) d post :=
  fun _ _ _ _ _ hrun => nomatch hrun

theorem Returns.bind (hr : Returns start r d mid)
    (hf : ∀ w a, mid w a → Returns Any (f a) d fun v b => post (w ++ v) b) :
    Returns start (r >>= f) d post := by
  intro p p' b hstart hd hrun
  simp only [Bind.bind, EStateM.bind] at hrun
  cases hfirst : r p with
  | error fault q =>
    rw [hfirst] at hrun
    cases hrun
  | ok a q =>
    rw [hfirst] at hrun
    obtain ⟨w, htrail, hdepth, hmid⟩ := hr p q a hstart hd hfirst
    obtain ⟨v, htrail', hdepth', hpost⟩ := hf w a hmid q p' b trivial hdepth hrun
    exact ⟨w ++ v, Trail.append.mpr ⟨_, _, htrail, htrail'⟩, hdepth', hpost⟩

theorem Returns.look {f : Kind → Rule σ β}
    (h : ∀ kind, start kind → Returns (· = kind) (f kind) d post) :
    Returns start (Rule.lookahead >>= f) d post :=
  fun p p' b hstart hd hrun => h p.lookahead hstart p p' b rfl hd hrun

theorem Returns.consume (hkind : kind ≠ .eof) :
    Returns (· = kind) (Rule.consume : Rule σ Unit) d fun w _ => SingleOf kind w := by
  rintro p p' _ rfl hd hrun
  simp only [Rule.consume, Bind.bind, EStateM.bind] at hrun
  cases hadvance : TokenStream.advance p.stream with
  | error fault s =>
    rw [Rule.advance_of_error hadvance] at hrun
    cases hrun
  | ok next s =>
    rw [Rule.advance_of_ok hadvance] at hrun
    cases hrun
    refine ⟨[Symbol.inView p.stream p.lookahead], ?_, hd, _, rfl, Symbol.kind_inView ..⟩
    exact ⟨rfl, hkind, s, next, hadvance, rfl, rfl⟩

theorem Returns.expect (hkind : kind ≠ .eof) :
    Returns start (Rule.expect kind : Rule σ Unit) d fun w _ => SingleOf kind w := by
  refine Returns.look fun seen _ => ?_
  by_cases hseen : seen = kind
  · rw [if_pos hseen, hseen]
    exact Returns.consume hkind
  · rw [if_neg hseen]
    exact Returns.fail

/-- A token that makes a leaf. -/
theorem Returns.leaf {value : σ → α} {make : α → Expr} (hkind : kind ≠ .eof)
    (hleaf : ∀ s : σ, (Symbol.inView s kind).leaf = make (value s)) :
    Returns (· = kind)
      (do let a ← Rule.payload value; Rule.consume; return make a : Rule σ Expr) d
      fun w e => ∃ symbol, w = [symbol] ∧ symbol.kind = kind ∧ e = symbol.leaf := by
  rintro p p' e rfl hd hrun
  -- the value is that of the symbol in view, which is the one that is consumed then
  have hconsume : Returns (· = p.lookahead)
      (Rule.consume >>= fun _ => Pure.pure (make (value p.stream)) : Rule σ Expr) d
      fun w e => SingleOf p.lookahead w ∧ e = make (value p.stream) := by
    refine Returns.bind (Returns.consume hkind) fun w _ hw => Returns.pure ⟨?_, rfl⟩
    rwa [List.append_nil]
  obtain ⟨_, htrail, hdepth, ⟨symbol, rfl, hsymbol⟩, rfl⟩ := hconsume p p' e rfl hd hrun
  refine ⟨[symbol], htrail, hdepth, symbol, rfl, hsymbol, ?_⟩
  rw [htrail.1, hleaf]

theorem Returns.nested (h : d < limit → Returns start r (d + 1) mid) :
    Returns start (Rule.nested (some limit) r) d mid := by
  rintro p p' a hstart rfl hrun
  unfold Rule.nested at hrun
  split at hrun
  · cases hrun
  · next hopen =>
    have hlt : p.depth < limit := by simpa using hopen
    cases hinside : r p.enter with
    | error fault q =>
      rw [hinside] at hrun
      cases hrun
    | ok value q =>
      rw [hinside] at hrun
      cases hrun
      obtain ⟨w, htrail, hdepth, hpost⟩ := h hlt p.enter q a hstart rfl hinside
      refine ⟨w, htrail, ?_, hpost⟩
      simp only [Parser.leave, hdepth, Nat.add_sub_cancel]

/-- A loop, which keeps what relates the symbols to what it repeats its step on. By induction on the
number of tokens pending. -/
theorem Returns.many (mid : List Symbol → α → Prop) {step : α → Rule σ (Option α)}
    (hloop : Loop step) (hstep : ∀ w a, mid w a → Returns Any (step a) d (Extends mid w)) {a : α}
    {w : List Symbol} (ha : mid w a) :
    Returns Any (Rule.many step a) d fun v b => mid (w ++ v) b := by
  intro p
  induction hpending : p.pending using Nat.strongRecOn generalizing p a w with
  | ind pending ih =>
    intro p' b _ hd hrun
    rw [hloop.many_eq a] at hrun
    simp only [Bind.bind, EStateM.bind] at hrun
    cases hround : step a p with
    | error fault q =>
      rw [hround] at hrun
      cases hrun
    | ok found q =>
      rw [hround] at hrun
      obtain ⟨v, htrail, hdepth, hfound⟩ := hstep w a ha p q found trivial hd hround
      cases found with
      | none =>
        cases hrun
        obtain rfl : v = [] := hfound
        refine ⟨[], htrail, hdepth, ?_⟩
        show mid (w ++ []) a
        rwa [List.append_nil]
      | some a' =>
        have hless := hloop.spend hround
        obtain ⟨u, htrail', hdepth', hmid⟩ :=
          ih q.pending (hpending ▸ hless) hfound q rfl p' b trivial hdepth hrun
        rw [List.append_assoc] at hmid
        exact ⟨v ++ u, Trail.append.mpr ⟨_, _, htrail, htrail'⟩, hdepth', hmid⟩

/-! ### Expressions -/

section Expression

variable {inside spelling : Spelling} {among : BinaryOp → Bool} {operand : Rule σ Expr}

/-- The rule for expressions one level further in returns what is spelled there, if a level can
still be opened. -/
def InnerReturns (σ : Type) [TokenStream σ] (limit d : Nat) (inside : Spelling) : Prop :=
  d < limit → Returns Any (Inner.whole (some limit) : Inner σ).expression (d + 1) inside

theorem returns_primary (h : InnerReturns σ limit d inside) :
    Returns Any (primary (Inner.whole (some limit) : Inner σ)) d (Spelling.Primary inside) := by
  have hinteger : Returns (· = .number) (integer : Rule σ Expr) d
      fun w e => ∃ symbol, w = [symbol] ∧ symbol.kind = .number ∧ e = symbol.leaf :=
    Returns.leaf (by decide) fun _ => rfl
  have hidentifier : Returns (· = .identifier) (identifier : Rule σ Expr) d
      fun w e => ∃ symbol, w = [symbol] ∧ symbol.kind = .identifier ∧ e = symbol.leaf :=
    Returns.leaf (by decide) fun _ => rfl
  refine Returns.look fun kind _ => ?_
  split
  · refine hinteger.imp ?_
    rintro _ _ ⟨symbol, rfl, hkind, rfl⟩
    exact .leaf (.inl hkind)
  · refine hidentifier.imp ?_
    rintro _ _ ⟨symbol, rfl, hkind, rfl⟩
    exact .leaf (.inr hkind)
  · refine Returns.nested fun hd => Returns.bind (Returns.consume (by decide)) ?_
    rintro _ _ ⟨opening, rfl, hopening⟩
    refine Returns.bind (h hd) fun w e he => Returns.bind (Returns.expect (by decide)) ?_
    rintro _ _ ⟨closing, rfl, hclosing⟩
    refine Returns.pure ?_
    rw [List.append_nil]
    exact .parenthesised hopening he hclosing
  · exact Returns.fail

/-- An operator in view, and the operand behind it, of which something is made. -/
theorem returns_right {op : BinaryOp} {whole : List Symbol → α → Prop} {f : Expr → α}
    (hkind : (BinaryOp.ofKind? kind).filter among = some op)
    (hoperand : Returns Any operand d spelling)
    (hwhole : ∀ symbol v r, op.kind = symbol.kind → among op = true → spelling v r →
      whole (symbol :: v) (f r)) :
    Returns (· = kind) (do Rule.consume; let right ← operand; return f right : Rule σ α) d
      whole := by
  obtain ⟨hof, hamong⟩ := Option.filter_eq_some_iff.mp hkind
  refine Returns.bind (Returns.consume (ne_eof_of_operator hkind)) ?_
  rintro _ _ ⟨symbol, rfl, hsymbol⟩
  refine Returns.bind hoperand fun v r hr => Returns.pure ?_
  rw [List.append_nil]
  exact hwhole symbol v r ((BinaryOp.ofKind?_eq_some.mp hof).trans hsymbol.symm) hamong hr

/-- One more operator and operand, if there is one, belong to what has been read. -/
theorem returns_chainStep (hoperand : Returns Any operand d spelling) {w : List Symbol} {l : Expr}
    (hl : Spelling.Chain among spelling w l) :
    Returns Any (chainStep among operand l) d (Extends (Spelling.Chain among spelling) w) := by
  refine Returns.look fun kind _ => ?_
  cases hkind : (BinaryOp.ofKind? kind).filter among with
  | none => exact Returns.pure rfl
  | some op =>
    exact returns_right hkind hoperand fun symbol v r hop hamong hr => .more hl hop hamong hr

theorem returns_chain (hloop : Loop (chainStep among operand))
    (hoperand : Returns Any operand d spelling) :
    Returns Any (chain among operand) d (Spelling.Chain among spelling) :=
  Returns.bind hoperand fun _ _ hfirst =>
    Returns.many (Spelling.Chain among spelling) hloop
      (fun _ _ hl => returns_chainStep hoperand hl) (.single hfirst)

variable [LawfulTokenStream σ]

theorem returns_term (h : InnerReturns σ limit d inside) :
    Returns Any (term (Inner.whole (some limit) : Inner σ)) d (Spelling.Term inside) :=
  returns_chain (loop_chainStep fun _ _ _ => alike_primary) (returns_primary h)

theorem returns_arithmetic (h : InnerReturns σ limit d inside) :
    Returns Any (arithmetic (Inner.whole (some limit) : Inner σ)) d (Spelling.Arithmetic inside) :=
  returns_chain (loop_chainStep fun _ _ _ => alike_term compositional_eq) (returns_term h)

theorem returns_expression (h : InnerReturns σ limit d inside) :
    Returns Any (expression (Inner.whole (some limit) : Inner σ)) d
      (Spelling.Expression inside) := by
  refine Returns.bind (returns_arithmetic h) fun w l hl => Returns.look fun kind _ => ?_
  cases hkind : (BinaryOp.ofKind? kind).filter BinaryOp.isRelational with
  | none =>
    refine Returns.pure ?_
    rw [List.append_nil]
    exact .single hl
  | some op =>
    exact returns_right hkind (returns_arithmetic h) fun symbol v r hop hrelational hr =>
      .comparison hl hop hrelational hr

/-- **What is returned is spelled**, one level further in. By induction on the levels that can still
be opened. -/
theorem innerReturns (levels : Nat) :
    ∀ d, d + levels = limit → InnerReturns σ limit d (Spelling.inside levels) := by
  induction levels with
  | zero => exact fun d hd hlt => by omega
  | succ levels ih =>
    intro d hd _
    rw [whole_expression]
    exact returns_expression (ih (d + 1) (by omega))

end Expression

end ScriptFront
