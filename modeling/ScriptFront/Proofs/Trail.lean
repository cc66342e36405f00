import ScriptFront.Proofs.Reading

/-!
# ScriptFront.Proofs.Trail

**What a rule makes of the tokens it reads.** A rule learns of a token its kind, and the leaf of a
tree that it makes (`Symbol`). `Leads` says that a rule, having consumed given symbols, goes on as
another rule; with a value in the place of that rule it says what the rule returns. Unlike `Reads`
it names the value, and the value depends on the symbols alone.
-/

namespace ScriptFront

variable {σ α β : Type} [TokenStream σ]

/-! ### Symbols -/

/-- What the grammar learns of a token. -/
structure Symbol where
  /-- Its kind. -/
  kind : Kind
  /-- The leaf of a tree that it makes, if its kind is one that makes a leaf. -/
  leaf : Expr
  deriving DecidableEq

namespace Symbol

/-- The leaf of a token that makes none. -/
def noLeaf : Expr := .str ""

/-- The symbol of a token that makes no leaf. -/
def plain (kind : Kind) : Symbol := ⟨kind, noLeaf⟩

/-- The symbol of a token of a kind, with the values that may belong to it. -/
def ofValues (kind : Kind) (integer : Int64) (ordinal : UInt32) (text : String) : Symbol :=
  match kind with
  | .number => ⟨.number, .const integer⟩
  | .identifier => ⟨.identifier, .id ordinal⟩
  | .string => ⟨.string, .str text⟩
  | kind => plain kind

@[simp] theorem kind_ofValues (kind : Kind) (integer : Int64) (ordinal : UInt32) (text : String) :
    (ofValues kind integer ordinal text).kind = kind := by
  cases kind <;> rfl

/-- The symbol of the token in view. -/
def inView (s : σ) (kind : Kind) : Symbol :=
  ofValues kind (TokenStream.intValue s) (TokenStream.ordinal s) (TokenStream.stringValue s)

@[simp] theorem kind_inView (s : σ) (kind : Kind) : (inView s kind).kind = kind :=
  kind_ofValues ..

/-- The kinds of some symbols. -/
def kinds (w : List Symbol) : List Kind :=
  w.map kind

@[simp] theorem kinds_nil : kinds [] = [] := rfl

@[simp] theorem kinds_cons (symbol : Symbol) (w : List Symbol) :
    kinds (symbol :: w) = symbol.kind :: kinds w := rfl

@[simp] theorem kinds_append (w₁ w₂ : List Symbol) : kinds (w₁ ++ w₂) = kinds w₁ ++ kinds w₂ :=
  List.map_append

end Symbol

/-! ### The symbols ahead -/

/-- A stream whose token in view is of kind `kind` yields the given symbols, none of them the end,
and then `next` is in view. -/
def Trail : List Symbol → σ → Kind → σ → Kind → Prop
  | [], s, kind, s', next => s = s' ∧ kind = next
  | symbol :: w, s, kind, s', next =>
    symbol = Symbol.inView s kind ∧ kind ≠ .eof ∧
      ∃ s₁ kind₁, TokenStream.advance s = .ok kind₁ s₁ ∧ Trail w s₁ kind₁ s' next

theorem Trail.append {w₁ w₂ : List Symbol} : ∀ {s s' : σ} {kind next : Kind},
    Trail (w₁ ++ w₂) s kind s' next ↔
      ∃ s₁ kind₁, Trail w₁ s kind s₁ kind₁ ∧ Trail w₂ s₁ kind₁ s' next := by
  induction w₁ with
  | nil =>
    intro s s' kind next
    constructor
    · intro h
      exact ⟨s, kind, ⟨rfl, rfl⟩, h⟩
    · intro htrails
      obtain ⟨_, _, ⟨rfl, rfl⟩, h⟩ := htrails
      exact h
  | cons symbol w₁ ih =>
    intro s s' kind next
    constructor
    · intro htrail
      obtain ⟨hsymbol, hend, s₁, kind₁, hadv, h⟩ := htrail
      obtain ⟨s₂, kind₂, h₁, h₂⟩ := ih.mp h
      exact ⟨s₂, kind₂, ⟨hsymbol, hend, s₁, kind₁, hadv, h₁⟩, h₂⟩
    · intro htrails
      obtain ⟨s₂, kind₂, ⟨hsymbol, hend, s₁, kind₁, hadv, h₁⟩, h₂⟩ := htrails
      exact ⟨hsymbol, hend, s₁, kind₁, hadv, ih.mpr ⟨s₂, kind₂, h₁, h₂⟩⟩

/-- The kinds of a trail are those of a walk. -/
theorem Trail.walk {w : List Symbol} : ∀ {s s' : σ} {kind next : Kind},
    Trail w s kind s' next → Walk (Symbol.kinds w) s kind s' next := by
  induction w with
  | nil => exact fun h => h
  | cons symbol w ih =>
    intro s s' kind next htrail
    obtain ⟨rfl, hend, s₁, kind₁, hadv, h⟩ := htrail
    have hkind := Symbol.kind_inView s kind
    exact ⟨hkind.symm, by rwa [hkind], s₁, kind₁, hadv, ih h⟩

/-- The kind in view is that of the first symbol. -/
theorem Trail.kind_eq {w : List Symbol} {s s' : σ} {kind next : Kind}
    (h : Trail w s kind s' next) : kind = (Symbol.kinds w).headD next :=
  h.walk.kind_eq

/-- A trail does not lead across the end. -/
theorem Trail.eof_notMem {w : List Symbol} : ∀ {s s' : σ} {kind next : Kind},
    Trail w s kind s' next → .eof ∉ Symbol.kinds w := by
  induction w with
  | nil => exact fun _ => List.not_mem_nil
  | cons symbol w ih =>
    intro s s' kind next htrail
    obtain ⟨rfl, hend, s₁, kind₁, -, h⟩ := htrail
    simp only [Symbol.kinds_cons, Symbol.kind_inView, List.mem_cons, not_or]
    exact ⟨fun heq => hend heq.symm, ih h⟩

/-! ### Leading from one rule to another -/

/-- At `d` open levels the rule `r` consumes the symbols `w` where `next` comes behind them, and
goes on as the rule `k`. -/
def Leads (r k : Rule σ α) (d : Nat) (w : List Symbol) (next : Kind) : Prop :=
  ∀ (p : Parser σ) (s : σ), p.depth = d → Trail w p.stream p.lookahead s next →
    ∃ p', r p = k p' ∧ Ends d s next p'

/-- At `d` open levels the rule `r` consumes the symbols `w` and returns `a`. -/
abbrev Yields (r : Rule σ α) (a : α) (d : Nat) (w : List Symbol) (next : Kind) : Prop :=
  Leads r (pure a) d w next

variable {r k l : Rule σ α} {f : α → Rule σ β} {m : Rule σ β} {a : α} {d : Nat}
  {w w₁ w₂ : List Symbol} {symbol : Symbol} {next kind : Kind}

theorem Leads.refl : Leads r r d [] next := by
  intro p s hd htrail
  obtain ⟨hs, hnext⟩ := htrail
  exact ⟨p, rfl, hs, hnext, hd⟩

theorem Leads.trans (h₁ : Leads r k d w₁ ((Symbol.kinds w₂).headD next))
    (h₂ : Leads k l d w₂ next) : Leads r l d (w₁ ++ w₂) next := by
  intro p s hd htrail
  obtain ⟨s₁, kind₁, htrail₁, htrail₂⟩ := Trail.append.mp htrail
  rw [htrail₂.kind_eq] at htrail₁ htrail₂
  obtain ⟨p₁, hr, rfl, hnext₁, hd₁⟩ := h₁ p s₁ hd htrail₁
  rw [← hnext₁] at htrail₂
  obtain ⟨p₂, hk, hends⟩ := h₂ p₁ s hd₁ htrail₂
  exact ⟨p₂, hr.trans hk, hends⟩

theorem Leads.bind (h : Leads r k d w next) : Leads (r >>= f) (k >>= f) d w next := by
  intro p s hd htrail
  obtain ⟨p', hr, hends⟩ := h p s hd htrail
  refine ⟨p', ?_, hends⟩
  simp only [Bind.bind, EStateM.bind, hr]

/-- A rule that returns a value, and what follows. -/
theorem Yields.bind (h : Yields r a d w₁ ((Symbol.kinds w₂).headD next))
    (hf : Leads (f a) m d w₂ next) : Leads (r >>= f) m d (w₁ ++ w₂) next :=
  Leads.trans (Leads.bind h) hf

/-- A rule that returns a value, which is made into another. -/
theorem Yields.bind_pure {g : α → β} (h : Yields r a d w next) :
    Yields (r >>= fun a => pure (g a)) (g a) d w next :=
  Leads.bind h

theorem Leads.look {f : Kind → Rule σ β} (h : Leads (f ((Symbol.kinds w).headD next)) m d w next) :
    Leads (Rule.lookahead >>= f) m d w next := by
  intro p s hd htrail
  rw [← htrail.kind_eq] at h
  exact h p s hd htrail

/-- A rule whose reading does not depend on the values of tokens. -/
theorem Yields.of_reads (h : Reads r d (Symbol.kinds w) next (· = a)) : Yields r a d w next := by
  intro p s hd htrail
  obtain ⟨_, p', hr, rfl, hends⟩ := h p s hd htrail.walk
  exact ⟨p', hr, hends⟩

/-- A token that is consumed, and what follows. -/
theorem Leads.consume {f : Unit → Rule σ β} (h : Leads (f ()) m d w next) :
    Leads (Rule.consume >>= f) m d (symbol :: w) next := by
  have hconsume : Yields (Rule.consume : Rule σ Unit) () d [symbol] ((Symbol.kinds w).headD next) :=
    Yields.of_reads fun p s hd hwalk => by
      obtain ⟨_, p', hr, -, hends⟩ := Reads.consume p s hd hwalk
      exact ⟨(), p', hr, rfl, hends⟩
  exact Yields.bind hconsume h

/-- A token that is expected, and what follows. -/
theorem Leads.expect {f : Unit → Rule σ β} (hkind : symbol.kind = kind)
    (h : Leads (f ()) m d w next) : Leads (Rule.expect kind >>= f) m d (symbol :: w) next := by
  unfold Rule.expect
  rw [bind_assoc]
  apply Leads.look
  rw [Symbol.kinds_cons, List.headD_cons, if_pos hkind]
  exact Leads.consume h

/-- The value of a token is taken before the token is consumed. -/
theorem Yields.leaf {value : σ → α} {make : α → Expr}
    (h : ∀ s : σ, (Symbol.inView s symbol.kind).leaf = make (value s)) :
    Yields (do let a ← Rule.payload value; Rule.consume; return make a : Rule σ Expr) symbol.leaf d
      [symbol] next := by
  intro p s hd htrail
  have hconsume : Yields (Rule.consume >>= fun _ => pure (make (value p.stream)) : Rule σ Expr)
      (make (value p.stream)) d [symbol] next := Leads.consume Leads.refl
  have hleaf : symbol.leaf = make (value p.stream) := by
    have hsymbol : symbol = Symbol.inView p.stream symbol.kind := by
      have heq := htrail.1
      rwa [htrail.kind_eq] at heq
    exact (congrArg Symbol.leaf hsymbol).trans (h p.stream)
  rw [hleaf]
  exact hconsume p s hd htrail

variable {limit : Nat}

theorem Yields.nested (hd : d < limit) (h : Yields r a (d + 1) w next) :
    Yields (Rule.nested (some limit) r) a d w next := by
  intro p s hp htrail
  subst hp
  obtain ⟨p', hr, hs, hnext, hd'⟩ := h p.enter s rfl htrail
  have hopen : ((some limit).any (· ≤ p.depth)) = false := by simpa using hd
  refine ⟨p'.leave, ?_, hs, hnext, ?_⟩
  · simp only [Rule.nested, hopen, hr, Bool.false_eq_true, if_false]
    rfl
  · simp only [Parser.leave, hd', Nat.add_sub_cancel]

end ScriptFront
