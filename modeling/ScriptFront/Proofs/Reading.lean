import ScriptFront.Proofs.Levels

/-!
# ScriptFront.Proofs.Reading

**What a rule reads.** `Reads` says that a rule consumes a given sequence of kinds where a given
kind comes next, and `Stops` that it gets that far and refuses what comes next. Both are about
every parser that has those tokens before it, whatever stands behind them: nothing behind the next
token has any influence, which is what one token of lookahead means. Each way to make a rule has
its lemma for both.
-/

namespace ScriptFront

variable {σ α β : Type} [TokenStream σ]

/-! ### The tokens ahead -/

/-- A stream whose token in view is of kind `kind` yields the tokens of the given kinds, none of
them the end, and then `next` is in view. -/
def Walk : List Kind → σ → Kind → σ → Kind → Prop
  | [], s, kind, s', next => s = s' ∧ kind = next
  | first :: w, s, kind, s', next =>
    kind = first ∧ first ≠ .eof ∧
      ∃ s₁ kind₁, TokenStream.advance s = .ok kind₁ s₁ ∧ Walk w s₁ kind₁ s' next

theorem Walk.append {w₁ w₂ : List Kind} : ∀ {s s' : σ} {kind next : Kind},
    Walk (w₁ ++ w₂) s kind s' next ↔
      ∃ s₁ kind₁, Walk w₁ s kind s₁ kind₁ ∧ Walk w₂ s₁ kind₁ s' next := by
  induction w₁ with
  | nil =>
    intro s s' kind next
    constructor
    · intro h
      exact ⟨s, kind, ⟨rfl, rfl⟩, h⟩
    · intro hwalks
      obtain ⟨_, _, ⟨rfl, rfl⟩, h⟩ := hwalks
      exact h
  | cons first w₁ ih =>
    intro s s' kind next
    constructor
    · intro hwalk
      obtain ⟨rfl, hend, s₁, kind₁, hadv, h⟩ := hwalk
      obtain ⟨s₂, kind₂, h₁, h₂⟩ := ih.mp h
      exact ⟨s₂, kind₂, ⟨rfl, hend, s₁, kind₁, hadv, h₁⟩, h₂⟩
    · intro hwalks
      obtain ⟨s₂, kind₂, ⟨rfl, hend, s₁, kind₁, hadv, h₁⟩, h₂⟩ := hwalks
      exact ⟨rfl, hend, s₁, kind₁, hadv, ih.mpr ⟨s₂, kind₂, h₁, h₂⟩⟩

/-- One more token is read. -/
theorem Walk.advance {w : List Kind} {s s' s'' : σ} {kind next last : Kind}
    (h : Walk w s kind s' next) (hnext : next ≠ .eof)
    (hadvance : TokenStream.advance s' = .ok last s'') :
    Walk (w ++ [next]) s kind s'' last :=
  Walk.append.mpr ⟨s', next, h, rfl, hnext, s'', last, hadvance, rfl, rfl⟩

/-- The kind in view is the first of those ahead. -/
theorem Walk.kind_eq {w : List Kind} {s s' : σ} {kind next : Kind}
    (h : Walk w s kind s' next) : kind = w.headD next := by
  cases w with
  | nil => exact h.2
  | cons first w => exact h.1

/-! ### Reading and stopping -/

/-- The state that a rule ends in after it has walked to a stream with `next` in view: as many
levels are open as when it began. -/
def Ends (d : Nat) (s : σ) (next : Kind) (p : Parser σ) : Prop :=
  p.stream = s ∧ p.lookahead = next ∧ p.depth = d

/-- At `d` open levels the rule consumes the sequence `w` where `next` comes behind it, and has a
result with the postcondition. -/
def Reads (r : Rule σ α) (d : Nat) (w : List Kind) (next : Kind) (post : α → Prop) : Prop :=
  ∀ (p : Parser σ) (s : σ), p.depth = d → Walk w p.stream p.lookahead s next →
    ∃ a p', r p = .ok a p' ∧ post a ∧ Ends d s next p'

/-- At `d` open levels the rule consumes the sequence `w` and refuses `next` behind it. -/
def Stops (r : Rule σ α) (d : Nat) (w : List Kind) (next : Kind) (expected : List Kind) : Prop :=
  ∀ (p : Parser σ) (s : σ), p.depth = d → Walk w p.stream p.lookahead s next →
    ∃ p', r p = .error (p'.unexpected expected) p' ∧ Ends d s next p'

variable {r : Rule σ α} {f : α → Rule σ β} {d : Nat} {w w₁ w₂ : List Kind} {next kind : Kind}
  {expected : List Kind} {mid : α → Prop} {post : β → Prop}

theorem Reads.pure {post : α → Prop} {a : α} (ha : post a) :
    Reads (Pure.pure a : Rule σ α) d [] next post := by
  intro p s hd hwalk
  obtain ⟨hs, hnext⟩ := hwalk
  exact ⟨a, p, rfl, ha, hs, hnext, hd⟩

theorem Reads.bind (hr : Reads r d w₁ (w₂.headD next) mid)
    (hf : ∀ a, mid a → Reads (f a) d w₂ next post) :
    Reads (r >>= f) d (w₁ ++ w₂) next post := by
  intro p s hd hwalk
  obtain ⟨s₁, kind₁, hwalk₁, hwalk₂⟩ := Walk.append.mp hwalk
  rw [hwalk₂.kind_eq] at hwalk₁ hwalk₂
  obtain ⟨a, p₁, hrp, ha, rfl, hnext₁, hd₁⟩ := hr p s₁ hd hwalk₁
  rw [← hnext₁] at hwalk₂
  obtain ⟨b, p₂, hfp, hb, hends⟩ := hf a ha p₁ s hd₁ hwalk₂
  refine ⟨b, p₂, ?_, hb, hends⟩
  simp only [Bind.bind, EStateM.bind, hrp, hfp]

theorem Reads.bind_pure {g : α → β} (hr : Reads r d w next mid)
    (hpost : ∀ a, mid a → post (g a)) :
    Reads (r >>= fun a => Pure.pure (g a)) d w next post := by
  rw [← List.append_nil w]
  exact Reads.bind hr fun a ha => Reads.pure (hpost a ha)

theorem Stops.bind_left (h : Stops r d w next expected) :
    Stops (r >>= f) d w next expected := by
  intro p s hd hwalk
  obtain ⟨p', hrp, hends⟩ := h p s hd hwalk
  refine ⟨p', ?_, hends⟩
  simp only [Bind.bind, EStateM.bind, hrp]

theorem Stops.bind_right (hr : Reads r d w₁ (w₂.headD next) mid)
    (hf : ∀ a, mid a → Stops (f a) d w₂ next expected) :
    Stops (r >>= f) d (w₁ ++ w₂) next expected := by
  intro p s hd hwalk
  obtain ⟨s₁, kind₁, hwalk₁, hwalk₂⟩ := Walk.append.mp hwalk
  rw [hwalk₂.kind_eq] at hwalk₁ hwalk₂
  obtain ⟨a, p₁, hrp, ha, rfl, hnext₁, hd₁⟩ := hr p s₁ hd hwalk₁
  rw [← hnext₁] at hwalk₂
  obtain ⟨p₂, hfp, hends⟩ := hf a ha p₁ s hd₁ hwalk₂
  refine ⟨p₂, ?_, hends⟩
  simp only [Bind.bind, EStateM.bind, hrp, hfp]

/-! ### Decisions by the kind in view -/

theorem Reads.look {f : Kind → Rule σ β} (h : Reads (f (w.headD next)) d w next post) :
    Reads (Rule.lookahead >>= f) d w next post := by
  intro p s hd hwalk
  have hkind := hwalk.kind_eq
  rw [← hkind] at h
  exact h p s hd hwalk

theorem Stops.look {f : Kind → Rule σ β} (h : Stops (f (w.headD next)) d w next expected) :
    Stops (Rule.lookahead >>= f) d w next expected := by
  intro p s hd hwalk
  have hkind := hwalk.kind_eq
  rw [← hkind] at h
  exact h p s hd hwalk

/-! ### Single tokens -/

theorem Reads.consume :
    Reads (Rule.consume : Rule σ Unit) d [kind] next fun _ => True := by
  intro p s hd hwalk
  obtain ⟨hlook, -, s₁, kind₁, hadv, rfl, rfl⟩ := hwalk
  refine ⟨(), { p with stream := s₁, lookahead := kind₁ }, ?_, trivial, rfl, rfl, hd⟩
  simp only [Rule.consume, Bind.bind, EStateM.bind, Rule.advance, hadv]
  rfl

theorem Stops.fail : Stops (Rule.fail expected : Rule σ α) d [] next expected := by
  intro p s hd hwalk
  obtain ⟨hs, hnext⟩ := hwalk
  exact ⟨p, rfl, hs, hnext, hd⟩

theorem Reads.expect :
    Reads (Rule.expect kind : Rule σ Unit) d [kind] next fun _ => True := by
  refine Reads.look ?_
  rw [List.headD_cons, if_pos rfl]
  exact Reads.consume

theorem Stops.expect (hnext : next ≠ kind) :
    Stops (Rule.expect kind : Rule σ Unit) d [] next [kind] := by
  refine Stops.look ?_
  rw [List.headD_nil, if_neg hnext]
  exact Stops.fail

/-! ### Levels of nesting -/

variable {limit : Nat}

theorem Reads.nested {post : α → Prop} (hd : d < limit) (h : Reads r (d + 1) w next post) :
    Reads (Rule.nested (some limit) r) d w next post := by
  rintro p s rfl hwalk
  obtain ⟨a, p', hr, ha, hs, hnext, hd'⟩ := h p.enter s rfl hwalk
  refine ⟨a, p'.leave, ?_, ha, hs, hnext, ?_⟩
  · have hopen : ((some limit).any (· ≤ p.depth)) = false := by simpa using hd
    simp only [Rule.nested, hopen, hr, Bool.false_eq_true, if_false]
  · simp only [Parser.leave, hd', Nat.add_sub_cancel]

theorem Stops.nested (hd : d < limit) (h : Stops r (d + 1) w next expected) :
    Stops (Rule.nested (some limit) r) d w next expected := by
  rintro p s rfl hwalk
  obtain ⟨p', hr, hs, hnext, hd'⟩ := h p.enter s rfl hwalk
  refine ⟨p'.leave, ?_, hs, hnext, ?_⟩
  · have hopen : ((some limit).any (· ≤ p.depth)) = false := by simpa using hd
    simp only [Rule.nested, hopen, hr, Bool.false_eq_true, if_false]
    rfl
  · simp only [Parser.leave, hd', Nat.add_sub_cancel]

/-- Where no level may be opened any more, the token that would open one is refused, and nothing
is expected in its place. -/
theorem Stops.refused (hd : limit ≤ d) : Stops (Rule.nested (some limit) r) d [] next [] := by
  rintro p s rfl ⟨hs, hnext⟩
  refine ⟨p, ?_, hs, hnext, rfl⟩
  have hclosed : ((some limit).any (· ≤ p.depth)) = true := by simpa using hd
  simp only [Rule.nested, hclosed, if_true]
  rfl

end ScriptFront
