import ScriptFront.Proofs.Reading
import ScriptFront.Proofs.Syntax

/-!
# ScriptFront.Proofs.Accord

**Rules that accord with a phrase of the syntax.** `Accords d L F post f` says of the rules `f i`,
which differ in the values that they return and in nothing else:

* they read every sequence of `L`, where a kind comes next that may follow it (`F`);
* whatever tokens are ahead, they either read a sequence of `L` or stop, and where they stop the
  tokens before could have been continued to a sequence of `L`, and so could they with each of the
  kinds that are said to be expected.

There is one exception to the last point (`Offers`). Where no level can be opened any more and a
primary is missing, an opening parenthesis is named all the same, and would be refused as opening
a level too many.

Phrases are put together by `*`, `+` and `∗`, rules by their own means, and there is one lemma for
each of these.
-/

namespace ScriptFront

open Syntax
open scoped Computability

variable {σ α β ι κ : Type} [TokenStream σ]
variable {d : Nat} {L M : Phrase} {F G : Kind → Prop} {w x z : List Kind} {kind next : Kind}

/-! ### Phrases -/

/-- A sequence can be continued to one of the phrase. -/
def Viable (L : Phrase) (w : List Kind) : Prop :=
  ∃ v, w ++ v ∈ L

theorem Viable.mono (hle : ∀ v ∈ L, v ∈ M) (h : Viable L w) : Viable M w := by
  obtain ⟨v, hv⟩ := h
  exact ⟨v, hle _ hv⟩

theorem Viable.append {w₁ w₂ : List Kind} (hw : w₁ ∈ L) (h : Viable M w₂) :
    Viable (L * M) (w₁ ++ w₂) := by
  obtain ⟨v, hv⟩ := h
  refine ⟨v, ?_⟩
  rw [List.append_assoc]
  exact Language.append_mem_mul hw hv

theorem Viable.mul (h : Viable L w) (hpossible : ∃ v, v ∈ M) : Viable (L * M) w := by
  obtain ⟨v₁, hv₁⟩ := h
  obtain ⟨v₂, hv₂⟩ := hpossible
  refine ⟨v₁ ++ v₂, ?_⟩
  rw [← List.append_assoc]
  exact Language.append_mem_mul hv₁ hv₂

/-- What begins with a token of a kind. -/
theorem mem_token_mul : w ∈ token kind * M ↔ ∃ v ∈ M, w = kind :: v := by
  constructor
  · intro h
    obtain ⟨a, ha, v, hv, rfl⟩ := Language.mem_mul.mp h
    obtain rfl : a = [kind] := ha
    exact ⟨v, hv, rfl⟩
  · intro h
    obtain ⟨v, hv, rfl⟩ := h
    exact Language.append_mem_mul (Set.mem_singleton _) hv

theorem mem_oneOf_mul {kinds : List Kind} :
    w ∈ oneOf kinds * M ↔ ∃ kind ∈ kinds, ∃ v ∈ M, w = kind :: v := by
  constructor
  · intro h
    obtain ⟨a, ha, v, hv, rfl⟩ := Language.mem_mul.mp h
    obtain ⟨kind, hkind, rfl⟩ := ha
    exact ⟨kind, hkind, v, hv, rfl⟩
  · intro h
    obtain ⟨kind, hkind, v, hv, rfl⟩ := h
    have ha : [kind] ∈ oneOf kinds := ⟨kind, hkind, rfl⟩
    exact Language.append_mem_mul ha hv

/-- One of several phrases, told apart by the token before it. -/
def choice (kinds : List Kind) (P : Kind → Phrase) : Phrase :=
  {w | ∃ kind ∈ kinds, ∃ v ∈ P kind, w = kind :: v}

theorem choice_nil {P : Kind → Phrase} : choice [] P = 0 := by
  refine Language.ext fun w => ⟨fun hw => ?_, fun hw => absurd hw (Language.notMem_zero w)⟩
  obtain ⟨kind, hkind, -⟩ := hw
  exact absurd hkind List.not_mem_nil

theorem choice_cons {kinds : List Kind} {P : Kind → Phrase} :
    choice (kind :: kinds) P = token kind * P kind + choice kinds P := by
  refine Language.ext fun w => ⟨fun hw => ?_, fun hw => ?_⟩
  · obtain ⟨other, hother, v, hv, rfl⟩ := hw
    rcases List.mem_cons.mp hother with rfl | hother
    · exact .inl (mem_token_mul.mpr ⟨v, hv, rfl⟩)
    · exact .inr ⟨other, hother, v, hv, rfl⟩
  · rcases hw with hw | hw
    · obtain ⟨v, hv, rfl⟩ := mem_token_mul.mp hw
      exact ⟨kind, List.mem_cons_self, v, hv, rfl⟩
    · obtain ⟨other, hother, v, hv, rfl⟩ := hw
      exact ⟨other, List.mem_cons_of_mem _ hother, v, hv, rfl⟩

/-- Every sequence of a phrase begins with a kind that has a property. -/
def Begins (P : Kind → Prop) (L : Phrase) : Prop :=
  ∀ w ∈ L, ∃ kind v, w = kind :: v ∧ P kind

theorem begins_token {P : Kind → Prop} (h : P kind) : Begins P (token kind) := by
  intro w hw
  exact ⟨kind, [], hw, h⟩

theorem begins_kind : Begins (· = kind) (token kind) :=
  begins_token rfl

theorem begins_oneOf {P : Kind → Prop} {kinds : List Kind} (h : ∀ kind ∈ kinds, P kind) :
    Begins P (oneOf kinds) := by
  intro w hw
  obtain ⟨kind, hkind, rfl⟩ := hw
  exact ⟨kind, [], rfl, h kind hkind⟩

theorem Begins.imp {P Q : Kind → Prop} (h : Begins P L) (himp : ∀ kind, P kind → Q kind) :
    Begins Q L := by
  intro w hw
  obtain ⟨kind, v, hv, hkind⟩ := h w hw
  exact ⟨kind, v, hv, himp kind hkind⟩

theorem Begins.mul {P : Kind → Prop} (h : Begins P L) : Begins P (L * M) := by
  intro w hw
  obtain ⟨w₁, hw₁, w₂, -, rfl⟩ := Language.mem_mul.mp hw
  obtain ⟨kind, v, rfl, hkind⟩ := h w₁ hw₁
  exact ⟨kind, v ++ w₂, rfl, hkind⟩

theorem Begins.add {P : Kind → Prop} (hL : Begins P L) (hM : Begins P M) : Begins P (L + M) := by
  intro w hw
  rcases hw with hw | hw
  · exact hL w hw
  · exact hM w hw

theorem Begins.headD {P : Kind → Prop} (h : Begins P L) (hw : w ∈ L) (next : Kind) :
    P (w.headD next) := by
  obtain ⟨kind, v, rfl, hkind⟩ := h w hw
  exact hkind

/-- A phrase may follow a rule that its first kinds may follow. -/
theorem Begins.follow (h : Begins F L) : ∀ w ∈ L, ∀ next, G next → F (w.headD next) :=
  fun _ hw next _ => h.headD hw next

theorem follow_token (h : F kind) : ∀ w ∈ token kind * M, ∀ next, G next → F (w.headD next) :=
  Begins.follow (begins_token h).mul

/-! ### Decisions -/

/-- The kinds that a primary can begin with, in the order in which a diagnostic names them. -/
def primaryStarts : List Kind :=
  [.number, .identifier, .openParen]

/-- Each kind that is expected behind `w` could really stand there, but for an opening parenthesis
where a primary is missing and no level can be opened. -/
def Offers (d : Nat) (L : Phrase) (f : ι → Rule σ α) (w expected : List Kind) : Prop :=
  ∀ kind ∈ expected, Viable L (w ++ [kind]) ∨
    kind = .openParen ∧ expected = primaryStarts ∧ ∀ i, Stops (f i) d w .openParen []

/-- What some rules do with the tokens `x` that are ahead before the end. -/
inductive Decides (d : Nat) (L : Phrase) (post : α → Prop) (f : ι → Rule σ α) (x : List Kind) :
    Prop
  | reads (w z : List Kind) (hx : x = w ++ z) (hw : w ∈ L)
      (hreads : ∀ i, Reads (f i) d w (z.headD .eof) post)
  | stops (w z expected : List Kind) (hx : x = w ++ z)
      (hstops : ∀ i, Stops (f i) d w (z.headD .eof) expected) (hviable : Viable L w)
      (hoffers : Offers d L f w expected)

/-- Some rules accord with a phrase, behind which kinds with `F` may stand. -/
structure Accords (d : Nat) (L : Phrase) (F : Kind → Prop) (post : α → Prop) (f : ι → Rule σ α) :
    Prop where
  reads {w : List Kind} {next : Kind} (hw : w ∈ L) (hnext : F next) (i : ι) :
    Reads (f i) d w next post
  decides (x : List Kind) (hx : .eof ∉ x) : Decides d L post f x
  /-- The phrase is not empty. -/
  possible : ∃ w, w ∈ L

/-- What is expected is expected elsewhere too if it can stand there as well, and if an opening
parenthesis that is refused is refused there as well. -/
theorem Offers.imp {d' : Nat} {f : ι → Rule σ α} {g : κ → Rule σ β} {w' expected : List Kind}
    (h : Offers d L f w expected)
    (hviable : ∀ kind, Viable L (w ++ [kind]) → Viable M (w' ++ [kind]))
    (hdeep : (∀ i, Stops (f i) d w .openParen []) → ∀ k, Stops (g k) d' w' .openParen []) :
    Offers d' M g w' expected := by
  intro kind hkind
  rcases h kind hkind with hoffer | ⟨hparen, hprimary, hrefused⟩
  · exact .inl (hviable kind hoffer)
  · exact .inr ⟨hparen, hprimary, hdeep hrefused⟩

/-- A single kind that is expected, and can stand there. -/
theorem Offers.single {f : ι → Rule σ α} (h : Viable L (w ++ [kind])) :
    Offers d L f w [kind] := by
  intro other hother
  rw [List.mem_singleton] at hother
  rw [hother]
  exact .inl h

theorem Decides.mono {post : α → Prop} {f : ι → Rule σ α} (hle : ∀ v ∈ L, v ∈ M)
    (h : Decides d L post f x) : Decides d M post f x := by
  cases h with
  | reads w z hx hw hreads => exact .reads w z hx (hle _ hw) hreads
  | stops w z expected hx hstops hviable hoffers =>
    exact .stops w z expected hx hstops (hviable.mono hle)
      (hoffers.imp (fun _ hoffer => hoffer.mono hle) fun hdeep => hdeep)

theorem Decides.comap {post : α → Prop} {f : ι → Rule σ α} (g : κ → ι)
    (h : Decides d L post f x) : Decides d L post (fun k => f (g k)) x := by
  cases h with
  | reads w z hx hw hreads => exact .reads w z hx hw fun k => hreads (g k)
  | stops w z expected hx hstops hviable hoffers =>
    exact .stops w z expected hx (fun k => hstops (g k)) hviable
      (hoffers.imp (fun _ hoffer => hoffer) fun hdeep k => hdeep (g k))

theorem Accords.comap {post : α → Prop} {f : ι → Rule σ α} (g : κ → ι)
    (h : Accords d L F post f) : Accords d L F post fun k => f (g k) where
  reads hw hnext k := h.reads hw hnext (g k)
  decides x hx := (h.decides x hx).comap g
  possible := h.possible

theorem Accords.follow {post : α → Prop} {f : ι → Rule σ α} (h : Accords d L F post f)
    (hle : ∀ kind, G kind → F kind) : Accords d L G post f where
  reads hw hnext i := h.reads hw (hle _ hnext) i
  decides := h.decides
  possible := h.possible

/-! ### One rule after another -/

theorem headD_append (w z : List Kind) (next : Kind) :
    (w ++ z).headD next = w.headD (z.headD next) := by
  cases w <;> rfl

theorem exists_of_headD (h : x.headD .eof = kind) (hkind : kind ≠ .eof) : ∃ z, x = kind :: z := by
  cases x with
  | nil => exact absurd h.symm hkind
  | cons first z =>
    obtain rfl : first = kind := h
    exact ⟨z, rfl⟩

/-- The rules `f i`, each followed by what its value gives rise to, which is one of the rules
`h k`. -/
theorem Decides.bind {mid : α → Prop} {post : β → Prop} {f : ι → Rule σ α}
    {g : ι → α → Rule σ β} {h : κ → Rule σ β} (hf : Decides d L mid f x)
    (hh : ∀ w z, x = w ++ z → w ∈ L → Decides d M post h z)
    (hrange : ∀ i a, mid a → ∃ k, g i a = h k)
    (hparen : ∀ w ∈ L, ∀ i, Reads (f i) d w .openParen mid) (hpossible : ∃ w, w ∈ M) :
    Decides d (L * M) post (fun i => f i >>= g i) x := by
  cases hf with
  | reads w₁ z hx hw₁ hreads₁ =>
    cases hh w₁ z hx hw₁ with
    | reads w₂ z₂ hz hw₂ hreads₂ =>
      refine .reads (w₁ ++ w₂) z₂ (by rw [hx, hz, List.append_assoc])
        (Language.append_mem_mul hw₁ hw₂) fun i => ?_
      rw [hz, headD_append] at hreads₁
      refine Reads.bind (hreads₁ i) fun a ha => ?_
      obtain ⟨k, hk⟩ := hrange i a ha
      rw [hk]
      exact hreads₂ k
    | stops w₂ z₂ expected hz hstops₂ hviable hoffers =>
      refine .stops (w₁ ++ w₂) z₂ expected (by rw [hx, hz, List.append_assoc]) ?_
        (hviable.append hw₁) (hoffers.imp (fun kind hoffer => ?_) fun hdeep i => ?_)
      · intro i
        rw [hz, headD_append] at hreads₁
        refine Stops.bind_right (hreads₁ i) fun a ha => ?_
        obtain ⟨k, hk⟩ := hrange i a ha
        rw [hk]
        exact hstops₂ k
      · rw [List.append_assoc]
        exact hoffer.append hw₁
      · -- the parenthesis may stand right behind what the first rule has read, in place of what
        -- is ahead, so that rule has to read the same there
        have hread : Reads (f i) d w₁ (w₂.headD .openParen) mid := by
          cases w₂ with
          | nil => exact hparen w₁ hw₁ i
          | cons first w₂ =>
            rw [hz] at hreads₁
            exact hreads₁ i
        refine Stops.bind_right hread fun a ha => ?_
        obtain ⟨k, hk⟩ := hrange i a ha
        rw [hk]
        exact hdeep k
  | stops w z expected hx hstops hviable hoffers =>
    exact .stops w z expected hx (fun i => (hstops i).bind_left) (hviable.mul hpossible)
      (hoffers.imp (fun _ hoffer => hoffer.mul hpossible) fun hdeep i => (hdeep i).bind_left)

/-- What is ahead of the end has no end in it behind any of its sequences. -/
theorem eof_notMem_right (hx : .eof ∉ x) (h : x = w ++ z) : .eof ∉ z := by
  rw [h] at hx
  exact fun hz => hx (List.mem_append_right w hz)

section

variable {mid : α → Prop} {post : β → Prop} {f : ι → Rule σ α}

theorem Accords.bind {g : ι → α → Rule σ β} (hf : Accords d L F mid f)
    (hg : Accords d M G post fun ia : ι × α => g ia.1 ia.2) (hparen : F .openParen)
    (hfollow : ∀ w ∈ M, ∀ next, G next → F (w.headD next)) :
    Accords d (L * M) G post fun i => f i >>= g i where
  reads hw hnext i := by
    obtain ⟨w₁, hw₁, w₂, hw₂, rfl⟩ := Language.mem_mul.mp hw
    refine Reads.bind (hf.reads hw₁ (hfollow w₂ hw₂ _ hnext) i) fun a _ => ?_
    exact hg.reads hw₂ hnext (i, a)
  decides x hx :=
    (hf.decides x hx).bind (fun w z hwz _ => hg.decides z (eof_notMem_right hx hwz))
      (fun i a _ => ⟨(i, a), rfl⟩) (fun w hw i => hf.reads hw hparen i) hg.possible
  possible := by
    obtain ⟨w₁, hw₁⟩ := hf.possible
    obtain ⟨w₂, hw₂⟩ := hg.possible
    exact ⟨w₁ ++ w₂, Language.append_mem_mul hw₁ hw₂⟩

/-- One rule after another, whatever the value of the first. -/
theorem Accords.then {g : ι → Rule σ β} (hf : Accords d L F mid f) (hg : Accords d M G post g)
    (hparen : F .openParen) (hfollow : ∀ w ∈ M, ∀ next, G next → F (w.headD next)) :
    Accords d (L * M) G post fun i => f i >>= fun _ => g i :=
  hf.bind (hg.comap fun ia : ι × α => ia.1) hparen hfollow

end

/-! ### Single tokens -/

theorem Accords.pure {post : α → Prop} {a : ι → α} (h : ∀ i, post (a i)) :
    Accords d 1 (fun _ => True) post fun i => (Pure.pure (a i) : Rule σ α) where
  reads hw _ i := by
    rw [Language.mem_one] at hw
    rw [hw]
    exact Reads.pure (h i)
  decides x _ := .reads [] x rfl Language.nil_mem_one fun i => Reads.pure (h i)
  possible := ⟨[], Language.nil_mem_one⟩

theorem Accords.expect (hkind : kind ≠ .eof) :
    Accords d (token kind) (fun _ => True) (fun _ => True)
      fun _ : ι => (Rule.expect kind : Rule σ Unit) where
  reads hw _ _ := by
    obtain rfl : _ = [kind] := hw
    exact Reads.expect
  decides x hx := by
    by_cases hhead : x.headD .eof = kind
    · obtain ⟨z, rfl⟩ := exists_of_headD hhead hkind
      exact .reads [kind] z rfl rfl fun _ => Reads.expect
    · exact .stops [] x [kind] rfl (fun _ => Stops.expect hhead) ⟨[kind], rfl⟩
        (.single ⟨[], rfl⟩)
  possible := ⟨[kind], rfl⟩

section

variable {post : β → Prop} {f : ι → Rule σ α}

/-- A rule whose value is made into another. -/
theorem Decides.bind_pure {mid : α → Prop} {f : ι → Rule σ α} {g : ι → α → β}
    (h : Decides d L mid f x) (hpost : ∀ i a, mid a → post (g i a)) :
    Decides d L post (fun i => f i >>= fun a => Pure.pure (g i a)) x := by
  cases h with
  | reads w z hx hw hreads => exact .reads w z hx hw fun i => (hreads i).bind_pure (hpost i)
  | stops w z expected hx hstops hviable hoffers =>
    exact .stops w z expected hx (fun i => (hstops i).bind_left) hviable
      (hoffers.imp (fun _ hoffer => hoffer) fun hdeep i => (hdeep i).bind_left)

theorem Accords.bind_pure {mid : α → Prop} {f : ι → Rule σ α} {g : ι → α → β}
    (hf : Accords d L F mid f) (hpost : ∀ i a, mid a → post (g i a)) :
    Accords d L F post fun i => f i >>= fun a => Pure.pure (g i a) where
  reads hw hnext i := (hf.reads hw hnext i).bind_pure (hpost i)
  decides x hx := (hf.decides x hx).bind_pure hpost
  possible := hf.possible

/-- A token that is expected, and what follows it. -/
theorem Accords.expect_then {f : ι → Unit → Rule σ β} (hkind : kind ≠ .eof)
    (h : Accords d M G post fun i => f i ()) :
    Accords d (token kind * M) G post fun i => Rule.expect kind >>= f i :=
  (Accords.expect hkind).then h trivial fun _ _ _ _ => trivial

/-- A rule, and the token that closes what it reads. Unlike another rule, the token may be one that
has to follow. -/
theorem Accords.then_expect {mid : α → Prop} (hf : Accords d L F mid f) (hkind : kind ≠ .eof)
    (hfollow : F kind) :
    Accords d (L * token kind) (fun _ => True) (fun _ => True)
      fun i => f i >>= fun _ => (Rule.expect kind : Rule σ Unit) where
  reads hw _ i := by
    obtain ⟨w₁, hw₁, w₂, hw₂, rfl⟩ := Language.mem_mul.mp hw
    obtain rfl : w₂ = [kind] := hw₂
    exact Reads.bind (hf.reads hw₁ hfollow i) fun _ _ => Reads.expect
  decides x hx := by
    cases hf.decides x hx with
    | reads w z hx hw hreads =>
      have hviable : Viable (L * token kind) (w ++ [kind]) :=
        ⟨[], by rw [List.append_nil]; exact Language.append_mem_mul hw rfl⟩
      by_cases hz : z.headD .eof = kind
      · obtain ⟨z, rfl⟩ := exists_of_headD hz hkind
        refine .reads (w ++ [kind]) z (by rw [hx, List.append_assoc]; rfl)
          (Language.append_mem_mul hw rfl) fun i => ?_
        exact Reads.bind (hreads i) fun _ _ => Reads.expect
      · refine .stops w z [kind] hx (fun i => ?_) ⟨[kind], Language.append_mem_mul hw rfl⟩
          (.single hviable)
        rw [← List.append_nil w]
        exact Stops.bind_right (hreads i) fun _ _ => Stops.expect hz
    | stops w z expected hx hstops hviable hoffers =>
      have hclosing : ∃ v, v ∈ token kind := ⟨[kind], rfl⟩
      exact .stops w z expected hx (fun i => (hstops i).bind_left) (hviable.mul hclosing)
        (hoffers.imp (fun _ hoffer => hoffer.mul hclosing) fun hdeep i => (hdeep i).bind_left)
  possible := by
    obtain ⟨w, hw⟩ := hf.possible
    exact ⟨w ++ [kind], Language.append_mem_mul hw rfl⟩

end

/-- A rule, the token that closes what it reads, and what follows. -/
theorem Accords.then_expect_then {mid : α → Prop} {g : ι → Rule σ β} (hf : Accords d L F mid f)
    (hkind : kind ≠ .eof) (hfollow : F kind) (hg : Accords d M G post g) :
    Accords d (L * token kind * M) G post
      fun i => f i >>= fun _ => Rule.expect kind >>= fun _ => g i := by
  have h := (hf.then_expect hkind hfollow).then hg trivial fun _ _ _ _ => trivial
  simp only [bind_assoc] at h
  exact h

/-! ### Decisions by the kind in view -/

section

variable {post : β → Prop} {expected : List Kind}

theorem Reads.consume_then {f : Unit → Rule σ β} (h : Reads (f ()) d w next post) :
    Reads (Rule.consume >>= f) d (kind :: w) next post :=
  Reads.bind Reads.consume fun _ _ => h

theorem Stops.consume_then {f : Unit → Rule σ β} (h : Stops (f ()) d w next expected) :
    Stops (Rule.consume >>= f) d (kind :: w) next expected :=
  Stops.bind_right Reads.consume fun _ _ => h

/-- The value of a token is taken before the token is consumed. -/
theorem Reads.leaf {value : σ → α} {make : α → β} (h : ∀ a, post (make a)) :
    Reads (do let a ← Rule.payload value; Rule.consume; return make a) d [kind] next post := by
  have hpayload : Reads (Rule.payload value) d [] kind fun _ => True := by
    intro p s hd hwalk
    obtain ⟨hs, hnext⟩ := hwalk
    exact ⟨value p.stream, p, rfl, trivial, hs, hnext, hd⟩
  show Reads _ d ([] ++ [kind]) next post
  refine Reads.bind hpayload fun a _ => ?_
  refine Reads.consume_then ?_
  exact Reads.pure (h a)

/-- At a kind in view the rules `f i` consume the token and go on as the rules `g i`. -/
theorem Decides.lead {f g : ι → Rule σ β} (hg : Decides d M post g z)
    (hreads : ∀ i w next, Reads (g i) d w next post → Reads (f i) d (kind :: w) next post)
    (hstops : ∀ i w next expected, Stops (g i) d w next expected →
      Stops (f i) d (kind :: w) next expected) :
    Decides d (token kind * M) post f (kind :: z) := by
  have happend {v : List Kind} (hv : Viable M v) : Viable (token kind * M) (kind :: v) :=
    hv.append (Set.mem_singleton _)
  cases hg with
  | reads w z' hw hwM hread =>
    exact .reads (kind :: w) z' (by rw [hw]; rfl) (mem_token_mul.mpr ⟨w, hwM, rfl⟩)
      fun i => hreads i w _ (hread i)
  | stops w z' expected hw hstop hviable hoffers =>
    exact .stops (kind :: w) z' expected (by rw [hw]; rfl) (fun i => hstops i w _ _ (hstop i))
      (happend hviable)
      (hoffers.imp (fun _ hoffer => happend hoffer) fun hdeep i => hstops i w _ _ (hdeep i))

/-- A token in view that is consumed, and what follows it. -/
theorem Decides.consume_then {f : ι → Unit → Rule σ β}
    (h : Decides d M post (fun i => f i ()) z) :
    Decides d (token kind * M) post (fun i => Rule.consume >>= f i) (kind :: z) :=
  .lead h (fun _ _ _ hreads => hreads.consume_then) fun _ _ _ _ hstops => hstops.consume_then

theorem Reads.look_consume {f : Kind → Rule σ β} {g : Unit → Rule σ β}
    (hbranch : f kind = Rule.consume >>= g) (h : Reads (g ()) d w next post) :
    Reads (Rule.lookahead >>= f) d (kind :: w) next post := by
  refine Reads.look ?_
  rw [List.headD_cons, hbranch]
  exact h.consume_then

/-- A branch in which the token in view is consumed. -/
theorem Decides.look_consume {f : ι → Kind → Rule σ β} {g : ι → Unit → Rule σ β}
    (hbranch : ∀ i, f i kind = Rule.consume >>= g i)
    (h : Decides d M post (fun i => g i ()) z) :
    Decides d (token kind * M) post (fun i => Rule.lookahead >>= f i) (kind :: z) := by
  refine .lead h (fun i _ _ hreads => hreads.look_consume (hbranch i)) ?_
  intro i w next expected hstops
  refine Stops.look ?_
  rw [List.headD_cons, hbranch]
  exact hstops.consume_then

/-- A branch in which the token in view is refused. -/
theorem Decides.look_fail {f : ι → Kind → Rule σ β}
    (hbranch : ∀ i, f i (x.headD .eof) = Rule.fail expected) (hpossible : ∃ w, w ∈ L)
    (hoffers : Offers d L (fun i => Rule.lookahead >>= f i) [] expected) :
    Decides d L post (fun i => Rule.lookahead >>= f i) x := by
  refine .stops [] x expected rfl (fun i => Stops.look ?_) hpossible hoffers
  rw [List.headD_nil, hbranch]
  exact Stops.fail

/-- The rules go on as they do for the kind in view. -/
theorem Decides.look {f : ι → Kind → Rule σ β}
    (h : Decides d L post (fun i => f i (x.headD .eof)) x)
    (hdeep : ∀ i, Stops (f i (x.headD .eof)) d [] .openParen [] →
      Stops (f i .openParen) d [] .openParen []) :
    Decides d L post (fun i => Rule.lookahead >>= f i) x := by
  cases h with
  | reads w z hx hw hreads =>
    refine .reads w z hx hw fun i => Reads.look ?_
    rw [← headD_append, ← hx]
    exact hreads i
  | stops w z expected hx hstops hviable hoffers =>
    refine .stops w z expected hx (fun i => Stops.look ?_) hviable
      (hoffers.imp (fun _ hoffer => hoffer) fun hrefused i => Stops.look ?_)
    · rw [← headD_append, ← hx]
      exact hstops i
    · -- where nothing has been read, the parenthesis itself is what the rules look at
      cases w with
      | nil => exact hdeep i (hrefused i)
      | cons first w =>
        rw [hx] at hrefused
        exact hrefused i

/-- One construct of several, told apart by the token in view, which is then consumed. -/
theorem Accords.choice {f : ι → Kind → Rule σ β} {g : Kind → ι → Unit → Rule σ β}
    {kinds : List Kind} {P : Kind → Phrase} (hend : .eof ∉ kinds)
    (hg : ∀ kind ∈ kinds, Accords d (P kind) G post fun i => g kind i ())
    (hbranch : ∀ kind ∈ kinds, ∀ i, f i kind = Rule.consume >>= g kind i)
    (hfail : ∀ kind ∉ kinds, ∀ i, f i kind = Rule.fail kinds) (hkinds : kinds ≠ []) :
    Accords d (choice kinds P) G post fun i => Rule.lookahead >>= f i := by
  have hpossible : ∃ w, w ∈ ScriptFront.choice kinds P := by
    obtain ⟨kind, hkind⟩ := List.exists_mem_of_ne_nil kinds hkinds
    obtain ⟨v, hv⟩ := (hg kind hkind).possible
    exact ⟨kind :: v, kind, hkind, v, hv, rfl⟩
  refine ⟨fun {w next} hw hnext i => ?_, fun x hx => ?_, hpossible⟩
  · obtain ⟨kind, hkind, v, hv, rfl⟩ := hw
    exact Reads.look_consume (hbranch kind hkind i) ((hg kind hkind).reads hv hnext i)
  · by_cases hhead : x.headD .eof ∈ kinds
    · obtain ⟨z, hz⟩ := exists_of_headD rfl fun heq => hend (heq ▸ hhead)
      rw [hz] at hx ⊢
      refine (Decides.look_consume (hbranch _ hhead)
        ((hg _ hhead).decides z (List.not_mem_of_not_mem_cons hx))).mono fun w hw => ?_
      obtain ⟨v, hv, rfl⟩ := mem_token_mul.mp hw
      exact ⟨_, hhead, v, hv, rfl⟩
    · refine .look_fail (hfail _ hhead) hpossible fun kind hkind => .inl ?_
      obtain ⟨v, hv⟩ := (hg kind hkind).possible
      exact ⟨v, kind, hkind, v, hv, rfl⟩

/-- A construct that may be missing, and is there if a kind of the guard is in view. -/
theorem Accords.optional {f : ι → Kind → Rule σ β} {b : ι → β} {guard : Kind → Bool}
    (hidle : ∀ i kind, guard kind = false → f i kind = Pure.pure (b i)) (hpost : ∀ i, post (b i))
    (hreads : ∀ w ∈ M, ∀ next, G next → ∀ i, Reads (Rule.lookahead >>= f i) d w next post)
    (hdecides : ∀ x, .eof ∉ x → guard (x.headD .eof) = true →
      Decides d M post (fun i => Rule.lookahead >>= f i) x) :
    Accords d (1 + M) (fun kind => guard kind = false ∧ G kind) post
      fun i => Rule.lookahead >>= f i := by
  have hnothing (i : ι) {next : Kind} (hnext : guard next = false) :
      Reads (Rule.lookahead >>= f i) d [] next post := by
    refine Reads.look ?_
    rw [List.headD_nil, hidle i next hnext]
    exact Reads.pure (hpost i)
  refine ⟨fun {w next} hw hnext i => ?_, fun x hx => ?_, ⟨[], .inl rfl⟩⟩
  · rcases hw with hw | hw
    · obtain rfl : w = [] := hw
      exact hnothing i hnext.1
    · exact hreads w hw next hnext.2 i
  · cases hguard : guard (x.headD .eof) with
    | false => exact .reads [] x rfl (.inl rfl) fun i => hnothing i hguard
    | true => exact (hdecides x hx hguard).mono fun w hw => .inr hw

/-- A construct that may be missing, and is there if the token that it begins with is in view. -/
theorem Accords.optional_token {g : ι → Rule σ β} {b : ι → β}
    (hkind : kind ≠ .eof) (hg : Accords d M G post g) (hpost : ∀ i, post (b i)) :
    Accords d (1 + token kind * M) (fun next => next ≠ kind ∧ G next) post fun i => (do
      if (← Rule.lookahead) = kind then do
        Rule.consume
        g i
      else return b i) := by
  refine (Accords.optional (G := G) (b := b) (fun i next hnext => ?_) hpost
    (fun w hw next hnext i => ?_) fun x hx hguard => ?_).follow
    fun next hnext => ⟨decide_eq_false hnext.1, hnext.2⟩
  · exact if_neg (of_decide_eq_false hnext)
  · obtain ⟨v, hv, rfl⟩ := mem_token_mul.mp hw
    exact Reads.look_consume (if_pos rfl) (hg.reads hv hnext i)
  · obtain ⟨z, rfl⟩ := exists_of_headD (of_decide_eq_true hguard) hkind
    exact .look_consume (fun _ => if_pos rfl) (hg.decides z (List.not_mem_of_not_mem_cons hx))

/-- Where two lists are said to be expected in place of one and the same token, the token is not
there. -/
theorem Stops.absurd {r : Rule σ α} {s : Rule σ β} {expected expected' : List Kind}
    (h : Stops r d [] next expected) (h' : Stops r d [] next expected')
    (hne : expected ≠ expected') : Stops s d [] next expected := by
  intro p stream hd hwalk
  obtain ⟨p₁, hr₁, -⟩ := h p stream hd hwalk
  obtain ⟨p₂, hr₂, -⟩ := h' p stream hd hwalk
  rw [hr₁] at hr₂
  injection hr₂ with hfault
  injection hfault with hcause
  injection hcause with hexpected
  exact False.elim (hne hexpected)

/-- A token at which a rule has nothing to do is not one that it refuses. -/
theorem Reads.absurd_stops {r : Rule σ α} {s : Rule σ β} {mid : α → Prop} {expected : List Kind}
    (hr : Reads r d [] next mid) (h : Stops r d [] next expected) :
    Stops s d [] next expected := by
  intro p stream hd hwalk
  obtain ⟨a, p₁, hr₁, -⟩ := hr p stream hd hwalk
  obtain ⟨p₂, hr₂, -⟩ := h p stream hd hwalk
  rw [hr₁] at hr₂
  cases hr₂

/-- A branch in which the token in view is asked for once more. -/
theorem Decides.look_expect {f : ι → Kind → Rule σ β} {g : ι → Rule σ β}
    (h : Decides d L post g (kind :: z)) (hbranch : ∀ i, f i kind = g i)
    (hexpect : ∀ i, Stops (g i) d [] .openParen [kind]) :
    Decides d L post (fun i => Rule.lookahead >>= f i) (kind :: z) := by
  have hg : (fun i => f i ((kind :: z).headD .eof)) = g := funext hbranch
  refine Decides.look (hg ▸ h) fun i hdeep => ?_
  rw [List.headD_cons, hbranch] at hdeep
  exact hdeep.absurd (hexpect i) (List.cons_ne_nil _ _).symm

/-- A branch in which a rule runs that begins with the token in view, and its value is made into
another. -/
theorem Accords.alternative {r : Rule σ α} {f : Kind → Rule σ β} {b : α → β} {mid : α → Prop}
    (hr : Accords d L F mid fun _ : ι => r) (hx : .eof ∉ kind :: z)
    (hbranch : f kind = r >>= fun a => Pure.pure (b a))
    (hexpect : Stops r d [] .openParen [kind]) (hpost : ∀ a, post (b a))
    (hle : ∀ v ∈ L, v ∈ M) :
    Decides d M post (fun _ : ι => Rule.lookahead >>= f) (kind :: z) := by
  have hrun : Accords d L F post fun _ : ι => r >>= fun a => Pure.pure (b a) :=
    hr.bind_pure fun _ a _ => hpost a
  exact (Decides.look_expect (hrun.decides _ hx) (fun _ => hbranch)
    fun _ => hexpect.bind_left).mono hle

/-! ### Levels of nesting -/

variable {limit : Nat} {f : ι → Rule σ β}

theorem Decides.nested (hd : d < limit) (h : Decides (d + 1) L post f x) :
    Decides d L post (fun i => Rule.nested (some limit) (f i)) x := by
  cases h with
  | reads w z hx hw hreads => exact .reads w z hx hw fun i => (hreads i).nested hd
  | stops w z expected hx hstops hviable hoffers =>
    exact .stops w z expected hx (fun i => (hstops i).nested hd) hviable
      (hoffers.imp (fun _ hoffer => hoffer) fun hdeep i => (hdeep i).nested hd)

/-- Where no level may be opened any more, nothing of a construct is read. -/
theorem Decides.refused (hd : limit ≤ d) (hpossible : ∃ w, w ∈ L) :
    Decides d L post (fun i => Rule.nested (some limit) (f i)) x :=
  .stops [] x [] rfl (fun _ => Stops.refused hd) hpossible
    fun _ hkind => False.elim (List.not_mem_nil hkind)

end

/-! ### Loops -/

section

variable {step : Rule σ Bool}

theorem Reads.again (h : Reads step d w next (· = true)) :
    Reads (Rule.again step) d w next fun found => found.isSome = true :=
  h.bind_pure fun _ hfound => by rw [if_pos hfound]; rfl

theorem Reads.again_done (h : Reads step d w next (· = false)) :
    Reads (Rule.again step) d w next (· = none) :=
  h.bind_pure fun _ hfound => by rw [hfound]; rfl

theorem Decides.again (h : Decides d L (· = true) (fun _ : ι => step) x) :
    Decides d L (fun found => found.isSome = true) (fun _ : ι => Rule.again step) x :=
  h.bind_pure fun _ _ hfound => by rw [if_pos hfound]; rfl

end

/-- A step of a loop, which has something to do exactly at the kinds of the guard. Those are the
kinds that the phrase of a step begins with. -/
structure Round (d : Nat) (L : Phrase) (F : Kind → Prop) (guard : Kind → Bool)
    (step : α → Rule σ (Option α)) : Prop where
  loop : Loop step
  idle (a : α) {next : Kind} : guard next = false → Reads (step a) d [] next (· = none)
  reads {w : List Kind} {next : Kind} : w ∈ L → F next →
    ∀ a, Reads (step a) d w next fun found => found.isSome = true
  decides {x : List Kind} : .eof ∉ x → guard (x.headD .eof) = true →
    Decides d L (fun found => found.isSome = true) step x
  head : Begins (fun kind => guard kind = true) L
  follow {kind : Kind} : guard kind = true → F kind
  paren : F .openParen

section

variable {step : α → Rule σ (Option α)} {guard : Kind → Bool}

theorem Round.reads_done (h : Round d L F guard step) (a : α) (hnext : guard next = false) :
    Reads (Rule.many step a) d [] next fun _ => True := by
  rw [h.loop.many_eq]
  show Reads _ d ([] ++ []) next _
  refine Reads.bind (h.idle a hnext) fun found hfound => ?_
  rw [hfound]
  exact Reads.pure trivial

/-- What comes behind a round may follow it: another round, or what follows the loop. -/
theorem Round.headD (h : Round d L F guard step) (hw : w ∈ L∗) (hnext : F next) :
    F (w.headD next) := by
  obtain ⟨parts, rfl, hparts⟩ := Language.mem_kstar.mp hw
  cases parts with
  | nil => exact hnext
  | cons part parts =>
    obtain ⟨kind, v, hv, hkind⟩ := h.head part (hparts part (by simp))
    rw [List.flatten_cons, hv]
    exact h.follow hkind

/-- By induction on the rounds. -/
theorem Round.reads_many (h : Round d L F guard step) (hguard : guard next = false)
    (hnext : F next) (parts : List (List Kind)) (hparts : ∀ part ∈ parts, part ∈ L) :
    ∀ a, Reads (Rule.many step a) d parts.flatten next fun _ => True := by
  induction parts with
  | nil =>
    intro a
    exact h.reads_done a hguard
  | cons part parts ih =>
    intro a
    have hparts' : ∀ part' ∈ parts, part' ∈ L := fun part' hpart' =>
      hparts part' (List.mem_cons_of_mem _ hpart')
    have hnext' := h.headD (Language.join_mem_kstar hparts') hnext
    rw [h.loop.many_eq, List.flatten_cons]
    refine Reads.bind (h.reads (hparts part (by simp)) hnext' a) fun found hfound => ?_
    cases found with
    | none => exact absurd hfound Bool.false_ne_true
    | some a' => exact ih hparts' a'

/-- By induction on the tokens ahead, of which every round reads some. -/
theorem Round.decides_many (h : Round d L F guard step) (hx : .eof ∉ x) :
    Decides d L∗ (fun _ => True) (Rule.many step) x := by
  induction hlength : x.length using Nat.strongRecOn generalizing x with
  | ind n ih =>
    cases hguard : guard (x.headD .eof) with
    | false =>
      exact .reads [] x rfl (Language.nil_mem_kstar L) fun a => h.reads_done a hguard
    | true =>
      have heq : Rule.many step = fun a => step a >>= fun found =>
          found.elim (Pure.pure a) (Rule.many step) := by
        funext a
        refine (h.loop.many_eq a).trans (congrArg (step a >>= ·) (funext fun found => ?_))
        cases found <;> rfl
      have hround : Decides d (L * L∗) (fun _ => True) (Rule.many step) x := by
        rw [heq]
        refine (h.decides hx hguard).bind (h := Rule.many step) ?_ ?_
          (fun w hw a => h.reads hw h.paren a) ⟨[], Language.nil_mem_kstar L⟩
        · -- a round is not empty, so fewer tokens are ahead of the next
          intro w z hwz hw
          obtain ⟨kind, v, rfl, -⟩ := h.head w hw
          refine ih z.length ?_ (eof_notMem_right hx hwz) rfl
          rw [← hlength, hwz, List.length_append, List.length_cons]
          omega
        · intro a found hfound
          cases found with
          | none => exact False.elim (Bool.false_ne_true hfound)
          | some a' => exact ⟨a', rfl⟩
      have hle : L * L∗ ≤ L∗ := mul_kstar_le_kstar
      exact hround.mono fun w hw => hle hw

theorem Round.accords (h : Round d L F guard step) :
    Accords d L∗ (fun kind => guard kind = false ∧ F kind) (fun _ => True) (Rule.many step) where
  reads {w next} hw hnext a := by
    obtain ⟨parts, rfl, hparts⟩ := Language.mem_kstar.mp hw
    exact h.reads_many hnext.1 hnext.2 parts hparts a
  decides _ hx := h.decides_many hx
  possible := ⟨[], Language.nil_mem_kstar L⟩

end

end ScriptFront
