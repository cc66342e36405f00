import ScriptFront.Proofs.Conformity.Expression

/-!
# ScriptFront.Proofs.Conformity.List

**Lists in parentheses accord with their phrase.** After an item, the rule for a list looks for a
comma or for the parenthesis that closes the list, which it leaves in view. So the list is read
right where that parenthesis follows, and by an equation (`listOf_eq`) that has a comma behind an
item and not between two.
-/

namespace ScriptFront.Grammar

open Syntax
open scoped Computability

variable {σ ι : Type} [TokenStream σ] {d : Nat} {next : Kind} {w : List Kind}

theorem listOf_eq (items : List Kind) :
    listOf items = 1 + oneOf items * (1 + token .comma * listOf items) := by
  have hstar := Language.one_add_self_mul_kstar_eq_kstar (token .comma * oneOf items)
  calc
    listOf items = 1 + oneOf items * (1 + token .comma * oneOf items *
        (token .comma * oneOf items)∗) * (1 + token .comma) := by rw [listOf, hstar]
    _ = 1 + oneOf items * (1 + token .comma * (1 + oneOf items *
        (token .comma * oneOf items)∗ * (1 + token .comma))) := by
      simp only [mul_add, add_mul, mul_one, mul_assoc]
      rw [add_assoc (oneOf items), add_left_comm (oneOf items * token .comma)]
    _ = 1 + oneOf items * (1 + token .comma * listOf items) := by rw [listOf]

theorem reads_noSeparator : Reads (separator : Rule σ Unit) d [] .closeParen Any :=
  Reads.look (Reads.pure trivial)

theorem reads_comma : Reads (separator : Rule σ Unit) d [.comma] next Any :=
  Reads.look Reads.expect

theorem stops_separator (hclose : next ≠ .closeParen) (hcomma : next ≠ .comma) :
    Stops (separator : Rule σ Unit) d [] next [.comma] := by
  refine Stops.look ?_
  rw [List.headD_nil, if_neg hclose]
  exact Stops.expect hcomma

/-- Behind an item and a comma the list goes on. -/
theorem reads_more {admits : Kind → Bool}
    (h : Reads (items admits : Rule σ Unit) d w next Any) :
    Reads (do separator; items admits : Rule σ Unit) d (.comma :: w) next Any := by
  show Reads _ d ([.comma] ++ w) _ _
  exact Reads.bind reads_comma fun _ _ => h

theorem stops_more {admits : Kind → Bool} {expected : List Kind}
    (h : Stops (items admits : Rule σ Unit) d w next expected) :
    Stops (do separator; items admits : Rule σ Unit) d (.comma :: w) next expected := by
  show Stops _ d ([.comma] ++ w) _ _
  exact Stops.bind_right reads_comma fun _ _ => h

variable [LawfulTokenStream σ]

theorem loop_item {admits : Kind → Bool} (hadmits : admits .eof = false) :
    Loop fun _ : Unit => Rule.again (item admits : Rule σ Bool) :=
  .of_alike (some 0) (again_of_end (item_of_end hadmits)) fun _ => alike_again (alike_item hadmits)

/-- Items are one item and its separator, and the items behind them, if there is one. -/
theorem items_eq {admits : Kind → Bool} (hadmits : admits .eof = false) :
    (items admits : Rule σ Unit) = (do
      if admits (← Rule.lookahead) then do
        Rule.consume
        separator
        items admits
      else pure ()) := by
  refine (repeatWhile_eq (loop_item hadmits)).trans ?_
  unfold item
  rw [bind_assoc]
  refine congrArg (Rule.lookahead >>= ·) (funext fun kind => ?_)
  cases hkind : admits kind with
  | false =>
    simp only [Bool.false_eq_true, if_false]
    rfl
  | true =>
    simp only [if_true, bind_assoc, pure_bind]
    rfl

section Items

variable {admits : Kind → Bool} {kinds : List Kind}

theorem reads_noItems (hend : admits .eof = false) (hnext : admits next = false) :
    Reads (items admits : Rule σ Unit) d [] next Any := by
  rw [items_eq hend]
  refine Reads.look ?_
  rw [List.headD_nil, hnext]
  exact Reads.pure trivial

/-- Behind an item the list is closed. -/
theorem reads_closed (hend : admits .eof = false) (hclose : admits .closeParen = false) :
    Reads (do separator; items admits : Rule σ Unit) d [] .closeParen Any := by
  show Reads _ d ([] ++ []) _ _
  exact Reads.bind reads_noSeparator fun _ _ => reads_noItems hend hclose

/-- By induction on the length of the list. -/
theorem reads_items (hadmits : ∀ kind, kind ∈ kinds ↔ admits kind = true)
    (hend : admits .eof = false) (hclose : admits .closeParen = false) :
    ∀ (n : Nat) (w : List Kind), w.length < n → w ∈ listOf kinds →
      Reads (items admits : Rule σ Unit) d w .closeParen Any := by
  intro n
  induction n with
  | zero => exact fun w hn => absurd hn (Nat.not_lt_zero _)
  | succ n ih =>
    intro w hn hw
    rw [listOf_eq] at hw
    rcases hw with hw | hw
    · obtain rfl : w = [] := hw
      exact reads_noItems hend hclose
    · obtain ⟨kind, hkind, v, hv, rfl⟩ := mem_oneOf_mul.mp hw
      rw [items_eq hend]
      refine Reads.look_consume (if_pos ((hadmits kind).mp hkind)) ?_
      rcases hv with hv | hv
      · obtain rfl : v = [] := hv
        exact reads_closed hend hclose
      · obtain ⟨u, hu, rfl⟩ := mem_token_mul.mp hv
        simp only [List.length_cons] at hn
        exact reads_more (ih u (by omega) hu)

/-- By induction on the number of tokens ahead. -/
theorem decides_items (hadmits : ∀ kind, kind ∈ kinds ↔ admits kind = true)
    (hend : admits .eof = false) (hclose : admits .closeParen = false) :
    ∀ (n : Nat) (x : List Kind), x.length < n →
      Decides d (listOf kinds) Any (fun _ : ι => (items admits : Rule σ Unit)) x := by
  intro n
  induction n with
  | zero => exact fun x hn => absurd hn (Nat.not_lt_zero _)
  | succ n ih =>
    intro x hn
    rw [listOf_eq]
    cases hhead : admits (x.headD .eof) with
    | false => exact .reads [] x rfl (.inl rfl) fun _ => reads_noItems hend hhead
    | true =>
      cases x with
      | nil => exact absurd (hend.symm.trans hhead) Bool.false_ne_true
      | cons kind z =>
        -- what stands behind an item is looked at twice, first for its separator
        have hrest : Decides d (1 + token .comma * listOf kinds) Any
            (fun _ : ι => (do separator; items admits : Rule σ Unit)) z := by
          by_cases hparen : z.headD .eof = .closeParen
          · refine .reads [] z rfl (.inl rfl) fun _ => ?_
            rw [hparen]
            exact reads_closed hend hclose
          by_cases hcomma : z.headD .eof = .comma
          · obtain ⟨u, rfl⟩ := exists_of_headD hcomma (by decide)
            simp only [List.length_cons] at hn
            refine (Decides.lead (ih u (by omega)) (fun _ _ _ hreads => reads_more hreads)
              fun _ _ _ _ hstops => stops_more hstops).mono fun w hw => .inr hw
          · refine .stops [] z [.comma] rfl
              (fun _ => (stops_separator hparen hcomma).bind_left) ⟨[], .inl rfl⟩
              (.single ⟨[], .inr (mem_token_mul.mpr ⟨[], ?_, rfl⟩)⟩)
            rw [listOf_eq]
            exact .inl rfl
        rw [items_eq hend]
        refine (Decides.look_consume (fun _ => if_pos hhead) hrest).mono fun w hw => .inr ?_
        obtain ⟨v, hv, rfl⟩ := mem_token_mul.mp hw
        exact mem_oneOf_mul.mpr ⟨kind, (hadmits kind).mpr hhead, v, hv, rfl⟩

/-- A list accords with its phrase where it is closed next. -/
theorem accords_items (hadmits : ∀ kind, kind ∈ kinds ↔ admits kind = true)
    (hend : admits .eof = false) (hclose : admits .closeParen = false) :
    Accords d (listOf kinds) (· = .closeParen) Any
      fun _ : ι => (items admits : Rule σ Unit) where
  reads {w next} hw hnext _ := by
    rw [hnext]
    exact reads_items hadmits hend hclose _ w (Nat.lt_succ_self _) hw
  decides x _ := decides_items hadmits hend hclose _ x (Nat.lt_succ_self _)
  possible := by
    refine ⟨[], ?_⟩
    rw [listOf_eq]
    exact .inl rfl

end Items

/-! ### Parameters and arguments -/

theorem accords_parameters :
    Accords d parameters (· = .closeParen) Any fun _ : ι => (items isParameter : Rule σ Unit) := by
  refine accords_items ?_ rfl rfl
  intro kind
  cases kind <;> decide

theorem accords_arguments :
    Accords d arguments (· = .closeParen) Any fun _ : ι => (items isArgument : Rule σ Unit) := by
  refine accords_items ?_ rfl rfl
  intro kind
  cases kind <;> decide

end ScriptFront.Grammar
