import ScriptFront.Proofs.Acceptance
import ScriptFront.Proofs.Recording

/-!
# ScriptFront.Proofs.Payloads

**The values of tokens never steer the parser, and each of them reaches the tree from its own token
alone.** In the place of the integers of numbers, the ordinals of identifiers and the contents of
texts other values are put (`Replacement`), and all else that an item has beside its kind may change
at will (`Item.Replaced`). Then the same items are read and the same kinds are asked for, and at the
leaves of the program the values are replaced in the same way (`parse_of_replaced`).
-/

namespace ScriptFront

open Grammar

/-- What is put in the place of the values that tokens have. -/
structure Replacement where
  /-- For the value of an integer. -/
  integer : Int64 → Int64
  /-- For the ordinal of an identifier. -/
  ordinal : UInt32 → UInt32
  /-- For the contents of a text. -/
  text : String → String

namespace Replacement

/-- An expression with the value at every leaf replaced. -/
def expr (replacement : Replacement) : Expr → Expr
  | .const value => .const (replacement.integer value)
  | .id ordinal => .id (replacement.ordinal ordinal)
  | .str text => .str (replacement.text text)
  | .binary op left right => .binary op (replacement.expr left) (replacement.expr right)

/-- A statement with the value at every leaf replaced. -/
def statement (replacement : Replacement) : Statement → Statement
  | .write value => .write (replacement.expr value)

/-- A program with the value at every leaf replaced. -/
def program (replacement : Replacement) (program : Program) : Program :=
  ⟨program.statements.map replacement.statement⟩

variable {replacement : Replacement}

theorem compositional_expr (replacement : Replacement) :
    Compositional fun e e' => e' = replacement.expr e := by
  rintro op l _ r _ rfl rfl
  rfl

/-- Statements whose values are replaced one by one are the statements of the program with its
values replaced. -/
theorem statements_of_retained {l m : List Statement}
    (h : Retained (fun e e' => e' = replacement.expr e) l m) :
    m = l.map replacement.statement := by
  induction h with
  | nil => rfl
  | @cons s t _ _ hst _ ih =>
    cases s
    cases t
    cases hst
    rw [ih, List.map_cons]
    rfl

end Replacement

/-! ### Items -/

/-- An item with the value that belongs to its kind replaced. The other values, the text, the
position and the line may be any. -/
structure Item.Replaced (replacement : Replacement) (item item' : Item) : Prop where
  fault : item'.fault = item.fault
  kind : item'.token.kind = item.token.kind
  integer : item.token.kind = .number → item'.intValue = replacement.integer item.intValue
  ordinal : item.token.kind = .identifier →
    item'.location.ordinal = replacement.ordinal item.location.ordinal
  text : item.token.kind = .string → item'.stringValue = replacement.text item.stringValue

/-- The item at a place of a list. Behind the last item there is the end. -/
def Item.atPlace (file : String) (items : List Item) (place : Nat) : Item :=
  Item.first (items.drop place) (Item.stopOf file items)

/-- A parser stops at the item at a place of a list, which is the last one that it has read. Either
the item is a failure, or it is the current one and not what is expected. -/
inductive StopsAt (file : String) (items : List Item) (place : Nat) :
    Diagnostic → Playback → Prop
  | failed {fault : Diagnostic} {next : Playback}
      (hitem : (Item.atPlace file items place).diagnostic? = some fault)
      (hunread : next.unread = items.drop (place + 1)) : StopsAt file items place fault next
  | refused {expected : List Kind} {next : Playback} (hplace : place ≤ items.length)
      (hfault : (Item.atPlace file items place).fault = none)
      (hcurrent : next.current = Item.atPlace file items place)
      (hunread : next.unread = items.drop (place + 1)) :
      StopsAt file items place ((Item.atPlace file items place).unexpected expected) next

section

variable {replacement : Replacement} {file file' : String} {items items' : List Item} {place : Nat}

theorem Item.replaced_atPlace (h : List.Forall₂ (Item.Replaced replacement) items items')
    (place : Nat) :
    Item.Replaced replacement (Item.atPlace file items place)
      (Item.atPlace file' items' place) := by
  have hdrop := List.forall₂_drop place h
  unfold Item.atPlace
  generalize items.drop place = rest, items'.drop place = rest' at hdrop
  cases hdrop with
  | nil => exact ⟨rfl, rfl, nofun, nofun, nofun⟩
  | cons hitem _ => exact hitem

/-- The end is behind the last item, if no item before is of its kind. -/
theorem Item.lt_length_of_kind (hplace : place ≤ items.length)
    (hkind : (Item.atPlace file items place).token.kind ≠ .eof) : place < items.length := by
  refine Nat.lt_of_le_of_ne hplace fun heq => hkind ?_
  unfold Item.atPlace
  rw [heq, List.drop_length]
  rfl

/-- The list is read from a place on. -/
structure Playback.From (file : String) (items : List Item) (place : Nat)
    (playback : Playback) : Prop where
  unread : playback.unread = items.drop place
  stop : playback.stop = Item.stopOf file items

/-- The item at the place that has been reached is read next, whether there is one or the end. -/
theorem Playback.From.advance {playback : Playback} (h : playback.From file items place) :
    playback.advance =
      match (Item.atPlace file items place).diagnostic? with
      | some fault => .error fault { playback with unread := items.drop (place + 1) }
      | none => .ok (Item.atPlace file items place).token.kind
          { playback with
            current := Item.atPlace file items place
            unread := items.drop (place + 1) } := by
  unfold Playback.advance Item.atPlace
  rw [h.unread, h.stop, ← List.tail_drop]
  cases items.drop place <;> rfl

end

/-! ### Two parsers abreast -/

section

variable {replacement : Replacement} {file file' : String} {items items' : List Item} {place : Nat}
  {p q : Parser Playback}

/-- A parser has the item at a place of a list in view. -/
structure Parser.Views (file : String) (items : List Item) (place : Nat)
    (p : Parser Playback) : Prop where
  from_next : p.stream.From file items (place + 1)
  current : p.stream.current = Item.atPlace file items place
  fault : (Item.atPlace file items place).fault = none
  lookahead : p.lookahead = (Item.atPlace file items place).token.kind

theorem Parser.Views.congr {p' : Parser Playback} (h : p.Views file items place)
    (hstream : p'.stream = p.stream) (hlookahead : p'.lookahead = p.lookahead) :
    p'.Views file items place :=
  ⟨hstream ▸ h.from_next, hstream ▸ h.current, h.fault, hlookahead ▸ h.lookahead⟩

/-- Two parsers have the items at one place of two lists in view. -/
structure ViewsBoth (file file' : String) (items items' : List Item) (place : Nat)
    (p q : Parser Playback) : Prop where
  left : p.Views file items place
  right : q.Views file' items' place
  depth : p.depth = q.depth

/-- Two parsers stop at the items at one place of two lists, for the same cause. -/
def StopBoth (file file' : String) (items items' : List Item) (e e' : Diagnostic)
    (p q : Parser Playback) : Prop :=
  ∃ place, StopsAt file items place e p.stream ∧ StopsAt file' items' place e' q.stream ∧
    e'.cause = e.cause

/-- **One item keeps two parsers abreast**, or it is a failure in both lists. -/
theorem together_replaced (h : List.Forall₂ (Item.Replaced replacement) items items')
    (hp : p.stream.From file items place) (hq : q.stream.From file' items' place)
    (hdepth : p.depth = q.depth) :
    Together (fun _ _ p' q' => ViewsBoth file file' items items' place p' q')
      (StopBoth file file' items items') (Rule.advance p) (Rule.advance q) := by
  have hfault : (Item.atPlace file' items' place).fault = (Item.atPlace file items place).fault :=
    (Item.replaced_atPlace h place).fault
  have hadvance : TokenStream.advance p.stream = _ := hp.advance
  have hadvance' : TokenStream.advance q.stream = _ := hq.advance
  unfold Item.diagnostic? at hadvance hadvance'
  rw [hfault] at hadvance'
  cases hcause : (Item.atPlace file items place).fault with
  | none =>
    rw [hcause] at hadvance hadvance'
    rw [Rule.advance_of_ok hadvance, Rule.advance_of_ok hadvance']
    exact ⟨⟨⟨rfl, hp.stop⟩, rfl, hcause, rfl⟩, ⟨⟨rfl, hq.stop⟩, rfl, hfault.trans hcause, rfl⟩,
      hdepth⟩
  | some cause =>
    rw [hcause] at hadvance hadvance'
    rw [Rule.advance_of_error hadvance, Rule.advance_of_error hadvance']
    refine ⟨place, .failed ?_ rfl, .failed ?_ rfl, rfl⟩
    · unfold Item.diagnostic?
      rw [hcause]
      rfl
    · unfold Item.diagnostic?
      rw [hfault, hcause]
      rfl

/-- **Rules keep two parsers abreast**, and what they take from the items is replaced. -/
theorem simulation_replaced (h : List.Forall₂ (Item.Replaced replacement) items items')
    (limit : Option Nat) :
    Simulation (fun e e' => e' = replacement.expr e) limit limit
      (fun _ p q => ∃ place ≤ items.length, ViewsBoth file file' items items' place p q)
      (fun _ e e' p q => StopBoth file file' items items' e e' p q) where
  lookahead := by
    rintro _ p q ⟨place, -, hviews⟩
    rw [hviews.left.lookahead, hviews.right.lookahead]
    exact (Item.replaced_atPlace h place).kind.symm
  advance := by
    rintro _ p q ⟨place, hplace, hviews⟩ hkind
    rw [hviews.left.lookahead] at hkind
    have hlt := Item.lt_length_of_kind hplace hkind
    exact (together_replaced h hviews.left.from_next hviews.right.from_next hviews.depth).imp
      (fun _ _ _ _ hnext => ⟨place + 1, hlt, hnext⟩) fun _ _ _ _ hfault => hfault
  unexpected := by
    rintro _ p q expected ⟨place, hplace, hviews⟩ -
    have hplace' : place ≤ items'.length := h.length_eq ▸ hplace
    refine ⟨place, ?_, ?_, rfl⟩
    · have hfault : StopsAt file items place
          ((Item.atPlace file items place).unexpected expected) p.stream :=
        .refused hplace hviews.left.fault hviews.left.current hviews.left.from_next.unread
      rw [← hviews.left.current] at hfault
      exact hfault
    · have hfault : StopsAt file' items' place
          ((Item.atPlace file' items' place).unexpected expected) q.stream :=
        .refused hplace' hviews.right.fault hviews.right.current hviews.right.from_next.unread
      rw [← hviews.right.current] at hfault
      exact hfault
  refusal := by
    rintro _ p q ⟨place, -, hviews⟩
    rw [hviews.depth]
  enter := by
    rintro _ p q ⟨place, hplace, hviews⟩ -
    exact ⟨place, hplace, hviews.left.congr rfl rfl, hviews.right.congr rfl rfl,
      congrArg (· + 1) hviews.depth⟩
  leave := by
    rintro _ p q ⟨place, hplace, hviews⟩
    exact ⟨place, hplace, hviews.left.congr rfl rfl, hviews.right.congr rfl rfl,
      congrArg (· - 1) hviews.depth⟩
  leave_fault := id
  integer := by
    rintro _ p q ⟨place, -, hviews⟩ hkind
    rw [hviews.left.lookahead] at hkind
    show Expr.const q.stream.current.intValue =
      .const (replacement.integer p.stream.current.intValue)
    rw [hviews.left.current, hviews.right.current,
      (Item.replaced_atPlace h place).integer hkind]
  identifier := by
    rintro _ p q ⟨place, -, hviews⟩ hkind
    rw [hviews.left.lookahead] at hkind
    show Expr.id q.stream.current.location.ordinal =
      .id (replacement.ordinal p.stream.current.location.ordinal)
    rw [hviews.left.current, hviews.right.current,
      (Item.replaced_atPlace h place).ordinal hkind]
  text := by
    rintro _ p q ⟨place, -, hviews⟩ hkind
    rw [hviews.left.lookahead] at hkind
    show Expr.str q.stream.current.stringValue =
      .str (replacement.text p.stream.current.stringValue)
    rw [hviews.left.current, hviews.right.current,
      (Item.replaced_atPlace h place).text hkind]

end

/-! ### Two parses -/

section

variable {replacement : Replacement} {file file' : String} {items items' : List Item}

/-- The parses of two lists of which one has the values of the other replaced. -/
theorem together_replaced_programs
    (h : List.Forall₂ (Item.Replaced replacement) items items') :
    Together (fun a b _ _ => Retained (fun e e' => e' = replacement.expr e) a.statements
        b.statements ∧ True)
      (fun e e' p q => StopBoth file file' items items' e e' p q)
      (Grammar.program (some maxDepth) { stream := Playback.ofItems file items })
      (Grammar.program (some maxDepth) { stream := Playback.ofItems file' items' }) := by
  refine (simulation_replaced h (some maxDepth)).program
    (Replacement.compositional_expr replacement) ?_ ?_
  · have hfirst := @together_replaced _ file file' _ _ 0 ⟨Playback.ofItems file items, .eof, 0, 0⟩
      ⟨Playback.ofItems file' items', .eof, 0, 0⟩ h ⟨rfl, rfl⟩ ⟨rfl, rfl⟩ rfl
    exact hfirst.imp (fun _ _ _ _ hviews => ⟨0, Nat.zero_le _, hviews⟩) fun _ _ _ _ hfault => hfault
  · rintro p q ⟨place, -, hviews⟩ -
    -- what stands behind the token of the end is asked for as well, and may be a failure
    exact (together_replaced h hviews.left.from_next hviews.right.from_next hviews.depth).imp
      (fun _ _ _ _ _ => trivial) fun _ _ _ _ hfault => hfault

/-- The parse of a list stops for a cause at the item at a place of it. -/
def StoppedAt (file : String) (items : List Item) (place : Nat) (cause : Cause) : Prop :=
  ∃ fault next, parseStream (Playback.ofItems file items) = .error fault next ∧
    StopsAt file items place fault next ∧ fault.cause = cause

/-- **Values never steer the parser, and only those that belong to their kinds reach the tree.** A
list whose values have been replaced gives the program of the old list with the values at its leaves
replaced, or both parses stop at the same place and for the same cause. -/
theorem parse_of_replaced (h : List.Forall₂ (Item.Replaced replacement) items items') :
    (∃ program, parseItems file items = .ok program ∧
        parseItems file' items' = .ok (replacement.program program)) ∨
      ∃ place cause, StoppedAt file items place cause ∧ StoppedAt file' items' place cause := by
  have hrun := @together_replaced_programs _ file file' _ _ h
  unfold StoppedAt parseItems parseStream
  cases hleft : Grammar.program (some maxDepth) { stream := Playback.ofItems file items } <;>
    cases hright : Grammar.program (some maxDepth) { stream := Playback.ofItems file' items' } <;>
    rw [hleft, hright] at hrun
  · next program _ program' _ =>
    have hsame : program' = replacement.program program :=
      congrArg Program.mk (Replacement.statements_of_retained hrun.1)
    exact .inl ⟨program, rfl, hsame ▸ rfl⟩
  · exact False.elim hrun
  · exact False.elim hrun
  · obtain ⟨place, hstops, hstops', hcause⟩ := hrun
    exact .inr ⟨place, _, ⟨_, _, rfl, hstops, rfl⟩, ⟨_, _, rfl, hstops', hcause⟩⟩

end

/-- An item of a kind, with other values than a bare one. -/
def Item.filled (kind : Kind) : Item where
  token := ⟨kind, "?", ⟨⟨3, "other"⟩, ⟨5, "other"⟩⟩⟩
  location := ⟨9, 7⟩
  intValue := 42
  stringValue := "?"
  fault := none

/-- A difference keeps its shape, and the text that the items have too is not to be seen in it. -/
theorem replaced_difference :
    ∃ items items' replacement, List.Forall₂ (Item.Replaced replacement) items items' ∧
      parseItems "" items = .ok ⟨[.write (.binary .sub (.id 0) (.const 0))]⟩ ∧
      parseItems "other" items' = .ok ⟨[.write (.binary .sub (.id 7) (.const 42))]⟩ := by
  let kinds : List Kind :=
    [.printWord, .openParen, .identifier, .dash, .number, .closeParen, .semicolon]
  let replacement : Replacement := ⟨fun _ => 42, fun _ => 7, fun _ => "?"⟩
  have hreplaced : List.Forall₂ (Item.Replaced replacement) (kinds.map Item.bare)
      (kinds.map Item.filled) := by
    rw [List.forall₂_map_left_iff, List.forall₂_map_right_iff, List.forall₂_same]
    exact fun _ _ => ⟨rfl, rfl, fun _ => rfl, fun _ => rfl, fun _ => rfl⟩
  have hparse : parseItems "" (kinds.map Item.bare) =
      .ok ⟨[.write (.binary .sub (.id 0) (.const 0))]⟩ := by
    decide +kernel
  refine ⟨_, _, replacement, hreplaced, hparse, ?_⟩
  rcases @parse_of_replaced replacement "" "other" _ _ hreplaced with
    ⟨program, hprogram, hprogram'⟩ | ⟨place, cause, ⟨fault, next, hfault, -⟩, -⟩
  · rw [hparse] at hprogram
    cases hprogram
    exact hprogram'
  · unfold parseItems at hparse
    rw [hfault] at hparse
    cases hparse

end ScriptFront
