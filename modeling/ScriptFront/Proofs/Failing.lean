import ScriptFront.Grammar.Session
import ScriptFront.Proofs.Reading
import ScriptFront.Token.Playback

/-!
# ScriptFront.Proofs.Failing

**A list with a failure in it.** A rule that is run over it does what it does over the list without
the failure, unless it comes to ask for the item in whose place the failure stands
(`closed_failingAt`). So a failure tells how far a rule has read before something else befalls it.
-/

namespace ScriptFront

open Grammar

/-- A failure. -/
def Item.failure (position : Position) : Item :=
  { Item.eof position with fault := some .unrecognised }

/-- The list with a failure in the place of one of its items. -/
def Playback.failingAt (playback : Playback) (n : Nat) : Playback :=
  { playback with unread := playback.unread.set n (Item.failure playback.stop) }

/-- The parser over the list with a failure in the place of one of its items. -/
def Parser.failingAt (p : Parser Playback) (n : Nat) : Parser Playback :=
  { p with stream := p.stream.failingAt n }

/-! ### Where runs have come to -/

section

variable {σ τ α β : Type}

theorem Together.stateAfter {rel : σ → τ → Prop} {x : EStateM.Result Diagnostic σ α}
    {y : EStateM.Result Diagnostic τ β}
    (h : Together (fun _ _ p q => rel p q) (fun _ _ p q => rel p q) x y) :
    rel (stateAfter x) (stateAfter y) := by
  cases x <;> cases y
  · exact h
  · exact h.elim
  · exact h.elim
  · exact h

theorem Lands.stateAfter {Astray : σ → Prop} {value : α → Prop} {x : EStateM.Result Diagnostic σ α}
    (h : Strays Astray value x) : Astray (stateAfter x) := by
  cases x
  · exact h.1
  · exact h

end

/-! ### Reading a list -/

namespace Playback

/-- Whatever becomes of a step, it has read an item if there was one. -/
theorem length_unread_advance (q : Parser Playback) :
    Lands (fun _ q' => q'.stream.unread.length = q.stream.unread.length - 1)
      (fun _ q' => q'.stream.unread.length = q.stream.unread.length - 1) (Rule.advance q) := by
  rw [← List.length_tail]
  cases hadvance : TokenStream.advance q.stream with
  | ok kind s =>
    rw [Rule.advance_of_ok hadvance]
    exact congrArg List.length (advance_eq_ok hadvance).2.1
  | error fault s =>
    rw [Rule.advance_of_error hadvance]
    exact congrArg List.length (advance_eq_error hadvance).2

/-- A failure in the place of the next item is read. -/
theorem advance_failingAt_zero {s : Playback} (h : s.unread ≠ []) :
    ∃ fault s', TokenStream.advance (s.failingAt 0) = .error fault s' ∧
      fault.cause = .unrecognised := by
  obtain ⟨current, _ | ⟨item, rest⟩, stop⟩ := s
  · exact absurd rfl h
  · have hfault : (Item.failure stop).diagnostic? = some _ := rfl
    exact ⟨_, _, advance_of_fault rfl hfault, rfl⟩

/-- A failure further ahead does not change what is read. -/
theorem advance_failingAt_succ {s : Playback} (h : s.unread ≠ []) (k : Nat) :
    (∃ kind s', TokenStream.advance s = .ok kind s' ∧
        TokenStream.advance (s.failingAt (k + 1)) = .ok kind (s'.failingAt k)) ∨
      ∃ fault s', TokenStream.advance s = .error fault s' ∧
        TokenStream.advance (s.failingAt (k + 1)) = .error fault (s'.failingAt k) := by
  obtain ⟨current, _ | ⟨item, rest⟩, stop⟩ := s
  · exact absurd rfl h
  · cases hitem : item.diagnostic? with
    | none => exact .inl ⟨_, _, advance_of_token rfl hitem, advance_of_token rfl hitem⟩
    | some fault => exact .inr ⟨fault, _, advance_of_fault rfl hitem, advance_of_fault rfl hitem⟩

/-- Items are read one by one. -/
theorem unread_of_walk {w : List Kind} : ∀ {s s' : Playback} {kind next : Kind},
    Walk w s kind s' next →
      s'.unread = s.unread.drop w.length ∧ (next ≠ .eof → w.length ≤ s.unread.length) := by
  induction w with
  | nil =>
    rintro s _ kind _ ⟨rfl, rfl⟩
    exact ⟨rfl, fun _ => Nat.zero_le _⟩
  | cons first w ih =>
    rintro s s' kind next ⟨rfl, hend, s₁, kind₁, hadvance, hwalk⟩
    obtain ⟨-, htail, hsome⟩ := advance_eq_ok hadvance
    obtain ⟨hunread, hle⟩ := ih hwalk
    rw [htail] at hunread hle
    refine ⟨by rw [hunread, List.drop_tail, List.length_cons], fun hnext => ?_⟩
    have hlength := hle hnext
    rw [List.length_tail] at hlength
    rw [List.length_cons]
    cases w with
    | nil =>
      -- the token that has been read is not the end, so there was an item for it
      obtain ⟨-, rfl⟩ := hwalk
      exact List.length_pos_iff.mpr (hsome hnext)
    | cons _ _ =>
      rw [List.length_cons] at hlength ⊢
      omega

end Playback

/-! ### A run and its failure -/

/-- Two parsers stand at the same place of a list of a given length, and the failure that one of them
has in place of an item is still ahead. -/
def Parser.BeforeFailure (length n : Nat) (p q : Parser Playback) : Prop :=
  ∃ k, k < q.stream.unread.length ∧ q.stream.unread.length + n = length + k ∧ p = q.failingAt k

/-- The item in whose place a failure could stand has been read. -/
def Parser.BehindFailure (length n : Nat) (q : Parser Playback) : Prop :=
  q.stream.unread.length + n < length

/-- **One step**: both read the same, or the one the failure and the other the item. -/
theorem Parser.BeforeFailure.advance {length n : Nat} {p q : Parser Playback}
    (h : p.BeforeFailure length n q) :
    Parts (fun _ _ p' q' => p'.BeforeFailure length n q')
      (fun e f p' q' => e = f ∧ p'.peak = q'.peak ∧ length ≤ q'.stream.unread.length + n)
      (fun e _ => e.cause = .unrecognised) (Parser.BehindFailure length n) (fun _ => True)
      (Rule.advance p) (Rule.advance q) := by
  obtain ⟨k, hk, hlength, rfl⟩ := h
  have hsome : q.stream.unread ≠ [] := List.length_pos_iff.mp (by omega)
  have hread := Playback.length_unread_advance q
  cases k with
  | zero =>
    obtain ⟨fault, s, hfail, hcause⟩ := Playback.advance_failingAt_zero hsome
    right
    rw [Rule.advance_of_error (p := q.failingAt 0) hfail]
    refine ⟨hcause, hread.imp (fun _ q' hless => ⟨?_, trivial⟩) fun _ q' hless => ?_⟩
    · unfold BehindFailure
      omega
    · unfold BehindFailure
      omega
  | succ k =>
    left
    rcases Playback.advance_failingAt_succ hsome k with
      ⟨kind, s, hok, hok'⟩ | ⟨fault, s, hfail, hfail'⟩
    · rw [Rule.advance_of_ok hok] at hread ⊢
      rw [Rule.advance_of_ok (p := q.failingAt (k + 1)) hok']
      simp only [Lands] at hread
      exact ⟨k, by simp only; omega, by simp only; omega, rfl⟩
    · rw [Rule.advance_of_error hfail] at hread ⊢
      rw [Rule.advance_of_error (p := q.failingAt (k + 1)) hfail']
      simp only [Lands] at hread
      exact ⟨rfl, rfl, by simp only; omega⟩

/-- A run over a list and one over the same list with a failure in it are the same until the failure
is read. -/
theorem parting_failing (limit : Option Nat) (length n : Nat) :
    Parting Eq limit limit (fun _ => Parser.BeforeFailure length n)
      (fun _ e f p q => e = f ∧ p.peak = q.peak ∧ length ≤ q.stream.unread.length + n)
      (fun _ e _ => e.cause = .unrecognised) (Parser.BehindFailure length n) where
  lookahead := by
    rintro _ _ q ⟨k, -, -, rfl⟩
    rfl
  advance h _ := h.advance
  unexpected := by
    rintro _ _ q expected ⟨k, -, hlength, rfl⟩ - -
    exact ⟨rfl, rfl, by omega⟩
  refuse := by
    rintro _ _ q ⟨k, -, hlength, rfl⟩ - -
    exact ⟨rfl, rfl, by omega⟩
  part := by
    rintro _ _ q ⟨k, -, -, rfl⟩ - hlimit hlimit'
    cases hlimit.symm.trans hlimit'
  enter := by
    rintro _ _ q ⟨k, hk, hlength, rfl⟩ hlimit
    exact ⟨hlimit, k, hk, hlength, rfl⟩
  leave := by
    rintro _ _ q ⟨k, hk, hlength, rfl⟩
    exact ⟨k, hk, hlength, rfl⟩
  leave_fault := id
  leave_stop := id
  integer := by
    rintro _ _ q ⟨k, -, -, rfl⟩ -
    rfl
  identifier := by
    rintro _ _ q ⟨k, -, -, rfl⟩ -
    rfl
  text := by
    rintro _ _ q ⟨k, -, -, rfl⟩ -
    rfl
  straying :=
    { advance := by
        intro q hq
        unfold Parser.BehindFailure at hq ⊢
        refine (Playback.length_unread_advance q).imp ?_ ?_ <;> (intro _ q' hread; omega)
      enter := id
      leave := id
      related := fun _ b => ⟨b, rfl⟩ }

section

variable {α : Type} {start : Kind → Prop} {rule : Inner Playback → Rule Playback α}
  {p : Parser Playback} {n : Nat}

theorem Parser.failingAt_of_le (hn : p.stream.unread.length ≤ n) :
    p.failingAt n = p := by
  simp only [Parser.failingAt, Playback.failingAt, List.set_eq_of_length_le hn]

/-- **A rule over a list with a failure in it**: it is cut short by the failure, or has come to its
end before, in the same way as over the list without it. -/
theorem closed_failingAt (limit : Option Nat)
    (h : ∀ i j, Alike Eq i j false start (fun a b _ => a = b) (rule i) (rule j))
    (hstart : start p.lookahead) (hn : n < p.stream.unread.length) :
    Together
        (fun _ _ p' q' => p'.peak = q'.peak ∧
          p.stream.unread.length ≤ q'.stream.unread.length + n)
        (fun e f p' q' => e = f ∧ p'.peak = q'.peak ∧
          p.stream.unread.length ≤ q'.stream.unread.length + n)
        (closed limit rule (p.failingAt n)) (closed limit rule p) ∨
      (∃ fault p', closed limit rule (p.failingAt n) = .error fault p' ∧
        fault.cause = .unrecognised) ∧
        (stateAfter (closed limit rule p)).stream.unread.length + n < p.stream.unread.length := by
  have hparts := parts_closed compositional_eq
    (parting_failing limit p.stream.unread.length n) h (p := p.failingAt n) (q := p) (d := 0)
    ⟨n, hn, rfl, rfl⟩ hstart
  rcases hparts with htogether | ⟨hstop, hstrays⟩
  · refine .inl (htogether.imp ?_ fun _ _ _ _ hfault => hfault)
    rintro a b _ q' ⟨⟨k, hk, hlength, rfl⟩, -⟩
    exact ⟨rfl, by omega⟩
  · right
    constructor
    · cases hp : closed limit rule (p.failingAt n) <;> rw [hp] at hstop
      · exact hstop.elim
      · exact ⟨_, _, rfl, hstop⟩
    · exact Lands.stateAfter hstrays

end

end ScriptFront
