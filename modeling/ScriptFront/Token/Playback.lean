import ScriptFront.Token.Stream

/-!
# ScriptFront.Token.Playback

A **token stream from a list**. Every item is a token with all that a stream tells of it, or a
failure in its place. Behind the list stands the end, as often as it is asked for.
-/

namespace ScriptFront

/-- One step of a token stream. -/
structure Item where
  /-- The token. -/
  token : Token
  /-- What a diagnostic at the token says of its place, and the ordinal of an identifier. -/
  location : Location
  /-- The value of an integer. -/
  intValue : Int64
  /-- The contents of a text. -/
  stringValue : String
  /-- Why there is no token to be had here, if so. -/
  fault : Option Cause
  deriving DecidableEq

namespace Item

/-- The end of a list of items. -/
def eof (position : Position) : Item where
  token := Token.eof position
  location := ⟨1, 0⟩
  intValue := 0
  stringValue := ""
  fault := none

/-- The failure that stands in the place of a token. -/
def diagnostic? (item : Item) : Option Diagnostic :=
  item.fault.map fun cause => ⟨cause, item.token.text, item.token.span.start, item.location⟩

end Item

/-- A list of items that is being read. -/
structure Playback where
  /-- The item read last. -/
  current : Item
  /-- The items still to be read. -/
  unread : List Item
  /-- Where the list ends. -/
  stop : Position
  deriving DecidableEq

namespace Playback

/-- The items of a named list, none of which has been read. The end stands at the number of the
items. -/
def ofItems (file : String) (items : List Item) : Playback where
  current := Item.eof ⟨0, file⟩
  unread := items
  stop := ⟨items.length.toUInt32, file⟩

/-- Reads the next item. A failure is used up, and the item before it remains the current one. -/
def advance (playback : Playback) : EStateM.Result Diagnostic Playback Kind :=
  match playback.unread with
  | [] => .ok .eof { playback with current := Item.eof playback.stop }
  | item :: rest =>
    match item.diagnostic? with
    | some fault => .error fault { playback with unread := rest }
    | none => .ok item.token.kind { playback with current := item, unread := rest }

theorem advance_of_token {playback : Playback} {item : Item} {items : List Item}
    (hunread : playback.unread = item :: items) (hitem : item.diagnostic? = none) :
    playback.advance = .ok item.token.kind { playback with current := item, unread := items } := by
  unfold Playback.advance
  simp only [hunread, hitem]

theorem advance_of_fault {playback : Playback} {item : Item} {items : List Item}
    {fault : Diagnostic} (hunread : playback.unread = item :: items)
    (hitem : item.diagnostic? = some fault) :
    playback.advance = .error fault { playback with unread := items } := by
  unfold Playback.advance
  simp only [hunread, hitem]

/-- What a successful step does. -/
theorem advance_eq_ok {playback next : Playback} {kind : Kind}
    (h : playback.advance = .ok kind next) :
    next.current.token.kind = kind ∧ next.unread = playback.unread.tail ∧
      (kind ≠ .eof → playback.unread ≠ []) := by
  simp only [advance] at h
  split at h
  · next empty =>
    cases h
    exact ⟨rfl, by simp [empty], fun not_eof => absurd rfl not_eof⟩
  · next item rest shape =>
    split at h
    · cases h
    · cases h
      exact ⟨rfl, by simp [shape], by simp [shape]⟩

/-- What a failing step does. -/
theorem advance_eq_error {playback next : Playback} {fault : Diagnostic}
    (h : playback.advance = .error fault next) :
    next.current = playback.current ∧ next.unread = playback.unread.tail := by
  simp only [advance] at h
  split at h
  · cases h
  · next item rest shape =>
    split at h
    · cases h
      exact ⟨rfl, by simp [shape]⟩
    · cases h

instance : TokenStream Playback where
  advance := advance
  current playback := playback.current.token
  intValue playback := playback.current.intValue
  stringValue playback := playback.current.stringValue
  ordinal playback := playback.current.location.ordinal
  location playback := playback.current.location
  remaining playback := playback.unread.length

instance : LawfulTokenStream Playback where
  kind_current h := (advance_eq_ok h).1
  current_of_error h := congrArg Item.token (advance_eq_error h).1
  remaining_le {playback next _} h := by
    show next.unread.length ≤ playback.unread.length
    rw [(advance_eq_ok h).2.1, List.length_tail]
    omega
  remaining_lt {playback next _} h not_eof := by
    have := List.length_pos_iff.mpr ((advance_eq_ok h).2.2 not_eof)
    show next.unread.length < playback.unread.length
    rw [(advance_eq_ok h).2.1, List.length_tail]
    omega

end Playback

end ScriptFront
