/-!
# ScriptFront.Source.Position

**Where something stands in a source.** Offsets, line numbers and identifier ordinals are 32-bit
words: a source is meant to be shorter than four gibibytes, and beyond that they wrap.
-/

namespace ScriptFront

/-- A place in a named source. -/
structure Position where
  /-- The number of bytes before the place. -/
  offset : UInt32
  /-- The name of the source. -/
  file : String
  deriving DecidableEq

/-- The place of a diagnostic that belongs to no source. -/
def Position.nowhere : Position where
  offset := 0
  file := "<null>"

/-- A stretch of a source, from its first byte to the byte after its last. -/
structure Span where
  /-- Where the stretch begins. -/
  start : Position
  /-- Where the stretch ends. -/
  stop : Position
  deriving DecidableEq

/-- What a token stream says about the place that it has reached, beside the offset. -/
structure Location where
  /-- The line, counted from one. -/
  line : UInt32
  /-- The ordinal of the identifier read last, which serves as a mark within the line. -/
  ordinal : UInt32
  deriving DecidableEq

/-- The location of a diagnostic that belongs to no line. -/
def Location.nowhere : Location where
  line := 0
  ordinal := 0

end ScriptFront
