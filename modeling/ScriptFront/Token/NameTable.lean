/-!
# ScriptFront.Token.NameTable

The **table of names**: a finite map from the names that have been met to their ordinals. A name
that is new gets the number of the names before it as its ordinal, and keeps that.

The entries come in an order that says nothing. The names are read off them by the ordinals alone,
each of which is the place of its name (`listed?`).
-/

namespace ScriptFront

/-- A finite map from names to ordinals. -/
structure NameTable where
  /-- The entries, in whatever order. -/
  entries : List (String × UInt32)
  /-- No name has more than one of them. -/
  nodup : (entries.map Prod.fst).Nodup

namespace NameTable

/-- The table that no name has been entered into. -/
def empty : NameTable where
  entries := []
  nodup := List.nodup_nil

/-- The number of names. -/
def size (table : NameTable) : Nat :=
  table.entries.length

/-- The ordinal of a name, if it has one. -/
def find? (table : NameTable) (name : String) : Option UInt32 :=
  table.entries.lookup name

theorem find?_eq_none {table : NameTable} {name : String} :
    table.find? name = none ↔ name ∉ table.entries.map Prod.fst := by
  simp only [find?, List.lookup_eq_none_iff, List.mem_map, not_exists, not_and, bne_iff_ne]
  exact ⟨fun h entry mem same => h entry mem same.symm,
    fun h entry mem same => h entry mem same.symm⟩

/-- The table with an entry for a name that has none yet. -/
def insert (table : NameTable) (name : String) (ordinal : UInt32)
    (new : table.find? name = none) : NameTable where
  entries := (name, ordinal) :: table.entries
  nodup := List.nodup_cons.mpr ⟨find?_eq_none.mp new, table.nodup⟩

/-- The ordinal of a name, and the table with the name in it. A name that has no ordinal yet gets
the one that is offered. -/
def findOrInsert (table : NameTable) (name : String) (ordinal : UInt32) : UInt32 × NameTable :=
  match new : table.find? name with
  | some found => (found, table)
  | none => (ordinal, table.insert name ordinal new)

/-- Some names, with a further one put at its ordinal. There is no place beyond the last one. -/
def put? (names : List String) (entry : String × UInt32) : Option (List String) :=
  if entry.2.toNat < names.length then some (names.set entry.2.toNat entry.1) else none

/-- The names of some entries, each put at its ordinal, in the order in which the entries come. -/
def listed? (entries : List (String × UInt32)) : Option (List String) :=
  entries.foldlM put? (List.replicate entries.length "")

/-- The names of a table, each at its ordinal. -/
def names (table : NameTable) : List String :=
  (listed? table.entries).getD []

end NameTable

end ScriptFront
