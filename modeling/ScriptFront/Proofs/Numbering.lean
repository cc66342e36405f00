import Mathlib.Data.List.Induction
import ScriptFront.Proofs.Lossless
import ScriptFront.Token.NameTable

/-!
# ScriptFront.Proofs.Numbering

**A table of names numbers them in the order in which they first appear.** Its entries come in any
order; what ties them to a list of names is that each name has its place in the list as its ordinal
(`NameTable.Numbers`). One name keeps this (`NameTable.Numbers.enter`), be it new or not, and never
changes the ordinal of another one.

The ordinals are words of 32 bits. As long as they can tell the names apart, ordinals and names
correspond to one another (`NameTable.Numbers.bijective`), and the names are read off the entries
in whatever order these come (`NameTable.Numbers.listed?_eq`).
-/

namespace ScriptFront

/-! ### Names in the order in which they first appear -/

/-- Some names with a further one among them, which comes at the end if it is not there yet. -/
def enter (table : List String) (name : String) : List String :=
  if name ∈ table then table else table ++ [name]

theorem prefix_enter (table : List String) (name : String) : table <+: enter table name := by
  unfold enter
  split
  · exact List.prefix_rfl
  · exact List.prefix_append table [name]

theorem mem_enter (table : List String) (name : String) : name ∈ enter table name := by
  unfold enter
  split
  · assumption
  · exact List.mem_append_right table List.mem_cons_self

theorem mem_enter_iff {table : List String} {name other : String} :
    other ∈ enter table name ↔ other ∈ table ∨ other = name := by
  unfold enter
  split
  · next hmem =>
    exact ⟨.inl, fun h => h.elim id fun heq => heq ▸ hmem⟩
  · simp

theorem length_enter_le (table : List String) (name : String) :
    (enter table name).length ≤ table.length + 1 := by
  unfold enter
  split <;> simp

/-- A name that is in a table has its place in every table that goes on from it. -/
theorem idxOf_of_prefix {table more : List String} {name : String} (h : table <+: more)
    (hmem : name ∈ table) : more.idxOf name = table.idxOf name := by
  obtain ⟨rest, rfl⟩ := h
  exact List.idxOf_append_of_mem hmem

theorem idxOf?_of_mem {table : List String} {name : String} (h : name ∈ table) :
    table.idxOf? name = some (table.idxOf name) := by
  rw [List.idxOf_eq_getD_idxOf?]
  cases hindex : table.idxOf? name with
  | none => exact absurd h (List.idxOf?_eq_none_iff.mp hindex)
  | some index => rfl

/-- The ordinal of a name is its place, if there are enough of them. -/
theorem getElem?_ordinal {names : List String} {name : String} (hmem : name ∈ names)
    (hlength : names.length ≤ 2 ^ 32) : names[(names.idxOf name).toUInt32.toNat]? = some name := by
  have hplace := List.idxOf_lt_length_of_mem hmem
  rw [toNat_toUInt32 (by omega), List.getElem?_idxOf hmem]

section

variable {α : Type} [DecidableEq α] {name : α → String} {l : List α}

/-- Names are entered into a table in the order in which they first appear. By induction on what
they are names of, from the last one backwards. -/
theorem foldl_enter_map (hinjective : ∀ m ∈ l, ∀ n ∈ l, name m = name n → m = n) :
    (l.map name).foldl enter [] = l.eraseDups.map name := by
  induction l using List.reverseRecOn with
  | nil => rfl
  | append_singleton l a ih =>
    have hbefore := ih fun m hm n hn =>
      hinjective m (List.mem_append_left _ hm) n (List.mem_append_left _ hn)
    have hmem : name a ∈ l.eraseDups.map name ↔ a ∈ l := by
      constructor
      · intro h
        obtain ⟨other, hother, heq⟩ := List.mem_map.mp h
        have hother := List.mem_eraseDups.mp hother
        rwa [← hinjective other (List.mem_append_left _ hother) a (by simp) heq]
      · exact fun h => List.mem_map_of_mem (List.mem_eraseDups.mpr h)
    rw [List.map_append, List.foldl_append, hbefore, List.eraseDups_append, List.map_append]
    show enter _ (name a) = _
    unfold enter
    by_cases h : a ∈ l <;> simp [hmem, h, List.removeAll, List.eraseDups_cons]

/-- A table into which names are entered has each of them once. -/
theorem foldl_enter_eq (names : List String) : names.foldl enter [] = names.eraseDups := by
  have hmap := @foldl_enter_map String _ id names fun _ _ _ _ heq => heq
  rwa [List.map_id, List.map_id] at hmap

theorem idxOf_map_of_injective {a : α} (hinjective : ∀ b ∈ l, name b = name a → b = a) :
    (l.map name).idxOf (name a) = l.idxOf a := by
  induction l with
  | nil => rfl
  | cons first l ih =>
    obtain ⟨hfirst, hlater⟩ := List.forall_mem_cons.mp hinjective
    rw [List.map_cons, List.idxOf_cons, List.idxOf_cons, ih hlater]
    by_cases heq : first = a
    · simp [heq]
    · have hne : name first ≠ name a := fun h => heq (hfirst h)
      rw [beq_eq_false_iff_ne.mpr heq, beq_eq_false_iff_ne.mpr hne]

end

/-! ### Entries -/

/-- The entries of some names, each with its place as its ordinal. -/
def numbered (names : List String) : List (String × UInt32) :=
  names.zipIdx.map fun entry => (entry.1, entry.2.toUInt32)

section

variable {names : List String} {name : String} {ordinal : UInt32} {place : Nat}
  {entries : List (String × UInt32)} {entry : String × UInt32}

theorem length_numbered : (numbered names).length = names.length := by
  simp [numbered]

theorem map_fst_numbered : (numbered names).map Prod.fst = names := by
  unfold numbered
  rw [List.map_map]
  exact List.zipIdx_map_fst 0 names

theorem numbered_concat (names : List String) (name : String) :
    numbered (names ++ [name]) = numbered names ++ [(name, names.length.toUInt32)] := by
  unfold numbered
  rw [List.zipIdx_append, List.map_append, Nat.zero_add]
  rfl

theorem mem_numbered (h : names[place]? = some name) :
    (name, place.toUInt32) ∈ numbered names :=
  List.mem_map.mpr ⟨(name, place), List.mem_zipIdx_iff_getElem?.mpr h, rfl⟩

theorem lt_length_of_mem_numbered (h : (name, ordinal) ∈ numbered names) :
    ordinal.toNat < names.length := by
  obtain ⟨⟨other, place⟩, hmem, heq⟩ := List.mem_map.mp h
  have hplace : place < names.length := List.snd_lt_of_mem_zipIdx hmem
  obtain rfl : place.toUInt32 = ordinal := (Prod.mk.inj heq).2
  exact Nat.lt_of_le_of_lt (Nat.mod_le _ _) hplace

/-- The ordinals are the numbers below that of the names. -/
theorem ordinals_numbered (hsize : names.length ≤ 2 ^ 32) :
    ((numbered names).map fun entry => entry.2.toNat) = List.range names.length := by
  have hplaces : ∀ entry ∈ names.zipIdx, entry.2.toUInt32.toNat = entry.2 := fun entry hmem => by
    have hlt : entry.2 < names.length := List.snd_lt_of_mem_zipIdx hmem
    exact toNat_toUInt32 (by omega)
  unfold numbered
  rw [List.map_map, List.range_eq_range', ← List.zipIdx_map_snd]
  exact List.map_congr_left hplaces

/-- Among entries with different names, a name is looked up if and only if it has an entry. -/
theorem lookup_eq_some_iff (hnodup : (entries.map Prod.fst).Nodup) :
    entries.lookup name = some ordinal ↔ (name, ordinal) ∈ entries := by
  induction entries with
  | nil => simp
  | cons first entries ih =>
    obtain ⟨other, place⟩ := first
    obtain ⟨hother, hnodup⟩ := List.nodup_cons.mp hnodup
    rw [List.lookup_cons]
    by_cases hname : name = other
    · subst hname
      have hnone : (name, ordinal) ∉ entries := fun hmem =>
        hother (List.mem_map.mpr ⟨(name, ordinal), hmem, rfl⟩)
      simp [hnone, eq_comm]
    · simp [beq_eq_false_iff_ne.mpr hname, hname, ih hnodup]

/-! ### Names put at their ordinals -/

/-- Names are put one by one if none of them has its place beyond the end. -/
theorem foldlM_put? : ∀ {names : List String}, (∀ entry ∈ entries, entry.2.toNat < names.length) →
    entries.foldlM NameTable.put? names =
      some (entries.foldl (fun names entry => names.set entry.2.toNat entry.1) names) := by
  induction entries with
  | nil => exact fun _ => rfl
  | cons first entries ih =>
    intro names hplaces
    obtain ⟨hfirst, hlater⟩ := List.forall_mem_cons.mp hplaces
    rw [List.foldlM_cons, NameTable.put?, if_pos hfirst]
    exact ih fun entry hmem => by rw [List.length_set]; exact hlater entry hmem

/-- Where no entry points, nothing is put. -/
theorem getElem?_foldl_set_of_notMem (h : place ∉ entries.map fun entry => entry.2.toNat) :
    ∀ names : List String, (entries.foldl (fun names entry => names.set entry.2.toNat entry.1)
      names)[place]? = names[place]? := by
  induction entries with
  | nil => exact fun _ => rfl
  | cons first entries ih =>
    intro names
    rw [List.map_cons, List.mem_cons, not_or] at h
    rw [List.foldl_cons, ih h.2, List.getElem?_set_ne (Ne.symm h.1)]

/-- What an entry puts stays, if no other entry points there. -/
theorem getElem?_foldl_set (hnodup : (entries.map fun entry => entry.2.toNat).Nodup)
    (hmem : entry ∈ entries) :
    ∀ names : List String, entry.2.toNat < names.length →
      (entries.foldl (fun names entry => names.set entry.2.toNat entry.1) names)[entry.2.toNat]? =
        some entry.1 := by
  induction entries with
  | nil => exact absurd hmem List.not_mem_nil
  | cons first entries ih =>
    intro names hplace
    rw [List.map_cons, List.nodup_cons] at hnodup
    rw [List.foldl_cons]
    rcases List.mem_cons.mp hmem with rfl | hmem
    · rw [getElem?_foldl_set_of_notMem hnodup.1, List.getElem?_set_self hplace]
    · exact ih hnodup.2 hmem _ (by rwa [List.length_set])

theorem length_foldl_set : ∀ names : List String,
    (entries.foldl (fun names entry => names.set entry.2.toNat entry.1) names).length =
      names.length := by
  induction entries with
  | nil => exact fun _ => rfl
  | cons first entries ih =>
    intro names
    rw [List.foldl_cons, ih, List.length_set]

end

/-! ### Tables -/

namespace NameTable

/-- The table with a name in it. A name that is new gets the number of those before it. -/
def enter (table : NameTable) (name : String) : NameTable :=
  (table.findOrInsert name table.size.toUInt32).2

/-- The table has these names and no others, each with its place as its ordinal. This is what every
step of the lexer keeps. -/
def Numbers (table : NameTable) (names : List String) : Prop :=
  table.entries.Perm (numbered names)

/-- Ordinals and names correspond to one another: the numbers below that of the names are their
ordinals, each of exactly one of them. -/
def Bijective (table : NameTable) : Prop :=
  (table.entries.map fun entry => entry.2.toNat).Perm (List.range table.size)

variable {table more : NameTable} {names names' : List String} {name other : String}
  {ordinal : UInt32} {order : List (String × UInt32)}

/-! ### One name -/

theorem find?_eq_some : table.find? name = some ordinal ↔ (name, ordinal) ∈ table.entries :=
  lookup_eq_some_iff table.nodup

theorem enter_of_some (h : table.find? name = some ordinal) : table.enter name = table := by
  unfold enter findOrInsert
  split
  · rfl
  · next hnone => simp [hnone] at h

theorem entries_enter_of_none (h : table.find? name = none) :
    (table.enter name).entries = (name, table.size.toUInt32) :: table.entries := by
  unfold enter findOrInsert
  split
  · next hsome => simp [hsome] at h
  · rfl

/-- The ordinal that is given for a name is the one that it has in the table from then on. -/
theorem find?_enter : (table.enter name).find? name =
    some (table.findOrInsert name table.size.toUInt32).1 := by
  unfold enter findOrInsert
  split
  · next hsome => exact hsome
  · exact find?_eq_some.mpr List.mem_cons_self

/-! ### The names of a table -/

theorem numbers_empty : empty.Numbers [] :=
  List.Perm.nil

namespace Numbers

theorem size_eq (h : table.Numbers names) : table.size = names.length :=
  h.length_eq.trans length_numbered

theorem perm_names (h : table.Numbers names) : (table.entries.map Prod.fst).Perm names := by
  have hperm := h.map Prod.fst
  rwa [map_fst_numbered] at hperm

theorem nodup (h : table.Numbers names) : names.Nodup :=
  h.perm_names.nodup_iff.mp table.nodup

theorem find?_of_mem (h : table.Numbers names) (hmem : name ∈ names) :
    table.find? name = some (names.idxOf name).toUInt32 :=
  find?_eq_some.mpr (h.mem_iff.mpr (mem_numbered (List.getElem?_idxOf hmem)))

theorem find?_eq_none_iff (h : table.Numbers names) : table.find? name = none ↔ name ∉ names := by
  rw [find?_eq_none, h.perm_names.mem_iff]

theorem mem_of_find? (h : table.Numbers names) (hfound : table.find? name = some ordinal) :
    name ∈ names := by
  by_contra hnot
  rw [h.find?_eq_none_iff.mpr hnot] at hfound
  cases hfound

/-- There is a name at every ordinal, even if there are too many for their places to be told
apart. -/
theorem lt_length_of_find? (h : table.Numbers names) (hfound : table.find? name = some ordinal) :
    ordinal.toNat < names.length :=
  lt_length_of_mem_numbered (h.mem_iff.mp (find?_eq_some.mp hfound))

/-- The ordinal of a name is its place. -/
theorem eq_of_find? (h : table.Numbers names) (hfound : table.find? name = some ordinal) :
    ordinal = (names.idxOf name).toUInt32 := by
  rw [h.find?_of_mem (h.mem_of_find? hfound)] at hfound
  exact (Option.some.inj hfound).symm

/-- **Ordinals and places are the same**, as long as there are enough of them. -/
theorem find?_eq_some_iff (h : table.Numbers names) (hsize : names.length ≤ 2 ^ 32) :
    table.find? name = some ordinal ↔ names[ordinal.toNat]? = some name := by
  constructor
  · intro hfound
    rw [h.eq_of_find? hfound]
    exact getElem?_ordinal (h.mem_of_find? hfound) hsize
  · intro hplace
    have hentry := mem_numbered hplace
    rw [show ordinal.toNat.toUInt32 = ordinal from UInt32.ofNat_toNat] at hentry
    exact find?_eq_some.mpr (h.mem_iff.mpr hentry)

/-- **One more name is numbered behind those before it**, unless it is one of them. -/
theorem enter (h : table.Numbers names) (name : String) :
    (table.enter name).Numbers (ScriptFront.enter names name) := by
  unfold ScriptFront.enter
  by_cases hmem : name ∈ names
  · rw [if_pos hmem, enter_of_some (h.find?_of_mem hmem)]
    exact h
  · rw [if_neg hmem]
    unfold Numbers
    rw [entries_enter_of_none (h.find?_eq_none_iff.mpr hmem), h.size_eq, numbered_concat]
    exact (h.cons _).trans (List.perm_append_singleton _ _).symm

/-- So are any number of names. By induction on them. -/
theorem foldl_enter (more : List String) : ∀ {table : NameTable} {names : List String},
    table.Numbers names →
      (more.foldl NameTable.enter table).Numbers (more.foldl ScriptFront.enter names) := by
  induction more with
  | nil => exact id
  | cons name more ih => exact fun h => ih (h.enter name)

/-- A table that goes on from another one gives the names of that the same ordinals. -/
theorem find?_of_more (h : table.Numbers names) (hmore : more.Numbers names')
    (hgrown : names <+: names') (hfound : table.find? name = some ordinal) :
    more.find? name = some ordinal := by
  have hmem := h.mem_of_find? hfound
  rw [hmore.find?_of_mem (hgrown.mem hmem), idxOf_of_prefix hgrown hmem, h.eq_of_find? hfound]

/-- **The ordinals correspond to the names**, as long as there are enough of them. -/
theorem bijective (h : table.Numbers names) (hsize : names.length ≤ 2 ^ 32) : table.Bijective := by
  have hordinals := h.map fun entry => entry.2.toNat
  rw [ordinals_numbered hsize, ← h.size_eq] at hordinals
  exact hordinals

/-! ### Reading the names off -/

theorem lt_size (h : table.Numbers names) (horder : order.Perm table.entries) :
    ∀ entry ∈ order, entry.2.toNat < (List.replicate order.length "").length := by
  intro entry hmem
  rw [List.length_replicate, (horder.trans h).length_eq, length_numbered]
  exact lt_length_of_mem_numbered ((horder.trans h).mem_iff.mp hmem)

/-- The names that are read off are as many as there are, even if their ordinals cannot tell them
apart. -/
theorem length_names (h : table.Numbers names) : table.names.length = names.length := by
  unfold NameTable.names listed?
  rw [foldlM_put? (h.lt_size (List.Perm.refl _)), Option.getD_some, length_foldl_set,
    List.length_replicate]
  exact h.size_eq

/-- **The names are read off the entries in any order.** -/
theorem listed?_eq (h : table.Numbers names) (hsize : names.length ≤ 2 ^ 32)
    (horder : order.Perm table.entries) : listed? order = some names := by
  have hplaces := ((horder.trans h).map fun entry => entry.2.toNat)
  rw [ordinals_numbered hsize] at hplaces
  have hlength : order.length = names.length := (horder.trans h).length_eq.trans length_numbered
  have hnodup := hplaces.nodup_iff.mpr List.nodup_range
  unfold listed?
  rw [foldlM_put? (h.lt_size horder)]
  refine congrArg some (List.ext_getElem? fun place => ?_)
  by_cases hplace : place < names.length
  · have hname : names[place]? = some names[place] := List.getElem?_eq_getElem hplace
    have hmem := (horder.trans h).mem_iff.mpr (mem_numbered hname)
    have hordinal : place.toUInt32.toNat = place := toNat_toUInt32 (by omega)
    have hput := getElem?_foldl_set hnodup hmem (List.replicate order.length "")
      (h.lt_size horder _ hmem)
    rw [hordinal] at hput
    rw [hput, hname]
  · have hnowhere : place ∉ order.map fun entry => entry.2.toNat := fun hmem =>
      hplace (List.mem_range.mp (hplaces.subset hmem))
    have hbelow : (List.replicate order.length "").length ≤ place := by
      rw [List.length_replicate]
      omega
    rw [getElem?_foldl_set_of_notMem hnowhere, List.getElem?_eq_none hbelow,
      List.getElem?_eq_none (by omega)]

theorem names_eq (h : table.Numbers names) (hsize : names.length ≤ 2 ^ 32) :
    table.names = names := by
  unfold NameTable.names
  rw [h.listed?_eq hsize (List.Perm.refl _), Option.getD_some]

end Numbers

end NameTable

end ScriptFront
