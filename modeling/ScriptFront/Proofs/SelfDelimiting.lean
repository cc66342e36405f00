import ScriptFront.Proofs.Decoding

/-!
# ScriptFront.Proofs.SelfDelimiting

**Forms that end where they say themselves.** Such a form can be told from any text that begins with
it, so forms of several parts can be taken apart one by one (`SelfDelimiting`). A run of characters
of a class is one if something else comes behind it; this goes for integers, which can be told from
their figures (`eq_of_decimal`). Quoted texts are always such forms, whatever signs are in them
(`Text.selfDelimiting_quote`), because every character that is written otherwise than as itself
begins with a backslash, and goes on in a way that tells which it is.
-/

namespace ScriptFront

/-! ### Forms that end where they say themselves -/

/-- What is written of a value ends where it says itself, whatever comes behind it. -/
def SelfDelimiting {α : Type} (write : α → List Char) : Prop :=
  ∀ ⦃a b : α⦄ ⦃r s : List Char⦄, write a ++ r = write b ++ s → a = b ∧ r = s

namespace SelfDelimiting

variable {α : Type} {write : α → List Char}

theorem eq (h : SelfDelimiting write) {a b : α} (hequal : write a = write b) : a = b :=
  (h (congrArg (· ++ []) hequal)).1

theorem prepend (h : SelfDelimiting write) (before : List Char) :
    SelfDelimiting fun a => before ++ write a := by
  intro a b r s hequal
  rw [List.append_assoc, List.append_assoc] at hequal
  exact h (List.append_cancel_left hequal)

theorem append (h : SelfDelimiting write) (after : List Char) :
    SelfDelimiting fun a => write a ++ after := by
  intro a b r s hequal
  rw [List.append_assoc, List.append_assoc] at hequal
  obtain ⟨hvalue, hrest⟩ := h hequal
  exact ⟨hvalue, List.append_cancel_left hrest⟩

/-- A run of characters of a class ends before one that is not of it. -/
theorem run {among : Char → Bool} {c : Char} (hinjective : ∀ {a b}, write a = write b → a = b)
    (hall : ∀ a, ∀ d ∈ write a, among d = true) (hc : among c = false) (after : List Char) :
    SelfDelimiting fun a => write a ++ c :: after := by
  intro a b r s hequal
  rw [List.append_assoc, List.append_assoc, List.cons_append] at hequal
  obtain ⟨hwritten, hrest⟩ := eq_of_runs (hall a) (hall b) hc hc hequal
  exact ⟨hinjective hwritten, List.append_cancel_left (List.cons_eq_cons.mp hrest).2⟩

/-- Some values, one behind the other, end at a sign that none of them begins with. By induction on
the values. -/
theorem list (h : SelfDelimiting write) (stop : Char)
    (hstop : ∀ a, ∃ c cs, write a = c :: cs ∧ c ≠ stop) :
    SelfDelimiting fun l : List α => l.flatMap write ++ [stop] := by
  have hclash (a : α) (l : List α) (r s : List Char) :
      ¬ (a :: l).flatMap write ++ [stop] ++ r = [stop] ++ s := by
    obtain ⟨c, cs, hwrite, hne⟩ := hstop a
    intro hequal
    rw [List.flatMap_cons, hwrite] at hequal
    exact hne (List.cons_eq_cons.mp hequal).1
  intro l
  induction l with
  | nil =>
    intro m r s hequal
    cases m with
    | nil => exact ⟨rfl, List.append_cancel_left hequal⟩
    | cons b m => exact absurd hequal.symm (hclash b m s r)
  | cons a l ih =>
    intro m r s hequal
    cases m with
    | nil => exact absurd hequal (hclash a l r s)
    | cons b m =>
      simp only [List.flatMap_cons, List.append_assoc] at hequal
      obtain ⟨rfl, hrest⟩ := h hequal
      rw [← List.append_assoc, ← List.append_assoc] at hrest
      obtain ⟨rfl, hr⟩ := ih hrest
      exact ⟨rfl, hr⟩

end SelfDelimiting

/-! ### Numbers -/

section

variable {base : Nat}

theorem digitChar_inj : ∀ d < 16, ∀ e < 16, Nat.digitChar d = Nat.digitChar e → d = e := by
  decide

/-- The digits of a number before the last. -/
def higherDigits (base n : Nat) : List Char :=
  if n < base then [] else Nat.toDigits base (n / base)

theorem toDigits_eq_concat (hbase : 1 < base) (n : Nat) :
    Nat.toDigits base n = higherDigits base n ++ [Nat.digitChar (n % base)] := by
  rw [Nat.toDigits_eq_if hbase, higherDigits]
  split
  · next hn => rw [Nat.mod_eq_of_lt hn, List.nil_append]
  · rfl

/-- A number can be told from its digits. By induction on the number. -/
theorem eq_of_toDigits (hbase : 1 < base) (hbound : base ≤ 16) (m : Nat) :
    ∀ {n : Nat}, Nat.toDigits base m = Nat.toDigits base n → m = n := by
  induction m using Nat.strongRecOn with
  | ind m ih =>
    intro n hdigits
    rw [toDigits_eq_concat hbase m, toDigits_eq_concat hbase n] at hdigits
    obtain ⟨hinit, hlast⟩ := List.append_inj' hdigits rfl
    have hmod (k : Nat) : k % base < 16 := Nat.lt_of_lt_of_le (Nat.mod_lt k (by omega)) hbound
    have hremainder := digitChar_inj _ (hmod m) _ (hmod n) (List.singleton_inj.mp hlast)
    have hquotient : m / base = n / base := by
      unfold higherDigits at hinit
      split_ifs at hinit with hm hn hn
      · rw [Nat.div_eq_of_lt hm, Nat.div_eq_of_lt hn]
      · exact absurd hinit.symm Nat.toDigits_ne_nil
      · exact absurd hinit Nat.toDigits_ne_nil
      · exact ih (m / base) (Nat.div_lt_self (by omega) hbase) hinit
    rw [← Nat.div_add_mod m base, ← Nat.div_add_mod n base, hquotient, hremainder]

/-- The digits of a number are those of its base. By induction on the number. -/
theorem exists_digit (hbase : 1 < base) (n : Nat) :
    ∀ c ∈ Nat.toDigits base n, ∃ d < base, c = Nat.digitChar d := by
  induction n using Nat.strongRecOn with
  | ind n ih =>
    intro c hc
    rw [toDigits_eq_concat hbase, higherDigits] at hc
    rcases List.mem_append.mp hc with hc | hc
    · split at hc
      · exact absurd hc List.not_mem_nil
      · exact ih (n / base) (Nat.div_lt_self (by omega) hbase) c hc
    · exact ⟨n % base, Nat.mod_lt n (by omega), List.mem_singleton.mp hc⟩

end

/-- The characters that integers are written with. -/
def isFigure (c : Char) : Bool :=
  c.isDigit || c == '-'

theorem isFigure_toDigits (n : Nat) : ∀ c ∈ Nat.toDigits 10 n, isFigure c = true := fun c hc => by
  simp [isFigure, isDigit_toDigits n c hc]

/-- An integer is written by a minus sign, if it is negative, and the digits of its size. -/
theorem toList_decimal_eq (value : Int64) : (decimal value).toList =
    if 0 ≤ value.toInt then Nat.toDigits 10 value.toInt.toNat
    else '-' :: Nat.toDigits 10 (-value.toInt).toNat := by
  unfold decimal
  rw [Int.repr_eq_if]
  split
  · rw [Nat.toList_repr]
  · simp

theorem isFigure_decimal (value : Int64) : ∀ c ∈ (decimal value).toList, isFigure c = true := by
  rw [toList_decimal_eq]
  split
  · exact isFigure_toDigits _
  · exact List.forall_mem_cons.mpr ⟨rfl, isFigure_toDigits _⟩

theorem eq_of_decimal {value other : Int64}
    (h : (decimal value).toList = (decimal other).toList) : value = other := by
  have hminus (m n : Nat) : Nat.toDigits 10 m ≠ '-' :: Nat.toDigits 10 n := fun h => by
    have hdigit := isDigit_toDigits m '-' (h ▸ List.mem_cons_self)
    cases hdigit
  have hten {m n : Nat} (h : Nat.toDigits 10 m = Nat.toDigits 10 n) : m = n :=
    eq_of_toDigits (by decide) (by decide) m h
  rw [toList_decimal_eq, toList_decimal_eq] at h
  refine Int64.toInt_inj.mp ?_
  split at h <;> split at h
  · have hsize := hten h
    omega
  · exact absurd h (hminus _ _)
  · exact absurd h.symm (hminus _ _)
  · have hsize := hten (List.cons_eq_cons.mp h).2
    omega

/-! ### Quoted texts -/

namespace Text

/-- The characters with a letter of their own, and these letters. -/
def escapeLetters : List (Char × Char) :=
  [('\x00', '0'), ('\t', 't'), ('\r', 'r'), ('\n', 'n'), ('"', '"'), ('\\', '\\')]

theorem mem_escapeLetters {c letter : Char} (h : escapeLetter? c = some letter) :
    (c, letter) ∈ escapeLetters := by
  unfold escapeLetter? at h
  split_ifs at h <;> obtain rfl := Option.some.inj h <;> subst c <;> decide

/-- How a character is written between quotes. -/
inductive Escaped (c : Char) : List Char → Prop
  | letter {letter : Char} (hletter : (c, letter) ∈ escapeLetters) : Escaped c ['\\', letter]
  | itself (hbackslash : c ≠ '\\') (hquote : c ≠ '"') : Escaped c [c]
  | codePoint :
      Escaped c ('\\' :: 'u' :: '\x7b' :: (Nat.toDigits 16 c.toNat ++ ['\x7d']))

theorem escaped_escape (c : Char) : Escaped c (escape c) := by
  unfold escape
  cases hletter : escapeLetter? c with
  | some letter => exact .letter (mem_escapeLetters hletter)
  | none =>
    show Escaped c (if isPrintable c then [c] else escapeCodePoint c)
    split
    · refine .itself ?_ ?_
      · rintro rfl
        cases hletter
      · rintro rfl
        cases hletter
    · exact .codePoint

/-- No code point is written with the brace that ends it. -/
theorem ne_brace_toDigits (n : Nat) : ∀ c ∈ Nat.toDigits 16 n, (c != '\x7d') = true := by
  intro c hc
  obtain ⟨d, hd, rfl⟩ := exists_digit (by decide) n c hc
  have hall : ∀ d < 16, (Nat.digitChar d != '\x7d') = true := by decide
  exact hall d hd

/-- **A written character ends where it says itself.** -/
theorem selfDelimiting_escape : SelfDelimiting escape := by
  have hletters : ∀ p ∈ escapeLetters, ∀ q ∈ escapeLetters, p.2 = q.2 → p.1 = q.1 := by decide
  have hu : ∀ p ∈ escapeLetters, p.2 ≠ 'u' := by decide
  intro c d r s h
  have hc := escaped_escape c
  have hd := escaped_escape d
  generalize escape c = x at h hc
  generalize escape d = y at h hd
  cases hc with
  | @letter l hl =>
    cases hd with
    | @letter l' hl' =>
      simp only [List.cons_append, List.nil_append, List.cons.injEq, true_and] at h
      exact ⟨hletters _ hl _ hl' h.1, h.2⟩
    | itself hbackslash =>
      exact absurd (List.cons_eq_cons.mp h).1.symm hbackslash
    | codePoint =>
      simp only [List.cons_append, List.nil_append, List.cons.injEq, true_and] at h
      exact absurd h.1 (hu _ hl)
  | itself hbackslash =>
    cases hd with
    | itself => exact List.cons_eq_cons.mp h
    | letter | codePoint => exact absurd (List.cons_eq_cons.mp h).1 hbackslash
  | codePoint =>
    cases hd with
    | @letter l' hl' =>
      simp only [List.cons_append, List.nil_append, List.cons.injEq, true_and] at h
      exact absurd h.1.symm (hu _ hl')
    | itself hbackslash => exact absurd (List.cons_eq_cons.mp h).1.symm hbackslash
    | codePoint =>
      have hdigits : Nat.toDigits 16 c.toNat ++ '\x7d' :: r =
          Nat.toDigits 16 d.toNat ++ '\x7d' :: s := by
        simpa using h
      obtain ⟨hnumber, hrest⟩ := eq_of_runs (ne_brace_toDigits _) (ne_brace_toDigits _) (by decide)
        (by decide) hdigits
      exact ⟨Char.toNat_inj.mp (eq_of_toDigits (by decide) (by decide) _ hnumber),
        (List.cons_eq_cons.mp hrest).2⟩

/-- No written character begins with the sign that ends a quoted text. -/
theorem exists_escape (c : Char) : ∃ d ds, escape c = d :: ds ∧ d ≠ '"' := by
  have hescaped := escaped_escape c
  generalize escape c = x at hescaped
  cases hescaped with
  | letter => exact ⟨_, _, rfl, by decide⟩
  | itself _ hquote => exact ⟨_, _, rfl, hquote⟩
  | codePoint => exact ⟨_, _, rfl, by decide⟩

/-- **A quoted text ends where it says itself.** -/
theorem selfDelimiting_quote : SelfDelimiting fun text => (quote text).toList := by
  intro t u r s h
  have hquoted : SelfDelimiting quoteChars :=
    (selfDelimiting_escape.list '"' exists_escape).prepend ['"']
  simp only [quote, String.toList_ofList] at h
  obtain ⟨htext, hrest⟩ := hquoted h
  exact ⟨String.toList_inj.mp htext, hrest⟩

end Text

end ScriptFront
