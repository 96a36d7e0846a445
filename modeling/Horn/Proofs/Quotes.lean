import Horn.Proofs.JsonText
import Horn.Text.Quoted

/-!
# Quotes

A quoted text is known from any text that starts with it (`quote_append_inj`): what is written for a
character is neither mistaken for what is written for another one nor for the closing quote.
-/

namespace Horn.Text

variable {rest restOther : List Char}

/-! ## Hexadecimal digits -/

/-- The number that hexadecimal digits stand for. -/
def hexNat (digits : List Char) : Nat :=
  digits.foldl (fun value digit => 16 * value + Json.hexValue digit) 0

theorem hexNat_toDigits (n : Nat) : hexNat (Nat.toDigits 16 n) = n := by
  induction n using Nat.strongRecOn with
  | ind n ih =>
      rw [Nat.toDigits_eq_if (by decide)]
      split
      next small => simp [hexNat, Json.hexValue_digitChar n small]
      next large =>
        have front := ih (n / 16) (by omega)
        have last := Json.hexValue_digitChar (n % 16) (by omega)
        simp only [hexNat, List.foldl_append, List.foldl_cons, List.foldl_nil] at front ⊢
        rw [front, last]
        omega

theorem exists_digitChar_of_mem_toDigits {n : Nat} {c : Char} (member : c ∈ Nat.toDigits 16 n) :
    ∃ digit < 16, c = digit.digitChar := by
  induction n using Nat.strongRecOn with
  | ind n ih =>
      rw [Nat.toDigits_eq_if (by decide)] at member
      split at member
      next small => exact ⟨n, small, List.mem_singleton.mp member⟩
      next large =>
        rcases List.mem_append.mp member with front | last
        · exact ih (n / 16) (by omega) front
        · exact ⟨n % 16, by omega, List.mem_singleton.mp last⟩

/-- A code point ends where a brace follows. -/
theorem hexadecimal_append_inj {c d : Char}
    (same : hexadecimal c ++ '\x7d' :: rest = hexadecimal d ++ '\x7d' :: restOther) :
    c = d ∧ rest = restOther := by
  have noBrace : ∀ value < 16, (Nat.digitChar value != '\x7d') = true := by decide
  have inside : ∀ e : Char, ∀ digit ∈ hexadecimal e, (digit != '\x7d') = true := by
    intro e digit member
    obtain ⟨value, small, rfl⟩ := exists_digitChar_of_mem_toDigits member
    exact noBrace value small
  obtain ⟨digits, rests⟩ := append_inj_of_ends (inside c) (inside d) (ends_cons rfl)
    (ends_cons rfl) same
  have values := congrArg hexNat digits
  rw [hexadecimal, hexadecimal, hexNat_toDigits, hexNat_toDigits] at values
  exact ⟨Char.toNat_inj.mp values, (List.cons.inj rests).2⟩

/-! ## Quotes -/

namespace Quoted

/-- What a letter stands for after a backslash. -/
def unescape (letter : Char) : Option Char :=
  [('"', '"'), ('\\', '\\'), ('0', '\x00'), ('t', '\t'), ('n', '\n'), ('r', '\r')].lookup letter

/-- How a character may be written inside quotes: as it is, by a letter after a backslash, or by
its code point. -/
inductive Escaped : Char → List Char → Prop where
  | plain {c : Char} : c ≠ '"' → c ≠ '\\' → Escaped c [c]
  | letter {c letter : Char} : unescape letter = some c → Escaped c ['\\', letter]
  | code {c : Char} : Escaped c ('\\' :: 'u' :: '\x7b' :: (hexadecimal c ++ ['\x7d']))

theorem escaped_escape (c : Char) : Escaped c (escape c) := by
  rw [escape]
  split
  next quote => exact .letter (by rw [quote]; decide)
  split
  next backslash => exact .letter (by rw [backslash]; decide)
  split
  next null => exact .letter (by rw [null]; decide)
  split
  next tab => exact .letter (by rw [tab]; decide)
  split
  next newline => exact .letter (by rw [newline]; decide)
  split
  next carriageReturn => exact .letter (by rw [carriageReturn]; decide)
  split
  next => exact .code
  next quote backslash _ _ _ _ _ => exact .plain quote backslash

variable {c d : Char} {written writtenOther : List Char}

/-- What is written for a character does not start with a quote. -/
theorem Escaped.ne_quote (escaped : Escaped c written) (rest restOther : List Char) :
    written ++ rest ≠ '"' :: restOther := by
  cases escaped with
  | plain noQuote _ => simp [noQuote]
  | letter known => simp
  | code => simp

/-- What is written for a character is written for no other, whatever stands behind. -/
theorem Escaped.append_inj (one : Escaped c written) (two : Escaped d writtenOther)
    (same : written ++ rest = writtenOther ++ restOther) : c = d ∧ rest = restOther := by
  have noCode : ∀ {e : Char}, unescape 'u' ≠ some e := by
    rintro _ ⟨⟩
  cases one with
  | plain _ noBackslash =>
      cases two with
      | plain => simpa using same
      | letter known => simp_all
      | code => simp_all
  | letter known =>
      cases two with
      | plain _ noBackslash => simp_all [eq_comm]
      | letter knownToo =>
          simp only [List.cons_append, List.nil_append, List.cons.injEq, true_and] at same
          obtain ⟨rfl, rests⟩ := same
          exact ⟨Option.some.inj (known.symm.trans knownToo), rests⟩
      | code => simp_all
  | code =>
      cases two with
      | plain _ noBackslash => simp_all [eq_comm]
      | letter known => simp_all [eq_comm]
      | code =>
          apply hexadecimal_append_inj
          simpa using same

/-- A quoted text ends with the first quote that no backslash stands before. -/
theorem flatMap_escape_append_inj {content others : List Char}
    (same : content.flatMap escape ++ '"' :: rest = others.flatMap escape ++ '"' :: restOther) :
    content = others ∧ rest = restOther := by
  induction content generalizing others with
  | nil =>
      cases others with
      | nil => simpa using same
      | cons c others =>
          rw [List.flatMap_cons, List.append_assoc] at same
          exact absurd same.symm ((escaped_escape c).ne_quote _ _)
  | cons c content ih =>
      cases others with
      | nil =>
          rw [List.flatMap_cons, List.append_assoc] at same
          exact absurd same ((escaped_escape c).ne_quote _ _)
      | cons d others =>
          rw [List.flatMap_cons, List.flatMap_cons, List.append_assoc, List.append_assoc] at same
          obtain ⟨rfl, left⟩ := (escaped_escape c).append_inj (escaped_escape d) same
          obtain ⟨rfl, rests⟩ := ih left
          exact ⟨rfl, rests⟩

end Quoted

theorem toList_quote (content : String) :
    (quote content).toList = '"' :: (content.toList.flatMap Quoted.escape ++ ['"']) := by
  simp [quote]

theorem quote_append_inj {content others : String}
    (same : (quote content).toList ++ rest = (quote others).toList ++ restOther) :
    content = others ∧ rest = restOther := by
  simp only [toList_quote, List.cons_append, List.append_assoc, List.nil_append,
    List.cons.injEq, true_and] at same
  obtain ⟨contents, rests⟩ := Quoted.flatMap_escape_append_inj same
  exact ⟨String.toList_inj.mp contents, rests⟩

end Horn.Text
