import Mathlib.Algebra.Order.BigOperators.Group.List
import Mathlib.Algebra.Order.Group.Nat
import Mathlib.Data.List.Forall2
import Horn.Json

/-!
# Reading JSON text

A reader for compact JSON, and what it reads from text that the functions of `Horn.Json` wrote:
the string, array or object that the text was made of, whatever stands behind it. Objects are read
with their members in order, and keys that coincide stay apart.

`Value.Reads` says this of a text, with one lemma for each way to write one. A number ends where
no digit follows, so that is asked of the text behind; all other values end by themselves.

A number is a word of digits. A word is a part of a text whose characters are of one kind. Where
something else follows, the word is known from the text (`Text.append_inj_of_ends`).
-/

/-! ## Words -/

namespace Horn.Text

variable {kind : Char → Bool} {word other rest restOther : List Char}

/-- The text does not go on with a character of the kind. -/
def Ends (kind : Char → Bool) (text : List Char) : Prop :=
  ∀ c ∈ text.head?, kind c = false

theorem ends_nil : Ends kind [] := by
  rintro _ ⟨⟩

theorem ends_cons {c : Char} {text : List Char} (other : kind c = false) :
    Ends kind (c :: text) := by
  rintro _ ⟨⟩
  exact other

theorem Ends.takeWhile_append (ends : Ends kind rest) (inside : ∀ c ∈ word, kind c = true) :
    (word ++ rest).takeWhile kind = word := by
  rw [List.takeWhile_append_of_pos inside]
  cases rest with
  | nil => simp
  | cons c rest => simp [ends c rfl]

theorem Ends.dropWhile_append (ends : Ends kind rest) (inside : ∀ c ∈ word, kind c = true) :
    (word ++ rest).dropWhile kind = rest := by
  rw [List.dropWhile_append_of_pos inside]
  cases rest with
  | nil => rfl
  | cons c rest => simp [ends c rfl]

/-- Where two texts start with words of a kind and are equal, so are the words and the rests. -/
theorem append_inj_of_ends (inside : ∀ c ∈ word, kind c = true)
    (insideOther : ∀ c ∈ other, kind c = true) (ends : Ends kind rest)
    (endsOther : Ends kind restOther) (same : word ++ rest = other ++ restOther) :
    word = other ∧ rest = restOther := by
  constructor
  · rw [← ends.takeWhile_append inside, same, endsOther.takeWhile_append insideOther]
  · rw [← ends.dropWhile_append inside, same, endsOther.dropWhile_append insideOther]

end Horn.Text

namespace Horn.Json

/-- What the JSON text of terms and solutions is made of. -/
inductive Value where
  | string (content : String)
  | integer (value : Int)
  | array (items : List Value)
  | object (members : List (String × Value))

/-! ## The reader -/

/-- The value of a hexadecimal digit, in lower case. -/
def hexValue (digit : Char) : Nat :=
  "0123456789abcdef".toList.idxOf digit

/-- What a letter stands for after a backslash. -/
def unescape (letter : Char) : Option Char :=
  [('"', '"'), ('\\', '\\'), ('b', '\x08'), ('f', '\x0c'), ('n', '\n'), ('r', '\r'),
    ('t', '\t')].lookup letter

/-- The character in front of a content that was read, with what is left of the text. -/
def push (c : Char) (found : List Char × List Char) : List Char × List Char :=
  (c :: found.1, found.2)

/-- Read what is left of a string, up to the closing quote. -/
def readString : List Char → Option (List Char × List Char)
  | [] => none
  | '"' :: text => some ([], text)
  | '\\' :: 'u' :: '0' :: '0' :: high :: low :: text =>
      (readString text).map (push (Char.ofNat (16 * hexValue high + hexValue low)))
  | '\\' :: letter :: text => do
      let c ← unescape letter
      (readString text).map (push c)
  | c :: text => (readString text).map (push c)

/-- Read decimal digits as far as there are any, at least one. -/
def readNat (text : List Char) : Option (Nat × List Char) :=
  match text.takeWhile Char.isDigit with
  | [] => none
  | digits => some (Nat.ofDigitChars 10 digits 0, text.dropWhile Char.isDigit)

/-- Read an integer, which may have a sign. -/
def readInteger : List Char → Option (Int × List Char)
  | '-' :: text => do
      let (n, rest) ← readNat text
      some (-n, rest)
  | text => do
      let (n, rest) ← readNat text
      some (n, rest)

section

variable {α : Type}

/-- Read one item and all others, with commas between them, up to the closing character. -/
def readItems (read : List Char → Option (α × List Char)) (close : Char) :
    Nat → List Char → Option (List α × List Char)
  | 0, _ => none
  | fuel + 1, text => do
      let (item, text) ← read text
      match text with
      | [] => none
      | c :: text =>
          if c = ',' then do
            let (items, rest) ← readItems read close fuel text
            some (item :: items, rest)
          else if c = close then
            some ([item], text)
          else
            none

/-- Read any number of items. -/
def readSequence (read : List Char → Option (α × List Char)) (close : Char) (fuel : Nat) :
    List Char → Option (List α × List Char)
  | [] => none
  | c :: text => if c = close then some ([], text) else readItems read close fuel (c :: text)

/-- Read a key and its value. -/
def readMember (read : List Char → Option (α × List Char)) :
    List Char → Option ((String × α) × List Char)
  | '"' :: text => do
      let (key, text) ← readString text
      match text with
      | ':' :: text => do
          let (value, rest) ← read text
          some ((String.ofList key, value), rest)
      | _ => none
  | _ => none

end

/-- Read a value with at most so many others around it. -/
def Value.read : Nat → List Char → Option (Value × List Char)
  | 0, _ => none
  | _ + 1, '"' :: text => do
      let (content, rest) ← readString text
      some (.string (String.ofList content), rest)
  | fuel + 1, '[' :: text => do
      let (items, rest) ← readSequence (Value.read fuel) ']' fuel text
      some (.array items, rest)
  | fuel + 1, '\x7b' :: text => do
      let (members, rest) ← readSequence (readMember (Value.read fuel)) '\x7d' fuel text
      some (.object members, rest)
  | _ + 1, text => do
      let (value, rest) ← readInteger text
      some (.integer value, rest)

/-- The value that a text stands for. -/
def Value.ofText? (text : String) : Option Value :=
  match Value.read text.length text.toList with
  | some (value, []) => some value
  | _ => none

/-! ## Strings -/

theorem hexValue_digitChar : ∀ n < 16, hexValue n.digitChar = n := by decide

/-- How a character may be written in a string: as it is, by a letter after a backslash, or by two
hexadecimal digits. -/
inductive Escaped : Char → List Char → Prop where
  | plain {c : Char} : c ≠ '"' → c ≠ '\\' → Escaped c [c]
  | letter {c letter : Char} : unescape letter = some c → Escaped c ['\\', letter]
  | code {c high low : Char} : Char.ofNat (16 * hexValue high + hexValue low) = c →
      Escaped c ['\\', 'u', '0', '0', high, low]

theorem escaped_escape (c : Char) : Escaped c (escape c) := by
  rw [escape]
  split
  next quote => exact .letter (by rw [quote]; decide)
  split
  next backslash => exact .letter (by rw [backslash]; decide)
  split
  next backspace => exact .letter (by rw [backspace]; decide)
  split
  next formFeed => exact .letter (by rw [formFeed]; decide)
  split
  next newline => exact .letter (by rw [newline]; decide)
  split
  next carriageReturn => exact .letter (by rw [carriageReturn]; decide)
  split
  next tab => exact .letter (by rw [tab]; decide)
  split
  next control =>
    have small : c.toNat < 32 := control
    apply Escaped.code
    rw [hexValue_digitChar _ (by omega), hexValue_digitChar _ (by omega), Nat.div_add_mod]
    exact Char.ofNat_toNat c
  next quote backslash _ _ _ _ _ _ => exact .plain quote backslash

/-- A written character is read, and then what follows it. -/
theorem Escaped.readString_append {c : Char} {written : List Char} (escaped : Escaped c written)
    (text : List Char) : readString (written ++ text) = (readString text).map (push c) := by
  cases escaped with
  | plain quote backslash =>
      rw [List.singleton_append, readString.eq_def]
      split <;> simp_all
  | letter known =>
      have notCode : ∀ {letter : Char}, unescape letter = some c → letter ≠ 'u' := by
        rintro _ known rfl
        cases known
      simp [readString, notCode known, known]
  | code same => simp [readString, same]

theorem readString_flatMap_escape (content : List Char) (rest : List Char) :
    readString (content.flatMap escape ++ '"' :: rest) = some (content, rest) := by
  induction content with
  | nil => rfl
  | cons c content ih =>
      rw [List.flatMap_cons, List.append_assoc, (escaped_escape c).readString_append, ih]
      rfl

/-! ## Integers -/

/-- The text does not go on with a digit. -/
abbrev Stops : List Char → Prop :=
  Text.Ends Char.isDigit

variable {rest : List Char}

theorem isDigit_of_mem_toDigits {n : Nat} {c : Char} (member : c ∈ Nat.toDigits 10 n) :
    c.isDigit = true :=
  Nat.isDigit_of_mem_toDigits (by decide) (by decide) member

/-- A number starts with a digit. -/
theorem exists_toDigits_eq_cons (n : Nat) :
    ∃ digit digits, Nat.toDigits 10 n = digit :: digits ∧ digit.isDigit = true := by
  cases shown : Nat.toDigits 10 n with
  | nil => exact absurd shown Nat.toDigits_ne_nil
  | cons digit digits =>
      have member : digit ∈ Nat.toDigits 10 n := by simp [shown]
      exact ⟨digit, digits, rfl, isDigit_of_mem_toDigits member⟩

theorem readNat_toDigits (n : Nat) (stops : Stops rest) :
    readNat (Nat.toDigits 10 n ++ rest) = some (n, rest) := by
  have digits : ∀ c ∈ Nat.toDigits 10 n, c.isDigit = true := fun _ => isDigit_of_mem_toDigits
  have value : Nat.ofDigitChars 10 (Nat.toDigits 10 n) 0 = n := Nat.ofDigitChars_ten_toDigits
  rcases exists_toDigits_eq_cons n with ⟨_, _, shown, _⟩
  rw [readNat, stops.takeWhile_append digits, stops.dropWhile_append digits]
  rw [shown] at value ⊢
  simp only [value]

theorem toList_toString_ofNat (n : Nat) :
    (toString (Int.ofNat n)).toList = Nat.toDigits 10 n := by
  have noSign : toString (Int.ofNat n) = toString n := rfl
  rw [noSign, Nat.toString_eq_ofList_toDigits, String.toList_ofList]

theorem toList_toString_negSucc (n : Nat) :
    (toString (Int.negSucc n)).toList = '-' :: Nat.toDigits 10 (n + 1) := by
  have sign : toString (Int.negSucc n) = "-" ++ toString (n + 1) := rfl
  simp [sign]

/-- An integer starts with a digit or with a sign. -/
theorem exists_toList_toString_eq_cons (value : Int) :
    ∃ first written, (toString value).toList = first :: written ∧
      (first.isDigit = true ∨ first = '-') := by
  cases value with
  | ofNat n =>
      rcases exists_toDigits_eq_cons n with ⟨digit, digits, shown, isDigit⟩
      exact ⟨digit, digits, (toList_toString_ofNat n).trans shown, .inl isDigit⟩
  | negSucc n => exact ⟨'-', Nat.toDigits 10 (n + 1), toList_toString_negSucc n, .inr rfl⟩

theorem readInteger_toString (value : Int) (stops : Stops rest) :
    readInteger ((toString value).toList ++ rest) = some (value, rest) := by
  cases value with
  | ofNat n =>
      rcases exists_toDigits_eq_cons n with ⟨digit, digits, shown, isDigit⟩
      have read := readNat_toDigits n stops
      rw [shown, List.cons_append] at read
      rw [toList_toString_ofNat, shown, List.cons_append, readInteger, read]
      · rfl
      · rintro text ⟨⟩
        cases isDigit
  | negSucc n =>
      rw [toList_toString_negSucc, List.cons_append, readInteger, readNat_toDigits (n + 1) stops]
      rfl

/-! ## Items between commas -/

section

variable {α : Type} {close : Char} {text : String} {texts : List String} {item : α} {items : List α}

/-- What is written is read as the item, and what stands behind is left. -/
def ReadsAs (read : List Char → Option (α × List Char)) (text : String) (item : α) : Prop :=
  ∀ {rest}, Stops rest → read (text.toList ++ rest) = some (item, rest)

/-- What is written is read as the item with as much fuel as it is long. -/
def ReadsWithin (read : Nat → List Char → Option (α × List Char)) (text : String) (item : α) :
    Prop :=
  ∀ fuel, text.length ≤ fuel → ReadsAs (read fuel) text item

theorem toList_intercalate_cons_cons (second : String) (rest : List Char) :
    (",".intercalate (text :: second :: texts)).toList ++ rest =
      text.toList ++ ',' :: ((",".intercalate (second :: texts)).toList ++ rest) := by
  have comma : ",".toList = [','] := rfl
  simp [String.intercalate_cons_cons, comma]

/-- Items are read one after another. -/
theorem readItems_intercalate {read : List Char → Option (α × List Char)}
    (noDigit : close.isDigit = false) (noComma : close ≠ ',')
    (reads : List.Forall₂ (ReadsAs read) texts items) (nonempty : texts ≠ []) {fuel : Nat}
    (enough : texts.length ≤ fuel) (rest : List Char) :
    readItems read close fuel ((",".intercalate texts).toList ++ close :: rest) =
      some (items, rest) := by
  induction reads generalizing fuel with
  | nil => exact absurd rfl nonempty
  | cons first others ih =>
      cases fuel with
      | zero => cases enough
      | succ fuel =>
          cases others with
          | nil =>
              rw [String.intercalate_singleton, readItems, first (Text.ends_cons noDigit)]
              simp [noComma]
          | cons =>
              have more := ih (List.cons_ne_nil _ _) (Nat.le_of_succ_le_succ enough)
              rw [toList_intercalate_cons_cons, readItems, first (Text.ends_cons rfl)]
              simp only [Option.bind_eq_bind, Option.bind_some, if_true, more]

/-- All texts and each of them are no longer than the texts with commas between them and a bracket
behind. -/
theorem length_le_intercalate (texts : List String) :
    texts.length ≤ (",".intercalate texts).length + 1 ∧
      ∀ text ∈ texts, text.length ≤ (",".intercalate texts).length + 1 := by
  induction texts with
  | nil => simp
  | cons text texts ih =>
      cases texts with
      | nil => simp
      | cons second texts =>
          have comma : ",".length = 1 := rfl
          rw [String.intercalate_cons_cons, String.length_append, String.length_append, comma,
            List.forall_mem_cons, List.length_cons]
          refine ⟨by omega, by omega, ?_⟩
          intro other member
          have within := ih.2 other member
          omega

/-- Any number of items is read, up to a bracket that no item starts with. -/
theorem readSequence_intercalate {read : Nat → List Char → Option (α × List Char)}
    (noDigit : close.isDigit = false) (noComma : close ≠ ',')
    (refuses : ∀ fuel rest, read fuel (close :: rest) = none)
    (reads : List.Forall₂ (ReadsWithin read) texts items) {fuel : Nat}
    (enough : (",".intercalate texts).length + 1 ≤ fuel) (rest : List Char) :
    readSequence (read fuel) close fuel ((",".intercalate texts).toList ++ close :: rest) =
      some (items, rest) := by
  rcases length_le_intercalate texts with ⟨count, shorter⟩
  have each : List.Forall₂ (ReadsAs (read fuel)) texts items := by
    have short : ∀ text ∈ texts, text.length ≤ fuel := fun text member =>
      (shorter text member).trans enough
    have both := (List.forall₂_and_left texts items).mpr ⟨short, reads⟩
    exact both.imp fun _ _ ⟨short, reads⟩ => reads fuel short
  by_cases nonempty : texts = []
  · subst nonempty
    cases reads
    simp [readSequence]
  · have found := readItems_intercalate noDigit noComma each nonempty (count.trans enough) rest
    cases written : (",".intercalate texts).toList ++ close :: rest with
    | nil => simp at written
    | cons c text =>
        -- the first item would not have been read otherwise
        have opens : c ≠ close := by
          rintro rfl
          rw [written] at found
          cases fuel with
          | zero => cases found
          | succ fuel => simp [readItems, refuses] at found
        rw [readSequence, if_neg opens, ← written, found]

/-- A string is written between quotes. -/
theorem readString_string (content : String) (rest : List Char) :
    ∃ written, (string content).toList ++ rest = '"' :: written ∧
      readString written = some (content.toList, rest) := by
  refine ⟨content.toList.flatMap escape ++ '"' :: rest, ?_, readString_flatMap_escape _ rest⟩
  simp [string]

theorem length_le_member (key text : String) : text.length ≤ (member (key, text)).length := by
  rw [member, String.length_append]
  exact Nat.le_add_left _ _

/-- A member is read with its key. -/
theorem readsWithin_member {read : Nat → List Char → Option (α × List Char)} (key : String)
    (reads : ReadsWithin read text item) :
    ReadsWithin (fun fuel => readMember (read fuel)) (member (key, text)) (key, item) := by
  intro fuel enough rest stops
  have found := reads fuel ((length_le_member key text).trans enough) stops
  rcases readString_string key (':' :: (text.toList ++ rest)) with ⟨written, quoted, keyFound⟩
  have colon : ":".toList = [':'] := rfl
  change readMember (read fuel) ((member (key, text)).toList ++ rest) = some ((key, item), rest)
  rw [member, String.toList_append, String.toList_append, colon, List.append_assoc,
    List.append_assoc, List.singleton_append, quoted, readMember, keyFound]
  simp [found]

end

/-! ## Brackets -/

theorem toList_array (texts : List String) :
    (array texts).toList = '[' :: ((",".intercalate texts).toList ++ [']']) := by
  rw [array, String.toList_append, String.toList_append]
  rfl

theorem toList_object (members : List (String × String)) :
    (object members).toList =
      '\x7b' :: ((",".intercalate (members.map member)).toList ++ ['\x7d']) := by
  rw [object, String.toList_append, String.toList_append]
  rfl

theorem length_of_bracketed {text inside : String} {opening closing : Char}
    (bracketed : text.toList = opening :: (inside.toList ++ [closing])) :
    text.length = inside.length + 1 + 1 := by
  rw [← String.length_toList, bracketed, List.length_cons, List.length_append,
    String.length_toList]
  rfl

namespace Value

variable {texts : List String} {items : List Value} {members : List (String × String)}
variable {values : List (String × Value)} {fuel : Nat}

/-- The text is read as the value. -/
abbrev Reads : String → Value → Prop :=
  ReadsWithin read

theorem reads_string (content : String) : Reads (Json.string content) (.string content) := by
  intro fuel enough rest _
  rcases readString_string content rest with ⟨written, quoted, found⟩
  cases fuel with
  | zero => simp [Json.string] at enough
  | succ fuel => simp [quoted, read, found]

theorem reads_integer (value : Int) : Reads (toString value) (.integer value) := by
  intro fuel enough rest stops
  have found := readInteger_toString value stops
  rcases exists_toList_toString_eq_cons value with ⟨first, written, shown, numeric⟩
  have apart : first ≠ '"' ∧ first ≠ '[' ∧ first ≠ '\x7b' := by
    refine ⟨?_, ?_, ?_⟩ <;> (rintro rfl; revert numeric; decide)
  rw [shown, List.cons_append] at found ⊢
  cases fuel with
  | zero =>
      rw [← String.length_toList, shown] at enough
      cases enough
  | succ fuel => simp [read, apart, found]

/-- No value starts with a closing bracket. -/
theorem read_bracket (fuel : Nat) (rest : List Char) : read fuel (']' :: rest) = none := by
  cases fuel with
  | zero => rfl
  | succ fuel => simp [read, readInteger, readNat]

/-- No member of an object does. -/
theorem readMember_bracket (fuel : Nat) (rest : List Char) :
    readMember (read fuel) ('\x7d' :: rest) = none :=
  rfl

theorem reads_array (reads : List.Forall₂ Reads texts items) :
    Reads (Json.array texts) (.array items) := by
  intro fuel enough rest _
  rw [length_of_bracketed (toList_array texts)] at enough
  cases fuel with
  | zero => cases enough
  | succ fuel =>
      have found := readSequence_intercalate rfl (by decide) read_bracket reads
        (Nat.le_of_succ_le_succ enough) rest
      rw [toList_array, List.cons_append, List.append_assoc, List.singleton_append, read, found]
      rfl

/-- The values of an object are read with their keys, in the order in which they are written. -/
theorem reads_object (reads : List.Forall₂ (fun member value =>
    value.1 = member.1 ∧ Reads member.2 value.2) members values) :
    Reads (Json.object members) (.object values) := by
  intro fuel enough rest _
  rw [length_of_bracketed (toList_object members)] at enough
  cases fuel with
  | zero => cases enough
  | succ fuel =>
      have each : List.Forall₂ (ReadsWithin fun fuel => readMember (read fuel))
          (members.map member) values := by
        rw [List.forall₂_map_left_iff]
        refine reads.imp ?_
        rintro ⟨_, text⟩ ⟨key, value⟩ ⟨rfl, reads⟩
        exact readsWithin_member key reads
      have found := readSequence_intercalate rfl (by decide) readMember_bracket each
        (Nat.le_of_succ_le_succ enough) rest
      rw [toList_object, List.cons_append, List.append_assoc, List.singleton_append, read, found]
      rfl

/-- What a text is read as, it stands for. -/
theorem ofText?_eq {text : String} {value : Value} (reads : Reads text value) :
    ofText? text = some value := by
  have found := reads text.length (Nat.le_refl _) Text.ends_nil
  rw [List.append_nil] at found
  rw [ofText?, found]

end Value

end Horn.Json
