import ScriptEngine.Json.Reader
import ScriptEngine.Json.Writer

/-!
# Reading what was written

A tree whose numbers are integers of 64 bits is read back from its text if not too many arrays and
objects are nested in it, and is refused as malformed otherwise. How many are nested can be seen from
the text alone.
-/

namespace ScriptEngine.Json

theorem skipBlanks_cons {c : Char} (blank : isBlank c = false) (cs : List Char) :
    skipBlanks (c :: cs) = c :: cs := by
  simp [skipBlanks, blank]

theorem hexValue?_digitChar {d : Nat} (small : d < 16) : hexValue? (Nat.digitChar d) = some d := by
  have all : ∀ d < 16, hexValue? (Nat.digitChar d) = some d := by decide
  exact all d small

/-- The codes of control characters have two digits. -/
theorem hexDigits_control {n : Nat} (control : n < 0x20) :
    Text.hexDigits 4 n = ['0', '0', Nat.digitChar (n / 16), Nat.digitChar (n % 16)] := by
  have all : ∀ n < 0x20,
      Text.hexDigits 4 n = ['0', '0', Nat.digitChar (n / 16), Nat.digitChar (n % 16)] := by decide
  exact all n control

theorem readCode_control {c : Char} (control : c.toNat < 0x20) (cs : List Char) :
    readCode (Text.hexDigits 4 c.toNat ++ cs) = .ok (c, cs) := by
  have high := hexValue?_digitChar (d := c.toNat / 16) (by omega)
  have low := hexValue?_digitChar (d := c.toNat % 16) (by omega)
  have code : readHex4 (Text.hexDigits 4 c.toNat ++ cs) = .ok (c.toNat, cs) := by
    have zero : hexValue? '0' = some 0 := rfl
    have sum : c.toNat / 16 * 16 + c.toNat % 16 = c.toNat := by omega
    simp [hexDigits_control control, readHex4, zero, high, low, sum]
  have plain : isLowSurrogate c.toNat = false ∧ isHighSurrogate c.toNat = false := by
    simp only [isLowSurrogate, isHighSurrogate, Bool.and_eq_false_iff, decide_eq_false_iff_not]
    omega
  simp [readCode, code, plain, bind, Except.bind, pure, Except.pure]

/-- How a character is written. -/
theorem escapeChar_cases (c : Char) :
    (∃ letter, escapeChar c = ['\\', letter] ∧ letter ≠ 'u' ∧ shortEscape? letter = some c) ∨
    (c.toNat < 0x20 ∧ escapeChar c = '\\' :: 'u' :: Text.hexDigits 4 c.toNat) ∨
    (0x20 ≤ c.toNat ∧ c ≠ '"' ∧ c ≠ '\\' ∧ escapeChar c = [c]) := by
  unfold escapeChar
  split
  · subst c
    exact Or.inl ⟨'"', rfl, by decide, rfl⟩
  split
  · subst c
    exact Or.inl ⟨'\\', rfl, by decide, rfl⟩
  split
  · subst c
    exact Or.inl ⟨'b', rfl, by decide, rfl⟩
  split
  · subst c
    exact Or.inl ⟨'f', rfl, by decide, rfl⟩
  split
  · subst c
    exact Or.inl ⟨'n', rfl, by decide, rfl⟩
  split
  · subst c
    exact Or.inl ⟨'r', rfl, by decide, rfl⟩
  split
  · subst c
    exact Or.inl ⟨'t', rfl, by decide, rfl⟩
  rename_i quote backslash _ _ _ _ _
  split
  · rename_i control
    exact Or.inr (Or.inl ⟨control, rfl⟩)
  · rename_i printed
    exact Or.inr (Or.inr ⟨by omega, quote, backslash, rfl⟩)

/-- One character is read back, and then the others. -/
theorem readChars_char (fuel : Nat) (c : Char) (cs : List Char) :
    readChars (fuel + 1) (escapeChar c ++ cs) =
      (readChars fuel cs >>= fun r => pure (c :: r.1, r.2)) := by
  have apart : '\\' ≠ '"' := by decide
  rcases escapeChar_cases c with ⟨letter, written, other, short⟩ | ⟨control, written⟩ |
    ⟨printed, quote, backslash, written⟩
  · simp [written, readChars, readEscape, apart, other, short, bind, Except.bind]
  · have code := readCode_control control cs
    simp [written, readChars, readEscape, apart, code, bind, Except.bind]
  · have plain : ¬ c.toNat < 0x20 := by omega
    simp [written, readChars, quote, backslash, plain, bind, Except.bind]

theorem readChars_written (ds rest : List Char) {fuel : Nat} (enough : ds.length < fuel) :
    readChars fuel (ds.flatMap escapeChar ++ '"' :: rest) = .ok (ds, rest) := by
  induction ds generalizing fuel with
  | nil =>
    obtain ⟨fuel, rfl⟩ : ∃ k, fuel = k + 1 := ⟨fuel - 1, by omega⟩
    simp [readChars]
  | cons d ds ih =>
    obtain ⟨fuel, rfl⟩ : ∃ k, fuel = k + 1 := ⟨fuel - 1, by simp at enough; omega⟩
    rw [List.flatMap_cons, List.append_assoc, readChars_char, ih (by simpa using enough)]
    rfl

/-- A text is read back, its opening quote apart. -/
theorem readText_written (s : String) (rest : List Char) {fuel : Nat}
    (enough : s.toList.length < fuel) :
    readText fuel (s.toList.flatMap escapeChar ++ '"' :: rest) = .ok (s, rest) := by
  simp [readText, readChars_written _ _ enough, bind, Except.bind, pure, Except.pure]

theorem writeText_append (s : String) (rest : List Char) :
    writeText s ++ rest = '"' :: (s.toList.flatMap escapeChar ++ '"' :: rest) := by
  simp [writeText]

theorem length_flatMap_escapeChar (ds : List Char) :
    ds.length ≤ (ds.flatMap escapeChar).length := by
  induction ds with
  | nil => simp
  | cons d ds ih =>
    have some_written : 1 ≤ (escapeChar d).length := by
      rcases escapeChar_cases d with ⟨_, written, -⟩ | ⟨-, written⟩ | ⟨-, -, -, written⟩ <;>
        simp [written]
    rw [List.flatMap_cons, List.length_append, List.length_cons]
    omega

theorem length_le_writeText (s : String) : s.toList.length + 2 ≤ (writeText s).length := by
  have short := length_flatMap_escapeChar s.toList
  simp only [writeText, List.length_cons, List.length_append, List.cons_append, List.length_nil]
  omega

/-- What may follow a number. -/
def Stops (rest : List Char) : Prop :=
  ∀ c, rest.head? = some c → c.isDigit = false ∧ c ≠ '.' ∧ c ≠ 'e' ∧ c ≠ 'E'

theorem digitValue_digitChar {d : Nat} (small : d < 10) : digitValue (Nat.digitChar d) = d := by
  have all : ∀ d < 10, digitValue (Nat.digitChar d) = d := by decide
  exact all d small

theorem appendDigits_append (whole more : List Char) {n k : Nat}
    (taken : appendDigits n whole = (k, [])) :
    appendDigits n (whole ++ more) = appendDigits k more := by
  induction whole generalizing n with
  | nil =>
    cases taken
    rfl
  | cons c cs ih =>
    rw [appendDigits] at taken
    split at taken
    · rename_i fits
      rw [List.cons_append, appendDigits, if_pos fits]
      exact ih taken
    · cases taken

/-- The digits of a number add up to it. -/
theorem appendDigits_toDigits {n : Nat} (fits : n ≤ maxSignificand) :
    appendDigits 0 (Nat.toDigits 10 n) = (n, []) := by
  induction n using Nat.strongRecOn with
  | ind n ih =>
    rw [Nat.toDigits_eq_if (by omega)]
    split
    · rename_i small
      simp [appendDigits, digitValue_digitChar small, fits]
    · rename_i large
      -- the last digit comes after those of a smaller number
      have front := ih (n / 10) (by omega) (by omega)
      have last := digitValue_digitChar (d := n % 10) (by omega)
      have sum : n / 10 * 10 + n % 10 = n := by omega
      rw [appendDigits_append _ _ front]
      simp [appendDigits, last, sum, fits]

theorem isDigit_toDigits (n : Nat) : ∀ c ∈ Nat.toDigits 10 n, c.isDigit = true :=
  fun _ member => Nat.isDigit_of_mem_toDigits (by omega) (by omega) member

theorem toDigits_eq_cons (n : Nat) : ∃ c cs, Nat.toDigits 10 n = c :: cs ∧ c.isDigit = true := by
  obtain ⟨c, cs, digits⟩ := List.exists_cons_of_ne_nil (Nat.toDigits_ne_nil (n := n) (b := 10))
  exact ⟨c, cs, digits, isDigit_toDigits n c (by simp [digits])⟩

/-- Only zero is written with a zero in front. -/
theorem toDigits_head {n : Nat} (zero : (Nat.toDigits 10 n).head? = some '0') : n = 0 := by
  induction n using Nat.strongRecOn with
  | ind n ih =>
    rw [Nat.toDigits_eq_if (by omega)] at zero
    split at zero
    · simpa [Nat.digitChar_eq_zero] using zero
    · rename_i large
      obtain ⟨c, cs, digits, -⟩ := toDigits_eq_cons (n / 10)
      have front : (Nat.toDigits 10 (n / 10)).head? = some '0' := by simpa [digits] using zero
      have none_left := ih (n / 10) (by omega) front
      omega

theorem ne_of_isDigit {c d : Char} (digit : c.isDigit = true) (other : d.isDigit = false) : c ≠ d := by
  rintro rfl
  rw [digit] at other
  cases other

theorem isBlank_digit {c : Char} (digit : c.isDigit = true) : isBlank c = false := by
  have other : ∀ d, d.isDigit = false → c ≠ d := fun d => ne_of_isDigit digit
  simp [isBlank, other ' ' rfl, other '\n' rfl, other '\t' rfl, other '\r' rfl]

theorem Stops.takeWhile {rest : List Char} (stops : Stops rest) :
    rest.takeWhile Char.isDigit = [] ∧ rest.dropWhile Char.isDigit = rest := by
  cases rest with
  | nil => simp
  | cons c cs => simp [(stops c rfl).1]

/-- Digits that make a number which fits are read as that number. -/
theorem readNumber_written (negative : Bool) {n : Nat} {rest : List Char} (stops : Stops rest) :
    readNumber negative (Nat.toDigits 10 n ++ rest) =
      finishNumber negative (Nat.toDigits 10 n) [] true rest := by
  have whole : (Nat.toDigits 10 n ++ rest).takeWhile Char.isDigit = Nat.toDigits 10 n := by
    rw [List.takeWhile_append_of_pos (isDigit_toDigits n), stops.takeWhile.1, List.append_nil]
  have left : (Nat.toDigits 10 n ++ rest).dropWhile Char.isDigit = rest := by
    rw [List.dropWhile_append_of_pos (isDigit_toDigits n), stops.takeWhile.2]
  obtain ⟨c, cs, digits, first⟩ := toDigits_eq_cons n
  have proper : ¬ (c = '0' ∧ (Nat.toDigits 10 n).length ≠ 1) := by
    rintro ⟨rfl, long⟩
    have zero : n = 0 := toDigits_head (by rw [digits]; rfl)
    rw [zero] at long
    exact long rfl
  rw [digits] at whole left proper ⊢
  rw [List.cons_append] at whole left ⊢
  simp only [readNumber, first, whole, left, if_neg proper, Bool.not_true, Bool.false_eq_true,
    if_false]
  split
  · rename_i point
    exact absurd rfl (stops '.' rfl).2.1
  · rfl

theorem finishNumber_integer (negative : Bool) (whole : List Char) {rest : List Char}
    (stops : Stops rest) {n : Int} (value : ofInteger negative whole = .integer n) :
    finishNumber negative whole [] true rest = .ok (.integer n, rest) := by
  unfold finishNumber
  split
  · exact absurd rfl (stops 'e' rfl).2.2.1
  · exact absurd rfl (stops 'E' rfl).2.2.2
  · simp [value]

theorem write_integer (n : Int) :
    write (.integer n) =
      if n < 0 then '-' :: Nat.toDigits 10 n.natAbs else Nat.toDigits 10 n.natAbs := by
  rw [write, Int.toString_eq_repr, Int.repr_eq_if]
  by_cases negative : n < 0
  · have size : (-n).toNat = n.natAbs := by omega
    rw [if_pos negative, if_neg (by omega), size, String.toList_append, Nat.toList_repr]
    rfl
  · have size : n.toNat = n.natAbs := by omega
    rw [if_neg negative, if_pos (by omega), size, Nat.toList_repr]

/-- An integer of 64 bits is found again in its digits. -/
theorem ofInteger_toDigits {n : Int} (least : -0x8000000000000000 ≤ n)
    (most : n ≤ 0xFFFFFFFFFFFFFFFF) :
    ofInteger (decide (n < 0)) (Nat.toDigits 10 n.natAbs) = .integer n := by
  have fits : n.natAbs ≤ maxSignificand := by
    unfold maxSignificand
    omega
  rw [ofInteger, appendDigits_toDigits fits]
  by_cases negative : n < 0
  · have range : ¬ (n.natAbs = 0 ∨ 0x8000000000000000 < n.natAbs) := by omega
    have value : -(n.natAbs : Int) = n := by omega
    simp only [negative, decide_true, if_true, if_neg range, value]
  · have value : (n.natAbs : Int) = n := by omega
    simp only [negative, decide_false, Bool.false_eq_true, if_false, value]

theorem readNumber_integer {n : Int} (least : -0x8000000000000000 ≤ n)
    (most : n ≤ 0xFFFFFFFFFFFFFFFF) {rest : List Char} (stops : Stops rest) :
    readNumber (decide (n < 0)) (Nat.toDigits 10 n.natAbs ++ rest) = .ok (.integer n, rest) := by
  rw [readNumber_written _ stops]
  exact finishNumber_integer _ _ stops (ofInteger_toDigits least most)

/-- Every number in the tree is an integer of 64 bits. -/
inductive Exact : Json → Prop
  | null : Exact .null
  | bool (b : Bool) : Exact (.bool b)
  | integer {n : Int} (least : -0x8000000000000000 ≤ n) (most : n ≤ 0xFFFFFFFFFFFFFFFF) :
      Exact (.integer n)
  | text (s : String) : Exact (.text s)
  | array {items : List Json} (each : ∀ j ∈ items, Exact j) : Exact (.array items)
  | object {members : List (String × Json)} (each : ∀ m ∈ members, Exact m.2) :
      Exact (.object members)

/-- A member as it is written. -/
def writeMember (m : String × Json) : List Char := writeText m.1 ++ ':' :: m.2.write

/-- Items after the first. -/
def writeMoreItems (items : List Json) : List Char := items.flatMap fun j => ',' :: j.write

/-- Members after the first. -/
def writeMoreMembers (members : List (String × Json)) : List Char :=
  members.flatMap fun m => ',' :: writeMember m

theorem writeItems_cons (j : Json) (js : List Json) :
    writeItems (j :: js) = j.write ++ writeMoreItems js := by
  induction js generalizing j with
  | nil => simp [writeItems, writeMoreItems]
  | cons k ks ih =>
    rw [writeItems, ih k]
    · simp [writeMoreItems]
    · simp

theorem writeMembers_cons (m : String × Json) (ms : List (String × Json)) :
    writeMembers (m :: ms) = writeMember m ++ writeMoreMembers ms := by
  induction ms generalizing m with
  | nil => simp [writeMembers, writeMember, writeMoreMembers]
  | cons k ks ih =>
    rw [writeMembers, ih k]
    · simp [writeMember, writeMoreMembers]
    · simp

theorem write_array (items : List Json) (rest : List Char) :
    write (.array items) ++ rest = '[' :: (writeItems items ++ ']' :: rest) := by
  simp [write]

theorem write_object (members : List (String × Json)) (rest : List Char) :
    write (.object members) ++ rest = '\x7b' :: (writeMembers members ++ '\x7d' :: rest) := by
  simp [write]

/-- A value begins with a character that is no blank and neither ends nor continues an array. -/
theorem Exact.write_head {j : Json} (exact : j.Exact) :
    ∃ c cs, j.write = c :: cs ∧ isBlank c = false ∧ c ≠ ']' ∧ c ≠ ',' := by
  cases exact with
  | null => exact ⟨'n', _, rfl, rfl, by decide, by decide⟩
  | bool b =>
    cases b
    · exact ⟨'f', _, rfl, rfl, by decide, by decide⟩
    · exact ⟨'t', _, rfl, rfl, by decide, by decide⟩
  | @integer n least most =>
    rw [write_integer]
    split
    · exact ⟨'-', _, rfl, rfl, by decide, by decide⟩
    · obtain ⟨c, cs, digits, digit⟩ := toDigits_eq_cons n.natAbs
      exact ⟨c, cs, digits, isBlank_digit digit, ne_of_isDigit digit rfl, ne_of_isDigit digit rfl⟩
  | text s => exact ⟨'"', _, rfl, rfl, by decide, by decide⟩
  | array each => exact ⟨'[', _, by rw [write]; rfl, rfl, by decide, by decide⟩
  | object each => exact ⟨'\x7b', _, by rw [write]; rfl, rfl, by decide, by decide⟩

@[simp] theorem nextItem_close (first : Bool) (rest : List Char) :
    nextItem first (']' :: rest) = .ok none := by
  simp [nextItem, skipBlanks, isBlank]

@[simp] theorem closeArray_close (rest : List Char) : closeArray (']' :: rest) = .ok rest := by
  simp [closeArray, skipBlanks, isBlank]

@[simp] theorem nextKey_close (first : Bool) (rest : List Char) :
    nextKey first ('\x7d' :: rest) = .ok none := by
  simp [nextKey, skipBlanks, isBlank]

@[simp] theorem closeObject_close (rest : List Char) : closeObject ('\x7d' :: rest) = .ok rest := by
  simp [closeObject, skipBlanks, isBlank]

@[simp] theorem nextKey_first (rest : List Char) : nextKey true ('"' :: rest) = .ok (some rest) := by
  simp [nextKey, skipBlanks, isBlank]

@[simp] theorem nextKey_later (rest : List Char) :
    nextKey false (',' :: '"' :: rest) = .ok (some rest) := by
  simp [nextKey, skipBlanks, isBlank]

@[simp] theorem readColon_colon (rest : List Char) : readColon (':' :: rest) = .ok rest := by
  simp [readColon, skipBlanks, isBlank]

theorem Exact.nextItem_first {j : Json} (exact : j.Exact) (rest : List Char) :
    nextItem true (j.write ++ rest) = .ok (some (j.write ++ rest)) := by
  obtain ⟨c, cs, written, blank, close, comma⟩ := exact.write_head
  simp [written, nextItem, skipBlanks, blank, close, comma]

theorem Exact.nextItem_later {j : Json} (exact : j.Exact) (rest : List Char) :
    nextItem false (',' :: (j.write ++ rest)) = .ok (some (j.write ++ rest)) := by
  obtain ⟨c, cs, written, blank, close, comma⟩ := exact.write_head
  have mark : isBlank ',' = false := rfl
  simp [written, nextItem, skipBlanks, blank, close, mark]

theorem stops_comma (rest : List Char) : Stops (',' :: rest) := by
  simp only [Stops, List.head?_cons, Option.some.injEq]
  rintro c rfl
  decide

theorem stops_bracket (rest : List Char) : Stops (']' :: rest) := by
  simp only [Stops, List.head?_cons, Option.some.injEq]
  rintro c rfl
  decide

theorem stops_brace (rest : List Char) : Stops ('\x7d' :: rest) := by
  simp only [Stops, List.head?_cons, Option.some.injEq]
  rintro c rfl
  decide

/-- What reading gives for something with `deep` nested arrays and objects if `limit` may be opened. -/
def upTo {α : Type} (limit deep : Nat) (a : α) : Reading α :=
  if deep ≤ limit then .ok a else .error .malformed

@[simp] theorem upTo_zero {α : Type} (limit : Nat) (a : α) : upTo limit 0 a = .ok a := by
  simp [upTo]

@[simp] theorem upTo_succ_zero {α : Type} (deep : Nat) (a : α) :
    upTo 0 (deep + 1) a = .error .malformed := by
  simp [upTo]

@[simp] theorem upTo_succ {α : Type} (limit deep : Nat) (a : α) :
    upTo (limit + 1) (deep + 1) a = upTo limit deep a := by
  simp [upTo]

@[simp] theorem ok_bind {α β : Type} (a : α) (f : α → Reading β) : (.ok a >>= f) = f a := rfl

/-- One after the other. -/
theorem upTo_bind {α β : Type} {limit deep deep' : Nat} {a : α} {b : β} {f : α → Reading β}
    (next : deep ≤ limit → f a = upTo limit deep' b) :
    (upTo limit deep a >>= f) = upTo limit (max deep deep') b := by
  unfold upTo at next ⊢
  by_cases first : deep ≤ limit
  · rw [if_pos first, ok_bind, next first]
    by_cases second : deep' ≤ limit
    · rw [if_pos second, if_pos (by omega)]
    · rw [if_neg second, if_neg (by omega)]
  · rw [if_neg first, if_neg (by omega)]
    rfl

theorem upTo_bind_ok {α β : Type} {limit deep : Nat} {a : α} {b : β} {f : α → Reading β}
    (next : deep ≤ limit → f a = .ok b) : (upTo limit deep a >>= f) = upTo limit deep b := by
  have flat : deep ≤ limit → f a = upTo limit 0 b := by
    intro fits
    rw [next fits, upTo_zero]
  rw [upTo_bind flat, Nat.max_zero]

theorem upTo_map {α β : Type} (limit deep : Nat) (a : α) (f : α → β) :
    (upTo limit deep a >>= fun a => pure (f a)) = upTo limit deep (f a) :=
  upTo_bind_ok fun _ => rfl

/-- The tree is read back from its text, whatever follows. -/
def Reads (j : Json) : Prop :=
  ∀ (fuel limit : Nat) (rest : List Char), 2 * j.write.length ≤ fuel → Stops rest →
    readValue fuel limit (j.write ++ rest) = upTo limit j.depth (j, rest)

theorem writeMoreItems_cons (j : Json) (js : List Json) (rest : List Char) :
    writeMoreItems (j :: js) ++ ']' :: rest =
      ',' :: (j.write ++ (writeMoreItems js ++ ']' :: rest)) := by
  simp [writeMoreItems]

theorem length_writeMoreItems (j : Json) (js : List Json) :
    (writeMoreItems (j :: js)).length = 1 + j.write.length + (writeMoreItems js).length := by
  simp only [writeMoreItems, List.flatMap_cons, List.length_append, List.length_cons]
  omega

theorem stops_moreItems (js : List Json) (rest : List Char) :
    Stops (writeMoreItems js ++ ']' :: rest) := by
  cases js with
  | nil => exact stops_bracket rest
  | cons k ks => exact stops_comma _

/-- One item and the items after it. -/
theorem readItems_step {first : Bool} {text cs rest : List Char} {j : Json} {js : List Json}
    {fuel limit : Nat} (next : nextItem first text = .ok (some (j.write ++ cs)))
    (head : readValue fuel limit (j.write ++ cs) = upTo limit j.depth (j, cs))
    (tail : readItems fuel limit false cs = upTo limit (depthItems js) (js, rest)) :
    readItems (fuel + 1) limit first text = upTo limit (depthItems (j :: js)) (j :: js, rest) := by
  rw [readItems, next, ok_bind, depthItems]
  dsimp only
  rw [head]
  apply upTo_bind
  intro _
  dsimp only
  rw [tail]
  exact upTo_map ..

theorem readItems_more {items : List Json} (exact : ∀ j ∈ items, j.Exact)
    (reads : ∀ j ∈ items, j.Reads) (fuel limit : Nat) (rest : List Char)
    (enough : 2 * (writeMoreItems items).length + 1 ≤ fuel) :
    readItems fuel limit false (writeMoreItems items ++ ']' :: rest) =
      upTo limit (depthItems items) (items, rest) := by
  induction items generalizing fuel with
  | nil =>
    obtain ⟨fuel, rfl⟩ : ∃ k, fuel = k + 1 := ⟨fuel - 1, by omega⟩
    simp [writeMoreItems, readItems, depthItems, pure, Except.pure]
  | cons j js ih =>
    have size := length_writeMoreItems j js
    obtain ⟨fuel, rfl⟩ : ∃ k, fuel = k + 1 := ⟨fuel - 1, by omega⟩
    have head := reads j List.mem_cons_self fuel limit _ (by omega) (stops_moreItems js rest)
    have tail := ih (fun k member => exact k (List.mem_cons_of_mem _ member))
      (fun k member => reads k (List.mem_cons_of_mem _ member)) fuel (by omega)
    rw [writeMoreItems_cons]
    exact readItems_step ((exact j List.mem_cons_self).nextItem_later _) head tail

theorem readItems_written {items : List Json} (exact : ∀ j ∈ items, j.Exact)
    (reads : ∀ j ∈ items, j.Reads) (fuel limit : Nat) (rest : List Char)
    (enough : 2 * (writeItems items).length + 1 ≤ fuel) :
    readItems fuel limit true (writeItems items ++ ']' :: rest) =
      upTo limit (depthItems items) (items, rest) := by
  obtain ⟨fuel, rfl⟩ : ∃ k, fuel = k + 1 := ⟨fuel - 1, by omega⟩
  cases items with
  | nil => simp [writeItems, readItems, depthItems, pure, Except.pure]
  | cons j js =>
    have first := exact j List.mem_cons_self
    obtain ⟨c, cs, written, -⟩ := first.write_head
    have some_written : 1 ≤ j.write.length := by simp [written]
    rw [writeItems_cons] at enough ⊢
    rw [List.length_append] at enough
    have head := reads j List.mem_cons_self fuel limit _ (by omega) (stops_moreItems js rest)
    have tail := readItems_more (fun k member => exact k (List.mem_cons_of_mem _ member))
      (fun k member => reads k (List.mem_cons_of_mem _ member)) fuel limit rest (by omega)
    rw [List.append_assoc]
    exact readItems_step (first.nextItem_first _) head tail

theorem writeMember_append (m : String × Json) (rest : List Char) :
    writeMember m ++ rest =
      '"' :: (m.1.toList.flatMap escapeChar ++ '"' :: ':' :: (m.2.write ++ rest)) := by
  rw [writeMember, List.append_assoc, writeText_append, List.cons_append]

theorem writeMoreMembers_cons (m : String × Json) (ms : List (String × Json)) (rest : List Char) :
    writeMoreMembers (m :: ms) ++ '\x7d' :: rest =
      ',' :: (writeMember m ++ (writeMoreMembers ms ++ '\x7d' :: rest)) := by
  simp [writeMoreMembers]

/-- A member leaves room for its key and for its value. -/
theorem length_writeMember (m : String × Json) :
    m.1.toList.length + m.2.write.length + 3 ≤ (writeMember m).length := by
  have key := length_le_writeText m.1
  simp only [writeMember, List.length_append, List.length_cons]
  omega

theorem length_writeMoreMembers (m : String × Json) (ms : List (String × Json)) :
    (writeMoreMembers (m :: ms)).length =
      1 + (writeMember m).length + (writeMoreMembers ms).length := by
  simp only [writeMoreMembers, List.flatMap_cons, List.length_append, List.length_cons]
  omega

theorem stops_moreMembers (ms : List (String × Json)) (rest : List Char) :
    Stops (writeMoreMembers ms ++ '\x7d' :: rest) := by
  cases ms with
  | nil => exact stops_brace rest
  | cons k ks => exact stops_comma _

/-- One member and the members after it. -/
theorem readMembers_step {first : Bool} {text cs rest : List Char} {m : String × Json}
    {ms : List (String × Json)} {fuel limit : Nat}
    (next : nextKey first text =
      .ok (some (m.1.toList.flatMap escapeChar ++ '"' :: ':' :: (m.2.write ++ cs))))
    (room : m.1.toList.length < fuel)
    (value : readValue fuel limit (m.2.write ++ cs) = upTo limit m.2.depth (m.2, cs))
    (tail : readMembers fuel limit false cs = upTo limit (depthMembers ms) (ms, rest)) :
    readMembers (fuel + 1) limit first text =
      upTo limit (depthMembers (m :: ms)) (m :: ms, rest) := by
  rw [readMembers, next, ok_bind, depthMembers]
  dsimp only
  rw [readText_written _ _ room, ok_bind]
  dsimp only
  rw [readColon_colon, ok_bind, value]
  apply upTo_bind
  intro _
  dsimp only
  rw [tail]
  exact upTo_map ..

theorem readMembers_more {members : List (String × Json)} (reads : ∀ m ∈ members, m.2.Reads)
    (fuel limit : Nat) (rest : List Char)
    (enough : 2 * (writeMoreMembers members).length + 1 ≤ fuel) :
    readMembers fuel limit false (writeMoreMembers members ++ '\x7d' :: rest) =
      upTo limit (depthMembers members) (members, rest) := by
  induction members generalizing fuel with
  | nil =>
    obtain ⟨fuel, rfl⟩ : ∃ k, fuel = k + 1 := ⟨fuel - 1, by omega⟩
    simp [writeMoreMembers, readMembers, depthMembers, pure, Except.pure]
  | cons m ms ih =>
    have size := length_writeMoreMembers m ms
    have room := length_writeMember m
    obtain ⟨fuel, rfl⟩ : ∃ k, fuel = k + 1 := ⟨fuel - 1, by omega⟩
    have value := reads m List.mem_cons_self fuel limit _ (by omega) (stops_moreMembers ms rest)
    have tail := ih (fun k member => reads k (List.mem_cons_of_mem _ member)) fuel (by omega)
    rw [writeMoreMembers_cons, writeMember_append]
    exact readMembers_step (nextKey_later _) (by omega) value tail

theorem readMembers_written {members : List (String × Json)} (reads : ∀ m ∈ members, m.2.Reads)
    (fuel limit : Nat) (rest : List Char) (enough : 2 * (writeMembers members).length + 1 ≤ fuel) :
    readMembers fuel limit true (writeMembers members ++ '\x7d' :: rest) =
      upTo limit (depthMembers members) (members, rest) := by
  obtain ⟨fuel, rfl⟩ : ∃ k, fuel = k + 1 := ⟨fuel - 1, by omega⟩
  cases members with
  | nil => simp [writeMembers, readMembers, depthMembers, pure, Except.pure]
  | cons m ms =>
    have room := length_writeMember m
    rw [writeMembers_cons] at enough ⊢
    rw [List.length_append] at enough
    have value := reads m List.mem_cons_self fuel limit _ (by omega) (stops_moreMembers ms rest)
    have tail := readMembers_more (fun k member => reads k (List.mem_cons_of_mem _ member)) fuel limit
      rest (by omega)
    rw [List.append_assoc, writeMember_append]
    exact readMembers_step (nextKey_first _) (by omega) value tail

theorem readValue_digit {c : Char} (digit : c.isDigit = true) (fuel limit : Nat) (cs : List Char) :
    readValue (fuel + 1) limit (c :: cs) = readNumber false (c :: cs) := by
  have other : ∀ d, d.isDigit = false → c ≠ d := fun d => ne_of_isDigit digit
  rw [readValue, skipBlanks_cons (isBlank_digit digit)]
  -- every other kind of value begins with a character that is no digit
  split
  · rename_i same
    cases same
  · rename_i same
    exact absurd (List.cons.inj same).1 (other 'n' rfl)
  · rename_i same
    exact absurd (List.cons.inj same).1 (other 't' rfl)
  · rename_i same
    exact absurd (List.cons.inj same).1 (other 'f' rfl)
  · rename_i same
    exact absurd (List.cons.inj same).1 (other '"' rfl)
  · rename_i same
    exact absurd (List.cons.inj same).1 (other '-' rfl)
  · rename_i same
    exact absurd (List.cons.inj same).1 (other '[' rfl)
  · rename_i same
    exact absurd (List.cons.inj same).1 (other '\x7b' rfl)
  · rename_i same
    obtain ⟨rfl, rfl⟩ := List.cons.inj same
    rw [if_pos digit]

/-- A written number is read as the integer it stands for. -/
theorem readValue_integer {n : Int} (least : -0x8000000000000000 ≤ n)
    (most : n ≤ 0xFFFFFFFFFFFFFFFF) (fuel limit : Nat) {rest : List Char} (stops : Stops rest) :
    readValue (fuel + 1) limit (write (.integer n) ++ rest) = .ok (.integer n, rest) := by
  have number := readNumber_integer least most stops
  rw [write_integer]
  by_cases negative : n < 0
  · rw [decide_eq_true negative] at number
    rw [if_pos negative, List.cons_append, readValue, skipBlanks_cons rfl]
    exact number
  · rw [decide_eq_false negative] at number
    obtain ⟨c, cs, digits, digit⟩ := toDigits_eq_cons n.natAbs
    rw [digits, List.cons_append] at number
    rw [if_neg negative, digits, List.cons_append, readValue_digit digit, number]

/-- Some fuel is there, since something was written. -/
theorem Exact.reads_of {j : Json} (exact : j.Exact)
    (read : ∀ (fuel limit : Nat) (rest : List Char), 2 * j.write.length ≤ fuel + 1 → Stops rest →
      readValue (fuel + 1) limit (j.write ++ rest) = upTo limit j.depth (j, rest)) : j.Reads := by
  intro fuel limit rest enough stops
  obtain ⟨c, cs, written, -⟩ := exact.write_head
  have some_written : 1 ≤ j.write.length := by simp [written]
  obtain ⟨fuel, rfl⟩ : ∃ k, fuel = k + 1 := ⟨fuel - 1, by omega⟩
  exact read fuel limit rest enough stops

/-- Reading undoes writing. -/
theorem Exact.reads {j : Json} (exact : j.Exact) : j.Reads := by
  -- items and members are read with the fuel that is left; their texts are shorter by the brackets
  induction exact with
  | null =>
    refine Exact.null.reads_of fun fuel limit rest _ _ => ?_
    simp [write, readValue, skipBlanks, isBlank, readWord, depth, pure, Except.pure]
  | bool b =>
    refine (Exact.bool b).reads_of fun fuel limit rest _ _ => ?_
    cases b <;> simp [write, readValue, skipBlanks, isBlank, readWord, depth, pure, Except.pure]
  | integer least most =>
    refine (Exact.integer least most).reads_of fun fuel limit rest _ stops => ?_
    rw [readValue_integer least most fuel limit stops, depth, upTo_zero]
    all_goals simp
  | text s =>
    refine (Exact.text s).reads_of fun fuel limit rest enough _ => ?_
    have room := length_le_writeText s
    rw [write] at enough ⊢
    have quote : isBlank '"' = false := rfl
    rw [writeText_append, readValue]
    simp only [skipBlanks_cons quote]
    rw [readText_written _ _ (by omega)]
    simp [depth, pure, Except.pure]
  | @array items each ih =>
    refine (Exact.array each).reads_of fun fuel limit rest enough _ => ?_
    simp only [write, List.length_cons, List.length_append, List.length_nil] at enough
    have opening : isBlank '[' = false := rfl
    rw [write_array, readValue, depth]
    simp only [skipBlanks_cons opening]
    cases limit with
    | zero => rw [upTo_succ_zero]
    | succ limit =>
      dsimp only
      rw [readItems_written each ih fuel limit rest (by omega), upTo_succ]
      exact upTo_map ..
  | @object members each ih =>
    refine (Exact.object each).reads_of fun fuel limit rest enough _ => ?_
    simp only [write, List.length_cons, List.length_append, List.length_nil] at enough
    have opening : isBlank '\x7b' = false := rfl
    rw [write_object, readValue, depth]
    simp only [skipBlanks_cons opening]
    cases limit with
    | zero => rw [upTo_succ_zero]
    | succ limit =>
      dsimp only
      rw [readMembers_written ih fuel limit rest (by omega), upTo_succ]
      exact upTo_map ..

end ScriptEngine.Json
