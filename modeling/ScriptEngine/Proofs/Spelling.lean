import ScriptEngine.Proofs.SpelledTokens

/-!
# Spellings of trees

A value that nobody asks for is passed over if it is grammatical. A value that somebody asks for has to
spell a tree, and reading finds the tree in each of its spellings. A spelling nests as many arrays and
objects as its tree, wherever blanks stand and whatever its texts hold.
-/

namespace ScriptEngine.Json

/-- What comes before an item or a member: nothing before the first one, else a comma. -/
inductive Lead : Bool → List Char → List Char → Prop
  | first {t : List Char} : Lead true t t
  | later {t u : List Char} (comma : Gap t (',' :: u)) : Lead false t u

/-- A key and a colon, up to where the value begins. -/
inductive GrammaticalKey : List Char → List Char → Prop
  | pair {t u v w x : List Char} (quote : Gap t ('"' :: u)) (name : GrammaticalChars u v)
      (colon : Gap v (':' :: w)) (gap : Gap w x) : GrammaticalKey t x

mutual

/-- The text begins with a value that nests `deep` arrays and objects, without blanks before it. -/
inductive Grammatical : List Char → Nat → List Char → Prop
  | null {r : List Char} : Grammatical ('n' :: 'u' :: 'l' :: 'l' :: r) 0 r
  | yes {r : List Char} : Grammatical ('t' :: 'r' :: 'u' :: 'e' :: r) 0 r
  | no {r : List Char} : Grammatical ('f' :: 'a' :: 'l' :: 's' :: 'e' :: r) 0 r
  | number {t whole fraction r : List Char} {exponent : Option Int}
      (numeral : Numeral t whole fraction exponent r) : Grammatical t 0 r
  | negative {t whole fraction r : List Char} {exponent : Option Int}
      (numeral : Numeral t whole fraction exponent r) : Grammatical ('-' :: t) 0 r
  | text {t r : List Char} (chars : GrammaticalChars t r) : Grammatical ('"' :: t) 0 r
  | array {t r : List Char} {deep : Nat} (items : GrammaticalItems true t deep r) :
      Grammatical ('[' :: t) (deep + 1) r
  | object {t r : List Char} {deep : Nat} (members : GrammaticalMembers true t deep r) :
      Grammatical ('\x7b' :: t) (deep + 1) r

/-- Items from here on, and the closing bracket. -/
inductive GrammaticalItems : Bool → List Char → Nat → List Char → Prop
  | close {first : Bool} {t r : List Char} (close : Gap t (']' :: r)) : GrammaticalItems first t 0 r
  | more {first : Bool} {t u v w r : List Char} {deep rest : Nat} (lead : Lead first t u)
      (gap : Gap u v) (value : Grammatical v deep w) (later : GrammaticalItems false w rest r) :
      GrammaticalItems first t (max deep rest) r

/-- Members from here on, and the closing brace. -/
inductive GrammaticalMembers : Bool → List Char → Nat → List Char → Prop
  | close {first : Bool} {t r : List Char} (close : Gap t ('\x7d' :: r)) :
      GrammaticalMembers first t 0 r
  | more {first : Bool} {t u v w r : List Char} {deep rest : Nat} (lead : Lead first t u)
      (key : GrammaticalKey u v) (value : Grammatical v deep w)
      (later : GrammaticalMembers false w rest r) : GrammaticalMembers first t (max deep rest) r

end

theorem Lead.length_le {first : Bool} {t u : List Char} (lead : Lead first t u) :
    u.length ≤ t.length := by
  cases lead with
  | first => exact Nat.le_refl _
  | later comma =>
    have shorter := comma.length_le
    simp only [List.length_cons] at shorter
    omega

theorem GrammaticalKey.length_lt {t x : List Char} (key : GrammaticalKey t x) :
    x.length < t.length := by
  obtain ⟨quote, name, colon, gap⟩ := key
  have first := quote.length_le
  have second := name.length_lt
  have third := colon.length_le
  have fourth := gap.length_le
  simp only [List.length_cons] at first third
  omega

mutual

theorem Grammatical.length_lt : {t : List Char} → {deep : Nat} → {r : List Char} →
    Grammatical t deep r → r.length < t.length
  | _, _, _, .null | _, _, _, .yes | _, _, _, .no => by
    simp only [List.length_cons]
    omega
  | _, _, _, .number numeral => by
    obtain ⟨front, rfl, ⟨c, cs, rfl, -⟩, -⟩ := numeral.numeric
    simp only [List.length_append, List.length_cons]
    omega
  | _, _, _, .negative numeral => by
    obtain ⟨front, rfl, -, -⟩ := numeral.numeric
    simp only [List.length_append, List.length_cons]
    omega
  | _, _, _, .text chars => Nat.lt_succ_of_lt chars.length_lt
  | _, _, _, .array items => Nat.lt_succ_of_lt items.length_lt
  | _, _, _, .object members => Nat.lt_succ_of_lt members.length_lt

theorem GrammaticalItems.length_lt : {first : Bool} → {t : List Char} → {deep : Nat} →
    {r : List Char} → GrammaticalItems first t deep r → r.length < t.length
  | _, _, _, _, .close close => close.length_le
  | _, _, _, _, .more lead gap value later => by
    have first := lead.length_le
    have second := gap.length_le
    have third := value.length_lt
    have last := later.length_lt
    omega

theorem GrammaticalMembers.length_lt : {first : Bool} → {t : List Char} → {deep : Nat} →
    {r : List Char} → GrammaticalMembers first t deep r → r.length < t.length
  | _, _, _, _, .close close => close.length_le
  | _, _, _, _, .more lead key value later => by
    have first := lead.length_le
    have second := key.length_lt
    have third := value.length_lt
    have last := later.length_lt
    omega

end

/-- A value begins with a character that is no blank and neither ends nor continues an array. -/
theorem Grammatical.head {t r : List Char} {deep : Nat} (value : Grammatical t deep r) :
    ∃ c cs, t = c :: cs ∧ isBlank c = false ∧ c ≠ ']' ∧ c ≠ ',' := by
  cases value with
  | number numeral =>
    obtain ⟨front, rfl, ⟨c, cs, rfl, digit⟩, -⟩ := numeral.numeric
    exact ⟨c, cs ++ r, rfl, isBlank_digit digit, ne_of_isDigit digit rfl, ne_of_isDigit digit rfl⟩
  | null => exact ⟨_, _, rfl, rfl, by decide, by decide⟩
  | yes => exact ⟨_, _, rfl, rfl, by decide, by decide⟩
  | no => exact ⟨_, _, rfl, rfl, by decide, by decide⟩
  | negative => exact ⟨_, _, rfl, rfl, by decide, by decide⟩
  | text => exact ⟨_, _, rfl, rfl, by decide, by decide⟩
  | array => exact ⟨_, _, rfl, rfl, by decide, by decide⟩
  | object => exact ⟨_, _, rfl, rfl, by decide, by decide⟩

theorem Gap.nextItem_close {t r : List Char} (close : Gap t (']' :: r)) (first : Bool) :
    nextItem first t = .ok none := by
  simp only [nextItem, close.skip_token rfl]

theorem Gap.closeArray {t r : List Char} (close : Gap t (']' :: r)) : closeArray t = .ok r := by
  simp only [Json.closeArray, close.skip_token rfl]

theorem Gap.nextKey_close {t r : List Char} (close : Gap t ('\x7d' :: r)) (first : Bool) :
    nextKey first t = .ok none := by
  simp only [nextKey, close.skip_token rfl]

theorem Gap.closeObject {t r : List Char} (close : Gap t ('\x7d' :: r)) : closeObject t = .ok r := by
  simp only [Json.closeObject, close.skip_token rfl]

theorem Gap.readColon {t r : List Char} (colon : Gap t (':' :: r)) : readColon t = .ok r := by
  simp only [Json.readColon, colon.skip_token rfl]

theorem Lead.nextKey {first : Bool} {t u v : List Char} (lead : Lead first t u)
    (quote : Gap u ('"' :: v)) : nextKey first t = .ok (some v) := by
  cases lead with
  | first => simp only [Json.nextKey, quote.skip_token rfl, if_true]
  | later comma =>
    simp only [Json.nextKey, comma.skip_token rfl, quote.skip_token rfl, Bool.false_eq_true, if_false]

theorem Lead.nextItem {first : Bool} {t u v r : List Char} {deep : Nat} (lead : Lead first t u)
    (gap : Gap u v) (value : Grammatical v deep r) : nextItem first t = .ok (some v) := by
  obtain ⟨c, cs, rfl, blank, close, comma⟩ := value.head
  have skipped := gap.skip_token blank
  cases lead with
  | first => simp [Json.nextItem, skipped, close, comma]
  | later comma => simp [Json.nextItem, comma.skip_token rfl, skipped, close]

theorem Gap.readValue {t u : List Char} (gap : Gap t u) (fuel limit : Nat) :
    readValue fuel limit t = readValue fuel limit u := by
  cases fuel with
  | zero => rfl
  | succ fuel => simp only [Json.readValue, gap.skip]

theorem Gap.skipValue {t u : List Char} (gap : Gap t u) (fuel : Nat) :
    skipValue fuel t = skipValue fuel u := by
  cases fuel with
  | zero => rfl
  | succ fuel => simp only [Json.skipValue, gap.skip]

theorem skipValue_digit {c : Char} (digit : c.isDigit = true) (fuel : Nat) (cs : List Char) :
    skipValue (fuel + 1) (c :: cs) = skipNumber (c :: cs) := by
  have other : ∀ d, d.isDigit = false → c ≠ d := fun d => ne_of_isDigit digit
  rw [skipValue, skipBlanks_cons (isBlank_digit digit)]
  simp [other 'n' rfl, other 't' rfl, other 'f' rfl, other '"' rfl, other '-' rfl, other '[' rfl,
    other '\x7b' rfl, digit]

mutual

/-- A grammatical value is passed over to its end. -/
theorem Grammatical.skip : {t : List Char} → {deep : Nat} → {r : List Char} → Grammatical t deep r →
    ∀ fuel : Nat, 2 * t.length ≤ fuel → skipValue fuel t = .ok r
  | _, _, _, .null, fuel + 1, _ => rfl
  | _, _, _, .yes, fuel + 1, _ => rfl
  | _, _, _, .no, fuel + 1, _ => rfl
  | _, _, _, .number numeral, fuel, enough => by
    have some_text := (Grammatical.number numeral).length_lt
    obtain ⟨fuel, rfl⟩ : ∃ k, fuel = k + 1 := ⟨fuel - 1, by omega⟩
    obtain ⟨front, text, ⟨c, cs, rfl, digit⟩, -⟩ := numeral.numeric
    have skipped := numeral.skip
    rw [text, List.cons_append] at skipped ⊢
    rw [skipValue_digit digit, skipped]
  | _, _, _, .negative numeral, fuel + 1, _ => numeral.skip
  | _, _, _, .text chars, fuel + 1, enough => by
    simp only [List.length_cons] at enough
    exact chars.skip fuel (by omega)
  | _, _, _, .array items, fuel + 1, enough => by
    simp only [List.length_cons] at enough
    rw [skipValue, skipBlanks_cons rfl]
    exact items.skip fuel (by omega)
  | _, _, _, .object members, fuel + 1, enough => by
    simp only [List.length_cons] at enough
    rw [skipValue, skipBlanks_cons rfl]
    exact members.skip fuel (by omega)

theorem GrammaticalItems.skip : {first : Bool} → {t : List Char} → {deep : Nat} → {r : List Char} →
    GrammaticalItems first t deep r → ∀ fuel : Nat, 2 * t.length < fuel →
      skipItems fuel first t = .ok r
  | _, _, _, _, .close close, fuel + 1, _ => by
    simp only [skipItems, close.nextItem_close, close.closeArray, ok_bind]
  | _, _, _, _, .more lead gap value later, fuel + 1, enough => by
    have shorter := lead.length_le
    have shorter' := gap.length_le
    have shorter'' := value.length_lt
    have head := value.skip fuel (by omega)
    have tail := later.skip fuel (by omega)
    simp only [skipItems, lead.nextItem gap value, head, tail, ok_bind]

theorem GrammaticalMembers.skip : {first : Bool} → {t : List Char} → {deep : Nat} →
    {r : List Char} → GrammaticalMembers first t deep r → ∀ fuel : Nat, 2 * t.length < fuel →
      skipMembers fuel first t = .ok r
  | _, _, _, _, .close close, fuel + 1, _ => by
    simp only [skipMembers, close.nextKey_close, close.closeObject, ok_bind]
  | _, _, _, _, .more lead (.pair quote name colon gap) value later, fuel + 1, enough => by
    have shorter := lead.length_le
    have shorter' := quote.length_le
    have before := (GrammaticalKey.pair quote name colon gap).length_lt
    have last := value.length_lt
    simp only [List.length_cons] at shorter'
    have key := name.skip fuel (by omega)
    have head := value.skip fuel (by omega)
    have tail := later.skip fuel (by omega)
    simp only [skipMembers, lead.nextKey quote, key, colon.readColon, gap.skipValue, head, tail,
      ok_bind]

end

/-- The deepest level after something that adds `deep` to it. -/
def Reaches (t r : List Char) (deep : Nat) : Prop :=
  ∀ level deepest : Nat, level ≤ deepest →
    Scan.run ⟨.outside, level, deepest⟩ t =
      Scan.run ⟨.outside, level, max deepest (level + deep)⟩ r

theorem Reaches.of_flat {t r : List Char}
    (same : ∀ level deepest, Scan.run ⟨.outside, level, deepest⟩ t =
      Scan.run ⟨.outside, level, deepest⟩ r) : Reaches t r 0 := by
  intro level deepest reached
  have flat : max deepest (level + 0) = deepest := by omega
  rw [flat]
  exact same level deepest

theorem Reaches.after {t u r : List Char} {deep : Nat}
    (same : ∀ level deepest, Scan.run ⟨.outside, level, deepest⟩ t =
      Scan.run ⟨.outside, level, deepest⟩ u) (later : Reaches u r deep) : Reaches t r deep := by
  intro level deepest reached
  rw [same]
  exact later level deepest reached

theorem Reaches.trans {t u r : List Char} {deep deep' : Nat} (first : Reaches t u deep)
    (second : Reaches u r deep') : Reaches t r (max deep deep') := by
  intro level deepest reached
  have most : max (max deepest (level + deep)) (level + deep') =
      max deepest (level + max deep deep') := by
    omega
  rw [first level deepest reached, second level _ (by omega), most]

/-- What stands in brackets counts one level more. `t` is what follows the opening bracket, and the
closing bracket stands before `r`. -/
theorem reaches_enclosed {t r : List Char} {opening closing : Char} {deep : Nat}
    (opens : opening = '[' ∨ opening = '\x7b') (closes : closing = ']' ∨ closing = '\x7d')
    (inside : Reaches t (closing :: r) deep) : Reaches (opening :: t) r (deep + 1) := by
  intro level deepest reached
  have first : Scan.step ⟨.outside, level, deepest⟩ opening =
      ⟨.outside, level + 1, max deepest (level + 1)⟩ := by
    rcases opens with rfl | rfl <;> rfl
  have last : ∀ most, Scan.step ⟨.outside, level + 1, most⟩ closing = ⟨.outside, level, most⟩ := by
    intro most
    rcases closes with rfl | rfl <;> rfl
  have most : max (max deepest (level + 1)) (level + 1 + deep) = max deepest (level + (deep + 1)) := by
    omega
  rw [Scan.run_cons, first, inside _ _ (by omega), Scan.run_cons, last, most]

theorem Lead.run {first : Bool} {t u : List Char} (lead : Lead first t u) (level deepest : Nat) :
    Scan.run ⟨.outside, level, deepest⟩ t = Scan.run ⟨.outside, level, deepest⟩ u := by
  cases lead with
  | first => rfl
  | later comma => rw [comma.run, Scan.run_comma]

theorem GrammaticalKey.run {t x : List Char} (key : GrammaticalKey t x) (level deepest : Nat) :
    Scan.run ⟨.outside, level, deepest⟩ t = Scan.run ⟨.outside, level, deepest⟩ x := by
  obtain ⟨quote, name, colon, gap⟩ := key
  have opening : Scan.step ⟨.outside, level, deepest⟩ '"' = ⟨.quoted, level, deepest⟩ := rfl
  have mark : Scan.step ⟨.outside, level, deepest⟩ ':' = ⟨.outside, level, deepest⟩ := rfl
  rw [quote.run, Scan.run_cons, opening, name.run, colon.run, Scan.run_cons, mark, gap.run]

mutual

theorem Grammatical.reaches : {t : List Char} → {deep : Nat} → {r : List Char} →
    Grammatical t deep r → Reaches t r deep
  | _, _, _, .null | _, _, _, .yes | _, _, _, .no => Reaches.of_flat fun _ _ => rfl
  | _, _, _, .number numeral => by
    obtain ⟨front, rfl, -, each⟩ := numeral.numeric
    exact Reaches.of_flat fun level deepest => run_numeric each level deepest _
  | _, _, _, .negative numeral => by
    obtain ⟨front, rfl, -, each⟩ := numeral.numeric
    refine Reaches.of_flat fun level deepest => ?_
    have sign : Scan.step ⟨.outside, level, deepest⟩ '-' = ⟨.outside, level, deepest⟩ := rfl
    rw [Scan.run_cons, sign, run_numeric each]
  | _, _, _, .text chars => Reaches.of_flat chars.run
  | _, _, _, .array items => reaches_enclosed (Or.inl rfl) (Or.inl rfl) items.reaches
  | _, _, _, .object members => reaches_enclosed (Or.inr rfl) (Or.inr rfl) members.reaches

theorem GrammaticalItems.reaches : {first : Bool} → {t : List Char} → {deep : Nat} →
    {r : List Char} → GrammaticalItems first t deep r → Reaches t (']' :: r) deep
  | _, _, _, _, .close close => Reaches.of_flat close.run
  | _, _, _, _, .more lead gap value later =>
    Reaches.after lead.run (Reaches.after gap.run (value.reaches.trans later.reaches))

theorem GrammaticalMembers.reaches : {first : Bool} → {t : List Char} → {deep : Nat} →
    {r : List Char} → GrammaticalMembers first t deep r → Reaches t ('\x7d' :: r) deep
  | _, _, _, _, .close close => Reaches.of_flat close.run
  | _, _, _, _, .more lead key value later =>
    Reaches.after lead.run (Reaches.after key.run (value.reaches.trans later.reaches))

end

/-- How deep a document nests, blanks around it included. -/
theorem Reaches.nesting {text : String} {t r : List Char} {deep : Nat} (reaches : Reaches t r deep)
    (before : Gap text.toList t) (after : Gap r []) : nesting text = deep := by
  have run := (Reaches.after before.run reaches) 0 0 (Nat.le_refl 0)
  rw [after.run] at run
  have whole : Json.nesting text = (Scan.run ⟨.outside, 0, 0⟩ text.toList).deepest := rfl
  rw [whole, run]
  exact (Nat.zero_max _).trans (Nat.zero_add _)

/-- The key of a member, up to where the value begins. -/
inductive SpelledKey : List Char → String → List Char → Prop
  | pair {t u v w x : List Char} {key : String} (quote : Gap t ('"' :: u)) (name : SpelledText u key v)
      (colon : Gap v (':' :: w)) (gap : Gap w x) : SpelledKey t key x

variable (Other : List Char → Decimal → List Char → Prop)

mutual

/-- The text begins with a spelling of the tree, without blanks before it. What spells the decimals,
which no field of a program holds, is a parameter. -/
inductive Spelled : List Char → Json → List Char → Prop
  | null {r : List Char} : Spelled ('n' :: 'u' :: 'l' :: 'l' :: r) .null r
  | yes {r : List Char} : Spelled ('t' :: 'r' :: 'u' :: 'e' :: r) (.bool true) r
  | no {r : List Char} : Spelled ('f' :: 'a' :: 'l' :: 's' :: 'e' :: r) (.bool false) r
  | integer {n : Int} {r : List Char} (least : -0x8000000000000000 ≤ n)
      (most : n ≤ 0xFFFFFFFFFFFFFFFF) (stops : Stops r) :
      Spelled (write (.integer n) ++ r) (.integer n) r
  | decimal {t r : List Char} {d : Decimal} (other : Other t d r) : Spelled t (.decimal d) r
  | text {t r : List Char} {s : String} (chars : SpelledText t s r) : Spelled ('"' :: t) (.text s) r
  | array {t r : List Char} {js : List Json} (items : SpelledItems true t js r) :
      Spelled ('[' :: t) (.array js) r
  | object {t r : List Char} {ms : List (String × Json)} (members : SpelledMembers true t ms r) :
      Spelled ('\x7b' :: t) (.object ms) r

/-- Items from here on, and the closing bracket. -/
inductive SpelledItems : Bool → List Char → List Json → List Char → Prop
  | close {first : Bool} {t r : List Char} (close : Gap t (']' :: r)) : SpelledItems first t [] r
  | more {first : Bool} {t u v w r : List Char} {j : Json} {js : List Json} (lead : Lead first t u)
      (gap : Gap u v) (value : Spelled v j w) (later : SpelledItems false w js r) :
      SpelledItems first t (j :: js) r

/-- Members from here on, and the closing brace. -/
inductive SpelledMembers : Bool → List Char → List (String × Json) → List Char → Prop
  | close {first : Bool} {t r : List Char} (close : Gap t ('\x7d' :: r)) : SpelledMembers first t [] r
  | more {first : Bool} {t u v w r : List Char} {key : String} {j : Json} {ms : List (String × Json)}
      (lead : Lead first t u) (name : SpelledKey u key v) (value : Spelled v j w)
      (later : SpelledMembers false w ms r) : SpelledMembers first t ((key, j) :: ms) r

end

theorem SpelledKey.grammatical {t x : List Char} {key : String} (spelled : SpelledKey t key x) :
    GrammaticalKey t x := by
  obtain ⟨quote, name, colon, gap⟩ := spelled
  exact .pair quote (SpelledChars.grammatical name) colon gap

theorem grammatical_integer (n : Int) {r : List Char} (stops : Stops r) :
    Grammatical (write (.integer n) ++ r) 0 r := by
  have numeral : Numeral (Nat.toDigits 10 n.natAbs ++ r) _ [] none r :=
    .whole (whole_toDigits n.natAbs) stops
  rw [write_integer]
  by_cases negative : n < 0
  · rw [if_pos negative]
    exact .negative numeral
  · rw [if_neg negative]
    exact .number numeral

theorem SpelledNumber.grammatical {t r : List Char} {d : Decimal} (spelled : SpelledNumber t d r) :
    Grammatical t 0 r := by
  rcases spelled with ⟨_, _, _, -, numeral, -⟩ | ⟨_, _, _, -, numeral, -⟩
  · exact .number numeral
  · exact .negative numeral

mutual

/-- What can be read is grammatical. -/
theorem Spelled.grammatical : {t : List Char} → {j : Json} → {r : List Char} →
    Spelled SpelledNumber t j r → Grammatical t j.depth r
  | _, _, _, .null => .null
  | _, _, _, .yes => .yes
  | _, _, _, .no => .no
  | _, _, _, .integer _ _ stops => grammatical_integer _ stops
  | _, _, _, .decimal other => other.grammatical
  | _, _, _, .text chars => .text (SpelledChars.grammatical chars)
  | _, _, _, .array items => .array items.grammatical
  | _, _, _, .object members => .object members.grammatical

theorem SpelledItems.grammatical : {first : Bool} → {t : List Char} → {js : List Json} →
    {r : List Char} → SpelledItems SpelledNumber first t js r →
      GrammaticalItems first t (depthItems js) r
  | _, _, _, _, .close close => .close close
  | _, _, _, _, .more lead gap value later => .more lead gap value.grammatical later.grammatical

theorem SpelledMembers.grammatical : {first : Bool} → {t : List Char} →
    {ms : List (String × Json)} → {r : List Char} → SpelledMembers SpelledNumber first t ms r →
      GrammaticalMembers first t (depthMembers ms) r
  | _, _, _, _, .close close => .close close
  | _, _, _, _, .more lead name value later =>
    .more lead name.grammatical value.grammatical later.grammatical

end

theorem SpelledNumber.read {t r : List Char} {d : Decimal} (spelled : SpelledNumber t d r)
    (fuel limit : Nat) : readValue (fuel + 1) limit t = .ok (.decimal d, r) := by
  cases spelled with
  | plain number =>
    have read := number.read
    obtain ⟨_, _, _, -, numeral, -⟩ := number
    obtain ⟨front, text, ⟨c, cs, rfl, digit⟩, -⟩ := numeral.numeric
    rw [text, List.cons_append] at read ⊢
    rw [readValue_digit digit, read]
  | negative number => exact number.read

mutual

/-- The tree is found in each of its spellings. -/
theorem Spelled.read : {t : List Char} → {j : Json} → {r : List Char} → Spelled SpelledNumber t j r →
    ∀ fuel limit : Nat, 2 * t.length ≤ fuel → j.depth ≤ limit →
      readValue fuel limit t = .ok (j, r)
  | _, _, _, .null, fuel + 1, limit, _, _ => rfl
  | _, _, _, .yes, fuel + 1, limit, _, _ => rfl
  | _, _, _, .no, fuel + 1, limit, _, _ => rfl
  | _, _, _, @Spelled.integer _ n _ least most stops, fuel, limit, enough, _ => by
    have some_text := (grammatical_integer n stops).length_lt
    obtain ⟨fuel, rfl⟩ : ∃ k, fuel = k + 1 := ⟨fuel - 1, by omega⟩
    exact readValue_integer least most fuel limit stops
  | _, _, _, .decimal other, fuel, limit, enough, _ => by
    have some_text := other.grammatical.length_lt
    obtain ⟨fuel, rfl⟩ : ∃ k, fuel = k + 1 := ⟨fuel - 1, by omega⟩
    exact other.read fuel limit
  | _, _, _, .text chars, fuel + 1, limit, enough, _ => by
    simp only [List.length_cons] at enough
    rw [readValue, skipBlanks_cons rfl]
    simp only [chars.read fuel (by omega), ok_bind]
    rfl
  | _, _, _, .array items, fuel + 1, limit + 1, enough, fits => by
    simp only [List.length_cons] at enough
    rw [depth] at fits
    rw [readValue, skipBlanks_cons rfl]
    simp only [items.read fuel limit (by omega) (by omega), ok_bind]
    rfl
  | _, _, _, .object members, fuel + 1, limit + 1, enough, fits => by
    simp only [List.length_cons] at enough
    rw [depth] at fits
    rw [readValue, skipBlanks_cons rfl]
    simp only [members.read fuel limit (by omega) (by omega), ok_bind]
    rfl

theorem SpelledItems.read : {first : Bool} → {t : List Char} → {js : List Json} → {r : List Char} →
    SpelledItems SpelledNumber first t js r → ∀ fuel limit : Nat, 2 * t.length < fuel →
      depthItems js ≤ limit → readItems fuel limit first t = .ok (js, r)
  | _, _, _, _, .close close, fuel + 1, limit, _, _ => by
    simp only [readItems, close.nextItem_close, close.closeArray, ok_bind]
    rfl
  | _, _, _, _, .more lead gap value later, fuel + 1, limit, enough, fits => by
    have shorter := lead.length_le
    have shorter' := gap.length_le
    have shorter'' := value.grammatical.length_lt
    rw [depthItems] at fits
    have head := value.read fuel limit (by omega) (by omega)
    have tail := later.read fuel limit (by omega) (by omega)
    simp only [readItems, lead.nextItem gap value.grammatical, head, tail, ok_bind]
    rfl

theorem SpelledMembers.read : {first : Bool} → {t : List Char} → {ms : List (String × Json)} →
    {r : List Char} → SpelledMembers SpelledNumber first t ms r → ∀ fuel limit : Nat,
      2 * t.length < fuel → depthMembers ms ≤ limit → readMembers fuel limit first t = .ok (ms, r)
  | _, _, _, _, .close close, fuel + 1, limit, _, _ => by
    simp only [readMembers, close.nextKey_close, close.closeObject, ok_bind]
    rfl
  | _, _, _, _, .more lead (.pair quote name colon gap) value later, fuel + 1, limit, enough, fits => by
    have shorter := lead.length_le
    have shorter' := quote.length_le
    have before := (SpelledKey.pair quote name colon gap).grammatical.length_lt
    have last := value.grammatical.length_lt
    simp only [List.length_cons] at shorter'
    rw [depthMembers] at fits
    have head := value.read fuel limit (by omega) (by omega)
    have tail := later.read fuel limit (by omega) (by omega)
    simp only [readMembers, lead.nextKey quote, name.read fuel (by omega), colon.readColon,
      gap.readValue, head, tail, ok_bind]
    rfl

end

end ScriptEngine.Json
