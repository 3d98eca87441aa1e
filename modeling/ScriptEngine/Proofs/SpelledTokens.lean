import ScriptEngine.Json.Skip
import ScriptEngine.Proofs.Nesting

/-!
# Spellings of tokens

Blanks may stand between tokens. A character of a text may stand for itself or be escaped, by a letter or
by its code. Reading finds the same text or number in each spelling, and passing over it leaves the same
text behind.

A spelling relates a text, what it begins with, and the text that is left after it. A number ends where
nothing follows that could continue it. Not all that is grammatical can be read: a number that is no
integer of 64 bits has to stand for a finite double, and codes of surrogates have to come in pairs.
-/

namespace ScriptEngine.Json

/-- Blanks, and then `u`. -/
def Gap (t u : List Char) : Prop := ∃ blanks, (∀ c ∈ blanks, isBlank c = true) ∧ t = blanks ++ u

theorem Gap.refl (t : List Char) : Gap t t := ⟨[], by simp, rfl⟩

theorem Gap.blank {c : Char} {t u : List Char} (blank : isBlank c = true) (later : Gap t u) :
    Gap (c :: t) u := by
  obtain ⟨blanks, all, rfl⟩ := later
  exact ⟨c :: blanks, List.forall_mem_cons.mpr ⟨blank, all⟩, rfl⟩

theorem Gap.skip {t u : List Char} (gap : Gap t u) : skipBlanks t = skipBlanks u := by
  obtain ⟨blanks, all, rfl⟩ := gap
  exact List.dropWhile_append_of_pos all

/-- Blanks before a token. -/
theorem Gap.skip_token {t u : List Char} {c : Char} (gap : Gap t (c :: u))
    (token : isBlank c = false) : skipBlanks t = c :: u := by
  rw [gap.skip, skipBlanks_cons token]

theorem Gap.length_le {t u : List Char} (gap : Gap t u) : u.length ≤ t.length := by
  obtain ⟨blanks, -, rfl⟩ := gap
  rw [List.length_append]
  omega

theorem isBlank_iff {c : Char} : isBlank c = true ↔ c = ' ' ∨ c = '\n' ∨ c = '\t' ∨ c = '\r' := by
  simp [isBlank, or_assoc]

/-- Four hexadecimal digits of either case, and their value. -/
inductive SpelledCode : List Char → Nat → List Char → Prop
  | digits {w x y z : Char} {a b c d : Nat} {r : List Char} (first : hexValue? w = some a)
      (second : hexValue? x = some b) (third : hexValue? y = some c) (fourth : hexValue? z = some d) :
      SpelledCode (w :: x :: y :: z :: r) (((a * 16 + b) * 16 + c) * 16 + d) r

/-- Characters up to and including the closing quote. -/
inductive SpelledChars : List Char → List Char → List Char → Prop
  | close {r : List Char} : SpelledChars ('"' :: r) [] r
  | plain {c : Char} {t ds r : List Char} (printed : 0x20 ≤ c.toNat) (quote : c ≠ '"')
      (backslash : c ≠ '\\') (later : SpelledChars t ds r) : SpelledChars (c :: t) (c :: ds) r
  | short {letter c : Char} {t ds r : List Char} (means : shortEscape? letter = some c)
      (later : SpelledChars t ds r) : SpelledChars ('\\' :: letter :: t) (c :: ds) r
  | code {c : Char} {t u ds r : List Char} (code : SpelledCode t c.toNat u)
      (later : SpelledChars u ds r) : SpelledChars ('\\' :: 'u' :: t) (c :: ds) r
  | pair {c : Char} {high low : Nat} {t u v ds r : List Char}
      (first : SpelledCode t (0xD800 + high) ('\\' :: 'u' :: u))
      (second : SpelledCode u (0xDC00 + low) v) (large : high < 0x400) (small : low < 0x400)
      (value : c.toNat = 0x10000 + high * 0x400 + low) (later : SpelledChars v ds r) :
      SpelledChars ('\\' :: 'u' :: t) (c :: ds) r

/-- Characters up to and including the closing quote, whatever their codes stand for. -/
inductive GrammaticalChars : List Char → List Char → Prop
  | close {r : List Char} : GrammaticalChars ('"' :: r) r
  | plain {c : Char} {t r : List Char} (printed : 0x20 ≤ c.toNat) (quote : c ≠ '"')
      (backslash : c ≠ '\\') (later : GrammaticalChars t r) : GrammaticalChars (c :: t) r
  | short {letter c : Char} {t r : List Char} (means : shortEscape? letter = some c)
      (later : GrammaticalChars t r) : GrammaticalChars ('\\' :: letter :: t) r
  | code {n : Nat} {t u r : List Char} (code : SpelledCode t n u) (later : GrammaticalChars u r) :
      GrammaticalChars ('\\' :: 'u' :: t) r

theorem SpelledChars.grammatical {t ds r : List Char} (spelled : SpelledChars t ds r) :
    GrammaticalChars t r := by
  induction spelled with
  | close => exact .close
  | plain printed quote backslash later ih => exact .plain printed quote backslash ih
  | short means later ih => exact .short means ih
  | code code later ih => exact .code code ih
  | pair first second large small value later ih => exact .code first (.code second ih)

/-- Characters that stand for themselves. -/
theorem SpelledChars.unescaped (cs : List Char)
    (each : ∀ c ∈ cs, 0x20 ≤ c.toNat ∧ c ≠ '"' ∧ c ≠ '\\') {t ds r : List Char}
    (later : SpelledChars t ds r) : SpelledChars (cs ++ t) (cs ++ ds) r := by
  induction cs with
  | nil => exact later
  | cons c cs ih =>
    obtain ⟨printed, quote, backslash⟩ := each c List.mem_cons_self
    exact .plain printed quote backslash (ih fun d inside => each d (List.mem_cons_of_mem c inside))

theorem SpelledCode.read {t r : List Char} {n : Nat} (spelled : SpelledCode t n r) :
    readHex4 t = .ok (n, r) := by
  cases spelled with
  | digits first second third fourth => simp [readHex4, first, second, third, fourth]

theorem SpelledCode.length {t r : List Char} {n : Nat} (spelled : SpelledCode t n r) :
    t.length = r.length + 4 := by
  cases spelled with
  | digits => rfl

/-- A letter that is escaped is not the mark of a code. -/
theorem ne_of_shortEscape? {letter c : Char} (means : shortEscape? letter = some c) :
    letter ≠ 'u' := by
  rintro rfl
  cases means

theorem toNat_scalar (c : Char) : isLowSurrogate c.toNat = false ∧ isHighSurrogate c.toNat = false := by
  have valid : c.toNat < 0xD800 ∨ 0xDFFF < c.toNat ∧ c.toNat < 0x110000 := c.valid
  simp only [isLowSurrogate, isHighSurrogate, Bool.and_eq_false_iff, decide_eq_false_iff_not]
  omega

theorem readCode_pair {c : Char} {high low : Nat} {t u v : List Char}
    (first : SpelledCode t (0xD800 + high) ('\\' :: 'u' :: u))
    (second : SpelledCode u (0xDC00 + low) v) (large : high < 0x400) (small : low < 0x400)
    (value : c.toNat = 0x10000 + high * 0x400 + low) : readCode t = .ok (c, v) := by
  have notLow : isLowSurrogate (0xD800 + high) = false := by
    simp only [isLowSurrogate, Bool.and_eq_false_iff, decide_eq_false_iff_not]
    omega
  have isHigh : isHighSurrogate (0xD800 + high) = true := by
    simp only [isHighSurrogate, Bool.and_eq_true, decide_eq_true_eq]
    omega
  have isLow : isLowSurrogate (0xDC00 + low) = true := by
    simp only [isLowSurrogate, Bool.and_eq_true, decide_eq_true_eq]
    omega
  have sum : (0xD800 + high - 0xD800) * 0x400 + (0xDC00 + low - 0xDC00) + 0x10000 = c.toNat := by
    omega
  have follows : readLowSurrogate ('\\' :: 'u' :: u) = .ok (0xDC00 + low, v) := by
    rw [readLowSurrogate, second.read, ok_bind]
    exact if_pos isLow
  rw [readCode, first.read, ok_bind]
  simp only [notLow, isHigh, Bool.false_eq_true, if_false, if_true, follows, ok_bind, sum,
    Char.ofNat_toNat]
  rfl

/-- The characters are found in every spelling. -/
theorem SpelledChars.read {t ds r : List Char} (spelled : SpelledChars t ds r) (fuel : Nat)
    (enough : t.length ≤ fuel) : readChars fuel t = .ok (ds, r) := by
  have apart : '\\' ≠ '"' := by decide
  induction spelled generalizing fuel with
  | close =>
    obtain ⟨fuel, rfl⟩ : ∃ k, fuel = k + 1 := ⟨fuel - 1, by simp at enough; omega⟩
    rw [readChars, if_pos rfl]
  | plain printed quote backslash later ih =>
    obtain ⟨fuel, rfl⟩ : ∃ k, fuel = k + 1 := ⟨fuel - 1, by simp at enough; omega⟩
    rw [readChars, if_neg quote, if_neg backslash, if_neg (by omega),
      ih fuel (by simpa using enough), ok_bind]
    rfl
  | short means later ih =>
    obtain ⟨fuel, rfl⟩ : ∃ k, fuel = k + 1 := ⟨fuel - 1, by simp at enough; omega⟩
    have tail := ih fuel (by simp at enough; omega)
    rw [readChars, if_neg apart, if_pos rfl, readEscape, if_neg (ne_of_shortEscape? means)]
    simp only [means, ok_bind, tail]
    rfl
  | @code c t u ds r code later ih =>
    obtain ⟨fuel, rfl⟩ : ∃ k, fuel = k + 1 := ⟨fuel - 1, by simp at enough; omega⟩
    have size := code.length
    have tail := ih fuel (by simp at enough; omega)
    have scalar := toNat_scalar c
    have read : readCode t = .ok (c, u) := by
      rw [readCode, code.read, ok_bind]
      simp only [scalar, Bool.false_eq_true, if_false, Char.ofNat_toNat]
      rfl
    rw [readChars, if_neg apart, if_pos rfl, readEscape, if_pos rfl, read, ok_bind]
    simp only [tail, ok_bind]
    rfl
  | pair first second large small value later ih =>
    obtain ⟨fuel, rfl⟩ : ∃ k, fuel = k + 1 := ⟨fuel - 1, by simp at enough; omega⟩
    have size := first.length
    have size' := second.length
    have tail := ih fuel (by simp at enough size; omega)
    rw [readChars, if_neg apart, if_pos rfl, readEscape, if_pos rfl,
      readCode_pair first second large small value, ok_bind]
    simp only [tail, ok_bind]
    rfl

/-- A text without its opening quote. -/
def SpelledText (t : List Char) (s : String) (r : List Char) : Prop := SpelledChars t s.toList r

theorem SpelledText.read {t r : List Char} {s : String} (spelled : SpelledText t s r) (fuel : Nat)
    (enough : t.length ≤ fuel) : readText fuel t = .ok (s, r) := by
  rw [readText, SpelledChars.read spelled fuel enough, ok_bind]
  simp only [String.ofList_toList]
  rfl

theorem GrammaticalChars.length_lt {t r : List Char} (chars : GrammaticalChars t r) :
    r.length < t.length := by
  induction chars with
  | close => simp
  | plain _ _ _ _ ih => simp only [List.length_cons]; omega
  | short _ _ ih => simp only [List.length_cons]; omega
  | code code _ ih =>
    have size := code.length
    simp only [List.length_cons]
    omega

theorem SpelledText.length_lt {t r : List Char} {s : String} (spelled : SpelledText t s r) :
    r.length < t.length :=
  (SpelledChars.grammatical spelled).length_lt

theorem GrammaticalChars.skip {t r : List Char} (chars : GrammaticalChars t r) (fuel : Nat)
    (enough : t.length ≤ fuel) : skipText fuel t = .ok r := by
  induction chars generalizing fuel with
  | close =>
    obtain ⟨fuel, rfl⟩ : ∃ k, fuel = k + 1 := ⟨fuel - 1, by simp at enough; omega⟩
    simp [skipText]
  | @plain c t r printed quote backslash later ih =>
    obtain ⟨fuel, rfl⟩ : ∃ k, fuel = k + 1 := ⟨fuel - 1, by simp at enough; omega⟩
    have control : ¬ c.toNat < 0x20 := by omega
    rw [skipText.eq_def]
    simp only [quote, backslash, control, if_false]
    exact ih fuel (by simpa using enough)
  | @short letter c t r means later ih =>
    obtain ⟨fuel, rfl⟩ : ∃ k, fuel = k + 1 := ⟨fuel - 1, by simp at enough; omega⟩
    have tail := ih fuel (by simp at enough; omega)
    rw [skipText, if_neg (by decide), if_pos rfl, means,
      if_pos Option.isSome_some, tail]
    exact ne_of_shortEscape? means
  | code code later ih =>
    obtain ⟨fuel, rfl⟩ : ∃ k, fuel = k + 1 := ⟨fuel - 1, by simp at enough; omega⟩
    have size := code.length
    rw [skipText, if_neg (by decide), if_pos rfl]
    simp only [code.read, ok_bind]
    exact ih fuel (by simp at enough; omega)

theorem hexValue?_ne {w : Char} {a : Nat} (digit : hexValue? w = some a) : w ≠ '\\' ∧ w ≠ '"' := by
  constructor
  · rintro rfl
    cases digit
  · rintro rfl
    cases digit

theorem SpelledCode.run {t r : List Char} {n : Nat} (spelled : SpelledCode t n r)
    (level deepest : Nat) :
    Scan.run ⟨.quoted, level, deepest⟩ t = Scan.run ⟨.quoted, level, deepest⟩ r := by
  cases spelled with
  | digits first second third fourth =>
    simp [Scan.step, hexValue?_ne first, hexValue?_ne second, hexValue?_ne third,
      hexValue?_ne fourth]

/-- Nothing between quotes counts. -/
theorem GrammaticalChars.run {t r : List Char} (chars : GrammaticalChars t r) (level deepest : Nat) :
    Scan.run ⟨.quoted, level, deepest⟩ t = Scan.run ⟨.outside, level, deepest⟩ r := by
  have escape : ∀ (letter : Char) (t : List Char),
      Scan.run ⟨.quoted, level, deepest⟩ ('\\' :: letter :: t) =
        Scan.run ⟨.quoted, level, deepest⟩ t := fun _ _ => rfl
  induction chars with
  | close => rfl
  | plain printed quote backslash later ih =>
    rw [Scan.run_cons, ← ih]
    simp [Scan.step, quote, backslash]
  | short means later ih => rw [escape, ih]
  | code code later ih => rw [escape, code.run, ih]

/-- Digits, and no zero in front of others. -/
structure Whole (ds : List Char) : Prop where
  some_digit : ds ≠ []
  digits : ∀ c ∈ ds, c.isDigit = true
  proper : ds.head? = some '0' → ds.length = 1

/-- What does not continue digits. -/
def NoDigit (r : List Char) : Prop := ∀ c, r.head? = some c → c.isDigit = false

theorem Stops.noDigit {r : List Char} (stops : Stops r) : NoDigit r := fun c head => (stops c head).1

theorem Stops.noPoint {r : List Char} (stops : Stops r) : r.head? ≠ some '.' :=
  fun head => (stops '.' head).2.1 rfl

theorem noDigit_cons {c : Char} (other : c.isDigit = false) (r : List Char) : NoDigit (c :: r) := by
  intro d head
  cases head
  exact other

theorem whole_toDigits (n : Nat) : Whole (Nat.toDigits 10 n) := by
  refine ⟨Nat.toDigits_ne_nil, isDigit_toDigits n, ?_⟩
  intro zero
  rw [toDigits_head zero]
  rfl

/-- An exponent, from its mark on. -/
inductive SpelledExponent : List Char → Int → List Char → Prop
  | plain {mark : Char} {ds r : List Char} (marks : mark = 'e' ∨ mark = 'E') (some_digit : ds ≠ [])
      (digits : ∀ c ∈ ds, c.isDigit = true) (ends : NoDigit r) :
      SpelledExponent (mark :: (ds ++ r)) (ds.foldl (fun n c => n * 10 + digitValue c) 0 : Nat) r
  | plus {mark : Char} {ds r : List Char} (marks : mark = 'e' ∨ mark = 'E') (some_digit : ds ≠ [])
      (digits : ∀ c ∈ ds, c.isDigit = true) (ends : NoDigit r) :
      SpelledExponent (mark :: '+' :: (ds ++ r))
        (ds.foldl (fun n c => n * 10 + digitValue c) 0 : Nat) r
  | minus {mark : Char} {ds r : List Char} (marks : mark = 'e' ∨ mark = 'E') (some_digit : ds ≠ [])
      (digits : ∀ c ∈ ds, c.isDigit = true) (ends : NoDigit r) :
      SpelledExponent (mark :: '-' :: (ds ++ r))
        (-(ds.foldl (fun n c => n * 10 + digitValue c) 0 : Nat)) r

/-- A number without its sign: its digits before and after the point, and its exponent if it has one. -/
inductive Numeral : List Char → List Char → List Char → Option Int → List Char → Prop
  | whole {whole r : List Char} (front : Whole whole) (stops : Stops r) :
      Numeral (whole ++ r) whole [] none r
  | scaled {whole t r : List Char} {e : Int} (front : Whole whole) (scale : SpelledExponent t e r) :
      Numeral (whole ++ t) whole [] (some e) r
  | broken {whole fraction r : List Char} (front : Whole whole) (some_digit : fraction ≠ [])
      (digits : ∀ c ∈ fraction, c.isDigit = true) (stops : Stops r) :
      Numeral (whole ++ '.' :: (fraction ++ r)) whole fraction none r
  | scaledBroken {whole fraction t r : List Char} {e : Int} (front : Whole whole)
      (some_digit : fraction ≠ []) (digits : ∀ c ∈ fraction, c.isDigit = true)
      (scale : SpelledExponent t e r) :
      Numeral (whole ++ '.' :: (fraction ++ t)) whole fraction (some e) r

/-- A number that is read as a decimal, without its sign: it is no integer of 64 bits, and no larger
than the finite doubles. -/
def SpelledDecimal (negative : Bool) (t : List Char) (d : Decimal) (r : List Char) : Prop :=
  ∃ whole fraction exponent, d = ofParts negative whole fraction (exponent.getD 0) ∧
    Numeral t whole fraction exponent r ∧
    (fraction = [] → exponent = none → ∀ n, ofInteger negative whole ≠ .integer n) ∧
    d.toDouble?.isSome = true

/-- A number that is read as a decimal. -/
inductive SpelledNumber : List Char → Decimal → List Char → Prop
  | plain {t r : List Char} {d : Decimal} (number : SpelledDecimal false t d r) : SpelledNumber t d r
  | negative {t r : List Char} {d : Decimal} (number : SpelledDecimal true t d r) :
      SpelledNumber ('-' :: t) d r

theorem takeWhile_digits {ds r : List Char} (digits : ∀ c ∈ ds, c.isDigit = true)
    (ends : NoDigit r) : (ds ++ r).takeWhile Char.isDigit = ds := by
  rw [List.takeWhile_append_of_pos digits]
  cases r with
  | nil => simp
  | cons c cs => simp [ends c rfl]

theorem dropWhile_digits {ds r : List Char} (digits : ∀ c ∈ ds, c.isDigit = true)
    (ends : NoDigit r) : (ds ++ r).dropWhile Char.isDigit = r := by
  rw [List.dropWhile_append_of_pos digits]
  cases r with
  | nil => rfl
  | cons c cs => simp [ends c rfl]

theorem SpelledExponent.noDigit {t r : List Char} {e : Int} (spelled : SpelledExponent t e r) :
    NoDigit t ∧ t.head? ≠ some '.' := by
  cases spelled with
  | plain marks => rcases marks with rfl | rfl <;> exact ⟨noDigit_cons rfl _, by simp⟩
  | plus marks => rcases marks with rfl | rfl <;> exact ⟨noDigit_cons rfl _, by simp⟩
  | minus marks => rcases marks with rfl | rfl <;> exact ⟨noDigit_cons rfl _, by simp⟩

/-- The digits of an exponent. -/
theorem exponent_digits {ds r : List Char} (some_digit : ds ≠ [])
    (digits : ∀ c ∈ ds, c.isDigit = true) (ends : NoDigit r) :
    ∃ c cs, ds ++ r = c :: cs ∧ c.isDigit = true ∧ (ds ++ r).takeWhile Char.isDigit = ds ∧
      (ds ++ r).dropWhile Char.isDigit = r := by
  obtain ⟨c, cs, rfl⟩ := List.exists_cons_of_ne_nil some_digit
  exact ⟨c, cs ++ r, rfl, digits c List.mem_cons_self, takeWhile_digits digits ends,
    dropWhile_digits digits ends⟩

theorem SpelledExponent.finish {t r : List Char} {e : Int} (spelled : SpelledExponent t e r)
    (negative : Bool) (whole fraction : List Char) (isInteger : Bool)
    (finite : (ofParts negative whole fraction e).toDouble?.isSome = true) :
    finishNumber negative whole fraction isInteger t =
      .ok (.decimal (ofParts negative whole fraction e), r) := by
  have last : ∀ {mark : Char} {u : List Char}, (mark = 'e' ∨ mark = 'E') →
      readExponent u = .ok (e, r) →
      finishNumber negative whole fraction isInteger (mark :: u) =
        .ok (.decimal (ofParts negative whole fraction e), r) := by
    intro mark u marks read
    have value : checked (ofParts negative whole fraction e) =
        .ok (.decimal (ofParts negative whole fraction e)) := if_pos finite
    rcases marks with rfl | rfl
    all_goals
      simp only [finishNumber, read, ok_bind, value]
      rfl
  cases spelled with
  | plain marks some_digit digits ends =>
    obtain ⟨c, cs, text, digit, taken, left⟩ := exponent_digits some_digit digits ends
    refine last marks ?_
    have plus : c ≠ '+' := ne_of_isDigit digit rfl
    have minus : c ≠ '-' := ne_of_isDigit digit rfl
    rw [text] at taken left ⊢
    simp [readExponent, plus, minus, digit, taken, left, pure, Except.pure]
  | plus marks some_digit digits ends =>
    obtain ⟨c, cs, text, digit, taken, left⟩ := exponent_digits some_digit digits ends
    refine last marks ?_
    rw [text] at taken left ⊢
    simp [readExponent, digit, taken, left, pure, Except.pure]
  | minus marks some_digit digits ends =>
    obtain ⟨c, cs, text, digit, taken, left⟩ := exponent_digits some_digit digits ends
    refine last marks ?_
    rw [text] at taken left ⊢
    simp [readExponent, digit, taken, left, pure, Except.pure]

/-- The end of a number without an exponent. -/
theorem finishNumber_stops (negative : Bool) (whole fraction : List Char) (isInteger : Bool)
    {r : List Char} (stops : Stops r) :
    finishNumber negative whole fraction isInteger r =
      if isInteger then
        match ofInteger negative whole with
        | .decimal d => do return (← checked d, r)
        | j => .ok (j, r)
      else do return (← checked (ofParts negative whole fraction 0), r) := by
  unfold finishNumber
  split
  · exact absurd rfl (stops 'e' rfl).2.2.1
  · exact absurd rfl (stops 'E' rfl).2.2.2
  · rfl

/-- A whole part that no fraction follows. -/
theorem Whole.readNumber {whole t : List Char} (front : Whole whole) (negative : Bool)
    (ends : NoDigit t) (point : t.head? ≠ some '.') :
    readNumber negative (whole ++ t) = finishNumber negative whole [] true t := by
  have taken := takeWhile_digits front.digits ends
  have left := dropWhile_digits front.digits ends
  obtain ⟨c, cs, rfl⟩ := List.exists_cons_of_ne_nil front.some_digit
  have digit := front.digits c List.mem_cons_self
  have proper : ¬ (c = '0' ∧ (c :: cs).length ≠ 1) := by
    rintro ⟨rfl, long⟩
    exact long (front.proper rfl)
  rw [List.cons_append] at taken left ⊢
  simp only [Json.readNumber, digit, taken, left, if_neg proper, Bool.not_true, Bool.false_eq_true,
    if_false]
  split
  · exact absurd rfl point
  · rfl

/-- A whole part and a fraction. -/
theorem Whole.readNumber_point {whole fraction t : List Char} (front : Whole whole)
    (negative : Bool) (some_digit : fraction ≠ []) (digits : ∀ c ∈ fraction, c.isDigit = true)
    (ends : NoDigit t) :
    Json.readNumber negative (whole ++ '.' :: (fraction ++ t)) =
      finishNumber negative whole fraction false t := by
  have point : NoDigit ('.' :: (fraction ++ t)) := noDigit_cons rfl _
  have taken := takeWhile_digits front.digits point
  have left := dropWhile_digits front.digits point
  have some_fraction : fraction.isEmpty = false := by simpa using some_digit
  obtain ⟨c, cs, rfl⟩ := List.exists_cons_of_ne_nil front.some_digit
  have digit := front.digits c List.mem_cons_self
  have proper : ¬ (c = '0' ∧ (c :: cs).length ≠ 1) := by
    rintro ⟨rfl, long⟩
    exact long (front.proper rfl)
  rw [List.cons_append] at taken left ⊢
  simp only [Json.readNumber, digit, taken, left, if_neg proper, Bool.not_true, Bool.false_eq_true,
    if_false, takeWhile_digits digits ends, dropWhile_digits digits ends, some_fraction]

/-- Digits make an integer of 64 bits, or else a decimal. -/
theorem ofInteger_cases (negative : Bool) (whole : List Char) :
    (∃ n, ofInteger negative whole = .integer n) ∨
      ofInteger negative whole = .decimal (ofParts negative whole [] 0) := by
  unfold ofInteger
  split
  · split
    · split
      · exact Or.inr rfl
      · exact Or.inl ⟨_, rfl⟩
    · exact Or.inl ⟨_, rfl⟩
  · exact Or.inr rfl

theorem SpelledDecimal.read {negative : Bool} {t r : List Char} {d : Decimal}
    (spelled : SpelledDecimal negative t d r) : readNumber negative t = .ok (.decimal d, r) := by
  obtain ⟨whole, fraction, exponent, rfl, numeral, beyond, finite⟩ := spelled
  cases numeral with
  | whole front stops =>
    have value : ofInteger negative whole = .decimal (ofParts negative whole [] 0) := by
      rcases ofInteger_cases negative whole with ⟨n, integer⟩ | decimal
      · exact absurd integer (beyond rfl rfl n)
      · exact decimal
    rw [front.readNumber negative stops.noDigit stops.noPoint, finishNumber_stops _ _ _ _ stops, if_pos rfl,
      value]
    have made : checked (ofParts negative whole [] 0) = .ok (.decimal (ofParts negative whole [] 0)) :=
      if_pos finite
    simp only [made, ok_bind]
    rfl
  | scaled front scale =>
    rw [front.readNumber negative scale.noDigit.1 scale.noDigit.2]
    exact scale.finish negative _ [] true finite
  | broken front some_digit digits stops =>
    have made : checked (ofParts negative whole fraction 0) =
        .ok (.decimal (ofParts negative whole fraction 0)) := if_pos finite
    rw [front.readNumber_point negative some_digit digits stops.noDigit,
      finishNumber_stops _ _ _ _ stops, if_neg (by simp), made]
    rfl
  | scaledBroken front some_digit digits scale =>
    rw [front.readNumber_point negative some_digit digits scale.noDigit.1]
    exact scale.finish negative _ _ false finite

/-- What a number is spelled with. -/
def numeric (c : Char) : Prop := c.isDigit = true ∨ c = '.' ∨ c = 'e' ∨ c = 'E' ∨ c = '+' ∨ c = '-'

theorem SpelledExponent.numeric {t r : List Char} {e : Int} (spelled : SpelledExponent t e r) :
    ∃ front, t = front ++ r ∧ ∀ c ∈ front, Json.numeric c := by
  cases spelled with
  | @plain mark ds _ marks _ digits =>
    refine ⟨mark :: ds, rfl, ?_⟩
    rintro c (_ | ⟨_, member⟩)
    · rcases marks with rfl | rfl <;> simp [Json.numeric]
    · exact Or.inl (digits c member)
  | @plus mark ds _ marks _ digits =>
    refine ⟨mark :: '+' :: ds, rfl, ?_⟩
    rintro c (_ | ⟨_, _ | ⟨_, member⟩⟩)
    · rcases marks with rfl | rfl <;> simp [Json.numeric]
    · simp [Json.numeric]
    · exact Or.inl (digits c member)
  | @minus mark ds _ marks _ digits =>
    refine ⟨mark :: '-' :: ds, rfl, ?_⟩
    rintro c (_ | ⟨_, _ | ⟨_, member⟩⟩)
    · rcases marks with rfl | rfl <;> simp [Json.numeric]
    · simp [Json.numeric]
    · exact Or.inl (digits c member)

/-- The text begins with a digit. -/
def Whole.Leads (front : List Char) : Prop := ∃ c cs, front = c :: cs ∧ c.isDigit = true

theorem Whole.leads {whole : List Char} (front : Whole whole) (t : List Char) :
    Leads (whole ++ t) := by
  obtain ⟨c, cs, rfl⟩ := List.exists_cons_of_ne_nil front.some_digit
  exact ⟨c, cs ++ t, rfl, front.digits c List.mem_cons_self⟩

theorem Whole.numeric {whole : List Char} (front : Whole whole) : ∀ c ∈ whole, Json.numeric c :=
  fun c member => Or.inl (front.digits c member)

/-- A number stands in front of what is left. -/
theorem Numeral.numeric {t whole fraction r : List Char} {exponent : Option Int}
    (numeral : Numeral t whole fraction exponent r) :
    ∃ front, t = front ++ r ∧ Whole.Leads front ∧ ∀ c ∈ front, Json.numeric c := by
  cases numeral with
  | whole front => exact ⟨whole, rfl, by simpa using front.leads [], front.numeric⟩
  | scaled front scale =>
    obtain ⟨last, rfl, each⟩ := scale.numeric
    refine ⟨whole ++ last, by rw [List.append_assoc], front.leads last, ?_⟩
    intro c member
    rcases List.mem_append.mp member with member | member
    · exact front.numeric c member
    · exact each c member
  | broken front _ digits =>
    refine ⟨whole ++ '.' :: fraction, by simp, front.leads _, ?_⟩
    intro c member
    rcases List.mem_append.mp member with member | _ | ⟨_, member⟩
    · exact front.numeric c member
    · simp [Json.numeric]
    · exact Or.inl (digits c member)
  | scaledBroken front _ digits scale =>
    obtain ⟨last, rfl, each⟩ := scale.numeric
    refine ⟨whole ++ '.' :: (fraction ++ last), by simp, front.leads _, ?_⟩
    intro c member
    rcases List.mem_append.mp member with member | _ | ⟨_, member⟩
    · exact front.numeric c member
    · simp [Json.numeric]
    · rcases List.mem_append.mp member with member | member
      · exact Or.inl (digits c member)
      · exact each c member

theorem skipDigits_append {ds r : List Char} (some_digit : ds ≠ [])
    (digits : ∀ c ∈ ds, c.isDigit = true) (ends : NoDigit r) : skipDigits (ds ++ r) = .ok r := by
  obtain ⟨c, cs, rfl⟩ := List.exists_cons_of_ne_nil some_digit
  have tail := dropWhile_digits (fun d member => digits d (List.mem_cons_of_mem c member)) ends
  rw [List.cons_append, skipDigits, if_pos (digits c List.mem_cons_self), tail]

theorem skipExponent_stops {r : List Char} (stops : Stops r) : skipExponent r = .ok r := by
  unfold skipExponent
  split
  · exact absurd rfl (stops 'e' rfl).2.2.1
  · exact absurd rfl (stops 'E' rfl).2.2.2
  · exact absurd rfl (stops 'e' rfl).2.2.1
  · exact absurd rfl (stops 'E' rfl).2.2.2
  · exact absurd rfl (stops 'e' rfl).2.2.1
  · exact absurd rfl (stops 'E' rfl).2.2.2
  · rfl

theorem SpelledExponent.skip {t r : List Char} {e : Int} (spelled : SpelledExponent t e r) :
    skipExponent t = .ok r := by
  cases spelled with
  | plain marks some_digit digits ends =>
    obtain ⟨c, cs, text, digit, -⟩ := exponent_digits some_digit digits ends
    have plus : c ≠ '+' := ne_of_isDigit digit rfl
    have minus : c ≠ '-' := ne_of_isDigit digit rfl
    have skipped := skipDigits_append some_digit digits ends
    rw [text] at skipped ⊢
    rcases marks with rfl | rfl <;> simp [skipExponent, plus, minus, skipped]
  | plus marks some_digit digits ends =>
    rcases marks with rfl | rfl <;> exact skipDigits_append some_digit digits ends
  | minus marks some_digit digits ends =>
    rcases marks with rfl | rfl <;> exact skipDigits_append some_digit digits ends

/-- Digits after a zero are told from the text that is left. -/
theorem Whole.proper_length {whole : List Char} (front : Whole whole) (t : List Char) :
    ¬ ((whole ++ t).head? = some '0' ∧ t.length + 1 ≠ (whole ++ t).length) := by
  rintro ⟨zero, long⟩
  obtain ⟨c, cs, rfl⟩ := List.exists_cons_of_ne_nil front.some_digit
  have single := front.proper zero
  simp only [List.length_cons, List.cons_append, List.length_append] at long single
  omega

/-- A whole part that no fraction follows. -/
theorem Whole.skip {whole t : List Char} (front : Whole whole) (ends : NoDigit t)
    (point : t.head? ≠ some '.') : skipNumber (whole ++ t) = skipExponent t := by
  rw [skipNumber, skipDigits_append front.some_digit front.digits ends, ok_bind]
  simp only [if_neg (front.proper_length t)]
  split
  · exact absurd rfl point
  · rfl

/-- A whole part and a fraction. -/
theorem Whole.skip_point {whole fraction t : List Char} (front : Whole whole)
    (some_digit : fraction ≠ []) (digits : ∀ c ∈ fraction, c.isDigit = true) (ends : NoDigit t) :
    skipNumber (whole ++ '.' :: (fraction ++ t)) = skipExponent t := by
  rw [skipNumber, skipDigits_append front.some_digit front.digits (noDigit_cons rfl _), ok_bind]
  simp only [if_neg (front.proper_length _), skipDigits_append some_digit digits ends, ok_bind]

theorem Numeral.skip {t whole fraction r : List Char} {exponent : Option Int}
    (numeral : Numeral t whole fraction exponent r) : skipNumber t = .ok r := by
  cases numeral with
  | whole front stops =>
    rw [front.skip stops.noDigit stops.noPoint, skipExponent_stops stops]
  | scaled front scale => rw [front.skip scale.noDigit.1 scale.noDigit.2, scale.skip]
  | broken front some_digit digits stops =>
    rw [front.skip_point some_digit digits stops.noDigit, skipExponent_stops stops]
  | scaledBroken front some_digit digits scale =>
    rw [front.skip_point some_digit digits scale.noDigit.1, scale.skip]

theorem Gap.run {t u : List Char} (gap : Gap t u) (level deepest : Nat) :
    Scan.run ⟨.outside, level, deepest⟩ t = Scan.run ⟨.outside, level, deepest⟩ u := by
  obtain ⟨blanks, all, rfl⟩ := gap
  rw [Scan.run_append, Scan.run_plain]
  intro c member
  rcases isBlank_iff.mp (all c member) with rfl | rfl | rfl | rfl <;> decide

theorem run_numeric {front : List Char} (each : ∀ c ∈ front, numeric c) (level deepest : Nat)
    (r : List Char) :
    Scan.run ⟨.outside, level, deepest⟩ (front ++ r) = Scan.run ⟨.outside, level, deepest⟩ r := by
  rw [Scan.run_append, Scan.run_plain]
  intro c member
  rcases each c member with digit | rfl | rfl | rfl | rfl | rfl
  · have other : ∀ d, d.isDigit = false → c ≠ d := fun d => ne_of_isDigit digit
    exact ⟨other _ rfl, other _ rfl, other _ rfl, other _ rfl, other _ rfl⟩
  all_goals decide

end ScriptEngine.Json
