import ScriptEngine.Proofs.Documents

/-!
# Documents that were cut off

The document of a program, cut off anywhere before its end, has ended too early: it is never read as
another program, is not malformed, and has no shape that could be wrong. A number that is cut off may be
read as a shorter number; but then the text ends where the object around it goes on.
-/

namespace ScriptEngine

namespace Json

/-- The text was cut off somewhere before its end, and `p` is left. -/
def Cuts (p text : List Char) : Prop := ∃ c rest, text = p ++ c :: rest

theorem not_cuts_nil {p : List Char} : ¬ Cuts p [] := by
  rintro ⟨c, rest, same⟩
  simp at same

theorem Cuts.cons {p text : List Char} {c : Char} (cuts : Cuts p (c :: text)) :
    p = [] ∨ ∃ q, p = c :: q ∧ Cuts q text := by
  obtain ⟨d, rest, same⟩ := cuts
  cases p with
  | nil => exact Or.inl rfl
  | cons e q =>
    obtain ⟨rfl, tail⟩ := List.cons.inj same
    exact Or.inr ⟨q, rfl, d, rest, tail⟩

/-- A cut goes through the first part, or leaves it whole and goes through the second. -/
theorem Cuts.append {p text text' : List Char} (cuts : Cuts p (text ++ text')) :
    Cuts p text ∨ ∃ q, p = text ++ q ∧ Cuts q text' := by
  induction text generalizing p with
  | nil => exact Or.inr ⟨p, rfl, cuts⟩
  | cons c text ih =>
    rcases cuts.cons with rfl | ⟨q, rfl, inner⟩
    · exact Or.inl ⟨c, text, rfl⟩
    · rcases ih inner with ⟨d, rest, rfl⟩ | ⟨q', rfl, later⟩
      · exact Or.inl ⟨d, rest, rfl⟩
      · exact Or.inr ⟨q', rfl, later⟩

theorem Cuts.singleton {p : List Char} {c : Char} (cuts : Cuts p [c]) : p = [] := by
  rcases cuts.cons with rfl | ⟨q, -, inner⟩
  · rfl
  · exact absurd inner not_cuts_nil

theorem stops_nil : Stops [] := by
  intro c head
  cases head

theorem Stops.cut {p text : List Char} (stops : Stops text) (cuts : Cuts p text) : Stops p := by
  obtain ⟨c, rest, rfl⟩ := cuts
  intro d head
  cases p with
  | nil => cases head
  | cons e q => exact stops d head

/-- The text ended, or was read to its end. -/
def Exhausted {α : Type} (r : Reading (α × List Char)) : Prop :=
  r = .error .ended ∨ ∃ a, r = .ok (a, [])

theorem Exhausted.bind {α β : Type} {r : Reading (α × List Char)} {f : α × List Char → Reading β}
    (exhausted : Exhausted r) (next : ∀ a, f (a, []) = .error .ended) :
    (r >>= f) = .error .ended := by
  rcases exhausted with rfl | ⟨a, rfl⟩
  · rfl
  · exact next a

theorem ended_bind {α β : Type} {r : Reading α} {f : α → Reading β} (ended : r = .error .ended) :
    (r >>= f) = .error .ended := by
  rw [ended]
  rfl

@[simp] theorem readItems_nil (fuel limit : Nat) (first : Bool) :
    readItems fuel limit first [] = .error .ended := by
  cases fuel <;> rfl

@[simp] theorem readMembers_nil (fuel limit : Nat) (first : Bool) :
    readMembers fuel limit first [] = .error .ended := by
  cases fuel <;> rfl

@[simp] theorem readValue_nil (fuel limit : Nat) : readValue fuel limit [] = .error .ended := by
  cases fuel <;> rfl

theorem readWord_cut {p word : List Char} (cuts : Cuts p word) :
    readWord word p = .error .ended := by
  induction word generalizing p with
  | nil => exact absurd cuts not_cuts_nil
  | cons c word ih =>
    rcases cuts.cons with rfl | ⟨q, rfl, inner⟩
    · rfl
    · rw [readWord, if_pos rfl]
      exact ih inner

theorem length_of_mapM_hexValue? {p : List Char} {ns : List Nat}
    (found : p.mapM hexValue? = some ns) : ns.length = p.length := by
  induction p generalizing ns with
  | nil =>
    cases found
    rfl
  | cons c cs ih =>
    simp only [List.mapM_cons, Option.bind_eq_bind, Option.bind_eq_some_iff] at found
    obtain ⟨n, -, ms, rest, same⟩ := found
    cases same
    rw [List.length_cons, List.length_cons, ih rest]

/-- Fewer than four digits. -/
theorem readHex4_short {p : List Char} (short : p.length < 4)
    (bytes : (String.ofList p).utf8ByteSize < 4) : readHex4 p = .error .ended := by
  rw [readHex4, List.take_of_length_le (by omega)]
  split
  · rename_i found
    have size := length_of_mapM_hexValue? found
    simp only [List.length_cons, List.length_nil] at size
    omega
  · rw [if_pos bytes]

theorem readHex4_cut {n : Nat} (control : n < 0x20) {p : List Char}
    (cuts : Cuts p (Text.hexDigits 4 n)) : readHex4 p = .error .ended := by
  have all : ∀ n < 0x20, ∀ k < 4,
      (String.ofList ((Text.hexDigits 4 n).take k)).utf8ByteSize < 4 := by decide +kernel
  obtain ⟨c, rest, same⟩ := cuts
  have short : p.length < 4 := by
    have size := congrArg List.length same
    simp only [hexDigits_control control, List.length_append, List.length_cons, List.length_nil]
      at size
    omega
  have bytes := all n control p.length short
  rw [same, List.take_left] at bytes
  exact readHex4_short short bytes

/-- A cut within the way a character is written. -/
theorem readChars_cutChar {c : Char} {p : List Char} (cuts : Cuts p (escapeChar c)) (fuel : Nat) :
    readChars fuel p = .error .ended := by
  cases fuel with
  | zero => rfl
  | succ fuel =>
    rcases escapeChar_cases c with ⟨letter, written, -⟩ | ⟨control, written⟩ | ⟨-, -, -, written⟩
    · rw [written] at cuts
      rcases cuts.cons with rfl | ⟨q, rfl, inner⟩
      · rfl
      · rw [inner.singleton]
        rfl
    · rw [written] at cuts
      rcases cuts.cons with rfl | ⟨q, rfl, inner⟩
      · rfl
      rcases inner.cons with rfl | ⟨q, rfl, digits⟩
      · rfl
      have code : readEscape ('u' :: q) = .error .ended := by
        rw [readEscape, if_pos rfl, readCode, readHex4_cut control digits]
        rfl
      rw [readChars, if_neg (by decide), if_pos rfl, code]
      rfl
    · rw [written] at cuts
      rw [cuts.singleton]
      rfl

theorem readChars_cut (ds : List Char) {p : List Char}
    (cuts : Cuts p (ds.flatMap escapeChar ++ ['"'])) (fuel : Nat) :
    readChars fuel p = .error .ended := by
  induction ds generalizing p fuel with
  | nil =>
    rw [cuts.singleton]
    cases fuel <;> rfl
  | cons d ds ih =>
    rw [List.flatMap_cons, List.append_assoc] at cuts
    rcases cuts.append with short | ⟨q, rfl, later⟩
    · exact readChars_cutChar short fuel
    · cases fuel with
      | zero => rfl
      | succ fuel =>
        rw [readChars_char]
        exact ended_bind (ih later fuel)

/-- A key is cut off, or what follows it. -/
theorem readKey_cut {β : Type} {key : String} {more p : List Char} {fuel : Nat}
    {f : String × List Char → Reading β}
    (cuts : Cuts p (key.toList.flatMap escapeChar ++ '"' :: more)) (enough : p.length ≤ fuel)
    (later : ∀ q, q.length < p.length → Cuts q more → f (key, q) = .error .ended) :
    (readText fuel p >>= f) = .error .ended := by
  rw [← List.singleton_append, ← List.append_assoc] at cuts
  rcases cuts.append with short | ⟨q, rfl, rest⟩
  · exact ended_bind (ended_bind (readChars_cut _ short fuel))
  · have written := length_flatMap_escapeChar key.toList
    simp only [List.append_assoc, List.singleton_append, List.length_append, List.length_cons]
      at enough later ⊢
    rw [readText_written _ _ (by omega)]
    exact later q (by omega) rest

theorem readColon_cut {β : Type} {more p : List Char} {f : List Char → Reading β}
    (cuts : Cuts p (':' :: more))
    (later : ∀ q, q.length < p.length → Cuts q more → f q = .error .ended) :
    (readColon p >>= f) = .error .ended := by
  rcases cuts.cons with rfl | ⟨q, rfl, rest⟩
  · rfl
  · rw [readColon_colon]
    exact later q (by simp) rest

/-- Digits that are left of a number make a smaller one. -/
theorem cuts_toDigits {n : Nat} {p : List Char} (cuts : Cuts p (Nat.toDigits 10 n)) :
    p = [] ∨ ∃ k, 0 < k ∧ k ≤ n ∧ p = Nat.toDigits 10 k := by
  induction n using Nat.strongRecOn with
  | ind n ih =>
    rw [Nat.toDigits_eq_if (by omega)] at cuts
    split at cuts
    · exact Or.inl cuts.singleton
    · rename_i large
      rcases cuts.append with front | ⟨q, rfl, last⟩
      · rcases ih (n / 10) (by omega) front with rfl | ⟨k, positive, small, rfl⟩
        · exact Or.inl rfl
        · exact Or.inr ⟨k, positive, by omega, rfl⟩
      · rw [last.singleton, List.append_nil]
        exact Or.inr ⟨n / 10, by omega, by omega, rfl⟩

/-- What is left of a number is nothing, its sign, or a number nearer to zero. -/
theorem cuts_integer {n : Int} {p : List Char} (cuts : Cuts p (write (.integer n))) :
    p = [] ∨ (n < 0 ∧ p = ['-']) ∨
      ∃ k : Int, (0 ≤ k ∧ k ≤ n ∨ n ≤ k ∧ k < 0) ∧ p = write (.integer k) := by
  rw [write_integer] at cuts
  by_cases negative : n < 0
  · rw [if_pos negative] at cuts
    rcases cuts.cons with rfl | ⟨q, rfl, digits⟩
    · exact Or.inl rfl
    · rcases cuts_toDigits digits with rfl | ⟨k, positive, small, rfl⟩
      · exact Or.inr (Or.inl ⟨negative, rfl⟩)
      · have size : (-(k : Int)).natAbs = k := by omega
        refine Or.inr (Or.inr ⟨-k, Or.inr (by omega), ?_⟩)
        rw [write_integer, if_pos (by omega), size]
  · rw [if_neg negative] at cuts
    rcases cuts_toDigits cuts with rfl | ⟨k, positive, small, rfl⟩
    · exact Or.inl rfl
    · refine Or.inr (Or.inr ⟨k, Or.inl (by omega), ?_⟩)
      rw [write_integer, if_neg (by omega), Int.natAbs_natCast]

theorem readValue_cutInteger {n : Int} (least : -0x8000000000000000 ≤ n)
    (most : n ≤ 0xFFFFFFFFFFFFFFFF) {p : List Char} (cuts : Cuts p (write (.integer n)))
    (fuel limit : Nat) : Exhausted (readValue fuel limit p) := by
  cases fuel with
  | zero => exact Or.inl rfl
  | succ fuel =>
    rcases cuts_integer cuts with rfl | ⟨-, rfl⟩ | ⟨k, between, rfl⟩
    · exact Or.inl rfl
    · exact Or.inl rfl
    · have whole := readValue_integer (n := k) (by omega) (by omega) fuel limit stops_nil
      rw [List.append_nil] at whole
      exact Or.inr ⟨_, whole⟩

/-- The step to a key after a comma. -/
theorem nextKey_cut {p body : List Char} (cuts : Cuts p (',' :: '"' :: body)) :
    nextKey false p = .error .ended ∨
      ∃ q, nextKey false p = .ok (some q) ∧ q.length < p.length ∧ Cuts q body := by
  rcases cuts.cons with rfl | ⟨q, rfl, inner⟩
  · exact Or.inl rfl
  rcases inner.cons with rfl | ⟨q, rfl, rest⟩
  · exact Or.inl rfl
  · exact Or.inr ⟨q, nextKey_later q, by simp only [List.length_cons]; omega, rest⟩

/-- The step to the first key. -/
theorem nextKey_cutFirst {p body : List Char} (cuts : Cuts p ('"' :: body)) :
    nextKey true p = .error .ended ∨
      ∃ q, nextKey true p = .ok (some q) ∧ q.length < p.length ∧ Cuts q body := by
  rcases cuts.cons with rfl | ⟨q, rfl, rest⟩
  · exact Or.inl rfl
  · exact Or.inr ⟨q, nextKey_first q, by simp, rest⟩

/-- What is left of an item is nothing, or begins as the item does. -/
theorem Exact.cut_head {j : Json} (exact : j.Exact) {p more : List Char}
    (cuts : Cuts p (j.write ++ more)) :
    p = [] ∨ ∃ c q, p = c :: q ∧ isBlank c = false ∧ c ≠ ']' ∧ c ≠ ',' := by
  obtain ⟨c, cs, written, blank, close, comma⟩ := exact.write_head
  rw [written, List.cons_append] at cuts
  rcases cuts.cons with rfl | ⟨q, rfl, -⟩
  · exact Or.inl rfl
  · exact Or.inr ⟨c, q, rfl, blank, close, comma⟩

/-- The step to an item after a comma. -/
theorem Exact.nextItem_cut {j : Json} (exact : j.Exact) {p more : List Char}
    (cuts : Cuts p (',' :: (j.write ++ more))) :
    nextItem false p = .error .ended ∨
      ∃ q, nextItem false p = .ok (some q) ∧ q.length < p.length ∧ Cuts q (j.write ++ more) := by
  rcases cuts.cons with rfl | ⟨q, rfl, rest⟩
  · exact Or.inl rfl
  rcases exact.cut_head rest with rfl | ⟨c, q, rfl, blank, close, -⟩
  · exact Or.inl rfl
  · have mark : isBlank ',' = false := rfl
    refine Or.inr ⟨c :: q, ?_, by simp, rest⟩
    simp [nextItem, skipBlanks, blank, close, mark]

/-- The step to the first item. -/
theorem Exact.nextItem_cutFirst {j : Json} (exact : j.Exact) {p more : List Char}
    (cuts : Cuts p (j.write ++ more)) :
    nextItem true p = .error .ended ∨ nextItem true p = .ok (some p) := by
  rcases exact.cut_head cuts with rfl | ⟨c, q, rfl, blank, close, comma⟩
  · exact Or.inl rfl
  · refine Or.inr ?_
    simp [nextItem, skipBlanks, blank, close, comma]

/-- Of the tree's text, cut off, nothing is left after reading. -/
def Starves (j : Json) : Prop :=
  ∀ (fuel limit : Nat) (p : List Char), Cuts p j.write → j.depth ≤ limit → 2 * p.length < fuel →
    Exhausted (readValue fuel limit p)

/-- A value is cut off, or what follows it. -/
theorem Starves.bind {β : Type} {j : Json} (starves : j.Starves) (exact : j.Exact)
    {fuel limit : Nat} {p more : List Char} {f : Json × List Char → Reading β}
    (cuts : Cuts p (j.write ++ more)) (stops : Stops more) (fits : j.depth ≤ limit)
    (enough : 2 * p.length < fuel) (nothing : ∀ i, f (i, []) = .error .ended)
    (later : ∀ q, q.length < p.length → Cuts q more → f (j, q) = .error .ended) :
    (readValue fuel limit p >>= f) = .error .ended := by
  rcases cuts.append with short | ⟨q, rfl, rest⟩
  · exact (starves fuel limit p short fits enough).bind nothing
  · obtain ⟨c, cs, written, -⟩ := exact.write_head
    have some_written : 1 ≤ j.write.length := by simp [written]
    rw [List.length_append] at enough later
    rw [exact.reads fuel limit q (by omega) (stops.cut rest), upTo, if_pos fits]
    exact later q (by omega) rest

/-- One item and the items after it. -/
theorem readItems_cutStep {first : Bool} {text p more : List Char} {j : Json} {fuel limit : Nat}
    (exact : j.Exact) (starves : j.Starves) (next : nextItem first text = .ok (some p))
    (cuts : Cuts p (j.write ++ more)) (stops : Stops more) (fits : j.depth ≤ limit)
    (enough : 2 * p.length < fuel)
    (tail : ∀ q, q.length < p.length → Cuts q more → readItems fuel limit false q = .error .ended) :
    readItems (fuel + 1) limit first text = .error .ended := by
  rw [readItems, next, ok_bind]
  refine starves.bind exact cuts stops fits enough ?_ ?_
  · intro i
    exact ended_bind (readItems_nil fuel limit false)
  · intro q shorter rest
    exact ended_bind (tail q shorter rest)

theorem readItems_cutMore {items : List Json} (exact : ∀ j ∈ items, j.Exact)
    (starves : ∀ j ∈ items, j.Starves) {fuel limit : Nat} {p : List Char}
    (cuts : Cuts p (writeMoreItems items ++ [']'])) (fits : depthItems items ≤ limit)
    (enough : 2 * p.length < fuel) : readItems fuel limit false p = .error .ended := by
  induction items generalizing p fuel with
  | nil => rw [cuts.singleton, readItems_nil]
  | cons j js ih =>
    obtain ⟨fuel, rfl⟩ : ∃ k, fuel = k + 1 := ⟨fuel - 1, by omega⟩
    have first := exact j List.mem_cons_self
    rw [depthItems, Nat.max_le] at fits
    rw [writeMoreItems_cons] at cuts
    rcases first.nextItem_cut cuts with ended | ⟨q, next, shorter, rest⟩
    · rw [readItems, ended]
      rfl
    · refine readItems_cutStep first (starves j List.mem_cons_self) next rest
        (stops_moreItems js []) fits.1 (by omega) ?_
      intro q' shorter' rest'
      exact ih (fun k member => exact k (List.mem_cons_of_mem _ member))
        (fun k member => starves k (List.mem_cons_of_mem _ member)) rest' fits.2 (by omega)

theorem readItems_cut {items : List Json} (exact : ∀ j ∈ items, j.Exact)
    (starves : ∀ j ∈ items, j.Starves) {fuel limit : Nat} {p : List Char}
    (cuts : Cuts p (writeItems items ++ [']'])) (fits : depthItems items ≤ limit)
    (enough : 2 * p.length + 1 < fuel) : readItems fuel limit true p = .error .ended := by
  cases items with
  | nil => rw [cuts.singleton, readItems_nil]
  | cons j js =>
    obtain ⟨fuel, rfl⟩ : ∃ k, fuel = k + 1 := ⟨fuel - 1, by omega⟩
    have first := exact j List.mem_cons_self
    rw [depthItems, Nat.max_le] at fits
    rw [writeItems_cons, List.append_assoc] at cuts
    rcases first.nextItem_cutFirst cuts with ended | next
    · rw [readItems, ended]
      rfl
    · refine readItems_cutStep first (starves j List.mem_cons_self) next cuts
        (stops_moreItems js []) fits.1 (by omega) ?_
      intro q shorter rest
      exact readItems_cutMore (fun k member => exact k (List.mem_cons_of_mem _ member))
        (fun k member => starves k (List.mem_cons_of_mem _ member)) rest fits.2 (by omega)

/-- One member and the members after it. -/
theorem readMembers_cutStep {first : Bool} {text p more : List Char} {m : String × Json}
    {fuel limit : Nat} (exact : m.2.Exact) (starves : m.2.Starves)
    (next : nextKey first text = .ok (some p))
    (cuts : Cuts p (m.1.toList.flatMap escapeChar ++ '"' :: ':' :: (m.2.write ++ more)))
    (stops : Stops more) (fits : m.2.depth ≤ limit) (enough : 2 * p.length < fuel)
    (tail : ∀ q, q.length < p.length → Cuts q more →
      readMembers fuel limit false q = .error .ended) :
    readMembers (fuel + 1) limit first text = .error .ended := by
  rw [readMembers, next, ok_bind]
  refine readKey_cut cuts (by omega) ?_
  intro q shorter rest
  refine readColon_cut rest ?_
  intro q' shorter' rest'
  refine starves.bind exact rest' stops fits (by omega) ?_ ?_
  · intro i
    exact ended_bind (readMembers_nil fuel limit false)
  · intro q'' shorter'' rest''
    exact ended_bind (tail q'' (by omega) rest'')

theorem readMembers_cutMore {members : List (String × Json)} (exact : ∀ m ∈ members, m.2.Exact)
    (starves : ∀ m ∈ members, m.2.Starves) {fuel limit : Nat} {p : List Char}
    (cuts : Cuts p (writeMoreMembers members ++ ['\x7d'])) (fits : depthMembers members ≤ limit)
    (enough : 2 * p.length < fuel) : readMembers fuel limit false p = .error .ended := by
  induction members generalizing p fuel with
  | nil => rw [cuts.singleton, readMembers_nil]
  | cons m ms ih =>
    obtain ⟨fuel, rfl⟩ : ∃ k, fuel = k + 1 := ⟨fuel - 1, by omega⟩
    rw [depthMembers, Nat.max_le] at fits
    rw [writeMoreMembers_cons, writeMember_append] at cuts
    rcases nextKey_cut cuts with ended | ⟨q, next, shorter, rest⟩
    · rw [readMembers, ended]
      rfl
    · refine readMembers_cutStep (exact m List.mem_cons_self) (starves m List.mem_cons_self) next
        rest (stops_moreMembers ms []) fits.1 (by omega) ?_
      intro q' shorter' rest'
      exact ih (fun k member => exact k (List.mem_cons_of_mem _ member))
        (fun k member => starves k (List.mem_cons_of_mem _ member)) rest' fits.2 (by omega)

theorem readMembers_cut {members : List (String × Json)} (exact : ∀ m ∈ members, m.2.Exact)
    (starves : ∀ m ∈ members, m.2.Starves) {fuel limit : Nat} {p : List Char}
    (cuts : Cuts p (writeMembers members ++ ['\x7d'])) (fits : depthMembers members ≤ limit)
    (enough : 2 * p.length < fuel) : readMembers fuel limit true p = .error .ended := by
  cases members with
  | nil => rw [cuts.singleton, readMembers_nil]
  | cons m ms =>
    obtain ⟨fuel, rfl⟩ : ∃ k, fuel = k + 1 := ⟨fuel - 1, by omega⟩
    rw [depthMembers, Nat.max_le] at fits
    rw [writeMembers_cons, List.append_assoc, writeMember_append] at cuts
    rcases nextKey_cutFirst cuts with ended | ⟨q, next, shorter, rest⟩
    · rw [readMembers, ended]
      rfl
    · refine readMembers_cutStep (exact m List.mem_cons_self) (starves m List.mem_cons_self) next
        rest (stops_moreMembers ms []) fits.1 (by omega) ?_
      intro q' shorter' rest'
      exact readMembers_cutMore (fun k member => exact k (List.mem_cons_of_mem _ member))
        (fun k member => starves k (List.mem_cons_of_mem _ member)) rest' fits.2 (by omega)

/-- No text of a tree is read past a cut. -/
theorem Exact.starves {j : Json} (exact : j.Exact) : j.Starves := by
  induction exact with
  | null =>
    intro fuel limit p cuts _ enough
    obtain ⟨fuel, rfl⟩ : ∃ k, fuel = k + 1 := ⟨fuel - 1, by omega⟩
    rw [write] at cuts
    rcases cuts.cons with rfl | ⟨q, rfl, rest⟩
    · exact Or.inl rfl
    · exact Or.inl (ended_bind (readWord_cut rest))
  | bool b =>
    intro fuel limit p cuts _ enough
    obtain ⟨fuel, rfl⟩ : ∃ k, fuel = k + 1 := ⟨fuel - 1, by omega⟩
    cases b with
    | true =>
      rw [write] at cuts
      rcases cuts.cons with rfl | ⟨q, rfl, rest⟩
      · exact Or.inl rfl
      · exact Or.inl (ended_bind (readWord_cut rest))
    | false =>
      rw [write] at cuts
      rcases cuts.cons with rfl | ⟨q, rfl, rest⟩
      · exact Or.inl rfl
      · exact Or.inl (ended_bind (readWord_cut rest))
  | integer least most =>
    intro fuel limit p cuts _ _
    exact readValue_cutInteger least most cuts fuel limit
  | text s =>
    intro fuel limit p cuts _ enough
    obtain ⟨fuel, rfl⟩ : ∃ k, fuel = k + 1 := ⟨fuel - 1, by omega⟩
    rw [write, writeText] at cuts
    rcases cuts.cons with rfl | ⟨q, rfl, rest⟩
    · exact Or.inl rfl
    · exact Or.inl (ended_bind (ended_bind (readChars_cut _ rest fuel)))
  | @array items each ih =>
    intro fuel limit p cuts fits enough
    obtain ⟨fuel, rfl⟩ : ∃ k, fuel = k + 1 := ⟨fuel - 1, by omega⟩
    rw [depth] at fits
    obtain ⟨limit, rfl⟩ : ∃ k, limit = k + 1 := ⟨limit - 1, by omega⟩
    rw [write, List.cons_append] at cuts
    rcases cuts.cons with rfl | ⟨q, rfl, rest⟩
    · exact Or.inl rfl
    · rw [List.length_cons] at enough
      exact Or.inl (ended_bind (readItems_cut each ih rest (by omega) (by omega)))
  | @object members each ih =>
    intro fuel limit p cuts fits enough
    obtain ⟨fuel, rfl⟩ : ∃ k, fuel = k + 1 := ⟨fuel - 1, by omega⟩
    rw [depth] at fits
    obtain ⟨limit, rfl⟩ : ∃ k, limit = k + 1 := ⟨limit - 1, by omega⟩
    rw [write, List.cons_append] at cuts
    rcases cuts.cons with rfl | ⟨q, rfl, rest⟩
    · exact Or.inl rfl
    · rw [List.length_cons] at enough
      exact Or.inl (ended_bind (readMembers_cut each ih rest (by omega) (by omega)))

end Json

namespace Document

open Json (Reading Cuts Exhausted ended_bind ok_bind readKey_cut readColon_cut nextKey_cut nextKey_cutFirst
  Stops write writeMember writeMoreMembers writeMoreItems escapeChar)

theorem wrongType_nil {α : Type} (fuel : Nat) (expected : String) :
    wrongType fuel expected [] = (.error .ended : Reading α) :=
  ended_bind (Json.readValue_nil fuel 0)

theorem readTagged_nil (fuel limit : Nat) (first : Bool) (kind : Option Kind) :
    readTagged fuel limit first kind [] = .error .ended := by
  cases fuel <;> rfl

theorem readBlockMembers_nil (fuel limit : Nat) (first : Bool) (instrs : Option (List Expr))
    (line : Option UInt32) : readBlockMembers fuel limit first instrs line [] = .error .ended := by
  cases fuel <;> rfl

theorem readInstrs_nil (fuel limit : Nat) (first : Bool) :
    readInstrs fuel limit first [] = .error .ended := by
  cases fuel <;> rfl

theorem readKind_cut {kind : Kind} {p : List Char} (cuts : Cuts p (write (.text kind.name)))
    (fuel : Nat) : readKind fuel p = .error .ended := by
  rw [write, Json.writeText] at cuts
  rcases cuts.cons with rfl | ⟨q, rfl, rest⟩
  · exact wrongType_nil fuel kindExpected
  · exact ended_bind (ended_bind (Json.readChars_cut _ rest fuel))

/-- The members of a node after its kind. -/
theorem readTagged_cutMore {fields : List (String × Json)} (keys : ∀ m ∈ fields, m.1 ≠ kindKey)
    (exact : ∀ m ∈ fields, m.2.Exact) (kind : Kind) {fuel limit : Nat} {p : List Char}
    (cuts : Cuts p (writeMoreMembers fields ++ ['\x7d'])) (fits : Json.depthMembers fields ≤ limit)
    (enough : 2 * p.length < fuel) :
    readTagged fuel limit false (some kind) p = .error .ended := by
  induction fields generalizing p fuel with
  | nil => rw [cuts.singleton, readTagged_nil]
  | cons m ms ih =>
    obtain ⟨fuel, rfl⟩ : ∃ k, fuel = k + 1 := ⟨fuel - 1, by omega⟩
    rw [Json.depthMembers, Nat.max_le] at fits
    rw [Json.writeMoreMembers_cons, Json.writeMember_append] at cuts
    rcases nextKey_cut cuts with ended | ⟨q, next, shorter, rest⟩
    · rw [readTagged, ended]
      rfl
    have value := exact m List.mem_cons_self
    rw [readTagged, next, ok_bind]
    refine readKey_cut rest (by omega) ?_
    intro q' shorter' rest'
    dsimp only
    rw [if_neg (keys m List.mem_cons_self)]
    refine readColon_cut rest' ?_
    intro q'' shorter'' rest''
    refine value.starves.bind value rest'' (Json.stops_moreMembers ms []) fits.1 (by omega) ?_ ?_
    · intro i
      exact ended_bind (readTagged_nil fuel limit false (some kind))
    · intro r shorter_r rest_r
      dsimp only
      exact ended_bind (ih (fun k member => keys k (List.mem_cons_of_mem _ member))
        (fun k member => exact k (List.mem_cons_of_mem _ member)) rest_r fits.2 (by omega))

/-- The members of a node. -/
theorem readTagged_cut {fields : List (String × Json)} (keys : ∀ m ∈ fields, m.1 ≠ kindKey)
    (exact : ∀ m ∈ fields, m.2.Exact) (kind : Kind) {fuel limit : Nat} {p : List Char}
    (cuts : Cuts p (Json.writeMembers (("kind", .text kind.name) :: fields) ++ ['\x7d']))
    (fits : Json.depthMembers fields ≤ limit) (enough : 2 * p.length < fuel) :
    readTagged fuel limit true none p = .error .ended := by
  obtain ⟨fuel, rfl⟩ : ∃ k, fuel = k + 1 := ⟨fuel - 1, by omega⟩
  have same : "kind" = kindKey := rfl
  rw [Json.writeMembers_cons, List.append_assoc, Json.writeMember_append] at cuts
  rcases nextKey_cutFirst cuts with ended | ⟨q, next, shorter, rest⟩
  · rw [readTagged, ended]
    rfl
  rw [readTagged, next, ok_bind]
  refine readKey_cut rest (by omega) ?_
  intro q' shorter' rest'
  dsimp only
  rw [if_pos same]
  refine readColon_cut rest' ?_
  intro q'' shorter'' rest''
  rcases rest''.append with short | ⟨r, rfl, later⟩
  · exact ended_bind (readKind_cut short fuel)
  · have name := Json.length_le_writeText kind.name
    simp only [List.length_append, write] at shorter''
    rw [readKind_written kind r (by omega), ok_bind]
    dsimp only
    exact readTagged_cutMore keys exact kind later fits (by omega)

/-- An expression that is cut off. -/
theorem readExpr_cut (e : Expr) {fuel limit : Nat} {p : List Char} (cuts : Cuts p e.toJson.write)
    (fits : e.toJson.depth ≤ limit) (enough : 2 * p.length < fuel) :
    readExpr fuel limit p = .error .ended := by
  obtain ⟨fields, written⟩ := e.written
  rw [written.node, Kind.node] at cuts fits
  rw [Json.depth, Json.depthMembers, Nat.add_one_le_iff] at fits
  obtain ⟨limit, rfl⟩ : ∃ k, limit = k + 1 := ⟨limit - 1, by omega⟩
  rw [write, List.cons_append] at cuts
  rcases cuts.cons with rfl | ⟨q, rfl, rest⟩
  · exact wrongType_nil fuel nodeExpected
  · rw [List.length_cons] at enough
    exact ended_bind (readTagged_cut written.keys written.exact e.kind rest (by omega) (by omega))

/-- One instruction and the instructions after it. -/
theorem readInstrs_cutStep {first : Bool} {text p more : List Char} {e : Expr} {fuel limit : Nat}
    (next : Json.nextItem first text = .ok (some p)) (cuts : Cuts p (e.toJson.write ++ more))
    (fits : e.toJson.depth ≤ limit) (enough : 2 * p.length < fuel)
    (tail : ∀ q, q.length < p.length → Cuts q more →
      readInstrs fuel limit false q = .error .ended) :
    readInstrs (fuel + 1) limit first text = .error .ended := by
  rw [readInstrs, next, ok_bind]
  rcases cuts.append with short | ⟨q, rfl, later⟩
  · exact ended_bind (readExpr_cut e short fits enough)
  · obtain ⟨c, cs, head, -⟩ := e.exact_toJson.write_head
    have some_written : 1 ≤ e.toJson.write.length := by simp [head]
    rw [List.length_append] at enough tail
    dsimp only
    rw [readExpr_written e fuel limit q (by omega), Json.upTo, if_pos fits, ok_bind]
    exact ended_bind (tail q (by omega) later)

theorem readInstrs_cutMore (es : List Expr) {fuel limit : Nat} {p : List Char}
    (cuts : Cuts p (writeMoreItems (toJsonAll es) ++ [']']))
    (fits : Json.depthItems (toJsonAll es) ≤ limit) (enough : 2 * p.length < fuel) :
    readInstrs fuel limit false p = .error .ended := by
  induction es generalizing p fuel with
  | nil => rw [cuts.singleton, readInstrs_nil]
  | cons e es ih =>
    obtain ⟨fuel, rfl⟩ : ∃ k, fuel = k + 1 := ⟨fuel - 1, by omega⟩
    rw [toJsonAll, Json.depthItems, Nat.max_le] at fits
    rw [toJsonAll, Json.writeMoreItems_cons] at cuts
    rcases e.exact_toJson.nextItem_cut cuts with ended | ⟨q, next, shorter, rest⟩
    · rw [readInstrs, ended]
      rfl
    · refine readInstrs_cutStep next rest fits.1 (by omega) ?_
      intro q' shorter' rest'
      exact ih rest' fits.2 (by omega)

/-- Instructions that are cut off. -/
theorem readBody_cut (es : List Expr) {fuel limit : Nat} {p : List Char}
    (cuts : Cuts p (write (.array (toJsonAll es))))
    (fits : Json.depth (.array (toJsonAll es)) ≤ limit) (enough : 2 * p.length < fuel) :
    readBody fuel limit p = .error .ended := by
  rw [Json.depth] at fits
  obtain ⟨limit, rfl⟩ : ∃ k, limit = k + 1 := ⟨limit - 1, by omega⟩
  rw [write, List.cons_append] at cuts
  rcases cuts.cons with rfl | ⟨q, rfl, rest⟩
  · exact wrongType_nil fuel "a sequence"
  rw [List.length_cons] at enough
  show readInstrs fuel limit true q = .error .ended
  cases es with
  | nil =>
    have nothing : q = [] := rest.singleton
    rw [nothing, readInstrs_nil]
  | cons e es =>
    obtain ⟨fuel, rfl⟩ : ∃ k, fuel = k + 1 := ⟨fuel - 1, by omega⟩
    rw [toJsonAll, Json.depthItems, Nat.add_one_le_iff, Nat.lt_add_one_iff, Nat.max_le] at fits
    rw [toJsonAll, Json.writeItems_cons, List.append_assoc] at rest
    rcases e.exact_toJson.nextItem_cutFirst rest with ended | next
    · rw [readInstrs, ended]
      rfl
    · refine readInstrs_cutStep next rest fits.1 (by omega) ?_
      intro q' shorter' rest'
      exact readInstrs_cutMore es rest' fits.2 (by omega)

/-- A line that is cut off may be taken for a smaller one. -/
theorem readLine_cut {line : UInt32} {p : List Char} (cuts : Cuts p (write (.ofLine line)))
    (fuel : Nat) : Exhausted (readLine fuel p) := by
  have small := line.toNat_lt
  rcases Json.cuts_integer cuts with rfl | ⟨negative, -⟩ | ⟨k, between, rfl⟩
  · exact Or.inl rfl
  · omega
  · have back : ((UInt32.ofNat k.toNat).toNat : Int) = k := by
      rw [UInt32.toNat_ofNat_of_lt' (by rw [UInt32.size]; omega)]
      omega
    have whole := readLine_written (UInt32.ofNat k.toNat) fuel Json.stops_nil
    rw [List.append_nil, Json.ofLine, back] at whole
    exact Or.inr ⟨_, whole⟩

/-- The line of a block, after its instructions. -/
theorem readBlockMembers_cutLine (instrs : List Expr) {line : UInt32} {fuel limit : Nat}
    {p : List Char} (cuts : Cuts p (writeMoreMembers [("line", .ofLine line)] ++ ['\x7d']))
    (enough : 2 * p.length < fuel) :
    readBlockMembers fuel limit false (some instrs) none p = .error .ended := by
  obtain ⟨fuel, rfl⟩ : ∃ k, fuel = k + 1 := ⟨fuel - 1, by omega⟩
  rw [Json.writeMoreMembers_cons, Json.writeMember_append] at cuts
  rcases nextKey_cut cuts with ended | ⟨q, next, shorter, rest⟩
  · rw [readBlockMembers, ended]
    rfl
  rw [readBlockMembers, next, ok_bind]
  refine readKey_cut rest (by omega) ?_
  intro q' shorter' rest'
  dsimp only
  rw [if_neg (by decide), if_pos rfl, if_neg (by simp)]
  refine readColon_cut rest' ?_
  intro q'' _ rest''
  rcases rest''.append with short | ⟨r, rfl, brace⟩
  · refine (readLine_cut short fuel).bind ?_
    intro other
    exact readBlockMembers_nil ..
  · have nothing : r = [] := brace.singleton
    rw [nothing, readLine_written line fuel Json.stops_nil, ok_bind]
    exact readBlockMembers_nil ..

/-- The outermost block, cut off. -/
theorem readBlock_cut (b : Block) {fuel limit : Nat} {p : List Char} (cuts : Cuts p b.toJson.write)
    (fits : b.toJson.depth ≤ limit) (enough : 2 * p.length < fuel) :
    readBlock fuel limit p = .error .ended := by
  obtain ⟨instrs, line⟩ := b
  rw [Block.toJson, Block.fields] at cuts fits
  rw [Json.depth, Json.depthMembers] at fits
  obtain ⟨limit, rfl⟩ : ∃ k, limit = k + 1 := ⟨limit - 1, by omega⟩
  rw [write, List.cons_append] at cuts
  rcases cuts.cons with rfl | ⟨q, rfl, rest⟩
  · exact wrongType_nil fuel "struct Block"
  rw [List.length_cons] at enough
  obtain ⟨fuel, rfl⟩ : ∃ k, fuel = k + 1 := ⟨fuel - 1, by omega⟩
  show readBlockMembers (fuel + 1) limit true none none q = .error .ended
  rw [Json.writeMembers_cons, List.append_assoc, Json.writeMember_append] at rest
  rcases nextKey_cutFirst rest with ended | ⟨q', next, shorter, rest'⟩
  · rw [readBlockMembers, ended]
    rfl
  rw [readBlockMembers, next, ok_bind]
  refine readKey_cut rest' (by omega) ?_
  intro r shorter_r rest_r
  dsimp only
  rw [if_pos rfl, if_neg (by simp)]
  refine readColon_cut rest_r ?_
  intro r' shorter_r' rest_r'
  rcases rest_r'.append with short | ⟨s, rfl, later⟩
  · exact ended_bind (readBody_cut instrs short (by omega) (by omega))
  · simp only [List.length_append] at shorter_r'
    rw [readBody_written instrs fuel limit s (by omega), Json.upTo, if_pos (by omega), ok_bind]
    dsimp only
    exact readBlockMembers_cutLine instrs later (by omega)

end Document

theorem Json.cuts_of_prefix {p text : List Char} (front : p <+: text) (proper : p ≠ text) :
    Json.Cuts p text := by
  obtain ⟨rest, rfl⟩ := front
  cases rest with
  | nil => exact absurd (List.append_nil p).symm proper
  | cons c cs => exact ⟨c, cs, rfl⟩

/-- If the document of a program nests at most 127 arrays and objects, then a text that is only the beginning
of it, the empty text included, is refused because it ends too early, and the machine is left as it was. -/
theorem cut_documents_never_run (b : Block) (fits : Json.nesting b.render ≤ 127) (text : String)
    (front : text.toList <+: b.render.toList) (proper : text ≠ b.render) :
    Block.parse text = .error .ended ∧
      ∀ depth m, executeDocument depth text m = some (.error (.document .ended), m) := by
  have deep : b.toJson.depth ≤ Document.maxDepth := by
    have nested : Json.nesting b.render = b.toJson.depth := b.exact_toJson.nesting_render
    rw [← nested]
    exact fits
  have cuts : Json.Cuts text.toList b.toJson.write := by
    have whole : b.render.toList = b.toJson.write := by
      rw [Block.render, Json.render, String.toList_ofList]
    rw [← whole]
    exact Json.cuts_of_prefix front fun same => proper (String.toList_inj.mp same)
  have read : Block.parse text = .error .ended :=
    Json.ended_bind (Document.readBlock_cut b cuts deep (by rw [Json.fuelFor]; omega))
  refine ⟨read, ?_⟩
  intro depth m
  rw [executeDocument, read]

/-- The last line is cut from 10 to 1, and only the closing brace is missing beside. -/
theorem cut_documents_never_run_in_line :
    let b : Block := .mk [.literal (.text "\"\x01") 3] 10
    let text := "\x7b\"instrs\":[\x7b\"kind\":\"Literal\",\"value\":\"\\\"\\u0001\",\"line\":3\x7d],\"line\":1"
    Json.nesting b.render ≤ 127 ∧ text.toList <+: b.render.toList ∧ text ≠ b.render ∧
      Block.parse text = .error .ended ∧
      ∀ depth m, executeDocument depth text m = some (.error (.document .ended), m) := by
  intro b text
  have fits : Json.nesting b.render ≤ 127 := by decide +kernel
  have front : text.toList <+: b.render.toList := by decide +kernel
  have proper : text ≠ b.render := by decide +kernel
  exact ⟨fits, front, proper, cut_documents_never_run b fits text front proper⟩

end ScriptEngine
