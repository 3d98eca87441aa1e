import ScriptEngine.Proofs.Records
import ScriptEngine.Proofs.Spelling

/-!
# Forms of programs in documents

A program can be given in many forms: a record as an object, in any order and beside members that nobody
asks for, or as an array; a field with its default or without it; a node with its kind anywhere. Whatever
its form and however it is spelled, a document is read as the program that it is a form of.
-/

namespace ScriptEngine

open Json (Holding ItemsHold Parts named)

namespace Json

/-- A field that has to be there. -/
def Holding.required (name : String) (holds : Json → Prop) : Holding := ⟨name, holds, False⟩

/-- The line of a node. -/
def Holding.line (line : UInt32) : Holding := ⟨"line", fun j => j = .ofLine line, line = 0⟩

/-- A list whose items are as `holds` says. -/
def ListOf (holds : List Json → Prop) (j : Json) : Prop := ∃ items, j = .array items ∧ holds items

/-- A record without a kind. -/
def IsRecord (hs : List Holding) : Json → Prop
  | .object members => Parts.Hold hs (.members members)
  | .array items => Parts.Hold hs (.items items)
  | _ => False

end Json

/-- A node: its kind is anywhere among the members, or the first item. -/
def Kind.IsNode (kind : Kind) (hs : List Holding) : Json → Prop
  | .object members =>
      named kindKey members = [.text kind.name] ∧ Parts.Hold hs (.members members)
  | .array (.text name :: items) => name = kind.name ∧ Parts.Hold hs (.items items)
  | _ => False

mutual

/-- What a document may give for the fields of a node. -/
def Expr.holdings : Expr → List Holding
  | .block body => body.holdings
  | .literal value line => [.required "value" fun j => j = value.toJson, .line line]
  | .call callee args line =>
      [.required "qualifier" (callee.kind.IsNode callee.holdings),
        .required "args" (Json.ListOf (AreNodes args)), .line line]
  | .var name line => [.required "name" fun j => j = .text name, .line line]
  | .assign name value declares line =>
      [.required "name" fun j => j = .text name,
        .required "expr" (value.kind.IsNode value.holdings),
        .required "declaration" fun j => j = .bool declares, .line line]
  | .function name params body line =>
      [⟨"name", fun j => j = .ofText? name, name = none⟩,
        .required "parameters" fun j => j = .array (params.map .text),
        .required "body" (Json.IsRecord body.holdings), .line line]
  | .ret value line => [.required "expr" (value.kind.IsNode value.holdings), .line line]
  | .cond condition yes no line =>
      [.required "condition" (condition.kind.IsNode condition.holdings),
        .required "true_block" (Json.IsRecord yes.holdings),
        ⟨"false_block", Json.IsRecord no.holdings, no = .empty⟩, .line line]
  | .object entries line => [.required "entries" (Json.ListOf (AreEntries entries)), .line line]
  | .field receiver name line =>
      [.required "receiver" (receiver.kind.IsNode receiver.holdings),
        .required "name" fun j => j = .text name, .line line]
  | .setField receiver name value line =>
      [.required "receiver" (receiver.kind.IsNode receiver.holdings),
        .required "name" fun j => j = .text name,
        .required "expr" (value.kind.IsNode value.holdings), .line line]
  | .method receiver name args line =>
      [.required "receiver" (receiver.kind.IsNode receiver.holdings),
        .required "name" fun j => j = .text name,
        .required "args" (Json.ListOf (AreNodes args)), .line line]

def Block.holdings : Block → List Holding
  | .mk instrs line => [.required "instrs" (Json.ListOf (AreNodes instrs)), .line line]

/-- A list of nodes. -/
def AreNodes : List Expr → List Json → Prop
  | [], items => items = []
  | e :: es, items =>
      ∃ j rest, items = j :: rest ∧ e.kind.IsNode e.holdings j ∧ AreNodes es rest

/-- The pairs of an object literal. -/
def AreEntries : List (String × Expr) → List Json → Prop
  | [], items => items = []
  | (key, e) :: es, items =>
      ∃ j rest, items = .array [.text key, j] :: rest ∧ e.kind.IsNode e.holdings j ∧
        AreEntries es rest

end

/-- The tree is a form of the expression. -/
def Expr.Form (e : Expr) (j : Json) : Prop := e.kind.IsNode e.holdings j

/-- The tree is a form of the block. -/
def Block.Form (b : Block) (j : Json) : Prop := Json.IsRecord b.holdings j

/-- The members of a node beside its kind. -/
def others (members : List (String × Json)) : List (String × Json) :=
  members.filter fun m => m.1 ≠ kindKey

theorem others_cons_kind (v : Json) (members : List (String × Json)) :
    others ((kindKey, v) :: members) = others members := by
  simp [others]

theorem others_cons {key : String} (other : key ≠ kindKey) (v : Json)
    (members : List (String × Json)) :
    others ((key, v) :: members) = (key, v) :: others members := by
  simp [others, other]

theorem others_of_none {members : List (String × Json)} (none_there : named kindKey members = []) :
    others members = members := by
  rw [others, List.filter_eq_self]
  intro m member
  have absent := Json.named_eq_nil_iff.mp none_there
  have other : m.1 ≠ kindKey := fun same => absent (List.mem_map.mpr ⟨m, member, same⟩)
  simpa using other

theorem named_others {name : String} (other : name ≠ kindKey) (members : List (String × Json)) :
    named name (others members) = named name members := by
  rw [named, others, List.filter_filter, named]
  congr 1
  refine List.filter_congr fun m _ => ?_
  by_cases same : m.1 = name
  · simp [same, other]
  · simp [same]

theorem depth_others (members : List (String × Json)) :
    Json.depthMembers (others members) ≤ Json.depthMembers members := by
  induction members with
  | nil => exact Nat.le_refl _
  | cons m ms ih =>
    obtain ⟨key, v⟩ := m
    by_cases same : key = kindKey
    · subst same
      rw [others_cons_kind, Json.depthMembers]
      omega
    · rw [others_cons same, Json.depthMembers, Json.depthMembers]
      omega

theorem hold_others {hs : List Holding} (keys : ∀ h ∈ hs, h.name ≠ kindKey)
    {members : List (String × Json)} (hold : Parts.Hold hs (.members members)) :
    Parts.Hold hs (.members (others members)) := by
  intro h member
  rw [Holding.InMembers, named_others (keys h member)]
  exact hold h member

/-- The kind is found wherever it stands. -/
theorem splitKind_named {kind : Kind} {members : List (String × Json)}
    (only : named kindKey members = [.text kind.name]) :
    splitKind members none = .ok (kind, others members) := by
  induction members with
  | nil => cases only
  | cons m ms ih =>
    obtain ⟨key, v⟩ := m
    by_cases same : key = kindKey
    · subst same
      rw [Json.named_cons_same] at only
      obtain ⟨rfl, none_left⟩ := List.cons.inj only
      have rest : ∀ m ∈ ms, m.1 ≠ kindKey := by
        intro m member found
        exact Json.named_eq_nil_iff.mp none_left (List.mem_map.mpr ⟨m, member, found⟩)
      rw [splitKind, if_pos rfl, others_cons_kind, others_of_none none_left]
      simp only [Kind.ofJson, Kind.ofText_name]
      exact splitKind_other rest kind
    · rw [Json.named_cons_other same] at only
      simp only [splitKind, if_neg same, ih only, others_cons same]
      rfl

theorem Expr.keys_holdings (e : Expr) : ∀ h ∈ e.holdings, h.name ≠ kindKey := by
  cases e with
  | block body =>
    obtain ⟨instrs, line⟩ := body
    simp [Expr.holdings, Block.holdings, Holding.required, Holding.line, kindKey]
  | _ => simp [Expr.holdings, Holding.required, Holding.line, kindKey]

/-- The expression is found in parts that hold its fields. -/
def Expr.Decodes (e : Expr) : Prop :=
  ∀ (limit : Nat) (parts : Parts), parts.Hold e.holdings → parts.depth ≤ limit →
    decodeParts (decodeExpr limit) e.kind parts = .ok e

theorem Expr.Decodes.decode {e : Expr} (decodes : e.Decodes) {j : Json} {limit : Nat}
    (form : e.Form j) (fits : j.depth ≤ limit) : decodeExpr limit j = .ok e := by
  unfold Expr.Form Kind.IsNode at form
  split at form
  · rename_i members
    obtain ⟨only, hold⟩ := form
    rw [Json.depth] at fits
    obtain ⟨limit, rfl⟩ : ∃ k, limit = k + 1 := ⟨limit - 1, by omega⟩
    have less := depth_others members
    simp only [decodeExpr, splitKind_named only]
    exact decodes limit (.members (others members)) (hold_others e.keys_holdings hold)
      (show Json.depthMembers (others members) ≤ limit by omega)
  · rename_i name items
    obtain ⟨rfl, hold⟩ := form
    rw [Json.depth, Json.depthItems] at fits
    obtain ⟨limit, rfl⟩ : ∃ k, limit = k + 1 := ⟨limit - 1, by omega⟩
    simp only [decodeExpr, Kind.ofJson, Kind.ofText_name]
    exact decodes limit (.items items) hold (show Json.depthItems items ≤ limit by omega)
  · cases form

open Json.Row (Meets)

theorem meets_line (limit : Nat) (line : UInt32) :
    Meets limit (.field lineField .done) [.line line] (line, ()) := by
  refine .field rfl ?_ ?_ .done
  · rintro v rfl _
    simp only [lineField]
    exact asLine_ofLine line
  · rintro rfl
    rfl

theorem Json.Row.Meets.required {limit : Nat} {α : Type} {αs : List Type} {f : Json.FieldSpec α}
    {rest : Json.Row αs} {holds : Json → Prop} {hs : List Holding} {x : α} {xs : Json.Fields αs}
    (read : ∀ v, holds v → v.depth ≤ limit → f.read v = .ok x) (later : rest.Meets limit hs xs) :
    Meets limit (.field f rest) (.required f.name holds :: hs) (x, xs) :=
  .field rfl read False.elim later

/-- A field that holds one tree only. -/
theorem Json.Row.Meets.exactly {limit : Nat} {α : Type} {αs : List Type} {f : Json.FieldSpec α}
    {rest : Json.Row αs} {v : Json} {hs : List Holding} {x : α} {xs : Json.Fields αs}
    (read : f.read v = .ok x) (later : rest.Meets limit hs xs) :
    Meets limit (.field f rest) (.required f.name (fun j => j = v) :: hs) (x, xs) := by
  refine .required ?_ later
  rintro _ rfl _
  exact read

/-- A field that holds a node. -/
theorem Expr.Decodes.meets {e : Expr} (decodes : e.Decodes) {limit : Nat} {αs : List Type}
    {name : String} {rest : Json.Row αs} {hs : List Holding} {xs : Json.Fields αs}
    (later : rest.Meets limit hs xs) :
    Meets limit (.field { name, read := decodeExpr limit } rest)
      (.required name (e.kind.IsNode e.holdings) :: hs) (e, xs) :=
  .required (fun _ form fits => decodes.decode form fits) later

/-- A list of nodes that is decoded item by item. -/
def DecodesAll (es : List Expr) : Prop :=
  ∀ (limit : Nat) (items : List Json), AreNodes es items → Json.depthItems items ≤ limit →
    items.mapM (decodeExpr limit) = .ok es

theorem DecodesAll.meets {es : List Expr} (decodes : DecodesAll es) {limit : Nat} {αs : List Type}
    {name : String} {rest : Json.Row αs} {hs : List Holding} {xs : Json.Fields αs}
    (later : rest.Meets limit hs xs) :
    Meets limit (.field { name, read := Json.asList (decodeExpr limit) } rest)
      (.required name (Json.ListOf (AreNodes es)) :: hs) (es, xs) := by
  refine .required ?_ later
  rintro _ ⟨items, rfl, nodes⟩ fits
  rw [Json.depth] at fits
  exact decodes limit items nodes (by omega)

/-- The fields of a block meet its row. -/
def Block.Decodes (b : Block) : Prop :=
  ∀ limit : Nat, (blockRow (decodeExpr limit)).Meets limit b.holdings (b.instrs, b.line, ())

theorem Block.Decodes.decode {b : Block} (decodes : b.Decodes) {j : Json} {limit : Nat}
    (form : b.Form j) (fits : j.depth ≤ limit) :
    decodeBlockWith (decodeExpr limit) j = .ok b := by
  obtain ⟨instrs, line⟩ := b
  unfold Block.Form Json.IsRecord at form
  split at form
  · rename_i members
    rw [Json.depth] at fits
    exact (decodes limit).decode_bind (names_blockRow _) form
      (show Json.depthMembers members ≤ limit by omega) rfl
  · rename_i items
    rw [Json.depth] at fits
    exact (decodes limit).decode_bind (names_blockRow _) form
      (show Json.depthItems items ≤ limit by omega) rfl
  · cases form

mutual

theorem Expr.decodes : (e : Expr) → e.Decodes
  | .block (.mk instrs line) => by
    intro limit parts hold fits
    exact (Block.decodes (.mk instrs line) limit).decode_bind (names_blockRow _) hold fits rfl
  | .literal value line => by
    intro limit parts hold fits
    exact Meets.decode_bind (.exactly value.ofJson_toJson (meets_line limit line))
      (by simp [Json.Row.names, lineField]) hold fits rfl
  | .call callee args line => by
    intro limit parts hold fits
    exact Meets.decode_bind (callee.decodes.meets ((decodesAll args).meets (meets_line limit line)))
      (by simp [Json.Row.names, lineField]) hold fits rfl
  | .var name line => by
    intro limit parts hold fits
    exact Meets.decode_bind (.exactly rfl (meets_line limit line))
      (by simp [Json.Row.names, nameField, lineField]) hold fits rfl
  | .assign name value declares line => by
    intro limit parts hold fits
    exact Meets.decode_bind
      (.exactly rfl (value.decodes.meets (.exactly rfl (meets_line limit line))))
      (by simp [Json.Row.names, nameField, lineField]) hold fits rfl
  | .function name params body line => by
    intro limit parts hold fits
    have body_read : ∀ v, Json.IsRecord body.holdings v → v.depth ≤ limit →
        decodeBlockWith (decodeExpr limit) v = .ok body :=
      fun _ form deep => (Block.decodes body).decode form deep
    refine Meets.decode_bind (.field rfl ?_ ?_ (.exactly (mapM_asText params)
      (.required body_read (meets_line limit line))))
      (by simp [Json.Row.names, lineField]) hold fits rfl
    · rintro _ rfl _
      exact asText?_ofText? name
    · rintro rfl
      rfl
  | .ret value line => by
    intro limit parts hold fits
    exact Meets.decode_bind (value.decodes.meets (meets_line limit line))
      (by simp [Json.Row.names, lineField]) hold fits rfl
  | .cond condition yes no line => by
    intro limit parts hold fits
    have block_read : ∀ b : Block, b.Decodes → ∀ v, Json.IsRecord b.holdings v → v.depth ≤ limit →
        decodeBlockWith (decodeExpr limit) v = .ok b :=
      fun _ decodes _ form deep => decodes.decode form deep
    refine Meets.decode_bind (condition.decodes.meets (.required (block_read yes (Block.decodes yes))
      (.field rfl (block_read no (Block.decodes no)) ?_ (meets_line limit line))))
      (by simp [Json.Row.names, lineField]) hold fits rfl
    rintro rfl
    rfl
  | .object entries line => by
    intro limit parts hold fits
    refine Meets.decode_bind (.required ?_ (meets_line limit line))
      (by simp [Json.Row.names, lineField]) hold fits rfl
    rintro _ ⟨items, rfl, pairs⟩ deep
    rw [Json.depth] at deep
    exact decodesEntries entries limit items pairs (by omega)
  | .field receiver name line => by
    intro limit parts hold fits
    exact Meets.decode_bind (receiver.decodes.meets (.exactly rfl (meets_line limit line)))
      (by simp [Json.Row.names, nameField, lineField]) hold fits rfl
  | .setField receiver name value line => by
    intro limit parts hold fits
    exact Meets.decode_bind
      (receiver.decodes.meets (.exactly rfl (value.decodes.meets (meets_line limit line))))
      (by simp [Json.Row.names, nameField, lineField]) hold fits rfl
  | .method receiver name args line => by
    intro limit parts hold fits
    exact Meets.decode_bind
      (receiver.decodes.meets (.exactly rfl ((decodesAll args).meets (meets_line limit line))))
      (by simp [Json.Row.names, nameField, lineField]) hold fits rfl

theorem Block.decodes : (b : Block) → b.Decodes
  | .mk instrs line => fun limit => (decodesAll instrs).meets (meets_line limit line)

theorem decodesAll : (es : List Expr) → DecodesAll es
  | [] => by
    rintro limit items rfl _
    rfl
  | e :: es => by
    rintro limit _ ⟨j, rest, rfl, form, later⟩ fits
    rw [Json.depthItems, Nat.max_le] at fits
    rw [List.mapM_cons, e.decodes.decode form fits.1, decodesAll es limit rest later fits.2]
    rfl

theorem decodesEntries : (es : List (String × Expr)) → ∀ (limit : Nat) (items : List Json),
    AreEntries es items → Json.depthItems items ≤ limit →
      items.mapM (Json.asPair Json.asText (decodeExpr limit)) = .ok es
  | [], limit, items, none_there, _ => by
    cases none_there
    rfl
  | (key, e) :: es, limit, items, ⟨j, rest, same, form, later⟩, fits => by
    subst same
    simp only [Json.depthItems, Json.depth, Nat.max_le] at fits
    have value : decodeExpr limit j = .ok e := e.decodes.decode form (by omega)
    have pair : Json.asPair Json.asText (decodeExpr limit) (.array [.text key, j]) =
        .ok (key, e) := by
      simp only [Json.asPair, value]
      rfl
    rw [List.mapM_cons, pair, decodesEntries es limit rest later fits.2]
    rfl

end

/-- A field that is met while members are read: it has been met, or stands for one left out, and no member
to come has its name; or one member to come holds it. -/
def Awaits {α : Type} (slot fallback : Option α) (x : α) (h : Holding)
    (members : List (String × Json)) : Prop :=
  (slot.or fallback = some x ∧ named h.name members = []) ∨
    (slot = none ∧ ∃ v, named h.name members = [v] ∧ h.holds v)

namespace Awaits

variable {α : Type} {slot fallback : Option α} {x : α} {h : Holding} {key : String} {v : Json}
  {members : List (String × Json)}

theorem start (there : h.InMembers members) (absent : h.optional → fallback = some x) :
    Awaits none fallback x h members := by
  rcases there with ⟨v, single, holds⟩ | ⟨none_there, optional⟩
  · exact Or.inr ⟨rfl, v, single, holds⟩
  · exact Or.inl ⟨by rw [Option.none_or, absent optional], none_there⟩

theorem finish (awaits : Awaits slot fallback x h []) : slot.or fallback = some x := by
  rcases awaits with ⟨found, -⟩ | ⟨-, v, single, -⟩
  · exact found
  · cases single

theorem skip (awaits : Awaits slot fallback x h ((key, v) :: members)) (other : key ≠ h.name) :
    Awaits slot fallback x h members := by
  unfold Awaits at awaits ⊢
  rw [Json.named_cons_other other] at awaits
  exact awaits

theorem meet (awaits : Awaits slot fallback x h ((h.name, v) :: members)) :
    slot = none ∧ h.holds v ∧ Awaits (some x) fallback x h members := by
  unfold Awaits at awaits ⊢
  rw [Json.named_cons_same] at awaits
  rcases awaits with ⟨-, none_there⟩ | ⟨empty, w, single, holds⟩
  · cases none_there
  · obtain ⟨rfl, none_left⟩ := List.cons.inj single
    exact ⟨empty, holds, Or.inl ⟨rfl, none_left⟩⟩

end Awaits

namespace Json

variable (Other : List Char → Decimal → List Char → Prop)

/-- Members from here on, and the closing brace. Those asked for are kept; of the others it does not
matter what they hold, as long as it is grammatical. -/
inductive AskedMembers (asked : List String) :
    Bool → List Char → List (String × Json) → List Char → Prop
  | close {first : Bool} {t r : List Char} (close : Gap t ('\x7d' :: r)) :
      AskedMembers asked first t [] r
  | kept {first : Bool} {t u v w r : List Char} {key : String} {j : Json} {ms : List (String × Json)}
      (lead : Lead first t u) (name : SpelledKey u key v) (known : key ∈ asked)
      (value : Spelled Other v j w) (later : AskedMembers asked false w ms r) :
      AskedMembers asked first t ((key, j) :: ms) r
  | passed {first : Bool} {t u v w r : List Char} {key : String} {deep : Nat}
      {ms : List (String × Json)} (lead : Lead first t u) (name : SpelledKey u key v)
      (unknown : key ∉ asked) (value : Grammatical v deep w)
      (later : AskedMembers asked false w ms r) : AskedMembers asked first t ms r

theorem AskedMembers.grammatical {asked : List String} {first : Bool} {t r : List Char}
    {ms : List (String × Json)} (members : AskedMembers SpelledNumber asked first t ms r) :
    ∃ deep, depthMembers ms ≤ deep ∧ GrammaticalMembers first t deep r := by
  induction members with
  | close close => exact ⟨0, Nat.le_refl _, .close close⟩
  | kept lead name known value later ih =>
    obtain ⟨rest, less, members⟩ := ih
    refine ⟨_, ?_, .more lead name.grammatical value.grammatical members⟩
    rw [depthMembers]
    omega
  | passed lead name unknown value later ih =>
    obtain ⟨rest, less, members⟩ := ih
    exact ⟨_, by omega, .more lead name.grammatical value members⟩

/-- A key that is spelled, step by step. -/
theorem SpelledKey.steps {first : Bool} {t u x : List Char} {key : String} (lead : Lead first t u)
    (spelled : SpelledKey u key x) :
    ∃ v w y, nextKey first t = .ok (some v) ∧ SpelledText v key w ∧ readColon w = .ok y ∧ Gap y x ∧
      v.length < t.length ∧ x.length < v.length := by
  cases spelled with
  | @pair v w y _ _ quote name colon gap =>
    have before := lead.length_le
    have first := quote.length_le
    have second := name.length_lt
    have third := colon.length_le
    have fourth := gap.length_le
    simp only [List.length_cons] at first third
    exact ⟨v, w, y, lead.nextKey quote, name, colon.readColon, gap, by omega, by omega⟩

end Json

/-- The text begins with a spelling of the outermost block, without blanks before it. Its own members are
met one by one, so only those asked for have to spell a tree. -/
inductive Block.Spelling (Other : List Char → Decimal → List Char → Prop) (b : Block) :
    List Char → List Char → Prop
  | object {t r : List Char} {ms : List (String × Json)}
      (members : Json.AskedMembers Other (b.holdings.map (·.name)) true t ms r)
      (hold : Parts.Hold b.holdings (.members ms)) : Block.Spelling Other b ('\x7b' :: t) r
  | array {t r : List Char} {items : List Json} (spelled : Json.SpelledItems Other true t items r)
      (hold : Parts.Hold b.holdings (.items items)) : Block.Spelling Other b ('[' :: t) r

/-- The text spells the block, with blanks around it. -/
def Block.SpelledBy (Other : List Char → Decimal → List Char → Prop) (b : Block) (text : String) :
    Prop :=
  ∃ t r, Json.Gap text.toList t ∧ b.Spelling Other t r ∧ Json.Gap r []

namespace Document

open Json (Gap Spelled SpelledText SpelledItems SpelledMembers SpelledNumber AskedMembers ok_bind
  skipBlanks)

/-- The kind as a field of its own. -/
def kindHolding (kind : Kind) : Holding := .required kindKey fun j => j = .text kind.name

theorem readKind_spelled {t u r : List Char} {kind : Kind} (gap : Gap t ('"' :: u))
    (name : SpelledText u kind.name r) (fuel : Nat) (enough : u.length ≤ fuel) :
    readKind fuel t = .ok (kind, r) := by
  simp only [readKind, gap.skip_token rfl, name.read fuel enough, ok_bind, Kind.ofText_name]
  rfl

theorem spelled_text {t r : List Char} {s : String} (spelled : Spelled SpelledNumber t (.text s) r) :
    ∃ u, t = '"' :: u ∧ SpelledText u s r := by
  cases spelled with
  | text chars => exact ⟨_, rfl, chars⟩

theorem readTagged_spelled {first : Bool} {t r : List Char} {ms : List (String × Json)}
    (spelled : SpelledMembers SpelledNumber first t ms r) {kind : Kind} {slot : Option Kind}
    (fuel limit : Nat) (enough : 2 * t.length < fuel) (fits : Json.depthMembers ms ≤ limit)
    (awaits : Awaits slot none kind (kindHolding kind) ms) :
    readTagged fuel limit first slot t = .ok ((kind, others ms), r) := by
  induction ms generalizing first t slot fuel with
  | nil =>
    cases spelled with
    | close close =>
      obtain ⟨fuel, rfl⟩ : ∃ k, fuel = k + 1 := ⟨fuel - 1, by omega⟩
      have found : slot = some kind := by simpa using awaits.finish
      subst found
      simp only [readTagged, close.nextKey_close, close.closeObject, ok_bind]
      rfl
  | cons m ms ih =>
    cases spelled with
    | @more _ _ _ x _ _ key j _ lead name value later =>
      obtain ⟨fuel, rfl⟩ : ∃ k, fuel = k + 1 := ⟨fuel - 1, by omega⟩
      obtain ⟨u, v, w, next, name, colon, gap, before, shorter⟩ := name.steps lead
      have last := value.grammatical.length_lt
      have read := name.read fuel (by omega)
      rw [Json.depthMembers, Nat.max_le] at fits
      have tail : ∀ slot', Awaits slot' none kind (kindHolding kind) ms →
          readTagged fuel limit false slot' _ = .ok ((kind, others ms), r) :=
        fun slot' awaits' => ih later fuel (by omega) fits.2 awaits'
      by_cases same : key = kindKey
      · subst same
        obtain ⟨rfl, rfl, later⟩ := awaits.meet
        obtain ⟨y, rfl, chars⟩ := spelled_text value
        simp only [List.length_cons] at shorter
        have found := readKind_spelled gap chars fuel (by omega)
        simp only [readTagged, next, read, colon, found, ok_bind, if_true, tail _ later,
          others_cons_kind]
      · have inside := value.read fuel limit (by omega) fits.1
        simp only [readTagged, next, read, colon, gap.readValue, inside, tail slot (awaits.skip same), ok_bind,
          if_neg same, others_cons same]
        rfl

/-- An expression is read in each of its forms and spellings. -/
theorem readExpr_spelled {e : Expr} {t r : List Char} {j : Json} (form : e.Form j)
    (spelled : Spelled SpelledNumber t j r) (fuel limit : Nat) (enough : 2 * t.length ≤ fuel)
    (fits : j.depth ≤ limit) : readExpr fuel limit t = .ok (e, r) := by
  unfold Expr.Form Kind.IsNode at form
  split at form
  · rename_i members
    obtain ⟨only, hold⟩ := form
    rw [Json.depth] at fits
    obtain ⟨limit, rfl⟩ : ∃ k, limit = k + 1 := ⟨limit - 1, by omega⟩
    have awaits : Awaits none none e.kind (kindHolding e.kind) members :=
      Or.inr ⟨rfl, _, only, rfl⟩
    have less := depth_others members
    have decoded := e.decodes limit (.members (others members)) (hold_others e.keys_holdings hold)
      (show Json.depthMembers (others members) ≤ limit by omega)
    cases spelled with
    | object spelled =>
      simp only [List.length_cons] at enough
      have tagged := readTagged_spelled spelled fuel limit (by omega) (by omega) awaits
      rw [readExpr, Json.skipBlanks_cons rfl]
      simp only [tagged, ok_bind, decoded]
      rfl
  · rename_i name items
    obtain ⟨rfl, hold⟩ := form
    rw [Json.depth, Json.depthItems] at fits
    obtain ⟨limit, rfl⟩ : ∃ k, limit = k + 1 := ⟨limit - 1, by omega⟩
    have decoded := e.decodes limit (.items items) hold
      (show Json.depthItems items ≤ limit by omega)
    cases spelled with
    | array spelled =>
      cases spelled with
      | more lead gap value later =>
        have before := lead.length_le
        have between := gap.length_le
        have second := value.grammatical.length_lt
        have next := lead.nextItem gap value.grammatical
        obtain ⟨y, rfl, chars⟩ := spelled_text value
        simp only [List.length_cons] at enough between second
        have kind := readKind_spelled (Gap.refl _) chars fuel (by omega)
        have rest := later.read fuel limit (by omega) (by omega)
        rw [readExpr, Json.skipBlanks_cons rfl]
        simp only [next, kind, rest, ok_bind, decoded]
        rfl
  · cases form

theorem readInstrs_spelled : {first : Bool} → {t : List Char} → {items : List Json} →
    {r : List Char} → SpelledItems SpelledNumber first t items r → ∀ {es : List Expr}
      (fuel limit : Nat), AreNodes es items → 2 * t.length < fuel → Json.depthItems items ≤ limit →
      readInstrs fuel limit first t = .ok (es, r)
  | _, _, _, _, .close close, [], fuel + 1, limit, _, _, _ => by
    simp only [readInstrs, close.nextItem_close, close.closeArray, ok_bind]
    rfl
  | _, _, _, _, .more lead gap value later, e :: es, fuel + 1, limit, nodes, enough, fits => by
    obtain ⟨j, rest, same, form, nodes⟩ := nodes
    obtain ⟨rfl, rfl⟩ := List.cons.inj same
    have before := lead.length_le
    have second := gap.length_le
    have third := value.grammatical.length_lt
    rw [Json.depthItems, Nat.max_le] at fits
    have head := readExpr_spelled form value fuel limit (by omega) fits.1
    have tail := readInstrs_spelled later fuel limit nodes (by omega) fits.2
    simp only [readInstrs, lead.nextItem gap value.grammatical, head, tail, ok_bind]
    rfl

/-- The instructions of the outermost block. -/
theorem readBody_spelled {es : List Expr} {t u r : List Char} {j : Json} (gap : Gap t u)
    (nodes : Json.ListOf (AreNodes es) j) (spelled : Spelled SpelledNumber u j r) (fuel limit : Nat)
    (enough : 2 * u.length ≤ fuel) (fits : j.depth ≤ limit) :
    readBody fuel limit t = .ok (es, r) := by
  obtain ⟨items, rfl, nodes⟩ := nodes
  rw [Json.depth] at fits
  obtain ⟨limit, rfl⟩ : ∃ k, limit = k + 1 := ⟨limit - 1, by omega⟩
  cases spelled with
  | array spelled =>
    simp only [List.length_cons] at enough
    simp only [readBody, gap.skip_token rfl]
    exact readInstrs_spelled spelled fuel limit nodes (by omega) (by omega)

theorem readLine_gap {t u : List Char} (gap : Gap t u) (fuel : Nat) :
    readLine fuel t = readLine fuel u := by
  simp only [readLine, gap.skip]

theorem readLine_spelled {line : UInt32} {t u r : List Char} (gap : Gap t u)
    (spelled : Spelled SpelledNumber u (.ofLine line) r) (fuel : Nat) :
    readLine fuel t = .ok (line, r) := by
  rw [readLine_gap gap]
  rw [Json.ofLine] at spelled
  cases spelled with
  | integer _ _ stops => exact readLine_written line fuel stops

/-- The instructions of a block as a field. -/
def instrsHolding (instrs : List Expr) : Holding :=
  .required "instrs" (Json.ListOf (AreNodes instrs))

theorem readBlockMembers_spelled {first : Bool} {t r : List Char} {ms : List (String × Json)}
    (spelled : AskedMembers SpelledNumber ["instrs", "line"] first t ms r) {instrs : List Expr}
    {line : UInt32} {slot : Option (List Expr)} {lineSlot : Option UInt32} (fuel limit : Nat)
    (enough : 2 * t.length < fuel) (fits : Json.depthMembers ms ≤ limit)
    (awaits : Awaits slot none instrs (instrsHolding instrs) ms)
    (awaitsLine : Awaits lineSlot (some 0) line (.line line) ms) :
    readBlockMembers fuel limit first slot lineSlot t = .ok (.mk instrs line, r) := by
  induction spelled generalizing slot lineSlot fuel with
  | close close =>
    obtain ⟨fuel, rfl⟩ : ∃ k, fuel = k + 1 := ⟨fuel - 1, by omega⟩
    have found : slot = some instrs := by simpa using awaits.finish
    have number : lineSlot.getD 0 = line := by
      have default_line := awaitsLine.finish
      cases lineSlot <;> simpa using default_line
    subst found number
    simp only [readBlockMembers, close.nextKey_close, close.closeObject, ok_bind]
    rfl
  | @kept first t u x w r key j ms lead name known value later ih =>
    obtain ⟨fuel, rfl⟩ : ∃ k, fuel = k + 1 := ⟨fuel - 1, by omega⟩
    obtain ⟨v, _, _, next, name, colon, gap, before, shorter⟩ := name.steps lead
    have last := value.grammatical.length_lt
    have read := name.read fuel (by omega)
    rw [Json.depthMembers, Nat.max_le] at fits
    by_cases body : key = "instrs"
    · subst body
      obtain ⟨rfl, nodes, met⟩ := awaits.meet
      have rest := ih fuel (by omega) fits.2 met (awaitsLine.skip (by simp [Holding.line]))
      have found := readBody_spelled gap nodes value fuel limit (by omega) fits.1
      simp only [readBlockMembers, next, read, colon, found, rest, ok_bind, if_true,
        Option.isSome_none, Bool.false_eq_true, if_false]
    · obtain rfl : key = "line" := by simpa [body] using known
      obtain ⟨rfl, rfl, met⟩ := awaitsLine.meet
      have rest := ih fuel (by omega) fits.2
        (awaits.skip (by simp [instrsHolding, Holding.required])) met
      have found := readLine_spelled gap value fuel
      simp only [readBlockMembers, next, read, colon, found, rest, ok_bind, if_true, if_neg body,
        Option.isSome_none, Bool.false_eq_true, if_false]
  | @passed first t u x w r key deep ms lead name unknown value later ih =>
    obtain ⟨fuel, rfl⟩ : ∃ k, fuel = k + 1 := ⟨fuel - 1, by omega⟩
    obtain ⟨v, _, _, next, name, colon, gap, before, shorter⟩ := name.steps lead
    have last := value.length_lt
    have read := name.read fuel (by omega)
    have rest := ih fuel (by omega) fits awaits awaitsLine
    have skipped := value.skip fuel (by omega)
    obtain ⟨body, number⟩ : key ≠ "instrs" ∧ key ≠ "line" := by simpa using unknown
    simp only [readBlockMembers, next, read, colon, gap.skipValue, skipped, rest, ok_bind, if_neg body,
      if_neg number]

/-- The outermost block given as an array. -/
theorem readBlockItems_spelled {instrs : List Expr} {line : UInt32} {t r : List Char}
    {items : List Json} (spelled : SpelledItems SpelledNumber true t items r)
    (hold : ItemsHold (Block.mk instrs line).holdings items) (fuel limit : Nat)
    (enough : 2 * t.length ≤ fuel) (fits : Json.depthItems items ≤ limit) :
    readBlockItems fuel limit t = .ok (.mk instrs line, r) := by
  rw [Block.holdings] at hold
  cases hold with
  | left required => exact required.elim
  | item nodes hold =>
    cases spelled with
    | more lead gap value later =>
      have before := lead.length_le
      have between := gap.length_le
      rw [Json.depthItems, Nat.max_le] at fits
      have body := readBody_spelled (Gap.refl _) nodes value fuel limit (by omega) fits.1
      have next := lead.nextItem gap value.grammatical
      cases hold with
      | left optional none_left =>
        have zero : line = 0 := optional
        cases later with
        | close close =>
          simp only [readBlockItems, next, body, close.nextItem_close, close.closeArray, ok_bind, zero]
          rfl
      | item same none_left =>
        cases none_left
        cases later with
        | more lead gap value later =>
          have number : Spelled SpelledNumber _ (.ofLine line) _ := same ▸ value
          cases later with
          | close close =>
            simp only [readBlockItems, next, body, lead.nextItem gap value.grammatical,
              readLine_spelled (Gap.refl _) number, close.closeArray, ok_bind]
            rfl

/-- The outermost block is read in each of its spellings. -/
theorem readBlock_spelled {b : Block} {t u r : List Char} (gap : Gap t u)
    (spelled : b.Spelling SpelledNumber u r) (fuel limit : Nat) (enough : 2 * u.length ≤ fuel)
    (fits : ∀ deep, Json.Reaches u r deep → deep ≤ limit) : readBlock fuel limit t = .ok (b, r) := by
  obtain ⟨instrs, line⟩ := b
  cases spelled with
  | @object _ _ ms members hold =>
    obtain ⟨deep, less, grammatical⟩ := members.grammatical
    have deepest := fits _ (Json.Grammatical.object grammatical).reaches
    obtain ⟨limit, rfl⟩ : ∃ k, limit = k + 1 := ⟨limit - 1, by omega⟩
    have awaits : Awaits none none instrs (instrsHolding instrs) ms :=
      .start (hold _ (by simp [Block.holdings, instrsHolding])) False.elim
    have awaitsLine : Awaits none (some 0) line (.line line) ms := by
      refine .start (hold _ (by simp [Block.holdings])) ?_
      rintro rfl
      rfl
    simp only [List.length_cons] at enough
    simp only [readBlock, gap.skip_token rfl]
    exact readBlockMembers_spelled members fuel limit (by omega) (by omega) awaits awaitsLine
  | array spelled hold =>
    have deepest := fits _ (Json.Grammatical.array spelled.grammatical).reaches
    obtain ⟨limit, rfl⟩ : ∃ k, limit = k + 1 := ⟨limit - 1, by omega⟩
    simp only [List.length_cons] at enough
    simp only [readBlock, gap.skip_token rfl]
    exact readBlockItems_spelled spelled hold fuel limit (by omega) (by omega)

theorem finish_gap {α : Type} {a : α} {r : List Char} (gap : Gap r []) :
    finish (a, r) = .ok a := by
  have nothing : skipBlanks r = [] := gap.skip
  simp only [finish, nothing]
  rfl

end Document

theorem Block.SpelledBy.parse {b : Block} {text : String}
    (spelled : b.SpelledBy Json.SpelledNumber text)
    (fits : Json.nesting text ≤ Document.maxDepth) : Block.parse text = .ok b := by
  obtain ⟨t, r, before, spelled, after⟩ := spelled
  have shorter := before.length_le
  have deepest : ∀ deep, Json.Reaches t r deep → deep ≤ Document.maxDepth := by
    intro deep reaches
    rwa [reaches.nesting before after] at fits
  have read := Document.readBlock_spelled before spelled (Json.fuelFor text.toList)
    Document.maxDepth (by rw [Json.fuelFor]; omega) deepest
  simp only [Block.parse, read, Json.ok_bind]
  exact Document.finish_gap after

end ScriptEngine
