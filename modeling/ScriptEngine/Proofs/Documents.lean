import ScriptEngine.Engine
import ScriptEngine.Program.Encode
import ScriptEngine.Proofs.Nesting

/-!
# Programs and their documents

A program is found again in its document if that nests no more arrays and objects than a document may,
and is refused as malformed otherwise. The members of a written node are the fields of its record, in
order, so that decoding takes one field after the other.
-/

namespace ScriptEngine

namespace Json.Row

def names {αs : List Type} : Row αs → List String
  | .done => []
  | .field f rest => f.name :: rest.names

/-- Slots that are all filled. -/
def full {αs : List Type} : Row αs → Fields αs → Slots αs
  | .done, () => ()
  | .field _ rest, (x, xs) => (some x, rest.full xs)

/-- The members are the fields of the record in order, and are read as `xs`. -/
inductive Takes : {αs : List Type} → Row αs → List (String × Json) → Fields αs → Prop
  | done : Takes .done [] ()
  | field {α : Type} {αs : List Type} {f : FieldSpec α} {rest : Row αs} {value : Json}
      {members : List (String × Json)} {x : α} {xs : Fields αs} (read : f.read value = .ok x)
      (later : Takes rest members xs) : Takes (.field f rest) ((f.name, value) :: members) (x, xs)

theorem Takes.keys {αs : List Type} {row : Row αs} {members : List (String × Json)} {xs : Fields αs}
    (takes : row.Takes members xs) : members.map (·.1) = row.names := by
  induction takes with
  | done => rfl
  | field read later ih => rw [List.map_cons, ih, names]

/-- Members of other names leave a slot alone. -/
theorem fillAll_other {α : Type} {αs : List Type} (f : FieldSpec α) (rest : Row αs) (slot : Option α)
    {members : List (String × Json)} (other : f.name ∉ members.map (·.1)) {slots slots' : Slots αs}
    (filled : rest.fillAll members slots = .ok slots') :
    (Row.field f rest).fillAll members (slot, slots) = .ok (slot, slots') := by
  induction members generalizing slots with
  | nil =>
    cases filled
    rfl
  | cons m ms ih =>
    obtain ⟨key, value⟩ := m
    simp only [List.map_cons, List.mem_cons, not_or] at other
    have apart : ¬ key = f.name := fun same => other.1 same.symm
    simp only [fillAll] at filled ⊢
    cases first : rest.fill key value slots with
    | error e => simp [first, bind, Except.bind] at filled
    | ok next =>
      rw [first] at filled
      have kept : (Row.field f rest).fill key value (slot, slots) = .ok (slot, next) := by
        simp only [fill, first]
        exact if_neg apart
      rw [kept]
      exact ih other.2 filled

theorem Takes.fillAll {αs : List Type} {row : Row αs} {members : List (String × Json)}
    {xs : Fields αs} (takes : row.Takes members xs) (distinct : row.names.Nodup) :
    row.fillAll members row.blank = .ok (row.full xs) := by
  induction takes with
  | done => rfl
  | @field α αs f rest value members x xs read later ih =>
    obtain ⟨other, distinct⟩ := List.nodup_cons.mp distinct
    rw [← later.keys] at other
    have first : (Row.field f rest).fill f.name value (none, rest.blank) =
        .ok (some x, rest.blank) := by
      rw [fill, read]
      exact if_pos rfl
    -- no later member has the name of the first, so its slot stays as it is
    simp only [Row.fillAll, blank, first]
    exact fillAll_other f rest (some x) other (ih distinct)

theorem close_full {αs : List Type} (row : Row αs) (xs : Fields αs) :
    row.close (row.full xs) = .ok xs := by
  induction row with
  | done => rfl
  | field f rest ih =>
    obtain ⟨x, xs⟩ := xs
    simp only [full, close, Option.some_or, ih]
    rfl

/-- A record is decoded from its fields in order. -/
theorem Takes.decode {αs : List Type} {row : Row αs} {members : List (String × Json)}
    {xs : Fields αs} (takes : row.Takes members xs) (distinct : row.names.Nodup) (name : String) :
    row.decode name (.members members) = .ok xs := by
  have filled := takes.fillAll distinct
  simp only [Row.decode, filled]
  exact row.close_full xs

theorem Takes.decode_bind {αs : List Type} {row : Row αs} {members : List (String × Json)}
    {xs : Fields αs} {β : Type} {f : Fields αs → Decoding β} {b : β} {name : String}
    (takes : row.Takes members xs) (distinct : row.names.Nodup) (made : f xs = .ok b) :
    (row.decode name (.members members) >>= f) = .ok b := by
  rw [takes.decode distinct name]
  exact made

end Json.Row

open Json (Exact)
open Json.Row (Takes)

theorem asLine_ofLine (line : UInt32) : Json.asLine (.ofLine line) = .ok line := by
  have small := line.toNat_lt
  have range : (0 : Int) ≤ line.toNat ∧ (line.toNat : Int) < 0x100000000 := by omega
  simp [Json.asLine, Json.ofLine, range]

/-- A written line is the last field of its record. -/
theorem takes_line (line : UInt32) :
    Takes (.field lineField .done) [("line", .ofLine line)] (line, ()) := by
  have read : lineField.read (.ofLine line) = .ok line := by
    simp only [lineField]
    exact asLine_ofLine line
  exact .field read .done

theorem Literal.ofJson_toJson (value : Literal) : Literal.ofJson value.toJson = .ok value := by
  cases value with
  | int n =>
    have least := n.le_toInt
    have most := n.toInt_lt
    have range : -0x80000000 ≤ n.toInt ∧ n.toInt < 0x80000000 := by omega
    simp [Literal.ofJson, Literal.toJson, range]
  | text s => rfl

theorem asText?_ofText? (name : Option String) : Json.asText? (.ofText? name) = .ok name := by
  cases name <;> rfl

theorem Kind.ofText_name (kind : Kind) : Kind.ofText kind.name = .ok kind := by
  have found : Kind.ofName? kind.name = some kind := by
    cases kind <;> decide
  rw [Kind.ofText, found]

theorem exact_ofLine (line : UInt32) : (Json.ofLine line).Exact := by
  have small := line.toNat_lt
  exact .integer (by omega) (by omega)

theorem Literal.exact_toJson (value : Literal) : value.toJson.Exact := by
  cases value with
  | int n =>
    have least := n.le_toInt
    have most := n.toInt_lt
    exact .integer (by omega) (by omega)
  | text s => exact .text s

theorem exact_ofText? (name : Option String) : (Json.ofText? name).Exact := by
  cases name with
  | none => exact .null
  | some s => exact .text s

/-- What is written for a node: members beside its kind, from which it is decoded again. -/
structure Expr.Written (e : Expr) (fields : List (String × Json)) : Prop where
  node : e.toJson = e.kind.node fields
  keys : ∀ m ∈ fields, m.1 ≠ kindKey
  exact : ∀ m ∈ fields, m.2.Exact
  decodes : ∀ limit, Json.depthMembers fields ≤ limit →
    decodeParts (decodeExpr limit) e.kind (.members fields) = .ok e

/-- What is written for a block. -/
structure Block.Written (b : Block) : Prop where
  exact : ∀ m ∈ b.fields, m.2.Exact
  takes : ∀ limit, Json.depthMembers b.fields ≤ limit →
    (blockRow (decodeExpr limit)).Takes b.fields (b.instrs, b.line, ())

theorem splitKind_other {fields : List (String × Json)} (keys : ∀ m ∈ fields, m.1 ≠ kindKey)
    (kind : Kind) : splitKind fields (some kind) = .ok (kind, fields) := by
  induction fields with
  | nil => rfl
  | cons m ms ih =>
    obtain ⟨key, value⟩ := m
    have other : key ≠ kindKey := keys (key, value) List.mem_cons_self
    have rest := ih fun m member => keys m (List.mem_cons_of_mem _ member)
    simp only [splitKind, if_neg other, rest]
    rfl

/-- A written node is decoded where it may be nested so deep. -/
theorem Expr.Written.decode {e : Expr} {fields : List (String × Json)} (written : e.Written fields)
    {limit : Nat} (fits : e.toJson.depth ≤ limit) : decodeExpr limit e.toJson = .ok e := by
  have deep : Json.depthMembers fields + 1 ≤ limit := by
    rw [written.node, Kind.node, Json.depth, Json.depthMembers] at fits
    omega
  -- the node itself takes one level, its fields have the others
  obtain ⟨limit, rfl⟩ : ∃ k, limit = k + 1 := ⟨limit - 1, by omega⟩
  have split : splitKind (("kind", .text e.kind.name) :: fields) none = .ok (e.kind, fields) := by
    have same : "kind" = kindKey := rfl
    rw [splitKind, if_pos same]
    simp only [Kind.ofJson, Kind.ofText_name]
    exact splitKind_other written.keys e.kind
  rw [written.node, Kind.node, decodeExpr, split]
  exact written.decodes limit (by omega)

theorem Expr.Written.exact_toJson {e : Expr} {fields : List (String × Json)}
    (written : e.Written fields) : e.toJson.Exact := by
  rw [written.node]
  refine .object ?_
  intro m member
  rcases List.mem_cons.mp member with rfl | member
  · exact .text _
  · exact written.exact m member

theorem names_blockRow (expr : Json → Json.Decoding Expr) : (blockRow expr).names.Nodup := by
  show ["instrs", "line"].Nodup
  decide

theorem Block.Written.decode {b : Block} (written : b.Written) {limit : Nat}
    (fits : Json.depthMembers b.fields ≤ limit) :
    decodeBlockWith (decodeExpr limit) (.object b.fields) = .ok b := by
  cases b with
  | mk instrs line => exact (written.takes limit fits).decode_bind (names_blockRow _) rfl

theorem Block.Written.exact_object {b : Block} (written : b.Written) :
    (Json.object b.fields).Exact := .object written.exact

/-- The items of a list of nodes. -/
structure WrittenAll (es : List Expr) : Prop where
  exact : ∀ j ∈ toJsonAll es, j.Exact
  decodes : ∀ limit, Json.depthItems (toJsonAll es) ≤ limit →
    (toJsonAll es).mapM (decodeExpr limit) = .ok es

/-- The pairs of an object literal. -/
structure WrittenEntries (es : List (String × Expr)) : Prop where
  exact : ∀ j ∈ toJsonEntries es, j.Exact
  decodes : ∀ limit, Json.depthItems (toJsonEntries es) ≤ limit →
    (toJsonEntries es).mapM (Json.asPair Json.asText (decodeExpr limit)) = .ok es

theorem mapM_asText (params : List String) :
    (params.map Json.text).mapM Json.asText = .ok params := by
  induction params with
  | nil => rfl
  | cons s ss ih =>
    rw [List.map_cons, List.mapM_cons, ih]
    rfl

mutual

theorem Expr.written : (e : Expr) → ∃ fields, e.Written fields
  | .block (.mk instrs line) => by
    have body := Block.written (.mk instrs line)
    refine ⟨_, rfl, ?_, body.exact, ?_⟩
    · simp [Block.fields, kindKey]
    · intro limit fits
      exact (body.takes limit fits).decode_bind (names_blockRow _) rfl
  | .literal value line => by
    refine ⟨_, rfl, by simp [kindKey], ?_, ?_⟩
    · simp [value.exact_toJson, exact_ofLine]
    · intro limit fits
      exact Takes.decode_bind (.field value.ofJson_toJson (takes_line line))
        (by simp [Json.Row.names, lineField]) rfl
  | .call callee args line => by
    obtain ⟨_, first⟩ := Expr.written callee
    have rest := writtenAll args
    refine ⟨_, rfl, by simp [kindKey], ?_, ?_⟩
    · simp [first.exact_toJson, Exact.array rest.exact, exact_ofLine]
    · intro limit fits
      simp only [Json.depthMembers, Json.depth, Nat.max_le] at fits
      have inside : Json.depthItems (toJsonAll args) ≤ limit := by omega
      exact Takes.decode_bind
        (.field (first.decode fits.1) (.field (rest.decodes limit inside) (takes_line line)))
        (by simp [Json.Row.names, lineField]) rfl
  | .var name line => by
    refine ⟨_, rfl, by simp [kindKey], ?_, ?_⟩
    · simp [Exact.text, exact_ofLine]
    · intro limit fits
      exact Takes.decode_bind (.field rfl (takes_line line))
        (by simp [Json.Row.names, nameField, lineField]) rfl
  | .assign name value declares line => by
    obtain ⟨_, inner⟩ := Expr.written value
    refine ⟨_, rfl, by simp [kindKey], ?_, ?_⟩
    · simp [Exact.text, Exact.bool, inner.exact_toJson, exact_ofLine]
    · intro limit fits
      simp only [Json.depthMembers, Json.depth, Nat.max_le] at fits
      exact Takes.decode_bind
        (.field rfl (.field (inner.decode fits.2.1) (.field rfl (takes_line line))))
        (by simp [Json.Row.names, nameField, lineField]) rfl
  | .function name params body line => by
    have inner := Block.written body
    have texts : (Json.array (params.map .text)).Exact := .array (by simp [Exact.text])
    refine ⟨_, rfl, by simp [kindKey], ?_, ?_⟩
    · simp [exact_ofText?, texts, inner.exact_object, exact_ofLine]
    · intro limit fits
      simp only [Json.depthMembers, Json.depth, Nat.max_le] at fits
      have inside : Json.depthMembers body.fields ≤ limit := by omega
      exact Takes.decode_bind (.field (asText?_ofText? name) (.field (mapM_asText params)
          (.field (inner.decode inside) (takes_line line))))
        (by simp [Json.Row.names, lineField]) rfl
  | .ret value line => by
    obtain ⟨_, inner⟩ := Expr.written value
    refine ⟨_, rfl, by simp [kindKey], ?_, ?_⟩
    · simp [inner.exact_toJson, exact_ofLine]
    · intro limit fits
      simp only [Json.depthMembers, Nat.max_le] at fits
      exact Takes.decode_bind (.field (inner.decode fits.1) (takes_line line))
        (by simp [Json.Row.names, lineField]) rfl
  | .cond condition yes no line => by
    obtain ⟨_, test⟩ := Expr.written condition
    have first := Block.written yes
    have second := Block.written no
    refine ⟨_, rfl, by simp [kindKey], ?_, ?_⟩
    · simp [test.exact_toJson, first.exact_object, second.exact_object, exact_ofLine]
    · intro limit fits
      simp only [Json.depthMembers, Json.depth, Nat.max_le] at fits
      have left : Json.depthMembers yes.fields ≤ limit := by omega
      have right : Json.depthMembers no.fields ≤ limit := by omega
      exact Takes.decode_bind (.field (test.decode fits.1) (.field (first.decode left)
          (.field (second.decode right) (takes_line line))))
        (by simp [Json.Row.names, lineField]) rfl
  | .object entries line => by
    have inner := writtenEntries entries
    refine ⟨_, rfl, by simp [kindKey], ?_, ?_⟩
    · simp [Exact.array inner.exact, exact_ofLine]
    · intro limit fits
      simp only [Json.depthMembers, Json.depth, Nat.max_le] at fits
      have inside : Json.depthItems (toJsonEntries entries) ≤ limit := by omega
      exact Takes.decode_bind (.field (inner.decodes limit inside) (takes_line line))
        (by simp [Json.Row.names, lineField]) rfl
  | .field receiver name line => by
    obtain ⟨_, owner⟩ := Expr.written receiver
    refine ⟨_, rfl, by simp [kindKey], ?_, ?_⟩
    · simp [owner.exact_toJson, Exact.text, exact_ofLine]
    · intro limit fits
      simp only [Json.depthMembers, Json.depth, Nat.max_le] at fits
      exact Takes.decode_bind (.field (owner.decode fits.1) (.field rfl (takes_line line)))
        (by simp [Json.Row.names, nameField, lineField]) rfl
  | .setField receiver name value line => by
    obtain ⟨_, owner⟩ := Expr.written receiver
    obtain ⟨_, inner⟩ := Expr.written value
    refine ⟨_, rfl, by simp [kindKey], ?_, ?_⟩
    · simp [owner.exact_toJson, Exact.text, inner.exact_toJson, exact_ofLine]
    · intro limit fits
      simp only [Json.depthMembers, Json.depth, Nat.max_le] at fits
      exact Takes.decode_bind (.field (owner.decode fits.1) (.field rfl
          (.field (inner.decode fits.2.2.1) (takes_line line))))
        (by simp [Json.Row.names, nameField, lineField]) rfl
  | .method receiver name args line => by
    obtain ⟨_, owner⟩ := Expr.written receiver
    have rest := writtenAll args
    refine ⟨_, rfl, by simp [kindKey], ?_, ?_⟩
    · simp [owner.exact_toJson, Exact.text, Exact.array rest.exact, exact_ofLine]
    · intro limit fits
      simp only [Json.depthMembers, Json.depth, Nat.max_le] at fits
      have inside : Json.depthItems (toJsonAll args) ≤ limit := by omega
      exact Takes.decode_bind (.field (owner.decode fits.1) (.field rfl
          (.field (rest.decodes limit inside) (takes_line line))))
        (by simp [Json.Row.names, nameField, lineField]) rfl

theorem Block.written : (b : Block) → b.Written
  | .mk instrs line => by
    have body := writtenAll instrs
    constructor
    · simp [Block.fields, Exact.array body.exact, exact_ofLine]
    · intro limit fits
      simp only [Block.fields, Json.depthMembers, Json.depth, Nat.max_le] at fits
      exact .field (body.decodes limit (by omega)) (takes_line line)

theorem writtenAll : (es : List Expr) → WrittenAll es
  | [] => ⟨by simp [toJsonAll], fun _ _ => rfl⟩
  | e :: es => by
    obtain ⟨_, first⟩ := Expr.written e
    have rest := writtenAll es
    constructor
    · simpa [toJsonAll, first.exact_toJson] using rest.exact
    · intro limit fits
      simp only [toJsonAll, Json.depthItems, Nat.max_le] at fits
      rw [toJsonAll, List.mapM_cons, first.decode fits.1, rest.decodes limit fits.2]
      rfl

theorem writtenEntries : (es : List (String × Expr)) → WrittenEntries es
  | [] => ⟨by simp [toJsonEntries], fun _ _ => rfl⟩
  | (key, e) :: es => by
    obtain ⟨_, first⟩ := Expr.written e
    have rest := writtenEntries es
    have pair : (Json.array [.text key, e.toJson]).Exact :=
      .array (by simp [Exact.text, first.exact_toJson])
    constructor
    · simpa [toJsonEntries, pair] using rest.exact
    · intro limit fits
      simp only [toJsonEntries, Json.depthItems, Json.depth, Nat.max_le] at fits
      have value : e.toJson.depth ≤ limit := by omega
      have paired : Json.asPair Json.asText (decodeExpr limit) (.array [.text key, e.toJson]) =
          .ok (key, e) := by
        simp only [Json.asPair, first.decode value]
        rfl
      rw [toJsonEntries, List.mapM_cons, paired, rest.decodes limit fits.2]
      rfl

end

namespace Document

open Json (upTo upTo_bind upTo_bind_ok upTo_map upTo_succ upTo_succ_zero ok_bind Stops isBlank
  skipBlanks_cons write writeMember writeMoreMembers writeMoreItems readText_written)

theorem readKind_written (kind : Kind) (rest : List Char) {fuel : Nat}
    (room : kind.name.toList.length < fuel) :
    readKind fuel (write (.text kind.name) ++ rest) = .ok (kind, rest) := by
  have quote : isBlank '"' = false := rfl
  rw [write, Json.writeText_append, readKind]
  simp only [skipBlanks_cons quote]
  rw [readText_written _ _ room, ok_bind]
  dsimp only
  rw [Kind.ofText_name]
  rfl

/-- The members of a node after its kind. -/
theorem readTagged_more {fields : List (String × Json)} (keys : ∀ m ∈ fields, m.1 ≠ kindKey)
    (reads : ∀ m ∈ fields, m.2.Reads) (kind : Kind) (fuel limit : Nat) (rest : List Char)
    (enough : 2 * (writeMoreMembers fields).length + 1 ≤ fuel) :
    readTagged fuel limit false (some kind) (writeMoreMembers fields ++ '\x7d' :: rest) =
      upTo limit (Json.depthMembers fields) ((kind, fields), rest) := by
  induction fields generalizing fuel with
  | nil =>
    obtain ⟨fuel, rfl⟩ : ∃ k, fuel = k + 1 := ⟨fuel - 1, by omega⟩
    simp [writeMoreMembers, readTagged, Json.depthMembers, pure, Except.pure]
  | cons m ms ih =>
    have size := Json.length_writeMoreMembers m ms
    have room := Json.length_writeMember m
    obtain ⟨fuel, rfl⟩ : ∃ k, fuel = k + 1 := ⟨fuel - 1, by omega⟩
    have other : m.1 ≠ kindKey := keys m List.mem_cons_self
    have value := reads m List.mem_cons_self fuel limit _ (by omega) (Json.stops_moreMembers ms rest)
    have tail := ih (fun k member => keys k (List.mem_cons_of_mem _ member))
      (fun k member => reads k (List.mem_cons_of_mem _ member)) fuel (by omega)
    rw [Json.writeMoreMembers_cons, Json.writeMember_append, readTagged, Json.nextKey_later, ok_bind,
      Json.depthMembers]
    dsimp only
    rw [readText_written _ _ (by omega), ok_bind]
    dsimp only
    rw [if_neg other, Json.readColon_colon, ok_bind, value]
    apply upTo_bind
    intro _
    dsimp only
    rw [tail]
    exact upTo_map ..

/-- The members of a node. -/
theorem readTagged_written {fields : List (String × Json)} (keys : ∀ m ∈ fields, m.1 ≠ kindKey)
    (reads : ∀ m ∈ fields, m.2.Reads) (kind : Kind) (fuel limit : Nat) (rest : List Char)
    (enough : 2 * (Json.writeMembers (("kind", .text kind.name) :: fields)).length + 1 ≤ fuel) :
    readTagged fuel limit true none
        (Json.writeMembers (("kind", .text kind.name) :: fields) ++ '\x7d' :: rest) =
      upTo limit (Json.depthMembers fields) ((kind, fields), rest) := by
  obtain ⟨fuel, rfl⟩ : ∃ k, fuel = k + 1 := ⟨fuel - 1, by omega⟩
  have room := Json.length_writeMember ("kind", .text kind.name)
  have name := Json.length_le_writeText kind.name
  have same : "kind" = kindKey := rfl
  rw [Json.writeMembers_cons] at enough ⊢
  rw [List.length_append] at enough
  dsimp only [write] at room
  rw [List.append_assoc, Json.writeMember_append, readTagged, Json.nextKey_first, ok_bind]
  dsimp only
  rw [readText_written _ _ (by omega), ok_bind]
  dsimp only
  rw [if_pos same, Json.readColon_colon, ok_bind, readKind_written _ _ (by omega), ok_bind]
  exact readTagged_more keys reads kind fuel limit rest (by omega)

/-- An expression is read back. -/
theorem readExpr_written (e : Expr) (fuel limit : Nat) (rest : List Char)
    (enough : 2 * e.toJson.write.length ≤ fuel) :
    readExpr fuel limit (e.toJson.write ++ rest) = upTo limit e.toJson.depth (e, rest) := by
  obtain ⟨fields, written⟩ := e.written
  have deep : e.toJson.depth = Json.depthMembers fields + 1 := by
    rw [written.node, Kind.node, Json.depth, Json.depthMembers]
    exact congrArg (· + 1) (Nat.zero_max _)
  rw [deep]
  rw [written.node, Kind.node] at enough ⊢
  simp only [write, List.length_cons, List.length_append, List.length_nil] at enough
  have opening : isBlank '\x7b' = false := rfl
  rw [Json.write_object, readExpr]
  simp only [skipBlanks_cons opening]
  cases limit with
  | zero => rw [upTo_succ_zero]
  | succ limit =>
    dsimp only
    rw [readTagged_written written.keys (fun m member => (written.exact m member).reads) e.kind fuel
      limit rest (by omega), upTo_succ]
    -- the tree is decoded only after all of it was read, and so only if it is not too deep
    apply upTo_bind_ok
    intro fits
    dsimp only
    rw [written.decodes limit fits]
    rfl

/-- One instruction and the instructions after it. -/
theorem readInstrs_step {first : Bool} {text cs rest : List Char} {e : Expr} {es : List Expr}
    {fuel limit : Nat} (next : Json.nextItem first text = .ok (some (e.toJson.write ++ cs)))
    (enough : 2 * e.toJson.write.length ≤ fuel)
    (tail : readInstrs fuel limit false cs = upTo limit (Json.depthItems (toJsonAll es)) (es, rest)) :
    readInstrs (fuel + 1) limit first text =
      upTo limit (Json.depthItems (toJsonAll (e :: es))) (e :: es, rest) := by
  rw [readInstrs, next, ok_bind, toJsonAll, Json.depthItems]
  dsimp only
  rw [readExpr_written e fuel limit cs enough]
  apply upTo_bind
  intro _
  dsimp only
  rw [tail]
  exact upTo_map ..

theorem readInstrs_more (es : List Expr) (fuel limit : Nat) (rest : List Char)
    (enough : 2 * (writeMoreItems (toJsonAll es)).length + 1 ≤ fuel) :
    readInstrs fuel limit false (writeMoreItems (toJsonAll es) ++ ']' :: rest) =
      upTo limit (Json.depthItems (toJsonAll es)) (es, rest) := by
  induction es generalizing fuel with
  | nil =>
    obtain ⟨fuel, rfl⟩ : ∃ k, fuel = k + 1 := ⟨fuel - 1, by omega⟩
    simp [toJsonAll, writeMoreItems, readInstrs, Json.depthItems, pure, Except.pure]
  | cons e es ih =>
    obtain ⟨_, written⟩ := e.written
    have size := Json.length_writeMoreItems e.toJson (toJsonAll es)
    rw [toJsonAll] at enough
    obtain ⟨fuel, rfl⟩ : ∃ k, fuel = k + 1 := ⟨fuel - 1, by omega⟩
    have next := written.exact_toJson.nextItem_later (writeMoreItems (toJsonAll es) ++ ']' :: rest)
    rw [← Json.writeMoreItems_cons] at next
    exact readInstrs_step next (by omega) (ih fuel (by omega))

/-- The instructions of a block. -/
theorem readBody_written (es : List Expr) (fuel limit : Nat) (rest : List Char)
    (enough : 2 * (write (.array (toJsonAll es))).length ≤ fuel) :
    readBody fuel limit (write (.array (toJsonAll es)) ++ rest) =
      upTo limit (Json.depth (.array (toJsonAll es))) (es, rest) := by
  simp only [write, List.length_cons, List.length_append, List.length_nil] at enough
  obtain ⟨fuel, rfl⟩ : ∃ k, fuel = k + 1 := ⟨fuel - 1, by omega⟩
  have opening : isBlank '[' = false := rfl
  rw [Json.write_array, readBody, Json.depth]
  simp only [skipBlanks_cons opening]
  cases limit with
  | zero => rw [upTo_succ_zero]
  | succ limit =>
    rw [upTo_succ]
    cases es with
    | nil =>
      simp [toJsonAll, Json.writeItems, readInstrs, Json.depthItems, pure, Except.pure]
    | cons e es =>
      obtain ⟨_, written⟩ := e.written
      obtain ⟨c, cs, head, -⟩ := written.exact_toJson.write_head
      have some_written : 1 ≤ e.toJson.write.length := by simp [head]
      rw [toJsonAll, Json.writeItems_cons, List.length_append] at enough
      have text : Json.writeItems (toJsonAll (e :: es)) ++ ']' :: rest =
          e.toJson.write ++ (writeMoreItems (toJsonAll es) ++ ']' :: rest) := by
        rw [toJsonAll, Json.writeItems_cons, List.append_assoc]
      rw [text]
      exact readInstrs_step (written.exact_toJson.nextItem_first _) (by omega)
        (readInstrs_more es fuel limit rest (by omega))

theorem readLine_written (line : UInt32) (fuel : Nat) {rest : List Char} (stops : Stops rest) :
    readLine fuel (write (.ofLine line) ++ rest) = .ok (line, rest) := by
  have small := line.toNat_lt
  have sign : ¬ (line.toNat : Int) < 0 := by omega
  have number := Json.readNumber_integer (n := line.toNat) (by omega) (by omega) stops
  rw [decide_eq_false sign, Int.natAbs_natCast] at number
  obtain ⟨c, cs, digits, digit⟩ := Json.toDigits_eq_cons line.toNat
  rw [digits, List.cons_append] at number
  rw [Json.ofLine, Json.write_integer, if_neg sign, Int.natAbs_natCast, digits, List.cons_append,
    readLine, skipBlanks_cons (Json.isBlank_digit digit)]
  split
  · rename_i same
    exact absurd (List.cons.inj same).1 (Json.ne_of_isDigit digit rfl)
  · rename_i same
    obtain ⟨rfl, rfl⟩ := List.cons.inj same
    have line_eq := asLine_ofLine line
    rw [Json.ofLine] at line_eq
    rw [if_pos digit, number, ok_bind]
    dsimp only
    rw [line_eq]
    rfl
  · rename_i same
    cases same

/-- The line of a block and the end of its members. -/
theorem readBlockMembers_line (instrs : List Expr) (line : UInt32) {fuel : Nat} (limit : Nat)
    (rest : List Char) (enough : 4 < fuel) :
    readBlockMembers (fuel + 1) limit false (some instrs) none
        (writeMoreMembers [("line", .ofLine line)] ++ '\x7d' :: rest) =
      .ok (.mk instrs line, rest) := by
  obtain ⟨fuel, rfl⟩ : ∃ k, fuel = k + 1 := ⟨fuel - 1, by omega⟩
  have text : writeMoreMembers [("line", .ofLine line)] ++ '\x7d' :: rest =
      ',' :: (writeMember ("line", .ofLine line) ++ '\x7d' :: rest) :=
    Json.writeMoreMembers_cons ("line", .ofLine line) [] rest
  have name : "line".toList.length = 4 := rfl
  rw [text, Json.writeMember_append, readBlockMembers, Json.nextKey_later, ok_bind]
  dsimp only
  rw [readText_written _ _ (by omega), ok_bind]
  dsimp only
  rw [if_neg (by decide), if_pos rfl, if_neg (by simp), Json.readColon_colon, ok_bind,
    readLine_written line _ (Json.stops_brace rest), ok_bind]
  simp [readBlockMembers, pure, Except.pure]

/-- The outermost block is read back. -/
theorem readBlock_written (b : Block) (fuel limit : Nat) (rest : List Char)
    (enough : 2 * b.toJson.write.length ≤ fuel) :
    readBlock fuel limit (b.toJson.write ++ rest) = upTo limit b.toJson.depth (b, rest) := by
  obtain ⟨instrs, line⟩ := b
  have deep : (Block.mk instrs line).toJson.depth = Json.depth (.array (toJsonAll instrs)) + 1 := by
    show Json.depthMembers (Block.fields (.mk instrs line)) + 1 = _
    rw [Block.fields, Json.depthMembers]
    exact congrArg (· + 1) (Nat.max_zero _)
  have first := Json.length_writeMember ("instrs", .array (toJsonAll instrs))
  rw [deep]
  rw [Block.toJson, Block.fields] at enough ⊢
  simp only [write, List.length_cons, List.length_append, List.length_nil, Json.writeMembers_cons]
    at enough
  dsimp only at first
  obtain ⟨fuel, rfl⟩ : ∃ k, fuel = k + 2 := ⟨fuel - 2, by omega⟩
  have opening : isBlank '\x7b' = false := rfl
  rw [Json.write_object, readBlock]
  simp only [skipBlanks_cons opening]
  cases limit with
  | zero => rw [upTo_succ_zero]
  | succ limit =>
    have name : "instrs".toList.length = 6 := rfl
    rw [upTo_succ, Json.writeMembers_cons, List.append_assoc, Json.writeMember_append]
    dsimp only
    rw [readBlockMembers, Json.nextKey_first, ok_bind]
    dsimp only
    rw [readText_written _ _ (by omega), ok_bind]
    dsimp only
    rw [if_pos rfl, if_neg (by simp), Json.readColon_colon, ok_bind,
      readBody_written instrs _ limit _ (by omega)]
    apply upTo_bind_ok
    intro _
    exact readBlockMembers_line instrs line limit rest (by omega)

end Document

theorem Block.exact_toJson (b : Block) : b.toJson.Exact := b.written.exact_object

theorem Expr.exact_toJson (e : Expr) : e.toJson.Exact := by
  obtain ⟨_, written⟩ := e.written
  exact written.exact_toJson

/-- Nothing is left of a document that was read. -/
theorem Document.finish_upTo {α : Type} (limit deep : Nat) (a : α) :
    (Json.upTo limit deep (a, []) >>= Document.finish) = Json.upTo limit deep a :=
  Json.upTo_bind_ok fun _ => rfl

theorem Json.toList_render (j : Json) : j.render.toList = j.write ++ [] := by
  rw [Json.render, String.toList_ofList, List.append_nil]

theorem Json.fuelFor_enough (j : Json) : 2 * j.write.length ≤ Json.fuelFor (j.write ++ []) := by
  rw [Json.fuelFor, List.append_nil]
  omega

/-- Reading the document of a block. -/
theorem Block.parse_render (b : Block) :
    Block.parse b.render = Json.upTo Document.maxDepth (Json.nesting b.render) b := by
  have nested : Json.nesting b.render = b.toJson.depth := b.exact_toJson.nesting_render
  have read := Document.readBlock_written b _ Document.maxDepth [] b.toJson.fuelFor_enough
  have text : b.render.toList = b.toJson.write ++ [] := b.toJson.toList_render
  simp only [Block.parse, text]
  rw [read, nested]
  exact Document.finish_upTo _ _ b

/-- Reading the document of an expression. -/
theorem Expr.parse_render (e : Expr) :
    Expr.parse e.render = Json.upTo Document.maxDepth (Json.nesting e.render) e := by
  have nested : Json.nesting e.render = e.toJson.depth := e.exact_toJson.nesting_render
  have read := Document.readExpr_written e _ Document.maxDepth [] e.toJson.fuelFor_enough
  have text : e.render.toList = e.toJson.write ++ [] := e.toJson.toList_render
  simp only [Expr.parse, text]
  rw [read, nested]
  exact Document.finish_upTo _ _ e

theorem Json.upTo_eq_ok_iff {α : Type} {limit deep : Nat} {a : α} :
    Json.upTo limit deep a = .ok a ↔ deep ≤ limit := by
  unfold Json.upTo
  by_cases fits : deep ≤ limit
  · simp [fits]
  · simp [fits]

/-- A program and its document. The document is read as the program it was written for exactly if it
nests at most 127 arrays and objects; if it nests more it is malformed. So running the document is
running the program, up to that depth. The same holds for documents of expressions. -/
theorem documents_round_trip :
    (∀ b : Block,
      (Block.parse b.render = .ok b ↔ Json.nesting b.render ≤ 127) ∧
      (127 < Json.nesting b.render → Block.parse b.render = .error .malformed) ∧
      ∀ depth m, executeDocument depth b.render m =
        if Json.nesting b.render ≤ 127 then execute depth b m
        else some (.error (.document .malformed), m)) ∧
    ∀ e : Expr,
      (Expr.parse e.render = .ok e ↔ Json.nesting e.render ≤ 127) ∧
      (127 < Json.nesting e.render → Expr.parse e.render = .error .malformed) := by
  constructor
  · intro b
    have read := b.parse_render
    refine ⟨?_, ?_, ?_⟩
    · rw [read]
      exact Json.upTo_eq_ok_iff
    · intro deeper
      rw [read]
      exact if_neg (Nat.not_le.mpr deeper)
    · intro depth m
      rw [executeDocument, read, Json.upTo, Document.maxDepth]
      by_cases fits : Json.nesting b.render ≤ 127
      · rw [if_pos fits, if_pos fits]
      · rw [if_neg fits, if_neg fits]
  · intro e
    have read := e.parse_render
    constructor
    · rw [read]
      exact Json.upTo_eq_ok_iff
    · intro deeper
      rw [read]
      exact if_neg (Nat.not_le.mpr deeper)

/-- A value that is returned from within `n` more returns. -/
def nestedReturns : Nat → Expr
  | 0 => .literal (.text "\"[\\\n") 4294967295
  | n + 1 => .ret (nestedReturns n) 1

theorem depth_nestedReturns (n : Nat) : (nestedReturns n).toJson.depth = n + 1 := by
  induction n with
  | zero => rfl
  | succ n ih =>
    rw [nestedReturns, Expr.toJson, Kind.node]
    simp only [Json.depth, Json.depthMembers, Json.ofLine, ih]
    omega

theorem nesting_nestedReturns (n : Nat) :
    Json.nesting (Block.mk [nestedReturns n] 1).render = n + 3 := by
  have nested := (Block.mk [nestedReturns n] 1).exact_toJson.nesting_render
  rw [Block.render, nested, Block.toJson, Block.fields]
  simp only [Json.depth, Json.depthMembers, Json.depthItems, Json.ofLine, toJsonAll,
    depth_nestedReturns]
  omega

theorem documents_round_trip_at_bound :
    Json.nesting (Block.mk [nestedReturns 124] 1).render = 127 ∧
    Block.parse (Block.mk [nestedReturns 124] 1).render = .ok (.mk [nestedReturns 124] 1) ∧
    127 < Json.nesting (Block.mk [nestedReturns 125] 1).render ∧
    Block.parse (Block.mk [nestedReturns 125] 1).render = .error .malformed := by
  have within := nesting_nestedReturns 124
  have beyond : 127 < Json.nesting (Block.mk [nestedReturns 125] 1).render := by
    rw [nesting_nestedReturns]
    decide
  obtain ⟨accepted, -, -⟩ := documents_round_trip.1 (.mk [nestedReturns 124] 1)
  obtain ⟨-, refused, -⟩ := documents_round_trip.1 (.mk [nestedReturns 125] 1)
  exact ⟨within, accepted.mpr (Nat.le_of_eq within), beyond, refused beyond⟩

end ScriptEngine
