import ScriptEngine.Proofs.Forms

/-!
# Normalising documents

A document that is read can be written again: the document of the program that was found in it nests no
more arrays and objects than the first, so it is read too, and as the same program. A field that was left
out adds no level, since the empty block is no deeper than the block that has to stand beside it.
-/

namespace ScriptEngine

open Json (Reading Decoding bind_eq_ok depthItems depthMembers)

namespace Json

theorem depth_of_finishNumber {negative isInteger : Bool} {whole fraction cs r : List Char} {j : Json}
    (done : finishNumber negative whole fraction isInteger cs = .ok (j, r)) : j.depth = 0 := by
  have decimal : ∀ {d : Decimal} {j : Json}, checked d = .ok j → j.depth = 0 := by
    intro d j made
    rw [checked] at made
    split at made
    · cases made
      rfl
    · cases made
  unfold finishNumber at done
  split at done
  · obtain ⟨a, -, rest⟩ := bind_eq_ok done
    obtain ⟨k, made, same⟩ := bind_eq_ok rest
    cases same
    exact decimal made
  · obtain ⟨a, -, rest⟩ := bind_eq_ok done
    obtain ⟨k, made, same⟩ := bind_eq_ok rest
    cases same
    exact decimal made
  · split at done
    · rcases ofInteger_cases negative whole with ⟨n, integer⟩ | large
      · rw [integer] at done
        cases done
        rfl
      · rw [large] at done
        obtain ⟨k, made, same⟩ := bind_eq_ok done
        cases same
        exact decimal made
    · obtain ⟨k, made, same⟩ := bind_eq_ok done
      cases same
      exact decimal made

theorem depth_of_readNumber {negative : Bool} {cs r : List Char} {j : Json}
    (done : readNumber negative cs = .ok (j, r)) : j.depth = 0 := by
  unfold readNumber at done
  split at done
  · cases done
  · dsimp only at done
    split at done
    · cases done
    · split at done
      · cases done
      · split at done
        · split at done
          · split at done <;> cases done
          · exact depth_of_finishNumber done
        · exact depth_of_finishNumber done

/-- What was read is no deeper than was allowed. -/
theorem depth_of_read (fuel : Nat) :
    (∀ {limit cs j r}, readValue fuel limit cs = .ok (j, r) → j.depth ≤ limit) ∧
    (∀ {limit first cs js r}, readItems fuel limit first cs = .ok (js, r) → depthItems js ≤ limit) ∧
    (∀ {limit first cs ms r}, readMembers fuel limit first cs = .ok (ms, r) →
      depthMembers ms ≤ limit) := by
  induction fuel with
  | zero => exact ⟨by intros; contradiction, by intros; contradiction, by intros; contradiction⟩
  | succ fuel ih =>
    obtain ⟨ofValue, ofItems, ofMembers⟩ := ih
    refine ⟨?_, ?_, ?_⟩
    · intro limit cs j r done
      rw [readValue] at done
      split at done
      · cases done
      · obtain ⟨_, -, same⟩ := bind_eq_ok done
        cases same
        exact Nat.zero_le _
      · obtain ⟨_, -, same⟩ := bind_eq_ok done
        cases same
        exact Nat.zero_le _
      · obtain ⟨_, -, same⟩ := bind_eq_ok done
        cases same
        exact Nat.zero_le _
      · obtain ⟨_, -, same⟩ := bind_eq_ok done
        cases same
        exact Nat.zero_le _
      · rw [depth_of_readNumber done]
        exact Nat.zero_le _
      · cases limit with
        | zero => cases done
        | succ limit =>
          obtain ⟨⟨js, rest⟩, items, same⟩ := bind_eq_ok done
          cases same
          exact Nat.succ_le_succ (ofItems items)
      · cases limit with
        | zero => cases done
        | succ limit =>
          obtain ⟨⟨ms, rest⟩, members, same⟩ := bind_eq_ok done
          cases same
          exact Nat.succ_le_succ (ofMembers members)
      · split at done
        · rw [depth_of_readNumber done]
          exact Nat.zero_le _
        · cases done
    · intro limit first cs js r done
      rw [readItems] at done
      obtain ⟨next, -, done⟩ := bind_eq_ok done
      cases next with
      | none =>
        obtain ⟨_, -, same⟩ := bind_eq_ok done
        cases same
        exact Nat.zero_le _
      | some cs =>
        obtain ⟨⟨j, cs'⟩, value, done⟩ := bind_eq_ok done
        obtain ⟨⟨ks, cs''⟩, later, same⟩ := bind_eq_ok done
        cases same
        exact Nat.max_le.mpr ⟨ofValue value, ofItems later⟩
    · intro limit first cs ms r done
      rw [readMembers] at done
      obtain ⟨next, -, done⟩ := bind_eq_ok done
      cases next with
      | none =>
        obtain ⟨_, -, same⟩ := bind_eq_ok done
        cases same
        exact Nat.zero_le _
      | some cs =>
        obtain ⟨⟨key, cs'⟩, -, done⟩ := bind_eq_ok done
        obtain ⟨cs'', -, done⟩ := bind_eq_ok done
        obtain ⟨⟨j, cs'''⟩, value, done⟩ := bind_eq_ok done
        obtain ⟨⟨ks, rest⟩, later, same⟩ := bind_eq_ok done
        cases same
        exact Nat.max_le.mpr ⟨ofValue value, ofMembers later⟩

end Json

namespace Json

/-- The value was read from a tree up to a depth. -/
def ReadFrom {α : Type} (read : Json → Decoding α) (deep : Nat) (x : α) : Prop :=
  ∃ v, v.depth ≤ deep ∧ read v = .ok x

theorem Row.Taken.split {P : Json → Prop} {α : Type} {αs : List Type} {f : FieldSpec α}
    {rest : Row αs} {x : α} {xs : Fields αs} (taken : Taken P (.field f rest) (x, xs)) :
    ((∃ v, P v ∧ f.read v = .ok x) ∨ f.absent = some x) ∧ Taken P rest xs := by
  cases taken with
  | field source later => exact ⟨source, later⟩

/-- A field that nothing stands for was read. -/
theorem Row.Taken.required {deep : Nat} {α : Type} {αs : List Type} {f : FieldSpec α}
    {rest : Row αs} {x : α} {xs : Fields αs}
    (taken : Taken (fun v => v.depth ≤ deep) (.field f rest) (x, xs)) (needed : f.absent = none) :
    ReadFrom f.read deep x ∧ Taken (fun v => v.depth ≤ deep) rest xs := by
  obtain ⟨source, later⟩ := taken.split
  rcases source with read | absent
  · exact ⟨read, later⟩
  · rw [needed] at absent
    cases absent

theorem depthItems_texts (ss : List String) : depthItems (ss.map .text) = 0 := by
  induction ss with
  | nil => rfl
  | cons s ss ih => exact (Nat.zero_max _).trans ih

/-- A list that was read item by item is no deeper than the list it was read from. -/
theorem depth_of_asList {α : Type} {read : Json → Decoding α} {encode : α → Json} {deep : Nat}
    {xs : List α} (each : ∀ {v x}, read v = .ok x → (encode x).depth ≤ v.depth)
    (found : ReadFrom (asList read) deep xs) : depth (.array (xs.map encode)) ≤ deep := by
  have inside : ∀ (items : List Json) (xs : List α), items.mapM read = .ok xs →
      depthItems (xs.map encode) ≤ depthItems items := by
    intro items
    induction items with
    | nil =>
      intro xs done
      cases done
      exact Nat.le_refl _
    | cons j js ih =>
      intro xs done
      rw [List.mapM_cons] at done
      obtain ⟨x, head, done⟩ := bind_eq_ok done
      obtain ⟨rest, tail, same⟩ := bind_eq_ok done
      cases same
      have first := each head
      have later := ih rest tail
      simp only [List.map_cons, depthItems]
      omega
  obtain ⟨v, small, done⟩ := found
  cases v with
  | array items =>
    have less := inside items xs done
    rw [depth] at small ⊢
    omega
  | _ => cases done

end Json

theorem toJsonAll_eq_map (es : List Expr) : toJsonAll es = es.map Expr.toJson := by
  induction es with
  | nil => rfl
  | cons e es ih => rw [toJsonAll, ih, List.map_cons]

theorem toJsonEntries_eq_map (es : List (String × Expr)) :
    toJsonEntries es = es.map fun entry => .array [.text entry.1, entry.2.toJson] := by
  induction es with
  | nil => rfl
  | cons entry es ih => rw [toJsonEntries, ih, List.map_cons]

open Json (ReadFrom)

theorem Block.depth_empty_le (b : Block) :
    Json.depth (.object Block.empty.fields) ≤ Json.depth (.object b.fields) := by
  obtain ⟨instrs, line⟩ := b
  simp only [Block.empty, Block.fields, toJsonAll, Json.depth, depthMembers, depthItems, Json.ofLine]
  omega

/-- Decoded nodes are no deeper than the trees they were decoded from. -/
def Bounded (expr : Json → Decoding Expr) : Prop :=
  ∀ {j e}, expr j = .ok e → e.toJson.depth ≤ j.depth

namespace Bounded

variable {expr : Json → Decoding Expr} (bounded : Bounded expr)

include bounded

theorem node {deep : Nat} {e : Expr} (read : ReadFrom expr deep e) : e.toJson.depth ≤ deep := by
  obtain ⟨v, small, done⟩ := read
  exact Nat.le_trans (bounded done) small

theorem list {deep : Nat} {es : List Expr} (read : ReadFrom (Json.asList expr) deep es) :
    Json.depth (.array (toJsonAll es)) ≤ deep := by
  rw [toJsonAll_eq_map]
  exact Json.depth_of_asList bounded read

theorem pair {j : Json} {entry : String × Expr}
    (done : Json.asPair Json.asText expr j = .ok entry) :
    Json.depth (.array [.text entry.1, entry.2.toJson]) ≤ j.depth := by
  unfold Json.asPair at done
  split at done
  · cases done
  · obtain ⟨_, -, fails⟩ := bind_eq_ok done
    cases fails
  · obtain ⟨key, -, done⟩ := bind_eq_ok done
    obtain ⟨e, value, done⟩ := bind_eq_ok done
    split at done
    · cases done
      have inside := bounded value
      simp only [Json.depth, depthItems]
      omega
    · cases done
  · cases done

theorem entries {deep : Nat} {es : List (String × Expr)}
    (read : ReadFrom (Json.asList (Json.asPair Json.asText expr)) deep es) :
    Json.depth (.array (toJsonEntries es)) ≤ deep := by
  rw [toJsonEntries_eq_map]
  exact Json.depth_of_asList bounded.pair read

theorem blockParts {parts : Json.Parts} {name : String} {instrs : List Expr} {line : UInt32}
    (done : (blockRow expr).decode name parts = .ok (instrs, line, ())) :
    depthMembers (Block.mk instrs line).fields ≤ parts.depth := by
  obtain ⟨read, -⟩ := (Json.Row.taken_of_decode done).required rfl
  have inside := bounded.list read
  simp only [Block.fields, depthMembers, Json.ofLine]
  rw [Json.depth] at inside ⊢
  exact Nat.max_le.mpr ⟨inside, Nat.zero_le _⟩

theorem block {deep : Nat} {b : Block} (read : ReadFrom (decodeBlockWith expr) deep b) :
    Json.depth (.object b.fields) ≤ deep := by
  obtain ⟨v, small, done⟩ := read
  unfold decodeBlockWith at done
  split at done
  · obtain ⟨⟨instrs, line, ⟨⟩⟩, decoded, same⟩ := bind_eq_ok done
    cases same
    have inside := bounded.blockParts decoded
    simp only [Json.depth] at small ⊢
    exact Nat.le_trans (Nat.succ_le_succ inside) small
  · obtain ⟨⟨instrs, line, ⟨⟩⟩, decoded, same⟩ := bind_eq_ok done
    cases same
    have inside := bounded.blockParts decoded
    simp only [Json.depth] at small ⊢
    exact Nat.le_trans (Nat.succ_le_succ inside) small
  · cases done

theorem decodeParts {kind : Kind} {parts : Json.Parts} {e : Expr}
    (done : decodeParts expr kind parts = .ok e) : e.toJson.depth ≤ parts.depth + 1 := by
  cases kind with
  | block =>
    obtain ⟨⟨instrs, line, ⟨⟩⟩, decoded, same⟩ := bind_eq_ok done
    cases same
    have inside := bounded.blockParts decoded
    simp only [Expr.toJson, Kind.node, Json.depth, depthMembers]
    omega
  | literal =>
    obtain ⟨⟨value, line, ⟨⟩⟩, -, same⟩ := bind_eq_ok done
    cases same
    cases value <;>
      simp only [Expr.toJson, Kind.node, Json.depth, depthMembers, Literal.toJson, Json.ofLine] <;>
      omega
  | call =>
    obtain ⟨⟨callee, args, line, ⟨⟩⟩, decoded, same⟩ := bind_eq_ok done
    cases same
    obtain ⟨first, taken⟩ := (Json.Row.taken_of_decode decoded).required rfl
    obtain ⟨second, -⟩ := taken.required rfl
    have head := bounded.node first
    have tail := bounded.list second
    simp only [Expr.toJson, Kind.node, Json.depth, depthMembers, Json.ofLine] at tail ⊢
    omega
  | var =>
    obtain ⟨⟨name, line, ⟨⟩⟩, -, same⟩ := bind_eq_ok done
    cases same
    simp only [Expr.toJson, Kind.node, Json.depth, depthMembers, Json.ofLine]
    omega
  | assign =>
    obtain ⟨⟨name, value, declares, line, ⟨⟩⟩, decoded, same⟩ := bind_eq_ok done
    cases same
    obtain ⟨-, taken⟩ := (Json.Row.taken_of_decode decoded).required rfl
    obtain ⟨second, -⟩ := taken.required rfl
    have inner := bounded.node second
    simp only [Expr.toJson, Kind.node, Json.depth, depthMembers, Json.ofLine]
    omega
  | function =>
    obtain ⟨⟨name, params, body, line, ⟨⟩⟩, decoded, same⟩ := bind_eq_ok done
    cases same
    obtain ⟨-, taken⟩ := (Json.Row.taken_of_decode decoded).split
    obtain ⟨-, taken⟩ := taken.required rfl
    obtain ⟨third, -⟩ := taken.required rfl
    have inner := bounded.block third
    have flat := Json.depthItems_texts params
    cases name <;>
      simp only [Expr.toJson, Kind.node, Json.depth, depthMembers, Json.ofLine, Json.ofText?, flat]
        at inner ⊢ <;>
      omega
  | ret =>
    obtain ⟨⟨value, line, ⟨⟩⟩, decoded, same⟩ := bind_eq_ok done
    cases same
    obtain ⟨first, -⟩ := (Json.Row.taken_of_decode decoded).required rfl
    have inner := bounded.node first
    simp only [Expr.toJson, Kind.node, Json.depth, depthMembers, Json.ofLine]
    omega
  | cond =>
    obtain ⟨⟨condition, yes, no, line, ⟨⟩⟩, decoded, same⟩ := bind_eq_ok done
    cases same
    obtain ⟨first, taken⟩ := (Json.Row.taken_of_decode decoded).required rfl
    obtain ⟨second, taken⟩ := taken.required rfl
    obtain ⟨third, -⟩ := taken.split
    have test := bounded.node first
    have left := bounded.block second
    have right : Json.depth (.object no.fields) ≤ parts.depth := by
      rcases third with read | absent
      · exact bounded.block read
      · -- the empty block that stands for the second arm is no deeper than any first arm
        cases absent
        exact Nat.le_trans yes.depth_empty_le left
    simp only [Expr.toJson, Kind.node, Json.depth, depthMembers, Json.ofLine] at left right ⊢
    omega
  | object =>
    obtain ⟨⟨pairs, line, ⟨⟩⟩, decoded, same⟩ := bind_eq_ok done
    cases same
    obtain ⟨first, -⟩ := (Json.Row.taken_of_decode decoded).required rfl
    have inner := bounded.entries first
    simp only [Expr.toJson, Kind.node, Json.depth, depthMembers, Json.ofLine] at inner ⊢
    omega
  | field =>
    obtain ⟨⟨receiver, name, line, ⟨⟩⟩, decoded, same⟩ := bind_eq_ok done
    cases same
    obtain ⟨first, -⟩ := (Json.Row.taken_of_decode decoded).required rfl
    have owner := bounded.node first
    simp only [Expr.toJson, Kind.node, Json.depth, depthMembers, Json.ofLine]
    omega
  | setField =>
    obtain ⟨⟨receiver, name, value, line, ⟨⟩⟩, decoded, same⟩ := bind_eq_ok done
    cases same
    obtain ⟨first, taken⟩ := (Json.Row.taken_of_decode decoded).required rfl
    obtain ⟨-, taken⟩ := taken.required rfl
    obtain ⟨third, -⟩ := taken.required rfl
    have owner := bounded.node first
    have inner := bounded.node third
    simp only [Expr.toJson, Kind.node, Json.depth, depthMembers, Json.ofLine]
    omega
  | method =>
    obtain ⟨⟨receiver, name, args, line, ⟨⟩⟩, decoded, same⟩ := bind_eq_ok done
    cases same
    obtain ⟨first, taken⟩ := (Json.Row.taken_of_decode decoded).required rfl
    obtain ⟨-, taken⟩ := taken.required rfl
    obtain ⟨third, -⟩ := taken.required rfl
    have owner := bounded.node first
    have rest := bounded.list third
    simp only [Expr.toJson, Kind.node, Json.depth, depthMembers, Json.ofLine] at rest ⊢
    omega

end Bounded

theorem depth_of_splitKind {members rest : List (String × Json)} {slot : Option Kind} {kind : Kind}
    (done : splitKind members slot = .ok (kind, rest)) :
    depthMembers rest ≤ depthMembers members := by
  induction members generalizing slot rest with
  | nil =>
    cases slot with
    | none => cases done
    | some kind =>
      cases done
      exact Nat.le_refl _
  | cons m ms ih =>
    obtain ⟨key, v⟩ := m
    rw [depthMembers]
    simp only [splitKind] at done
    by_cases same : key = kindKey
    · rw [if_pos same] at done
      cases slot with
      | some _ => cases done
      | none =>
        obtain ⟨found, -, done⟩ := bind_eq_ok done
        have less := ih done
        omega
    · rw [if_neg same] at done
      obtain ⟨⟨found, others⟩, later, made⟩ := bind_eq_ok done
      cases made
      have less : depthMembers others ≤ depthMembers ms := ih later
      dsimp only
      rw [depthMembers]
      omega

/-- Every node is decoded from a tree at least as deep as what is written for it. -/
theorem bounded_decodeExpr (limit : Nat) : Bounded (decodeExpr limit) := by
  induction limit with
  | zero =>
    intro j e done
    cases j <;> cases done
  | succ limit ih =>
    intro j e done
    cases j with
    | object members =>
      obtain ⟨⟨kind, rest⟩, split, decoded⟩ := bind_eq_ok done
      have less := depth_of_splitKind split
      have inside := ih.decodeParts decoded
      simp only [Json.Parts.depth] at inside
      rw [Json.depth]
      omega
    | array items =>
      cases items with
      | nil => cases done
      | cons first items =>
        obtain ⟨kind, -, decoded⟩ := bind_eq_ok done
        have inside := ih.decodeParts decoded
        simp only [Json.Parts.depth] at inside
        rw [Json.depth, depthItems]
        omega
    | _ => cases done

namespace Document

open Json (depth_of_read)

theorem ok_of_ofDecoding {α : Type} {r : Except ShapeError α} {a : α} (done : ofDecoding r = .ok a) :
    r = .ok a := by
  cases r with
  | error e => cases done
  | ok b =>
    cases done
    rfl

theorem not_wrongType {α : Type} {fuel : Nat} {expected : String} {cs : List Char} {a : α} :
    wrongType fuel expected cs ≠ .ok a := by
  intro done
  unfold wrongType at done
  split at done
  · cases done
  · cases done
  · obtain ⟨_, -, fails⟩ := bind_eq_ok done
    cases fails

theorem depth_of_readTagged {fuel limit : Nat} {first : Bool} {slot : Option Kind}
    {cs r : List Char} {kind : Kind} {members : List (String × Json)}
    (done : readTagged fuel limit first slot cs = .ok ((kind, members), r)) :
    depthMembers members ≤ limit := by
  induction fuel generalizing first slot cs members with
  | zero => cases done
  | succ fuel ih =>
    simp only [readTagged] at done
    obtain ⟨next, -, done⟩ := bind_eq_ok done
    cases next with
    | none =>
      cases slot with
      | none => cases done
      | some kind =>
        obtain ⟨_, -, same⟩ := bind_eq_ok done
        cases same
        exact Nat.zero_le _
    | some cs =>
      obtain ⟨⟨key, cs'⟩, -, done⟩ := bind_eq_ok done
      dsimp only at done
      by_cases same : key = kindKey
      · rw [if_pos same] at done
        cases slot with
        | some _ => cases done
        | none =>
          obtain ⟨_, -, done⟩ := bind_eq_ok done
          obtain ⟨_, -, done⟩ := bind_eq_ok done
          exact ih done
      · rw [if_neg same] at done
        obtain ⟨_, -, done⟩ := bind_eq_ok done
        obtain ⟨⟨j, _⟩, value, done⟩ := bind_eq_ok done
        obtain ⟨⟨⟨_, ms⟩, _⟩, later, made⟩ := bind_eq_ok done
        cases made
        exact Nat.max_le.mpr ⟨(depth_of_read fuel).1 value, ih later⟩

theorem depth_of_readExpr {fuel limit : Nat} {cs r : List Char} {e : Expr}
    (done : readExpr fuel limit cs = .ok (e, r)) : e.toJson.depth ≤ limit := by
  unfold readExpr at done
  split at done
  · cases limit with
    | zero => cases done
    | succ limit =>
      obtain ⟨next, -, done⟩ := bind_eq_ok done
      cases next with
      | none => cases done
      | some cs =>
        obtain ⟨⟨kind, cs'⟩, -, done⟩ := bind_eq_ok done
        obtain ⟨⟨items, cs''⟩, read, done⟩ := bind_eq_ok done
        obtain ⟨_, decoded, same⟩ := bind_eq_ok done
        cases same
        have small := (depth_of_read fuel).2.1 read
        have inside := Bounded.decodeParts (bounded_decodeExpr limit) (ok_of_ofDecoding decoded)
        exact Nat.le_trans inside (Nat.succ_le_succ small)
  · cases limit with
    | zero => cases done
    | succ limit =>
      obtain ⟨⟨⟨kind, members⟩, cs'⟩, read, done⟩ := bind_eq_ok done
      obtain ⟨_, decoded, same⟩ := bind_eq_ok done
      cases same
      have small := depth_of_readTagged read
      have inside := Bounded.decodeParts (bounded_decodeExpr limit) (ok_of_ofDecoding decoded)
      exact Nat.le_trans inside (Nat.succ_le_succ small)
  · exact absurd done not_wrongType

theorem depth_of_readInstrs {fuel limit : Nat} {first : Bool} {cs r : List Char} {es : List Expr}
    (done : readInstrs fuel limit first cs = .ok (es, r)) : depthItems (toJsonAll es) ≤ limit := by
  induction fuel generalizing first cs es with
  | zero => cases done
  | succ fuel ih =>
    rw [readInstrs] at done
    obtain ⟨next, -, done⟩ := bind_eq_ok done
    cases next with
    | none =>
      obtain ⟨_, -, same⟩ := bind_eq_ok done
      cases same
      exact Nat.zero_le _
    | some cs =>
      obtain ⟨⟨e, cs'⟩, head, done⟩ := bind_eq_ok done
      obtain ⟨⟨es', cs''⟩, later, same⟩ := bind_eq_ok done
      cases same
      exact Nat.max_le.mpr ⟨depth_of_readExpr head, ih later⟩

theorem depth_of_readBody {fuel limit : Nat} {cs r : List Char} {es : List Expr}
    (done : readBody fuel limit cs = .ok (es, r)) : depthItems (toJsonAll es) + 1 ≤ limit := by
  unfold readBody at done
  split at done
  · cases limit with
    | zero => cases done
    | succ limit => exact Nat.succ_le_succ (depth_of_readInstrs done)
  · exact absurd done not_wrongType

theorem depth_of_readBlockMembers {fuel limit : Nat} {first : Bool} {slot : Option (List Expr)}
    {lineSlot : Option UInt32} {cs r : List Char} {instrs : List Expr} {line : UInt32}
    (met : ∀ es, slot = some es → depthItems (toJsonAll es) + 1 ≤ limit)
    (done : readBlockMembers fuel limit first slot lineSlot cs = .ok (.mk instrs line, r)) :
    depthItems (toJsonAll instrs) + 1 ≤ limit := by
  induction fuel generalizing first slot lineSlot cs with
  | zero => cases done
  | succ fuel ih =>
    simp only [readBlockMembers] at done
    obtain ⟨next, -, done⟩ := bind_eq_ok done
    cases next with
    | none =>
      cases slot with
      | none => cases done
      | some es =>
        obtain ⟨_, -, same⟩ := bind_eq_ok done
        cases same
        exact met _ rfl
    | some cs =>
      obtain ⟨⟨key, cs'⟩, -, done⟩ := bind_eq_ok done
      dsimp only at done
      by_cases body : key = "instrs"
      · rw [if_pos body] at done
        cases slot with
        | some _ => cases done
        | none =>
          obtain ⟨_, -, done⟩ := bind_eq_ok done
          obtain ⟨⟨es, cs''⟩, read, done⟩ := bind_eq_ok done
          refine ih ?_ done
          rintro _ ⟨⟩
          exact depth_of_readBody read
      rw [if_neg body] at done
      by_cases number : key = "line"
      · rw [if_pos number] at done
        cases lineSlot with
        | some _ => cases done
        | none =>
          obtain ⟨_, -, done⟩ := bind_eq_ok done
          obtain ⟨_, -, done⟩ := bind_eq_ok done
          exact ih met done
      · rw [if_neg number] at done
        obtain ⟨_, -, done⟩ := bind_eq_ok done
        obtain ⟨_, -, done⟩ := bind_eq_ok done
        exact ih met done

theorem depth_of_readBlockItems {fuel limit : Nat} {cs r : List Char} {instrs : List Expr}
    {line : UInt32} (done : readBlockItems fuel limit cs = .ok (.mk instrs line, r)) :
    depthItems (toJsonAll instrs) + 1 ≤ limit := by
  obtain ⟨next, -, done⟩ := bind_eq_ok done
  cases next with
  | none => cases done
  | some cs =>
    obtain ⟨⟨es, cs'⟩, read, done⟩ := bind_eq_ok done
    obtain ⟨after, -, done⟩ := bind_eq_ok done
    cases after with
    | none =>
      obtain ⟨_, -, same⟩ := bind_eq_ok done
      cases same
      exact depth_of_readBody read
    | some cs =>
      obtain ⟨_, -, done⟩ := bind_eq_ok done
      obtain ⟨_, -, same⟩ := bind_eq_ok done
      cases same
      exact depth_of_readBody read

/-- A block is written no deeper than the document that it was read from may be. -/
theorem depth_of_readBlock {fuel limit : Nat} {cs r : List Char} {b : Block}
    (done : readBlock fuel limit cs = .ok (b, r)) : b.toJson.depth ≤ limit := by
  obtain ⟨instrs, line⟩ := b
  have deep : (Block.mk instrs line).toJson.depth = depthItems (toJsonAll instrs) + 2 := by
    simp only [Block.toJson, Block.fields, Json.depth, depthMembers, Json.ofLine]
    omega
  rw [deep]
  unfold readBlock at done
  split at done
  · cases limit with
    | zero => cases done
    | succ limit => exact Nat.succ_le_succ (depth_of_readBlockItems done)
  · cases limit with
    | zero => cases done
    | succ limit =>
      refine Nat.succ_le_succ (depth_of_readBlockMembers ?_ done)
      intro es none_met
      cases none_met
  · exact absurd done not_wrongType

end Document

theorem Block.nesting_of_parse {text : String} {b : Block} (done : Block.parse text = .ok b) :
    Json.nesting b.render ≤ Document.maxDepth := by
  obtain ⟨⟨b', r⟩, read, finished⟩ := bind_eq_ok done
  have same : b' = b := by
    simp only [Document.finish] at finished
    split at finished
    · cases finished
      rfl
    · cases finished
  subst same
  have nested : Json.nesting b'.render = b'.toJson.depth := b'.exact_toJson.nesting_render
  rw [nested]
  exact Document.depth_of_readBlock read

open Json (Gap Lead Grammatical Numeral Spelled SpelledKey SpelledCode SpelledExponent SpelledNumber Stops
  NoDigit write ofParts stops_comma noDigit_cons)

/-- Any grammatical value, where nobody asks which one. -/
def Json.Anything (t : List Char) (_ : Decimal) (r : List Char) : Prop := ∃ deep, Grammatical t deep r

/-- A key without escapes, and no blanks around it. -/
theorem spelledKey_plain (name : String)
    (each : ∀ c ∈ name.toList, 0x20 ≤ c.toNat ∧ c ≠ '"' ∧ c ≠ '\\') {r : List Char} :
    SpelledKey ('"' :: (name.toList ++ '"' :: ':' :: r)) name r := by
  have chars : Json.SpelledText (name.toList ++ '"' :: ':' :: r) name (':' :: r) := by
    simpa only [Json.SpelledText, List.append_nil] using
      Json.SpelledChars.unescaped name.toList each .close
  exact .pair (.refl _) chars (.refl _) (.refl _)

/-- A number beyond the finite doubles. -/
theorem numeral_huge {r : List Char} (ends : NoDigit r) :
    Numeral (['1'] ++ 'e' :: (['9', '9', '9'] ++ r)) ['1'] [] (some 999) r :=
  .scaled ⟨by simp, by simp, by simp⟩ (.plain (.inl rfl) (by simp) (by simp) ends)

end ScriptEngine
