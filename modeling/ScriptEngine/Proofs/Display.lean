import ScriptEngine.Heap.Display
import Mathlib.Algebra.BigOperators.Group.Finset.Basic
import Mathlib.Logic.Relation

/-!
# What is shown of an object

The text of an object is read off a tree of visits. A visit either shows an object with all its lines, the
entries in order and the prototype last, or only names it; it is shown exactly if no visit before it was
to the same object. For every heap, however its objects are tied together, there is exactly one such tree
from a given root, and the text is the text of this tree. It shows each object that can be reached once.
-/

namespace ScriptEngine

open Heap (plainText renderEntries renderObject)

/-- The objects among the values of entries, and the prototype after them. -/
def linksOf (entries : List (String × Value)) (proto : Option ObjectId) : List ObjectId :=
  entries.filterMap (·.2.object?) ++ proto.toList

namespace Heap

/-- The objects that an object leads to: those it holds in the order of its entries, then its
prototype. -/
def links (h : Heap) (id : ObjectId) : List ObjectId := linksOf (h.entries id) (h.proto? id)

/-- An object can be reached from another one through own properties and prototypes. -/
def Reaches (h : Heap) : ObjectId → ObjectId → Prop := Relation.ReflTransGen fun a b => b ∈ h.links a

/-- An object shows the same in two heaps, as far as it goes itself. -/
structure LooksAlike (h h' : Heap) (id : ObjectId) : Prop where
  name : h'.nameOf id = h.nameOf id
  entries : h'.entries id = h.entries id
  proto : h'.proto? id = h.proto? id

/-- How many objects of the heap are not among `seen`. -/
def unseen (h : Heap) (seen : List ObjectId) : Nat := (Finset.range h.size \ seen.toFinset).card

theorem unseen_le (h : Heap) {seen seen' : List ObjectId} (more : ∀ id ∈ seen, id ∈ seen') :
    h.unseen seen' ≤ h.unseen seen := by
  apply Finset.card_le_card
  intro id member
  simp only [Finset.mem_sdiff, Finset.mem_range, List.mem_toFinset] at member ⊢
  exact ⟨member.1, fun old => member.2 (more id old)⟩

theorem unseen_cons_lt {h : Heap} {seen : List ObjectId} {id : ObjectId} (inside : id < h.size)
    (new : id ∉ seen) : h.unseen (id :: seen) < h.unseen seen := by
  apply Finset.card_lt_card
  refine ⟨?_, ?_⟩
  · intro other member
    simp only [Finset.mem_sdiff, Finset.mem_range, List.mem_toFinset, List.mem_cons] at member ⊢
    exact ⟨member.1, fun old => member.2 (Or.inr old)⟩
  · intro all
    have here : id ∈ Finset.range h.size \ seen.toFinset := by simp [inside, new]
    simpa using all here

/-- A number beyond the heap stands for an object with nothing in it. -/
theorem entries_of_not_lt {h : Heap} {id : ObjectId} (beyond : ¬ id < h.size) :
    h.entries id = [] ∧ h.proto? id = none := by
  have gone : h.object? id = none := Array.getElem?_eq_none (Nat.le_of_not_lt beyond)
  simp [entries, properties, proto?, gone]

end Heap

/-- A visit to an object: it is shown in full, or only named. -/
structure Visit where
  id : ObjectId
  expanded : Bool
  deriving DecidableEq

/-- An object is shown in full at the first visit to it and at no other one, where those in `seen`
were visited before. -/
def FirstVisits : (seen : List ObjectId) → List Visit → Prop
  | _, [] => True
  | seen, v :: rest => (v.expanded = true ↔ v.id ∉ seen) ∧ FirstVisits (v.id :: seen) rest

namespace FirstVisits

theorem congr {seen seen' : List ObjectId} (same : ∀ id, id ∈ seen ↔ id ∈ seen')
    {visits : List Visit} : FirstVisits seen visits ↔ FirstVisits seen' visits := by
  induction visits generalizing seen seen' with
  | nil => exact Iff.rfl
  | cons v rest ih =>
    have longer : ∀ id, id ∈ v.id :: seen ↔ id ∈ v.id :: seen' := by simp [same]
    simp only [FirstVisits, same, ih longer]

theorem append {seen : List ObjectId} {first second : List Visit} :
    FirstVisits seen (first ++ second) ↔
      FirstVisits seen first ∧ FirstVisits (first.map (·.id) ++ seen) second := by
  induction first generalizing seen with
  | nil => simp [FirstVisits]
  | cons v rest ih =>
    have same : ∀ id, id ∈ rest.map (·.id) ++ v.id :: seen ↔
        id ∈ (v :: rest).map (·.id) ++ seen := by
      intro id
      simp only [List.map_cons, List.mem_append, List.mem_cons]
      tauto
    simp only [List.cons_append, FirstVisits, ih, congr same, and_assoc]

end FirstVisits

/-- The objects shown in full, in order. -/
def expansions (visits : List Visit) : List ObjectId := (visits.filter (·.expanded)).map (·.id)

/-- The objects that are only named, in order. -/
def marks (visits : List Visit) : List ObjectId := (visits.filter (!·.expanded)).map (·.id)

theorem expansions_cons (v : Visit) (rest : List Visit) :
    expansions (v :: rest) = if v.expanded then v.id :: expansions rest else expansions rest := by
  unfold expansions
  split <;> simp_all

theorem expansions_append (first second : List Visit) :
    expansions (first ++ second) = expansions first ++ expansions second := by
  simp [expansions]

theorem length_marks_add (visits : List Visit) :
    (marks visits).length + (expansions visits).length = visits.length := by
  simp only [marks, expansions, List.length_map]
  induction visits with
  | nil => rfl
  | cons v rest ih => cases shown : v.expanded <;> simp [shown] <;> omega

namespace FirstVisits

/-- Whatever is visited is shown at some time, here or before. -/
theorem mem_expansions {seen : List ObjectId} {visits : List Visit}
    (first : FirstVisits seen visits) (id : ObjectId) :
    id ∈ expansions visits ∨ id ∈ seen ↔ id ∈ visits.map (·.id) ∨ id ∈ seen := by
  induction visits generalizing seen with
  | nil => simp [expansions]
  | cons v rest ih =>
    obtain ⟨here, later⟩ := first
    have tail := ih later
    simp only [List.mem_cons] at tail
    rw [expansions_cons]
    simp only [List.map_cons, List.mem_cons]
    by_cases shown : v.expanded = true
    · rw [if_pos shown, List.mem_cons]
      tauto
    · rw [if_neg shown]
      have old : id = v.id → id ∈ seen := by
        rintro rfl
        by_contra new
        exact shown (here.mpr new)
      tauto

theorem nodup_expansions {seen : List ObjectId} {visits : List Visit}
    (first : FirstVisits seen visits) :
    (expansions visits).Nodup ∧ ∀ id ∈ expansions visits, id ∉ seen := by
  induction visits generalizing seen with
  | nil => simp [expansions]
  | cons v rest ih =>
    obtain ⟨here, later⟩ := first
    obtain ⟨distinct, new⟩ := ih later
    rw [expansions_cons]
    by_cases shown : v.expanded = true
    · rw [if_pos shown]
      refine ⟨List.nodup_cons.mpr ⟨fun again => new v.id again List.mem_cons_self, distinct⟩, ?_⟩
      intro id member
      rcases List.mem_cons.mp member with rfl | member
      · exact here.mp shown
      · exact fun old => new id member (List.mem_cons_of_mem _ old)
    · rw [if_neg shown]
      exact ⟨distinct, fun id member old => new id member (List.mem_cons_of_mem _ old)⟩

end FirstVisits

mutual

/-- How an object is shown: it is only named, or it is shown with its lines. -/
inductive Picture where
  | mark (id : ObjectId)
  | full (id : ObjectId) (lines : Lines)

/-- The lines of an object: one for each entry, and the prototype in the last one. -/
inductive Lines where
  | root
  | proto (p : Picture)
  | plain (key : String) (v : Value) (rest : Lines)
  | object (key : String) (p : Picture) (rest : Lines)

end

mutual

def Picture.text (h : Heap) : Picture → String
  | .mark id => "... // " ++ h.nameOf id
  | .full id lines => "\x7b // " ++ h.nameOf id ++ "\n" ++ lines.text h ++ "\n\x7d"

def Lines.text (h : Heap) : Lines → String
  | .root => "  proto: null"
  | .proto p => "  proto: " ++ p.text h
  | .plain key v rest => "  " ++ key ++ ": " ++ plainText v ++ "\n" ++ rest.text h
  | .object key p rest => "  " ++ key ++ ": " ++ p.text h ++ "\n" ++ rest.text h

end

mutual

/-- The visits of a picture, in the order in which they are written. -/
def Picture.visits : Picture → List Visit
  | .mark id => [⟨id, false⟩]
  | .full id lines => ⟨id, true⟩ :: lines.visits

def Lines.visits : Lines → List Visit
  | .root => []
  | .proto p => p.visits
  | .plain _ _ rest => rest.visits
  | .object _ p rest => p.visits ++ rest.visits

end

mutual

/-- The picture is one of the object `id`: what it shows in full it shows line by line as it is. -/
inductive Depicts (h : Heap) : ObjectId → Picture → Prop
  | mark {id : ObjectId} : Depicts h id (.mark id)
  | full {id : ObjectId} {lines : Lines} : DepictLines h (h.entries id) (h.proto? id) lines →
      Depicts h id (.full id lines)

inductive DepictLines (h : Heap) : List (String × Value) → Option ObjectId → Lines → Prop
  | root : DepictLines h [] none .root
  | proto {id : ObjectId} {p : Picture} : Depicts h id p → DepictLines h [] (some id) (.proto p)
  | plain {key : String} {v : Value} {entries : List (String × Value)} {proto : Option ObjectId}
      {rest : Lines} : v.object? = none → DepictLines h entries proto rest →
      DepictLines h ((key, v) :: entries) proto (.plain key v rest)
  | object {key : String} {id : ObjectId} {p : Picture} {entries : List (String × Value)}
      {proto : Option ObjectId} {rest : Lines} : Depicts h id p → DepictLines h entries proto rest →
      DepictLines h ((key, .object id) :: entries) proto (.object key p rest)

end

/-- The first visit of a picture is the one to its object. -/
theorem Depicts.visits_eq {h : Heap} {id : ObjectId} {p : Picture} (depicts : Depicts h id p) :
    ∃ expanded rest, p.visits = ⟨id, expanded⟩ :: rest := by
  cases depicts with
  | mark => exact ⟨false, [], by rw [Picture.visits]⟩
  | full lines => exact ⟨true, _, by rw [Picture.visits]⟩

theorem DepictLines.mem_visits {h : Heap} {entries : List (String × Value)}
    {proto : Option ObjectId} : {lines : Lines} → DepictLines h entries proto lines →
    ∀ id ∈ linksOf entries proto, id ∈ lines.visits.map (·.id)
  | _, .root, id, link => by simp [linksOf] at link
  | _, .proto p, id, link => by
    obtain ⟨expanded, rest, begins⟩ := p.visits_eq
    obtain rfl : id = _ := by simpa [linksOf] using link
    rw [Lines.visits, begins]
    exact List.mem_cons_self
  | _, .plain kind rest, id, link => by
    rw [Lines.visits]
    exact rest.mem_visits id (by simpa [linksOf, kind] using link)
  | _, .object p rest, id, link => by
    obtain ⟨expanded, later, begins⟩ := p.visits_eq
    rw [Lines.visits, begins, List.map_append, List.map_cons, List.cons_append]
    simp only [linksOf, List.filterMap_cons, Value.object?, List.cons_append, List.mem_cons] at link
    rcases link with rfl | link
    · exact List.mem_cons_self
    · exact List.mem_cons_of_mem _ (List.mem_append_right _ (rest.mem_visits id link))

mutual

/-- There is at most one picture that shows everything at its first visit. -/
theorem Depicts.unique {h : Heap} {id : ObjectId} {seen : List ObjectId} : {p p' : Picture} →
    Depicts h id p → Depicts h id p' → FirstVisits seen p.visits → FirstVisits seen p'.visits →
    p = p'
  | _, _, .mark, .mark, _, _ => rfl
  | _, _, .mark, .full _, first, first' => by
    have old : id ∈ seen := by simpa [Picture.visits, FirstVisits] using first
    exact absurd old (first'.1.mp rfl)
  | _, _, .full _, .mark, first, first' => by
    have old : id ∈ seen := by simpa [Picture.visits, FirstVisits] using first'
    exact absurd old (first.1.mp rfl)
  | _, _, .full lines, .full lines', first, first' => by
    rw [Picture.visits] at first first'
    rw [lines.unique lines' first.2 first'.2]

theorem DepictLines.unique {h : Heap} {entries : List (String × Value)} {proto : Option ObjectId}
    {seen : List ObjectId} : {lines lines' : Lines} → DepictLines h entries proto lines →
    DepictLines h entries proto lines' → FirstVisits seen lines.visits →
    FirstVisits seen lines'.visits → lines = lines'
  | _, _, .root, .root, _, _ => rfl
  | _, _, .proto p, .proto p', first, first' => by
    rw [Lines.visits] at first first'
    rw [p.unique p' first first']
  | _, _, .plain _ rest, .plain _ rest', first, first' => by
    rw [Lines.visits] at first first'
    rw [rest.unique rest' first first']
  | _, _, .object p rest, .object p' rest', first, first' => by
    rw [Lines.visits, FirstVisits.append] at first first'
    obtain rfl := p.unique p' first.1 first'.1
    rw [rest.unique rest' first.2 first'.2]

end

/-- The lines of an object, given how objects are shown. -/
def renderLines (render : List ObjectId → ObjectId → String × List ObjectId)
    (proto : Option ObjectId) (seen : List ObjectId) (entries : List (String × Value)) :
    String × List ObjectId :=
  let body := renderEntries render seen entries
  let last := match proto with
    | some id => render body.2 id
    | none => ("null", body.2)
  (body.1 ++ "  proto: " ++ last.1, last.2)

section

variable (render : List ObjectId → ObjectId → String × List ObjectId) (seen : List ObjectId)

theorem renderLines_root : renderLines render none seen [] = ("  proto: null", seen) := rfl

theorem renderLines_proto (id : ObjectId) :
    renderLines render (some id) seen [] = ("  proto: " ++ (render seen id).1, (render seen id).2) := by
  simp [renderLines, renderEntries]

theorem renderLines_plain (proto : Option ObjectId) (key : String) {v : Value}
    (plain : v.object? = none) (entries : List (String × Value)) :
    renderLines render proto seen ((key, v) :: entries) =
      ("  " ++ key ++ ": " ++ plainText v ++ "\n" ++ (renderLines render proto seen entries).1,
        (renderLines render proto seen entries).2) := by
  cases v with
  | object id => cases plain
  | _ => simp [renderLines, renderEntries, String.append_assoc]

theorem renderLines_object (proto : Option ObjectId) (key : String) (id : ObjectId)
    (entries : List (String × Value)) :
    renderLines render proto seen ((key, .object id) :: entries) =
      ("  " ++ key ++ ": " ++ (render seen id).1 ++ "\n" ++
          (renderLines render proto (render seen id).2 entries).1,
        (renderLines render proto (render seen id).2 entries).2) := by
  simp [renderLines, renderEntries, String.append_assoc]

end

theorem renderObject_seen {h : Heap} {seen : List ObjectId} {id : ObjectId} (old : id ∈ seen)
    (depth : Nat) : renderObject h (depth + 1) seen id = ("... // " ++ h.nameOf id, seen) := by
  rw [renderObject, if_pos old]

theorem renderObject_new {h : Heap} {seen : List ObjectId} {id : ObjectId} (new : id ∉ seen)
    (depth : Nat) :
    renderObject h (depth + 1) seen id =
      ("\x7b // " ++ h.nameOf id ++ "\n" ++
          (renderLines (renderObject h depth) (h.proto? id) (id :: seen) (h.entries id)).1 ++ "\n\x7d",
        (renderLines (renderObject h depth) (h.proto? id) (id :: seen) (h.entries id)).2) := by
  rw [renderObject, if_neg new]
  cases h.proto? id <;> simp [renderLines, String.append_assoc]

/-- From `seen` on, a picture of `id` that shows everything at its first visit has the text `r.1`, and
`r.2` are the objects seen after it. -/
def Draws (h : Heap) (seen : List ObjectId) (id : ObjectId) (r : String × List ObjectId) : Prop :=
  ∃ p, Depicts h id p ∧ FirstVisits seen p.visits ∧
    r = (p.text h, (expansions p.visits).reverse ++ seen)

/-- Visits go on with the objects that were shown by then. -/
theorem FirstVisits.append_of_seen {seen : List ObjectId} {first second : List Visit}
    (left : FirstVisits seen first)
    (right : FirstVisits ((expansions first).reverse ++ seen) second) :
    FirstVisits seen (first ++ second) := by
  refine FirstVisits.append.mpr ⟨left, (FirstVisits.congr ?_).mp right⟩
  intro id
  rw [List.mem_append, List.mem_append, List.mem_reverse]
  exact left.mem_expansions id

/-- An object with nothing in it has one line. -/
theorem root_drawn (h : Heap) (render : List ObjectId → ObjectId → String × List ObjectId)
    (seen : List ObjectId) :
    ∃ lines, DepictLines h [] none lines ∧ FirstVisits seen lines.visits ∧
      renderLines render none seen [] =
        (lines.text h, (expansions lines.visits).reverse ++ seen) := by
  refine ⟨.root, .root, ?_, ?_⟩
  · rw [Lines.visits]
    trivial
  · rw [renderLines_root, Lines.text, Lines.visits]
    rfl

theorem lines_drawn {h : Heap} {render : List ObjectId → ObjectId → String × List ObjectId}
    {bound : Nat} (draws : ∀ seen id, h.unseen seen < bound → Draws h seen id (render seen id))
    (proto : Option ObjectId) (entries : List (String × Value)) {seen : List ObjectId}
    (enough : h.unseen seen < bound) :
    ∃ lines, DepictLines h entries proto lines ∧ FirstVisits seen lines.visits ∧
      renderLines render proto seen entries =
        (lines.text h, (expansions lines.visits).reverse ++ seen) := by
  induction entries generalizing seen with
  | nil =>
    cases proto with
    | none => exact root_drawn h render seen
    | some id =>
      obtain ⟨p, depicts, first, drawn⟩ := draws seen id enough
      refine ⟨.proto p, .proto depicts, ?_, ?_⟩
      · rwa [Lines.visits]
      · rw [renderLines_proto, drawn, Lines.text, Lines.visits]
  | cons entry entries ih =>
    obtain ⟨key, v⟩ := entry
    cases kind : v.object? with
    | none =>
      obtain ⟨rest, depicts, first, drawn⟩ := ih enough
      refine ⟨.plain key v rest, .plain kind depicts, ?_, ?_⟩
      · rwa [Lines.visits]
      · rw [renderLines_plain _ _ _ _ kind, drawn, Lines.text, Lines.visits]
    | some id =>
      obtain rfl : v = .object id := by cases v <;> simp_all [Value.object?]
      obtain ⟨p, depicts, first, drawn⟩ := draws seen id enough
      have fewer : h.unseen ((expansions p.visits).reverse ++ seen) < bound :=
        Nat.lt_of_le_of_lt (h.unseen_le fun id old => List.mem_append_right _ old) enough
      obtain ⟨rest, depicts', first', drawn'⟩ := ih fewer
      refine ⟨.object key p rest, .object depicts depicts', ?_, ?_⟩
      · rw [Lines.visits]
        exact first.append_of_seen first'
      · rw [renderLines_object, drawn, drawn', Lines.text, Lines.visits, expansions_append]
        simp

/-- As long as more objects may be open than are unseen, the text is that of a picture. -/
theorem renderObject_draws (h : Heap) (depth : Nat) (seen : List ObjectId) (id : ObjectId)
    (enough : h.unseen seen < depth) : Draws h seen id (renderObject h depth seen id) := by
  induction depth generalizing seen id with
  | zero => omega
  | succ depth ih =>
    by_cases old : id ∈ seen
    · refine ⟨.mark id, .mark, ?_, ?_⟩
      · simp [Picture.visits, FirstVisits, old]
      · rw [renderObject_seen old, Picture.text, Picture.visits]
        rfl
    · obtain ⟨lines, depicts, first, drawn⟩ : ∃ lines,
          DepictLines h (h.entries id) (h.proto? id) lines ∧ FirstVisits (id :: seen) lines.visits ∧
            renderLines (renderObject h depth) (h.proto? id) (id :: seen) (h.entries id) =
              (lines.text h, (expansions lines.visits).reverse ++ id :: seen) := by
        by_cases inside : id < h.size
        · have fewer := Heap.unseen_cons_lt inside old
          exact lines_drawn ih _ _ (by omega)
        · -- what is not on the heap has no lines, so that nothing more is opened
          obtain ⟨nothing, last⟩ := Heap.entries_of_not_lt inside
          rw [nothing, last]
          exact root_drawn h _ _
      refine ⟨.full id lines, .full depicts, ?_, ?_⟩
      · rw [Picture.visits]
        exact ⟨by simpa using old, first⟩
      · rw [renderObject_new old, drawn, Picture.text, Picture.visits, expansions_cons]
        simp

mutual

/-- Whatever is visited can be reached. -/
theorem Depicts.reaches {h : Heap} {id : ObjectId} : {p : Picture} → Depicts h id p →
    ∀ v ∈ p.visits, h.Reaches id v.id
  | _, .mark, v, member => by
    rw [Picture.visits, List.mem_singleton] at member
    rw [member]
    exact .refl
  | _, .full lines, v, member => by
    rw [Picture.visits] at member
    rcases List.mem_cons.mp member with rfl | member
    · exact .refl
    · obtain ⟨next, link, further⟩ := lines.reaches v member
      exact .head link further

theorem DepictLines.reaches {h : Heap} {entries : List (String × Value)} {proto : Option ObjectId} :
    {lines : Lines} → DepictLines h entries proto lines →
    ∀ v ∈ lines.visits, ∃ next ∈ linksOf entries proto, h.Reaches next v.id
  | _, .root, v, member => by
    rw [Lines.visits] at member
    cases member
  | _, .proto p, v, member => by
    rw [Lines.visits] at member
    exact ⟨_, by simp [linksOf], p.reaches v member⟩
  | _, .plain kind rest, v, member => by
    rw [Lines.visits] at member
    obtain ⟨next, link, further⟩ := rest.reaches v member
    exact ⟨next, by simpa [linksOf, kind] using link, further⟩
  | _, .object p rest, v, member => by
    rw [Lines.visits] at member
    rcases List.mem_append.mp member with member | member
    · exact ⟨_, by simp [linksOf, Value.object?], p.reaches v member⟩
    · obtain ⟨next, link, further⟩ := rest.reaches v member
      refine ⟨next, ?_, further⟩
      simp only [linksOf, List.filterMap_cons, Value.object?, List.cons_append, List.mem_cons]
      exact Or.inr link

end

mutual

/-- Each visit but the first comes from a link of an object that is shown. -/
theorem Depicts.length_visits {h : Heap} {id : ObjectId} : {p : Picture} → Depicts h id p →
    p.visits.length = 1 + ((expansions p.visits).flatMap h.links).length
  | _, .mark => by simp [Picture.visits, expansions]
  | _, .full lines => by
    have count := lines.length_visits
    rw [Picture.visits, expansions_cons, if_pos rfl, List.length_cons, List.flatMap_cons,
      List.length_append, count]
    change _ = 1 + ((linksOf (h.entries id) (h.proto? id)).length + _)
    omega

theorem DepictLines.length_visits {h : Heap} {entries : List (String × Value)}
    {proto : Option ObjectId} : {lines : Lines} → DepictLines h entries proto lines →
    lines.visits.length =
      (linksOf entries proto).length + ((expansions lines.visits).flatMap h.links).length
  | _, .root => by simp [Lines.visits, expansions, linksOf]
  | _, .proto p => by
    rw [Lines.visits, p.length_visits]
    simp [linksOf]
  | _, .plain kind rest => by
    rw [Lines.visits, rest.length_visits]
    simp [linksOf, kind]
  | _, .object p rest => by
    rw [Lines.visits, expansions_append, List.length_append, p.length_visits, rest.length_visits,
      List.flatMap_append, List.length_append]
    simp only [linksOf, List.filterMap_cons, Value.object?, List.cons_append, List.length_cons]
    omega

end

mutual

/-- Whatever an object that is shown leads to is visited. -/
theorem Depicts.visits_links {h : Heap} {id : ObjectId} : {p : Picture} → Depicts h id p →
    ∀ a ∈ expansions p.visits, ∀ b ∈ h.links a, b ∈ p.visits.map (·.id)
  | _, .mark, a, shown, b, link => by
    simp [Picture.visits, expansions] at shown
  | _, .full lines, a, shown, b, link => by
    rw [Picture.visits, expansions_cons, if_pos rfl] at shown
    rw [Picture.visits, List.map_cons]
    apply List.mem_cons_of_mem
    rcases List.mem_cons.mp shown with rfl | shown
    · exact lines.mem_visits b link
    · exact lines.visits_links a shown b link

theorem DepictLines.visits_links {h : Heap} {entries : List (String × Value)}
    {proto : Option ObjectId} : {lines : Lines} → DepictLines h entries proto lines →
    ∀ a ∈ expansions lines.visits, ∀ b ∈ h.links a, b ∈ lines.visits.map (·.id)
  | _, .root, a, shown, b, link => by
    simp [Lines.visits, expansions] at shown
  | _, .proto p, a, shown, b, link => by
    rw [Lines.visits] at shown ⊢
    exact p.visits_links a shown b link
  | _, .plain _ rest, a, shown, b, link => by
    rw [Lines.visits] at shown ⊢
    exact rest.visits_links a shown b link
  | _, .object p rest, a, shown, b, link => by
    rw [Lines.visits, expansions_append] at shown
    rw [Lines.visits, List.map_append]
    rcases List.mem_append.mp shown with shown | shown
    · exact List.mem_append_left _ (p.visits_links a shown b link)
    · exact List.mem_append_right _ (rest.visits_links a shown b link)

end

mutual

/-- A picture is one for another heap as well, with the same text, if what it visits looks alike there. -/
theorem Depicts.alike {h h' : Heap} {id : ObjectId} : {p : Picture} → Depicts h id p →
    (∀ v ∈ p.visits, h.LooksAlike h' v.id) → Depicts h' id p ∧ p.text h' = p.text h
  | _, .mark, alike => by
    have same := alike ⟨id, false⟩ (by simp [Picture.visits])
    exact ⟨.mark, by rw [Picture.text, Picture.text, same.name]⟩
  | _, .full lines, alike => by
    rw [Picture.visits] at alike
    have same := alike _ List.mem_cons_self
    obtain ⟨depicts, text⟩ := lines.alike fun v member => alike v (List.mem_cons_of_mem _ member)
    rw [← same.entries, ← same.proto] at depicts
    exact ⟨.full depicts, by rw [Picture.text, Picture.text, text, same.name]⟩

theorem DepictLines.alike {h h' : Heap} {entries : List (String × Value)} {proto : Option ObjectId} :
    {lines : Lines} → DepictLines h entries proto lines →
    (∀ v ∈ lines.visits, h.LooksAlike h' v.id) →
    DepictLines h' entries proto lines ∧ lines.text h' = lines.text h
  | _, .root, _ => ⟨.root, by rw [Lines.text, Lines.text]⟩
  | _, .proto p, alike => by
    rw [Lines.visits] at alike
    obtain ⟨depicts, text⟩ := p.alike alike
    exact ⟨.proto depicts, by rw [Lines.text, Lines.text, text]⟩
  | _, .plain kind rest, alike => by
    rw [Lines.visits] at alike
    obtain ⟨depicts, text⟩ := rest.alike alike
    exact ⟨.plain kind depicts, by rw [Lines.text, Lines.text, text]⟩
  | _, .object p rest, alike => by
    rw [Lines.visits] at alike
    obtain ⟨depicts, text⟩ := p.alike fun v member => alike v (List.mem_append_left _ member)
    obtain ⟨depicts', text'⟩ := rest.alike fun v member => alike v (List.mem_append_right _ member)
    exact ⟨.object depicts depicts', by rw [Lines.text, Lines.text, text, text']⟩

end

/-- Nothing but what can be reached is shown, and all of that. -/
theorem Depicts.mem_expansions_iff {h : Heap} {root : ObjectId} {p : Picture}
    (depicts : Depicts h root p) (first : FirstVisits [] p.visits) (id : ObjectId) :
    id ∈ expansions p.visits ↔ h.Reaches root id := by
  have visited : ∀ id, id ∈ expansions p.visits ↔ id ∈ p.visits.map (·.id) := by
    simpa using first.mem_expansions
  constructor
  · intro shown
    obtain ⟨v, member, rfl⟩ := List.mem_map.mp ((visited id).mp shown)
    exact depicts.reaches v member
  · intro reached
    induction reached with
    | refl =>
      obtain ⟨expanded, rest, begins⟩ := depicts.visits_eq
      rw [visited, begins]
      exact List.mem_cons_self
    | tail _ link shown => exact (visited _).mpr (depicts.visits_links _ shown _ link)

theorem unseen_nil (h : Heap) : h.unseen [] = h.size := by simp [Heap.unseen]

end ScriptEngine
