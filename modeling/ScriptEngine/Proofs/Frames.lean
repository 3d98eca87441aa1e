import ScriptEngine.Proofs.Since
import ScriptEngine.Roots
import Mathlib.Data.List.Infix

/-!
# Frames on the arena

Frames are opened on the arena of kept values and dropped in any order. A frame remembers the length of
the arena at its opening, and dropping it cuts the arena to this length, which may also be longer than
what is left. If the newest frame is always the one that is dropped, the arena is then what it was at
the opening, and at any time it holds what was rooted outside of the frames dropped so far.
-/

namespace ScriptEngine

/-- What is done with the arena. Frames are numbered in the order in which they are opened. -/
inductive FrameEvent where
  | enter
  | root (v : Value)
  | drop (frame : Nat)
  deriving DecidableEq

/-- The arena and the frames that are open on it. -/
structure Frames where
  roots : Roots
  /-- The number of frames opened so far. -/
  opened : Nat := 0
  /-- The length of the arena at the opening of each open frame. -/
  marks : List (Nat × Nat) := []

namespace Frames

def step (s : Frames) : FrameEvent → Frames
  | .enter =>
      { s with opened := s.opened + 1, marks := (s.opened, s.roots.count) :: s.marks }
  | .root v => { s with roots := s.roots.root v }
  | .drop frame =>
      { s with
        roots := (s.marks.lookup frame).elim s.roots s.roots.release
        marks := s.marks.filter (·.1 != frame) }

def after (start : Roots) (past : List FrameEvent) : Frames := past.foldl step { roots := start }

/-- The arena after the events of `past`. -/
def arena (start : Roots) (past : List FrameEvent) : List Value :=
  (after start past).roots.arena.toList

/-- The number of frames that were opened. -/
def openings (past : List FrameEvent) : Nat := past.count .enter

/-- The frame was opened and has not been dropped since. -/
def IsOpen (past : List FrameEvent) (frame : Nat) : Prop :=
  Since (fun before event => event = .enter ∧ openings before = frame) (· = .drop frame) past

/-- Every drop is that of the newest open frame. -/
def WellNested (past : List FrameEvent) : Prop :=
  ∀ earlier frame, earlier ++ [.drop frame] <+: past →
    IsOpen earlier frame ∧ ∀ other, IsOpen earlier other → other ≤ frame

/-- The values rooted in a sequence of events that begins when `opened` frames were opened, as far as
they live on the heap and no frame opened before them is dropped after them. -/
def kept : Nat → List FrameEvent → List Value
  | _, [] => []
  | opened, .enter :: rest => kept (opened + 1) rest
  | opened, .root v :: rest =>
      if v.isHeap ∧ ∀ frame < opened, .drop frame ∉ rest then v :: kept opened rest
      else kept opened rest
  | opened, .drop _ :: rest => kept opened rest

variable {start : Roots} {past before inner : List FrameEvent} {frame mark : Nat}

theorem after_concat (start : Roots) (past : List FrameEvent) (event : FrameEvent) :
    after start (past ++ [event]) = (after start past).step event := by
  rw [after, List.foldl_append]
  rfl

theorem openings_concat (past : List FrameEvent) (event : FrameEvent) :
    openings (past ++ [event]) = openings past + if event = .enter then 1 else 0 := by
  rw [openings, List.count_append, List.count_singleton]
  simp [openings]

theorem arena_enter (start : Roots) (past : List FrameEvent) :
    arena start (past ++ [.enter]) = arena start past := by
  rw [arena, after_concat]
  rfl

theorem arena_root (start : Roots) (past : List FrameEvent) (v : Value) :
    arena start (past ++ [.root v]) = arena start past ++ if v.isHeap then [v] else [] := by
  rw [arena, after_concat, step, Roots.root]
  by_cases heap : v.isHeap <;> simp [heap, arena]

theorem arena_drop (start : Roots) (past : List FrameEvent) (frame : Nat) :
    arena start (past ++ [.drop frame]) =
      ((after start past).marks.lookup frame).elim (arena start past) (arena start past).take := by
  rw [arena, after_concat, step]
  cases (after start past).marks.lookup frame with
  | some mark => exact Array.toList_shrink
  | none => rfl

/-- The frame is opened when the arena has the length `mark`. -/
def Opens (start : Roots) (frame mark : Nat) (before : List FrameEvent) (event : FrameEvent) : Prop :=
  event = .enter ∧ openings before = frame ∧ (arena start before).length = mark

theorem opened_after (start : Roots) (past : List FrameEvent) :
    (after start past).opened = openings past := by
  induction past using List.reverseRecOn with
  | nil => rfl
  | append_singleton past event ih =>
    rw [after_concat, openings_concat, ← ih]
    cases event <;> rfl

theorem lt_openings {begins : List FrameEvent → FrameEvent → Prop} {ends : FrameEvent → Prop}
    (since : Since begins ends past)
    (opens : ∀ before event, begins before event → event = .enter ∧ openings before = frame) :
    frame < openings past := by
  obtain ⟨before, event, later, rfl, begun, -⟩ := since
  obtain ⟨rfl, rfl⟩ := opens before event begun
  rw [openings, openings, List.count_append, List.count_cons_self]
  omega

/-- The marks are those of the open frames. -/
theorem marks_follow (start : Roots) (past : List FrameEvent) :
    FollowsPast (Opens start) (fun frame event => event = .drop frame) past
      (after start past).marks := by
  induction past using List.reverseRecOn with
  | nil => exact .nil
  | append_singleton past event ih =>
    rw [after_concat]
    cases event with
    | enter =>
      have free : (after start past).marks.lookup (openings past) = none := by
        cases found : (after start past).marks.lookup (openings past) with
        | none => rfl
        | some mark =>
          have early := lt_openings ((ih _ _).mp found) fun _ _ opens => ⟨opens.1, opens.2.1⟩
          exact absurd early (Nat.lt_irrefl _)
      have starts : ∀ n b, Opens start n b past .enter ↔
          n = openings past ∧ b = (arena start past).length := by
        intro n b
        simp [Opens, eq_comm]
      refine ih.put free starts (by simp) ?_
      intro n
      rw [step, lookup_cons_ite, opened_after]
      rfl
    | root v =>
      refine ih.idle ?_ ?_
      · simp [Opens]
      · simp
    | drop frame =>
      refine ih.remove ?_ ?_
      · simp [Opens]
      · simp [eq_comm]

/-- An open frame cuts the arena to the length it had at the opening. -/
theorem arena_drop_open (start : Roots) (standing : .drop (openings before) ∉ inner) :
    arena start (before ++ .enter :: inner ++ [.drop (openings before)]) =
      (arena start (before ++ .enter :: inner)).take (arena start before).length := by
  have marked : (after start (before ++ .enter :: inner)).marks.lookup (openings before) =
      some (arena start before).length := by
    refine (marks_follow start _ _ _).mpr ⟨before, .enter, inner, rfl, ⟨rfl, rfl, rfl⟩, ?_⟩
    rintro _ member rfl
    exact standing member
  rw [arena_drop, marked]
  rfl

theorem arena_drop_shortens (start : Roots) (past : List FrameEvent) (frame : Nat) :
    arena start (past ++ [.drop frame]) <+: arena start past := by
  rw [arena_drop]
  cases (after start past).marks.lookup frame with
  | none => exact List.prefix_rfl
  | some mark => exact List.take_prefix _ _

theorem WellNested.of_start (nested : WellNested past) (start : before <+: past) :
    WellNested before :=
  fun earlier frame dropped => nested earlier frame (dropped.trans start)

theorem isOpen_of_standing (standing : .drop (openings before) ∉ inner) :
    IsOpen (before ++ .enter :: inner) (openings before) := by
  refine ⟨before, .enter, inner, rfl, ⟨rfl, rfl⟩, ?_⟩
  rintro _ member rfl
  exact standing member

/-- Of two openings in one past the one with more openings before it is the later one. -/
theorem split_of_openings_lt {before' inner' : List FrameEvent}
    (split : before ++ .enter :: inner = before' ++ .enter :: inner')
    (fewer : openings before < openings before') :
    ∃ between, before' = before ++ .enter :: between ∧ inner = between ++ .enter :: inner' := by
  have early : before ++ [.enter] <+: before ++ .enter :: inner := ⟨inner, by simp⟩
  have late : before' <+: before ++ .enter :: inner := ⟨.enter :: inner', split.symm⟩
  obtain ⟨between, rfl⟩ : before ++ [.enter] <+: before' := by
    by_cases longer : before.length < before'.length
    · exact List.prefix_of_prefix_length_le early late (by simpa using Nat.succ_le_of_lt longer)
    · have shorter : before' <+: before :=
        List.prefix_of_prefix_length_le late (List.prefix_append _ _) (Nat.le_of_not_lt longer)
      have few : openings before' ≤ openings before := shorter.sublist.count_le _
      omega
  exact ⟨between, by simp, by simpa using split⟩

/-- As long as a frame is open, the arena begins with what it was at the opening. -/
theorem WellNested.arena_begins (start : Roots) (nested : WellNested (before ++ .enter :: inner))
    (standing : .drop (openings before) ∉ inner) :
    arena start before <+: arena start (before ++ .enter :: inner) := by
  -- a drop in `inner` goes back to an opening in `inner`, of which the same holds
  induction size : inner.length using Nat.strong_induction_on generalizing inner with
  | _ n ih =>
    rcases List.eq_nil_or_concat' inner with rfl | ⟨rest, event, rfl⟩
    · rw [arena_enter]
    · have split : before ++ .enter :: (rest ++ [event]) = (before ++ .enter :: rest) ++ [event] := by
        simp
      have nested' : WellNested (before ++ .enter :: rest) := nested.of_start ⟨[event], split.symm⟩
      have standing' : .drop (openings before) ∉ rest := fun member => standing (by simp [member])
      have earlier := ih rest.length (by simp [← size]) nested' standing' rfl
      rw [split]
      cases event with
      | enter => rwa [arena_enter]
      | root v =>
        rw [arena_root]
        exact earlier.trans (List.prefix_append _ _)
      | drop frame =>
        obtain ⟨isOpen, newest⟩ := nested (before ++ .enter :: rest) frame ⟨[], by simp⟩
        have atMost : openings before ≤ frame := newest _ (isOpen_of_standing standing')
        have other : openings before ≠ frame := by
          rintro rfl
          exact standing (by simp)
        obtain ⟨before', _, inner', opening, ⟨rfl, rfl⟩, alive⟩ := isOpen
        obtain ⟨between, rfl, rfl⟩ := split_of_openings_lt opening (by omega)
        have inside : arena start before <+: arena start (before ++ .enter :: between) := by
          refine ih between.length ?_ (nested'.of_start ⟨.enter :: inner', opening.symm⟩) ?_ rfl
          · simp [← size]
          · exact fun member => standing' (by simp [member])
        have cut := arena_drop_open start fun member => alive _ member rfl
        rw [opening, cut]
        exact List.prefix_take_iff.mpr ⟨opening ▸ earlier, inside.length_le⟩

/-- Dropping the newest frame brings back the arena of its opening. -/
theorem WellNested.arena_drop (start : Roots)
    (nested : WellNested (past ++ [FrameEvent.drop frame])) :
    ∃ before inner, past = before ++ FrameEvent.enter :: inner ∧ openings before = frame ∧
      FrameEvent.drop frame ∉ inner ∧
        arena start (past ++ [FrameEvent.drop frame]) = arena start before := by
  obtain ⟨⟨before, _, inner, rfl, ⟨rfl, rfl⟩, alive⟩, -⟩ := nested past frame List.prefix_rfl
  have standing : .drop (openings before) ∉ inner := fun member => alive _ member rfl
  have grown := (nested.of_start (List.prefix_append _ _)).arena_begins start standing
  refine ⟨before, inner, rfl, rfl, standing, ?_⟩
  rw [arena_drop_open start standing]
  exact (List.prefix_iff_eq_take.mp grown).symm

theorem kept_append {opened : Nat} {later : List FrameEvent}
    (spared : ∀ frame < opened + openings past, .drop frame ∉ later) :
    kept opened (past ++ later) = kept opened past ++ kept (opened + openings past) later := by
  induction past generalizing opened with
  | nil => rfl
  | cons event rest ih =>
    cases event with
    | enter =>
      have count : openings (.enter :: rest) = openings rest + 1 := List.count_cons_self
      rw [count, ← Nat.add_assoc, Nat.add_right_comm] at spared ⊢
      exact ih spared
    | root v =>
      have count : openings (.root v :: rest) = openings rest := by simp [openings]
      rw [count] at spared ⊢
      have same : (∀ frame < opened, .drop frame ∉ rest ++ later) ↔
          ∀ frame < opened, .drop frame ∉ rest := by
        simp only [List.mem_append, not_or]
        exact ⟨fun both frame old => (both frame old).1,
          fun rest frame old => ⟨rest frame old, spared frame (by omega)⟩⟩
      simp only [List.cons_append, kept, same, ih spared]
      split <;> rfl
    | drop frame =>
      have count : openings (.drop frame :: rest) = openings rest := by simp [openings]
      rw [count] at spared ⊢
      exact ih spared

/-- Nothing is kept of what was rooted in a frame that is dropped at the end. -/
theorem kept_dropped {opened : Nat} (inside : frame < opened) (past : List FrameEvent) :
    kept opened (past ++ [.drop frame]) = [] := by
  induction past generalizing opened with
  | nil => rfl
  | cons event rest ih =>
    cases event with
    | enter => exact ih (Nat.lt_succ_of_lt inside)
    | root v =>
      have lost : ¬ ∀ f < opened, .drop f ∉ rest ++ [.drop frame] := by
        intro spared
        exact spared frame inside (by simp)
      rw [List.cons_append, kept, if_neg fun both => lost both.2]
      exact ih inside
    | drop other => exact ih inside

/-- While a frame is open no frame older than it is dropped. -/
theorem WellNested.not_mem_of_lt (nested : WellNested (before ++ .enter :: inner))
    (standing : .drop (openings before) ∉ inner) (older : frame < openings before) :
    .drop frame ∉ inner := by
  intro member
  obtain ⟨first, later, rfl⟩ := List.append_of_mem member
  obtain ⟨-, newest⟩ := nested (before ++ .enter :: first) frame ⟨later, by simp⟩
  have atMost := newest _ (isOpen_of_standing fun early => standing (by simp [early]))
  omega

/-- The arena holds what it began with and what was rooted outside of the dropped frames. -/
theorem WellNested.arena_eq (start : Roots) (nested : WellNested past) :
    arena start past = start.arena.toList ++ kept 0 past := by
  induction size : past.length using Nat.strong_induction_on generalizing past with
  | _ n ih =>
    rcases List.eq_nil_or_concat' past with rfl | ⟨earlier, event, rfl⟩
    · simp [arena, after, kept]
    · have nested' := nested.of_start (List.prefix_append earlier [event])
      have smaller : earlier.length < n := by simp [← size]
      cases event with
      | enter =>
        rw [arena_enter, ih _ smaller nested' rfl, kept_append (by simp)]
        simp [kept]
      | root v =>
        rw [arena_root, ih _ smaller nested' rfl, kept_append (by simp), List.append_assoc]
        simp [kept]
      | drop frame =>
        obtain ⟨before, inner, rfl, rfl, standing, restored⟩ := nested.arena_drop start
        have spared : ∀ older < openings before,
            .drop older ∉ .enter :: (inner ++ [.drop (openings before)]) := by
          intro older less member
          have inside : .drop older ∈ inner := by simpa [Nat.ne_of_lt less] using member
          exact nested'.not_mem_of_lt standing less inside
        have begun := ih before.length (by simp at smaller; omega)
          (nested'.of_start (List.prefix_append _ _)) rfl
        rw [restored, begun, List.append_assoc, List.cons_append, kept_append (by simpa using spared),
          kept, kept_dropped (by omega), List.append_nil]

end Frames

open Frames in
/-- Dropping an open frame cuts the arena to the length it had when the frame was opened, or changes nothing
if it is not longer. If the newest open frame is always dropped first, the arena holds in the order of
rooting the heap values that no dropped frame has released. -/
theorem frames_cut_the_arena (start : Roots) :
    (∀ before inner : List FrameEvent, FrameEvent.drop (openings before) ∉ inner →
      let past := before ++ FrameEvent.enter :: inner
      arena start (past ++ [FrameEvent.drop (openings before)]) =
        if (arena start before).length < (arena start past).length then
          (arena start past).take (arena start before).length
        else arena start past) ∧
    (∀ past frame, arena start (past ++ [FrameEvent.drop frame]) <+: arena start past) ∧
    (∀ past frame, WellNested (past ++ [FrameEvent.drop frame]) →
      ∃ before inner, past = before ++ FrameEvent.enter :: inner ∧ openings before = frame ∧
        FrameEvent.drop frame ∉ inner ∧
          arena start (past ++ [FrameEvent.drop frame]) = arena start before) ∧
    (∀ past, WellNested past → arena start past = start.arena.toList ++ kept 0 past) ∧
    (∀ past v, arena start (past ++ [FrameEvent.root v]) =
      if v.isHeap then arena start past ++ [v] else arena start past) ∧
    ∀ v : Value, v.isHeap = false ↔
      v = .undefined ∨ v = .null ∨ (∃ b, v = .bool b) ∨ ∃ n, v = .int n := by
  refine ⟨?_, arena_drop_shortens start, fun past frame nested => nested.arena_drop start,
    fun past nested => nested.arena_eq start, ?_, ?_⟩
  · intro before inner standing past
    rw [arena_drop_open start standing]
    split
    · rfl
    · rename_i shorter
      exact List.take_of_length_le (Nat.le_of_not_lt shorter)
  · intro past v
    rw [arena_root]
    split <;> simp
  · intro v
    cases v <;> simp [Value.isHeap]

namespace Frames

/-- Two frames, with a text and an immediate value in the second one. -/
def twoFrames : List FrameEvent :=
  [.enter, .root (.text "outer"), .enter, .root (.int 1), .root (.text "inner")]

theorem twoFrames_nested : WellNested (twoFrames ++ [FrameEvent.drop 1]) := by
  intro earlier frame dropped
  rcases List.prefix_concat_iff.mp dropped with last | inside
  · obtain ⟨rfl, same⟩ := List.append_inj' last rfl
    cases same
    refine ⟨⟨[.enter, .root (.text "outer")], .enter, _, rfl, ⟨rfl, rfl⟩, by simp⟩, ?_⟩
    intro other isOpen
    exact Nat.le_of_lt_succ (lt_openings isOpen fun _ _ opens => opens)
  · have member : .drop frame ∈ twoFrames := inside.subset (by simp)
    simp [twoFrames] at member

end Frames

open Frames in
/-- Dropped newest first, the second frame leaves what the first one rooted. Dropped oldest first, the
first frame leaves nothing; of two texts rooted then, the second frame leaves one, since it was opened
when there was one. -/
theorem frames_cut_the_arena_either_way :
    arena {} (twoFrames ++ [FrameEvent.drop 1]) = [.text "outer"] ∧
    arena {} (twoFrames ++ [FrameEvent.drop 0]) = [] ∧
    arena {} (twoFrames ++ [FrameEvent.drop 0, FrameEvent.root (.text "c"),
      FrameEvent.root (.text "d")] ++ [FrameEvent.drop 1]) = [.text "c"] := by
  obtain ⟨cut, -, -, holds, -, -⟩ := frames_cut_the_arena {}
  refine ⟨holds _ twoFrames_nested, ?_, ?_⟩
  · exact cut [] [.root (.text "outer"), .enter, .root (.int 1), .root (.text "inner")] (by decide)
  · exact cut [.enter, .root (.text "outer")] [.root (.int 1), .root (.text "inner"), .drop 0,
      .root (.text "c"), .root (.text "d")] (by decide)

end ScriptEngine
