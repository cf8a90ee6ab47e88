import Mathlib
import Tide.Proofs.Tree.Parts

/-!
# Spans that nest

A branch of a choice and a property of an object have spans of their own, so besides nodes they are
parts of a tree too. `Nests start part stop` says that the part lies between two offsets, and that
inside its span its children lie one behind the other, each of which nests again.
-/
namespace Tide

namespace Span

/-- A span in a source of this length. -/
def Fits (length : Int) (span : Span) : Prop :=
  0 ≤ span.start.offset ∧ span.start.offset ≤ span.stop.offset ∧ span.stop.offset ≤ length

def Covers (outer inner : Span) : Prop :=
  outer.start.offset ≤ inner.start.offset ∧ inner.stop.offset ≤ outer.stop.offset

/-- Ends where the other one begins, or in front of it. -/
def Before (left right : Span) : Prop := left.stop.offset ≤ right.start.offset

end Span

/-- What has a span in a tree. -/
inductive Part where
  | node (node : Node)
  | branch (branch : Branch)
  | property (property : Property)

namespace Part

def span : Part → Span
  | .node found => found.span
  | .branch found => found.span
  | .property found => found.span

/-- A node, unless it is left out. -/
def present (node : Node) : List Part := if node.isMissing then [] else [.node node]

/-- The parts directly in a part, in the order of the source. -/
def children : Part → List Part
  | .node (.program _ body) | .node (.function _ _ _ body) => body.map .node
  | .node (.declare _ _ _ value) => present value
  | .node (.lambda _ _ value) | .node (.ret _ value) => [.node value]
  | .node (.choice _ branches otherwise) =>
    branches.map .branch ++ (otherwise.getD []).map .node
  | .node (.assign _ left right) | .node (.member _ left right _)
  | .node (.operation _ _ _ left right) => [.node left, .node right]
  | .node (.call _ callee arguments) => .node callee :: arguments.map .node
  | .node (.array _ elements) => elements.map .node
  | .node (.object _ entries) => entries.map .property
  | .node _ => []
  | .branch found => .node found.condition :: found.body.map .node
  | .property found => present found.value

/-- A part holds itself, its children, and whatever they hold. -/
def Holds (outer inner : Part) : Prop :=
  Relation.ReflTransGen (fun child part => child ∈ part.children) inner outer

/-- A part stands in a source of this length, and its children stand in it, one behind the
other. -/
structure Placed (length : Int) (part : Part) : Prop where
  fits : part.span.Fits length
  covers : ∀ child ∈ part.children, part.span.Covers child.span
  ordered : part.children.Pairwise fun left right => left.span.Before right.span

end Part

mutual

inductive Nests : Int → Part → Int → Prop where
  | mk {start stop : Int} {part : Part} (starts : start ≤ part.span.start.offset)
      (proper : part.span.start.offset ≤ part.span.stop.offset)
      (inside : NestsAll part.span.start.offset part.children part.span.stop.offset)
      (stops : part.span.stop.offset ≤ stop) : Nests start part stop

/-- Parts one behind the other. -/
inductive NestsAll : Int → List Part → Int → Prop where
  | nil {start stop : Int} (ordered : start ≤ stop) : NestsAll start [] stop
  | cons {start middle stop : Int} {part : Part} {parts : List Part}
      (first : Nests start part middle) (rest : NestsAll middle parts stop) :
      NestsAll start (part :: parts) stop

end

namespace Nests

variable {start middle stop : Int} {part : Part}

theorem bounds (nests : Nests start part stop) :
    start ≤ part.span.start.offset ∧ part.span.start.offset ≤ part.span.stop.offset ∧
      part.span.stop.offset ≤ stop := by
  cases nests with
  | mk starts proper inside stops => exact ⟨starts, proper, stops⟩

theorem le (nests : Nests start part stop) : start ≤ stop := by
  have bounds := nests.bounds
  omega

theorem inside (nests : Nests start part stop) :
    NestsAll part.span.start.offset part.children part.span.stop.offset := by
  cases nests with
  | mk starts proper inside stops => exact inside

theorem mono (nests : Nests start part stop) {lower upper : Int} (below : lower ≤ start)
    (above : stop ≤ upper) : Nests lower part upper := by
  have bounds := nests.bounds
  exact .mk (by omega) bounds.2.1 nests.inside (by omega)

/-- What is known of a part holds within its own bounds. -/
theorem from_start (nests : Nests start part stop) :
    Nests part.span.start.offset part stop :=
  .mk le_rfl nests.bounds.2.1 nests.inside nests.bounds.2.2

end Nests

namespace NestsAll

variable {start middle stop : Int} {part : Part} {parts more : List Part}

theorem le (nests : NestsAll start parts stop) : start ≤ stop := by
  induction parts generalizing start with
  | nil =>
    cases nests with
    | nil ordered => exact ordered
  | cons part parts ih =>
    cases nests with
    | cons first rest => exact first.le.trans (ih rest)

theorem mono (nests : NestsAll start parts stop) {lower upper : Int} (below : lower ≤ start)
    (above : stop ≤ upper) : NestsAll lower parts upper := by
  induction parts generalizing start lower with
  | nil => exact .nil (below.trans (nests.le.trans above))
  | cons part parts ih =>
    cases nests with
    | cons first rest => exact .cons (first.mono below le_rfl) (ih rest le_rfl)

theorem single (nests : Nests start part stop) : NestsAll start [part] stop :=
  .cons nests (.nil le_rfl)

theorem present {node : Node} (nests : Nests start (.node node) stop) :
    NestsAll start (Part.present node) stop := by
  unfold Part.present
  split
  · exact .nil nests.le
  · exact single nests

theorem append (first : NestsAll start parts middle) (second : NestsAll middle more stop) :
    NestsAll start (parts ++ more) stop := by
  induction parts generalizing start with
  | nil => exact second.mono first.le le_rfl
  | cons part parts ih =>
    cases first with
    | cons first rest => exact .cons first (ih rest)

theorem of_mem (nests : NestsAll start parts stop) (member : part ∈ parts) :
    Nests start part stop := by
  induction parts generalizing start with
  | nil => simp at member
  | cons first parts ih =>
    cases nests with
    | cons here rest =>
      rcases List.mem_cons.mp member with rfl | later
      · exact here.mono le_rfl rest.le
      · exact (ih rest later).mono here.le le_rfl

theorem pairwise (nests : NestsAll start parts stop) :
    parts.Pairwise fun left right => left.span.Before right.span := by
  induction parts generalizing start with
  | nil => exact .nil
  | cons first parts ih =>
    cases nests with
    | cons here rest =>
      refine .cons (fun later member => ?_) (ih rest)
      exact here.bounds.2.2.trans (rest.of_mem member).bounds.1

end NestsAll

theorem Nests.placed {stop : Int} {part : Part} (nests : Nests 0 part stop) : part.Placed stop where
  fits := nests.bounds
  covers _ member :=
    have bounds := (nests.inside.of_mem member).bounds
    ⟨bounds.1, bounds.2.2⟩
  ordered := nests.inside.pairwise

/-- In a part that nests, everything nests. -/
theorem Nests.of_holds {start stop : Int} {outer inner : Part} (nests : Nests start outer stop)
    (holds : outer.Holds inner) : Nests start inner stop := by
  induction holds with
  | refl => exact nests
  | @tail part outer _ child ih =>
    have bounds := nests.bounds
    exact ih ((nests.inside.of_mem child).mono bounds.1 bounds.2.2)

end Tide
