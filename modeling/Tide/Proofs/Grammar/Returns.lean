import Mathlib
import Tide.Proofs.Grammar.Trees
import Tide.Proofs.Tree.Parts
import Tide.Token.Scan

/-!
# Where a `return` stands

In every program that parses, the way from the root to a `return` ends in the body of a function.
From there it goes through bodies of choices only, each of which is a statement of the one before.
So a `return` below anything else, be it the program itself, an initializer, a condition or a part
of an expression, belongs to a function that is nested there.

## Proof strategy

The grammar knows where a `return` may be a statement. By induction on the tree, the way to a
`return` leads through bodies of choices only, and this only where a `return` is allowed, or it ends
in the body of a function.
-/
namespace Tide

open Grammar

/-- The way ends at a statement of a function body, or from there in bodies of choices. -/
def EndsInFunction (path : List Slot) : Prop :=
  ∃ outer depth, path = outer ++ .functionStatement :: List.replicate depth .choiceStatement

theorem EndsInFunction.cons {path : List Slot} (ends : EndsInFunction path) (slot : Slot) :
    EndsInFunction (slot :: path) := by
  obtain ⟨outer, depth, rfl⟩ := ends
  exact ⟨slot :: outer, depth, rfl⟩

/-- Behind anything that is no body, the function is still to come. -/
theorem EndsInFunction.behind {outer inner : List Slot} {slot : Slot}
    (ends : EndsInFunction (outer ++ slot :: inner)) (noFunction : slot ≠ .functionStatement)
    (noChoice : slot ≠ .choiceStatement) : EndsInFunction inner := by
  obtain ⟨before, depth, same⟩ := ends
  rcases List.append_eq_append_iff.mp same with ⟨more, rfl, rest⟩ | ⟨more, rfl, rest⟩
  · cases more with
    | nil => exact absurd (List.cons.inj rest).1 noFunction
    | cons first more => exact ⟨more, depth, (List.cons.inj rest).2⟩
  · cases more with
    | nil => exact absurd (List.cons.inj rest).1.symm noFunction
    | cons first more =>
      -- The slot would be one of the bodies of choices behind the function.
      have listed : slot ∈ List.replicate depth Slot.choiceStatement := by
        rw [(List.cons.inj rest).2]
        simp
      exact absurd (List.eq_of_mem_replicate listed) noChoice

namespace Grammar

/-- Whether a node of this role may be or hold a `return` that ends the function around it. -/
def Role.returns : Role → Bool
  | .statement returns | .choice returns => returns
  | .expression => false

/-- Where each `return` of the node stands. It belongs to a function in the node, unless it may end
a function around it; then it stands in bodies of choices only, or is the node itself. -/
def Places (returns : Bool) (node : Node) : Prop :=
  ∀ path span value, node.At path (.ret span value) →
    (returns = true ∧ ∃ depth, path = List.replicate depth .choiceStatement) ∨ EndsInFunction path

namespace Places

variable {returns : Bool} {node : Node}

theorem endsInFunction (places : Places false node) {path : List Slot} {span : Span} {value : Node}
    (found : node.At path (.ret span value)) : EndsInFunction path :=
  (places path span value found).resolve_left (by simp)

theorem mono (places : Places false node) : Places returns node :=
  fun _ _ _ found => .inr (places.endsInFunction found)

/-- What is no `return` and has parts that let none out lets none out. -/
theorem of_parts (other : ∀ span value, node ≠ .ret span value)
    (parts : ∀ part ∈ node.parts, Places false part) : Places returns node := by
  intro path span value found
  cases found with
  | here => exact absurd rfl (other span value)
  | @inside _ part _ slot path stands rest =>
    have direct : part ∈ node.parts := Node.mem_parts_iff.mpr ⟨slot, stands⟩
    exact .inr (((parts part direct).endsInFunction rest).cons slot)

theorem of_no_parts (other : ∀ span value, node ≠ .ret span value) (none : node.parts = []) :
    Places returns node :=
  of_parts other (by simp [none])

/-- All that the body of a function lets out ends that function. -/
theorem function {span : Span} {name : Bytes} {params : List Bytes} {body : List Node}
    (statements : ∀ node ∈ body, Places true node) :
    Places returns (.function span name params body) := by
  intro path span value found
  cases found with
  | @inside _ part _ _ _ stands rest =>
    obtain ⟨_, member, same⟩ := List.mem_map.mp stands
    cases same
    rcases statements part member _ span value rest with ⟨-, depth, rfl⟩ | ends
    · exact .inr ⟨[], depth, rfl⟩
    · exact .inr (ends.cons _)

theorem ret {span : Span} {result : Node} (places : Places false result) :
    Places true (.ret span result) := by
  intro path span value found
  cases found with
  | here => exact .inl ⟨rfl, 0, rfl⟩
  | inside stands rest =>
    cases List.mem_singleton.mp stands
    exact .inr ((places.endsInFunction rest).cons _)

/-- A choice lets out what its bodies do. -/
theorem choice {span : Span} {branches : List Branch} {otherwise : Option (List Node)}
    (conditions : ∀ branch ∈ branches, Places false branch.condition)
    (bodies : ∀ branch ∈ branches, ∀ node ∈ branch.body, Places returns node)
    (last : ∀ node ∈ otherwise.getD [], Places returns node) :
    Places returns (.choice span branches otherwise) := by
  have deeper {node : Node} (places : Places returns node) {path : List Slot} {span : Span}
      {value : Node} (found : node.At path (.ret span value)) :
      (returns = true ∧ ∃ depth, Slot.choiceStatement :: path =
        List.replicate depth .choiceStatement) ∨
        EndsInFunction (.choiceStatement :: path) := by
    rcases places path span value found with ⟨allowed, depth, rfl⟩ | ends
    · exact .inl ⟨allowed, depth + 1, rfl⟩
    · exact .inr (ends.cons _)
  -- A condition is an expression, which lets nothing out. The bodies let out what they contain, one
  -- choice further out.
  intro path span value found
  cases found with
  | @inside _ part _ _ _ stands rest =>
    rcases List.mem_append.mp stands with stands | stands
    · obtain ⟨branch, member, stands⟩ := List.mem_flatMap.mp stands
      rcases List.mem_cons.mp stands with same | stands
      · cases same
        exact .inr (((conditions branch member).endsInFunction rest).cons _)
      · obtain ⟨_, inside, same⟩ := List.mem_map.mp stands
        cases same
        exact deeper (bodies branch member part inside) rest
    · obtain ⟨_, inside, same⟩ := List.mem_map.mp stands
      cases same
      exact deeper (last part inside) rest

end Places

theorem Grammatical.places {v : Vocabulary} {role : Role} {node : Node}
    (code : Grammatical v role node) : Places role.returns node := by
  have missing : Places false .missing := .of_no_parts nofun rfl
  induction code with
  | bare named => exact .of_parts nofun (List.forall_mem_singleton.mpr missing)
  | declare named initial ih => exact .of_parts nofun (List.forall_mem_singleton.mpr ih)
  | function named parameters statements ih => exact .function ih
  | ret result ih => exact .ret ih
  | ofChoice whole ih => exact ih
  | ofExpression whole ih => exact ih.mono
  | choice filled conditions bodies last ihConditions ihBodies ihLast =>
    exact .choice ihConditions ihBodies ihLast
  | choiceTerm whole ih => exact ih
  | lambda parameters body ih => exact .of_parts nofun (List.forall_mem_singleton.mpr ih)
  | del named => exact .of_no_parts nofun rfl
  | raise => exact .of_no_parts nofun rfl
  | assign left right ihLeft ihRight =>
    exact .of_parts nofun (List.forall_mem_cons.mpr ⟨ihLeft, List.forall_mem_singleton.mpr ihRight⟩)
  | @property _ _ keySpan key inside named ih =>
    have behind : Places false (.name keySpan key) := .of_no_parts nofun rfl
    exact .of_parts nofun (List.forall_mem_cons.mpr ⟨ih, List.forall_mem_singleton.mpr behind⟩)
  | index inside computed ih ihKey =>
    exact .of_parts nofun (List.forall_mem_cons.mpr ⟨ih, List.forall_mem_singleton.mpr ihKey⟩)
  | call head inputs ih ihInputs => exact .of_parts nofun (List.forall_mem_cons.mpr ⟨ih, ihInputs⟩)
  | operation belongs first second ihFirst ihSecond =>
    exact .of_parts nofun
      (List.forall_mem_cons.mpr ⟨ihFirst, List.forall_mem_singleton.mpr ihSecond⟩)
  | name named => exact .of_no_parts nofun rfl
  | number read => exact .of_no_parts nofun rfl
  | text => exact .of_no_parts nofun rfl
  | array inside ih => exact .of_parts nofun ih
  -- An entry without a value has the missing node as a part, of which nothing is known by
  -- induction.
  | @object span properties keys values ih =>
    refine .of_parts nofun fun part direct => ?_
    obtain ⟨entry, member, rfl⟩ := List.mem_map.mp direct
    by_cases present : entry.value.isMissing = false
    · exact ih entry member present
    · rw [Node.eq_missing present]
      exact missing

end Grammar

/-- In a program that parses, each `return` is a statement of a function, directly or through bodies
of choices. Below anything but such bodies, the function is nested there. -/
theorem returns_in_functions {tokens : List Token} {program : Node}
    (parsed : Program.parse tokens = .ok program) {path : List Slot} {span : Span} {value : Node}
    (found : program.At path (.ret span value)) :
    EndsInFunction path ∧ ∀ outer slot inner, path = outer ++ slot :: inner →
      slot ≠ .functionStatement → slot ≠ .choiceStatement → EndsInFunction inner := by
  obtain ⟨place, statements, rfl, code⟩ :=
    grammatical_of_parse (v := .any) parsed fun _ _ => trivial
  -- At the top level, no statement may let a `return` out.
  have whole : Places false (.program place statements) :=
    .of_parts nofun fun statement member => (code statement member).places
  have ends := whole.endsInFunction found
  refine ⟨ends, ?_⟩
  rintro outer slot inner rfl noFunction noChoice
  exact ends.behind noFunction noChoice

/-- The program `fn f |x| (if {x} (return f))`. -/
def guardedReturn : Node :=
  .program ⟨⟨0, 1, 1⟩, ⟨28, 1, 29⟩⟩ [.function ⟨⟨0, 1, 1⟩, ⟨28, 1, 29⟩⟩ (utf8 "f") [utf8 "x"]
    [.choice ⟨⟨10, 1, 11⟩, ⟨27, 1, 28⟩⟩
      [.mk ⟨⟨10, 1, 11⟩, ⟨27, 1, 28⟩⟩ (.name ⟨⟨14, 1, 15⟩, ⟨15, 1, 16⟩⟩ (utf8 "x"))
        [.ret ⟨⟨18, 1, 19⟩, ⟨26, 1, 27⟩⟩ (.name ⟨⟨25, 1, 26⟩, ⟨26, 1, 27⟩⟩ (utf8 "f"))]] none]]

theorem guardedReturn_in_function :
    Program.parse (scan (utf8 "fn f |x| (if \x7bx\x7d (return f))")).tokens = .ok guardedReturn ∧
      EndsInFunction [.functionStatement, .choiceStatement] := by
  have parsed : Program.parse (scan (utf8 "fn f |x| (if \x7bx\x7d (return f))")).tokens =
      .ok guardedReturn := by cbv
  have found : guardedReturn.At [.programStatement, .functionStatement, .choiceStatement]
      (.ret ⟨⟨18, 1, 19⟩, ⟨26, 1, 27⟩⟩ (.name ⟨⟨25, 1, 26⟩, ⟨26, 1, 27⟩⟩ (utf8 "f"))) :=
    .inside (.head _) (.inside (.head _) (.inside (.tail _ (.head _)) .here))
  exact ⟨parsed, (returns_in_functions parsed found).2 [] .programStatement _ rfl
    (by decide) (by decide)⟩

end Tide
