import Mathlib
import Tide.Proofs.Tree.Forget
import Tide.Proofs.Value.Likeness

/-!
# Values and machines without the places of their code

A closure carries a tree, so forgetting places goes on into values. A value is like what is left of
it without places, so nothing that a program can observe of a value changes by it.
-/
namespace Tide

mutual

def Value.forget (width : Int → Int) : Value → Value
  | .null => .null
  | .bool b => .bool b
  | .number x written => .number x (written.map width)
  | .text s length => .text s length
  | .array identity elements => .array identity (forgetValues width elements)
  | .object identity fields => .object identity (forgetFields width fields)
  | .native f => .native f
  | .function identity name params body scope =>
    .function identity name params (body.map (Node.forget width)) scope
  | .lambda identity params body scope => .lambda identity params (body.forget width) scope
  | .returned identity value => .returned identity (Value.forget width value)

def forgetValues (width : Int → Int) : List Value → List Value
  | [] => []
  | value :: rest => Value.forget width value :: forgetValues width rest

def forgetFields (width : Int → Int) : List (Bytes × Value) → List (Bytes × Value)
  | [] => []
  | (key, value) :: rest => (key, Value.forget width value) :: forgetFields width rest

end

variable (width : Int → Int)

@[simp] theorem forgetValues_eq (values : List Value) :
    forgetValues width values = values.map (Value.forget width) := by
  induction values with
  | nil => rfl
  | cons value rest ih => simp [forgetValues, ih]

@[simp] theorem forgetFields_eq (fields : List (Bytes × Value)) :
    forgetFields width fields = fields.map (Prod.map id (Value.forget width)) := by
  induction fields with
  | nil => rfl
  | cons entry rest ih =>
    obtain ⟨key, value⟩ := entry
    simp [forgetFields, ih]

/-! ### The likeness of things and what is left of them -/

theorem forall₂_image {α β : Type} {f : α → β} {r : α → β → Prop}
    (image : ∀ a b, r a b ↔ b = f a) {xs : List α} {ys : List β} :
    List.Forall₂ r xs ys ↔ ys = xs.map f := by
  constructor
  · intro pairs
    induction pairs with
    | nil => rfl
    | cons first _ ih => rw [List.map_cons, ih, (image _ _).mp first]
  · rintro rfl
    exact List.forall₂_map_right_iff.mpr (List.forall₂_same.mpr fun a _ => (image a _).mpr rfl)

theorem Node.match_forget (node : Node) :
    Node.Match (fun _ q => q = .zero) (fun w v => v = w.map width) (fun a b => b = a.forget width)
      node (node.forget width) := by
  have all {nodes : List Node} : List.Forall₂ (fun a b => b = Node.forget width a) nodes
      (nodes.map (Node.forget width)) := (forall₂_image fun _ _ => Iff.rfl).mpr rfl
  cases node with
  | program span body =>
    simp only [forget, forgetAll_eq]
    exact .program rfl all
  | function span name params body =>
    simp only [forget, forgetAll_eq]
    exact .function rfl all
  | choice span branches otherwise =>
    simp only [forget, forgetBranches_eq, forgetOtherwise_eq]
    refine .choice rfl ?_ ?_
    · refine List.forall₂_map_right_iff.mpr (List.forall₂_same.mpr fun branch _ => ?_)
      obtain ⟨span, condition, body⟩ := branch
      exact ⟨rfl, by simp [Branch.body, Branch.forget]⟩
    · cases otherwise with
      | none => exact .nil
      | some last => exact all
  | call span callee arguments =>
    simp only [forget, forgetAll_eq]
    exact .call rfl rfl all
  | array span elements =>
    simp only [forget, forgetAll_eq]
    exact .array rfl all
  | object span properties =>
    simp only [forget, forgetProperties_eq]
    refine .object rfl (List.forall₂_map_right_iff.mpr (List.forall₂_same.mpr fun entry _ => ?_))
    obtain ⟨span, key, value⟩ := entry
    exact ⟨rfl, rfl, rfl⟩
  | _ => constructor <;> rfl

theorem Value.match_forget_iff {a b : Value} :
    b = a.forget width ↔ Value.Match (fun w v => v = w.map width) Eq
      (fun a b => b = a.forget width) (fun a b => b = a.forget width) a b := by
  have values {xs ys : List Value} :
      List.Forall₂ (fun a b => b = Value.forget width a) xs ys ↔ ys = xs.map (Value.forget width) :=
    forall₂_image fun _ _ => Iff.rfl
  have nodes {xs ys : List Node} :
      List.Forall₂ (fun a b => b = Node.forget width a) xs ys ↔ ys = xs.map (Node.forget width) :=
    forall₂_image fun _ _ => Iff.rfl
  have fields {xs ys : List (Bytes × Value)} :
      List.Forall₂ (fun a b => a.1 = b.1 ∧ b.2 = Value.forget width a.2) xs ys ↔
        ys = xs.map (Prod.map id (Value.forget width)) :=
    forall₂_image fun a b => by
      obtain ⟨k, v⟩ := a
      obtain ⟨k', v'⟩ := b
      simp [eq_comm]
  -- Both ways follow the forms of a value; the lists in it are compared place by place.
  constructor
  · rintro rfl
    cases a with
    | array identity elements => exact .array rfl (values.mpr (forgetValues_eq width elements))
    | object identity entries => exact .object rfl (fields.mpr (forgetFields_eq width entries))
    | function => exact .function rfl (nodes.mpr rfl)
    | _ => constructor <;> rfl
  · intro alike
    cases alike with
    | number written => rw [written, forget]
    | array same inside => rw [values.mp inside, same, forget, forgetValues_eq]
    | object same inside => rw [fields.mp inside, same, forget, forgetFields_eq]
    | function same statements => rw [nodes.mp statements, same, forget]
    | lambda same result => rw [result, same, forget]
    | returned same inside => rw [inside, same, forget]
    | _ => rfl

/-- Each thing is like what is left of it, and like nothing else. -/
def Likeness.forgetting : Likeness where
  place _ q := q = .zero
  width w v := v = w.map width
  identity := Eq
  node a b := b = a.forget width
  value a b := b = a.forget width
  nowhere := rfl
  computed := by rw [Option.map_none]
  oneToOne := Eq.congr
  node_match alike := alike ▸ Node.match_forget width _
  value_iff := Value.match_forget_iff width

theorem Value.render_forget (value : Value) : (value.forget width).render = value.render :=
  (Likeness.render_eq (l := Likeness.forgetting width) value _ rfl).symm

end Tide
