import Mathlib
import Tide.Eval.Evaluate
import Tide.Proofs.Value.Fields

/-!
# Object literals

The properties of an object literal are evaluated from left to right, each on the machine that those
before it left. A property that is short for a look-up sees what the properties in front of it did
to the scopes, and a key that comes again takes the later value and keeps its place.
-/
namespace Tide

namespace Eval

/-! ### What a successful computation has done -/

section

variable {α β : Type} {m n : Machine}

theorem bind_ok_iff {x : Eval α} {f : α → Eval β} {b : β} :
    (x >>= f) m = .ok b n ↔ ∃ a between, x m = .ok a between ∧ f a between = .ok b n := by
  change EStateM.bind x f m = _ ↔ _
  unfold EStateM.bind
  cases x m <;> simp

theorem pure_ok_iff {a b : α} : (pure a : Eval α) m = .ok b n ↔ a = b ∧ m = n := by
  change EStateM.Result.ok a m = _ ↔ _
  rw [EStateM.Result.ok.injEq]

theorem lookup_ok_iff {s : ScopeId} {name : Bytes} {span : Span} {value : Value} :
    lookup s name span m = .ok value n ↔ m.store.lookup s name = .ok value ∧ m = n := by
  simp only [lookup, get, getThe, MonadStateOf.get, EStateM.get, bind, EStateM.bind]
  cases m.store.lookup s name with
  | ok found => rw [pure_ok_iff, Except.ok.injEq]
  | error fault => simp [fail, throw, throwThe, MonadExceptOf.throw, EStateM.throw]

end

/-! ### Properties from left to right -/

/-- In the scope, one property after the other gives one entry after the other, and the first
machine becomes the second. -/
inductive Gives (depth : Nat) (s : ScopeId) :
    Machine → List Property → List (Bytes × Value) → Machine → Prop where
  | nil {m} : Gives depth s m [] [] m
  /-- A key alone has the value that the scope has for it by then. -/
  | short {m n span key value rest entries} (found : m.store.lookup s key = .ok value)
      (others : Gives depth s m rest entries n) :
      Gives depth s m (.mk span key .missing :: rest) ((key, value) :: entries) n
  | long {m between n span key node value rest entries} (present : node.isMissing = false)
      (evaluated : eval depth node s m = .ok value between)
      (others : Gives depth s between rest entries n) :
      Gives depth s m (.mk span key node :: rest) ((key, value) :: entries) n

namespace Gives

variable {depth : Nat} {s : ScopeId} {m n : Machine} {properties : List Property}
  {entries : List (Bytes × Value)}

theorem keys_eq (gives : Gives depth s m properties entries n) :
    entries.map Prod.fst = properties.map Property.key := by
  induction gives with
  | nil => rfl
  | short _ _ ih => rw [List.map_cons, List.map_cons, ih, Property.key]
  | long _ _ _ ih => rw [List.map_cons, List.map_cons, ih, Property.key]

theorem nil_iff : Gives depth s m [] entries n ↔ entries = [] ∧ m = n := by
  constructor
  · rintro ⟨⟩
    exact ⟨rfl, rfl⟩
  · rintro ⟨rfl, rfl⟩
    exact .nil

/-- The first property gives the first entry, and the others go on from there. -/
theorem cons_iff {span : Span} {key : Bytes} {node : Node} :
    Gives depth s m (.mk span key node :: properties) entries n ↔
      ∃ value between others,
        (if node.isMissing then lookup s key span else eval depth node s) m = .ok value between ∧
          Gives depth s between properties others n ∧ entries = (key, value) :: others := by
  constructor
  · intro gives
    cases gives with
    | short found others => exact ⟨_, _, _, lookup_ok_iff.mpr ⟨found, rfl⟩, others, rfl⟩
    | long present evaluated others => exact ⟨_, _, _, by simpa [present], others, rfl⟩
  · rintro ⟨value, between, others, done, gives, rfl⟩
    cases missing : node.isMissing with
    | true =>
      -- No node but the absent one counts as missing.
      have nothing : node = .missing := by
        cases node <;> first | rfl | cases missing
      subst nothing
      obtain ⟨found, rfl⟩ := lookup_ok_iff.mp done
      exact .short found gives
    | false =>
      rw [missing] at done
      exact .long missing done gives

end Gives

/-- Evaluating the properties succeeds just when they give entries, and sets these in turn. -/
theorem fields_ok_iff {depth : Nat} {s : ScopeId} {m n : Machine} {properties : List Property}
    {made fields : Fields Value} :
    Eval.fields (eval depth) s made properties m = .ok fields n ↔
      ∃ entries, Gives depth s m properties entries n ∧
        fields = entries.foldl (fun made entry => made.set entry.1 entry.2) made := by
  -- The later properties go on with what the earlier ones made, so `made` is arbitrary.
  induction properties generalizing made m with
  | nil =>
    rw [Eval.fields, pure_ok_iff]
    constructor
    · rintro ⟨rfl, rfl⟩
      exact ⟨[], .nil, rfl⟩
    · rintro ⟨entries, gives, rfl⟩
      obtain ⟨rfl, rfl⟩ := Gives.nil_iff.mp gives
      exact ⟨rfl, rfl⟩
  | cons property rest ih =>
    obtain ⟨span, key, node⟩ := property
    have opened : Eval.fields (eval depth) s made (.mk span key node :: rest) =
        (if node.isMissing then lookup s key span else eval depth node s) >>= fun value =>
          Eval.fields (eval depth) s (made.set key value) rest := by
      rw [Eval.fields]
      split <;> rfl
    rw [opened, bind_ok_iff]
    constructor
    · rintro ⟨value, between, done, more⟩
      obtain ⟨others, gives, rfl⟩ := ih.mp more
      exact ⟨(key, value) :: others, Gives.cons_iff.mpr ⟨value, between, others, done, gives, rfl⟩,
        rfl⟩
    · rintro ⟨entries, all, rfl⟩
      obtain ⟨value, between, others, done, gives, rfl⟩ := Gives.cons_iff.mp all
      exact ⟨value, between, done, ih.mpr ⟨others, gives, rfl⟩⟩

/-- An object literal succeeds just when its properties give entries. -/
theorem object_ok_iff {depth : Nat} {span : Span} {properties : List Property} {s : ScopeId}
    {m n : Machine} {value : Value} :
    eval (depth + 1) (.object span properties) s m = .ok value n ↔
      ∃ entries between, Gives depth s m properties entries between ∧
        value = .object between.nextIdentity (Fields.ofList entries) ∧
        n = { between with nextIdentity := between.nextIdentity + 1 } := by
  -- The object takes its number when the properties have taken theirs.
  rw [eval, Eval.step, bind_ok_iff]
  constructor
  · rintro ⟨fields, between, made, numbered⟩
    obtain ⟨entries, gives, rfl⟩ := fields_ok_iff.mp made
    cases numbered
    exact ⟨entries, between, gives, rfl, rfl⟩
  · rintro ⟨entries, between, gives, rfl, rfl⟩
    exact ⟨_, between, fields_ok_iff.mpr ⟨entries, gives, rfl⟩, rfl⟩

end Eval

/-- Setting keys one after the other keeps the halves of an object in step: no key comes twice, the
keys are those with a value, in the order in which they were first set, and each has the value that
was set last. So an object literal whose properties give entries from left to right makes an object
of its distinct keys in the order of first appearance, each with the value of its last entry. -/
theorem object_halves :
    (∀ entries : List (Bytes × Value),
      (Fields.ofList entries).halves = Halves.ofList entries ∧
        (Fields.ofList entries).keys.Nodup ∧
        (∀ key, key ∈ (Fields.ofList entries).keys ↔
          ((Fields.ofList entries).get? key).isSome) ∧
        (Fields.ofList entries).keys = (entries.map Prod.fst).eraseDups ∧
        ∀ key, (Fields.ofList entries).get? key = entries.reverse.lookup key) ∧
    ∀ (depth : Nat) (span : Span) (properties : List Property) (s : ScopeId) (m n : Machine)
      (entries : List (Bytes × Value)), Eval.Gives depth s m properties entries n →
        eval (depth + 1) (.object span properties) s m =
            .ok (.object n.nextIdentity (Fields.ofList entries))
              { n with nextIdentity := n.nextIdentity + 1 } ∧
          (Fields.ofList entries).keys = (properties.map Property.key).eraseDups ∧
          ∀ key, (Fields.ofList entries).get? key = entries.reverse.lookup key := by
  constructor
  · intro entries
    exact ⟨Fields.halves_ofList entries, Fields.nodup_keys_ofList entries,
      (Fields.ofList entries).mem_keys_iff, Fields.keys_ofList entries, Fields.get?_ofList entries⟩
  · intro depth span properties s m n entries gives
    have keys : (Fields.ofList entries).keys = (properties.map Property.key).eraseDups := by
      rw [Fields.keys_ofList, gives.keys_eq]
    exact ⟨Eval.object_ok_iff.mpr ⟨entries, n, gives, rfl, rfl⟩, keys, Fields.get?_ofList entries⟩

/-- The properties of `{x, y: x = true, x}`. -/
def reassigning : List Property :=
  [.mk .zero (utf8 "x") .missing,
    .mk .zero (utf8 "y") (.assign .zero (.name .zero (utf8 "x")) (.name .zero (utf8 "true"))),
    .mk .zero (utf8 "x") .missing]

/-- A machine on which the global `x` has the value. -/
def holdingX (value : Value) : Machine :=
  { Machine.initial with
    store := Store.initial.update Store.globalScope (·.declare (utf8 "x") value false) }

theorem reassigning_halves :
    ∃ fields : Fields Value,
      eval 3 (.object .zero reassigning) Store.globalScope (holdingX (.bool false)) =
        .ok (.object 0 fields) { holdingX (.bool true) with nextIdentity := 1 } ∧
      fields.keys = [utf8 "x", utf8 "y"] ∧
      fields.get? (utf8 "x") = some (.bool true) ∧ fields.get? (utf8 "y") = some (.bool true) ∧
      fields.get? (utf8 "z") = none := by
  have gives : Eval.Gives 2 Store.globalScope (holdingX (.bool false)) reassigning
      [(utf8 "x", .bool false), (utf8 "y", .bool true), (utf8 "x", .bool true)]
      (holdingX (.bool true)) := by
    -- The second look-up of `x` comes after the assignment.
    refine .short ?_ (.long rfl ?_ (.short ?_ .nil))
    · cbv
    · cbv
    · cbv
  obtain ⟨evaluated, keys, values⟩ := object_halves.2 2 .zero _ _ _ _ _ gives
  exact ⟨_, evaluated, keys.trans (by decide), values _, values _, values _⟩

end Tide
