import Mathlib
import Tide.Proofs.Eval.Linked
import Tide.Proofs.Scope.Likeness
import Tide.Proofs.Value.Likeness

/-!
# Evaluations of like trees

Trees that are alike, evaluated in stores that are alike, do alike: they give values that are alike
or fail for the same reason, and the stores they leave behind are alike again. What counts as alike
is up to a likeness; the laws that it has to satisfy are all that is used of it.

The second evaluation may be allowed to go deeper than the first. Then nothing is said about it
where the first one met its bound.

## Proof strategy

One lemma for each construct, in the order of the evaluator, each given that the evaluations of its
parts agree. Induction on the depth ties them together.
-/
namespace Tide

/-- The same reason, in places that are alike. -/
inductive Failure.Like (place : Span → Span → Prop) : Failure → Failure → Prop where
  | runtime {fault p q} (places : place p q) : Like place (.runtime fault p) (.runtime fault q)
  | raised {message p q} (places : place p q) : Like place (.raised message p) (.raised message q)
  | exhausted : Like place .exhausted .exhausted

theorem Failure.eq_of_like {e f : Failure} (like : e.Like Eq f) : e = f := by
  cases like with
  | runtime places => rw [places]
  | raised places => rw [places]
  | exhausted => rfl

namespace Eval

/-- A likeness, with what is alike of scopes and of outputs. A loose simulation excuses a first run
that met its bound. -/
structure Simulation extends Likeness where
  scopes : ScopeLikeness value
  output : Bytes → Bytes → Prop
  output_append {o o' : Bytes} (alike : output o o') (text : Bytes) :
    output (o ++ text) (o' ++ text)
  loose : Prop

/-- Two bounds are the same, or the second is larger and the link is loose. -/
def Reaches (loose : Prop) (bound bound' : Nat) : Prop := bound = bound' ∨ loose ∧ bound ≤ bound'

theorem Reaches.le {loose : Prop} {bound bound' : Nat} (more : Reaches loose bound bound') :
    bound ≤ bound' := by
  rcases more with rfl | ⟨-, le⟩
  · exact Nat.le_refl _
  · exact le

theorem Reaches.pred {loose : Prop} {bound bound' : Nat}
    (more : Reaches loose (bound + 1) (bound' + 1)) : Reaches loose bound bound' :=
  more.imp Nat.succ.inj (And.imp_right Nat.le_of_succ_le_succ)

namespace Simulation

/-- Machines with stores and outputs that are alike. What the two make from now on is alike too. -/
structure Machines (S : Simulation) (m n : Machine) : Prop where
  store : m.store.Like S.scopes n.store
  fresh (k : Nat) : S.identity (m.nextIdentity + k) (n.nextIdentity + k)
  output : S.output m.output n.output

def link (S : Simulation) : Link where
  machine := S.Machines
  failure := Failure.Like S.place
  excused e := S.loose ∧ e = .exhausted

variable {S : Simulation} {s : ScopeId} {p q : Span}

theorem fail_like {α β : Type} {P : α → β → Prop} (fault : RuntimeFault) (places : S.place p q) :
    S.link.Runs (fail fault p) (fail fault q) P :=
  .throw (.runtime places)

/-! ### Primitives -/

theorem fresh_like : S.link.Runs fresh fresh S.identity := by
  intro m n alike
  refine ⟨⟨alike.store, fun k => ?_, alike.output⟩, alike.fresh 0⟩
  have later := alike.fresh (k + 1)
  simpa only [Nat.add_assoc, Nat.add_comm 1] using later

theorem print_like (text : Bytes) :
    S.link.Runs (print text) (print text) fun _ _ => True :=
  fun _ _ alike => ⟨⟨alike.store, alike.fresh, S.output_append alike.output text⟩, trivial⟩

theorem lookup_like (s : ScopeId) (name : Bytes) (places : S.place p q) :
    S.link.Runs (lookup s name p) (lookup s name q) S.value := by
  intro m n alike
  simp only [lookup, get, getThe, MonadStateOf.get, EStateM.get, bind, EStateM.bind, Store.lookup]
  rcases rel_cases (alike.store.find? s name) with ⟨left, right⟩ | ⟨b, c, left, right, same⟩
  · rw [left, right]
    exact fail_like _ places m n alike
  · rw [left, right]
    exact ⟨alike, same.2.alike⟩

theorem updateStore_like {fault? : Store → Option ScopeFault} {change change' : Store → Store}
    (places : S.place p q)
    (same : ∀ store store' : Store, store.Like S.scopes store' → fault? store = fault? store')
    (changes : ∀ store store' : Store, store.Like S.scopes store' →
      (change store).Like S.scopes (change' store')) :
    S.link.Runs (updateStore fault? change p) (updateStore fault? change' q) fun _ _ => True := by
  rintro ⟨store, output, next⟩ ⟨store', output', next'⟩ alike
  simp only [updateStore, same store store' alike.store]
  split
  · exact .inr ⟨alike, .runtime places⟩
  · exact ⟨⟨changes store store' alike.store, alike.fresh, alike.output⟩, trivial⟩

theorem declare_like (s : ScopeId) (name : Bytes) {value value' : Value} (constant : Bool)
    (places : S.place p q) (given : S.value value value') :
    S.link.Runs (declare s name value constant p) (declare s name value' constant q)
      fun _ _ => True :=
  updateStore_like places (fun _ _ like => like.declareFault? s name) fun _ _ like =>
    like.update (fun _ _ pair => S.scopes.declare pair name given constant) s

theorem assign_like (s : ScopeId) (name : Bytes) {value value' : Value} (places : S.place p q)
    (given : S.value value value') :
    S.link.Runs (assign s name value p) (assign s name value' q) fun _ _ => True :=
  updateStore_like places (fun _ _ like => like.assignFault? s name) fun _ _ like =>
    like.updateHome (fun _ _ pair => S.scopes.assign pair name given) s name

theorem delete_like (s : ScopeId) (name : Bytes) (places : S.place p q) :
    S.link.Runs (delete s name p) (delete s name q) fun _ _ => True :=
  updateStore_like places (fun _ _ like => like.deleteFault? s name) fun _ _ like =>
    like.updateHome (fun _ _ pair => S.scopes.delete pair name) s name

theorem child_like (parent : ScopeId) : S.link.Runs (child parent) (child parent) Eq := by
  rintro ⟨store, output, next⟩ ⟨store', output', next'⟩ alike
  obtain ⟨same, like⟩ := alike.store.child parent
  exact ⟨⟨like, alike.fresh, alike.output⟩, same⟩

/-! ### Native functions -/

theorem count_mono {going : Float → Bool} {step x : Float} {rounds rounds' : Nat}
    {reached values : List Value} (more : rounds ≤ rounds')
    (counted : Native.count going step rounds x reached = some values) :
    Native.count going step rounds' x reached = some values := by
  -- On the rounds of the shorter count; the longer one makes the same tests.
  induction rounds generalizing rounds' x reached with
  | zero => simp [Native.count] at counted
  | succ rounds ih =>
    obtain ⟨rounds', rfl⟩ := Nat.exists_eq_add_of_lt more
    rw [Native.count] at counted ⊢
    split at counted
    next goes =>
      rw [if_pos goes]
      exact ih (by omega) counted
    next stops => rwa [if_neg stops]

theorem rangeFrom_mono {limit limit' : Nat} {start stop step : Float} {values : List Value}
    (more : limit ≤ limit') (counted : Native.rangeFrom limit start stop step = some values) :
    Native.rangeFrom limit' start stop step = some values := by
  unfold Native.rangeFrom at counted ⊢
  split at counted
  next up =>
    rw [if_pos up]
    exact count_mono more counted
  next notUp =>
  rw [if_neg notUp]
  split at counted
  next down =>
    rw [if_pos down]
    exact count_mono more counted
  next notDown => rwa [if_neg notDown]

theorem native_like (f : Native) {limit limit' : Nat} (more : Reaches S.loose limit limit')
    {arguments arguments' : List Value} (given : List.Forall₂ S.value arguments arguments')
    (places : S.place p q) :
    S.link.Runs (f.call limit arguments p) (f.call limit' arguments' q) S.value := by
  cases f with
  | print =>
    simp only [Native.call, Likeness.renderAll_eq given]
    exact (print_like _).bind fun _ _ _ => .pure Likeness.value_null
  | type =>
    cases given with
    | nil => exact fail_like _ places
    | cons first rest =>
      cases rest with
      | nil =>
        simp only [Native.call, Likeness.typeName_eq first]
        exact .pure Likeness.value_text
      | cons second rest =>
        simp only [Native.call, List.length_cons, rest.length_eq]
        exact fail_like _ places
  | range =>
    simp only [Native.call, Likeness.rangeArguments_eq given]
    split
    · exact fail_like _ places
    next start stop step _ =>
      -- A list that was finished under one bound is the same under a larger one. Where the first
      -- bound was met, the bounds are the same or the failure is excused.
      cases counted : Native.rangeFrom limit start stop step with
      | none =>
        rcases more with rfl | ⟨excused, -⟩
        · rw [counted]
          exact .throw .exhausted
        · exact .excuse ⟨excused, rfl⟩
      | some elements =>
        rw [rangeFrom_mono more.le counted]
        have inside : List.Forall₂ S.value elements elements :=
          List.forall₂_same.mpr fun value member =>
            Likeness.value_of_flat (Native.flat_of_rangeFrom counted value member)
        exact fresh_like.bind fun _ _ same => .pure (S.value_iff.mpr (.array same inside))

/-! ### Constructs -/

/-- Evaluations of trees that are alike agree. -/
def Agrees (S : Simulation) (ev ev' : Node → ScopeId → Eval Value) : Prop :=
  ∀ node node' s, S.node node node' → S.link.Runs (ev node s) (ev' node' s) S.value

section

variable {ev ev' : Node → ScopeId → Eval Value} (agrees : S.Agrees ev ev') (s : ScopeId)

include agrees

theorem all_like {nodes nodes' : List Node} (alike : List.Forall₂ S.node nodes nodes') :
    S.link.Runs (all ev s nodes) (all ev' s nodes') (List.Forall₂ S.value) := by
  induction alike with
  | nil => exact .pure .nil
  | cons first _ ih =>
    refine (agrees _ _ s first).bind fun value value' given => ?_
    exact ih.bind fun values values' others => .pure (.cons given others)

theorem body_like {nodes nodes' : List Node} (alike : List.Forall₂ S.node nodes nodes')
    {result result' : Value} (given : S.value result result') :
    S.link.Runs (body ev s result nodes) (body ev' s result' nodes') S.value := by
  induction alike generalizing result result' with
  | nil => exact .pure given
  | cons first _ ih =>
    refine (agrees _ _ s first).bind fun value value' found => ?_
    have goesOn := ih found
    -- Values that are alike have the same form, so both bodies stop here or neither does.
    cases S.value_iff.mp found with
    | returned => exact .pure found
    | _ => exact goesOn

theorem program_like {nodes nodes' : List Node} (alike : List.Forall₂ S.node nodes nodes')
    {result result' : Value} (given : S.value result result') :
    S.link.Runs (program ev s result nodes) (program ev' s result' nodes') S.value := by
  induction alike generalizing result result' with
  | nil => exact .pure given
  | cons first _ ih =>
    refine (agrees _ _ s first).bind fun value value' found => ?_
    have goesOn := ih found
    cases S.value_iff.mp found with
    | returned => exact fail_like _ (Likeness.place_span first)
    | _ => exact goesOn

theorem declaration_like (name : Bytes) (constant : Bool) {value value' : Node}
    (places : S.place p q) (alike : S.node value value') :
    S.link.Runs (declaration ev s p name constant value)
      (declaration ev' s q name constant value') S.value := by
  have stored (found found' : Value) (given : S.value found found') :
      S.link.Runs (declare s name found constant p >>= fun _ => pure found)
        (declare s name found' constant q >>= fun _ => pure found') S.value :=
    (declare_like s name constant places given).bind fun _ _ _ => .pure given
  simp only [declaration, Likeness.isMissing_eq alike]
  split
  · exact stored _ _ Likeness.value_null
  · exact (agrees _ _ s alike).bind stored

theorem assignment_like {target target' value value' : Node} (places : S.place p q)
    (left : S.node target target') (right : S.node value value') :
    S.link.Runs (assignment ev s p target value) (assignment ev' s q target' value') S.value := by
  have outside := Likeness.place_span left
  -- Any target but a name is refused before the value is looked at.
  cases S.node_match left with
  | name =>
    refine (agrees _ _ s right).bind fun found found' given => ?_
    exact (assign_like s _ places given).bind fun _ _ _ => .pure given
  | _ => exact fail_like _ outside

theorem fields_like {properties properties' : List Property}
    (alike : List.Forall₂ (fun a b : Property => S.place a.span b.span ∧ a.key = b.key ∧
      S.node a.value b.value) properties properties')
    {made made' : Fields Value} (held : S.fields made made') :
    S.link.Runs (fields ev s made properties) (fields ev' s made' properties') S.fields := by
  induction alike generalizing made made' with
  | nil => exact .pure held
  | @cons entry entry' rest rest' first _ ih =>
    obtain ⟨span, key, value⟩ := entry
    obtain ⟨span', key', value'⟩ := entry'
    obtain ⟨places, sameKey, inside⟩ := first
    obtain rfl : key = key' := sameKey
    have goesOn (found found' : Value) (given : S.value found found') :
        S.link.Runs (fields ev s (made.set key found) rest)
          (fields ev' s (made'.set key found') rest') S.fields :=
      ih (Likeness.fields_set held key given)
    have missing : value.isMissing = value'.isMissing := Likeness.isMissing_eq inside
    simp only [fields, missing]
    -- An entry without a value stands for the variable of its name.
    split
    · exact (lookup_like s key places).bind goesOn
    · exact (agrees _ _ s inside).bind goesOn

theorem operation_like (family : Family) (operator : Kind) {left left' right right' : Node}
    (places : S.place p q) (first : S.node left left') (second : S.node right right') :
    S.link.Runs (operation ev s p family operator left right)
      (operation ev' s q family operator left' right') S.value := by
  refine (agrees _ _ s first).bind fun a a' one => (agrees _ _ s second).bind fun b b' two => ?_
  rw [Likeness.operate_eq one two]
  cases result : Value.operate family operator a' b' with
  | ok value => exact .pure (Likeness.value_of_flat (Value.flat_of_operate result))
  | error fault => exact fail_like _ places

theorem choice_like {branches branches' : List Branch} {otherwise otherwise' : Option (List Node)}
    (alike : List.Forall₂ (fun b c : Branch => S.node b.condition c.condition ∧
      List.Forall₂ S.node b.body c.body) branches branches')
    (last : List.Forall₂ S.node (otherwise.getD []) (otherwise'.getD [])) :
    S.link.Runs (choice ev s otherwise branches) (choice ev' s otherwise' branches') S.value := by
  induction alike with
  | nil => exact body_like agrees s last Likeness.value_null
  | @cons branch branch' rest rest' first _ ih =>
    obtain ⟨span, condition, statements⟩ := branch
    obtain ⟨span', condition', statements'⟩ := branch'
    obtain ⟨test, inside⟩ := first
    refine (agrees condition condition' s test).bind fun value value' found => ?_
    have kind := Likeness.typeName_eq found
    -- Values that are alike are the same Boolean, or no Booleans of one type.
    cases S.value_iff.mp found with
    | bool b =>
      cases b with
      | true => exact body_like agrees s inside Likeness.value_null
      | false => exact ih
    | _ =>
      simp only [kind]
      exact fail_like _ (Likeness.place_span test)

omit agrees in
theorem bindAll_like (names : List Bytes) {values values' : List Value} (places : S.place p q)
    (given : List.Forall₂ S.value values values') :
    S.link.Runs (bindAll s p names values) (bindAll s q names values') fun _ _ => True := by
  induction names generalizing values values' with
  | nil => exact .pure trivial
  | cons name names ih =>
    cases given with
    | nil => exact .pure trivial
    | cons first others =>
      exact (declare_like s name false places first).bind fun _ _ _ => ih others

omit agrees in
theorem callScope_like (name : Bytes) (params : List Bytes) {arguments arguments' : List Value}
    (home : ScopeId) (places : S.place p q) (given : List.Forall₂ S.value arguments arguments') :
    S.link.Runs (callScope name params arguments home p) (callScope name params arguments' home q)
      Eq := by
  -- Both stores have the same number of scopes, so the new scope has the same number in both.
  simp only [callScope, given.length_eq]
  split
  · refine (child_like home).bind fun s s' same => ?_
    subst same
    exact (bindAll_like s params places given).bind fun _ _ _ => .pure rfl
  · exact fail_like _ places

theorem apply_like {limit limit' : Nat} (more : Reaches S.loose limit limit')
    {callee callee' : Value} {arguments arguments' : List Value} (places : S.place p q)
    (head : S.value callee callee') (given : List.Forall₂ S.value arguments arguments') :
    S.link.Runs (apply ev limit callee arguments p) (apply ev' limit' callee' arguments' q)
      S.value := by
  have kind := Likeness.typeName_eq head
  -- Values that are alike have one form: both are called in the same way, or neither can be.
  cases S.value_iff.mp head with
  | native f => exact native_like f more given places
  | function _ statements =>
    refine (callScope_like _ _ _ places given).bind fun s s' same => ?_
    subst same
    refine (body_like agrees s statements Likeness.value_null).bind fun value value' found => ?_
    cases S.value_iff.mp found with
    | returned _ inside => exact .pure inside
    | _ => exact .pure Likeness.value_null
  | lambda _ result =>
    refine (callScope_like _ _ _ places given).bind fun s s' same => ?_
    subst same
    exact agrees _ _ s result
  | _ =>
    simp only [apply, kind]
    exact fail_like _ places

theorem call_like {limit limit' : Nat} (more : Reaches S.loose limit limit')
    {callee callee' : Node} {arguments arguments' : List Node} (places : S.place p q)
    (head : S.node callee callee') (inputs : List.Forall₂ S.node arguments arguments') :
    S.link.Runs (call ev limit s p callee arguments) (call ev' limit' s q callee' arguments')
      S.value := by
  refine (all_like agrees s inputs).bind fun values values' given => ?_
  refine (agrees _ _ s head).bind fun function function' found => ?_
  exact apply_like agrees more places found given

theorem memberKey_like {property property' : Node} (computed : Bool)
    (alike : S.node property property') :
    S.link.Runs (memberKey ev s property computed) (memberKey ev' s property' computed)
      S.value := by
  cases computed with
  | true => exact agrees _ _ s alike
  | false =>
    have outside := Likeness.place_span alike
    cases S.node_match alike with
    | name => exact .pure Likeness.value_text
    | _ => exact fail_like _ outside

theorem member_like {object object' property property' : Node} (computed : Bool)
    (places : S.place p q) (inside : S.node object object') (key : S.node property property') :
    S.link.Runs (member ev s p object property computed)
      (member ev' s q object' property' computed) S.value := by
  refine (agrees _ _ s inside).bind fun collection collection' found => ?_
  refine (memberKey_like agrees s computed key).bind fun key key' given => ?_
  -- The messages name the types, which are the same on both sides.
  have kind := Likeness.typeName_eq found
  have keyKind := Likeness.typeName_eq given
  have outside := Likeness.place_span ‹S.node property property'›
  cases S.value_iff.mp found with
  | object _ entries =>
    cases S.value_iff.mp given with
    | text => exact .pure (Likeness.fields_get entries _)
    | _ =>
      simp only [keyKind]
      exact fail_like _ outside
  | array _ elements =>
    cases S.value_iff.mp given with
    | @number index =>
      simp only [elements.length_eq]
      rcases rel_cases (Likeness.element_rel elements index) with
        ⟨left, right⟩ | ⟨value, value', left, right, same⟩
      · rw [left, right]
        exact fail_like _ outside
      · rw [left, right]
        exact .pure same
    | _ =>
      simp only [keyKind]
      exact fail_like _ outside
  | _ =>
    simp only [kind]
    exact fail_like _ places

end

theorem function_like (s : ScopeId) (name : Bytes) (params : List Bytes)
    {statements statements' : List Node} (places : S.place p q)
    (alike : List.Forall₂ S.node statements statements') :
    S.link.Runs (function s p name params statements) (function s q name params statements')
      S.value := by
  refine fresh_like.bind fun i j same => ?_
  have made : S.value (.function i name params statements s)
      (.function j name params statements' s) :=
    S.value_iff.mpr (.function same alike)
  exact (declare_like s name true places made).bind fun _ _ _ => .pure made

theorem step_like {ev ev' : Node → ScopeId → Eval Value} (agrees : S.Agrees ev ev')
    {limit limit' : Nat} (more : Reaches S.loose limit limit') {node node' : Node} (s : ScopeId)
    (alike : S.node node node') :
    S.link.Runs (step ev limit node s) (step ev' limit' node' s) S.value := by
  -- Trees that are alike have one form, so the same construct is evaluated on both sides.
  cases S.node_match alike with
  | missing => exact .pure Likeness.value_null
  | null => exact .pure Likeness.value_null
  | number _ written => exact .pure (S.value_iff.mpr (.number written))
  | text => exact .pure Likeness.value_text
  | name places => exact lookup_like s _ places
  | program _ statements => exact program_like agrees s statements Likeness.value_null
  | declare places initial => exact declaration_like agrees s _ _ places initial
  | function places statements => exact function_like s _ _ places statements
  | lambda _ result =>
    exact fresh_like.bind fun _ _ same => .pure (S.value_iff.mpr (.lambda same result))
  | choice _ conditions last => exact choice_like agrees s conditions last
  | ret _ result =>
    refine (agrees _ _ s result).bind fun value value' found => ?_
    exact fresh_like.bind fun _ _ same => .pure (S.value_iff.mpr (.returned same found))
  | del places => exact (delete_like s _ places).bind fun _ _ _ => .pure Likeness.value_null
  | raise places => exact .throw (.raised places)
  | assign places left right => exact assignment_like agrees s places left right
  | member places inside key => exact member_like agrees s _ places inside key
  | call places head inputs => exact call_like agrees s more places head inputs
  | operation places first second => exact operation_like agrees s _ _ places first second
  | array _ inside =>
    refine (all_like agrees s inside).bind fun values values' found => ?_
    exact fresh_like.bind fun _ _ same => .pure (S.value_iff.mpr (.array same found))
  | object _ inside =>
    refine (fields_like agrees s inside .nil).bind fun entries entries' found => ?_
    exact fresh_like.bind fun _ _ same => .pure (S.value_iff.mpr (.object same found))
  | unknown places => exact fail_like _ places

/-- Evaluation does not tell trees that are alike from each other. -/
theorem agrees_eval (S : Simulation) {depth depth' : Nat} (deeper : Reaches S.loose depth depth') :
    S.Agrees (eval depth) (eval depth') := by
  induction depth generalizing depth' with
  | zero =>
    -- Depth zero always fails: the second run fails with it, or the failure is excused.
    rcases deeper with rfl | ⟨excused, -⟩
    · exact fun _ _ _ _ => .throw .exhausted
    · exact fun _ _ _ _ => .excuse ⟨excused, rfl⟩
  | succ depth ih =>
    obtain ⟨depth', rfl⟩ : ∃ k, depth' = k + 1 := ⟨depth' - 1, by have := deeper.le; omega⟩
    exact fun _ _ s alike => step_like (ih deeper.pred) deeper.pred s alike

/-- The comparison of a run with a deeper one that starts out the same. -/
def same : Simulation :=
  { Likeness.same with
    scopes := .same
    output := Eq
    output_append := fun same text => by rw [same]
    loose := True }

theorem same_of_machines {m n : Machine} (alike : same.Machines m n) : m = n := by
  have sameStore : m.store = n.store := Store.like_same_iff.mp alike.store
  have sameOutput : m.output = n.output := alike.output
  have sameNext : m.nextIdentity = n.nextIdentity := alike.fresh 0
  cases m
  cases n
  simp_all

end Simulation

/-- Came to an end before the depth did. -/
def Finished {α : Type} : EStateM.Result Failure Machine α → Prop
  | .error .exhausted _ => False
  | _ => True

end Eval

/-- An evaluation that has ended within its depth ends in the same way within any larger one. -/
theorem eval_mono {depth depth' : Nat} (deeper : depth ≤ depth') {node : Node} {s : ScopeId}
    {machine : Machine} (finished : Eval.Finished (eval depth node s machine)) :
    eval depth' node s machine = eval depth node s machine := by
  have start : Eval.Simulation.same.Machines machine machine :=
    ⟨Store.like_same_iff.mpr rfl, fun _ => rfl, rfl⟩
  have agree := Eval.Simulation.same.agrees_eval (.inr ⟨trivial, deeper⟩) node node s rfl
    machine machine start
  obtain ⟨a, m, b, n, first, second, machines, same⟩ |
    ⟨e, m, f, n, first, second, machines, failures⟩ | ⟨e, m, first, -, met⟩ := agree.cases
  · obtain rfl : a = b := same
    rw [first, second, Eval.Simulation.same_of_machines machines]
  · rw [first, second, Eval.Simulation.same_of_machines machines, Failure.eq_of_like failures]
  -- Only a run that met its bound is excused, and this one did not.
  · rw [first, met] at finished
    exact finished.elim

end Tide
