import Mathlib
import Tide.Proofs.Eval.Sources
import Tide.Proofs.Scope.Values
import Tide.Proofs.Value.Held

/-!
# What evaluation keeps

A discipline says what is asked of code, of the scopes that code runs in or that closures were made
in, and of the store. If each single change that evaluation makes to the store keeps what is asked
of it, whole runs do: they leave such a store behind whether they succeed or fail, and the closures
in the values they give satisfy the same demands.

What is asked of a scope may depend on how many scopes there are. The number only ever grows, and
the demands must hold on with it.

## Proof strategy

One lemma for each construct, in the order of the evaluator, all for any evaluation of the parts
that is disciplined itself. The knot is an induction on the depth.
-/
namespace Tide

namespace Eval

structure Discipline where
  code : Node → Prop
  /-- The scopes that closures were made in, when there are so many scopes. -/
  home : Nat → ScopeId → Prop
  /-- The scopes that code runs in. -/
  entered : Nat → ScopeId → Prop
  store : Store → Prop
  code_part {node part : Node} (given : code node) (inside : part ∈ node.parts) : code part
  home_mono {n k : Nat} {s : ScopeId} (more : n ≤ k) (here : home n s) : home k s
  entered_mono {n k : Nat} {s : ScopeId} (more : n ≤ k) (here : entered n s) : entered k s
  home_of_entered {n : Nat} {s : ScopeId} (here : entered n s) : home n s
  lookup {σ : Store} {s : ScopeId} {name : Bytes} {value : Value} (kept : store σ)
    (here : entered σ.size s) (found : σ.lookup s name = .ok value) :
    value.Held code (home σ.size)
  declare {σ : Store} {s : ScopeId} {name : Bytes} {value : Value} {constant : Bool}
    (kept : store σ) (here : entered σ.size s) (given : value.Held code (home σ.size))
    (allowed : σ.declareFault? s name = none) :
    store (σ.update s (·.declare name value constant))
  assign {σ : Store} {s : ScopeId} {name : Bytes} {value : Value} (kept : store σ)
    (here : entered σ.size s) (given : value.Held code (home σ.size))
    (allowed : σ.assignFault? s name = none) :
    store (σ.updateHome s name (·.assign name value))
  delete {σ : Store} {s : ScopeId} {name : Bytes} {span : Span} (kept : store σ)
    (here : entered σ.size s) (given : code (.del span name))
    (allowed : σ.deleteFault? s name = none) :
    store (σ.updateHome s name (·.delete name))
  child {σ : Store} {parent : ScopeId} (kept : store σ) (given : home σ.size parent) :
    store (σ.child parent).2 ∧ entered (σ.size + 1) σ.size

namespace Discipline

variable (d : Discipline)

/-- What is asked of a value when there are so many scopes. -/
def Holds (n : Nat) (value : Value) : Prop := value.Held d.code (d.home n)

variable {d} in
theorem Holds.mono {n k : Nat} {value : Value} (held : d.Holds n value) (more : n ≤ k) :
    d.Holds k value :=
  Value.Held.mono held fun _ => d.home_mono more

section

variable {α β : Type}

/-- The store is kept, and so is what is asked of the result. -/
def After (n : Nat) (Q : Nat → α → Prop) : EStateM.Result Failure Machine α → Prop
  | .ok a m => d.store m.store ∧ n ≤ m.store.size ∧ Q m.store.size a
  | .error _ m => d.store m.store ∧ n ≤ m.store.size

/-- Started with at least so many scopes, the computation keeps the discipline. -/
def Keeps (n : Nat) (x : Eval α) (Q : Nat → α → Prop) : Prop :=
  ∀ m : Machine, d.store m.store → n ≤ m.store.size → d.After m.store.size Q (x m)

variable {d} {n : Nat} {x : Eval α} {P Q : Nat → α → Prop} {R : Nat → β → Prop}

theorem Keeps.pure {a : α} (given : ∀ k, n ≤ k → Q k a) : d.Keeps n (Pure.pure a) Q :=
  fun _ kept more => ⟨kept, le_rfl, given _ more⟩

theorem Keeps.throw {e : Failure} : d.Keeps n (MonadExcept.throw e) Q :=
  fun _ kept _ => ⟨kept, le_rfl⟩

theorem Keeps.fail {fault : RuntimeFault} {span : Span} : d.Keeps n (fail fault span) Q :=
  .throw

theorem Keeps.bind {f : α → Eval β} (first : d.Keeps n x Q)
    (second : ∀ k a, n ≤ k → Q k a → d.Keeps k (f a) R) : d.Keeps n (x >>= f) R := by
  intro m kept more
  have after := first m kept more
  change d.After m.store.size R (EStateM.bind x f m)
  unfold EStateM.bind
  cases ran : x m with
  | error e m' =>
    rw [ran] at after
    exact after
  | ok a m' =>
    rw [ran] at after
    obtain ⟨kept', grown, given⟩ := after
    -- The second computation counts from the scopes that the first one left.
    have later := second _ a (more.trans grown) given m' kept' le_rfl
    simp only
    cases ended : f a m' with
    | ok b m'' =>
      rw [ended] at later
      exact ⟨later.1, grown.trans later.2.1, later.2.2⟩
    | error e m'' =>
      rw [ended] at later
      exact ⟨later.1, grown.trans later.2⟩

theorem Keeps.mono {k : Nat} (run : d.Keeps n x Q) (more : n ≤ k) : d.Keeps k x Q :=
  fun m kept enough => run m kept (more.trans enough)

theorem Keeps.value {value : Value} (given : d.Holds n value) :
    d.Keeps n (Pure.pure value) d.Holds :=
  .pure fun _ more => given.mono more

theorem Keeps.flat {value : Value} (flat : value.Flat) :
    d.Keeps n (Pure.pure value) d.Holds :=
  .value flat.held

end

/-! ### Primitives -/

variable {d} {n : Nat} {s : ScopeId}

theorem keeps_fresh : d.Keeps n fresh fun _ _ => True :=
  fun _ kept _ => ⟨kept, le_rfl, trivial⟩

theorem keeps_print (text : Bytes) : d.Keeps n (print text) fun _ _ => True :=
  fun _ kept _ => ⟨kept, le_rfl, trivial⟩

theorem keeps_lookup (here : d.entered n s) (name : Bytes) (span : Span) :
    d.Keeps n (Eval.lookup s name span) d.Holds := by
  intro m kept more
  simp only [Eval.lookup, get, getThe, MonadStateOf.get, EStateM.get, bind, EStateM.bind]
  cases found : m.store.lookup s name with
  | ok value => exact ⟨kept, le_rfl, d.lookup kept (d.entered_mono more here) found⟩
  | error fault => exact ⟨kept, le_rfl⟩

theorem keeps_updateStore {fault? : Store → Option ScopeFault} {change : Store → Store}
    {span : Span}
    (same : ∀ σ : Store, (change σ).size = σ.size)
    (keeps : ∀ σ : Store, n ≤ σ.size → d.store σ → fault? σ = none → d.store (change σ)) :
    d.Keeps n (updateStore fault? change span) fun _ _ => True := by
  rintro ⟨store, output, next⟩ kept more
  simp only [updateStore]
  cases allowed : fault? store with
  | some fault => exact ⟨kept, le_rfl⟩
  | none => exact ⟨keeps store more kept allowed, (same store).ge, trivial⟩

theorem keeps_declare (here : d.entered n s) (name : Bytes) {value : Value} (constant : Bool)
    (span : Span) (given : d.Holds n value) :
    d.Keeps n (Eval.declare s name value constant span) fun _ _ => True :=
  keeps_updateStore (fun _ => Store.size_update ..) fun _ more kept allowed =>
    d.declare kept (d.entered_mono more here) (given.mono more) allowed

theorem keeps_assign (here : d.entered n s) (name : Bytes) {value : Value} (span : Span)
    (given : d.Holds n value) :
    d.Keeps n (Eval.assign s name value span) fun _ _ => True :=
  keeps_updateStore (fun _ => Store.size_updateHome ..) fun _ more kept allowed =>
    d.assign kept (d.entered_mono more here) (given.mono more) allowed

theorem keeps_delete (here : d.entered n s) {name : Bytes} {span : Span}
    (given : d.code (.del span name)) : d.Keeps n (Eval.delete s name span) fun _ _ => True :=
  keeps_updateStore (fun _ => Store.size_updateHome ..) fun _ more kept allowed =>
    d.delete kept (d.entered_mono more here) given allowed

theorem keeps_child {parent : ScopeId} (given : d.home n parent) :
    d.Keeps n (Eval.child parent) d.entered := by
  rintro ⟨store, output, next⟩ kept more
  obtain ⟨kept', here⟩ := d.child kept (d.home_mono more given)
  refine ⟨kept', ?_, ?_⟩
  · exact (Nat.le_succ _).trans (Store.size_child ..).ge
  · exact (Store.size_child store parent).symm ▸ here

theorem keeps_native (f : Native) (limit : Nat) (arguments : List Value) (span : Span) :
    d.Keeps n (f.call limit arguments span) d.Holds := by
  cases f with
  | print => exact (keeps_print _).bind fun _ _ _ _ => .value .null
  | type =>
    simp only [Native.call]
    split
    · exact .value (.text ..)
    · exact .fail
  | range =>
    simp only [Native.call]
    split
    · exact .fail
    · split
      · exact .throw
      next counted =>
        have inside := Native.flat_of_rangeFrom counted
        exact keeps_fresh.bind fun _ _ _ _ => .value (.array fun value member =>
          (inside value member).held)

/-! ### Constructs -/

/-- Values in a list, when there are so many scopes. -/
def HoldsAll (d : Discipline) (n : Nat) (values : List Value) : Prop :=
  ∀ value ∈ values, d.Holds n value

/-- Evaluation of code that runs where it may. -/
def Disciplined (d : Discipline) (ev : Node → ScopeId → Eval Value) : Prop :=
  ∀ n node s, d.code node → d.entered n s → d.Keeps n (ev node s) d.Holds

theorem HoldsAll.mono {k : Nat} {values : List Value} (held : d.HoldsAll n values) (more : n ≤ k) :
    d.HoldsAll k values :=
  fun value member => (held value member).mono more

section

variable {ev : Node → ScopeId → Eval Value} (disciplined : d.Disciplined ev)
  (here : d.entered n s)

include disciplined here

theorem keeps_all {nodes : List Node} (code : ∀ node ∈ nodes, d.code node) :
    d.Keeps n (all ev s nodes) d.HoldsAll := by
  induction nodes generalizing n with
  | nil => exact .pure fun _ _ => by simp [HoldsAll]
  | cons node rest ih =>
    obtain ⟨first, others⟩ := List.forall_mem_cons.mp code
    refine (disciplined n node s first here).bind fun k value more given => ?_
    refine (ih (d.entered_mono more here) others).bind fun l values more' held => ?_
    exact .pure fun _ more'' =>
      List.forall_mem_cons.mpr ⟨given.mono (more'.trans more''), held.mono more''⟩

theorem keeps_body {nodes : List Node} (code : ∀ node ∈ nodes, d.code node) {result : Value}
    (given : d.Holds n result) : d.Keeps n (body ev s result nodes) d.Holds := by
  induction nodes generalizing n result with
  | nil => exact .value given
  | cons node rest ih =>
    obtain ⟨first, others⟩ := List.forall_mem_cons.mp code
    refine (disciplined n node s first here).bind fun k value more held => ?_
    have goesOn := ih (d.entered_mono more here) others held
    -- Whether the body goes on depends on the form of the value alone.
    cases value with
    | returned identity inner => exact .value held
    | _ => exact goesOn

theorem keeps_program {nodes : List Node} (code : ∀ node ∈ nodes, d.code node)
    {result : Value} (given : d.Holds n result) :
    d.Keeps n (program ev s result nodes) d.Holds := by
  induction nodes generalizing n result with
  | nil => exact .value given
  | cons node rest ih =>
    obtain ⟨first, others⟩ := List.forall_mem_cons.mp code
    refine (disciplined n node s first here).bind fun k value more held => ?_
    have goesOn := ih (d.entered_mono more here) others held
    cases value with
    | returned identity inner => exact .fail
    | _ => exact goesOn

theorem keeps_declaration (span : Span) (name : Bytes) (constant : Bool) {value : Node}
    (code : d.code value) : d.Keeps n (declaration ev s span name constant value) d.Holds := by
  -- With an initial value or without, the end is the same.
  have stored {k : Nat} {found : Value} (more : n ≤ k) (given : d.Holds k found) :
      d.Keeps k (Eval.declare s name found constant span >>= fun _ => Pure.pure found) d.Holds :=
    (keeps_declare (d.entered_mono more here) name constant span given).bind
      fun _ _ more' _ => .value (given.mono more')
  simp only [declaration]
  split
  · exact stored le_rfl .null
  · exact (disciplined n value s code here).bind fun _ _ more given => stored more given

theorem keeps_assignment (span : Span) (target : Node) {value : Node} (code : d.code value) :
    d.Keeps n (assignment ev s span target value) d.Holds := by
  unfold assignment
  split
  next name =>
    refine (disciplined n value s code here).bind fun k value more given => ?_
    have stored := keeps_assign (d.entered_mono more here) name span given
    exact stored.bind fun _ _ more' _ => .value (given.mono more')
  · exact .fail

theorem keeps_fields {properties : List Property}
    (code : ∀ entry ∈ properties, d.code entry.value) {made : Fields Value}
    (held : ∀ entry ∈ made, d.Holds n entry.2) :
    d.Keeps n (fields ev s made properties) fun k made => ∀ entry ∈ made, d.Holds k entry.2 := by
  induction properties generalizing n made with
  | nil => exact .pure fun _ more entry member => (held entry member).mono more
  | cons entry rest ih =>
    obtain ⟨first, others⟩ := List.forall_mem_cons.mp code
    obtain ⟨span, key, value⟩ := entry
    have goesOn {k : Nat} {found : Value} (more : n ≤ k) (given : d.Holds k found) :
        d.Keeps k (fields ev s (made.set key found) rest)
          fun k made => ∀ entry ∈ made, d.Holds k entry.2 :=
      ih (d.entered_mono more here) others
        (Fields.forall_set (fun entry member => (held entry member).mono more) given)
    -- An entry without a value stands for the variable of its name.
    simp only [fields]
    split
    · exact (keeps_lookup here key span).bind fun _ _ more given => goesOn more given
    · exact (disciplined n value s first here).bind fun _ _ more given => goesOn more given

theorem keeps_operation (span : Span) (family : Family) (operator : Kind) {left right : Node}
    (first : d.code left) (second : d.code right) :
    d.Keeps n (operation ev s span family operator left right) d.Holds := by
  refine (disciplined n left s first here).bind fun k a more _ => ?_
  refine (disciplined k right s second (d.entered_mono more here)).bind fun l b more' _ => ?_
  split
  next result => exact .flat (Value.flat_of_operate result)
  next => exact .fail

theorem keeps_choice {branches : List Branch} {otherwise : Option (List Node)}
    (conditions : ∀ branch ∈ branches, d.code branch.condition)
    (bodies : ∀ branch ∈ branches, ∀ node ∈ branch.body, d.code node)
    (last : ∀ node ∈ otherwise.getD [], d.code node) :
    d.Keeps n (choice ev s otherwise branches) d.Holds := by
  -- A condition is code like any other, and may have made scopes before the next one is tested.
  induction branches generalizing n with
  | nil => exact keeps_body disciplined here last .null
  | cons branch rest ih =>
    obtain ⟨condition, otherConditions⟩ := List.forall_mem_cons.mp conditions
    obtain ⟨statements, otherBodies⟩ := List.forall_mem_cons.mp bodies
    obtain ⟨span, test, nodes⟩ := branch
    refine (disciplined n test s condition here).bind fun k value more _ => ?_
    have here' := d.entered_mono more here
    have goesOn := ih here' otherConditions otherBodies
    split
    · exact keeps_body disciplined here' statements .null
    · exact goesOn
    · exact .fail

theorem keeps_memberKey {property : Node} (computed : Bool) (code : d.code property) :
    d.Keeps n (memberKey ev s property computed) d.Holds := by
  unfold memberKey
  split
  · exact disciplined n property s code here
  · split
    · exact .value (.text ..)
    · exact .fail

theorem keeps_member (span : Span) {object property : Node} (computed : Bool)
    (inside : d.code object) (key : d.code property) :
    d.Keeps n (member ev s span object property computed) d.Holds := by
  refine (disciplined n object s inside here).bind fun k collection more held => ?_
  have keyed := keeps_memberKey disciplined (d.entered_mono more here) computed key
  refine keyed.bind fun l found more' _ => ?_
  -- What a held array or object gives is an element or a field of it, and so is held itself.
  cases held with
  | object inside =>
    simp only
    split
    · exact .value (Holds.mono (Fields.getD_of_forall inside .null) more')
    · exact .fail
  | array inside =>
    simp only
    split
    · split
      next found => exact .value (Holds.mono (inside _ (mem_of_element found)) more')
      next => exact .fail
    · exact .fail
  | _ => exact .fail

end

theorem keeps_function (here : d.entered n s) (span : Span) (name : Bytes) (params : List Bytes)
    {body : List Node} (code : ∀ node ∈ body, d.code node) :
    d.Keeps n (function s span name params body) d.Holds := by
  refine keeps_fresh.bind fun k identity more _ => ?_
  have here' := d.entered_mono more here
  have made : d.Holds k (.function identity name params body s) :=
    .function code (d.home_of_entered here')
  exact (keeps_declare here' name true span made).bind fun _ _ more' _ => .value (made.mono more')

theorem keeps_bindAll (here : d.entered n s) (span : Span) {names : List Bytes}
    {values : List Value} (given : d.HoldsAll n values) :
    d.Keeps n (bindAll s span names values) fun _ _ => True := by
  induction names generalizing n values with
  | nil => exact .pure fun _ _ => trivial
  | cons name names ih =>
    cases values with
    | nil => exact .pure fun _ _ => trivial
    | cons value values =>
      obtain ⟨first, others⟩ := List.forall_mem_cons.mp given
      refine (keeps_declare here name false span first).bind fun k _ more _ => ?_
      exact ih (d.entered_mono more here) fun value member => (others value member).mono more

theorem keeps_callScope {home : ScopeId} (made : d.home n home) (name : Bytes) (params : List Bytes)
    {arguments : List Value} (span : Span) (given : d.HoldsAll n arguments) :
    d.Keeps n (callScope name params arguments home span) d.entered := by
  unfold callScope
  split
  · refine (keeps_child made).bind fun k s more here => ?_
    have bound : d.Keeps k (bindAll s span params arguments) fun _ _ => True :=
      keeps_bindAll here span (given.mono more)
    exact bound.bind fun _ _ more' _ => .pure fun _ more'' =>
      d.entered_mono (more'.trans more'') here
  · exact .fail

section

variable {ev : Node → ScopeId → Eval Value} (disciplined : d.Disciplined ev)

include disciplined

theorem keeps_apply (limit : Nat) {callee : Value} {arguments : List Value} (span : Span)
    (held : d.Holds n callee) (given : d.HoldsAll n arguments) :
    d.Keeps n (apply ev limit callee arguments span) d.Holds := by
  cases held with
  | native f => exact keeps_native f limit arguments span
  -- The code of a closure runs in a new scope below the one it was made in, not below the caller's.
  | function statements made =>
    refine (keeps_callScope made _ _ span given).bind fun k s more here => ?_
    refine (keeps_body disciplined here statements .null).bind fun l value more' held => ?_
    cases held with
    | returned inside => exact .value inside
    | _ => exact .value .null
  | lambda result made =>
    refine (keeps_callScope made _ _ span given).bind fun k s more here => ?_
    exact disciplined k _ s result here
  | _ => exact .fail

theorem keeps_call (here : d.entered n s) (limit : Nat) (span : Span) {callee : Node}
    {arguments : List Node} (head : d.code callee) (inputs : ∀ node ∈ arguments, d.code node) :
    d.Keeps n (call ev limit s span callee arguments) d.Holds := by
  refine (keeps_all disciplined here inputs).bind fun k values more given => ?_
  have inside := disciplined k callee s head (d.entered_mono more here)
  refine inside.bind fun l function more' held => ?_
  exact keeps_apply disciplined limit span held (given.mono more')

theorem keeps_step (limit : Nat) {node : Node} (code : d.code node) (here : d.entered n s) :
    d.Keeps n (step ev limit node s) d.Holds := by
  -- Code is closed under parts, so the evaluator of the parts may be used on each of them.
  have parts (part : Node) (inside : part ∈ node.parts) : d.code part := d.code_part code inside
  cases node with
  | missing => exact .value .null
  | null span => exact .value .null
  | number span x width => exact .value (.number ..)
  | text span x length => exact .value (.text ..)
  | name span name => exact keeps_lookup here name span
  | program span statements => exact keeps_program disciplined here parts .null
  | declare span name constant value =>
    exact keeps_declaration disciplined here span name constant (parts value (by simp [Node.parts]))
  | function span name params statements => exact keeps_function here span name params parts
  -- A closure keeps the scope it is made in, which is a home from now on.
  | lambda span params value =>
    refine keeps_fresh.bind fun k identity more _ => .value ?_
    have home := d.home_of_entered (d.entered_mono more here)
    exact .lambda (parts value (by simp [Node.parts])) home
  | choice span branches otherwise =>
    refine keeps_choice disciplined here ?_ ?_ ?_
    · intro branch member
      exact parts _ (by simpa [Node.parts] using .inl ⟨branch, member, .inl rfl⟩)
    · intro branch member node inside
      exact parts _ (by simpa [Node.parts] using .inl ⟨branch, member, .inr inside⟩)
    · intro node inside
      exact parts _ (by simpa [Node.parts] using .inr inside)
  | ret span value =>
    refine (disciplined n value s (parts value (by simp [Node.parts])) here).bind
      fun k value more held => ?_
    exact keeps_fresh.bind fun _ _ more' _ => .value (.returned (held.mono more'))
  | del span name => exact (keeps_delete here code).bind fun _ _ _ _ => .value .null
  | raise span message => exact .throw
  | assign span target value =>
    exact keeps_assignment disciplined here span target (parts value (by simp [Node.parts]))
  | member span object property computed =>
    exact keeps_member disciplined here span computed (parts object (by simp [Node.parts]))
      (parts property (by simp [Node.parts]))
  | call span callee arguments =>
    exact keeps_call disciplined here limit span (parts callee (by simp [Node.parts]))
      fun node member => parts node (by simp [Node.parts, member])
  | operation span family operator left right =>
    exact keeps_operation disciplined here span family operator (parts left (by simp [Node.parts]))
      (parts right (by simp [Node.parts]))
  | array span elements =>
    refine (keeps_all disciplined here parts).bind fun k values more held => ?_
    exact keeps_fresh.bind fun _ _ more' _ => .value (.array (held.mono more'))
  | object span properties =>
    have values : ∀ entry ∈ properties, d.code entry.value := fun entry member =>
      parts _ (List.mem_map.mpr ⟨entry, member, rfl⟩)
    refine (keeps_fields disciplined here values (by simp)).bind fun k made more held => ?_
    exact keeps_fresh.bind fun _ _ more' _ => .value
      (.object fun entry member => (held entry member).mono more')
  | unknown span => exact .fail

end

theorem disciplined_eval (d : Discipline) (depth : Nat) : d.Disciplined (eval depth) := by
  induction depth with
  -- Running out of depth is a failure like any other: the store is what it was.
  | zero => exact fun _ _ _ _ _ => .throw
  | succ depth ih => exact fun _ _ _ code here => keeps_step ih depth code here

/-- What a whole run leaves behind, however it ends. -/
theorem Keeps.settle {n : Nat} {x : Eval Value} (run : d.Keeps n x d.Holds) {machine : Machine}
    (kept : d.store machine.store) (more : n ≤ machine.store.size) :
    d.store (Machine.settle (x machine)).2.store ∧
      ∀ value, (Machine.settle (x machine)).1 = .value value →
        d.Holds (Machine.settle (x machine)).2.store.size value := by
  have after := run machine kept more
  cases ended : x machine with
  | ok result last =>
    rw [ended] at after
    refine ⟨after.1, ?_⟩
    rintro _ ⟨⟩
    exact after.2.2
  | error failure last =>
    rw [ended] at after
    exact ⟨after.1, nofun⟩

theorem settle_eval (d : Discipline) (depth : Nat) (node : Node) (s : ScopeId) {machine : Machine}
    (code : d.code node) (here : d.entered machine.store.size s) (kept : d.store machine.store) :
    d.store (Machine.settle (eval depth node s machine)).2.store ∧
      ∀ value, (Machine.settle (eval depth node s machine)).1 = .value value →
        d.Holds (Machine.settle (eval depth node s machine)).2.store.size value :=
  (d.disciplined_eval depth _ node s code here).settle kept le_rfl

end Eval.Discipline
end Tide
