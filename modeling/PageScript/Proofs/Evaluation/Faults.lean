import PageScript.Proofs.Evaluation.Sessions
import PageScript.Proofs.Syntax.WellFormed

/-!
The faults that programs can run into. Some faults are those of a tree that no reader builds: an
operator that the language does not have, or a statement where a value is asked for. Programs that
were read are well formed, and so are the bodies of the functions that they make, which outlive them
in the session. So these faults never come up, nor is a body ever found to be no block.
-/
namespace PageScript

/-! ### Operators -/

/-- The faults of an operator between or before values, by whether the language has it. -/
inductive RuntimeFault.OfOperator (operator : String) : (known : Bool) → RuntimeFault → Prop where
  | operands (known : Bool) (left right : ValueKind) :
      OfOperator operator known (.operands operator left right)
  | negation (known : Bool) (kind : ValueKind) : OfOperator operator known (.negation kind)
  | divisionByZero (known : Bool) : OfOperator operator known .divisionByZero
  | outOfRange (known : Bool) : OfOperator operator known (.outOfRange operator)
  | tooLargeToDisplay (known : Bool) : OfOperator operator known .tooLargeToDisplay
  | unknown : OfOperator operator false (.unknownOperator operator)

theorem RuntimeFault.OfOperator.mono {operator : String} {known known' : Bool}
    {fault : RuntimeFault} (h : fault.OfOperator operator known) (hle : known' → known) :
    fault.OfOperator operator known' := by
  cases h with
  | operands => exact .operands _ _ _
  | negation => exact .negation _ _
  | divisionByZero => exact .divisionByZero _
  | outOfRange => exact .outOfRange _
  | tooLargeToDisplay => exact .tooLargeToDisplay _
  | unknown =>
    rw [Bool.eq_false_iff.2 (mt hle Bool.false_ne_true)]
    exact .unknown

namespace Operators
variable {operator : String} {a b : Value} {fault : RuntimeFault}

theorem numbers_error (h : numbers operator a b = .error fault) :
    fault = .operands operator a.kind b.kind := by
  unfold numbers at h
  split at h
  · cases h
  · cases h
    rfl

theorem compare_error {ordering : Ordering} (h : compare operator ordering a b = .error fault) :
    fault = .operands operator a.kind b.kind := by
  unfold compare at h
  split at h
  · cases h
  · cases hnumbers : numbers operator a b with
    | error fault' =>
      rw [hnumbers] at h
      cases h
      exact numbers_error hnumbers
    | ok pair =>
      rw [hnumbers] at h
      cases h

theorem calculate_error (h : calculate operator a b = .error fault) :
    fault.OfOperator operator (arithmetic? operator).isSome := by
  unfold calculate at h
  cases hnumbers : numbers operator a b with
  | error fault' =>
    rw [hnumbers] at h
    cases h
    rw [numbers_error hnumbers]
    exact .operands _ _ _
  | ok pair =>
    simp only [hnumbers, bind, Except.bind] at h
    split at h
    · cases h
      exact .divisionByZero _
    · split at h
      · next hnone =>
        cases h
        rw [hnone]
        exact .unknown
      · split at h
        · cases h
        · cases h
          exact .outOfRange _

/-- What is left of the operators of the language are those that calculate. -/
theorem isSome_arithmetic? (hand : operator ≠ "and") (hor : operator ≠ "or")
    (heq : operator ≠ "==") (hne : operator ≠ "!=") (hordering : ordering? operator = none)
    (h : (Node.binaryOperators.lookup operator).isSome) : (arithmetic? operator).isSome := by
  obtain ⟨kind, hkind⟩ := Option.isSome_iff_exists.1 h
  have hall : ∀ p ∈ Node.binaryOperators,
      p.1 ∈ ["and", "or", "==", "!="] ∨ (ordering? p.1).isSome ∨ (arithmetic? p.1).isSome := by
    decide
  rcases hall _ (Lexeme.mem_of_lookup hkind) with hmem | hsome | hsome
  · simp only [List.mem_cons, List.not_mem_nil, or_false] at hmem
    rcases hmem with rfl | rfl | rfl | rfl <;> contradiction
  · rw [hordering] at hsome
    cases hsome
  · exact hsome

theorem binary_error (h : binary operator a b = .error fault) :
    fault.OfOperator operator (Node.binaryOperators.lookup operator).isSome := by
  unfold binary at h
  split at h
  case h_5 hand hor heq hne =>
    split at h
    · cases hleft : display a with
      | error fault' =>
        rw [hleft] at h
        cases h
        rw [display_error hleft]
        exact .tooLargeToDisplay _
      | ok left =>
        cases hright : display b with
        | error fault' =>
          rw [hleft, hright] at h
          cases h
          rw [display_error hright]
          exact .tooLargeToDisplay _
        | ok right =>
          rw [hleft, hright] at h
          cases h
    · split at h
      · rw [compare_error h]
        exact .operands _ _ _
      · next hordering =>
        exact (calculate_error h).mono (isSome_arithmetic? hand hor heq hne hordering)
  all_goals cases h

theorem unary_error (h : unary operator a = .error fault) :
    fault.OfOperator operator (Node.unaryOperators.lookup operator).isSome := by
  unfold unary at h
  split at h
  · split at h
    · cases h
    · cases h
      exact .negation _ _
  · cases h
  · cases h
  · next hminus hnot hbang =>
    cases h
    have hall : ∀ p ∈ Node.unaryOperators, p.1 ∈ ["-", "not", "!"] := by decide
    cases hlookup : Node.unaryOperators.lookup operator with
    | none => exact .unknown
    | some kind =>
      have hmem := hall _ (Lexeme.mem_of_lookup hlookup)
      simp only [List.mem_cons, List.not_mem_nil, or_false] at hmem
      rcases hmem with rfl | rfl | rfl <;> contradiction

end Operators

/-! ### Faults of well-formed nodes -/

/-- Whether a fault is one that well-formed programs may run into: it is about a name, the kinds of
operands, a zero divisor, the range of numbers, a text, a call, the source of a loop, a length or
the limit of nesting. -/
def RuntimeFault.isOrdinary : RuntimeFault → Bool
  | undefined _ | operands .. | negation _ | divisionByZero | outOfRange _ | tooLargeToDisplay
  | notCallable _ | callDepth .. | notIterable _ | noLength _ | nestingTooDeep => true
  | unknownOperator _ | notAnExpression _ => false

theorem RuntimeFault.OfOperator.isOrdinary {operator : String} {known : Bool}
    {fault : RuntimeFault} (h : fault.OfOperator operator known) (hknown : known) :
    fault.isOrdinary := by
  cases h with
  | unknown => cases hknown
  | operands | negation | divisionByZero | outOfRange | tooLargeToDisplay => rfl

theorem Node.Raises.isOrdinary {limit : Int} {fault : RuntimeFault} {node : Node}
    (h : node.Raises limit fault) (hknown : node.hasKnownOperator) : fault.isOrdinary := by
  cases node with
  | identifier | template =>
    rw [show fault = .undefined _ from h]
    rfl
  | binary operator left right line =>
    obtain ⟨a, b, herror⟩ := h
    exact (Operators.binary_error herror).isOrdinary hknown
  | unary operator operand line =>
    obtain ⟨a, herror⟩ := h
    exact (Operators.unary_error herror).isOrdinary hknown
  | call callee args line => cases (h : RuntimeFault.OfCall limit fault) <;> rfl
  | forEach item source body line =>
    obtain ⟨kind, rfl⟩ := h
    rfl
  | _ => cases h

/-- What a node finds by itself is not about the nesting, and names no other limit. -/
structure RuntimeFault.OfNode (limit : Int) (fault : RuntimeFault) : Prop where
  ne_nestingTooDeep : fault ≠ .nestingTooDeep
  limit_eq : ∀ limit' name, fault = .callDepth limit' name → limit' = limit

theorem RuntimeFault.OfOperator.ofNode {limit : Int} {operator : String} {known : Bool}
    {fault : RuntimeFault} (h : fault.OfOperator operator known) : fault.OfNode limit := by
  cases h <;> exact ⟨nofun, nofun⟩

theorem Node.Raises.ofNode {limit : Int} {fault : RuntimeFault} {node : Node}
    (h : node.Raises limit fault) : fault.OfNode limit := by
  cases node with
  | identifier | template =>
    rw [show fault = .undefined _ from h]
    exact ⟨nofun, nofun⟩
  | binary operator left right line =>
    obtain ⟨a, b, herror⟩ := h
    exact (Operators.binary_error herror).ofNode
  | unary operator operand line =>
    obtain ⟨a, herror⟩ := h
    exact (Operators.unary_error herror).ofNode
  | call callee args line =>
    cases (h : RuntimeFault.OfCall limit fault) with
    | depth function => exact ⟨nofun, fun _ _ heq => by cases heq; rfl⟩
    | display | length | notCallable => exact ⟨nofun, nofun⟩
  | forEach item source body line =>
    obtain ⟨kind, rfl⟩ := h
    exact ⟨nofun, nofun⟩
  | _ => cases h

/-! ### Programs that were read -/

/-- A function that stands among the given nodes, with a well-formed block for its body. -/
structure Closure.MadeFrom (nodes : List Node) (f : Closure) : Prop where
  stands : ∃ line, .function f.name f.params f.body line ∈ nodes
  isBlock : f.body.isBlock
  wellFormed : f.body.WellFormed
  subset : f.body.nodes ⊆ nodes

/-- Functions are made from the given nodes, and errors are ordinary ones. -/
def Policy.ofNodes (nodes : List Node) : Policy where
  function := Closure.MadeFrom nodes
  stop
    | .error e => e.fault.isOrdinary
    | .tooDeep | .unfinished => True
    | .bodyNotBlock => False

/-- A policy with functions that are made from the given nodes, under which everything that one of
these nodes finds by itself, if it is well formed, may be reported under its line. -/
structure Policy.Covers (p : Policy) (limit : Int) (nodes : List Node) : Prop where
  madeFrom : ∀ f, p.function f ↔ f.MadeFrom nodes
  tooDeep : p.stop .tooDeep
  unfinished : p.stop .unfinished
  raises : ∀ node ∈ nodes, node.WellFormed → ∀ fault, node.Raises limit fault →
    p.stop (.error ⟨fault, node.line⟩)

theorem Policy.ofNodes_covers (limit : Int) (nodes : List Node) :
    (Policy.ofNodes nodes).Covers limit nodes where
  madeFrom _ := Iff.rfl
  tooDeep := trivial
  unfinished := trivial
  raises _ _ hwell _ h := h.isOrdinary hwell.hasKnownOperator

/-- Well-formed trees uphold every policy that covers their nodes. -/
theorem Policy.Covers.evaluate_execute {p : Policy} {limits : Limits} {nodes : List Node}
    (hp : p.Covers limits.callDepth nodes) (depth : Nat) :
    (∀ calls scope node, node.IsGoodExpression → node.nodes ⊆ nodes →
      Eval.Upholds p limits.callDepth calls p.Allows (evaluate limits depth scope node)) ∧
    ∀ calls scope node, node.IsGoodStatement → node.nodes ⊆ nodes →
      Eval.Upholds p limits.callDepth calls p.AllowsCompletion
        (execute limits depth scope node) := by
  induction depth with
  | zero => exact ⟨fun _ _ _ _ _ => .throw hp.tooDeep, fun _ _ _ _ _ => .throw hp.tooDeep⟩
  | succ depth ih =>
    obtain ⟨heval, hexec⟩ := ih
    have hraises {node : Node} (hwell : node.WellFormed) (hsub : node.nodes ⊆ nodes) :=
      hp.raises node (hsub node.mem_nodes_self) hwell
    have hoperands {node : Node} (hwell : node.WellFormed) (hsub : node.nodes ⊆ nodes)
        (calls : Nat) (scope : ScopeId) (operand : Node) (h : operand ∈ node.operands) :=
      heval calls scope operand (hwell.operand h)
        (List.Subset.trans (Node.nodes_subset (Node.mem_children_of_operand h)) hsub)
    have hparts {node : Node} (hwell : node.WellFormed) (hsub : node.nodes ⊆ nodes)
        (calls : Nat) (part : Node) (h : part ∈ node.parts) (scope : ScopeId) :=
      hexec calls scope part (hwell.part h)
        (List.Subset.trans (Node.nodes_subset (Node.mem_children_of_part h)) hsub)
    constructor
    · rintro calls scope node ⟨hform, hwell⟩ hsub
      apply Eval.Upholds.evaluate_succ (.inl hform) (hraises hwell hsub)
      · intro _ f hf
        have hmade := (hp.madeFrom f).1 hf
        have hbody := hparts hmade.wellFormed hmade.subset (calls + 1)
        have hblock := hmade.isBlock
        generalize f.body = body at hbody hblock
        cases body with
        | block statements line => exact hbody
        | _ => cases hblock
      · exact hoperands hwell hsub calls scope
    · rintro calls scope node ⟨hform, hwell⟩ hsub
      apply Eval.Upholds.execute_succ
      · intro hstatement
        have hexpression := hform.resolve_left (by simp [hstatement])
        exact heval calls scope node ⟨hexpression, hwell⟩ hsub
      · exact fun _ => hp.unfinished
      · rintro name params body line id rfl
        have hchild : body ∈ (Node.function name params body line).children :=
          Node.mem_children_of_body rfl
        exact (hp.madeFrom _).2 ⟨⟨line, hsub (Node.mem_nodes_self _)⟩, hwell.hasBlocks,
          hwell.child hchild, List.Subset.trans (Node.nodes_subset hchild) hsub⟩
      · exact hraises hwell hsub
      · exact hoperands hwell hsub calls scope
      · exact hparts hwell hsub calls

/-- A program that was read upholds every policy that covers its nodes, if its statements may be
nested too deeply. -/
theorem Policy.Covers.run {p : Policy} {limits : Limits} {nodes : List Node}
    (hp : p.Covers limits.callDepth nodes) {program : Program} {source : String}
    (hread : Program.ofSource source = .ok program) (hsub : program.nodes ⊆ nodes)
    (hdeep : ∀ statement ∈ program.body, p.stop (.error ⟨.nestingTooDeep, statement.line⟩))
    (calls : Nat) :
    Eval.Upholds p.atTop limits.callDepth calls p.atTop.Allows (program.run limits) := by
  apply Program.run_upholds
  intro statement hstatement
  apply Eval.Upholds.executeTop fun _ => hdeep statement hstatement
  apply (hp.evaluate_execute limits.nesting).2
  · exact Program.wellFormed_of_ofSource hread statement hstatement
  · exact List.Subset.trans (Program.nodes_subset hstatement) hsub

theorem Program.run_upholds_ofNodes (limits : Limits) {program : Program} {source : String}
    (hread : ofSource source = .ok program) {nodes : List Node} (hsub : program.nodes ⊆ nodes)
    (calls : Nat) :
    Eval.Upholds (Policy.ofNodes nodes).atTop limits.callDepth calls
      (Policy.ofNodes nodes).atTop.Allows (program.run limits) :=
  (Policy.ofNodes_covers limits.callDepth nodes).run hread hsub (fun _ _ => rfl) calls

/-- What a program that was read may come to: a value with functions made from the given nodes, an
ordinary error, or no end, if a loop goes on for longer than is waited for. -/
def Program.EndsOrdinarily (nodes : List Node) : EStateM.Result Stop Machine Value → Prop
  | .ok value _ => ∀ f ∈ value.functions, f.MadeFrom nodes
  | .error (.error e) _ => e.fault.isOrdinary
  | .error .unfinished _ => True
  | .error .tooDeep _ | .error .bodyNotBlock _ => False

/-- **Programs that were read fail in ordinary ways only.** Whatever programs are read and run one
after another in a session that begins without functions of programs, each of them comes to a value
or fails with an ordinary error, if it does not go on without end: never for an operator that the
language does not have, a statement in the place of an expression, or a body that is no block. In
all of their nodes the bodies of functions and loops and the parts of branches are blocks, or
another branch behind an `else`; and all functions that are ever bound in a scope were made from
these nodes, with a block for their body. -/
theorem Session.fails_ordinarily (limits : Limits) {env : List (String × Value)}
    (henv : ∀ entry ∈ env, entry.2.functions = []) {programs : List Program}
    (hread : ∀ program ∈ programs, ∃ source, Program.ofSource source = .ok program) :
    let m := Machine.start env
    let nodes := programs.flatMap Program.nodes
    (∀ result ∈ results limits programs m, Program.EndsOrdinarily nodes result) ∧
      (∀ node ∈ nodes, node.hasBlocks) ∧
      ∀ id, ∀ entry ∈ (after limits programs m).scopes.bindings id,
        ∀ f ∈ entry.2.functions, f.MadeFrom nodes := by
  intro m nodes
  have hruns : ∀ program ∈ programs, Eval.Upholds (Policy.ofNodes nodes).atTop limits.callDepth 0
      (Policy.ofNodes nodes).atTop.Allows (program.run limits) := by
    intro program hprogram
    obtain ⟨source, hsource⟩ := hread program hprogram
    apply Program.run_upholds_ofNodes limits hsource
    exact fun node hnode => List.mem_flatMap.2 ⟨program, hprogram, hnode⟩
  obtain ⟨hafter, hresults⟩ := upholds (.start _ henv) rfl hruns
  refine ⟨?_, ?_, hafter⟩
  · intro result hresult
    have hends := hresults result hresult
    cases result with
    | ok value m' => exact hends
    | error stop m' =>
      obtain ⟨hstop, hdeep⟩ := hends
      cases stop with
      | error e => exact hstop
      | tooDeep => exact hdeep rfl
      | bodyNotBlock => exact hstop
      | unfinished => trivial
  · intro node hnode
    obtain ⟨program, hprogram, hnode⟩ := List.mem_flatMap.1 hnode
    obtain ⟨source, hsource⟩ := hread program hprogram
    have hwell := Program.isWellFormed_of_ofSource hsource node hnode
    exact (Node.isWellFormed_iff.1 hwell).2.2.2

/-- A function of one program that fails when it is called by the next one. -/
theorem Session.fails_ordinarily_later :
    let first : Program := ⟨[.function "f" ["x"] (.block [.returning (some
      (.binary "-" (.identifier "x" 1) (.literal (.bool true) 1) 1)) 1] 1) 1]⟩
    let second : Program := ⟨[.call (.identifier "f" 1) [.identifier "f" 1] 1]⟩
    let programs := [first, second]
    (∀ entry ∈ ([] : List (String × Value)), entry.2.functions = []) ∧
      (∀ program ∈ programs, ∃ source, Program.ofSource source = .ok program) ∧
      ∀ result ∈ results {} programs (Machine.start []),
        Program.EndsOrdinarily (programs.flatMap Program.nodes) result := by
  intro first second programs
  have hfirst : Program.ofSource "fn f(x) \x7b return x - true \x7d" = .ok first := by
    clear programs
    revert first
    with_unfolding_all rfl
  have hsecond : Program.ofSource "f(f)" = .ok second := by
    clear hfirst programs
    revert second
    with_unfolding_all rfl
  have hread : ∀ program ∈ programs, ∃ source, Program.ofSource source = .ok program :=
    List.forall_mem_cons.2 ⟨⟨_, hfirst⟩, List.forall_mem_singleton.2 ⟨_, hsecond⟩⟩
  have henv : ∀ entry ∈ ([] : List (String × Value)), entry.2.functions = [] := fun _ h => nomatch h
  exact ⟨henv, hread, (fails_ordinarily {} henv hread).1⟩

end PageScript
