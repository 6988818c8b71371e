import PageScript.Proofs.Evaluation.TailReturns
import PageScript.Proofs.Syntax.Data

/-!
Data as programs. What is written for data gives the data when it is run, and does nothing else: so
the text that data is displayed as is a program that gives it back.
-/
namespace PageScript
namespace Value
open Reader

/-! ### Trees that are the same up to lines -/

theorem exists_literal {node : Node} {value : Literal} (h : node.unlined = .literal value 0) :
    ∃ line, node = .literal value line := by
  cases node with
  | literal value' line =>
    cases h
    exact ⟨line, rfl⟩
  | _ => cases h

theorem exists_unary {node operand : Node} {operator : String}
    (h : node.unlined = .unary operator operand 0) :
    ∃ operand' line, node = .unary operator operand' line ∧ operand'.unlined = operand := by
  cases node with
  | unary operator' operand' line =>
    cases h
    exact ⟨operand', line, rfl, rfl⟩
  | _ => cases h

theorem exists_array {node : Node} {elements : List Node}
    (h : node.unlined = .array elements 0) :
    ∃ elements' line, node = .array elements' line ∧ Node.unlinedAll elements' = elements := by
  cases node with
  | array elements' line =>
    cases h
    exact ⟨elements', line, rfl, rfl⟩
  | _ => cases h

/-! ### The value of what is written -/

section
variable {limits : Limits} {scope : ScopeId}

theorem evaluate_literal {node : Node} {value : Literal} (h : node.unlined = .literal value 0)
    {depth : Nat} (hdepth : 1 ≤ depth) :
    evaluate limits depth scope node = pure value.toValue := by
  obtain ⟨depth, rfl⟩ := Nat.exists_eq_add_of_le' hdepth
  obtain ⟨line, rfl⟩ := exists_literal h
  rw [evaluate]

theorem evaluate_integer {n : Int} {node : Node}
    (h : node.unlined = (number (.integer n)).expression) {depth : Nat}
    (hdepth : (number (.integer n)).nesting 1 1 1 ≤ depth) :
    evaluate limits depth scope node = pure (number (.integer n)) := by
  cases n with
  | ofNat n => exact evaluate_literal h hdepth
  | negSucc n =>
    have hdepth : 2 ≤ depth := hdepth
    obtain ⟨depth, rfl⟩ := Nat.exists_eq_add_of_le' hdepth
    obtain ⟨operand, line, rfl, hoperand⟩ := exists_unary h
    rw [evaluate, evaluate_literal hoperand (by omega)]
    rfl

mutual

/-- What is written for data is evaluated to it, if that is allowed as many nested steps. -/
theorem evaluate_expression : ∀ v : Value, v.isItem → ∀ node : Node,
    node.unlined = v.expression → ∀ depth, v.nesting 1 1 1 ≤ depth →
      evaluate limits depth scope node = pure v
  | bool b => fun _ _ hnode _ hdepth =>
    evaluate_literal (show _ = Node.literal (.bool b) 0 from hnode) hdepth
  | number (.integer n) => fun _ _ hnode _ hdepth => evaluate_integer hnode hdepth
  | string s => fun _ _ hnode _ hdepth =>
    evaluate_literal (show _ = Node.literal (.string s) 0 from hnode) hdepth
  | array items => by
    intro h node hnode depth hdepth
    rw [nesting] at hdepth
    obtain ⟨depth, rfl⟩ : ∃ d, depth = d + 1 := ⟨depth - 1, by omega⟩
    obtain ⟨elements, line, rfl, helements⟩ := exists_array hnode
    rw [evaluate, mapM_expressions items h elements helements depth (by omega)]
    rfl
  | null | number (.double _) | object _ | closure _ | builtin _ => nofun

theorem mapM_expressions : ∀ items : List Value, areItems items → ∀ nodes : List Node,
    Node.unlinedAll nodes = expressions items → ∀ depth, nestingItems 1 1 1 items ≤ depth →
      nodes.mapM (fun node => evaluate limits depth scope node) = pure items
  | [], _, [], _, _, _ => rfl
  | item :: rest, h, node :: nodes, hnodes, depth, hdepth => by
    rw [areItems, Bool.and_eq_true] at h
    rw [Node.unlinedAll, expressions, List.cons.injEq] at hnodes
    rw [nestingItems] at hdepth
    rw [List.mapM_cons, evaluate_expression item h.1 node hnodes.1 depth (by omega), pure_bind,
      mapM_expressions rest h.2 nodes hnodes.2 depth (by omega), pure_bind]

end

end

/-! ### Equality -/

mutual

theorem equal_self : ∀ v : Value, v.isItem → v.equal v
  | bool b => fun _ => beq_self_eq_true b
  | number (.integer n) => fun _ => beq_self_eq_true (Place.point (n * (Double.one : Int)))
  | string s => fun _ => beq_self_eq_true s
  | array items => fun h => itemsEqual_self items h
  | null | number (.double _) | object _ | closure _ | builtin _ => nofun

theorem itemsEqual_self : ∀ items : List Value, areItems items → itemsEqual items items
  | [], _ => rfl
  | item :: rest, h => by
    rw [areItems, Bool.and_eq_true] at h
    rw [itemsEqual, equal_self item h.1, itemsEqual_self rest h.2]
    rfl

end

/-! ### Programs -/

/-- What is written for data is an expression. -/
theorem isExpression_of_unlined {v : Value} (h : v.isItem) {node : Node}
    (hnode : node.unlined = v.expression) : node.isExpression := by
  have hexpression : v.expression.isExpression := by
    cases v with
    | number n =>
      cases n with
      | integer n => cases n <;> rfl
      | double d => cases h
    | _ => rfl
  rw [← hnode] at hexpression
  cases node <;> exact hexpression

/-- **Displayed data reads back.** A boolean, an integer that is not too long, or an array of such
values, of arrays and of strings without double quotes or a backslash at the end, has a text. If the
value is not nested too deeply for the reader and the evaluation, that text is a program, and in
every state it gives the same value again and changes nothing. -/
theorem display_reads_back {v : Value} (h : v.isData)
    (hreading : v.nesting 0 linkWeight bracketWeight ≤ nestingLimit) {limits : Limits}
    (hevaluation : v.nesting 1 1 1 < limits.nesting) :
    ∃ text program, v.display? = some text ∧ Program.ofSource text = .ok program ∧
      (∀ m, program.run limits m = .ok v m) ∧ v.equal v := by
  have hitem := isItem_of_isData h
  obtain ⟨text, node, htext, hsource, hnode⟩ := exists_ofSource h hreading
  refine ⟨text, ⟨[node]⟩, htext, hsource, fun m => ?_, equal_self v hitem⟩
  have hexpression := isExpression_of_unlined hitem hnode
  obtain ⟨depth, hdepth⟩ := Nat.exists_eq_add_of_lt hevaluation
  have hexecute : execute limits limits.nesting Machine.globals node m = .ok (.completed v) m := by
    rw [hdepth, execute_of_isExpression hexpression,
      evaluate_expression v hitem node hnode _ (Nat.le_add_right _ _)]
    rfl
  have hrun := executeTop_of_ok hexecute
  rw [Program.run, Eval.each_singleton, Eval.bind_apply_of_ok hrun]
  rfl

/-- A string with a single quote, what would begin a comment or a template elsewhere, a line end and
a backslash, next to a negative number and other arrays. -/
theorem display_reads_back_nested :
    let s := "it's // \x7b\x7b\n\\x"
    let v : Value := .array [.bool true, .int (-5), .string s, .array [], .array [.int 12]]
    v.isData ∧ v.nesting 0 linkWeight bracketWeight ≤ nestingLimit ∧
      v.nesting 1 1 1 < Limits.nesting {} ∧
      v.display? = some ("[true, -5, \"" ++ s ++ "\", [], [12]]") ∧
      ∃ text program, v.display? = some text ∧ Program.ofSource text = .ok program ∧
        (∀ m, program.run {} m = .ok v m) ∧ v.equal v := by
  intro s v
  have h : v.isData := by decide +kernel
  have hreading : v.nesting 0 linkWeight bracketWeight ≤ nestingLimit := by decide +kernel
  have hevaluation : v.nesting 1 1 1 < Limits.nesting {} := by decide +kernel
  have htext : v.display? = some ("[true, -5, \"" ++ s ++ "\", [], [12]]") := by decide +kernel
  exact ⟨h, hreading, hevaluation, htext, display_reads_back h hreading hevaluation⟩

end Value
end PageScript
