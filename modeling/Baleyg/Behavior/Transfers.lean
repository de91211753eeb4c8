/-
Where a JavaScript sequence may stop.

A node transfers if it leaves the function or the loop, or stands for what may, or has such a node
inside, functions and classes apart.  The adapter hands what transfers on from a node to the list
it is drawn in only through some forms.  `operands` are the parts of a form it does not hand on:
those after which it draws a step of its own, those whose flow it drops, and those a boundary
replaces that does not say of itself that it may leave.  A `switch`, a `with`, a labeled
statement and a `yield` are replaced by one that does, whatever is inside.  A tree is settled if
no operand transfers, as it is for every function that parses and has no `yield` inside an
expression.
-/
import Baleyg.Behavior.Guarded
import Baleyg.Behavior.JavaScript

namespace Baleyg.Behavior.JavaScript

open Stateful

/-! ### Transfers -/

def leaving : List String :=
  ["return_statement", "throw_statement", "break_statement", "continue_statement",
    "switch_statement", "with_statement", "labeled_statement", "yield_expression"]

/-- Forms that are drawn as one boundary, which says of itself that it may leave. -/
def replaced : List String :=
  ["switch_statement", "with_statement", "labeled_statement", "yield_expression",
    "break_statement", "continue_statement"]

/-- Whether the clauses of a `try` are clauses, as they are in the grammar. -/
def clauses (n : Node) : Bool :=
  ["handler", "finalizer"].all fun name =>
    (n.childByFieldName name).all fun clause =>
      !callable clause && !isClass clause && !decide (clause.kind ∈ replaced)

mutual

def transfers : Node → Bool
  | n@{ children, .. } => !callable n && !isClass n &&
      (decide (n.kind ∈ leaving) || !clauses n || transfersAny children)

def transfersAny : List Node → Bool
  | [] => false
  | n :: rest => transfers n || transfersAny rest

end

/-- Forms that hand on what their parts say of themselves. -/
def handsOn (src : Source) (n : Node) : Bool :=
  if n.kind = "binary_expression" then !shortCircuits src n
  else if n.kind = "unary_expression" then !deletes src n
  else if n.kind ∈ ["member_expression", "subscript_expression"] then !optionalChain n
  else if n.kind = "variable_declarator" then !bindsPattern n "name"
  else decide (n.kind ∈ ["statement_block", "program", "catch_clause", "finally_clause"]) ||
    decide (n.kind ∈ structural)

/-- The parts of a form whose transfers it does not hand on. -/
def operands (src : Source) (n : Node) : List Node :=
  if n.kind ∈ ["if_statement", "ternary_expression"] then (n.childByFieldName "condition").toList
  else if n.kind ∈ ["while_statement", "do_statement", "for_statement", "for_in_statement"] then
    ["initializer", "right", "condition", "left", "increment"].filterMap n.childByFieldName
  else if n.kind = "try_statement" then
    ((n.childByFieldName "handler").bind fun h => h.childByFieldName "parameter").toList
  else if handsOn src n = true ∨ n.kind ∈ replaced then []
  else n.children

mutual

def settled (src : Source) : Node → Bool
  | n@{ children, .. } => callable n || isClass n || decide (n.kind ∈ replaced) ||
      clauses n && ((operands src n).all fun part => !transfers part) && settledAll src children

def settledAll (src : Source) : List Node → Bool
  | [] => true
  | n :: rest => settled src n && settledAll src rest

end

variable {nodes : List Node} {n : Node}

theorem transfersAny_eq_false : transfersAny nodes = false ↔ ∀ n ∈ nodes, transfers n = false := by
  induction nodes with
  | nil => exact ⟨fun _ n hn => absurd hn List.not_mem_nil, fun _ => rfl⟩
  | cons n rest ih =>
      unfold transfersAny
      rw [Bool.or_eq_false_iff, ih, List.forall_mem_cons]

theorem settledAll_eq_true {src : Source} :
    settledAll src nodes = true ↔ ∀ n ∈ nodes, settled src n = true := by
  induction nodes with
  | nil => exact ⟨fun _ n hn => absurd hn List.not_mem_nil, fun _ => rfl⟩
  | cons n rest ih =>
      unfold settledAll
      rw [Bool.and_eq_true, ih, List.forall_mem_cons]

theorem transfers_eq (n : Node) : transfers n =
    (!callable n && !isClass n &&
      (decide (n.kind ∈ leaving) || !clauses n || transfersAny n.children)) := by
  cases n
  rfl

theorem settled_eq (src : Source) (n : Node) : settled src n =
    (callable n || isClass n || decide (n.kind ∈ replaced) ||
      clauses n && ((operands src n).all fun part => !transfers part) &&
        settledAll src n.children) := by
  cases n
  rfl

theorem parts_of_transfers (h : transfers n = false) (hcallable : callable n = false)
    (hclass : isClass n = false) :
    n.kind ∉ leaving ∧ clauses n = true ∧ ∀ part ∈ n.children, transfers part = false := by
  rw [transfers_eq, hcallable, hclass, Bool.not_false, Bool.true_and, Bool.true_and,
    Bool.or_eq_false_iff, Bool.or_eq_false_iff, transfersAny_eq_false, decide_eq_false_iff_not,
    Bool.not_eq_false'] at h
  exact ⟨h.1.1, h.1.2, h.2⟩

theorem transfers_of_parts (hkind : n.kind ∉ leaving) (hclauses : clauses n = true)
    (h : ∀ part ∈ n.children, transfers part = false) : transfers n = false := by
  rw [transfers_eq, transfersAny_eq_false.mpr h, decide_eq_false hkind, hclauses]
  exact Bool.and_false _

theorem parts_of_settled {src : Source} (h : settled src n = true) (hcallable : callable n = false)
    (hclass : isClass n = false) (hkind : n.kind ∉ replaced) :
    clauses n = true ∧ (∀ part ∈ operands src n, transfers part = false) ∧
      ∀ part ∈ n.children, settled src part = true := by
  rw [settled_eq, hcallable, hclass, decide_eq_false hkind, Bool.or_self, Bool.or_self,
    Bool.false_or, Bool.and_eq_true,
    Bool.and_eq_true, settledAll_eq_true, List.all_eq_true] at h
  exact ⟨h.1.1, fun part hpart => by simpa using h.1.2 part hpart, h.2⟩

/-- A clause of a `try` is no function, no class and no boundary. -/
theorem clause_of_clauses {clause : Node} {name : String} (h : clauses n = true)
    (hname : name ∈ ["handler", "finalizer"]) (hclause : n.childByFieldName name = some clause) :
    callable clause = false ∧ isClass clause = false ∧ clause.kind ∉ replaced := by
  have hall := List.all_eq_true.mp h name hname
  rw [hclause] at hall
  simpa [and_assoc] using hall

theorem loopTransfer_eq (n : Node) : loopTransfer n =
    (decide (n.kind ∈ ["break_statement", "continue_statement"]) ||
      (!callable n && !isClass n && loopTransferAll n.children)) := by
  cases n
  rfl

theorem loopTransferAll_eq_false (h : ∀ n ∈ nodes, loopTransfer n = false) :
    loopTransferAll nodes = false := by
  induction nodes with
  | nil => rfl
  | cons n rest ih =>
      obtain ⟨hfirst, hrest⟩ := List.forall_mem_cons.mp h
      unfold loopTransferAll
      rw [hfirst, ih hrest, Bool.and_false, Bool.or_self]

theorem loopTransfer_of_transfers (n : Node) : transfers n = false → loopTransfer n = false := by
  induction n using Node.induction with
  | node n ih =>
      intro h
      have hkinds : ∀ kind ∈ ["break_statement", "continue_statement"], kind ∈ leaving := by decide
      rw [loopTransfer_eq, Bool.or_eq_false_iff, decide_eq_false_iff_not]
      by_cases hcallable : callable n = true
      · refine ⟨fun hkind => ?_, by rw [hcallable]; rfl⟩
        have hnot : ∀ kind ∈ ["break_statement", "continue_statement"],
            kind ∉ ["function_declaration", "function_expression", "generator_function_declaration",
              "generator_function", "arrow_function", "method_definition"] := by decide
        exact hnot n.kind hkind (of_decide_eq_true hcallable)
      by_cases hclass : isClass n = true
      · refine ⟨fun hkind => ?_, by rw [hclass, Bool.not_true, Bool.and_false]; rfl⟩
        have hnot : ∀ kind ∈ ["break_statement", "continue_statement"],
            kind ∉ ["class", "class_declaration"] := by decide
        exact hnot n.kind hkind (of_decide_eq_true hclass)
      rw [Bool.not_eq_true] at hcallable hclass
      obtain ⟨hkind, -, hparts⟩ := parts_of_transfers h hcallable hclass
      refine ⟨fun hmem => hkind (hkinds n.kind hmem), ?_⟩
      rw [loopTransferAll_eq_false fun c hc => ih c hc (hparts c hc), Bool.and_false]

end Baleyg.Behavior.JavaScript
