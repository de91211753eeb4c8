/-
What the extractor reads off a parse tree.

The parser is tree-sitter with one grammar per language; what it promises of a tree is that
a child lies inside its parent, that siblings come in order and do not overlap, and that
every offset is a character boundary.  It does not promise that a node is wider than
nothing: a token the parser made up is not, and neither is the root of a text with nothing
but white space in it.

Which nodes declare something, and under which kind, is a table per language.  Some of its
rows ask for the node around a node, so every function here is given the kinds of the nodes
it is inside of, the innermost first.
-/
import Baleyg.Native.Identity
import Mathlib.Data.List.Infix

namespace Baleyg.Native

open Fallible (ensure)

/-! ### Trees -/

/-- A visible node: its kind, whether it is named, and its field in its parent. -/
structure Node where
  kind : String
  named : Bool
  field : Option String
  range : Range
  children : List Node

structure Tree where
  root : Node
  hasError : Bool

/-- **What the parser promises of a tree over a text.** -/
inductive Node.Shaped (text : String) : Node → Prop where
  | mk (n : Node) (hstart : isCharBoundary text n.range.start = true)
      (hstop : isCharBoundary text n.range.stop = true) (hle : n.range.start ≤ n.range.stop)
      (hinside : ∀ child ∈ n.children,
        n.range.start ≤ child.range.start ∧ child.range.stop ≤ n.range.stop)
      (hordered : n.children.Pairwise fun a b => a.range.stop ≤ b.range.start)
      (hchildren : ∀ child ∈ n.children, Node.Shaped text child) : Node.Shaped text n

/-- What the extractor takes from elsewhere: SHA-256, the parsers and the normal forms. -/
structure Libraries where
  sha : Sha256
  parse : Language → String → Option Tree
  shaped : ∀ language text tree, parse language text = some tree → tree.root.Shaped text
  nfc : String → String
  nfkc : String → String

namespace Node

def childByFieldName (n : Node) (field : String) : Option Node :=
  n.children.find? fun child => child.field = some field

def childNodes (n : Node) : List Node := n.children.filter Node.named

end Node

/-- `value.contains(part)`. -/
def containsText (value part : String) : Bool := part.toList <:+: value.toList

def startsWith (value lead : String) : Bool := value.toList.take lead.length == lead.toList

/-! ### The tables -/

namespace Java

def nativeKind (up : List String) (n : Node) : Option DeclarationKind :=
  if n.kind ∈ ["class_declaration", "interface_declaration", "enum_declaration",
      "record_declaration", "annotation_type_declaration"] then some .type
  else if n.kind ∈ ["method_declaration", "annotation_type_element_declaration"] then some .method
  else if n.kind ∈ ["constructor_declaration", "compact_constructor_declaration"] then
    some .constructor
  else if n.kind = "lambda_expression" then some .anonymousFunction
  else if n.kind = "variable_declarator" then
    if up.head? = some "field_declaration" then some .field else some .variableItem
  else if n.kind ∈ ["formal_parameter", "spread_parameter"] then some .parameter
  else none

end Java

namespace Rust

def nativeKind (up : List String) (n : Node) : Option DeclarationKind :=
  if n.kind ∈ ["struct_item", "enum_item", "trait_item", "union_item"] then some .type
  else if n.kind = "impl_item" then some .implementation
  else if n.kind = "mod_item" then some .namespaceItem
  else if n.kind ∈ ["function_item", "function_signature_item"] then
    if ∃ container ∈ up[1]?, container ∈ ["impl_item", "trait_item"] then some .method
    else some .function
  else if n.kind = "closure_expression" then some .anonymousFunction
  else if n.kind = "field_declaration" then some .field
  else if n.kind = "type_item" then some .aliasItem
  else if n.kind ∈ ["const_item", "static_item"] then some .variableItem
  else if n.kind = "parameter" then some .parameter
  else none

end Rust

namespace Python

def nativeKind (n : Node) : Option DeclarationKind :=
  if n.kind = "class_definition" then some .type
  else if n.kind = "function_definition" then some .function
  else if n.kind = "lambda" then some .anonymousFunction
  else if n.kind = "assignment" ∧
      ∃ left ∈ n.childByFieldName "left", left.kind = "identifier" then some .variableItem
  else if n.kind ∈ ["typed_parameter", "default_parameter"] then some .parameter
  else none

end Python

namespace JavaScript

/-- `indexer::native_js_kind`. -/
def nativeKind (n : Node) : Option DeclarationKind :=
  if n.kind ∈ ["class_declaration", "class"] then some .type
  else if n.kind = "method_definition" then some .method
  else if n.kind ∈ ["function_declaration", "function_expression",
      "generator_function_declaration", "generator_function"] then some .function
  else if n.kind = "arrow_function" then some .anonymousFunction
  else if n.kind = "variable_declarator" then some .variableItem
  else if n.kind = "field_definition" then some .field
  else if n.kind = "formal_parameter" then some .parameter
  else none

end JavaScript

/-- `kind`. -/
def nativeKind (language : Language) (up : List String) (n : Node) : Option DeclarationKind :=
  match language with
  | .java => Java.nativeKind up n
  | .rust => Rust.nativeKind up n
  | .python => Python.nativeKind n
  | .javascript => JavaScript.nativeKind n

def isCall (language : Language) (n : Node) : Bool :=
  match language with
  | .java => n.kind ∈ ["method_invocation", "object_creation_expression",
      "explicit_constructor_invocation"]
  | .rust => n.kind ∈ ["call_expression", "method_call_expression"]
  | .python => n.kind = "call"
  | .javascript => n.kind ∈ ["call_expression", "new_expression"]

def isRegion (n : Node) : Bool :=
  n.kind ∈ ["if_statement", "if_expression", "else_clause", "elif_clause", "while_statement",
    "do_statement", "for_statement", "for_in_statement", "for_expression", "loop_expression",
    "match_expression", "match_statement", "switch_statement", "switch_expression",
    "switch_case", "switch_default", "try_statement", "catch_clause", "finally_clause",
    "conditional_expression", "ternary_expression"]

/-- Rust source that `walk` does not look into. -/
def isOpaque (language : Language) (n : Node) : Bool :=
  language = .rust ∧ n.kind ∈ ["macro_invocation", "macro_definition", "token_tree",
    "attribute_item", "inner_attribute_item"]

def isIdentifier (n : Node) : Bool :=
  n.kind ∈ ["identifier", "property_identifier", "field_identifier", "type_identifier"]

theorem nativeKind_ne_module {language : Language} {up : List String} {n : Node}
    {k : DeclarationKind} (h : nativeKind language up n = some k) : k ≠ .moduleItem := by
  rintro rfl
  cases language with
  | java =>
      have h : Java.nativeKind up n = some .moduleItem := h
      unfold Java.nativeKind at h
      split_ifs at h <;> cases h
  | rust =>
      have h : Rust.nativeKind up n = some .moduleItem := h
      unfold Rust.nativeKind at h
      split_ifs at h <;> cases h
  | python =>
      have h : Python.nativeKind n = some .moduleItem := h
      unfold Python.nativeKind at h
      split_ifs at h <;> cases h
  | javascript =>
      have h : JavaScript.nativeKind n = some .moduleItem := h
      unfold JavaScript.nativeKind at h
      split_ifs at h <;> cases h

/-! ### Names, keys and headers -/

section Read

variable (f : SourceFile)

def textOf (n : Node) : Option String := get f.text n.range

/-- The node `name` reads. -/
def nameNode (n : Node) : Option Node :=
  n.childByFieldName "name"
    |>.orElse (fun _ => if n.kind = "assignment" then n.childByFieldName "left" else none)
    |>.orElse (fun _ => if n.kind = "field_definition" then n.childByFieldName "property" else none)
    |>.orElse (fun _ => if n.kind = "parameter" then n.childNodes.head? else none)
    |>.orElse (fun _ =>
      if n.kind ∈ ["formal_parameter", "typed_parameter"] then n.childNodes.head? else none)
    |>.orElse fun _ => if n.kind = "identifier" then some n else none

def name (n : Node) : Option (String × Range) := do
  let node ← nameNode n
  if isIdentifier node then
    let value ← textOf f node
    if value = "" then none else some (value, node.range)
  else none

def javaSignature (n : Node) : Signature :=
  let parameters := ((n.childByFieldName "parameters").elim [] Node.childNodes).filter
    fun parameter => containsText parameter.kind "parameter"
  { parameterTypes := parameters.filterMap fun parameter =>
      (parameter.childByFieldName "type").bind (textOf f)
    typeParameterCount := ((n.childByFieldName "type_parameters").elim [] Node.childNodes).length
    variadic := parameters.any fun parameter => containsText parameter.kind "spread" }

def keyOf (n : Node) (k : DeclarationKind) : Key :=
  { kind := k
    name := (name f n).map Prod.fst
    signature := if f.language = .java ∧ k.isMember = true then some (javaSignature f n) else none
    ordinal := 0 }

def modifierKeyword (value : String) : Bool :=
  value ∈ ["public", "protected", "private", "static", "abstract", "final", "native",
    "synchronized", "volatile", "transient", "strictfp", "default", "async", "const", "unsafe",
    "extern", "override", "get", "set", "readonly"]

def modifierTokens (child : Node) : List (Range × String) :=
  if child.kind = "visibility_modifier" then
    (textOf f child).toList.map fun value => (child.range, value)
  else if child.kind ∈ ["modifiers", "function_modifiers"] then
    child.children.filterMap fun token => do
      let value ← textOf f token
      if token.named || modifierKeyword value then some (token.range, value) else none
  else if child.named then []
  else ((textOf f child).filter modifierKeyword).toList.map fun value => (child.range, value)

/-- A parameter of `header`. -/
def headerParameter (p : Node) : Parameter :=
  { name := (((p.childByFieldName "name").orElse fun _ =>
        p.childNodes.find? fun c => c.kind = "identifier").bind (textOf f)).orElse
      fun _ => if p.kind = "identifier" then textOf f p else none
    typeName := (p.childByFieldName "type").bind (textOf f)
    variadic := containsText p.kind "spread" || containsText p.kind "rest" ||
      (textOf f p).any fun s => startsWith s "*" || startsWith s "..." }

def header (n : Node) (key : Key) : Header :=
  let field (field : String) := (n.childByFieldName field).bind (textOf f)
  { kind := key.kind
    name := key.name
    modifiers := ((n.children.flatMap (modifierTokens f)).mergeSort
      fun a b => a.1.le b.1).map Prod.snd
    typeParameters := ((n.childByFieldName "type_parameters").elim [] Node.childNodes).filterMap
      (textOf f)
    parameters := (((n.childByFieldName "parameters").elim [] Node.childNodes).filter fun p =>
      containsText p.kind "parameter" || p.kind ∈ ["identifier", "rest_pattern",
        "self_parameter"]).map (headerParameter f)
    resultType := (field "return_type").orElse fun _ =>
      if f.language = .java ∧ key.kind = .method then field "type" else none
    bases := ["superclass", "interfaces", "super_interfaces", "traits"].filterMap field }

/-- The node `callee` begins at. -/
def calleeNode (n : Node) : Option Node :=
  (n.childByFieldName (match f.language with
    | .java => "name"
    | .javascript => if n.kind = "new_expression" then "constructor" else "function"
    | .python | .rust => "function")).orElse fun _ => n.childByFieldName "constructor"

/-- The name in the node `callee` begins at. -/
def calleeMember (expr : Node) : Option Node :=
  match f.language with
  | .java => some expr
  | .python => if expr.kind = "attribute" then expr.childByFieldName "attribute" else some expr
  | .javascript =>
      if expr.kind = "member_expression" then expr.childByFieldName "property" else some expr
  | .rust => if expr.kind = "field_expression" then expr.childByFieldName "field" else some expr

def calleeToken (expr : Node) : Option (String × Range) := do
  let member ← calleeMember f expr
  if isIdentifier member then
    let token ← textOf f member
    if token = "" then none else some (token, member.range)
  else none

def callee (n : Node) : Option String × Option Range :=
  match calleeNode f n with
  | none => (none, none)
  | some expr =>
      match calleeToken f expr with
      | some (token, range) => (some token, some range)
      | none => ((textOf f expr).filter fun s => s ≠ "", none)

end Read

def lookup (libs : Libraries) (language : Language) (name : String) : Except String String := do
  ensure (name ≠ "") "empty text"
  match language with
  | .rust => pure (libs.nfc name)
  | .python => pure (libs.nfkc name)
  | .java | .javascript => pure name

/-! ### What is read of a node lies in it -/

section Shaped

variable {f : SourceFile} {n m : Node}

theorem childByFieldName_mem {field : String} (h : n.childByFieldName field = some m) :
    m ∈ n.children := List.mem_of_find?_eq_some h

theorem head?_childNodes_mem (h : n.childNodes.head? = some m) : m ∈ n.children :=
  List.mem_of_mem_filter (List.mem_of_mem_head? h)

namespace Node.Shaped

variable {text : String}

theorem start (h : n.Shaped text) : isCharBoundary text n.range.start = true := by
  cases h
  assumption

theorem stop (h : n.Shaped text) : isCharBoundary text n.range.stop = true := by
  cases h
  assumption

theorem le (h : n.Shaped text) : n.range.start ≤ n.range.stop := by
  cases h
  assumption

theorem child (h : n.Shaped text) (hm : m ∈ n.children) : m.Shaped text := by
  cases h with
  | mk _ _ _ _ _ _ hchildren => exact hchildren m hm

theorem within (h : n.Shaped text) (hm : m ∈ n.children) : m.range.within n.range := by
  cases h with
  | mk _ _ _ _ hinside _ _ => exact hinside m hm

theorem ordered (h : n.Shaped text) :
    n.children.Pairwise fun a b => a.range.stop ≤ b.range.start := by
  cases h
  assumption

end Node.Shaped

theorem mem_of_or {P : Prop} {a b : Option Node} (ha : a = some m → P) (hb : b = some m → P)
    (h : a.or b = some m) : P := by
  rcases Option.or_eq_some_iff.mp h with h | ⟨-, h⟩
  · exact ha h
  · exact hb h

theorem mem_of_ite {P p : Prop} [Decidable p] {a : Option Node} (ha : a = some m → P)
    (h : (if p then a else none) = some m) : P := by
  split at h
  · exact ha h
  · cases h

theorem nameNode_eq_some (h : nameNode n = some m) : m = n ∨ m ∈ n.children := by
  unfold nameNode at h
  simp only [Option.orElse_eq_or] at h
  revert h
  refine mem_of_or (mem_of_or (mem_of_or (mem_of_or (mem_of_or ?_ ?_) ?_) ?_) ?_) ?_
  · exact fun h => .inr (childByFieldName_mem h)
  · exact mem_of_ite fun h => .inr (childByFieldName_mem h)
  · exact mem_of_ite fun h => .inr (childByFieldName_mem h)
  · exact mem_of_ite fun h => .inr (head?_childNodes_mem h)
  · exact mem_of_ite fun h => .inr (head?_childNodes_mem h)
  · refine mem_of_ite fun h => ?_
    cases h
    exact .inl rfl

/-- The text of an identifier that was found, which `name` and `calleeToken` are. -/
theorem identifier_eq_some {found : Option Node} {value : String} {r : Range}
    (h : (do
      let node ← found
      if isIdentifier node then
        let value ← textOf f node
        if value = "" then none else some (value, node.range)
      else none) = some (value, r)) :
    ∃ m, found = some m ∧ m.range = r ∧ get f.text r = some value ∧ value ≠ "" := by
  obtain ⟨m, hm, h⟩ := Option.bind_eq_some_iff.mp h
  by_cases hidentifier : isIdentifier m = true
  · rw [if_pos hidentifier] at h
    obtain ⟨text, htext, h⟩ := Option.bind_eq_some_iff.mp h
    by_cases hempty : text = ""
    · rw [if_pos hempty] at h; cases h
    · rw [if_neg hempty] at h
      cases h
      exact ⟨m, hm, rfl, htext, hempty⟩
  · rw [if_neg hidentifier] at h; cases h

/-- **A name is measured inside its node.** -/
theorem name_eq_some {value : String} {r : Range} (hn : n.Shaped f.text)
    (h : name f n = some (value, r)) :
    r.within n.range ∧ get f.text r = some value ∧ value ≠ "" := by
  obtain ⟨m, hm, rfl, hvalue⟩ := identifier_eq_some h
  refine ⟨?_, hvalue⟩
  rcases nameNode_eq_some hm with rfl | hm
  · exact Range.within_refl _
  · exact hn.within hm

theorem calleeNode_mem {expr : Node} (h : calleeNode f n = some expr) : expr ∈ n.children := by
  unfold calleeNode at h
  rw [Option.orElse_eq_or] at h
  exact mem_of_or childByFieldName_mem childByFieldName_mem h

theorem calleeMember_eq_some {expr : Node} (h : calleeMember f expr = some m) :
    m = expr ∨ m ∈ expr.children := by
  have hself : some expr = some m → m = expr ∨ m ∈ expr.children := by
    intro h
    cases h
    exact .inl rfl
  have hpick : ∀ {p : Prop} [Decidable p] {field : String},
      (if p then expr.childByFieldName field else some expr) = some m →
        m = expr ∨ m ∈ expr.children := by
    intro p _ field h
    split at h
    · exact .inr (childByFieldName_mem h)
    · exact hself h
  unfold calleeMember at h
  cases hlanguage : f.language with
  | java =>
      simp only [hlanguage] at h
      exact hself h
  | rust | python | javascript =>
      simp only [hlanguage] at h
      exact hpick h

theorem calleeToken_eq_some {expr : Node} {token : String} {r : Range} (hn : n.Shaped f.text)
    (hexpr : expr ∈ n.children) (h : calleeToken f expr = some (token, r)) :
    r.within n.range ∧ get f.text r = some token ∧ token ≠ "" := by
  obtain ⟨m, hm, rfl, hvalue⟩ := identifier_eq_some h
  refine ⟨?_, hvalue⟩
  rcases calleeMember_eq_some hm with rfl | hm
  · exact hn.within hexpr
  · exact Range.within_trans ((hn.child hexpr).within hm) (hn.within hexpr)

/-- **A callee is measured inside its call.** -/
theorem callee_sound (hn : n.Shaped f.text) :
    (callee f n).1 ≠ some "" ∧ ∀ r ∈ (callee f n).2,
      r.within n.range ∧ (callee f n).1 = get f.text r ∧ (callee f n).1 ≠ none := by
  unfold callee
  cases hexpr : calleeNode f n with
  | none =>
      refine ⟨fun h => ?_, fun r hr => ?_⟩
      · cases h
      · cases hr
  | some expr =>
      simp only
      cases htoken : calleeToken f expr with
      | none =>
          simp only
          refine ⟨fun h => ?_, fun r hr => by cases hr⟩
          have hne := (Option.filter_eq_some_iff.mp h).2
          exact absurd rfl (of_decide_eq_true hne)
      | some token =>
          obtain ⟨token, r⟩ := token
          obtain ⟨hwithin, hget, hne⟩ := calleeToken_eq_some hn (calleeNode_mem hexpr) htoken
          refine ⟨fun h => hne (Option.some.inj h), fun r' hr' => ?_⟩
          cases hr'
          exact ⟨hwithin, hget.symm, Option.some_ne_none token⟩

end Shaped

end Baleyg.Native
