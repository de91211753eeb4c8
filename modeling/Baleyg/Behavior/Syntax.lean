/-
Concrete syntax as the sequence adapters read it.

A parser outside this repository makes the tree.  An adapter asks a node for its kind, its
extent, its named children and the child in a field, and nothing else, so a node here is that
data.  What the adapters rely on is the shape of a tree: a child lies inside its parent, siblings
come in order and do not overlap, an error is seen from every node around it, and a call that was
parsed whole is wider than each of its parts, the callee and the argument list both being there.

Two nodes of a shaped tree lie apart or one is inside the other.  Everything the adapters place by
extent rests on that: what is drawn of one sibling is never drawn of another.
-/
import Baleyg.View.Records

namespace Baleyg.Behavior

open View (SourceRange)

structure Node where
  kind : String
  isNamed : Bool
  field : Option String
  startByte : Nat
  endByte : Nat
  startRow : Nat
  startColumn : Nat
  endRow : Nat
  endColumn : Nat
  hasError : Bool
  isMissing : Bool
  children : List Node

namespace Node

def childByFieldName (n : Node) (field : String) : Option Node :=
  n.children.find? fun child => child.field = some field

def named (n : Node) : List Node := n.children.filter isNamed

def range (n : Node) : SourceRange where
  startByte := n.startByte
  endByte := n.endByte
  startLine := n.startRow + 1
  startColumn := n.startColumn + 1
  endLine := n.endRow + 1
  endColumn := n.endColumn + 1

/-- `byte_range`. -/
def extent (n : Node) : Nat × Nat := (n.startByte, n.endByte)

variable {n part : Node} {name : String}

theorem mem_of_childByFieldName (h : n.childByFieldName name = some part) : part ∈ n.children :=
  List.mem_of_find?_eq_some h

theorem field_of_childByFieldName (h : n.childByFieldName name = some part) :
    part.field = some name := by
  have hfield := List.find?_some h
  exact of_decide_eq_true hfield

theorem mem_of_named (h : part ∈ n.named) : part ∈ n.children := List.mem_of_mem_filter h

theorem sizeOf_lt (h : part ∈ n.children) : sizeOf part < sizeOf n := by
  have hlist := List.sizeOf_lt_of_mem h
  cases n
  simp only [mk.sizeOf_spec]
  simp only at hlist
  omega

/-- A property of every node, from its children. -/
@[elab_as_elim]
theorem induction {P : Node → Prop} (node : ∀ n, (∀ c ∈ n.children, P c) → P n) (n : Node) : P n :=
  node n fun c _ => induction node c
termination_by sizeOf n
decreasing_by exact sizeOf_lt ‹_›

end Node

/-- **What the parser promises of a tree.** -/
inductive Node.Shaped : Node → Prop where
  | mk (n : Node) (hle : n.startByte ≤ n.endByte)
      (hinside : ∀ child ∈ n.children,
        n.startByte ≤ child.startByte ∧ child.endByte ≤ n.endByte)
      (hordered : n.children.Pairwise fun a b => a.endByte ≤ b.startByte)
      (herror : ∀ child ∈ n.children, child.hasError = true → n.hasError = true)
      (hcall : n.kind = "call_expression" → n.hasError = false → n.startByte < n.endByte ∧
        ∀ child ∈ n.children, child.endByte - child.startByte < n.endByte - n.startByte)
      (hchildren : ∀ child ∈ n.children, Node.Shaped child) : Node.Shaped n

namespace Node

variable {n part other : Node} {name : String}

theorem Shaped.child (h : n.Shaped) (hpart : part ∈ n.children) : part.Shaped := by
  cases h with
  | mk _ _ _ _ _ _ hchildren => exact hchildren part hpart

theorem Shaped.inside (h : n.Shaped) (hpart : part ∈ n.children) :
    n.startByte ≤ part.startByte ∧ part.endByte ≤ n.endByte := by
  cases h with
  | mk _ _ hinside _ _ _ _ => exact hinside part hpart

theorem Shaped.ordered (h : n.Shaped) :
    n.children.Pairwise fun a b => a.endByte ≤ b.startByte := by
  cases h with
  | mk _ _ _ hordered _ _ _ => exact hordered

theorem Shaped.error (h : n.Shaped) (hpart : part ∈ n.children) (hn : n.hasError = false) :
    part.hasError = false := by
  cases h with
  | mk _ _ _ _ herror _ _ =>
      refine Bool.eq_false_iff.mpr fun hbad => ?_
      rw [herror part hpart hbad] at hn
      exact absurd hn (by decide)

theorem Shaped.call (h : n.Shaped) (hkind : n.kind = "call_expression")
    (hn : n.hasError = false) : n.startByte < n.endByte ∧
      ∀ part ∈ n.children, part.endByte - part.startByte < n.endByte - n.startByte := by
  cases h with
  | mk _ _ _ _ _ hcall _ => exact hcall hkind hn

/-- What is promised of a node and its children, without what is below these. -/
def Fits (n : Node) : Prop :=
  n.startByte ≤ n.endByte ∧
    (∀ c ∈ n.children, n.startByte ≤ c.startByte ∧ c.endByte ≤ n.endByte) ∧
    (n.children.Pairwise fun a b => a.endByte ≤ b.startByte) ∧
    (∀ c ∈ n.children, c.hasError = true → n.hasError = true) ∧
    (n.kind = "call_expression" → n.hasError = false → n.startByte < n.endByte ∧
      ∀ c ∈ n.children, c.endByte - c.startByte < n.endByte - n.startByte)

instance (n : Node) : Decidable n.Fits := by
  unfold Fits
  infer_instance

mutual

def checks : Node → Bool
  | n@{ children, .. } => decide n.Fits && checksAll children

def checksAll : List Node → Bool
  | [] => true
  | n :: rest => n.checks && checksAll rest

end

mutual

theorem shaped_of_checks : ∀ n : Node, n.checks = true → n.Shaped
  | ⟨kind, isNamed, field, startByte, endByte, startRow, startColumn, endRow, endColumn, hasError,
      isMissing, children⟩ => fun h => by
    obtain ⟨hfits, hall⟩ := Bool.and_eq_true_iff.mp h
    obtain ⟨hle, hinside, hordered, herror, hcall⟩ := of_decide_eq_true hfits
    exact .mk _ hle hinside hordered herror hcall (shaped_of_checksAll children hall)

theorem shaped_of_checksAll : ∀ nodes : List Node, checksAll nodes = true →
    ∀ n ∈ nodes, n.Shaped
  | [], _ => fun _ hn => absurd hn List.not_mem_nil
  | first :: rest, h => fun n hn => by
    obtain ⟨hfirst, hrest⟩ := Bool.and_eq_true_iff.mp h
    rcases List.mem_cons.mp hn with hn | hn
    · rw [hn]; exact shaped_of_checks first hfirst
    · exact shaped_of_checksAll rest hrest n hn

end

/-! ### Extents -/

/-- An extent that is not empty, within a node. -/
def Covers (n : Node) (r : Nat × Nat) : Prop :=
  n.startByte ≤ r.1 ∧ r.2 ≤ n.endByte ∧ r.1 < r.2

/-- No extent is covered by both. -/
def Apart (a b : Node) : Prop := ∀ r, a.Covers r → b.Covers r → False

theorem Apart.symm {a b : Node} (h : a.Apart b) : b.Apart a := fun r hb ha => h r ha hb

instance : Std.Symm Apart := ⟨fun _ _ => Apart.symm⟩

theorem apart_of_le {a b : Node} (h : a.endByte ≤ b.startByte) : a.Apart b := by
  intro r ha hb
  have hfirst := ha.2.1
  have hsecond := hb.1
  have hwide := ha.2.2
  omega

theorem Shaped.covers (h : n.Shaped) (hpart : part ∈ n.children) {r : Nat × Nat}
    (hr : part.Covers r) : n.Covers r := by
  obtain ⟨hstart, hstop⟩ := h.inside hpart
  exact ⟨le_trans hstart hr.1, le_trans hr.2.1 hstop, hr.2.2⟩

theorem Shaped.apart (h : n.Shaped) : n.children.Pairwise Apart :=
  h.ordered.imp apart_of_le

theorem Shaped.named_apart (h : n.Shaped) : n.named.Pairwise Apart :=
  h.apart.sublist List.filter_sublist

/-- **Children in different fields lie apart.** -/
theorem Shaped.fields_apart (h : n.Shaped) {name' : String}
    (hpart : n.childByFieldName name = some part)
    (hother : n.childByFieldName name' = some other) (hne : name ≠ name') :
    part.Apart other := by
  have hdiffer : part ≠ other := by
    rintro rfl
    have hfirst := field_of_childByFieldName hpart
    have hsecond := field_of_childByFieldName hother
    exact hne (Option.some.inj (hfirst.symm.trans hsecond))
  exact h.apart.forall (mem_of_childByFieldName hpart)
    (mem_of_childByFieldName hother) hdiffer

theorem Shaped.ne_extent (h : n.Shaped) (hkind : n.kind = "call_expression")
    (hn : n.hasError = false) (hpart : part ∈ n.children) {r : Nat × Nat}
    (hr : part.Covers r) : r ≠ n.extent := by
  rintro rfl
  have hless := (h.call hkind hn).2 part hpart
  have hstart : part.startByte ≤ n.startByte := hr.1
  have hstop : n.endByte ≤ part.endByte := hr.2.1
  omega

end Node

end Baleyg.Behavior
