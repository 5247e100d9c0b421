import Pushdown.Proofs.Condition.Built

/-!
# Parsed conditions are well formed

What a translation takes from a tree without looking at it holds of every tree that is parsed: its
names are identifiers, its fields and constants are consistent in themselves, and its calls are not
nested too deeply. `WellFormed` says so of one node, without its operands. The main result is about
every node on every path from the root (`parse_wellFormed`).
-/

namespace Pushdown

open Text

namespace Expr

/-- The operands or arguments of a node, from left to right. -/
def children : Expr → List Expr
  | and l r | or l r | compare l _ r | math l _ r => [l, r]
  | not e | isNull e _ | member e _ => [e]
  | call _ _ args => args
  | eventNull _ | constant _ _ | parameter _ _ | eventField _ _ _ _ | column _ _ _ => []

/-- The node is a call. -/
def isCall : Expr → Bool
  | call _ _ _ => true
  | _ => false

/-- The nodes from the root of a tree down to one of its nodes. -/
inductive Path : Expr → List Expr → Prop
  /-- The way ends at the root. -/
  | stop (e : Expr) : Path e [e]
  /-- The way goes on in an operand or an argument. -/
  | step {e child : Expr} {nodes : List Expr} (hchild : child ∈ e.children)
      (path : Path child nodes) : Path e (e :: nodes)

end Expr

namespace Condition

/-- The text starts with a letter or an underscore, goes on with letters, digits and underscores,
and is no reserved word in any casing. -/
structure IsIdentifier (name : String) : Prop where
  /-- It has a first character, and the others can follow it. -/
  shape : ∃ c cs, name.toList = c :: cs ∧ (isAlphabetic c = true ∨ c = '_') ∧
    ∀ d ∈ cs, isAlphanumeric d = true ∨ d = '_'
  /-- It is not reserved. -/
  free : lowerAscii name.toList ∉ reservedWords

/-- The value is in the range of its type, and a string lacks one of the two quotes. -/
def IsWritable : Value → Prop
  | .int n => -0x80000000 ≤ n.toInt ∧ n.toInt < 0x80000000
  | .long n => -0x8000000000000000 ≤ n.toInt ∧ n.toInt < 0x8000000000000000
  | .string s => '\x27' ∉ s.toList ∨ '"' ∉ s.toList
  | .null | .bool _ | .float _ | .double _ => True

/-- The node has consistent data in itself. Its operands and arguments are not looked at. -/
def WellFormed : Expr → Prop
  | .and _ _ | .or _ _ | .not _ | .compare _ _ _ | .math _ _ _ => True
  | .isNull _ stream => stream = none
  | .eventNull _ => False
  | .member _ store => IsIdentifier store
  | .constant value type => type = value.naturalType ∧ IsWritable value
  | .call space name _ => (∀ s ∈ space, IsIdentifier s) ∧ IsIdentifier name
  | .parameter index _ => index.toNat < 0x10000000000000000
  | .eventField id stream name _ =>
      ∃ s, stream = some s ∧ id = s ++ "." ++ name ∧ IsIdentifier s ∧ IsIdentifier name
  | .column store name _ => store = none ∧ IsIdentifier name

variable {n : Nat} {e : Expr} {nodes : List Expr}

theorem isIdentifier_of_isName {name : List Char} (h : isName name = true) :
    IsIdentifier (String.ofList name) := by
  obtain ⟨c, cs, rfl, hstart, hchars, hfree⟩ := isName_cons h
  rw [List.forall_mem_cons] at hchars
  constructor
  · refine ⟨c, cs, String.toList_ofList, ?_, fun d hd => ?_⟩
    · simpa [isNameStart] using hstart
    · simpa [isNameChar] using hchars.2 d hd
  · rw [String.toList_ofList]
    simpa [isReserved] using hfree

theorem isWritable_of_isLiteral {value : Value} (h : IsLiteral value) : IsWritable value := by
  cases value with
  | int n => exact ⟨n.le_toInt, n.toInt_lt⟩
  | long n => exact ⟨n.le_toInt, n.toInt_lt⟩
  | string s => exact h
  | null | bool | float | double => trivial

/-- Every tree that is read has a well-formed root. -/
theorem Built.wellFormed (h : Built n e) : WellFormed e := by
  cases h with
  | and | or | not | compare | math => trivial
  | isNull => rfl
  | member _ hstore => exact isIdentifier_of_isName hstore
  | literal hvalue => exact ⟨rfl, isWritable_of_isLiteral hvalue⟩
  | call hspace hfunction _ =>
      refine ⟨fun s hs => ?_, isIdentifier_of_isName hfunction⟩
      obtain ⟨w, hw, rfl⟩ := Option.map_eq_some_iff.mp hs
      exact isIdentifier_of_isName (hspace w hw)
  | parameter index type => exact index.toNat_lt
  | field hstream hname type =>
      exact ⟨_, rfl, rfl, isIdentifier_of_isName hstream, isIdentifier_of_isName hname⟩
  | column hname type => exact ⟨rfl, isIdentifier_of_isName hname⟩

/-- One step down a tree that is read leads to a tree that is read, with less room below a call. -/
theorem Built.child {child : Expr} (h : Built n e) (hchild : child ∈ e.children) :
    ∃ m, Built m child ∧ m + (if e.isCall then 1 else 0) ≤ n := by
  cases h with
  | and hl hr | or hl hr | compare _ hl hr | math _ hl hr =>
      simp only [Expr.children, List.mem_cons, List.not_mem_nil, or_false] at hchild
      rcases hchild with rfl | rfl
      · exact ⟨n, hl, Nat.le_refl n⟩
      · exact ⟨n, hr, Nat.le_refl n⟩
  | not he | isNull he | member he _ =>
      rw [Expr.children, List.mem_singleton] at hchild
      exact ⟨n, hchild ▸ he, Nat.le_refl n⟩
  | call _ _ hargs => exact ⟨_, hargs child hchild, Nat.le_refl _⟩
  | literal | parameter | field | column => exact absurd hchild List.not_mem_nil

/-- A call needs room. -/
theorem Built.room (h : Built n e) : (if e.isCall then 1 else 0) ≤ n := by
  cases h with
  | call => exact Nat.le_add_left 1 _
  | _ => exact Nat.zero_le n

/-- All nodes on a path of a tree that is read are well formed, and no more of them are calls than
there is room for. -/
theorem Built.path (h : Built n e) (path : e.Path nodes) :
    (∀ node ∈ nodes, WellFormed node) ∧ nodes.countP Expr.isCall ≤ n := by
  induction path generalizing n with
  | stop e =>
      refine ⟨fun node hnode => ?_, ?_⟩
      · rw [List.mem_singleton.mp hnode]
        exact h.wellFormed
      · simpa [List.countP_cons] using h.room
  | step hchild path ih =>
      obtain ⟨m, hbuilt, hroom⟩ := h.child hchild
      obtain ⟨hnodes, hcalls⟩ := ih hbuilt
      refine ⟨List.forall_mem_cons.mpr ⟨h.wellFormed, hnodes⟩, ?_⟩
      rw [List.countP_cons]
      omega

/-- Every node of a parsed condition is well formed, and no path from the root passes more than 64
calls. -/
theorem parse_wellFormed {text : String} (h : parse text = .ok e) (path : e.Path nodes) :
    (∀ node ∈ nodes, WellFormed node) ∧ nodes.countP Expr.isCall ≤ 64 :=
  (built_of_parse h).path path

/-- A condition with a node of most kinds, and a string with a quote in it. -/
def busyText : String := "not ns:f(S.a::int, $3 + -2) in Store or b = \"it's\""

/-- The second argument of the call in the condition. -/
def busySummand : Expr := .math (.parameter 3 .object) .add (.constant (.int (-2)) .int)

/-- The call in the condition. -/
def busyCall : Expr :=
  .call (some "ns") "f" [.eventField "S.a" (some "S") "a" .int, busySummand]

/-- The tree of the condition. -/
def busyTree : Expr :=
  .or (.not (.member busyCall "Store"))
    (.compare (.column none "b" .object) .eq (.constant (.string "it's") .string))

/-- The way from the root of the tree to the constant in the call. -/
def busyPath : List Expr :=
  [busyTree, .not (.member busyCall "Store"), .member busyCall "Store", busyCall, busySummand,
   .constant (.int (-2)) .int]

theorem parse_wellFormed_busy :
    parse busyText = .ok busyTree ∧ busyTree.Path busyPath ∧
      (∀ node ∈ busyPath, WellFormed node) ∧ busyPath.countP Expr.isCall ≤ 64 := by
  have hparse : parse busyText = .ok busyTree := by decide +kernel
  have hpath : busyTree.Path busyPath := ?_
  · exact ⟨hparse, hpath, parse_wellFormed hparse hpath⟩
  apply Expr.Path.step List.mem_cons_self
  apply Expr.Path.step List.mem_cons_self
  apply Expr.Path.step List.mem_cons_self
  apply Expr.Path.step (List.mem_cons_of_mem _ List.mem_cons_self)
  apply Expr.Path.step (List.mem_cons_of_mem _ List.mem_cons_self)
  exact Expr.Path.stop _

end Condition

end Pushdown
