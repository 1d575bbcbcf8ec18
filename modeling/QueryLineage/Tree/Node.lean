import QueryLineage.Text.Blank
import QueryLineage.Lexeme.Keyword
import QueryLineage.Lexeme.Basic

/-!
# Query trees

A query is a tree whose leaves are its lexemes. A group has no text of its own: its text is that
of its children, one after the other, so a tree shows at every node the fragment of the query that
it stands for.
-/

namespace QueryLineage

open Text

inductive Node where
  | leaf (kind : Kind) (text : String)
  | group (kind : Kind) (children : List Node)

/-- The parts of a query that carry no meaning, as far as they are to be stepped over. -/
structure Filler where
  whitespace : Bool := true
  comments : Bool := true
  deriving DecidableEq, Repr

/-- Blanks and comments alike. -/
def Filler.all : Filler := {}

/-- Blanks, but no comments. -/
def Filler.blanks : Filler := { comments := false }

namespace Node

def kind : Node → Kind
  | leaf kind _ => kind
  | group kind _ => kind

def children : Node → List Node
  | leaf _ _ => []
  | group _ children => children

@[simp] theorem kind_leaf (k : Kind) (s : String) : (leaf k s).kind = k := rfl

@[simp] theorem kind_group (k : Kind) (ns : List Node) : (group k ns).kind = k := rfl

@[simp] theorem children_leaf (k : Kind) (s : String) : (leaf k s).children = [] := rfl

@[simp] theorem children_group (k : Kind) (ns : List Node) : (group k ns).children = ns := rfl

mutual

def decEq : (node other : Node) → Decidable (node = other)
  | leaf kind text, leaf shown found =>
    decidable_of_iff (kind = shown ∧ text = found) (by simp)
  | group kind children, group shown others =>
    match decEqAll children others with
    | isTrue h => decidable_of_iff (kind = shown) (by simp [h])
    | isFalse h => isFalse (by simp [h])
  | leaf _ _, group _ _ => isFalse (by simp)
  | group _ _, leaf _ _ => isFalse (by simp)

def decEqAll : (nodes others : List Node) → Decidable (nodes = others)
  | [], [] => isTrue rfl
  | node :: nodes, other :: others =>
    match decEq node other, decEqAll nodes others with
    | isTrue hnode, isTrue hnodes => isTrue (by rw [hnode, hnodes])
    | isFalse hnode, _ => isFalse (by simp [hnode])
    | _, isFalse hnodes => isFalse (by simp [hnodes])
  | [], _ :: _ => isFalse (by simp)
  | _ :: _, [] => isFalse (by simp)

end

instance : DecidableEq Node := decEq

mutual

/-- The text that the node stands for. -/
def text : Node → String
  | leaf _ text => text
  | group _ children => textAll children

def textAll : List Node → String
  | [] => ""
  | node :: siblings => node.text ++ textAll siblings

end

mutual

def depth : Node → Nat
  | leaf _ _ => 0
  | group _ children => depthAll children + 1

def depthAll : List Node → Nat
  | [] => 0
  | node :: siblings => max node.depth (depthAll siblings)

end

@[simp] theorem text_leaf (k : Kind) (s : String) : (leaf k s).text = s := by simp [text]

@[simp] theorem text_group (k : Kind) (ns : List Node) : (group k ns).text = textAll ns := by
  simp [text]

@[simp] theorem textAll_nil : textAll [] = "" := by simp [textAll]

@[simp] theorem textAll_cons (n : Node) (ns : List Node) :
    textAll (n :: ns) = n.text ++ textAll ns := by simp [textAll]

@[simp] theorem textAll_append (ns ms : List Node) :
    textAll (ns ++ ms) = textAll ns ++ textAll ms := by
  induction ns with
  | nil => simp
  | cons n ns ih => simp [ih, String.append_assoc]

theorem depth_le_depthAll {node : Node} {siblings : List Node} (h : node ∈ siblings) :
    node.depth ≤ depthAll siblings := by
  induction siblings with
  | nil => simp at h
  | cons n ns ih =>
    rw [depthAll]
    rcases List.mem_cons.1 h with rfl | h
    · exact Nat.le_max_left _ _
    · exact Nat.le_trans (ih h) (Nat.le_max_right _ _)

theorem depthAll_pos {kind : Kind} {children siblings : List Node}
    (h : group kind children ∈ siblings) : 0 < depthAll siblings := by
  have hle := depth_le_depthAll h
  rw [depth] at hle
  omega

/-- A child is nested less deeply than its parent. -/
theorem depth_lt_of_mem_children {node child : Node} (h : child ∈ node.children) :
    child.depth < node.depth := by
  cases node with
  | leaf k s => simp at h
  | group k ns =>
    rw [depth]
    exact Nat.lt_succ_of_le (depth_le_depthAll h)

theorem children_eq_nil_of_depth {node : Node} (h : node.depth = 0) : node.children = [] := by
  cases node with
  | leaf kind text => rfl
  | group kind children =>
    rw [depth] at h
    omega

def isWhitespace (node : Node) : Bool :=
  node.kind == .whitespace

def isComment (node : Node) : Bool :=
  node.kind == .comment

def isPunctuation (node : Node) : Bool :=
  node.kind == .punctuation

def isKeyword (node : Node) : Bool :=
  node.kind.isKeyword

def isDml (node : Node) : Bool :=
  node.kind == .keyword .dml

def isCte (node : Node) : Bool :=
  node.kind == .keyword .cte

/-- The text by which keywords and comparison operators are known: in upper case, with one space
between its words. Everything else keeps its text. -/
def normalized (node : Node) : String :=
  if node.isKeyword || node.kind == .comparisonOperator then upper (collapse node.text)
  else node.text

/-- Whether the node is the punctuation mark `mark`. -/
def isMark (node : Node) (mark : String) : Bool :=
  node.isPunctuation && node.text == mark

/-- Whether the node is the keyword `word`, which is given in upper case. -/
def isWord (node : Node) (word : String) : Bool :=
  node.isKeyword && node.normalized == word

def isWordIn (node : Node) (words : List String) : Bool :=
  node.isKeyword && words.contains node.normalized

def isFiller (filler : Filler) (node : Node) : Bool :=
  (filler.whitespace && node.isWhitespace) || (filler.comments && node.isComment)

/-- Whether a statement begins right inside the node. -/
def hasDml (node : Node) : Bool :=
  node.children.any isDml

/-- A query in parentheses, as opposed to an expression in parentheses. -/
def isSubselect (node : Node) : Bool :=
  node.kind == .parenthesis && node.hasDml

@[simp] theorem isFiller_all (node : Node) :
    isFiller .all node = (node.isWhitespace || node.isComment) := by
  simp [isFiller, Filler.all]

@[simp] theorem isFiller_blanks (node : Node) : isFiller .blanks node = node.isWhitespace := by
  simp [isFiller, Filler.blanks]

theorem normalized_of_isKeyword {node : Node} (h : node.isKeyword = true) :
    node.normalized = upper (collapse node.text) := by
  simp [normalized, h]

/-- The first child after the child at index `after`, or the first of all, that is not filler,
with its index. -/
def nextChild (node : Node) (after : Option Nat) (filler : Filler) : Option (Nat × Node) :=
  let start := after.elim 0 (· + 1)
  ((node.children.zipIdx.drop start).find? fun child => !child.1.isFiller filler).map Prod.swap

/-- The node that is reached by going down from child to child. -/
def descendant? (node : Node) : List Nat → Option Node
  | [] => some node
  | index :: path => node.children[index]?.bind fun child => child.descendant? path

/-- A node where it stands in a tree. -/
structure Place where
  depth : Nat
  node : Node
  following : List Node

mutual

/-- The places inside a node that stands at depth `depth`, each before those below it. -/
def placesBelow (depth : Nat) : Node → List Place
  | leaf _ _ => []
  | group _ children => placesIn (depth + 1) children

/-- The places of siblings that stand at depth `depth`, and those below them. -/
def placesIn (depth : Nat) : List Node → List Place
  | [] => []
  | node :: siblings =>
    ⟨depth, node, siblings⟩ :: (node.placesBelow depth ++ placesIn depth siblings)

end

end Node

/-- A lexeme as a tree. -/
def Lexeme.toNode (lexeme : Lexeme) : Node :=
  .leaf lexeme.kind lexeme.text

end QueryLineage
