import QueryLineage.Tree.Joining

/-!
# Extents

How many of the siblings behind a node belong to it. There is an extent for each kind of group:
function calls, identifiers, operations, comparisons, aliases, directions of an order, comments
and lists. An extent that does not apply has no number.
-/

namespace QueryLineage.Node

def isKind (kind : Kind) (node : Node) : Bool :=
  node.kind == kind

def isOperand (node : Node) : Bool :=
  node.kind.isOperand

/-- `OVER` and a window, in parentheses or by its name. -/
def windowExtent (siblings : List Node) : Option Nat :=
  reaches .blanks [(·.isWord "OVER"), fun node => node.isKind .parenthesis || node.isKind .name]
    siblings

/-- A name calls the parentheses behind it, over a window if one follows. -/
def callExtent (node : Node) (siblings : List Node) : Option Nat :=
  if node.isKind .name then
    (reach .blanks (isKind .parenthesis) siblings).map fun n =>
      n + (windowExtent (siblings.drop n)).getD 0
  else none

def isNamePart (node : Node) : Bool :=
  match node.kind with
  | .name | .function | .wildcard | .keyword _ => true
  | _ => false

/-- Dots with the parts behind them, without anything between. -/
def dottedExtent : List Node → Nat
  | dot :: part :: siblings =>
    if dot.isMark "." && part.isNamePart then dottedExtent siblings + 2 else 0
  | _ => 0

/-- A name is an identifier, with all the parts behind its dots; a call is one if it has such. -/
def identifierExtent (node : Node) (siblings : List Node) : Option Nat :=
  let n := dottedExtent siblings
  if node.isKind .name || (node.isKind .function && n != 0) then some n else none

def isSign (node : Node) : Bool :=
  node.isKind .operator && (node.text == "-" || node.text == "+")

/-- Joins a sign with the operand right behind it, where no operand comes before the sign, as
`preceded` tells. -/
def groupSigns (preceded : Bool) : List Node → List Node
  | sign :: operand :: siblings =>
    if sign.isSign && operand.isOperand && !preceded then
      enclose .operation sign [operand] :: groupSigns true siblings
    else
      sign :: groupSigns (if sign.isWhitespace then preceded else sign.isOperand)
        (operand :: siblings)
  | siblings => siblings

/-- An operand takes the operator behind it and the next operand. -/
def operationExtent (node : Node) (siblings : List Node) : Option Nat :=
  if node.isOperand then
    reaches .blanks [fun operator => operator.isKind .operator || operator.isKind .wildcard,
      isOperand] siblings
  else none

/-- An operand takes the comparison operator behind it and the next operand. -/
def comparisonExtent (node : Node) (siblings : List Node) : Option Nat :=
  if node.isOperand then reaches .blanks [isKind .comparisonOperator, isOperand] siblings
  else none

def isAliasOrBody (node : Node) : Bool :=
  match node.kind with
  | .identifier | .name | .parenthesis | .literal => true
  | _ => false

/-- What is named takes `AS` and what stands behind it. -/
def asExtent (node : Node) (siblings : List Node) : Option Nat :=
  if node.isOperand || node.isKind .comparison then
    reaches .blanks [(·.isWord "AS"), isAliasOrBody] siblings
  else none

/-- Whether the node has no alias yet and can have one. -/
def takesAlias (node : Node) : Bool :=
  match node.kind with
  | .identifier => !node.children.any isWhitespace
  | .parenthesis | .function | .literal | .operation | .caseBlock => true
  | _ => false

/-- Whether the node is an identifier made of a single name. -/
def isSingleName (node : Node) : Bool :=
  node.isKind .identifier &&
    match node.children with
    | [part] => part.isKind .name
    | _ => false

/-- What can have an alias takes a bare identifier behind it, if blanks stand between. -/
def aliasExtent (node : Node) (siblings : List Node) : Option Nat :=
  if node.takesAlias then (reach .blanks isSingleName siblings).filter (1 < ·) else none

/-- An operand takes the direction in which it orders. -/
def directionExtent (node : Node) (siblings : List Node) : Option Nat :=
  if node.isOperand then reach .blanks (·.isWordIn ["ASC", "DESC"]) siblings else none

/-- An identifier takes the comment behind it. -/
def commentExtent (node : Node) (siblings : List Node) : Option Nat :=
  if node.isKind .identifier then reach .blanks isComment siblings else none

def isItem (node : Node) : Bool :=
  node.isOperand || node.isKind .wildcard || node.isKind .comparison

/-- Commas with the items behind them. -/
def listTail : List Node → Nat
  | [] => 0
  | node :: siblings =>
    match reaches .all [(·.isMark ","), isItem] (node :: siblings) with
    | some (n + 1) => n + 1 + listTail (siblings.drop n)
    | _ => 0
termination_by siblings => siblings.length

/-- An item takes all commas and items behind it, if there are any. -/
def listExtent (node : Node) (siblings : List Node) : Option Nat :=
  if node.isItem && listTail siblings != 0 then some (listTail siblings) else none

end QueryLineage.Node
