import BundleReach.Script.Token

/-!
# Rules of a grammar

A grammar is a list of definitions, one for each construct of a script, and each definition states
by a `Rule` what the construct is made of.  Rules are data: the automaton that reads scripts is
computed from them.

* `Head` — what a definition defines: a node of the syntax tree, or a `Part` that has no node of
  its own or shares its kind with another construct.
* `Rule` — sequences, choices and repetitions of tokens and of other constructs, with the roles
  that the parts play and the precedence that settles what the alternatives leave open.
* `Definition` — an entry of a grammar.
-/

namespace BundleReach.Script

/-- Constructs without a kind of their own. -/
inductive Part where
  | declaration
  | statement
  | expression
  | primaryExpression
  | expressions
  | pattern
  | destructuring
  | leftHandSide
  | updatedLeftHandSide
  | initializer
  | forHeader
  | fromClause
  | exportName
  | importName
  | name
  | reservedName
  | propertyName
  | semicolon
  | callSignature
  | parameter
  | parameterName
  | moduleHead
  | heritageEntry
  | type
  | primaryType
  | typeName
  | tupleMember
  | signedNumber
  -- markup elements
  | element
  | elementChild
  | elementName
  | simpleElementName
  | elementAttribute
  | attributeName
  | attributeValue
  | markupString
  -- constructs that share their kind with another one
  | dottedName
  | decoratorMember
  | decoratorCall
  | decoratorGroup
  | tupleParameter
  | optionalTupleParameter
  | annotatedMember
  | annotatedCall
  | queriedMember
  | queriedSubscript
  | queriedCall
  | queriedInstantiation
  deriving DecidableEq, Hashable, Repr

/-- What a definition defines. -/
inductive Head where
  | node (k : Kind)
  | part (p : Part)
  deriving DecidableEq, Hashable, Repr

namespace Head

/-- The kind of the node that a construct becomes, if it becomes one. -/
def kind? : Head → Option Kind
  | node k => some k
  | part .dottedName | part .decoratorMember => some .memberExpression
  | part .annotatedMember | part .queriedMember => some .memberExpression
  | part .decoratorCall | part .annotatedCall | part .queriedCall => some .callExpression
  | part .decoratorGroup => some .parenthesizedExpression
  | part .tupleParameter => some .requiredParameter
  | part .optionalTupleParameter => some .optionalParameter
  | part .queriedSubscript => some .subscriptExpression
  | part .queriedInstantiation => some .instantiationExpression
  | part .signedNumber => some .unaryExpression
  | part .markupString => some .string
  | part _ => none

/-- Does the construct merely collect alternatives that are constructs themselves? -/
def isUmbrella : Head → Bool
  | part p =>
    [Part.declaration, .statement, .expression, .primaryExpression, .pattern, .type,
      .primaryType].contains p
  | node _ => false

end Head

/-- A level of precedence.  Levels are compared by the orders that a grammar states. -/
inductive Level where
  | number (n : Int)
  | member
  | templateCall
  | call
  | unaryWord
  | power
  | times
  | plus
  | shift
  | relation
  | equality
  | bitAnd
  | bitXor
  | bitOr
  | logicalAnd
  | logicalOr
  | conditional
  | assign
  | new
  | declare
  | literal
  | object
  | instantiation
  | unary
  | binary
  | extension
  deriving DecidableEq, Hashable, Repr

/-- Which way a construct groups that stands next to its like. -/
inductive Grouping where
  | left
  | right
  deriving DecidableEq, Hashable, Repr

/-- What a construct is made of. -/
inductive Rule where
  | nothing
  /-- A token that is introduced by the rule itself: a keyword or a mark. -/
  | word (text : String)
  /-- A token that the grammar introduces by a definition of its own. -/
  | token (t : Token)
  | head (h : Head)
  | seq (rules : List Rule)
  | choice (rules : List Rule)
  | many1 (rule : Rule)
  /-- A part that plays a role. -/
  | field (role : Role) (rule : Rule)
  /-- A part whose node is of another kind than usual. -/
  | renamed (kind : Kind) (rule : Rule)
  | prec (level : Option Level) (grouping : Option Grouping) (rule : Rule)
  /-- An alternative that is preferred, or avoided, where a text can be read in two ways. -/
  | weighed (weight : Int) (rule : Rule)
  /-- A part in which reserved words are names. -/
  | unreserved (rule : Rule)

namespace Rule

instance : Coe String Rule := ⟨word⟩
instance : Inhabited Rule := ⟨nothing⟩

/-- A construct that is a node. -/
def node (k : Kind) : Rule := head (.node k)

/-- A construct that is no node of its own. -/
def part (p : Part) : Rule := head (.part p)

def optional (r : Rule) : Rule := choice [r, nothing]

def many (r : Rule) : Rule := choice [many1 r, nothing]

/-- One or more of a construct, with a mark between them. -/
def separated1 (mark r : Rule) : Rule := seq [r, many (seq [mark, r])]

/-- One or more of a construct, with commas between them. -/
def commas1 (r : Rule) : Rule := separated1 "," r

/-- Any number of a construct, with commas between them. -/
def commas (r : Rule) : Rule := optional (commas1 r)

/-- A construct of the given precedence. -/
def ranked (l : Level) (r : Rule) : Rule := prec (some l) none r

/-- A construct of the given precedence that groups to the left. -/
def leftAt (l : Level) (r : Rule) : Rule := prec (some l) (some .left) r

/-- A construct of the given precedence that groups to the right. -/
def rightAt (l : Level) (r : Rule) : Rule := prec (some l) (some .right) r

/-- A construct that groups to the left. -/
def leftward (r : Rule) : Rule := prec none (some .left) r

/-- A construct that groups to the right. -/
def rightward (r : Rule) : Rule := prec none (some .right) r

def identifier : Rule := token .identifier

def semicolon : Rule := part .semicolon

end Rule

/-- An entry of a grammar. -/
inductive Definition where
  | rule (h : Head) (r : Rule)
  /-- A construct that is replaced by what it is made of wherever it is mentioned. -/
  | inlined (p : Part) (r : Rule)
  /-- A token that rules mention. -/
  | token (t : Token)

/-- A node of the syntax tree. -/
def Definition.node (k : Kind) (r : Rule) : Definition := .rule (.node k) r

/-- A construct that is no node of its own. -/
def Definition.part (p : Part) (r : Rule) : Definition := .rule (.part p) r

/-- Some definitions of one dialect only. -/
def Dialect.restrict (d wanted : Dialect) (ds : List Definition) : List Definition :=
  if d = wanted then ds else []

/-- One of two things, by dialect. -/
def Dialect.choose {α : Type} (d : Dialect) (plain typed : α) : α :=
  match d with
  | .plain => plain
  | .typed => typed

end BundleReach.Script
