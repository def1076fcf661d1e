import BundleReach.Text.Utf8

/-!
# Concrete syntax trees of scripts

A script is read into a tree that keeps every token: keywords, punctuation and comments are
nodes like any other.  Each node carries its kind, the part it plays in its parent, its exact
source text and the line on which it starts.

* `Dialect` — which of the two grammars a script is read with.
* `Kind`, `Role` — the vocabulary of nodes and of the parts they play.
* `Tree` — the rose tree itself, with `Tree.preorder` as its reading order.
* `Parser` — what gives the trees of scripts.
-/

namespace BundleReach.Script

/-- The two grammars: plain scripts, with markup elements allowed in expressions, and scripts
with type annotations, without them. -/
inductive Dialect where
  | plain
  | typed
  deriving DecidableEq, Repr

/-- What a node of a syntax tree is.  Keywords and punctuation share the kind `word` and are told
apart by their text; every other kind is a construct of the grammar. -/
inductive Kind where
  | word
  | comment
  | hashBangLine
  | program
  -- linkage
  | importStatement
  | importClause
  | importSpecifier
  | importAttribute
  | importRequireClause
  | importAlias
  | namespaceImport
  | namedImports
  | exportStatement
  | exportClause
  | exportSpecifier
  | namespaceExport
  -- declarations
  | functionDeclaration
  | generatorFunctionDeclaration
  | functionSignature
  | classDeclaration
  | abstractClassDeclaration
  | lexicalDeclaration
  | variableDeclaration
  | usingDeclaration
  | variableDeclarator
  | enumDeclaration
  | enumBody
  | enumAssignment
  | interfaceDeclaration
  | typeAliasDeclaration
  | ambientDeclaration
  | moduleDeclaration
  | internalModule
  | decorator
  -- statements
  | statementBlock
  | expressionStatement
  | emptyStatement
  | debuggerStatement
  | ifStatement
  | elseClause
  | switchStatement
  | switchBody
  | switchCase
  | switchDefault
  | forStatement
  | forInStatement
  | whileStatement
  | doStatement
  | tryStatement
  | catchClause
  | finallyClause
  | withStatement
  | breakStatement
  | continueStatement
  | returnStatement
  | throwStatement
  | labeledStatement
  | statementIdentifier
  -- names and literals
  | identifier
  | propertyIdentifier
  | privatePropertyIdentifier
  | shorthandPropertyIdentifier
  | shorthandPropertyIdentifierPattern
  | typeIdentifier
  | nestedIdentifier
  | nestedTypeIdentifier
  | computedPropertyName
  | number
  | string
  | stringFragment
  | escapeSequence
  | templateString
  | templateSubstitution
  | regex
  | regexPattern
  | regexFlags
  | trueLiteral
  | falseLiteral
  | nullLiteral
  | undefinedLiteral
  | thisValue
  | superValue
  | importValue
  | metaProperty
  -- expressions
  | sequenceExpression
  | parenthesizedExpression
  | assignmentExpression
  | augmentedAssignmentExpression
  | awaitExpression
  | yieldExpression
  | unaryExpression
  | binaryExpression
  | ternaryExpression
  | updateExpression
  | newExpression
  | callExpression
  | memberExpression
  | subscriptExpression
  | optionalChain
  | arguments
  | spreadElement
  | object
  | pair
  | array
  | functionExpression
  | generatorFunction
  | arrowFunction
  | classExpression
  | nonNullExpression
  | asExpression
  | satisfiesExpression
  | instantiationExpression
  | typeAssertion
  -- classes
  | classHeritage
  | extendsClause
  | implementsClause
  | classBody
  | classStaticBlock
  | fieldDefinition
  | publicFieldDefinition
  | methodDefinition
  | methodSignature
  | abstractMethodSignature
  | accessibilityModifier
  | overrideModifier
  -- patterns and parameters
  | objectPattern
  | arrayPattern
  | pairPattern
  | restPattern
  | assignmentPattern
  | objectAssignmentPattern
  | formalParameters
  | requiredParameter
  | optionalParameter
  -- markup elements
  | jsxElement
  | jsxOpeningElement
  | jsxClosingElement
  | jsxSelfClosingElement
  | jsxAttribute
  | jsxExpression
  | jsxText
  | jsxNamespaceName
  | characterReference
  -- types
  | annotatedType
  | typeArguments
  | typeParameters
  | typeParameter
  | constraint
  | defaultType
  | predefinedType
  | parenthesizedType
  | genericType
  | objectType
  | interfaceBody
  | arrayType
  | tupleType
  | optionalType
  | restType
  | unionType
  | intersectionType
  | conditionalType
  | inferType
  | functionType
  | constructorType
  | readonlyType
  | typeQuery
  | indexTypeQuery
  | lookupType
  | literalType
  | templateLiteralType
  | templateType
  | existentialType
  | flowMaybeType
  | thisType
  | typePredicate
  | predicateResult
  | asserts
  | assertedResult
  | extendsTypeClause
  | propertySignature
  | callSignature
  | constructSignature
  | indexSignature
  | mappedTypeClause
  | omittingType
  | addingType
  | optingType
  deriving DecidableEq, Hashable, Repr

/-- The part a node plays in its parent. -/
inductive Role where
  | alias
  | alternative
  | argument
  | arguments
  | attribute
  | body
  | closeTag
  | condition
  | consequence
  | constraint
  | constructor
  | declaration
  | decorator
  | finalizer
  | flags
  | function
  | handler
  | increment
  | index
  | indexType
  | initializer
  | key
  | kind
  | label
  | left
  | member
  | module
  | name
  | object
  | openTag
  | operator
  | optionalChain
  | parameter
  | parameters
  | pattern
  | property
  | returnType
  | right
  | sign
  | source
  | type
  | typeArguments
  | typeParameters
  | value
  deriving DecidableEq, Hashable, Repr

/-- All that a node is apart from its children. -/
structure Label where
  kind : Kind
  role : Option Role
  text : String
  line : Nat
  deriving DecidableEq, Repr

/-- A concrete syntax tree. -/
inductive Tree where
  | node (label : Label) (children : List Tree)

namespace Tree

def label : Tree → Label
  | node l _ => l

def children : Tree → List Tree
  | node _ cs => cs

def kind (t : Tree) : Kind := t.label.kind

def role (t : Tree) : Option Role := t.label.role

def text (t : Tree) : String := t.label.text

def line (t : Tree) : Nat := t.label.line

/-- The same node, playing another part. -/
def playing (r : Role) : Tree → Tree
  | node l cs => node { l with role := some r } cs

/-- Is this a construct of the grammar, and not a keyword or a punctuation mark? -/
def isNamed (t : Tree) : Bool := t.kind != .word

/-- The children that are constructs of the grammar, comments included. -/
def namedChildren (t : Tree) : List Tree := t.children.filter isNamed

/-- The first child that plays the given part. -/
def child? (t : Tree) (r : Role) : Option Tree := t.children.find? (·.role == some r)

/-- Is one of the children the given keyword? -/
def hasWord (t : Tree) (w : String) : Bool := t.children.any fun c => c.kind == .word && c.text == w

mutual

/-- Every node of the tree, a parent before its children and siblings in order. -/
def preorder : Tree → List Tree
  | node l cs => node l cs :: preorderAll cs

/-- The nodes of several trees, one tree after the other. -/
def preorderAll : List Tree → List Tree
  | [] => []
  | t :: ts => preorder t ++ preorderAll ts

end

@[simp] theorem preorder_node (l : Label) (cs : List Tree) :
    preorder (node l cs) = node l cs :: preorderAll cs := by
  simp [preorder]

theorem preorderAll_eq_flatMap (ts : List Tree) : preorderAll ts = ts.flatMap preorder := by
  induction ts with
  | nil => simp [preorderAll]
  | cons t ts ih => simp [preorderAll, ih]

end Tree

/-- What parses scripts: the tree of the script that some bytes hold, or the line on which it first
breaks the grammar. -/
abbrev Parser := Dialect → Text.Bytes → Except Nat Tree

end BundleReach.Script
