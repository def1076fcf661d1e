import BundleReach.Script.Lexeme
import BundleReach.Script.Automaton.State

/-!
# Clashes between tokens

Two states can share what they read only if the tokens of one do not get in the way of those of
the other.  A token gets in the way of another one if its lexemes begin with those of the other: it
would be read where the other one is meant.

* `Token.extendsOver` — does a token's lexeme begin with another one's?
* `Clashes` — for each token, the tokens that it gets in the way of, and those with which it shares
  a beginning at all.
-/

namespace BundleReach.Script

namespace Token

/-- Does the token swallow almost any text? -/
def isGreedy : Token → Bool
  | stringPiece _ | markupPiece _ | regexPattern => true
  | _ => false

/-- Is the token the given word? -/
def isWord (text : String) : Token → Bool
  | word t => t == text
  | _ => false

/-- Is the token the mark of a division, or longer than it? -/
def beginsWithSlash : Token → Bool
  | word text => text.startsWith "/"
  | comment => true
  | _ => false

/-- Does a lexeme of the first token begin with one of the second token?  If both are marks,
`follows` tells which characters may follow the second one. -/
def extendsOver (follows : Char → Bool) (t e : Token) : Bool :=
  if t == e then false
  else if t.isGreedy || e == regexPattern then true
  else match t, e with
    | word a, word b =>
      if startsWithWord a b then
        t.isKeyword || (((a.toList.drop b.length).head?).map follows).getD false
      else false
    | number, word b => b == "." && follows '0'
    | word a, regexFlags => t.isKeyword && a != ""
    | word a, identifier => t.isKeyword || a == "$\x7b"
    | word a, regexEnd => a.startsWith "/"
    | regexFlags, e => e == identifier || e.isKeyword
    | identifier, e => e == regexFlags || e.isKeyword
    | hyphenName, e => e == identifier || e == regexFlags || e.isKeyword
    | staticGetLine, e => e == identifier || e == regexFlags || e.isWord "static"
    | comment, e => e.isWord "/" || e == regexEnd
    | regexEnd, e => e.beginsWithSlash
    | characterReference, e => e.isWord "&"
    | escape, e => e == identifier
    | _, _ => false
where
  /-- Is the second text a proper beginning of the first one? -/
  startsWithWord (a b : String) : Bool := a != b && a.startsWith b

end Token

/-- What gets in the way of what. -/
structure Clashes where
  /-- For each token, the tokens that it gets in the way of. -/
  blocked : Array TokenSet
  /-- For each token, the tokens whose lexemes share a beginning with its own. -/
  overlapping : Array TokenSet

namespace Clashes

/-- The tokens that may follow each token. -/
def followers (t : Items) : Array TokenSet :=
  let g := t.grammar
  let pairs := (Items.productionsOf g).flatMap fun (_, p) =>
    p.steps.zip (p.steps.drop 1) |>.map fun (a, b) => (g.number a.symbol, g.number b.symbol)
  let distinct := (Std.HashSet.ofList pairs).toList
  distinct.foldl (fun sets (a, b) =>
    ((t.last.getD a .empty).toList g.tokens.size).foldl (fun sets token =>
      sets.modify token (·.union (t.first.getD b .empty))) sets)
    (Array.replicate g.tokens.size TokenSet.empty)

/-- May the character begin what follows a token?  A comment may follow every token. -/
def mayFollow (g : Grammar) (followers : Array TokenSet) (token : Nat) (c : Char) : Bool :=
  c == '/' || ((followers.getD token .empty).toList g.tokens.size).any fun n =>
    ((g.tokens[n]?).map (·.canBegin c)).getD false

/-- The tokens of a grammar that satisfy a condition. -/
def tokensWhere (g : Grammar) (p : Nat → Token → Bool) : TokenSet :=
  TokenSet.ofList ((g.tokens.toList.zipIdx.filter fun (t, n) => p n t).map (·.2))

/-- The clashes of a grammar. -/
def ofItems (t : Items) : Clashes :=
  let g := t.grammar
  let follow := followers t
  let overruns (a : Token) (n : Nat) (b : Token) : Bool :=
    a.isPlain && b.isPlain && a.extendsOver (mayFollow g follow n) b
  let shares (a b : Token) : Bool :=
    a.isPlain && b.isPlain &&
      (a.extendsOver (fun _ => true) b || b.extendsOver (fun _ => true) a)
  { blocked := g.tokens.map fun a => tokensWhere g fun n b => overruns a n b
    overlapping := g.tokens.map fun a => tokensWhere g fun _ b => shares a b }

end Clashes

end BundleReach.Script
