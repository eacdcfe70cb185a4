/-!
# Kinds

The kind of a cell says which payload it holds and which states it may be in.
Kinds are numbered 1 to 27. The code 0 stands for an erased cell and the codes
from 252 on are kept for sigils, so neither names a kind. A typeset is a set of
kinds with one bit for each code.
-/

set_option autoImplicit false

namespace CellHeap

inductive Kind where
  | blank | comma | integer | decimal | percent | rune | blob
  | text | file | email | url | tag
  | word | block | group | fence
  | tuple | chain | path | pair
  | object | module | error | frame
  | parameter | handle | map
  deriving DecidableEq, Repr, Inhabited

/-- What a kind becomes as an antiform. -/
inductive Antiform where
  | keyword | splice | action | trash | pack | raised | ghost
  deriving DecidableEq, Repr

/-- A stable antiform may live in an ordinary variable. -/
def Antiform.isStable : Antiform → Bool
  | .pack | .raised | .ghost => false
  | .keyword | .splice | .action | .trash => true

def Antiform.title : Antiform → String
  | .keyword => "Keyword"
  | .splice => "Splice"
  | .action => "Action"
  | .trash => "Trash"
  | .pack => "Pack"
  | .raised => "Raised"
  | .ghost => "Ghost"

def Antiform.all : List Antiform :=
  [.keyword, .splice, .action, .trash, .pack, .raised, .ghost]

namespace Kind

/-- All kinds in the order of their codes. -/
def all : List Kind :=
  [.blank, .comma, .integer, .decimal, .percent, .rune, .blob, .text, .file, .email, .url, .tag,
   .word, .block, .group, .fence, .tuple, .chain, .path, .pair, .object, .module, .error, .frame,
   .parameter, .handle, .map]

def code : Kind → Nat
  | .blank => 1
  | .comma => 2
  | .integer => 3
  | .decimal => 4
  | .percent => 5
  | .rune => 6
  | .blob => 7
  | .text => 8
  | .file => 9
  | .email => 10
  | .url => 11
  | .tag => 12
  | .word => 13
  | .block => 14
  | .group => 15
  | .fence => 16
  | .tuple => 17
  | .chain => 18
  | .path => 19
  | .pair => 20
  | .object => 21
  | .module => 22
  | .error => 23
  | .frame => 24
  | .parameter => 25
  | .handle => 26
  | .map => 27

/-- The first code kept for sigils. -/
def sigilCodeBase : Nat := 252

def ofCode? (n : Nat) : Option Kind :=
  if n = 0 ∨ sigilCodeBase ≤ n then none else all[n - 1]?

/-- The name of a kind as values write it. -/
def name : Kind → String
  | .blank => "blank!"
  | .comma => "comma!"
  | .integer => "integer!"
  | .decimal => "decimal!"
  | .percent => "percent!"
  | .rune => "rune!"
  | .blob => "blob!"
  | .text => "text!"
  | .file => "file!"
  | .email => "email!"
  | .url => "url!"
  | .tag => "tag!"
  | .word => "word!"
  | .block => "block!"
  | .group => "group!"
  | .fence => "fence!"
  | .tuple => "tuple!"
  | .chain => "chain!"
  | .path => "path!"
  | .pair => "pair!"
  | .object => "object!"
  | .module => "module!"
  | .error => "error!"
  | .frame => "frame!"
  | .parameter => "parameter!"
  | .handle => "handle!"
  | .map => "map!"

/-- The name of a kind as messages and exchanged data write it. -/
def title : Kind → String
  | .blank => "Blank"
  | .comma => "Comma"
  | .integer => "Integer"
  | .decimal => "Decimal"
  | .percent => "Percent"
  | .rune => "Rune"
  | .blob => "Blob"
  | .text => "Text"
  | .file => "File"
  | .email => "Email"
  | .url => "Url"
  | .tag => "Tag"
  | .word => "Word"
  | .block => "Block"
  | .group => "Group"
  | .fence => "Fence"
  | .tuple => "Tuple"
  | .chain => "Chain"
  | .path => "Path"
  | .pair => "Pair"
  | .object => "Object"
  | .module => "Module"
  | .error => "Error"
  | .frame => "Frame"
  | .parameter => "Parameter"
  | .handle => "Handle"
  | .map => "Map"

def ofName? (s : String) : Option Kind := all.find? (·.name == s)

def isString : Kind → Bool
  | .text | .file | .email | .url | .tag => true
  | _ => false

def isList : Kind → Bool
  | .block | .group | .fence => true
  | _ => false

def isSequence : Kind → Bool
  | .tuple | .chain | .path => true
  | _ => false

def isContext : Kind → Bool
  | .object | .module | .error | .frame => true
  | _ => false

/-- Kinds whose payload is a position in a buffer. -/
def isSeries (k : Kind) : Bool := k.isString || k.isList || k == .blob

def isSigilable (k : Kind) : Bool := k == .word || k.isList || k.isSequence

def isBindable (k : Kind) : Bool := k == .word || k.isList || k.isSequence

def isNumber : Kind → Bool
  | .integer | .decimal | .percent => true
  | _ => false

def antiform? : Kind → Option Antiform
  | .word => some .keyword
  | .group => some .splice
  | .frame => some .action
  | .blank => some .trash
  | .block => some .pack
  | .error => some .raised
  | .comma => some .ghost
  | _ => none

/-- The character between the elements of a sequence. -/
def delimiter? : Kind → Option Char
  | .tuple => some '.'
  | .chain => some ':'
  | .path => some '/'
  | _ => none

end Kind

/-- Bits that are no code of a kind are kept, and count when the set is tested for emptiness. -/
structure Typeset where
  bits : UInt32
  deriving DecidableEq, Repr

namespace Typeset

def empty : Typeset := ⟨0⟩

def insert (t : Typeset) (k : Kind) : Typeset := ⟨t.bits ||| (1 <<< k.code.toUInt32)⟩

def ofList (ks : List Kind) : Typeset := ks.foldl insert empty

def contains (t : Typeset) (k : Kind) : Bool := t.bits &&& (1 <<< k.code.toUInt32) != 0

def isEmpty (t : Typeset) : Bool := t.bits == 0

def toList (t : Typeset) : List Kind := Kind.all.filter t.contains

end Typeset

end CellHeap
