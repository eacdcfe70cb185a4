import CellHeap.BufferId
import CellHeap.Kind

/-!
# Faults and rejections

A fault is a recoverable condition of the data: a stale index, released
contents, a state that a kind does not admit. A rejection says why a list of
elements does not form a sequence, and which element is to blame.
-/

set_option autoImplicit false

namespace CellHeap

/-- The deepest quoting that a cell can carry. -/
def maxQuoteDepth : Nat := 126

inductive Fault where
  | outOfRange (index length : Nat)
  | dataFreed (buffer : BufferId)
  | quoteOverflow (requested : Nat)
  | quoteUnderflow (requested actual : Nat)
  | antiformNotQuotable
  | noAntiform (kind : Kind)
  | unstableAntiform (kind : Kind)
  | sigilOnAntiform (kind : Kind)
  | quotedCoercion
  | notSigilable (kind : Kind)
  | notBindable (kind : Kind)
  | notAnElement (kind : Kind)
  | frozen (buffer : BufferId)
  | fixedSize
  | constView
  | slotProtected
  | managed (buffer : BufferId)
  | elementKind (expected found : String)
  | invalidUtf8
  | missingKey
  deriving DecidableEq, Repr

def Fault.message : Fault → String
  | .outOfRange i n => "index " ++ toString i ++ " hors bornes (longueur " ++ toString n ++ ")"
  | .dataFreed b => "données libérées (" ++ b.text ++ ")"
  | .quoteOverflow r =>
    "profondeur de quote " ++ toString r ++ " > " ++ toString maxQuoteDepth
  | .quoteUnderflow r a =>
    "unquote de " ++ toString r ++ " niveau(x) sur une valeur quotée " ++ toString a ++ " fois"
  | .antiformNotQuotable => "une antiforme ne peut pas être quotée"
  | .noAntiform k => k.title ++ " n'a pas d'antiforme"
  | .unstableAntiform k => "antiforme instable (" ++ k.title ++ ") : capture meta requise"
  | .sigilOnAntiform k => "antiforme de " ++ k.title ++ " avec sigil"
  | .quotedCoercion => "coercition sur une valeur quotée"
  | .notSigilable k => k.title ++ " n'accepte pas de sigil"
  | .notBindable k => k.title ++ " n'accepte pas de binding"
  | .notAnElement k => "antiforme de " ++ k.title ++ " interdite dans une liste"
  | .frozen b => "buffer gelé (" ++ b.text ++ ")"
  | .fixedSize => "buffer de taille fixe : redimensionnement refusé"
  | .constView => "vue const : mutation refusée"
  | .slotProtected => "slot protégé"
  | .managed b => "buffer managé (" ++ b.text ++ ") : seul le GC peut le libérer"
  | .elementKind expected found =>
    "buffer de " ++ found ++ " là où " ++ expected ++ " était attendu"
  | .invalidUtf8 => "UTF-8 invalide"
  | .missingKey => "clé absente"

/-- Why one element is refused in a sequence. -/
inductive Objection where
  | notPlain
  | kind (kind : Kind)
  | interiorBlank
  | blankAtBothEnds
  | illegalSpelling
  | nesting (kind : Kind)
  deriving DecidableEq, Repr

def Objection.message : Objection → String
  | .notPlain => "élément non plain (quote, quasi, anti ou sigil)"
  | .kind k => "kind " ++ k.name ++ " interdit dans une séquence"
  | .interiorBlank => "blank au milieu de la séquence"
  | .blankAtBothEnds => "blanks en tête et en queue"
  | .illegalSpelling => "orthographe contenant `/`, `:` ou `.`"
  | .nesting k => k.name ++ " imbriqué interdit à ce niveau"

/-- Why a list of elements is no sequence. -/
inductive Rejection where
  | tooShort (length : Nat)
  | allBlank
  | element (index : Nat) (reason : Objection)
  | notSequence (kind : Kind)
  deriving DecidableEq, Repr

def Rejection.message : Rejection → String
  | .tooShort n => "séquence trop courte (" ++ toString n ++ " élément(s))"
  | .allBlank => "séquence sans contenu (que des blanks)"
  | .element i why => "élément " ++ toString i ++ " refusé : " ++ why.message
  | .notSequence k => k.title ++ " n'est pas un kind de séquence"

end CellHeap
