/-!
# Words

A word is a run of characters that are neither blanks nor among the ones
that end words. `before` and `after` are the parts of the word around a
caret.
-/
namespace LanguageClient

/-- The characters that end words besides space and tab. -/
structure WordSet where
  separators : List Char
  deriving DecidableEq, Repr

namespace WordSet

/-- The brackets, operators, quotes and punctuation marks that end words. -/
def standardSeparators : String :=
  "-+*=/\\()[]\x7b\x7d<>\"'.,:;~?!@#$%^&|`…"

/-- The words between the standard separators. -/
def standard : WordSet := ⟨standardSeparators.toList⟩

instance : Inhabited WordSet := ⟨standard⟩

def isWord (w : WordSet) (c : Char) : Bool :=
  c ≠ ' ' && c ≠ '\t' && !w.separators.contains c

def allWord (w : WordSet) (s : List Char) : Bool :=
  s.all w.isWord

/-- The part of a word that ends a text. -/
def before (w : WordSet) (s : List Char) : List Char :=
  (s.reverse.takeWhile w.isWord).reverse

def after (w : WordSet) (s : List Char) : List Char :=
  s.takeWhile w.isWord

end WordSet

end LanguageClient
