import LanguageClient.Completion.Words

/-!
# How completion is set up
-/
namespace LanguageClient

/-- What ends words, and whether a call gets parentheses when it is inserted. -/
structure CompletionSettings where
  words : WordSet
  callParens : Bool
  deriving DecidableEq, Repr

namespace CompletionSettings

/-- The standard words, with parentheses. -/
def standard : CompletionSettings := ⟨.standard, true⟩

instance : Inhabited CompletionSettings := ⟨standard⟩

end CompletionSettings

end LanguageClient
