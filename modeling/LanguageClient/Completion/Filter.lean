import LanguageClient.Completion.Item
import LanguageClient.Text.Lowercase

/-!
# Filtering and ranking completion items

An item stays if its label contains what has been typed, letter case aside.
The better the match the earlier the item: first the label itself, then a
label that contains the text as typed, then the label itself with other
letter case, then a label that starts with the text, then one that does with
other letter case. Items that match equally well stay in the server's order.
-/
namespace LanguageClient.Completion

def occursIn (needle : List Char) : List Char → Bool
  | [] => needle.isEmpty
  | c :: s => needle.isPrefixOf (c :: s) || occursIn needle s

/-- How well a label matches, the most important part first. -/
abbrev Rank := List Bool

def rank (label typed : List Char) : Rank :=
  let lowerLabel := Lowercase.lower label
  let lowerTyped := Lowercase.lower typed
  [label == typed, occursIn typed label, lowerLabel == lowerTyped, typed.isPrefixOf label,
    lowerTyped.isPrefixOf lowerLabel]

/-- Whether a rank is at least as good as another. -/
def atLeast : Rank → Rank → Bool
  | a :: as, b :: bs => if a = b then atLeast as bs else a
  | _, _ => true

/-- Whether a label contains a typed text, letter case aside. -/
def isKept (typed label : List Char) : Bool :=
  occursIn (Lowercase.lower typed) (Lowercase.lower label)

/-- The items that match a typed text, the best first. -/
def filter (items : List CompletionItem) (typed : List Char) : List CompletionItem :=
  (items.filter fun item => isKept typed item.label.toList).mergeSort fun a b =>
    atLeast (rank a.label.toList typed) (rank b.label.toList typed)

end LanguageClient.Completion
