import LanguageClient.Text.CaseTable

/-!
# Lower case

The full lower-case form of a text: every character by its own mapping, `İ`
to two characters, and a capital sigma to its final form where a word ends:
some cased character stands before it, none behind it, ignorable characters
passed over.
-/
namespace LanguageClient.Lowercase

def lowerChar (c : Char) : List Char :=
  if c.toNat = 0x130 then ['i', Char.ofNat 0x307]
  else
    match CaseTable.lowerRuns.find? fun (low, high, step, _) =>
        low ≤ c.toNat && c.toNat ≤ high && (c.toNat - low) % step == 0 with
    | some (_, _, _, distance) => [Char.ofNat ((c.toNat : Int) + distance).toNat]
    | none => [c]

/-- Whether the first character that is not passed over is cased. -/
def startsCased (s : List Char) : Bool :=
  match s.dropWhile CaseTable.ignorable.contains with
  | [] => false
  | c :: _ => CaseTable.cased.contains c

/-- The lower-case form of the rest of a text behind the characters `before`, which are given
last first. -/
def lowerFrom (before : List Char) : List Char → List Char
  | [] => []
  | c :: s =>
    let lower :=
      if c = 'Σ' then
        if startsCased before && !startsCased s then ['ς'] else ['σ']
      else lowerChar c
    lower ++ lowerFrom (c :: before) s

def lower (s : List Char) : List Char :=
  lowerFrom [] s

end LanguageClient.Lowercase
