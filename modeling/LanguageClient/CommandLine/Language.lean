import LanguageClient.Uri.Basic

/-!
# The language of a file
-/
namespace LanguageClient.FileLanguage

def table : List (String × String) :=
  [("py", "python"), ("pyi", "python"), ("rs", "rust"), ("go", "go"), ("c", "c"), ("h", "c"),
    ("cc", "cpp"), ("cpp", "cpp"), ("cxx", "cpp"), ("hpp", "cpp"), ("js", "javascript"),
    ("mjs", "javascript"), ("ts", "typescript"), ("json", "json"), ("lua", "lua"),
    ("cs", "csharp"), ("java", "java")]

/-- What follows the last point of a name, unless that point is its first character. -/
def extension? (name : List Char) : Option (List Char) :=
  let rest := name.reverse.dropWhile (· ≠ '.')
  if rest.length ≤ 1 then none else some (name.reverse.takeWhile (· ≠ '.')).reverse

/-- The language of a file, by the extension of its name. -/
def ofPath? (path : String) : Option String := do
  let name ← (Uri.components path).getLast?
  if name = "..".toList then none
  else
    let extension ← extension? name
    table.lookup (String.ofList extension)

end LanguageClient.FileLanguage
