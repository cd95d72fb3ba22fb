/-!
# UTF-16 columns

Columns on the wire count UTF-16 code units: a character outside the basic
plane takes two, every other character one. `split?` cuts a text at a
column; it refuses a column past the end and one that falls between the two
units of a surrogate pair.
-/
namespace LanguageClient.Utf16

/-- The code units of one character: one, or two outside the basic plane. -/
def charLength (c : Char) : Nat :=
  if c.toNat < 0x10000 then 1 else 2

def length (s : List Char) : Nat :=
  s.foldr (fun c n => charLength c + n) 0

/-- The text before and after column `units`. -/
def split? : List Char → Nat → Option (List Char × List Char)
  | s, 0 => some ([], s)
  | [], _ + 1 => none
  | c :: s, units + 1 =>
    if charLength c ≤ units + 1 then do
      let (before, after) ← split? s (units + 1 - charLength c)
      some (c :: before, after)
    else none

@[simp] theorem length_nil : length [] = 0 := rfl

@[simp] theorem length_cons (c : Char) (s : List Char) :
    length (c :: s) = charLength c + length s := rfl

@[simp] theorem length_append (s t : List Char) : length (s ++ t) = length s + length t := by
  induction s with
  | nil => simp
  | cons c s ih => simp [ih, Nat.add_assoc]

theorem charLength_pos (c : Char) : 0 < charLength c := by
  unfold charLength
  split <;> omega

end LanguageClient.Utf16
