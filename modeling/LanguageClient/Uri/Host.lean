import LanguageClient.Text.Ranges
import LanguageClient.Text.Utf8

/-!
# The host of a uri

A path on this machine has no host in its uri, or the host `localhost`. Host
names are compared in their folded form: percent escapes decoded, letters
in lower case, characters that are only another shape of a letter replaced
by it, and invisible ones left out.
-/
namespace LanguageClient.Uri

def hexValue? (b : UInt8) : Option UInt8 :=
  if 0x30 ≤ b ∧ b ≤ 0x39 then some (b - 0x30)
  else if 0x41 ≤ b ∧ b ≤ 0x46 then some (b - 0x37)
  else if 0x61 ≤ b ∧ b ≤ 0x66 then some (b - 0x57)
  else none

/-- The bytes with every percent sign and two hexadecimal digits replaced by the byte they stand
for; a percent sign without two digits stays. -/
def percentDecode : List UInt8 → List UInt8
  | 0x25 :: a :: b :: s =>
    match hexValue? a, hexValue? b with
    | some x, some y => (x * 16 + y) :: percentDecode s
    | _, _ => 0x25 :: percentDecode (a :: b :: s)
  | b :: s => b :: percentDecode s
  | [] => []

/-- The characters that are another shape of some of the letters of `localhost`. -/
def letterShapes : List (String × List Nat) :=
  [("a", [0xAA, 0x1D2C, 0x1D43, 0x2090, 0x24B6, 0x24D0, 0xFF21, 0xFF41, 0x1CCD6, 0x1D400,
      0x1D41A, 0x1D434, 0x1D44E, 0x1D468, 0x1D482, 0x1D49C, 0x1D4B6, 0x1D4D0, 0x1D4EA, 0x1D504,
      0x1D51E, 0x1D538, 0x1D552, 0x1D56C, 0x1D586, 0x1D5A0, 0x1D5BA, 0x1D5D4, 0x1D5EE, 0x1D608,
      0x1D622, 0x1D63C, 0x1D656, 0x1D670, 0x1D68A, 0x1F130]),
    ("o", [0xBA, 0x1D3C, 0x1D52, 0x2092, 0x2134, 0x24C4, 0x24DE, 0xFF2F, 0xFF4F, 0x1CCE4,
      0x1D40E, 0x1D428, 0x1D442, 0x1D45C, 0x1D476, 0x1D490, 0x1D4AA, 0x1D4DE, 0x1D4F8, 0x1D512,
      0x1D52C, 0x1D546, 0x1D560, 0x1D57A, 0x1D594, 0x1D5AE, 0x1D5C8, 0x1D5E2, 0x1D5FC, 0x1D616,
      0x1D630, 0x1D64A, 0x1D664, 0x1D67E, 0x1D698, 0x1F13E]),
    ("s", [0x17F, 0x2E2, 0x209B, 0x24C8, 0x24E2, 0xA7F1, 0xFF33, 0xFF53, 0x1CCE8, 0x1D412,
      0x1D42C, 0x1D446, 0x1D460, 0x1D47A, 0x1D494, 0x1D4AE, 0x1D4C8, 0x1D4E2, 0x1D4FC, 0x1D516,
      0x1D530, 0x1D54A, 0x1D564, 0x1D57E, 0x1D598, 0x1D5B2, 0x1D5CC, 0x1D5E6, 0x1D600, 0x1D61A,
      0x1D634, 0x1D64E, 0x1D668, 0x1D682, 0x1D69C, 0x1F142]),
    ("h", [0x2B0, 0x1D34, 0x2095, 0x210B, 0x210C, 0x210D, 0x210E, 0x24BD, 0x24D7, 0xFF28,
      0xFF48, 0x1CCDD, 0x1D407, 0x1D421, 0x1D43B, 0x1D46F, 0x1D489, 0x1D4BD, 0x1D4D7, 0x1D4F1,
      0x1D525, 0x1D559, 0x1D573, 0x1D58D, 0x1D5A7, 0x1D5C1, 0x1D5DB, 0x1D5F5, 0x1D60F, 0x1D629,
      0x1D643, 0x1D65D, 0x1D677, 0x1D691, 0x1F137]),
    ("l", [0x2E1, 0x1D38, 0x2097, 0x2112, 0x2113, 0x216C, 0x217C, 0x24C1, 0x24DB, 0xFF2C,
      0xFF4C, 0x1CCE1, 0x1D40B, 0x1D425, 0x1D43F, 0x1D459, 0x1D473, 0x1D48D, 0x1D4C1, 0x1D4DB,
      0x1D4F5, 0x1D50F, 0x1D529, 0x1D543, 0x1D55D, 0x1D577, 0x1D591, 0x1D5AB, 0x1D5C5, 0x1D5DF,
      0x1D5F9, 0x1D613, 0x1D62D, 0x1D647, 0x1D661, 0x1D67B, 0x1D695, 0x1F13B]),
    ("t", [0x1D40, 0x1D57, 0x209C, 0x24C9, 0x24E3, 0xFF34, 0xFF54, 0x1CCE9, 0x1D413, 0x1D42D,
      0x1D447, 0x1D461, 0x1D47B, 0x1D495, 0x1D4AF, 0x1D4C9, 0x1D4E3, 0x1D4FD, 0x1D517, 0x1D531,
      0x1D54B, 0x1D565, 0x1D57F, 0x1D599, 0x1D5B3, 0x1D5CD, 0x1D5E7, 0x1D601, 0x1D61B, 0x1D635,
      0x1D64F, 0x1D669, 0x1D683, 0x1D69D, 0x1F143]),
    ("c", [0x1D9C, 0x2102, 0x212D, 0x216D, 0x217D, 0x24B8, 0x24D2, 0xA7F2, 0xFF23, 0xFF43,
      0x1CCD8, 0x1D402, 0x1D41C, 0x1D436, 0x1D450, 0x1D46A, 0x1D484, 0x1D49E, 0x1D4B8, 0x1D4D2,
      0x1D4EC, 0x1D520, 0x1D554, 0x1D56E, 0x1D588, 0x1D5A2, 0x1D5BC, 0x1D5D6, 0x1D5F0, 0x1D60A,
      0x1D624, 0x1D63E, 0x1D658, 0x1D672, 0x1D68C, 0x1F12B, 0x1F132]),
    ("cal", [0x3388]),
    ("st", [0xFB05, 0xFB06])]

/-- The characters that are not seen in a host name. -/
def invisible : CharRanges :=
  [(0xAD, 0xAD), (0x34F, 0x34F), (0x180B, 0x180D), (0x180F, 0x180F), (0x200B, 0x200B),
    (0x2060, 0x2060), (0x2064, 0x2064), (0xFE00, 0xFE0F), (0xFEFF, 0xFEFF), (0xE0100, 0xE01EF)]

def foldChar (c : Char) : List Char :=
  if c.toNat < 0x80 then [c.toLower]
  else if invisible.contains c then []
  else
    match letterShapes.find? fun (_, shapes) => shapes.contains c.toNat with
    | some (letters, _) => letters.toList
    | none => [c]

/-- The folded form of a host name, if its bytes are text. -/
def foldHost? (host : List Char) : Option (List Char) :=
  (Utf8.decode? (percentDecode (Utf8.encode host))).map fun s => s.flatMap foldChar

def isLocalhost (host : List Char) : Bool :=
  foldHost? host = some "localhost".toList

/-- The characters that no host name has. -/
def isForbidden (c : Char) : Bool :=
  c.toNat ≤ 0x20 || c.toNat = 0x7F || "#/:<>?@[\\]^|%".toList.contains c

/-- Whether a host is a name, as far as its characters go. -/
def isHostName (host : List Char) : Bool :=
  match foldHost? host with
  | some s => !s.isEmpty && !s.any isForbidden
  | none => false

end LanguageClient.Uri
