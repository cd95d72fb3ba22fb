import LanguageClient.Text.Ranges

/-!
# White space

The characters with the Unicode property `White_Space`, and texts without
them at their ends.
-/
namespace LanguageClient.Blank

/-- The characters with the property `White_Space`. -/
def ranges : CharRanges :=
  [(0x9, 0xD), (0x20, 0x20), (0x85, 0x85), (0xA0, 0xA0), (0x1680, 0x1680), (0x2000, 0x200A),
    (0x2028, 0x2029), (0x202F, 0x202F), (0x205F, 0x205F), (0x3000, 0x3000)]

def isBlank (c : Char) : Bool :=
  ranges.contains c

def trimStart (s : List Char) : List Char :=
  s.dropWhile isBlank

def trim (s : List Char) : List Char :=
  (trimStart (trimStart s).reverse).reverse

theorem trimStart_append {before s : List Char} (h : ∀ c ∈ before, isBlank c = true) :
    trimStart (before ++ s) = trimStart s := by
  induction before with
  | nil => rfl
  | cons c before ih =>
    rw [← ih fun d hd => h d (List.mem_cons_of_mem _ hd)]
    simp [trimStart, h c (by simp)]

theorem trimStart_eq_self {s : List Char} (h : ∀ c, s.head? = some c → isBlank c = false) :
    trimStart s = s := by
  cases s with
  | nil => rfl
  | cons c s => simp [trimStart, h c rfl]

/-- White space around a text that has none itself is cut off. -/
theorem trim_append {before s after : List Char} (hbefore : ∀ c ∈ before, isBlank c = true)
    (hs : ∀ c ∈ s, isBlank c = false) (hne : s ≠ [])
    (hafter : ∀ c ∈ after, isBlank c = true) : trim (before ++ s ++ after) = s := by
  have hstart : trimStart (s ++ after) = s ++ after := by
    cases s with
    | nil => exact absurd rfl hne
    | cons c s => exact trimStart_eq_self fun d hd => hs d (by simp_all)
  have hend : trimStart s.reverse = s.reverse := by
    exact trimStart_eq_self fun c hc => hs c (List.mem_reverse.1 (List.mem_of_mem_head? hc))
  rw [trim, List.append_assoc, trimStart_append hbefore, hstart, List.reverse_append,
    trimStart_append fun c hc => hafter c (List.mem_reverse.1 hc), hend, List.reverse_reverse]

end LanguageClient.Blank
