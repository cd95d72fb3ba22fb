import LanguageClient.Proofs.Diff.Moves

/-!
# Compacted comparisons

Sliding is nothing but moves, so a comparison that was sound is sound when all
its deletions and insertions have been slid, however far.

* `compact_sound`: the compacted script of two sequences is sound.
-/
namespace LanguageClient.Diff

variable {α : Type} {a b : List α}

theorem kind_lengthen (x : Block) (n : Nat) : (x.lengthen n).kind = x.kind := by
  cases h : x.kind <;> simp [Block.lengthen, h]

/-- A deletion takes nothing from the new sequence that it could share with equal items. -/
theorem newItems_of_delete {o n : Nat} {x : Block} (hk : x.kind = .delete) (h : Fits a b o n x) :
    x.newItems b = [] := by
  rw [Block.newItems, ((fits_delete hk).1 h).2.1, List.take_zero]

/-- A block of equal items takes something. -/
theorem not_isEmpty {o n : Nat} {x : Block} (hk : x.kind = .equal) (h : Fits a b o n x) :
    x.isEmpty = false := by
  have := ((fits_equal hk).1 h).2.2.2.2
  simp only [Block.isEmpty, Bool.and_eq_false_iff, decide_eq_false_iff_not]
  omega

theorem reverse_keep (x : Block) (bs cs : List Block) :
    (keep x bs).reverse ++ cs = bs.reverse ++ keep x cs := by
  unfold keep
  split <;> simp

variable [DecidableEq α]

theorem commonPrefix_nil_right (a : List α) : commonPrefix a [] = 0 := by
  cases a <;> rfl

/-- A block that passes items it shares with equal ones is an insertion. -/
theorem insert_of_shared {o n : Nat} {x : Block} {c : List α} (h : Fits a b o n x)
    (hk : x.kind ≠ .equal) (hc : commonPrefix c (x.newItems b) ≠ 0 ∨
      commonSuffix c (x.newItems b) ≠ 0) : x.kind = .insert := by
  cases hx : x.kind with
  | equal => exact absurd hx hk
  | insert => rfl
  | replace => simp [Fits, hx] at h
  | delete =>
    rw [newItems_of_delete hx h] at hc
    simp [commonSuffix, commonPrefix_nil_right] at hc

/-! ## One block -/

def Cursor.blocks (c : Cursor) : List Block :=
  c.before.reverse ++ c.block :: c.after

/-- A block under way in a sound comparison. -/
structure Sliding (a b : List α) (kind : Kind) (c : Cursor) : Prop where
  sound : Sound a b c.blocks
  kind : c.block.kind = kind

theorem Sliding.up {kind : Kind} (hkind : kind ≠ .equal) (fuel : Nat) :
    ∀ c : Cursor, Sliding a b kind c → Sliding a b kind (slideUp a b fuel c) := by
  induction fuel with
  | zero => exact fun c h => h
  | succ fuel ih =>
    rintro ⟨before, y, after⟩ ⟨hs, rfl⟩
    cases before with
    | nil => exact ⟨hs, rfl⟩
    | cons x rest =>
      simp only [Cursor.blocks, List.reverse_cons, List.append_assoc, List.cons_append,
        List.nil_append] at hs
      have ht := hs.behind.1
      simp only [slideUp]
      split
      · rename_i hx
        split
        · simp only [not_isEmpty hx ht.1, Bool.false_eq_true, if_false]
          exact ⟨by simpa [Cursor.blocks] using hs, rfl⟩
        · rename_i hm
          have hi := insert_of_shared ht.2.1 hkind (.inr hm)
          refine ih _ ⟨?_, rfl⟩
          rw [Cursor.blocks, reverse_keep]
          exact hs.up hx hi rfl (Nat.pos_of_ne_zero hm)
      · rename_i hx
        split
        · rename_i hxy
          exact ih _ ⟨hs.fuse hx hxy, (kind_lengthen ..).trans hxy⟩
        · rename_i hxy
          exact ih _ ⟨hs.swap hx hkind hxy, rfl⟩

theorem Sliding.down {kind : Kind} (hkind : kind ≠ .equal) (fuel : Nat) :
    ∀ c : Cursor, Sliding a b kind c → Sliding a b kind (slideDown a b fuel c) := by
  induction fuel with
  | zero => exact fun c h => h
  | succ fuel ih =>
    rintro ⟨before, x, after⟩ ⟨hs, rfl⟩
    cases after with
    | nil => exact ⟨hs, rfl⟩
    | cons y rest =>
      simp only [Cursor.blocks] at hs
      have ht := hs.behind.1
      simp only [slideDown]
      split
      · rename_i hy
        split
        · simp only [not_isEmpty hy ht.2.1, Bool.false_eq_true, if_false]
          exact ⟨hs, rfl⟩
        · rename_i hm
          have hi := insert_of_shared ht.1 hkind (.inl hm)
          exact ih _ ⟨hs.down hi hy rfl (Nat.pos_of_ne_zero hm), rfl⟩
      · rename_i hy
        split
        · rename_i hxy
          exact ih _ ⟨hs.fuse hkind hxy.symm, kind_lengthen ..⟩
        · rename_i hxy
          refine ih _ ⟨?_, rfl⟩
          simpa [Cursor.blocks] using hs.swap hkind hy (Ne.symm hxy)

theorem Sliding.slide {kind : Kind} (hkind : kind ≠ .equal) {c : Cursor}
    (h : Sliding a b kind c) : Sliding a b kind (slide a b c) :=
  down hkind _ _ (up hkind _ c h)

/-! ## All blocks -/

theorem slideAll_sound {kind : Kind} (hkind : kind ≠ .equal) (fuel : Nat) :
    ∀ done rest : List Block, Sound a b (done.reverse ++ rest) →
      Sound a b (slideAll a b kind fuel done rest) := by
  induction fuel with
  | zero => exact fun done rest h => h
  | succ fuel ih =>
    intro done rest h
    cases rest with
    | nil => simpa [slideAll] using h
    | cons x rest =>
      simp only [slideAll]
      split
      · rename_i hx
        have hs := (Sliding.slide (c := ⟨done, x, rest⟩) hkind ⟨h, hx⟩).sound
        exact ih _ _ (by simpa [Cursor.blocks] using hs)
      · exact ih _ _ (by simpa using h)

theorem compact_keeps {bs : List Block} (h : Sound a b bs) : Sound a b (compact a b bs) :=
  slideAll_sound (by decide) _ _ _ (slideAll_sound (by decide) _ _ _ h)

/-! ## The script to begin with -/

/-- In a shortest comparison that records every deletion where it is, the deletions have nothing
in common with what comes before them since the last equal items: `m` are the blocks since, and
`starts` the deletions recorded among them. -/
theorem clear_of_shortest {p m rest : List Block} {starts : List Nat}
    (h : Covers a b (p ++ m ++ rest)) (hs : cost (p ++ m ++ rest) = dist a b)
    (hm : ∀ x ∈ m, x.kind ≠ .equal) (hp : InPlace (newTotal (p ++ m)) rest)
    (hst : ∀ s ∈ starts, newTotal p ≤ s ∧ s ≤ newTotal (p ++ m)) :
    Clear a b (newTotal (p ++ m)) starts rest := by
  induction rest generalizing p m starts with
  | nil => trivial
  | cons x rest ih =>
    obtain ⟨hx, hp⟩ := hp
    have hsnoc : p ++ m ++ x :: rest = p ++ (m ++ [x]) ++ rest := by simp
    have htotal : newTotal (p ++ (m ++ [x])) = newTotal (p ++ m) + x.newLength := by
      simp [Nat.add_assoc]
    have hstarts : x.kind = .delete →
        ∀ s ∈ x.newStart :: starts, newTotal p ≤ s ∧ s ≤ newTotal (p ++ m) := by
      intro hk s hs
      rcases List.mem_cons.1 hs with rfl | hs
      · rw [hx hk, newTotal_append]
        omega
      · exact hst s hs
    have hfits : Fits a b (0 + oldTotal (p ++ m)) (0 + newTotal (p ++ m)) x :=
      ((tiles_append a b (p ++ m) (x :: rest)).1 h.tiles).2.1
    have hsnocm : x.kind ≠ .equal → ∀ y ∈ m ++ [x], y.kind ≠ .equal := by
      intro hk
      simpa [or_imp, forall_and, hk] using hm
    refine ⟨fun hk s hmem => ?_, ?_⟩
    · obtain ⟨hlow, hhigh⟩ := hstarts hk s hmem
      obtain ⟨ho, hn, -⟩ := (fits_delete hk).1 hfits
      rw [newTotal_append] at hhigh
      have hnew : newTotal (m ++ [x]) = (s - newTotal p) + (newTotal p + newTotal m - s) := by
        simp only [newTotal_append, newTotal_cons, newTotal_nil]
        omega
      have hd : ∀ z ∈ x.oldItems a, z ∉ stretch b s (newTotal p + newTotal m - s) := by
        intro z hz hz'
        rw [Block.oldItems, ho, Nat.zero_add, oldTotal_append] at hz
        rw [hsnoc] at h hs
        refine disjoint_of_shortest h hs (hsnocm (by simp [hk])) (z := z) ?_ ?_
        · rw [oldTotal_append, oldTotal_cons, stretch_add]
          exact List.mem_append_right _ hz
        · rw [hnew, stretch_add, Nat.add_sub_cancel' hlow]
          exact List.mem_append_right _ hz'
      have hapart := Apart.of_disjoint hd
      rwa [Nat.add_sub_cancel' hhigh, ← newTotal_append] at hapart
    · by_cases hk : x.kind = .equal
      · rw [recorded_of_equal hk]
        have hrest : Clear a b (newTotal (p ++ m ++ [x] ++ [])) [] rest :=
          ih (by simpa using h) (by simpa using hs) (by simp) (by simpa [Nat.add_assoc] using hp)
            (by simp)
        simpa [Nat.add_assoc] using hrest
      · rw [← htotal] at hp ⊢
        rw [hsnoc] at h hs
        refine ih h hs (hsnocm hk) hp ?_
        intro s hs'
        have : newTotal p ≤ s ∧ s ≤ newTotal (p ++ m) := by
          by_cases hd : x.kind = .delete
          · rw [recorded_of_delete hd] at hs'
            exact hstarts hd s hs'
          · refine hst s ?_
            unfold recorded at hs'
            split at hs'
            · cases hs'
            · exact absurd ‹_› hd
            · exact hs'
        omega

theorem sorted_of_inPlace {n : Nat} {bs : List Block} (h : InPlace n bs) :
    (∀ s ∈ deletions bs, n ≤ s) ∧ (deletions bs).Pairwise (· ≤ ·) := by
  induction bs generalizing n with
  | nil => simp
  | cons x bs ih =>
    obtain ⟨hx, h⟩ := h
    obtain ⟨hle, hsorted⟩ := ih h
    by_cases hk : x.kind = .delete
    · rw [deletions_cons_delete hk, hx hk]
      refine ⟨?_, List.pairwise_cons.2 ⟨fun s hs => ?_, hsorted⟩⟩
      · intro s hs
        rcases List.mem_cons.1 hs with rfl | hs
        · exact Nat.le_refl _
        · exact Nat.le_trans (Nat.le_add_right ..) (hle s hs)
      · exact Nat.le_trans (Nat.le_add_right ..) (hle s hs)
    · rw [deletions_cons_of_ne hk]
      exact ⟨fun s hs => Nat.le_trans (Nat.le_add_right ..) (hle s hs), hsorted⟩

theorem script_sound (a b : List α) : Sound a b (script a b) := by
  obtain ⟨ht, ho, hn, hs, hp⟩ := script_compares a b
  refine ⟨⟨ht, ho, hn⟩, hs, ?_, (sorted_of_inPlace hp).2⟩
  exact clear_of_shortest (p := []) (m := []) ⟨ht, ho, hn⟩ hs (by simp) hp (by simp)

/-- **Compaction.** The compacted script of two sequences is a shortest comparison, in which no
deletion has anything in common with the new items between it and where it is recorded. -/
theorem compact_sound (a b : List α) : Sound a b (compact a b (script a b)) :=
  compact_keeps (script_sound a b)

end LanguageClient.Diff
