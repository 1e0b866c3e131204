import SshDial.Text.Blank

/-! # Lines — cutting a text into lines and putting lines together

    A text is cut where a run of characters ends (`dropWhile_cut`, `takeWhile_cut`) or at
    each separator.  Lines that are put together are what their text is cut into
    (`lines_joinLines`), so a text with a line more or less can be described by its lines. -/

namespace SshDial.Text

/-! ## Cuts -/

theorem exists_cut (p : Char → Bool) (s : List Char) :
    ∃ u v, s = u ++ v ∧ (∀ c ∈ u, p c = true) ∧ ∀ c ∈ v.head?, p c = false := by
  refine ⟨s.takeWhile p, s.dropWhile p, List.takeWhile_append_dropWhile.symm, ?_, ?_⟩
  · exact List.all_eq_true.mp List.all_takeWhile
  · intro c hc
    have hstop := List.head?_dropWhile_not p s
    rw [hc] at hstop
    exact hstop

theorem dropWhile_cut {p : Char → Bool} {u v : List Char} (hu : ∀ c ∈ u, p c = true)
    (hv : ∀ c ∈ v.head?, p c = false) : (u ++ v).dropWhile p = v := by
  rw [List.dropWhile_append_of_pos hu]
  cases v with
  | nil => rfl
  | cons c v => rw [List.dropWhile_cons, hv c rfl, if_neg Bool.false_ne_true]

theorem takeWhile_cut {p : Char → Bool} {u v : List Char} (hu : ∀ c ∈ u, p c = true)
    (hv : ∀ c ∈ v.head?, p c = false) : (u ++ v).takeWhile p = u := by
  rw [List.takeWhile_append_of_pos hu]
  cases v with
  | nil => rw [List.takeWhile_nil, List.append_nil]
  | cons c v => rw [List.takeWhile_cons, hv c rfl, if_neg Bool.false_ne_true, List.append_nil]

/-! ## Pieces between separators -/

theorem splitAt_eq_splitOn (sep : Char) (s : List Char) : splitAt sep s = s.splitOn sep := by
  induction s with
  | nil => exact (List.splitOn_nil sep).symm
  | cons c s ih =>
      rw [splitAt, ih, List.splitOn_cons_eq_if_modifyHead]
      by_cases hc : c = sep
      · rw [if_pos hc, if_pos (beq_iff_eq.mpr hc)]
      · rw [if_neg hc, if_neg (fun h => hc (beq_iff_eq.mp h))]
        cases hs : s.splitOn sep with
        | nil => exact absurd hs (List.splitOn_ne_nil sep s)
        | cons p ps => rfl

/-- A text without the separator is a piece of its own. -/
theorem splitAt_of_not_mem {sep : Char} {s : List Char} (h : sep ∉ s) : splitAt sep s = [s] := by
  rw [splitAt_eq_splitOn]
  exact List.splitOnP_eq_singleton fun c hc => beq_eq_false_iff_ne.mpr fun heq => h (heq ▸ hc)

/-- The pieces on both sides of a separator. -/
theorem splitAt_append_cons (sep : Char) (s t : List Char) :
    splitAt sep (s ++ sep :: t) = splitAt sep s ++ splitAt sep t := by
  rw [splitAt_eq_splitOn, splitAt_eq_splitOn, splitAt_eq_splitOn]
  exact List.splitOnP_append_cons s t (beq_self_eq_true sep)

/-- A text without the separator goes on with the last piece. -/
theorem exists_last_piece (sep : Char) (s : List Char) :
    ∃ ps p, splitAt sep s = ps ++ [p]
      ∧ ∀ t, sep ∉ t → splitAt sep (s ++ t) = ps ++ [p ++ t] := by
  induction s with
  | nil => exact ⟨[], [], rfl, fun t ht => splitAt_of_not_mem ht⟩
  | cons c s ih =>
      obtain ⟨ps, p, hs, hrest⟩ := ih
      by_cases hc : c = sep
      · refine ⟨[] :: ps, p, ?_, fun t ht => ?_⟩
        · rw [splitAt, if_pos hc, hs, List.cons_append]
        · rw [List.cons_append, splitAt, if_pos hc, hrest t ht, List.cons_append]
      · cases ps with
        | nil =>
            refine ⟨[], c :: p, ?_, fun t ht => ?_⟩
            · rw [splitAt, if_neg hc, hs]
              rfl
            · rw [List.cons_append, splitAt, if_neg hc, hrest t ht]
              rfl
        | cons q ps =>
            refine ⟨(c :: q) :: ps, p, ?_, fun t ht => ?_⟩
            · rw [splitAt, if_neg hc, hs]
              rfl
            · rw [List.cons_append, splitAt, if_neg hc, hrest t ht]
              rfl

/-- A piece holds characters of the text, and not the separator. -/
theorem mem_of_mem_splitAt {sep c : Char} {s p : List Char} (h : p ∈ splitAt sep s)
    (hc : c ∈ p) : c ∈ s ∧ c ≠ sep := by
  induction s generalizing p with
  | nil =>
      obtain rfl : p = [] := List.mem_singleton.mp h
      exact absurd hc List.not_mem_nil
  | cons d s ih =>
      rw [splitAt] at h
      by_cases hd : d = sep
      · rw [if_pos hd] at h
        rcases List.mem_cons.mp h with rfl | hp
        · exact absurd hc List.not_mem_nil
        · exact (ih hp hc).imp_left (List.mem_cons_of_mem d)
      · rw [if_neg hd] at h
        cases hs : splitAt sep s with
        | nil => exact absurd hs (splitAt_ne_nil sep s)
        | cons q qs =>
            rw [hs] at h ih
            rcases List.mem_cons.mp h with rfl | hp
            · rcases List.mem_cons.mp hc with rfl | hq
              · exact ⟨List.mem_cons_self, hd⟩
              · exact (ih List.mem_cons_self hq).imp_left (List.mem_cons_of_mem d)
            · exact (ih (List.mem_cons_of_mem q hp) hc).imp_left (List.mem_cons_of_mem d)

theorem not_mem_of_mem_splitAt {sep : Char} {s p : List Char} (h : p ∈ splitAt sep s) :
    sep ∉ p := fun hsep => (mem_of_mem_splitAt h hsep).2 rfl

theorem map_ofList_toList (texts : List String) :
    (texts.map String.toList).map String.ofList = texts := by
  have hid : String.ofList ∘ String.toList = id := funext fun _ => String.ofList_toList
  rw [List.map_map, hid, List.map_id]

theorem map_toList_ofList (texts : List (List Char)) :
    (texts.map String.ofList).map String.toList = texts := by
  have hid : String.toList ∘ String.ofList = id := funext fun _ => String.toList_ofList
  rw [List.map_map, hid, List.map_id]

/-! ## Lines -/

/-- The text of some lines. -/
def joinLines (ls : List (List Char)) : String := String.ofList (['\n'].intercalate ls)

/-- Lines that are put together and cut again are the same. -/
theorem lines_joinLines {ls : List (List Char)} (hne : ls ≠ [])
    (h : ∀ l ∈ ls, '\n' ∉ l) : lines (joinLines ls).toList = ls := by
  rw [joinLines, String.toList_ofList, lines, splitAt_eq_splitOn]
  exact List.splitOn_intercalate '\n' h hne

/-- The lines of two texts with a line break between them. -/
theorem lines_concat (t₁ t₂ : String) :
    lines (t₁ ++ "\n" ++ t₂).toList = lines t₁.toList ++ lines t₂.toList := by
  rw [String.toList_append, String.toList_append, List.append_assoc]
  exact splitAt_append_cons '\n' _ _

/-- The text with one more line after its first `k` lines. -/
def insertLine (source : String) (k : Nat) (line : List Char) : String :=
  joinLines ((lines source.toList).take k ++ line :: (lines source.toList).drop k)

theorem lines_insertLine (source : String) (k : Nat) {line : List Char}
    (hline : '\n' ∉ line) :
    lines (insertLine source k line).toList
      = (lines source.toList).take k ++ line :: (lines source.toList).drop k := by
  refine lines_joinLines ?_ ?_
  · exact List.append_ne_nil_of_right_ne_nil _ (List.cons_ne_nil _ _)
  · intro l hl
    rcases List.mem_append.mp hl with htake | hrest
    · exact not_mem_of_mem_splitAt (List.mem_of_mem_take htake)
    · rcases List.mem_cons.mp hrest with rfl | hdrop
      · exact hline
      · exact not_mem_of_mem_splitAt (List.mem_of_mem_drop hdrop)

end SshDial.Text
