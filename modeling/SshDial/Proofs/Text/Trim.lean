import Mathlib.Data.List.TakeWhile
import SshDial.Proofs.Text.Letters

/-! # Trimmed texts — where trimming and line breaks have nothing left to do

    A text is *snug* when it begins and ends with a character that is no white space:
    trimming leaves just these texts as they are (`IsSnug.trim_eq`, `isSnug_trim`).  It is
    *unbroken* when no character in it ends a line.  Both carry over to texts that are put
    together, so a line can be built from its parts without trimming it again.  White
    space at either end of a text is as good as none (`trim_padded`). -/

namespace SshDial.Text

/-- The text begins and ends with a character that is no white space. -/
structure IsSnug (s : List Char) : Prop where
  first : ∃ c ∈ s.head?, isBlank c = false
  last : ∃ c ∈ s.getLast?, isBlank c = false

/-- Nothing but white space. -/
def IsWhite (s : List Char) : Prop := ∀ c ∈ s, isBlank c = true

/-- No character of the text ends a line. -/
def IsUnbroken (s : List Char) : Prop := ∀ c ∈ s, isLineBreak c = false

section White

variable {a b s t : List Char}

theorem trimStart_append (ha : IsWhite a) (s : List Char) : trimStart (a ++ s) = trimStart s :=
  List.dropWhile_append_of_pos ha

/-- White space at the start of a text is dropped up to the first other character. -/
theorem trimStart_append_of_ne_nil (hne : trimStart s ≠ []) (t : List Char) :
    trimStart (s ++ t) = trimStart s ++ t := by
  rw [trimStart, List.dropWhile_append]
  exact if_neg (mt List.isEmpty_iff.mp hne)

theorem trimEnd_append (hb : IsWhite b) (s : List Char) : trimEnd (s ++ b) = trimEnd s := by
  have hrev : IsWhite b.reverse := fun c hc => hb c (List.mem_reverse.mp hc)
  have hdrop : (b.reverse ++ s.reverse).dropWhile isBlank = s.reverse.dropWhile isBlank :=
    trimStart_append hrev s.reverse
  rw [trimEnd, trimEnd, List.reverse_append, hdrop]

/-- The text in front of white space. -/
theorem exists_trimEnd_append (s : List Char) : ∃ w, IsWhite w ∧ s = trimEnd s ++ w := by
  refine ⟨(s.reverse.takeWhile isBlank).reverse, fun c hc => ?_, ?_⟩
  · exact List.all_eq_true.mp List.all_takeWhile c (List.mem_reverse.mp hc)
  · rw [trimEnd, ← List.reverse_append, List.takeWhile_append_dropWhile, List.reverse_reverse]

theorem mem_of_mem_trimEnd {c : Char} (h : c ∈ trimEnd s) : c ∈ s := by
  rw [trimEnd, List.mem_reverse] at h
  exact List.mem_reverse.mp ((List.dropWhile_suffix _).subset h)

theorem mem_of_mem_trim {c : Char} (h : c ∈ trim s) : c ∈ s :=
  (List.dropWhile_suffix _).subset (mem_of_mem_trimEnd h)

theorem trimStart_first (hne : trimStart s ≠ []) :
    ∃ c ∈ (trimStart s).head?, isBlank c = false :=
  ⟨_, List.head?_eq_some_head hne, List.head_dropWhile_not isBlank hne⟩

theorem trimEnd_last (hne : trimEnd s ≠ []) : ∃ c ∈ (trimEnd s).getLast?, isBlank c = false := by
  have hrev : (trimEnd s).reverse = trimStart s.reverse := List.reverse_reverse _
  rw [← List.head?_reverse, hrev]
  refine trimStart_first ?_
  rw [← hrev]
  exact mt List.reverse_eq_nil_iff.mp hne

/-- A text ends where its suffixes do. -/
theorem last_of_suffix (hne : t ≠ []) (hsuffix : t <:+ s) : t.getLast? = s.getLast? := by
  obtain ⟨u, rfl⟩ := hsuffix
  rw [List.getLast?_append, List.getLast?_eq_some_getLast hne, Option.some_or]

theorem trimEnd_of_isWhite (hb : IsWhite b) : trimEnd b = [] := trimEnd_append hb []

/-- White space at either end of a text is as good as none. -/
theorem trim_padded (ha : IsWhite a) (hb : IsWhite b) (s : List Char) :
    trim (a ++ s ++ b) = trim s := by
  rw [trim, trim, List.append_assoc, trimStart_append ha]
  by_cases hne : trimStart s = []
  · have hs : IsWhite s := List.dropWhile_eq_nil_iff.mp hne
    rw [trimStart_append hs, hne]
    exact trimEnd_of_isWhite fun c hc => hb c ((List.dropWhile_suffix _).subset hc)
  · rw [trimStart_append_of_ne_nil hne, trimEnd_append hb]

/-! Texts that end in a character that is no white space. -/

section Last

variable (h : ∃ c ∈ s.getLast?, isBlank c = false)

include h

/-- Trimming at the end stops at the last character that is no white space. -/
theorem trimEnd_append_of_last (t : List Char) : trimEnd (s ++ t) = s ++ trimEnd t := by
  rw [← List.head?_reverse] at h
  obtain ⟨c, hc, hblank⟩ := h
  obtain ⟨u, hu⟩ := List.head?_eq_some_iff.mp hc
  have hstop : s.reverse.dropWhile isBlank = s.reverse := by
    rw [hu]
    exact List.dropWhile_cons_of_neg (Bool.eq_false_iff.mp hblank)
  rw [trimEnd, trimEnd, List.reverse_append, List.dropWhile_append]
  split
  · rename_i hempty
    rw [hstop, List.reverse_reverse, List.isEmpty_iff.mp hempty, List.reverse_nil,
      List.append_nil]
  · rw [List.reverse_append, List.reverse_reverse]

theorem trimEnd_of_last : trimEnd s = s := by
  have hself := trimEnd_append_of_last h []
  rwa [List.append_nil, show trimEnd [] = [] from rfl, List.append_nil] at hself

theorem trimStart_ne_nil_of_last : trimStart s ≠ [] := by
  obtain ⟨c, hc, hblank⟩ := h
  intro hnil
  have hwhite : isBlank c = true :=
    List.dropWhile_eq_nil_iff.mp hnil c (List.mem_of_getLast? hc)
  exact Bool.eq_false_iff.mp hblank hwhite

theorem trimStart_last : ∃ c ∈ (trimStart s).getLast?, isBlank c = false := by
  have hne := trimStart_ne_nil_of_last h
  rw [last_of_suffix hne (List.dropWhile_suffix _)]
  exact h

theorem trim_of_last : trim s = trimStart s := trimEnd_of_last (trimStart_last h)

/-- What follows the last character that is no white space is trimmed by itself. -/
theorem trim_append_of_last (t : List Char) : trim (s ++ t) = trim s ++ trimEnd t := by
  rw [trim_of_last h, trim, trimStart_append_of_ne_nil (trimStart_ne_nil_of_last h),
    trimEnd_append_of_last (trimStart_last h)]

end Last

theorem trimEnd_append_cons {c : Char} (hc : isBlank c = false) (s t : List Char) :
    trimEnd (s ++ c :: t) = s ++ c :: trimEnd t := by
  have hlast : ∃ d ∈ (s ++ [c]).getLast?, isBlank d = false :=
    ⟨c, List.getLast?_concat, hc⟩
  have htrim := trimEnd_append_of_last hlast t
  rw [List.append_assoc, List.append_assoc] at htrim
  exact htrim

end White

section Snug

theorem isSnug_of_ends {a b : Char} (ha : isBlank a = false) (hb : isBlank b = false)
    (s : List Char) : IsSnug (a :: s ++ [b]) :=
  ⟨⟨a, rfl, ha⟩, ⟨b, List.getLast?_concat, hb⟩⟩

theorem isSnug_of_forall {s : List Char} (hne : s ≠ []) (h : ∀ c ∈ s, isBlank c = false) :
    IsSnug s := by
  constructor
  · exact ⟨s.head hne, List.head?_eq_some_head hne, h _ (List.head_mem hne)⟩
  · exact ⟨s.getLast hne, List.getLast?_eq_some_getLast hne, h _ (List.getLast_mem hne)⟩

theorem IsSnug.ne_nil {s : List Char} (h : IsSnug s) : s ≠ [] := by
  rintro rfl
  obtain ⟨c, hc, -⟩ := h.first
  exact nomatch hc

/-- Whatever stands between two snug texts. -/
theorem IsSnug.append {s t : List Char} (hs : IsSnug s) (m : List Char) (ht : IsSnug t) :
    IsSnug (s ++ m ++ t) := by
  obtain ⟨a, ha, hfirst⟩ := hs.first
  obtain ⟨b, hb, hlast⟩ := ht.last
  constructor
  · refine ⟨a, ?_, hfirst⟩
    rw [List.append_assoc, List.head?_append, Option.mem_def.mp ha]
    rfl
  · refine ⟨b, ?_, hlast⟩
    rw [List.getLast?_append, Option.mem_def.mp hb]
    rfl

/-- There is nothing to drop before a snug text. -/
theorem IsSnug.trimStart_eq {s : List Char} (h : IsSnug s) : trimStart s = s := by
  obtain ⟨c, hc, hblank⟩ := h.first
  obtain ⟨t, rfl⟩ := List.head?_eq_some_iff.mp hc
  exact List.dropWhile_cons_of_neg (Bool.eq_false_iff.mp hblank)

/-- A snug text is trimmed. -/
theorem IsSnug.trim_eq {s : List Char} (h : IsSnug s) : trim s = s := by
  rw [trim_of_last h.last, h.trimStart_eq]

/-- What trimming leaves is snug, if it leaves anything. -/
theorem isSnug_trim {s : List Char} (hne : trim s ≠ []) : IsSnug (trim s) := by
  refine ⟨?_, trimEnd_last hne⟩
  -- What is dropped at the end leaves the first character where it is.
  obtain ⟨w, -, hw⟩ : ∃ w, IsWhite w ∧ trimStart s = trim s ++ w :=
    exists_trimEnd_append (trimStart s)
  have hstart : trimStart s ≠ [] := by
    rw [hw]
    exact List.append_ne_nil_of_left_ne_nil hne w
  have hfirst := trimStart_first hstart
  rw [hw, List.head?_append, List.head?_eq_some_head hne, Option.some_or] at hfirst
  rw [List.head?_eq_some_head hne]
  exact hfirst

end Snug

section Unbroken

theorem isUnbroken_of_any {s : List Char} (h : s.any isLineBreak = false) : IsUnbroken s := by
  intro c hc
  exact Bool.eq_false_iff.mpr (List.any_eq_false.mp h c hc)

/-- A character that ends a line is white space. -/
theorem isBlank_of_isLineBreak {c : Char} (h : isLineBreak c = true) : isBlank c = true := by
  rw [isLineBreak, Bool.or_eq_true, Bool.or_eq_true, Bool.or_eq_true, beq_iff_eq, beq_iff_eq,
    beq_iff_eq, beq_iff_eq] at h
  rw [isBlank]
  rcases h with ((rfl | rfl) | h) | h
  · decide
  · decide
  · rw [h]
    decide
  · rw [h]
    decide

theorem isUnbroken_of_isBlank {s : List Char} (h : ∀ c ∈ s, isBlank c = false) :
    IsUnbroken s := by
  intro c hc
  rw [← Bool.not_eq_true]
  intro hbreak
  exact Bool.eq_false_iff.mp (h c hc) (isBlank_of_isLineBreak hbreak)

theorem IsUnbroken.any_eq {s : List Char} (h : IsUnbroken s) : s.any isLineBreak = false :=
  List.any_eq_false.mpr fun c hc => Bool.eq_false_iff.mp (h c hc)

theorem IsUnbroken.append {s t : List Char} (hs : IsUnbroken s) (ht : IsUnbroken t) :
    IsUnbroken (s ++ t) := List.forall_mem_append.mpr ⟨hs, ht⟩

theorem IsUnbroken.trim {s : List Char} (h : IsUnbroken s) : IsUnbroken (trim s) :=
  fun c hc => h c (mem_of_mem_trim hc)

/-- Unbroken pieces with something unbroken between them. -/
theorem IsUnbroken.intercalate {sep : List Char} (hsep : IsUnbroken sep)
    {pieces : List (List Char)} (h : ∀ p ∈ pieces, IsUnbroken p) :
    IsUnbroken (sep.intercalate pieces) := by
  induction pieces with
  | nil => exact fun c hc => absurd hc List.not_mem_nil
  | cons p pieces ih =>
      have hp := h p List.mem_cons_self
      have hrest := ih fun p' hp' => h p' (List.mem_cons_of_mem p hp')
      cases pieces with
      | nil =>
          rw [List.intercalate_singleton]
          exact hp
      | cons p' pieces =>
          rw [List.intercalate_cons_cons]
          exact (hp.append hsep).append hrest

/-- A text without line breaks stays on its line. -/
theorem IsUnbroken.newline_notMem {s : List Char} (h : IsUnbroken s) : '\n' ∉ s := by
  intro hmem
  exact absurd (h _ hmem) (by decide)

end Unbroken

end SshDial.Text
