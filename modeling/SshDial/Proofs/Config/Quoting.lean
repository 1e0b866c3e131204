import Mathlib.Data.List.Forall2
import SshDial.Config.Line
import SshDial.Proofs.Text.Lines
import SshDial.Proofs.Text.Trim

/-! # Quoting — words and pattern lists that are written and read again

    `Quoted s w` is the reverse of reading one word: `s` is written as `w`, in quoted
    pieces of either kind, and there are many such `w`.  Words between blanks are read back
    one by one (`scan_joined`), whatever they hold, and so are the patterns of a list
    between commas (`splitList_listed`). -/

namespace SshDial.Words

open SshDial.Text

/-- The text `s` is written as `w`: one quoted piece after the other, and within a piece
    anything but the quote that ends it.  There is a piece at least, for a word without
    characters has its quotes still. -/
inductive Quoted : List Char → List Char → Prop where
  | piece {q : Char} {s : List Char} : isQuote q = true → q ∉ s → Quoted s (q :: s ++ [q])
  | append {s s' w w' : List Char} : Quoted s w → Quoted s' w' → Quoted (s ++ s') (w ++ w')

/-- Some words with a blank between each two. -/
def joined (ws : List (List Char)) : List Char := [' '].intercalate ws

/-- Can the character stand in a word without quotes, also at its beginning? -/
def isBare (c : Char) : Bool := !isQuote c && !isBlank c && c != '#'

/-- The word `w` stands for `s` on a line: it is read as `s` wherever it begins, and it
    needs no trimming. -/
structure IsWord (s w : List Char) : Prop where
  read : ∀ t, scan none none (w ++ t) = scan none (some s) t
  snug : IsSnug w
  unbroken : IsUnbroken w

/-- The text in double quotes, but for the double quotes in it, which stand in single
    ones. -/
def quote (s : List Char) : List Char :=
  ['\'', '"', '\''].intercalate ((splitAt '"' s).map fun p => '"' :: p ++ ['"'])

theorem quoted_intercalate {pieces : List (List Char)} (hne : pieces ≠ [])
    (h : ∀ p ∈ pieces, '"' ∉ p) :
    Quoted (['"'].intercalate pieces)
      (['\'', '"', '\''].intercalate (pieces.map fun p => '"' :: p ++ ['"'])) := by
  induction pieces with
  | nil => exact absurd rfl hne
  | cons p pieces ih =>
      obtain ⟨hp, hlater⟩ := List.forall_mem_cons.mp h
      have hpiece : Quoted p ('"' :: p ++ ['"']) := .piece rfl hp
      cases pieces with
      | nil =>
          rw [List.map_singleton, List.intercalate_singleton, List.intercalate_singleton]
          exact hpiece
      | cons p' pieces =>
          have hquote : Quoted ['"'] (['\''] ++ ['"'] ++ ['\'']) := .piece rfl (by decide)
          rw [List.map_cons, List.map_cons, List.intercalate_cons_cons,
            List.intercalate_cons_cons]
          exact (hpiece.append hquote).append (ih (List.cons_ne_nil _ _) hlater)

/-- Every text can be written. -/
theorem quoted_quote (s : List Char) : Quoted s (quote s) := by
  have hpieces := quoted_intercalate (splitAt_ne_nil '"' s) fun p hp => not_mem_of_mem_splitAt hp
  rw [intercalate_splitAt] at hpieces
  exact hpieces

section Characters

theorem quote_or_quote {q : Char} (h : isQuote q = true) : q = '"' ∨ q = '\'' := by
  rw [isQuote, Bool.or_eq_true, beq_iff_eq, beq_iff_eq] at h
  exact h

theorem isBlank_of_isQuote {q : Char} (h : isQuote q = true) : isBlank q = false := by
  rcases quote_or_quote h with rfl | rfl
  · decide
  · decide

theorem gap_or_gap {c : Char} (h : isGap c = true) : c = ' ' ∨ c = '\t' := by
  rw [isGap, Bool.or_eq_true, beq_iff_eq, beq_iff_eq] at h
  exact h

theorem isBlank_of_isGap {c : Char} (h : isGap c = true) : isBlank c = true := by
  rcases gap_or_gap h with rfl | rfl
  · decide
  · decide

theorem isBlank_of_isBare {c : Char} (h : isBare c = true) : isBlank c = false := by
  rw [isBare, Bool.and_eq_true, Bool.and_eq_true, Bool.not_eq_true', Bool.not_eq_true'] at h
  exact h.1.2

end Characters

section Reading

/-- A quote opens a piece, and begins a word if none has begun. -/
theorem scan_quote {q : Char} (h : isQuote q = true) (word : Option (List Char))
    (t : List Char) : scan none word (q :: t) = scan (some q) (some (word.getD [])) t := by
  cases word with
  | none => rw [scan, if_pos h]
  | some v => rw [scan, if_pos h]

/-- A character that is no quote and no gap goes on with the word, or begins one unless a
    comment would begin there. -/
theorem scan_char {c : Char} (hquote : isQuote c = false) (hgap : isGap c = false)
    {word : Option (List Char)} (hfirst : word = none → c ≠ '#') (t : List Char) :
    scan none word (c :: t) = scan none (some (word.getD [] ++ [c])) t := by
  have hcomment : ¬(c = '#' ∧ word = none) := fun h => hfirst h.2 h.1
  cases word with
  | none => rw [scan, if_neg (Bool.eq_false_iff.mp hquote), if_neg (Bool.eq_false_iff.mp hgap),
      if_neg hcomment]
  | some v => rw [scan, if_neg (Bool.eq_false_iff.mp hquote), if_neg (Bool.eq_false_iff.mp hgap),
      if_neg hcomment]

/-- A bare character goes on with the word, or begins one. -/
theorem scan_bare {c : Char} (h : isBare c = true) (word : Option (List Char))
    (t : List Char) : scan none word (c :: t) = scan none (some (word.getD [] ++ [c])) t := by
  have hgap : isGap c = false := by
    rw [← Bool.not_eq_true]
    intro hgap
    exact Bool.eq_false_iff.mp (isBlank_of_isBare h) (isBlank_of_isGap hgap)
  rw [isBare, Bool.and_eq_true, Bool.and_eq_true, Bool.not_eq_true', bne_iff_ne] at h
  exact scan_char h.1.1 hgap (fun _ => h.2) t

/-- Inside quotes everything up to the quote belongs to the word. -/
theorem scan_inside {q : Char} {s : List Char} (h : q ∉ s) (v t : List Char) :
    scan (some q) (some v) (s ++ q :: t) = scan none (some (v ++ s)) t := by
  induction s generalizing v with
  | nil => rw [List.nil_append, scan, if_pos rfl, List.append_nil]
  | cons c s ih =>
      obtain ⟨hc, hs⟩ := not_or.mp fun hmem => h (List.mem_cons.mpr hmem)
      rw [List.cons_append, scan, if_neg (Ne.symm hc), ih hs, Option.getD_some,
        List.append_assoc, List.singleton_append]

/-- Quoted pieces add what they hold to the word that has begun, if any has. -/
theorem Quoted.scan_append {s w : List Char} (h : Quoted s w) (word : Option (List Char))
    (t : List Char) : scan none word (w ++ t) = scan none (some (word.getD [] ++ s)) t := by
  -- The word is any, for the second of two pieces goes on with what the first has begun.
  induction h generalizing word t with
  | @piece q s hq hs =>
      rw [List.cons_append, List.cons_append, List.append_assoc, scan_quote hq]
      exact scan_inside hs _ t
  | append _ _ ihw ihw' =>
      rw [List.append_assoc, ihw, ihw', Option.getD_some, List.append_assoc]

theorem scan_bare_append {s : List Char} (h : ∀ c ∈ s, isBare c = true) (v t : List Char) :
    scan none (some v) (s ++ t) = scan none (some (v ++ s)) t := by
  induction s generalizing v with
  | nil => rw [List.nil_append, List.append_nil]
  | cons c s ih =>
      have hrest := ih fun d hd => h d (List.mem_cons_of_mem c hd)
      rw [List.cons_append, scan_bare (h c List.mem_cons_self), hrest]
      rw [Option.getD_some, List.append_assoc, List.singleton_append]

end Reading

section Words

/-- What is written in quotes begins and ends with one. -/
theorem Quoted.isSnug {s w : List Char} (h : Quoted s w) : IsSnug w := by
  induction h with
  | piece hq _ => exact isSnug_of_ends (isBlank_of_isQuote hq) (isBlank_of_isQuote hq) _
  | append _ _ ihw ihw' =>
      have hboth := ihw.append [] ihw'
      rw [List.append_nil] at hboth
      exact hboth

theorem Quoted.isUnbroken {s w : List Char} (h : Quoted s w) (hs : IsUnbroken s) :
    IsUnbroken w := by
  induction h with
  | @piece q s hq _ =>
      have hquote : IsUnbroken [q] := by
        rcases quote_or_quote hq with rfl | rfl
        · exact isUnbroken_of_any rfl
        · exact isUnbroken_of_any rfl
      exact (hquote.append hs).append hquote
  | append _ _ ihw ihw' =>
      have hleft := ihw fun c hc => hs c (List.mem_append_left _ hc)
      have hright := ihw' fun c hc => hs c (List.mem_append_right _ hc)
      exact hleft.append hright

/-- A text in quotes is a word, whatever it holds but line breaks. -/
theorem Quoted.isWord {s w : List Char} (h : Quoted s w) (hs : IsUnbroken s) : IsWord s w where
  read := h.scan_append none
  snug := h.isSnug
  unbroken := h.isUnbroken hs

theorem forall₂_isWord {ss ws : List (List Char)} (h : List.Forall₂ Quoted ss ws)
    (hss : ∀ s ∈ ss, IsUnbroken s) : List.Forall₂ IsWord ss ws := by
  induction h with
  | nil => exact .nil
  | cons hw _ ih =>
      obtain ⟨hs, hlater⟩ := List.forall_mem_cons.mp hss
      exact .cons (hw.isWord hs) (ih hlater)

/-- A text of bare characters is a word without any quotes. -/
theorem isWord_bare {s : List Char} (hne : s ≠ []) (h : ∀ c ∈ s, isBare c = true) :
    IsWord s s where
  read := by
    intro t
    cases s with
    | nil => exact absurd rfl hne
    | cons c s =>
        rw [List.cons_append, scan_bare (h c List.mem_cons_self)]
        exact scan_bare_append (fun d hd => h d (List.mem_cons_of_mem c hd)) [c] t
  snug := isSnug_of_forall hne fun c hc => isBlank_of_isBare (h c hc)
  unbroken := isUnbroken_of_isBlank fun c hc => isBlank_of_isBare (h c hc)

theorem joined_cons_cons (w w' : List Char) (ws : List (List Char)) :
    joined (w :: w' :: ws) = w ++ [' '] ++ joined (w' :: ws) :=
  List.intercalate_cons_cons

/-- **Words are read back.** Words between blanks are read as what they stand for, and
    nothing of the text is taken for a comment. -/
theorem scan_joined {ss ws : List (List Char)} (h : List.Forall₂ IsWord ss ws) :
    scan none none (joined ws) = some (ss, []) := by
  induction h with
  | nil => rfl
  | @cons s w ss ws hw hrest ih =>
      cases hrest with
      | nil =>
          have hlast := hw.read []
          rw [List.append_nil] at hlast
          rw [joined, List.intercalate_singleton, hlast]
          rfl
      | @cons s' w' ss ws _ _ =>
          rw [joined_cons_cons, List.append_assoc, hw.read, List.singleton_append]
          show (scan none none (joined (w' :: ws))).map _ = _
          rw [ih]
          rfl

theorem ofText?_joined {ss ws : List (List Char)} (h : List.Forall₂ IsWord ss ws) :
    ∃ words, ofText? (String.ofList (joined ws)) = some words
      ∧ words.args = ss.map String.ofList := by
  rw [ofText?, String.toList_ofList, scan_joined h]
  exact ⟨_, rfl, rfl⟩

theorem isSnug_joined {ss ws : List (List Char)} (h : List.Forall₂ IsWord ss ws)
    (hne : ss ≠ []) : IsSnug (joined ws) := by
  induction h with
  | nil => exact absurd rfl hne
  | @cons s w ss ws hw hrest ih =>
      cases hrest with
      | nil =>
          rw [joined, List.intercalate_singleton]
          exact hw.snug
      | cons _ _ =>
          rw [joined_cons_cons]
          exact hw.snug.append [' '] (ih (List.cons_ne_nil _ _))

theorem isUnbroken_joined {ss ws : List (List Char)} (h : List.Forall₂ IsWord ss ws) :
    IsUnbroken (joined ws) := by
  have hblank : IsUnbroken [' '] := isUnbroken_of_any rfl
  have hwords : ∀ w ∈ ws, IsUnbroken w := by
    induction h with
    | nil => exact fun w hw => absurd hw List.not_mem_nil
    | cons hw _ ih => exact List.forall_mem_cons.mpr ⟨hw.unbroken, ih⟩
  exact hblank.intercalate hwords

end Words

section Characters

theorem mem_or_mem_cons {c d : Char} {v t : List Char} (h : c ∈ v ++ [d] ∨ c ∈ t) :
    c ∈ v ∨ c ∈ d :: t := by
  rw [List.mem_append, List.mem_singleton, or_assoc] at h
  exact h.imp_right List.mem_cons.mpr

/-- A word that is read holds characters of its text only, and those with which it
    began. -/
theorem mem_of_scan {quote : Option Char} {word : Option (List Char)} {t : List Char}
    {ss : List (List Char)} {comment : List Char}
    (h : scan quote word t = some (ss, comment)) {s : List Char} (hs : s ∈ ss) {c : Char}
    (hc : c ∈ s) : c ∈ word.getD [] ∨ c ∈ t := by
  -- By the steps of the scan: each one takes a character of the text into the word, drops
  -- it, or ends a word and begins the next without any.
  fun_induction scan quote word t generalizing ss comment s with
  | case1 => exact nomatch h
  | case2 word =>
      obtain ⟨rfl, -⟩ := Prod.mk.inj (Option.some.inj h)
      cases word with
      | none => exact absurd hs List.not_mem_nil
      | some v =>
          rw [List.mem_singleton.mp hs] at hc
          exact Or.inl hc
  | case3 word q t ih => exact (ih h hs hc).imp_right (List.mem_cons_of_mem q)
  | case4 word q d t hd ih => exact mem_or_mem_cons (ih h hs hc)
  | case5 word d t hd ih => exact (ih h hs hc).imp_right (List.mem_cons_of_mem d)
  | case6 d t hquote hgap ih => exact (ih h hs hc).imp_right (List.mem_cons_of_mem d)
  | case7 d t hquote hgap v ih =>
      obtain ⟨⟨ss', comment'⟩, hscan, heq⟩ := Option.map_eq_some_iff.mp h
      obtain ⟨rfl, rfl⟩ := Prod.mk.inj heq
      rcases List.mem_cons.mp hs with rfl | hlater
      · exact Or.inl hc
      · rcases ih hscan hlater hc with hnone | hrest
        · exact absurd hnone List.not_mem_nil
        · exact Or.inr (List.mem_cons_of_mem d hrest)
  | case8 d t hquote hgap hcomment =>
      obtain ⟨rfl, -⟩ := Prod.mk.inj (Option.some.inj h)
      exact absurd hs List.not_mem_nil
  | case9 word d t hquote hgap hcomment ih => exact mem_or_mem_cons (ih h hs hc)

/-- The words of an unbroken text are unbroken. -/
theorem isUnbroken_of_mem_args {text : List Char} {words : Words}
    (h : ofText? (String.ofList text) = some words) (htext : IsUnbroken text) :
    ∀ arg ∈ words.args, IsUnbroken arg.toList := by
  rw [ofText?, String.toList_ofList, Option.map_eq_some_iff] at h
  obtain ⟨⟨ss, comment⟩, hscan, rfl⟩ := h
  intro arg harg c hc
  obtain ⟨s, hs, rfl⟩ := List.mem_map.mp harg
  rw [String.toList_ofList] at hc
  rcases mem_of_scan hscan hs hc with hnone | hmem
  · exact absurd hnone List.not_mem_nil
  · exact htext c hmem

end Characters

end SshDial.Words

namespace SshDial.Pattern

open SshDial.Text

/-- Some patterns with a comma between each two. -/
def listed (patterns : List String) : List Char :=
  [','].intercalate (patterns.map String.toList)

/-- A pattern as a list holds it: not empty, trimmed, and without commas. -/
structure IsListable (pattern : String) : Prop where
  snug : IsSnug pattern.toList
  single : ',' ∉ pattern.toList

theorem isListable_of_mem_splitList {value pattern : String}
    (h : pattern ∈ splitList value) : IsListable pattern := by
  rw [splitList] at h
  obtain ⟨p, hp, rfl⟩ := List.mem_map.mp h
  obtain ⟨hpiece, hne⟩ := List.mem_filter.mp hp
  obtain ⟨piece, hmem, rfl⟩ := List.mem_map.mp hpiece
  rw [Bool.not_eq_true', List.isEmpty_eq_false_iff] at hne
  constructor
  · rw [String.toList_ofList]
    exact isSnug_trim hne
  · rw [String.toList_ofList]
    exact fun hcomma => not_mem_of_mem_splitAt hmem (mem_of_mem_trim hcomma)

theorem isUnbroken_of_mem_splitList {value pattern : String}
    (h : pattern ∈ splitList value) (hvalue : IsUnbroken value.toList) :
    IsUnbroken pattern.toList := by
  rw [splitList] at h
  obtain ⟨p, hp, rfl⟩ := List.mem_map.mp h
  obtain ⟨piece, hmem, rfl⟩ := List.mem_map.mp (List.mem_of_mem_filter hp)
  rw [String.toList_ofList]
  intro c hc
  exact hvalue c (mem_of_mem_splitAt hmem (mem_of_mem_trim hc)).1

/-- **A pattern list is read back.** -/
theorem splitList_listed {patterns : List String} (h : ∀ p ∈ patterns, IsListable p) :
    splitList (String.ofList (listed patterns)) = patterns := by
  have hpieces : ∀ p ∈ patterns.map String.toList, IsSnug p ∧ ',' ∉ p := by
    intro p hp
    obtain ⟨pattern, hpattern, rfl⟩ := List.mem_map.mp hp
    exact ⟨(h pattern hpattern).snug, (h pattern hpattern).single⟩
  have hsplit : ((splitAt ',' (listed patterns)).map trim).filter (!·.isEmpty)
      = patterns.map String.toList := by
    by_cases hnil : patterns = []
    · rw [hnil]
      rfl
    · have hne : patterns.map String.toList ≠ [] := mt List.map_eq_nil_iff.mp hnil
      have hcut : splitAt ',' (listed patterns) = patterns.map String.toList := by
        rw [splitAt_eq_splitOn, listed]
        exact List.splitOn_intercalate ',' (fun p hp => (hpieces p hp).2) hne
      have htrim : (patterns.map String.toList).map trim = patterns.map String.toList :=
        (List.map_congr_left fun p hp => (hpieces p hp).1.trim_eq).trans (List.map_id' _)
      rw [hcut, htrim, List.filter_eq_self]
      intro p hp
      rw [Bool.not_eq_true', List.isEmpty_eq_false_iff]
      exact (hpieces p hp).1.ne_nil
  rw [splitList, String.toList_ofList, hsplit, map_ofList_toList]

theorem isUnbroken_listed {patterns : List String} (h : ∀ p ∈ patterns, IsUnbroken p.toList) :
    IsUnbroken (listed patterns) := by
  have hcomma : IsUnbroken [','] := isUnbroken_of_any rfl
  exact hcomma.intercalate (List.forall_mem_map.mpr h)

end SshDial.Pattern
