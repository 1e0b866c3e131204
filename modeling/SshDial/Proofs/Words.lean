import SshDial.Proofs.Config.Quoting

/-! # Words — the grammar of argument texts

    `Words.Spells ss t` is the grammar: words between blanks, each of them a row of pieces
    with and without quotes, and a comment behind them where a word could begin.  The scan
    reads a text as some words exactly if it spells them (`Words.spells_iff_scan`), so no
    text spells two lists of words, and those that spell none are the ones with a quote that
    is never closed (`Words.arguments_spec`). -/

namespace SshDial.Words

/-! ## The grammar -/

/-- One piece of a word and how it is written: a single character, which is no quote and no
    blank, or anything between two quotes of a kind but that quote. -/
inductive Piece : List Char → List Char → Prop where
  | bare {c : Char} : isQuote c = false → isGap c = false → Piece [c] [c]
  | quoted {q : Char} {s : List Char} : isQuote q = true → q ∉ s → Piece s (q :: s ++ [q])

/-- Pieces one after the other, at least one. -/
inductive Pieces : List Char → List Char → Prop where
  | one {s w : List Char} : Piece s w → Pieces s w
  | cons {s w s' w' : List Char} : Piece s w → Pieces s' w' → Pieces (s ++ s') (w ++ w')

/-- The word `s` is written as `w`: in pieces, and no comment begins with it. -/
structure IsSpelling (s w : List Char) : Prop where
  pieces : Pieces s w
  first : w.head? ≠ some '#'

/-- Nothing but blanks. -/
def IsGaps (g : List Char) : Prop := ∀ c ∈ g, isGap c = true

/-- The words `ss` are spelled by a text: each two of them have a blank between them at
    least, there may be blanks at both ends, and behind them a comment that begins where a
    word could. -/
inductive Spells : List (List Char) → List Char → Prop where
  | blank {g : List Char} : IsGaps g → Spells [] g
  | comment {g : List Char} (note : List Char) : IsGaps g → Spells [] (g ++ '#' :: note)
  | last {g s w : List Char} : IsGaps g → IsSpelling s w → Spells [s] (g ++ w)
  | more {g s w t : List Char} {c : Char} {ss : List (List Char)} :
      IsGaps g → IsSpelling s w → isGap c = true → Spells ss t →
        Spells (s :: ss) (g ++ w ++ c :: t)

theorem Piece.ne_nil {s w : List Char} (h : Piece s w) : w ≠ [] := by
  cases h with
  | bare => exact List.cons_ne_nil _ _
  | quoted => exact List.cons_ne_nil _ _

theorem Pieces.append {s w s' w' : List Char} (h : Pieces s w) (h' : Piece s' w') :
    Pieces (s ++ s') (w ++ w') := by
  induction h with
  | one hpiece => exact .cons hpiece (.one h')
  | cons hpiece _ ih =>
      rw [List.append_assoc, List.append_assoc]
      exact .cons hpiece ih

theorem Pieces.ne_nil {s w : List Char} (h : Pieces s w) : w ≠ [] := by
  cases h with
  | one hpiece => exact hpiece.ne_nil
  | cons hpiece _ => exact List.append_ne_nil_of_left_ne_nil hpiece.ne_nil _

/-- More blanks in front change nothing. -/
theorem Spells.cons_gap {ss : List (List Char)} {t : List Char} (h : Spells ss t) {c : Char}
    (hc : isGap c = true) : Spells ss (c :: t) := by
  have hcons : ∀ g, IsGaps g → IsGaps (c :: g) := fun g hg => List.forall_mem_cons.mpr ⟨hc, hg⟩
  cases h with
  | blank hg => exact .blank (hcons _ hg)
  | comment note hg => exact .comment note (hcons _ hg)
  | last hg hw => exact .last (hcons _ hg) hw
  | more hg hw hgap hrest => exact .more (hcons _ hg) hw hgap hrest

/-! ## What is spelled is read -/

section Completeness

theorem isQuote_of_isGap {c : Char} (h : isGap c = true) : ¬isQuote c = true := by
  rcases gap_or_gap h with rfl | rfl
  · decide
  · decide

variable {word : Option (List Char)}

/-- A piece adds what it holds to the word that has begun, if any has. -/
theorem Piece.scan_append {s w : List Char} (h : Piece s w)
    (hfirst : word = none → w.head? ≠ some '#') (t : List Char) :
    scan none word (w ++ t) = scan none (some (word.getD [] ++ s)) t := by
  cases h with
  | bare hquote hgap =>
      exact scan_char hquote hgap (fun hword hc => hfirst hword (congrArg some hc)) t
  | @quoted q _ hq hs =>
      rw [List.cons_append, List.cons_append, List.append_assoc, scan_quote hq]
      exact scan_inside hs _ t

theorem Pieces.scan_append {s w : List Char} (h : Pieces s w)
    (hfirst : word = none → w.head? ≠ some '#') (t : List Char) :
    scan none word (w ++ t) = scan none (some (word.getD [] ++ s)) t := by
  induction h generalizing word with
  | one hpiece => exact hpiece.scan_append hfirst t
  | @cons s w s' w' hpiece _ ih =>
      rw [List.head?_append_of_ne_nil _ hpiece.ne_nil] at hfirst
      rw [List.append_assoc, hpiece.scan_append hfirst, ih (by exact nofun),
        Option.getD_some, List.append_assoc]

theorem scan_gaps {g : List Char} (h : IsGaps g) (t : List Char) :
    scan none none (g ++ t) = scan none none t := by
  induction g with
  | nil => rfl
  | cons c g ih =>
      obtain ⟨hc, hg⟩ := List.forall_mem_cons.mp h
      rw [List.cons_append, scan, if_neg (isQuote_of_isGap hc), if_pos hc]
      exact ih hg

/-- A blank ends the word that has begun. -/
theorem scan_gap {c : Char} (hc : isGap c = true) (v t : List Char) :
    scan none (some v) (c :: t)
      = (scan none none t).map fun (words, comment) => (v :: words, comment) := by
  rw [scan, if_neg (isQuote_of_isGap hc), if_pos hc]

theorem Spells.scan {ss : List (List Char)} {t : List Char} (h : Spells ss t) :
    ∃ comment, Words.scan none none t = some (ss, comment) := by
  induction h with
  | blank hg =>
      have hscan := scan_gaps hg []
      rw [List.append_nil] at hscan
      exact ⟨[], hscan⟩
  | comment note hg =>
      rw [scan_gaps hg]
      exact ⟨'#' :: note, rfl⟩
  | @last g s w hg hw =>
      have hscan := hw.pieces.scan_append (fun (_ : none = none) => hw.first) []
      rw [List.append_nil] at hscan
      rw [scan_gaps hg, hscan]
      exact ⟨[], rfl⟩
  | @more g s w t c ss hg hw hc _ ih =>
      obtain ⟨comment, hrest⟩ := ih
      rw [List.append_assoc, scan_gaps hg, hw.pieces.scan_append (fun _ => hw.first), scan_gap hc,
        hrest]
      exact ⟨comment, rfl⟩

end Completeness

/-! ## What is read is spelled -/

section Soundness

/-- What may follow when a word has begun and `v` of it has been read: its end, with the
    text or before a blank, or one more piece of it. -/
inductive Continues : List Char → List (List Char) → List Char → Prop where
  | done {v : List Char} : Continues v [v] []
  | gap {v t : List Char} {c : Char} {ss : List (List Char)} :
      isGap c = true → Spells ss t → Continues v (v :: ss) (c :: t)
  | piece {v s w t : List Char} {ss : List (List Char)} :
      Piece s w → Continues (v ++ s) ss t → Continues v ss (w ++ t)

/-- A word that has begun, with what follows it. -/
theorem Continues.spells {v t : List Char} {ss : List (List Char)} (h : Continues v ss t)
    {w : List Char} (hw : IsSpelling v w) : Spells ss (w ++ t) := by
  -- The pieces that follow are added to the word until it ends.
  induction h generalizing w with
  | done =>
      rw [List.append_nil]
      exact .last (g := []) nofun hw
  | gap hc hrest => exact .more (g := []) nofun hw hc hrest
  | piece hpiece _ ih =>
      rw [← List.append_assoc]
      refine ih ⟨hw.pieces.append hpiece, ?_⟩
      rw [List.head?_append_of_ne_nil _ hw.pieces.ne_nil]
      exact hw.first

/-- What a scan that came to the words `ss` has read, by the state in which it began. -/
def Resumes : Option Char → Option (List Char) → List (List Char) → List Char → Prop
  | none, none, ss, t => Spells ss t
  | none, some v, ss, t => Continues v ss t
  | some q, some v, ss, t => ∃ s rest, q ∉ s ∧ t = s ++ q :: rest ∧ Continues (v ++ s) ss rest
  | some _, none, _, _ => True

/-- A quoted piece that a quote opens. -/
theorem continues_of_quote {q : Char} (hq : isQuote q = true) {v t : List Char}
    {ss : List (List Char)} (h : Resumes (some q) (some v) ss t) : Continues v ss (q :: t) := by
  obtain ⟨s, rest, hs, rfl, hrest⟩ := h
  have hpiece := Continues.piece (.quoted hq hs) hrest
  rw [List.append_assoc, List.singleton_append] at hpiece
  exact hpiece

/-- A word that a quote opens. -/
theorem spells_of_quote {q : Char} (hq : isQuote q = true) {t : List Char}
    {ss : List (List Char)} (h : Resumes (some q) (some []) ss t) : Spells ss (q :: t) := by
  obtain ⟨s, rest, hs, rfl, hrest⟩ := h
  have hne : q ≠ '#' := by
    rintro rfl
    exact absurd hq (by decide)
  have hspells := hrest.spells ⟨.one (.quoted hq hs), fun heq => hne (Option.some.inj heq)⟩
  rw [List.append_assoc, List.singleton_append] at hspells
  exact hspells

/-- **Every step of the scan is one of the grammar.** -/
theorem resumes_of_scan {quote : Option Char} {word : Option (List Char)} {t : List Char}
    {ss : List (List Char)} {comment : List Char}
    (h : Words.scan quote word t = some (ss, comment)) : Resumes quote word ss t := by
  fun_induction Words.scan quote word t generalizing ss comment with
  | case1 => exact absurd h.symm (Option.some_ne_none _)
  | case2 word =>
      obtain ⟨rfl, -⟩ := Prod.mk.inj (Option.some.inj h)
      cases word with
      | none => exact .blank (List.forall_mem_nil _)
      | some v => exact .done
  | case3 word q t ih =>
      cases word with
      | none => trivial
      | some v =>
          refine ⟨[], t, List.not_mem_nil, rfl, ?_⟩
          rw [List.append_nil]
          exact ih h
  | case4 q word c t hc ih =>
      cases word with
      | none => trivial
      | some v =>
          obtain ⟨s, rest, hs, rfl, hrest⟩ := ih h
          refine ⟨c :: s, rest, ?_, rfl, ?_⟩
          · exact fun hmem => (List.mem_cons.mp hmem).elim (Ne.symm hc) hs
          · rw [Option.getD_some, List.append_assoc] at hrest
            exact hrest
  | case5 word c t hquote ih =>
      cases word with
      | none => exact spells_of_quote hquote (ih h)
      | some v => exact continues_of_quote hquote (ih h)
  | case6 c t hquote hgap ih => exact (ih h).cons_gap hgap
  | case7 c t hquote hgap v ih =>
      obtain ⟨⟨ss', comment'⟩, hscan, heq⟩ := Option.map_eq_some_iff.mp h
      obtain ⟨rfl, -⟩ := Prod.mk.inj heq
      exact .gap hgap (ih hscan)
  | case8 word c t hquote hgap hcomment =>
      obtain ⟨rfl, rfl⟩ := hcomment
      obtain ⟨rfl, -⟩ := Prod.mk.inj (Option.some.inj h)
      exact .comment (g := []) t (List.forall_mem_nil _)
  | case9 word c t hquote hgap hcomment ih =>
      have hpiece : Piece [c] [c] :=
        .bare (Bool.eq_false_iff.mpr hquote) (Bool.eq_false_iff.mpr hgap)
      cases word with
      | none =>
          have hfirst : c ≠ '#' := fun hc => hcomment ⟨hc, rfl⟩
          exact (ih h).spells ⟨.one hpiece, fun heq => hfirst (Option.some.inj heq)⟩
      | some v => exact .piece hpiece (ih h)

end Soundness

/-- **The scan reads what the text spells**, and nothing else. -/
theorem spells_iff_scan {ss : List (List Char)} {t : List Char} :
    Spells ss t ↔ ∃ comment, Words.scan none none t = some (ss, comment) :=
  ⟨Spells.scan, fun ⟨_, h⟩ => resumes_of_scan h⟩

/-- No text spells two lists of words. -/
theorem Spells.unique {ss ss' : List (List Char)} {t : List Char} (h : Spells ss t)
    (h' : Spells ss' t) : ss = ss' := by
  obtain ⟨comment, hscan⟩ := h.scan
  obtain ⟨comment', hscan'⟩ := h'.scan
  exact (Prod.mk.inj (Option.some.inj (hscan.symm.trans hscan'))).1

theorem arguments_of_spells {ss : List (List Char)} {text : String} (h : Spells ss text.toList)
    (place : Details) : arguments place text = .ok (ss.map String.ofList) := by
  obtain ⟨comment, hscan⟩ := h.scan
  rw [arguments, ofText?, hscan]
  rfl

theorem arguments_of_not_spells {text : String} (h : ∀ ss, ¬Spells ss text.toList)
    (place : Details) :
    arguments place text = .error (.malformed "Unterminated quoted string" place none) := by
  rw [arguments, ofText?]
  cases hscan : Words.scan none none text.toList with
  | none => rfl
  | some result => exact absurd (spells_iff_scan.mpr ⟨result.2, hscan⟩) (h result.1)

/-- **The words of a text are those it spells.** It spells one list of words at most, and if
    it spells none the only reason is a quote that is never closed. -/
theorem arguments_spec (place : Details) (text : String) :
    (∀ args, arguments place text = .ok args ↔ Spells (args.map String.toList) text.toList)
    ∧ (∀ ss ss', Spells ss text.toList → Spells ss' text.toList → ss = ss')
    ∧ ((∀ ss, ¬Spells ss text.toList) ↔ ∃ f, arguments place text = .error f
        ∧ f.code.text = "ESYNTAX"
        ∧ f.message = Failure.place place ++ "Unterminated quoted string"
        ∧ f.details = place) := by
  refine ⟨fun args => ⟨fun h => ?_, fun h => ?_⟩, fun ss ss' => Spells.unique, fun h => ?_,
    fun h => ?_⟩
  · by_cases hspells : ∃ ss, Spells ss text.toList
    · obtain ⟨ss, hss⟩ := hspells
      rw [arguments_of_spells hss] at h
      rw [← Except.ok.inj h, Text.map_toList_ofList]
      exact hss
    · rw [arguments_of_not_spells (not_exists.mp hspells)] at h
      exact nomatch h
  · rw [arguments_of_spells h, Text.map_ofList_toList]
  · exact ⟨_, arguments_of_not_spells h place, rfl, rfl, rfl⟩
  · obtain ⟨f, hf, -⟩ := h
    intro ss hss
    rw [arguments_of_spells hss] at hf
    exact nomatch hf

example : arguments {} "a\"b  c\"'' \"\"\t#d" = .ok ["ab  c", ""] := rfl

end SshDial.Words
