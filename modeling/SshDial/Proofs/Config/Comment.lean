import SshDial.Proofs.Text.Trim
import SshDial.Proofs.Words

/-! # Comments — the words of a text that goes on

    Reading a text leaves the scan in the middle of a word or of a quote, between two
    words, or at a comment, and what follows is read from there
    (`Words.stands_scan`).  So

    * a comment takes in whatever follows, and the text in front of it has the same words
      (`scan_append_of_comment`, `scan_body`);
    * behind a blank a comment can begin wherever the words end (`scan_append_comment`);
    * spaces and tabs at the end of a text say nothing, but any other white space there
      belongs to a word (`scan_append_white`). -/

namespace SshDial.Words

open SshDial.Text

/-- Words that come before those of a scan. -/
def before (done : List (List Char)) (r : List (List Char) × List Char) :
    List (List Char) × List Char :=
  (done ++ r.1, r.2)

theorem map_before_map_before (done done' : List (List Char))
    (r : Option (List (List Char) × List Char)) :
    (r.map (before done')).map (before done) = r.map (before (done ++ done')) := by
  cases r with
  | none => rfl
  | some r => exact congrArg (fun ws => some (ws, r.2)) (List.append_assoc _ _ _).symm

theorem map_before_nil (r : Option (List (List Char) × List Char)) : r.map (before []) = r := by
  cases r <;> rfl

/-- Where a scan stands behind the text `s`. -/
inductive Stands (quote : Option Char) (word : Option (List Char)) (s : List Char) : Prop where
  /-- Some words are done, and a quote is open or a word has begun. -/
  | reading (quote' : Option Char) (word' : Option (List Char)) (done : List (List Char)) :
      (∀ q ∈ quote', isQuote q = true) →
      (∀ t, scan quote word (s ++ t) = (scan quote' word' t).map (before done)) →
      Stands quote word s
  /-- A comment has begun, and all words are done. -/
  | comment (done : List (List Char)) (body note : List Char) :
      s = body ++ '#' :: note → scan quote word body = some (done, []) →
      (∀ t, scan quote word (s ++ t) = some (done, '#' :: (note ++ t))) →
      Stands quote word s

section Stands

variable {quote quote' : Option Char} {word word' : Option (List Char)} {s : List Char}

/-- One more character in front. -/
theorem Stands.cons {c : Char} (h : Stands quote' word' s) (ws : List (List Char))
    (hstep : ∀ t, scan quote word (c :: t) = (scan quote' word' t).map (before ws)) :
    Stands quote word (c :: s) := by
  cases h with
  | reading quote'' word'' done hquote hscan =>
      refine .reading quote'' word'' (ws ++ done) hquote fun t => ?_
      rw [List.cons_append, hstep, hscan, map_before_map_before]
  | comment done body note hs hbody hscan =>
      refine .comment (ws ++ done) (c :: body) note ?_ ?_ fun t => ?_
      · rw [hs, List.cons_append]
      · rw [hstep, hbody]
        rfl
      · rw [List.cons_append, hstep, hscan]
        rfl

/-- A scan stands somewhere behind every text. -/
theorem stands_scan (quote : Option Char) (hquote : ∀ q ∈ quote, isQuote q = true)
    (word : Option (List Char)) (s : List Char) : Stands quote word s := by
  have hnil : ∀ quote word, (∀ q ∈ quote, isQuote q = true) → Stands quote word [] :=
    fun quote word hq => .reading quote word [] hq fun t => (map_before_nil _).symm
  fun_induction scan quote word s with
  | case1 => exact hnil _ _ hquote
  | case2 => exact hnil _ _ hquote
  | case3 word q s ih =>
      refine (ih (by simp)).cons [] fun t => ?_
      rw [scan, if_pos rfl, map_before_nil]
  | case4 q word c s hc ih =>
      refine (ih hquote).cons [] fun t => ?_
      rw [scan, if_neg hc, map_before_nil]
  | case5 word c s hc ih =>
      have hopen : ∀ q ∈ some c, isQuote q = true := by
        rintro q ⟨⟩
        exact hc
      refine (ih hopen).cons [] fun t => ?_
      rw [scan_quote hc, map_before_nil]
  | case6 c s hc hgap ih =>
      refine (ih hquote).cons [] fun t => ?_
      rw [scan, if_neg hc, if_pos hgap, map_before_nil]
  -- Only a blank behind a word finishes one.
  | case7 c s hc hgap v ih => exact (ih hquote).cons [v] (scan_gap hgap v)
  | case8 word c s hc hgap hcomment =>
      obtain ⟨rfl, rfl⟩ := hcomment
      exact .comment [] [] s rfl rfl fun t => rfl
  | case9 word c s hc hgap hcomment ih =>
      have hchar := scan_char (Bool.eq_false_iff.mpr hc) (Bool.eq_false_iff.mpr hgap)
        (fun hword hhash => hcomment ⟨hhash, hword⟩)
      refine (ih hquote).cons [] fun t => ?_
      rw [hchar, map_before_nil]

end Stands

section Comment

variable {s comment : List Char} {ss : List (List Char)}

/-- A text with words either ends in the middle of a word or between two, or in a comment
    with those words in front of it. -/
theorem stands_of_scan (h : scan none none s = some (ss, comment)) :
    (comment = [] ∧ ∃ done word, ss = done ++ word.toList
        ∧ ∀ t, scan none none (s ++ t) = (scan none word t).map (before done))
      ∨ ∃ body, s = body ++ comment ∧ comment.head? = some '#'
        ∧ scan none none body = some (ss, [])
        ∧ ∀ t, scan none none (s ++ t) = some (ss, comment ++ t) := by
  have hstands := stands_scan none (by simp) none s
  cases hstands with
  | reading quote word done _ hscan =>
      have hself := hscan []
      rw [List.append_nil, h] at hself
      cases quote with
      | some q => exact nomatch hself
      | none =>
          obtain ⟨rfl, rfl⟩ := Prod.mk.inj (Option.some.inj hself)
          exact Or.inl ⟨rfl, done, word, rfl, hscan⟩
  | comment done body note hs hbody hscan =>
      have hself := hscan []
      rw [List.append_nil, h, List.append_nil] at hself
      obtain ⟨rfl, rfl⟩ := Prod.mk.inj (Option.some.inj hself)
      exact Or.inr ⟨body, hs, rfl, hbody, hscan⟩

/-- The text in front of a comment has the same words. -/
theorem scan_body (h : scan none none s = some (ss, comment)) :
    ∃ body, s = body ++ comment ∧ scan none none body = some (ss, [])
      ∧ (comment = [] ∨ comment.head? = some '#') := by
  obtain ⟨rfl, -⟩ | ⟨body, hs, hhash, hbody, -⟩ := stands_of_scan h
  · exact ⟨s, (List.append_nil s).symm, h, Or.inl rfl⟩
  · exact ⟨body, hs, hbody, Or.inr hhash⟩

/-- The words of an argument text are those of the scan, and their text is what stands in
    front of the comment. -/
theorem ofText?_eq_some_iff {words : Words} :
    ofText? (String.ofList s) = some words ↔ ∃ ss body comment,
      scan none none s = some (ss, comment) ∧ s = body ++ comment
        ∧ words = ⟨ss.map String.ofList, String.ofList body⟩ := by
  have hfront : ∀ body comment : List Char,
      (body ++ comment).take ((body ++ comment).length - comment.length) = body := by
    intro body comment
    rw [List.length_append, Nat.add_sub_cancel, List.take_left]
  rw [ofText?, String.toList_ofList, Option.map_eq_some_iff]
  constructor
  · rintro ⟨⟨ss, comment⟩, hscan, rfl⟩
    obtain ⟨body, rfl, -⟩ := scan_body hscan
    exact ⟨ss, body, comment, hscan, rfl, by simp only [hfront]⟩
  · rintro ⟨ss, body, comment, hscan, rfl, rfl⟩
    exact ⟨(ss, comment), hscan, by simp only [hfront]⟩

/-- A comment takes in whatever follows. -/
theorem scan_append_of_comment (h : scan none none s = some (ss, comment)) (hne : comment ≠ [])
    (t : List Char) : scan none none (s ++ t) = some (ss, comment ++ t) := by
  obtain ⟨hnone, -⟩ | ⟨-, -, -, -, hscan⟩ := stands_of_scan h
  · exact absurd hnone hne
  · exact hscan t

/-- A comment can begin behind a blank wherever the words of a text end. -/
theorem scan_append_comment (h : scan none none s = some (ss, [])) {c : Char}
    (hc : isGap c = true) (note : List Char) :
    scan none none (s ++ c :: '#' :: note) = some (ss, '#' :: note) := by
  obtain ⟨-, done, word, rfl, hscan⟩ | ⟨-, -, hhash, -⟩ := stands_of_scan h
  · rw [hscan]
    -- The blank ends the word that has begun, if any, so that the sign begins none.
    cases word with
    | none =>
        rw [scan, if_neg (isQuote_of_isGap hc), if_pos hc]
        rfl
    | some v =>
        rw [scan_gap hc]
        rfl
  · cases hhash

/-- With a comment behind it a text has the same words, and no more text but white space. -/
theorem ofText?_append_comment {words : Words} (h : ofText? (String.ofList s) = some words)
    {c : Char} (hc : isGap c = true) (note : List Char) :
    ∃ words', ofText? (String.ofList (s ++ c :: '#' :: note)) = some words'
      ∧ words'.args = words.args
      ∧ trimEnd words'.body.toList = trimEnd words.body.toList := by
  obtain ⟨ss, body, comment, hscan, rfl, rfl⟩ := ofText?_eq_some_iff.mp h
  by_cases hnone : comment = []
  · subst hnone
    rw [List.append_nil] at hscan ⊢
    refine ⟨⟨ss.map String.ofList, String.ofList (body ++ [c])⟩, ?_, rfl, ?_⟩
    · refine ofText?_eq_some_iff.mpr ⟨ss, body ++ [c], '#' :: note, ?_, ?_, rfl⟩
      · exact scan_append_comment hscan hc note
      · rw [List.append_assoc, List.singleton_append]
    · have hwhite : IsWhite [c] := List.forall_mem_singleton.mpr (isBlank_of_isGap hc)
      simp only [String.toList_ofList, trimEnd_append hwhite]
  · refine ⟨⟨ss.map String.ofList, String.ofList body⟩, ?_, rfl, rfl⟩
    refine ofText?_eq_some_iff.mpr ⟨ss, body, comment ++ c :: '#' :: note, ?_, ?_, rfl⟩
    · exact scan_append_of_comment hscan hnone _
    · rw [List.append_assoc]

end Comment

section White

variable {w : List Char} (hw : IsWhite w)

include hw

/-- White space holds no quote, so it closes none. -/
theorem scan_open_white {q : Char} (hq : isQuote q = true) (word : Option (List Char)) :
    scan (some q) word w = none := by
  induction w generalizing word with
  | nil => rfl
  | cons c w ih =>
      obtain ⟨hc, hw⟩ := List.forall_mem_cons.mp hw
      have hne : c ≠ q := by
        rintro rfl
        exact Bool.eq_false_iff.mp (isBlank_of_isQuote hq) hc
      rw [scan, if_neg hne]
      exact ih hw _

/-- What is neither a space nor a tab goes on with the word that has begun, or begins one. -/
theorem scan_none_white (word : Option (List Char)) :
    ∃ ws, scan none word w = some (ws, [])
      ∧ ws.flatten = word.toList.flatten ++ w.filter (fun c => !isGap c)
      ∧ (IsGaps w → ws = word.toList) := by
  induction w generalizing word with
  | nil => exact ⟨word.toList, rfl, (List.append_nil _).symm, fun _ => rfl⟩
  | cons c w ih =>
      obtain ⟨hc, hw⟩ := List.forall_mem_cons.mp hw
      have hquote : isQuote c = false := by
        rw [← Bool.not_eq_true]
        intro hquote
        exact Bool.eq_false_iff.mp (isBlank_of_isQuote hquote) hc
      by_cases hgap : isGap c = true
      · obtain ⟨ws, hscan, hflat, hgaps⟩ := ih hw none
        have hskip : (c :: w).filter (fun c => !isGap c) = w.filter fun c => !isGap c :=
          List.filter_cons_of_neg (by rw [hgap]; decide)
        rw [hskip]
        cases word with
        | none =>
            refine ⟨ws, ?_, hflat, fun h => hgaps (List.forall_mem_cons.mp h).2⟩
            rw [scan, if_neg (isQuote_of_isGap hgap), if_pos hgap]
            exact hscan
        | some v =>
            refine ⟨v :: ws, ?_, ?_, fun h => ?_⟩
            · rw [scan_gap hgap, hscan]
              rfl
            · rw [List.flatten_cons, hflat, Option.toList_some, List.flatten_singleton]
              rfl
            · rw [hgaps (List.forall_mem_cons.mp h).2]
              rfl
      · have hhash : c ≠ '#' := by
          rintro rfl
          exact absurd hc (by decide)
        obtain ⟨ws, hscan, hflat, -⟩ := ih hw (some (word.getD [] ++ [c]))
        refine ⟨ws, ?_, ?_, fun h => absurd (List.forall_mem_cons.mp h).1 hgap⟩
        · rw [scan_char hquote (Bool.eq_false_iff.mpr hgap) fun _ => hhash]
          exact hscan
        · have hkeep : (c :: w).filter (fun c => !isGap c) = c :: w.filter fun c => !isGap c :=
            List.filter_cons_of_pos (by rw [Bool.eq_false_iff.mpr hgap]; decide)
          rw [hkeep, hflat]
          cases word with
          | none => rfl
          | some v => simp only [Option.getD_some, Option.toList_some, List.flatten_singleton,
              List.append_assoc, List.singleton_append]

/-- **White space at the end of a text is lost when it is cut off**, but for spaces and
    tabs: without it the words are those of the text exactly if there is nothing else. -/
theorem scan_append_white {s : List Char} {ss : List (List Char)}
    (h : scan none none (s ++ w) = some (ss, [])) :
    ∃ ss', scan none none s = some (ss', [])
      ∧ ss.flatten = ss'.flatten ++ w.filter (fun c => !isGap c)
      ∧ (ss' = ss ↔ IsGaps w) := by
  have hstands := stands_scan none (by simp) none s
  cases hstands with
  | comment done body note hs hbody hscan =>
      rw [hscan] at h
      exact nomatch h
  | reading quote' word' done hquote hscan =>
      rw [hscan] at h
      -- The quotes of `s` are closed, or white space would not have finished the text.
      cases quote' with
      | some q =>
          rw [scan_open_white hw (hquote q rfl)] at h
          exact nomatch h
      | none =>
          obtain ⟨ws, hws, hflat, hgaps⟩ := scan_none_white hw word'
          rw [hws] at h
          obtain ⟨rfl, -⟩ := Prod.mk.inj (Option.some.inj h)
          have hself := hscan []
          rw [List.append_nil] at hself
          have hflatten : (done ++ ws).flatten
              = (done ++ word'.toList).flatten ++ w.filter fun c => !isGap c := by
            rw [List.flatten_append, hflat, List.flatten_append, List.append_assoc]
          refine ⟨done ++ word'.toList, hself, hflatten, fun heq => ?_, fun hall => ?_⟩
          · show IsGaps w
            rw [heq] at hflatten
            have hnone := List.self_eq_append_right.mp hflatten
            intro c hc
            have hgap := List.filter_eq_nil_iff.mp hnone c hc
            rw [Bool.not_eq_true', Bool.not_eq_false] at hgap
            exact hgap
          · rw [hgaps hall]

end White

end SshDial.Words
