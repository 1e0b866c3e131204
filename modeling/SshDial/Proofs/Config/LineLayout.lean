import SshDial.Proofs.Config.Assignment
import SshDial.Proofs.Config.Comment

/-! # Layout of a line — what a line says does not depend on how it is laid out

    `Line.Relaid` lists the changes that leave a line what it is: white space at its ends,
    the letter case of the keyword, the separator behind it, and a comment behind the rest.
    A line is cut into its keyword and its value before anything else is done with it
    (`Line.parse_cut_iff`), and each of the changes leaves the keyword the same up to
    letter case and the value the same up to a comment.  So a line that is read is still
    read, as the same line but for the name as it is written (`Line.Relaid.parse`). -/

namespace SshDial

open SshDial.Text

/-- The directive without its name as it is written. -/
def Directive.unnamed (d : Directive) : Directive := { d with name := "" }

namespace Line

/-- The line with its directive, if it writes one, without the name as it is written. -/
def unnamed : Line → Line
  | .directive d => .directive d.unnamed
  | content => content

/-- What can stand between a keyword and its value: white space, or an equals sign with
    white space around it. -/
inductive IsSeparator : List Char → Prop where
  | white {s : List Char} : s ≠ [] → IsWhite s → IsSeparator s
  | equals {s t : List Char} : IsWhite s → IsWhite t → IsSeparator (s ++ '=' :: t)

/-- The name that a line begins with, in lower case. -/
def key (l : List Char) : String := lower (String.ofList (nameOf (trim l)))

/-- One change in the layout of a line. -/
inductive Relaid : List Char → List Char → Prop where
  /-- White space is added at the ends. -/
  | padded {a l b : List Char} : IsWhite a → IsWhite b → Relaid l (a ++ l ++ b)
  /-- White space is removed from the ends. -/
  | stripped {a l b : List Char} : IsWhite a → IsWhite b → Relaid (a ++ l ++ b) l
  /-- The keyword is written in other letter case. -/
  | recased {a name name' rest : List Char} : IsWhite a → isKeyword name = true →
      name'.map Char.toLower = name.map Char.toLower →
      (∀ c ∈ rest.head?, isNamePart c = false) →
      Relaid (a ++ name ++ rest) (a ++ name' ++ rest)
  /-- Another separator stands between the keyword and the value. -/
  | separated {a name sep sep' value : List Char} {c : Char} : IsWhite a →
      isKeyword name = true → IsSeparator sep → IsSeparator sep' → isBlank c = false → c ≠ '=' →
      Relaid (a ++ name ++ (sep ++ c :: value)) (a ++ name ++ (sep' ++ c :: value))
  /-- A blank and a comment are put behind the last character that is no white space. -/
  | commented {l b note : List Char} {c : Char} : (∃ d ∈ l.getLast?, isBlank d = false) →
      IsWhite b → Words.isGap c = true → IsUnbroken note → key l ≠ "proxycommand" →
      Relaid (l ++ b) (l ++ c :: '#' :: note ++ b)

/-! ## Letter case -/

section LetterCase

variable {name name' : List Char} (h : name'.map Char.toLower = name.map Char.toLower)
  (hname : isKeyword name = true)

include h hname

theorem isKeyword_recased : isKeyword name' = true := by
  cases name with
  | nil => exact nomatch hname
  | cons c s =>
      cases name' with
      | nil => exact nomatch h
      | cons d t =>
          obtain ⟨hfirst, hrest⟩ := List.cons.inj h
          rw [isKeyword, Bool.and_eq_true, List.all_eq_true] at hname ⊢
          refine ⟨(letter_of_toLower_eq hfirst).1 hname.1, fun d hd => ?_⟩
          have hmem : d.toLower ∈ s.map Char.toLower := hrest ▸ List.mem_map_of_mem hd
          obtain ⟨c, hc, hlower⟩ := List.mem_map.mp hmem
          exact (letter_of_toLower_eq hlower.symm).2 (hname.2 c hc)

theorem lower_recased : lower (String.ofList name') = lower (String.ofList name) := by
  have hlower : ∀ n, isKeyword n = true → n.map lowerChar = n.map Char.toLower := by
    intro n hn
    refine List.map_congr_left fun c hc => ?_
    exact lowerChar_of_isAlphanum (isAlphanum_of_isKeyword hn c hc)
  have hsame := hlower name' (isKeyword_recased h hname)
  rw [h, ← hlower name hname] at hsame
  rw [lower, lower, String.toList_ofList, String.toList_ofList, hsame]

end LetterCase

/-! ## Separators -/

section Separator

variable {s sep value : List Char} {c : Char}

theorem IsSeparator.head (h : IsSeparator sep) (t : List Char) :
    ∀ d ∈ (sep ++ t).head?, isNamePart d = false := by
  have hblank : ∀ d, isBlank d = true → isNamePart d = false := by
    intro d hd
    rw [isNamePart, hd]
    rfl
  intro d hd
  cases h with
  | white hne hwhite =>
      cases sep with
      | nil => exact absurd rfl hne
      | cons e s =>
          obtain rfl := Option.some.inj hd
          exact hblank e (hwhite e List.mem_cons_self)
  | @equals s u hs hu =>
      cases s with
      | nil =>
          obtain rfl := Option.some.inj hd
          rfl
      | cons e s =>
          obtain rfl := Option.some.inj hd
          exact hblank e (hs e List.mem_cons_self)

/-- A value that begins with neither white space nor an equals sign is found behind every
    separator. -/
theorem afterSeparator_append_cons (h : IsSeparator sep) (hc : isBlank c = false) (hne : c ≠ '=')
    (value : List Char) : afterSeparator (sep ++ c :: value) = c :: value := by
  have hstart : trimStart (c :: value) = c :: value :=
    List.dropWhile_cons_of_neg (Bool.eq_false_iff.mp hc)
  cases h with
  | white _ hwhite =>
      rw [afterSeparator, trimStart_append hwhite, hstart]
      split
      · rename_i rest heq
        exact absurd (List.cons.inj heq).1 hne
      · rfl
  | @equals s t hs ht =>
      have hsplit : s ++ '=' :: t ++ c :: value = s ++ '=' :: (t ++ c :: value) := by
        rw [List.append_assoc, List.cons_append]
      rw [afterSeparator, hsplit, trimStart_append hs]
      show trimStart (t ++ c :: value) = c :: value
      rw [trimStart_append ht, hstart]

/-- What is put behind a value belongs to it. -/
theorem afterSeparator_append (h : afterSeparator s ≠ []) (t : List Char) :
    afterSeparator (s ++ t) = afterSeparator s ++ t := by
  have hne : trimStart s ≠ [] := by
    intro hnil
    rw [afterSeparator, hnil] at h
    exact h rfl
  rw [afterSeparator] at h ⊢
  rw [afterSeparator, trimStart_append_of_ne_nil hne]
  cases hs : trimStart s with
  | nil => exact absurd hs hne
  | cons d u =>
      rw [hs] at h
      by_cases hd : d = '='
      · subst hd
        exact trimStart_append_of_ne_nil h t
      · rw [List.cons_append]
        split
        · rename_i rest heq
          exact absurd (List.cons.inj heq).1 hd
        · split
          · rename_i rest heq
            exact absurd (List.cons.inj heq).1 hd
          · rw [List.cons_append]

theorem afterSeparator_suffix (s : List Char) : afterSeparator s <:+ s := by
  have hstart : trimStart s <:+ s := List.dropWhile_suffix _
  rw [afterSeparator]
  split
  · rename_i rest hrest
    have htail : rest <:+ trimStart s := hrest ▸ List.suffix_cons _ _
    exact ((List.dropWhile_suffix _).trans htail).trans hstart
  · exact hstart

end Separator

/-! ## What the changes leave alone -/

section Layout

variable {o : Origin} {l a name rest : List Char} {content : Line}

/-- **A line is its keyword and its value.** Behind the keyword only what follows the
    separator counts, without the white space at its end. -/
theorem parse_cut_iff (ha : IsWhite a) (hname : isKeyword name = true)
    (hrest : ∀ c ∈ rest.head?, isNamePart c = false) :
    parse o (a ++ name ++ rest) = .ok content ↔
      IsUnbroken (afterSeparator (trimEnd rest)) ∧ trim (afterSeparator (trimEnd rest)) ≠ []
        ∧ Says o name (trim (afterSeparator (trimEnd rest))) content := by
  have hsnug := isSnug_of_isKeyword hname
  -- The keyword ends where it ended before the line was trimmed.
  obtain ⟨w, -, hw⟩ := exists_trimEnd_append rest
  have hstop : ∀ c ∈ (trimEnd rest).head?, isNamePart c = false := by
    intro c hc
    refine hrest c ?_
    rw [hw, List.head?_append, Option.mem_def.mp hc]
    rfl
  have hstart : trimStart (name ++ rest) = name ++ rest := by
    rw [trimStart_append_of_ne_nil, hsnug.trimStart_eq]
    rw [hsnug.trimStart_eq]
    exact hsnug.ne_nil
  have htrim : trim (a ++ name ++ rest) = name ++ trimEnd rest := by
    rw [trim, List.append_assoc, trimStart_append ha, hstart, trimEnd_append_of_last hsnug.last]
  have hkey : nameOf (trim (a ++ name ++ rest)) = name := by
    rw [htrim, nameOf_append hstop hname]
  have hvalue : restOf (trim (a ++ name ++ rest)) = afterSeparator (trimEnd rest) := by
    rw [htrim, restOf_append hstop hname]
  have hkeyword : isKeyword (nameOf (trim (a ++ name ++ rest))) = true := by
    rw [hkey]
    exact hname
  rw [parse_eq_parseTrimmed o hkeyword, parseTrimmed_eq_ok_iff]
  constructor
  · intro h
    have hmeaning := h.meaning
    rw [hkey, hvalue] at hmeaning
    exact ⟨hvalue ▸ h.unbroken, hvalue ▸ h.valued, hmeaning⟩
  · rintro ⟨hunbroken, hvalued, hmeaning⟩
    refine ⟨hkeyword, hvalue ▸ hunbroken, hvalue ▸ hvalued, ?_⟩
    rw [hkey, hvalue]
    exact hmeaning

theorem parse_padded {a b : List Char} (ha : IsWhite a) (hb : IsWhite b) (o : Origin)
    (l : List Char) : parse o (a ++ l ++ b) = parse o l := by
  rw [parse, parse, trim_padded ha hb]

/-- Keywords that differ in letter case only say the same of the same words. -/
theorem ofWords_recased {n n' : String} {words : Words} (hlower : lower n' = lower n)
    (h : ofWords o n words = .ok content) :
    ∃ content', ofWords o n' words = .ok content' ∧ content'.unnamed = content.unnamed := by
  rw [ofWords] at h ⊢
  rw [hlower]
  simp only [bind, Except.bind, pure, Except.pure, throw, throwThe, MonadExceptOf.throw] at h ⊢
  split_ifs at h ⊢ with hempty hhost hmatch hinclude hsingle hport
  · exact ⟨content, h, rfl⟩
  · exact ⟨content, h, rfl⟩
  · exact ⟨content, h, rfl⟩
  · obtain rfl := Except.ok.inj h
    exact ⟨_, rfl, rfl⟩

theorem Says.recased {name' value : List Char} (h : Says o name value content)
    (hlower : lower (String.ofList name') = lower (String.ofList name)) :
    ∃ content', Says o name' value content' ∧ content'.unnamed = content.unnamed := by
  cases h with
  | command hcommand => exact ⟨_, .command (hlower.trans hcommand), rfl⟩
  | words hcommand hwords hof =>
      obtain ⟨content', hof', hsame⟩ := ofWords_recased hlower hof
      exact ⟨content', .words (hlower ▸ hcommand) hwords hof', hsame⟩

/-- A line is made of its words and of their text without the white space at its end. -/
theorem ofWords_congr {words words' : Words} (hargs : words'.args = words.args)
    (hbody : trimEnd words'.body.toList = trimEnd words.body.toList) (n : String) :
    ofWords o n words' = ofWords o n words := by
  rw [ofWords, ofWords, hargs, hbody]

theorem Says.commented {value note : List Char} {c : Char} (h : Says o name value content)
    (hname : lower (String.ofList name) ≠ "proxycommand") (hc : Words.isGap c = true) :
    Says o name (value ++ c :: '#' :: note) content := by
  cases h with
  | command hcommand => exact absurd hcommand hname
  | words _ hwords hof =>
      obtain ⟨words', hwords', hargs, hbody⟩ := Words.ofText?_append_comment hwords hc note
      exact .words hname hwords' ((ofWords_congr hargs hbody _).trans hof)

theorem Assigns.restOf_ne_nil (h : Assigns o l content) : restOf l ≠ [] := by
  intro hnil
  apply h.valued
  rw [hnil]
  rfl

/-- What is put behind the value of a trimmed line belongs to it. -/
theorem Assigns.behind (h : Assigns o l content) (u : List Char) :
    nameOf (l ++ u) = nameOf l ∧ restOf (l ++ u) = restOf l ++ u := by
  have hsplit : l = nameOf l ++ l.dropWhile isNamePart := List.takeWhile_append_dropWhile.symm
  have hne := h.restOf_ne_nil
  have hrest : l.dropWhile isNamePart ≠ [] := by
    intro hnil
    apply hne
    rw [restOf, hnil]
    rfl
  have hstop : ∀ c ∈ (l.dropWhile isNamePart ++ u).head?, isNamePart c = false := by
    intro c hc
    have hhead := List.head?_dropWhile_not isNamePart l
    rw [List.head?_append_of_ne_nil _ hrest] at hc
    rw [Option.mem_def.mp hc] at hhead
    exact hhead
  have hlong : l ++ u = nameOf l ++ (l.dropWhile isNamePart ++ u) := by
    rw [← List.append_assoc, ← hsplit]
  constructor
  · rw [hlong, nameOf_append hstop h.keyword]
  · rw [hlong, restOf_append hstop h.keyword, afterSeparator_append hne]
    rfl

theorem trimEnd_comment (c : Char) (note : List Char) :
    trimEnd (c :: '#' :: note) = c :: '#' :: trimEnd note :=
  trimEnd_append_cons (by decide) [c] note

/-- A comment behind a trimmed line goes to the value, whose words end at it. -/
theorem Assigns.commented {note : List Char} {c : Char} (h : Assigns o l content)
    (hlast : ∃ d ∈ l.getLast?, isBlank d = false) (hc : Words.isGap c = true)
    (hnote : IsUnbroken note) (hname : lower (String.ofList (nameOf l)) ≠ "proxycommand") :
    Assigns o (l ++ c :: '#' :: note) content := by
  obtain ⟨hkey, hrest⟩ := h.behind (c :: '#' :: note)
  have hgap : isLineBreak c = false := by
    rcases Words.gap_or_gap hc with rfl | rfl
    · decide
    · decide
  have htail : IsUnbroken (c :: '#' :: note) :=
    List.forall_mem_cons.mpr ⟨hgap, List.forall_mem_cons.mpr ⟨by decide, hnote⟩⟩
  have hrestLast : ∃ d ∈ (restOf l).getLast?, isBlank d = false := by
    have hsuffix : restOf l <:+ l := (afterSeparator_suffix _).trans (List.dropWhile_suffix _)
    rw [last_of_suffix h.restOf_ne_nil hsuffix]
    exact hlast
  have hvalue : trim (restOf l ++ c :: '#' :: note)
      = trim (restOf l) ++ c :: '#' :: trimEnd note := by
    rw [trim_append_of_last hrestLast, trimEnd_comment]
  constructor
  · rw [hkey]
    exact h.keyword
  · rw [hrest]
    exact h.unbroken.append htail
  · rw [hrest, hvalue]
    exact List.append_ne_nil_of_left_ne_nil h.valued _
  · rw [hkey, hrest, hvalue]
    exact h.meaning.commented hname hc

theorem parse_commented {note : List Char} {c : Char}
    (hlast : ∃ d ∈ l.getLast?, isBlank d = false) (hc : Words.isGap c = true)
    (hnote : IsUnbroken note) (hcommand : key l ≠ "proxycommand")
    (h : parse o l = .ok content) : parse o (l ++ c :: '#' :: note) = .ok content := by
  have htrim : trim (l ++ c :: '#' :: note) = trim l ++ c :: '#' :: trimEnd note := by
    rw [trim_append_of_last hlast, trimEnd_comment]
  have hend : ∃ d ∈ (trim l).getLast?, isBlank d = false := by
    rw [trim_of_last hlast]
    exact trimStart_last hlast
  rw [parse_ok_iff] at h ⊢
  rw [htrim]
  rcases h with ⟨hblank | hcomment, hnothing⟩ | hassigns
  · -- A line that ends in another character is not blank.
    obtain ⟨d, hd, -⟩ := hend
    rw [hblank] at hd
    exact nomatch hd
  · obtain ⟨rest, hrest⟩ := List.head?_eq_some_iff.mp hcomment
    rw [hrest]
    exact Or.inl ⟨Or.inr rfl, hnothing⟩
  · have hnote' : IsUnbroken (trimEnd note) := fun d hd => hnote d (mem_of_mem_trimEnd hd)
    exact Or.inr (hassigns.commented hend hc hnote' hcommand)

/-- **A line says the same however it is laid out**, but for the name as it is written. -/
theorem Relaid.parse {l' : List Char} (h : Relaid l l') (hparse : Line.parse o l = .ok content) :
    ∃ content', Line.parse o l' = .ok content' ∧ content'.unnamed = content.unnamed := by
  cases h with
  | padded ha hb => exact ⟨content, (parse_padded ha hb o l).trans hparse, rfl⟩
  | stripped ha hb => exact ⟨content, (parse_padded ha hb o l').symm.trans hparse, rfl⟩
  | recased ha hname hcase hrest =>
      obtain ⟨hunbroken, hvalued, hmeaning⟩ := (parse_cut_iff ha hname hrest).mp hparse
      obtain ⟨content', hmeaning', hsame⟩ := hmeaning.recased (lower_recased hcase hname)
      have hname' := isKeyword_recased hcase hname
      exact ⟨content', (parse_cut_iff ha hname' hrest).mpr ⟨hunbroken, hvalued, hmeaning'⟩, hsame⟩
  | @separated a name sep sep' value c ha hname hsep hsep' hc hne =>
      have hvalue : ∀ {s}, IsSeparator s →
          afterSeparator (trimEnd (s ++ c :: value)) = c :: trimEnd value := by
        intro s hs
        rw [trimEnd_append_cons hc, afterSeparator_append_cons hs hc hne]
      refine ⟨content, (parse_cut_iff ha hname (hsep'.head _)).mpr ?_, rfl⟩
      rw [hvalue hsep', ← hvalue hsep]
      exact (parse_cut_iff ha hname (hsep.head _)).mp hparse
  | @commented l b note c hlast hb hc hnote hcommand =>
      have hbare : ∀ s, Line.parse o (s ++ b) = Line.parse o s :=
        parse_padded (a := []) (List.forall_mem_nil _) hb o
      rw [hbare] at hparse ⊢
      exact ⟨content, parse_commented hlast hc hnote hcommand hparse, rfl⟩

end Layout

end Line

end SshDial
