import Mathlib.Tactic.SplitIfs
import SshDial.Proofs.Config.Line
import SshDial.Proofs.Config.Quoting
import SshDial.Proofs.Text.Lines

/-! # Assignments — lines as a name and a value

    A line that is not blank and no comment gives a keyword a value, and means what the
    keyword and the trimmed value say and nothing else (`Line.parseTrimmed_eq_ok_iff`).
    `Line.says_of_parse` reads it so, and `Line.parse_assignment` is the way back, from the
    two to a line that is read as what they say.  Among the words of a value the text
    between them says nothing (`Line.said_of_ofWords`). -/

namespace SshDial

open SshDial.Text

/-- What a directive says wherever it stands. -/
def Directive.said (d : Directive) : String × String × List String := (d.key, d.name, d.args)

namespace Line

/-- The line that gives a name a value. -/
def assignment (name value : List Char) : List Char := name ++ [' ', '=', ' '] ++ value

/-- What a name and its value say on a line. -/
inductive Says (o : Origin) (name value : List Char) : Line → Prop where
  | command : lower (String.ofList name) = "proxycommand" →
      Says o name value (.directive ⟨"proxycommand", String.ofList name, String.ofList value,
        [String.ofList value], o⟩)
  | words {words : Words} {content : Line} : lower (String.ofList name) ≠ "proxycommand" →
      Words.ofText? (String.ofList value) = some words →
      ofWords o (String.ofList name) words = .ok content → Says o name value content

/-- A character that the name of a line can hold. -/
def isNamePart (c : Char) : Bool := !isBlank c && c != '='

/-- The name that a trimmed line begins with. -/
def nameOf (l : List Char) : List Char := l.takeWhile isNamePart

/-- What follows the name of a trimmed line and the separator behind it. -/
def restOf (l : List Char) : List Char := afterSeparator (l.dropWhile isNamePart)

/-- A trimmed line gives the keyword that it begins with a value, and so says `content`. -/
structure Assigns (o : Origin) (l : List Char) (content : Line) : Prop where
  keyword : isKeyword (nameOf l) = true
  unbroken : IsUnbroken (restOf l)
  valued : trim (restOf l) ≠ []
  meaning : Says o (nameOf l) (trim (restOf l)) content

section Keyword

variable {name : List Char}

/-- A letter or a digit belongs to the name that it stands in. -/
theorem isNamePart_of_isAlphanum {c : Char} (h : c.isAlphanum = true) : isNamePart c = true := by
  rw [isNamePart, isBlank_of_isAlphanum h, Bool.not_false, Bool.true_and, bne_iff_ne]
  rintro rfl
  exact absurd h (by decide)

theorem isAlphanum_of_isKeyword (h : isKeyword name = true) :
    ∀ c ∈ name, c.isAlphanum = true := by
  cases name with
  | nil => exact nomatch h
  | cons c s =>
      rw [isKeyword, Bool.and_eq_true, List.all_eq_true] at h
      refine List.forall_mem_cons.mpr ⟨?_, h.2⟩
      rw [Char.isAlphanum, show c.isAlpha = true from h.1, Bool.true_or]

theorem isSnug_of_isKeyword (h : isKeyword name = true) : IsSnug name := by
  refine isSnug_of_forall ?_ fun c hc => isBlank_of_isAlphanum (isAlphanum_of_isKeyword h c hc)
  rintro rfl
  exact nomatch h

theorem isUnbroken_of_isKeyword (h : isKeyword name = true) : IsUnbroken name :=
  isUnbroken_of_isBlank fun c hc => isBlank_of_isAlphanum (isAlphanum_of_isKeyword h c hc)

variable {r : List Char} (hr : ∀ c ∈ r.head?, isNamePart c = false)

include hr

/-- A keyword is the name of its line if it goes on with none of it. -/
theorem nameOf_append (h : isKeyword name = true) : nameOf (name ++ r) = name :=
  takeWhile_cut (fun c hc => isNamePart_of_isAlphanum (isAlphanum_of_isKeyword h c hc)) hr

theorem restOf_append (h : isKeyword name = true) : restOf (name ++ r) = afterSeparator r := by
  have hcut := dropWhile_cut (p := isNamePart)
    (fun c hc => isNamePart_of_isAlphanum (isAlphanum_of_isKeyword h c hc)) hr
  rw [restOf, hcut]

end Keyword

section Assignment

variable {o : Origin} {l name value : List Char} {content : Line}

/-- A trimmed line is read exactly if it gives a keyword a value. -/
theorem parseTrimmed_eq_ok_iff : parseTrimmed o l = .ok content ↔ Assigns o l content := by
  have hname : (l.takeWhile fun c => !isBlank c && c != '=') = nameOf l := rfl
  have hrest : afterSeparator (l.dropWhile fun c => !isBlank c && c != '=') = restOf l := rfl
  rw [parseTrimmed, hname, hrest]
  simp only [bind, Except.bind, pure, Except.pure, throw, throwThe, MonadExceptOf.throw]
  constructor
  · intro h
    split_ifs at h with hreadable hkeyword hempty hcommand
    -- A command and words have passed the same checks.
    all_goals
      rw [Bool.or_eq_true, not_or, Bool.not_eq_true, Bool.not_eq_true] at hreadable
      rw [Bool.not_eq_true, Bool.not_eq_false'] at hkeyword
      refine ⟨hkeyword, isUnbroken_of_any hreadable.2, mt List.isEmpty_iff.mpr hempty, ?_⟩
    · obtain rfl := Except.ok.inj h
      exact .command hcommand
    · split at h
      · cases h
      · rename_i words hwords
        exact .words hcommand hwords h
  · rintro ⟨hkeyword, hunbroken, hvalued, hsays⟩
    have hreadable : ¬((nameOf l).isEmpty || (restOf l).any isLineBreak) = true := by
      rw [hunbroken.any_eq, Bool.or_false, List.isEmpty_iff]
      exact (isSnug_of_isKeyword hkeyword).ne_nil
    rw [if_neg hreadable, hkeyword, if_neg (by decide), if_neg (mt List.isEmpty_iff.mp hvalued)]
    cases hsays with
    | command hcommand => rw [if_pos hcommand]
    | words hcommand hwords hof =>
        rw [if_neg hcommand, hwords]
        exact hof

/-- A line that begins with a keyword is neither blank nor a comment. -/
theorem parse_eq_parseTrimmed (o : Origin) (hkeyword : isKeyword (nameOf (trim l)) = true) :
    parse o l = parseTrimmed o (trim l) := by
  rw [parse]
  split
  · rename_i hnil
    rw [hnil] at hkeyword
    exact absurd hkeyword Bool.false_ne_true
  · rename_i rest hcomment
    rw [hcomment] at hkeyword
    exact absurd hkeyword Bool.false_ne_true
  · rfl

/-- A line is read exactly if it is blank, a comment, or gives a keyword a value. -/
theorem parse_ok_iff : parse o l = .ok content ↔
    (trim l = [] ∨ (trim l).head? = some '#') ∧ content = .nothing
      ∨ Assigns o (trim l) content := by
  constructor
  · intro h
    rw [parse] at h
    split at h
    · rename_i hblank
      exact Or.inl ⟨Or.inl hblank, (Except.ok.inj h).symm⟩
    · rename_i rest hcomment
      exact Or.inl ⟨Or.inr (congrArg List.head? hcomment), (Except.ok.inj h).symm⟩
    · exact Or.inr (parseTrimmed_eq_ok_iff.mp h)
  · rintro (⟨hblank | hcomment, rfl⟩ | hassigns)
    · rw [parse, hblank]
    · obtain ⟨rest, hrest⟩ := List.head?_eq_some_iff.mp hcomment
      rw [parse, hrest]
      rfl
    · rw [parse_eq_parseTrimmed o hassigns.keyword]
      exact parseTrimmed_eq_ok_iff.mpr hassigns

theorem assigns_of_parse (h : parse o l = .ok content) (hne : content ≠ .nothing) :
    Assigns o (trim l) content :=
  (parse_ok_iff.mp h).resolve_left fun hidle => hne hidle.2

theorem Assigns.parse (h : Assigns o (trim l) content) : parse o l = .ok content :=
  parse_ok_iff.mpr (Or.inr h)

/-- A line that is not blank and no comment gives a keyword a value. -/
theorem says_of_parse (h : parse o l = .ok content) (hne : content ≠ .nothing) :
    ∃ name value, isKeyword name = true ∧ IsSnug value ∧ IsUnbroken value
      ∧ Says o name value content := by
  have hassigns := assigns_of_parse h hne
  exact ⟨_, _, hassigns.keyword, isSnug_trim hassigns.valued, hassigns.unbroken.trim,
    hassigns.meaning⟩

theorem isUnbroken_assignment (hname : IsUnbroken name) (hvalue : IsUnbroken value) :
    IsUnbroken (assignment name value) := by
  have hseparator : IsUnbroken [' ', '=', ' '] := isUnbroken_of_any rfl
  exact (hname.append hseparator).append hvalue

/-- What a keyword and its value say is what their line says. -/
theorem parse_assignment (hname : isKeyword name = true) (hsnug : IsSnug value)
    (hunbroken : IsUnbroken value) (h : Says o name value content) :
    parse o (assignment name value) = .ok content := by
  have htrim : trim (assignment name value) = name ++ ([' ', '=', ' '] ++ value) := by
    rw [← List.append_assoc]
    exact ((isSnug_of_isKeyword hname).append [' ', '=', ' '] hsnug).trim_eq
  have hstop : ∀ c ∈ ([' ', '=', ' '] ++ value).head?, isNamePart c = false := by
    rintro c ⟨⟩
    rfl
  have hrest : restOf (trim (assignment name value)) = value := by
    rw [htrim, restOf_append hstop hname]
    exact hsnug.trimStart_eq
  have hnameOf : nameOf (trim (assignment name value)) = name := by
    rw [htrim, nameOf_append hstop hname]
  -- The line falls apart into the name and the value again, and neither check refuses.
  refine Assigns.parse ⟨?_, ?_, ?_, ?_⟩
  · rw [hnameOf]
    exact hname
  · rw [hrest]
    exact hunbroken
  · rw [hrest, hsnug.trim_eq]
    exact hsnug.ne_nil
  · rw [hrest, hnameOf, hsnug.trim_eq]
    exact h

/-- Words that are written after a keyword are read back from its line. -/
theorem parse_words {ss ws : List (List Char)} (o : Origin) (hname : isKeyword name = true)
    (hcommand : lower (String.ofList name) ≠ "proxycommand") (hne : ss ≠ [])
    (hws : List.Forall₂ Words.IsWord ss ws) :
    IsUnbroken (assignment name (Words.joined ws))
      ∧ ∃ words : Words, words.args = ss.map String.ofList
        ∧ ∀ content, ofWords o (String.ofList name) words = .ok content →
          parse o (assignment name (Words.joined ws)) = .ok content := by
  have hunbroken := Words.isUnbroken_joined hws
  obtain ⟨words, hwords, hargs⟩ := Words.ofText?_joined hws
  refine ⟨isUnbroken_assignment (isUnbroken_of_isKeyword hname) hunbroken, words, hargs, ?_⟩
  intro content hof
  have hsays : Says o name (Words.joined ws) content := .words hcommand hwords hof
  exact parse_assignment hname (Words.isSnug_joined hws hne) hunbroken hsays

end Assignment

/-- The words of a line alone decide what its directive says: the text between them can be
    another. -/
theorem said_of_ofWords {o : Origin} {name : String} {words words' : Words} {d : Directive}
    (h : ofWords o name words = .ok (.directive d))
    (hargs : words'.args = words.args) :
    ∃ d', ofWords o name words' = .ok (.directive d') ∧ d'.said = d.said := by
  obtain ⟨hne, hkey, hsingle, hport, rfl⟩ := ofWords_eq_directive_iff.mp h
  refine ⟨⟨lower name, name, valueOf words', words'.args, o⟩, ?_, ?_⟩
  · refine ofWords_eq_directive_iff.mpr ⟨hargs ▸ hne, hkey, hargs ▸ hsingle, ?_, rfl⟩
    rintro ⟨hname, hnone⟩
    -- A port is the only word of its line, so its value is no text between words.
    rw [hname] at hsingle
    have hone : words.args.length = 1 := by
      have hpos := List.length_pos_iff.mpr hne
      have hle := mt (fun hmany => ⟨hmany, rfl⟩) hsingle
      omega
    obtain ⟨arg, harg⟩ := List.length_eq_one_iff.mp hone
    rw [valueOf_singleton (hargs.trans harg)] at hnone
    rw [valueOf_singleton harg] at hport
    exact hport ⟨hname, hnone⟩
  · rw [Directive.said, Directive.said, hargs]

end Line

end SshDial
