import SshDial.Proofs.Config.Assignment
import SshDial.Proofs.Config.Reading

/-! # Writing — the lines that a configuration can be written as

    A stanza is written as the line that opens it and a line for each directive, each a
    name, an equals sign and a value; words are quoted, in any of the ways there are, and a
    proxy command stands as it is.  `written` is one such text (`isWriting_written`).

    What a line said once it says again when it is written so: `Line.reparse_directive` for
    directives, `Line.reparse_heading` for Host and Match lines.  For a Match line this
    needs that its conditions are such as a Match line can state (`Condition.IsStated`). -/

namespace SshDial

open SshDial.Text

/-- The word for a criterion, with `!` where it is negated. -/
def Criterion.marked (criterion : Criterion) (negated : Bool) : List Char :=
  (if negated then ['!'] else []) ++ criterion.word.toList

/-- The word of a condition. -/
def Condition.word (c : Condition) : List Char := c.criterion.marked c.negated

/-- How a condition is written: its word and, if it takes an argument, the list of its
    patterns in quotes. -/
inductive Condition.IsWrittenAs (c : Condition) : List (List Char) → Prop where
  | bare : c.criterion.takesArgument = false → c.IsWrittenAs [c.word]
  | listed {w : List Char} : c.criterion.takesArgument = true →
      Words.Quoted (Pattern.listed c.patterns) w → c.IsWrittenAs [c.word, w]

/-- The lines that open a stanza: none before the first Host or Match line. -/
inductive Criteria.IsWrittenAs : Criteria → List (List Char) → Prop where
  | global : Criteria.global.IsWrittenAs []
  | host {patterns : List String} {ws : List (List Char)} :
      List.Forall₂ Words.Quoted (patterns.map String.toList) ws →
      (Criteria.host patterns).IsWrittenAs [Line.assignment "Host".toList (Words.joined ws)]
  | matching {conditions : List Condition} {parts : List (List (List Char))} :
      List.Forall₂ Condition.IsWrittenAs conditions parts →
      (Criteria.matching conditions).IsWrittenAs
        [Line.assignment "Match".toList (Words.joined parts.flatten)]

/-- The line of a directive; a proxy command is not quoted. -/
inductive Directive.IsWrittenAs (d : Directive) : List Char → Prop where
  | command : d.key = "proxycommand" →
      d.IsWrittenAs (Line.assignment d.name.toList d.value.toList)
  | words {ws : List (List Char)} : d.key ≠ "proxycommand" →
      List.Forall₂ Words.Quoted (d.args.map String.toList) ws →
      d.IsWrittenAs (Line.assignment d.name.toList (Words.joined ws))

/-- The lines of a stanza. -/
inductive Stanza.IsWrittenAs (s : Stanza) : List (List Char) → Prop where
  | lines {opening settings : List (List Char)} : s.criteria.IsWrittenAs opening →
      List.Forall₂ Directive.IsWrittenAs s.directives settings →
      s.IsWrittenAs (opening ++ settings)

/-- The text of some stanzas, one line after the other; the last line may end in a line
    break too. -/
def IsWriting (stanzas : List Stanza) (text : String) : Prop :=
  ∃ parts, List.Forall₂ Stanza.IsWrittenAs stanzas parts
    ∧ (text = joinLines parts.flatten ∨ text = joinLines (parts.flatten ++ [[]]))

section Writer

/-- The words of a condition, its pattern list in double quotes. -/
def Condition.write (c : Condition) : List (List Char) :=
  if c.criterion.takesArgument then [c.word, Words.quote (Pattern.listed c.patterns)]
  else [c.word]

/-- The lines that open a stanza. -/
def Criteria.write : Criteria → List (List Char)
  | .global => []
  | .host patterns =>
      [Line.assignment "Host".toList
        (Words.joined ((patterns.map String.toList).map Words.quote))]
  | .matching conditions =>
      [Line.assignment "Match".toList (Words.joined (conditions.map Condition.write).flatten)]

/-- The line of a directive. -/
def Directive.write (d : Directive) : List Char :=
  if d.key = "proxycommand" then Line.assignment d.name.toList d.value.toList
  else Line.assignment d.name.toList
    (Words.joined ((d.args.map String.toList).map Words.quote))

/-- The lines of a stanza. -/
def Stanza.write (s : Stanza) : List (List Char) :=
  s.criteria.write ++ s.directives.map Directive.write

/-- A text of some stanzas, every line of it ended. -/
def written (stanzas : List Stanza) : String :=
  joinLines ((stanzas.map Stanza.write).flatten ++ [[]])

theorem forall₂_map {α β : Type} {R : α → β → Prop} {f : α → β} (h : ∀ a, R a (f a))
    (as : List α) : List.Forall₂ R as (as.map f) :=
  List.forall₂_map_right_iff.mpr (List.forall₂_same.mpr fun a _ => h a)

theorem Condition.isWrittenAs_write (c : Condition) : c.IsWrittenAs c.write := by
  rw [write]
  split
  · rename_i htakes
    exact .listed htakes (Words.quoted_quote _)
  · rename_i hbare
    exact .bare (Bool.eq_false_iff.mpr hbare)

theorem Criteria.isWrittenAs_write (criteria : Criteria) :
    criteria.IsWrittenAs criteria.write := by
  cases criteria with
  | global => exact .global
  | host patterns => exact .host (forall₂_map Words.quoted_quote _)
  | matching conditions => exact .matching (forall₂_map Condition.isWrittenAs_write _)

theorem Directive.isWrittenAs_write (d : Directive) : d.IsWrittenAs d.write := by
  rw [write]
  split
  · rename_i hkey
    exact .command hkey
  · rename_i hkey
    exact .words hkey (forall₂_map Words.quoted_quote _)

theorem Stanza.isWrittenAs_write (s : Stanza) : s.IsWrittenAs s.write :=
  .lines s.criteria.isWrittenAs_write (forall₂_map Directive.isWrittenAs_write _)

/-- Any stanzas can be written. -/
theorem isWriting_written (stanzas : List Stanza) : IsWriting stanzas (written stanzas) :=
  ⟨_, forall₂_map Stanza.isWrittenAs_write stanzas, Or.inr rfl⟩

end Writer

/-- What a stanza says wherever it stands. -/
def Stanza.said (s : Stanza) : Criteria × List (String × String × List String) :=
  (s.criteria, s.directives.map Directive.said)

namespace Line

section Conditions

variable {words : List String} {cs : List Condition}

theorem conditions_eq_ok_iff : conditions words = .ok cs ↔ conditionList words = .ok cs
    ∧ ¬(cs.any (·.criterion == .all) && cs.any (·.criterion.takesArgument)) = true := by
  rw [conditions, bind_eq_ok_iff]
  simp only [bind, Except.bind, pure, Except.pure, throw, throwThe, MonadExceptOf.throw]
  constructor
  · rintro ⟨cs', hlist, h⟩
    split_ifs at h with hall
    obtain rfl := Except.ok.inj h
    exact ⟨hlist, hall⟩
  · rintro ⟨hlist, hall⟩
    exact ⟨cs, hlist, if_neg hall⟩

/-- Words that make no condition are no words. -/
theorem eq_nil_of_conditionList (h : conditionList words = .ok []) : words = [] := by
  fun_induction conditionList words with
  | case1 => rfl
  | case2 word rest hnone => exact nomatch h
  | case3 word criterion negated hsome htakes => exact nomatch h
  | case4 word criterion negated hsome htakes argument rest _ =>
      obtain ⟨cs, -, hcons⟩ := map_eq_ok_iff.mp h
      exact nomatch hcons
  | case5 word rest criterion negated hsome htakes _ =>
      obtain ⟨cs, -, hcons⟩ := map_eq_ok_iff.mp h
      exact nomatch hcons

end Conditions

end Line

namespace Criterion

variable (criterion : Criterion) (negated : Bool)

theorem isWord_marked : Words.IsWord (criterion.marked negated) (criterion.marked negated) := by
  have hbare : (criterion.marked negated).all Words.isBare = true := by
    cases criterion <;> cases negated <;> decide
  have hne : criterion.marked negated ≠ [] := by
    cases criterion <;> cases negated <;> decide
  exact Words.isWord_bare hne (List.all_eq_true.mp hbare)

theorem criterion?_marked :
    Line.criterion? (String.ofList (criterion.marked negated)) = some (criterion, negated) := by
  cases criterion <;> cases negated <;> decide

end Criterion

namespace Condition

open SshDial.Words

/-- A condition that a Match line can state: with no patterns, or with those of an
    argument. -/
inductive IsStated (c : Condition) : Prop where
  | bare : c.criterion.takesArgument = false → c.patterns = [] → c.IsStated
  | argument {a : String} : c.criterion.takesArgument = true → IsUnbroken a.toList →
      c.patterns = Line.criterionPatterns c.criterion a → c.IsStated

theorem isStated_of_conditionList {words : List String} {cs : List Condition}
    (h : Line.conditionList words = .ok cs) (hwords : ∀ w ∈ words, IsUnbroken w.toList) :
    ∀ c ∈ cs, c.IsStated := by
  -- Along the conditions, not the words: an argument goes with the word before it.
  fun_induction Line.conditionList words generalizing cs with
  | case1 =>
      obtain rfl := Except.ok.inj h
      exact fun c hc => absurd hc List.not_mem_nil
  | case2 word rest hnone => exact nomatch h
  | case3 word criterion negated hsome htakes => exact nomatch h
  | case4 word criterion negated hsome htakes argument rest ih =>
      obtain ⟨cs', hrest, rfl⟩ := map_eq_ok_iff.mp h
      obtain ⟨hargument, hlater⟩ := List.forall_mem_cons.mp (List.forall_mem_cons.mp hwords).2
      exact List.forall_mem_cons.mpr ⟨.argument htakes hargument rfl, ih hrest hlater⟩
  | case5 word rest criterion negated hsome htakes ih =>
      obtain ⟨cs', hrest, rfl⟩ := map_eq_ok_iff.mp h
      have hbare : criterion.takesArgument = false := Bool.eq_false_iff.mpr htakes
      have hlater := (List.forall_mem_cons.mp hwords).2
      exact List.forall_mem_cons.mpr ⟨.bare hbare rfl, ih hrest hlater⟩

/-- The pattern list of a condition is read as its patterns: a command whole, every other
    argument between its commas. -/
theorem criterionPatterns_listed {c : Condition} (h : c.IsStated)
    (htakes : c.criterion.takesArgument = true) :
    Line.criterionPatterns c.criterion (String.ofList (Pattern.listed c.patterns)) = c.patterns
      ∧ IsUnbroken (Pattern.listed c.patterns) := by
  cases h with
  | bare hnone _ => exact absurd (htakes.symm.trans hnone) (by decide)
  | @argument a _ hunbroken hpatterns =>
      rw [Line.criterionPatterns] at hpatterns ⊢
      by_cases hexec : c.criterion = .exec
      · -- A command is the only pattern of its condition, so no comma is put in or cut at.
        rw [if_pos hexec] at hpatterns ⊢
        have hlisted : Pattern.listed c.patterns = a.toList := by
          rw [hpatterns]
          exact List.intercalate_singleton
        rw [hlisted, String.ofList_toList, hpatterns]
        exact ⟨rfl, hunbroken⟩
      · rw [if_neg hexec] at hpatterns ⊢
        have hmem : ∀ p ∈ c.patterns, p ∈ Pattern.splitList a := fun p hp => hpatterns ▸ hp
        constructor
        · exact Pattern.splitList_listed fun p hp =>
            Pattern.isListable_of_mem_splitList (hmem p hp)
        · exact Pattern.isUnbroken_listed fun p hp =>
            Pattern.isUnbroken_of_mem_splitList (hmem p hp) hunbroken

/-- The words of a condition are read as the condition, whatever words follow. -/
theorem IsWrittenAs.words {c : Condition} {ws : List (List Char)} (h : c.IsWrittenAs ws)
    (hc : c.IsStated) :
    ∃ ss, List.Forall₂ IsWord ss ws ∧ ∀ rest, Line.conditionList (ss.map String.ofList ++ rest)
      = (Line.conditionList rest).map (c :: ·) := by
  have hword : Line.criterion? (String.ofList c.word) = some (c.criterion, c.negated) :=
    c.criterion.criterion?_marked c.negated
  cases h with
  | bare hnone =>
      refine ⟨[c.word], .cons (c.criterion.isWord_marked c.negated) .nil, fun rest => ?_⟩
      cases hc with
      | bare _ hpatterns =>
          rw [List.map_singleton, List.singleton_append, Line.conditionList, hword]
          show (if c.criterion.takesArgument = true then _ else _) = _
          rw [if_neg (Bool.eq_false_iff.mp hnone), ← hpatterns]
      | argument htakes _ _ => exact absurd (htakes.symm.trans hnone) (by decide)
  | @listed w htakes hw =>
      obtain ⟨hpatterns, hunbroken⟩ := criterionPatterns_listed hc htakes
      refine ⟨[c.word, Pattern.listed c.patterns],
        .cons (c.criterion.isWord_marked c.negated) (.cons (hw.isWord hunbroken) .nil),
        fun rest => ?_⟩
      rw [List.map_cons, List.map_singleton, List.cons_append, List.singleton_append,
        Line.conditionList, hword]
      show (if c.criterion.takesArgument = true then _ else _) = _
      rw [if_pos htakes]
      show (Line.conditionList rest).map (fun cs => (⟨c.criterion, c.negated,
        Line.criterionPatterns c.criterion _⟩ : Condition) :: cs) = _
      rw [hpatterns]

/-- The words of some conditions are read as these conditions. -/
theorem words_of_parts {cs : List Condition} {parts : List (List (List Char))}
    (h : List.Forall₂ IsWrittenAs cs parts) (hcs : ∀ c ∈ cs, c.IsStated) :
    ∃ ss, List.Forall₂ IsWord ss parts.flatten
      ∧ Line.conditionList (ss.map String.ofList) = .ok cs := by
  induction h with
  | nil => exact ⟨[], .nil, rfl⟩
  | @cons c ws cs parts hc _ ih =>
      obtain ⟨hstated, hlater⟩ := List.forall_mem_cons.mp hcs
      obtain ⟨ss, hss, hread⟩ := hc.words hstated
      obtain ⟨ss', hss', hrest⟩ := ih hlater
      refine ⟨ss ++ ss', List.rel_append hss hss', ?_⟩
      rw [List.map_append, hread, hrest]
      rfl

end Condition

namespace Line

open SshDial.Words

/-- **A directive is read again.** What a line has said as a directive, the directive's own
    line says too. -/
theorem reparse_directive {o : Origin} {l : List Char} {d : Directive}
    (h : parse o l = .ok (.directive d)) {line : List Char} (hline : d.IsWrittenAs line) :
    IsUnbroken line ∧ ∃ d', parse o line = .ok (.directive d') ∧ d'.said = d.said := by
  obtain ⟨name, value, hname, hsnug, hunbroken, hsays⟩ := says_of_parse h (nomatch ·)
  cases hsays with
  | command hcommand =>
      cases hline with
      | words hkey _ => exact absurd rfl hkey
      | command _ =>
          show IsUnbroken (assignment (String.ofList name).toList (String.ofList value).toList)
            ∧ ∃ d', parse o (assignment (String.ofList name).toList _) = .ok (.directive d') ∧ _
          rw [String.toList_ofList, String.toList_ofList]
          refine ⟨isUnbroken_assignment (isUnbroken_of_isKeyword hname) hunbroken, _, ?_, rfl⟩
          exact parse_assignment hname hsnug hunbroken (.command hcommand)
  | @words words _ hcommand hwords hof =>
      obtain ⟨hne, -, -, -, rfl⟩ := ofWords_eq_directive_iff.mp hof
      cases hline with
      | command hkey => exact absurd hkey hcommand
      | words _ hws =>
          have hargs := isUnbroken_of_mem_args hwords hunbroken
          have hss := forall₂_isWord hws (List.forall_mem_map.mpr hargs)
          obtain ⟨hline, words', hwords', hread⟩ :=
            parse_words o hname hcommand (mt List.map_eq_nil_iff.mp hne) hss
          rw [map_ofList_toList] at hwords'
          obtain ⟨d', hd', hsaid⟩ := said_of_ofWords hof hwords'
          show IsUnbroken (assignment (String.ofList name).toList _)
            ∧ ∃ d', parse o (assignment (String.ofList name).toList _) = .ok (.directive d') ∧ _
          rw [String.toList_ofList]
          exact ⟨hline, d', hread _ hd', hsaid⟩

section Heading

variable {o : Origin} {opening : List (List Char)}

theorem parse_host {patterns : List String} (hne : patterns ≠ [])
    (hpatterns : ∀ p ∈ patterns, IsUnbroken p.toList)
    (h : (Criteria.host patterns).IsWrittenAs opening) :
    ∃ line, opening = [line] ∧ IsUnbroken line
      ∧ parse o line = .ok (.heading (.host patterns)) := by
  cases h with
  | host hws =>
      have hss := forall₂_isWord hws (List.forall_mem_map.mpr hpatterns)
      obtain ⟨hline, words, hwords, hread⟩ :=
        @parse_words "Host".toList _ _ o rfl (by decide) (mt List.map_eq_nil_iff.mp hne) hss
      rw [map_ofList_toList] at hwords
      refine ⟨_, rfl, hline, hread _ ?_⟩
      rw [ofWords_eq_heading_iff, hwords]
      exact ⟨hne, Or.inl ⟨by decide, rfl⟩⟩

theorem parse_match {words : List String} {cs : List Condition} (hne : words ≠ [])
    (hwords : ∀ w ∈ words, IsUnbroken w.toList) (hcs : conditions words = .ok cs)
    (h : (Criteria.matching cs).IsWrittenAs opening) :
    ∃ line, opening = [line] ∧ IsUnbroken line
      ∧ parse o line = .ok (.heading (.matching cs)) := by
  cases h with
  | matching hparts =>
      obtain ⟨hlist, hall⟩ := conditions_eq_ok_iff.mp hcs
      obtain ⟨ss, hss, hread⟩ :=
        Condition.words_of_parts hparts (Condition.isStated_of_conditionList hlist hwords)
      have hwritten : ss ≠ [] := by
        rintro rfl
        obtain rfl := Except.ok.inj hread
        exact hne (eq_nil_of_conditionList hlist)
      obtain ⟨hline, words', hwords', hparse⟩ :=
        @parse_words "Match".toList _ _ o rfl (by decide) hwritten hss
      refine ⟨_, rfl, hline, hparse _ ?_⟩
      rw [ofWords_eq_heading_iff, hwords']
      refine ⟨mt List.map_eq_nil_iff.mp hwritten, Or.inr ⟨by decide, cs, ?_, rfl⟩⟩
      exact conditions_eq_ok_iff.mpr ⟨hread, hall⟩

/-- **A Host or Match line is read again.** What such a line has said, the line that is
    written for it says too. -/
theorem reparse_heading {l : List Char} {criteria : Criteria}
    (h : parse o l = .ok (.heading criteria)) (hopening : criteria.IsWrittenAs opening) :
    ∃ line, opening = [line] ∧ IsUnbroken line
      ∧ parse o line = .ok (.heading criteria) := by
  obtain ⟨name, value, hname, hsnug, hunbroken, hsays⟩ := says_of_parse h (nomatch ·)
  cases hsays with
  | @words words _ hcommand hwords hof =>
      have hargs := isUnbroken_of_mem_args hwords hunbroken
      obtain ⟨hne, ⟨-, rfl⟩ | ⟨-, cs, hconditions, rfl⟩⟩ := ofWords_eq_heading_iff.mp hof
      · exact parse_host hne hargs hopening
      · exact parse_match hne hargs hconditions hopening

end Heading

end Line

end SshDial
