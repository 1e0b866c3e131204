import SshDial.Proofs.Config.Writing

/-! # Conditions — the grammar of Match lines

    `Condition.States` is the grammar: criteria one after the other, each of them a keyword
    in any letter case, with `!` before it or not, and behind it an argument if the
    criterion takes one, whatever that says.  Reading takes one word or two at a time and
    finds just these conditions (`Line.conditionList_eq_ok_iff`).

    `Line.matching_grammar` is the headline: a Match line is accepted exactly if its words
    state conditions among which no `all` stands beside one with an argument. -/

namespace SshDial

open SshDial.Text

/-! ## The grammar -/

/-- The word names the criterion: its keyword in any letter case, after `!` if negated. -/
def Criterion.IsNamedBy (criterion : Criterion) (negated : Bool) (word : List Char) : Prop :=
  ∃ letters, word = (if negated then '!' :: letters else letters)
    ∧ letters.map Char.toLower = criterion.word.toList

/-- The patterns that an argument stands for: the parts between its commas, trimmed, and
    not the empty ones.  A command is one pattern, commas and all. -/
def Criterion.patternsIn (criterion : Criterion) (argument : String) : List String :=
  match criterion with
  | .exec => [argument]
  | _ => (((argument.toList.splitOn ',').map trim).filter (· ≠ [])).map String.ofList

/-- The words state the conditions, one after the other. -/
inductive Condition.States : List String → List Condition → Prop where
  | nil : States [] []
  | bare {criterion : Criterion} {negated : Bool} {word : String} {words : List String}
      {cs : List Condition} :
      criterion.IsNamedBy negated word.toList → criterion.takesArgument = false →
      States words cs → States (word :: words) (⟨criterion, negated, []⟩ :: cs)
  | argument {criterion : Criterion} {negated : Bool} {word argument : String}
      {words : List String} {cs : List Condition} :
      criterion.IsNamedBy negated word.toList → criterion.takesArgument = true →
      States words cs →
      States (word :: argument :: words)
        (⟨criterion, negated, criterion.patternsIn argument⟩ :: cs)

/-- The words of a Match line: they state the conditions, and `all` is not among them
    together with one that has an argument. -/
structure Condition.IsMatching (words : List String) (cs : List Condition) : Prop where
  states : States words cs
  alone : ∀ c ∈ cs, ∀ c' ∈ cs, c.criterion = .all → c'.criterion.takesArgument = false

/-! ## Words that name criteria -/

namespace Criterion

variable {criterion : Criterion} {negated : Bool}

theorem ofWord?_eq_some_iff {w : String} : ofWord? w = some criterion ↔ w = criterion.word := by
  constructor
  · intro h
    rw [ofWord?] at h
    have hword := List.find?_some h
    exact (beq_iff_eq.mp hword).symm
  · rintro rfl
    cases criterion <;> decide

/-- No keyword has a letter that only its lower case makes ASCII. -/
theorem plain_of_mem_word : ∀ x ∈ criterion.word.toList, x ≠ 'k' ∧ x.toNat < 128 := by
  have hletters : criterion.word.toList.all (fun x => decide (x ≠ 'k' ∧ x.toNat < 128))
      = true := by
    cases criterion <;> decide
  intro x hx
  exact of_decide_eq_true (List.all_eq_true.mp hletters x hx)

/-- **A word is read as the criterion that it names.** -/
theorem criterion?_eq_some_iff {word : String} :
    Line.criterion? word = some (criterion, negated) ↔ criterion.IsNamedBy negated word.toList := by
  have hword : ∀ letters, ofWord? (lower (String.ofList letters)) = some criterion
      ↔ letters.map Char.toLower = criterion.word.toList := by
    intro letters
    rw [ofWord?_eq_some_iff, lower, String.toList_ofList, ← String.toList_inj,
      String.toList_ofList, map_lowerChar_eq_iff plain_of_mem_word]
  have hmarked : ∀ letters, ('!' :: letters).map Char.toLower ≠ criterion.word.toList := by
    have hfirst : criterion.word.toList.head? ≠ some '!' := by
      cases criterion <;> decide
    exact fun letters h => hfirst (congrArg List.head? h).symm
  rw [Line.criterion?]
  split
  · rename_i rest hrest
    rw [Option.map_eq_some_iff, hrest]
    constructor
    · rintro ⟨k, hk, hpair⟩
      obtain ⟨rfl, rfl⟩ := Prod.mk.inj hpair
      exact ⟨rest, rfl, (hword rest).mp hk⟩
    · rintro ⟨letters, heq, hletters⟩
      cases negated with
      | true =>
          obtain rfl := (List.cons.inj heq).2
          exact ⟨criterion, (hword rest).mpr hletters, rfl⟩
      | false => exact absurd (heq ▸ hletters) (hmarked rest)
  · rename_i hplain
    rw [Option.map_eq_some_iff]
    have hsame := hword word.toList
    rw [String.ofList_toList] at hsame
    constructor
    · rintro ⟨k, hk, hpair⟩
      obtain ⟨rfl, rfl⟩ := Prod.mk.inj hpair
      exact ⟨word.toList, rfl, hsame.mp hk⟩
    · rintro ⟨letters, heq, hletters⟩
      cases negated with
      | true => exact absurd heq (hplain letters)
      | false =>
          rw [← (show word.toList = letters from heq)] at hletters
          exact ⟨criterion, hsame.mpr hletters, rfl⟩

theorem criterionPatterns_eq (argument : String) :
    Line.criterionPatterns criterion argument = criterion.patternsIn argument := by
  have hsplit : Pattern.splitList argument
      = (((argument.toList.splitOn ',').map trim).filter (· ≠ [])).map String.ofList := by
    have hfilter : (fun p : List Char => !p.isEmpty) = fun p => decide (p ≠ []) := by
      funext p
      cases p <;> rfl
    rw [Pattern.splitList, splitAt_eq_splitOn, hfilter]
  rw [Line.criterionPatterns, hsplit]
  cases criterion <;> rfl

end Criterion

/-! ## Reading -/

namespace Line

/-- **The words are read as the conditions that they state**, one word or two at a time. -/
theorem conditionList_eq_ok_iff {words : List String} {cs : List Condition} :
    conditionList words = .ok cs ↔ Condition.States words cs := by
  constructor
  · intro h
    fun_induction conditionList words generalizing cs with
    | case1 =>
        obtain rfl := Except.ok.inj h
        exact .nil
    | case2 word rest hnone => cases h
    | case3 word criterion negated hnamed htakes => cases h
    | case4 word criterion negated hnamed htakes argument rest ih =>
        obtain ⟨cs', hrest, rfl⟩ := map_eq_ok_iff.mp h
        rw [Criterion.criterionPatterns_eq]
        exact .argument (Criterion.criterion?_eq_some_iff.mp hnamed) htakes (ih hrest)
    | case5 word rest criterion negated hnamed htakes ih =>
        obtain ⟨cs', hrest, rfl⟩ := map_eq_ok_iff.mp h
        exact .bare (Criterion.criterion?_eq_some_iff.mp hnamed) (Bool.eq_false_iff.mpr htakes)
          (ih hrest)
  · intro h
    induction h with
    | nil => rfl
    | @bare criterion negated word words cs hnamed hbare _ ih =>
        rw [conditionList, Criterion.criterion?_eq_some_iff.mpr hnamed, ih]
        show (if criterion.takesArgument = true then _ else _) = _
        rw [hbare]
        rfl
    | @argument criterion negated word argument words cs hnamed htakes _ ih =>
        rw [conditionList, Criterion.criterion?_eq_some_iff.mpr hnamed]
        show (if criterion.takesArgument = true then _ else _) = _
        rw [if_pos htakes, ← Criterion.criterionPatterns_eq]
        show (conditionList words).map _ = _
        rw [ih]
        rfl

theorem conditions_eq_ok_iff_isMatching {words : List String} {cs : List Condition} :
    conditions words = .ok cs ↔ Condition.IsMatching words cs := by
  have halone : ¬(cs.any (·.criterion == .all) && cs.any (·.criterion.takesArgument)) = true
      ↔ ∀ c ∈ cs, ∀ c' ∈ cs, c.criterion = .all → c'.criterion.takesArgument = false := by
    rw [Bool.and_eq_true, List.any_eq_true, List.any_eq_true]
    constructor
    · intro h c hc c' hc' hall
      rw [← Bool.not_eq_true]
      exact fun htakes => h ⟨⟨c, hc, beq_iff_eq.mpr hall⟩, c', hc', htakes⟩
    · rintro h ⟨⟨c, hc, hall⟩, c', hc', htakes⟩
      exact absurd (htakes.symm.trans (h c hc c' hc' (beq_iff_eq.mp hall))) (by decide)
  rw [conditions_eq_ok_iff, conditionList_eq_ok_iff, halone]
  exact ⟨fun h => ⟨h.1, h.2⟩, fun h => ⟨h.states, h.alone⟩⟩

/-- A Match line says the conditions that its words make. -/
theorem ofWords_of_match {name : String} (hname : lower name = "match") (o : Origin)
    {words : Words} (hne : words.args ≠ []) :
    ofWords o name words = (conditions words.args).map fun cs => .heading (.matching cs) := by
  have hhost : ¬lower name = "host" := by
    rw [hname]
    decide
  rw [ofWords]
  simp only [bind, Except.bind, pure, Except.pure, throw, throwThe, MonadExceptOf.throw]
  rw [if_neg (mt List.isEmpty_iff.mp hne), if_neg hhost, if_pos hname]
  cases conditions words.args with
  | error fault => rfl
  | ok cs => rfl

/-- **A Match line is accepted exactly if its words state conditions**, and `all` stands
    beside none that has an argument.  It then says these conditions and no others; and a
    Match line with any other words is refused where it stands. -/
theorem matching_grammar (words : List String) :
    (∀ cs, conditions words = .ok cs ↔ Condition.IsMatching words cs)
    ∧ (∀ cs cs', Condition.IsMatching words cs → Condition.IsMatching words cs' → cs = cs')
    ∧ ∀ (o : Origin) (name body : String), lower name = "match" → words ≠ [] →
        (∀ content, ofWords o name ⟨words, body⟩ = .ok content ↔
          ∃ cs, content = .heading (.matching cs) ∧ Condition.IsMatching words cs)
        ∧ ((∀ cs, ¬Condition.IsMatching words cs) ↔ ∃ fault f,
          ofWords o name ⟨words, body⟩ = .error fault
            ∧ (ReadFault.line fault o).refusal = .failure f ∧ f.code.text = "ESYNTAX"
            ∧ f.details.path = o.path ∧ f.details.line = some (o.line : Int)) := by
  refine ⟨fun cs => conditions_eq_ok_iff_isMatching, ?_, ?_⟩
  · intro cs cs' h h'
    have hcs := conditions_eq_ok_iff_isMatching.mpr h
    exact Except.ok.inj (hcs.symm.trans (conditions_eq_ok_iff_isMatching.mpr h'))
  · intro o name body hname hne
    have hline : ofWords o name ⟨words, body⟩
        = (conditions words).map fun cs => .heading (.matching cs) := ofWords_of_match hname o hne
    rw [hline]
    constructor
    · intro content
      rw [map_eq_ok_iff]
      constructor
      · rintro ⟨cs, hcs, rfl⟩
        exact ⟨cs, rfl, conditions_eq_ok_iff_isMatching.mp hcs⟩
      · rintro ⟨cs, rfl, hcs⟩
        exact ⟨cs, conditions_eq_ok_iff_isMatching.mpr hcs, rfl⟩
    · constructor
      · intro hnone
        cases hconditions : conditions words with
        | ok cs => exact absurd (conditions_eq_ok_iff_isMatching.mp hconditions) (hnone cs)
        | error fault => exact ⟨fault, _, rfl, rfl, rfl, rfl, rfl⟩
      · rintro ⟨fault, f, hfault, -⟩ cs hcs
        rw [conditions_eq_ok_iff_isMatching.mpr hcs] at hfault
        exact nomatch hfault

example : conditions ["!User", "all", "FINAL"]
    = .ok [⟨.user, true, ["all"]⟩, ⟨.final, false, []⟩] := by decide

end Line

end SshDial
