import Mathlib.Tactic.SplitIfs
import SshDial.Config.Line

/-! # Lines — what reading a line on its own guarantees

    The place of a line reaches nothing but the directive that it writes
    (`Line.parse_eq_map_placed`), so moving a line changes its directive's origin and no
    more.  `Line.ofWords_eq_directive_iff` and `Line.ofWords_eq_heading_iff` say when the
    words after a keyword make a directive or a heading, and which one; so a port that is
    accepted is a number from 1 to 65535 (`Line.port?_of_parse`). -/

namespace SshDial.Line

open SshDial.Text

/-- The line with its directive, if it writes one, standing at `origin`. -/
def placed (origin : Origin) : Line → Line
  | .directive d => .directive { d with origin }
  | content => content

theorem ofWords_eq_map_placed (o o' : Origin) (name : String) (ws : Words) :
    ofWords o name ws = (ofWords o' name ws).map (placed o) := by
  rw [ofWords, ofWords]
  simp only [bind, Except.bind, pure, Except.pure, throw, throwThe, MonadExceptOf.throw]
  split_ifs
  · rfl
  · rfl
  · cases conditions ws.args <;> rfl
  · rfl
  · rfl
  · rfl
  · rfl

theorem parseTrimmed_eq_map_placed (o o' : Origin) (l : List Char) :
    parseTrimmed o l = (parseTrimmed o' l).map (placed o) := by
  rw [parseTrimmed, parseTrimmed]
  simp only [bind, Except.bind, pure, Except.pure, throw, throwThe, MonadExceptOf.throw]
  split_ifs
  · rfl
  · rfl
  · rfl
  · rfl
  · split
    · rfl
    · exact ofWords_eq_map_placed o o' _ _

/-- The place of a line reaches nothing but the directive that it writes. -/
theorem parse_eq_map_placed (o o' : Origin) (l : List Char) :
    parse o l = (parse o' l).map (placed o) := by
  rw [parse, parse]
  split
  · rfl
  · rfl
  · exact parseTrimmed_eq_map_placed o o' _

theorem placed_of_parse {o : Origin} {l : List Char} {content : Line}
    (h : parse o l = .ok content) : content.placed o = content := by
  have hmap := parse_eq_map_placed o o l
  rw [h] at hmap
  exact (Except.ok.inj hmap).symm

/-- A line keeps its meaning wherever it stands. -/
theorem parse_placed {o : Origin} {l : List Char} {content : Line}
    (h : parse o l = .ok content) (o' : Origin) : parse o' l = .ok (content.placed o') := by
  rw [parse_eq_map_placed o' o, h]
  rfl

/-- A directive stands where its line does. -/
theorem origin_of_parse {o : Origin} {l : List Char} {d : Directive}
    (h : parse o l = .ok (.directive d)) : d.origin = o :=
  (congrArg Directive.origin (Line.directive.inj (placed_of_parse h))).symm

section Words

variable {o : Origin} {name : String} {words : Words}

/-- The value of a directive: its only word, or the text of its words. -/
def valueOf (words : Words) : String :=
  match words.args with
  | [arg] => arg
  | _ => String.ofList (trimEnd words.body.toList)

theorem valueOf_singleton {arg : String} (h : words.args = [arg]) : valueOf words = arg := by
  rw [valueOf, h]

/-- When the words after a keyword make a directive, and which one. -/
theorem ofWords_eq_directive_iff {d : Directive} :
    ofWords o name words = .ok (.directive d) ↔
      words.args ≠ [] ∧ lower name ∉ ["host", "match", "include"]
        ∧ ¬(1 < words.args.length ∧ isSingleValued (lower name) = true)
        ∧ ¬(lower name = "port" ∧ (port? (valueOf words)).isNone = true)
        ∧ d = ⟨lower name, name, valueOf words, words.args, o⟩ := by
  rw [ofWords]
  simp only [bind, Except.bind, pure, Except.pure, throw, throwThe, MonadExceptOf.throw]
  constructor
  · intro h
    split_ifs at h with hempty hhost hmatch hinclude hsingle hport
    · exact nomatch h
    · cases hconditions : conditions words.args with
      | error fault =>
          rw [hconditions] at h
          exact nomatch h
      | ok cs =>
          rw [hconditions] at h
          exact nomatch h
    · exact nomatch h
    · obtain rfl := Line.directive.inj (Except.ok.inj h)
      refine ⟨mt List.isEmpty_iff.mpr hempty, ?_, hsingle, hport, rfl⟩
      rw [List.mem_cons, List.mem_cons, List.mem_singleton, not_or, not_or]
      exact ⟨hhost, hmatch, hinclude⟩
  · rintro ⟨hne, hkey, hsingle, hport, rfl⟩
    rw [List.mem_cons, List.mem_cons, List.mem_singleton, not_or, not_or] at hkey
    obtain ⟨hhost, hmatch, hinclude⟩ := hkey
    rw [if_neg (mt List.isEmpty_iff.mp hne), if_neg hhost, if_neg hmatch, if_neg hinclude,
      if_neg hsingle]
    exact if_neg hport

/-- A Host line holds its words as patterns, a Match line the conditions that they write. -/
theorem ofWords_eq_heading_iff {criteria : Criteria} :
    ofWords o name words = .ok (.heading criteria) ↔
      words.args ≠ [] ∧ (lower name = "host" ∧ criteria = .host words.args
        ∨ lower name = "match" ∧ ∃ cs, conditions words.args = .ok cs
          ∧ criteria = .matching cs) := by
  rw [ofWords]
  simp only [bind, Except.bind, pure, Except.pure, throw, throwThe, MonadExceptOf.throw]
  constructor
  · intro h
    split_ifs at h with hempty hhost hmatch
    · refine ⟨mt List.isEmpty_iff.mpr hempty, Or.inl ⟨hhost, ?_⟩⟩
      exact (Line.heading.inj (Except.ok.inj h)).symm
    · refine ⟨mt List.isEmpty_iff.mpr hempty, Or.inr ⟨hmatch, ?_⟩⟩
      cases hconditions : conditions words.args with
      | error fault =>
          rw [hconditions] at h
          exact nomatch h
      | ok cs =>
          rw [hconditions] at h
          exact ⟨cs, rfl, (Line.heading.inj (Except.ok.inj h)).symm⟩
    · exact nomatch h
    · exact nomatch h
  · rintro ⟨hne, ⟨hhost, rfl⟩ | ⟨hmatch, cs, hconditions, rfl⟩⟩
    · rw [if_neg (mt List.isEmpty_iff.mp hne), if_pos hhost]
    · have hhost : lower name ≠ "host" := by
        rw [hmatch]
        decide
      rw [if_neg (mt List.isEmpty_iff.mp hne), if_neg hhost, if_pos hmatch, hconditions]

/-- An Include line holds its words as paths. -/
theorem ofWords_eq_includes_iff {args : List String} :
    ofWords o name words = .ok (.includes args) ↔
      words.args ≠ [] ∧ lower name = "include" ∧ args = words.args := by
  rw [ofWords]
  simp only [bind, Except.bind, pure, Except.pure, throw, throwThe, MonadExceptOf.throw]
  constructor
  · intro h
    split_ifs at h with hempty hhost hmatch hinclude
    · exact nomatch h
    · cases hconditions : conditions words.args with
      | error fault =>
          rw [hconditions] at h
          exact nomatch h
      | ok cs =>
          rw [hconditions] at h
          exact nomatch h
    · exact ⟨mt List.isEmpty_iff.mpr hempty, hinclude, (Line.includes.inj (Except.ok.inj h)).symm⟩
    · exact nomatch h
  · rintro ⟨hne, hinclude, rfl⟩
    have hhost : lower name ≠ "host" := by
      rw [hinclude]
      decide
    have hmatch : lower name ≠ "match" := by
      rw [hinclude]
      decide
    rw [if_neg (mt List.isEmpty_iff.mp hne), if_neg hhost, if_neg hmatch, if_pos hinclude]

theorem port?_of_ofWords {d : Directive} (h : ofWords o name words = .ok (.directive d))
    (hkey : d.key = "port") : (port? d.value).isSome = true := by
  obtain ⟨-, -, -, hport, rfl⟩ := ofWords_eq_directive_iff.mp h
  refine Option.isNone_eq_false_iff.mp (Bool.eq_false_iff.mpr ?_)
  intro hnone
  exact hport ⟨hkey, hnone⟩

end Words

/-- A port that is accepted is one. -/
theorem port?_of_parse {o : Origin} {l : List Char} {d : Directive}
    (h : parse o l = .ok (.directive d)) (hkey : d.key = "port") :
    (port? d.value).isSome = true := by
  rw [parse] at h
  split at h
  · exact nomatch h
  · exact nomatch h
  · rw [parseTrimmed] at h
    simp only [bind, Except.bind, pure, Except.pure, throw, throwThe,
      MonadExceptOf.throw] at h
    split_ifs at h
    · obtain rfl := Line.directive.inj (Except.ok.inj h)
      exact absurd (show "proxycommand" = "port" from hkey) (by decide)
    · split at h
      · exact nomatch h
      · exact port?_of_ofWords h hkey

end SshDial.Line
