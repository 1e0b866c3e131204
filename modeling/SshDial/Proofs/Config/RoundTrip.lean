import SshDial.Proofs.Config.Idle
import SshDial.Proofs.Config.Writing

/-! # Round trip — a configuration that is written is read as it was

    A text without Include lines falls into the directives before its first Host or Match
    line and the stanzas after them, and every one of these is what some line has said
    (`Reads.sections`).  The lines that write them say the same again, so a text that
    writes a configuration reads as one that says the same: `Config.parse_of_isWriting`. -/

namespace SshDial

open SshDial.Text

/-- Is it an Include line? -/
def Line.isInclude (l : List Char) : Bool :=
  match parse .nowhere l with
  | .ok (.includes _) => true
  | _ => false

theorem Line.ne_includes_of_parse {o : Origin} {l : List Char} {content : Line}
    (h : parse o l = .ok content) (hplain : isInclude l = false) (args : List String) :
    content ≠ .includes args := by
  rintro rfl
  rw [isInclude, parse_placed h .nowhere] at hplain
  exact nomatch hplain

/-- Some line has said the directive. -/
def Directive.IsRead (d : Directive) : Prop := ∃ o l, Line.parse o l = .ok (.directive d)

/-- Lines have said the stanza, its Host or Match line included. -/
structure Stanza.IsRead (s : Stanza) : Prop where
  heading : ∃ o l, Line.parse o l = .ok (.heading s.criteria)
  directives : ∀ d ∈ s.directives, d.IsRead

theorem exists_of_forall₂_append {α β : Type} {R : α → β → Prop} {as as' : List α}
    {cs : List β} (h : List.Forall₂ R (as ++ as') cs) :
    ∃ bs bs', cs = bs ++ bs' ∧ List.Forall₂ R as bs ∧ List.Forall₂ R as' bs' := by
  induction as generalizing cs with
  | nil => exact ⟨[], cs, rfl, .nil, h⟩
  | cons a as ih =>
      cases h with
      | @cons _ b _ bs hb hrest =>
          obtain ⟨bs, bs', rfl, hbs, hbs'⟩ := ih hrest
          exact ⟨b :: bs, bs', rfl, .cons hb hbs, hbs'⟩

namespace Stanza

theorem said_unplaced (s : Stanza) : s.unplaced.said = s.said := by
  show (s.criteria, (s.directives.map Directive.unplaced).map Directive.said) = _
  rw [List.map_map]
  rfl

theorem map_said_unplaced (ss : List Stanza) :
    (ss.map unplaced).map said = ss.map said := by
  rw [List.map_map]
  exact List.map_congr_left fun s _ => s.said_unplaced

end Stanza

/-- Segments without headings of their own say what their directives say. -/
theorem Segment.map_said_addAll {h h' : Heading} (hcriteria : h.criteria = h'.criteria)
    {ds ds' : List Directive} (hds : ds.map Directive.said = ds'.map Directive.said) :
    ((continued h).addAll ds).stanzas.map Stanza.said
      = ((continued h').addAll ds').stanzas.map Stanza.said := by
  cases ds with
  | nil =>
      cases ds' with
      | nil => rfl
      | cons d' ds' => exact nomatch hds
  | cons d ds =>
      cases ds' with
      | nil => exact nomatch hds
      | cons d' ds' =>
          show [(h.criteria, (d :: ds).map Directive.said)] = _
          rw [hcriteria, hds]
          rfl

namespace Reading

/-- All that happens is that the open segment is closed and some stanzas follow it. -/
def Appends (ss : List Stanza) (t : Reading) : Prop :=
  ∀ s, t.stanzas s = s.stanzas ++ ss

theorem Appends.append {ss ss' : List Stanza} {t t' : Reading} (h : t.Appends ss)
    (h' : t'.Appends ss') : (t ++ t').Appends (ss ++ ss') := by
  intro s
  have ht := h s
  rw [stanzas] at ht
  rw [stanzas_append, h', ← List.append_assoc, ht, List.append_assoc]

theorem appends_nil : Reading.done.Appends [] := fun s => (List.append_nil s.stanzas).symm

theorem Adds.stanzas_append_of_appends {ds : List Directive} {ss : List Stanza}
    {t t' : Reading} (h : t.Adds ds) (h' : t'.Appends ss) (s : Segment) :
    (t ++ t').stanzas s = (s.addAll ds).stanzas ++ ss := by
  obtain ⟨hclosed, hlast⟩ := h s
  rw [Reading.stanzas_append, hclosed, hlast, h', List.nil_append]

/-- A heading appends the stanza of the directives after it. -/
theorem Adds.appends_heading {ds : List Directive} {t : Reading} (h : t.Adds ds)
    (criteria : Criteria) :
    (Reading.line .nowhere (.heading criteria) t).Appends [⟨criteria, .nowhere, ds⟩] := by
  intro s
  obtain ⟨hclosed, hlast⟩ := h (.opening ⟨criteria, .nowhere⟩)
  rw [stanzas_line]
  show s.stanzas ++ t.stanzas (.opening ⟨criteria, .nowhere⟩) = _
  rw [stanzas, hclosed, hlast]
  rfl

end Reading

section Outlines

variable {tree : FileTree} {env : Environment}

/-- Some lines, none of them broken, have the outline `t`, and no file is pulled in. -/
structure PlainlyOutlines (tree : FileTree) (env : Environment) (frame : Frame)
    (ls : List (List Char)) (t : Reading) : Prop where
  outlines : Outlines tree env frame ls t
  shallow : t.depth = 0
  unbroken : ∀ l ∈ ls, IsUnbroken l

theorem plainlyOutlines_nil (frame : Frame) : PlainlyOutlines tree env frame [] .done :=
  ⟨⟨1, .done, .done, rfl⟩, rfl, List.forall_mem_nil _⟩

theorem PlainlyOutlines.append {frame : Frame} {ls ls' : List (List Char)} {t t' : Reading}
    (h : PlainlyOutlines tree env frame ls t) (h' : PlainlyOutlines tree env frame ls' t') :
    PlainlyOutlines tree env frame (ls ++ ls') (t ++ t') where
  outlines := outlines_append_iff.mpr ⟨t, t', h.outlines, h'.outlines, rfl⟩
  shallow := by rw [Reading.depth_append, h.shallow, h'.shallow, Nat.max_self]
  unbroken := List.forall_mem_append.mpr ⟨h.unbroken, h'.unbroken⟩

theorem plainlyOutlines_line (frame : Frame) {o : Origin} {l : List Char} {content : Line}
    (hunbroken : IsUnbroken l) (hparse : Line.parse o l = .ok content)
    (hargs : (content.placed .nowhere).includeArgs = []) :
    PlainlyOutlines tree env frame [l] (.line .nowhere (content.placed .nowhere) .done) where
  outlines := outlines_line (Line.parse_placed hparse .nowhere) hargs
  shallow := rfl
  unbroken := List.forall_mem_singleton.mpr hunbroken

/-- **A text falls into sections.** Without Include lines the stanzas of a reading are the
    open segment with some directives, and then stanzas with headings of their own. -/
theorem Reads.sections {frame : Frame} {n : Nat} {ls : List (List Char)} {r : Reading}
    (h : Reads tree env frame n [] ls r) (hplain : ∀ l ∈ ls, Line.isInclude l = false) :
    ∃ ds ss, (∀ d ∈ ds, Directive.IsRead d) ∧ (∀ x ∈ ss, Stanza.IsRead x)
      ∧ ∀ s, r.stanzas s = (s.addAll ds).stanzas ++ ss := by
  -- For any open segment, since a heading begins another one.
  induction ls generalizing n r with
  | nil =>
      cases h
      refine ⟨[], [], fun d hd => (nomatch hd), fun x hx => (nomatch hx), fun s => ?_⟩
      rw [Reading.stanzas_done, s.addAll_nil, List.append_nil]
  | cons l ls ih =>
      obtain ⟨hl, hlater⟩ := List.forall_mem_cons.mp hplain
      cases h with
      | @line _ _ _ _ content files r hparse hpulls hrest =>
          cases content with
          | includes args => exact absurd rfl (Line.ne_includes_of_parse hparse hl args)
          | nothing =>
              obtain rfl := Except.ok.inj hpulls
              obtain ⟨ds, ss, hds, hss, hstanzas⟩ := ih hrest hlater
              exact ⟨ds, ss, hds, hss, hstanzas⟩
          | directive d =>
              obtain rfl := Except.ok.inj hpulls
              obtain ⟨ds, ss, hds, hss, hstanzas⟩ := ih hrest hlater
              refine ⟨d :: ds, ss, ?_, hss, fun s => ?_⟩
              · exact List.forall_mem_cons.mpr ⟨⟨_, l, hparse⟩, hds⟩
              · rw [Reading.stanzas_line]
                show r.stanzas (s.addAll [d]) = _
                rw [hstanzas, Segment.addAll_addAll]
                rfl
          | heading criteria =>
              obtain rfl := Except.ok.inj hpulls
              obtain ⟨ds, ss, hds, hss, hstanzas⟩ := ih hrest hlater
              refine ⟨[], ⟨criteria, ⟨frame.path, n⟩, ds⟩ :: ss, fun d hd => (nomatch hd), ?_, ?_⟩
              · exact List.forall_mem_cons.mpr ⟨⟨⟨_, l, hparse⟩, hds⟩, hss⟩
              · intro s
                rw [Reading.stanzas_line, s.addAll_nil]
                show s.stanzas ++ r.stanzas (.opening ⟨criteria, ⟨frame.path, n⟩⟩) = _
                rw [hstanzas]
                rfl

/-- The lines of some directives add directives that say the same. -/
theorem outlines_directives (frame : Frame) {ds : List Directive} {ls : List (List Char)}
    (h : List.Forall₂ Directive.IsWrittenAs ds ls) (hds : ∀ d ∈ ds, d.IsRead) :
    ∃ t ds', PlainlyOutlines tree env frame ls t ∧ t.Adds ds'
      ∧ ds'.map Directive.said = ds.map Directive.said := by
  induction h with
  | nil => exact ⟨.done, [], plainlyOutlines_nil frame, Reading.adds_nil, rfl⟩
  | @cons d line ds ls hline _ ih =>
      obtain ⟨⟨o, l, hl⟩, hlater⟩ := List.forall_mem_cons.mp hds
      obtain ⟨t, ds', ht, hadds, hsaid⟩ := ih hlater
      obtain ⟨hunbroken, d', hd', hsame⟩ := Line.reparse_directive hl hline
      refine ⟨_, _, (plainlyOutlines_line frame hunbroken hd' rfl).append ht,
        (Reading.adds_directive _).append hadds, ?_⟩
      rw [List.map_append, hsaid]
      show d'.said :: ds.map Directive.said = d.said :: ds.map Directive.said
      rw [hsame]

/-- The lines of some stanzas with headings append stanzas that say the same. -/
theorem outlines_stanzas (frame : Frame) {ss : List Stanza} {parts : List (List (List Char))}
    (h : List.Forall₂ Stanza.IsWrittenAs ss parts) (hss : ∀ s ∈ ss, s.IsRead) :
    ∃ t ss', PlainlyOutlines tree env frame parts.flatten t ∧ t.Appends ss'
      ∧ ss'.map Stanza.said = ss.map Stanza.said := by
  induction h with
  | nil => exact ⟨.done, [], plainlyOutlines_nil frame, Reading.appends_nil, rfl⟩
  | @cons s ls ss parts hs _ ih =>
      obtain ⟨⟨⟨o, l, hl⟩, hread⟩, hlater⟩ := List.forall_mem_cons.mp hss
      obtain ⟨t, ss', ht, happends, hsaid⟩ := ih hlater
      cases hs with
      | @lines opening settings hopening hsettings =>
          obtain ⟨line, rfl, hunbroken, hline⟩ := Line.reparse_heading hl hopening
          obtain ⟨td, ds', htd, hadds, hsame⟩ := outlines_directives frame hsettings hread
          have hheading := (plainlyOutlines_line frame hunbroken hline rfl).append htd
          refine ⟨_, _, hheading.append ht, (hadds.appends_heading s.criteria).append happends, ?_⟩
          rw [List.map_append, hsaid]
          show (s.criteria, ds'.map Directive.said) :: ss.map Stanza.said
            = (s.criteria, s.directives.map Directive.said) :: ss.map Stanza.said
          rw [hsame]

end Outlines

namespace Config

variable {tree : FileTree} {env : Environment} {options : ReadOptions}

/-- The directives before the first heading are written without one. -/
theorem forall₂_of_addAll {h : Heading} (hglobal : h.criteria = .global) {ds : List Directive}
    {parts : List (List (List Char))}
    (hparts : List.Forall₂ Stanza.IsWrittenAs ((Segment.continued h).addAll ds).stanzas parts) :
    List.Forall₂ Directive.IsWrittenAs ds parts.flatten := by
  cases ds with
  | nil =>
      cases hparts
      exact .nil
  | cons d ds =>
      obtain _ | ⟨@⟨opening, settings, hopening, hsettings⟩, hnone⟩ := hparts
      cases hnone
      have hopening : h.criteria.IsWrittenAs opening := hopening
      rw [hglobal] at hopening
      cases hopening
      rw [List.flatten_singleton, List.nil_append]
      exact hsettings

/-- The lines of a text that is put together from lines. -/
theorem lines_of_joinLines {text : String} {ls : List (List Char)}
    (h : text = joinLines ls ∨ text = joinLines (ls ++ [[]])) (hls : ∀ l ∈ ls, IsUnbroken l) :
    ∃ tail, (∀ l ∈ tail, Line.IsIdle l) ∧ lines text.toList = ls ++ tail := by
  have hnewline : ∀ l ∈ ls, '\n' ∉ l := fun l hl => (hls l hl).newline_notMem
  have hended : ∀ l ∈ ls ++ [[]], '\n' ∉ l :=
    List.forall_mem_append.mpr ⟨hnewline, List.forall_mem_singleton.mpr List.not_mem_nil⟩
  have hblank : ∀ l ∈ [([] : List Char)], Line.IsIdle l :=
    List.forall_mem_singleton.mpr (Or.inl rfl)
  by_cases hne : ls = []
  · -- Without any line the text is empty, and that is one line too.
    refine ⟨[[]], hblank, ?_⟩
    rcases h with rfl | rfl
    · rw [hne]
      rfl
    · rw [hne]
      rfl
  · rcases h with rfl | rfl
    · refine ⟨[], List.forall_mem_nil _, ?_⟩
      rw [List.append_nil]
      exact lines_joinLines hne hnewline
    · exact ⟨[[]], hblank, lines_joinLines (List.append_ne_nil_of_left_ne_nil hne _) hended⟩

/-- **Parsing undoes writing.** The stanzas of a configuration that was read from a text
    without Include lines can be written, and however they are written, the text parses
    anywhere, and its stanzas say the same: they have the same criteria, and directives
    with the same keys, names and arguments, in the same order. -/
theorem parse_of_isWriting {source : String} {c : Config}
    (h : (parse tree env options source).value = .ok c)
    (hplain : ∀ l ∈ lines source.toList, Line.isInclude l = false) :
    IsWriting c.stanzas (written c.stanzas) ∧ ∀ text, IsWriting c.stanzas text →
      ∀ tree' env' options', ∃ c', (parse tree' env' options' text).value = .ok c'
        ∧ c'.stanzas.map Stanza.said = c.stanzas.map Stanza.said := by
  refine ⟨isWriting_written c.stanzas, ?_⟩
  intro text ⟨parts, hparts, hends⟩ tree' env' options'
  obtain ⟨r, hr, -, rfl⟩ := parse_eq_ok_iff.mp h
  obtain ⟨ds, ss, hds, hss, hsections⟩ := Reads.sections hr hplain
  rw [hsections] at hparts
  obtain ⟨front, rest, rfl, hfront, hrest⟩ := exists_of_forall₂_append hparts
  rw [List.flatten_append] at hends
  -- What is written is the directives before the first heading, and then the stanzas.
  obtain ⟨t, ds', ht, hadds, hsame⟩ := @outlines_directives tree' env'
    (rootFrame env' options') _ _ (forall₂_of_addAll rfl hfront) hds
  obtain ⟨u, ss', hu, happends, hsame'⟩ := @outlines_stanzas tree' env'
    (rootFrame env' options') _ _ hrest hss
  obtain ⟨tail, hidle, hlines⟩ := lines_of_joinLines hends (ht.append hu).unbroken
  obtain ⟨v, hv, hshallow, hquiet⟩ := @outlines_idle tree' env' (rootFrame env' options') _ hidle
  have houtline := outlines_append_iff.mpr ⟨_, v, (ht.append hu).outlines, hv, rfl⟩
  obtain ⟨r', hr', hunplaced⟩ := houtline.reads 1
  have hend : v.Appends [] := by
    intro s
    rw [Reading.stanzas, (hquiet s).1, (hquiet s).2, List.append_nil, List.nil_append]
  refine ⟨_, parse_eq_ok_iff.mpr ⟨r', ?_, ?_, rfl⟩, ?_⟩
  · rw [IsReading, hlines]
    exact hr'
  · rw [← Reading.depth_unplaced, hunplaced, Reading.depth_append, (ht.append hu).shallow,
      hshallow]
    exact Nat.zero_le _
  · -- The places are others, but no place is said.
    show (r'.stanzas _).map Stanza.said = (r.stanzas _).map Stanza.said
    rw [← Stanza.map_said_unplaced, ← Reading.stanzas_unplaced, hunplaced,
      Reading.append_assoc, hadds.stanzas_append_of_appends (happends.append hend),
      List.append_nil, List.map_append, hsame', hsections, List.map_append]
    have hroot := @Segment.map_said_addAll ⟨.global, .nowhere⟩ (rootHeading options) rfl _ _ hsame
    exact congrArg (· ++ _) hroot

/-- Every kind of line: a word with a blank in it, one without characters, a comma list, a
    command with quotes and a number sign of its own, and a stanza without directives. -/
theorem parse_of_isWriting_mixed :
    ∃ c c' : Config, (parse FileTree.empty ⟨"/h", "u", "w", "/h/c"⟩ {}
        "User 'a b'\n# c\nHost w ''\nMatch !user x,\"y\"\nProxyCommand nc '%h' #").value = .ok c
      ∧ written c.stanzas
        = "User = \"a b\"\nHost = \"w\" \"\"\nMatch = !user \"x,y\"\nProxyCommand = nc '%h' #\n"
      ∧ (parse FileTree.empty ⟨"/h", "u", "w", "/h/c"⟩ {} (written c.stanzas)).value = .ok c'
      ∧ c'.stanzas.map Stanza.said = c.stanzas.map Stanza.said := by
  have hparse : (parse FileTree.empty ⟨"/h", "u", "w", "/h/c"⟩ {}
      "User 'a b'\n# c\nHost w ''\nMatch !user x,\"y\"\nProxyCommand nc '%h' #").value
      = .ok ⟨[⟨.global, ⟨none, 0⟩, [⟨"user", "User", "a b", ["a b"], ⟨none, 1⟩⟩]⟩,
          ⟨.host ["w", ""], ⟨none, 3⟩, []⟩,
          ⟨.matching [⟨.user, true, ["x", "y"]⟩], ⟨none, 4⟩,
            [⟨"proxycommand", "ProxyCommand", "nc '%h' #", ["nc '%h' #"], ⟨none, 5⟩⟩]⟩],
        []⟩ := by
    decide +kernel
  have hplain : ∀ l ∈ lines
      "User 'a b'\n# c\nHost w ''\nMatch !user x,\"y\"\nProxyCommand nc '%h' #".toList,
      Line.isInclude l = false := by
    decide +kernel
  obtain ⟨hwriting, hread⟩ := parse_of_isWriting hparse hplain
  obtain ⟨c', hc', hsaid⟩ := hread _ hwriting FileTree.empty ⟨"/h", "u", "w", "/h/c"⟩ {}
  exact ⟨_, c', hparse, by decide +kernel, hc', hsaid⟩

end Config

end SshDial
