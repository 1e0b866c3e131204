import SshDial.Proofs.Config.LineLayout
import SshDial.Proofs.Config.Location

/-! # Inclusion — a file means the same whether it is read or included

    A configuration file can be read on its own, and it can be named by the one line
    `Include "…"` of a text that comes from nowhere.  The two begin in different ways: with
    or without a path, in different directories, at different depths and under headings that
    stand in different places.  None of this reaches what is read.

    * The depth counts only against the limit: one level more for both changes nothing but
      the number that a failure at the limit tells (`Ends.deeper`).
    * What is in force before any Host or Match line has a place of its own, and no other
      stanza has it (`Reading.stanzas_rehome`).

    `Config.parse_include_eq_parseFile` puts the two together. -/

namespace SshDial

open SshDial.Text

variable {tree : FileTree} {env : Environment}

/-! ## One level deeper -/

/-- The fault as it is met when the limit is one higher. -/
def ReadFault.raised : ReadFault → ReadFault
  | .tooDeep limit origin => .tooDeep (limit + 1) origin
  | fault => fault

/-- Two refusals tell a user the same: of the library's failures their kind, hint and
    details, of any other error everything. -/
def Refusal.Alike : Refusal → Refusal → Prop
  | .failure f, .failure g => f.code = g.code ∧ f.hint = g.hint ∧ f.details = g.details
  | r, s => r = s

/-- Only the message tells the limit. -/
theorem ReadFault.alike_raised (fault : ReadFault) : fault.raised.refusal.Alike fault.refusal := by
  cases fault with
  | line fault origin => exact ⟨rfl, rfl, rfl⟩
  | file path e origin => exact ⟨rfl, rfl, rfl⟩
  | tooDeep limit origin => exact ⟨rfl, rfl, rfl⟩
  | unreachable path e => exact ⟨rfl, rfl, rfl⟩
  | emptyPattern => exact rfl
  | glob fault => exact rfl

/-- **A level more on both sides.** What ends at some depth ends one deeper in the same way,
    if the limit is one higher. -/
theorem Ends.deeper {limit : Int} {d n : Nat} {frame : Frame} {ts : List Task}
    {outcome : Option ReadFault} (h : Ends tree env limit d frame n ts outcome) :
    Ends tree env (limit + 1) (d + 1) frame n ts (outcome.map ReadFault.raised) := by
  induction h with
  | done => exact .done
  | badLine hparse => exact .badLine hparse
  | line hparse _ ih => exact .line hparse ih
  | @badArgument d frame n arg ts fault hfiles =>
      -- No Include argument is refused for its depth.
      have hsame : fault.raised = fault := by
        rcases Reader.filesOf_eq_error hfiles with ⟨rfl, -⟩ | ⟨g, rfl⟩
        · rfl
        · rfl
      show Ends tree env _ _ frame n _ (some fault.raised)
      rw [hsame]
      exact .badArgument hfiles
  | argument hfiles _ ih => exact .argument hfiles ih
  | tooDeep hdeep => exact .tooDeep (by omega)
  | unreadable hd hread => exact .unreadable (by omega) hread
  | badFile hd hread _ ih => exact .badFile (by omega) hread ih
  | file hd hread _ _ ihbody ih => exact .file (by omega) hread ihbody ih

/-! ## The place of the front -/

/-- A stanza as it says what it says, wherever it is opened. -/
def Stanza.content (s : Stanza) : Criteria × List Directive := (s.criteria, s.directives)

/-- The stanza with another place of opening if no Host or Match line opens it. -/
def Stanza.rehome (o : Origin) (s : Stanza) : Stanza :=
  if s.criteria = .global then { s with origin := o } else s

theorem Stanza.content_rehome (o : Origin) (s : Stanza) : (s.rehome o).content = s.content := by
  rw [rehome]
  split
  · rfl
  · rfl

/-- The heading with another place if it is no Host or Match line. -/
def Heading.rehome (o : Origin) (h : Heading) : Heading :=
  if h.criteria = .global then { h with origin := o } else h

namespace Segment

variable (o : Origin) (s : Segment)

/-- The segment with another place of its heading if that is no Host or Match line. -/
def rehome : Segment := { s with heading := s.heading.rehome o }

theorem stanzas_rehome : (s.rehome o).stanzas = s.stanzas.map (Stanza.rehome o) := by
  rw [stanzas, stanzas]
  show (if s.opened || !s.directives.isEmpty then
    [(⟨(s.heading.rehome o).criteria, (s.heading.rehome o).origin, s.directives⟩ : Stanza)] else [])
      = _
  split
  · rw [List.map_singleton, Stanza.rehome, Heading.rehome]
    split
    · rfl
    · rfl
  · rfl

theorem closedBy_rehome (content : Line) :
    (s.rehome o).closedBy content = (s.closedBy content).map (Stanza.rehome o) := by
  cases content with
  | nothing => rfl
  | directive d => rfl
  | heading criteria => exact s.stanzas_rehome o
  | includes args => exact s.stanzas_rehome o

theorem after_rehome {content : Line} (h : content ≠ .heading .global) (origin : Origin) :
    (s.rehome o).after origin content = (s.after origin content).rehome o := by
  cases content with
  | nothing => rfl
  | directive d => rfl
  | heading criteria =>
      have hcriteria : ¬criteria = .global := fun hglobal => h (congrArg Line.heading hglobal)
      show Segment.opening ⟨criteria, origin⟩ = (Segment.opening ⟨criteria, origin⟩).rehome o
      rw [rehome, opening, Heading.rehome, if_neg hcriteria]
  | includes args => rfl

end Segment

/-- A Host or Match line always says something about hosts. -/
theorem Line.parse_ne_global {o : Origin} {l : List Char} {content : Line}
    (h : parse o l = .ok content) : content ≠ .heading .global := by
  rintro rfl
  obtain ⟨name, value, -, -, -, hsays⟩ := says_of_parse h nofun
  cases hsays with
  | words _ _ hof =>
      obtain ⟨-, ⟨-, hcriteria⟩ | ⟨-, cs, -, hcriteria⟩⟩ := ofWords_eq_heading_iff.mp hof
      · exact nomatch hcriteria
      · exact nomatch hcriteria

/-- **Only the front moves.** The stanzas of a text that is read under another place of its
    front are the same, but for the place of those that no line opens. -/
theorem Reads.stanzas_rehome {frame : Frame} {n : Nat} {files : List String}
    {ls : List (List Char)} {r : Reading} (h : Reads tree env frame n files ls r) (o : Origin)
    (s : Segment) : r.stanzas (s.rehome o) = (r.stanzas s).map (Stanza.rehome o) := by
  induction h generalizing s with
  | done => exact s.stanzas_rehome o
  | line hparse _ _ ih =>
      rw [Reading.stanzas_line, Reading.stanzas_line, List.map_append, s.closedBy_rehome,
        s.after_rehome o (Line.parse_ne_global hparse), ih]
  | file _ _ _ ihbody ih =>
      have hbody := ihbody (.continued s.heading)
      rw [Reading.stanzas_file, Reading.stanzas_file, List.map_append, ih, ← hbody]
      rfl

/-! ## The Include line -/

/-- The text that includes a file and does nothing else. -/
def Config.includeText (file : String) : String := "Include \"" ++ file ++ "\""

namespace Line

/-- A path in double quotes is one argument, whatever else is in it. -/
theorem parse_includeText {file : String} (hquote : '"' ∉ file.toList)
    (hbreak : IsUnbroken file.toList) (o : Origin) :
    parse o (Config.includeText file).toList = .ok (.includes [file]) := by
  have hquoted : Words.Quoted file.toList ('"' :: file.toList ++ ['"']) := .piece rfl hquote
  have hwords : List.Forall₂ Words.IsWord [file.toList] ['"' :: file.toList ++ ['"']] :=
    .cons (hquoted.isWord hbreak) .nil
  obtain ⟨-, words, hargs, hread⟩ :=
    @parse_words "Include".toList _ _ o (by decide) (by decide) (List.cons_ne_nil _ _) hwords
  have hof : ofWords o (String.ofList "Include".toList) words = .ok (.includes [file]) := by
    rw [List.map_singleton, String.ofList_toList] at hargs
    exact ofWords_eq_includes_iff.mpr ⟨hargs ▸ List.cons_ne_nil _ _, by decide, hargs.symm⟩
  -- The line is an assignment but for its separator, which is a blank.
  have hblank : IsWhite [' '] := List.forall_mem_singleton.mpr rfl
  have hrelaid : Relaid (assignment "Include".toList (Words.joined ['"' :: file.toList ++ ['"']]))
      (Config.includeText file).toList := by
    rw [Words.joined, List.intercalate_singleton, assignment, Config.includeText,
      String.toList_append, String.toList_append, List.append_assoc, List.append_assoc]
    exact .separated (a := []) (List.forall_mem_nil _) (by decide) (.equals hblank hblank)
      (.white (List.cons_ne_nil _ _) hblank) (by decide) (by decide)
  obtain ⟨content, hcontent, hsame⟩ := hrelaid.parse (hread _ hof)
  rw [hcontent]
  cases content with
  | includes args => exact congrArg Except.ok hsame
  | _ => cases hsame

end Line

/-- An absolute path is the one file that it names, in every directory. -/
theorem Reader.filesOf_of_isAbsolute {file : String} (habsolute : Path.isAbsolute file = true)
    (hglob : Glob.isGlob file = false) (directory : String) :
    filesOf tree env directory file = .ok [file] := by
  obtain ⟨rest, hrest⟩ : ∃ rest, file.toList = '/' :: rest :=
    List.head?_eq_some_iff.mp (beq_iff_eq.mp habsolute)
  have htilde : env.expandTilde file = file := by
    rw [Environment.expandTilde, hrest]
    rfl
  have hne : file ≠ "" := by
    rintro rfl
    exact nomatch hrest
  rw [filesOf, target, htilde, if_neg hne, if_neg (Bool.eq_false_iff.mp hglob), if_pos habsolute]

/-- Reading a file that is there begins with its text. -/
theorem StartEnds.of_read {limit : Int} {file text : String} {outcome : Option ReadFault}
    (h : StartEnds tree env limit file outcome) (hread : tree.read file = .ok text) :
    Ends tree env limit 0 ⟨some file, Path.dirname file⟩ 0 (Task.ofText text) outcome := by
  cases h with
  | unreadable hmissing => exact nomatch hread.symm.trans hmissing
  | text hread' hends =>
      obtain rfl := Except.ok.inj (hread.symm.trans hread')
      exact hends

namespace Config

section Included

variable {file text : String} (habsolute : Path.isAbsolute file = true)
  (hglob : Glob.isGlob file = false) (hquote : '"' ∉ file.toList)
  (hbreak : IsUnbroken file.toList) (hread : tree.read file = .ok text)

include hbreak in
theorem lines_includeText :
    lines (includeText file).toList = [(includeText file).toList] := by
  have hopening : IsUnbroken "Include \"".toList := isUnbroken_of_any (by decide)
  have hclosing : IsUnbroken "\"".toList := isUnbroken_of_any (by decide)
  refine splitAt_of_not_mem (IsUnbroken.newline_notMem ?_)
  rw [includeText, String.toList_append, String.toList_append]
  exact (hopening.append hbreak).append hclosing

include habsolute hglob hquote hbreak hread

/-- The text that includes a file has the reading of the file under its only line. -/
theorem isReading_includeText {options : ReadOptions} (hpath : options.path = none)
    {body : Reading}
    (hbody : Reads tree env ⟨some file, Path.dirname file⟩ 1 [] (lines text.toList) body) :
    IsReading tree env options (includeText file)
      (.line ⟨none, 1⟩ (.includes [file]) (.file file body .done)) := by
  have hpulls : (Line.includes [file]).pulls tree env (baseDirectory env options)
      = .ok [file] := by
    show Reader.namedFiles tree env _ [file] = _
    rw [Reader.namedFiles, Reader.filesOf_of_isAbsolute habsolute hglob]
    rfl
  rw [IsReading, lines_includeText hbreak, rootFrame, hpath]
  exact .line (Line.parse_includeText hquote hbreak _) hpulls (.file hread hbody .done)

/-- Including a file comes to the same end as reading it, with one level more for both. -/
theorem fault?_parse_includeText (env : Environment) (directory directory' : Option String)
    (d : Nat) :
    fault? (parse tree env { directory, includeDepth := d + 1 } (includeText file)).value
      = (fault? (parseFile tree env { directory := directory', includeDepth := d } file).value).map
          ReadFault.raised := by
  have hbody : Ends tree env (d + 1) 1 ⟨some file, Path.dirname file⟩ 0 (Task.ofText text)
      ((fault? (parseFile tree env { directory := directory', includeDepth := d } file).value).map
        ReadFault.raised) :=
    ((startEnds_parseFile { directory := directory', includeDepth := d } file).of_read hread).deeper
  refine (ends_parse tree env { directory, includeDepth := d + 1 } (includeText file)).unique ?_
  have hlevel : ((0 : Nat) : Int) < (d : Int) + 1 := by omega
  rw [Task.ofText, lines_includeText hbreak]
  refine .line (Line.parse_includeText hquote hbreak _) (.argument
    (Reader.filesOf_of_isAbsolute habsolute hglob _) ?_)
  cases hend : (fault? (parseFile tree env { directory := directory', includeDepth := d } file).value).map
      ReadFault.raised with
  | none =>
      rw [hend] at hbody
      exact .file hlevel hread hbody .done
  | some fault =>
      rw [hend] at hbody
      exact .badFile hlevel hread hbody

/-- What an included file holds is what it holds, but for the place of its front. -/
theorem parse_includeText_eq_ok {options options' : ReadOptions} (hpath : options.path = none)
    {c c' : Config} (hc : (parse tree env options (includeText file)).value = .ok c)
    (hc' : (parseFile tree env options' file).value = .ok c') :
    c.files = c'.files ∧ c.stanzas = c'.stanzas.map (Stanza.rehome ⟨none, 0⟩) := by
  rw [parseFile, hread] at hc'
  obtain ⟨r, hr, -, rfl⟩ := parse_eq_ok_iff.mp hc
  obtain ⟨body, hbody, -, rfl⟩ := parse_eq_ok_iff.mp hc'
  have hne := ne_empty_of_read hread
  have hnamed : namedFile { options' with path := some file } = some file :=
    Option.filter_eq_some_iff.mpr ⟨rfl, decide_eq_true hne⟩
  have hunnamed : namedFile options = none := by
    rw [namedFile, hpath]
    rfl
  rw [IsReading, rootFrame_of_path env options' hne] at hbody
  obtain rfl := hr.unique (isReading_includeText habsolute hglob hquote hbreak hread hpath hbody)
  constructor
  · show (namedFile options).toList ++ file :: (body.files ++ []) = _
    rw [hunnamed, hnamed, List.append_nil]
    rfl
  · show Reading.stanzas (.continued (rootHeading options)) (.line ⟨none, 1⟩ (.includes [file])
      (.file file body .done)) = _
    rw [Reading.stanzas_line, Reading.stanzas_file, ← hbody.stanzas_rehome, rootHeading, hpath]
    exact List.append_nil _

end Included

/-- The first outcome, that of a text which includes a file, is the second one, that of the
    file.  If both succeed, the files are the same, and so are the stanzas with all that
    they hold; only what stands before any Host or Match line, and so has no line of its
    own, is put at the front of the text that was given.  If both fail, they fail alike. -/
def AgreeIncluded : Except ReadFault Config → Except ReadFault Config → Prop
  | .ok c, .ok c' =>
      c.files = c'.files ∧ c.stanzas.map Stanza.content = c'.stanzas.map Stanza.content
        ∧ c.stanzas = c'.stanzas.map (Stanza.rehome ⟨none, 0⟩)
  | .error fault, .error fault' => fault.refusal.Alike fault'.refusal
  | _, _ => False

/-- **A file means the same whether it is read or included.** Let a readable file be named
    by an absolute path that is no glob and can be put in double quotes.  Then the text that
    includes it, read from nowhere and with one level more, comes to the same as the file
    read by itself: to the same files and settings, or to the same failure. -/
theorem parse_include_eq_parseFile (tree : FileTree) (env : Environment)
    (directory directory' : Option String) (d : Nat) {file text : String}
    (habsolute : Path.isAbsolute file = true) (hglob : Glob.isGlob file = false)
    (hquote : '"' ∉ file.toList) (hbreak : IsUnbroken file.toList)
    (hread : tree.read file = .ok text) :
    AgreeIncluded (parse tree env { directory, includeDepth := d + 1 } (includeText file)).value
      (parseFile tree env { directory := directory', includeDepth := d } file).value := by
  have hfault := fault?_parse_includeText habsolute hglob hquote hbreak hread env directory
    directory' d
  cases hc : (parse tree env { directory, includeDepth := d + 1 } (includeText file)).value with
  | ok c =>
      cases hc' : (parseFile tree env { directory := directory', includeDepth := d } file).value with
      | ok c' =>
          obtain ⟨hfiles, hstanzas⟩ :=
            parse_includeText_eq_ok habsolute hglob hquote hbreak hread rfl hc hc'
          refine ⟨hfiles, ?_, hstanzas⟩
          rw [hstanzas, List.map_map]
          exact List.map_congr_left fun s _ => s.content_rehome _
      | error fault' =>
          rw [hc, hc'] at hfault
          exact nomatch hfault
  | error fault =>
      cases hc' : (parseFile tree env { directory := directory', includeDepth := d } file).value with
      | ok c' =>
          rw [hc, hc'] at hfault
          exact nomatch hfault
      | error fault' =>
          rw [hc, hc'] at hfault
          obtain rfl := Option.some.inj hfault
          exact fault'.alike_raised

/-- A path with a blank in it, and files below it that name each other by relative paths:
    with two levels for the file they are all read, with one they are not. -/
theorem parse_include_eq_parseFile_nested :
    let tree := ((FileTree.empty.write "/e/a b" "User x\nInclude c\n").write "/e/c"
      "Host w\nInclude d\n").write "/e/d" "User y\n"
    let env : Environment := ⟨"/h", "u", "w", "/h/c"⟩
    Path.isAbsolute "/e/a b" = true ∧ Glob.isGlob "/e/a b" = false
      ∧ '"' ∉ "/e/a b".toList ∧ IsUnbroken "/e/a b".toList
      ∧ tree.read "/e/a b" = .ok "User x\nInclude c\n"
      ∧ (∃ c c', (parse tree env { includeDepth := 3 } (includeText "/e/a b")).value = .ok c
        ∧ (parseFile tree env { includeDepth := 2 } "/e/a b").value = .ok c'
        ∧ c.files = c'.files ∧ c'.files = ["/e/a b", "/e/c", "/e/d"]
        ∧ c.stanzas = c'.stanzas.map (Stanza.rehome ⟨none, 0⟩))
      ∧ ∃ fault fault', (parse tree env { includeDepth := 2 } (includeText "/e/a b")).value
          = .error fault
        ∧ (parseFile tree env { includeDepth := 1 } "/e/a b").value = .error fault'
        ∧ fault' = .tooDeep 1 ⟨some "/e/c", 2⟩ ∧ fault.refusal.Alike fault'.refusal := by
  intro tree env
  have habsolute : Path.isAbsolute "/e/a b" = true := by decide
  have hglob : Glob.isGlob "/e/a b" = false := by decide +kernel
  have hquote : '"' ∉ "/e/a b".toList := by decide
  have hbreak : IsUnbroken "/e/a b".toList := isUnbroken_of_any (by decide)
  have hread : tree.read "/e/a b" = .ok "User x\nInclude c\n" := by decide +kernel
  refine ⟨habsolute, hglob, hquote, hbreak, hread, ?_, ?_⟩
  · have hparse : (parse tree env { includeDepth := 3 } (includeText "/e/a b")).value
        = .ok ⟨[⟨.global, ⟨none, 0⟩, [⟨"user", "User", "x", ["x"], ⟨some "/e/a b", 1⟩⟩]⟩,
          ⟨.host ["w"], ⟨some "/e/c", 1⟩, []⟩,
          ⟨.host ["w"], ⟨some "/e/c", 1⟩, [⟨"user", "User", "y", ["y"], ⟨some "/e/d", 1⟩⟩]⟩],
          ["/e/a b", "/e/c", "/e/d"]⟩ := by decide +kernel
    have hfile : (parseFile tree env { includeDepth := 2 } "/e/a b").value
        = .ok ⟨[⟨.global, ⟨some "/e/a b", 0⟩, [⟨"user", "User", "x", ["x"], ⟨some "/e/a b", 1⟩⟩]⟩,
          ⟨.host ["w"], ⟨some "/e/c", 1⟩, []⟩,
          ⟨.host ["w"], ⟨some "/e/c", 1⟩, [⟨"user", "User", "y", ["y"], ⟨some "/e/d", 1⟩⟩]⟩],
          ["/e/a b", "/e/c", "/e/d"]⟩ := by decide +kernel
    have hsame := @parse_include_eq_parseFile tree env none none 2 "/e/a b" _ habsolute hglob
      hquote hbreak hread
    rw [show ((2 : Nat) : Int) + 1 = 3 from rfl, show ((2 : Nat) : Int) = 2 from rfl, hparse,
      hfile] at hsame
    exact ⟨_, _, hparse, hfile, hsame.1, rfl, hsame.2.2⟩
  · have hparse : (parse tree env { includeDepth := 2 } (includeText "/e/a b")).value
        = .error (.tooDeep 2 ⟨some "/e/c", 2⟩) := by decide +kernel
    have hfile : (parseFile tree env { includeDepth := 1 } "/e/a b").value
        = .error (.tooDeep 1 ⟨some "/e/c", 2⟩) := by decide +kernel
    have hsame := @parse_include_eq_parseFile tree env none none 1 "/e/a b" _ habsolute hglob
      hquote hbreak hread
    rw [show ((1 : Nat) : Int) + 1 = 2 from rfl, show ((1 : Nat) : Int) = 1 from rfl, hparse,
      hfile] at hsame
    exact ⟨_, _, hparse, hfile, rfl, hsame⟩

end Config

end SshDial
