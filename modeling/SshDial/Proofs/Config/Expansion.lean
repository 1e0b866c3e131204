import Mathlib.Control.Monad.Basic
import SshDial.Proofs.Config.Location

/-! # Expansion — a configuration says what its lines say, in place

    The entries of a reading are its directive lines in depth-first order, each under the
    Host or Match line that is in force: the nearest one before it in its own file, and
    without one that of the Include line which pulled the file in.
    `Config.entries_of_parse` is the headline: a configuration that parses holds exactly
    these entries, a stanza for every Host and Match line, and the files in the order in
    which they were read. -/

namespace SshDial

open SshDial.Text

/-- A directive, the place of its line, and the Host or Match line that is in force. -/
structure Entry where
  heading : Heading
  origin : Origin
  directive : Directive
  deriving DecidableEq, Repr

/-- The Host or Match line that is in force after a line. -/
def Heading.after (h : Heading) (origin : Origin) : Line → Heading
  | .heading criteria => ⟨criteria, origin⟩
  | _ => h

namespace Reading

/-- The entries of a reading when `h` is in force before it.  A file does not change what
    is in force after it. -/
def entries (h : Heading) : Reading → List Entry
  | .done => []
  | .line origin (.directive d) r => ⟨h, origin, d⟩ :: r.entries h
  | .line origin content r => r.entries (h.after origin content)
  | .file _ body r => body.entries h ++ r.entries h

/-- The Host and Match lines of a reading. -/
def headings : Reading → List Heading
  | .done => []
  | .line origin (.heading criteria) r => ⟨criteria, origin⟩ :: r.headings
  | .line _ _ r => r.headings
  | .file _ body r => body.headings ++ r.headings

end Reading

namespace Stanza

/-- The line that opened the stanza. -/
def heading (s : Stanza) : Heading := ⟨s.criteria, s.origin⟩

/-- The entries of a stanza. -/
def entries (s : Stanza) : List Entry :=
  s.directives.map fun d => ⟨s.heading, d.origin, d⟩

end Stanza

/-- The entries of a configuration, stanza by stanza. -/
def Config.entries (c : Config) : List Entry := c.stanzas.flatMap Stanza.entries

namespace Segment

/-- The entries of the open segment. -/
def entries (s : Segment) : List Entry :=
  s.directives.map fun d => ⟨s.heading, d.origin, d⟩

theorem entries_add (s : Segment) (d : Directive) :
    (s.add d).entries = s.entries ++ [⟨s.heading, d.origin, d⟩] :=
  List.map_append

/-- Closing a segment loses none of its entries: it is left out only without any. -/
theorem flatMap_entries_stanzas (s : Segment) :
    s.stanzas.flatMap Stanza.entries = s.entries := by
  rw [stanzas]
  split
  · exact List.append_nil _
  · rename_i h
    rw [Bool.or_eq_true, not_or, Bool.not_eq_true', Bool.not_eq_false,
      List.isEmpty_iff] at h
    rw [entries, h.2]
    rfl

/-- The heading of a segment that begins at it. -/
def begun (s : Segment) : List Heading := if s.opened then [s.heading] else []

/-- A segment that begins at its heading makes a stanza. -/
theorem begun_sublist (s : Segment) : s.begun.Sublist (s.stanzas.map Stanza.heading) := by
  rw [begun, stanzas]
  by_cases hopened : s.opened = true
  · rw [if_pos hopened, hopened]
    exact List.Sublist.refl _
  · rw [if_neg hopened]
    exact List.nil_sublist _

/-- Only an Include line pulls files in, and the segment after it is empty. -/
theorem after_eq_continued_heading {tree : FileTree} {env : Environment}
    {directory : String} {content : Line} {files : List String}
    (h : content.pulls tree env directory = .ok files) (s : Segment) (origin : Origin) :
    files = []
      ∨ s.after origin content = .continued (s.after origin content).heading := by
  cases content with
  | includes args => exact Or.inr rfl
  | nothing => exact Or.inl (Except.ok.inj h).symm
  | directive d => exact Or.inl (Except.ok.inj h).symm
  | heading criteria => exact Or.inl (Except.ok.inj h).symm

end Segment

section Expansion

variable {tree : FileTree} {env : Environment}

/-- What a reading adds to the stanzas are its entries.  While files are still to be read
    the open segment is empty, for the Include line has just closed the one before. -/
theorem Reads.flatMap_entries_stanzas {frame : Frame} {n : Nat} {files : List String}
    {ls : List (List Char)} {r : Reading} (h : Reads tree env frame n files ls r)
    {s : Segment} (hs : files = [] ∨ s = .continued s.heading) :
    (r.stanzas s).flatMap Stanza.entries = s.entries ++ r.entries s.heading := by
  induction h generalizing s with
  | done =>
      rw [Reading.stanzas_done, s.flatMap_entries_stanzas]
      exact (List.append_nil _).symm
  | @line frame n l ls content files r hparse hpulls _ ih =>
      have hrest := ih (Segment.after_eq_continued_heading hpulls s ⟨frame.path, n⟩)
      rw [Reading.stanzas_line, List.flatMap_append, hrest]
      cases content with
      | nothing => rfl
      | directive d =>
          have horigin : d.origin = ⟨frame.path, n⟩ := Line.origin_of_parse hparse
          show [] ++ ((s.add d).entries ++ r.entries s.heading) = _
          rw [Segment.entries_add, List.nil_append, List.append_assoc, horigin]
          rfl
      | heading criteria =>
          show s.stanzas.flatMap Stanza.entries ++ ([] ++ _) = _
          rw [s.flatMap_entries_stanzas]
          rfl
      | includes args =>
          show s.stanzas.flatMap Stanza.entries ++ ([] ++ _) = _
          rw [s.flatMap_entries_stanzas]
          rfl
  | @file frame n ls path text files body r _ _ _ ihbody ih =>
      have hempty : s = .continued s.heading := hs.resolve_left (List.cons_ne_nil _ _)
      have hbody := ihbody (s := .continued s.heading) (Or.inl rfl)
      -- An open segment with entries would have them put after those of the file.
      rw [Reading.stanzas_file, List.flatMap_append, hbody, ih (Or.inr hempty), hempty]
      rfl

/-- Every Host and Match line makes a stanza, in order. -/
theorem Reads.headings_sublist {frame : Frame} {n : Nat} {files : List String}
    {ls : List (List Char)} {r : Reading} (h : Reads tree env frame n files ls r)
    {s : Segment} (hs : files = [] ∨ s = .continued s.heading) :
    (s.begun ++ r.headings).Sublist ((r.stanzas s).map Stanza.heading) := by
  induction h generalizing s with
  | done =>
      rw [Reading.stanzas_done]
      show (s.begun ++ []).Sublist _
      rw [List.append_nil]
      exact s.begun_sublist
  | @line frame n l ls content files r hparse hpulls _ ih =>
      have hrest := ih (Segment.after_eq_continued_heading hpulls s ⟨frame.path, n⟩)
      rw [Reading.stanzas_line, List.map_append]
      cases content with
      | nothing => exact hrest
      | directive d => exact hrest
      | heading criteria => exact s.begun_sublist.append hrest
      | includes args => exact s.begun_sublist.append hrest
  | @file frame n ls path text files body r _ _ _ ihbody ih =>
      have hempty : s = .continued s.heading := hs.resolve_left (List.cons_ne_nil _ _)
      have hbody := ihbody (s := .continued s.heading) (Or.inl rfl)
      have hrest := ih (Or.inr hempty)
      rw [Reading.stanzas_file, List.map_append, hempty]
      rw [hempty] at hrest
      exact hbody.append hrest

/-- Every entry is what the line at its place says. -/
theorem Reads.line_of_entries {frame : Frame} {n : Nat} {files : List String}
    {ls : List (List Char)} {r : Reading} (h : Reads tree env frame n files ls r)
    {text : String} {front : List (List Char)} (htext : lines text.toList = front ++ ls)
    (hn : n = front.length + 1) {heading : Heading} {e : Entry} (he : e ∈ r.entries heading) :
    ∃ l, IsLineAt tree frame text e.origin l
      ∧ Line.parse e.origin l = .ok (.directive e.directive) := by
  induction h generalizing heading text front with
  | done => exact absurd he List.not_mem_nil
  | @line frame n l ls content files r hparse _ _ ih =>
      have hrest : lines text.toList = (front ++ [l]) ++ ls := by
        rw [htext, List.append_assoc, List.singleton_append]
      have hcount : n + 1 = (front ++ [l]).length + 1 := by
        rw [hn, List.length_append, List.length_singleton]
      cases content with
      | nothing => exact ih hrest hcount he
      | heading criteria => exact ih hrest hcount he
      | includes args => exact ih hrest hcount he
      | directive d =>
          rcases List.mem_cons.mp he with rfl | he
          · refine ⟨l, ⟨text, Or.inl ⟨rfl, rfl⟩, ?_, ?_⟩, hparse⟩
            · show 0 < n
              omega
            · show (lines text.toList)[n - 1]? = some l
              simp [htext, hn]
          · exact ih hrest hcount he
  | @file frame n ls path found files body r hread _ _ ihbody ih =>
      rcases List.mem_append.mp he with hbody | hrest
      · obtain ⟨l, ⟨source, hsource, hpos, hl⟩, hparse⟩ :=
          ihbody (List.nil_append _).symm rfl hbody
        refine ⟨l, ⟨source, Or.inr ?_, hpos, hl⟩, hparse⟩
        -- A line of an included text is a line of its file.
        rcases hsource with ⟨hpath, rfl⟩ | hfile
        · exact ⟨path, hpath, hread⟩
        · exact hfile
      · exact ih htext hn hrest

end Expansion

namespace Config

variable {tree : FileTree} {env : Environment}

/-- Every directive of a configuration is what the line at its place says. -/
theorem line_of_directive {options : ReadOptions} {source : String} {c : Config}
    (h : (parse tree env options source).value = .ok c) {stanza : Stanza}
    (hstanza : stanza ∈ c.stanzas) {d : Directive} (hd : d ∈ stanza.directives) :
    ∃ l, IsLineAt tree (rootFrame env options) source d.origin l
      ∧ Line.parse d.origin l = .ok (.directive d) := by
  obtain ⟨r, hr, -, rfl⟩ := parse_eq_ok_iff.mp h
  have hentry : (⟨stanza.heading, d.origin, d⟩ : Entry) ∈ stanza.entries :=
    List.mem_map.mpr ⟨d, hd, rfl⟩
  have hall := List.mem_flatMap.mpr ⟨stanza, hstanza, hentry⟩
  have hentries := hr.flatMap_entries_stanzas (s := .continued (rootHeading options))
    (Or.inl rfl)
  rw [hentries] at hall
  rcases List.mem_append.mp hall with hnone | hread
  · exact absurd hnone List.not_mem_nil
  · exact hr.line_of_entries (List.nil_append _).symm rfl hread

/-- **A configuration is its lines in place.** What parses has one reading, and holds the
    entries of that reading, each once and in order, a stanza for every Host and Match
    line, and the files in the order in which they were read. -/
theorem entries_of_parse {options : ReadOptions} {source : String} {c : Config}
    (h : (parse tree env options source).value = .ok c) :
    ∃ r, IsReading tree env options source r
      ∧ (∀ t, IsReading tree env options source t → t = r)
      ∧ c.entries = r.entries (rootHeading options)
      ∧ r.headings.Sublist (c.stanzas.map Stanza.heading)
      ∧ c.files = (namedFile options).toList ++ r.files := by
  obtain ⟨r, hr, -, rfl⟩ := parse_eq_ok_iff.mp h
  refine ⟨r, hr, fun t ht => ht.unique hr, ?_, ?_, rfl⟩
  · exact hr.flatMap_entries_stanzas (Or.inl rfl)
  · have hheadings := hr.headings_sublist (s := .continued (rootHeading options)) (Or.inl rfl)
    exact hheadings

/-- An Include line in the middle of a Host block, of a file that ends in a Host line of
    its own. -/
theorem entries_of_parse_include :
    ∃ c r, (parse (FileTree.empty.write "/e/b" "User v\nHost d\n") ⟨"/h", "u", "w", "/h/c"⟩
        { path := some "/e/a" } "Host w\n  User u\n  Include b\n  Port 22").value = .ok c
      ∧ IsReading (FileTree.empty.write "/e/b" "User v\nHost d\n") ⟨"/h", "u", "w", "/h/c"⟩
        { path := some "/e/a" } "Host w\n  User u\n  Include b\n  Port 22" r
      ∧ r.entries ⟨.global, ⟨some "/e/a", 0⟩⟩
        = [⟨⟨.host ["w"], ⟨some "/e/a", 1⟩⟩, ⟨some "/e/a", 2⟩,
            ⟨"user", "User", "u", ["u"], ⟨some "/e/a", 2⟩⟩⟩,
          ⟨⟨.host ["w"], ⟨some "/e/a", 1⟩⟩, ⟨some "/e/b", 1⟩,
            ⟨"user", "User", "v", ["v"], ⟨some "/e/b", 1⟩⟩⟩,
          ⟨⟨.host ["w"], ⟨some "/e/a", 1⟩⟩, ⟨some "/e/a", 4⟩,
            ⟨"port", "Port", "22", ["22"], ⟨some "/e/a", 4⟩⟩⟩]
      ∧ r.headings.Sublist [⟨.host ["w"], ⟨some "/e/a", 1⟩⟩, ⟨.host ["w"], ⟨some "/e/a", 1⟩⟩,
          ⟨.host ["d"], ⟨some "/e/b", 2⟩⟩, ⟨.host ["w"], ⟨some "/e/a", 1⟩⟩]
      ∧ r.files = ["/e/b"] := by
  have hparse : (parse (FileTree.empty.write "/e/b" "User v\nHost d\n")
      ⟨"/h", "u", "w", "/h/c"⟩ { path := some "/e/a" }
      "Host w\n  User u\n  Include b\n  Port 22").value
      = .ok ⟨[⟨.host ["w"], ⟨some "/e/a", 1⟩,
            [⟨"user", "User", "u", ["u"], ⟨some "/e/a", 2⟩⟩]⟩,
          ⟨.host ["w"], ⟨some "/e/a", 1⟩,
            [⟨"user", "User", "v", ["v"], ⟨some "/e/b", 1⟩⟩]⟩,
          ⟨.host ["d"], ⟨some "/e/b", 2⟩, []⟩,
          ⟨.host ["w"], ⟨some "/e/a", 1⟩,
            [⟨"port", "Port", "22", ["22"], ⟨some "/e/a", 4⟩⟩]⟩], ["/e/a", "/e/b"]⟩ := by
    decide +kernel
  obtain ⟨r, hr, -, hentries, hheadings, hfiles⟩ := entries_of_parse hparse
  exact ⟨_, r, hparse, hr, hentries.symm, hheadings, (List.cons.inj hfiles).2.symm⟩

end Config

end SshDial
