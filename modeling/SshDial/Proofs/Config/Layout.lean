import Mathlib.Logic.Relation
import SshDial.Proofs.Config.Idle
import SshDial.Proofs.Config.LineLayout

/-! # Layout — what a configuration says does not depend on how it is laid out

    `Config.Relaid` lists the changes of a text that are changes of its layout only: a
    change in the layout of a line (`Line.Relaid`), a carriage return in front of a line
    feed, and blank lines or comments more or fewer.

    A reading is *plain* when it has no line numbers, no names as they are written and no
    line that says nothing (`Reading.plain`).  What a text makes, up to these, is what its
    plain reading makes (`Reading.stanzas_plain`), and a change of layout leaves the plain
    reading as it is (`Config.Relaid.reading`).  So does any number of them, one after the
    other (`Config.parse_relaid`). -/

namespace SshDial

open SshDial.Text

variable {tree : FileTree} {env : Environment}

/-! ## Without line numbers and names -/

/-- The place without its line number. -/
def Origin.unnumbered (o : Origin) : Origin := { o with line := 0 }

/-- The stanza without the names of its directives as they are written. -/
def Stanza.unnamed (s : Stanza) : Stanza :=
  { s with directives := s.directives.map Directive.unnamed }

/-- The stanza without line numbers and names as they are written. -/
def Stanza.plain (s : Stanza) : Stanza := (s.relocate Origin.unnumbered).unnamed

/-- The configuration without line numbers and names as they are written. -/
def Config.plain (c : Config) : Config := ⟨c.stanzas.map Stanza.plain, c.files⟩

/-- The segment without the names of its directives as they are written. -/
def Segment.unnamed (s : Segment) : Segment :=
  { s with directives := s.directives.map Directive.unnamed }

namespace Reading

/-- The reading without the lines that say nothing, and without names as they are written. -/
def terse : Reading → Reading
  | .done => .done
  | .line origin content r =>
      match content.unnamed with
      | .nothing => r.terse
      | content => .line origin content r.terse
  | .file path body r => .file path body.terse r.terse

/-- The reading without line numbers, names as they are written and lines that say nothing. -/
def plain (r : Reading) : Reading := (r.relocate Origin.unnumbered).terse

end Reading

section Terse

theorem Segment.stanzas_unnamed (s : Segment) :
    s.unnamed.stanzas = s.stanzas.map Stanza.unnamed := by
  have hempty : s.unnamed.directives.isEmpty = s.directives.isEmpty := List.isEmpty_map
  rw [stanzas, stanzas, hempty, show s.unnamed.opened = s.opened from rfl]
  split
  · rfl
  · rfl

theorem Segment.add_unnamed (s : Segment) (d : Directive) :
    (s.add d).unnamed = s.unnamed.add d.unnamed := by
  rw [add, add, unnamed, unnamed]
  simp

namespace Reading

theorem depth_terse (r : Reading) : r.terse.depth = r.depth := by
  induction r with
  | done => rfl
  | line origin content r ih => cases content <;> exact ih
  | file path body r ihbody ih =>
      show max (body.terse.depth + 1) r.terse.depth = max (body.depth + 1) r.depth
      rw [ihbody, ih]

theorem files_terse (r : Reading) : r.terse.files = r.files := by
  induction r with
  | done => rfl
  | line origin content r ih => cases content <;> exact ih
  | file path body r ihbody ih =>
      show path :: (body.terse.files ++ r.terse.files) = path :: (body.files ++ r.files)
      rw [ihbody, ih]

theorem terse_append (r t : Reading) : (r ++ t).terse = r.terse ++ t.terse := by
  induction r with
  | done => rfl
  | line origin content r ih =>
      cases content with
      | nothing => exact ih
      | directive d => exact congrArg (Reading.line _ _) ih
      | heading criteria => exact congrArg (Reading.line _ _) ih
      | includes args => exact congrArg (Reading.line _ _) ih
  | file path body r _ ih => exact congrArg (Reading.file _ _) ih

/-- Names and lines that say nothing make no difference to the stanzas, but that the names
    stand in them. -/
theorem stanzas_terse (r : Reading) (s : Segment) :
    r.terse.stanzas s.unnamed = (r.stanzas s).map Stanza.unnamed := by
  induction r generalizing s with
  | done => exact s.stanzas_unnamed
  | line origin content r ih =>
      rw [stanzas_line, List.map_append]
      cases content with
      | nothing => exact ih s
      | directive d =>
          show (Reading.line origin (.directive d.unnamed) r.terse).stanzas s.unnamed = _
          rw [stanzas_line]
          show [] ++ r.terse.stanzas (s.unnamed.add d.unnamed) = _
          rw [← Segment.add_unnamed, ih]
          rfl
      | heading criteria =>
          show (Reading.line origin (.heading criteria) r.terse).stanzas s.unnamed = _
          rw [stanzas_line]
          show s.unnamed.stanzas ++ r.terse.stanzas (Segment.unnamed (.opening _)) = _
          rw [Segment.stanzas_unnamed, ih]
          rfl
      | includes args =>
          show (Reading.line origin (.includes args) r.terse).stanzas s.unnamed = _
          rw [stanzas_line]
          show s.unnamed.stanzas ++ r.terse.stanzas (Segment.unnamed (.continued s.heading)) = _
          rw [Segment.stanzas_unnamed, ih]
          rfl
  | file path body r ihbody ih =>
      show (Reading.file path body.terse r.terse).stanzas s.unnamed = _
      rw [stanzas_file, stanzas_file, List.map_append, ih]
      exact congrArg (· ++ _) (ihbody (.continued s.heading))

theorem depth_plain (r : Reading) : r.plain.depth = r.depth := by
  rw [plain, depth_terse, depth_relocate]

theorem files_plain (r : Reading) : r.plain.files = r.files := by
  rw [plain, files_terse, files_relocate]

theorem plain_append (r t : Reading) : (r ++ t).plain = r.plain ++ t.plain := by
  rw [plain, relocate_append, terse_append]
  rfl

theorem stanzas_plain (r : Reading) (s : Segment) :
    r.plain.stanzas (s.relocate Origin.unnumbered).unnamed = (r.stanzas s).map Stanza.plain := by
  rw [plain, stanzas_terse, stanzas_relocate, List.map_map]
  rfl

/-- What a line adds to a plain reading is what it says. -/
theorem plain_line_congr {content content' : Line} (h : content'.unnamed = content.unnamed)
    (o : Origin) (r : Reading) :
    (Reading.line o content' r).plain = (Reading.line o content r).plain := by
  have hcomm : ∀ content : Line, (content.relocate Origin.unnumbered).unnamed
      = content.unnamed.relocate Origin.unnumbered := by
    intro content
    cases content <;> rfl
  rw [plain, plain, relocate, relocate, terse, terse]
  rw [hcomm, hcomm, h]

end Reading

end Terse

/-! ## Other lines with the same plain reading -/

section Reads

variable {frame : Frame} {n : Nat} {ls mid mid' : List (List Char)} {l : List Char} {r : Reading}

theorem Reads.renumber_plain (h : Reads tree env frame n [] ls r) (m : Nat) :
    ∃ r', Reads tree env frame m [] ls r' ∧ r'.plain = r.plain := by
  obtain ⟨r', hr', heq⟩ :=
    h.renumber_relocate (f := Origin.unnumbered) (fun _ _ _ => rfl) m
  exact ⟨r', hr', congrArg Reading.terse heq⟩

/-- Some lines of a text can be exchanged for others with the same plain reading. -/
theorem Reads.exchange (before after : List (List Char))
    (hmid : ∀ m t, Reads tree env frame m [] mid t →
      ∃ t', Reads tree env frame m [] mid' t' ∧ t'.plain = t.plain)
    (h : Reads tree env frame n [] (before ++ (mid ++ after)) r) :
    ∃ r', Reads tree env frame n [] (before ++ (mid' ++ after)) r' ∧ r'.plain = r.plain := by
  obtain ⟨r₁, rest, hr₁, hrest, rfl⟩ := reads_append_iff.mp h
  obtain ⟨r₂, r₃, hr₂, hr₃, rfl⟩ := reads_append_iff.mp hrest
  obtain ⟨t₂, ht₂, hmiddle⟩ := hmid _ _ hr₂
  -- The lines behind have other numbers now, and otherwise read as they did.
  obtain ⟨t₃, ht₃, hend⟩ := hr₃.renumber_plain (n + before.length + mid'.length)
  refine ⟨r₁ ++ (t₂ ++ t₃), hr₁.append (ht₂.append ht₃), ?_⟩
  simp only [Reading.plain_append, hmiddle, hend]

theorem Line.includeArgs_unnamed (content : Line) :
    content.unnamed.includeArgs = content.includeArgs := by
  cases content with
  | nothing => rfl
  | directive d => rfl
  | heading criteria => rfl
  | includes args => rfl

/-- A line with another layout has the same plain reading. -/
theorem Reads.relaid_line {l' : List Char} (hline : Line.Relaid l l')
    (h : Reads tree env frame n [] [l] r) :
    ∃ r', Reads tree env frame n [] [l'] r' ∧ r'.plain = r.plain := by
  cases h with
  | @line _ _ _ _ content files r hparse hpulls hrest =>
      obtain ⟨content', hparse', hsame⟩ := hline.parse hparse
      have hpulls' : content'.pulls tree env frame.directory = .ok files := by
        rw [Line.pulls, ← Line.includeArgs_unnamed, hsame, Line.includeArgs_unnamed]
        exact hpulls
      exact ⟨_, .line hparse' hpulls' hrest, Reading.plain_line_congr hsame _ _⟩

/-- A line that says nothing has the plain reading of no line. -/
theorem Reads.idle_line (hidle : Line.IsIdle l) (n : Nat) :
    Reads tree env frame n [] [l] (.line ⟨frame.path, n⟩ .nothing .done) :=
  .line (Line.parse_of_isIdle hidle _) rfl .done

end Reads

/-! ## The layout of a text -/

namespace Config

/-- One change in the layout of a text. -/
inductive Relaid : String → String → Prop where
  /-- The layout of a line is changed. -/
  | line {source source' : String} {before after : List (List Char)} {l l' : List Char} :
      lines source.toList = before ++ l :: after →
      lines source'.toList = before ++ l' :: after → Line.Relaid l l' → Relaid source source'
  /-- A line feed becomes a carriage return and a line feed. -/
  | lineEnd (t u : String) : Relaid (t ++ "\n" ++ u) (t ++ "\r\n" ++ u)
  /-- A blank line or a comment is added. -/
  | added {source source' : String} {before after : List (List Char)} {l : List Char} :
      lines source.toList = before ++ after →
      lines source'.toList = before ++ l :: after → Line.IsIdle l → Relaid source source'
  /-- A blank line or a comment is removed. -/
  | removed {source source' : String} {before after : List (List Char)} {l : List Char} :
      lines source.toList = before ++ l :: after →
      lines source'.toList = before ++ after → Line.IsIdle l → Relaid source source'

variable {options : ReadOptions} {source source' : String} {r : Reading} {c : Config}

/-- A carriage return in front of a line feed is white space at the end of a line. -/
theorem exists_lines_lineEnd (t u : String) : ∃ before after l,
    lines (t ++ "\n" ++ u).toList = before ++ l :: after
      ∧ lines (t ++ "\r\n" ++ u).toList = before ++ (l ++ ['\r']) :: after := by
  obtain ⟨before, l, ht, hmore⟩ := exists_last_piece '\n' t.toList
  have hsplit : t ++ "\r\n" ++ u = t ++ "\r" ++ "\n" ++ u := by
    rw [@String.append_assoc t "\r" "\n"]
    rfl
  have hreturn : lines (t ++ "\r").toList = before ++ [l ++ ['\r']] := by
    rw [String.toList_append]
    exact hmore ['\r'] (by decide)
  refine ⟨before, lines u.toList, l, ?_, ?_⟩
  · rw [lines_concat, show lines t.toList = before ++ [l] from ht, List.append_assoc,
      List.singleton_append]
  · rw [hsplit, lines_concat, hreturn, List.append_assoc, List.singleton_append]

/-- Some lines of a source can be exchanged for others with the same plain reading. -/
theorem IsReading.exchange (before mid mid' after : List (List Char))
    (hlines : lines source.toList = before ++ (mid ++ after))
    (hlines' : lines source'.toList = before ++ (mid' ++ after))
    (hmid : ∀ n t, Reads tree env (rootFrame env options) n [] mid t →
      ∃ t', Reads tree env (rootFrame env options) n [] mid' t' ∧ t'.plain = t.plain)
    (hr : IsReading tree env options source r) :
    ∃ r', IsReading tree env options source' r' ∧ r'.plain = r.plain := by
  rw [IsReading, hlines] at hr
  obtain ⟨r', hr', hsame⟩ := hr.exchange before after hmid
  refine ⟨r', ?_, hsame⟩
  rw [IsReading, hlines']
  exact hr'

theorem IsReading.exchange_line {before after : List (List Char)} {l l' : List Char}
    (hlines : lines source.toList = before ++ l :: after)
    (hlines' : lines source'.toList = before ++ l' :: after) (hline : Line.Relaid l l')
    (hr : IsReading tree env options source r) :
    ∃ r', IsReading tree env options source' r' ∧ r'.plain = r.plain :=
  hr.exchange before [l] [l'] after hlines hlines' fun _ _ ht => ht.relaid_line hline

/-- **A change of layout leaves the plain reading as it is.** -/
theorem Relaid.reading (h : Relaid source source') (hr : IsReading tree env options source r) :
    ∃ r', IsReading tree env options source' r' ∧ r'.plain = r.plain := by
  cases h with
  | line hlines hlines' hline => exact hr.exchange_line hlines hlines' hline
  | lineEnd t u =>
      obtain ⟨before, after, l, hlines, hlines'⟩ := exists_lines_lineEnd t u
      have hreturn : IsWhite ['\r'] := List.forall_mem_singleton.mpr (by decide)
      exact hr.exchange_line hlines hlines' (.padded (a := []) (List.forall_mem_nil _) hreturn)
  | @added _ _ before after l hlines hlines' hidle =>
      refine hr.exchange before [] [l] after hlines hlines' ?_
      intro n t ht
      cases ht
      exact ⟨_, Reads.idle_line hidle n, rfl⟩
  | @removed _ _ before after l hlines hlines' hidle =>
      refine hr.exchange before [l] [] after hlines hlines' ?_
      intro n t ht
      obtain rfl := ht.unique (Reads.idle_line hidle n)
      exact ⟨.done, .done, rfl⟩

/-- What a source says up to line numbers and written names is what its plain reading
    says. -/
theorem plain_eq_of_reading {r' : Reading} (h : r'.plain = r.plain) (options : ReadOptions) :
    r'.depth = r.depth
      ∧ (Config.mk (r'.stanzas (.continued (rootHeading options)))
          ((namedFile options).toList ++ r'.files)).plain
        = (Config.mk (r.stanzas (.continued (rootHeading options)))
          ((namedFile options).toList ++ r.files)).plain := by
  constructor
  · rw [← Reading.depth_plain, h, Reading.depth_plain]
  · rw [plain, plain]
    rw [← Reading.stanzas_plain, ← Reading.stanzas_plain, ← Reading.files_plain r', h,
      Reading.files_plain]

/-- **Layout does not matter.** However many changes of layout are made in a source that
    parses, one after the other, what comes of it parses as well, and to the same stanzas
    and files up to line numbers and the names as they are written. -/
theorem parse_relaid (h : Relation.ReflTransGen Relaid source source')
    (hparse : (parse tree env options source).value = .ok c) :
    ∃ c', (parse tree env options source').value = .ok c' ∧ c'.plain = c.plain := by
  obtain ⟨r, hr, hdepth, rfl⟩ := parse_eq_ok_iff.mp hparse
  have hreading : ∃ r', IsReading tree env options source' r' ∧ r'.plain = r.plain := by
    induction h with
    | refl => exact ⟨r, hr, rfl⟩
    | tail _ hstep ih =>
        obtain ⟨t, ht, hsame⟩ := ih
        obtain ⟨r', hr', hnext⟩ := hstep.reading ht
        exact ⟨r', hr', hnext.trans hsame⟩
  obtain ⟨r', hr', hsame⟩ := hreading
  obtain ⟨hdeep, hplain⟩ := plain_eq_of_reading hsame options
  exact ⟨_, parse_eq_ok_iff.mpr ⟨r', hr', hdeep ▸ hdepth, rfl⟩, hplain⟩

/-- Five changes, one of each kind. -/
theorem parse_relaid_host :
    Relation.ReflTransGen Relaid "Host a\nFoo=x y" "HOST a\r\n\nFoo x y #z"
      ∧ (parse FileTree.empty ⟨"/h", "u", "w", "/h/c"⟩ {} "Host a\nFoo=x y").value
        = .ok ⟨[⟨.host ["a"], ⟨none, 1⟩, [⟨"foo", "Foo", "x y", ["x", "y"], ⟨none, 2⟩⟩]⟩], []⟩
      ∧ ∃ c', (parse FileTree.empty ⟨"/h", "u", "w", "/h/c"⟩ {}
            "HOST a\r\n\nFoo x y #z").value = .ok c'
          ∧ c'.plain = plain
            ⟨[⟨.host ["a"], ⟨none, 1⟩, [⟨"foo", "Foo", "x y", ["x", "y"], ⟨none, 2⟩⟩]⟩], []⟩ := by
  have hwhite : ∀ s : List Char, s.all isBlank = true → IsWhite s := fun s h =>
    List.all_eq_true.mp h
  have hrecased : Line.Relaid "Host a".toList "HOST a".toList :=
    @Line.Relaid.recased [] "Host".toList "HOST".toList " a".toList (hwhite _ rfl) rfl rfl
      (by rintro c ⟨⟩; rfl)
  have hseparated : Line.Relaid "Foo=x y".toList "Foo x y".toList :=
    @Line.Relaid.separated [] "Foo".toList "=".toList " ".toList " y".toList 'x' (hwhite _ rfl) rfl
      (.equals (hwhite [] rfl) (hwhite [] rfl)) (.white (by decide) (hwhite _ rfl)) rfl (by decide)
  have hcommented : Line.Relaid "Foo x y".toList "Foo x y #z".toList :=
    @Line.Relaid.commented "Foo x y".toList [] "z".toList ' ' ⟨'y', rfl, rfl⟩ (hwhite _ rfl) rfl
      (isUnbroken_of_any rfl) (by decide)
  have hname : Relaid "Host a\nFoo=x y" "HOST a\nFoo=x y" :=
    @Relaid.line _ _ [] ["Foo=x y".toList] _ _ rfl rfl hrecased
  have hend : Relaid "HOST a\nFoo=x y" "HOST a\r\nFoo=x y" := .lineEnd "HOST a" "Foo=x y"
  have hblank : Relaid "HOST a\r\nFoo=x y" "HOST a\r\n\nFoo=x y" :=
    @Relaid.added _ _ ["HOST a\r".toList] ["Foo=x y".toList] [] rfl rfl (.inl rfl)
  have hsign : Relaid "HOST a\r\n\nFoo=x y" "HOST a\r\n\nFoo x y" :=
    @Relaid.line _ _ ["HOST a\r".toList, []] [] _ _ rfl rfl hseparated
  have hnote : Relaid "HOST a\r\n\nFoo x y" "HOST a\r\n\nFoo x y #z" :=
    @Relaid.line _ _ ["HOST a\r".toList, []] [] _ _ rfl rfl hcommented
  have hrelaid : Relation.ReflTransGen Relaid "Host a\nFoo=x y" "HOST a\r\n\nFoo x y #z" :=
    .tail (.tail (.tail (.tail (.single hname) hend) hblank) hsign) hnote
  have hparse : (parse FileTree.empty ⟨"/h", "u", "w", "/h/c"⟩ {} "Host a\nFoo=x y").value
      = .ok ⟨[⟨.host ["a"], ⟨none, 1⟩, [⟨"foo", "Foo", "x y", ["x", "y"], ⟨none, 2⟩⟩]⟩], []⟩ := by
    decide +kernel
  exact ⟨hrelaid, hparse, parse_relaid hrelaid hparse⟩

end Config

end SshDial
