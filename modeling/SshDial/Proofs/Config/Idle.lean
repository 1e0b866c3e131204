import SshDial.Proofs.Config.Assignment
import SshDial.Proofs.Config.Outline
import SshDial.Proofs.Config.Reader

/-! # Idle lines — lines and Include lines that bring nothing

    A blank line or a comment leaves the open segment as it is, a directive line adds to
    it, and neither closes it.  An Include line whose files hold idle lines only closes
    it and goes on under the same heading (`outlines_idleInclude`); that is all it does. -/

namespace SshDial

open SshDial.Text

namespace Line

/-- A blank line or a comment. -/
def IsIdle (l : List Char) : Prop := trim l = [] ∨ (trim l).head? = some '#'

instance : DecidablePred IsIdle := fun _ => inferInstanceAs (Decidable (_ ∨ _))

theorem parse_of_isIdle {l : List Char} (h : IsIdle l) (o : Origin) :
    parse o l = .ok .nothing :=
  parse_ok_iff.mpr (Or.inl ⟨h, rfl⟩)

/-- Is the line a blank one, a comment or a directive, and so one that closes nothing? -/
def isSetting (l : List Char) : Bool :=
  match parse .nowhere l with
  | .ok .nothing => true
  | .ok (.directive _) => true
  | _ => false

end Line

/-- The segment with some more directives. -/
def Segment.addAll (s : Segment) (ds : List Directive) : Segment :=
  { s with directives := s.directives ++ ds }

theorem Segment.addAll_nil (s : Segment) : s.addAll [] = s := by
  rw [addAll, List.append_nil]

theorem Segment.addAll_addAll (s : Segment) (ds ds' : List Directive) :
    (s.addAll ds).addAll ds' = s.addAll (ds ++ ds') := by
  rw [addAll, addAll, addAll, List.append_assoc]

/-- An Include line of a source that brings nothing: its arguments are globs that match no
    file, or name readable files of idle lines, and these lie within the depth limit. -/
structure IsIdleInclude (tree : FileTree) (env : Environment) (options : ReadOptions)
    (line : List Char) : Prop where
  isLine : '\n' ∉ line
  idle : ∃ args files, Line.parse .nowhere line = .ok (.includes args)
    ∧ Reader.namedFiles tree env (Config.baseDirectory env options) args = .ok files
    ∧ (files ≠ [] → 0 < options.includeDepth)
    ∧ ∀ file ∈ files, ∃ text, tree.read file = .ok text
      ∧ ∀ l ∈ lines text.toList, Line.IsIdle l

namespace Reading

/-- All that is read are some directives. -/
def Adds (ds : List Directive) (r : Reading) : Prop :=
  ∀ s, r.closed s = [] ∧ r.last s = s.addAll ds

/-- All that happens is that the open segment is closed and gone on with. -/
def Pauses (r : Reading) : Prop :=
  ∀ s, r.closed s = s.stanzas ∧ r.last s = .continued s.heading

/-- The open segment is closed before anything else happens. -/
def Closes (r : Reading) : Prop :=
  ∀ s, r.stanzas s = s.stanzas ++ r.stanzas (.continued s.heading)

theorem Adds.append {ds ds' : List Directive} {t t' : Reading} (h : t.Adds ds)
    (h' : t'.Adds ds') : (t ++ t').Adds (ds ++ ds') := by
  intro s
  obtain ⟨hclosed, hlast⟩ := h s
  obtain ⟨hclosed', hlast'⟩ := h' (s.addAll ds)
  constructor
  · rw [closed_append, hclosed, hlast, hclosed']
    rfl
  · rw [last_append, hlast, hlast', Segment.addAll_addAll]

theorem adds_nil : Reading.done.Adds [] := fun s => ⟨rfl, s.addAll_nil.symm⟩

theorem adds_directive (d : Directive) : (Reading.line .nowhere (.directive d) .done).Adds [d] :=
  fun _ => ⟨rfl, rfl⟩

theorem Adds.stanzas_append {ds : List Directive} {r t : Reading} (hr : r.Adds ds)
    (ht : t.Closes) (s : Segment) :
    (r ++ t).stanzas s = (s.addAll ds).stanzas ++ t.stanzas (.continued s.heading) := by
  rw [Reading.stanzas_append, (hr s).1, (hr s).2, List.nil_append, ht (s.addAll ds)]
  rfl

theorem Pauses.stanzas_append {r : Reading} (hr : r.Pauses) (t : Reading) (s : Segment) :
    (r ++ t).stanzas s = s.stanzas ++ t.stanzas (.continued s.heading) := by
  rw [Reading.stanzas_append, (hr s).1, (hr s).2]

end Reading

section Outlines

variable {tree : FileTree} {env : Environment}

/-- A single line that pulls nothing in. -/
theorem outlines_line {frame : Frame} {l : List Char} {content : Line}
    (hparse : Line.parse .nowhere l = .ok content) (hargs : content.includeArgs = []) :
    Outlines tree env frame [l] (.line .nowhere content .done) := by
  have hplaced := Line.parse_placed hparse ⟨frame.path, 1⟩
  have hpulls : (content.placed ⟨frame.path, 1⟩).pulls tree env frame.directory = .ok [] := by
    rw [Line.pulls_placed, Line.pulls, hargs]
    rfl
  refine ⟨1, _, .line hplaced hpulls .done, ?_⟩
  show Reading.line _ ((content.placed _).placed _) .done = _
  rw [Line.placed_placed, Line.placed_of_parse hparse]

/-- Lines that close nothing add their directives to the open segment. -/
theorem outlines_settings (frame : Frame) {ls : List (List Char)}
    (h : ∀ l ∈ ls, Line.isSetting l = true) :
    ∃ t ds, Outlines tree env frame ls t ∧ t.depth = 0 ∧ t.Adds ds := by
  induction ls with
  | nil => exact ⟨.done, [], ⟨1, .done, .done, rfl⟩, rfl, Reading.adds_nil⟩
  | cons l ls ih =>
      obtain ⟨t, ds, ht, hdepth, hrest⟩ := ih fun l' hl' => h l' (List.mem_cons_of_mem l hl')
      have hl := h l List.mem_cons_self
      rw [Line.isSetting] at hl
      split at hl
      · rename_i hparse
        refine ⟨_, ds, outlines_append_iff.mpr
          ⟨_, t, outlines_line hparse rfl, ht, rfl⟩, hdepth, fun s => ?_⟩
        exact hrest s
      · rename_i d hparse
        exact ⟨_, [d] ++ ds, outlines_append_iff.mpr
          ⟨_, t, outlines_line hparse rfl, ht, rfl⟩, hdepth,
          (Reading.adds_directive d).append hrest⟩
      · exact nomatch hl

/-- Idle lines do nothing. -/
theorem outlines_idle (frame : Frame) {ls : List (List Char)} (h : ∀ l ∈ ls, Line.IsIdle l) :
    ∃ t, Outlines tree env frame ls t ∧ t.depth = 0
      ∧ ∀ s, t.closed s = [] ∧ t.last s = s := by
  induction ls with
  | nil => exact ⟨.done, ⟨1, .done, .done, rfl⟩, rfl, fun s => ⟨rfl, rfl⟩⟩
  | cons l ls ih =>
      obtain ⟨t, ht, hdepth, hrest⟩ := ih fun l' hl' => h l' (List.mem_cons_of_mem l hl')
      have hparse := Line.parse_of_isIdle (h l List.mem_cons_self) .nowhere
      exact ⟨_, outlines_append_iff.mpr ⟨_, t, outlines_line hparse rfl, ht, rfl⟩,
        hdepth, hrest⟩

/-- Files of idle lines bring nothing. -/
theorem reads_idle_files (frame : Frame) (n : Nat) {files : List String}
    (h : ∀ file ∈ files, ∃ text, tree.read file = .ok text
      ∧ ∀ l ∈ lines text.toList, Line.IsIdle l) :
    ∃ r, Reads tree env frame n files [] r ∧ r.depth ≤ 1 ∧ (files = [] → r.depth = 0)
      ∧ ∀ s, r.unplaced.closed s = [] ∧ r.unplaced.last s = s := by
  induction files with
  | nil => exact ⟨.done, .done, Nat.zero_le _, fun _ => rfl, fun _ => ⟨rfl, rfl⟩⟩
  | cons file files ih =>
      obtain ⟨r, hr, hdepth, -, hquiet⟩ := ih fun f hf => h f (List.mem_cons_of_mem file hf)
      obtain ⟨text, hread, hidle⟩ := h file List.mem_cons_self
      obtain ⟨t, ht, htdepth, hbodyquiet⟩ :=
        @outlines_idle tree env ⟨some file, Path.dirname file⟩ _ hidle
      obtain ⟨body, hbody, rfl⟩ := ht.reads 1
      rw [Reading.depth_unplaced] at htdepth
      refine ⟨_, .file hread hbody hr, ?_, fun hnil => (nomatch hnil), fun s => ⟨?_, ?_⟩⟩
      · show max (body.depth + 1) r.depth ≤ 1
        omega
      · show body.unplaced.closed (.continued s.heading)
          ++ (body.unplaced.last (.continued s.heading)).stanzas ++ r.unplaced.closed s = []
        rw [(hbodyquiet _).1, (hbodyquiet _).2, (hquiet s).1]
        rfl
      · exact (hquiet s).2

/-- An Include line that brings nothing closes the open segment, goes on under its
    heading, and does nothing else. -/
theorem outlines_idleInclude {options : ReadOptions} {line : List Char}
    (h : IsIdleInclude tree env options line) :
    ∃ t, Outlines tree env (Config.rootFrame env options) [line] t
      ∧ t.depth ≤ options.includeDepth.toNat ∧ t.Pauses := by
  obtain ⟨args, files, hparse, hnamed, hlimit, hidle⟩ := h.idle
  obtain ⟨r, hr, hdepth, hempty, hquiet⟩ :=
    reads_idle_files (Config.rootFrame env options) 2 hidle
  have hline : Reads tree env (Config.rootFrame env options) 1 [] [line]
      (.line ⟨options.path, 1⟩ (.includes args) r) :=
    .line (Line.parse_placed hparse ⟨options.path, 1⟩) hnamed hr
  refine ⟨_, ⟨1, _, hline, rfl⟩, ?_, fun s => ⟨?_, ?_⟩⟩
  · rw [Reading.depth_unplaced]
    show r.depth ≤ _
    by_cases hfiles : files = []
    · rw [hempty hfiles]
      exact Nat.zero_le _
    · have hpos := hlimit hfiles
      omega
  · show s.stanzas ++ r.unplaced.closed (.continued s.heading) = s.stanzas
    rw [(hquiet _).1, List.append_nil]
  · exact (hquiet (.continued s.heading)).2

/-- Lines that begin with none that adds to the open segment close it. -/
theorem Outlines.closes {frame : Frame} {ls : List (List Char)} {t : Reading}
    (h : Outlines tree env frame ls t) (hcut : ∀ l ∈ ls.head?, Line.isSetting l = false) :
    t.Closes := by
  obtain ⟨n, r, hr, rfl⟩ := h
  intro s
  cases hr with
  | done => exact (List.append_nil _).symm
  | @line _ _ l ls content files r hparse hpulls hrest =>
      have hcontent : Line.isSetting l = false := hcut l rfl
      have hnowhere := Line.parse_placed hparse .nowhere
      rw [Line.isSetting, hnowhere] at hcontent
      cases content with
      | nothing => exact nomatch hcontent
      | directive d => exact nomatch hcontent
      | heading criteria => exact Reading.stanzas_line _ _ _ _
      | includes args => exact Reading.stanzas_line _ _ _ _

end Outlines

end SshDial
