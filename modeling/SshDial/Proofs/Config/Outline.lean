import SshDial.Proofs.Config.Line
import SshDial.Proofs.Config.Reading

/-! # Outlines — readings up to the places of their lines

    Lines keep their meaning wherever they stand; only the origins in their reading
    change.  A reading whose origins are changed makes the stanzas that it made before,
    with the same change in them (`Reading.stanzas_relocate`).

    `Reading.unplaced` takes the origins out, and `Outlines` says which reading some lines
    have up to them: it needs no line numbers, so the outline of a text is put together
    from those of its parts (`outlines_append_iff`). -/

namespace SshDial

open SshDial.Text

/-! ## Changing places -/

/-- The directive with its place changed by `f`. -/
def Directive.relocate (f : Origin → Origin) (d : Directive) : Directive :=
  { d with origin := f d.origin }

/-- The stanza with its places changed by `f`. -/
def Stanza.relocate (f : Origin → Origin) (s : Stanza) : Stanza :=
  ⟨s.criteria, f s.origin, s.directives.map (Directive.relocate f)⟩

/-- The line with its place changed by `f`. -/
def Line.relocate (f : Origin → Origin) : Line → Line
  | .directive d => .directive (d.relocate f)
  | content => content

namespace Segment

variable (f : Origin → Origin) (s : Segment)

/-- The segment with its places changed by `f`. -/
def relocate : Segment :=
  ⟨⟨s.heading.criteria, f s.heading.origin⟩, s.directives.map (Directive.relocate f), s.opened⟩

theorem stanzas_relocate : (s.relocate f).stanzas = s.stanzas.map (Stanza.relocate f) := by
  have hempty : (s.relocate f).directives.isEmpty = s.directives.isEmpty := List.isEmpty_map
  rw [stanzas, stanzas]
  rw [hempty, show (s.relocate f).opened = s.opened from rfl]
  split
  · rfl
  · rfl

theorem after_relocate (origin : Origin) (content : Line) :
    (s.relocate f).after (f origin) (content.relocate f)
      = (s.after origin content).relocate f := by
  cases content with
  | nothing => rfl
  | directive d =>
      show (s.relocate f).add (d.relocate f) = (s.add d).relocate f
      rw [add, add, relocate, relocate]
      rw [List.map_append]
      rfl
  | heading criteria => rfl
  | includes args => rfl

theorem closedBy_relocate (content : Line) :
    (s.relocate f).closedBy (content.relocate f)
      = (s.closedBy content).map (Stanza.relocate f) := by
  cases content with
  | nothing => rfl
  | directive d => rfl
  | heading criteria => exact s.stanzas_relocate f
  | includes args => exact s.stanzas_relocate f

end Segment

namespace Reading

variable (f : Origin → Origin)

/-- The reading with the places of its lines changed by `f`. -/
def relocate : Reading → Reading
  | .done => .done
  | .line origin content r => .line (f origin) (content.relocate f) r.relocate
  | .file path body r => .file path body.relocate r.relocate

theorem depth_relocate (r : Reading) : (r.relocate f).depth = r.depth := by
  induction r with
  | done => rfl
  | line origin content r ih => exact ih
  | file path body r ihbody ih =>
      show max ((body.relocate f).depth + 1) (r.relocate f).depth
        = max (body.depth + 1) r.depth
      rw [ihbody, ih]

theorem files_relocate (r : Reading) : (r.relocate f).files = r.files := by
  induction r with
  | done => rfl
  | line origin content r ih => exact ih
  | file path body r ihbody ih =>
      show path :: ((body.relocate f).files ++ (r.relocate f).files) = path :: (body.files ++ r.files)
      rw [ihbody, ih]

theorem relocate_append (r t : Reading) :
    (r ++ t).relocate f = r.relocate f ++ t.relocate f := by
  induction r with
  | done => rfl
  | line origin content r ih => exact congrArg (Reading.line _ _) ih
  | file path body r _ ih => exact congrArg (Reading.file _ _) ih

theorem last_relocate (r : Reading) (s : Segment) :
    (r.relocate f).last (s.relocate f) = (r.last s).relocate f := by
  induction r generalizing s with
  | done => rfl
  | line origin content r ih =>
      show (r.relocate f).last ((s.relocate f).after (f origin) (content.relocate f)) = _
      rw [Segment.after_relocate, ih]
      rfl
  | file path body r _ ih => exact ih s

theorem closed_relocate (r : Reading) (s : Segment) :
    (r.relocate f).closed (s.relocate f) = (r.closed s).map (Stanza.relocate f) := by
  induction r generalizing s with
  | done => rfl
  | line origin content r ih =>
      show (s.relocate f).closedBy (content.relocate f)
        ++ (r.relocate f).closed ((s.relocate f).after (f origin) (content.relocate f)) = _
      rw [Segment.after_relocate, Segment.closedBy_relocate, ih, ← List.map_append]
      rfl
  | file path body r ihbody ih =>
      -- A continued segment is one whose heading alone has a place.
      have hbody := ihbody (.continued s.heading)
      have hlast := body.last_relocate f (.continued s.heading)
      show (body.relocate f).closed ((Segment.continued s.heading).relocate f)
        ++ ((body.relocate f).last ((Segment.continued s.heading).relocate f)).stanzas
        ++ (r.relocate f).closed (s.relocate f) = _
      rw [hbody, hlast, Segment.stanzas_relocate, ih, ← List.map_append, ← List.map_append]
      rfl

/-- Places make no difference to the stanzas but that they stand in them. -/
theorem stanzas_relocate (r : Reading) (s : Segment) :
    (r.relocate f).stanzas (s.relocate f) = (r.stanzas s).map (Stanza.relocate f) := by
  rw [stanzas, stanzas]
  rw [closed_relocate, last_relocate, Segment.stanzas_relocate, List.map_append]

end Reading

/-! ## Taking places out -/

/-- The place of nothing in particular. -/
def Origin.nowhere : Origin := ⟨none, 0⟩

namespace Directive

/-- The directive without its place. -/
def unplaced (d : Directive) : Directive := { d with origin := .nowhere }

end Directive

namespace Stanza

/-- The stanza without any place. -/
def unplaced (s : Stanza) : Stanza :=
  ⟨s.criteria, .nowhere, s.directives.map Directive.unplaced⟩

end Stanza

namespace Segment

/-- The segment without any place. -/
def unplaced (s : Segment) : Segment :=
  ⟨⟨s.heading.criteria, .nowhere⟩, s.directives.map Directive.unplaced, s.opened⟩

end Segment

namespace Reading

/-- The reading without the places of its lines. -/
def unplaced : Reading → Reading
  | .done => .done
  | .line _ content r => .line .nowhere (content.placed .nowhere) r.unplaced
  | .file path body r => .file path body.unplaced r.unplaced

theorem unplaced_eq_relocate (r : Reading) : r.unplaced = r.relocate fun _ => .nowhere := by
  induction r with
  | done => rfl
  | line origin content r ih =>
      have hcontent : content.placed .nowhere = content.relocate fun _ => .nowhere := by
        cases content <;> rfl
      rw [unplaced, ih, hcontent]
      rfl
  | file path body r ihbody ih =>
      rw [unplaced, ihbody, ih]
      rfl

theorem unplaced_append (r t : Reading) : (r ++ t).unplaced = r.unplaced ++ t.unplaced := by
  rw [unplaced_eq_relocate, unplaced_eq_relocate, unplaced_eq_relocate, relocate_append]

theorem depth_unplaced (r : Reading) : r.unplaced.depth = r.depth := by
  rw [unplaced_eq_relocate, depth_relocate]

/-- The stanzas of an outline are those of the reading without their places. -/
theorem stanzas_unplaced (r : Reading) (s : Segment) :
    r.unplaced.stanzas s.unplaced = (r.stanzas s).map Stanza.unplaced := by
  rw [unplaced_eq_relocate]
  exact stanzas_relocate (fun _ => .nowhere) r s

end Reading

section Outlines

variable {tree : FileTree} {env : Environment}

theorem Line.placed_placed (content : Line) (o o' : Origin) :
    (content.placed o).placed o' = content.placed o' := by
  cases content with
  | nothing => rfl
  | directive d => rfl
  | heading criteria => rfl
  | includes args => rfl

theorem Line.includeArgs_placed (content : Line) (o : Origin) :
    (content.placed o).includeArgs = content.includeArgs := by
  cases content with
  | nothing => rfl
  | directive d => rfl
  | heading criteria => rfl
  | includes args => rfl

theorem Line.pulls_placed (content : Line) (o : Origin) (directory : String) :
    (content.placed o).pulls tree env directory = content.pulls tree env directory := by
  rw [pulls, pulls, includeArgs_placed]

theorem Line.relocate_of_parse {f : Origin → Origin} {o : Origin} {l : List Char} {content : Line}
    (h : parse o l = .ok content) : content.relocate f = content.placed (f o) := by
  cases content with
  | nothing => rfl
  | directive d => rw [relocate, Directive.relocate, origin_of_parse h, placed]
  | heading criteria => rfl
  | includes args => rfl

/-- Lines that are moved have the same reading up to their numbers. -/
theorem Reads.renumber_relocate {f : Origin → Origin}
    (hf : ∀ path m n, f ⟨path, m⟩ = f ⟨path, n⟩) {frame : Frame} {n : Nat} {files : List String}
    {ls : List (List Char)} {r : Reading} (h : Reads tree env frame n files ls r) (m : Nat) :
    ∃ r', Reads tree env frame m files ls r' ∧ r'.relocate f = r.relocate f := by
  induction h generalizing m with
  | done => exact ⟨.done, .done, rfl⟩
  | @line frame n l ls content files r hparse hpulls _ ih =>
      obtain ⟨r', hr', heq⟩ := ih (m + 1)
      have hparse' := Line.parse_placed hparse ⟨frame.path, m⟩
      refine ⟨_, .line hparse' ((Line.pulls_placed _ _ _).trans hpulls) hr', ?_⟩
      rw [Reading.relocate, Reading.relocate, heq, Line.relocate_of_parse hparse,
        Line.relocate_of_parse hparse', Line.placed_placed, hf frame.path m n]
  | @file frame n ls path text files body r hread hbody _ _ ih =>
      obtain ⟨r', hr', heq⟩ := ih m
      exact ⟨_, .file hread hbody hr', congrArg (Reading.file path _) heq⟩

theorem Reads.renumber {frame : Frame} {n : Nat} {files : List String}
    {ls : List (List Char)} {r : Reading} (h : Reads tree env frame n files ls r) (m : Nat) :
    ∃ r', Reads tree env frame m files ls r' ∧ r'.unplaced = r.unplaced := by
  obtain ⟨r', hr', heq⟩ := h.renumber_relocate (f := fun _ => .nowhere) (fun _ _ _ => rfl) m
  rw [← Reading.unplaced_eq_relocate, ← Reading.unplaced_eq_relocate] at heq
  exact ⟨r', hr', heq⟩

/-- The lines `ls` of a text read under `frame`, wherever they stand in it, have the
    reading `t` up to places. -/
def Outlines (tree : FileTree) (env : Environment) (frame : Frame)
    (ls : List (List Char)) (t : Reading) : Prop :=
  ∃ n r, Reads tree env frame n [] ls r ∧ r.unplaced = t

/-- An outline is that of a reading at any place. -/
theorem Outlines.reads {frame : Frame} {ls : List (List Char)} {t : Reading}
    (h : Outlines tree env frame ls t) (n : Nat) :
    ∃ r, Reads tree env frame n [] ls r ∧ r.unplaced = t := by
  obtain ⟨m, r, hr, rfl⟩ := h
  exact hr.renumber n

theorem Outlines.unique {frame : Frame} {ls : List (List Char)} {t u : Reading}
    (ht : Outlines tree env frame ls t) (hu : Outlines tree env frame ls u) : t = u := by
  obtain ⟨r, hr, rfl⟩ := ht.reads 1
  obtain ⟨r', hr', rfl⟩ := hu.reads 1
  rw [hr.unique hr']

/-- A text is outlined part by part. -/
theorem outlines_append_iff {frame : Frame} {ls₁ ls₂ : List (List Char)} {t : Reading} :
    Outlines tree env frame (ls₁ ++ ls₂) t ↔
      ∃ t₁ t₂, Outlines tree env frame ls₁ t₁ ∧ Outlines tree env frame ls₂ t₂
        ∧ t = t₁ ++ t₂ := by
  constructor
  · rintro ⟨n, r, hr, rfl⟩
    obtain ⟨r₁, r₂, hr₁, hr₂, rfl⟩ := reads_append_iff.mp hr
    exact ⟨_, _, ⟨n, r₁, hr₁, rfl⟩, ⟨_, r₂, hr₂, rfl⟩, r₁.unplaced_append r₂⟩
  · rintro ⟨t₁, t₂, h₁, h₂, rfl⟩
    obtain ⟨r₁, hr₁, rfl⟩ := h₁.reads 1
    obtain ⟨r₂, hr₂, rfl⟩ := h₂.reads (1 + ls₁.length)
    exact ⟨1, r₁ ++ r₂, hr₁.append hr₂, r₁.unplaced_append r₂⟩

end Outlines

end SshDial
