import SshDial.Config.Reader

/-! # Readings — a configuration text as it was read

    A `Reading` is what reading a text leaves behind: its lines in order, where an
    Include line is followed by the readings of the files it pulled in.  `Reads` says
    which reading a text has.  Neither knows segments or the moments at which they are
    closed, so what a configuration holds can be compared with them.

    * a text has one reading at most (`Reads.unique`);
    * the reading of a text cut in two is the one part's before the other's
      (`reads_append_iff`);
    * `Reading.stanzas` are the stanzas that a reading makes when a segment is open, and
      they are the closed ones followed by that of the last open segment. -/

namespace SshDial

open SshDial.Text

/-- The lines of a text as they were read. -/
inductive Reading where
  | done
  /-- The next line, and what follows it. -/
  | line (origin : Origin) (content : Line) (rest : Reading)
  /-- The next file that the Include line before pulled in, and what follows it. -/
  | file (path : String) (body rest : Reading)
  deriving Repr, Inhabited

/-- Two steps succeed when the first does and then the second. -/
theorem bind_eq_ok_iff {ε α β : Type} {x : Except ε α} {f : α → Except ε β} {b : β} :
    x >>= f = .ok b ↔ ∃ a, x = .ok a ∧ f a = .ok b := by
  cases x with
  | error e => exact ⟨fun h => (nomatch h), fun ⟨_, h, _⟩ => (nomatch h)⟩
  | ok a =>
      constructor
      · intro h
        exact ⟨a, rfl, h⟩
      · rintro ⟨a', ha, h⟩
        obtain rfl := Except.ok.inj ha
        exact h

theorem map_eq_ok_iff {ε α β : Type} {f : α → β} {x : Except ε α} {b : β} :
    x.map f = .ok b ↔ ∃ a, x = .ok a ∧ f a = b := by
  cases x with
  | error e => exact ⟨fun h => (nomatch h), fun ⟨_, h, _⟩ => (nomatch h)⟩
  | ok a =>
      constructor
      · exact fun h => ⟨a, rfl, Except.ok.inj h⟩
      · rintro ⟨_, h, rfl⟩
        obtain rfl := Except.ok.inj h
        rfl

namespace Reader

variable (tree : FileTree) (env : Environment)

/-- The files that the arguments of an Include line name, in order. -/
def namedFiles (directory : String) : List String → Except ReadFault (List String)
  | [] => .ok []
  | argument :: rest => do
      let files ← filesOf tree env directory argument
      let more ← namedFiles directory rest
      return files ++ more

theorem namedFiles_cons_eq_ok {tree : FileTree} {env : Environment} {directory arg : String}
    {args files : List String}
    (h : namedFiles tree env directory (arg :: args) = .ok files) :
    ∃ named more, filesOf tree env directory arg = .ok named
      ∧ namedFiles tree env directory args = .ok more ∧ files = named ++ more := by
  rw [namedFiles] at h
  obtain ⟨named, hnamed, h⟩ := bind_eq_ok_iff.mp h
  obtain ⟨more, hmore, h⟩ := bind_eq_ok_iff.mp h
  exact ⟨named, more, hnamed, hmore, (Except.ok.inj h).symm⟩

end Reader

/-- The arguments of an Include line; any other line has none. -/
def Line.includeArgs : Line → List String
  | .includes args => args
  | _ => []

/-- The files that a line pulls in: those an Include line names, none for any other. -/
def Line.pulls (tree : FileTree) (env : Environment) (directory : String) (content : Line) :
    Except ReadFault (List String) :=
  Reader.namedFiles tree env directory content.includeArgs

/-- `Reads tree env frame n files ls r`: in a text read under `frame`, the `files` still
    to be read for the Include line before, and then the lines `ls` from number `n` on,
    have the reading `r`. -/
inductive Reads (tree : FileTree) (env : Environment) :
    Frame → Nat → List String → List (List Char) → Reading → Prop where
  | done {frame : Frame} {n : Nat} : Reads tree env frame n [] [] .done
  | line {frame : Frame} {n : Nat} {l : List Char} {ls : List (List Char)}
      {content : Line} {files : List String} {r : Reading} :
      Line.parse ⟨frame.path, n⟩ l = .ok content →
      content.pulls tree env frame.directory = .ok files →
      Reads tree env frame (n + 1) files ls r →
      Reads tree env frame n [] (l :: ls) (.line ⟨frame.path, n⟩ content r)
  | file {frame : Frame} {n : Nat} {ls : List (List Char)} {path text : String}
      {files : List String} {body r : Reading} :
      tree.read path = .ok text →
      Reads tree env ⟨some path, Path.dirname path⟩ 1 [] (lines text.toList) body →
      Reads tree env frame n files ls r →
      Reads tree env frame n (path :: files) ls (.file path body r)

/-- What a line makes of the open segment. -/
def Segment.after (s : Segment) (origin : Origin) : Line → Segment
  | .nothing => s
  | .directive d => s.add d
  | .heading criteria => .opening ⟨criteria, origin⟩
  | .includes _ => .continued s.heading

/-- The stanza of the open segment, if the line closes it. -/
def Segment.closedBy (s : Segment) : Line → List Stanza
  | .nothing => []
  | .directive _ => []
  | .heading _ => s.stanzas
  | .includes _ => s.stanzas

namespace Reading

/-- One reading before another. -/
def append : Reading → Reading → Reading
  | .done, t => t
  | .line origin content r, t => .line origin content (r.append t)
  | .file path body r, t => .file path body (r.append t)

instance : Append Reading := ⟨append⟩

/-- How deeply the files that were pulled in are nested. -/
def depth : Reading → Nat
  | .done => 0
  | .line _ _ r => r.depth
  | .file _ body r => max (body.depth + 1) r.depth

/-- The files that were pulled in, each before those it pulled in itself. -/
def files : Reading → List String
  | .done => []
  | .line _ _ r => r.files
  | .file path body r => path :: (body.files ++ r.files)

/-- The segment that is open at the end. -/
def last (s : Segment) : Reading → Segment
  | .done => s
  | .line origin content r => r.last (s.after origin content)
  | .file _ _ r => r.last s

/-- The stanzas that are closed before the end. -/
def closed (s : Segment) : Reading → List Stanza
  | .done => []
  | .line origin content r => s.closedBy content ++ r.closed (s.after origin content)
  | .file _ body r =>
      body.closed (.continued s.heading) ++ (body.last (.continued s.heading)).stanzas
        ++ r.closed s

/-- The stanzas that a reading makes when `s` is open before it. -/
def stanzas (s : Segment) (r : Reading) : List Stanza := r.closed s ++ (r.last s).stanzas

theorem append_assoc (r t u : Reading) : (r ++ t) ++ u = r ++ (t ++ u) := by
  induction r with
  | done => rfl
  | line origin content r ih =>
      show Reading.line origin content ((r ++ t) ++ u) = _
      rw [ih]
      rfl
  | file path body r _ ih =>
      show Reading.file path body ((r ++ t) ++ u) = _
      rw [ih]
      rfl

@[simp] theorem stanzas_done (s : Segment) : Reading.done.stanzas s = s.stanzas := rfl

theorem stanzas_line (s : Segment) (origin : Origin) (content : Line) (r : Reading) :
    (Reading.line origin content r).stanzas s
      = s.closedBy content ++ r.stanzas (s.after origin content) :=
  List.append_assoc _ _ _

theorem stanzas_file (s : Segment) (path : String) (body r : Reading) :
    (Reading.file path body r).stanzas s
      = body.stanzas (.continued s.heading) ++ r.stanzas s :=
  List.append_assoc _ _ _

theorem depth_append (r t : Reading) : (r ++ t).depth = max r.depth t.depth := by
  induction r with
  | done => exact (Nat.zero_max t.depth).symm
  | line origin content r ih => exact ih
  | file path body r _ ih =>
      show max (body.depth + 1) (r ++ t).depth = max (max (body.depth + 1) r.depth) t.depth
      rw [ih, Nat.max_assoc]

theorem files_append (r t : Reading) : (r ++ t).files = r.files ++ t.files := by
  induction r with
  | done => rfl
  | line origin content r ih => exact ih
  | file path body r _ ih =>
      show path :: (body.files ++ (r ++ t).files) = _
      rw [ih, ← List.append_assoc]
      rfl

theorem last_append (s : Segment) (r t : Reading) :
    (r ++ t).last s = t.last (r.last s) := by
  induction r generalizing s with
  | done => rfl
  | line origin content r ih => exact ih (s.after origin content)
  | file path body r _ ih => exact ih s

theorem closed_append (s : Segment) (r t : Reading) :
    (r ++ t).closed s = r.closed s ++ t.closed (r.last s) := by
  induction r generalizing s with
  | done => rfl
  | line origin content r ih =>
      show s.closedBy content ++ (r ++ t).closed (s.after origin content) = _
      rw [ih, ← List.append_assoc]
      rfl
  | file path body r _ ih =>
      show _ ++ (r ++ t).closed s = _
      rw [ih, ← List.append_assoc]
      rfl

/-- What follows a reading starts from the segment that is open at its end. -/
theorem stanzas_append (s : Segment) (r t : Reading) :
    (r ++ t).stanzas s = r.closed s ++ t.stanzas (r.last s) := by
  show (r ++ t).closed s ++ ((r ++ t).last s).stanzas = _
  rw [closed_append, last_append, List.append_assoc]
  rfl

end Reading

section Reads

variable {tree : FileTree} {env : Environment}

/-- A text has one reading at most. -/
theorem Reads.unique {frame : Frame} {n : Nat} {files : List String}
    {ls : List (List Char)} {r t : Reading}
    (hr : Reads tree env frame n files ls r) (ht : Reads tree env frame n files ls t) :
    r = t := by
  induction hr generalizing t with
  | done =>
      cases ht
      rfl
  | line hparse hpulls _ ih =>
      cases ht with
      | line hparse' hpulls' hrest =>
          obtain rfl := Except.ok.inj (hparse.symm.trans hparse')
          obtain rfl := Except.ok.inj (hpulls.symm.trans hpulls')
          rw [ih hrest]
  | file hread _ _ ihbody ih =>
      cases ht with
      | file hread' hbody hrest =>
          obtain rfl := Except.ok.inj (hread.symm.trans hread')
          rw [ihbody hbody, ih hrest]

/-- The reading of some lines before that of the lines after them. -/
theorem Reads.append {frame : Frame} {n : Nat} {files : List String}
    {ls₁ ls₂ : List (List Char)} {r t : Reading}
    (hr : Reads tree env frame n files ls₁ r)
    (ht : Reads tree env frame (n + ls₁.length) [] ls₂ t) :
    Reads tree env frame n files (ls₁ ++ ls₂) (r ++ t) := by
  induction hr with
  | done => exact ht
  | line hparse hpulls _ ih =>
      refine .line hparse hpulls (ih ?_)
      rw [Nat.add_assoc, Nat.add_comm 1]
      exact ht
  | file hread hbody _ _ ih => exact .file hread hbody (ih ht)

/-- Files still to be read come before everything else. -/
theorem reads_files_append_iff {frame : Frame} {n : Nat} {files more : List String}
    {ls : List (List Char)} {r : Reading} :
    Reads tree env frame n (files ++ more) ls r ↔
      ∃ r₁ r₂, Reads tree env frame n files [] r₁
        ∧ Reads tree env frame n more ls r₂ ∧ r = r₁ ++ r₂ := by
  induction files generalizing r with
  | nil =>
      constructor
      · intro h
        exact ⟨.done, r, .done, h, rfl⟩
      · rintro ⟨r₁, r₂, h₁, h₂, rfl⟩
        cases h₁
        exact h₂
  | cons path files ih =>
      constructor
      · intro h
        cases h with
        | file hread hbody hrest =>
            obtain ⟨r₁, r₂, h₁, h₂, rfl⟩ := ih.mp hrest
            exact ⟨_, r₂, .file hread hbody h₁, h₂, rfl⟩
      · rintro ⟨r₁, r₂, h₁, h₂, rfl⟩
        cases h₁ with
        | file hread hbody hrest =>
            exact .file hread hbody (ih.mpr ⟨_, r₂, hrest, h₂, rfl⟩)

theorem reads_files_iff {frame : Frame} {n : Nat} {files : List String}
    {ls : List (List Char)} {r : Reading} :
    Reads tree env frame n files ls r ↔
      ∃ r₁ r₂, Reads tree env frame n files [] r₁
        ∧ Reads tree env frame n [] ls r₂ ∧ r = r₁ ++ r₂ := by
  rw [← reads_files_append_iff, List.append_nil]

/-- Files leave the open segment as it is. -/
theorem Reads.last_of_files {frame : Frame} {n : Nat} {files : List String} {r : Reading}
    (h : Reads tree env frame n files [] r) (s : Segment) : r.last s = s := by
  induction files generalizing r with
  | nil =>
      cases h
      rfl
  | cons path files ih =>
      cases h with
      | file _ _ hrest =>
          have hlast := ih hrest
          exact hlast

/-- Files are read under the heading of the open segment and nothing else of it. -/
theorem Reads.closed_of_files {frame : Frame} {n : Nat} {files : List String} {r : Reading}
    (h : Reads tree env frame n files [] r) {s t : Segment} (hst : s.heading = t.heading) :
    r.closed s = r.closed t := by
  induction files generalizing r with
  | nil =>
      cases h
      rfl
  | cons path files ih =>
      cases h with
      | @file _ _ _ _ _ _ body r _ _ hrest =>
          show body.closed (.continued s.heading)
            ++ (body.last (.continued s.heading)).stanzas ++ r.closed s = _
          rw [ih hrest, hst]
          rfl

/-- The files that a line pulls in are read under the heading that is in force at the
    line. -/
theorem Reads.closed_of_pulls {frame : Frame} {n : Nat} {content : Line} {files : List String}
    {r : Reading} (hpulls : content.pulls tree env frame.directory = .ok files)
    (h : Reads tree env frame n files [] r) (s : Segment) (origin : Origin) :
    r.closed (s.after origin content) = r.closed (.continued s.heading) := by
  cases content with
  | heading criteria =>
      obtain rfl : [] = files := Except.ok.inj hpulls
      cases h
      rfl
  | nothing => exact h.closed_of_files rfl
  | directive d => exact h.closed_of_files rfl
  | includes args => rfl

/-- A text cut between two lines is read one part after the other. -/
theorem reads_append_iff {frame : Frame} {n : Nat} {files : List String}
    {ls₁ ls₂ : List (List Char)} {r : Reading} :
    Reads tree env frame n files (ls₁ ++ ls₂) r ↔
      ∃ r₁ r₂, Reads tree env frame n files ls₁ r₁
        ∧ Reads tree env frame (n + ls₁.length) [] ls₂ r₂ ∧ r = r₁ ++ r₂ := by
  constructor
  · intro h
    generalize hls : ls₁ ++ ls₂ = ls at h
    -- The cut falls between two lines: files still to be read belong to the first part.
    induction h generalizing ls₁ with
    | done =>
        obtain ⟨rfl, rfl⟩ := List.append_eq_nil_iff.mp hls
        exact ⟨.done, .done, .done, .done, rfl⟩
    | @line frame n l ls content files r hparse hpulls hrest ih =>
        cases ls₁ with
        | nil =>
            obtain rfl : ls₂ = l :: ls := hls
            exact ⟨.done, _, .done, .line hparse hpulls hrest, rfl⟩
        | cons l' ls₁ =>
            obtain ⟨rfl, htail⟩ := List.cons.inj hls
            obtain ⟨r₁, r₂, h₁, h₂, rfl⟩ := ih htail
            refine ⟨_, r₂, .line hparse hpulls h₁, ?_, rfl⟩
            rw [List.length_cons, Nat.add_comm ls₁.length, ← Nat.add_assoc]
            exact h₂
    | file hread hbody _ _ ih =>
        obtain ⟨r₁, r₂, h₁, h₂, rfl⟩ := ih hls
        exact ⟨_, r₂, .file hread hbody h₁, h₂, rfl⟩
  · rintro ⟨r₁, r₂, h₁, h₂, rfl⟩
    exact h₁.append h₂

end Reads

end SshDial
