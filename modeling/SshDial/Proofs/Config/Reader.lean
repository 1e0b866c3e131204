import SshDial.Proofs.Config.Reading

/-! # The reader finds the reading

    `Reader.readText` threads a segment through the lines and closes it at every Host,
    Match and Include line and at the end.  Here that bookkeeping is undone once and for
    all: a text is read exactly when it has a reading whose files nest no deeper than the
    budget, and what is read are the stanzas and files of that reading
    (`Config.parse_eq_ok_iff`).  Everything else about parsing is a fact about `Reads`.

    The induction over the lines stands inside one over the budget, and `ReadsFiles` is
    what the inner one needs of the outer. -/

namespace SshDial

open SshDial.Text

variable {tree : FileTree} {env : Environment}

/-- What has been read grows by the files of `r` and by the stanzas `ss`. -/
structure Progress.Gains (budget : Nat) (p q : Progress) (r : Reading)
    (ss : List Stanza) : Prop where
  depth : r.depth ≤ budget
  stanzas : q.stanzas = p.stanzas ++ ss
  files : q.files = p.files ++ r.files

namespace Reader

/-- `readFile` reads a file exactly when the file has a reading less deep than `budget`. -/
structure ReadsFiles (tree : FileTree) (env : Environment) (budget : Nat)
    (readFile : Heading → Origin → String → Progress → Except Halt Progress) : Prop where
  sound : ∀ {h : Heading} {o : Origin} {path : String} {p q : Progress},
    readFile h o path p = .ok q →
    ∃ text body, tree.read path = .ok text
      ∧ Reads tree env ⟨some path, Path.dirname path⟩ 1 [] (lines text.toList) body
      ∧ p.Gains budget q (.file path body .done) (body.stanzas (.continued h))
  complete : ∀ {h : Heading} {o : Origin} {path text : String} {body : Reading}
    {p : Progress}, tree.read path = .ok text →
    Reads tree env ⟨some path, Path.dirname path⟩ 1 [] (lines text.toList) body →
    body.depth + 1 ≤ budget →
    ∃ q, readFile h o path p = .ok q
      ∧ p.Gains budget q (.file path body .done) (body.stanzas (.continued h))

end Reader

/-- The progress with more stanzas. -/
def Progress.close (p : Progress) (ss : List Stanza) : Progress :=
  { p with stanzas := p.stanzas ++ ss }

theorem Progress.close_nil (p : Progress) : p.close [] = p := by
  rw [Progress.close, List.append_nil]

namespace Progress.Gains

variable {budget : Nat} {p q t : Progress} {r₁ r₂ : Reading} {ss₁ ss₂ : List Stanza}

theorem of_same (budget : Nat) (hs : q.stanzas = p.stanzas) (hf : q.files = p.files) :
    p.Gains budget q .done [] where
  depth := Nat.zero_le _
  stanzas := by rw [hs, List.append_nil]
  files := hf.trans (List.append_nil _).symm

theorem trans (h₁ : p.Gains budget q r₁ ss₁) (h₂ : q.Gains budget t r₂ ss₂) :
    p.Gains budget t (r₁ ++ r₂) (ss₁ ++ ss₂) where
  depth := by
    rw [Reading.depth_append]
    exact Nat.max_le.mpr ⟨h₁.depth, h₂.depth⟩
  stanzas := by rw [h₂.stanzas, h₁.stanzas, List.append_assoc]
  files := by rw [h₂.files, h₁.files, Reading.files_append, List.append_assoc]

/-- A file counts once, and its body one level deeper. -/
theorem under_file {path : String} {body : Reading} {ss : List Stanza}
    (h : (p.addFile path).Gains budget q body ss) :
    p.Gains (budget + 1) q (.file path body .done) ss where
  depth := Nat.max_le.mpr ⟨Nat.succ_le_succ h.depth, Nat.zero_le _⟩
  stanzas := h.stanzas
  files := by
    rw [h.files]
    show (p.files ++ [path]) ++ body.files = p.files ++ path :: (body.files ++ [])
    rw [List.append_assoc, List.append_nil]
    rfl

/-- A line closes what it closes, its files come next, and then the lines after it. -/
theorem line_trans {frame : Frame} {n : Nat} {files : List String} {s : Segment}
    {origin : Origin} {content : Line} {p₁ : Progress}
    (hpulls : content.pulls tree env frame.directory = .ok files)
    (h₁ : (p.close (s.closedBy content)).Gains budget p₁ r₁ (r₁.closed (.continued s.heading)))
    (hr₁ : Reads tree env frame n files [] r₁)
    (h₂ : p₁.Gains budget q r₂ (r₂.stanzas (s.after origin content))) :
    p.Gains budget q (.line origin content (r₁ ++ r₂))
      ((Reading.line origin content (r₁ ++ r₂)).stanzas s) := by
  have h := h₁.trans h₂
  refine ⟨h.depth, ?_, h.files⟩
  rw [Reading.stanzas_line, Reading.stanzas_append, hr₁.last_of_files,
    hr₁.closed_of_pulls hpulls, ← List.append_assoc]
  exact h.stanzas

end Progress.Gains

namespace Reader

variable {budget : Nat} {readFile : Heading → Origin → String → Progress → Except Halt Progress}

/-- Reading some files one after the other gives their readings. -/
theorem ReadsFiles.foldlM_sound (hf : ReadsFiles tree env budget readFile)
    (frame : Frame) (n : Nat) {h : Heading} {o : Origin} {files : List String}
    {p q : Progress} (hq : files.foldlM (fun p file => readFile h o file p) p = .ok q) :
    ∃ r, Reads tree env frame n files [] r
      ∧ p.Gains budget q r (r.closed (.continued h)) := by
  induction files generalizing p with
  | nil =>
      obtain rfl : p = q := Except.ok.inj hq
      exact ⟨.done, .done, .of_same budget rfl rfl⟩
  | cons path files ih =>
      rw [List.foldlM_cons] at hq
      obtain ⟨p₁, hpath, hq⟩ := bind_eq_ok_iff.mp hq
      obtain ⟨text, body, hread, hbody, hgain⟩ := hf.sound hpath
      obtain ⟨r, hr, hrest⟩ := ih hq
      exact ⟨.file path body r, .file hread hbody hr, hgain.trans hrest⟩

/-- Files that have readings are read one after the other. -/
theorem ReadsFiles.foldlM_complete (hf : ReadsFiles tree env budget readFile)
    {frame : Frame} {n : Nat} {h : Heading} {o : Origin} {files : List String}
    {r : Reading} (hr : Reads tree env frame n files [] r) (hdepth : r.depth ≤ budget)
    (p : Progress) :
    ∃ q, files.foldlM (fun p file => readFile h o file p) p = .ok q
      ∧ p.Gains budget q r (r.closed (.continued h)) := by
  induction files generalizing r p with
  | nil =>
      cases hr
      exact ⟨p, rfl, .of_same budget rfl rfl⟩
  | cons path files ih =>
      cases hr with
      | @file _ _ _ _ text _ body r hread hbody hrest =>
          have hboth : max (body.depth + 1) r.depth ≤ budget := hdepth
          obtain ⟨p₁, hp₁, hgain⟩ :=
            hf.complete (h := h) (o := o) (p := p) hread hbody (by omega)
          obtain ⟨q, hq, hgains⟩ := ih hrest (by omega) p₁
          refine ⟨q, ?_, hgain.trans hgains⟩
          rw [List.foldlM_cons, hp₁]
          exact hq

/-- Reading what one Include argument names gives the readings of the files named. -/
theorem ReadsFiles.readArgument_sound (hf : ReadsFiles tree env budget readFile)
    {frame : Frame} (n : Nat) {h : Heading} {o : Origin} {arg : String} {p q : Progress}
    (hq : readArgument tree env frame o (readFile h o) p arg = .ok q) :
    ∃ files r, filesOf tree env frame.directory arg = .ok files
      ∧ Reads tree env frame n files [] r
      ∧ p.Gains budget q r (r.closed (.continued h)) := by
  rw [readArgument] at hq
  cases hfiles : filesOf tree env frame.directory arg with
  | error fault =>
      rw [hfiles] at hq
      exact nomatch hq
  | ok files =>
      rw [hfiles] at hq
      cases files with
      | nil =>
          obtain rfl := Except.ok.inj hq
          exact ⟨[], .done, rfl, .done, .of_same budget rfl rfl⟩
      | cons path paths =>
          obtain ⟨r, hr, hgain⟩ := hf.foldlM_sound frame n hq
          exact ⟨path :: paths, r, rfl, hr, hgain⟩

/-- What one Include argument names is read, if the files named have readings. -/
theorem ReadsFiles.readArgument_complete (hf : ReadsFiles tree env budget readFile)
    {frame : Frame} {n : Nat} {h : Heading} {o : Origin} {arg : String}
    {files : List String} {r : Reading}
    (hfiles : filesOf tree env frame.directory arg = .ok files)
    (hr : Reads tree env frame n files [] r) (hdepth : r.depth ≤ budget) (p : Progress) :
    ∃ q, readArgument tree env frame o (readFile h o) p arg = .ok q
      ∧ p.Gains budget q r (r.closed (.continued h)) := by
  rw [readArgument, hfiles]
  cases files with
  | nil =>
      cases hr
      exact ⟨_, rfl, .of_same budget rfl rfl⟩
  | cons path paths => exact hf.foldlM_complete hr hdepth p

/-- Reading the files of some Include arguments gives the readings of the files named. -/
theorem ReadsFiles.arguments_sound (hf : ReadsFiles tree env budget readFile)
    {frame : Frame} (n : Nat) {h : Heading} {o : Origin} {args : List String}
    {p q : Progress}
    (hq : args.foldlM (readArgument tree env frame o (readFile h o)) p = .ok q) :
    ∃ files r, namedFiles tree env frame.directory args = .ok files
      ∧ Reads tree env frame n files [] r
      ∧ p.Gains budget q r (r.closed (.continued h)) := by
  induction args generalizing p with
  | nil =>
      obtain rfl : p = q := Except.ok.inj hq
      exact ⟨[], .done, rfl, .done, .of_same budget rfl rfl⟩
  | cons arg args ih =>
      rw [List.foldlM_cons] at hq
      obtain ⟨p₁, hstep, hq⟩ := bind_eq_ok_iff.mp hq
      obtain ⟨more, r₂, hmore, hr₂, hgain₂⟩ := ih hq
      obtain ⟨files, r₁, hfiles, hr₁, hgain₁⟩ := hf.readArgument_sound n hstep
      refine ⟨files ++ more, r₁ ++ r₂, ?_, ?_, ?_⟩
      · rw [namedFiles, hfiles, hmore]
        rfl
      · exact reads_files_append_iff.mpr ⟨r₁, r₂, hr₁, hr₂, rfl⟩
      · rw [Reading.closed_append, hr₁.last_of_files]
        exact hgain₁.trans hgain₂

/-- Include arguments whose files have readings are read. -/
theorem ReadsFiles.arguments_complete (hf : ReadsFiles tree env budget readFile)
    {frame : Frame} {n : Nat} {h : Heading} {o : Origin} {args files : List String}
    {r : Reading} (hfiles : namedFiles tree env frame.directory args = .ok files)
    (hr : Reads tree env frame n files [] r) (hdepth : r.depth ≤ budget) (p : Progress) :
    ∃ q, args.foldlM (readArgument tree env frame o (readFile h o)) p = .ok q
      ∧ p.Gains budget q r (r.closed (.continued h)) := by
  induction args generalizing files r p with
  | nil =>
      obtain rfl : [] = files := Except.ok.inj hfiles
      cases hr
      exact ⟨p, rfl, .of_same budget rfl rfl⟩
  | cons arg args ih =>
      obtain ⟨named, more, hnamed, hmore, rfl⟩ := namedFiles_cons_eq_ok hfiles
      obtain ⟨r₁, r₂, hr₁, hr₂, rfl⟩ := reads_files_append_iff.mp hr
      rw [Reading.depth_append] at hdepth
      obtain ⟨p₁, hp₁, hgain₁⟩ :=
        hf.readArgument_complete (h := h) (o := o) hnamed hr₁ (by omega) p
      obtain ⟨q, hq, hgain₂⟩ := ih hmore hr₂ (by omega) p₁
      refine ⟨q, ?_, ?_⟩
      · rw [List.foldlM_cons, hp₁]
        exact hq
      · rw [Reading.closed_append, hr₁.last_of_files]
        exact hgain₁.trans hgain₂

/-- One line: the open segment is closed if need be, the files of an Include line are
    read, and the lines after it go on from the next segment. -/
theorem readLines_cons {frame : Frame} {n : Nat} {l : List Char} {content : Line}
    (hparse : Line.parse ⟨frame.path, n⟩ l = .ok content) (ls : List (List Char))
    (s : Segment) (p : Progress) :
    readLines tree env frame readFile n (l :: ls) s p
      = (content.includeArgs.foldlM (readArgument tree env frame ⟨frame.path, n⟩
            (readFile s.heading ⟨frame.path, n⟩)) (p.close (s.closedBy content)))
          >>= readLines tree env frame readFile (n + 1) ls (s.after ⟨frame.path, n⟩ content) := by
  rw [readLines, hparse]
  cases content with
  | nothing => rw [Segment.closedBy, Progress.close_nil]; rfl
  | directive d => rw [Segment.closedBy, Progress.close_nil]; rfl
  | heading criteria => rfl
  | includes args => rfl

/-- What is read of some lines to the end is a reading of them. -/
theorem ReadsFiles.readLines_sound (hf : ReadsFiles tree env budget readFile)
    {frame : Frame} {n : Nat} {ls : List (List Char)} {s : Segment} {p q : Progress}
    (hq : readLines tree env frame readFile n ls s p = .ok q) :
    ∃ r, Reads tree env frame n [] ls r ∧ p.Gains budget q r (r.stanzas s) := by
  induction ls generalizing n s p with
  | nil =>
      obtain rfl := Except.ok.inj hq
      exact ⟨.done, .done, Nat.zero_le _, rfl, (List.append_nil _).symm⟩
  | cons l ls ih =>
      cases hparse : Line.parse ⟨frame.path, n⟩ l with
      | error fault =>
          rw [readLines, hparse] at hq
          exact nomatch hq
      | ok content =>
          rw [readLines_cons hparse] at hq
          obtain ⟨p₁, hargs, hq⟩ := bind_eq_ok_iff.mp hq
          obtain ⟨files, r₁, hfiles, hr₁, hgain₁⟩ := hf.arguments_sound (n + 1) hargs
          obtain ⟨r₂, hr₂, hgain₂⟩ := ih hq
          have hrest := reads_files_iff.mpr ⟨r₁, r₂, hr₁, hr₂, rfl⟩
          exact ⟨_, .line hparse hfiles hrest, hgain₁.line_trans hfiles hr₁ hgain₂⟩

/-- Lines that have a reading are read to the end. -/
theorem ReadsFiles.readLines_complete (hf : ReadsFiles tree env budget readFile)
    {frame : Frame} {n : Nat} {ls : List (List Char)} {r : Reading}
    (hr : Reads tree env frame n [] ls r) (hdepth : r.depth ≤ budget)
    (s : Segment) (p : Progress) :
    ∃ q, readLines tree env frame readFile n ls s p = .ok q
      ∧ p.Gains budget q r (r.stanzas s) := by
  induction ls generalizing n r s p with
  | nil =>
      cases hr
      exact ⟨p.finish s, rfl, Nat.zero_le _, rfl, (List.append_nil _).symm⟩
  | cons l ls ih =>
      cases hr with
      | @line _ _ _ _ content files r hparse hpulls hrest =>
          obtain ⟨r₁, r₂, hr₁, hr₂, rfl⟩ := reads_files_iff.mp hrest
          have hboth : (r₁ ++ r₂).depth ≤ budget := hdepth
          rw [Reading.depth_append] at hboth
          obtain ⟨p₁, hp₁, hgain₁⟩ := hf.arguments_complete (h := s.heading)
            (o := ⟨frame.path, n⟩) hpulls hr₁ (by omega) (p.close (s.closedBy content))
          obtain ⟨q, hq, hgain₂⟩ := ih hr₂ (by omega) (s.after ⟨frame.path, n⟩ content) p₁
          refine ⟨q, ?_, hgain₁.line_trans hpulls hr₁ hgain₂⟩
          rw [readLines_cons hparse, hp₁]
          exact hq

/-- Reads a file that an Include line names; below it `budget` levels are left. -/
def readIncluded (tree : FileTree) (env : Environment) (limit : Int) (budget : Nat)
    (heading : Heading) (origin : Origin) (file : String) (p : Progress) :
    Except Halt Progress :=
  match tree.read file with
  | .error e => .error ⟨.file file e (some origin), p.unmatched⟩
  | .ok text =>
      readText tree env limit budget ⟨some file, Path.dirname file⟩ heading text (p.addFile file)

/-- The reader with its budget: an included file has one level less to go. -/
theorem readText_spec (limit : Int) (budget : Nat) :
    (∀ {frame : Frame} {h : Heading} {text : String} {p q : Progress},
      readText tree env limit budget frame h text p = .ok q →
      ∃ r, Reads tree env frame 1 [] (lines text.toList) r
        ∧ p.Gains budget q r (r.stanzas (.continued h)))
    ∧ (∀ {frame : Frame} {h : Heading} {text : String} {r : Reading} (p : Progress),
      Reads tree env frame 1 [] (lines text.toList) r → r.depth ≤ budget →
      ∃ q, readText tree env limit budget frame h text p = .ok q
        ∧ p.Gains budget q r (r.stanzas (.continued h))) := by
  induction budget with
  | zero =>
      -- No file may be read, and no reading with a file in it has depth zero.
      have hf : ReadsFiles tree env 0
          (fun _ origin _ p => .error ⟨.tooDeep limit origin, p.unmatched⟩) :=
        ⟨fun hq => (nomatch hq), fun _ _ hdepth => absurd hdepth (Nat.not_succ_le_zero _)⟩
      exact ⟨fun hq => hf.readLines_sound hq,
        fun p hr hdepth => hf.readLines_complete hr hdepth _ p⟩
  | succ budget ih =>
      obtain ⟨hsound, hcomplete⟩ := ih
      have hf : ReadsFiles tree env (budget + 1) (readIncluded tree env limit budget) := by
        constructor
        · intro h o path p q hq
          rw [readIncluded] at hq
          cases hread : tree.read path with
          | error e =>
              rw [hread] at hq
              exact nomatch hq
          | ok text =>
              rw [hread] at hq
              obtain ⟨body, hbody, hgain⟩ := hsound hq
              exact ⟨text, body, rfl, hbody, hgain.under_file⟩
        · intro h o path text body p hread hbody hdepth
          obtain ⟨q, hq, hgain⟩ :=
            hcomplete (p.addFile path) hbody (Nat.le_of_succ_le_succ hdepth)
          refine ⟨q, ?_, hgain.under_file⟩
          rw [readIncluded, hread]
          exact hq
      exact ⟨fun hq => hf.readLines_sound hq,
        fun p hr hdepth => hf.readLines_complete hr hdepth _ p⟩

end Reader

namespace Config

/-- The frame of the text that parsing starts with. -/
def rootFrame (env : Environment) (options : ReadOptions) : Frame :=
  ⟨options.path, baseDirectory env options⟩

/-- What is in force before any Host or Match line. -/
def rootHeading (options : ReadOptions) : Heading := ⟨.global, ⟨options.path, 0⟩⟩

/-- A source has the reading `r`. -/
def IsReading (tree : FileTree) (env : Environment) (options : ReadOptions)
    (source : String) (r : Reading) : Prop :=
  Reads tree env (rootFrame env options) 1 [] (lines source.toList) r

theorem IsReading.unique {options : ReadOptions} {source : String} {r t : Reading}
    (hr : IsReading tree env options source r) (ht : IsReading tree env options source t) :
    r = t :=
  Reads.unique hr ht

/-- **Parsing finds the reading.** A source parses exactly when it has a reading whose
    files nest no deeper than allowed, and the configuration is made of the stanzas and
    files of that reading. -/
theorem parse_eq_ok_iff {options : ReadOptions} {source : String} {c : Config} :
    (parse tree env options source).value = .ok c ↔
      ∃ r, IsReading tree env options source r ∧ r.depth ≤ options.includeDepth.toNat
        ∧ c = ⟨r.stanzas (.continued (rootHeading options)),
            (namedFile options).toList ++ r.files⟩ := by
  obtain ⟨hsound, hcomplete⟩ :=
    @Reader.readText_spec tree env options.includeDepth options.includeDepth.toNat
  constructor
  · intro h
    rw [parse] at h
    cases hread : read tree env options source with
    | error halt =>
        rw [hread] at h
        exact nomatch h
    | ok q =>
        rw [hread] at h
        obtain rfl := Except.ok.inj h
        obtain ⟨r, hr, hgain⟩ := hsound hread
        refine ⟨r, hr, hgain.depth, ?_⟩
        rw [hgain.stanzas, hgain.files]
        rfl
  · rintro ⟨r, hr, hdepth, rfl⟩
    obtain ⟨q, hq, hgain⟩ := hcomplete (h := rootHeading options)
      ⟨[], (namedFile options).toList, []⟩ hr hdepth
    have hread : read tree env options source = .ok q := hq
    rw [parse]
    rw [hread]
    show Except.ok _ = Except.ok _
    rw [hgain.stanzas, hgain.files]
    rfl

end Config

end SshDial
