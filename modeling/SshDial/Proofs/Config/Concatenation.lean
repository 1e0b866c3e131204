import SshDial.Proofs.Config.Idle
import SshDial.Proofs.Config.Location
import SshDial.Proofs.Text.Lines

/-! # Concatenation — one text after another

    The lines of two texts that are put together with a line break are the lines of the
    one and then those of the other (`Text.lines_concat`), so the second text is read as
    it would be alone, with its lines further down.

    * A reading and the place where reading stops move with the lines of the text
      (`Reads.moved`, `Stops.concat`); nothing below an Include line does.
    * The one thing that the first text leaves behind is its open segment, and a text that
      begins with a Host or Match line closes it first (`Reads.closes`).

    `Config.parse_concat` puts this together. -/

namespace SshDial

open SshDial.Text

variable {tree : FileTree} {env : Environment} {limit : Int}

/-! ## Lines further down -/

/-- The place `k` lines further down. -/
def Origin.moved (k : Nat) (o : Origin) : Origin := { o with line := o.line + k }

/-- The reading with the lines of the text `k` lines further down; the lines of the files
    that it includes stay where they are. -/
def Reading.moved (k : Nat) : Reading → Reading
  | .done => .done
  | .line origin content r => .line (origin.moved k) (content.placed (origin.moved k)) (r.moved k)
  | .file path body r => .file path body (r.moved k)

theorem Reading.depth_moved (k : Nat) (r : Reading) : (r.moved k).depth = r.depth := by
  induction r with
  | done => rfl
  | line origin content r ih => exact ih
  | file path body r _ ih => exact congrArg (max (body.depth + 1)) ih

theorem Reading.files_moved (k : Nat) (r : Reading) : (r.moved k).files = r.files := by
  induction r with
  | done => rfl
  | line origin content r ih => exact ih
  | file path body r _ ih => exact congrArg (fun files => path :: (body.files ++ files)) ih

/-- Lines that are moved have the moved reading. -/
theorem Reads.moved {frame : Frame} {n : Nat} {files : List String} {ls : List (List Char)}
    {r : Reading} (h : Reads tree env frame n files ls r) (k : Nat) :
    Reads tree env frame (n + k) files ls (r.moved k) := by
  induction h with
  | done => exact .done
  | @line frame n l ls content files r hparse hpulls _ ih =>
      rw [Nat.add_right_comm] at ih
      exact .line (Line.parse_placed hparse _) ((Line.pulls_placed _ _ _).trans hpulls) ih
  | file hread hbody _ _ ih => exact .file hread hbody ih

/-- What can be done can be done further down. -/
theorem Ends.moved {d n : Nat} {frame : Frame} {ts : List Task}
    (h : Ends tree env limit d frame n ts none) (k : Nat) :
    Ends tree env limit d frame (n + k) ts none := by
  generalize hdone : (none : Option ReadFault) = done at h
  induction h with
  | done => exact .done
  | badLine => exact nomatch hdone
  | @line d frame n l ts content outcome hparse _ ih =>
      have hrest := ih hdone
      rw [Nat.add_right_comm] at hrest
      refine .line (Line.parse_placed hparse _) ?_
      rw [Line.includeArgs_placed]
      exact hrest
  | badArgument => exact nomatch hdone
  | argument hfiles _ ih => exact .argument hfiles (ih hdone)
  | tooDeep => exact nomatch hdone
  | unreadable => exact nomatch hdone
  | badFile => exact nomatch hdone
  | file hd hread hbody _ _ ih => exact .file hd hread (hdone ▸ hbody) (ih hdone)

/-! ## Which lines have moved -/

/-- The place `k` lines further down if it is one of the text at `path`. -/
def Origin.movedIn (path : Option String) (k : Nat) (o : Origin) : Origin :=
  if o.path = path then o.moved k else o

theorem Origin.movedIn_of_ne {path : Option String} {o : Origin} (h : o.path ≠ path) (k : Nat) :
    o.movedIn path k = o :=
  if_neg h

section Moved

variable {frame : Frame} {n : Nat} {files : List String} {ls : List (List Char)} {r : Reading}
  {f : Origin → Origin}

/-- Nothing changes in a reading whose lines all stay. -/
theorem Reads.relocate_eq_self (h : Reads tree env frame n files ls r)
    (hframe : ∀ m, f ⟨frame.path, m⟩ = ⟨frame.path, m⟩)
    (hfiles : ∀ file ∈ r.files, ∀ m, f ⟨some file, m⟩ = ⟨some file, m⟩) :
    r.relocate f = r := by
  induction h with
  | done => rfl
  | line hparse _ _ ih =>
      rw [Reading.relocate, Line.relocate_of_parse hparse, hframe, Line.placed_of_parse hparse,
        ih hframe hfiles]
  | file _ _ _ ihbody ih =>
      obtain ⟨hpath, hfiles⟩ := List.forall_mem_cons.mp hfiles
      obtain ⟨hbody, hrest⟩ := List.forall_mem_append.mp hfiles
      rw [Reading.relocate, ihbody hpath hbody, ih hframe hrest]

/-- The lines of a text that includes no file of its own name are known by their path. -/
theorem Reads.relocate_movedIn (h : Reads tree env frame n files ls r) (k : Nat)
    (hfiles : ∀ file ∈ r.files, some file ≠ frame.path) :
    r.relocate (Origin.movedIn frame.path k) = r.moved k := by
  induction h with
  | done => rfl
  | line hparse _ _ ih =>
      rw [Reading.relocate, Line.relocate_of_parse hparse, ih hfiles, Origin.movedIn, if_pos rfl]
      rfl
  | file _ hbody _ _ ih =>
      obtain ⟨hpath, hfiles⟩ := List.forall_mem_cons.mp hfiles
      obtain ⟨hbelow, hrest⟩ := List.forall_mem_append.mp hfiles
      have hstays := hbody.relocate_eq_self (fun _ => Origin.movedIn_of_ne hpath k)
        fun file hfile _ => Origin.movedIn_of_ne (hbelow file hfile) k
      rw [Reading.relocate, ih hrest]
      exact congrArg (Reading.file _ · _) hstays

end Moved

/-! ## A text that begins with a stanza -/

/-- The first of the lines that is neither blank nor a comment, if there is one, is a Host
    or Match line. -/
def StartsStanza (ls : List (List Char)) : Prop :=
  ∀ l, ls.find? (fun l => !decide (Line.IsIdle l)) = some l →
    ∃ criteria, Line.parse .nowhere l = .ok (.heading criteria)

/-- Such lines see nothing of the segment that is open before them. -/
theorem Reads.stanzas_of_startsStanza {frame : Frame} {n : Nat} {ls : List (List Char)}
    {r : Reading} (hr : Reads tree env frame n [] ls r) (hstart : StartsStanza ls)
    (s : Segment) (h : Heading) : r.stanzas s = s.stanzas ++ r.stanzas (.continued h) := by
  induction ls generalizing n r with
  | nil =>
      cases hr
      exact (List.append_nil _).symm
  | cons l ls ih =>
      cases hr with
      | @line _ _ _ _ content files r hparse hpulls hrest =>
          by_cases hidle : Line.IsIdle l
          · obtain rfl := Except.ok.inj (hparse.symm.trans (Line.parse_of_isIdle hidle _))
            obtain rfl := Except.ok.inj hpulls
            have hskip := ih hrest fun l' hl' => hstart l' (by
              rw [List.find?_cons, decide_eq_true hidle]
              exact hl')
            exact hskip
          · obtain ⟨criteria, hheading⟩ := hstart l (by
              rw [List.find?_cons, decide_eq_false hidle]
              rfl)
            obtain rfl := Except.ok.inj (hparse.symm.trans (Line.parse_placed hheading _))
            rw [Reading.stanzas_line, Reading.stanzas_line]
            rfl

/-! ## Where reading stops -/

/-- The fault with its place, if it names one, `k` lines further down. -/
def ReadFault.moved (k : Nat) : ReadFault → ReadFault
  | .line fault origin => .line fault (origin.moved k)
  | .file path error origin => .file path error (origin.map (·.moved k))
  | .tooDeep limit origin => .tooDeep limit (origin.moved k)
  | .unreachable path error => .unreachable path error
  | .emptyPattern => .emptyPattern
  | .glob fault => .glob fault

/-- Reading the text stops in a file that it includes, and at no line of its own. -/
def StopsBelow (tree : FileTree) (env : Environment) (limit : Int) (d : Nat) (frame : Frame)
    (text : String) (fault : ReadFault) : Prop :=
  ∃ n path body place, IsAtFile tree env limit d frame text n path ∧ d < limit
    ∧ tree.read path = .ok body
    ∧ Stops tree env limit (d + 1) ⟨some path, Path.dirname path⟩ body place fault

section Concat

variable {d n : Nat} {frame : Frame} {t₁ t₂ : String} {fault : ReadFault}
  (hfirst : Ends tree env limit d frame 0 (Task.ofText t₁) none)

include hfirst

theorem IsAtLine.concat {l : List Char} (h : IsAtLine tree env limit d frame t₂ n l) :
    IsAtLine tree env limit d frame (t₁ ++ "\n" ++ t₂) (n + (lines t₁.toList).length) l := by
  obtain ⟨before, after, hlines, rfl, hbefore⟩ := h
  refine ⟨lines t₁.toList ++ before, after, ?_, ?_, ?_⟩
  · rw [lines_concat, hlines, List.append_assoc]
  · rw [List.length_append]
    omega
  · rw [List.map_append]
    refine hfirst.append ?_
    rw [Task.ofText, Task.lineCount_lines]
    exact hbefore.moved _

theorem IsAtArgument.concat {arg : String} (h : IsAtArgument tree env limit d frame t₂ n arg) :
    IsAtArgument tree env limit d frame (t₁ ++ "\n" ++ t₂) (n + (lines t₁.toList).length)
      arg := by
  obtain ⟨l, before, after, hline, hparse, hbefore⟩ := h
  exact ⟨l, before, after, hline.concat hfirst, Line.parse_placed hparse _, hbefore.moved _⟩

theorem IsAtFile.concat {path : String} (h : IsAtFile tree env limit d frame t₂ n path) :
    IsAtFile tree env limit d frame (t₁ ++ "\n" ++ t₂) (n + (lines t₁.toList).length) path := by
  obtain ⟨arg, before, after, harg, hfiles, hbefore⟩ := h
  exact ⟨arg, before, after, harg.concat hfirst, hfiles, hbefore.moved _⟩

/-- What stops in an included file stops there after another text, too. -/
theorem StopsBelow.concat (h : StopsBelow tree env limit d frame t₂ fault) :
    ∃ place, Stops tree env limit d frame (t₁ ++ "\n" ++ t₂) place fault := by
  obtain ⟨n, path, body, place, hpath, hd, hread, hbody⟩ := h
  exact ⟨place, .nested (hpath.concat hfirst) hd hread hbody⟩

/-- What stops at a line of its own does so further down. -/
theorem Stops.concat {place : Origin} (h : Stops tree env limit d frame t₂ place fault)
    (hown : ¬ StopsBelow tree env limit d frame t₂ fault) :
    ∃ place, Stops tree env limit d frame (t₁ ++ "\n" ++ t₂) place
      (fault.moved (lines t₁.toList).length) := by
  cases h with
  | @line _ n _ _ l fault hline hparse =>
      refine ⟨_, .line (hline.concat hfirst) ?_⟩
      rw [Line.parse_eq_map_placed _ ⟨frame.path, n⟩, hparse]
      rfl
  | argument harg hfiles =>
      rcases Reader.filesOf_eq_error hfiles with ⟨rfl, -⟩ | ⟨g, rfl⟩
      · exact ⟨_, .argument (harg.concat hfirst) hfiles⟩
      · exact ⟨_, .argument (harg.concat hfirst) hfiles⟩
  | tooDeep hpath hdeep => exact ⟨_, .tooDeep (hpath.concat hfirst) hdeep⟩
  | unreadable hpath hd hread => exact ⟨_, .unreadable (hpath.concat hfirst) hd hread⟩
  | nested hpath hd hread hbody => exact absurd ⟨_, _, _, _, hpath, hd, hread, hbody⟩ hown

end Concat

namespace Config

variable {options : ReadOptions} {t₁ t₂ : String}

/-- After a text that fails nothing is read. -/
theorem parse_concat_of_error {fault : ReadFault}
    (h : (parse tree env options t₁).value = .error fault) (t₂ : String) :
    (parse tree env options (t₁ ++ "\n" ++ t₂)).value = .error fault := by
  have hends := ends_parse tree env options t₁
  rw [h] at hends
  have hall := hends.append_stop ((lines t₂.toList).map .line)
  rw [Task.ofText, ← List.map_append, ← lines_concat] at hall
  exact parse_eq_error_iff.mpr hall.exists_stops

theorem ends_of_parse {c : Config} (h : (parse tree env options t₁).value = .ok c) :
    Ends tree env options.includeDepth 0 (rootFrame env options) 0 (Task.ofText t₁) none := by
  have hends := ends_parse tree env options t₁
  rw [h] at hends
  exact hends

/-- The reading of the second text comes after that of the first, with its lines moved. -/
theorem parse_concat_of_readings {r₁ r₂ : Reading}
    (h₁ : IsReading tree env options t₁ r₁) (h₂ : IsReading tree env options t₂ r₂)
    (hdepth₁ : r₁.depth ≤ options.includeDepth.toNat)
    (hdepth₂ : r₂.depth ≤ options.includeDepth.toNat)
    (hstart : StartsStanza (lines t₂.toList)) :
    (parse tree env options (t₁ ++ "\n" ++ t₂)).value
      = .ok ⟨r₁.stanzas (.continued (rootHeading options))
            ++ (r₂.moved (lines t₁.toList).length).stanzas (.continued (rootHeading options)),
          (namedFile options).toList ++ r₁.files ++ r₂.files⟩ := by
  have hmoved := Reads.moved h₂ (lines t₁.toList).length
  refine parse_eq_ok_iff.mpr ⟨r₁ ++ r₂.moved (lines t₁.toList).length, ?_, ?_, ?_⟩
  · rw [IsReading, lines_concat]
    exact Reads.append h₁ hmoved
  · rw [Reading.depth_append, Reading.depth_moved]
    exact Nat.max_le.mpr ⟨hdepth₁, hdepth₂⟩
  · rw [Reading.stanzas_append, Reading.files_append, Reading.files_moved,
      hmoved.stanzas_of_startsStanza hstart (r₁.last _) (rootHeading options),
      ← List.append_assoc, ← List.append_assoc]
    rfl

/-- If no file that the text includes goes by its name, the moved stanzas are known by
    their paths. -/
theorem stanzas_moved {r : Reading} (hr : IsReading tree env options t₂ r)
    (hstart : StartsStanza (lines t₂.toList)) (k : Nat)
    (hfiles : ∀ file ∈ r.files, some file ≠ options.path) :
    (r.moved k).stanzas (.continued (rootHeading options))
      = (r.stanzas (.continued (rootHeading options))).map
          (Stanza.relocate (Origin.movedIn options.path k)) := by
  have hmoved : r.relocate (Origin.movedIn options.path k) = r.moved k :=
    Reads.relocate_movedIn hr k hfiles
  rw [← Reading.stanzas_relocate, hmoved]
  -- The heading before the first line is moved as well, but nothing is read under it.
  exact (Reads.moved hr k).stanzas_of_startsStanza hstart _ _

/-- **Parsing goes stanza by stanza.** A text that fails fails in the same way whatever comes
    after it.  After a text that parses, a text that fails does so with its own fault: in a
    file that it includes, with the same one, and at a line of its own, with that line
    further down by the lines of the first text.  And when both parse and the second text
    begins with a Host or Match line, the stanzas and files of the first come before those
    of the second, whose own lines are moved down in the same way. -/
theorem parse_concat (tree : FileTree) (env : Environment) (options : ReadOptions)
    (t₁ t₂ : String) :
    (∀ fault, (parse tree env options t₁).value = .error fault →
      (parse tree env options (t₁ ++ "\n" ++ t₂)).value = .error fault)
    ∧ (∀ c₁ fault, (parse tree env options t₁).value = .ok c₁ →
      (parse tree env options t₂).value = .error fault →
      (StopsBelow tree env options.includeDepth 0 (rootFrame env options) t₂ fault →
        (parse tree env options (t₁ ++ "\n" ++ t₂)).value = .error fault)
      ∧ (¬ StopsBelow tree env options.includeDepth 0 (rootFrame env options) t₂ fault →
        (parse tree env options (t₁ ++ "\n" ++ t₂)).value
          = .error (fault.moved (lines t₁.toList).length)))
    ∧ ∀ c₁ c₂, (parse tree env options t₁).value = .ok c₁ →
      (parse tree env options t₂).value = .ok c₂ → StartsStanza (lines t₂.toList) →
      ∃ r₂, IsReading tree env options t₂ r₂
        ∧ c₂ = ⟨r₂.stanzas (.continued (rootHeading options)),
            (namedFile options).toList ++ r₂.files⟩
        ∧ (parse tree env options (t₁ ++ "\n" ++ t₂)).value
          = .ok ⟨c₁.stanzas ++ (r₂.moved (lines t₁.toList).length).stanzas
                (.continued (rootHeading options)),
              c₁.files ++ r₂.files⟩
        ∧ ((∀ file ∈ r₂.files, some file ≠ options.path) →
          (r₂.moved (lines t₁.toList).length).stanzas (.continued (rootHeading options))
            = c₂.stanzas.map (Stanza.relocate
                (Origin.movedIn options.path (lines t₁.toList).length))) := by
  refine ⟨fun fault h => parse_concat_of_error h t₂, ?_, ?_⟩
  · intro c₁ fault h₁ h₂
    have hfirst := ends_of_parse h₁
    obtain ⟨place, hplace⟩ := parse_eq_error_iff.mp h₂
    constructor
    · intro hbelow
      exact parse_eq_error_iff.mpr (hbelow.concat hfirst)
    · intro hown
      exact parse_eq_error_iff.mpr (hplace.concat hfirst hown)
  · intro c₁ c₂ h₁ h₂ hstart
    obtain ⟨r₁, hr₁, hdepth₁, rfl⟩ := parse_eq_ok_iff.mp h₁
    obtain ⟨r₂, hr₂, hdepth₂, rfl⟩ := parse_eq_ok_iff.mp h₂
    exact ⟨r₂, hr₂, rfl, parse_concat_of_readings hr₁ hr₂ hdepth₁ hdepth₂ hstart,
      stanzas_moved hr₂ hstart _⟩

/-- A fault in the first text, one at a line of the second, one in a file that the second
    includes, and two texts that both parse. -/
theorem parse_concat_outcomes :
    (parse .empty ⟨"/h", "u", "w", "/h/c"⟩ {} ("Port no" ++ "\n" ++ "Host b")).value
        = .error (.line (.invalidPort "no") ⟨none, 1⟩)
      ∧ (parse .empty ⟨"/h", "u", "w", "/h/c"⟩ {} ("User a" ++ "\n" ++ "Port no")).value
        = .error (.line (.invalidPort "no") ⟨none, 2⟩)
      ∧ (parse (FileTree.empty.write "/i" "Port no") ⟨"/h", "u", "w", "/h/c"⟩ {}
          ("User a" ++ "\n" ++ "Include /i")).value
        = .error (.line (.invalidPort "no") ⟨some "/i", 1⟩)
      ∧ (parse (FileTree.empty.write "/i" "User x") ⟨"/h", "u", "w", "/h/c"⟩ {}
          ("Include /i" ++ "\n" ++ "# b\nHost b\nPort 1")).value
        = .ok ⟨[⟨.global, ⟨none, 0⟩, [⟨"user", "User", "x", ["x"], ⟨some "/i", 1⟩⟩]⟩,
            ⟨.host ["b"], ⟨none, 3⟩, [⟨"port", "Port", "1", ["1"], ⟨none, 4⟩⟩]⟩], ["/i"]⟩ := by
  refine ⟨?_, ?_, ?_, ?_⟩
  · exact (parse_concat .empty ⟨"/h", "u", "w", "/h/c"⟩ {} "Port no" "Host b").1 _
      (by decide +kernel)
  · obtain ⟨-, hfails, -⟩ := parse_concat .empty ⟨"/h", "u", "w", "/h/c"⟩ {} "User a" "Port no"
    obtain ⟨hbelow, hown⟩ := hfails ⟨[⟨.global, ⟨none, 0⟩,
      [⟨"user", "User", "a", ["a"], ⟨none, 1⟩⟩]⟩], []⟩ (.line (.invalidPort "no") ⟨none, 1⟩)
      (by decide +kernel) (by decide +kernel)
    -- Were the fault in an included file, it would not have moved.
    exact hown fun h => absurd (hbelow h) (by decide +kernel)
  · obtain ⟨-, hfails, -⟩ := parse_concat (FileTree.empty.write "/i" "Port no")
      ⟨"/h", "u", "w", "/h/c"⟩ {} "User a" "Include /i"
    obtain ⟨hbelow, -⟩ := hfails ⟨[⟨.global, ⟨none, 0⟩,
      [⟨"user", "User", "a", ["a"], ⟨none, 1⟩⟩]⟩], []⟩ (.line (.invalidPort "no") ⟨some "/i", 1⟩)
      (by decide +kernel) (by decide +kernel)
    have hline : IsAtLine (FileTree.empty.write "/i" "Port no") ⟨"/h", "u", "w", "/h/c"⟩ 16 0
        ⟨none, "/h/.ssh"⟩ "Include /i" 1 "Include /i".toList :=
      ⟨[], [], by decide +kernel, rfl, .done⟩
    have hfile : IsAtFile (FileTree.empty.write "/i" "Port no") ⟨"/h", "u", "w", "/h/c"⟩ 16 0
        ⟨none, "/h/.ssh"⟩ "Include /i" 1 "/i" :=
      ⟨"/i", [], [], ⟨_, [], [], hline, by decide +kernel, .done⟩, by decide +kernel, .done⟩
    have hbody : IsAtLine (FileTree.empty.write "/i" "Port no") ⟨"/h", "u", "w", "/h/c"⟩ 16 1
        ⟨some "/i", "/"⟩ "Port no" 1 "Port no".toList :=
      ⟨[], [], by decide +kernel, rfl, .done⟩
    have hstops := Stops.line hbody
      (show _ = Except.error (LineFault.invalidPort "no") by decide +kernel)
    exact hbelow ⟨1, "/i", "Port no", ⟨some "/i", 1⟩, hfile, by decide, by decide +kernel, hstops⟩
  · obtain ⟨-, -, hparses⟩ := parse_concat (FileTree.empty.write "/i" "User x")
      ⟨"/h", "u", "w", "/h/c"⟩ {} "Include /i" "# b\nHost b\nPort 1"
    have hfind : (lines "# b\nHost b\nPort 1".toList).find? (fun l => !decide (Line.IsIdle l))
        = some "Host b".toList := by decide +kernel
    obtain ⟨r₂, -, hc₂, hall, hmoved⟩ := hparses
      ⟨[⟨.global, ⟨none, 0⟩, [⟨"user", "User", "x", ["x"], ⟨some "/i", 1⟩⟩]⟩], ["/i"]⟩
      ⟨[⟨.host ["b"], ⟨none, 2⟩, [⟨"port", "Port", "1", ["1"], ⟨none, 3⟩⟩]⟩], []⟩
      (by decide +kernel) (by decide +kernel) (by
        intro l hl
        obtain rfl := Option.some.inj (hfind.symm.trans hl)
        exact ⟨.host ["b"], by decide +kernel⟩)
    have hfiles : [] = r₂.files := congrArg Config.files hc₂
    rw [hall, hmoved fun file _ => nofun, ← hfiles]
    decide +kernel

end Config

end SshDial
