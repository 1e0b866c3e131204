import SshDial.Proofs.Config.Nesting

/-! # Location — the line that a failure names

    When reading stops, it stops at a line: a line of the text that was given, or a line of
    a file that was reached from it along Include lines.  `Stops` says which line that is,
    and why.  It goes by the lines of the texts alone, and all that it asks of what stands
    before the line is that it has been read.

    * Reading fails exactly if it stops somewhere (`Config.parse_eq_error_iff`).
    * The failure names the place where reading stopped, file and line, with three
      exceptions (`Config.failure_location`): an Include argument without any text, a glob
      that cannot be followed, and a file that cannot be read although a text of no file
      names it.  The first two are no failures of the library's own, and the last one is
      reported as if it stood in the file that could not be read. -/

namespace SshDial

open SshDial.Text

/-! ## One thing after the other -/

/-- How many lines are among the things to be done. -/
def Task.lineCount : List Task → Nat
  | [] => 0
  | .line _ :: ts => lineCount ts + 1
  | .argument _ :: ts => lineCount ts
  | .file _ :: ts => lineCount ts

namespace Task

@[simp] theorem lineCount_lines (ls : List (List Char)) :
    lineCount (ls.map .line) = ls.length := by
  induction ls with
  | nil => rfl
  | cons l ls ih => exact congrArg (· + 1) ih

@[simp] theorem lineCount_arguments (args : List String) :
    lineCount (args.map .argument) = 0 := by
  induction args with
  | nil => rfl
  | cons arg args ih => exact ih

@[simp] theorem lineCount_files (paths : List String) : lineCount (paths.map .file) = 0 := by
  induction paths with
  | nil => rfl
  | cons path paths ih => exact ih

theorem lineCount_append (ts us : List Task) :
    lineCount (ts ++ us) = lineCount ts + lineCount us := by
  induction ts with
  | nil => exact (Nat.zero_add _).symm
  | cons t ts ih =>
      cases t with
      | line l =>
          show lineCount (ts ++ us) + 1 = lineCount ts + 1 + lineCount us
          omega
      | argument arg => exact ih
      | file path => exact ih

end Task

variable {tree : FileTree} {env : Environment} {limit : Int}

namespace Ends

variable {d n : Nat} {frame : Frame} {ts us : List Task}

/-- After things that have been done the rest is done. -/
theorem append {outcome : Option ReadFault} (h : Ends tree env limit d frame n ts none)
    (hrest : Ends tree env limit d frame (n + Task.lineCount ts) us outcome) :
    Ends tree env limit d frame n (ts ++ us) outcome := by
  generalize hdone : (none : Option ReadFault) = done at h
  induction h with
  | done => exact hrest
  | badLine => exact nomatch hdone
  | line hparse _ ih =>
      rw [List.cons_append]
      refine .line hparse ?_
      rw [← List.append_assoc]
      refine ih ?_ hdone
      rw [Task.lineCount_append, Task.lineCount_arguments, Nat.zero_add, Nat.add_assoc,
        Nat.add_comm 1]
      exact hrest
  | badArgument => exact nomatch hdone
  | argument hfiles _ ih =>
      rw [List.cons_append]
      refine .argument hfiles ?_
      rw [← List.append_assoc]
      refine ih ?_ hdone
      rw [Task.lineCount_append, Task.lineCount_files, Nat.zero_add]
      exact hrest
  | tooDeep => exact nomatch hdone
  | unreadable => exact nomatch hdone
  | badFile => exact nomatch hdone
  | file hd hread hbody _ _ ih => exact .file hd hread hbody (ih hrest hdone)

/-- After a fault nothing is done. -/
theorem append_stop {fault : ReadFault} (h : Ends tree env limit d frame n ts (some fault))
    (us : List Task) : Ends tree env limit d frame n (ts ++ us) (some fault) := by
  generalize hstop : some fault = stop at h
  induction h with
  | done => exact nomatch hstop
  | badLine hparse => exact .badLine hparse
  | line hparse _ ih =>
      rw [List.cons_append]
      refine .line hparse ?_
      rw [← List.append_assoc]
      exact ih hstop
  | badArgument hfiles => exact .badArgument hfiles
  | argument hfiles _ ih =>
      rw [List.cons_append]
      refine .argument hfiles ?_
      rw [← List.append_assoc]
      exact ih hstop
  | tooDeep hdeep => exact .tooDeep hdeep
  | unreadable hd hread => exact .unreadable hd hread
  | badFile hd hread hbody => exact .badFile hd hread hbody
  | file hd hread hbody _ _ ih => exact .file hd hread hbody (ih hstop)

/-- What fails in two lists of things fails in the first or, after that, in the second. -/
theorem of_append {fault : ReadFault} (h : Ends tree env limit d frame n (ts ++ us) (some fault)) :
    Ends tree env limit d frame n ts (some fault)
      ∨ Ends tree env limit d frame n ts none
        ∧ Ends tree env limit d frame (n + Task.lineCount ts) us (some fault) := by
  generalize hall : ts ++ us = all at h
  generalize hstop : some fault = stop at h
  -- An empty first list is nothing to do: the second one is the whole.
  induction h generalizing ts with
  | done => exact nomatch hstop
  | badLine hparse =>
      rcases List.append_eq_cons_iff.mp hall with ⟨rfl, rfl⟩ | ⟨ts, rfl, rfl⟩
      · exact Or.inr ⟨.done, .badLine hparse⟩
      · exact Or.inl (.badLine hparse)
  | line hparse hrest ih =>
      rcases List.append_eq_cons_iff.mp hall with ⟨rfl, rfl⟩ | ⟨ts, rfl, rfl⟩
      · exact Or.inr ⟨.done, .line hparse (hstop ▸ hrest)⟩
      · rcases ih (List.append_assoc _ _ _) hstop with hfirst | ⟨hfirst, hsecond⟩
        · exact Or.inl (.line hparse hfirst)
        · refine Or.inr ⟨.line hparse hfirst, ?_⟩
          rw [Task.lineCount_append, Task.lineCount_arguments, Nat.zero_add, Nat.add_assoc,
            Nat.add_comm 1] at hsecond
          exact hsecond
  | badArgument hfiles =>
      rcases List.append_eq_cons_iff.mp hall with ⟨rfl, rfl⟩ | ⟨ts, rfl, rfl⟩
      · exact Or.inr ⟨.done, .badArgument hfiles⟩
      · exact Or.inl (.badArgument hfiles)
  | argument hfiles hrest ih =>
      rcases List.append_eq_cons_iff.mp hall with ⟨rfl, rfl⟩ | ⟨ts, rfl, rfl⟩
      · exact Or.inr ⟨.done, .argument hfiles (hstop ▸ hrest)⟩
      · rcases ih (List.append_assoc _ _ _) hstop with hfirst | ⟨hfirst, hsecond⟩
        · exact Or.inl (.argument hfiles hfirst)
        · refine Or.inr ⟨.argument hfiles hfirst, ?_⟩
          rw [Task.lineCount_append, Task.lineCount_files, Nat.zero_add] at hsecond
          exact hsecond
  | tooDeep hdeep =>
      rcases List.append_eq_cons_iff.mp hall with ⟨rfl, rfl⟩ | ⟨ts, rfl, rfl⟩
      · exact Or.inr ⟨.done, .tooDeep hdeep⟩
      · exact Or.inl (.tooDeep hdeep)
  | unreadable hd hread =>
      rcases List.append_eq_cons_iff.mp hall with ⟨rfl, rfl⟩ | ⟨ts, rfl, rfl⟩
      · exact Or.inr ⟨.done, .unreadable hd hread⟩
      · exact Or.inl (.unreadable hd hread)
  | badFile hd hread hbody =>
      rcases List.append_eq_cons_iff.mp hall with ⟨rfl, rfl⟩ | ⟨ts, rfl, rfl⟩
      · exact Or.inr ⟨.done, .badFile hd hread hbody⟩
      · exact Or.inl (.badFile hd hread hbody)
  | file hd hread hbody hrest _ ih =>
      rcases List.append_eq_cons_iff.mp hall with ⟨rfl, rfl⟩ | ⟨ts, rfl, rfl⟩
      · exact Or.inr ⟨.done, .file hd hread hbody (hstop ▸ hrest)⟩
      · rcases ih rfl hstop with hfirst | ⟨hfirst, hsecond⟩
        · exact Or.inl (.file hd hread hbody hfirst)
        · exact Or.inr ⟨.file hd hread hbody hfirst, hsecond⟩

/-- What fails in a list of things of one kind fails in one of them, and the ones before it
    have been done. -/
theorem exists_of_map {α : Type} {f : α → Task} {as : List α} {fault : ReadFault}
    (h : Ends tree env limit d frame n (as.map f) (some fault)) :
    ∃ before a after, as = before ++ a :: after
      ∧ Ends tree env limit d frame n (before.map f) none
      ∧ Ends tree env limit d frame (n + Task.lineCount (before.map f)) [f a] (some fault) := by
  induction as generalizing n with
  | nil => cases h
  | cons a as ih =>
      have hcut : Ends tree env limit d frame n ([f a] ++ as.map f) (some fault) := h
      rcases of_append hcut with hfirst | ⟨hfirst, hrest⟩
      · exact ⟨[], a, as, rfl, .done, hfirst⟩
      · obtain ⟨before, a', after, rfl, hbefore, hstop⟩ := ih hrest
        refine ⟨a :: before, a', after, rfl, hfirst.append hbefore, ?_⟩
        rw [List.map_cons, ← List.singleton_append, Task.lineCount_append, ← Nat.add_assoc]
        exact hstop

end Ends

/-! ## Where reading stops -/

section Places

variable (tree : FileTree) (env : Environment) (limit : Int) (d : Nat) (frame : Frame)
  (text : String)

/-- Line `n` of the text is `l`, and everything before it has been read. -/
def IsAtLine (n : Nat) (l : List Char) : Prop :=
  ∃ before after, lines text.toList = before ++ l :: after ∧ n = before.length + 1
    ∧ Ends tree env limit d frame 0 (before.map .line) none

/-- Line `n` includes what an argument names, and everything before the argument has been
    read. -/
def IsAtArgument (n : Nat) (arg : String) : Prop :=
  ∃ l before after, IsAtLine tree env limit d frame text n l
    ∧ Line.parse ⟨frame.path, n⟩ l = .ok (.includes (before ++ arg :: after))
    ∧ Ends tree env limit d frame n (before.map .argument) none

/-- Line `n` includes a file, and everything before the file has been read. -/
def IsAtFile (n : Nat) (path : String) : Prop :=
  ∃ arg before after, IsAtArgument tree env limit d frame text n arg
    ∧ Reader.filesOf tree env frame.directory arg = .ok (before ++ path :: after)
    ∧ Ends tree env limit d frame n (before.map .file) none

end Places

/-- `Stops tree env limit d frame text place fault`: reading a text that is nested `d` deep
    stops with `fault` at the line `place`, of this text or of a file that it includes. -/
inductive Stops (tree : FileTree) (env : Environment) (limit : Int) :
    Nat → Frame → String → Origin → ReadFault → Prop where
  | line {d n : Nat} {frame : Frame} {text : String} {l : List Char} {fault : LineFault} :
      IsAtLine tree env limit d frame text n l →
      Line.parse ⟨frame.path, n⟩ l = .error fault →
      Stops tree env limit d frame text ⟨frame.path, n⟩ (.line fault ⟨frame.path, n⟩)
  | argument {d n : Nat} {frame : Frame} {text arg : String} {fault : ReadFault} :
      IsAtArgument tree env limit d frame text n arg →
      Reader.filesOf tree env frame.directory arg = .error fault →
      Stops tree env limit d frame text ⟨frame.path, n⟩ fault
  | tooDeep {d n : Nat} {frame : Frame} {text path : String} :
      IsAtFile tree env limit d frame text n path → limit ≤ d →
      Stops tree env limit d frame text ⟨frame.path, n⟩ (.tooDeep limit ⟨frame.path, n⟩)
  | unreadable {d n : Nat} {frame : Frame} {text path : String} {e : FileError} :
      IsAtFile tree env limit d frame text n path → d < limit →
      tree.read path = .error e →
      Stops tree env limit d frame text ⟨frame.path, n⟩
        (.file path e (some ⟨frame.path, n⟩))
  | nested {d n : Nat} {frame : Frame} {text path body : String} {place : Origin}
      {fault : ReadFault} :
      IsAtFile tree env limit d frame text n path → d < limit →
      tree.read path = .ok body →
      Stops tree env limit (d + 1) ⟨some path, Path.dirname path⟩ body place fault →
      Stops tree env limit d frame text place fault

section Stops

variable {d n : Nat} {frame : Frame} {text : String} {fault : ReadFault}

theorem IsAtLine.ends {l : List Char} (h : IsAtLine tree env limit d frame text (n + 1) l)
    (hl : Ends tree env limit d frame n [.line l] (some fault)) :
    Ends tree env limit d frame 0 (Task.ofText text) (some fault) := by
  obtain ⟨before, after, hlines, hn, hbefore⟩ := h
  obtain rfl : n = before.length := Nat.succ.inj hn
  rw [Task.ofText, hlines, List.map_append]
  refine hbefore.append ?_
  rw [Task.lineCount_lines, Nat.zero_add]
  exact hl.append_stop (after.map .line)

theorem IsAtArgument.ends {arg : String} (h : IsAtArgument tree env limit d frame text n arg)
    (harg : Ends tree env limit d frame n [.argument arg] (some fault)) :
    Ends tree env limit d frame 0 (Task.ofText text) (some fault) := by
  obtain ⟨l, before, after, hline, hparse, hbefore⟩ := h
  obtain ⟨m, rfl⟩ : ∃ m, n = m + 1 := by
    obtain ⟨before, -, -, hn, -⟩ := hline
    exact ⟨before.length, hn⟩
  refine hline.ends (.line hparse ?_)
  show Ends _ _ _ _ _ _ ((before ++ arg :: after).map .argument ++ []) _
  rw [List.append_nil, List.map_append]
  refine hbefore.append ?_
  rw [Task.lineCount_arguments]
  exact harg.append_stop (after.map .argument)

theorem IsAtFile.ends {path : String} (h : IsAtFile tree env limit d frame text n path)
    (hpath : Ends tree env limit d frame n [.file path] (some fault)) :
    Ends tree env limit d frame 0 (Task.ofText text) (some fault) := by
  obtain ⟨arg, before, after, harg, hfiles, hbefore⟩ := h
  refine harg.ends (.argument hfiles ?_)
  rw [List.append_nil, List.map_append]
  refine hbefore.append ?_
  rw [Task.lineCount_files]
  exact hpath.append_stop (after.map .file)

/-- Reading that stops ends there. -/
theorem Stops.ends {place : Origin} (h : Stops tree env limit d frame text place fault) :
    Ends tree env limit d frame 0 (Task.ofText text) (some fault) := by
  induction h with
  | line hline hparse =>
      obtain ⟨before, -, -, rfl, -⟩ := id hline
      exact hline.ends (.badLine hparse)
  | argument harg hfiles => exact harg.ends (.badArgument hfiles)
  | tooDeep hpath hdeep => exact hpath.ends (.tooDeep hdeep)
  | unreadable hpath hd hread => exact hpath.ends (.unreadable hd hread)
  | nested hpath hd hread _ ih => exact hpath.ends (.badFile hd hread ih)

/-- Reading that fails stops at a line, if it does so in every file that it includes. -/
theorem exists_stops_of_below
    (hbelow : ∀ path body, d < limit → tree.read path = .ok body →
      Ends tree env limit (d + 1) ⟨some path, Path.dirname path⟩ 0 (Task.ofText body)
        (some fault) →
      ∃ place, Stops tree env limit (d + 1) ⟨some path, Path.dirname path⟩ body place fault)
    (h : Ends tree env limit d frame 0 (Task.ofText text) (some fault)) :
    ∃ place, Stops tree env limit d frame text place fault := by
  obtain ⟨before, l, after, hlines, hbefore, hl⟩ := h.exists_of_map
  rw [Task.lineCount_lines, Nat.zero_add] at hl
  have hline : IsAtLine tree env limit d frame text (before.length + 1) l :=
    ⟨before, after, hlines, rfl, hbefore⟩
  cases hl with
  | badLine hparse => exact ⟨_, .line hline hparse⟩
  | @line _ _ _ _ _ content _ hparse hargs =>
      rw [List.append_nil] at hargs
      obtain ⟨before', arg, after', hcontent, hbefore', harg⟩ := hargs.exists_of_map
      rw [Task.lineCount_arguments, Nat.add_zero] at harg
      have hincludes : content = .includes (before' ++ arg :: after') := by
        cases content with
        | includes args => exact congrArg Line.includes hcontent
        | nothing => exact absurd hcontent.symm (List.append_ne_nil_of_right_ne_nil _
            (List.cons_ne_nil _ _))
        | directive d => exact absurd hcontent.symm (List.append_ne_nil_of_right_ne_nil _
            (List.cons_ne_nil _ _))
        | heading criteria => exact absurd hcontent.symm (List.append_ne_nil_of_right_ne_nil _
            (List.cons_ne_nil _ _))
      have hargument : IsAtArgument tree env limit d frame text (before.length + 1) arg :=
        ⟨l, before', after', hline, hincludes ▸ hparse, hbefore'⟩
      cases harg with
      | badArgument hfiles => exact ⟨_, .argument hargument hfiles⟩
      | argument hfiles hpaths =>
          rw [List.append_nil] at hpaths
          obtain ⟨before'', path, after'', rfl, hbefore'', hpath⟩ := hpaths.exists_of_map
          rw [Task.lineCount_files, Nat.add_zero] at hpath
          have hfile : IsAtFile tree env limit d frame text (before.length + 1) path :=
            ⟨arg, before'', after'', hargument, hfiles, hbefore''⟩
          cases hpath with
          | tooDeep hdeep => exact ⟨_, .tooDeep hfile hdeep⟩
          | unreadable hd hread => exact ⟨_, .unreadable hfile hd hread⟩
          | badFile hd hread hbody =>
              obtain ⟨place, hplace⟩ := hbelow _ _ hd hread hbody
              exact ⟨place, .nested hfile hd hread hplace⟩
          | file _ _ _ hdone => exact nomatch hdone

/-- Reading that fails stops at a line: each included text has one level less to go. -/
theorem Ends.exists_stops (h : Ends tree env limit d frame 0 (Task.ofText text) (some fault)) :
    ∃ place, Stops tree env limit d frame text place fault := by
  obtain ⟨budget, hbudget⟩ : ∃ budget : Nat, limit ≤ d + budget := ⟨(limit - d).toNat, by omega⟩
  induction budget generalizing d frame text with
  | zero => exact exists_stops_of_below (fun _ _ hd => absurd hd (by omega)) h
  | succ budget ih =>
      exact exists_stops_of_below (fun _ _ _ _ hbody => ih hbody (by push_cast; omega)) h

/-- What can be wrong with an Include argument by itself. -/
theorem Reader.filesOf_eq_error {directory arg : String} {fault : ReadFault}
    (h : Reader.filesOf tree env directory arg = .error fault) :
    fault = .emptyPattern ∧ env.expandTilde arg = "" ∨ ∃ g, fault = .glob g := by
  rw [Reader.filesOf] at h
  split at h
  · rename_i hempty
    exact Or.inl ⟨(Except.error.inj h).symm, hempty⟩
  · split at h
    · split at h
      · exact nomatch h
      · rename_i g _
        exact Or.inr ⟨g, (Except.error.inj h).symm⟩
    · exact nomatch h

/-- Only the user's own file can be out of reach. -/
theorem Stops.reachable {place : Origin} (h : Stops tree env limit d frame text place fault)
    (path : String) (e : FileError) : fault ≠ .unreachable path e := by
  induction h with
  | line => exact fun h => (nomatch h)
  | argument _ hfiles =>
      rintro rfl
      rcases Reader.filesOf_eq_error hfiles with ⟨h, -⟩ | ⟨g, h⟩
      · exact nomatch h
      · exact nomatch h
  | tooDeep => exact fun h => (nomatch h)
  | unreadable => exact fun h => (nomatch h)
  | nested _ _ _ _ ih => exact ih

/-- A text that comes from a file stops at a line of a file. -/
theorem Stops.path_isSome {place : Origin} (h : Stops tree env limit d frame text place fault)
    (hframe : frame.path.isSome = true) : place.path.isSome = true := by
  induction h with
  | line => exact hframe
  | argument => exact hframe
  | tooDeep => exact hframe
  | unreadable => exact hframe
  | nested _ _ _ _ ih => exact ih rfl

end Stops

/-! ## The lines that reading stops at -/

/-- A place in a text, or in a file: its line there is `l`. -/
def IsLineAt (tree : FileTree) (frame : Frame) (text : String) (place : Origin)
    (l : List Char) : Prop :=
  ∃ body, (place.path = frame.path ∧ body = text
      ∨ ∃ path, place.path = some path ∧ tree.read path = .ok body)
    ∧ 0 < place.line ∧ (lines body.toList)[place.line - 1]? = some l

/-- The line is at fault by itself, or it is an Include line; nothing else can go wrong with
    an Include argument by itself but that it has no text. -/
def IsToBlame (env : Environment) (place : Origin) (l : List Char) (fault : ReadFault) : Prop :=
  (∃ lineFault, Line.parse place l = .error lineFault ∧ fault = .line lineFault place)
    ∨ ∃ args, Line.parse place l = .ok (.includes args)
        ∧ (fault = .emptyPattern → ∃ arg ∈ args, env.expandTilde arg = "")

section Blame

variable {d n : Nat} {frame : Frame} {text : String} {fault : ReadFault}

theorem IsAtLine.isLineAt {l : List Char} (h : IsAtLine tree env limit d frame text n l) :
    IsLineAt tree frame text ⟨frame.path, n⟩ l := by
  obtain ⟨before, after, hlines, rfl, -⟩ := h
  refine ⟨text, Or.inl ⟨rfl, rfl⟩, Nat.succ_pos _, ?_⟩
  rw [hlines, Nat.add_sub_cancel, List.getElem?_append_right (Nat.le_refl _), Nat.sub_self]
  rfl

theorem IsAtArgument.exists_line {arg : String}
    (h : IsAtArgument tree env limit d frame text n arg)
    (hfault : fault = .emptyPattern → env.expandTilde arg = "") :
    ∃ l, IsLineAt tree frame text ⟨frame.path, n⟩ l
      ∧ IsToBlame env ⟨frame.path, n⟩ l fault := by
  obtain ⟨l, before, after, hline, hparse, -⟩ := h
  refine ⟨l, hline.isLineAt, Or.inr ⟨_, hparse, fun h => ⟨arg, ?_, hfault h⟩⟩⟩
  exact List.mem_append_right before List.mem_cons_self

/-- What stands at the place where reading stops. -/
theorem Stops.exists_line {place : Origin}
    (h : Stops tree env limit d frame text place fault) :
    ∃ l, IsLineAt tree frame text place l ∧ IsToBlame env place l fault := by
  induction h with
  | line hline hparse => exact ⟨_, hline.isLineAt, Or.inl ⟨_, hparse, rfl⟩⟩
  | argument harg hfiles =>
      refine harg.exists_line fun hempty => ?_
      rcases Reader.filesOf_eq_error hfiles with ⟨-, h⟩ | ⟨g, rfl⟩
      · exact h
      · exact nomatch hempty
  | tooDeep hpath =>
      obtain ⟨arg, -, -, harg, -⟩ := hpath
      exact harg.exists_line fun hempty => (nomatch hempty)
  | unreadable hpath =>
      obtain ⟨arg, -, -, harg, -⟩ := hpath
      exact harg.exists_line fun hempty => (nomatch hempty)
  | nested _ _ hread _ ih =>
      obtain ⟨l, ⟨body', hbody, hpos, hl⟩, hblame⟩ := ih
      refine ⟨l, ⟨body', ?_, hpos, hl⟩, hblame⟩
      -- A line of an included text is a line of its file.
      rcases hbody with ⟨hpath, rfl⟩ | hfile
      · exact Or.inr ⟨_, hpath, hread⟩
      · exact Or.inr hfile

end Blame

/-! ## What a failure names -/

/-- A refusal that names a place: a failure to read whose details are the file and the
    line. -/
def Refusal.IsLocatedAt (r : Refusal) (place : Origin) : Prop :=
  ∃ f, r = .failure f ∧ f.code ∈ [ErrorCode.malformed, .io, .includeDepth]
    ∧ f.details.path = place.path ∧ f.details.line = some (place.line : Int)

/-- The faults that are reported without their place, or at another. -/
def ReadFault.IsMisplaced : ReadFault → Origin → Prop
  | .line .., _ => False
  | .file .., place => place.path = none
  | .tooDeep .., _ => False
  | .unreachable .., _ => True
  | .emptyPattern, _ => True
  | .glob _, _ => True

/-- A failure names the place where reading stopped, with those exceptions. -/
theorem Stops.isLocatedAt_iff {d : Nat} {frame : Frame} {text : String} {place : Origin}
    {fault : ReadFault} (h : Stops tree env limit d frame text place fault) :
    fault.refusal.IsLocatedAt place ↔ ¬ fault.IsMisplaced place := by
  induction h with
  | line =>
      refine iff_of_true ⟨_, rfl, ?_, rfl, rfl⟩ id
      exact List.mem_cons_self
  | argument _ hfiles =>
      rcases Reader.filesOf_eq_error hfiles with ⟨rfl, -⟩ | ⟨g, rfl⟩
      · exact iff_of_false (fun ⟨_, hf, _⟩ => (nomatch hf)) fun hnot => hnot trivial
      · exact iff_of_false (fun ⟨_, hf, _⟩ => (nomatch hf)) fun hnot => hnot trivial
  | tooDeep =>
      refine iff_of_true ⟨_, rfl, ?_, rfl, rfl⟩ id
      exact List.mem_cons_of_mem _ (List.mem_cons_of_mem _ List.mem_cons_self)
  | @unreadable d n frame text path e =>
      -- Without a file of its own the text borrows the one that could not be read.
      cases hpath : frame.path with
      | none =>
          refine iff_of_false ?_ fun hnot => hnot rfl
          rintro ⟨f, hf, -, hnamed, -⟩
          obtain rfl := Refusal.failure.inj hf
          exact nomatch hnamed
      | some own =>
          refine iff_of_true ⟨_, rfl, ?_, rfl, rfl⟩ fun hnone => (nomatch hnone)
          exact List.mem_cons_of_mem _ List.mem_cons_self
  | nested _ _ _ _ ih => exact ih

namespace Config

/-- The text is read to an end, and to that which parsing shows. -/
theorem ends_parse (tree : FileTree) (env : Environment) (options : ReadOptions)
    (source : String) :
    Ends tree env options.includeDepth 0 (rootFrame env options) 0 (Task.ofText source)
      (fault? (parse tree env options source).value) := by
  rw [fault?_parse]
  exact Reader.ends_readText _ (Nat.zero_add _).symm _ _ _ _

/-- Reading a configuration fails exactly if it stops at a line. -/
theorem parse_eq_error_iff {options : ReadOptions} {source : String} {fault : ReadFault} :
    (parse tree env options source).value = .error fault
      ↔ ∃ place, Stops tree env options.includeDepth 0 (rootFrame env options) source place
          fault := by
  have hends := ends_parse tree env options source
  constructor
  · intro h
    rw [h] at hends
    exact hends.exists_stops
  · rintro ⟨place, hplace⟩
    have hfault := hends.unique hplace.ends
    cases hvalue : (parse tree env options source).value with
    | ok c =>
        rw [hvalue] at hfault
        exact nomatch hfault
    | error fault' =>
        rw [hvalue] at hfault
        rw [Option.some.inj hfault]

/-- **What failures say about their place.** When a text cannot be parsed, there is a line
    where reading stopped: a line of the text, or of a file reached from it along Include
    lines that had all been read up to there.  The line is at fault by itself or is an
    Include line.  The failure names its file and its number, unless it is one of the
    faults that are misplaced; when the text is that of a file, these are an Include
    argument without text and a glob that cannot be followed, and nothing else. -/
theorem failure_location (tree : FileTree) (env : Environment) (options : ReadOptions) :
    (∀ source fault, (parse tree env options source).value = .error fault →
      ∃ place l, Stops tree env options.includeDepth 0 (rootFrame env options) source place fault
        ∧ IsLineAt tree (rootFrame env options) source place l ∧ IsToBlame env place l fault
        ∧ (fault.refusal.IsLocatedAt place ↔ ¬ fault.IsMisplaced place))
    ∧ ∀ path text fault, tree.read path = .ok text →
      (parseFile tree env options path).value = .error fault →
      ∃ place l, Stops tree env options.includeDepth 0 ⟨some path, Path.dirname path⟩ text place
          fault
        ∧ IsLineAt tree ⟨some path, Path.dirname path⟩ text place l ∧ IsToBlame env place l fault
        ∧ (fault.refusal.IsLocatedAt place ↔ ¬ (fault = .emptyPattern ∨ ∃ g, fault = .glob g)) := by
  have hparse : ∀ options source fault, (parse tree env options source).value = .error fault →
      ∃ place l, Stops tree env options.includeDepth 0 (rootFrame env options) source place fault
        ∧ IsLineAt tree (rootFrame env options) source place l ∧ IsToBlame env place l fault
        ∧ (fault.refusal.IsLocatedAt place ↔ ¬ fault.IsMisplaced place) := by
    intro options source fault h
    obtain ⟨place, hplace⟩ := parse_eq_error_iff.mp h
    obtain ⟨l, hl, hblame⟩ := hplace.exists_line
    exact ⟨place, l, hplace, hl, hblame, hplace.isLocatedAt_iff⟩
  refine ⟨hparse options, ?_⟩
  intro path text fault hread h
  rw [parseFile, hread] at h
  obtain ⟨place, l, hplace, hl, hblame, hlocated⟩ := hparse _ _ _ h
  rw [rootFrame_of_path env options (ne_empty_of_read hread)] at hplace hl
  refine ⟨place, l, hplace, hl, hblame, hlocated.trans (not_congr ?_)⟩
  -- In the text of a file every line has a file to be named with it.
  have hsome := hplace.path_isSome rfl
  have hfile : place.path ≠ none := Option.isSome_iff_ne_none.mp hsome
  have hreach := hplace.reachable
  cases fault with
  | line lineFault origin => exact iff_of_false id (by simp)
  | file named e origin => exact iff_of_false hfile (by simp)
  | tooDeep depth origin => exact iff_of_false id (by simp)
  | unreachable named e => exact absurd rfl (hreach named e)
  | emptyPattern => exact iff_of_true trivial (Or.inl rfl)
  | glob g => exact iff_of_true trivial (Or.inr ⟨g, rfl⟩)

/-- A port that is none, on the second line of an included file: both for a text and for a
    file that include it. -/
theorem failure_location_included :
    ∃ fault, (parse ((FileTree.empty.write "/c" "Include /d\n").write "/d" "User x\nPort no\n")
          ⟨"/h", "u", "w", "/h/c"⟩ {} "Include /d\n").value = .error fault
      ∧ (parseFile ((FileTree.empty.write "/c" "Include /d\n").write "/d" "User x\nPort no\n")
          ⟨"/h", "u", "w", "/h/c"⟩ {} "/c").value = .error fault
      ∧ fault.refusal.IsLocatedAt ⟨some "/d", 2⟩ := by
  obtain ⟨hparse, hfile⟩ : _ ∧ _ := failure_location
    ((FileTree.empty.write "/c" "Include /d\n").write "/d" "User x\nPort no\n")
    ⟨"/h", "u", "w", "/h/c"⟩ {}
  have htext : (parse ((FileTree.empty.write "/c" "Include /d\n").write "/d" "User x\nPort no\n")
      ⟨"/h", "u", "w", "/h/c"⟩ {} "Include /d\n").value
      = .error (.line (.invalidPort "no") ⟨some "/d", 2⟩) := by decide +kernel
  have hroot : (parseFile
      ((FileTree.empty.write "/c" "Include /d\n").write "/d" "User x\nPort no\n")
      ⟨"/h", "u", "w", "/h/c"⟩ {} "/c").value
      = .error (.line (.invalidPort "no") ⟨some "/d", 2⟩) := by decide +kernel
  obtain ⟨place, -, -, -, -, hplace⟩ := hparse _ _ htext
  obtain ⟨place', -, -, -, -, hplace'⟩ := hfile "/c" "Include /d\n" _ (by decide +kernel) hroot
  have hlocated := hplace.mpr id
  have hlocated' := hplace'.mpr (by simp)
  -- The place is the one that the failure names.
  have hsame : ∀ place, (ReadFault.line (.invalidPort "no") ⟨some "/d", 2⟩).refusal.IsLocatedAt
      place → place = ⟨some "/d", 2⟩ := by
    rintro ⟨path, line⟩ ⟨f, hf, -, hpath, hline⟩
    obtain rfl := Refusal.failure.inj hf
    obtain rfl : some "/d" = path := hpath
    obtain rfl : 2 = line := Int.ofNat.inj (Option.some.inj hline)
    rfl
  exact ⟨_, htext, hroot, hsame place hlocated ▸ hlocated⟩

/-- A text of no file names a file that is not there: the failure names line 1 of the file
    that could not be read. -/
theorem failure_location_borrowed :
    ∃ fault f, (parse .empty ⟨"/h", "u", "w", "/h/c"⟩ {} "Include /missing\n").value
        = .error fault
      ∧ fault.refusal = .failure f ∧ f.code = .io
      ∧ f.details.path = some "/missing" ∧ f.details.line = some 1
      ∧ FileTree.empty.read "/missing" = .error .missing
      ∧ ¬ fault.refusal.IsLocatedAt ⟨none, 1⟩ := by
  refine ⟨.file "/missing" .missing (some ⟨none, 1⟩), _, by decide +kernel, rfl, rfl, rfl, rfl,
    by decide +kernel, ?_⟩
  rintro ⟨f, hf, -, hpath, -⟩
  obtain rfl := Refusal.failure.inj hf
  exact nomatch hpath

end Config

end SshDial
