import SshDial.Proofs.Config.Nesting

/-! # Limit — what the depth limit can change

    The limit on nested files does one thing: it ends a reading with a fault of its own.
    `UpToLimit` says this of two results, that the first is the second one or was ended
    by the limit.  It passes through every step of the reader (`Reader.UpToLimit.bind`,
    `Reader.UpToLimit.readLines`), so a text read under two limits comes to results that
    are so related (`Reader.upToLimit_readText`), faults and notes on the way included.

    `Reading.nested` lists the files of a reading with the depth at which each was read;
    `Config.parse_includeDepth` is what a user may rely on when changing the limit. -/

namespace SshDial

open SshDial.Text

variable {tree : FileTree} {env : Environment}

/-! ## Reading under two limits -/

namespace Reader

/-- The first result is the second one, unless the limit on nested files cut it off. -/
def UpToLimit (limit : Int) (x y : Except Halt Progress) : Prop :=
  (∃ origin unmatched, x = .error ⟨.tooDeep limit origin, unmatched⟩) ∨ x = y

namespace UpToLimit

variable {limit : Int} {x y : Except Halt Progress} {α : Type}

theorem refl (x : Except Halt Progress) : UpToLimit limit x x := Or.inr rfl

/-- What was cut off does not go on; everything else goes on from the same place. -/
theorem bind (h : UpToLimit limit x y) {f g : Progress → Except Halt Progress}
    (hnext : ∀ p, UpToLimit limit (f p) (g p)) : UpToLimit limit (x >>= f) (y >>= g) := by
  rcases h with ⟨origin, unmatched, rfl⟩ | rfl
  · exact Or.inl ⟨origin, unmatched, rfl⟩
  · cases x with
    | error halt => exact refl _
    | ok p => exact hnext p

theorem foldlM {f g : Progress → α → Except Halt Progress}
    (h : ∀ p a, UpToLimit limit (f p a) (g p a)) (as : List α) (p : Progress) :
    UpToLimit limit (as.foldlM f p) (as.foldlM g p) := by
  induction as generalizing p with
  | nil => exact refl _
  | cons a as ih =>
      rw [List.foldlM_cons, List.foldlM_cons]
      exact (h p a).bind ih

variable {f g : Heading → Origin → String → Progress → Except Halt Progress}

theorem readArgument {readFile readFile' : String → Progress → Except Halt Progress}
    (h : ∀ path p, UpToLimit limit (readFile path p) (readFile' path p))
    (frame : Frame) (origin : Origin) (p : Progress) (arg : String) :
    UpToLimit limit (Reader.readArgument tree env frame origin readFile p arg)
      (Reader.readArgument tree env frame origin readFile' p arg) := by
  rw [Reader.readArgument, Reader.readArgument]
  cases filesOf tree env frame.directory arg with
  | error fault => exact refl _
  | ok files =>
      cases files with
      | nil => exact refl _
      | cons path files => exact foldlM (fun p path => h path p) (path :: files) p

/-- Faults of the lines themselves come before and after the files as they did. -/
theorem readLines (h : ∀ heading origin path p,
      UpToLimit limit (f heading origin path p) (g heading origin path p))
    (frame : Frame) (n : Nat) (ls : List (List Char)) (s : Segment) (p : Progress) :
    UpToLimit limit (Reader.readLines tree env frame f n ls s p)
      (Reader.readLines tree env frame g n ls s p) := by
  induction ls generalizing n s p with
  | nil => exact refl _
  | cons l ls ih =>
      cases hparse : Line.parse ⟨frame.path, n⟩ l with
      | error fault =>
          rw [Reader.readLines, Reader.readLines, hparse]
          exact refl _
      | ok content =>
          rw [readLines_cons hparse, readLines_cons hparse]
          refine bind ?_ (ih (n + 1) _)
          exact foldlM (readArgument (h s.heading ⟨frame.path, n⟩) frame ⟨frame.path, n⟩)
            content.includeArgs _

end UpToLimit

/-- **A larger budget changes nothing but what the limit cut off.** Both budgets go down by
    one for an included file, and the smaller one is used up first. -/
theorem upToLimit_readText {limit limit' : Int} {budget budget' : Nat}
    (hle : budget ≤ budget') (frame : Frame) (h : Heading) (text : String) (p : Progress) :
    UpToLimit limit (readText tree env limit budget frame h text p)
      (readText tree env limit' budget' frame h text p) := by
  induction budget generalizing budget' frame h text p with
  | zero =>
      -- Every file is refused by the first reader, whatever the second one makes of it.
      have hrefused : ∀ (g : Heading → Origin → String → Progress → Except Halt Progress)
          (heading : Heading) (origin : Origin) (path : String) (p : Progress),
          UpToLimit limit (.error ⟨.tooDeep limit origin, p.unmatched⟩)
            (g heading origin path p) :=
        fun _ _ origin _ p => Or.inl ⟨origin, p.unmatched, rfl⟩
      cases budget' with
      | zero => exact UpToLimit.readLines (hrefused _) frame 1 _ _ p
      | succ budget' => exact UpToLimit.readLines (hrefused _) frame 1 _ _ p
  | succ budget ih =>
      obtain ⟨budget', rfl⟩ := Nat.exists_eq_add_of_lt hle
      have hfile : ∀ heading origin path p,
          UpToLimit limit (readIncluded tree env limit budget heading origin path p)
            (readIncluded tree env limit' (budget + budget') heading origin path p) := by
        intro heading origin path p
        rw [readIncluded, readIncluded]
        cases tree.read path with
        | error e => exact UpToLimit.refl _
        | ok text => exact ih (Nat.le_add_right _ _) _ heading text (p.addFile path)
      exact UpToLimit.readLines hfile frame 1 _ _ p

end Reader

/-! ## How deep a file was read -/

namespace Reading

/-- The files that were pulled in, each with the depth at which it was read; the text
    itself stands at depth `d`. -/
def nested (d : Nat) : Reading → List (String × Nat)
  | .done => []
  | .line _ _ r => r.nested d
  | .file path body r => (path, d + 1) :: (body.nested (d + 1) ++ r.nested d)

theorem map_fst_nested (d : Nat) (r : Reading) : (r.nested d).map Prod.fst = r.files := by
  induction r generalizing d with
  | done => rfl
  | line origin content r ih => exact ih d
  | file path body r ihbody ih =>
      show path :: (body.nested (d + 1) ++ r.nested d).map Prod.fst = _
      rw [List.map_append, ihbody, ih]
      rfl

/-- A file is read below the text that pulls it in, and within the depth of the reading. -/
theorem bounds_of_mem_nested {d : Nat} {r : Reading} {file : String × Nat}
    (h : file ∈ r.nested d) : d < file.2 ∧ file.2 ≤ d + r.depth := by
  induction r generalizing d with
  | done => exact absurd h List.not_mem_nil
  | line origin content r ih => exact ih h
  | file path body r ihbody ih =>
      show d < file.2 ∧ file.2 ≤ d + max (body.depth + 1) r.depth
      rcases List.mem_cons.mp h with rfl | hmem
      · exact ⟨Nat.lt_succ_self d, by omega⟩
      · rcases List.mem_append.mp hmem with hbody | hrest
        · have hbounds := ihbody hbody
          omega
        · have hbounds := ih hrest
          omega

end Reading

namespace Config

variable {options : ReadOptions} {source : String} {d d' : Int}

/-- Parsing under two limits, log included. -/
theorem parse_upToLimit (hle : d ≤ d') (options : ReadOptions) (source : String) :
    (∃ origin, (parse tree env { options with includeDepth := d } source).value
        = .error (.tooDeep d origin))
      ∨ parse tree env { options with includeDepth := d' } source
        = parse tree env { options with includeDepth := d } source := by
  have hread : Reader.UpToLimit d (read tree env { options with includeDepth := d } source)
      (read tree env { options with includeDepth := d' } source) :=
    Reader.upToLimit_readText (Int.toNat_le_toNat hle) _ _ _ _
  rcases hread with ⟨origin, unmatched, hcut⟩ | hsame
  · refine Or.inl ⟨origin, ?_⟩
    rw [parse, hcut]
  · refine Or.inr ?_
    rw [parse, parse, hsame]
    rfl

/-- The files of what was parsed, each with its depth, and no depth beyond the limit. -/
theorem exists_nested {c : Config} (h : (parse tree env options source).value = .ok c) :
    ∃ r, IsReading tree env options source r
      ∧ c.files = (namedFile options).toList ++ (r.nested 0).map Prod.fst
      ∧ ∀ file ∈ r.nested 0, (file.2 : Int) ≤ options.includeDepth := by
  obtain ⟨r, hr, hdepth, rfl⟩ := parse_eq_ok_iff.mp h
  refine ⟨r, hr, ?_, ?_⟩
  · rw [Reading.map_fst_nested]
  · intro file hfile
    obtain ⟨hpos, hle⟩ := Reading.bounds_of_mem_nested hfile
    omega

/-- **The depth limit cuts off, it never changes a result.** What parses under one limit
    parses in the same way under every larger one, and no file was read deeper than the
    smaller one allows; a failure that is not the limit's own stays the same, too. -/
theorem parse_includeDepth (tree : FileTree) (env : Environment) (options : ReadOptions)
    (source : String) {d d' : Int} (hle : d ≤ d') :
    (∀ c, (parse tree env { options with includeDepth := d } source).value = .ok c →
      parse tree env { options with includeDepth := d' } source
          = parse tree env { options with includeDepth := d } source
        ∧ ∃ r, IsReading tree env options source r
          ∧ c.files = (namedFile options).toList ++ (r.nested 0).map Prod.fst
          ∧ ∀ file ∈ r.nested 0, (file.2 : Int) ≤ d)
    ∧ ∀ fault, (parse tree env { options with includeDepth := d } source).value = .error fault →
      (∀ f, fault.refusal = .failure f → f.code ≠ .includeDepth) →
      parse tree env { options with includeDepth := d' } source
        = parse tree env { options with includeDepth := d } source := by
  constructor
  · intro c hc
    refine ⟨?_, exists_nested hc⟩
    rcases parse_upToLimit hle options source with ⟨origin, hcut⟩ | hsame
    · exact nomatch hc.symm.trans hcut
    · exact hsame
  · intro fault hfault hcode
    rcases parse_upToLimit hle options source with ⟨origin, hcut⟩ | hsame
    · obtain rfl := Except.error.inj (hfault.symm.trans hcut)
      exact absurd rfl (hcode _ rfl)
    · exact hsame

/-- Files nested two deep: a configuration, and a port that is none in the deeper file. -/
theorem parse_includeDepth_nested :
    (2 : Int) ≤ 9
      ∧ (∃ c r, (parse ((FileTree.empty.write "/a" "Include /b").write "/b" "User x")
            ⟨"/h", "u", "w", "/h/c"⟩ { includeDepth := 9 } "Include /a").value = .ok c
          ∧ c.files = ["/a", "/b"] ∧ c.files = (r : Reading).files
          ∧ ∀ file ∈ r.nested 0, (file.2 : Int) ≤ 2)
      ∧ (parse ((FileTree.empty.write "/a" "Include /b").write "/b" "Port no")
            ⟨"/h", "u", "w", "/h/c"⟩ { includeDepth := 9 } "Include /a").value
          = .error (.line (.invalidPort "no") ⟨some "/b", 1⟩) := by
  have hle : (2 : Int) ≤ 9 := by decide
  refine ⟨hle, ?_, ?_⟩
  · have hparse : (parse ((FileTree.empty.write "/a" "Include /b").write "/b" "User x")
        ⟨"/h", "u", "w", "/h/c"⟩ { includeDepth := 2 } "Include /a").value
        = .ok ⟨[⟨.global, ⟨none, 0⟩, [⟨"user", "User", "x", ["x"], ⟨some "/b", 1⟩⟩]⟩],
            ["/a", "/b"]⟩ := by decide +kernel
    obtain ⟨hsame, r, -, hfiles, hnested⟩ :=
      (parse_includeDepth _ ⟨"/h", "u", "w", "/h/c"⟩ {} "Include /a" hle).1 _ hparse
    rw [Reading.map_fst_nested] at hfiles
    exact ⟨_, r, (congrArg Logged.value hsame).trans hparse, rfl, hfiles, hnested⟩
  · have hparse : (parse ((FileTree.empty.write "/a" "Include /b").write "/b" "Port no")
        ⟨"/h", "u", "w", "/h/c"⟩ { includeDepth := 2 } "Include /a").value
        = .error (.line (.invalidPort "no") ⟨some "/b", 1⟩) := by decide +kernel
    have hsame :=
      (parse_includeDepth _ ⟨"/h", "u", "w", "/h/c"⟩ {} "Include /a" hle).2 _ hparse (by
        intro f hf
        obtain rfl := Refusal.failure.inj hf
        exact nofun)
    exact (congrArg Logged.value hsame).trans hparse

/-- The limit does cut off: one level less, and the second file is not read. -/
example :
    (parse ((FileTree.empty.write "/a" "Include /b").write "/b" "User x")
        ⟨"/h", "u", "w", "/h/c"⟩ { includeDepth := 1 } "Include /a").value
      = .error (.tooDeep 1 ⟨some "/a", 1⟩) := by
  decide +kernel

end Config

end SshDial
