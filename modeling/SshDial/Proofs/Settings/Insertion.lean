import Mathlib.Control.Monad.Basic
import SshDial.Proofs.Settings.Continuation

/-! # Insertion — a text with one Include line more that brings nothing

    `Settings.outcome` is what comes of parsing a text and asking it for a host.  An
    Include line that brings nothing cuts the stanza it stands in; the outcome is the same
    unless that stanza lapses at the cut, and then it is that of the text without the rest
    of the stanza (`Settings.outcome_insertLine`).  Only a Match stanza that looks at the
    host name or the remote user can lapse (`Settings.not_lapsesAt_of_isSteady`). -/

namespace SshDial

open SshDial.Text

/-- What is open at the beginning of a text. -/
def Segment.root : Segment := .continued ⟨.global, .nowhere⟩

/-- The lines after the first `k` that the stanza there still takes in: those before the
    next Host, Match or Include line. -/
def settingsAfter (source : String) (k : Nat) : List (List Char) :=
  ((lines source.toList).drop k).takeWhile Line.isSetting

/-- The lines from the next Host, Match or Include line on. -/
def linesBeyond (source : String) (k : Nat) : List (List Char) :=
  ((lines source.toList).drop k).dropWhile Line.isSetting

/-- The text without what the stanza after its first `k` lines still takes in. -/
def dropSettings (source : String) (k : Nat) : String :=
  joinLines ((lines source.toList).take k ++ linesBeyond source k)

theorem lines_eq_settings (source : String) (k : Nat) : lines source.toList
    = (lines source.toList).take k ++ (settingsAfter source k ++ linesBeyond source k) := by
  rw [settingsAfter, linesBeyond, List.takeWhile_append_dropWhile, List.take_append_drop]

theorem lines_insertLine_settings (source : String) (k : Nat) {line : List Char}
    (hline : '\n' ∉ line) : lines (insertLine source k line).toList
      = (lines source.toList).take k
        ++ ((line :: settingsAfter source k) ++ linesBeyond source k) := by
  rw [lines_insertLine source k hline, settingsAfter, linesBeyond, List.cons_append,
    List.takeWhile_append_dropWhile]

theorem lines_dropSettings {source : String} {k : Nat}
    (hne : (lines source.toList).take k ≠ []) : lines (dropSettings source k).toList
      = (lines source.toList).take k ++ ([] ++ linesBeyond source k) := by
  refine lines_joinLines (List.append_ne_nil_of_left_ne_nil hne _) fun l hl => ?_
  rcases List.mem_append.mp hl with htake | hbeyond
  · exact not_mem_of_mem_splitAt (List.mem_of_mem_take htake)
  · have hdrop := (List.dropWhile_sublist Line.isSetting).mem hbeyond
    exact not_mem_of_mem_splitAt (List.mem_of_mem_drop hdrop)

namespace Settings

section Outcome

variable (tree : FileTree) (env : Environment) (options : ReadOptions) (subject : Subject)

/-- What comes of parsing a text and asking it for the settings of a host; nothing when
    the text does not parse. -/
def outcome (requireMatch : Bool) (source : String) : Option (Except Failure Settings) :=
  (Config.parse tree env options source).value.toOption.map fun c =>
    find c subject.env ⟨subject.user, requireMatch⟩ subject.host

/-- The stanza that is open after the first `k` lines lapses there: its criteria hold in
    the state in which it begins, and not in the one that its directives so far leave. -/
def LapsesAt (source : String) (k : Nat) : Prop :=
  ∃ t, Outlines tree env (Config.rootFrame env options) ((lines source.toList).take k) t
    ∧ (t.last .root).Lapses subject (Resolution.enterAll subject .start (t.closed .root))

end Outcome

variable {tree : FileTree} {env : Environment} {options : ReadOptions} {subject : Subject}
  {requireMatch : Bool} {source : String}

/-- The outcome by the outline of the text. -/
theorem outcome_eq_some_iff {v : Except Failure Settings} :
    outcome tree env options subject requireMatch source = some v ↔
      ∃ t, Outlines tree env (Config.rootFrame env options) (lines source.toList) t
        ∧ t.depth ≤ options.includeDepth.toNat
        ∧ (Resolution.enterAll subject .start (t.stanzas .root)).verdict subject requireMatch
            = v := by
  have hfound : outcome tree env options subject requireMatch source = some v ↔
      ∃ c, (Config.parse tree env options source).value = .ok c
        ∧ find c subject.env ⟨subject.user, requireMatch⟩ subject.host = v := by
    rw [outcome]
    cases (Config.parse tree env options source).value with
    | error fault => exact ⟨fun h => (nomatch h), fun ⟨_, h, _⟩ => (nomatch h)⟩
    | ok c =>
        exact ⟨fun h => ⟨c, rfl, Option.some.inj h⟩,
          fun ⟨_, hc, h⟩ => congrArg some (Except.ok.inj hc ▸ h)⟩
  have hverdict : ∀ (r : Reading) (files : List String),
      find ⟨r.stanzas (.continued (Config.rootHeading options)), files⟩ subject.env
          ⟨subject.user, requireMatch⟩ subject.host
        = (Resolution.enterAll subject .start (r.unplaced.stanzas .root)).verdict subject
            requireMatch := by
    intro r files
    have hplaces := r.stanzas_unplaced (.continued (Config.rootHeading options))
    rw [find_eq_verdict, ← Resolution.enterAll_unplaced, ← hplaces]
    rfl
  rw [hfound]
  constructor
  · rintro ⟨c, hc, rfl⟩
    obtain ⟨r, hr, hdepth, rfl⟩ := Config.parse_eq_ok_iff.mp hc
    refine ⟨r.unplaced, ⟨1, r, hr, rfl⟩, ?_, (hverdict r _).symm⟩
    rw [Reading.depth_unplaced]
    exact hdepth
  · rintro ⟨t, ht, hdepth, rfl⟩
    obtain ⟨r, hr, rfl⟩ := ht.reads 1
    rw [Reading.depth_unplaced] at hdepth
    exact ⟨_, Config.parse_eq_ok_iff.mpr ⟨r, hr, hdepth, rfl⟩, hverdict r _⟩

/-- The walk through what follows a reading begins in the state that the reading leaves. -/
theorem enterAll_stanzas_append (r t : Reading) (s : Segment) (y : Resolution) :
    Resolution.enterAll subject y ((r ++ t).stanzas s)
      = Resolution.enterAll subject (Resolution.enterAll subject y (r.closed s))
          (t.stanzas (r.last s)) := by
  rw [Reading.stanzas_append, Resolution.enterAll_append]

section Exchange

variable {source' : String} {ls₁ ls₃ ms ms' : List (List Char)} {m m' : Reading}
  (hlines : lines source.toList = ls₁ ++ (ms ++ ls₃))
  (hlines' : lines source'.toList = ls₁ ++ (ms' ++ ls₃))
  (hm : Outlines tree env (Config.rootFrame env options) ms m)
  (hm' : Outlines tree env (Config.rootFrame env options) ms' m')
  (hdepth' : m'.depth ≤ options.includeDepth.toNat)
  (hsame : ∀ t₁ t₃, Outlines tree env (Config.rootFrame env options) ls₁ t₁ →
    Outlines tree env (Config.rootFrame env options) ls₃ t₃ →
    Resolution.enterAll subject .start ((t₁ ++ (m ++ t₃)).stanzas .root)
      = Resolution.enterAll subject .start ((t₁ ++ (m' ++ t₃)).stanzas .root))

include hlines hlines' hm hm' hdepth' hsame

/-- A part of a text gives way to another one that does the same to the walk. -/
theorem outcome_exchange {v : Except Failure Settings}
    (h : outcome tree env options subject requireMatch source = some v) :
    outcome tree env options subject requireMatch source' = some v := by
  obtain ⟨t, ht, hdepth, hv⟩ := outcome_eq_some_iff.mp h
  -- The outline is cut where the lines are, and the part in the middle is exchanged.
  rw [hlines] at ht
  obtain ⟨t₁, t₂, h₁, h₂, rfl⟩ := outlines_append_iff.mp ht
  obtain ⟨u, t₃, hu, h₃, rfl⟩ := outlines_append_iff.mp h₂
  obtain rfl := hu.unique hm
  have hafter : Outlines tree env (Config.rootFrame env options) (ms' ++ ls₃) (m' ++ t₃) :=
    outlines_append_iff.mpr ⟨m', t₃, hm', h₃, rfl⟩
  refine outcome_eq_some_iff.mpr ⟨t₁ ++ (m' ++ t₃), ?_, ?_, ?_⟩
  · rw [hlines']
    exact outlines_append_iff.mpr ⟨t₁, _, h₁, hafter, rfl⟩
  · rw [Reading.depth_append, Reading.depth_append] at hdepth ⊢
    omega
  · rw [← hsame t₁ t₃ h₁ h₃, hv]

/-- Parts of a text that do the same to the walk make no difference to the outcome. -/
theorem outcome_congr (hdepth : m.depth ≤ options.includeDepth.toNat) :
    outcome tree env options subject requireMatch source
      = outcome tree env options subject requireMatch source' := by
  refine Option.ext fun v => ⟨?_, ?_⟩
  · exact outcome_exchange hlines hlines' hm hm' hdepth' hsame
  · exact outcome_exchange hlines' hlines hm' hm hdepth
      fun t₁ t₃ h₁ h₃ => (hsame t₁ t₃ h₁ h₃).symm

end Exchange

section Cut

variable {i m t : Reading} {ds : List Directive}

/-- Directives after a pause make a stanza of their own. -/
theorem stanzas_of_cut (hi : i.Pauses) (hm : m.Adds ds) (ht : t.Closes) (s : Segment) :
    ((i ++ m) ++ t).stanzas s
      = (s.stanzas ++ ((Segment.continued s.heading).addAll ds).stanzas)
        ++ t.stanzas (.continued s.heading) := by
  rw [Reading.append_assoc, hi.stanzas_append, hm.stanzas_append ht, List.append_assoc]
  rfl

/-- In a stanza that does not lapse they count as before. -/
theorem enterAll_stanzas_kept (hi : i.Pauses) (hm : m.Adds ds) (ht : t.Closes) {s : Segment}
    {y : Resolution} (h : ¬ s.Lapses subject y) :
    Resolution.enterAll subject y (((i ++ m) ++ t).stanzas s)
      = Resolution.enterAll subject y ((m ++ t).stanzas s) := by
  rw [stanzas_of_cut hi hm ht, hm.stanzas_append ht, Resolution.enterAll_append,
    Segment.enterAll_continued h, Resolution.enterAll_append]

/-- In a stanza that lapses they are lost. -/
theorem enterAll_stanzas_lost (hi : i.Pauses) (hm : m.Adds ds) (ht : t.Closes) {s : Segment}
    {y : Resolution} (h : s.Lapses subject y) :
    Resolution.enterAll subject y (((i ++ m) ++ t).stanzas s)
      = Resolution.enterAll subject y (t.stanzas s) := by
  rw [stanzas_of_cut hi hm ht, ht s, Resolution.enterAll_append, Segment.enterAll_lapsed h,
    Resolution.enterAll_append]

end Cut

/-- What is left of a stanza adds directives. -/
theorem outlines_settingsAfter (frame : Frame) (source : String) (k : Nat) :
    ∃ t ds, Outlines tree env frame (settingsAfter source k) t ∧ t.depth = 0 ∧ t.Adds ds :=
  outlines_settings frame (List.all_eq_true.mp List.all_takeWhile)

/-- The lines from the next Host, Match or Include line on close the stanza. -/
theorem closes_of_linesBeyond {frame : Frame} {k : Nat} {t : Reading}
    (h : Outlines tree env frame (linesBeyond source k) t) : t.Closes := by
  refine h.closes fun l hl => ?_
  have hhead := List.head?_dropWhile_not Line.isSetting ((lines source.toList).drop k)
  rw [linesBeyond, Option.mem_def] at hl
  rw [hl] at hhead
  exact hhead

/-- The stanza that is open at the beginning of a text never lapses. -/
theorem take_ne_nil_of_lapsesAt {k : Nat} (h : LapsesAt tree env options subject source k) :
    (lines source.toList).take k ≠ [] := by
  intro hnil
  obtain ⟨t, ht, hlapses⟩ := h
  rw [hnil] at ht
  obtain rfl := ht.unique ⟨1, .done, .done, rfl⟩
  exact nomatch hlapses.2

/-- Under a heading whose criteria hold in every state or in none nothing lapses. -/
theorem not_lapsesAt_of_isSteady {k : Nat}
    (h : ∀ t, Outlines tree env (Config.rootFrame env options)
      ((lines source.toList).take k) t → (t.last .root).heading.criteria.isSteady = true) :
    ¬ LapsesAt tree env options subject source k := by
  rintro ⟨t, ht, hmeets, hlapsed⟩
  rw [Resolution.meets_of_isSteady (h t ht) _ (Resolution.enterAll subject .start
    (t.closed .root)), hmeets] at hlapsed
  exact nomatch hlapsed

/-- **An idle Include line cuts its stanza, and that is all.** One more Include line that
    brings nothing makes no difference exactly if the stanza it stands in does not lapse
    there, or what is left of that stanza makes none; and if the stanza lapses, what is
    left of it is lost. -/
theorem outcome_insertLine {line : List Char} (h : IsIdleInclude tree env options line)
    (subject : Subject) (requireMatch : Bool) (source : String) (k : Nat) :
    (outcome tree env options subject requireMatch (insertLine source k line)
        = outcome tree env options subject requireMatch source
      ↔ ¬ LapsesAt tree env options subject source k
        ∨ outcome tree env options subject requireMatch (dropSettings source k)
          = outcome tree env options subject requireMatch source)
    ∧ (LapsesAt tree env options subject source k →
        outcome tree env options subject requireMatch (insertLine source k line)
          = outcome tree env options subject requireMatch (dropSettings source k)) := by
  obtain ⟨i, hi, hidepth, hpauses⟩ := outlines_idleInclude h
  obtain ⟨m, ds, hm, hmdepth, hadds⟩ :=
    @outlines_settingsAfter tree env (Config.rootFrame env options) source k
  have hinserted := lines_insertLine_settings source k h.isLine
  have him : Outlines tree env (Config.rootFrame env options)
      (line :: settingsAfter source k) (i ++ m) := outlines_append_iff.mpr ⟨i, m, hi, hm, rfl⟩
  have himdepth : (i ++ m).depth ≤ options.includeDepth.toNat := by
    rw [Reading.depth_append]
    omega
  have hkept : ¬ LapsesAt tree env options subject source k →
      outcome tree env options subject requireMatch (insertLine source k line)
        = outcome tree env options subject requireMatch source := by
    intro hnot
    refine outcome_congr hinserted (lines_eq_settings source k) him hm (by omega) ?_ himdepth
    intro t₁ t₃ h₁ h₃
    rw [enterAll_stanzas_append t₁, enterAll_stanzas_append t₁]
    exact enterAll_stanzas_kept hpauses hadds (closes_of_linesBeyond h₃)
      fun hlapses => hnot ⟨t₁, h₁, hlapses⟩
  have hlost : LapsesAt tree env options subject source k →
      outcome tree env options subject requireMatch (insertLine source k line)
        = outcome tree env options subject requireMatch (dropSettings source k) := by
    intro hlapsesAt
    -- The text without the rest has nothing in the middle at all.
    have hdropped := lines_dropSettings (take_ne_nil_of_lapsesAt hlapsesAt)
    obtain ⟨t, ht, hlapses⟩ := hlapsesAt
    refine outcome_congr hinserted hdropped him ⟨1, .done, .done, rfl⟩ (Nat.zero_le _) ?_
      himdepth
    intro t₁ t₃ h₁ h₃
    obtain rfl := h₁.unique ht
    rw [enterAll_stanzas_append t₁, enterAll_stanzas_append t₁]
    exact enterAll_stanzas_lost hpauses hadds (closes_of_linesBeyond h₃) hlapses
  refine ⟨⟨fun heq => ?_, fun hor => ?_⟩, hlost⟩
  · by_cases hlapses : LapsesAt tree env options subject source k
    · exact Or.inr ((hlost hlapses).symm.trans heq)
    · exact Or.inl hlapses
  · rcases hor with hnot | hdrop
    · exact hkept hnot
    · by_cases hlapses : LapsesAt tree env options subject source k
      · exact (hlost hlapses).trans hdrop
      · exact hkept hlapses

/-- A Host block with a file of comments included in its middle. -/
theorem outcome_insertLine_host :
    IsIdleInclude (FileTree.empty.write "/c/a" "# quiet\n\n") ⟨"/h", "u", "w", "/h/c"⟩ {}
        "  Include /c/a".toList
      ∧ (outcome (FileTree.empty.write "/c/a" "# quiet\n\n") ⟨"/h", "u", "w", "/h/c"⟩ {}
            ⟨"foo", ⟨"/h", "u", "w", "/h/c"⟩, none⟩ true
            (insertLine "Host foo\n  HostName bar\n  User x\n" 2 "  Include /c/a".toList)
          = outcome (FileTree.empty.write "/c/a" "# quiet\n\n") ⟨"/h", "u", "w", "/h/c"⟩ {}
            ⟨"foo", ⟨"/h", "u", "w", "/h/c"⟩, none⟩ true
            "Host foo\n  HostName bar\n  User x\n") := by
  have hidle : IsIdleInclude (FileTree.empty.write "/c/a" "# quiet\n\n")
      ⟨"/h", "u", "w", "/h/c"⟩ {} "  Include /c/a".toList := by
    refine ⟨by decide, ["/c/a"], ["/c/a"], by decide +kernel, by decide +kernel, by decide, ?_⟩
    intro file hfile
    obtain rfl := List.mem_singleton.mp hfile
    exact ⟨"# quiet\n\n", by decide +kernel, by decide +kernel⟩
  refine ⟨hidle, (outcome_insertLine hidle _ _ _ _).1.mpr (Or.inl ?_)⟩
  have htake : (lines "Host foo\n  HostName bar\n  User x\n".toList).take 2
      = ["Host foo".toList, "  HostName bar".toList] := by decide +kernel
  have hhost : Line.parse .nowhere "Host foo".toList = .ok (.heading (.host ["foo"])) := by
    decide +kernel
  have hname : Line.parse .nowhere "  HostName bar".toList
      = .ok (.directive ⟨"hostname", "HostName", "bar", ["bar"], .nowhere⟩) := by
    decide +kernel
  refine not_lapsesAt_of_isSteady fun t ht => ?_
  rw [htake] at ht
  obtain rfl := ht.unique (outlines_append_iff.mpr
    ⟨_, _, outlines_line hhost rfl, outlines_line hname rfl, rfl⟩)
  rfl

/-- A Match block that looks at the host name it sets: an Include line that brings nothing
    takes the user away. -/
theorem outcome_insertLine_ne :
    IsIdleInclude .empty ⟨"/h", "u", "w", "/h/c"⟩ {} "Include none/*".toList
      ∧ outcome .empty ⟨"/h", "u", "w", "/h/c"⟩ {} ⟨"foo", ⟨"/h", "u", "w", "/h/c"⟩, none⟩ false
          (insertLine "Match host foo\n  HostName bar\n  User x\n" 2 "Include none/*".toList)
        ≠ outcome .empty ⟨"/h", "u", "w", "/h/c"⟩ {} ⟨"foo", ⟨"/h", "u", "w", "/h/c"⟩, none⟩ false
          "Match host foo\n  HostName bar\n  User x\n" := by
  refine ⟨⟨by decide, ["none/*"], [], by decide +kernel, by decide +kernel, by decide, nofun⟩,
    fun heq => ?_⟩
  have huser := congrArg (fun o => (o.bind Except.toOption).map user) heq
  exact absurd huser (by decide +kernel)

end Settings

end SshDial
