import SshDial.Proofs.Config.Reading
import SshDial.Proofs.Proxy.Hop
import SshDial.Proofs.Proxy.Request
import SshDial.Proofs.Template
import SshDial.Proofs.Text.Lines

/-! # Jump commands — what a jump chain lets into a shell

    The command for a jump chain is made of words with single spaces between them.  All of
    them but one come out of the chain, where every hop has been checked, and a shell takes
    them as they stand.  The one is the address, the host name and the port: nobody has
    looked at the host name, and it is put in as it is.  So the command is as tame as the
    host name (`Proxy.isTameLine_command_iff`). -/

namespace SshDial

open SshDial.Text

/-- When a check of a whole list succeeds, each item has passed it. -/
theorem exists_of_mapM_eq_ok {ε α β : Type} {f : α → Except ε β} {as : List α} {bs : List β}
    (h : as.mapM f = .ok bs) : ∀ a ∈ as, ∃ b, f a = .ok b := by
  induction as generalizing bs with
  | nil => exact fun a ha => (nomatch ha)
  | cons a as ih =>
      rw [List.mapM_cons] at h
      obtain ⟨b, hb, h⟩ := bind_eq_ok_iff.mp h
      obtain ⟨rest, hrest, -⟩ := bind_eq_ok_iff.mp h
      exact List.forall_mem_cons.mpr ⟨⟨b, hb⟩, ih hrest⟩

namespace Template

variable {values : Values}

/-- A text without percent signs is kept, whatever follows it. -/
theorem expandChars_append_of_not_mem {s : List Char} (h : '%' ∉ s) (t : List Char) :
    expandChars values (s ++ t) = s ++ expandChars values t := by
  induction s with
  | nil => rfl
  | cons c s ih =>
      have hc : c ≠ '%' := fun heq => h (heq ▸ List.mem_cons_self)
      rw [List.cons_append, expandChars_cons hc, ih fun hs => h (List.mem_cons_of_mem c hs)]
      rfl

theorem expandChars_of_not_mem {s : List Char} (h : '%' ∉ s) : expandChars values s = s := by
  have happend : expandChars values (s ++ []) = s ++ expandChars values [] :=
    expandChars_append_of_not_mem h []
  rw [List.append_nil, expandChars, List.append_nil] at happend
  exact happend

/-- The text stands for the same whatever follows it. -/
def IsClosed (values : Values) (s : List Char) : Prop :=
  ∀ t, expandChars values (s ++ t) = expandChars values s ++ expandChars values t

theorem isClosed_of_not_mem {s : List Char} (h : '%' ∉ s) : IsClosed values s := by
  intro t
  rw [expandChars_append_of_not_mem h, expandChars_of_not_mem h]

/-- Words with a space between two of them are expanded one by one. -/
theorem expandChars_intercalate {ws : List (List Char)} (h : ∀ w ∈ ws, IsClosed values w) :
    expandChars values ([' '].intercalate ws)
      = [' '].intercalate (ws.map (expandChars values)) := by
  induction ws with
  | nil => rfl
  | cons w ws ih =>
      obtain ⟨hw, hws⟩ := List.forall_mem_cons.mp h
      cases ws with
      | nil => rw [List.map_singleton, List.intercalate_singleton, List.intercalate_singleton]
      | cons w' ws =>
          rw [List.map_cons, List.map_cons, List.intercalate_cons_cons,
            List.intercalate_cons_cons, List.append_assoc, hw, List.append_assoc,
            List.singleton_append, expandChars_cons (by decide), ih hws]
          rfl

end Template

namespace Proxy

/-- The characters that a shell gives a meaning of their own. -/
def shellMarks : List Char := ";&|<>()\x7b\x7d$`\\'\"*?!#~".toList

/-- A character that a shell takes as it stands, and no white space. -/
def isTame (c : Char) : Bool := !isBlank c && !shellMarks.contains c

/-- Is the text made of words of tame characters, with a single space between two of them? -/
def isTameLine (s : List Char) : Bool := (splitAt ' ' s).all fun w => !w.isEmpty && w.all isTame

/-- A word that a shell takes as it stands. -/
def IsTameWord (w : List Char) : Prop := w ≠ [] ∧ ∀ c ∈ w, isTame c = true

/-! ## Tame lines -/

theorem space_not_mem {w : List Char} (h : ∀ c ∈ w, isTame c = true) : ' ' ∉ w := fun hmem =>
  absurd (h ' ' hmem) (by decide)

/-- What a tame text adds to a line does not depend on the text. -/
theorem isTameLine_append {t u : List Char} (ht : IsTameWord t) (hu : IsTameWord u)
    (s : List Char) : isTameLine (s ++ t) = isTameLine (s ++ u) := by
  obtain ⟨ps, p, -, happend⟩ := exists_last_piece ' ' s
  have hpiece : ∀ w, IsTameWord w → (!(p ++ w).isEmpty && (p ++ w).all isTame) = p.all isTame := by
    intro w hw
    have hempty : (p ++ w).isEmpty = false :=
      List.isEmpty_eq_false_iff.mpr (List.append_ne_nil_of_right_ne_nil p hw.1)
    rw [hempty, List.all_append, List.all_eq_true.mpr hw.2, Bool.and_true]
    rfl
  rw [isTameLine, isTameLine, happend t (space_not_mem ht.2), happend u (space_not_mem hu.2),
    List.all_append, List.all_append]
  simp only [List.all_cons, List.all_nil, Bool.and_true, hpiece t ht, hpiece u hu]

theorem isTameLine_of_isTameWord {w : List Char} (h : IsTameWord w) : isTameLine w = true := by
  rw [isTameLine, splitAt_of_not_mem (space_not_mem h.2), List.all_cons, List.all_nil,
    Bool.and_true, Bool.and_eq_true, Bool.not_eq_true', List.isEmpty_eq_false_iff,
    List.all_eq_true]
  exact h

/-- A line is tame when its words are. -/
theorem isTameLine_intercalate {ws : List (List Char)} (hne : ws ≠ []) :
    isTameLine ([' '].intercalate ws) = ws.all isTameLine := by
  induction ws with
  | nil => exact absurd rfl hne
  | cons w ws ih =>
      cases ws with
      | nil =>
          rw [List.intercalate_singleton, List.all_cons, List.all_nil, Bool.and_true]
      | cons w' ws =>
          rw [List.intercalate_cons_cons, List.append_assoc, List.singleton_append, isTameLine,
            splitAt_append_cons, List.all_append, List.all_cons, ← ih (List.cons_ne_nil _ _)]
          rfl

/-! ## The words of a jump command -/

theorem isTame_of_isHopChar {c : Char} (h : Hop.isHopChar c = true) : isTame c = true := by
  have hmarks : (shellMarks.all fun c => !Hop.isHopChar c) = true := by decide
  have hothers : (['.', '+', '-', ':', '@', '[', ']', '/'].all fun c => !isBlank c) = true := by
    decide
  rw [isTame, Bool.and_eq_true]
  constructor
  · rw [Hop.isHopChar, isWordChar, Bool.or_eq_true, Bool.or_eq_true, beq_iff_eq] at h
    rcases h with (hword | rfl) | hother
    · rw [isBlank_of_isAlphanum hword]
      rfl
    · decide
    · exact List.all_eq_true.mp hothers c (List.contains_iff_mem.mp hother)
  · rw [Bool.not_eq_true', ← Bool.not_eq_true]
    intro hmark
    have hnone := List.all_eq_true.mp hmarks c (List.contains_iff_mem.mp hmark)
    rw [h] at hnone
    cases hnone

/-- A word of hop characters, and of commas where hops are listed. -/
def IsHopWord (w : List Char) : Prop := w ≠ [] ∧ ∀ c ∈ w, Hop.isHopChar c = true ∨ c = ','

theorem IsHopWord.isTameWord {w : List Char} (h : IsHopWord w) : IsTameWord w := by
  refine ⟨h.1, fun c hc => ?_⟩
  rcases h.2 c hc with hchar | rfl
  · exact isTame_of_isHopChar hchar
  · decide

theorem IsHopWord.percent_not_mem {w : List Char} (h : IsHopWord w) : '%' ∉ w := fun hmem =>
  absurd (h.2 '%' hmem) (by decide)

/-- Hops in a list make a single word. -/
theorem isHopWord_intercalate {hops : List (List Char)} (hne : hops ≠ [])
    (h : ∀ w ∈ hops, w ≠ [] ∧ ∀ c ∈ w, Hop.isHopChar c = true) :
    IsHopWord ([','].intercalate hops) := by
  induction hops with
  | nil => exact absurd rfl hne
  | cons w hops ih =>
      obtain ⟨hw, hhops⟩ := List.forall_mem_cons.mp h
      cases hops with
      | nil =>
          rw [List.intercalate_singleton]
          exact ⟨hw.1, fun c hc => Or.inl (hw.2 c hc)⟩
      | cons w' hops =>
          rw [List.intercalate_cons_cons, List.append_assoc]
          refine ⟨List.append_ne_nil_of_left_ne_nil hw.1 _, ?_⟩
          have hrest := (ih (List.cons_ne_nil _ _) hhops).2
          exact List.forall_mem_append.mpr ⟨fun c hc => Or.inl (hw.2 c hc),
            List.forall_mem_append.mpr ⟨List.forall_mem_singleton.mpr (Or.inr rfl), hrest⟩⟩

/-- The earlier hops as one word. -/
theorem toList_hopList (before : List (List Char)) :
    (",".intercalate (before.map String.ofList)).toList = [','].intercalate before := by
  rw [String.toList_intercalate, map_toList_ofList]
  rfl

/-- The words in front of the address. -/
def frontWords (before : List (List Char)) (last : Hop) : List String :=
  ["ssh"] ++
    (match last.user with
      | some user => ["-l", user]
      | none => []) ++
    (match last.port with
      | some port => ["-p", port]
      | none => []) ++
    (if before.isEmpty then [] else ["-J", ",".intercalate (before.map String.ofList)]) ++
    ["-W"]

theorem commandWords_eq (before : List (List Char)) (last : Hop) :
    Jump.commandWords before last = frontWords before last ++ ["%h:%p", last.host] := by
  rw [Jump.commandWords, frontWords, List.append_assoc _ ["-W"]]
  rfl

theorem isHopWord_frontWords {before : List (List Char)} {last : Hop} (hlast : last.IsChecked)
    (hbefore : ∀ w ∈ before, w ≠ [] ∧ ∀ c ∈ w, Hop.isHopChar c = true) :
    ∀ w ∈ frontWords before last, IsHopWord w.toList := by
  have hall : (["ssh", "-l", "-p", "-J", "-W"].all fun w =>
      !w.toList.isEmpty && w.toList.all Hop.isHopChar) = true := by
    decide
  have hmarks : ∀ w ∈ ["ssh", "-l", "-p", "-J", "-W"], IsHopWord w.toList := by
    intro w hw
    have hword := List.all_eq_true.mp hall w hw
    rw [Bool.and_eq_true, Bool.not_eq_true', List.isEmpty_eq_false_iff, List.all_eq_true] at hword
    exact ⟨hword.1, fun c hc => Or.inl (hword.2 c hc)⟩
  rw [frontWords]
  simp only [List.forall_mem_append]
  refine ⟨⟨⟨⟨?_, ?_⟩, ?_⟩, ?_⟩, ?_⟩
  · exact List.forall_mem_singleton.mpr (hmarks "ssh" (by decide))
  · cases huser : last.user with
    | none => exact fun w hw => (nomatch hw)
    | some user =>
        have hname : user.toList ≠ [] := by
          intro hempty
          have h := hlast.user user huser
          rw [hempty] at h
          exact nomatch h
        exact List.forall_mem_cons.mpr ⟨hmarks "-l" (by decide), List.forall_mem_singleton.mpr
          ⟨hname, fun c hc => Or.inl (hlast.isHopChar_user huser c hc)⟩⟩
  · cases hport : last.port with
    | none => exact fun w hw => (nomatch hw)
    | some port =>
        exact List.forall_mem_cons.mpr ⟨hmarks "-p" (by decide), List.forall_mem_singleton.mpr
          ⟨(hlast.port port hport).1, fun c hc => Or.inl (hlast.isHopChar_port hport c hc)⟩⟩
  · split
    · exact fun w hw => (nomatch hw)
    · rename_i hsome
      rw [List.isEmpty_iff] at hsome
      refine List.forall_mem_cons.mpr ⟨hmarks "-J" (by decide), List.forall_mem_singleton.mpr ?_⟩
      rw [toList_hopList]
      exact isHopWord_intercalate hsome hbefore
  · exact List.forall_mem_singleton.mpr (hmarks "-W" (by decide))

theorem isHopWord_host {h : Hop} (hh : h.IsChecked) : IsHopWord h.host.toList := by
  refine ⟨fun hempty => ?_, fun c hc => Or.inl (Hop.isHopChar_of_isHost hh.host c hc)⟩
  have hhost := hh.host
  rw [hempty] at hhost
  exact nomatch hhost

/-- The words that a chain gives come out of hops that have been checked. -/
theorem exists_of_words {jump : String} {ws : List String} (h : Jump.words jump = .ok ws) :
    ∃ before last, ws = Jump.commandWords before last ∧ last.IsChecked
      ∧ ∀ w ∈ before, w ≠ [] ∧ ∀ c ∈ w, Hop.isHopChar c = true := by
  have haccepted : ∀ {w hop}, Jump.hop w = .ok hop → Hop.ofChars? w = some hop := by
    intro w hop hw
    rw [Jump.hop] at hw
    split at hw
    · rename_i found hfound
      rw [hfound, Except.ok.inj hw]
    · exact nomatch hw
  have hnonempty : ∀ w ∈ Jump.hopTexts jump, w ≠ [] := by
    intro w hw hempty
    rw [Jump.hopTexts, List.mem_filter, hempty] at hw
    exact absurd hw.2 (by decide)
  rw [Jump.words] at h
  dsimp only at h
  split at h
  · exact nomatch h
  · rename_i text htext
    obtain ⟨hops, hbefore, h⟩ := bind_eq_ok_iff.mp h
    obtain ⟨last, hlast, h⟩ := bind_eq_ok_iff.mp h
    refine ⟨(Jump.hopTexts jump).dropLast, last, (Except.ok.inj h).symm,
      (Hop.exists_mark_of_ofChars? (haccepted hlast)).1, fun w hw => ?_⟩
    obtain ⟨hop, hhop⟩ := exists_of_mapM_eq_ok hbefore w hw
    exact ⟨hnonempty w ((List.dropLast_sublist _).subset hw),
      Hop.isHopChar_of_ofChars? (haccepted hhop)⟩

/-! ## The line of a jump chain -/

/-- The address stands for the values of its two letters, whatever follows it. -/
theorem isClosed_address (vs : Template.Values) : Template.IsClosed vs "%h:%p".toList := by
  have haddress : ∀ t, Template.expandChars vs ("%h:%p".toList ++ t)
      = Template.pair vs 'h' ++ ':' :: (Template.pair vs 'p' ++ Template.expandChars vs t) :=
    fun t => rfl
  intro t
  have hnil := haddress []
  rw [List.append_nil, Template.expandChars, List.append_nil] at hnil
  rw [haddress, hnil, List.append_assoc, List.cons_append]

/-- The line for a jump chain: words out of the chain, and the address among them. -/
theorem expand_jumpWords {before : List (List Char)} {last : Hop}
    (hfront : ∀ w ∈ frontWords before last, '%' ∉ w.toList) (hhost : '%' ∉ last.host.toList)
    (vs : Template.Values) :
    Template.expand vs (" ".intercalate (Jump.commandWords before last))
      = " ".intercalate (frontWords before last ++ [Template.expand vs "%h:%p"]
          ++ [last.host]) := by
  have hfixed : ∀ w : String, '%' ∉ w.toList →
      Template.expandChars vs w.toList = w.toList := fun w hw =>
    Template.expandChars_of_not_mem hw
  have hclosed : ∀ w ∈ (Jump.commandWords before last).map String.toList,
      Template.IsClosed vs w := by
    rw [commandWords_eq, List.forall_mem_map, List.forall_mem_append]
    exact ⟨fun w hw => Template.isClosed_of_not_mem (hfront w hw),
      List.forall_mem_cons.mpr ⟨isClosed_address vs,
        List.forall_mem_singleton.mpr (Template.isClosed_of_not_mem hhost)⟩⟩
  rw [Template.expand, String.toList_intercalate]
  refine String.toList_inj.mp ?_
  rw [String.toList_ofList, String.toList_intercalate]
  refine (Template.expandChars_intercalate hclosed).trans (congrArg [' '].intercalate ?_)
  rw [commandWords_eq, List.map_map, List.map_append, List.map_append, List.map_append,
    List.append_assoc]
  refine congrArg₂ (· ++ ·) (List.map_congr_left fun w hw => hfixed w (hfront w hw)) ?_
  show [Template.expandChars _ "%h:%p".toList, Template.expandChars _ last.host.toList] = _
  have hexpand : (Template.expand vs "%h:%p").toList
      = Template.expandChars vs "%h:%p".toList := String.toList_ofList
  rw [hfixed last.host hhost, List.map_singleton, List.map_singleton, List.singleton_append,
    hexpand]

/-- With a host name and a port for its letters the address is what a connection needs. -/
theorem expand_commandWords {before : List (List Char)} {last : Hop}
    (hfront : ∀ w ∈ frontWords before last, '%' ∉ w.toList) (hhost : '%' ∉ last.host.toList)
    (host : String) (port : Number) (user : String) (extra : Extra) :
    Template.expand (values host port user extra)
        (" ".intercalate (Jump.commandWords before last))
      = " ".intercalate (frontWords before last ++ [host ++ ":" ++ port.text] ++ [last.host]) := by
  have haddress : Template.expand (values host port user extra) "%h:%p"
      = host ++ ":" ++ port.text := by
    refine String.toList_inj.mp ?_
    rw [Template.expand, String.toList_ofList, String.toList_append, String.toList_append,
      List.append_assoc]
    show host.toList ++ ':' :: (port.text.toList ++ []) = _
    rw [List.append_nil]
    rfl
  rw [expand_jumpWords hfront hhost, haddress]

/-- The text of a port is its digits. -/
theorem isDigit_text {n : Number} (h : n.IsPort) :
    n.text.toList ≠ [] ∧ ∀ c ∈ n.text.toList, isDigit c = true := by
  obtain ⟨k, hlow, hhigh, rfl⟩ := h
  have hbound : k ≤ Number.exactBound := Nat.le_trans hhigh (by decide)
  rw [Number.text_natCast hbound]
  exact ⟨Number.toList_repr_ne_nil k, fun c hc => Number.isDigit_of_mem_repr hc⟩

/-- A line of tame words and an address is tame if the host name leaves it so. -/
theorem isTameLine_intercalate_address {front back : List String} {host : String} {port : Number}
    (h : ∀ w ∈ front ++ back, IsTameWord w.toList) (hport : port.IsPort) :
    isTameLine (" ".intercalate (front ++ [host ++ ":" ++ port.text] ++ back)).toList
      = isTameLine (host.toList ++ [':']) := by
  obtain ⟨hfront, hback⟩ := List.forall_mem_append.mp h
  obtain ⟨-, hdigits⟩ := isDigit_text hport
  have hall : ∀ ws : List String, (∀ w ∈ ws, IsTameWord w.toList) →
      (ws.map String.toList).all isTameLine = true := by
    intro ws hws
    rw [List.all_eq_true, List.forall_mem_map]
    exact fun w hw => isTameLine_of_isTameWord (hws w hw)
  have hmark : isTame ':' = true := by decide
  -- The colon and the port keep the last word of the host name going.
  have haddress : isTameLine (host ++ ":" ++ port.text).toList
      = isTameLine (host.toList ++ [':']) := by
    rw [String.toList_append, String.toList_append, List.append_assoc]
    refine isTameLine_append ⟨List.cons_ne_nil _ _, List.forall_mem_cons.mpr ⟨hmark, ?_⟩⟩
      ⟨List.cons_ne_nil _ _, List.forall_mem_singleton.mpr hmark⟩ host.toList
    exact fun c hc => isTame_of_isHopChar
      (Hop.isHopChar_of_isWordChar (Hop.isWordChar_of_isDigit (hdigits c hc)))
  rw [String.toList_intercalate, List.map_append, List.map_append]
  refine (isTameLine_intercalate ?_).trans ?_
  · exact List.append_ne_nil_of_left_ne_nil
      (List.append_ne_nil_of_right_ne_nil _ (List.cons_ne_nil _ _)) _
  · rw [List.all_append, List.all_append, hall front hfront, hall back hback, List.map_singleton,
      List.all_cons, List.all_nil, haddress, Bool.and_true, Bool.and_true, Bool.true_and]

/-- A command that is built has a port in it, and the host name as it was given. -/
theorem build_eq_ok {template host user : String} {port : Number} {extra : Extra} {line : String}
    (h : build template (.text host) (.number port) (.text user) extra = .ok line) :
    port.IsPort ∧ line = Template.expand (values host port user extra) template := by
  rw [build] at h
  split at h
  · cases h
  · rename_i hchecked
    obtain ⟨host', hhost, hchecked⟩ := bind_eq_ok_iff.mp hchecked
    obtain ⟨port', hport, hchecked⟩ := bind_eq_ok_iff.mp hchecked
    obtain ⟨user', huser, hchecked⟩ := bind_eq_ok_iff.mp hchecked
    obtain ⟨rfl, rfl, rfl⟩ : host' = _ ∧ port' = _ ∧ user' = _ := by
      simpa only [Prod.mk.injEq] using Except.ok.inj hchecked
    obtain ⟨rfl, hisPort⟩ := Check.isPort_of_port (Check.of_field hport)
    obtain rfl : user = user' := Except.ok.inj (Check.of_field huser)
    have hsome := Check.of_field hhost
    change (if host = "" then Except.error FieldFault.tooShort else .ok host) = _ at hsome
    split at hsome
    · cases hsome
    · obtain rfl := Except.ok.inj hsome
      exact ⟨hisPort, (Except.ok.inj h).symm⟩

/-- **A jump command is as tame as the host name in it.** Apart from the address the words
    come out of hops that have been checked, and no shell finds anything in them.  Nobody
    has checked the host name: the line is tame exactly if the host name leaves it so. -/
theorem isTameLine_command_iff {r : Settings} {env : Environment} {line : String}
    (hcommand : r.proxyCommand = none) (hline : command r env = .ok (some line)) :
    (isTameLine line.toList = true ↔ isTameLine (r.hostName.toList ++ [':']) = true)
      ∧ ∃ front back : List String, (∀ w ∈ front ++ back, IsTameWord w.toList)
        ∧ line = " ".intercalate (front ++ [r.hostName ++ ":" ++ r.port.text] ++ back) := by
  rw [command] at hline
  split at hline
  · cases hline
  · cases hline
  · rename_i s hspec
    -- Without a command the template comes out of a jump chain.
    rw [spec, hcommand, Option.filter_none] at hspec
    dsimp only at hspec
    split at hspec
    · rename_i jump hjump
      cases hwords : Jump.words jump with
      | error fault =>
          rw [Jump.command, hwords] at hspec
          cases hspec
      | ok ws =>
          rw [Jump.command, hwords] at hspec
          obtain rfl : Spec.mk (" ".intercalate ws) .jump = s :=
            Option.some.inj (Except.ok.inj hspec)
          obtain ⟨before, last, rfl, hlast, hbefore⟩ := exists_of_words hwords
          obtain ⟨_, hbuild, hsome⟩ := map_eq_ok_iff.mp hline
          obtain rfl := Option.some.inj hsome
          obtain ⟨hport, rfl⟩ := build_eq_ok hbuild
          have hfront := isHopWord_frontWords hlast hbefore
          have hback := isHopWord_host hlast
          have htame : ∀ w ∈ frontWords before last ++ [last.host], IsTameWord w.toList :=
            List.forall_mem_append.mpr ⟨fun w hw => (hfront w hw).isTameWord,
              List.forall_mem_singleton.mpr hback.isTameWord⟩
          have hline := expand_commandWords (fun w hw => (hfront w hw).percent_not_mem)
            hback.percent_not_mem r.hostName r.port r.user
            ⟨some r.host, some env.localUser, some env.localHostName, some env.homeDir⟩
          refine ⟨?_, frontWords before last, [last.host], htame, hline⟩
          rw [hline, isTameLine_intercalate_address htame hport]
    · cases hspec

/-- Two hops with users and ports, and a plain host name. -/
theorem isTameLine_command_iff_gate :
    ∃ c r line, (Config.parse .empty ⟨"/h", "u", "w", "/h/c"⟩ {}
          "Host web\n  HostName %h.lan\n  ProxyJump a@gate:2222,ssh://[::1]\n").value = .ok c
      ∧ Settings.find c ⟨"/h", "u", "w", "/h/c"⟩ {} "web" = .ok r ∧ r.proxyCommand = none
      ∧ command r ⟨"/h", "u", "w", "/h/c"⟩ = .ok (some line)
      ∧ line = "ssh -J a@gate:2222 -W web.lan:22 [::1]" ∧ isTameLine line.toList = true := by
  obtain ⟨c, r, hparse, hfind, hcommand, hname, hline⟩ : ∃ c r,
      (Config.parse .empty ⟨"/h", "u", "w", "/h/c"⟩ {}
          "Host web\n  HostName %h.lan\n  ProxyJump a@gate:2222,ssh://[::1]\n").value = .ok c
      ∧ Settings.find c ⟨"/h", "u", "w", "/h/c"⟩ {} "web" = .ok r ∧ r.proxyCommand = none
      ∧ r.hostName = "web.lan"
      ∧ command r ⟨"/h", "u", "w", "/h/c"⟩
        = .ok (some "ssh -J a@gate:2222 -W web.lan:22 [::1]") :=
    ⟨⟨[⟨.host ["web"], ⟨none, 1⟩,
        [⟨"hostname", "HostName", "%h.lan", ["%h.lan"], ⟨none, 2⟩⟩,
          ⟨"proxyjump", "ProxyJump", "a@gate:2222,ssh://[::1]",
            ["a@gate:2222,ssh://[::1]"], ⟨none, 3⟩⟩]⟩], []⟩,
      ⟨"web", "web.lan", 22, "u", [], [], none, some "a@gate:2222,ssh://[::1]",
        [("hostname", "%h.lan"), ("proxyjump", "a@gate:2222,ssh://[::1]")], true⟩,
      by decide +kernel, congrArg Except.ok (by decide +kernel), rfl, rfl,
      congrArg (fun line => Except.ok (some line)) (by decide +kernel)⟩
  have htame := (isTameLine_command_iff hcommand hline).1
  rw [hname] at htame
  exact ⟨c, r, _, hparse, hfind, hcommand, hline, rfl, htame.mpr (by decide)⟩

/-- A host name with a command behind it: the shell would run the command. -/
theorem command_of_hostName_with_semicolon :
    ∃ c r line, (Config.parse .empty ⟨"/h", "u", "w", "/h/c"⟩ {}
          "HostName web;id\nProxyJump bastion\n").value = .ok c
      ∧ Settings.find c ⟨"/h", "u", "w", "/h/c"⟩ {} "web" = .ok r
      ∧ r.proxyJump = some "bastion" ∧ r.proxyCommand = none
      ∧ command r ⟨"/h", "u", "w", "/h/c"⟩ = .ok (some line)
      ∧ line = "ssh -W web;id:22 bastion" ∧ isTameLine line.toList = false :=
  ⟨⟨[⟨.global, ⟨none, 0⟩,
      [⟨"hostname", "HostName", "web;id", ["web;id"], ⟨none, 1⟩⟩,
        ⟨"proxyjump", "ProxyJump", "bastion", ["bastion"], ⟨none, 2⟩⟩]⟩], []⟩,
    ⟨"web", "web;id", 22, "u", [], [], none, some "bastion",
      [("hostname", "web;id"), ("proxyjump", "bastion")], false⟩,
    _, by decide +kernel, congrArg Except.ok (by decide +kernel), rfl, rfl,
    congrArg (fun line => Except.ok (some line)) (by decide +kernel), rfl, by decide⟩

end Proxy

end SshDial
