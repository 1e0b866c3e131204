import Mathlib.Data.List.Basic
import SshDial.Proofs.Proxy.JumpCommand

/-! # Jump chains — which of them are accepted, and what becomes of their parts

    `Hop.Writes` is the form of a hop: perhaps a scheme mark, perhaps a user, a host, and
    perhaps a port.  A text has that form in one way at most (`Hop.Writes.unique`), and the
    hops that are accepted are those that have it (`Hop.ofChars?_eq_some_iff`).  So a chain
    makes a command exactly if it has a hop and each of its hops has the form
    (`Jump.command_grammar`). -/

namespace SshDial

open SshDial.Text

namespace Hop

/-! ## The form of a hop -/

/-- A word character, and then word characters and the other ones listed. -/
def IsName (others s : List Char) : Prop :=
  ∃ c rest, s = c :: rest ∧ isWordChar c = true ∧ ∀ d ∈ rest, isWordChar d = true ∨ d ∈ others

/-- A hexadecimal digit, or what stands between the parts of an address. -/
def IsAddressChar (c : Char) : Prop :=
  isDigit c = true ∨ ('a' ≤ c ∧ c ≤ 'f') ∨ ('A' ≤ c ∧ c ≤ 'F') ∨ c = ':' ∨ c = '.'

/-- A plain name, or an address in brackets. -/
inductive IsHost : List Char → Prop where
  | name {s : List Char} : IsName ['.', '-'] s → IsHost s
  | address {s : List Char} :
      s ≠ [] → (∀ c ∈ s, IsAddressChar c) → IsHost ('[' :: s ++ [']'])

/-- What stands in front of a hop: the scheme mark, or nothing. -/
def mark (marked : Bool) : List Char := if marked then "ssh://".toList else []

/-- The text writes the hop, behind the scheme mark or without it. -/
structure Writes (marked : Bool) (h : Hop) (s : List Char) : Prop where
  user : ∀ user ∈ h.user, IsName ['.', '+', '-'] user.toList
  host : IsHost h.host.toList
  port : ∀ port ∈ h.port, port.toList ≠ [] ∧ ∀ c ∈ port.toList, isDigit c = true
  text : s = mark marked ++ h.chars

theorem isName_iff {others s : List Char} : isName others s = true ↔ IsName others s := by
  cases s with
  | nil => exact iff_of_false nofun nofun
  | cons c rest =>
      rw [isName, Bool.and_eq_true, List.all_eq_true]
      constructor
      · intro h
        refine ⟨c, rest, rfl, h.1, fun d hd => ?_⟩
        exact (Bool.or_eq_true _ _ ▸ h.2 d hd).imp_right List.contains_iff_mem.mp
      · rintro ⟨_, _, heq, hc, hrest⟩
        obtain ⟨rfl, rfl⟩ := List.cons.inj heq
        refine ⟨hc, fun d hd => ?_⟩
        rw [Bool.or_eq_true]
        exact (hrest d hd).imp_right List.contains_iff_mem.mpr

theorem isAddress_iff {s : List Char} :
    isAddress s = true ↔ s ≠ [] ∧ ∀ c ∈ s, IsAddressChar c := by
  rw [isAddress, Bool.and_eq_true, Bool.not_eq_true', List.isEmpty_eq_false_iff, List.all_eq_true]
  refine and_congr_right fun _ => forall₂_congr fun c _ => ?_
  simp only [IsAddressChar, Bool.or_eq_true, Bool.and_eq_true, decide_eq_true_eq, beq_iff_eq,
    or_assoc]

/-- No word character is a bracket. -/
theorem IsName.head_ne {others s : List Char} (h : IsName others s) {d : Char}
    (hd : isWordChar d = false) : s.head? ≠ some d := by
  obtain ⟨c, rest, rfl, hc, -⟩ := h
  intro heq
  obtain rfl : c = d := Option.some.inj heq
  exact absurd hc (Bool.eq_false_iff.mp hd)

theorem isHost_iff {s : List Char} : isHost s = true ↔ IsHost s := by
  constructor
  · intro h
    rcases name_or_address_of_isHost h with hname | ⟨inner, hinner, rfl⟩
    · exact .name (isName_iff.mp hname)
    · obtain ⟨hne, hchars⟩ := isAddress_iff.mp hinner
      exact .address hne hchars
  · intro h
    cases h with
    | name hname =>
        unfold isHost
        split
        · exact absurd rfl (hname.head_ne (d := '[') (by decide))
        · exact isName_iff.mpr hname
    | @address s hne hs =>
        show ((s ++ [']']).getLast? == some ']' && isAddress (s ++ [']']).dropLast) = true
        rw [List.getLast?_concat, List.dropLast_concat, isAddress_iff.mpr ⟨hne, hs⟩]
        rfl

/-! ## Where the parts of a hop end -/

theorem IsName.not_mem {others s : List Char} (h : IsName others s) {d : Char}
    (hd : isWordChar d = false) (hothers : d ∉ others) : d ∉ s := by
  obtain ⟨c, rest, rfl, hc, hrest⟩ := h
  intro hmem
  rcases List.mem_cons.mp hmem with rfl | hmem
  · exact absurd hc (Bool.eq_false_iff.mp hd)
  · rcases hrest d hmem with hword | hother
    · exact absurd hword (Bool.eq_false_iff.mp hd)
    · exact hothers hother

/-- A character that an address cannot hold. -/
theorem not_mem_address {s : List Char} (h : ∀ c ∈ s, IsAddressChar c) {d : Char}
    (hd : ¬IsAddressChar d) : d ∉ s := fun hmem => hd (h d hmem)

instance (c : Char) : Decidable (IsAddressChar c) :=
  inferInstanceAs (Decidable (_ ∨ _ ∨ _ ∨ _ ∨ _))

theorem IsHost.not_mem {s : List Char} (h : IsHost s) {d : Char} (hd : isWordChar d = false)
    (hothers : d ∉ ['.', '-', '[', ']']) (haddress : ¬IsAddressChar d) : d ∉ s := by
  cases h with
  | name hname => exact hname.not_mem hd fun hmem => hothers (List.mem_append_left ['[', ']'] hmem)
  | @address s _ hs =>
      intro hmem
      rw [List.cons_append, List.mem_cons, List.mem_append, List.mem_singleton] at hmem
      rcases hmem with rfl | hmem | rfl
      · exact hothers (by decide)
      · exact haddress (hs d hmem)
      · exact hothers (by decide)

variable {marked : Bool} {h : Hop} {s : List Char}

theorem Writes.isChecked (hs : Writes marked h s) : h.IsChecked where
  user := fun user huser => isName_iff.mpr (hs.user user huser)
  host := isHost_iff.mpr hs.host
  port := hs.port

theorem not_mem_portChars (hs : Writes marked h s) {d : Char} (hd : isWordChar d = false)
    (hcolon : d ≠ ':') : d ∉ portChars h.port := by
  cases hport : h.port with
  | none => exact List.not_mem_nil
  | some port =>
      intro hmem
      rcases List.mem_cons.mp hmem with rfl | hmem
      · exact hcolon rfl
      · exact absurd (isWordChar_of_isDigit ((hs.port port hport).2 d hmem))
          (Bool.eq_false_iff.mp hd)

/-- Behind the scheme mark there is no slash. -/
theorem slash_not_mem (hs : Writes marked h s) : '/' ∉ h.chars := by
  rw [chars, List.mem_append, List.mem_append, not_or, not_or]
  refine ⟨⟨?_, hs.host.not_mem (by decide) (by decide) (by decide)⟩,
    not_mem_portChars hs (by decide) (by decide)⟩
  cases huser : h.user with
  | none => exact List.not_mem_nil
  | some user =>
      intro hmem
      rcases List.mem_append.mp hmem with hmem | hmem
      · exact (hs.user user huser).not_mem (by decide) (by decide) hmem
      · exact absurd (List.mem_singleton.mp hmem) (by decide)

theorem afterScheme_of_writes (hs : Writes marked h s) : afterScheme s = h.chars := by
  rw [hs.text, afterScheme]
  cases marked with
  | true =>
      rw [mark, if_pos rfl, if_pos (List.isPrefixOf_iff_prefix.mpr (List.prefix_append _ _))]
      exact List.drop_left' (by decide)
  | false =>
      have hprefix : ¬"ssh://".toList.isPrefixOf h.chars = true := by
        rw [List.isPrefixOf_iff_prefix]
        exact fun hpre => slash_not_mem hs (hpre.subset (by decide))
      rw [mark, if_neg Bool.false_ne_true, List.nil_append, if_neg hprefix]

theorem splitUser_of_writes (hs : Writes marked h s) :
    splitUser h.chars = (h.user, h.host.toList ++ portChars h.port) := by
  rw [splitUser, chars, List.append_assoc]
  cases huser : h.user with
  | none =>
      have hmark : '@' ∉ h.host.toList ++ portChars h.port := by
        rw [List.mem_append, not_or]
        exact ⟨hs.host.not_mem (by decide) (by decide) (by decide),
          not_mem_portChars hs (by decide) (by decide)⟩
      have hdrop := dropWhile_cut (v := []) (p := (· != '@'))
        (fun c hc => bne_iff_ne.mpr fun heq => hmark (heq ▸ hc)) (by simp)
      rw [List.append_nil] at hdrop
      rw [userChars, List.nil_append, hdrop]
  | some user =>
      have hall : ∀ c ∈ user.toList, (c != '@') = true := fun c hc =>
        bne_iff_ne.mpr fun heq =>
          (hs.user user huser).not_mem (by decide) (by decide) (heq ▸ hc)
      rw [userChars, List.append_assoc, dropWhile_cut hall (by simp), takeWhile_cut hall (by simp)]
      rw [List.singleton_append, String.ofList_toList]

theorem splitHost_of_close {text rest : List Char} {close : Char}
    (h : ('[' :: text).dropWhile (· != ']') = close :: rest) :
    splitHost ('[' :: text) = (('[' :: text).takeWhile (· != ']') ++ [close], rest) := by
  unfold splitHost
  rw [h]
  rfl

theorem splitHost_of_writes (hs : Writes marked h s) :
    splitHost (h.host.toList ++ portChars h.port) = (h.host.toList, portChars h.port) := by
  generalize hhost : h.host.toList = host
  have hform := hs.host
  rw [hhost] at hform
  cases hform with
  | name hname =>
      have hall : ∀ c ∈ host, (c != ':') = true := fun c hc =>
        bne_iff_ne.mpr fun heq => hname.not_mem (by decide) (by decide) (heq ▸ hc)
      have hstop : ∀ c ∈ (portChars h.port).head?, (c != ':') = false := by
        cases h.port with
        | none => exact nofun
        | some port => simp [portChars]
      obtain ⟨first, rest, rfl, hfirst, -⟩ := hname
      unfold splitHost
      split
      · rename_i heq
        obtain ⟨rfl, -⟩ := List.cons.inj heq
        exact absurd hfirst (by decide)
      · rw [dropWhile_cut hall hstop, takeWhile_cut hall hstop]
  | @address inner hne hinner =>
      have hall : ∀ c ∈ '[' :: inner, (c != ']') = true := by
        refine List.forall_mem_cons.mpr ⟨by decide, fun c hc => bne_iff_ne.mpr fun heq => ?_⟩
        exact not_mem_address hinner (by decide) (heq ▸ hc)
      have hstop : ∀ c ∈ (']' :: portChars h.port).head?, (c != ']') = false := by simp
      have hdrop := dropWhile_cut hall hstop
      have htake := takeWhile_cut hall hstop
      rw [List.cons_append] at hdrop htake
      rw [List.append_assoc, List.singleton_append, List.cons_append, splitHost_of_close hdrop,
        htake]

theorem port?_of_writes (hs : Writes marked h s) : port? (portChars h.port) = some h.port := by
  cases hport : h.port with
  | none => rfl
  | some port =>
      obtain ⟨hne, hdigits⟩ := hs.port port hport
      have hbad : ¬(port.toList.isEmpty || !port.toList.all isDigit) = true := by
        rw [List.isEmpty_eq_false_iff.mpr hne, List.all_eq_true.mpr hdigits]
        decide
      rw [portChars, port?, if_neg hbad, String.ofList_toList]

/-- What has the form is read as its parts. -/
theorem ofChars?_of_writes (hs : Writes marked h s) : ofChars? s = some h := by
  have hchecks : ((h.user.all fun u => isName ['.', '+', '-'] u.toList)
      && isHost h.host.toList) = true := by
    rw [Bool.and_eq_true, Option.all_eq_true]
    exact ⟨hs.isChecked.user, hs.isChecked.host⟩
  rw [ofChars?, afterScheme_of_writes hs, splitUser_of_writes hs]
  dsimp only
  rw [splitHost_of_writes hs]
  dsimp only
  rw [if_pos hchecks, port?_of_writes hs, String.ofList_toList]
  rfl

/-- **The accepted hops are those that have the form.** -/
theorem ofChars?_eq_some_iff : ofChars? s = some h ↔ ∃ marked, Writes marked h s := by
  constructor
  · intro hs
    obtain ⟨hchecked, scheme, hscheme, htext⟩ := exists_mark_of_ofChars? hs
    have hwrites : ∀ marked, scheme = mark marked → Writes marked h s := fun marked heq =>
      ⟨fun user huser => isName_iff.mp (hchecked.user user huser), isHost_iff.mp hchecked.host,
        hchecked.port, heq ▸ htext⟩
    rcases List.mem_cons.mp hscheme with hnone | hscheme
    · exact ⟨false, hwrites false hnone⟩
    · exact ⟨true, hwrites true (List.mem_singleton.mp hscheme)⟩
  · rintro ⟨marked, hs⟩
    exact ofChars?_of_writes hs

/-- **A text has the form in one way at most**: the mark is told by its slashes, and the
    parts by reading them. -/
theorem Writes.unique {marked' : Bool} {h' : Hop} (hs : Writes marked h s)
    (hs' : Writes marked' h' s) : marked = marked' ∧ h = h' := by
  have hmark : ∀ {m : Bool} {k : Hop}, Writes m k s → ('/' ∈ s ↔ m = true) := by
    intro m k hk
    rw [hk.text, List.mem_append]
    cases m with
    | true => exact iff_of_true (Or.inl (by decide)) rfl
    | false => exact iff_of_false (fun hmem => hmem.elim (by decide) (slash_not_mem hk)) nofun
  exact ⟨Bool.eq_iff_iff.mpr ((hmark hs).symm.trans (hmark hs')), Option.some.inj
    ((ofChars?_of_writes hs).symm.trans (ofChars?_of_writes hs'))⟩

/-- A hop never looks like an option. -/
theorem IsHost.head_ne (hs : IsHost s) : s.head? ≠ some '-' := by
  cases hs with
  | name hname => exact hname.head_ne (by decide)
  | address => simp

theorem Writes.head_ne (hs : Writes marked h s) : s.head? ≠ some '-' := by
  rw [hs.text, mark]
  cases marked with
  | true =>
      rw [if_pos rfl, List.head?_append_of_ne_nil _ (by decide)]
      decide
  | false =>
      rw [if_neg Bool.false_ne_true, List.nil_append, chars]
      cases huser : h.user with
      | some user =>
          have hname := hs.user user huser
          have hne : user.toList ≠ [] := by
            rintro hnil
            obtain ⟨c, rest, heq, -⟩ := hname
            exact List.cons_ne_nil c rest (heq.symm.trans hnil)
          rw [userChars, List.append_assoc, List.append_assoc, List.head?_append_of_ne_nil _ hne]
          exact hname.head_ne (by decide)
      | none =>
          have hne : h.host.toList ≠ [] := by
            intro hnil
            have hhost := isHost_iff.mpr hs.host
            rw [hnil] at hhost
            exact absurd hhost (by decide)
          rw [userChars, List.nil_append, List.head?_append_of_ne_nil _ hne]
          exact hs.host.head_ne

end Hop

namespace Jump

/-! ## Chains -/

/-- The text has the form of a hop. -/
def IsHop (s : List Char) : Prop := ∃ marked h, Hop.Writes marked h s

theorem isHop_iff {s : List Char} : IsHop s ↔ ∃ h, hop s = .ok h := by
  have hhop : ∀ h, hop s = .ok h ↔ Hop.ofChars? s = some h := by
    intro h
    rw [hop]
    cases Hop.ofChars? s with
    | none =>
        show Except.error _ = .ok h ↔ none = some h
        exact iff_of_false (by simp) (Option.some_ne_none h).symm
    | some k =>
        show Except.ok k = .ok h ↔ _
        rw [Except.ok.injEq, Option.some.injEq]
  rw [IsHop, exists_comm]
  exact exists_congr fun h => Hop.ofChars?_eq_some_iff.symm.trans (hhop h).symm

theorem hop_of_writes {s : List Char} {marked : Bool} {h : Hop} (hs : Hop.Writes marked h s) :
    hop s = .ok h := by
  rw [hop, Hop.ofChars?_of_writes hs]

theorem hop_of_not_isHop {s : List Char} (h : ¬IsHop s) :
    hop s = .error (.invalidHop (String.ofList s)) := by
  rw [isHop_iff, hop] at h
  rw [hop]
  cases hs : Hop.ofChars? s with
  | none => rfl
  | some k =>
      rw [hs] at h
      exact absurd ⟨k, rfl⟩ h

/-- A list of hops passes its check. -/
theorem mapM_hop_of_isHop {texts : List (List Char)} (h : ∀ s ∈ texts, IsHop s) :
    ∃ hops, texts.mapM hop = .ok hops := by
  induction texts with
  | nil => exact ⟨[], rfl⟩
  | cons s texts ih =>
      obtain ⟨hs, htexts⟩ := List.forall_mem_cons.mp h
      obtain ⟨first, hfirst⟩ := isHop_iff.mp hs
      obtain ⟨hops, hhops⟩ := ih htexts
      rw [List.mapM_cons, hfirst, hhops]
      exact ⟨first :: hops, rfl⟩

/-- A list with something else in it is refused for the first that is no hop. -/
theorem mapM_hop_of_not_isHop {good rest : List (List Char)} {s : List Char}
    (hgood : ∀ g ∈ good, IsHop g) (hs : ¬IsHop s) :
    (good ++ s :: rest).mapM hop = .error (.invalidHop (String.ofList s)) := by
  induction good with
  | nil =>
      rw [List.nil_append, List.mapM_cons, hop_of_not_isHop hs]
      rfl
  | cons g good ih =>
      obtain ⟨hg, hgood⟩ := List.forall_mem_cons.mp hgood
      obtain ⟨first, hfirst⟩ := isHop_iff.mp hg
      rw [List.cons_append, List.mapM_cons, hfirst, ih hgood]
      rfl

section Command

variable {jump : String} {before : List (List Char)} {lastText : List Char} {last : Hop}

theorem words_of_nil (h : hopTexts jump = []) : words jump = .error .noHosts := by
  rw [words, h]
  rfl

/-- A chain of hops gives the words of its command. -/
theorem words_of_isHop (h : hopTexts jump = before ++ [lastText])
    (hbefore : ∀ s ∈ before, IsHop s) (hlast : hop lastText = .ok last) :
    words jump = .ok (commandWords before last) := by
  obtain ⟨hops, hhops⟩ := mapM_hop_of_isHop hbefore
  rw [words]
  dsimp only
  rw [h, List.getLast?_concat, List.dropLast_concat]
  dsimp only
  rw [hhops, hlast]
  rfl

/-- A chain with something else in it is refused for the first that is no hop. -/
theorem words_of_not_isHop {good rest : List (List Char)} {s : List Char}
    (h : hopTexts jump = good ++ s :: rest) (hgood : ∀ g ∈ good, IsHop g) (hs : ¬IsHop s) :
    words jump = .error (.invalidHop (String.ofList s)) := by
  rw [words]
  dsimp only
  cases rest.eq_nil_or_concat with
  | inl hnil =>
      -- The last hop is checked by itself, after all the others.
      obtain ⟨hops, hhops⟩ := mapM_hop_of_isHop hgood
      rw [h, hnil, List.getLast?_concat, List.dropLast_concat]
      dsimp only
      rw [hhops, hop_of_not_isHop hs]
      rfl
  | inr hconcat =>
      obtain ⟨init, final, rfl⟩ := hconcat
      rw [h, List.concat_eq_append, ← List.cons_append, ← List.append_assoc, List.getLast?_concat,
        List.dropLast_concat]
      dsimp only
      rw [mapM_hop_of_not_isHop hgood hs]
      rfl

end Command

/-- The words of a command: `ssh`, the user and the port of the last hop, the earlier hops,
    and the address that the last hop is to pass on to. -/
def spelledWords (before : List (List Char)) (last : Hop) : List String :=
  ["ssh"] ++ last.user.elim [] (["-l", ·]) ++ last.port.elim [] (["-p", ·])
    ++ (if before = [] then [] else ["-J", ",".intercalate (before.map String.ofList)])
    ++ ["-W", "%h:%p", last.host]

/-- The line is the command that goes through the hops `before` to `last`. -/
structure IsCommand (before : List (List Char)) (last : Hop) (line : String) : Prop where
  words : splitAt ' ' line.toList = (spelledWords before last).map String.toList
  /-- No part of a hop can be taken for an option. -/
  user : ∀ user ∈ last.user, user.toList.head? ≠ some '-'
  port : ∀ port ∈ last.port, port.toList.head? ≠ some '-'
  hops : before ≠ [] → (",".intercalate (before.map String.ofList)).toList.head? ≠ some '-'
  host : last.host.toList.head? ≠ some '-'
  /-- Nothing but the address is a template. -/
  expand : ∀ values : Template.Values, Template.expand values line = " ".intercalate
    ((spelledWords before last).map fun w =>
      if w = "%h:%p" then Template.expand values w else w)

section IsCommand

variable {before : List (List Char)} {last : Hop}

theorem spelledWords_eq (before : List (List Char)) (last : Hop) :
    spelledWords before last = commandWords before last := by
  rw [spelledWords, commandWords]
  simp only [List.isEmpty_iff]
  cases last.user <;> cases last.port <;> rfl

/-- No word of the command has a space in it. -/
theorem space_not_mem (hlast : last.IsChecked)
    (hbefore : ∀ w ∈ before, w ≠ [] ∧ ∀ c ∈ w, Hop.isHopChar c = true) :
    ∀ w ∈ spelledWords before last, ' ' ∉ w.toList := by
  have hword : ∀ {w : List Char}, Proxy.IsHopWord w → ' ' ∉ w := fun hw hmem =>
    absurd (hw.2 ' ' hmem) (by decide)
  rw [spelledWords_eq, Proxy.commandWords_eq, List.forall_mem_append]
  exact ⟨fun w hw => hword (Proxy.isHopWord_frontWords hlast hbefore w hw),
    List.forall_mem_cons.mpr ⟨by decide,
      List.forall_mem_singleton.mpr (hword (Proxy.isHopWord_host hlast))⟩⟩

/-- The command for checked hops keeps every part of them. -/
theorem isCommand_of_writes {lastText : List Char} {marked : Bool}
    (hbefore : ∀ s ∈ before, IsHop s ∧ s ≠ []) (hlast : Hop.Writes marked last lastText) :
    IsCommand before last (" ".intercalate (commandWords before last)) := by
  have hchars : ∀ w ∈ before, w ≠ [] ∧ ∀ c ∈ w, Hop.isHopChar c = true := by
    intro w hw
    obtain ⟨⟨marked, h, hwrites⟩, hne⟩ := hbefore w hw
    exact ⟨hne, Hop.isHopChar_of_ofChars? (Hop.ofChars?_of_writes hwrites)⟩
  have hfront : ∀ w ∈ Proxy.frontWords before last, '%' ∉ w.toList := fun w hw =>
    (Proxy.isHopWord_frontWords hlast.isChecked hchars w hw).percent_not_mem
  have hhost : '%' ∉ last.host.toList := (Proxy.isHopWord_host hlast.isChecked).percent_not_mem
  constructor
  · have hspaces : ∀ w ∈ (spelledWords before last).map String.toList, ' ' ∉ w :=
      List.forall_mem_map.mpr (space_not_mem hlast.isChecked hchars)
    rw [← spelledWords_eq, String.toList_intercalate, splitAt_eq_splitOn]
    exact List.splitOn_intercalate ' ' hspaces (by simp [spelledWords])
  · exact fun user huser => (hlast.user user huser).head_ne (by decide)
  · intro port hport hdash
    obtain ⟨c, hc⟩ := List.head?_eq_some_iff.mp hdash
    exact absurd ((hlast.port port hport).2 '-' (hc ▸ List.mem_cons_self)) (by decide)
  · intro hne
    rw [Proxy.toList_hopList]
    obtain ⟨first, rest, rfl⟩ := List.exists_cons_of_ne_nil hne
    obtain ⟨⟨marked, h, hwrites⟩, hfirst⟩ := hbefore first List.mem_cons_self
    cases rest with
    | nil =>
        rw [List.intercalate_singleton]
        exact hwrites.head_ne
    | cons next rest =>
        rw [List.intercalate_cons_cons, List.append_assoc, List.head?_append_of_ne_nil _ hfirst]
        exact hwrites.head_ne
  · exact hlast.host.head_ne
  · intro values
    have hfixed : ∀ w : String, '%' ∉ w.toList → w ≠ "%h:%p" := by
      rintro w hw rfl
      exact hw (by decide)
    have hmap : (Proxy.frontWords before last).map
        (fun w => if w = "%h:%p" then Template.expand values w else w)
        = Proxy.frontWords before last :=
      (List.map_congr_left fun w hw => if_neg (hfixed w (hfront w hw))).trans (List.map_id' _)
    rw [Proxy.expand_jumpWords hfront hhost, spelledWords_eq, Proxy.commandWords_eq,
      List.map_append, hmap, List.map_cons, if_pos rfl, List.map_singleton,
      if_neg (hfixed _ hhost), List.append_assoc, List.singleton_append]

end IsCommand

/-- The hops of a chain are not empty. -/
theorem ne_nil_of_mem_hopTexts {jump : String} {s : List Char} (h : s ∈ hopTexts jump) :
    s ≠ [] := by
  rintro rfl
  rw [hopTexts, List.mem_filter] at h
  exact absurd h.2 (by decide)

/-- Either all texts of a list are hops, or there is a first that is none. -/
theorem isHop_or_exists_first (texts : List (List Char)) :
    (∀ s ∈ texts, IsHop s) ∨ ∃ good s rest, texts = good ++ s :: rest
      ∧ (∀ g ∈ good, IsHop g) ∧ ¬IsHop s := by
  induction texts with
  | nil => exact .inl nofun
  | cons s texts ih =>
      by_cases hs : IsHop s
      · rcases ih with hall | ⟨good, t, rest, rfl, hgood, ht⟩
        · exact .inl (List.forall_mem_cons.mpr ⟨hs, hall⟩)
        · exact .inr ⟨s :: good, t, rest, rfl, List.forall_mem_cons.mpr ⟨hs, hgood⟩, ht⟩
      · exact .inr ⟨[], s, texts, rfl, nofun, hs⟩

/-- The chain has hops, and all of them have the form. -/
def IsChain (jump : String) : Prop := hopTexts jump ≠ [] ∧ ∀ s ∈ hopTexts jump, IsHop s

theorem command_of_isChain {jump : String} (h : IsChain jump) :
    ∃ line before lastText marked last, command jump = .ok line
      ∧ hopTexts jump = before ++ [lastText]
      ∧ Hop.Writes marked last lastText ∧ IsCommand before last line := by
  obtain ⟨hne, hall⟩ := h
  obtain ⟨before, lastText, hjump⟩ := (List.eq_nil_or_concat' _).resolve_left hne
  rw [hjump, List.forall_mem_append, List.forall_mem_singleton] at hall
  obtain ⟨hbefore, marked, last, hwrites⟩ := hall
  have hwords := words_of_isHop hjump hbefore (hop_of_writes hwrites)
  refine ⟨_, before, lastText, marked, last, by rw [command, hwords]; rfl, hjump, hwrites, ?_⟩
  refine isCommand_of_writes (fun s hs => ⟨hbefore s hs, ?_⟩) hwrites
  exact ne_nil_of_mem_hopTexts (hjump ▸ List.mem_append_left [lastText] hs)

theorem command_of_not_isChain {jump : String} (h : ¬IsChain jump) :
    ∃ fault, command jump = .error fault := by
  rcases isHop_or_exists_first (hopTexts jump) with hall | ⟨good, s, rest, hjump, hgood, hs⟩
  · have hnil : hopTexts jump = [] := by_contra fun hne => h ⟨hne, hall⟩
    exact ⟨.noHosts, by rw [command, words_of_nil hnil]; rfl⟩
  · exact ⟨_, by rw [command, words_of_not_isHop hjump hgood hs]; rfl⟩

theorem isChain_of_command {jump line : String} (h : command jump = .ok line) : IsChain jump := by
  by_contra hchain
  obtain ⟨fault, hfault⟩ := command_of_not_isChain hchain
  exact nomatch h.symm.trans hfault

/-- All that can be wrong with a chain is its form. -/
theorem code_failure (fault : JumpFault) : fault.failure.code.text = "ESYNTAX" := by
  cases fault <;> rfl

/-- **Chains of hops, and nothing else, make a command, and it keeps every part of them.** -/
theorem command_grammar (jump : String) :
    ((∃ line, command jump = .ok line) ↔ IsChain jump)
    ∧ (∀ s marked h marked' h', Hop.Writes marked h s → Hop.Writes marked' h' s →
        marked = marked' ∧ h = h')
    ∧ (¬IsChain jump
      ↔ ∃ fault, command jump = .error fault ∧ fault.failure.code.text = "ESYNTAX")
    ∧ ∀ line, command jump = .ok line →
        ∃ before lastText marked last, hopTexts jump = before ++ [lastText]
          ∧ Hop.Writes marked last lastText ∧ IsCommand before last line := by
  refine ⟨⟨?_, ?_⟩, fun _ _ _ _ _ hs hs' => hs.unique hs', ⟨?_, ?_⟩, ?_⟩
  · rintro ⟨line, hline⟩
    exact isChain_of_command hline
  · intro hchain
    obtain ⟨line, _, _, _, _, hline, -⟩ := command_of_isChain hchain
    exact ⟨line, hline⟩
  · intro hchain
    obtain ⟨fault, hfault⟩ := command_of_not_isChain hchain
    exact ⟨fault, hfault, code_failure fault⟩
  · rintro ⟨fault, hfault, -⟩ hchain
    obtain ⟨line, _, _, _, _, hline, -⟩ := command_of_isChain hchain
    exact nomatch hline.symm.trans hfault
  · intro line hline
    obtain ⟨line', before, lastText, marked, last, hline', hparts⟩ :=
      command_of_isChain (isChain_of_command hline)
    obtain rfl : line = line' := Except.ok.inj (hline.symm.trans hline')
    exact ⟨before, lastText, marked, last, hparts⟩

end Jump

end SshDial
