import SshDial.Proofs.Config.Assignment
import SshDial.Proofs.Config.Comment
import SshDial.Proofs.Config.Expansion

/-! # Values — the text of a directive beside its words

    A directive of several words holds them twice: as they were read, and as the text they
    were read from, which ends where a comment begins and is trimmed at its end.  Spaces
    and tabs separate words, trimming takes away more: white space of any other kind in
    front of a comment belongs to the last word, or is a word, and the text has lost it.
    `Config.arguments_value` says when reading the text again gives the same words. -/

namespace SshDial

open SshDial.Text

variable {tree : FileTree} {env : Environment}

/-- The text that a line gives its keyword. -/
def Line.valueText (l : List Char) : List Char := trim (restOf (trim l))

theorem Line.valueOf_of_many {words : Words} (h : 1 < words.args.length) :
    valueOf words = String.ofList (trimEnd words.body.toList) := by
  rw [valueOf]
  split
  · rename_i arg harg
    rw [harg] at h
    exact absurd h (Nat.lt_irrefl 1)
  · rfl

/-- The text of several words ends where their comment begins, or earlier by some white
    space. -/
theorem Line.value_of_parse {o : Origin} {l : List Char} {d : Directive}
    (h : parse o l = .ok (.directive d)) (hcommand : d.key ≠ "proxycommand")
    (hmany : 1 < d.args.length) :
    ∃ cut comment, valueText l = d.value.toList ++ cut ++ comment ∧ IsWhite cut
      ∧ (comment = [] ∧ cut = [] ∨ comment.head? = some '#')
      ∧ Words.scan none none (d.value.toList ++ cut) = some (d.args.map String.toList, []) := by
  have hassigns := assigns_of_parse h (nomatch ·)
  have hsays := hassigns.meaning
  generalize hdirective : Line.directive d = content at hsays
  cases hsays with
  | command =>
      obtain rfl := Line.directive.inj hdirective
      exact absurd rfl hcommand
  | @words words _ _ hwords hof =>
      obtain rfl := hdirective
      obtain ⟨-, -, -, -, rfl⟩ := ofWords_eq_directive_iff.mp hof
      obtain ⟨ss, text, comment, hscan, htext, rfl⟩ := Words.ofText?_eq_some_iff.mp hwords
      obtain ⟨body, hbody, hscanBody, hkind⟩ := Words.scan_body hscan
      obtain rfl : text = body := List.append_cancel_right (htext.symm.trans hbody)
      rw [valueOf_of_many hmany]
      simp only [String.toList_ofList, map_toList_ofList]
      rcases hkind with rfl | hhash
      · -- Without a comment the text is the whole trimmed value.
        rw [List.append_nil] at hbody
        have hsnug : IsSnug text := hbody ▸ isSnug_trim hassigns.valued
        refine ⟨[], [], ?_, List.forall_mem_nil _, Or.inl ⟨rfl, rfl⟩, ?_⟩
        · simpa [valueText, trimEnd_of_last hsnug.last] using hbody
        · simpa [trimEnd_of_last hsnug.last] using hscanBody
      · obtain ⟨cut, hcut, hsplit⟩ := exists_trimEnd_append text
        refine ⟨cut, comment, ?_, hcut, Or.inr hhash, ?_⟩
        · rw [← hsplit]
          exact hbody
        · rw [← hsplit]
          exact hscanBody

namespace Config

/-- **The text of several words and the words agree but for white space that is cut off.**
    On the line of a directive with two words or more, other than a proxy command, the
    value is followed by some white space and then by a comment, or by nothing at all.
    Reading the value again succeeds; what it finds lacks just the characters cut off that
    are neither spaces nor tabs, and so are the words of the directive exactly if there are
    none. -/
theorem arguments_value {options : ReadOptions} {source : String} {c : Config}
    (h : (parse tree env options source).value = .ok c) {stanza : Stanza}
    (hstanza : stanza ∈ c.stanzas) {d : Directive} (hd : d ∈ stanza.directives)
    (hcommand : d.key ≠ "proxycommand") (hmany : 2 ≤ d.args.length) (place : Details) :
    ∃ l cut comment args, IsLineAt tree (rootFrame env options) source d.origin l
      ∧ Line.parse d.origin l = .ok (.directive d)
      ∧ Line.valueText l = d.value.toList ++ cut ++ comment ∧ IsWhite cut
      ∧ (comment = [] ∧ cut = [] ∨ comment.head? = some '#')
      ∧ Words.arguments place d.value = .ok args
      ∧ (d.args.map String.toList).flatten
        = (args.map String.toList).flatten ++ cut.filter (fun c => !Words.isGap c)
      ∧ (args = d.args ↔ Words.IsGaps cut) := by
  obtain ⟨l, hl, hparse⟩ := line_of_directive h hstanza hd
  obtain ⟨cut, comment, hvalue, hcut, hcomment, hscan⟩ :=
    Line.value_of_parse hparse hcommand hmany
  obtain ⟨ss, hss, hflat, hiff⟩ := Words.scan_append_white hcut hscan
  refine ⟨l, cut, comment, ss.map String.ofList, hl, hparse, hvalue, hcut, hcomment, ?_, ?_, ?_⟩
  · exact Words.arguments_of_spells (Words.spells_iff_scan.mpr ⟨[], hss⟩) place
  · rw [map_toList_ofList]
    exact hflat
  · rw [← hiff]
    constructor
    · intro heq
      rw [← heq, map_toList_ofList]
    · intro heq
      rw [heq, map_ofList_toList]

/-- Two words with a comment behind them, of which only a tab is cut off. -/
theorem arguments_value_sendEnv :
    (parse FileTree.empty ⟨"/h", "u", "w", "/h/c"⟩ {} "SendEnv A  'B C'\t#x").value
        = .ok ⟨[⟨.global, ⟨none, 0⟩, [⟨"sendenv", "SendEnv", "A  'B C'", ["A", "B C"],
            ⟨none, 1⟩⟩]⟩], []⟩
      ∧ ∃ l cut comment args, IsLineAt FileTree.empty ⟨none, "/h/.ssh"⟩
          "SendEnv A  'B C'\t#x" ⟨none, 1⟩ l
        ∧ Line.parse ⟨none, 1⟩ l = .ok (.directive
            ⟨"sendenv", "SendEnv", "A  'B C'", ["A", "B C"], ⟨none, 1⟩⟩)
        ∧ Line.valueText l = "A  'B C'".toList ++ cut ++ comment ∧ IsWhite cut
        ∧ (comment = [] ∧ cut = [] ∨ comment.head? = some '#')
        ∧ Words.arguments {} "A  'B C'" = .ok args
        ∧ (["A", "B C"].map String.toList).flatten
          = (args.map String.toList).flatten ++ cut.filter (fun c => !Words.isGap c)
        ∧ (args = ["A", "B C"] ↔ Words.IsGaps cut) := by
  have hparse : (parse FileTree.empty ⟨"/h", "u", "w", "/h/c"⟩ {} "SendEnv A  'B C'\t#x").value
      = .ok ⟨[⟨.global, ⟨none, 0⟩, [⟨"sendenv", "SendEnv", "A  'B C'", ["A", "B C"],
          ⟨none, 1⟩⟩]⟩], []⟩ := by
    decide +kernel
  exact ⟨hparse, arguments_value hparse List.mem_cons_self List.mem_cons_self (by decide)
    (by decide) {}⟩

/-- A no-break space in front of a comment is part of the last word, and no part of the
    value. -/
theorem arguments_value_no_break :
    ∃ c, (parse FileTree.empty ⟨"/h", "u", "w", "/h/c"⟩ {} "Foo a b\u00a0 #c\n").value = .ok c
      ∧ ∃ stanza ∈ c.stanzas, ∃ d ∈ stanza.directives,
        d.key ≠ "proxycommand" ∧ 2 ≤ d.args.length ∧ d.args = ["a", "b\u00a0"]
          ∧ Words.arguments {} d.value = .ok ["a", "b"]
          ∧ Words.arguments {} d.value ≠ .ok d.args := by
  refine ⟨⟨[⟨.global, ⟨none, 0⟩, [⟨"foo", "Foo", "a b", ["a", "b\u00a0"], ⟨none, 1⟩⟩]⟩], []⟩,
    by decide +kernel, _, List.mem_cons_self, _, List.mem_cons_self, ?_⟩
  refine ⟨by decide, by decide, rfl, rfl, fun h => ?_⟩
  exact absurd (Except.ok.inj h) (by decide)

end Config

end SshDial
