import SshDial.Proofs.Log.Fence
import SshDial.Proofs.Log.Named

/-! # Texts with a key block — the passes for names, and the pass for key blocks

    The passes for names leave a text with a key block such a text, if no name stands open
    before one of its fences (`KeyBlock.hide_name`).  The pass for key blocks then takes the
    content away: either it comes to stand before the block and takes all of it, or a fence
    before the block is closed behind the content (`KeyBlock.only_hideBlock`). -/

namespace SshDial.Secret

open SshDial.Text

/-- A text with a key block in it. -/
structure KeyBlock where
  before : List Char
  label : List Char
  content : List Char
  after : List Char
  label_ne_nil : label ≠ []
  label_free : '-' ∉ label
  content_free : '-' ∉ content

namespace KeyBlock

variable (m : KeyBlock)

/-- What stands between the dashes of the first line. -/
def first : List Char := "BEGIN ".toList ++ m.label

/-- The text behind the dashes that the last line begins with. -/
def last : List Char := "END ".toList ++ (m.label ++ (dashes ++ m.after))

/-- The text behind the dashes that the first line begins with. -/
def inner : List Char := m.first ++ (dashes ++ (m.content ++ (dashes ++ m.last)))

def text : List Char := m.before ++ (dashes ++ m.inner)

/-- The text without the content of the block. -/
def shell : List Char := m.before ++ (dashes ++ (m.first ++ (dashes ++ (dashes ++ m.last))))

theorem first_free : '-' ∉ m.first := by
  intro hmem
  rcases List.mem_append.mp hmem with hmem | hmem
  · exact absurd hmem (by decide)
  · exact m.label_free hmem

/-- A word, a blank and the label make a fence. -/
theorem dropFence_labelled {word : String} {k : List Char} (hk : k.map Char.toLower = word.toList)
    (rest : List Char) :
    dropFence word (dashes ++ (k ++ (' ' :: m.label ++ (dashes ++ rest)))) = some rest := by
  refine dropFence_eq_some_iff.mpr ⟨k, ' ' :: m.label, rfl, hk, List.cons_ne_nil _ _, ?_⟩
  intro hmem
  rcases List.mem_cons.mp hmem with hmem | hmem
  · exact absurd hmem (by decide)
  · exact m.label_free hmem

theorem dropFence_last : dropFence "end" (dashes ++ m.last) = some m.after :=
  m.dropFence_labelled (k := "END".toList) (by decide) m.after

theorem dropFence_first :
    dropFence "begin" (dashes ++ m.inner) = some (m.content ++ (dashes ++ m.last)) :=
  m.dropFence_labelled (k := "BEGIN".toList) (by decide) (m.content ++ (dashes ++ m.last))

theorem after_suffix_last : m.after <:+ m.last := by
  refine List.IsSuffix.trans ?_ (List.suffix_append _ _)
  exact (List.suffix_append dashes m.after).trans (List.suffix_append m.label _)

/-- From the content on the search ends behind the content. -/
theorem dropToEnd_content : dropToEnd (m.content ++ (dashes ++ m.last)) = some m.after := by
  rw [dropToEnd_free m.content_free]
  exact dropToEnd_of_some m.dropFence_last

/-- From the dashes before the content on, too: all of the content can be the word and the
    label of a last line. -/
theorem dropToEnd_dashes (hne : m.content ≠ []) {rest : List Char}
    (h : dropToEnd (dashes ++ (m.content ++ (dashes ++ m.last))) = some rest) :
    rest <:+ m.last := by
  have hcontent : ∀ c ∈ (m.content ++ (dashes ++ m.last)).head?, c ≠ '-' := by
    obtain ⟨d, x, hx⟩ := List.exists_cons_of_ne_nil hne
    intro c hc hdash
    rw [hx] at hc
    obtain rfl := Option.some.inj hc
    refine m.content_free ?_
    rw [hx, hdash]
    exact List.mem_cons_self
  cases hfence : dropFence "end" (dashes ++ (m.content ++ (dashes ++ m.last))) with
  | none =>
      have hfew : IsFew (List.replicate 4 '-') := ⟨'-', [], rfl⟩
      have hnext : dropToEnd (dashes ++ (m.content ++ (dashes ++ m.last)))
          = dropToEnd (List.replicate 4 '-' ++ (m.content ++ (dashes ++ m.last))) :=
        dropToEnd_of_none hfence
      rw [hnext, SshDial.Secret.dropToEnd_few hfew hcontent, dropToEnd_content] at h
      obtain rfl := Option.some.inj h
      exact m.after_suffix_last
  | some r =>
      have hhere : dropToEnd (dashes ++ (m.content ++ (dashes ++ m.last))) = some r :=
        dropToEnd_of_some hfence
      rw [hhere] at h
      obtain rfl := Option.some.inj h
      obtain ⟨k, label, heq, hk, -, hfree⟩ := dropFence_eq_some_iff.mp hfence
      have hkfree : '-' ∉ k ++ label := by
        intro hmem
        rcases List.mem_append.mp hmem with hmem | hmem
        · have hword : ('-' : Char).toLower ∈ "end".toList := by
            rw [← hk]
            exact List.mem_map_of_mem hmem
          exact absurd hword (by decide)
        · exact hfree hmem
      have hsplit : m.content ++ (dashes ++ m.last) = (k ++ label) ++ (dashes ++ r) := by
        rw [List.append_cancel_left heq, List.append_assoc]
      obtain ⟨-, hlast⟩ := cut_at_dash m.content_free hkfree hsplit
      have hsame : m.last = r := (List.append_right_inj (List.replicate 4 '-')).mp hlast
      exact hsame ▸ List.suffix_refl m.last

theorem head_inner : ∀ c ∈ m.inner.head?, c = 'B' := by
  intro c hc
  exact (Option.some.inj hc).symm

/-- From within the first line on, too. -/
theorem dropToEnd_few (hne : m.content ≠ []) {few rest : List Char} (hfew : IsFew few)
    (h : dropToEnd (few ++ m.inner) = some rest) : rest <:+ m.last := by
  have hhead : ∀ c ∈ m.inner.head?, c ≠ '-' := by
    intro c hc
    rw [m.head_inner c hc]
    decide
  rw [SshDial.Secret.dropToEnd_few hfew hhead, inner, dropToEnd_free m.first_free] at h
  exact m.dropToEnd_dashes hne h

theorem dropToEnd_inner (hne : m.content ≠ []) {rest : List Char}
    (h : dropToEnd (dashes ++ m.inner) = some rest) : rest <:+ m.last := by
  have hnone : dropFence "end" (dashes ++ m.inner) = none := by
    refine Option.eq_none_iff_forall_ne_some.mpr fun r hsome => ?_
    obtain ⟨k, label, heq, hk, -⟩ := dropFence_eq_some_iff.mp hsome
    have hinner := List.append_cancel_left heq
    cases k with
    | nil => exact nomatch hk
    | cons c k =>
        have hc : c = 'B' := m.head_inner c (by rw [hinner]; rfl)
        obtain ⟨hlower, -⟩ := List.cons.inj hk
        rw [hc] at hlower
        exact absurd hlower (by decide)
  have hnext : dropToEnd (dashes ++ m.inner)
      = dropToEnd (List.replicate 4 '-' ++ m.inner) := dropToEnd_of_none hnone
  rw [hnext] at h
  exact m.dropToEnd_few hne ⟨'-', [], rfl⟩ h

/-- What is taken off before the block ends before it or behind the content. -/
theorem dropBlock_before (hne : m.content ≠ []) {c : Char} {s rest : List Char}
    (hs : ¬ OpensFence "end" (c :: s))
    (h : dropBlock (c :: s ++ (dashes ++ m.inner)) = some rest) :
    (∃ r, r <:+ s ∧ rest = r ++ (dashes ++ m.inner)) ∨ rest <:+ m.last := by
  rw [dropBlock] at h
  obtain ⟨t, hfence, hend⟩ := Option.bind_eq_some_iff.mp h
  rcases dropFence_append (List.cons_ne_nil c s) (fun i => clashes_fence (Or.inl rfl)) hfence with
    ⟨u, r, hu, heq, rfl⟩ | ⟨-, few, hfew, rfl⟩
  · obtain ⟨d, u, rfl⟩ := List.exists_cons_of_ne_nil hu
    obtain ⟨rfl, rfl⟩ := List.cons.inj heq
    have hr : ¬ OpensFence "end" r :=
      fun hopen => hs (hopen.of_suffix (List.suffix_append (c :: u) r))
    rcases dropToEnd_append hr hend with ⟨v, r, rfl, hrest⟩ | hinner
    · left
      refine ⟨r, ?_, hrest⟩
      exact (List.suffix_append v r).trans (List.suffix_append u (v ++ r))
    · exact Or.inr (m.dropToEnd_inner hne hinner)
  · exact Or.inr (m.dropToEnd_few hne hfew hend)

/-- The pass for key blocks comes to stand behind the content, whatever it has taken off
    before. -/
theorem passes_block (hne : m.content ≠ []) (s : List Char) (hs : ¬ OpensFence "end" s) :
    ∃ out rest, Passes dropBlock (s ++ (dashes ++ m.inner)) out rest ∧ Only s out
      ∧ rest <:+ m.last := by
  induction hlen : s.length using Nat.strongRecOn generalizing s with
  | ind len ih =>
      subst hlen
      cases s with
      | nil =>
          have hdrop : dropBlock (dashes ++ m.inner) = some m.after := by
            rw [dropBlock, m.dropFence_first]
            exact m.dropToEnd_content
          refine ⟨mask ++ [], m.after, .hide hdrop ?_ (.done _), ?_, m.after_suffix_last⟩
          · exact (consumes_dropBlock _ _ _ hdrop).length_le
          · exact (only_mask _).append (only_nil _)
      | cons c s =>
          cases hdrop : dropBlock (c :: s ++ (dashes ++ m.inner)) with
          | none =>
              have hlater : ¬ OpensFence "end" s :=
                fun hopen => hs (hopen.of_suffix (List.suffix_cons c s))
              obtain ⟨out, rest, hpass, honly, hsuffix⟩ :=
                ih s.length (Nat.lt_succ_self _) s hlater rfl
              refine ⟨c :: out, rest, .copy hdrop hpass, ?_, hsuffix⟩
              exact (honly.mono (List.subset_cons_self c s)).cons (Or.inl List.mem_cons_self)
          | some t =>
              have hlen := (consumes_dropBlock _ _ _ hdrop).length_le
              rcases m.dropBlock_before hne hs hdrop with ⟨r, hr, rfl⟩ | hsuffix
              · have hlater : ¬ OpensFence "end" r :=
                  fun hopen => hs (hopen.of_suffix (hr.trans (List.suffix_cons c s)))
                obtain ⟨out, rest, hpass, honly, hsuffix⟩ :=
                  ih r.length (Nat.lt_succ_of_le hr.length_le) r hlater rfl
                refine ⟨mask ++ out, rest, .hide hdrop hlen hpass, ?_, hsuffix⟩
                exact (only_mask _).append (honly.mono (hr.trans (List.suffix_cons c s)).subset)
              · refine ⟨mask ++ [], t, .hide hdrop hlen (.done t), ?_, hsuffix⟩
                exact (only_mask _).append (only_nil _)

/-- The pass for key blocks takes the content away. -/
theorem only_hideBlock (h : ¬ OpensFence "end" m.before) :
    Only m.shell (hideAll dropBlock m.text) := by
  by_cases hne : m.content = []
  · refine only_hideAll consumes_dropBlock fun c hc => Or.inl ?_
    have hsame : m.text = m.shell := by
      rw [text, inner, hne]
      rfl
    exact hsame ▸ hc
  · obtain ⟨out, rest, hpass, honly, hsuffix⟩ := m.passes_block hne m.before h
    have hlast : m.last <:+ m.shell := by
      refine ⟨m.before ++ (dashes ++ (m.first ++ (dashes ++ dashes))), ?_⟩
      simp only [shell, List.append_assoc]
    rw [text, hpass.hideAll_eq]
    refine (honly.mono (List.subset_append_left _ _)).append ?_
    exact only_hideAll consumes_dropBlock ((only_self _).of_suffix (hsuffix.trans hlast))

/-! ## The passes for names -/

/-- The pass for a name leaves such a text if the name stands open before no fence. -/
theorem hide_name {n : String} (hn : n ∈ names) (hbefore : ¬ Opens n m.before)
    (hlabel : ¬ Opens n m.label) (hcontent : ¬ Opens n m.content) :
    ∃ m' : KeyBlock, hideAll (dropNamed n) m.text = m'.text
      ∧ m'.before = hideAll (dropNamed n) m.before ∧ Masked m.before m'.before
      ∧ Masked m.label m'.label ∧ Masked m.content m'.content ∧ Only m.after m'.after := by
  have hdashes : ∀ c ∈ dashes, startsNoName c = true := List.all_eq_true.mp (by decide)
  have hbegin : ∀ c ∈ "BEGIN ".toList, startsNoName c = true := List.all_eq_true.mp (by decide)
  have hend : ∀ c ∈ "END ".toList, startsNoName c = true := List.all_eq_true.mp (by decide)
  obtain ⟨hpass₁, hmask₁⟩ := passes_to_dash hn hbefore (List.replicate 4 '-' ++ m.inner)
  obtain ⟨hpass₂, hmask₂⟩ := passes_to_dash hn hlabel
    (List.replicate 4 '-' ++ (m.content ++ (dashes ++ m.last)))
  obtain ⟨hpass₃, hmask₃⟩ := passes_to_dash hn hcontent (List.replicate 4 '-' ++ m.last)
  obtain ⟨hpass₄, -⟩ := passes_to_dash hn hlabel (List.replicate 4 '-' ++ m.after)
  have hpass := hpass₁.trans <| (passes_plain hn hdashes m.inner).trans <|
    (passes_plain hn hbegin _).trans <| hpass₂.trans <| (passes_plain hn hdashes _).trans <|
    hpass₃.trans <| (passes_plain hn hdashes m.last).trans <| (passes_plain hn hend _).trans <|
    hpass₄.trans (passes_plain hn hdashes m.after)
  refine ⟨{
    before := hideAll (dropNamed n) m.before
    label := hideAll (dropNamed n) m.label
    content := hideAll (dropNamed n) m.content
    after := hideAll (dropNamed n) m.after
    label_ne_nil := hmask₂.ne_nil m.label_ne_nil
    label_free := hmask₂.free m.label_free
    content_free := hmask₃.free m.content_free }, ?_, rfl, hmask₁, hmask₂, hmask₃,
    only_hideAll (consumes_dropNamed hn) (only_self _)⟩
  refine hpass.hideAll_eq.trans ?_
  show _ = _ ++ (dashes ++ (("BEGIN ".toList ++ _) ++ (dashes ++ (_ ++ (dashes ++ last _)))))
  simp only [last, List.append_assoc]

/-- What the passes for names leave has nothing new outside the content. -/
theorem only_shell {m' : KeyBlock} (hbefore : Masked m.before m'.before)
    (hlabel : Masked m.label m'.label) (hafter : Only m.after m'.after) :
    Only m.shell m'.shell := by
  have hfirst : Only m.first m'.first :=
    ((only_self _).mono (List.subset_append_left _ _)).append
      (hlabel.only.mono (List.subset_append_right _ _))
  have hlast : Only m.last m'.last := by
    intro c hc
    simp only [last, List.mem_append] at hc ⊢
    rcases hc with hc | hc | hc | hc
    · exact Or.inl (Or.inl hc)
    · exact (hlabel.only c hc).imp_left fun h => Or.inr (Or.inl h)
    · exact Or.inl (Or.inr (Or.inr (Or.inl hc)))
    · exact (hafter c hc).imp_left fun h => Or.inr (Or.inr (Or.inr h))
  intro c hc
  simp only [shell, List.mem_append] at hc ⊢
  rcases hc with hc | hc | hc | hc | hc | hc
  · exact (hbefore.only c hc).imp_left Or.inl
  · exact Or.inl (Or.inr (Or.inl hc))
  · exact (hfirst c hc).imp_left fun h => Or.inr (Or.inr (Or.inl h))
  · exact Or.inl (Or.inr (Or.inl hc))
  · exact Or.inl (Or.inr (Or.inl hc))
  · exact (hlast c hc).imp_left fun h => by simp only [h, or_true]

theorem hide_names {ns : List String} (hns : ∀ n ∈ ns, n ∈ names)
    (hopen : ∀ n ∈ ns, ¬ Opens n m.before ∧ ¬ Opens n m.label ∧ ¬ Opens n m.content) :
    ∃ m' : KeyBlock, hideNames ns m.text = m'.text ∧ m'.before = hideNames ns m.before
      ∧ Only m.shell m'.shell := by
  induction ns generalizing m with
  | nil => exact ⟨m, rfl, rfl, only_self _⟩
  | cons n ns ih =>
      obtain ⟨hbefore, hlabel, hcontent⟩ := hopen n List.mem_cons_self
      obtain ⟨m', htext, hb, hmask₁, hmask₂, hmask₃, hafter⟩ :=
        m.hide_name (hns n List.mem_cons_self) hbefore hlabel hcontent
      have hns' : ∀ n' ∈ ns, n' ∈ names := fun n' hn' => hns n' (List.mem_cons_of_mem n hn')
      have hopen' : ∀ n' ∈ ns, ¬ Opens n' m'.before ∧ ¬ Opens n' m'.label
          ∧ ¬ Opens n' m'.content := by
        intro n' hn'
        obtain ⟨h₁, h₂, h₃⟩ := hopen n' (List.mem_cons_of_mem n hn')
        exact ⟨fun h => h₁ (hmask₁.opens (hns' n' hn') h),
          fun h => h₂ (hmask₂.opens (hns' n' hn') h), fun h => h₃ (hmask₃.opens (hns' n' hn') h)⟩
      obtain ⟨m'', htext', hb', hshell⟩ := ih m' hns' hopen'
      refine ⟨m'', ?_, ?_, hshell.trans (m.only_shell hmask₁ hmask₂ hafter)⟩
      · show hideNames ns (hideAll (dropNamed n) m.text) = m''.text
        rw [htext, htext']
      · rw [hb', hb]
        rfl

/-- A name stands open before one of the fences, or a last line stands open before the block
    when all named secrets before it are masked. -/
def Exposed : Prop :=
  (∃ n ∈ names, Opens n m.before ∨ Opens n m.label ∨ Opens n m.content)
    ∨ OpensFence "end" (hideNames names m.before)

/-- The content of a key block that is not exposed is masked: nothing is left of the text but
    what stands outside the content. -/
theorem only_hideInText (h : ¬ m.Exposed) :
    Only m.shell (hideInText (String.ofList m.text)).toList := by
  obtain ⟨hnames, hfence⟩ := not_or.mp h
  have hopen : ∀ n ∈ names, ¬ Opens n m.before ∧ ¬ Opens n m.label ∧ ¬ Opens n m.content := by
    intro n hn
    obtain ⟨hbefore, hrest⟩ := not_or.mp fun hno => hnames ⟨n, hn, hno⟩
    exact ⟨hbefore, not_or.mp hrest⟩
  obtain ⟨m', htext, hbefore, hshell⟩ := m.hide_names (fun n hn => hn) hopen
  rw [hideInText_eq, String.toList_ofList, htext]
  rw [← hbefore] at hfence
  exact (m'.only_hideBlock hfence).trans hshell

end KeyBlock

end SshDial.Secret
