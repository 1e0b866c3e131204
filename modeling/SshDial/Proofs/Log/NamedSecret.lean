import SshDial.Proofs.Log.Fence
import SshDial.Proofs.Log.Named

/-! # Texts with a named secret — pass after pass

    `NamedSecret` is a text with a secret in it: a name, separators and a word.  A pass for
    another name leaves such a text, with some of it masked, and the pass for its own name
    takes the secret away; unless a name that stands open before takes the secret's name
    (`NamedSecret.hide_before`). -/

namespace SshDial.Secret

open SshDial.Text

/-- A text with a secret in it: a name in any letter case, separators, a word, and white
    space or the end behind it. -/
structure NamedSecret where
  before : List Char
  name : String
  word : List Char
  separators : List Char
  secret : List Char
  after : List Char
  mem : name ∈ names
  isName : word.map Char.toLower = name.toList
  ne_nil : separators ≠ []
  areSeparators : ∀ c ∈ separators, isSeparator c = true
  isSecret : IsSecret secret
  startsBlank : StartsBlank after

namespace NamedSecret

variable (m : NamedSecret) {n : String}

/-- The text from the name on. -/
def named : List Char := m.word ++ (m.separators ++ (m.secret ++ m.after))

def text : List Char := m.before ++ m.named

/-- The text without the secret. -/
def shell : List Char := m.before ++ (m.word ++ (m.separators ++ m.after))

theorem rest_subset_shell : m.before ++ m.after ⊆ m.shell := by
  intro c hmem
  rcases List.mem_append.mp hmem with hbefore | hafter
  · exact List.mem_append_left _ hbefore
  · exact List.mem_append_right _ (List.mem_append_right _ (List.mem_append_right _ hafter))

theorem startsSolid_named : StartsSolid m.named := by
  obtain ⟨c, k, hk⟩ := exists_cons_of_name m.mem m.isName
  have hname := m.isName
  rw [hk] at hname
  exact ⟨c, k ++ (m.separators ++ (m.secret ++ m.after)), by rw [named, hk]; rfl,
    isSeparator_head m.mem hname⟩

theorem reaches_named (hn : n ∈ names) : Reaches n m.before m.named := by
  refine reaches hn m.startsSolid_named (fun i hi hlen => ?_) m.before
  refine dropWord_of_clashes ?_ _
  rw [m.isName]
  exact clashes_border hn m.mem hi hlen

/-- Without white space between name and secret, all is one word. -/
theorem dropWhile_named (h : IsWord m.separators) : m.named.dropWhile (!isBlank ·) = m.after := by
  have hword : IsWord m.word := isWord_of_name m.mem m.isName
  have hall : IsWord (m.word ++ (m.separators ++ m.secret)) := by
    intro c hc
    rcases List.mem_append.mp hc with hc | hc
    · exact hword c hc
    · exact (List.mem_append.mp hc).elim (h c) (m.isSecret.word c)
  have hnamed : m.named = m.word ++ (m.separators ++ m.secret) ++ m.after := by
    rw [named, List.append_assoc, List.append_assoc]
  rw [hnamed, dropWhile_word hall m.startsBlank]

/-- The pass for a name comes to stand before the named secret, or has taken it away, which
    takes white space between name and secret and an open name before them not to be bad. -/
theorem hide_before (hn : n ∈ names) (hsafe : IsWord m.separators ∨ ¬ Opens n m.before) :
    Only (m.before ++ m.after) (hideAll (dropNamed n) m.text)
      ∨ (hideAll (dropNamed n) m.text
            = hideAll (dropNamed n) m.before ++ hideAll (dropNamed n) m.named
          ∧ Masked m.before (hideAll (dropNamed n) m.before)) := by
  rcases m.reaches_named hn with ⟨hpass, hmask⟩ | ⟨hopen, out, hpass, honly⟩
  · exact Or.inr ⟨hpass.hideAll_eq, hmask⟩
  · have hword : IsWord m.separators := hsafe.resolve_right (not_not_intro hopen)
    rw [m.dropWhile_named hword] at hpass
    left
    rw [text, hpass.hideAll_eq]
    refine (honly.mono (List.subset_append_left _ _)).append ?_
    exact only_hideAll (consumes_dropNamed hn) fun c hc => Or.inl (List.mem_append_right _ hc)

/-- The pass for its own name takes the secret away. -/
theorem hide_own (hsafe : IsWord m.separators ∨ ¬ Opens m.name m.before) :
    Only (m.before ++ m.after) (hideAll (dropNamed m.name) m.text) := by
  rcases m.hide_before m.mem hsafe with honly | ⟨heq, hmask⟩
  · exact honly
  · obtain ⟨c, k, hk⟩ := exists_cons_of_name m.mem m.isName
    obtain ⟨d, x, hx, hsolid⟩ := m.isSecret.solid
    have hstart : StartsSolid (m.secret ++ m.after) := by
      rw [hx]
      exact ⟨d, x ++ m.after, rfl, hsolid⟩
    have hdrop : dropNamed m.name m.named = some m.after := by
      rw [named, dropNamed_of_word m.isName,
        dropSecret_of_separators m.ne_nil m.areSeparators hstart,
        dropWhile_word m.isSecret.word m.startsBlank]
    have hpass : Passes (dropNamed m.name) m.named (mask ++ []) m.after := by
      have hcons : m.named = c :: (k ++ (m.separators ++ (m.secret ++ m.after))) := by
        rw [named, hk, List.cons_append]
      rw [hcons] at hdrop ⊢
      exact .hide hdrop (consumes_dropNamed m.mem c _ _ hdrop).length_le (.done m.after)
    rw [heq, hpass.hideAll_eq]
    refine (hmask.only.mono (List.subset_append_left _ _)).append ?_
    rw [List.append_nil]
    refine (only_mask _).append ?_
    exact only_hideAll (consumes_dropNamed m.mem) fun c hc => Or.inl (List.mem_append_right _ hc)

/-- The pass for another name leaves such a text, with some of it masked, or takes the secret
    away. -/
theorem hide_other (hn : n ∈ names) (hne : n ≠ m.name)
    (hsafe : IsWord m.separators ∨ ¬ Opens n m.before) :
    Only (m.before ++ m.after) (hideAll (dropNamed n) m.text)
      ∨ ∃ m' : NamedSecret, hideAll (dropNamed n) m.text = m'.text ∧ m'.name = m.name
          ∧ m'.separators = m.separators ∧ Masked m.before m'.before ∧ Only m.after m'.after := by
  rcases m.hide_before hn hsafe with honly | ⟨heq, hmask⟩
  · exact Or.inl honly
  · right
    obtain ⟨secret, rest, hpass, hsecret, hblank, hsuffix⟩ :=
      passes_secret hn m.isSecret m.startsBlank
    have hnamed := ((passes_otherName hn m.mem hne m.isName _).trans <|
      (passes_plain hn (fun c hc => startsNoName_of_isSeparator (m.areSeparators c hc)) _).trans
        hpass).hideAll_eq
    refine ⟨{ m with
      before := hideAll (dropNamed n) m.before, secret, after := hideAll (dropNamed n) rest
      isSecret := hsecret, startsBlank := startsBlank_hideAll hn hblank }, ?_, rfl, rfl, hmask, ?_⟩
    · rw [heq, named, hnamed, List.append_assoc, List.append_assoc]
      rfl
    · exact only_hideAll (consumes_dropNamed hn) ((only_self _).of_suffix hsuffix)

/-- The passes up to the one for its own name take the secret away. -/
theorem hide_names (earlier : List String)
    (hearlier : ∀ n ∈ earlier, n ∈ names ∧ n ≠ m.name)
    (hsafe : IsWord m.separators ∨ ∀ n ∈ earlier ++ [m.name], ¬ Opens n m.before) :
    Only (m.before ++ m.after) (hideNames (earlier ++ [m.name]) m.text) := by
  induction earlier generalizing m with
  | nil =>
      refine m.hide_own (hsafe.imp_right fun hopen => ?_)
      exact hopen m.name List.mem_cons_self
  | cons n earlier ih =>
      obtain ⟨hn, hne⟩ := hearlier n List.mem_cons_self
      have hlater : ∀ n' ∈ earlier, n' ∈ names ∧ n' ≠ m.name :=
        fun n' hn' => hearlier n' (List.mem_cons_of_mem n hn')
      have hnames : ∀ n' ∈ earlier ++ [m.name], n' ∈ names := by
        intro n' hn'
        rcases List.mem_append.mp hn' with hn' | hn'
        · exact (hlater n' hn').1
        · rw [List.mem_singleton.mp hn']
          exact m.mem
      show Only _ (hideNames (earlier ++ [m.name]) (hideAll (dropNamed n) m.text))
      rcases m.hide_other hn hne (hsafe.imp_right fun hopen => hopen n List.mem_cons_self) with
        honly | ⟨m', heq, hname, hseps, hmask, hafter⟩
      · exact only_hideNames hnames honly
      · have hsafe' : IsWord m'.separators
            ∨ ∀ n' ∈ earlier ++ [m'.name], ¬ Opens n' m'.before := by
          rw [hseps, hname]
          refine hsafe.imp_right fun hopen n' hn' hnow => ?_
          exact hopen n' (List.mem_cons_of_mem n hn') (hmask.opens (hnames n' hn') hnow)
        have honly := ih m' (by rw [hname]; exact hlater) hsafe'
        rw [heq, ← hname]
        refine honly.trans ?_
        exact (hmask.only.mono (List.subset_append_left _ _)).append
          (hafter.mono (List.subset_append_right _ _))

/-- There is white space between name and secret, and before the name another name stands
    open whose secrets are masked no later. -/
def Exposed : Prop := ¬ IsWord m.separators ∧ ∃ n ∈ namesUpTo m.name, Opens n m.before

/-- A named secret that is not exposed is masked: nothing is left of the text but what
    stands before the name and behind the secret. -/
theorem only_hideInText (h : ¬ m.Exposed) :
    Only (m.before ++ m.after) (hideInText (String.ofList m.text)).toList := by
  obtain ⟨earlier, later, hall, hupTo, hearlier⟩ := names_split m.mem
  have hsafe : IsWord m.separators ∨ ∀ n ∈ earlier ++ [m.name], ¬ Opens n m.before := by
    by_cases hword : IsWord m.separators
    · exact Or.inl hword
    · refine Or.inr fun n hn hopen => h ⟨hword, n, ?_, hopen⟩
      rw [hupTo]
      exact hn
  have honly := m.hide_names earlier hearlier hsafe
  rw [hideInText_eq, String.toList_ofList, hall, hideNames_append]
  refine only_hideAll consumes_dropBlock (only_hideNames (fun n hn => ?_) honly)
  rw [hall]
  exact List.mem_append_right _ hn

end NamedSecret

end SshDial.Secret
