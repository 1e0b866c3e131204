import SshDial.Proofs.Log.Masking

/-! # Named secrets — a name, separators, and the word behind them

    A pass for one name takes off the name, the separators behind it and the word behind
    those.  It never stops within a word (`dropNamed_startsBlank`), so what can go wrong
    for a text is to be found at the end of what stands before it: a name that is open
    there (`Opens`) takes the beginning of the text for its own secret (`reaches`). -/

namespace SshDial.Secret

open SshDial.Text

/-- The names of secrets, in the order in which the secrets are masked. -/
def names : List String := ["password", "passphrase", "token"]

/-- The text with the secrets of some names masked, one name after the other. -/
def hideNames (ns : List String) (s : List Char) : List Char :=
  ns.foldl (fun s n => hideAll (dropNamed n) s) s

theorem hideNames_append (ns ms : List String) (s : List Char) :
    hideNames (ns ++ ms) s = hideNames ms (hideNames ns s) :=
  List.foldl_append

/-- The names whose secrets are masked no later than those of the name. -/
def namesUpTo (n : String) : List String := names.take (names.idxOf n + 1)

theorem names_split {n : String} (hn : n ∈ names) : ∃ earlier later,
    names = earlier ++ [n] ++ later ∧ namesUpTo n = earlier ++ [n]
      ∧ ∀ e ∈ earlier, e ∈ names ∧ e ≠ n := by
  have hall : ∀ n ∈ names, namesUpTo n = names.take (names.idxOf n) ++ [n]
      ∧ ∀ e ∈ names.take (names.idxOf n), e ∈ names ∧ e ≠ n := by decide
  obtain ⟨hupTo, hearlier⟩ := hall n hn
  refine ⟨_, names.drop (names.idxOf n + 1), ?_, hupTo, hearlier⟩
  rw [← hupTo, namesUpTo, List.take_append_drop]

theorem hideInText_eq (s : List Char) :
    hideInText (String.ofList s) = String.ofList (hideAll dropBlock (hideNames names s)) := by
  rw [hideInText, String.toList_ofList]
  rfl

/-! ## Where words end -/

/-- Nothing of the text is white space. -/
def IsWord (s : List Char) : Prop := ∀ c ∈ s, isBlank c = false

/-- The text is empty or begins with white space. -/
def StartsBlank (s : List Char) : Prop := ∀ c ∈ s.head?, isBlank c = true

instance (s : List Char) : Decidable (IsWord s) :=
  decidable_of_iff (s.any isBlank = false) <| by
    simp only [IsWord, List.any_eq_false, Bool.not_eq_true]

instance (s : List Char) : Decidable (StartsBlank s) :=
  decidable_of_iff (s.head?.all isBlank = true) <| by
    simp only [StartsBlank, Option.all_eq_true, Option.mem_def]

/-- The text begins with something that separates no name from its secret. -/
def StartsSolid (s : List Char) : Prop := ∃ c t, s = c :: t ∧ isSeparator c = false

theorem isSeparator_of_isBlank {c : Char} (h : isBlank c = true) : isSeparator c = true := by
  rw [isSeparator, h, Bool.or_true]

/-- No separator is a letter. -/
theorem toLower_of_isSeparator {c : Char} (h : isSeparator c = true) : c.toLower = c := by
  refine toLower_eq_self ?_
  simp only [isSeparator, isBlank, Bool.or_eq_true, Bool.and_eq_true, beq_iff_eq,
    decide_eq_true_eq] at h
  rcases h with (rfl | rfl) | h
  · decide
  · decide
  · omega

/-- The rest of a text after the word at its front. -/
theorem dropWhile_word {w s : List Char} (hw : IsWord w) (hs : StartsBlank s) :
    (w ++ s).dropWhile (!isBlank ·) = s :=
  dropWhile_cut (fun c hc => by rw [hw c hc]; rfl) fun c hc => by rw [hs c hc]; rfl

theorem isWord_mask : IsWord mask := by decide

theorem startsBlank_dropWhile (s : List Char) : StartsBlank (s.dropWhile (!isBlank ·)) := by
  intro c hc
  have hstop := List.head?_dropWhile_not (!isBlank ·) s
  rw [hc] at hstop
  exact Bool.not_eq_eq_eq_not.mp hstop

/-! ## One secret -/

theorem dropSecret_of_solid {s : List Char} (h : StartsSolid s) : dropSecret s = none := by
  obtain ⟨c, t, rfl, hc⟩ := h
  rw [dropSecret, List.takeWhile_cons, List.dropWhile_cons, hc]
  rfl

theorem dropSecret_of_separators {seps s : List Char} (hne : seps ≠ [])
    (hseps : ∀ c ∈ seps, isSeparator c = true) (hs : StartsSolid s) :
    dropSecret (seps ++ s) = some (s.dropWhile (!isBlank ·)) := by
  obtain ⟨c, t, rfl, hc⟩ := hs
  have hstop : ∀ d ∈ (c :: t).head?, isSeparator d = false := by
    intro d hd
    obtain rfl := Option.some.inj hd
    exact hc
  rw [dropSecret, takeWhile_cut hseps hstop, dropWhile_cut hseps hstop]
  cases seps with
  | nil => exact absurd rfl hne
  | cons d seps => rfl

/-- A secret ends where its word ends. -/
theorem dropSecret_startsBlank {s rest : List Char} (h : dropSecret s = some rest) :
    StartsBlank rest ∧ rest <:+ s := by
  obtain ⟨seps, t, rfl, hseps, hstop⟩ := exists_cut isSeparator s
  rw [dropSecret, takeWhile_cut hseps hstop, dropWhile_cut hseps hstop] at h
  cases seps with
  | nil =>
      cases t with
      | nil => exact nomatch h
      | cons c t => exact nomatch h
  | cons d more =>
      cases t with
      | cons c t =>
          obtain rfl := Option.some.inj h
          refine ⟨startsBlank_dropWhile _, ?_⟩
          exact (List.dropWhile_suffix _).trans (List.suffix_append (d :: more) (c :: t))
      | nil =>
          -- The last separator that is not blank stands for the secret.
          have hblanks : ∀ c ∈ more.reverse.takeWhile isBlank, isBlank c = true :=
            List.all_eq_true.mp List.all_takeWhile
          by_cases hall : (more.reverse.takeWhile isBlank).length = more.length
          · simp only [hall, if_true] at h
            exact nomatch h
          · simp only [hall, if_false] at h
            obtain rfl := Option.some.inj h
            refine ⟨fun c hc => hblanks c ?_, ?_⟩
            · exact List.mem_reverse.mp (List.mem_of_head? hc)
            · have htail : (more.reverse.takeWhile isBlank).reverse <:+ more.reverse.reverse :=
                List.reverse_suffix.mpr (List.takeWhile_prefix isBlank)
              rw [List.reverse_reverse] at htail
              rw [List.append_nil]
              exact htail.trans (List.suffix_cons d more)

/-! ## One name with its secret -/

theorem dropNamed_none {n : String} {s : List Char} (h : dropWord n.toList s = none) :
    dropNamed n s = none := by
  rw [dropNamed, h]
  rfl

theorem dropNamed_of_word {n : String} {k : List Char} (hk : k.map Char.toLower = n.toList)
    (s : List Char) : dropNamed n (k ++ s) = dropSecret s := by
  rw [dropNamed, dropWord_append_self hk]
  rfl

/-- What a name with its secret leaves of a text. -/
theorem dropNamed_startsBlank {n : String} {s rest : List Char} (h : dropNamed n s = some rest) :
    StartsBlank rest ∧ ∃ k t, s = k ++ t ∧ k.map Char.toLower = n.toList ∧ rest <:+ t := by
  rw [dropNamed] at h
  obtain ⟨t, ht, hsecret⟩ := Option.bind_eq_some_iff.mp h
  obtain ⟨k, rfl, hk⟩ := dropWord_eq_some_iff.mp ht
  obtain ⟨hblank, hsuffix⟩ := dropSecret_startsBlank hsecret
  exact ⟨hblank, k, t, rfl, hk, hsuffix⟩

theorem toList_of_mem_names {n : String} (hn : n ∈ names) :
    ∃ w word, n.toList = w :: word ∧ (w = 'p' ∨ w = 't') := by
  have hall : ∀ n ∈ names, n.toList.head? = some 'p' ∨ n.toList.head? = some 't' := by decide
  cases hword : n.toList with
  | nil =>
      have hhead := hall n hn
      rw [hword] at hhead
      exact nomatch hhead
  | cons w word =>
      refine ⟨w, word, rfl, ?_⟩
      have hhead := hall n hn
      rw [hword] at hhead
      exact hhead.imp Option.some.inj Option.some.inj

theorem exists_cons_of_name {n : String} (hn : n ∈ names) {k : List Char}
    (hk : k.map Char.toLower = n.toList) : ∃ c t, k = c :: t := by
  obtain ⟨w, word, hword, -⟩ := toList_of_mem_names hn
  rw [hword] at hk
  cases k with
  | nil => exact nomatch hk
  | cons c t => exact ⟨c, t, rfl⟩

theorem isWord_of_name {n : String} (hn : n ∈ names) {k : List Char}
    (hk : k.map Char.toLower = n.toList) : IsWord k := by
  intro c hc
  have hall : ∀ n ∈ names, IsWord n.toList := by decide
  refine Bool.eq_false_iff.mpr fun hblank => ?_
  have hmem : c.toLower ∈ n.toList := by
    rw [← hk]
    exact List.mem_map_of_mem hc
  rw [toLower_of_isSeparator (isSeparator_of_isBlank hblank)] at hmem
  rw [hall n hn c hmem] at hblank
  exact nomatch hblank

/-- Does no name begin with this character? -/
def startsNoName (c : Char) : Bool := c.toLower != 'p' && c.toLower != 't'

theorem not_startsNoName {n : String} {c : Char} {k : List Char} (hn : n ∈ names)
    (hk : (c :: k).map Char.toLower = n.toList) : startsNoName c = false := by
  obtain ⟨w, word, hword, hw⟩ := toList_of_mem_names hn
  rw [hword, List.map_cons] at hk
  obtain ⟨hc, -⟩ := List.cons.inj hk
  rcases hw with rfl | rfl
  · rw [startsNoName, hc]
    rfl
  · rw [startsNoName, hc]
    rfl

theorem dropNamed_of_startsNoName {n : String} (hn : n ∈ names) {c : Char}
    (hc : startsNoName c = true) (s : List Char) : dropNamed n (c :: s) = none := by
  refine dropNamed_none (Option.eq_none_iff_forall_ne_some.mpr fun rest hsome => ?_)
  obtain ⟨k, heq, hk⟩ := dropWord_eq_some_iff.mp hsome
  obtain ⟨d, k, rfl⟩ := exists_cons_of_name hn hk
  obtain ⟨rfl, -⟩ := List.cons.inj heq
  rw [not_startsNoName hn hk] at hc
  exact nomatch hc

theorem startsNoName_of_isSeparator {c : Char} (h : isSeparator c = true) :
    startsNoName c = true := by
  have hsame : c.toLower = c := toLower_of_isSeparator h
  rw [startsNoName, hsame]
  refine Bool.and_eq_true_iff.mpr ⟨bne_iff_ne.mpr ?_, bne_iff_ne.mpr ?_⟩
  · rintro rfl
    exact absurd h (by decide)
  · rintro rfl
    exact absurd h (by decide)

/-- A name's first character is no separator. -/
theorem isSeparator_head {n : String} (hn : n ∈ names) {c : Char} {k : List Char}
    (hk : (c :: k).map Char.toLower = n.toList) : isSeparator c = false := by
  refine Bool.eq_false_iff.mpr fun hsep => ?_
  have hno := startsNoName_of_isSeparator hsep
  rw [not_startsNoName hn hk] at hno
  exact nomatch hno

theorem consumes_dropNamed {n : String} (hn : n ∈ names) : Consumes (dropNamed n) := by
  intro c s rest h
  obtain ⟨-, k, t, heq, hk, hsuffix⟩ := dropNamed_startsBlank h
  obtain ⟨d, k, rfl⟩ := exists_cons_of_name hn hk
  obtain ⟨rfl, rfl⟩ := List.cons.inj heq
  exact hsuffix.trans (List.suffix_append k t)

theorem only_hideNames {ns : List String} (hns : ∀ n ∈ ns, n ∈ names) {allowed s : List Char}
    (h : Only allowed s) : Only allowed (hideNames ns s) := by
  induction ns generalizing s with
  | nil => exact h
  | cons n ns ih =>
      refine ih (fun n' hn' => hns n' (List.mem_cons_of_mem n hn')) ?_
      exact only_hideAll (consumes_dropNamed (hns n List.mem_cons_self)) h

/-! ## What stands before a text -/

/-- Separators, and perhaps a word behind them that is not at its end. -/
def IsTail (s : List Char) : Prop :=
  ∃ seps word, s = seps ++ word ∧ seps ≠ [] ∧ (∀ c ∈ seps, isSeparator c = true) ∧ IsWord word

/-- At the end of the text the name stands open: what follows belongs to its secret. -/
def Opens (n : String) (s : List Char) : Prop :=
  ∃ before k tail, s = before ++ (k ++ tail) ∧ k.map Char.toLower = n.toList ∧ IsTail tail

theorem Opens.of_suffix {n : String} {s t : List Char} (h : Opens n s) (hst : s <:+ t) :
    Opens n t := by
  obtain ⟨first, rfl⟩ := hst
  obtain ⟨before, k, tail, rfl, hk, htail⟩ := h
  exact ⟨first ++ before, k, tail, (List.append_assoc _ _ _).symm, hk, htail⟩

theorem Opens.length_lt {n : String} {s : List Char} (h : Opens n s) :
    n.toList.length < s.length := by
  obtain ⟨before, k, tail, rfl, hk, seps, word, rfl, hne, -⟩ := h
  have hpos : 0 < seps.length := List.length_pos_iff.mpr hne
  rw [← hk, List.length_map]
  simp only [List.length_append]
  omega

/-- Behind a name there is no secret, or one that ends in sight, or one that goes on in the
    text that follows. -/
theorem dropSecret_append (s : List Char) {t : List Char} (ht : StartsSolid t) :
    (dropSecret (s ++ t) = none ∧ dropSecret s = none)
      ∨ (∃ m rest, s = m ++ rest ∧ dropSecret (s ++ t) = some (rest ++ t)
          ∧ dropSecret s = some rest ∧ rest ≠ [] ∧ StartsBlank rest)
      ∨ (IsTail s ∧ dropSecret (s ++ t) = some (t.dropWhile (!isBlank ·))) := by
  obtain ⟨seps, w, rfl, hseps, hstop⟩ := exists_cut isSeparator s
  have hsolid : StartsSolid (w ++ t) := by
    cases w with
    | nil => exact ht
    | cons c w => exact ⟨c, w ++ t, rfl, hstop c rfl⟩
  by_cases hne : seps = []
  · subst hne
    refine Or.inl ⟨dropSecret_of_solid hsolid, ?_⟩
    cases w with
    | nil => rfl
    | cons c w => exact dropSecret_of_solid ⟨c, w, rfl, hstop c rfl⟩
  right
  rw [List.append_assoc, dropSecret_of_separators hne hseps hsolid]
  obtain ⟨word, rest, rfl, hword, hrest⟩ := exists_cut (!isBlank ·) w
  have hword : IsWord word := fun c hc => Bool.not_eq_eq_eq_not.mp (hword c hc)
  have hrest : StartsBlank rest := fun c hc => Bool.not_eq_eq_eq_not.mp (hrest c hc)
  cases rest with
  | nil =>
      right
      rw [List.append_nil]
      refine ⟨⟨seps, word, rfl, hne, hseps, hword⟩, ?_⟩
      rw [List.dropWhile_append_of_pos fun c hc => by rw [hword c hc]; rfl]
  | cons b rest =>
      left
      have hblank : StartsBlank (b :: (rest ++ t)) := hrest
      have hsolid' : StartsSolid (word ++ b :: rest) := by
        cases word with
        | nil =>
            have hb : isSeparator b = false := hstop b rfl
            rw [isSeparator_of_isBlank (hrest b rfl)] at hb
            exact nomatch hb
        | cons c word => exact ⟨c, word ++ b :: rest, rfl, hstop c rfl⟩
      refine ⟨seps ++ word, b :: rest, (List.append_assoc _ _ _).symm, ?_, ?_,
        List.cons_ne_nil b rest, hrest⟩
      · rw [List.append_assoc, List.cons_append, dropWhile_word hword hblank]
      · rw [dropSecret_of_separators hne hseps hsolid', dropWhile_word hword hrest]

/-- The second text is the first with some parts masked that begin within a word and reach
    up to white space. -/
inductive Masked : List Char → List Char → Prop
  | nil : Masked [] []
  | copy (c : Char) {s out : List Char} : Masked s out → Masked (c :: s) (c :: out)
  | hide {c : Char} {m rest out : List Char} (hc : isSeparator c = false) (hne : rest ≠ [])
      (hblank : StartsBlank rest) : Masked rest out → Masked (c :: m ++ rest) (mask ++ out)

theorem Masked.only {s out : List Char} (h : Masked s out) : Only s out := by
  induction h with
  | nil => exact only_nil _
  | copy c _ ih => exact (ih.mono (List.subset_cons_self c _)).cons (Or.inl List.mem_cons_self)
  | hide hc hne hblank _ ih =>
      exact (only_mask _).append (ih.mono (List.subset_append_right _ _))

theorem Masked.ne_nil {s out : List Char} (h : Masked s out) (hs : s ≠ []) : out ≠ [] := by
  cases h with
  | nil => exact hs
  | copy c _ => exact List.cons_ne_nil _ _
  | hide _ _ _ _ => exact List.cons_ne_nil _ _

theorem Masked.free {s out : List Char} (h : Masked s out) (hs : '-' ∉ s) : '-' ∉ out := by
  intro hmem
  rcases h.only '-' hmem with hs' | hstar
  · exact hs hs'
  · exact absurd hstar (by decide)

theorem Masked.head {s out : List Char} (h : Masked s out) (hblank : StartsBlank s) :
    out.head? = s.head? := by
  cases h with
  | nil => rfl
  | copy c _ => rfl
  | hide hc _ _ _ =>
      rw [isSeparator_of_isBlank (hblank _ rfl)] at hc
      exact nomatch hc

/-- Where a word reaches the end there is no mask but in what stands before the word. -/
theorem Masked.eq_of_word {s out : List Char} (h : Masked s out) {first word : List Char}
    (hout : out = first ++ word) (hfirst : '*' ∉ first) (hword : IsWord word) : s = out := by
  induction h generalizing first word with
  | nil => rfl
  | copy c _ ih =>
      congr 1
      cases first with
      | nil =>
          subst hout
          refine ih (List.nil_append _).symm hfirst fun d hd => ?_
          exact hword d (List.mem_cons_of_mem c hd)
      | cons d first =>
          obtain ⟨rfl, rfl⟩ := List.cons.inj hout
          exact ih rfl (fun hmem => hfirst (List.mem_cons_of_mem _ hmem)) hword
  | @hide c m rest out hc hne hblank hrest _ =>
      cases first with
      | cons d first =>
          obtain ⟨rfl, -⟩ := List.cons.inj hout
          exact absurd List.mem_cons_self hfirst
      | nil =>
          -- The white space behind the mask would be part of the word.
          obtain ⟨b, hb⟩ := Option.ne_none_iff_exists'.mp (mt List.head?_eq_none_iff.mp hne)
          have hmem : b ∈ mask ++ out := by
            refine List.mem_append_right _ (List.mem_of_head? ?_)
            rw [hrest.head hblank, hb]
          rw [hout] at hmem
          have hsolid := hword b hmem
          rw [hblank b hb] at hsolid
          exact nomatch hsolid

theorem star_not_mem_name {n : String} (hn : n ∈ names) {k : List Char}
    (hk : k.map Char.toLower = n.toList) : '*' ∉ k := by
  intro hmem
  have hall : ∀ n ∈ names, '*' ∉ n.toList := by decide
  refine hall n hn ?_
  rw [← hk]
  exact List.mem_map_of_mem hmem

theorem Opens.of_cons {n : String} (hn : n ∈ names) {c : Char} (hc : startsNoName c = true)
    {s : List Char} (h : Opens n (c :: s)) : Opens n s := by
  obtain ⟨before, k, tail, heq, hk, htail⟩ := h
  cases before with
  | cons d before =>
      obtain ⟨-, rfl⟩ := List.cons.inj heq
      exact ⟨before, k, tail, rfl, hk, htail⟩
  | nil =>
      obtain ⟨d, k, rfl⟩ := exists_cons_of_name hn hk
      obtain ⟨rfl, -⟩ := List.cons.inj heq
      rw [not_startsNoName hn hk] at hc
      exact nomatch hc

/-- No name comes to stand open at the end by what is masked. -/
theorem Masked.opens {n : String} (hn : n ∈ names) {s out : List Char} (h : Masked s out)
    (hopen : Opens n out) : Opens n s := by
  induction h with
  | nil => exact hopen
  | @copy c s out hs ih =>
      obtain ⟨before, k, tail, heq, hk, htail⟩ := hopen
      cases before with
      | cons d before =>
          obtain ⟨rfl, rfl⟩ := List.cons.inj heq
          exact Opens.of_suffix (ih ⟨before, k, tail, rfl, hk, htail⟩) (List.suffix_cons c s)
      | nil =>
          obtain ⟨seps, word, rfl, hne, hseps, hword⟩ := htail
          have hstar : '*' ∉ k ++ seps := by
            intro hmem
            rcases List.mem_append.mp hmem with hmem | hmem
            · exact star_not_mem_name hn hk hmem
            · exact absurd (hseps _ hmem) (by decide)
          have hsame : c :: s = c :: out := by
            refine (Masked.copy c hs).eq_of_word ?_ hstar hword
            rw [heq, List.nil_append, List.append_assoc]
          rw [hsame]
          exact ⟨[], k, seps ++ word, heq, hk, seps, word, rfl, hne, hseps, hword⟩
  | @hide c m rest out hc hne hblank _ ih =>
      have hstar : startsNoName '*' = true := by decide
      have hout : Opens n out :=
        (((hopen.of_cons hn hstar).of_cons hn hstar).of_cons hn hstar).of_cons hn hstar
      exact (ih hout).of_suffix (List.suffix_append (c :: m) rest)

/-- How a pass comes to a text from what stands before it: it comes to stand at its front,
    having made of what was before it what it would make of that alone; or a name that is open
    before it takes its first word away. -/
def Reaches (n : String) (s t : List Char) : Prop :=
  (Passes (dropNamed n) (s ++ t) (hideAll (dropNamed n) s) t
      ∧ Masked s (hideAll (dropNamed n) s))
    ∨ (Opens n s ∧ ∃ out, Passes (dropNamed n) (s ++ t) out (t.dropWhile (!isBlank ·))
        ∧ Only s out)

theorem Reaches.copy {n : String} {c : Char} {s t : List Char} (h : Reaches n s t)
    (hnone : dropNamed n (c :: s ++ t) = none) (halone : dropNamed n (c :: s) = none) :
    Reaches n (c :: s) t := by
  rcases h with ⟨hpass, hmask⟩ | ⟨hopen, out, hpass, honly⟩
  · left
    rw [hideAll_of_none halone]
    exact ⟨.copy hnone hpass, .copy c hmask⟩
  · right
    refine ⟨hopen.of_suffix (List.suffix_cons c s), c :: out, .copy hnone hpass, ?_⟩
    exact (honly.mono (List.subset_cons_self c s)).cons (Or.inl List.mem_cons_self)

theorem Reaches.hide {n : String} {c : Char} {m rest t : List Char} (h : Reaches n rest t)
    (hc : isSeparator c = false) (hne : rest ≠ []) (hblank : StartsBlank rest)
    (hsome : dropNamed n (c :: m ++ rest ++ t) = some (rest ++ t))
    (halone : dropNamed n (c :: m ++ rest) = some rest) : Reaches n (c :: m ++ rest) t := by
  have hlen : (rest ++ t).length ≤ (m ++ rest ++ t).length := by
    rw [List.append_assoc]
    exact (List.suffix_append m (rest ++ t)).length_le
  rcases h with ⟨hpass, hmask⟩ | ⟨hopen, out, hpass, honly⟩
  · have heq : hideAll (dropNamed n) (c :: m ++ rest) = mask ++ hideAll (dropNamed n) rest :=
      hideAll_of_some halone (List.suffix_append m rest).length_le
    left
    rw [heq]
    exact ⟨.hide hsome hlen hpass, .hide hc hne hblank hmask⟩
  · right
    refine ⟨hopen.of_suffix (List.suffix_append (c :: m) rest), mask ++ out,
      .hide hsome hlen hpass, ?_⟩
    exact (only_mask _).append (honly.mono (List.subset_append_right _ _))

/-- A pass reaches every text that no name straddles the front of. -/
theorem reaches {n : String} (hn : n ∈ names) {t : List Char} (ht : StartsSolid t)
    (hborder : ∀ i, 0 < i → i < n.toList.length → dropWord (n.toList.drop i) t = none)
    (s : List Char) : Reaches n s t := by
  induction hlen : s.length using Nat.strongRecOn generalizing s with
  | ind len ih =>
      subst hlen
      cases s with
      | nil =>
          left
          rw [hideAll]
          exact ⟨.done t, .nil⟩
      | cons c s =>
          have hlater : Reaches n s t := ih s.length (Nat.lt_succ_self _) s rfl
          have hword : dropWord n.toList (c :: s ++ t)
              = (dropWord n.toList (c :: s)).map (· ++ t) :=
            dropWord_append (List.cons_ne_nil c s) hborder
          cases hdrop : dropWord n.toList (c :: s) with
          | none =>
              rw [hdrop] at hword
              exact hlater.copy (dropNamed_none hword) (dropNamed_none hdrop)
          | some r =>
              obtain ⟨k, heq, hk⟩ := dropWord_eq_some_iff.mp hdrop
              have hnamed : dropNamed n (c :: s ++ t) = dropSecret (r ++ t) := by
                rw [heq, List.append_assoc, dropNamed_of_word hk]
              have halone : dropNamed n (c :: s) = dropSecret r := by
                rw [heq, dropNamed_of_word hk]
              rcases dropSecret_append r ht with ⟨hnone, hnone'⟩ | ⟨m, rest, rfl, h⟩ | h
              · exact hlater.copy (hnamed.trans hnone) (halone.trans hnone')
              · obtain ⟨hsome, hsome', hne, hblank⟩ := h
                obtain ⟨d, k, rfl⟩ := exists_cons_of_name hn hk
                have hsplit : c :: s = d :: (k ++ m) ++ rest := by
                  rw [heq, List.cons_append, List.cons_append, List.append_assoc]
                have hshort : rest.length < (c :: s).length := by
                  rw [hsplit, List.length_append, List.length_cons]
                  omega
                have hrest : Reaches n rest t := ih rest.length hshort rest rfl
                rw [hsplit] at hnamed halone ⊢
                exact hrest.hide (isSeparator_head hn hk) hne hblank (hnamed.trans hsome)
                  (halone.trans hsome')
              · obtain ⟨htail, hsome⟩ := h
                have hlen : (t.dropWhile (!isBlank ·)).length ≤ (s ++ t).length := by
                  rw [List.length_append]
                  exact Nat.le_add_left_of_le (List.dropWhile_suffix _).length_le
                refine Or.inr ⟨⟨[], k, r, heq, hk, htail⟩, mask ++ [], ?_, ?_⟩
                · exact .hide (hnamed.trans hsome) hlen (.done _)
                · exact (only_mask _).append (only_nil _)

/-- Before a dash a pass has made of a text what it would make of that alone. -/
theorem passes_to_dash {n : String} (hn : n ∈ names) {s : List Char} (hs : ¬ Opens n s)
    (t : List Char) : Passes (dropNamed n) (s ++ '-' :: t) (hideAll (dropNamed n) s) ('-' :: t)
      ∧ Masked s (hideAll (dropNamed n) s) := by
  have hall : ∀ n ∈ names, ∀ i < n.toList.length, 0 < i →
      clashes (n.toList.drop i) ['-'] = true := by decide
  have hreaches : Reaches n s ('-' :: t) := by
    refine reaches hn ⟨'-', t, rfl, by decide⟩ (fun i hi hlen => ?_) s
    exact dropWord_of_clashes (k := ['-']) (hall n hn i hlen hi) t
  exact hreaches.resolve_right fun h => hs h.1

/-! ## A pass over a named secret -/

/-- A word that no separator begins. -/
structure IsSecret (x : List Char) : Prop where
  word : IsWord x
  solid : StartsSolid x

theorem suffix_of_startsBlank {w b rest : List Char} (hw : IsWord w) (hrest : StartsBlank rest)
    (h : rest <:+ w ++ b) : rest <:+ b := by
  rcases List.suffix_or_suffix_of_suffix h (List.suffix_append w b) with hb | ⟨u, rfl⟩
  · exact hb
  · cases u with
    | nil => exact List.suffix_refl b
    | cons c u =>
        obtain ⟨v, hv⟩ := h
        rw [← List.append_assoc] at hv
        have hmem : c ∈ w := by
          rw [← List.append_cancel_right hv]
          exact List.mem_append_right v List.mem_cons_self
        have hblank := hrest c rfl
        rw [hw c hmem] at hblank
        exact nomatch hblank

/-- A pass over a word and the white space behind it, which it may take some of. -/
theorem passes_word {n : String} (hn : n ∈ names) (w : List Char) {b : List Char}
    (hw : IsWord w) (hb : StartsBlank b) :
    ∃ out rest, Passes (dropNamed n) (w ++ b) out rest ∧ IsWord out
      ∧ (out.head? = w.head? ∨ out.head? = some '*') ∧ StartsBlank rest ∧ rest <:+ b := by
  induction w with
  | nil => exact ⟨[], b, .done b, hw, Or.inl rfl, hb, List.suffix_refl b⟩
  | cons c w ih =>
      have hlater : IsWord w := fun d hd => hw d (List.mem_cons_of_mem c hd)
      cases hdrop : dropNamed n (c :: (w ++ b)) with
      | none =>
          obtain ⟨out, rest, hpass, hout, -, hblank, hsuffix⟩ := ih hlater
          refine ⟨c :: out, rest, .copy hdrop hpass, ?_, Or.inl rfl, hblank, hsuffix⟩
          exact List.forall_mem_cons.mpr ⟨hw c List.mem_cons_self, hout⟩
      | some rest =>
          have hsuffix : rest <:+ w ++ b := consumes_dropNamed hn c _ _ hdrop
          obtain ⟨hblank, -⟩ := dropNamed_startsBlank hdrop
          refine ⟨mask ++ [], rest, .hide hdrop hsuffix.length_le (.done rest), ?_, Or.inr rfl,
            hblank, suffix_of_startsBlank hlater hblank hsuffix⟩
          rw [List.append_nil]
          exact isWord_mask

theorem passes_secret {n : String} (hn : n ∈ names) {x b : List Char} (hx : IsSecret x)
    (hb : StartsBlank b) : ∃ out rest, Passes (dropNamed n) (x ++ b) out rest ∧ IsSecret out
      ∧ StartsBlank rest ∧ rest <:+ b := by
  obtain ⟨c, t, rfl, hc⟩ := hx.solid
  obtain ⟨out, rest, hpass, hword, hhead, hblank, hsuffix⟩ := passes_word hn (c :: t) hx.word hb
  refine ⟨out, rest, hpass, ⟨hword, ?_⟩, hblank, hsuffix⟩
  cases out with
  | nil => exact hhead.elim (fun hno => nomatch hno) fun hno => nomatch hno
  | cons d out =>
      refine ⟨d, out, rfl, ?_⟩
      rcases hhead with hd | hd
      · rw [Option.some.inj hd]
        exact hc
      · rw [Option.some.inj hd]
        decide

/-- A name, wherever it stands in another, is none of the others. -/
theorem clashes_names {n m : String} (hn : n ∈ names) (hm : m ∈ names) (hne : n ≠ m)
    {v : List Char} (hv : v <:+ m.toList) (hv' : v ≠ []) : clashes n.toList v = true := by
  have hall : ∀ n ∈ names, ∀ m ∈ names, n ≠ m → ∀ i < m.toList.length,
      clashes n.toList (m.toList.drop i) = true := by decide
  rw [List.suffix_iff_eq_drop.mp hv]
  refine hall n hn m hm hne _ ?_
  have hlen : 0 < v.length := List.length_pos_iff.mpr hv'
  have hle : v.length ≤ m.toList.length := hv.length_le
  omega

/-- No name goes on in another, not even in itself. -/
theorem clashes_border {n m : String} (hn : n ∈ names) (hm : m ∈ names) {i : Nat} (hi : 0 < i)
    (hlen : i < n.toList.length) : clashes (n.toList.drop i) m.toList = true := by
  have hall : ∀ n ∈ names, ∀ m ∈ names, ∀ i < n.toList.length, 0 < i →
      clashes (n.toList.drop i) m.toList = true := by decide
  exact hall n hn m hm i hlen hi

/-- What no name begins in is copied. -/
theorem passes_plain {n : String} (hn : n ∈ names) {u : List Char}
    (hu : ∀ c ∈ u, startsNoName c = true) (t : List Char) : Passes (dropNamed n) (u ++ t) u t := by
  refine passes_copy fun v hv hne => ?_
  obtain ⟨c, w, rfl⟩ := List.exists_cons_of_ne_nil hne
  exact dropNamed_of_startsNoName hn (hu c (hv.subset List.mem_cons_self)) (w ++ t)

theorem passes_otherName {n m : String} (hn : n ∈ names) (hm : m ∈ names) (hne : n ≠ m)
    {k : List Char} (hk : k.map Char.toLower = m.toList) (t : List Char) :
    Passes (dropNamed n) (k ++ t) k t := by
  refine passes_copy fun u hu hu' => dropNamed_none (dropWord_of_clashes ?_ t)
  refine clashes_names hn hm hne ?_ (mt List.map_eq_nil_iff.mp hu')
  rw [← hk]
  exact hu.map Char.toLower

/-- White space at the front stays there. -/
theorem startsBlank_hideAll {n : String} (hn : n ∈ names) {b : List Char} (hb : StartsBlank b) :
    StartsBlank (hideAll (dropNamed n) b) := by
  cases b with
  | nil =>
      rw [hideAll]
      exact hb
  | cons c b =>
      have hc : startsNoName c = true :=
        startsNoName_of_isSeparator (isSeparator_of_isBlank (hb c rfl))
      have hcopy : Passes (dropNamed n) (c :: b) [c] b :=
        .copy (dropNamed_of_startsNoName hn hc b) (.done b)
      rw [hcopy.hideAll_eq]
      exact hb

end SshDial.Secret
