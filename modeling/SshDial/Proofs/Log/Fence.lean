import SshDial.Proofs.Log.Masking

/-! # Fences — the lines around a key block

    A fence is made of dashes, a word, a label without a dash, and dashes.  Dashes belong to
    no fence: those that a line begins with serve as well to close a fence that stands open
    before them (`OpensFence`).  So a fence that begins before a text with dashes at its
    front ends before it, or stands open there (`dropFence_append`).  The search for a last
    line goes over a text in the same way (`dropToEnd_append`). -/

namespace SshDial.Secret

open SshDial.Text

/-! ## Dashes -/

theorem eq_dash_of_toLower {c : Char} (h : c.toLower = '-') : c = '-' := by
  have hcode : c.toLower.toNat = 45 := congrArg Char.toNat h
  rw [toNat_toLower] at hcode
  split at hcode
  · omega
  · exact Char.toNat_inj.mp hcode

theorem eq_dashes_of_map {d : List Char} (h : d.map Char.toLower = dashes) : d = dashes := by
  have hlen : d.length = 5 := by
    rw [← List.length_map Char.toLower, h]
    rfl
  refine List.eq_replicate_iff.mpr ⟨hlen, fun c hc => eq_dash_of_toLower ?_⟩
  have hmem : c.toLower ∈ dashes := by
    rw [← h]
    exact List.mem_map_of_mem hc
  exact List.eq_of_mem_replicate (show c.toLower ∈ List.replicate 5 '-' from hmem)

theorem dashes_swap {few more : List Char} (h : dashes = few ++ more) : dashes = more ++ few := by
  have hsplit : few ++ more = List.replicate 5 '-' := h.symm
  obtain ⟨hlen, hfew, hmore⟩ := List.append_eq_replicate_iff.mp hsplit
  rw [hfew, hmore, List.replicate_append_replicate, Nat.add_comm, hlen]
  rfl

/-- Fewer dashes than a fence has on either side. -/
def IsFew (few : List Char) : Prop := ∃ c more, dashes = few ++ c :: more

theorem isFew_nil : IsFew [] := ⟨'-', List.replicate 4 '-', rfl⟩

theorem IsFew.tail {c : Char} {few : List Char} (h : IsFew (c :: few)) : IsFew few := by
  obtain ⟨d, more, hmore⟩ := h
  have hswap : dashes = (d :: more ++ [c]) ++ few := by
    rw [dashes_swap hmore, List.append_assoc]
    rfl
  exact ⟨d, more ++ [c], dashes_swap hswap⟩

/-- Before the first dash two texts agree. -/
theorem cut_at_dash {u v s t : List Char} (hu : '-' ∉ u) (hv : '-' ∉ v)
    (h : u ++ '-' :: s = v ++ '-' :: t) : u = v ∧ s = t := by
  induction u generalizing v with
  | nil =>
      cases v with
      | nil => exact ⟨rfl, (List.cons.inj h).2⟩
      | cons c v =>
          obtain ⟨rfl, -⟩ := List.cons.inj h
          exact absurd List.mem_cons_self hv
  | cons c u ih =>
      cases v with
      | nil =>
          obtain ⟨rfl, -⟩ := List.cons.inj h
          exact absurd List.mem_cons_self hu
      | cons d v =>
          obtain ⟨rfl, hrest⟩ := List.cons.inj h
          obtain ⟨rfl, hst⟩ := ih (fun hmem => hu (List.mem_cons_of_mem _ hmem))
            (fun hmem => hv (List.mem_cons_of_mem _ hmem)) hrest
          exact ⟨rfl, hst⟩

/-! ## One fence -/

/-- A label and the dashes behind it. -/
theorem label_eq_some_iff {s rest : List Char} :
    (if (s.takeWhile (· != '-')).isEmpty then none else dropWord dashes (s.dropWhile (· != '-')))
        = some rest
      ↔ ∃ label, s = label ++ (dashes ++ rest) ∧ label ≠ [] ∧ '-' ∉ label := by
  constructor
  · intro h
    obtain ⟨label, v, rfl, hlabel, hstop⟩ := exists_cut (· != '-') s
    rw [takeWhile_cut hlabel hstop, dropWhile_cut hlabel hstop] at h
    cases label with
    | nil => exact nomatch h
    | cons c label =>
        obtain ⟨d, rfl, hd⟩ := dropWord_eq_some_iff.mp h
        refine ⟨c :: label, by rw [eq_dashes_of_map hd], List.cons_ne_nil c label, ?_⟩
        exact fun hmem => absurd (hlabel '-' hmem) (by decide)
  · rintro ⟨label, rfl, hne, hlabel⟩
    have hfree : ∀ c ∈ label, (c != '-') = true :=
      fun c hc => bne_iff_ne.mpr fun hdash => hlabel (hdash ▸ hc)
    have hstop : ∀ c ∈ (dashes ++ rest).head?, (c != '-') = false := by
      intro c hc
      obtain rfl : '-' = c := Option.some.inj hc
      rfl
    have hdashes : dashes.map Char.toLower = dashes := by decide
    rw [takeWhile_cut hfree hstop, dropWhile_cut hfree hstop]
    cases label with
    | nil => exact absurd rfl hne
    | cons c label => exact dropWord_append_self hdashes rest

/-- What a fence begins with. -/
theorem fenceWord_eq_some_iff {word : String} {s rest : List Char} :
    dropWord (dashes ++ word.toList) s = some rest
      ↔ ∃ k, s = dashes ++ (k ++ rest) ∧ k.map Char.toLower = word.toList := by
  rw [dropWord_eq_some_iff]
  constructor
  · rintro ⟨dk, rfl, hdk⟩
    obtain ⟨d, k, rfl, hd, hk⟩ := List.map_eq_append_iff.mp hdk
    exact ⟨k, by rw [eq_dashes_of_map hd, List.append_assoc], hk⟩
  · rintro ⟨k, rfl, hk⟩
    refine ⟨dashes ++ k, (List.append_assoc _ _ _).symm, ?_⟩
    rw [List.map_append, hk]
    rfl

/-- What a fence is made of. -/
theorem dropFence_eq_some_iff {word : String} {s rest : List Char} :
    dropFence word s = some rest ↔ ∃ k label, s = dashes ++ (k ++ (label ++ (dashes ++ rest)))
      ∧ k.map Char.toLower = word.toList ∧ label ≠ [] ∧ '-' ∉ label := by
  rw [dropFence, Option.bind_eq_some_iff]
  constructor
  · rintro ⟨r, hword, hlabel⟩
    obtain ⟨k, rfl, hk⟩ := fenceWord_eq_some_iff.mp hword
    obtain ⟨label, rfl, hne, hfree⟩ := label_eq_some_iff.mp hlabel
    exact ⟨k, label, rfl, hk, hne, hfree⟩
  · rintro ⟨k, label, rfl, hk, hne, hfree⟩
    exact ⟨_, fenceWord_eq_some_iff.mpr ⟨k, rfl, hk⟩,
      label_eq_some_iff.mpr ⟨label, rfl, hne, hfree⟩⟩

theorem suffix_of_dropFence {word : String} {s rest : List Char}
    (h : dropFence word s = some rest) : ∃ t, s = '-' :: t ∧ rest <:+ t := by
  obtain ⟨k, label, rfl, -⟩ := dropFence_eq_some_iff.mp h
  refine ⟨_, rfl, ?_⟩
  have hrest : rest <:+ dashes ++ rest := List.suffix_append dashes rest
  have hlabel := hrest.trans (List.suffix_append label (dashes ++ rest))
  have hk := hlabel.trans (List.suffix_append k (label ++ (dashes ++ rest)))
  exact hk.trans (List.suffix_append _ _)

/-- At the end of the text a fence stands open; some of the dashes that close it may be
    there already. -/
def OpensFence (word : String) (s : List Char) : Prop :=
  ∃ before k label few, s = before ++ (dashes ++ (k ++ (label ++ few)))
    ∧ k.map Char.toLower = word.toList ∧ label ≠ [] ∧ '-' ∉ label ∧ IsFew few

theorem OpensFence.of_suffix {word : String} {s t : List Char} (h : OpensFence word s)
    (hst : s <:+ t) : OpensFence word t := by
  obtain ⟨first, rfl⟩ := hst
  obtain ⟨before, k, label, few, rfl, hrest⟩ := h
  exact ⟨first ++ before, k, label, few, (List.append_assoc _ _ _).symm, hrest⟩

theorem OpensFence.dash_mem {word : String} {s : List Char} (h : OpensFence word s) :
    '-' ∈ s := by
  obtain ⟨before, k, label, few, rfl, -⟩ := h
  exact List.mem_append_right before List.mem_cons_self

/-- A fence that begins before a text with dashes at its front ends before it, or some of
    those dashes close it. -/
theorem dropFence_append {word : String} {s t rest : List Char} (hs : s ≠ [])
    (hword : ∀ i, 0 < i → i < (dashes ++ word.toList).length →
      clashes ((dashes ++ word.toList).drop i) dashes = true)
    (h : dropFence word (s ++ (dashes ++ t)) = some rest) :
    (∃ m r, m ≠ [] ∧ s = m ++ r ∧ rest = r ++ (dashes ++ t))
      ∨ (OpensFence word s ∧ ∃ few, IsFew few ∧ rest = few ++ t) := by
  rw [dropFence] at h
  obtain ⟨r, hr, hrest⟩ := Option.bind_eq_some_iff.mp h
  -- The dashes and the word at the front of the fence do not straddle the border.
  have hborder : dropWord (dashes ++ word.toList) (s ++ (dashes ++ t))
      = (dropWord (dashes ++ word.toList) s).map (· ++ (dashes ++ t)) := by
    refine dropWord_append hs fun i hi hlen => dropWord_of_clashes ?_ t
    exact hword i hi hlen
  rw [hr] at hborder
  obtain ⟨s', hs', rfl⟩ := Option.map_eq_some_iff.mp hborder.symm
  obtain ⟨k, rfl, hk⟩ := fenceWord_eq_some_iff.mp hs'
  obtain ⟨label, heq, hne, hfree⟩ := label_eq_some_iff.mp hrest
  rcases List.append_eq_append_iff.mp heq with ⟨more, rfl, hdashes⟩ | ⟨tail, rfl, hdashes⟩
  · cases more with
    | cons c more =>
        obtain ⟨rfl, -⟩ := List.cons.inj hdashes
        exact absurd (List.mem_append_right s' List.mem_cons_self) hfree
    | nil =>
        right
        rw [List.append_nil] at hne hfree
        refine ⟨⟨[], k, s', [], by rw [List.append_nil, List.nil_append], hk, hne, hfree,
          isFew_nil⟩, [], isFew_nil, ?_⟩
        exact (List.append_cancel_left hdashes).symm
  · rcases List.append_eq_append_iff.mp hdashes with ⟨r, rfl, rfl⟩ | ⟨more, hmore, hrest'⟩
    · left
      refine ⟨dashes ++ (k ++ (label ++ dashes)), r, List.cons_ne_nil _ _, ?_, rfl⟩
      simp only [List.append_assoc]
    · cases more with
      | nil => exact Or.inl ⟨_, [], List.cons_ne_nil _ _, (List.append_nil _).symm, hrest'.symm⟩
      | cons c more =>
          right
          refine ⟨⟨[], k, label, tail, rfl, hk, hne, hfree, c, more, hmore⟩, tail,
            ⟨c, more, hmore⟩, ?_⟩
          rw [dashes_swap hmore, List.append_assoc] at hrest'
          exact (List.append_cancel_left hrest').symm

/-! ## The search for the last line -/

theorem dropToEnd_of_none {c : Char} {s : List Char} (h : dropFence "end" (c :: s) = none) :
    dropToEnd (c :: s) = dropToEnd s := by
  rw [dropToEnd, h]

theorem dropToEnd_of_some {c : Char} {s rest : List Char}
    (h : dropFence "end" (c :: s) = some rest) : dropToEnd (c :: s) = some rest := by
  rw [dropToEnd, h]

theorem suffix_of_dropToEnd {s rest : List Char} (h : dropToEnd s = some rest) : rest <:+ s := by
  induction s with
  | nil => exact nomatch h
  | cons c s ih =>
      cases hfence : dropFence "end" (c :: s) with
      | none =>
          rw [dropToEnd_of_none hfence] at h
          exact (ih h).trans (List.suffix_cons c s)
      | some r =>
          rw [dropToEnd_of_some hfence] at h
          obtain rfl := Option.some.inj h
          obtain ⟨t, heq, hsuffix⟩ := suffix_of_dropFence hfence
          obtain ⟨-, rfl⟩ := List.cons.inj heq
          exact hsuffix.trans (List.suffix_cons c s)

theorem consumes_dropBlock : Consumes dropBlock := by
  intro c s rest h
  rw [dropBlock] at h
  obtain ⟨r, hfence, hend⟩ := Option.bind_eq_some_iff.mp h
  obtain ⟨t, heq, hsuffix⟩ := suffix_of_dropFence hfence
  obtain ⟨-, rfl⟩ := List.cons.inj heq
  exact (suffix_of_dropToEnd hend).trans hsuffix

/-- No fence has a word that goes on in the dashes of another. -/
theorem clashes_fence {word : String} (h : word = "begin" ∨ word = "end") {i : Nat} (hi : 0 < i)
    (hlen : i < (dashes ++ word.toList).length) :
    clashes ((dashes ++ word.toList).drop i) dashes = true := by
  have hall : ∀ word ∈ ["begin", "end"], ∀ i < (dashes ++ word.toList).length, 0 < i →
      clashes ((dashes ++ word.toList).drop i) dashes = true := by decide
  refine hall word ?_ i hlen hi
  simpa using h

/-- The search ends before a text with dashes at its front, or goes on there. -/
theorem dropToEnd_append {s t rest : List Char} (hs : ¬ OpensFence "end" s)
    (h : dropToEnd (s ++ (dashes ++ t)) = some rest) :
    (∃ m r, s = m ++ r ∧ rest = r ++ (dashes ++ t)) ∨ dropToEnd (dashes ++ t) = some rest := by
  induction s with
  | nil => exact Or.inr h
  | cons c s ih =>
      cases hfence : dropFence "end" (c :: (s ++ (dashes ++ t))) with
      | none =>
          rw [List.cons_append, dropToEnd_of_none hfence] at h
          have hlater : ¬ OpensFence "end" s :=
            fun hopen => hs (hopen.of_suffix (List.suffix_cons c s))
          rcases ih hlater h with ⟨m, r, rfl, hrest⟩ | hrest
          · exact Or.inl ⟨c :: m, r, rfl, hrest⟩
          · exact Or.inr hrest
      | some r =>
          rw [List.cons_append, dropToEnd_of_some hfence] at h
          obtain rfl := Option.some.inj h
          rcases dropFence_append (List.cons_ne_nil c s)
            (fun i => clashes_fence (Or.inr rfl)) hfence with ⟨m, r, -, heq, hrest⟩ | ⟨hopen, -⟩
          · exact Or.inl ⟨m, r, heq, hrest⟩
          · exact absurd hopen hs

/-- The search goes over what has no dash. -/
theorem dropToEnd_free {u : List Char} (hu : '-' ∉ u) (t : List Char) :
    dropToEnd (u ++ t) = dropToEnd t := by
  induction u with
  | nil => rfl
  | cons c u ih =>
      have hnone : dropFence "end" (c :: (u ++ t)) = none := by
        refine Option.eq_none_iff_forall_ne_some.mpr fun rest hsome => ?_
        obtain ⟨v, heq, -⟩ := suffix_of_dropFence hsome
        obtain ⟨rfl, -⟩ := List.cons.inj heq
        exact hu List.mem_cons_self
      rw [List.cons_append, dropToEnd_of_none hnone]
      exact ih fun hmem => hu (List.mem_cons_of_mem c hmem)

/-- A few dashes are no fence. -/
theorem dropFence_few (word : String) {few t : List Char} (hfew : IsFew few)
    (ht : ∀ c ∈ t.head?, c ≠ '-') : dropFence word (few ++ t) = none := by
  refine Option.eq_none_iff_forall_ne_some.mpr fun rest hsome => ?_
  obtain ⟨k, label, heq, -⟩ := dropFence_eq_some_iff.mp hsome
  obtain ⟨c, more, hmore⟩ := hfew
  have hdash : c = '-' := by
    have hmem : c ∈ List.replicate 5 '-' := by
      show c ∈ dashes
      rw [hmore]
      exact List.mem_append_right few List.mem_cons_self
    exact List.eq_of_mem_replicate hmem
  rw [hmore, List.append_assoc] at heq
  refine ht c ?_ hdash
  rw [List.append_cancel_left heq]
  rfl

/-- The search goes over a few dashes. -/
theorem dropToEnd_few {few t : List Char} (hfew : IsFew few) (ht : ∀ c ∈ t.head?, c ≠ '-') :
    dropToEnd (few ++ t) = dropToEnd t := by
  induction few with
  | nil => rfl
  | cons c few ih =>
      have hnone : dropFence "end" (c :: (few ++ t)) = none := dropFence_few "end" hfew ht
      rw [List.cons_append, dropToEnd_of_none hnone]
      exact ih hfew.tail

end SshDial.Secret
