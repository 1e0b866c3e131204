import SshDial.Log.Secret
import SshDial.Proofs.Text.Letters
import SshDial.Proofs.Text.Lines

/-! # Masking — a pass over a text, piece by piece

    `Secret.hideAll drop` scans a text from the left; where `drop` takes something off the
    front it writes the mask, elsewhere it copies a character.  `Passes drop s out rest` says
    that the scan of `s` writes `out` and comes to stand at `rest`.  What `drop` does at a
    place depends on all that follows, so `s` is the whole text still ahead, and passes
    over neighbouring pieces compose (`Passes.trans`).

    `Only allowed s` is the form in which characters are followed through a pass: a pass
    writes nothing but what it has read, and the mask (`only_hideAll`). -/

namespace SshDial.Secret

open SshDial.Text

/-! ## Words -/

theorem dropWord_append_self {k word : List Char} (h : k.map Char.toLower = word)
    (s : List Char) : dropWord word (k ++ s) = some s := by
  induction k generalizing word with
  | nil =>
      obtain rfl : [] = word := h
      rw [List.nil_append, dropWord]
  | cons c k ih =>
      obtain rfl : c.toLower :: k.map Char.toLower = word := h
      rw [List.cons_append, dropWord, if_pos rfl]
      exact ih rfl

theorem dropWord_eq_some_iff {word s rest : List Char} :
    dropWord word s = some rest ↔ ∃ k, s = k ++ rest ∧ k.map Char.toLower = word := by
  constructor
  · intro h
    induction word generalizing s with
    | nil =>
        rw [dropWord] at h
        exact ⟨[], Option.some.inj h, rfl⟩
    | cons w word ih =>
        cases s with
        | nil => exact nomatch h
        | cons c s =>
            rw [dropWord] at h
            by_cases hc : c.toLower = w
            · rw [if_pos hc] at h
              obtain ⟨k, rfl, hk⟩ := ih h
              exact ⟨c :: k, rfl, by rw [List.map_cons, hc, hk]⟩
            · rw [if_neg hc] at h
              exact nomatch h
  · rintro ⟨k, rfl, hk⟩
    exact dropWord_append_self hk rest

/-- Do two words differ at a place that both have? -/
def clashes : List Char → List Char → Bool
  | w :: word, c :: s => w != c || clashes word s
  | _, _ => false

theorem dropWord_of_clashes {word k : List Char} (h : clashes word (k.map Char.toLower) = true)
    (s : List Char) : dropWord word (k ++ s) = none := by
  induction word generalizing k with
  | nil => exact nomatch h
  | cons w word ih =>
      cases k with
      | nil => exact nomatch h
      | cons c k =>
          rw [List.cons_append, dropWord]
          by_cases hc : c.toLower = w
          · rw [if_pos hc]
            rw [List.map_cons, clashes, hc, bne_self_eq_false, Bool.false_or] at h
            exact ih h
          · rw [if_neg hc]

/-- A word that does not begin before a border and end behind it. -/
theorem dropWord_append {word s : List Char} (hs : s ≠ []) {t : List Char}
    (h : ∀ i, 0 < i → i < word.length → dropWord (word.drop i) t = none) :
    dropWord word (s ++ t) = (dropWord word s).map (· ++ t) := by
  induction word generalizing s with
  | nil => rfl
  | cons w word ih =>
      cases s with
      | nil => exact absurd rfl hs
      | cons c s =>
          rw [List.cons_append, dropWord, dropWord]
          by_cases hc : c.toLower = w
          · rw [if_pos hc, if_pos hc]
            cases s with
            | nil =>
                cases word with
                | nil => rfl
                | cons v word => exact h 1 Nat.one_pos (Nat.succ_lt_succ (Nat.succ_pos _))
            | cons d s =>
                refine ih (List.cons_ne_nil d s) fun i hi hlen => ?_
                exact h (i + 1) (Nat.succ_pos i) (Nat.succ_lt_succ hlen)
          · rw [if_neg hc, if_neg hc]
            rfl

/-! ## Passes -/

/-- What is taken off the front of a text leaves less of it. -/
def Consumes (drop : List Char → Option (List Char)) : Prop :=
  ∀ c s rest, drop (c :: s) = some rest → rest <:+ s

/-- The scan of the first text writes the second and comes to stand at the third. -/
inductive Passes (drop : List Char → Option (List Char)) :
    List Char → List Char → List Char → Prop
  | done (s : List Char) : Passes drop s [] s
  | copy {c : Char} {s out rest : List Char} (h : drop (c :: s) = none) :
      Passes drop s out rest → Passes drop (c :: s) (c :: out) rest
  | hide {c : Char} {s t out rest : List Char} (h : drop (c :: s) = some t)
      (hlen : t.length ≤ s.length) :
      Passes drop t out rest → Passes drop (c :: s) (mask ++ out) rest

variable {drop : List Char → Option (List Char)} {s t out more rest : List Char}

theorem Passes.trans (hfirst : Passes drop s out t) (hlast : Passes drop t more rest) :
    Passes drop s (out ++ more) rest := by
  induction hfirst with
  | done s => exact hlast
  | copy h _ ih => exact .copy h (ih hlast)
  | hide h hlen _ ih =>
      rw [List.append_assoc]
      exact .hide h hlen (ih hlast)

theorem hideAll_of_none {c : Char} (h : drop (c :: s) = none) :
    hideAll drop (c :: s) = c :: hideAll drop s := by
  rw [hideAll, h]

theorem hideAll_of_some {c : Char} (h : drop (c :: s) = some t) (hlen : t.length ≤ s.length) :
    hideAll drop (c :: s) = mask ++ hideAll drop t := by
  rw [hideAll, h]
  show (if _ then _ else _) = _
  rw [if_pos hlen]

theorem Passes.hideAll_eq (h : Passes drop s out rest) :
    hideAll drop s = out ++ hideAll drop rest := by
  induction h with
  | done s => rfl
  | copy h _ ih => rw [hideAll_of_none h, ih, List.cons_append]
  | hide h hlen _ ih => rw [hideAll_of_some h hlen, ih, List.append_assoc]

/-- A text is copied up to a place before which nothing is taken off. -/
theorem passes_copy (h : ∀ u, u <:+ s → u ≠ [] → drop (u ++ t) = none) :
    Passes drop (s ++ t) s t := by
  induction s with
  | nil => exact .done t
  | cons c s ih =>
      refine .copy (h (c :: s) (List.suffix_refl _) (List.cons_ne_nil c s)) (ih ?_)
      exact fun u hu => h u (hu.trans (List.suffix_cons c s))

/-! ## Characters -/

/-- The text has no characters but the allowed ones and the mask's. -/
def Only (allowed s : List Char) : Prop := ∀ c ∈ s, c ∈ allowed ∨ c = '*'

variable {allowed : List Char}

theorem only_self (s : List Char) : Only s s := fun _ hc => Or.inl hc

theorem only_mask (allowed : List Char) : Only allowed mask := by
  intro c hc
  exact Or.inr (List.eq_of_mem_replicate (show c ∈ List.replicate 4 '*' from hc))

theorem only_nil (allowed : List Char) : Only allowed [] := List.forall_mem_nil _

theorem Only.cons {c : Char} (hc : c ∈ allowed ∨ c = '*') (hs : Only allowed s) :
    Only allowed (c :: s) :=
  List.forall_mem_cons.mpr ⟨hc, hs⟩

theorem Only.append (hs : Only allowed s) (ht : Only allowed t) : Only allowed (s ++ t) :=
  List.forall_mem_append.mpr ⟨hs, ht⟩

theorem Only.of_suffix (ht : Only allowed t) (h : s <:+ t) : Only allowed s :=
  fun c hc => ht c (h.subset hc)

theorem Only.mono {wider : List Char} (hs : Only allowed s) (h : allowed ⊆ wider) :
    Only wider s :=
  fun c hc => (hs c hc).imp_left (@h c)

theorem Only.trans {wider : List Char} (hs : Only allowed s)
    (h : Only wider allowed) : Only wider s :=
  fun c hc => (hs c hc).elim (h c) Or.inr

/-- A pass writes nothing but what it has read, and the mask. -/
theorem only_hideAll (hdrop : Consumes drop) (hs : Only allowed s) :
    Only allowed (hideAll drop s) := by
  induction s using hideAll.induct drop with
  | case1 =>
      rw [hideAll]
      exact hs
  | case2 c s t h hlen ih =>
      rw [hideAll_of_some h hlen]
      refine (only_mask allowed).append (ih ?_)
      exact hs.of_suffix ((hdrop c s t h).trans (List.suffix_cons c s))
  | case3 c s t h hlen ih =>
      exact absurd (hdrop c s t h).length_le hlen
  | case4 c s h ih =>
      rw [hideAll_of_none h]
      exact (ih (hs.of_suffix (List.suffix_cons c s))).cons (hs c List.mem_cons_self)

end SshDial.Secret
