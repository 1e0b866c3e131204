/-! # Wildcards — patterns over UTF-16 units

    `Wildcard.accepts` decides a pattern for all suffixes of a text at once, from the last
    piece of the pattern to the first, so its cost is the product of the two lengths.
    `accepts_iff_matches` ties it to `Wildcard.Matches`, where a text is cut into one stretch
    per piece. -/

namespace SshDial

/-- A piece of a wildcard pattern: any run of units, or one unit of a described kind. -/
inductive Wildcard (κ : Type) where
  | run
  | one (kind : κ)
  deriving DecidableEq, Repr

namespace Wildcard

variable {κ : Type} (ok : κ → Nat → Bool)

/-- A text is cut into consecutive stretches, one per piece. -/
inductive Matches : List (Wildcard κ) → List Nat → Prop where
  | nil : Matches [] []
  | run (skipped : List Nat) {p : List (Wildcard κ)} {s : List Nat} :
      Matches p s → Matches (.run :: p) (skipped ++ s)
  | one {kind : κ} {u : Nat} {p : List (Wildcard κ)} {s : List Nat} :
      ok kind u = true → Matches p s → Matches (.one kind :: p) (u :: s)

/-- For each position, whether some position from there on holds. -/
def anyFrom : List Bool → List Bool
  | [] => []
  | b :: bs =>
    match anyFrom bs with
    | [] => [b]
    | r :: rs => (b || r) :: r :: rs

/-- For each position of a text, whether its unit is of the kind and the next position holds. -/
def oneThen (kind : κ) : List Nat → List Bool → List Bool
  | u :: s, _ :: next :: rest => (ok kind u && next) :: oneThen kind s (next :: rest)
  | _, _ => [false]

/-- Whether the pattern matches each suffix of the text, the whole text first. -/
def suffixes : List (Wildcard κ) → List Nat → List Bool
  | [], s => s.map (fun _ => false) ++ [true]
  | .run :: p, s => anyFrom (suffixes p s)
  | .one kind :: p, s => oneThen ok kind s (suffixes p s)

/-- Does the pattern match the whole text? -/
def accepts (p : List (Wildcard κ)) (s : List Nat) : Bool := (suffixes ok p s).headD false

theorem anyFrom_cons (b : Bool) (bs : List Bool) :
    anyFrom (b :: bs) = (b || (anyFrom bs).headD false) :: anyFrom bs := by
  simp only [anyFrom]
  split <;> rename_i h <;> simp [h]

theorem suffixes_of_nil (p : List (Wildcard κ)) : ∃ b, suffixes ok p [] = [b] := by
  induction p with
  | nil => exact ⟨true, rfl⟩
  | cons piece p ih =>
    obtain ⟨b, hb⟩ := ih
    cases piece with
    | run => exact ⟨b, by simp [suffixes, hb, anyFrom]⟩
    | one kind => exact ⟨false, by simp [suffixes, oneThen]⟩

theorem suffixes_ne_nil (p : List (Wildcard κ)) (s : List Nat) : suffixes ok p s ≠ [] := by
  induction p with
  | nil => simp [suffixes]
  | cons piece p ih =>
    cases piece with
    | run =>
      rw [suffixes]
      cases h : suffixes ok p s with
      | nil => exact absurd h ih
      | cons b bs => simp [anyFrom_cons]
    | one kind =>
      rw [suffixes]
      unfold oneThen
      split <;> simp

/-- The table of a text continues with the table of what follows its first unit. -/
theorem suffixes_cons (p : List (Wildcard κ)) (u : Nat) (s : List Nat) :
    ∃ b, suffixes ok p (u :: s) = b :: suffixes ok p s := by
  induction p with
  | nil => exact ⟨false, rfl⟩
  | cons piece p ih =>
    obtain ⟨b, hb⟩ := ih
    cases piece with
    | run => exact ⟨_, by rw [suffixes, suffixes, hb, anyFrom_cons]⟩
    | one kind =>
      cases s with
      | nil =>
        obtain ⟨c, hc⟩ := suffixes_of_nil ok p
        exact ⟨_, by rw [suffixes, suffixes, hb, hc]; rfl⟩
      | cons v s =>
        cases hs : suffixes ok p (v :: s) with
        | nil => exact absurd hs (suffixes_ne_nil ok p _)
        | cons c cs => exact ⟨_, by rw [suffixes, suffixes, hb, hs]; rfl⟩

theorem accepts_nil (s : List Nat) : accepts ok [] s = s.isEmpty := by
  cases s <;> rfl

theorem accepts_run (p : List (Wildcard κ)) (s : List Nat) :
    accepts ok (.run :: p) s =
      (accepts ok p s || match s with | [] => false | _ :: t => accepts ok (.run :: p) t) := by
  cases s with
  | nil =>
    obtain ⟨b, hb⟩ := suffixes_of_nil ok p
    simp [accepts, suffixes, hb, anyFrom]
  | cons u t =>
    obtain ⟨b, hb⟩ := suffixes_cons ok p u t
    simp [accepts, suffixes, hb, anyFrom_cons]

theorem accepts_one (kind : κ) (p : List (Wildcard κ)) (s : List Nat) :
    accepts ok (.one kind :: p) s =
      match s with
      | [] => false
      | u :: t => ok kind u && accepts ok p t := by
  cases s with
  | nil => simp [accepts, suffixes, oneThen]
  | cons u t =>
    obtain ⟨b, hb⟩ := suffixes_cons ok p u t
    cases t with
    | nil =>
      obtain ⟨c, hc⟩ := suffixes_of_nil ok p
      simp [accepts, suffixes, hb, hc, oneThen]
    | cons v t =>
      obtain ⟨c, hc⟩ := suffixes_cons ok p v t
      simp [accepts, suffixes, hb, hc, oneThen]

/-- A pattern is accepted exactly when the text can be cut to fit it. -/
theorem accepts_iff_matches (p : List (Wildcard κ)) (s : List Nat) :
    accepts ok p s = true ↔ Matches ok p s := by
  induction p generalizing s with
  | nil =>
    rw [accepts_nil]
    constructor
    · intro h
      rw [List.isEmpty_iff.1 h]
      exact .nil
    · rintro ⟨⟩
      rfl
  | cons piece p ih =>
    cases piece with
    | run =>
      induction s with
      | nil =>
        rw [accepts_run]
        simp only [Bool.or_false, ih]
        constructor
        · exact fun h => .run [] h
        · intro h
          generalize hs : ([] : List Nat) = s at h
          cases h with
          | run skipped h => simp_all
      | cons u t iht =>
        rw [accepts_run]
        simp only [Bool.or_eq_true, ih, iht]
        constructor
        · rintro (h | h)
          · exact .run [] h
          · generalize hq : Wildcard.run :: p = q at h
            cases h with
            | nil => simp at hq
            | run skipped h =>
              cases hq
              exact .run (u :: skipped) h
            | one hk h => simp at hq
        · intro h
          generalize hs : u :: t = s at h
          cases h with
          | run skipped h =>
            cases skipped with
            | nil => exact .inl (by simpa [hs] using h)
            | cons v skipped =>
              simp only [List.cons_append, List.cons.injEq] at hs
              exact .inr (hs.2 ▸ .run skipped h)
    | one kind =>
      rw [accepts_one]
      cases s with
      | nil =>
        constructor
        · simp
        · rintro ⟨⟩
      | cons u t =>
        simp only [Bool.and_eq_true, ih]
        constructor
        · exact fun h => .one h.1 h.2
        · rintro ⟨⟩
          exact ⟨by assumption, by assumption⟩

end Wildcard

end SshDial
