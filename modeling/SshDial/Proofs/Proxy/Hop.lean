import SshDial.Jump
import SshDial.Proofs.Number.Decimal

/-! # Hops — what an accepted hop is made of

    A hop is cut at its first at sign, at its brackets or its colon, and the parts are
    checked one by one.  What is accepted is a scheme mark or nothing, and then the parts of
    the hop with the marks between them (`Hop.exists_mark_of_ofChars?`).  So an accepted hop
    is written in few characters, the same ones wherever it comes from
    (`Hop.isHopChar_of_ofChars?`). -/

namespace SshDial

open SshDial.Text

namespace Hop

/-- The user with the at sign behind it, if there is one. -/
def userChars : Option String → List Char
  | some user => user.toList ++ ['@']
  | none => []

/-- The port with the colon in front of it, if there is one. -/
def portChars : Option String → List Char
  | some port => ':' :: port.toList
  | none => []

/-- A hop as it is written without a scheme mark. -/
def chars (h : Hop) : List Char := userChars h.user ++ h.host.toList ++ portChars h.port

/-- The parts of a hop have passed their checks. -/
structure IsChecked (h : Hop) : Prop where
  user : ∀ user ∈ h.user, isName ['.', '+', '-'] user.toList = true
  host : isHost h.host.toList = true
  port : ∀ port ∈ h.port, port.toList ≠ [] ∧ ∀ c ∈ port.toList, isDigit c = true

/-- The characters that an accepted hop may hold. -/
def isHopChar (c : Char) : Bool :=
  isWordChar c || ['.', '+', '-', ':', '@', '[', ']', '/'].contains c

/-! ## Cutting a hop -/

theorem exists_mark_afterScheme (s : List Char) :
    ∃ mark ∈ [[], "ssh://".toList], s = mark ++ afterScheme s := by
  rw [afterScheme]
  split
  · rename_i hmark
    obtain ⟨rest, rfl⟩ := List.isPrefixOf_iff_prefix.mp hmark
    refine ⟨_, List.mem_cons_of_mem _ List.mem_cons_self, ?_⟩
    rw [List.drop_left' (by decide)]
  · exact ⟨[], List.mem_cons_self, rfl⟩

theorem splitUser_spec (s : List Char) : s = userChars (splitUser s).1 ++ (splitUser s).2 := by
  have hstop := List.head?_dropWhile_not (· != '@') s
  have hcut : s.takeWhile (· != '@') ++ s.dropWhile (· != '@') = s :=
    List.takeWhile_append_dropWhile
  rw [splitUser]
  cases hrest : s.dropWhile (· != '@') with
  | nil => rfl
  | cons c rest =>
      rw [hrest] at hstop hcut
      -- What the user ends at is an at sign.
      obtain rfl : c = '@' := by simpa using hstop
      show s = (String.ofList _).toList ++ ['@'] ++ rest
      rw [String.toList_ofList, List.append_assoc]
      exact hcut.symm

theorem splitHost_spec (s : List Char) : s = (splitHost s).1 ++ (splitHost s).2 := by
  have hcut : ∀ p : Char → Bool, s.takeWhile p ++ s.dropWhile p = s := fun p =>
    List.takeWhile_append_dropWhile
  unfold splitHost
  split
  · rename_i rest
    have hbracket := hcut (· != ']')
    split
    · exact (List.append_nil _).symm
    · rename_i close behind hclose
      rw [hclose] at hbracket
      show _ = _ ++ [close] ++ behind
      rw [List.append_assoc]
      exact hbracket.symm
  · exact (hcut _).symm

theorem port?_spec {s : List Char} {port : Option String} (h : port? s = some port) :
    s = portChars port
      ∧ ∀ p ∈ port, p.toList ≠ [] ∧ ∀ c ∈ p.toList, isDigit c = true := by
  unfold port? at h
  split at h
  · obtain rfl := Option.some.inj h
    exact ⟨rfl, fun p hp => (nomatch hp)⟩
  · rename_i digits
    split at h
    · exact nomatch h
    · rename_i hdigits
      obtain rfl := Option.some.inj h
      rw [Bool.or_eq_true, not_or, List.isEmpty_iff, Bool.not_eq_true', Bool.not_eq_false,
        List.all_eq_true] at hdigits
      refine ⟨congrArg (':' :: ·) String.toList_ofList.symm, fun p hp => ?_⟩
      obtain rfl := Option.some.inj hp
      rw [String.toList_ofList]
      exact hdigits
  · exact nomatch h

/-- **What an accepted hop is made of**: a scheme mark or nothing, and then its parts, all
    of them checked. -/
theorem exists_mark_of_ofChars? {s : List Char} {h : Hop} (hs : ofChars? s = some h) :
    h.IsChecked ∧ ∃ mark ∈ [[], "ssh://".toList], s = mark ++ h.chars := by
  obtain ⟨mark, hmark, hscheme⟩ := exists_mark_afterScheme s
  have huser := splitUser_spec (afterScheme s)
  have hhost := splitHost_spec (splitUser (afterScheme s)).2
  rw [ofChars?] at hs
  dsimp only at hs
  split at hs
  · rename_i hchecks
    rw [Bool.and_eq_true, Option.all_eq_true] at hchecks
    obtain ⟨port, hport, rfl⟩ := Option.map_eq_some_iff.mp hs
    obtain ⟨hbehind, hdigits⟩ := port?_spec hport
    refine ⟨⟨hchecks.1, ?_, hdigits⟩, mark, hmark, ?_⟩
    · rw [String.toList_ofList]
      exact hchecks.2
    · rw [chars, String.toList_ofList, ← hbehind, List.append_assoc, ← hhost, ← huser]
      exact hscheme
  · exact nomatch hs

/-! ## The characters of a hop -/

theorem isHopChar_of_isWordChar {c : Char} (h : isWordChar c = true) : isHopChar c = true := by
  rw [isHopChar, h, Bool.true_or]

theorem isWordChar_of_isDigit {c : Char} (h : isDigit c = true) : isWordChar c = true := by
  rw [isWordChar, Char.isAlphanum, show c.isDigit = true from h, Bool.or_true, Bool.true_or]

theorem isHopChar_of_isName {others s : List Char} (h : isName others s = true)
    (hothers : others.all isHopChar = true) : ∀ c ∈ s, isHopChar c = true := by
  cases s with
  | nil => exact nomatch h
  | cons first rest =>
      rw [isName, Bool.and_eq_true, List.all_eq_true] at h
      intro c hc
      rcases List.mem_cons.mp hc with rfl | hc
      · exact isHopChar_of_isWordChar h.1
      · rcases Bool.or_eq_true _ _ ▸ h.2 c hc with hword | hother
        · exact isHopChar_of_isWordChar hword
        · exact List.all_eq_true.mp hothers c (List.contains_iff_mem.mp hother)

theorem isHopChar_of_isAddress {s : List Char} (h : isAddress s = true) :
    ∀ c ∈ s, isHopChar c = true := by
  intro c hc
  rw [isAddress, Bool.and_eq_true, List.all_eq_true] at h
  have hchar := h.2 c hc
  simp only [Bool.or_eq_true, Bool.and_eq_true, decide_eq_true_eq, beq_iff_eq] at hchar
  have hletter : ∀ low high : Char, low ≤ c → c ≤ high →
      65 ≤ low.toNat ∧ high.toNat ≤ 90 ∨ 97 ≤ low.toNat ∧ high.toNat ≤ 122 →
      isHopChar c = true := by
    intro low high hlow hhigh hrange
    have hlow' : low.toNat ≤ c.toNat := hlow
    have hhigh' : c.toNat ≤ high.toNat := hhigh
    refine isHopChar_of_isWordChar ?_
    rw [isWordChar, Char.isAlphanum, Bool.or_eq_true, Bool.or_eq_true, isAlpha_iff]
    left
    left
    rcases hrange with hupper | hlower
    · exact Or.inl ⟨Nat.le_trans hupper.1 hlow', Nat.le_trans hhigh' hupper.2⟩
    · exact Or.inr ⟨Nat.le_trans hlower.1 hlow', Nat.le_trans hhigh' hlower.2⟩
  rcases hchar with (((hdigit | hsmall) | hbig) | rfl) | rfl
  · exact isHopChar_of_isWordChar (isWordChar_of_isDigit hdigit)
  · exact hletter 'a' 'f' hsmall.1 hsmall.2 (by decide)
  · exact hletter 'A' 'F' hbig.1 hbig.2 (by decide)
  · decide
  · decide

/-- A host is a name, or an address in brackets. -/
theorem name_or_address_of_isHost {s : List Char} (h : isHost s = true) :
    isName ['.', '-'] s = true
      ∨ ∃ inner, isAddress inner = true ∧ s = '[' :: inner ++ [']'] := by
  unfold isHost at h
  split at h
  · rename_i rest
    rw [Bool.and_eq_true, beq_iff_eq] at h
    obtain ⟨inner, rfl⟩ := List.getLast?_eq_some_iff.mp h.1
    rw [List.dropLast_concat] at h
    exact Or.inr ⟨inner, h.2, rfl⟩
  · exact Or.inl h

theorem isHopChar_of_isHost {s : List Char} (h : isHost s = true) :
    ∀ c ∈ s, isHopChar c = true := by
  rcases name_or_address_of_isHost h with hname | ⟨inner, hinner, rfl⟩
  · exact isHopChar_of_isName hname (by decide)
  · intro c hc
    rcases List.mem_append.mp hc with hc | hc
    · rcases List.mem_cons.mp hc with rfl | hc
      · decide
      · exact isHopChar_of_isAddress hinner c hc
    · obtain rfl := List.mem_singleton.mp hc
      decide

theorem IsChecked.isHopChar_user {h : Hop} (hh : h.IsChecked) {user : String}
    (huser : h.user = some user) : ∀ c ∈ user.toList, isHopChar c = true :=
  isHopChar_of_isName (hh.user user huser) (by decide)

theorem IsChecked.isHopChar_port {h : Hop} (hh : h.IsChecked) {port : String}
    (hport : h.port = some port) : ∀ c ∈ port.toList, isHopChar c = true := fun c hc =>
  isHopChar_of_isWordChar (isWordChar_of_isDigit ((hh.port port hport).2 c hc))

/-- An accepted hop holds nothing but hop characters. -/
theorem isHopChar_of_ofChars? {s : List Char} {h : Hop} (hs : ofChars? s = some h) :
    ∀ c ∈ s, isHopChar c = true := by
  obtain ⟨hh, mark, hmark, rfl⟩ := exists_mark_of_ofChars? hs
  have hmarks : ([[], "ssh://".toList].all fun mark => mark.all isHopChar) = true := by decide
  have huser : ∀ c ∈ userChars h.user, isHopChar c = true := by
    cases hu : h.user with
    | none => exact fun c hc => (nomatch hc)
    | some user =>
        exact List.forall_mem_append.mpr
          ⟨hh.isHopChar_user hu, List.forall_mem_singleton.mpr (by decide)⟩
  have hport : ∀ c ∈ portChars h.port, isHopChar c = true := by
    cases hp : h.port with
    | none => exact fun c hc => (nomatch hc)
    | some port => exact List.forall_mem_cons.mpr ⟨by decide, hh.isHopChar_port hp⟩
  exact List.forall_mem_append.mpr ⟨List.all_eq_true.mp (List.all_eq_true.mp hmarks mark hmark),
    List.forall_mem_append.mpr
      ⟨List.forall_mem_append.mpr ⟨huser, isHopChar_of_isHost hh.host⟩, hport⟩⟩

end Hop

end SshDial
