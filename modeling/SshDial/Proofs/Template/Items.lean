import Mathlib.Logic.ExistsUnique
import SshDial.Proofs.Template
import SshDial.Text.Units

/-! # Items — a template as literals and pairs

    Every text is a row of items in one way: literal units, pairs of a percent sign and a
    unit, and perhaps a percent sign alone at the end (`Template.areItems_iff`).  A template
    stands for what its items stand for, one after the other
    (`Template.units_expandChars`), so nothing that is put in is looked at again.  What
    comes of that for templates put together, and for doubled percent signs, is in
    `Template.expand_items`. -/

namespace SshDial

open SshDial.Text

namespace Text

/-! ## Units -/

theorem unitsOf_of_lt {c : Char} (h : c.toNat < 0x10000) : unitsOf c = [c.toNat] := if_pos h

/-- A character is one unit outside of the surrogates, or a pair of them. -/
theorem unitsOf_cases (c : Char) :
    (c.toNat < 0x10000 ∧ unitsOf c = [c.toNat] ∧ (c.toNat < 0xD800 ∨ 0xE000 ≤ c.toNat))
      ∨ ∃ hi lo, unitsOf c = [hi, lo] ∧ 0xD800 ≤ hi ∧ hi < 0xDC00 ∧ 0xDC00 ≤ lo ∧ lo < 0xE000
        ∧ c.toNat = 0x10000 + (hi - 0xD800) * 0x400 + (lo - 0xDC00) := by
  have hvalid : c.toNat < 0xD800 ∨ 0xDFFF < c.toNat ∧ c.toNat < 0x110000 := c.valid
  by_cases hc : c.toNat < 0x10000
  · refine Or.inl ⟨hc, if_pos hc, ?_⟩
    omega
  · refine Or.inr ⟨_, _, if_neg hc, ?_⟩
    omega

theorem toNat_inj {c d : Char} (h : c.toNat = d.toNat) : c = d := by
  rw [← Char.ofNat_toNat c, h, Char.ofNat_toNat]

theorem unitsOf_ne_nil (c : Char) : unitsOf c ≠ [] := by
  rw [unitsOf]
  split
  · exact List.cons_ne_nil _ _
  · exact List.cons_ne_nil _ _

/-- Units begin with those of one character only: a single one is no surrogate, and the first
    of two is one. -/
theorem unitsOf_append_inj {c d : Char} {s t : List Nat}
    (h : unitsOf c ++ s = unitsOf d ++ t) : c = d ∧ s = t := by
  -- The range of the first unit tells one unit from two.
  obtain ⟨-, hc, hcrange⟩ | ⟨hi, lo, hc, hhi, hhi', -, -, hcvalue⟩ := unitsOf_cases c
  · obtain ⟨-, hd, -⟩ | ⟨hi', lo', hd, hlow, hhigh, -⟩ := unitsOf_cases d
    · rw [hc, hd] at h
      obtain ⟨hfirst, hrest⟩ := List.cons.inj h
      exact ⟨toNat_inj hfirst, hrest⟩
    · rw [hc, hd] at h
      have hfirst := (List.cons.inj h).1
      omega
  · obtain ⟨-, hd, hdrange⟩ | ⟨hi', lo', hd, -, -, -, -, hdvalue⟩ := unitsOf_cases d
    · rw [hc, hd] at h
      have hfirst := (List.cons.inj h).1
      omega
    · rw [hc, hd] at h
      obtain ⟨hfirst, hrest⟩ := List.cons.inj h
      obtain ⟨hsecond, hrest⟩ := List.cons.inj hrest
      refine ⟨toNat_inj ?_, hrest⟩
      rw [hcvalue, hdvalue, hfirst, hsecond]

/-- A text is known by its units. -/
theorem units_inj {s t : List Char} (h : units s = units t) : s = t := by
  have hcons : ∀ c s, units (c :: s) = unitsOf c ++ units s := fun _ _ => List.flatMap_cons
  induction s generalizing t with
  | nil =>
      cases t with
      | nil => rfl
      | cons d t =>
          rw [hcons] at h
          exact absurd (List.append_eq_nil_iff.mp h.symm).1 (unitsOf_ne_nil d)
  | cons c s ih =>
      cases t with
      | nil =>
          rw [hcons] at h
          exact absurd (List.append_eq_nil_iff.mp h).1 (unitsOf_ne_nil c)
      | cons d t =>
          rw [hcons, hcons] at h
          obtain ⟨rfl, hrest⟩ := unitsOf_append_inj h
          rw [ih hrest]

end Text

namespace Template

/-! ## Items -/

/-- One item of a template, by its units. -/
inductive Item where
  | literal (unit : Nat)
  /-- A percent sign and the unit behind it. -/
  | pair (letter : Nat)
  /-- A percent sign with nothing behind it. -/
  | lone
  deriving DecidableEq, Repr

/-- The percent sign as a unit. -/
def percent : Nat := '%'.toNat

/-- Items that make a template: no literal is a percent sign, and a lone one can only be the
    last item. -/
inductive AreItems : List Item → Prop where
  | nil : AreItems []
  | lone : AreItems [.lone]
  | literal {u : Nat} {items : List Item} :
      u ≠ percent → AreItems items → AreItems (.literal u :: items)
  | pair {u : Nat} {items : List Item} : AreItems items → AreItems (.pair u :: items)

/-- The value of a unit, if the character that it is has one. -/
def valueOfUnit (values : Values) (u : Nat) : Option String :=
  (values.find? fun entry => unitsOf entry.1 == [u]).map (·.2)

namespace Item

/-- The units that write an item. -/
def written : Item → List Nat
  | .literal u => [u]
  | .pair u => [percent, u]
  | .lone => [percent]

/-- The units that an item stands for: those of the value of a pair that has one, a percent
    sign for a pair of them, and what is written for anything else. -/
def text (values : Values) : Item → List Nat
  | .literal u => [u]
  | .pair u =>
    if u = percent then [percent]
    else
      match valueOfUnit values u with
      | some value => units value.toList
      | none => [percent, u]
  | .lone => [percent]

end Item

/-- The items of some units. -/
def itemsOf : List Nat → List Item
  | [] => []
  | u :: t =>
    if u = percent then
      match t with
      | [] => [.lone]
      | letter :: rest => .pair letter :: itemsOf rest
    else .literal u :: itemsOf t

theorem itemsOf_literal {u : Nat} (h : u ≠ percent) (t : List Nat) :
    itemsOf (u :: t) = .literal u :: itemsOf t := by
  cases t with
  | nil => exact if_neg h
  | cons letter rest => exact if_neg h

theorem itemsOf_pair (u : Nat) (t : List Nat) :
    itemsOf (percent :: u :: t) = .pair u :: itemsOf t :=
  if_pos rfl

/-- **Units make items in one way.** -/
theorem areItems_iff {items : List Item} {t : List Nat} :
    AreItems items ∧ items.flatMap Item.written = t ↔ items = itemsOf t := by
  constructor
  · rintro ⟨hitems, rfl⟩
    induction hitems with
    | nil => rfl
    | lone => rfl
    | @literal u items hu _ ih =>
        have hcons := itemsOf_literal hu (items.flatMap Item.written)
        rw [← ih] at hcons
        exact hcons.symm
    | @pair u items _ ih =>
        have hcons := itemsOf_pair u (items.flatMap Item.written)
        rw [← ih] at hcons
        exact hcons.symm
  · rintro rfl
    fun_induction itemsOf t with
    | case1 => exact ⟨.nil, rfl⟩
    | case2 => exact ⟨.lone, rfl⟩
    | case3 letter rest ih =>
        refine ⟨.pair ih.1, ?_⟩
        rw [List.flatMap_cons, ih.2]
        rfl
    | case4 u t hu ih =>
        refine ⟨.literal hu ih.1, ?_⟩
        rw [List.flatMap_cons, ih.2]
        rfl

/-- Units in two parts make the items of both, unless a percent sign stands alone between
    them. -/
theorem itemsOf_append {s : List Nat} (h : .lone ∉ itemsOf s) (t : List Nat) :
    itemsOf (s ++ t) = itemsOf s ++ itemsOf t := by
  fun_induction itemsOf s with
  | case1 => rfl
  | case2 => exact absurd List.mem_cons_self h
  | case3 letter rest ih =>
      have hrest := ih fun hmem => h (List.mem_cons_of_mem _ hmem)
      rw [List.cons_append, List.cons_append, itemsOf_pair, hrest, List.cons_append]
  | case4 u s hu ih =>
      have hrest := ih fun hmem => h (List.mem_cons_of_mem _ hmem)
      rw [List.cons_append, itemsOf_literal hu, hrest, List.cons_append]

/-! ## What a template stands for -/

section Expansion

variable {values : Values}

theorem itemsOf_literals {us : List Nat} (h : percent ∉ us) : itemsOf us = us.map .literal := by
  induction us with
  | nil => rfl
  | cons u us ih =>
      obtain ⟨hu, hus⟩ := not_or.mp (mt List.mem_cons.mpr h)
      rw [itemsOf_literal (Ne.symm hu), ih hus, List.map_cons]

theorem flatMap_text_literal (us : List Nat) :
    (us.map Item.literal).flatMap (Item.text values) = us := by
  rw [List.flatMap_map]
  exact List.flatMap_singleton' us

/-- No unit of another character is a percent sign. -/
theorem percent_not_mem {c : Char} (h : c ≠ '%') : percent ∉ unitsOf c := by
  intro hmem
  obtain ⟨-, hc, -⟩ | ⟨hi, lo, hc, hrange⟩ := unitsOf_cases c
  · rw [hc, List.mem_singleton] at hmem
    exact h (toNat_inj hmem.symm)
  · have hpercent : percent = 37 := rfl
    rw [hc, hpercent] at hmem
    simp only [List.mem_cons, List.not_mem_nil, or_false] at hmem
    omega

/-- The values by units are those by letters. -/
theorem valueOfUnit_of_lt {c : Char} (h : c.toNat < 0x10000) :
    valueOfUnit values c.toNat = values.lookup c := by
  have hsame : ∀ d : Char, (unitsOf d == [c.toNat]) = (c == d) := by
    intro d
    rw [Bool.eq_iff_iff, beq_iff_eq, beq_iff_eq, ← unitsOf_of_lt h]
    constructor
    · intro heq
      exact (unitsOf_append_inj (s := []) (t := []) (congrArg (· ++ []) heq)).1.symm
    · rintro rfl
      rfl
  rw [valueOfUnit]
  induction values with
  | nil => rfl
  | cons entry values ih =>
      rw [List.find?_cons, List.lookup_cons, hsame]
      cases c == entry.1 with
      | true => rfl
      | false => exact ih

/-- Half of a character that takes two units has no value. -/
theorem valueOfUnit_of_surrogate {u : Nat} (hlow : 0xD800 ≤ u) (hhigh : u < 0xE000) :
    valueOfUnit values u = none := by
  rw [valueOfUnit, Option.map_eq_none_iff, List.find?_eq_none]
  intro entry _ heq
  obtain ⟨-, hc, hrange⟩ | ⟨hi, lo, hc, -⟩ := unitsOf_cases entry.1
  · rw [hc, beq_iff_eq, List.singleton_inj] at heq
    omega
  · rw [hc, beq_iff_eq] at heq
    exact nomatch heq

/-- A percent sign with a character behind it stands for what the items of both do. -/
theorem units_pair (values : Values) (c : Char) :
    units (pair values c) = (itemsOf (percent :: unitsOf c)).flatMap (Item.text values) := by
  by_cases hc : c = '%'
  · rw [hc, pair, if_pos rfl]
    rfl
  · rw [pair, if_neg hc, value?]
    obtain ⟨hlt, hunits, -⟩ | ⟨hi, lo, hunits, hlow, hhigh, hlow', -, hvalue⟩ := unitsOf_cases c
    · have hne : c.toNat ≠ percent := fun heq => hc (toNat_inj heq)
      rw [if_pos hlt, hunits, itemsOf_pair]
      show _ = (if c.toNat = percent then _ else _) ++ []
      rw [if_neg hne, List.append_nil, valueOfUnit_of_lt hlt]
      cases values.lookup c with
      | some value => rfl
      | none =>
          show unitsOf '%' ++ (unitsOf c ++ []) = [percent, c.toNat]
          rw [hunits]
          rfl
    · -- The first half is asked for, and the second is a literal.
      have hpercent : percent = 37 := rfl
      have hlit : itemsOf [lo] = [.literal lo] := itemsOf_literal (by omega) []
      rw [if_neg (by omega), hunits, itemsOf_pair, hlit]
      show unitsOf '%' ++ (unitsOf c ++ [])
        = (if hi = percent then _ else _) ++ ([lo] ++ [])
      rw [if_neg (by omega), valueOfUnit_of_surrogate hlow (by omega), hunits]
      rfl

theorem lone_not_mem_pair (c : Char) : .lone ∉ itemsOf (percent :: unitsOf c) := by
  obtain ⟨-, hunits, -⟩ | ⟨hi, lo, hunits, -, -, hlow, -⟩ := unitsOf_cases c
  · rw [hunits, itemsOf_pair]
    exact nofun
  · have hpercent : percent = 37 := rfl
    have hlit : itemsOf [lo] = [.literal lo] := itemsOf_literal (by omega) []
    rw [hunits, itemsOf_pair, hlit]
    exact nofun

/-- **A template stands for what its items stand for**, one after the other. -/
theorem units_expandChars (values : Values) (s : List Char) :
    units (expandChars values s) = (itemsOf (units s)).flatMap (Item.text values) := by
  -- Behind a pair or a character no percent sign waits for a letter, so the items can be
  -- cut there, also if the letter of the pair has two units.
  induction s using expandChars.induct with
  | case1 => rfl
  | case2 => rfl
  | case3 c rest ih =>
      have hunits : units ('%' :: c :: rest) = (percent :: unitsOf c) ++ units rest := rfl
      rw [expandChars, units_append, units_pair, ih, hunits,
        itemsOf_append (lone_not_mem_pair c), List.flatMap_append]
  | case4 c rest hlone hpair ih =>
      have hc : c ≠ '%' := by
        rintro rfl
        cases rest with
        | nil => exact hlone rfl rfl
        | cons letter rest => exact hpair letter rest rfl rfl
      have hliterals := itemsOf_literals (percent_not_mem hc)
      have hclosed : .lone ∉ itemsOf (unitsOf c) := by
        rw [hliterals, List.mem_map]
        rintro ⟨u, -, ⟨⟩⟩
      have hunits : ∀ s, units (c :: s) = unitsOf c ++ units s := fun _ => rfl
      rw [expandChars, hunits, ih, hunits, itemsOf_append hclosed, List.flatMap_append, hliterals,
        flatMap_text_literal]
      all_goals assumption

end Expansion

/-! ## Templates put together -/

/-- The text with every percent sign written twice. -/
def doubled (s : String) : String :=
  String.ofList (s.toList.flatMap fun c => if c = '%' then ['%', '%'] else [c])

/-- Doubled percent signs are percent signs again. -/
theorem expand_doubled (values : Values) (s : String) : expand values (doubled s) = s := by
  have hchars : ∀ s : List Char,
      expandChars values (s.flatMap fun c => if c = '%' then ['%', '%'] else [c]) = s := by
    intro s
    induction s with
    | nil => rfl
    | cons c s ih =>
        rw [List.flatMap_cons]
        by_cases hc : c = '%'
        · rw [if_pos hc, hc]
          show pair values '%' ++ expandChars values (s.flatMap _) = _
          rw [ih]
          rfl
        · rw [if_neg hc, List.singleton_append, expandChars_cons hc, ih]
  rw [expand, doubled, String.toList_ofList, hchars, String.ofList_toList]

/-- **Expansion is one pass over the items.** Units make items in one way, and a template
    stands for what its items stand for, one after the other, and for nothing else.  So
    what is behind a template without a lone percent sign is expanded by itself, and so
    is what stands around a value, whatever signs the value holds; and a text with its
    percent signs doubled stands for itself. -/
theorem expand_items (values : Values) :
    (∀ t : List Nat, ∃! items, AreItems items ∧ items.flatMap Item.written = t)
    ∧ (∀ (template : String) (items : List Item), AreItems items →
        items.flatMap Item.written = units template.toList →
        (∀ s : String, expand values template = s
          ↔ units s.toList = items.flatMap (Item.text values))
        ∧ (.lone ∉ items → ∀ rest : String,
          expand values (template ++ rest) = expand values template ++ expand values rest
          ∧ ∀ letter value, letter ≠ '%' → value? values letter = some value →
            expand values (template ++ String.ofList ['%', letter] ++ rest)
              = expand values template ++ value ++ expand values rest))
    ∧ ∀ s : String, expand values (doubled s) = s := by
  have hunits : ∀ template : String, units (expand values template).toList
      = (itemsOf (units template.toList)).flatMap (Item.text values) := by
    intro template
    rw [expand, String.toList_ofList, units_expandChars]
  have happend : ∀ template rest : String, .lone ∉ itemsOf (units template.toList) →
      expand values (template ++ rest) = expand values template ++ expand values rest := by
    intro template rest hclosed
    refine String.toList_inj.mp (units_inj ?_)
    rw [hunits, String.toList_append, units_append, itemsOf_append hclosed,
      List.flatMap_append, String.toList_append, units_append, hunits, hunits]
  refine ⟨fun t => ⟨itemsOf t, areItems_iff.mpr rfl, fun items => areItems_iff.mp⟩, ?_,
    expand_doubled values⟩
  intro template items hitems hwritten
  obtain rfl := areItems_iff.mp ⟨hitems, hwritten⟩
  refine ⟨fun s => ?_, fun hclosed rest => ⟨happend template rest hclosed, ?_⟩⟩
  · rw [← hunits]
    constructor
    · rintro rfl
      rfl
    · exact fun h => String.toList_inj.mp (units_inj h.symm)
  · intro letter value hletter hvalue
    have hpair : expand values (String.ofList ['%', letter] ++ rest)
        = value ++ expand values rest := by
      rw [expand, String.toList_append, String.toList_ofList]
      show String.ofList (pair values letter ++ expandChars values rest.toList) = _
      rw [pair, if_neg hletter, hvalue, String.ofList_append, String.ofList_toList]
      rfl
    rw [String.append_assoc, happend template _ hclosed, hpair, String.append_assoc]

example : expand [('h', "%h%")] "%%h%h%x%" = "%h%h%%x%" := by decide

end Template

end SshDial
