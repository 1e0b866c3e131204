import Mathlib.Data.List.Forall2
import SshDial.Log.Entry

/-! # Fields — data that differs in its secrets alone

    `Secret.SameButSecrets` relates pieces of loose data that are the same but for what
    fields named for secrets hold, at any depth.  `Secret.hideInValue` shows two such pieces
    alike exactly if no error in them tells them apart by its code, which is shown as it is
    (`Secret.agrees_value`); and a logger that is handed data shown alike writes the same
    lines, whatever its threshold (`Log.run_congr`).  Everything else stays where it is: a
    way into the data that meets no secret leads to the same place in what is shown
    (`Secret.at?_hideInValue`). -/

namespace SshDial

/-! ## Ways into loose data -/

/-- One step into a piece of loose data. -/
inductive Value.Step where
  | item (index : Nat)
  | field (name : String)
  deriving DecidableEq, Repr

/-- What stands at the end of a way into a piece of loose data. -/
def Value.at? : Value → List Value.Step → Option Value
  | v, [] => some v
  | .list items, .item index :: path => items[index]?.bind (·.at? path)
  | .record fields, .field name :: path => (fields.lookup name).bind (·.at? path)
  | _, _ :: _ => none

namespace Secret

open SshDial.Text

/-- The name of a field whose value is a secret, in any letter case. -/
def NamesSecret (name : String) : Prop := lower name ∈ ["password", "privatekey", "passphrase"]

instance : DecidablePred NamesSecret := fun _ => inferInstanceAs (Decidable (_ ∈ _))

theorem isSecretName_iff {name : String} : isSecretName name = true ↔ NamesSecret name :=
  List.contains_iff_mem

/-- The one field name that is left out of what is shown. -/
def isDropped (name : String) : Bool := name == "__proto__"

/-- The way meets no field that is named for a secret or left out. -/
def IsOpen (path : List Value.Step) : Prop :=
  ∀ name, .field name ∈ path → ¬NamesSecret name ∧ isDropped name = false

/-! ## The same but for secrets -/

mutual

/-- The two are the same but for what is stored under the names of secrets, at any depth;
    where they differ, both of them hold an answer. -/
inductive SameButSecrets : Value → Value → Prop where
  | same (v : Value) : SameButSecrets v v
  | list {vs ws : List Value} : SameItems vs ws → SameButSecrets (.list vs) (.list ws)
  | record {fs gs : List (String × Value)} :
      SameFields fs gs → SameButSecrets (.record fs) (.record gs)
  | error {kind message : String} {c d : Value} :
      SameButSecrets c d →
        SameButSecrets (.error kind message (some c)) (.error kind message (some d))

/-- Items that are the same but for secrets, one by one. -/
inductive SameItems : List Value → List Value → Prop where
  | nil : SameItems [] []
  | cons {v w : Value} {vs ws : List Value} :
      SameButSecrets v w → SameItems vs ws → SameItems (v :: vs) (w :: ws)

/-- Fields of the same names in the same order, each of them a secret or the same but for
    secrets. -/
inductive SameFields : List (String × Value) → List (String × Value) → Prop where
  | nil : SameFields [] []
  | secret {name : String} {v w : Value} {fs gs : List (String × Value)} :
      NamesSecret name → v.isTruthy = true → w.isTruthy = true →
        SameFields fs gs → SameFields ((name, v) :: fs) ((name, w) :: gs)
  | other {name : String} {v w : Value} {fs gs : List (String × Value)} :
      SameButSecrets v w → SameFields fs gs → SameFields ((name, v) :: fs) ((name, w) :: gs)

end

mutual

/-- The codes of the errors that are shown: an error's code is shown as it is, secrets
    included. -/
def shownCodes : Value → List Value
  | .error _ _ code => [code.getD .undefined]
  | .list items => itemCodes items
  | .record fields => fieldCodes fields
  | _ => []

/-- The codes that are shown of the errors in a list. -/
def itemCodes : List Value → List Value
  | [] => []
  | item :: items => shownCodes item ++ itemCodes items

/-- The codes that are shown of the errors in a record. -/
def fieldCodes : List (String × Value) → List Value
  | [] => []
  | (name, value) :: fields =>
    (if isDropped name ∨ NamesSecret name then [] else shownCodes value) ++ fieldCodes fields

end

/-- Two pieces of data are shown alike exactly if their codes are the same, of which there
    are equally many. -/
structure Agrees (shownAlike : Prop) (cs ds : List Value) : Prop where
  length : cs.length = ds.length
  iff : shownAlike ↔ cs = ds

theorem Agrees.refl {p : Prop} (hp : p) (cs : List Value) : Agrees p cs cs :=
  ⟨rfl, iff_of_true hp rfl⟩

/-- Parts that agree make a whole that does. -/
theorem Agrees.append {p q : Prop} {cs ds cs' ds' : List Value} (h : Agrees p cs ds)
    (h' : Agrees q cs' ds') : Agrees (p ∧ q) (cs ++ cs') (ds ++ ds') := by
  constructor
  · rw [List.length_append, List.length_append, h.length, h'.length]
  · rw [h.iff, h'.iff]
    constructor
    · rintro ⟨rfl, rfl⟩
      rfl
    · exact fun heq => List.append_inj heq h.length

theorem Agrees.of_iff {p q : Prop} {cs ds : List Value} (h : Agrees p cs ds) (hpq : q ↔ p) :
    Agrees q cs ds :=
  ⟨h.length, hpq.trans h.iff⟩

/-- What is shown of a field: a secret's mask or the answer it does not hold, and of any
    other field its value without its secrets. -/
def shownField (name : String) (value : Value) : Value :=
  if NamesSecret name then (if value.isTruthy then .text "****" else value)
  else hideInValue value

theorem isDropped_of_namesSecret {name : String} (h : NamesSecret name) :
    isDropped name = false := by
  rw [isDropped, beq_eq_false_iff_ne]
  rintro rfl
  exact absurd h (by decide)

theorem hideInFields_cons (name : String) (value : Value) (fields : List (String × Value)) :
    hideInFields ((name, value) :: fields)
      = if isDropped name then hideInFields fields
        else (name, shownField name value) :: hideInFields fields := by
  rw [hideInFields, shownField, isDropped, if_congr isSecretName_iff rfl rfl]
  by_cases hname : name = "__proto__"
  · rw [if_pos hname, if_pos (beq_iff_eq.mpr hname)]
  · rw [if_neg hname, if_neg fun h => hname (beq_iff_eq.mp h)]

/-- Data that differs at all holds an answer. -/
theorem SameButSecrets.eq_or_isTruthy {v w : Value} (h : SameButSecrets v w) :
    v = w ∨ v.isTruthy = true ∧ w.isTruthy = true := by
  cases h with
  | same => exact Or.inl rfl
  | list => exact Or.inr ⟨rfl, rfl⟩
  | record => exact Or.inr ⟨rfl, rfl⟩
  | error => exact Or.inr ⟨rfl, rfl⟩

/-- A secret is shown alike if both of its values hold an answer, or none. -/
theorem shownField_of_namesSecret {name : String} {v w : Value}
    (hname : NamesSecret name) (h : v = w ∨ v.isTruthy = true ∧ w.isTruthy = true) :
    shownField name v = shownField name w := by
  rcases h with rfl | ⟨hv, hw⟩
  · rfl
  · rw [shownField, shownField, if_pos hname, if_pos hname, if_pos hv, if_pos hw]

/-- A field whose value is shown alike, in front of fields that are. -/
theorem agrees_cons {name : String} {v w : Value} {fs gs : List (String × Value)}
    (hfield : Agrees (shownField name v = shownField name w)
      (if NamesSecret name then [] else shownCodes v)
      (if NamesSecret name then [] else shownCodes w))
    (hrest : Agrees (hideInFields fs = hideInFields gs) (fieldCodes fs) (fieldCodes gs)) :
    Agrees (hideInFields ((name, v) :: fs) = hideInFields ((name, w) :: gs))
      (fieldCodes ((name, v) :: fs)) (fieldCodes ((name, w) :: gs)) := by
  rw [hideInFields_cons, hideInFields_cons, fieldCodes, fieldCodes]
  by_cases hname : isDropped name = true
  · rw [if_pos hname, if_pos hname, if_pos (Or.inl hname), if_pos (Or.inl hname)]
    exact hrest
  · rw [if_neg hname, if_neg hname]
    simp only [hname, Bool.false_eq_true, false_or]
    refine (hfield.append hrest).of_iff ?_
    rw [List.cons.injEq, Prod.mk.injEq]
    exact ⟨fun h => ⟨h.1.2, h.2⟩, fun h => ⟨⟨rfl, h.1⟩, h.2⟩⟩

/-- A field that is no secret is shown alike if its value is. -/
theorem agrees_field {name : String} {v w : Value} (h : SameButSecrets v w)
    (hvalue : Agrees (hideInValue v = hideInValue w) (shownCodes v) (shownCodes w)) :
    Agrees (shownField name v = shownField name w)
      (if NamesSecret name then [] else shownCodes v)
      (if NamesSecret name then [] else shownCodes w) := by
  by_cases hname : NamesSecret name
  · rw [if_pos hname, if_pos hname]
    exact Agrees.refl (shownField_of_namesSecret hname h.eq_or_isTruthy) []
  · rw [if_neg hname, if_neg hname, shownField, shownField, if_neg hname, if_neg hname]
    exact hvalue

mutual

/-- **Data that differs in its secrets alone is shown alike, but for the codes of errors.**
    By the structure of the data, one rule of the relation after the other. -/
theorem agrees_value : ∀ {v w : Value}, SameButSecrets v w →
    Agrees (hideInValue v = hideInValue w) (shownCodes v) (shownCodes w)
  | _, _, .same v => Agrees.refl rfl (shownCodes v)
  | .list _, .list _, .list hitems => (agrees_items hitems).of_iff (by
      rw [hideInValue, hideInValue, Value.list.injEq])
  | .record _, .record _, .record hfields => (agrees_fields hfields).of_iff (by
      rw [hideInValue, hideInValue, Value.record.injEq])
  | .error .., .error .., .error _ => by
      constructor
      · rfl
      · rw [hideInValue, hideInValue, shownCodes, shownCodes]
        simp

theorem agrees_items : ∀ {vs ws : List Value}, SameItems vs ws →
    Agrees (hideInItems vs = hideInItems ws) (itemCodes vs) (itemCodes ws)
  | _, _, .nil => Agrees.refl rfl []
  | _ :: _, _ :: _, .cons hitem hitems =>
      ((agrees_value hitem).append (agrees_items hitems)).of_iff (by
        rw [hideInItems, hideInItems, List.cons.injEq])

theorem agrees_fields : ∀ {fs gs : List (String × Value)}, SameFields fs gs →
    Agrees (hideInFields fs = hideInFields gs) (fieldCodes fs) (fieldCodes gs)
  | _, _, .nil => Agrees.refl rfl []
  | (_, _) :: _, (_, _) :: _, .secret hname hv hw hfields => by
      refine agrees_cons ?_ (agrees_fields hfields)
      rw [if_pos hname, if_pos hname]
      exact Agrees.refl (shownField_of_namesSecret hname (Or.inr ⟨hv, hw⟩)) []
  | (_, _) :: _, (_, _) :: _, .other hvalue hfields =>
      agrees_cons (agrees_field hvalue (agrees_value hvalue)) (agrees_fields hfields)

end

/-! ## What is kept -/

theorem hideInItems_eq_map (items : List Value) : hideInItems items = items.map hideInValue := by
  induction items with
  | nil => rfl
  | cons item items ih => rw [hideInItems, ih, List.map_cons]

/-- The names of the fields stay, in their order, but for the one that is left out. -/
theorem names_hideInFields (fields : List (String × Value)) :
    (hideInFields fields).map Prod.fst = (fields.map Prod.fst).filter (!isDropped ·) := by
  induction fields with
  | nil => rfl
  | cons field fields ih =>
      obtain ⟨name, value⟩ := field
      rw [hideInFields_cons, List.map_cons]
      by_cases hname : isDropped name = true
      · rw [if_pos hname, List.filter_cons_of_neg (by rw [hname]; decide), ih]
      · rw [if_neg hname, List.map_cons, ih,
          List.filter_cons_of_pos (by rw [Bool.eq_false_iff.mpr hname]; rfl)]

/-- What is shown of a field stands under its name. -/
theorem mem_hideInFields {name : String} {value : Value} {fields : List (String × Value)}
    (hname : isDropped name = false) (h : (name, value) ∈ fields) :
    (name, shownField name value) ∈ hideInFields fields := by
  induction fields with
  | nil => exact nomatch h
  | cons field fields ih =>
      obtain ⟨name', value'⟩ := field
      rw [hideInFields_cons]
      rcases List.mem_cons.mp h with heq | hrest
      · obtain ⟨rfl, rfl⟩ := Prod.mk.inj heq
        rw [if_neg (Bool.eq_false_iff.mp hname)]
        exact List.mem_cons_self
      · split
        · exact ih hrest
        · exact List.mem_cons_of_mem _ (ih hrest)

theorem lookup_hideInFields {name : String} (hname : isDropped name = false)
    (fields : List (String × Value)) :
    (hideInFields fields).lookup name = (fields.lookup name).map (shownField name) := by
  induction fields with
  | nil => rfl
  | cons field fields ih =>
      obtain ⟨name', value⟩ := field
      rw [hideInFields_cons, List.lookup_cons]
      by_cases hsame : name = name'
      · subst hsame
        rw [if_neg (Bool.eq_false_iff.mp hname), List.lookup_cons, beq_self_eq_true]
        rfl
      · rw [beq_eq_false_iff_ne.mpr hsame]
        split
        · exact ih
        · rw [List.lookup_cons, beq_eq_false_iff_ne.mpr hsame]
          exact ih

/-- **A way that meets no secret stays open**: what stands at its end is shown there. -/
theorem at?_hideInValue {path : List Value.Step} (hpath : IsOpen path) {v u : Value}
    (h : v.at? path = some u) : (hideInValue v).at? path = some (hideInValue u) := by
  induction path generalizing v with
  | nil =>
      rw [Value.at?] at h ⊢
      rw [Option.some.inj h]
  | cons step path ih =>
      have hrest : IsOpen path := fun name hname => hpath name (List.mem_cons_of_mem _ hname)
      cases v with
      | list items =>
          cases step with
          | item index =>
              rw [Value.at?, Option.bind_eq_some_iff] at h
              obtain ⟨item, hitem, h⟩ := h
              rw [hideInValue, hideInItems_eq_map, Value.at?, List.getElem?_map, hitem]
              exact ih hrest h
          | field name => exact nomatch h
      | record fields =>
          cases step with
          | item index => exact nomatch h
          | field name =>
              rw [Value.at?, Option.bind_eq_some_iff] at h
              obtain ⟨value, hvalue, h⟩ := h
              obtain ⟨hsecret, hdropped⟩ := hpath name List.mem_cons_self
              rw [hideInValue, Value.at?, lookup_hideInFields hdropped, hvalue, Option.map_some,
                shownField, if_neg hsecret]
              exact ih hrest h
      | _ => simp [Value.at?] at h

end Secret

/-! ## The lines of a logger -/

namespace Log

open Secret

/-- What is not there is shown as what it is, and nothing else is shown so. -/
theorem hideInValue_eq_undefined_iff {v : Value} : hideInValue v = .undefined ↔ v = .undefined := by
  cases v with
  | undefined => exact Iff.rfl
  | _ => simp [hideInValue]

/-- The same message with data that is shown alike makes the same line. -/
theorem line_congr {v w : Value} (h : hideInValue v = hideInValue w) (level : Level)
    (message : String) : Entry.line ⟨level, message, v⟩ = Entry.line ⟨level, message, w⟩ := by
  by_cases hv : v = .undefined
  · have hw : w = .undefined := by
      rw [← hideInValue_eq_undefined_iff, ← h, hideInValue_eq_undefined_iff]
      exact hv
    rw [hv, hw]
  · have hw : w ≠ .undefined := by
      rw [Ne, ← hideInValue_eq_undefined_iff, ← h, hideInValue_eq_undefined_iff]
      exact hv
    have hline : ∀ u : Value, u ≠ .undefined → Entry.line ⟨level, message, u⟩
        = level.label ++ ": " ++ hideInText message ++ (" " ++ (hideInValue u).json) := by
      intro u hu
      rw [Entry.line]
      split
      · exact absurd ‹_› hu
      · rfl
    rw [hline v hv, hline w hw, h]

/-- Two requests to a logger that its lines cannot tell apart: the same setting, or the same
    message with data that is shown alike. -/
inductive Request.Alike : Request → Request → Prop where
  | write {v w : Value} (level : Level) (message : String) :
      hideInValue v = hideInValue w →
        Request.Alike (.write ⟨level, message, v⟩) (.write ⟨level, message, w⟩)
  | setThreshold (threshold : Threshold) :
      Request.Alike (.setThreshold threshold) (.setThreshold threshold)

theorem Request.Alike.refl : ∀ r : Request, r.Alike r
  | .write e => .write e.level e.message rfl
  | .setThreshold threshold => .setThreshold threshold

theorem step_congr {r s : Request} (h : r.Alike s) (threshold : Threshold) :
    step threshold r = step threshold s := by
  cases h with
  | write level message hdata =>
      show (threshold, (Entry.line? threshold _).toList) = (threshold, _)
      rw [Entry.line?, Entry.line?, line_congr hdata]
  | setThreshold next => rfl

/-- **A logger writes the same lines** on requests that are alike one by one, whatever its
    threshold is and becomes. -/
theorem run_congr {rs ss : List Request} (h : List.Forall₂ Request.Alike rs ss)
    (threshold : Threshold) : run threshold rs = run threshold ss := by
  induction h generalizing threshold with
  | nil => rfl
  | @cons r s rs ss hstep _ ih =>
      rw [run, run, step_congr hstep]
      exact congrArg ((step threshold s).2 :: ·) (ih (step threshold s).1)

end Log

namespace Secret

open Log

/-- **Fields of secrets are never told apart**, but for what the code of an error holds.

    Data that is the same but for its secrets is shown alike exactly if the codes of the
    errors in it are the same, and then a logger writes the same lines.  On a way without
    secrets every record keeps the names of its fields, in their order and but for the one
    that is left out, and a secret that holds no answer stays what it is. -/
theorem hideInValue_of_sameButSecrets {v w : Value} (h : SameButSecrets v w) :
    (hideInValue v = hideInValue w ↔ shownCodes v = shownCodes w)
    ∧ (shownCodes v = shownCodes w → ∀ (threshold : Threshold) (level : Level) (message : String)
        (before after : List Request),
        run threshold (before ++ .write ⟨level, message, v⟩ :: after)
          = run threshold (before ++ .write ⟨level, message, w⟩ :: after))
    ∧ ∀ (path : List Value.Step) (fields : List (String × Value)), IsOpen path →
        v.at? path = some (.record fields) →
        ∃ shown, (hideInValue v).at? path = some (.record shown)
          ∧ shown.map Prod.fst = (fields.map Prod.fst).filter (· != "__proto__")
          ∧ ∀ name value, (name, value) ∈ fields → NamesSecret name →
            value.isTruthy = false → (name, value) ∈ shown := by
  have hagrees := agrees_value h
  refine ⟨hagrees.iff, fun hcodes threshold level message before after => ?_,
    fun path fields hpath hfields => ?_⟩
  · have hsame : ∀ rs : List Request, List.Forall₂ Request.Alike rs rs := fun rs =>
      List.forall₂_same.mpr fun r _ => Request.Alike.refl r
    have hwrite : Request.Alike (.write ⟨level, message, v⟩) (.write ⟨level, message, w⟩) :=
      .write level message (hagrees.iff.mpr hcodes)
    exact run_congr (List.rel_append (hsame before) (.cons hwrite (hsame after))) threshold
  · refine ⟨hideInFields fields, at?_hideInValue hpath hfields, names_hideInFields fields,
      fun name value hmem hname hvalue => ?_⟩
    have hfield := mem_hideInFields (isDropped_of_namesSecret hname) hmem
    rw [shownField, if_pos hname, if_neg (Bool.eq_false_iff.mp hvalue)] at hfield
    exact hfield

/-- Two requests with a key and a password, in a list and beside a code. -/
theorem hideInValue_of_sameButSecrets_request :
    ∃ v w : Value,
      v = .record [("host", .text "web"), ("PrivateKey", .text "a"), ("password", .text ""),
        ("tries", .list [.record [("passphrase", .text "b")],
          .error "Error" "refused" (some (.text "ECONNREFUSED"))])]
      ∧ w = .record [("host", .text "web"), ("PrivateKey", .record []), ("password", .text ""),
        ("tries", .list [.record [("passphrase", .bool true)],
          .error "Error" "refused" (some (.text "ECONNREFUSED"))])]
      ∧ SameButSecrets v w ∧ shownCodes v = [.text "ECONNREFUSED"]
      ∧ hideInValue v = hideInValue w := by
  have h : SameButSecrets
      (.record [("host", .text "web"), ("PrivateKey", .text "a"), ("password", .text ""),
        ("tries", .list [.record [("passphrase", .text "b")],
          .error "Error" "refused" (some (.text "ECONNREFUSED"))])])
      (.record [("host", .text "web"), ("PrivateKey", .record []), ("password", .text ""),
        ("tries", .list [.record [("passphrase", .bool true)],
          .error "Error" "refused" (some (.text "ECONNREFUSED"))])]) :=
    .record (.other (.same _) (.secret (by decide) rfl rfl (.other (.same _) (.other
      (.list (.cons (.record (.secret (by decide) rfl rfl .nil)) (.cons (.same _) .nil))) .nil))))
  have hcodes := (hideInValue_of_sameButSecrets h).1
  exact ⟨_, _, rfl, rfl, h, rfl, hcodes.mpr rfl⟩

/-- A password in the code of an error is shown, so two of them are told apart; and a field
    is left out that is named for no secret. -/
theorem shown_in_code :
    SameButSecrets (.error "Error" "refused" (some (.record [("password", .text "hunter2")])))
      (.error "Error" "refused" (some (.record [("password", .text "sesame")])))
    ∧ hideInValue (.error "Error" "refused" (some (.record [("password", .text "hunter2")])))
      ≠ hideInValue (.error "Error" "refused" (some (.record [("password", .text "sesame")])))
    ∧ hideInValue (.record [("__proto__", .text "a"), ("host", .text "web")])
      = .record [("host", .text "web")] := by
  refine ⟨.error (.record (.secret (by decide) rfl rfl .nil)), ?_, ?_⟩
  · simp [hideInValue]
  · simp [hideInValue, hideInFields, isSecretName]
    decide

end Secret

end SshDial
