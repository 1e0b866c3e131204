import Mathlib.Data.List.Induction
import Mathlib.Data.List.Nodup
import SshDial.Proofs.Settings.Precedence

/-! # Paths — the key files and certificates of a host

    The values of two keywords add up: a walk collects them from the directives of the
    stanzas that apply, each value once (`Resolution.collected_walk`).  Letters and tilde
    are expanded at the end, when host, user and port are known, and by then values that
    are written differently may stand for one path.

    `Settings.paths_of_find` says what comes of it: every path is there and the order is
    that of first occurrence, but a path stands there once for every value that it comes
    from.  So none is repeated exactly if no two values stand for one path. -/

namespace SshDial

namespace Resolution

/-! ## Each text once -/

theorem insertNew_of_mem {l : List String} {x : String} (h : x ∈ l) : insertNew l x = l :=
  if_pos (List.contains_iff_mem.mpr h)

theorem insertNew_of_not_mem {l : List String} {x : String} (h : x ∉ l) :
    insertNew l x = l ++ [x] :=
  if_neg fun hx => h (List.contains_iff_mem.mp hx)

/-- Of a list that grows at its end each text is kept where it occurs first. -/
theorem eraseDups_concat (l : List String) (x : String) :
    (l ++ [x]).eraseDups = insertNew l.eraseDups x := by
  rw [List.eraseDups_append, List.removeAll, List.filter_cons, List.filter_nil,
    List.elem_eq_contains]
  by_cases hx : x ∈ l
  · rw [insertNew_of_mem (List.mem_eraseDups.mpr hx), List.contains_iff_mem.mpr hx]
    exact List.append_nil _
  · have hnot : l.contains x = false :=
      Bool.eq_false_iff.mpr fun h => hx (List.contains_iff_mem.mp h)
    rw [insertNew_of_not_mem fun h => hx (List.mem_eraseDups.mp h), hnot]
    rfl

theorem foldl_insertNew (l : List String) : l.foldl insertNew [] = l.eraseDups := by
  induction l using List.reverseRecOn with
  | nil => rfl
  | append_singleton l x ih =>
      rw [List.foldl_append, ih, eraseDups_concat]
      rfl

theorem nodup_eraseDups (l : List String) : l.eraseDups.Nodup := by
  induction l using List.reverseRecOn with
  | nil => exact List.nodup_nil
  | append_singleton l x ih =>
      rw [eraseDups_concat]
      by_cases hx : x ∈ l.eraseDups
      · rw [insertNew_of_mem hx]
        exact ih
      · rw [insertNew_of_not_mem hx]
        exact List.nodup_append'.mpr
          ⟨ih, List.nodup_singleton x, List.disjoint_singleton.mpr hx⟩

theorem eraseDups_of_nodup {l : List String} (h : l.Nodup) : l.eraseDups = l := by
  induction l using List.reverseRecOn with
  | nil => rfl
  | append_singleton l x ih =>
      obtain ⟨hl, -, hdisjoint⟩ := List.nodup_append'.mp h
      rw [eraseDups_concat, ih hl, insertNew_of_not_mem (List.disjoint_singleton.mp hdisjoint)]

/-- Repeats that are dropped before a function is applied show no more when repeats are
    dropped after it. -/
theorem eraseDups_map_eraseDups (f : String → String) (l : List String) :
    (l.eraseDups.map f).eraseDups = (l.map f).eraseDups := by
  induction l using List.reverseRecOn with
  | nil => rfl
  | append_singleton l x ih =>
      rw [eraseDups_concat, List.map_append, List.map_singleton, eraseDups_concat, ← ih]
      by_cases hx : x ∈ l.eraseDups
      · have hfx : f x ∈ (l.eraseDups.map f).eraseDups :=
          List.mem_eraseDups.mpr (List.mem_map_of_mem hx)
        rw [insertNew_of_mem hx, insertNew_of_mem hfx]
      · rw [insertNew_of_not_mem hx, List.map_append, List.map_singleton, eraseDups_concat]

end Resolution

/-! ## What is collected -/

/-- The keywords whose values add up. -/
inductive PathKeyword where
  | identityFile
  | certificateFile
  deriving DecidableEq

namespace PathKeyword

/-- The keyword in lower case. -/
def key : PathKeyword → String
  | .identityFile => "identityfile"
  | .certificateFile => "certificatefile"

/-- What a state has collected under the keyword. -/
def collected (s : Resolution) : PathKeyword → List String
  | .identityFile => s.identityFiles
  | .certificateFile => s.certificateFiles

/-- The paths that settings list under the keyword. -/
def paths (r : Settings) : PathKeyword → List String
  | .identityFile => r.identityFiles
  | .certificateFile => r.certificateFiles

end PathKeyword

namespace Resolution

open PathKeyword

variable {subject : Subject} {s t : Resolution}

/-- The values that some directives give a keyword. -/
def valuesOf (key : String) (ds : List Directive) : List String :=
  (ds.filter (·.key == key)).map (·.value)

theorem collected_set (k : PathKeyword) (s : Resolution) (d : Directive) :
    k.collected (s.set d)
      = if d.key = k.key then insertNew (k.collected s) d.value else k.collected s := by
  cases k with
  | identityFile => rfl
  | certificateFile => rfl

theorem collected_foldl_set (k : PathKeyword) (ds : List Directive) (s : Resolution) :
    k.collected (ds.foldl set s) = (valuesOf k.key ds).foldl insertNew (k.collected s) := by
  induction ds generalizing s with
  | nil => rfl
  | cons d ds ih =>
      rw [List.foldl_cons, ih, collected_set, valuesOf, valuesOf, List.filter_cons]
      by_cases hkey : d.key = k.key
      · rw [if_pos hkey, if_pos (beq_iff_eq.mpr hkey)]
        rfl
      · rw [if_neg hkey, if_neg fun h => hkey (beq_iff_eq.mp h)]

theorem collected_congr (k : PathKeyword) (h : s.forget = t.forget) :
    k.collected s = k.collected t := by
  cases k with
  | identityFile =>
      have hsame := congrArg identityFiles h
      exact hsame
  | certificateFile =>
      have hsame := congrArg certificateFiles h
      exact hsame

theorem collected_visit (k : PathKeyword) (s : Resolution) (stanza : Stanza) :
    k.collected (visit subject s stanza)
      = (valuesOf k.key (if (applies subject s stanza).1 then stanza.directives else [])).foldl
          insertNew (k.collected s) := by
  have hforget := collected_congr k (applies_spec subject s stanza).2
  rw [visit]
  cases happlies : applies subject s stanza with
  | mk holds t =>
      rw [happlies] at hforget
      cases holds with
      | false => exact hforget
      | true =>
          have hmark : k.collected (t.mark stanza.criteria) = k.collected s := by
            rw [← hforget]
            cases k with
            | identityFile => rfl
            | certificateFile => rfl
          show k.collected (stanza.directives.foldl set (t.mark stanza.criteria)) = _
          rw [collected_foldl_set, hmark]
          rfl

theorem collected_foldl_visit (k : PathKeyword) (stanzas : List Stanza) (s : Resolution) :
    k.collected (stanzas.foldl (visit subject) s)
      = (valuesOf k.key (inForce subject s stanzas)).foldl insertNew (k.collected s) := by
  induction stanzas generalizing s with
  | nil => rfl
  | cons stanza stanzas ih =>
      rw [List.foldl_cons, ih, collected_visit, inForce, valuesOf, valuesOf, valuesOf,
        List.filter_append, List.map_append, List.foldl_append]

/-- The values that a keyword is given for a host, by the directives of the stanzas that
    apply. -/
def valuesInForce (subject : Subject) (stanzas : List Stanza) (key : String) : List String :=
  valuesOf key (inForce subject start stanzas)

/-- **A walk collects every value once**, and nothing else. -/
theorem collected_walk (k : PathKeyword) (subject : Subject) (stanzas : List Stanza) :
    k.collected (walk subject stanzas) = (valuesInForce subject stanzas k.key).eraseDups := by
  have hstart : k.collected start = [] := by
    cases k with
    | identityFile => rfl
    | certificateFile => rfl
  rw [walk, collected_foldl_visit, hstart, foldl_insertNew]
  rfl

end Resolution

namespace Settings

open Resolution

/-- The letters that a path may use, as the settings have them. -/
def pathTokens (env : Environment) (r : Settings) : Template.Values :=
  [('d', env.homeDir), ('u', env.localUser), ('l', env.localHostName), ('h', r.hostName),
    ('r', r.user), ('n', r.host), ('p', r.port.text)]

/-- The path that a value stands for in the settings: letters first, then the tilde. -/
def expandPath (env : Environment) (r : Settings) (value : String) : String :=
  env.expandTilde (Template.expand (r.pathTokens env) value)

theorem paths_settings (k : PathKeyword) (subject : Subject) (s : Resolution) :
    k.paths (s.settings subject)
      = (k.collected s).map ((s.settings subject).expandPath subject.env) := by
  cases k with
  | identityFile => rfl
  | certificateFile => rfl

variable {c : Config} {env : Environment} {query : Query} {host : String} {r : Settings}

/-- **Every path of a host is listed, in the order of the values it comes from.** The
    values that count are those of the stanzas that apply, and each counts once.  Up to
    repeats the list is that of their paths, in order of first occurrence; and there are
    no repeats exactly if no two values stand for one path. -/
theorem paths_of_find (h : find c env query host = .ok r) (k : PathKeyword) :
    let values := valuesInForce ⟨host, env, query.user⟩ c.stanzas k.key
    k.paths r = values.eraseDups.map (r.expandPath env)
      ∧ (∀ path, path ∈ k.paths r ↔ ∃ value ∈ values, r.expandPath env value = path)
      ∧ (k.paths r).eraseDups = (values.map (r.expandPath env)).eraseDups
      ∧ (k.paths r = (values.map (r.expandPath env)).eraseDups
          ↔ ∀ v ∈ values, ∀ w ∈ values, r.expandPath env v = r.expandPath env w → v = w) := by
  intro values
  have hlist : k.paths r = values.eraseDups.map (r.expandPath env) := by
    rw [settings_walk_of_find h, paths_settings, collected_walk]
  have hdups : (k.paths r).eraseDups = (values.map (r.expandPath env)).eraseDups := by
    rw [hlist, eraseDups_map_eraseDups]
  refine ⟨hlist, fun path => ?_, hdups, ?_⟩
  · rw [hlist, List.mem_map]
    exact exists_congr fun value => and_congr_left fun _ => List.mem_eraseDups
  · rw [← hdups]
    have hnodup : k.paths r = (k.paths r).eraseDups ↔ (k.paths r).Nodup := by
      constructor
      · intro hsame
        rw [hsame]
        exact nodup_eraseDups _
      · intro hnodup
        exact (eraseDups_of_nodup hnodup).symm
    rw [hnodup, hlist, List.nodup_map_iff_inj_on (nodup_eraseDups values)]
    simp only [List.mem_eraseDups]

/-- One value in two stanzas, and another one. -/
theorem paths_of_find_web :
    ∃ r, find ⟨[⟨.host ["web"], ⟨none, 1⟩,
            [⟨"identityfile", "IdentityFile", "~/%r", ["~/%r"], ⟨none, 2⟩⟩,
              ⟨"identityfile", "IdentityFile", "%d/k", ["%d/k"], ⟨none, 3⟩⟩]⟩,
          ⟨.host ["*"], ⟨none, 4⟩,
            [⟨"identityfile", "IdentityFile", "~/%r", ["~/%r"], ⟨none, 5⟩⟩]⟩], []⟩
        ⟨"/h", "u", "w", "/h/c"⟩ {} "web" = .ok r
      ∧ PathKeyword.identityFile.paths r
        = ["~/%r", "%d/k", "~/%r"].eraseDups.map (r.expandPath ⟨"/h", "u", "w", "/h/c"⟩)
      ∧ r.identityFiles = ["/h/u", "/h/k"] := by
  have hfind : find ⟨[⟨.host ["web"], ⟨none, 1⟩,
          [⟨"identityfile", "IdentityFile", "~/%r", ["~/%r"], ⟨none, 2⟩⟩,
            ⟨"identityfile", "IdentityFile", "%d/k", ["%d/k"], ⟨none, 3⟩⟩]⟩,
        ⟨.host ["*"], ⟨none, 4⟩,
          [⟨"identityfile", "IdentityFile", "~/%r", ["~/%r"], ⟨none, 5⟩⟩]⟩], []⟩
      ⟨"/h", "u", "w", "/h/c"⟩ {} "web"
      = .ok ⟨"web", "web", 22, "u", ["/h/u", "/h/k"], [], none, none,
        [("identityfile", "~/%r")], true⟩ := congrArg Except.ok (by decide +kernel)
  obtain ⟨hlist, -⟩ := paths_of_find hfind .identityFile
  exact ⟨_, hfind, hlist, rfl⟩

/-- Two ways to write one path: the path is listed twice. -/
theorem paths_of_find_repeated :
    ∃ c r, (Config.parse .empty ⟨"/h", "u", "w", "/h/c"⟩ {}
          "IdentityFile ~/k\nIdentityFile %d/k\n").value = .ok c
      ∧ find c ⟨"/h", "u", "w", "/h/c"⟩ {} "web" = .ok r
      ∧ r.identityFiles = ["/h/k", "/h/k"]
      ∧ r.identityFiles
        ≠ ((valuesInForce ⟨"web", ⟨"/h", "u", "w", "/h/c"⟩, none⟩ c.stanzas "identityfile").map
          (r.expandPath ⟨"/h", "u", "w", "/h/c"⟩)).eraseDups := by
  refine ⟨⟨[⟨.global, ⟨none, 0⟩,
      [⟨"identityfile", "IdentityFile", "~/k", ["~/k"], ⟨none, 1⟩⟩,
        ⟨"identityfile", "IdentityFile", "%d/k", ["%d/k"], ⟨none, 2⟩⟩]⟩], []⟩,
    ⟨"web", "web", 22, "u", ["/h/k", "/h/k"], [], none, none,
      [("identityfile", "~/k")], false⟩, by decide +kernel,
    congrArg Except.ok (by decide +kernel), rfl, by decide +kernel⟩

end Settings

end SshDial
