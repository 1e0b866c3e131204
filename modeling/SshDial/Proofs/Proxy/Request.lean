import SshDial.Proofs.Config.Expansion
import SshDial.Proofs.Number.Decimal
import SshDial.Proofs.Settings.Resolution
import SshDial.Proxy

/-! # Request — what a proxy command is asked for with

    A proxy command is built from a host name, a port and a user that are checked once
    more.  Ports are checked when a configuration is parsed, so the port that is worked out
    always passes (`Settings.port_of_find`).  Host names are not, and an empty one stays
    empty (`Settings.hostName_eq_empty_iff`).  `Proxy.command_badRequest_iff` is the
    headline: that is the only way in which a request is refused. -/

namespace SshDial

open SshDial.Text

namespace Template

theorem expandChars_eq_nil_iff {values : Values} (h : ∀ letter, values.lookup letter ≠ some "")
    (s : List Char) : expandChars values s = [] ↔ s = [] := by
  have hpair : ∀ letter, pair values letter ≠ [] := by
    intro letter
    rw [pair]
    split
    · exact List.cons_ne_nil _ _
    · split
      · rename_i value hvalue
        intro hempty
        rw [String.toList_eq_nil_iff] at hempty
        rw [value?, Option.ite_none_right_eq_some] at hvalue
        exact h letter (hempty ▸ hvalue.2)
      · exact List.cons_ne_nil _ _
  fun_cases expandChars values s with
  | case1 => exact Iff.rfl
  | case2 => exact iff_of_false (List.cons_ne_nil _ _) (List.cons_ne_nil _ _)
  | case3 letter rest =>
      exact iff_of_false (List.append_ne_nil_of_left_ne_nil (hpair letter) _)
        (List.cons_ne_nil _ _)
  | case4 => exact iff_of_false (List.cons_ne_nil _ _) (List.cons_ne_nil _ _)

/-- Putting in values that are not empty leaves no template empty but the empty one. -/
theorem expand_eq_empty_iff {values : Values} (h : ∀ letter, values.lookup letter ≠ some "")
    (template : String) : expand values template = "" ↔ template = "" := by
  rw [expand, String.ofList_eq_empty_iff, expandChars_eq_nil_iff h, String.toList_eq_nil_iff]

end Template

/-- The port that is worked out is one. -/
def Number.IsPort (n : Number) : Prop := ∃ k : Nat, 1 ≤ k ∧ k ≤ 65535 ∧ n = ofInt k

/-- A port is read back from its text. -/
theorem Number.IsPort.read_text {p : Number} (h : p.IsPort) : Number.read p.text = p := by
  obtain ⟨k, -, hhigh, rfl⟩ := h
  exact Number.read_text_natCast (Nat.le_trans hhigh (by decide))

/-- A field that passes has a value that does. -/
theorem Check.of_field {α : Type} {name : String} {check : Value → Except FieldFault α} {v : Value}
    {a : α} (h : Check.field name check v = .ok a) : check v = .ok a := by
  rw [Check.field] at h
  cases hcheck : check v with
  | error fault =>
      rw [hcheck] at h
      exact nomatch h
  | ok b =>
      rw [hcheck] at h
      obtain rfl := Except.ok.inj h
      rfl

/-- Ports pass the check on ports. -/
theorem Check.port_of_isPort {n : Number} (h : n.IsPort) : Check.port (.number n) = .ok n := by
  obtain ⟨k, hlow, hhigh, rfl⟩ := h
  have hbelow : (Number.ofInt k).isBelow 1 = false := by
    show decide (((k : Int) : Rat) < ((1 : Int) : Rat)) = false
    rw [decide_eq_false_iff_not, Rat.intCast_lt_intCast]
    omega
  have habove : (Number.ofInt k).isAbove 65535 = false := by
    show decide (((65535 : Int) : Rat) < ((k : Int) : Rat)) = false
    rw [decide_eq_false_iff_not, Rat.intCast_lt_intCast]
    omega
  show (if (Number.ofInt k).isBelow 1 then Except.error (.below 1)
    else if (Number.ofInt k).isAbove 65535 then Except.error (.above 65535)
    else .ok (Number.ofInt k) : Except FieldFault Number) = _
  rw [hbelow, habove]
  rfl

/-- Nothing else passes it, and what passes is kept. -/
theorem Check.isPort_of_port {n m : Number} (h : Check.port (.number n) = .ok m) :
    m = n ∧ n.IsPort := by
  cases n with
  | undefined => exact nomatch h
  | infinite negative => exact nomatch h
  | finite q =>
      change (if (!(q.den == 1)) = true then Except.error (.wrongType "integer" "float")
        else if decide (q < ((1 : Int) : Rat)) = true then .error (.below 1)
        else if decide (((65535 : Int) : Rat) < q) = true then .error (.above 65535)
        else .ok (Number.finite q) : Except FieldFault Number) = _ at h
      split at h
      · exact nomatch h
      · rename_i hwhole
        split at h
        · exact nomatch h
        · rename_i hlow
          split at h
          · exact nomatch h
          · rename_i hhigh
            rw [Bool.not_eq_true', Bool.not_eq_false, beq_iff_eq] at hwhole
            have hnum : (q.num : Rat) = q := Rat.ext rfl hwhole.symm
            rw [decide_eq_true_eq, ← hnum, Rat.intCast_lt_intCast] at hlow hhigh
            refine ⟨(Except.ok.inj h).symm, q.num.toNat, by omega, by omega, ?_⟩
            rw [Number.ofInt, Int.toNat_of_nonneg (by omega), hnum]

/-- An accepted port is read as a port. -/
theorem Number.isPort_read {value : String} (h : (Line.port? value).isSome = true) :
    (Number.read value).IsPort := by
  rw [Line.port?] at h
  split at h
  · exact nomatch h
  · rename_i hdigits
    rw [Bool.or_eq_true, not_or, List.isEmpty_iff, Bool.not_eq_true', Bool.not_eq_false,
      List.all_eq_true] at hdigits
    dsimp only at h
    split at h
    · rename_i hrange
      have hvalue : decimalValue value.toList ≤ 65535 := hrange.2
      have hbound : decimalValue value.toList ≤ exactBound :=
        Nat.le_trans hvalue (by decide)
      exact ⟨_, hrange.1, hrange.2, read_digits hdigits.1 hdigits.2 hbound⟩
    · exact nomatch h

namespace Settings

variable {tree : FileTree} {env env' : Environment} {options : ReadOptions} {source : String}
  {c : Config} {query : Query} {host : String} {r : Settings}

/-- The port that is worked out of a parsed configuration is one: it is that of the
    protocol, or it has been checked with its line. -/
theorem port_of_find (hparse : (Config.parse tree env options source).value = .ok c)
    (hfind : find c env' query host = .ok r) : r.port.IsPort := by
  have hr := @settings_of_find c ⟨host, env', query.user⟩ _ r hfind
  rw [hr]
  show (Resolution.port _).IsPort
  rw [Resolution.port]
  split
  · exact ⟨22, by omega, by omega, rfl⟩
  · rename_i value hvalue
    have hmem := Resolution.mem_options_of_get? hvalue
    rcases Resolution.mem_options_enterAll _ hmem with hnone | ⟨stanza, hstanza, d, hd, heq⟩
    · exact absurd hnone List.not_mem_nil
    · obtain ⟨hkey, rfl⟩ := Prod.mk.inj heq
      obtain ⟨l, -, hl⟩ := Config.line_of_directive hparse hstanza hd
      exact Number.isPort_read (Line.port?_of_parse hl hkey.symm)

/-- The host name is empty only if it has been set so. -/
theorem hostName_eq_empty_iff (hfind : find c env' query host = .ok r) (hhost : host ≠ "") :
    r.hostName = "" ↔ r.options.lookup "hostname" = some "" := by
  have hr := @settings_of_find c ⟨host, env', query.user⟩ _ r hfind
  have hvalues : ∀ letter : Char, List.lookup letter [('h', host)] ≠ some "" := by
    intro letter hempty
    obtain ⟨before, after, heq, -⟩ := List.lookup_eq_some_iff.mp hempty
    have hmem : (letter, "") ∈ [('h', host)] :=
      heq ▸ List.mem_append_right before List.mem_cons_self
    exact hhost (Prod.mk.inj (List.mem_singleton.mp hmem)).2.symm
  rw [hr]
  show Resolution.hostName _ _ = "" ↔ Resolution.get? _ "hostname" = some ""
  rw [Resolution.hostName]
  cases Resolution.get? _ "hostname" with
  | none => exact iff_of_false hhost (Option.some_ne_none _).symm
  | some configured =>
      show Template.expand [('h', host)] configured = "" ↔ some configured = some ""
      rw [Template.expand_eq_empty_iff hvalues, Option.some.injEq]

end Settings

namespace Proxy

/-- With a port that is one, only an empty host is complained about. -/
theorem checked_of_isPort {port : Number} (hport : port.IsPort) (host user : String) :
    checked (.text host) (.number port) (.text user)
      = if host = "" then .error ⟨"host", .tooShort⟩ else .ok (host, port, user) := by
  have hfield : Check.field "port" Check.port (.number port) = .ok port := by
    rw [Check.field, Check.port_of_isPort hport]
    rfl
  have hhost : Check.field "host" Check.someText (.text host)
      = if host = "" then .error ⟨"host", .tooShort⟩ else .ok host := by
    show (if host = "" then Except.error FieldFault.tooShort else .ok host).mapError _ = _
    split
    · rfl
    · rfl
  rw [checked, hhost, hfield]
  split
  · rfl
  · rfl

/-- The command of a host whose port is one. -/
theorem command_of_isPort {r : Settings} (hport : r.port.IsPort) (env : Environment) :
    command r env = match spec r with
      | .error fault => .error fault.failure
      | .ok none => .ok none
      | .ok (some s) =>
        if r.hostName = "" then .error (refusal ⟨"host", .tooShort⟩)
        else .ok (some (Template.expand (values r.hostName r.port r.user
          ⟨some r.host, some env.localUser, some env.localHostName, some env.homeDir⟩)
          s.template)) := by
  rw [command]
  cases spec r with
  | error fault => rfl
  | ok found =>
      cases found with
      | none => rfl
      | some s =>
          dsimp only
          rw [build, checked_of_isPort hport]
          by_cases hname : r.hostName = ""
          · rw [if_pos hname, if_pos hname]
            rfl
          · rw [if_neg hname, if_neg hname]
            rfl

/-- A request is refused for an empty host and a template that applies, and for nothing
    else: a bad jump chain is another kind of failure. -/
theorem command_eq_error {r : Settings} (hport : r.port.IsPort) {env : Environment}
    {f : Failure} (hf : command r env = .error f) (hcode : f.code = .badRequest) :
    (r.hostName = "" ∧ ∃ s, spec r = .ok (some s)) ∧ f = refusal ⟨"host", .tooShort⟩ := by
  rw [command_of_isPort hport] at hf
  cases hspec : spec r with
  | error fault =>
      rw [hspec] at hf
      obtain rfl : fault.failure = f := Except.error.inj hf
      cases fault with
      | invalidHop hop => exact nomatch hcode
      | noHosts => exact nomatch hcode
  | ok found =>
      rw [hspec] at hf
      cases found with
      | none => exact nomatch hf
      | some s =>
          dsimp only at hf
          by_cases hname : r.hostName = ""
          · rw [if_pos hname] at hf
            exact ⟨⟨hname, s, rfl⟩, (Except.error.inj hf).symm⟩
          · rw [if_neg hname] at hf
            exact nomatch hf

/-- **The one request that is refused.** For settings out of a parsed configuration the
    port is always fit for a proxy command, and the host name is unless it has been set to
    nothing; so a request is refused exactly if that has been done and a template applies,
    and then it is for the host. -/
theorem command_badRequest_iff {tree : FileTree} {env env' : Environment}
    {options : ReadOptions} {source : String} {c : Config} {query : Settings.Query}
    {host : String} {r : Settings}
    (hparse : (Config.parse tree env options source).value = .ok c)
    (hfind : Settings.find c env' query host = .ok r) (hhost : host ≠ "")
    (caller : Environment) :
    r.port.IsPort
      ∧ (r.hostName = "" ↔ r.options.lookup "hostname" = some "")
      ∧ ((∃ f, command r caller = .error f ∧ f.code = .badRequest)
        ↔ r.hostName = "" ∧ ∃ s, spec r = .ok (some s))
      ∧ ∀ f, command r caller = .error f → f.code = .badRequest →
        f = refusal ⟨"host", .tooShort⟩ := by
  have hport : r.port.IsPort := Settings.port_of_find hparse hfind
  refine ⟨hport, Settings.hostName_eq_empty_iff hfind hhost, ⟨?_, ?_⟩, ?_⟩
  · rintro ⟨f, hf, hcode⟩
    exact (command_eq_error hport hf hcode).1
  · rintro ⟨hname, s, hspec⟩
    rw [command_of_isPort hport, hspec]
    exact ⟨refusal ⟨"host", .tooShort⟩, if_pos hname, rfl⟩
  · intro f hf hcode
    exact (command_eq_error hport hf hcode).2

/-- A port in quotes and with leading zeros. -/
theorem command_badRequest_iff_web :
    ∃ c r, (Config.parse .empty ⟨"/h", "u", "w", "/h/c"⟩ {}
          "Host web\n  HostName %h.lan\n  Port \"0022\"\n  ProxyCommand nc %h %p\n").value = .ok c
      ∧ Settings.find c ⟨"/h", "u", "w", "/h/c"⟩ {} "web" = .ok r ∧ "web" ≠ ""
      ∧ r.port.IsPort
      ∧ ¬ ∃ f, command r ⟨"/h", "u", "w", "/h/c"⟩ = .error f ∧ f.code = .badRequest := by
  obtain ⟨c, hparse, hfind⟩ : ∃ c, (Config.parse .empty ⟨"/h", "u", "w", "/h/c"⟩ {}
        "Host web\n  HostName %h.lan\n  Port \"0022\"\n  ProxyCommand nc %h %p\n").value = .ok c
      ∧ Settings.find c ⟨"/h", "u", "w", "/h/c"⟩ {} "web"
        = .ok ⟨"web", "web.lan", 22, "u", [], [], some "nc %h %p", none,
          [("hostname", "%h.lan"), ("port", "0022"), ("proxycommand", "nc %h %p")], true⟩ :=
    ⟨⟨[⟨.host ["web"], ⟨none, 1⟩,
        [⟨"hostname", "HostName", "%h.lan", ["%h.lan"], ⟨none, 2⟩⟩,
          ⟨"port", "Port", "0022", ["0022"], ⟨none, 3⟩⟩,
          ⟨"proxycommand", "ProxyCommand", "nc %h %p", ["nc %h %p"], ⟨none, 4⟩⟩]⟩], []⟩,
      by decide +kernel, congrArg Except.ok (by decide +kernel)⟩
  obtain ⟨hport, -, hrefused, -⟩ :=
    command_badRequest_iff hparse hfind (by decide) ⟨"/h", "u", "w", "/h/c"⟩
  exact ⟨c, _, hparse, hfind, by decide, hport, fun h => absurd (hrefused.mp h).1 (by decide)⟩

/-- A host name in empty quotes is accepted with its line, and refused when the command is
    built. -/
theorem command_badRequest_of_empty :
    ∃ c r f, (Config.parse .empty ⟨"/h", "u", "w", "/h/c"⟩ {}
          "HostName \"\"\nProxyCommand nc %h %p\n").value = .ok c
      ∧ Settings.find c ⟨"/h", "u", "w", "/h/c"⟩ {} "web" = .ok r ∧ "web" ≠ ""
      ∧ r.hostName = ""
      ∧ command r ⟨"/h", "u", "w", "/h/c"⟩ = .error f ∧ f.code = .badRequest :=
  ⟨⟨[⟨.global, ⟨none, 0⟩,
      [⟨"hostname", "HostName", "", [""], ⟨none, 1⟩⟩,
        ⟨"proxycommand", "ProxyCommand", "nc %h %p", ["nc %h %p"], ⟨none, 2⟩⟩]⟩], []⟩,
    ⟨"web", "", 22, "u", [], [], some "nc %h %p", none,
      [("hostname", ""), ("proxycommand", "nc %h %p")], false⟩,
    refusal ⟨"host", .tooShort⟩, by decide +kernel, congrArg Except.ok (by decide +kernel),
    by decide, rfl, rfl, rfl⟩

end Proxy

end SshDial
