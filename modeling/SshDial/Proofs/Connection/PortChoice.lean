import SshDial.Proofs.Connection.Cleanup
import SshDial.Proofs.Proxy.Request
import SshDial.Proofs.Settings.Lead
import SshDial.Proofs.Settings.Paths
import SshDial.Proofs.Template

/-! # PortChoice — a port of the caller's choice, beside a Port line

    The port that a session is asked for takes the place of the one that was worked out
    when everything else is known.  A Port line in front of the configuration is there from
    the beginning, but no criterion looks at the port, so the walk is the same beside it
    (`Resolution.Beside.walk`), and the way to the host is made of the settings when they
    are complete (`Connection.toHost_moved`).  What is left are the paths: their letters
    are put in before the port is changed (`Settings.PortMoved`).

    `Connection.ofOptions_port_ledBy` is the headline: the session is the one that the Port
    line leads to, but for the paths, and those agree exactly if every value stands for the
    same path with both ports.  A value that leaves the port out does
    (`Settings.expandPath_port`). -/

namespace SshDial

open Resolution

/-! ## The port that is asked for -/

theorem Check.isPort_of_optional {v : Value} {p : Number}
    (h : Check.optional Check.port v = .ok (some p)) : p.IsPort := by
  cases v with
  | undefined => exact nomatch h
  | number n =>
      obtain ⟨m, hcheck, hm⟩ := map_eq_ok_iff.mp h
      obtain ⟨rfl, hport⟩ := Check.isPort_of_port hcheck
      obtain rfl := Option.some.inj hm
      exact hport
  | _ => exact nomatch h

/-- The port of a request has been checked. -/
theorem ConnectRequest.isPort_of_ofOptions {options : Value} {q : ConnectRequest} {p : Number}
    (h : ConnectRequest.ofOptions options = .ok q) (hp : q.port = some p) : p.IsPort := by
  obtain ⟨option, -, h⟩ := bind_eq_ok_iff.mp h
  obtain ⟨host, -, h⟩ := bind_eq_ok_iff.mp h
  obtain ⟨username, -, h⟩ := bind_eq_ok_iff.mp h
  obtain ⟨port, hport, h⟩ := bind_eq_ok_iff.mp h
  obtain ⟨password, -, h⟩ := bind_eq_ok_iff.mp h
  obtain ⟨privateKeyPath, -, h⟩ := bind_eq_ok_iff.mp h
  obtain ⟨passphrase, -, h⟩ := bind_eq_ok_iff.mp h
  obtain ⟨readyTimeout, -, h⟩ := bind_eq_ok_iff.mp h
  obtain ⟨requireMatch, -, h⟩ := bind_eq_ok_iff.mp h
  obtain rfl := Except.ok.inj h
  obtain rfl : port = some p := hp
  exact Check.isPort_of_optional (Check.of_field hport)

/-! ## The letter of the port -/

namespace Settings

variable {env : Environment} {r : Settings} {value : String}

/-- The port shows in the text of a value exactly if its letter is asked for. -/
theorem expand_port_iff (env : Environment) (r : Settings) (p : Number) (value : String) :
    Template.expand (r.pathTokens env) value
        = Template.expand (({ r with port := p } : Settings).pathTokens env) value
      ↔ r.port.text = p.text ∨ Template.asksFor 'p' value.toList = false := by
  have hsplit : ∀ n : Number, ({ r with port := n } : Settings).pathTokens env
      = [('d', env.homeDir), ('u', env.localUser), ('l', env.localHostName), ('h', r.hostName),
          ('r', r.user), ('n', r.host)] ++ [('p', n.text)] := fun _ => rfl
  refine Template.expand_eq_iff ?_ (by decide) (by decide) rfl rfl value
  intro c hc
  have hlast : ∀ text : String, [('p', text)].lookup c = none := by
    intro text
    rw [List.lookup_cons, beq_false_of_ne hc]
    rfl
  show (({ r with port := r.port } : Settings).pathTokens env).lookup c = _
  rw [hsplit, hsplit, List.lookup_append, List.lookup_append, hlast, hlast]

/-- Does the text of a value begin with a tilde? -/
def startsTilde (env : Environment) (r : Settings) (value : String) : Prop :=
  (Template.expand (r.pathTokens env) value).toList.head? = some '~'

theorem expandPath_of_not_startsTilde (h : ¬ r.startsTilde env value) :
    r.expandPath env value = Template.expand (r.pathTokens env) value := by
  rw [startsTilde] at h
  rw [expandPath, Environment.expandTilde]
  split
  · rename_i hlone
    rw [hlone] at h
    exact absurd rfl h
  · rename_i hhome
    rw [hhome] at h
    exact absurd rfl h
  · rename_i hhome
    rw [hhome] at h
    exact absurd rfl h
  · rfl

/-- **When a path does not depend on the port.** It does not if its value leaves the port
    out, and behind a tilde it may not although the value asks for it: what is joined to
    the home directory is tidied. -/
theorem expandPath_port (env : Environment) (r : Settings) (p : Number) (value : String) :
    let t : Settings := { r with port := p }
    (r.port.text = p.text ∨ Template.asksFor 'p' value.toList = false →
        r.expandPath env value = t.expandPath env value)
      ∧ (r.expandPath env value = t.expandPath env value →
        r.port.text = p.text ∨ Template.asksFor 'p' value.toList = false
          ∨ r.startsTilde env value ∨ t.startsTilde env value) := by
  intro t
  have htext := expand_port_iff env r p value
  constructor
  · intro h
    exact congrArg env.expandTilde (htext.mpr h)
  · intro hsame
    by_cases hr : r.startsTilde env value
    · exact Or.inr (Or.inr (Or.inl hr))
    · by_cases ht : t.startsTilde env value
      · exact Or.inr (Or.inr (Or.inr ht))
      · rw [expandPath_of_not_startsTilde hr, expandPath_of_not_startsTilde ht] at hsame
        exact (htext.mp hsame).imp_right Or.inl

end Settings

/-! ## A Port line beside a port put in later -/

/-- Settings beside those that a Port line in front leads to, for a port and the values
    that the paths come from. -/
structure Settings.PortMoved (env : Environment) (values : PathKeyword → List String) (p : Number)
    (base led : Settings) : Prop where
  port : led.port = p
  /-- Nothing else differs but the option and the paths. -/
  rest : ({ base with port := p } : Settings).without "port"
    = { led.without "port" with
        identityFiles := base.identityFiles
        certificateFiles := base.certificateFiles }
  /-- The paths have the port in them that was worked out. -/
  paths (k : PathKeyword) : k.paths base = (values k).eraseDups.map (base.expandPath env)
  /-- The paths of the Port line have its port in them. -/
  paths_led (k : PathKeyword) :
    k.paths led
      = (values k).eraseDups.map (({ base with port := p } : Settings).expandPath env)

theorem Resolution.Beside.collected {key value : String} {s t : Resolution}
    (h : Beside key value s t) (k : PathKeyword) : k.collected s = k.collected t := by
  cases k with
  | identityFile =>
      have hsame := congrArg Resolution.identityFiles h.without
      exact hsame
  | certificateFile =>
      have hsame := congrArg Resolution.certificateFiles h.without
      exact hsame

/-- A subject beside itself with a port to go by: no criterion looks at it. -/
theorem Settings.matches_port (subject : Subject) (value : String) :
    subject.Matches "port" value subject where
  lone := by decide
  key_ne := by decide
  host := rfl
  env := rfl
  user := by
    intro s t h
    rw [Resolution.user, Resolution.user, h.get? (by decide)]

namespace Settings

open PathKeyword

variable {env : Environment} {values : PathKeyword → List String} {p : Number}
  {base led : Settings}

/-- Options and paths have no part in the expansion of a path. -/
theorem expandPath_of_rest
    (h : ({ base with port := p } : Settings).without "port"
      = { led.without "port" with
          identityFiles := base.identityFiles
          certificateFiles := base.certificateFiles }) :
    led.expandPath env = ({ base with port := p } : Settings).expandPath env := by
  have htokens : led.pathTokens env = ({ base with port := p } : Settings).pathTokens env := by
    have hsame := congrArg (fun r : Settings => r.pathTokens env) h
    exact hsame.symm
  funext value
  rw [expandPath, expandPath, htokens]

/-- What two states amount to that a Port line sets apart. -/
theorem portMoved_of_beside {subject : Subject} {s t : Resolution} {value : String}
    (h : Beside "port" value s t) (hvalue : Number.read value = p)
    (hvalues : ∀ k : PathKeyword, k.collected s = (values k).eraseDups) :
    PortMoved subject.env values p (s.settings subject) (t.settings subject) := by
  have hport : t.port = p := by
    rw [Resolution.port, h.value]
    exact hvalue
  have hrest : ({ s.settings subject with port := p } : Settings).without "port"
      = { (t.settings subject).without "port" with
          identityFiles := (s.settings subject).identityFiles
          certificateFiles := (s.settings subject).certificateFiles } := by
    have hsame := congrArg (fun r : Settings => { r with port := p })
      (settings_without_of_beside (matches_port subject value) h)
    have hidentity : t.identityFiles = s.identityFiles := (h.collected .identityFile).symm
    have hcertificate : t.certificateFiles = s.certificateFiles :=
      (h.collected .certificateFile).symm
    rw [hidentity, hcertificate] at hsame
    rw [← hport] at hsame ⊢
    exact hsame
  refine ⟨hport, hrest, ?_, ?_⟩
  · intro k
    rw [paths_settings, hvalues]
  · intro k
    rw [paths_settings, ← h.collected, hvalues, expandPath_of_rest hrest]

/-- **Both subjects are refused, or their settings are those of the Port line** but for the
    option and the paths. -/
theorem find_port_ledBy (config : Config) (env : Environment) (query : Query) (host : String)
    (name : String) (args : List String) (place o : Origin) {value : String}
    (hvalue : Number.read value = p) :
    (∃ f, find config env query host = .error f
        ∧ find (config.ledBy ⟨"port", name, value, args, place⟩ o) env query host = .error f)
      ∨ ∃ base led, find config env query host = .ok base
        ∧ find (config.ledBy ⟨"port", name, value, args, place⟩ o) env query host = .ok led
        ∧ PortMoved env
          (fun k => valuesInForce ⟨host, env, query.user⟩ config.stanzas k.key) p base led := by
  have hmatches := matches_port ⟨host, env, query.user⟩ value
  have h := @Beside.walk _ _ ⟨"port", name, value, args, place⟩ hmatches config o
  rcases @find_beside _ _ ⟨"port", name, value, args, place⟩ hmatches config o
    query.requireMatch with hrefused | ⟨hbase, hled⟩
  · exact Or.inl hrefused
  · have hmoved := @portMoved_of_beside _ p ⟨host, env, query.user⟩ _ _ value h hvalue fun k =>
      collected_walk k _ config.stanzas
    exact Or.inr ⟨_, _, hbase, hled, hmoved⟩

/-- The settings are those of the Port line exactly if no path depends on the port. -/
theorem PortMoved.without_eq_iff (h : PortMoved env values p base led) :
    ({ base with port := p } : Settings).without "port" = led.without "port"
      ↔ ∀ k, ∀ value ∈ values k,
        base.expandPath env value = ({ base with port := p } : Settings).expandPath env value := by
  have hpaths : ({ base with port := p } : Settings).without "port" = led.without "port"
      ↔ ∀ k : PathKeyword, k.paths base = k.paths led := by
    constructor
    · intro hsame k
      have hk := congrArg (fun r => k.paths r) hsame
      cases k with
      | identityFile => exact hk
      | certificateFile => exact hk
    · intro hsame
      have hidentity : base.identityFiles = led.identityFiles := hsame .identityFile
      have hcertificate : base.certificateFiles = led.certificateFiles := hsame .certificateFile
      rw [h.rest, hidentity, hcertificate]
      rfl
  rw [hpaths]
  refine forall_congr' fun k => ?_
  rw [h.paths, h.paths_led, List.map_inj_left]
  simp only [List.mem_eraseDups]

end Settings

namespace Connection

variable {tree : FileTree} {env : Environment} {through : TransportOptions}
  {asked : Except Value Handle} {values : PathKeyword → List String} {p : Number}
  {base led : Settings}

/-- The way to a host takes no notice of other options than the time for a connection. -/
theorem toHost_without {key : String} (h : key ≠ "connecttimeout") (r : Settings) :
    Transport.toHost (r.without key) env through asked
      = Transport.toHost r env through asked := by
  have hkeep : ("connecttimeout" != key) = true := bne_iff_ne.mpr h.symm
  have hlookup : (r.without key).options.lookup "connecttimeout"
      = r.options.lookup "connecttimeout" :=
    @lookup_filter_keys (· != key) "connecttimeout" hkeep r.options
  have htimeout : Route.timeout (r.without key) through = Route.timeout r through := by
    rw [Route.timeout, Route.timeout, hlookup]
  have hroute : Route.find (r.without key) env through = Route.find r env through := by
    rw [Route.find, Route.find, htimeout]
    rfl
  rw [Transport.toHost, Transport.toHost, hroute]

/-- Command, address and port do not come from the paths. -/
theorem toHost_moved (h : Settings.PortMoved env values p base led) :
    Transport.toHost ({ base with port := p } : Settings) env through asked
      = Transport.toHost led env through asked := by
  have hkey : "port" ≠ "connecttimeout" := by decide
  rw [← toHost_without hkey, h.rest, ← toHost_without hkey led]
  rfl

/-- A session begins as it does with the Port line, but with paths of its own. -/
theorem start_moved (h : Settings.PortMoved env values p base led) (q : ConnectRequest) :
    let r : Settings := { base with port := p }
    start tree env q r through asked
      = ((start tree env q led through asked).1.map fun c =>
          { c with settings := r, client := clientConfig tree q r },
        (start tree env q led through asked).2) := by
  intro r
  have hentry : openingEntry r = openingEntry led := by
    have hsame := congrArg openingEntry h.rest
    exact hsame
  rw [start, start, toHost_moved h, hentry]
  cases Transport.toHost led env through asked with
  | mk begun outputs =>
      cases begun with
      | error why => rfl
      | ok t => rfl

/-- The settings of a session are those of its host, with the port that was asked for. -/
theorem value_findSettings (config : Config) (q : ConnectRequest) :
    (findSettings config env q).value
      = (Settings.find config env ⟨q.username, q.requireMatch⟩ q.host).map
        fun r => withPort r q.port := by
  rw [← Settings.value_resolve]
  rfl

/-- **A session with a port of the caller's choice is the one that a Port line in front of
    the configuration leads to, but for the paths.** Either both are refused, or the session
    goes the same way with the same outputs; its settings and what the client is given are
    those of the line, with paths that have the port in them that was worked out.  Settings
    and paths are the same exactly if no value in force depends on which port is put in. -/
theorem ofOptions_port_ledBy {options : Value} {q : ConnectRequest} {given : Option Config}
    {config : Config} (hq : ConnectRequest.ofOptions options = .ok q) (hp : q.port = some p)
    (hconfig : (findConfig tree env given).value = .ok config)
    (name : String) (args : List String) (place place' : Origin) :
    let query : Settings.Query := ⟨q.username, q.requireMatch⟩
    let values (k : PathKeyword) := valuesInForce ⟨q.host, env, q.username⟩ config.stanzas k.key
    let leader : Directive := ⟨"port", name, p.text, args, place⟩
    let logged := (findConfig tree env given).entries ++ (findSettings config env q).entries
    (∃ f, Settings.find (config.ledBy leader place') env query q.host = .error f
        ∧ ofOptions tree env given options through asked
          = (.error (.failure f), logged.map .log))
      ∨ ∃ base led, Settings.find config env query q.host = .ok base
        ∧ Settings.find (config.ledBy leader place') env query q.host = .ok led
        ∧ Settings.PortMoved env values p base led
        ∧ (let r : Settings := { base with port := p }
          ofOptions tree env given options through asked
              = ((start tree env q led through asked).1.map fun c =>
                  { c with settings := r, client := clientConfig tree q r },
                logged.map .log ++ (start tree env q led through asked).2)
            ∧ (r.without "port" = led.without "port"
              ↔ ∀ k, ∀ value ∈ values k, base.expandPath env value = r.expandPath env value)
            ∧ ∀ value,
              (base.port.text = p.text ∨ Template.asksFor 'p' value.toList = false →
                base.expandPath env value = r.expandPath env value)
              ∧ (base.expandPath env value = r.expandPath env value →
                base.port.text = p.text ∨ Template.asksFor 'p' value.toList = false
                  ∨ base.startsTilde env value ∨ r.startsTilde env value)) := by
  intro query values leader logged
  have hread : Number.read p.text = p :=
    (ConnectRequest.isPort_of_ofOptions hq hp).read_text
  rcases Settings.find_port_ledBy config env query q.host name args place place' hread with
    ⟨f, hbase, hled⟩ | ⟨base, led, hbase, hled, hmoved⟩
  · refine Or.inl ⟨f, hled, ?_⟩
    refine ofOptions_of_findSettings_error hq hconfig ?_
    rw [value_findSettings, hbase]
    rfl
  · refine Or.inr ⟨base, led, hbase, hled, hmoved, ?_, hmoved.without_eq_iff,
      Settings.expandPath_port env base p⟩
    have hfound : (findSettings config env q).value = .ok { base with port := p } := by
      rw [value_findSettings, hbase, hp]
      rfl
    rw [ofOptions_of_findSettings_ok hq hconfig hfound, start_moved hmoved q]

/-- A port in place of a configured one, and a path that leaves it out. -/
theorem ofOptions_port_ledBy_web :
    ∃ c base led, (Config.parse .empty ⟨"/h", "u", "w", "/h/c"⟩ {}
          "Host web\nPort 2200\nIdentityFile /keys/%h\n").value = .ok c
      ∧ Settings.find c ⟨"/h", "u", "w", "/h/c"⟩ {} "web" = .ok base
      ∧ Settings.find (c.ledBy ⟨"port", "Port", "2222", ["2222"], ⟨none, 1⟩⟩ ⟨none, 0⟩)
          ⟨"/h", "u", "w", "/h/c"⟩ {} "web" = .ok led
      ∧ base.port = 2200
      ∧ ({ base with port := 2222 } : Settings).without "port" = led.without "port" := by
  obtain ⟨c, hc⟩ : ∃ c : Config, c = ⟨[⟨.host ["web"], ⟨none, 1⟩,
      [⟨"port", "Port", "2200", ["2200"], ⟨none, 2⟩⟩,
        ⟨"identityfile", "IdentityFile", "/keys/%h", ["/keys/%h"], ⟨none, 3⟩⟩]⟩], []⟩ :=
    ⟨_, rfl⟩
  have hparse : (Config.parse .empty ⟨"/h", "u", "w", "/h/c"⟩ {}
      "Host web\nPort 2200\nIdentityFile /keys/%h\n").value = .ok c := by
    rw [hc]
    decide +kernel
  have hfind : Settings.find c ⟨"/h", "u", "w", "/h/c"⟩ {} "web"
      = .ok ⟨"web", "web", 2200, "u", ["/keys/web"], [], none, none,
        [("port", "2200"), ("identityfile", "/keys/%h")], true⟩ := by
    rw [hc]
    exact congrArg Except.ok (by decide +kernel)
  have hoptions : ConnectRequest.ofOptions
      (.record [("host", .text "web"), ("port", .number 2222)])
      = .ok ⟨"web", none, some 2222, none, none, none, 20000, false⟩ := by rfl
  rcases @ofOptions_port_ledBy .empty ⟨"/h", "u", "w", "/h/c"⟩ {} (.ok ⟨none, true⟩) 2222 _ _
      (some c) c hoptions rfl rfl "Port" ["2222"] ⟨none, 1⟩ ⟨none, 0⟩ with
    ⟨f, hled, -⟩ | ⟨base, led, hbase, hled, -, -, hsame, -⟩
  · have hfound := Settings.find_of_not_requireMatch
      (c.ledBy ⟨"port", "Port", Number.text 2222, ["2222"], ⟨none, 1⟩⟩ ⟨none, 0⟩)
      ⟨"web", ⟨"/h", "u", "w", "/h/c"⟩, none⟩
    exact nomatch hfound.symm.trans hled
  · obtain rfl := Except.ok.inj (hfind.symm.trans hbase)
    refine ⟨c, _, led, hparse, hfind, hled, rfl, hsame.mpr ?_⟩
    intro k
    rw [hc]
    cases k with
    | identityFile => decide +kernel
    | certificateFile => decide +kernel

/-- The port that was worked out is in the path, the one that was asked for is not. -/
theorem ofOptions_port_ledBy_split :
    ∃ c r led, (Config.parse .empty ⟨"/h", "u", "w", "/h/c"⟩ {}
          "IdentityFile /keys/%p\n").value = .ok c
      ∧ (ofOptions .empty ⟨"/h", "u", "w", "/h/c"⟩ (some c)
          (.record [("host", .text "web"), ("port", .number 2222)]) {}
          (.ok ⟨none, true⟩)).1.toOption.map (·.settings) = some r
      ∧ Settings.find (c.ledBy ⟨"port", "Port", "2222", ["2222"], ⟨none, 1⟩⟩ ⟨none, 0⟩)
          ⟨"/h", "u", "w", "/h/c"⟩ {} "web" = .ok led
      ∧ r.port = 2222 ∧ r.identityFiles = ["/keys/22"]
      ∧ led.port = 2222 ∧ led.identityFiles = ["/keys/2222"]
      ∧ r.without "port" ≠ led.without "port" := by
  refine ⟨⟨[⟨.global, ⟨none, 0⟩,
      [⟨"identityfile", "IdentityFile", "/keys/%p", ["/keys/%p"], ⟨none, 1⟩⟩]⟩], []⟩,
    ⟨"web", "web", 2222, "u", ["/keys/22"], [], none, none,
      [("identityfile", "/keys/%p")], false⟩,
    ⟨"web", "web", 2222, "u", ["/keys/2222"], [], none, none,
      [("port", "2222"), ("identityfile", "/keys/%p")], false⟩, by decide +kernel,
    by decide +kernel, congrArg Except.ok (by decide +kernel), rfl, rfl, rfl, rfl, by decide⟩

end Connection

end SshDial
